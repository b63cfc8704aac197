import Harpoon.Deploy.Surroundings

/-!
# Pauses, events and decisions

The records of `control.rs`. A **pause** says why and since when the automatic triggers of an
application are paused; an **event** is a trigger event that was received, named by its delivery id; a
**resume** is one developer decision; an **exec** says that the source executor consumed an event.
-/

namespace Harpoon.Control

open Deploy

/-! ## Records -/

inductive PauseKind where
  | failedCutover
  | interruptedCutover
  | rollback
  deriving DecidableEq, Repr

def PauseKind.asStr : PauseKind → String
  | .failedCutover => "failed_cutover"
  | .interruptedCutover => "interrupted_cutover"
  | .rollback => "rollback"

structure PauseRec where
  app : ApplicationId
  /-- The deployment that caused the pause. -/
  origin : DeploymentId
  kind : PauseKind
  atMs : Nat
  context : String
  deriving DecidableEq, Repr

structure EventRec where
  app : ApplicationId
  delivery : String
  source : String
  revision : String
  receivedMs : Nat
  deriving DecidableEq, Repr

inductive Choice where
  | dismiss
  | newest
  | revision (r : String)
  deriving DecidableEq, Repr

inductive SupersededWhy where
  /-- An older event, replaced by a newer selected one. -/
  | newerSelected
  /-- Not the revision the developer chose. -/
  | notChosen
  deriving DecidableEq, Repr

def SupersededWhy.asStr : SupersededWhy → String
  | .newerSelected => "newer_selected"
  | .notChosen => "not_chosen"

structure ResumeRec where
  app : ApplicationId
  atMs : Nat
  choice : Choice
  /-- The event this decision selected. -/
  selected : Option String
  dismissed : List String
  superseded : List (String × SupersededWhy)
  /-- The pauses this decision cleared, by their origin. -/
  cleared : List DeploymentId
  deriving DecidableEq, Repr

inductive ExecOutcome where
  /-- A deployment was created for the event. -/
  | deployed
  /-- Nothing was deployed. -/
  | failed
  deriving DecidableEq, Repr

structure ExecRec where
  app : ApplicationId
  delivery : String
  outcome : ExecOutcome
  deployment : Option DeploymentId
  /-- Why nothing was deployed. -/
  reason : String
  superseded : List String
  atMs : Nat
  deriving DecidableEq, Repr

inductive ControlRecord where
  | pause (p : PauseRec)
  | event (e : EventRec)
  | resume (x : ResumeRec)
  | exec (x : ExecRec)
  deriving DecidableEq, Repr

/-! ## Validation -/

inductive ControlError where
  /-- The input is malformed. -/
  | invalid (why : String)
  /-- The input contradicts what is recorded. -/
  | conflict (why : String)
  | journal (e : JournalError)
  deriving DecidableEq, Repr

def maxToken : Nat := 128

/-- The number of bytes of a text. -/
def byteLen (v : String) : Nat := v.utf8ByteSize

/-- The digits of a code point in hexadecimal, as few as it takes. -/
def hexDigits (n : Nat) : String := String.ofList (Nat.toDigits 16 n)

/-- A character as Rust prints it for debugging. Outside ASCII the source prints some characters by
their code point instead of as they are. -/
def debugChar (c : Char) : String :=
  match c with
  | '\t' => "'\\t'"
  | '\r' => "'\\r'"
  | '\n' => "'\\n'"
  | '\'' => "'\\''"
  | '\\' => "'\\\\'"
  | '\x00' => "'\\0'"
  | c =>
    if c.toNat < 32 ∨ c.toNat = 127 then "'\\u\x7b" ++ hexDigits c.toNat ++ "\x7d'"
    else "'" ++ c.toString ++ "'"

def debugChars (cs : List Char) : String := "[" ++ ", ".intercalate (cs.map debugChar) ++ "]"

/-- May the character be part of a token? -/
def tokenChar (extra : List Char) (c : Char) : Bool :=
  c.isAlphanum || c = '.' || c = '_' || c = '-' || extra.contains c

def token (what v : String) (extra : List Char) : Except String Unit :=
  if v.isEmpty ∨ byteLen v > maxToken then
    .error s!"{what} must be 1..={maxToken} bytes"
  else
    match v.toList.find? fun c => !tokenChar extra c with
    | some c =>
      .error s!"{what} contains {debugChar c}; only letters, digits and . _ - {debugChars extra} are accepted"
    | none => .ok ()

def checkDelivery (v : String) : Except String Unit := token "a delivery id" v [':']

def checkSource (v : String) : Except String Unit := do
  token "an event source" v []
  if byteLen v > 32 then throw "an event source is at most 32 bytes"

def checkRevision (v : String) : Except String Unit := token "a source revision" v ['/']

end Harpoon.Control
