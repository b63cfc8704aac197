import Harpoon.Wire.Number

/-!
# A release's environment

The non-secret variables of a release (`envvars.rs`): unique valid names and bounded sizes, in the order
of their names.
-/

namespace Harpoon.Deploy.Envvars

def marker : String := "HARPOON_DEPLOYMENT_MARKER"

def reservedPrefix : String := "HARPOON_"

def maxVariables : Nat := 64

def maxNameBytes : Nat := 128

def maxValueBytes : Nat := 4096

def maxTotalBytes : Nat := 32 * 1024

/-- A text as Rust prints it for debugging. Outside ASCII the source prints some characters by their
code point instead of as they are. -/
def debugStr (s : String) : String :=
  let char (c : Char) : String :=
    match c with
    | '\t' => "\\t"
    | '\r' => "\\r"
    | '\n' => "\\n"
    | '"' => "\\\""
    | '\\' => "\\\\"
    | '\x00' => "\\0"
    | c =>
      if c.toNat < 32 ∨ c.toNat = 127 then "\\u\x7b" ++ Wire.hexPadded 0 c.toNat ++ "\x7d" else c.toString
  "\"" ++ "".intercalate (s.toList.map char) ++ "\""

/-- May a name begin with the character? -/
def isInitial (c : Char) : Bool := c.isAlpha || c = '_'

/-- May a name go on with the character? -/
def isFollowing (c : Char) : Bool := c.isAlphanum || c = '_'

def checkName (name : String) : Except String Unit :=
  if name.isEmpty then .error "an --env name is empty"
  else if name.utf8ByteSize > maxNameBytes then
    .error s!"--env name {debugStr name} is longer than {maxNameBytes} bytes"
  else if !(name.toList.head?.any isInitial && (name.toList.drop 1).all isFollowing) then
    .error s!"--env name {debugStr name} is not valid: use letters, digits and underscores, not starting with a digit"
  else if (Wire.stripPrefix reservedPrefix name).isSome then
    .error (s!"--env name {debugStr name} is reserved: names starting with {reservedPrefix} belong to Harpoon" ++
      if name = marker then
        " (the per-container response marker is generated for every container and cannot be set)"
      else "")
  else .ok ()

/-- Is the character a control character? -/
def isControl (c : Char) : Bool := c.toNat < 32 || (127 ≤ c.toNat && c.toNat < 160)

def checkValue (name value : String) : Except String Unit :=
  if value.utf8ByteSize > maxValueBytes then
    .error s!"the value of --env {name} is longer than {maxValueBytes} bytes"
  else
    match value.toList.find? isControl with
    | some c =>
      .error s!"the value of --env {name} contains a control character (U+{(Wire.hexPadded 4 c.toNat).toUpper}); only printable text is accepted"
    | none => .ok ()

/-- Check each pair, given the names before it. -/
def checkPairs : List String → List (String × String) → Except String Unit
  | _, [] => .ok ()
  | seen, (n, v) :: rest => do
    checkName n
    checkValue n v
    if seen.contains n then throw s!"--env {n} is given more than once"
    checkPairs (n :: seen) rest

def totalBytes (pairs : List (String × String)) : Nat :=
  pairs.foldl (fun total p => total + (p.1.utf8ByteSize + p.2.utf8ByteSize + 1)) 0

/-- The order of pairs: by name, then by value. -/
def pairLe (a b : String × String) : Bool := a.1 < b.1 || (a.1 = b.1 && !decide (b.2 < a.2))

/-- A whole set of variables, in order. -/
def validate (pairs : List (String × String)) : Except String (List (String × String)) :=
  if pairs.length > maxVariables then
    .error s!"{pairs.length} variables given; at most {maxVariables} are accepted"
  else do
    checkPairs [] pairs
    if totalBytes pairs > maxTotalBytes then
      .error s!"the variables total {totalBytes pairs} bytes; at most {maxTotalBytes} are accepted"
    else .ok (pairs.mergeSort pairLe)

/-- One `KEY=VALUE` argument. -/
def parseOne (arg : String) : Except String (String × String) :=
  match Wire.splitOnce '=' arg with
  | none =>
    .error s!"--env {debugStr arg} must look like KEY=VALUE (use KEY= for an explicit empty value)"
  | some (name, value) => do
    checkName name
    checkValue name value
    return (name, value)

def parseAll (args : List String) : Except String (List (String × String)) := do
  let pairs ← args.mapM parseOne
  validate pairs

/-- `KEY=VALUE` texts, as Docker takes them. -/
def dockerForm (pairs : List (String × String)) : List String :=
  pairs.map fun p => p.1 ++ (String.singleton '=' ++ p.2)

/-! ## What an accepted name is made of -/

theorem name_chars {name : String} (accepted : checkName name = .ok ()) :
    ∀ c ∈ name.toList, isFollowing c = true := by
  have formed : (name.toList.head?.any isInitial && (name.toList.drop 1).all isFollowing) = true := by
    unfold checkName at accepted
    split at accepted
    · cases accepted
    · split at accepted
      · cases accepted
      · split at accepted
        · cases accepted
        next formed => simpa using formed
  intro c mem
  cases chars : name.toList with
  | nil => rw [chars] at mem; cases mem
  | cons first rest =>
    rw [chars] at mem formed
    obtain ⟨initial, following⟩ := Bool.and_eq_true_iff.mp formed
    rcases List.mem_cons.mp mem with rfl | mem
    · have initial : isInitial c = true := initial
      rcases Bool.or_eq_true_iff.mp initial with alpha | underscore
      · simp [isFollowing, Char.isAlphanum, alpha]
      · simp [isFollowing, underscore]
    · exact List.all_eq_true.mp following c mem

theorem name_free {name : String} {sep : Char} (accepted : checkName name = .ok ())
    (foreign : isFollowing sep = false) : Wire.Free sep name :=
  fun mem => by cases foreign.symm.trans (name_chars accepted sep mem)

end Harpoon.Deploy.Envvars
