import Harpoon.Docker.Json
import Harpoon.Wire.Fields

/-!
# Host paths in a body that creates a container

A body names paths of the host as the sources of its binds and mounts. The bridge refuses one whose path is not shared or not there
(`UnixBridge.swift`), and puts the guest's paths into the others (`HostPathTranslator.swift`).

A body is what is read of it, an object; an object's members have different names. Texts are compared character by
character, which is not Swift's way with combining characters. What is logged is left out.
-/

namespace Harpoon.HostPaths

open Docker (Json)
open Wire (fields joined stripPrefix)

def hasPrefix (s p : String) : Bool := (stripPrefix p s).isSome

def dropFirst (n : Nat) (s : String) : String := String.ofList (s.toList.drop n)

/-- What may stand behind a directory in a path at it or below it. -/
def Tail (rest : String) : Prop := rest = "" ∨ ∃ t, rest = "/" ++ t

/-- `URL.standardized`, and the file that a path leads to, links followed. -/
structure Mac (File : Type) where
  standardized : String → String
  /-- Segments are taken out of a path, and nothing is put in. -/
  removes : ∀ p, hasPrefix p "/" = true → ∀ c ∈ (standardized p).toList, c ∈ p.toList
  lookup : String → Option File
  /-- `/tmp` is a link to `/private/tmp`. -/
  tmp : ∀ rest, Tail rest → lookup ("/tmp" ++ rest) = lookup ("/private/tmp" ++ rest)

def Mac.fileExists {File : Type} (mac : Mac File) (p : String) : Bool := (mac.lookup p).isSome

structure SharedRoot where
  hostPath : String
  guestPath : String
  deriving DecidableEq, Repr

/-! ## Objects -/

abbrev Members := List (String × Json)

namespace Members

def subscript (key : String) (ms : Members) : Option Json := (Json.obj ms).get key

/-- The member of the name with another value. -/
def put (key : String) (v : Json) : Members → Members
  | [] => [(key, v)]
  | m :: ms => if m.1 = key then (key, v) :: ms else m :: put key v ms

end Members

open Members

/-- `as? [String]` -/
def strings? : Json → Option (List String)
  | .arr items => items.mapM Json.asStr
  | _ => none

/-- `as? [[String: Any]]` -/
def objects? : Json → Option (List Members)
  | .arr items => items.mapM Json.asObject
  | _ => none

def string (key : String) (ms : Members) : Option String := (ms.subscript key).bind Json.asStr

def object (key : String) (ms : Members) : Option Members := (ms.subscript key).bind Json.asObject

/-! ## A host path -/

section

variable {File : Type} (mac : Mac File) (roots : List SharedRoot)

abbrev Best := Option SharedRoot × Int

def Best.orLonger (best : Best) (r : SharedRoot) : Best :=
  if (r.hostPath.length : Int) > best.2 then (some r, r.hostPath.length) else best

def Best.orLongerIf (best : Best) (matches_ : Bool) (r : SharedRoot) : Best := if matches_ then best.orLonger r else best

/-- One round over the shared roots. -/
def consider (std : String) (best : Best) (r : SharedRoot) : Best :=
  let hp := r.hostPath
  let best := best.orLongerIf (std = hp || hasPrefix std (hp ++ "/")) r
  let best := best.orLongerIf (hp = "/private/tmp" && (std = "/tmp" || hasPrefix std "/tmp/")) r
  best.orLongerIf (hp = "/tmp" && (std = "/private/tmp" || hasPrefix std "/private/tmp/")) r

def remainder (std : String) (root : SharedRoot) : Option String :=
  if std = root.hostPath then some ""
  else if hasPrefix std (root.hostPath ++ "/") then some (dropFirst root.hostPath.length std)
  else if root.hostPath = "/private/tmp" && hasPrefix std "/tmp" then
    if std = "/tmp" then some "" else some (dropFirst "/tmp".length std)
  else if root.hostPath = "/tmp" && hasPrefix std "/private/tmp" then
    if std = "/private/tmp" then some "" else some (dropFirst "/private/tmp".length std)
  else none

def translateHostPath (host : String) : Option String :=
  if hasPrefix host "/" then do
    let std := mac.standardized host
    let root ← (roots.foldl (consider std) (none, -1)).1
    let remainder ← remainder std root
    return root.guestPath ++ remainder
  else none

/-! ## The translation -/

def translateBindsEntry (entry : String) : String :=
  match fields ':' entry with
  | source :: target :: mode =>
    match translateHostPath mac roots source with
    | some translated => joined ':' (translated :: target :: mode)
    | none => entry
  | _ => entry

/-- A mount of `HostConfig.Mounts`, if it is translated. -/
def hostMount (m : Members) : Option Members :=
  let typed := do
    let type ← string "Type" m
    guard (type = "bind")
    let src ← string "Source" m
    let trans ← translateHostPath mac roots src
    return m.put "Source" (.str trans)
  let untyped := do
    guard (m.subscript "Type").isNone
    let src ← string "Source" m
    let trans ← translateHostPath mac roots src
    return m.put "Source" (.str trans)
  typed <|> untyped

/-- A mount of `Mounts`, if it is translated. -/
def topMount (m : Members) : Option Members := do
  let src ← string "Source" m
  let trans ← translateHostPath mac roots src
  if string "Type" m = some "bind" then return m.put "Source" (.str trans)
  else if (m.subscript "Type").isNone then return m.put "Source" (.str trans)
  else none

def translateBinds (ms : Members) : Option Members := do
  let binds ← (ms.subscript "Binds").bind strings?
  guard (binds.any fun b => translateBindsEntry mac roots b ≠ b)
  return ms.put "Binds" (.arr (binds.map fun b => .str (translateBindsEntry mac roots b)))

def translateMounts (mount : Members → Option Members) (ms : Members) : Option Members := do
  let mounts ← (ms.subscript "Mounts").bind objects?
  guard (mounts.any fun m => (mount m).isSome)
  return ms.put "Mounts" (.arr (mounts.map fun m => .obj ((mount m).getD m)))

def inHostConfig (change : Members → Option Members) (ms : Members) : Option Members := do
  let hostConfig ← object "HostConfig" ms
  let hostConfig ← change hostConfig
  return ms.put "HostConfig" (.obj hostConfig)

/-- The four places, in order. None of them changes what it leaves as it was. -/
def places : List (Members → Option Members) :=
  [inHostConfig (translateBinds mac roots), inHostConfig (translateMounts (hostMount mac roots)),
    translateMounts (topMount mac roots), translateBinds mac roots]

/-- What a place makes of the body, and whether any has changed it. -/
def attempt (sofar : Members × Bool) (place : Members → Option Members) : Members × Bool :=
  match place sofar.1 with
  | some new => (new, true)
  | none => sofar

/-- Nothing when nothing is changed. -/
def translateCreateBody (json : Members) : Option Members :=
  let done := (places mac roots).foldl attempt (json, false)
  if done.2 then some done.1 else none

/-- The body that Docker is sent. -/
def forwarded (json : Members) : Members := (translateCreateBody mac roots json).getD json

/-! ## The check -/

inductive Reason where
  | notShared
  | missing
  deriving DecidableEq, Repr

def issue (src : String) : Option (String × Reason) :=
  if !hasPrefix src "/" then none
  else if (translateHostPath mac roots src).isNone then some (src, .notShared)
  else if mac.fileExists src then none
  else some (src, .missing)

def bindIssue (b : String) : Option (String × Reason) :=
  match fields ':' b with
  | src :: _ :: _ => issue mac roots src
  | _ => none

def mountIssue (m : Members) : Option (String × Reason) := do
  let src ← string "Source" m
  let t := string "Type" m
  if t = none || t = some "bind" then issue mac roots src else none

def binds (ms : Members) : List String := ((ms.subscript "Binds").bind strings?).getD []

def mounts (ms : Members) : List Members := ((ms.subscript "Mounts").bind objects?).getD []

def firstInvalidHostPath (json : Members) : Option (String × Reason) :=
  let hostConfig := (object "HostConfig" json).getD []
  (binds hostConfig).findSome? (bindIssue mac roots)
    <|> (mounts hostConfig).findSome? (mountIssue mac roots)
    <|> (mounts json).findSome? (mountIssue mac roots)
    <|> (binds json).findSome? (bindIssue mac roots)

end

end Harpoon.HostPaths
