import Harpoon.Deploy.Envvars
import Harpoon.Git.Registry
import Harpoon.Git.Url

/-!
# The forms of the desktop

What the forms for variables and for registrations check and send (`deployEngine.ts`). An expression tests the UTF-16 code units of a text;
lengths are of its UTF-8.
-/

/-!
## Local repositories in the desktop

The desktop asks for a folder and hands the engine a `file://` URL of it (`deployEngine.ts`).
-/

namespace Harpoon.Desktop

open Git (startsWith)

/-- Is the byte written as it is? -/
def isPlain (b : UInt8) : Bool :=
  let c := Char.ofNat b.toNat
  c.isAlphanum || c = '.' || c = '/' || c = '_' || c = '~' || c = '-'

/-- A byte, as it is or behind a `%`. -/
def urlByte (b : UInt8) : List Char :=
  if isPlain b then [Char.ofNat b.toNat] else '%' :: (Wire.hexPadded 2 b.toNat).toUpper.toList

/-- What the desktop takes for no path that the engine would accept. -/
def refusesPath (p : String) : Bool :=
  !startsWith '/' p || p.toList.any (fun c => c.toNat < 32 || c.toNat = 127) ||
    (Wire.fields '/' p).any fun c => c = ".." || c = "."

/-- The URL of a folder, which may be given as a URL already. -/
def fileUrlFor (path : String) : Option String :=
  let p := (Wire.stripPrefix "file://" path).getD path
  if refusesPath p then none else some ("file://" ++ String.ofList ((Wire.utf8 p).flatMap urlByte))

end Harpoon.Desktop

namespace Harpoon.Forms

open Desktop (fileUrlFor)
open Wire (Bytes utf8 fromUtf8)
open Git (startsWith)

/-! ## Texts -/

/-- The UTF-16 code units of a character. -/
def unitsOf (c : Char) : List Nat :=
  if c.toNat < 0x10000 then [c.toNat]
  else [0xd800 + (c.toNat - 0x10000) / 0x400, 0xdc00 + (c.toNat - 0x10000) % 0x400]

def units (s : String) : List Nat := s.toList.flatMap unitsOf

/-- `[\u0000-\u001f\u007f]` -/
def isControlUnit (u : Nat) : Bool := u ≤ 0x1f || u = 0x7f

/-- `[A-Za-z]` -/
def isLetterUnit (u : Nat) : Bool := 65 ≤ u && u ≤ 90 || 97 ≤ u && u ≤ 122

/-- `[0-9]` -/
def isDigitUnit (u : Nat) : Bool := 48 ≤ u && u ≤ 57

def hasControl (s : String) : Bool := (units s).any isControlUnit

/-- White space and line terminators, which `trim` takes away at both ends. -/
def isTrimmed (c : Char) : Bool :=
  let n := c.toNat
  9 ≤ n && n ≤ 13 || n = 0x20 || n = 0xa0 || n = 0x1680 || 0x2000 ≤ n && n ≤ 0x200a || n = 0x2028 || n = 0x2029 || n = 0x202f ||
    n = 0x205f || n = 0x3000 || n = 0xfeff

def trim (s : String) : String := String.ofList ((s.toList.dropWhile isTrimmed).reverse.dropWhile isTrimmed).reverse

/-! ## Numbers -/

/-- The number that digits spell. -/
def spelled (radix : Nat) (ds : List Char) : Nat := (Wire.readDigits radix 0 ds).getD 0

/-- The double next to a quotient, the even one of two, where it is a whole number from 1 on and less than 2⁵³. -/
def nearestWhole (num den : Nat) : Option Nat :=
  -- The bits of the mantissa that stand behind the point.
  let bits := if num < den then 53 else 52 - (num / den).log2
  let low := (num <<< bits) / den
  let rest := (num <<< bits) % den
  let rounded := if den < 2 * rest ∨ den = 2 * rest ∧ low % 2 = 1 then low + 1 else low
  if 52 < (num / den).log2 ∨ rounded >>> bits = 0 ∨ (rounded >>> bits) <<< bits ≠ rounded then none else some (rounded >>> bits)

/-- Digits behind an `e`, which may have a sign: whether it is a minus, and the digits. -/
def exponentPart : List Char → Option (Bool × Nat)
  | [] => some (false, 0)
  | e :: cs =>
    let digits := match cs with | '+' :: ds => ds | '-' :: ds => ds | ds => ds
    if (e = 'e' ∨ e = 'E') ∧ digits ≠ [] ∧ digits.all Char.isDigit then some (cs.head? = some '-', spelled 10 digits) else none

/-- A decimal literal without a sign. -/
def decimalNumber (cs : List Char) : Option Nat :=
  let whole := cs.takeWhile Char.isDigit
  let behind := cs.dropWhile Char.isDigit
  let fraction := if behind.head? = some '.' then (behind.drop 1).takeWhile Char.isDigit else []
  let power := if behind.head? = some '.' then (behind.drop 1).dropWhile Char.isDigit else behind
  match exponentPart power with
  | none => none
  | some (minus, by_) =>
    let zeros := List.replicate by_ '0'
    let unit := '1' :: List.replicate fraction.length '0'
    if whole = [] ∧ fraction = [] then none
    else if minus then nearestWhole (spelled 10 (whole ++ fraction)) (spelled 10 (unit ++ zeros))
    else nearestWhole (spelled 10 (whole ++ fraction ++ zeros)) (spelled 10 unit)

def radixOf (x : Char) : Option Nat :=
  if x = 'x' ∨ x = 'X' then some 16 else if x = 'o' ∨ x = 'O' then some 8 else if x = 'b' ∨ x = 'B' then some 2 else none

/-- What `Number` makes of a text, where that is a whole number from 1 on and less than 2⁵³. -/
def number (s : String) : Option Nat :=
  match (trim s).toList with
  | '+' :: cs => decimalNumber cs
  | '0' :: x :: cs =>
    match radixOf x with
    | some radix =>
      if cs ≠ [] ∧ cs.all fun d => (Wire.digitValue d).any (· < radix) then nearestWhole (spelled radix cs) 1 else none
    | none => decimalNumber ('0' :: x :: cs)
  | cs => decimalNumber cs

/-! ## Variables -/

def reservedEnvPrefix : String := "HARPOON_"

def maxNameBytes : Nat := 128

def maxValueBytes : Nat := 4096

def variableNameProblem (name : String) : Option String :=
  if name = "" then none
  else if maxNameBytes < (utf8 name).length then some s!"Names can be at most {maxNameBytes} bytes."
  else if !(units name).head?.any fun u => isLetterUnit u || u = 95 then some "A name must start with a letter or an underscore."
  else if !(units name).all fun u => isLetterUnit u || isDigitUnit u || u = 95 then some "Use only letters, digits and underscores."
  else if (units reservedEnvPrefix).isPrefixOf (units name) then
    some s!"Names starting with {reservedEnvPrefix} are reserved for Harpoon (for example the per-container response marker) and cannot be set."
  else none

def configValueProblem (value : String) : Option String :=
  if maxValueBytes < (utf8 value).length then some s!"A value can be at most {maxValueBytes} bytes."
  else if hasControl value then some "A value cannot contain control characters (newlines included)."
  else none

/-! ## Locations -/

/-- The bytes that a component stands for. -/
def octets : Bytes → Option Bytes
  | [] => some []
  | b :: rest =>
    if b ≠ 0x25 then (b :: ·) <$> octets rest
    else
      match rest with
      | h :: l :: rest =>
        match Wire.digitValue (Char.ofNat h.toNat), Wire.digitValue (Char.ofNat l.toNat) with
        | some high, some low => (UInt8.ofNat (high * 16 + low) :: ·) <$> octets rest
        | _, _ => none
      | _ => none

/-- None where it would throw. -/
def decodeURIComponent (s : String) : Option String := (octets (utf8 s)).bind fromUtf8

/-- A URL as a person reads it: a folder by its path. -/
def displayUrl (url : String) : String :=
  match Wire.stripPrefix "file://" url with
  | none => url
  | some path =>
    match decodeURIComponent path with
    | some d => if startsWith '/' d && !hasControl d then d else url
    | none => url

/-! ## Registrations -/

/-- A registration, as the engine reports it. -/
structure EngineRepo where
  name : String
  url : String
  branch : String
  containerPort : Nat
  dockerfile : Option String
  healthPath : Option String
  registeredMs : Nat
  deriving DecidableEq, Repr

def EngineRepo.of (r : Git.RepoRec) : EngineRepo :=
  ⟨r.name, r.url, r.branch, r.containerPort.toNat, r.dockerfile, r.healthPath, r.atMs⟩

inductive LocationKind where
  | git
  | folder
  deriving DecidableEq, Repr

structure RegistrationForm where
  kind : LocationKind
  location : String
  branch : String
  dockerfile : String
  port : String
  health : String
  deriving DecidableEq, Repr

/-- The form as the registration stands. -/
def registrationFormOf (r : EngineRepo) : RegistrationForm where
  kind := if (Wire.stripPrefix "file://" r.url).isSome then .folder else .git
  location := displayUrl r.url
  branch := r.branch
  dockerfile := r.dockerfile.getD ""
  port := r.containerPort.repr
  health := r.healthPath.getD ""

/-- What an edit asks the engine for. -/
structure UpdateRepo where
  name : String
  expectRegisteredMs : Nat
  confirmChange : Bool
  url : Option String
  branch : Option String
  dockerfile : Option String
  healthPath : Option String
  containerPort : Option Nat
  deriving DecidableEq, Repr

structure RegistrationEdit where
  op : Option UpdateRepo
  changed : List String
  problem : Option String
  deriving DecidableEq, Repr

/-- A value that is not what it was. -/
def differing {α : Type} [DecidableEq α] (now was : α) : Option α := if now ≠ was then some now else none

/-- The URL of the location. -/
def editedUrl (f : RegistrationForm) : Except String String :=
  match f.kind with
  | .folder =>
    match fileUrlFor (trim f.location) with
    | some url => .ok url
    | none => .error "Enter an absolute folder path (starting with /, without . or .. parts)."
  | .git => if trim f.location = "" then .error "Enter the repository URL." else .ok (trim f.location)

def editedBranch (f : RegistrationForm) : Except String String :=
  if trim f.branch = "" then .error "A branch is required." else .ok (trim f.branch)

/-- A path that may be unset, but not cleared. -/
def editedPath (label now was : String) : Except String (Option String) :=
  if now = "" ∧ was ≠ "" then .error s!"{label} cannot be cleared; enter the path to use."
  else .ok (if now ≠ "" then differing now was else none)

def editedPort (f : RegistrationForm) : Except String Nat :=
  match number f.port with
  | some port => if port < 1 ∨ 65535 < port then .error "The container port must be a number from 1 to 65535." else .ok port
  | none => .error "The container port must be a number from 1 to 65535."

/-- The request for what differs. -/
def editOp (r : EngineRepo) (f : RegistrationForm) (confirm : Bool) : Except String UpdateRepo := do
  let url ← editedUrl f
  let branch ← editedBranch f
  let dockerfile ← editedPath "Dockerfile path" (trim f.dockerfile) (r.dockerfile.getD "")
  let healthPath ← editedPath "Health check path" (trim f.health) (r.healthPath.getD "")
  let port ← editedPort f
  return ⟨r.name, r.registeredMs, confirm, differing url r.url, differing branch r.branch, dockerfile, healthPath,
    differing port r.containerPort⟩

/-- What an operation changes. -/
def UpdateRepo.changed (op : UpdateRepo) : List String :=
  (op.url.map fun _ => "source").toList ++ ((op.branch.map fun _ => "branch").toList ++
    ((op.dockerfile.map fun _ => "dockerfile path").toList ++ ((op.healthPath.map fun _ => "health check path").toList ++
      (op.containerPort.map fun _ => "container port").toList)))

def registrationEdit (r : EngineRepo) (f : RegistrationForm) (confirm : Bool) : RegistrationEdit :=
  match editOp r f confirm with
  | .error problem => ⟨none, [], some problem⟩
  | .ok op => if op.changed = [] then ⟨none, [], none⟩ else ⟨some op, op.changed, none⟩

end Harpoon.Forms
