import Harpoon.Config.State
import Harpoon.Journal.Control
import Harpoon.Journal.Format
import Harpoon.Journal.Release

/-!
# Configuration records as lines

The encoder and the decoder of `config.rs`. Values are in hexadecimal; every other text stands in its field as
it is, and `-` stands for what is not there.
-/

namespace Harpoon.Config

open Deploy Wire Journal

/-! ## Writing -/

def encValue : Value → String
  | .config v => "c:" ++ hexText v
  | .secret r => "s:" ++ r.asStr

/-- Whether a definition sets its name, and the flags and the value. -/
def settingFields : Setting → List String
  | .set flags value => ["set", flags.code, encValue value]
  | .unset => ["unset", "-", "-"]

def defFields (d : Def) : List String :=
  ["cfgdef", "1", d.scope.slug, d.name] ++ settingFields d.setting ++ [d.atMs.repr]

def savedFields (x : SecretSaved) : List String := ["cfgsec", "1", x.id, x.version.toNat.repr, x.atMs.repr]

/-- The parts of an entry, with `|` between them. -/
def entryParts (e : Entry) : List String :=
  [e.name, e.flags.code, (e.source.map Scope.slug).getD "cli", encValue e.value]

def snapshotFields (x : Snapshot) : List String :=
  ["cfgsnap", "1", x.deployment.asStr, x.app.asStr, x.project.getD "-", x.environment.getD "-", x.atMs.repr,
    Control.csv (x.entries.map fun e => joined '|' (entryParts e))]

/-- The fields of a record's body. -/
def recordFields : ConfigRecord → List String
  | .definition d => defFields d
  | .secretSaved x => savedFields x
  | .snapshot x => snapshotFields x

def encode (r : ConfigRecord) : String := frame (joined '\t' (recordFields r))

/-! ## Reading -/

def decValue (s : String) : Except String Value :=
  match stripPrefix "c:" s with
  | some h => .config <$> need "a configuration value is not valid" (unhexText h)
  | none =>
    match stripPrefix "s:" s with
    | some r => do
      let r ← SecretRef.parse r
      checkSecretId r.id
      return .secret r
    | none => .error "a value is neither config nor secret"

/-- A value that is not secret has the form the name's values have. -/
def checkText (name : String) : Value → Except String Unit
  | .config v => checkConfigValue name v
  | .secret _ => .ok ()

def decodeSetting (name what flags value : String) : Except String Setting :=
  if what = "unset" then
    if flags ≠ "-" ∨ value ≠ "-" then .error "an unset carries no flags or value" else .ok .unset
  else if what = "set" then do
    let value ← decValue value
    checkText name value
    let flags ← Flags.parse flags
    return .set flags value
  else .error "a definition is neither set nor unset"

def decodeDef : List String → Except String Def
  | [scope, name, what, flags, value, atMs] => do
    let scope ← Scope.parse scope
    checkName name
    let setting ← decodeSetting name what flags value
    let atMs ← number "bad time" atMs
    return ⟨scope, name, setting, atMs⟩
  | _ => .error "a definition has the wrong number of fields"

def decodeSaved : List String → Except String SecretSaved
  | [id, version, atMs] => do
    checkSecretId id
    let version ← need "bad secret version" (parseUnsigned 10 0xFFFFFFFF version)
    let atMs ← number "bad time" atMs
    return ⟨id, UInt32.ofNat version, atMs⟩
  | _ => .error "a secret record has the wrong number of fields"

def decodeSource (s : String) : Except String (Option Scope) :=
  if s = "cli" then .ok none else some <$> Scope.parse s

def decodeParts : List String → Except String Entry
  | [name, flags, source, value] => do
    checkName name
    let value ← decValue value
    checkText name value
    let flags ← Flags.parse flags
    let source ← decodeSource source
    return ⟨name, flags, source, value⟩
  | _ => .error "a snapshot entry is malformed"

def decodeEntry (item : String) : Except String Entry := decodeParts (fields '|' item)

/-- What is not there is written `-`. -/
def dash (s : String) : Option String := if s = "-" then none else some s

def decodeSnapshot : List String → Except String Snapshot
  | [deployment, app, project, environment, atMs, entries] => do
    let entries ← (Control.csvList entries).mapM decodeEntry
    let deployment ← readId .deployment "bad deployment id" deployment
    let app ← readId .application "bad application id" app
    let atMs ← number "bad time" atMs
    return ⟨deployment, app, dash project, dash environment, atMs, entries⟩
  | _ => .error "a snapshot has the wrong number of fields"

/-- A record from the fields of its body. -/
def decode (f : List String) : Except String ConfigRecord :=
  if f[1]? ≠ some "1" then .error "unknown configuration record version"
  else
    match f.headD "" with
    | "cfgdef" => .definition <$> decodeDef (f.drop 2)
    | "cfgsec" => .secretSaved <$> decodeSaved (f.drop 2)
    | "cfgsnap" => .snapshot <$> decodeSnapshot (f.drop 2)
    | _ => .error "not a configuration record"

/-! ## Lines of a store -/

section

variable {β : Type} (others : List String → Except String β)

/-- The bodies of configuration records, and of the other kinds that the journal does not look into. -/
def decodeOther (f : List String) : Except String (ConfigRecord ⊕ β) :=
  if f.headD "" ∈ ["cfgdef", "cfgsec", "cfgsnap"] then .inl <$> decode f else .inr <$> others f

/-- The configuration records among the lines of a store, which must all be readable. -/
def records : List String → Except String (List ConfigRecord)
  | [] => .ok []
  | line :: lines => do
    let first ← decodeLine (decodeOther others) line
    let rest ← records lines
    match first with
    | .other (.inl r) => return r :: rest
    | _ => return rest

/-- What the configuration records of a store say when it is opened. -/
def reopen (lines : List String) : Except String ConfigState := do
  let rs ← records others lines
  ConfigState.empty.replay rs

end

end Harpoon.Config
