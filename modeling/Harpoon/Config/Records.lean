import Harpoon.Control.Records
import Harpoon.Deploy.Envvars

/-!
# Scopes, definitions and snapshots

The records of `config.rs`. A **definition** sets a name at a scope to a value or a secret, or unsets it; a
**saved secret** says that a version of a secret exists; a **snapshot** is the effective configuration of one
deployment, which is never computed again. A secret is only ever a reference.
-/

namespace Harpoon.Config

open Deploy

def maxToken : Nat := 128

/-! ## Scopes -/

inductive Level where
  | global
  | project
  | application
  deriving DecidableEq, Repr

/-- Where a definition applies. The id is empty for the global scope, the name of the project, or the
application's id. -/
structure Scope where
  level : Level
  id : String
  env : Option String
  deriving DecidableEq, Repr

def tokenChar (c : Char) : Bool := c.isAlphanum || c = '.' || c = '_' || c = '-'

def token (what v : String) : Except String Unit :=
  if v.isEmpty ∨ v.utf8ByteSize > maxToken then .error s!"{what} must be 1..={maxToken} bytes"
  else
    match v.toList.find? fun c => !tokenChar c with
    | some c =>
      .error s!"{what} contains {Control.debugChar c}; only letters, digits and . _ - are accepted"
    | none => .ok ()

namespace Scope

/-- Everything in one environment, or in any. -/
def everywhere (env : Option String) : Scope := ⟨.global, "", env⟩

def project (name : String) (env : Option String) : Scope := ⟨.project, name, env⟩

def application (app : ApplicationId) (env : Option String) : Scope := ⟨.application, app.asStr, env⟩

def validateId (s : Scope) : Except String Unit :=
  match s.level with
  | .global => if s.id.isEmpty then .ok () else .error "the global scope has no id"
  | .project => token "a project name" s.id
  | .application =>
    match Id.parse .application s.id with
    | .ok _ => .ok ()
    | .error _ => .error "the application id is not valid"

def validateEnv (s : Scope) : Except String Unit :=
  match s.env with
  | some e => token "an environment name" e
  | none => .ok ()

def validate (s : Scope) : Except String Unit := do
  s.validateId
  s.validateEnv

/-- The slug without the environment. -/
def base (s : Scope) : String :=
  match s.level with
  | .global => "global"
  | .project => "project:" ++ s.id
  | .application => "app:" ++ s.id

/-- `global`, `project:NAME` or `app:APP_ID`, each with `@ENV` after it if it has an environment. -/
def slug (s : Scope) : String :=
  match s.env with
  | some e => s.base ++ (String.singleton '@' ++ e)
  | none => s.base

/-- What stands before and after the first `@` of a slug. -/
def splitEnv (slug : String) : String × Option String :=
  match Wire.splitOnce '@' slug with
  | some (base, env) => (base, some env)
  | none => (slug, none)

/-- The scope of a base, before it is checked. -/
def ofBase (base : String) (env : Option String) : Option Scope :=
  if base = "global" then some ⟨.global, "", env⟩
  else
    match Wire.stripPrefix "project:" base with
    | some name => some ⟨.project, name, env⟩
    | none => (Wire.stripPrefix "app:" base).map fun app => ⟨.application, app, env⟩

def parse (slug : String) : Except String Scope :=
  match ofBase (splitEnv slug).1 (splitEnv slug).2 with
  | none => .error s!"unknown scope {Envvars.debugStr slug}"
  | some s => do
    s.validate
    return s

end Scope

/-- The id that every version of one secret shares. -/
def secretId (scope : Scope) (name : String) : String := scope.slug ++ ("/" ++ name)

/-! ## Values -/

/-- What a variable is for. -/
structure Flags where
  build : Bool
  runtime : Bool
  deriving DecidableEq, Repr

namespace Flags

def parse (s : String) : Except String Flags :=
  match s with
  | "b" => .ok ⟨true, false⟩
  | "r" => .ok ⟨false, true⟩
  | "br" => .ok ⟨true, true⟩
  | _ => .error s!"bad flags {Envvars.debugStr s}"

def code (f : Flags) : String :=
  match f.build, f.runtime with
  | true, true => "br"
  | true, false => "b"
  | _, _ => "r"

end Flags

inductive Value where
  | config (v : String)
  | secret (r : SecretRef)
  deriving DecidableEq, Repr

inductive Setting where
  | set (flags : Flags) (value : Value)
  /-- The name is not inherited from a wider scope. -/
  | unset
  deriving DecidableEq, Repr

/-! ## Records -/

structure Def where
  scope : Scope
  name : String
  setting : Setting
  atMs : Nat
  deriving DecidableEq, Repr

structure SecretSaved where
  id : String
  version : UInt32
  atMs : Nat
  deriving DecidableEq, Repr

/-- One resolved name. -/
structure Entry where
  name : String
  flags : Flags
  /-- The scope that supplied it; none for a value of the command line. -/
  source : Option Scope
  value : Value
  deriving DecidableEq, Repr

structure Snapshot where
  deployment : DeploymentId
  app : ApplicationId
  project : Option String
  environment : Option String
  atMs : Nat
  entries : List Entry
  deriving DecidableEq, Repr

inductive ConfigRecord where
  | definition (d : Def)
  | secretSaved (s : SecretSaved)
  | snapshot (s : Snapshot)
  deriving DecidableEq, Repr

def checkName (name : String) : Except String Unit := Envvars.checkName name

def checkConfigValue (name value : String) : Except String Unit := Envvars.checkValue name value

def secretIdChar (c : Char) : Bool := tokenChar c || c = ':' || c = '@' || c = '/'

def checkSecretId (id : String) : Except String Unit :=
  if id.isEmpty ∨ id.utf8ByteSize > 3 * maxToken ∨ id.toList.any (fun c => !secretIdChar c) then
    .error "a secret id is not valid"
  else .ok ()

end Harpoon.Config
