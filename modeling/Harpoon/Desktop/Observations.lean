import Harpoon.Desktop.Forms
import Harpoon.Docker.Json

/-!
# What Docker shows, beside what is recorded

The desktop reads the rows of `docker ps` and compares the container that serves an application with what the journal says of it
(`deployEngine.ts`, `portExposure.ts`). Labels arrive as one text, the labels with commas between them. An object's
inherited properties are left out: no container of the engine's has the name of one.

`ν` stands for the numbers of JavaScript, and `Numbers` for what is made of them.
-/

namespace Harpoon.Observations

open Docker (Json)
open Forms (trim isTrimmed)

structure Numbers (ν : Type) where
  /-- None is not a number. -/
  parse : String → Option ν
  zero : ν
  text : ν → String

/-! ## Published ports -/

structure PortMapping (ν : Type) where
  hostIp : String
  hostPort : ν
  containerPort : ν
  proto : String
  deriving DecidableEq, Repr

section

variable {ν : Type} [DecidableEq ν] (js : Numbers ν)

/-- `\[[0-9a-fA-F:]+\]`, and what follows it. -/
def bracketHost (cs : List Char) : Option (List Char × List Char) :=
  match cs with
  | '[' :: cs =>
    let inner := cs.takeWhile fun c => (Wire.digitValue c).isSome || c = ':'
    match cs.dropWhile fun c => (Wire.digitValue c).isSome || c = ':' with
    | ']' :: rest => if inner = [] then none else some ('[' :: inner ++ [']'], rest)
    | _ => none
  | _ => none

/-- `[^:\s]+`, and what follows it. -/
def plainHost (cs : List Char) : Option (List Char × List Char) :=
  let host := cs.takeWhile fun c => c ≠ ':' && !isTrimmed c
  if host = [] then none else some (host, cs.dropWhile fun c => c ≠ ':' && !isTrimmed c)

/-- `:(\d+)->(\d+)\/(\w+)` behind a host. -/
def behindHost (host rest : List Char) : Option (PortMapping ν) :=
  match rest with
  | ':' :: rest =>
    let hostPort := rest.takeWhile Char.isDigit
    match rest.dropWhile Char.isDigit with
    | '-' :: '>' :: rest =>
      let containerPort := rest.takeWhile Char.isDigit
      match rest.dropWhile Char.isDigit with
      | '/' :: proto =>
        if hostPort = [] ∨ containerPort = [] ∨ proto = [] ∨ ¬ proto.all (fun c => c.isAlphanum || c = '_') then none
        else do
          let hostNumber ← js.parse (String.ofList hostPort)
          let containerNumber ← js.parse (String.ofList containerPort)
          return ⟨String.ofList host, hostNumber, containerNumber, String.ofList proto⟩
      | _ => none
    | _ => none
  | _ => none

def parsePort (part : String) : Option (PortMapping ν) :=
  let cs := (trim part).toList
  ((bracketHost cs).bind fun h => behindHost js h.1 h.2).or ((plainHost cs).bind fun h => behindHost js h.1 h.2)

/-- Unpublished entries and ranges are left out. -/
def parseDockerPorts (text : String) : List (PortMapping ν) := (Wire.fields ',' text).filterMap (parsePort js)

/-! ## Rows -/

/-- A row of `docker ps`; a field that is no text is none. -/
structure Row where
  id : Option String
  names : Option String
  state : Option String
  labels : Option String
  ports : Option String
  deriving DecidableEq, Repr

structure ObservedContainer (ν : Type) where
  id : String
  state : String
  /-- Of labels with one key the last counts. -/
  labels : Option (List (String × String))
  ports : List ν
  mappings : List (PortMapping ν)
  deriving DecidableEq, Repr

/-- The label of a piece of the text: a piece without an equals sign is a key. -/
def labelOfPiece (kv : String) : String × String := (Wire.splitOnce '=' kv).getD (kv, "")

def labelsOf (labelText : String) : List (String × String) := ((Wire.fields ',' labelText).filter (· ≠ "")).map labelOfPiece

/-- What an object holds under the key, when it was made from these entries. -/
def entry {α : Type} (entries : List (String × α)) (key : String) : Option α := (entries.reverse.find? fun e => e.1 = key).map (·.2)

def observe (r : Row) : ObservedContainer ν :=
  let mappings := parseDockerPorts js (r.ports.getD "")
  ⟨r.id.getD "", Git.lowered (r.state.getD ""), r.labels.map labelsOf, (mappings.map (·.hostPort)).eraseDups, mappings⟩

/-- A name, without a slash in front. -/
def bareName (n : String) : String := (Wire.stripPrefix "/" n).getD n

/-- What Docker shows, by the containers' names. -/
def observedFrom (rows : List Row) : List (String × ObservedContainer ν) :=
  rows.flatMap fun r => ((Wire.fields ',' (r.names.getD "")).filter (· ≠ "")).map fun n => (bareName n, observe js r)

/-! ## Records -/

structure SnapResource where
  kind : String
  name : String
  id : Option String
  state : String
  deriving DecidableEq, Repr

structure SnapDeployment where
  id : String
  resources : List SnapResource
  deriving DecidableEq, Repr

structure SnapServing where
  release : String
  deployment : String
  container : String
  deriving DecidableEq, Repr

structure SnapApp where
  id : String
  deployments : List SnapDeployment
  serving : Option SnapServing
  deriving DecidableEq, Repr

/-! ## Comparing -/

inductive CheckId where
  | state
  | id
  | managed
  | app
  | deployment
  | port
  deriving DecidableEq, Repr

inductive CheckResult where
  | ok
  | fail
  | unavailable
  deriving DecidableEq, Repr

structure ObservationCheck where
  id : CheckId
  label : String
  result : CheckResult
  detail : String
  deriving DecidableEq, Repr

inductive ObservationKind where
  | match_
  | unverified
  | stopped
  | absent
  | mismatch
  | unknown
  deriving DecidableEq, Repr

structure Observation where
  kind : ObservationKind
  recorded : String
  observed : String
  notes : List String
  checks : List ObservationCheck
  deriving DecidableEq, Repr

def labelManaged : String := "io.harpoon.managed"

def labelApp : String := "io.harpoon.app"

def labelDeployment : String := "io.harpoon.deployment"

def shortId (id : String) : String := String.ofList (((Wire.stripPrefix "sha256:" id).getD id).toList.take 12)

/-- A text in quotes, as JSON has it. -/
def stringify (s : String) : String :=
  String.ofList ('"' :: s.toList.flatMap
    (fun c => if c = '\x08' then ['\\', 'b'] else if c = '\x0c' then ['\\', 'f'] else Json.escaped c) ++ ['"'])

/-- The first of two texts, unless it is empty. -/
def orElse (s otherwise : String) : String := if s = "" then otherwise else s

def stateCheck (row : ObservedContainer ν) : ObservationCheck :=
  let reported := orElse row.state "not running"
  ⟨.state, "Running", if row.state = "running" then .ok else .fail, s!"Docker reports the container as {reported}."⟩

/-- Two ids of which one begins with the other are the same. -/
def idCheck (recorded : Option String) (row : ObservedContainer ν) : ObservationCheck :=
  match recorded.filter (· ≠ "") with
  | none => ⟨.id, "Container id", .unavailable, "The journal recorded no container id to compare."⟩
  | some was =>
    if row.id = "" then ⟨.id, "Container id", .unavailable, "Docker's answer carried no id."⟩
    else if (Wire.stripPrefix was row.id).isSome || (Wire.stripPrefix row.id was).isSome then
      ⟨.id, "Container id", .ok, s!"Both are {shortId was}."⟩
    else ⟨.id, "Container id", .fail, s!"The container id differs: recorded {shortId was}, observed {shortId row.id}."⟩

def labelCheck (row : ObservedContainer ν) (check : CheckId) (key want text : String) : ObservationCheck :=
  match row.labels with
  | none => ⟨check, text, .unavailable, "Docker's answer carried no labels, so this was not checked."⟩
  | some labels =>
    let got := entry labels key
    let shown := stringify (got.getD "")
    if got = some want then ⟨check, text, .ok, s!"{key} is {shown}."⟩
    else
      ⟨check, text, .fail,
        if check = .managed then s!"The container is not labelled {key}=true." else s!"Its {key} label is {shown}, not {want}."⟩

def portCheck (lease : Option ν) (row : ObservedContainer ν) : ObservationCheck :=
  match lease with
  | none => ⟨.port, "Port lease", .unavailable, "The journal recorded no port lease."⟩
  | some port =>
    let published := ", ".intercalate (row.ports.map js.text)
    if row.mappings = [] then ⟨.port, "Port lease", .unavailable, "Docker reports no published ports to compare."⟩
    else if row.ports.contains port then ⟨.port, "Port lease", .ok, s!"Docker publishes the leased port {js.text port}."⟩
    else
      ⟨.port, "Port lease", .fail,
        s!"The recorded port lease {js.text port} is not among the published ports ({published})."⟩

/-- The checks of a row against a record. -/
def checksOf (app : SnapApp) (sv : SnapServing) (recorded : Option String) (lease : Option ν) (row : ObservedContainer ν) :
    List ObservationCheck :=
  [stateCheck row, idCheck recorded row, labelCheck row .managed labelManaged "true" "Managed by Harpoon",
    labelCheck row .app labelApp app.id "Belongs to this application",
    labelCheck row .deployment labelDeployment sv.deployment "Created by this deployment", portCheck js lease row]

def identityFailed (checks : List ObservationCheck) : Bool := checks.any fun c => c.id ≠ .state && c.result = .fail

def kindOf (checks : List ObservationCheck) (row : ObservedContainer ν) : ObservationKind :=
  if identityFailed checks then .mismatch
  else if row.state ≠ "running" then .stopped
  else if (checks.filter fun c => c.id = .managed || c.id = .app || c.id = .deployment).all fun c => c.result = .ok then .match_
  else .unverified

def notesOf (checks : List ObservationCheck) (kind : ObservationKind) : List String :=
  (checks.filter fun c => c.result = .fail && (c.id ≠ .state || !identityFailed checks)).map (·.detail) ++
    if kind = .unverified then ["Docker's answer carried no labels, so ownership could not be checked."] else []

def mappingText (m : PortMapping ν) : String := s!"{m.hostIp}:{js.text m.hostPort}→{js.text m.containerPort}"

def observedText (row : ObservedContainer ν) : String :=
  let published := ", ".intercalate (row.mappings.map (mappingText js))
  s!"container {shortId row.id} {row.state}" ++
    if row.mappings = [] then ", no published ports" else s!", Docker publishes {published}"

/-- The id that was recorded for the container. -/
def recordedId (app : SnapApp) (sv : SnapServing) : Option String :=
  (app.deployments.find? (·.id = sv.deployment)).bind fun d =>
    (d.resources.find? fun r => r.kind = "container" && r.name = sv.container).bind (·.id)

/-- The port that is leased: a number other than zero. -/
def leasePort (app : SnapApp) (sv : SnapServing) : Option ν :=
  ((app.deployments.find? (·.id = sv.deployment)).bind fun d =>
    (d.resources.find? fun r => r.kind = "port" && r.state = "created").bind fun r => js.parse r.name).filter (· ≠ js.zero)

def recordedText (app : SnapApp) (sv : SnapServing) : String :=
  let id := (((recordedId app sv).filter (· ≠ "")).map fun id => s!" ({shortId id})").getD ""
  let lease := ((leasePort js app sv).map fun port => s!", port lease {js.text port}").getD ""
  s!"release {sv.release} serving in container {sv.container}{id}{lease}"

/-- Recorded and observed, for the container that serves an application; `observed` is none where Docker could not be asked. -/
def correlate (app : SnapApp) (observed : Option (List (String × ObservedContainer ν))) : Option Observation :=
  app.serving.map fun sv =>
    let recorded := recordedText js app sv
    match observed with
    | none => ⟨.unknown, recorded, "Docker could not be asked", ["The record cannot be compared with Docker right now."], []⟩
    | some containers =>
      match entry containers sv.container with
      | none => ⟨.absent, recorded, "no container with that name", ["Recorded as serving, but Docker has no such container."], []⟩
      | some row =>
        let checks := checksOf js app sv (recordedId app sv) (leasePort js app sv) row
        let kind := kindOf checks row
        ⟨kind, recorded, observedText js row, notesOf checks kind, checks⟩

end

end Harpoon.Observations
