import Harpoon.Desktop.Operations
import Harpoon.Journal.Frame

/-!
# Command lines that the desktop writes

The parser reads back from a command line what it was written from, whatever the values are. What the desktop
writes for an operation is read as the fields of the operation, each under its own flag.
-/

namespace Harpoon.Cli

/-- What a command line may say about one flag. -/
inductive Slot where
  | value (name : String) (v : Option String)
  /-- The value is in the same argument. -/
  | inline (name : String) (v : Option String)
  | each (name : String) (vs : List String)
  | switch (name : String) (on : Bool)

namespace Slot

def render : Slot → List String
  | value name (some v) => ["--" ++ name, v]
  | inline name (some v) => ["--" ++ (name ++ (String.singleton '=' ++ v))]
  | each name vs => vs.flatMap fun v => ["--" ++ name, v]
  | switch name true => ["--" ++ name]
  | value _ none | inline _ none | switch _ false => []

/-- What is said of the value of a flag. -/
def valueOf (k : String) : Slot → Option String
  | value name v | inline name v => if k = name then v else none
  | _ => none

def listOf (k : String) : Slot → List String
  | each name vs => if k = name then vs else []
  | _ => []

def switchOf (k : String) : Slot → Bool
  | switch name on => k = name && on
  | _ => false

/-- The flag that takes one value. -/
def single : Slot → Option String
  | value name _ | inline name _ => some name
  | _ => none

/-- Does the command know the flag as what the slot takes it for? -/
def knownTo (spec : Spec) : Slot → Bool
  | value name _ | inline name _ =>
    spec.values.contains name && !spec.switches.contains name && !repeatable.contains name && !name.toList.contains '='
  | each name _ =>
    spec.values.contains name && !spec.switches.contains name && repeatable.contains name && !name.toList.contains '='
  | switch name _ => spec.switches.contains name && !name.toList.contains '='

end Slot

/-! ## Reading what was written -/

section

variable {name v : String} {vs : List String}

@[simp] theorem Slot.render_value : (Slot.value name (some v)).render = ["--" ++ name, v] := rfl

@[simp] theorem Slot.render_value_none : (Slot.value name none).render = [] := rfl

@[simp] theorem Slot.render_inline :
    (Slot.inline name (some v)).render = ["--" ++ (name ++ (String.singleton '=' ++ v))] := rfl

@[simp] theorem Slot.render_inline_none : (Slot.inline name none).render = [] := rfl

@[simp] theorem Slot.render_each : (Slot.each name vs).render = vs.flatMap fun v => ["--" ++ name, v] := rfl

end

section

variable {spec : Spec} {p : Parsed} {name v : String} {rest : List String} {slots : List Slot}

theorem strip_flag {flag : String} : Wire.stripPrefix "--" ("--" ++ flag) = some flag := Wire.stripPrefix_append

theorem parseFlags_value (known : spec.values.contains name = true) (other : spec.switches.contains name = false)
    (plain : name.toList.contains '=' = false) :
    parseFlags spec (("--" ++ name) :: v :: rest) p = p.give name v >>= parseFlags spec rest := by
  have free : Wire.Free '=' name := by simpa [Wire.Free] using plain
  rw [parseFlags.eq_def]
  dsimp only
  rw [strip_flag]
  dsimp only
  rw [Wire.splitOnce_none free]
  dsimp only
  rw [if_neg (by rw [other]; exact Bool.false_ne_true), if_pos known]

theorem parseFlags_inline (known : spec.values.contains name = true) (other : spec.switches.contains name = false)
    (plain : name.toList.contains '=' = false) :
    parseFlags spec (("--" ++ (name ++ (String.singleton '=' ++ v))) :: rest) p =
      p.give name v >>= parseFlags spec rest := by
  have free : Wire.Free '=' name := by simpa [Wire.Free] using plain
  rw [parseFlags.eq_def]
  dsimp only
  rw [strip_flag]
  dsimp only
  rw [Wire.splitOnce_append free]
  dsimp only
  rw [if_neg (by rw [other]; exact Bool.false_ne_true), if_pos known]

theorem parseFlags_switch (known : spec.switches.contains name = true) (plain : name.toList.contains '=' = false) :
    parseFlags spec (("--" ++ name) :: rest) p = parseFlags spec rest { p with switches := p.switches ++ [name] } := by
  have free : Wire.Free '=' name := by simpa [Wire.Free] using plain
  rw [parseFlags.eq_def]
  dsimp only
  rw [strip_flag]
  dsimp only
  rw [Wire.splitOnce_none free]
  dsimp only
  rw [if_pos known]

/-- What the parser has after the slots it has read, when no flag was given twice. -/
structure Holds (p : Parsed) (before : Parsed) (slots : List Slot) : Prop where
  command : p.command = before.command
  values : ∀ k, p.value k = (before.value k).or (slots.findSome? (Slot.valueOf k))
  lists : ∀ k, p.list k = before.list k ++ slots.flatMap (Slot.listOf k)
  switches : ∀ k, p.switch k = (before.switch k || slots.any (Slot.switchOf k))

theorem Holds.refl (p : Parsed) : Holds p p [] := by
  refine ⟨rfl, fun k => ?_, fun k => ?_, fun k => ?_⟩ <;> simp

theorem Holds.trans {p₁ p₂ : Parsed} {slot : Slot} (first : Holds p₁ p [slot]) (later : Holds p₂ p₁ slots) :
    Holds p₂ p (slot :: slots) where
  command := later.command.trans first.command
  values k := by
    rw [later.values, first.values, List.findSome?_cons, List.findSome?_cons, List.findSome?_nil]
    cases p.value k <;> cases slot.valueOf k <;> rfl
  lists k := by rw [later.lists, first.lists, List.flatMap_cons, List.flatMap_cons, List.flatMap_nil, List.append_nil,
    List.append_assoc]
  switches k := by rw [later.switches, first.switches, List.any_cons, List.any_cons, List.any_nil, Bool.or_false,
    Bool.or_assoc]

/-- One value of a flag that takes one. -/
theorem give_single (one : repeatable.contains name = false) (free : p.value name = none) :
    p.give name v = .ok { p with values := p.values ++ [(name, v)] } := by
  rw [Parsed.give, if_neg (by rw [one]; exact Bool.false_ne_true), if_neg (by rw [free]; exact Bool.false_ne_true)]

theorem holds_value (name v : String) {slot : Slot} (reads : ∀ k, slot.valueOf k = if k = name then some v else none)
    (noList : ∀ k, slot.listOf k = []) (noSwitch : ∀ k, slot.switchOf k = false) :
    Holds { p with values := p.values ++ [(name, v)] } p [slot] where
  command := rfl
  values k := by
    rw [List.findSome?_cons, reads, List.findSome?_nil]
    show List.lookup k (p.values ++ [(name, v)]) = (List.lookup k p.values).or _
    rw [List.lookup_append, List.lookup_cons, List.lookup_nil]
    by_cases same : k = name
    · rw [if_pos same, beq_iff_eq.mpr same]
    · rw [if_neg same, beq_false_of_ne same]
  lists k := by rw [List.flatMap_cons, noList, List.flatMap_nil, List.append_nil, List.append_nil]; rfl
  switches k := by rw [List.any_cons, noSwitch, List.any_nil, Bool.or_false, Bool.or_false]; rfl

/-- The values of a flag that may be given more than once. -/
theorem parseFlags_each {vs : List String} (known : spec.values.contains name = true)
    (other : spec.switches.contains name = false) (more : repeatable.contains name = true)
    (plain : name.toList.contains '=' = false) :
    parseFlags spec (vs.flatMap (fun v => ["--" ++ name, v]) ++ rest) p =
      parseFlags spec rest { p with repeated := p.repeated ++ vs.map fun v => (name, v) } := by
  induction vs generalizing p with
  | nil => rw [List.flatMap_nil, List.nil_append, List.map_nil, List.append_nil]
  | cons v vs ih =>
    have gives : p.give name v = .ok { p with repeated := p.repeated ++ [(name, v)] } := by
      rw [Parsed.give, if_pos more]
    rw [List.flatMap_cons, List.append_assoc]
    refine (parseFlags_value known other plain).trans ?_
    rw [gives]
    refine ih.trans ?_
    rw [List.map_cons, List.append_assoc]
    rfl

/-- One more slot, of a flag that was not given before. -/
theorem parseFlags_slot {slot : Slot} (rest : List String) (known : slot.knownTo spec = true)
    (free : ∀ name, slot.single = some name → p.value name = none) :
    ∃ p', parseFlags spec (slot.render ++ rest) p = parseFlags spec rest p' ∧ Holds p' p [slot] := by
  cases slot with
  | value name v =>
    simp only [Slot.knownTo, Bool.and_eq_true, Bool.not_eq_true'] at known
    obtain ⟨⟨⟨known, other⟩, one⟩, plain⟩ := known
    cases v with
    | none => exact ⟨p, rfl, rfl, by simp [Slot.valueOf], by simp [Slot.listOf], by simp [Slot.switchOf]⟩
    | some v =>
      refine ⟨_, ?_, holds_value name v (fun k => rfl) (fun k => rfl) fun k => rfl⟩
      refine (parseFlags_value known other plain).trans ?_
      rw [give_single one (free name rfl)]
      rfl
  | inline name v =>
    simp only [Slot.knownTo, Bool.and_eq_true, Bool.not_eq_true'] at known
    obtain ⟨⟨⟨known, other⟩, one⟩, plain⟩ := known
    cases v with
    | none => exact ⟨p, rfl, rfl, by simp [Slot.valueOf], by simp [Slot.listOf], by simp [Slot.switchOf]⟩
    | some v =>
      refine ⟨_, ?_, holds_value name v (fun k => rfl) (fun k => rfl) fun k => rfl⟩
      refine (parseFlags_inline known other plain).trans ?_
      rw [give_single one (free name rfl)]
      rfl
  | each name vs =>
    simp only [Slot.knownTo, Bool.and_eq_true, Bool.not_eq_true'] at known
    obtain ⟨⟨⟨known, other⟩, more⟩, plain⟩ := known
    refine ⟨_, parseFlags_each known other more plain, rfl, by simp [Slot.valueOf, Parsed.value], fun k => ?_,
      by simp [Slot.switchOf, Parsed.switch]⟩
    show ((p.repeated ++ vs.map fun v => (name, v)).filter (·.1 = k)).map (·.2) = p.list k ++ _
    rw [List.filter_append, List.map_append, List.flatMap_cons, List.flatMap_nil, List.append_nil, Slot.listOf]
    refine congrArg (p.list k ++ ·) ?_
    by_cases same : k = name
    · subst same
      rw [if_pos rfl, List.filter_eq_self.mpr (by simp), List.map_map]
      exact List.map_id' vs
    · rw [if_neg same, List.filter_eq_nil_iff.mpr (by simp [Ne.symm same])]
      rfl
  | switch name on =>
    simp only [Slot.knownTo, Bool.and_eq_true, Bool.not_eq_true'] at known
    cases on with
    | false => exact ⟨p, rfl, rfl, by simp [Slot.valueOf], by simp [Slot.listOf], by simp [Slot.switchOf]⟩
    | true =>
      refine ⟨_, parseFlags_switch known.1 known.2, rfl, by simp [Slot.valueOf, Parsed.value], ?_, fun k => ?_⟩
      · simp [Slot.listOf, Parsed.list]
      · simp [Slot.switchOf, Parsed.switch]

/-- A command line whose flags the command knows is read as what it was written from. -/
theorem parseFlags_render (known : ∀ slot ∈ slots, slot.knownTo spec = true) (once : (slots.filterMap Slot.single).Nodup)
    (free : ∀ name ∈ slots.filterMap Slot.single, p.value name = none) :
    ∃ p', parseFlags spec (slots.flatMap Slot.render) p = .ok p' ∧ Holds p' p slots := by
  induction slots generalizing p with
  | nil => exact ⟨p, rfl, .refl p⟩
  | cons slot slots ih =>
    have first : ∀ name, slot.single = some name → p.value name = none := fun name single =>
      free name (List.mem_filterMap.mpr ⟨slot, .head _, single⟩)
    obtain ⟨p₁, read, held⟩ := parseFlags_slot (slots.flatMap Slot.render) (known slot (.head _)) first
    have others : (slots.filterMap Slot.single).Nodup := by
      rw [List.filterMap_cons] at once
      split at once
      · exact once
      · exact (List.nodup_cons.mp once).2
    have later : ∀ name ∈ slots.filterMap Slot.single, p₁.value name = none := by
      intro name mem
      have before : p.value name = none := by
        obtain ⟨slot', inside, single⟩ := List.mem_filterMap.mp mem
        exact free name (List.mem_filterMap.mpr ⟨slot', .tail _ inside, single⟩)
      have apart : slot.valueOf name = none := by
        cases said : slot.valueOf name with
        | none => rfl
        | some v =>
          have single : slot.single = some name := by
            cases slot with
            | value n w | inline n w =>
              rw [Slot.valueOf] at said
              split at said
              next same => exact congrArg some same.symm
              · cases said
            | each | switch => cases said
          rw [List.filterMap_cons, single] at once
          exact absurd mem (List.nodup_cons.mp once).1
      rw [held.values, before, List.findSome?_cons, apart]
      rfl
    obtain ⟨p₂, done, holds⟩ := ih (fun slot mem => known slot (.tail _ mem)) others later
    refine ⟨p₂, ?_, held.trans holds⟩
    rw [List.flatMap_cons, read, done]

end

end Harpoon.Cli

namespace Harpoon.Desktop

open Cli (Slot Spec)

/-! ## What an operation asks for -/

def DeployOp.command : DeployOp → String
  | .addRepo .. => "repo-add"
  | .removeRepo .. => "repo-remove"
  | .removeApp .. => "app-remove"
  | .updateRepo .. => "repo-update"
  | .repoSecret .. => "repo-secret"
  | .setConfig .. => "config-set"
  | .setSecret .. => "secret-set"
  | .unset .. => "config-unset"
  | .deploy .. => "git-deploy"
  | .runQueue _ => "git-run"
  | .poll _ => "watch"
  | .rollback .. => "rollback"
  | .restore _ => "restore"
  | .recover => "recover"
  | .resume .. => "resume"

/-- An optional field; an empty one is not given. -/
def given (v : Option String) : Option String := v.filter (· ≠ "")

/-- The fields of an operation, each under its flag. -/
def DeployOp.slots : DeployOp → List Slot
  | .addRepo name url app project environment branch filters containerPort dockerfile context target healthPath username
      knownHost webhook =>
    [.value "name" name, .value "url" url, .value "container-port" (toString containerPort.toNat),
      .value "app" (given app), .value "project" (given project), .value "environment" (given environment),
      .value "branch" (given branch), .each "filter" filters, .value "dockerfile" (given dockerfile),
      .value "context" (given context), .value "target" (given target), .value "health-path" (given healthPath),
      .value "username" (given username), .value "known-host" (given knownHost), .value "webhook" (given webhook),
      .switch "new" true]
  | .removeRepo name expectRegisteredMs confirmRemoval =>
    [.value "name" name, .value "expect-registered-ms" (toString expectRegisteredMs.toNat),
      .switch "confirm-removal" confirmRemoval]
  | .removeApp name expectRegisteredMs confirmApplicationRemoval =>
    [.value "name" name, .value "expect-registered-ms" (toString expectRegisteredMs.toNat),
      .switch "confirm-application-removal" confirmApplicationRemoval]
  | .updateRepo name expectRegisteredMs url branch dockerfile containerPort healthPath confirmChange =>
    [.value "name" name, .value "expect-registered-ms" (toString expectRegisteredMs.toNat), .value "url" (given url),
      .value "branch" (given branch), .value "dockerfile" (given dockerfile), .value "health-path" (given healthPath),
      .value "container-port" (containerPort.map fun p => toString p.toNat), .switch "confirm-change" confirmChange]
  -- A secret value is standard input and stands under no flag.
  | .repoSecret name kind _ => [.value "name" name, .value "kind" kind]
  | .setConfig scope name value build runtime =>
    [.value "scope" scope, .value "name" name, .value "value" value, .switch "build" build, .switch "runtime" runtime]
  | .setSecret scope name _ build runtime =>
    [.value "scope" scope, .value "name" name, .switch "build" build, .switch "runtime" runtime]
  | .unset scope name => [.value "scope" scope, .value "name" name]
  | .deploy repo branch tag commit =>
    [.value "repo" repo, .value "branch" (given branch), .value "tag" (given tag), .value "commit" (given commit)]
  | .runQueue repo => [.value "repo" (given repo)]
  | .poll repo => [.switch "once" true, .switch "queue-only" true, .value "repo" (given repo)]
  | .rollback app release => [.value "app" app, .value "to" release, .switch "confirm-rollback" true]
  | .restore deployment => [.value "deployment" deployment, .switch "apply" true]
  | .recover => []
  | .resume app mode revision =>
    [.value "app" app, .switch "dismiss" (mode = "dismiss"), .switch "newest" (mode = "newest"),
      .value "revision" (if mode = "dismiss" ∨ mode = "newest" then none else some (revision.getD ""))]

/-- Where the runtime is. -/
def runtimeSlots (info : RuntimeInfo) : List Slot :=
  [.value "docker-socket" info.dockerSocket, .value "mgmt-socket" info.mgmtSocket,
    .value "resources-dir" info.resourcesDir, .value "forwarder-pid" (toString info.forwarderPid.toNat),
    .value "forwarder-command" info.forwarderCommand, .value "forward-address" info.forwardAddress]

/-- That the person confirmed changes of Docker. -/
def consentSlot (confirmation : Confirmation) : Slot :=
  .inline Cli.authFlag (if confirmation.liveChanges then some Cli.authPhrase else none)

/-- That the person confirmed the cutover of a deployment. -/
def cutoverSlots (op : DeployOp) (confirmation : Confirmation) : List Slot :=
  if op.isDeploy then [.switch "confirm-cutover" confirmation.cutover] else []

/-- What an operation on Docker has besides, when its runtime is found. -/
def dockerSlots (op : DeployOp) (confirmation : Confirmation) : Except String RuntimeInfo → List Slot
  | .ok info => if needsRuntime op then runtimeSlots info ++ consentSlot confirmation :: cutoverSlots op confirmation else []
  | .error _ => []

/-- All that is asked for. -/
def asked (op : DeployOp) (confirmation : Confirmation) (runtime : Except String RuntimeInfo) (store : String) :
    List Slot :=
  op.slots ++ dockerSlots op confirmation runtime ++ [.value "runtime-dir" store]

section

variable {op : DeployOp} {confirmation : Confirmation} {gate : Gate} {runtime : Except String RuntimeInfo}
  {store : String}

theorem render_given {flag : String} {v : Option String} : (Slot.value flag (given v)).render = opt flag v := by
  cases v with
  | none => rfl
  | some v =>
    rw [opt, given, Option.filter]
    by_cases empty : v = ""
    · rw [if_pos empty, if_neg (by simp [empty])]
      rfl
    · rw [if_neg empty, if_pos (by simp [empty])]
      rfl

theorem render_switch {flag : String} {on : Bool} : (Slot.switch flag on).render = flagIf on flag := by
  cases on <;> rfl

/-- The plan is the command and its slots. -/
theorem plan_eq (op : DeployOp) : (plan op).1 = op.command :: op.slots.flatMap Slot.render := by
  cases op with
  | updateRepo name expectRegisteredMs url branch dockerfile containerPort healthPath confirmChange =>
    cases containerPort <;> simp [plan, DeployOp.command, DeployOp.slots, render_given, render_switch, flagIf]
  | resume app mode revision =>
    by_cases dismiss : mode = "dismiss"
    · simp [plan, DeployOp.command, DeployOp.slots, render_switch, flagIf, dismiss]
    · by_cases newest : mode = "newest" <;>
        simp [plan, DeployOp.command, DeployOp.slots, render_switch, flagIf, dismiss, newest]
  | addRepo name url app project environment branch filters containerPort dockerfile context target healthPath username
      knownHost webhook =>
    simp only [plan, DeployOp.command, DeployOp.slots, List.flatMap_cons, List.flatMap_nil, List.append_nil]
    simp only [render_given, render_switch, Slot.render_value, Slot.render_each]
    simp only [List.append_assoc, List.cons_append, List.nil_append]
    simp only [String.reduceAppend, flagIf, if_true]
  | poll | rollback | restore => simp [plan, DeployOp.command, DeployOp.slots, render_given, render_switch, flagIf]
  | _ => simp [plan, DeployOp.command, DeployOp.slots, render_given, render_switch]

theorem runtimeSlots_render {info : RuntimeInfo} : (runtimeSlots info).flatMap Slot.render = runtimeArgs info := by
  cases address : info.forwardAddress <;> simp [runtimeSlots, runtimeArgs, address]

theorem consentSlot_render : (consentSlot confirmation).render =
    if confirmation.liveChanges then [s!"--{Cli.authFlag}={Cli.authPhrase}"] else [] := by
  have phrase : "--" ++ (Cli.authFlag ++ (String.singleton '=' ++ Cli.authPhrase)) = s!"--{Cli.authFlag}={Cli.authPhrase}" := by
    decide
  rw [consentSlot]
  cases confirmation.liveChanges with
  | false => rfl
  | true => exact congrArg (· :: []) phrase

theorem cutoverSlots_render (deploys : confirmation.cutover = true → op.isDeploy = true) :
    (cutoverSlots op confirmation).flatMap Slot.render = flagIf confirmation.cutover "confirm-cutover" := by
  rw [cutoverSlots]
  cases deploy : op.isDeploy with
  | true => rw [if_pos rfl, List.flatMap_cons, render_switch, List.flatMap_nil, List.append_nil]
  | false =>
    have off : confirmation.cutover = false := by
      cases cutover : confirmation.cutover with
      | false => rfl
      | true => rw [deploys cutover] at deploy; cases deploy
    rw [off]
    rfl

/-- Whether the operation has live slots, and what the confirmation is then. -/
theorem buildArgs_eq {args : List String} {stdin : Wire.Bytes} (built : buildArgs op confirmation gate runtime = .ok (args, stdin)) :
    args = op.command :: (op.slots ++ dockerSlots op confirmation runtime).flatMap Slot.render ∧ stdin = (plan op).2 ∧
      (confirmation.cutover = true → confirmation.liveChanges = true ∧ op.isDeploy = true) := by
  rw [buildArgs] at built
  split at built
  · cases built
  next live =>
    split at built
    · cases built
    next deploy =>
      have consents : confirmation.cutover = true → confirmation.liveChanges = true ∧ op.isDeploy = true := by
        intro cutover
        rw [cutover] at live deploy
        exact ⟨by simpa using live, by simpa using deploy⟩
      split at built
      next docker =>
        obtain ⟨args', extra, done⟩ := Journal.bind_ok built
        cases done
        refine ⟨?_, rfl, consents⟩
        rw [List.flatMap_append, plan_eq, List.cons_append]
        refine congrArg (fun more => op.command :: (op.slots.flatMap Slot.render ++ more)) ?_
        cases runtime with
        | ok info =>
          cases extra
          rw [dockerSlots, if_pos docker, List.flatMap_append, List.flatMap_cons, runtimeSlots_render, consentSlot_render,
            cutoverSlots_render fun cutover => (consents cutover).2, List.append_assoc]
        | error e =>
          rw [liveArgs] at extra
          split at extra
          · cases extra
          · cases extra
            rfl
      next docker =>
        have same : plan op = (args, stdin) := Except.ok.inj built
        refine ⟨?_, by rw [same], consents⟩
        have none : dockerSlots op confirmation runtime = [] := by
          cases runtime with
          | ok info => exact if_neg docker
          | error e => rfl
        rw [none, List.append_nil, ← plan_eq, same]

/-! ## What the engine reads -/

/-- Does the command know all flags of these slots, each of them once? -/
def fits (command : String) (slots : List Slot) : Bool :=
  match Cli.specs.find? fun s => s.command = command with
  | some spec => slots.all (Slot.knownTo spec) && decide (slots.filterMap Slot.single).Nodup
  | none => false

/-- The slot without what it says. -/
def shape : Slot → Slot
  | .value name _ => .value name none
  | .inline name _ => .inline name none
  | .each name _ => .each name []
  | .switch name _ => .switch name false

theorem fits_shape {command : String} {slots : List Slot} : fits command (slots.map shape) = fits command slots := by
  have known (spec : Spec) : Slot.knownTo spec ∘ shape = Slot.knownTo spec := by
    funext slot
    cases slot <;> rfl
  have single : Slot.single ∘ shape = Slot.single := by
    funext slot
    cases slot <;> rfl
  rw [fits, fits]
  simp only [List.all_map, List.filterMap_map, known, single]

/-- The command of an operation knows its flags. -/
theorem asked_fits (op : DeployOp) (confirmation : Confirmation) (runtime : Except String RuntimeInfo) (store : String) :
    fits op.command (asked op confirmation runtime store) = true := by
  rw [← fits_shape]
  cases runtime <;> cases op <;>
    simp only [asked, DeployOp.slots, DeployOp.command, dockerSlots, runtimeSlots, consentSlot, cutoverSlots, needsRuntime,
      DeployOp.isDeploy, shape,      List.map_cons, List.map_nil, if_true, if_false, Bool.false_eq_true, List.cons_append, List.nil_append] <;>
    decide

theorem parse_of_fits {command : String} {slots : List Slot} (fitting : fits command slots = true) :
    ∃ p, Cli.parse (command :: slots.flatMap Slot.render) = .ok p ∧ Cli.Holds p { command := command } slots := by
  rw [fits] at fitting
  cases found : Cli.specs.find? fun s => s.command = command with
  | none =>
    rw [found] at fitting
    cases fitting
  | some spec =>
    rw [found] at fitting
    dsimp only at fitting
    rw [Bool.and_eq_true, List.all_eq_true, decide_eq_true_eq] at fitting
    obtain ⟨p, read, holds⟩ := Cli.parseFlags_render fitting.1 fitting.2 fun name mem => (rfl : ({ command := command } : Cli.Parsed).value name = none)
    refine ⟨p, ?_, holds⟩
    rw [Cli.parse, found]
    exact read

/-- No field of an operation is read as a consent. -/
theorem slots_plain (op : DeployOp) : op.slots.findSome? (Slot.valueOf Cli.authFlag) = none ∧
    op.slots.any (Slot.switchOf "confirm-cutover") = false := by
  cases op <;> simp [DeployOp.slots, Slot.valueOf, Slot.switchOf, Cli.authFlag]

theorem runtimeSlots_plain {info : RuntimeInfo} : (runtimeSlots info).findSome? (Slot.valueOf Cli.authFlag) = none ∧
    (runtimeSlots info).any (Slot.switchOf "confirm-cutover") = false := by
  simp [runtimeSlots, Slot.valueOf, Slot.switchOf, Cli.authFlag]

/-- The consent to change Docker is there exactly when the person gave it and the operation reaches Docker. -/
theorem asked_auth : ((asked op confirmation runtime store).findSome? (Slot.valueOf Cli.authFlag)).isSome ↔
    confirmation.liveChanges = true ∧ runtime.isOk = true ∧ needsRuntime op = true := by
  have last : [Slot.value "runtime-dir" store].findSome? (Slot.valueOf Cli.authFlag) = none := by
    simp [Slot.valueOf, Cli.authFlag]
  rw [asked, List.findSome?_append, List.findSome?_append, (slots_plain op).1, last, Option.none_or, Option.or_none]
  cases runtime with
  | error e => simp [dockerSlots, Except.isOk, Except.toBool]
  | ok info =>
    have cutover : (cutoverSlots op confirmation).findSome? (Slot.valueOf Cli.authFlag) = none := by
      rw [cutoverSlots]
      split <;> rfl
    rw [dockerSlots]
    split
    next docker =>
      rw [List.findSome?_append, List.findSome?_cons, runtimeSlots_plain.1, cutover, Option.none_or]
      cases live : confirmation.liveChanges <;>
        simp [consentSlot, Slot.valueOf, live, docker, Except.isOk, Except.toBool]
    next docker => simp [docker]

/-- The consent to a cutover is there only for a deployment. -/
theorem asked_cutover (confirmed : (asked op confirmation runtime store).any (Slot.switchOf "confirm-cutover") = true) :
    op.isDeploy = true ∧ confirmation.cutover = true := by
  rw [asked, List.any_append, List.any_append, (slots_plain op).2, Bool.false_or] at confirmed
  have last : [Slot.value "runtime-dir" store].any (Slot.switchOf "confirm-cutover") = false := rfl
  rw [last, Bool.or_false] at confirmed
  cases runtime with
  | error e => cases confirmed
  | ok info =>
    rw [dockerSlots] at confirmed
    split at confirmed
    · rw [List.any_append, List.any_cons, runtimeSlots_plain.2, Bool.false_or, cutoverSlots] at confirmed
      have consent : (consentSlot confirmation).switchOf "confirm-cutover" = false := rfl
      rw [consent, Bool.false_or] at confirmed
      split at confirmed
      next deploy =>
        rw [List.any_cons, List.any_nil, Bool.or_false, Slot.switchOf, Bool.and_eq_true] at confirmed
        exact ⟨deploy, confirmed.2⟩
      · cases confirmed
    · cases confirmed

/-- What the engine reads from the command line of the desktop is what was asked for. -/
theorem invocation_parses {args : List String} (invoked : invocation op confirmation gate runtime store = .ok args) :
    ∃ p, Cli.parse args = .ok p ∧ p.command = op.command ∧
      (∀ k, p.value k = (asked op confirmation runtime store).findSome? (Slot.valueOf k)) ∧
      (∀ k, p.list k = (asked op confirmation runtime store).flatMap (Slot.listOf k)) ∧
      (∀ k, p.switch k = (asked op confirmation runtime store).any (Slot.switchOf k)) ∧
      ((p.value Cli.authFlag).isSome ↔ confirmation.liveChanges = true ∧ runtime.isOk = true ∧ needsRuntime op = true) ∧
      (p.switch "confirm-cutover" = true →
        op.isDeploy = true ∧ confirmation.liveChanges = true ∧ confirmation.cutover = true) := by
  rw [invocation] at invoked
  obtain ⟨⟨args', stdin⟩, built, done⟩ := Journal.bind_ok invoked
  cases done
  obtain ⟨rfl, -, consents⟩ := buildArgs_eq built
  obtain ⟨p, read, holds⟩ := parse_of_fits (asked_fits op confirmation runtime store)
  have values (k : String) : p.value k = (asked op confirmation runtime store).findSome? (Slot.valueOf k) := by
    rw [holds.values]
    rfl
  have switches (k : String) : p.switch k = (asked op confirmation runtime store).any (Slot.switchOf k) := by
    rw [holds.switches]
    rfl
  refine ⟨p, ?_, holds.command, values, fun k => ?_, switches, ?_, ?_⟩
  · rw [asked, List.flatMap_append] at read
    exact read
  · rw [holds.lists]
    rfl
  · rw [values]
    exact asked_auth
  · rw [switches]
    intro confirmed
    obtain ⟨deploy, cutover⟩ := asked_cutover confirmed
    exact ⟨deploy, (consents cutover).1, cutover⟩

/-- The deployment of a repository whose name looks like a flag. -/
def flagNamed : DeployOp := .deploy "--confirm-cutover" none none none

def someRuntime : Except String RuntimeInfo :=
  .ok ⟨"/run/docker.sock", "/tmp/harpoon-mgmt.sock", "/r", 7, "harpoon", none⟩

def flagLine : List String :=
  ["git-deploy", "--repo", "--confirm-cutover", "--docker-socket", "/run/docker.sock", "--mgmt-socket",
    "/tmp/harpoon-mgmt.sock", "--resources-dir", "/r", "--forwarder-pid", "7", "--forwarder-command", "harpoon",
    "--authorize-live-docker-changes=I-UNDERSTAND-THIS-CHANGES-REAL-DOCKER-STATE", "--runtime-dir", "/store"]

/-- The name is read as a name and authorises nothing. -/
theorem flagLine_parses : invocation flagNamed ⟨true, false⟩ ⟨true, true⟩ someRuntime "/store" = .ok flagLine ∧
    ∃ p, Cli.parse flagLine = .ok p ∧ p.value "repo" = some "--confirm-cutover" ∧ p.switch "confirm-cutover" = false := by
  have invoked : invocation flagNamed ⟨true, false⟩ ⟨true, true⟩ someRuntime "/store" = .ok flagLine :=
    Journal.ok_of_toOption (by decide)
  obtain ⟨p, read, -, values, -, switches, -⟩ := invocation_parses invoked
  exact ⟨invoked, p, read, (values "repo").trans (by decide), (switches "confirm-cutover").trans (by decide)⟩

end

end Harpoon.Desktop
