import Harpoon.Desktop.Observations
import Harpoon.Laws.FormRules

/-!
# When a reported match is one

Docker prints a container's labels as one text, and a label may have a comma in it, so that a piece of one label can be
taken for another label. A match is what it is reported as for every record exactly when the last pieces under the
three keys do not claim ownership, or the labels do.
-/

namespace Harpoon.Observations

open Wire (fields joined Free)

/-! ## Docker -/

inductive DockerState where
  | created
  | running
  | paused
  | restarting
  | removing
  | exited
  | dead
  deriving DecidableEq, Repr

def DockerState.text : DockerState → String
  | .created => "created"
  | .running => "running"
  | .paused => "paused"
  | .restarting => "restarting"
  | .removing => "removing"
  | .exited => "exited"
  | .dead => "dead"

/-- A container, with its labels in the order in which they are printed. -/
structure Container where
  id : String
  names : List String
  state : DockerState
  labels : List (String × String)
  ports : String
  named : names ≠ []
  plain : ∀ n ∈ names, n ≠ "" ∧ Free ',' n ∧ n.toList.head? ≠ some '/'
  distinct : (labels.map (·.1)).Nodup

/-- A label, as it is printed. -/
def labelText (l : String × String) : String := l.1 ++ (String.singleton '=' ++ l.2)

/-- The row of a container. -/
def Container.row (c : Container) : Row :=
  ⟨some c.id, some (joined ',' c.names), some c.state.text, some (joined ',' (c.labels.map labelText)), some c.ports⟩

/-- The containers that there are. No two have one name. -/
structure World where
  containers : List Container
  unique : ∀ c ∈ containers, ∀ d ∈ containers, ∀ n ∈ c.names, n ∈ d.names → c = d

def World.rows (w : World) : List Row := w.containers.map Container.row

/-- The labels make it a container of the deployment. -/
def Container.Owned (c : Container) (app deployment : String) : Prop :=
  c.labels.lookup labelManaged = some "true" ∧ c.labels.lookup labelApp = some app ∧
    c.labels.lookup labelDeployment = some deployment

/-! ## What labels claim -/

/-- What stands between the commas of the printed labels. -/
def pieces (labels : List (String × String)) : List String := labels.flatMap fun l => fields ',' (labelText l)

/-- What a piece gives as the value of the key. -/
def said (key piece : String) : Option String :=
  if piece = key then some "" else Wire.stripPrefix (key ++ String.singleton '=') piece

/-- What the last piece about the key gives as its value. -/
def lastSaid (labels : List (String × String)) (key : String) : Option String := (pieces labels).reverse.findSome? (said key)

/-- If the last pieces about the three keys claim that the container is a deployment's, then it is. -/
def Container.Honest (c : Container) : Prop :=
  ∀ app deployment, lastSaid c.labels labelManaged = some "true" → lastSaid c.labels labelApp = some app →
    lastSaid c.labels labelDeployment = some deployment → c.Owned app deployment

section

variable {α ν : Type} {js : Numbers ν} {es : List (String × α)} {key n p t : String} {v : α} {sep : Char} {fs : List String}
  {c d : Container} {w : World} {row : ObservedContainer ν} {app : SnapApp} {sv : SnapServing}

/-! ## Texts -/

theorem fields_append : fields sep (p ++ (String.singleton sep ++ t)) = fields sep p ++ fields sep t := by
  have each : ∀ f ∈ fields sep p ++ fields sep t, Free sep f := fun f mem =>
    (List.mem_append.mp mem).elim Wire.fields_free Wire.fields_free
  have whole := Wire.fields_joined each (List.append_ne_nil_of_right_ne_nil _ Wire.fields_ne_nil)
  rwa [joined, String.intercalate_append_of_ne_nil Wire.fields_ne_nil Wire.fields_ne_nil, ← joined, ← joined, Wire.joined_fields,
    Wire.joined_fields, String.append_assoc] at whole

/-- Joined texts are taken apart into the parts of each. -/
theorem fields_flat (some_ : fs ≠ []) : fields sep (joined sep fs) = fs.flatMap (fields sep) := by
  induction fs with
  | nil => exact absurd rfl some_
  | cons f fs ih =>
    cases fs with
    | nil =>
      rw [joined, String.intercalate_singleton, List.flatMap_cons, List.flatMap_nil, List.append_nil]
    | cons g gs =>
      rw [joined, String.intercalate_cons_cons, ← joined, String.append_assoc, fields_append, ih (List.cons_ne_nil _ _)]
      rfl

/-! ## Entries -/

theorem entry_of (all : ∀ e ∈ es, e.1 = key → e.2 = v) (some_ : ∃ e ∈ es, e.1 = key) : entry es key = some v := by
  rw [entry]
  cases found : es.reverse.find? fun e => e.1 = key with
  | none =>
    obtain ⟨e, mem, same⟩ := some_
    exact absurd (decide_eq_true same) (List.find?_eq_none.mp found e (List.mem_reverse.mpr mem))
  | some e =>
    have same : e.1 = key := by simpa using List.find?_some found
    rw [Option.map_some, all e (List.mem_reverse.mp (List.mem_of_find?_eq_some found)) same]

/-- The piece is taken for a label of the key exactly when it gives the key a value. -/
theorem said_eq (plain : Free '=' key) (p : String) :
    said key p = if (labelOfPiece p).1 = key then some (labelOfPiece p).2 else none := by
  rw [labelOfPiece]
  cases split : Wire.splitOnce '=' p with
  | none =>
    have free := Wire.splitOnce_none_iff.mp split
    have other : Wire.stripPrefix (key ++ String.singleton '=') p = none := by
      cases strip : Wire.stripPrefix (key ++ String.singleton '=') p with
      | none => rfl
      | some v =>
        rw [Wire.eq_of_stripPrefix strip] at free
        exact absurd (by simp) free
    rw [Option.getD_none, said, other]
  | some kv =>
    obtain ⟨k, v⟩ := kv
    obtain ⟨whole, free⟩ := Wire.splitOnce_iff.mp split
    have other : p ≠ key := by
      rintro rfl
      rw [whole] at plain
      exact plain (by simp)
    rw [Option.getD_some, said, if_neg other]
    split
    · next same =>
      have same : k = key := same
      rw [whole, same, ← String.append_assoc, Wire.stripPrefix_append]
    · next different =>
      cases strip : Wire.stripPrefix (key ++ String.singleton '=') p with
      | none => rfl
      | some v' =>
        have again := Wire.eq_of_stripPrefix strip
        rw [String.append_assoc] at again
        have split' := Wire.splitOnce_iff.mpr ⟨again, plain⟩
        exact absurd (congrArg Prod.fst (Option.some.inj (split.symm.trans split'))) different

theorem find_said (plain : Free '=' key) (filled : key ≠ "") (ps : List String) :
    (((ps.filter (· ≠ "")).map labelOfPiece).find? fun e => e.1 = key).map (·.2) = ps.findSome? (said key) := by
  induction ps with
  | nil => rfl
  | cons p ps ih =>
    have eq := said_eq plain p
    by_cases empty : p = ""
    · have none : said key p = none := by
        rw [eq, empty]
        exact if_neg fun same => filled same.symm
      rw [List.filter_cons_of_neg (by simp [empty]), ih, List.findSome?_cons, none]
    · rw [List.filter_cons_of_pos (by simp [empty]), List.map_cons, List.find?_cons, List.findSome?_cons, eq]
      by_cases same : (labelOfPiece p).1 = key
      · rw [if_pos same, decide_eq_true same]
        rfl
      · rw [if_neg same, decide_eq_false same]
        exact ih

/-- The label that is read under a key is what the last piece about it gives. -/
theorem entry_labelsOf (plain : Free '=' key) (filled : key ≠ "") (labels : List (String × String)) :
    entry (labelsOf (joined ',' (labels.map labelText))) key = lastSaid labels key := by
  rw [entry, labelsOf, lastSaid, ← find_said plain filled, ← List.map_reverse, ← List.filter_reverse]
  by_cases none : labels = []
  · rw [none]
    rfl
  · rw [fields_flat (by simpa using none), List.flatMap_map]
    rfl

/-! ## The checks -/

theorem labelCheck_id (row : ObservedContainer ν) (check : CheckId) (key want text : String) :
    (labelCheck row check key want text).id = check := by
  rw [labelCheck]
  split
  · rfl
  · dsimp only
    split <;> rfl

theorem labelCheck_ok {check : CheckId} {want text : String} :
    (labelCheck row check key want text).result = .ok ↔ (row.labels.bind fun labels => entry labels key) = some want := by
  rw [labelCheck]
  cases row.labels with
  | none => exact iff_of_false nofun nofun
  | some labels =>
    dsimp only [Option.bind_some]
    split
    · next same => exact iff_of_true rfl same
    · next other => exact iff_of_false nofun other

theorem stateCheck_id (row : ObservedContainer ν) : (stateCheck row).id = .state := rfl

theorem idCheck_id (recorded : Option String) (row : ObservedContainer ν) : (idCheck recorded row).id = .id := by
  rw [idCheck]
  split
  · rfl
  · split
    · rfl
    · split <;> rfl

variable [DecidableEq ν]

/-! ## The row of a container -/

theorem bareName_plain (plain : n.toList.head? ≠ some '/') : bareName n = n := by
  rw [bareName]
  cases strip : Wire.stripPrefix "/" n with
  | none => rfl
  | some t =>
    rw [Wire.eq_of_stripPrefix strip] at plain
    exact absurd (by simp) plain

theorem names_row (c : Container) : ((fields ',' (c.row.names.getD "")).filter (· ≠ "")) = c.names := by
  have names : c.row.names.getD "" = joined ',' c.names := rfl
  rw [names, Wire.fields_joined (fun n mem => (c.plain n mem).2.1) c.named, List.filter_eq_self]
  exact fun n mem => by simpa using (c.plain n mem).1

/-- What is shown under a container's name is the container's row. -/
theorem entry_observedFrom (js : Numbers ν) (inside : c ∈ w.containers) (named : n ∈ c.names) :
    entry (observedFrom js w.rows) n = some (observe js c.row) := by
  have of {d : Container} {e : String × ObservedContainer ν}
      (mem : e ∈ ((fields ',' (d.row.names.getD "")).filter (· ≠ "")).map fun n => (bareName n, observe js d.row)) :
      e.1 ∈ d.names ∧ e.2 = observe js d.row := by
    rw [names_row] at mem
    obtain ⟨m, inside, rfl⟩ := List.mem_map.mp mem
    exact ⟨by rw [bareName_plain (d.plain m inside).2.2]; exact inside, rfl⟩
  refine entry_of (fun e mem same => ?_) ⟨(n, observe js c.row), ?_, rfl⟩
  · obtain ⟨r, row, mem⟩ := List.mem_flatMap.mp mem
    obtain ⟨d, inside', rfl⟩ := List.mem_map.mp row
    obtain ⟨named', shown⟩ := of mem
    rw [shown, w.unique c inside d inside' n named (same ▸ named')]
  · refine List.mem_flatMap.mpr ⟨c.row, List.mem_map.mpr ⟨c, inside, rfl⟩, ?_⟩
    rw [names_row]
    exact List.mem_map.mpr ⟨n, named, by rw [bareName_plain (c.plain n named).2.2]⟩

theorem observed_running (c : Container) : (observe js c.row).state = "running" ↔ c.state = .running := by
  show Git.lowered c.state.text = "running" ↔ _
  cases c.state <;> decide

theorem observed_label (js : Numbers ν) (key : String) (plain : Free '=' key) (filled : key ≠ "") (c : Container) :
    ((observe js c.row).labels.bind fun labels => entry labels key) = lastSaid c.labels key :=
  entry_labelsOf plain filled c.labels

/-! ## What is reported -/

theorem portCheck_id (lease : Option ν) (row : ObservedContainer ν) : (portCheck js lease row).id = .port := by
  unfold portCheck
  split
  · rfl
  · split
    · rfl
    · split <;> rfl

/-- A match is reported where the container runs, has the three labels, and neither its id nor its ports differ. -/
theorem kindOf_match {recorded : Option String} {lease : Option ν} :
    kindOf (checksOf js app sv recorded lease row) row = .match_ ↔
      row.state = "running" ∧ (labelCheck row .managed labelManaged "true" "Managed by Harpoon").result = .ok ∧
        (labelCheck row .app labelApp app.id "Belongs to this application").result = .ok ∧
        (labelCheck row .deployment labelDeployment sv.deployment "Created by this deployment").result = .ok ∧
        (idCheck recorded row).result ≠ .fail ∧ (portCheck js lease row).result ≠ .fail := by
  have ownership : ((checksOf js app sv recorded lease row).filter fun c => c.id = .managed || c.id = .app || c.id = .deployment) =
      [labelCheck row .managed labelManaged "true" "Managed by Harpoon",
        labelCheck row .app labelApp app.id "Belongs to this application",
        labelCheck row .deployment labelDeployment sv.deployment "Created by this deployment"] := by
    simp [checksOf, labelCheck_id, stateCheck_id, idCheck_id, portCheck_id]
  have identity : identityFailed (checksOf js app sv recorded lease row) = true ↔
      (idCheck recorded row).result = .fail ∨ (labelCheck row .managed labelManaged "true" "Managed by Harpoon").result = .fail ∨
        (labelCheck row .app labelApp app.id "Belongs to this application").result = .fail ∨
        (labelCheck row .deployment labelDeployment sv.deployment "Created by this deployment").result = .fail ∨
        (portCheck js lease row).result = .fail := by
    simp [identityFailed, checksOf, labelCheck_id, stateCheck_id, idCheck_id, portCheck_id]
  rw [kindOf, ownership]
  split
  · next fails =>
    refine iff_of_false nofun ?_
    rintro ⟨_, managed, app, deployment, id, port⟩
    rcases identity.mp fails with h | h | h | h | h
    · exact id h
    · cases managed.symm.trans h
    · cases app.symm.trans h
    · cases deployment.symm.trans h
    · exact port h
  · next holds =>
    have holds := not_or.mp fun fails => holds (identity.mpr fails)
    split
    · next stopped => exact iff_of_false nofun fun all => stopped all.1
    · next runs =>
      split
      · next all =>
        simp only [List.all_cons, List.all_nil, Bool.and_true, Bool.and_eq_true, decide_eq_true_eq] at all
        refine iff_of_true rfl ⟨Decidable.not_not.mp runs, all.1, all.2.1, all.2.2, holds.1, fun port => ?_⟩
        exact holds.2 (.inr (.inr (.inr port)))
      · next some_ =>
        refine iff_of_false nofun fun all => some_ ?_
        simp only [List.all_cons, List.all_nil, Bool.and_true, Bool.and_eq_true, decide_eq_true_eq]
        exact ⟨all.2.1, all.2.2.1, all.2.2.2.1⟩

/-- A match is reported of a container that is running and whose labels' text claims it for the deployment. -/
theorem correlate_match (js : Numbers ν) (app : SnapApp) {o : Observation} (inside : c ∈ w.containers)
    (serves : app.serving = some sv) (named : sv.container ∈ c.names)
    (observed : correlate js app (some (observedFrom js w.rows)) = some o) :
    o.kind = .match_ ↔ c.state = .running ∧ lastSaid c.labels labelManaged = some "true" ∧
      lastSaid c.labels labelApp = some app.id ∧
      lastSaid c.labels labelDeployment = some sv.deployment ∧ (idCheck (recordedId app sv) (observe js c.row)).result ≠ .fail ∧
      (portCheck js (leasePort js app sv) (observe js c.row)).result ≠ .fail := by
  have seen := entry_observedFrom js inside named
  rw [correlate, serves, Option.map_some] at observed
  dsimp only at observed
  rw [seen] at observed
  cases observed
  have managed := observed_label js labelManaged (by decide) (by decide) c
  have ofApp := observed_label js labelApp (by decide) (by decide) c
  have ofDeployment := observed_label js labelDeployment (by decide) (by decide) c
  dsimp only
  rw [kindOf_match, labelCheck_ok, labelCheck_ok, labelCheck_ok, managed, ofApp, ofDeployment, observed_running]

end

/-! ## Two containers -/

/-- A running container of these labels, and the only one. -/
def web (labels : List (String × String)) (distinct : (labels.map (·.1)).Nodup) : Container where
  id := "0123456789ab"
  names := ["web"]
  state := .running
  labels := labels
  ports := ""
  named := List.cons_ne_nil _ _
  plain := by decide
  distinct := distinct

def alone (c : Container) : World where
  containers := [c]
  unique := fun _ first _ second _ _ _ => (List.mem_singleton.mp first).trans (List.mem_singleton.mp second).symm

/-- A container as Harpoon makes it. -/
def owned : Container := web [(labelManaged, "true"), (labelApp, "a"), (labelDeployment, "d")] (by decide)

/-- One label, whose value has the others in it. -/
def forged : Container := web [("note", "x,io.harpoon.managed=true,io.harpoon.app=a,io.harpoon.deployment=d")] (by decide)

/-- The numbers that the forms read. -/
def wholes : Numbers Nat := ⟨Forms.number, 0, Nat.repr⟩

end Harpoon.Observations
