import Harpoon.Journal.Migration
import Harpoon.Laws.ConfigCodec
import Harpoon.Laws.FileJournal
import Harpoon.Laws.Sqlite

/-!
# One history across the step to the database

While the old journal counts, the database is empty; once it holds a record, it holds the old journal's records,
each once, and then its own. That is so as long as a directory with an old journal comes to no database whose
records make neither a deployment nor a ledger entry: by these two the code tells which of the two files counts.
-/

namespace Harpoon.Journal

open Deploy Wire

variable {β σ : Type}

section

variable (keep : Keeping β σ) (insertion : β → String × String)

/-! ## The old journal -/

/-- The record is read back from its row. -/
structure Coded (l : Line β) (kind body : String) : Prop where
  row : rowOf insertion l = some (kind, body)
  read : decodeLine keep.decode body = .ok l

/-- What the earlier version may leave: no file; one whose header was not written to its end; or whole lines, and a
torn one. Its records follow from each other, and the database takes their texts. -/
structure OldJournal (legacy : Option Bytes) (ls : List (Line β)) : Prop where
  content : (legacy = none ∧ ls = []) ∨ ∃ whole tail, legacy = some (whole ++ tail) ∧ newline ∉ tail ∧
    (Whole keep.decode whole ls ∨ (whole = [] ∧ ls = [] ∧ tail.isPrefixOf (utf8 encodeHeader) = true))
  coded : ∀ l ∈ ls, ∃ kind body, Coded keep insertion l kind body ∧ Free nul kind ∧ Free nul body
  consistent : ∃ state, replay keep ls = .ok state
  /-- Nothing recorded is consistent, too. -/
  empty : ∃ state, replay keep [] = .ok state

/-! ## Runs -/

/-- A directory, and what was written through its database. -/
structure Site (β : Type) where
  dir : Dir
  /-- A process has the journal open. -/
  held : Bool
  /-- The records that were committed, in order. -/
  written : List (Line β)
  /-- Those of them that were acknowledged. -/
  acked : List (Line β)

/-- A record that its writer may append: it is read back from its row, and it follows from what the database holds. -/
structure MayAppend (t : Tables) (l : Line β) (kind body : String) : Prop where
  coded : Coded keep insertion l kind body
  follows : ∃ own state, t.rows.mapM (rowLine keep) = .ok own ∧ replay keep (own ++ [l]) = .ok state

inductive Step : Site β → Site β → Prop
  | opens {w : Site β} {found : FileJournal.Restored σ} {dir : Dir} (db : Database) (free : w.held = false)
      (done : openDir keep insertion db w.dir = (.ok found, dir)) : Step w { w with dir := dir, held := true }
  | stops {w : Site β} {dir : Dir} (db : Database) (free : w.held = false)
      (left : dir ∈ openStops keep insertion db w.dir) : Step w { w with dir := dir }
  | appends {w : Site β} {t t' : Tables} {l : Line β} {kind body : String} (db : Database) (stamp : Bool)
      (held : w.held = true) (here : w.dir.db = .tables t) (may : MayAppend keep insertion t l kind body)
      (done : appendRow db t stamp kind body = (.ok (), t')) :
      Step w ⟨{ w.dir with db := .tables t' }, true, w.written ++ [l], w.acked ++ [l]⟩
  | refuses {w : Site β} {t t' : Tables} {l : Line β} {kind body : String} {e : JournalError} (db : Database)
      (stamp : Bool) (held : w.held = true) (here : w.dir.db = .tables t) (may : MayAppend keep insertion t l kind body)
      (done : appendRow db t stamp kind body = (.error e, t')) : Step w { w with dir := { w.dir with db := .tables t' } }
  -- The transaction is committed, and nobody is told.
  | loses {w : Site β} {t t' : Tables} {l : Line β} {kind body : String} (db : Database) (stamp : Bool)
      (held : w.held = true) (here : w.dir.db = .tables t) (may : MayAppend keep insertion t l kind body)
      (done : appendRow db t stamp kind body = (.ok (), t')) :
      Step w ⟨{ w.dir with db := .tables t' }, false, w.written ++ [l], w.acked⟩
  | closes {w : Site β} : Step w { w with held := false }

/-- A runtime that has only what the earlier version left, and what comes of it by steps to states of one kind. -/
inductive Run (legacy : Option Bytes) (allowed : Site β → Prop) : Site β → Prop
  | start : Run legacy allowed ⟨⟨legacy, .absent⟩, false, [], []⟩
  | step {w w' : Site β} (run : Run legacy allowed w) (step : Step keep insertion w w') (state : allowed w') :
      Run legacy allowed w'

/-- The database has its tables. Beside an old journal it holds nothing, or a deployment or a ledger entry. -/
structure Settled (w : Site β) : Prop where
  tables : w.dir.db ≠ .blank
  entered : ∀ t own state, w.dir.db = .tables t → w.dir.legacy.isSome → t.rows ≠ [] →
    t.rows.mapM (rowLine keep) = .ok own → replay keep own = .ok state →
    state.deployments ≠ [] ∨ state.ledger.entries ≠ []

/-- A reader and the next writer find the same state: that of the old journal's records and those that were
written, of each of them once. -/
structure OneHistory (ls : List (Line β)) (w : Site β) : Prop where
  acked : w.acked.Sublist w.written
  read : ∃ found, readOnly keep w.dir = .ok found ∧ replay keep (ls ++ w.written) = .ok found.state
  opens : ∃ found dir, openDir keep insertion .works w.dir = (.ok found, dir)
  next : ∀ db found dir, openDir keep insertion db w.dir = (.ok found, dir) →
    replay keep (ls ++ w.written) = .ok found.state ∧
      ∃ t, dir.db = .tables t ∧ t.rows.mapM (rowLine keep) = .ok (ls ++ w.written)

end

/-! ## Rows -/

section

variable {keep : Keeping β σ} {insertion : β → String × String} {db : Database} {l : Line β} {kind body : String}
  {row : Row} {rows rows' : List Row} {old own ls : List (Line β)} {t t' : Tables} {d : Dir} {legacy : Option Bytes}

theorem bodyText_insertRow (inserted : insertRow db kind body = .ok row) : bodyText row = .ok body := by
  obtain ⟨_, _, inserted⟩ := bind_ok inserted
  obtain ⟨kind', _, inserted⟩ := bind_ok inserted
  obtain ⟨bytes, bound, inserted⟩ := bind_ok inserted
  obtain ⟨_, _, inserted⟩ := bind_ok inserted
  have free := bindText_ok bound
  have same : bytes = utf8 body := by
    obtain ⟨value, made, bound⟩ := bind_ok bound
    obtain ⟨_, _, bound⟩ := bind_ok bound
    rw [cstring_free free] at made
    cases made
    cases bound
    exact cstrBytes_end fun mem => free (nul_utf8.mp mem)
  cases inserted
  rw [same]
  exact bodyText_utf8 free

theorem rowLine_of_coded (coded : Coded keep insertion l kind body) (text : bodyText row = .ok body) :
    rowLine keep row = .ok l := by
  rw [rowLine, text]
  simp only [bind, Except.bind, coded.read, mapError_ok]

theorem transaction_insertRow (done : transaction db kind body = .ok row) : insertRow db kind body = .ok row := by
  obtain ⟨_, _, done⟩ := bind_ok done
  obtain ⟨row', inserted, done⟩ := bind_ok done
  obtain ⟨_, _, done⟩ := bind_ok done
  cases done
  exact inserted

theorem insertRow_works (kind_free : Free nul kind) (body_free : Free nul body) :
    ∃ row, insertRow .works kind body = .ok row := by
  rw [insertRow, Database.works, bindText_free kind_free, bindText_free body_free]
  exact ⟨_, rfl⟩

theorem mapM_append_ok {α γ ε : Type} {f : α → Except ε γ} {xs ys : List α} {as bs : List γ} (first : xs.mapM f = .ok as)
    (second : ys.mapM f = .ok bs) : (xs ++ ys).mapM f = .ok (as ++ bs) := by
  rw [List.mapM_append, first]
  simp only [bind, Except.bind, second]
  rfl

/-- What is imported is the old records, in order. -/
theorem inserted_rows (coded : ∀ l ∈ old, ∃ kind body, Coded keep insertion l kind body ∧ Free nul kind ∧ Free nul body)
    (inserted : ((old.filterMap (rowOf insertion)).mapM fun x => insertRow db x.1 x.2) = .ok rows) :
    rows.mapM (rowLine keep) = .ok old := by
  induction old generalizing rows with
  | nil =>
    cases inserted
    rfl
  | cons l old ih =>
    obtain ⟨kind, body, one, _⟩ := coded l List.mem_cons_self
    rw [List.filterMap_cons_some one.row, List.mapM_cons] at inserted
    obtain ⟨row, first, inserted⟩ := bind_ok inserted
    obtain ⟨rest, others, inserted⟩ := bind_ok inserted
    cases inserted
    have line := rowLine_of_coded one (bodyText_insertRow first)
    have lines := ih (fun l mem => coded l (List.mem_cons_of_mem _ mem)) others
    rw [List.mapM_cons, line]
    simp only [bind, Except.bind, lines]
    rfl

theorem inserted_works (coded : ∀ l ∈ old, ∃ kind body, Coded keep insertion l kind body ∧ Free nul kind ∧ Free nul body) :
    ∃ rows, ((old.filterMap (rowOf insertion)).mapM fun x => insertRow .works x.1 x.2) = .ok rows := by
  induction old with
  | nil => exact ⟨[], rfl⟩
  | cons l old ih =>
    obtain ⟨kind, body, one, kind_free, body_free⟩ := coded l List.mem_cons_self
    obtain ⟨row, first⟩ := insertRow_works kind_free body_free
    obtain ⟨rest, others⟩ := ih fun l mem => coded l (List.mem_cons_of_mem _ mem)
    rw [List.filterMap_cons_some one.row, List.mapM_cons, first]
    simp only [bind, Except.bind, others]
    exact ⟨_, rfl⟩

/-! ## The old journal is read -/

theorem OldJournal.recovered (old : OldJournal keep insertion legacy ls) {bytes : Bytes} (some : legacy = some bytes) :
    ∃ found, recover keep.decode bytes = .ok found ∧ found.lines = ls ∧ FileJournal.isOwn found bytes = true := by
  rcases old.content with ⟨none, _⟩ | ⟨whole, tail, same, free, written⟩
  · cases none.symm.trans some
  · cases same.symm.trans some
    rcases written with whole | ⟨rfl, rfl, own⟩
    · have no_record : ∀ r ∈ ([] : List Record), r.Readable keep.decode := fun _ mem => nomatch mem
      have read := whole.recover no_record free
      rw [recordBytes, List.flatMap_nil, List.append_nil] at read
      exact ⟨_, read, List.append_nil _, rfl⟩
    · refine ⟨_, recover_tail free, rfl, ?_⟩
      rw [FileJournal.isOwn, Bool.false_or, List.drop_zero]
      exact own

theorem OldJournal.none (old : OldJournal keep insertion none ls) : ls = [] := by
  rcases old.content with ⟨_, empty⟩ | ⟨_, _, some, _⟩
  · exact empty
  · cases some

theorem OldJournal.legacyRead (old : OldJournal keep insertion d.legacy ls) (some : d.legacy.isSome) :
    ∃ found, legacyRead keep d = .ok found ∧ replay keep ls = .ok found.state := by
  obtain ⟨bytes, some⟩ := Option.isSome_iff_exists.mp some
  obtain ⟨found, read, lines, own⟩ := old.recovered some
  obtain ⟨state, replayed⟩ := old.consistent
  rw [Journal.legacyRead, some, readJournal, read]
  simp only [bind, Except.bind, mapError_ok, own, if_true, lines, replayed]
  exact ⟨_, rfl, rfl⟩

/-! ## The import -/

theorem importLegacy_ok (old : OldJournal keep insertion d.legacy ls) (some : d.legacy.isSome)
    (imported : importLegacy keep insertion db d rows = .ok rows') :
    ∃ new, rows' = rows ++ new ∧ new.mapM (rowLine keep) = .ok ls := by
  obtain ⟨bytes, some⟩ := Option.isSome_iff_exists.mp some
  obtain ⟨found, read, lines, _⟩ := old.recovered some
  obtain ⟨ls', listed, imported⟩ := bind_ok imported
  have same : ls' = ls := by
    rw [some, Journal.lines, read] at listed
    cases listed
    exact lines
  obtain ⟨_, _, imported⟩ := bind_ok imported
  cases made : importLines insertion db rows ls' with
  | error e => rw [made] at imported; cases imported
  | ok made' =>
    rw [made] at imported
    cases imported
    obtain ⟨new, inserted, made⟩ := bind_ok made
    obtain ⟨_, _, made⟩ := bind_ok made
    cases made
    rw [same] at inserted
    exact ⟨new, rfl, inserted_rows old.coded inserted⟩

theorem importLegacy_works (old : OldJournal keep insertion d.legacy ls) (some : d.legacy.isSome) :
    ∃ rows', importLegacy keep insertion .works d rows = .ok rows' := by
  obtain ⟨bytes, some⟩ := Option.isSome_iff_exists.mp some
  obtain ⟨found, read, lines, _⟩ := old.recovered some
  obtain ⟨new, inserted⟩ := inserted_works old.coded
  have listed : Journal.lines keep d.legacy = .ok ls := by
    rw [some, Journal.lines, read]
    exact congrArg Except.ok lines
  rw [importLegacy, listed]
  simp only [bind, Except.bind, mapError_ok, importLines, inserted]
  exact ⟨_, rfl⟩

/-! ## Tables -/

theorem replay_nil {state : State σ} (replayed : replay keep [] = .ok state) : state = State.start keep := by
  obtain ⟨s, applied, replayed⟩ := bind_ok replayed
  obtain ⟨_, _, replayed⟩ := bind_ok replayed
  cases applied
  cases replayed
  rfl

theorem restoreTables_ok {state : State σ} (schema : t.schema ≤ supportedSchema)
    (reads : t.rows.mapM (rowLine keep) = .ok own) (replayed : replay keep own = .ok state) :
    restoreTables keep t = .ok ⟨state, 0, ⟨[], []⟩⟩ := by
  rw [restoreTables, checkSchema, if_neg (Nat.not_lt.mpr schema)]
  simp only [bind, Except.bind, reads, replayed, mapError_ok]
  rfl

variable {written : List (Line β)}

/-- The tables hold nothing yet, and nothing was written; or they hold the history. -/
structure Level (keep : Keeping β σ) (ls written : List (Line β)) (t : Tables) : Prop where
  schema : t.schema ≤ supportedSchema
  rows : (t.rows = [] ∧ written = []) ∨ t.rows.mapM (rowLine keep) = .ok (ls ++ written)
  consistent : ∃ state, replay keep (ls ++ written) = .ok state

/-- What makes a database with records the one that counts. -/
def Entered (keep : Keeping β σ) (d : Dir) (t : Tables) : Prop :=
  d.legacy.isSome → t.rows ≠ [] → ∀ own state, t.rows.mapM (rowLine keep) = .ok own → replay keep own = .ok state →
    state.deployments ≠ [] ∨ state.ledger.entries ≠ []

theorem not_counts {found : FileJournal.Restored σ}
    (entered : found.state.deployments ≠ [] ∨ found.state.ledger.entries ≠ []) : legacyCounts d found = false := by
  rcases entered with some | some
  · rw [legacyCounts, List.isEmpty_eq_false_iff.mpr some]
    rfl
  · rw [legacyCounts, List.isEmpty_eq_false_iff.mpr some, Bool.and_false]
    rfl

/-- The old journal counts as long as nothing was imported or written, and the database from then on. -/
theorem Level.counts (level : Level keep ls written t) (old : OldJournal keep insertion d.legacy ls)
    (entered : Entered keep d t) :
    ∃ found, restoreTables keep t = .ok found ∧
      ((legacyCounts d found = true ∧ t.rows = [] ∧ written = [] ∧ d.legacy.isSome) ∨
        (legacyCounts d found = false ∧ replay keep (ls ++ written) = .ok found.state ∧
          t.rows.mapM (rowLine keep) = .ok (ls ++ written))) := by
  by_cases empty : t.rows = []
  · obtain ⟨state, replayed⟩ := old.empty
    have none : t.rows.mapM (rowLine keep) = .ok [] := by rw [empty]; rfl
    have nothing : written = [] ∧ (d.legacy.isSome = false → ls = []) := by
      rcases level.rows with ⟨_, nothing⟩ | reads
      · refine ⟨nothing, fun gone => ?_⟩
        have gone := Option.isSome_eq_false_iff.mp gone
        exact (Option.isNone_iff_eq_none.mp gone ▸ old).none
      · rw [none] at reads
        have both := List.append_eq_nil_iff.mp (Except.ok.inj reads).symm
        exact ⟨both.2, fun _ => both.1⟩
    refine ⟨_, restoreTables_ok level.schema none replayed, ?_⟩
    cases replay_nil replayed
    cases some : d.legacy.isSome with
    | true => exact .inl ⟨some, empty, nothing.1, rfl⟩
    | false =>
      right
      rw [nothing.1, nothing.2 some]
      exact ⟨some, replayed, none⟩
  · have reads : t.rows.mapM (rowLine keep) = .ok (ls ++ written) :=
      level.rows.resolve_left fun pending => empty pending.1
    obtain ⟨state, replayed⟩ := level.consistent
    refine ⟨_, restoreTables_ok level.schema reads replayed, .inr ⟨?_, replayed, reads⟩⟩
    cases some : d.legacy.isSome with
    | true => exact not_counts (entered some empty _ _ reads replayed)
    | false => rw [legacyCounts, some, Bool.and_false]

theorem readOnly_legacy {found : FileJournal.Restored σ} (here : d.db = .tables t)
    (restored : restoreTables keep t = .ok found) (counts : legacyCounts d found = true) :
    readOnly keep d = legacyRead keep d := by
  rw [readOnly, here, if_neg (fun absent => nomatch absent), restore, restored]
  exact if_pos counts

/-- What a reader finds. -/
theorem Level.readOnly (level : Level keep ls written t) (old : OldJournal keep insertion d.legacy ls)
    (entered : Entered keep d t) (here : d.db = .tables t) :
    ∃ found, Journal.readOnly keep d = .ok found ∧ replay keep (ls ++ written) = .ok found.state := by
  obtain ⟨found, restored, counts⟩ := level.counts old entered
  rcases counts with ⟨counts, _, nothing, some⟩ | ⟨counts, replayed, _⟩
  · rw [readOnly_legacy here restored counts, nothing, List.append_nil]
    exact old.legacyRead some
  · refine ⟨found, ?_, replayed⟩
    rw [Journal.readOnly, here, if_neg (fun absent => nomatch absent), restore, restored]
    exact if_neg (Bool.eq_false_iff.mp counts)

/-- What the next writer finds, and leaves. -/
theorem Level.openTables (level : Level keep ls written t) (old : OldJournal keep insertion d.legacy ls)
    (entered : Entered keep d t) :
    Level keep ls written (openTables keep insertion db d t).2 ∧
      ∀ found, (Journal.openTables keep insertion db d t).1 = .ok found →
        replay keep (ls ++ written) = .ok found.state ∧
        (Journal.openTables keep insertion db d t).2.rows.mapM (rowLine keep) = .ok (ls ++ written) := by
  obtain ⟨found, restored, counts⟩ := level.counts old entered
  rw [Journal.openTables, restored]
  dsimp only
  rcases counts with ⟨counts, empty, nothing, some⟩ | ⟨counts, replayed, reads⟩
  · rw [if_pos counts]
    cases imported : importLegacy keep insertion db d t.rows with
    | error e => exact ⟨level, fun _ failed => nomatch failed⟩
    | ok rows =>
      obtain ⟨new, rfl, reads⟩ := importLegacy_ok old some imported
      obtain ⟨state, replayed⟩ := level.consistent
      have held : (t.rows ++ new).mapM (rowLine keep) = .ok (ls ++ written) := by
        rw [empty, nothing, List.append_nil]
        exact reads
      have restored := restoreTables_ok (t := ⟨t.schema, t.rows ++ new⟩) level.schema held replayed
      refine ⟨⟨level.schema, .inr held, state, replayed⟩, ?_⟩
      intro found same
      cases restored.symm.trans same
      exact ⟨replayed, held⟩
  · rw [if_neg (Bool.eq_false_iff.mp counts)]
    refine ⟨level, ?_⟩
    intro found same
    cases same
    exact ⟨replayed, reads⟩

theorem Level.openTables_works (level : Level keep ls written t) (old : OldJournal keep insertion d.legacy ls)
    (entered : Entered keep d t) : ∃ found, (Journal.openTables keep insertion .works d t).1 = .ok found := by
  obtain ⟨found, restored, counts⟩ := level.counts old entered
  rw [Journal.openTables, restored]
  dsimp only
  rcases counts with ⟨counts, empty, nothing, some⟩ | ⟨counts, _⟩
  · rw [if_pos counts]
    obtain ⟨rows, imported⟩ := @importLegacy_works _ _ _ _ t.rows _ _ old some
    obtain ⟨new, rfl, reads⟩ := importLegacy_ok old some imported
    obtain ⟨state, replayed⟩ := old.consistent
    rw [imported]
    exact ⟨_, restoreTables_ok level.schema (by rw [empty]; exact reads) replayed⟩
  · rw [if_neg (Bool.eq_false_iff.mp counts)]
    exact ⟨found, rfl⟩

/-! ## Steps -/

/-- The state of the database file, while a process holds it or not. -/
inductive Stored (keep : Keeping β σ) (ls : List (Line β)) : DbFile → Bool → List (Line β) → Prop
  | absent : Stored keep ls .absent false []
  | tables {t : Tables} {held : Bool} {written : List (Line β)} (level : Level keep ls written t)
      (reads : held = true → t.rows.mapM (rowLine keep) = .ok (ls ++ written)) : Stored keep ls (.tables t) held written

structure Stands (keep : Keeping β σ) (legacy : Option Bytes) (ls : List (Line β)) (w : Site β) : Prop where
  legacy : w.dir.legacy = legacy
  acked : w.acked.Sublist w.written
  db : Stored keep ls w.dir.db w.held w.written

variable {w w' : Site β}

theorem Level.migrate (level : Level keep ls written t) : Level keep ls written (DbFile.tables t).migrate :=
  ⟨Nat.max_le.mpr ⟨level.schema, by decide⟩, level.rows, level.consistent⟩

theorem Settled.migrate (settled : Settled keep w) : Entered keep w.dir w.dir.db.migrate := by
  intro some filled own state reads replayed
  cases here : w.dir.db with
  | absent => rw [here] at filled; exact absurd rfl filled
  | blank => exact absurd here settled.tables
  | tables t =>
    rw [here] at filled reads
    exact settled.entered t own state here some filled reads replayed

/-- Opening starts from tables that hold nothing, or the history. -/
theorem Stored.migrate {db : DbFile} {held : Bool} (stored : Stored keep ls db held written)
    (consistent : ∃ state, replay keep ls = .ok state) : Level keep ls written db.migrate := by
  cases stored with
  | absent => exact ⟨by decide, .inl ⟨rfl, rfl⟩, by rwa [List.append_nil]⟩
  | tables level _ => exact level.migrate

/-- A record is appended to what is there. -/
theorem Level.append {stamp : Bool} (level : Level keep ls written t)
    (reads : t.rows.mapM (rowLine keep) = .ok (ls ++ written)) (may : MayAppend keep insertion t l kind body)
    (done : appendRow db t stamp kind body = (.ok (), t')) :
    Level keep ls (written ++ [l]) t' ∧ t'.rows.mapM (rowLine keep) = .ok (ls ++ (written ++ [l])) := by
  obtain ⟨own, state, known, replayed⟩ := may.follows
  cases reads.symm.trans known
  rw [appendRow] at done
  cases inserted : transaction db kind body with
  | error e => rw [inserted] at done; cases done
  | ok row =>
    rw [inserted] at done
    cases done
    have line : [row].mapM (rowLine keep) = .ok [l] := by
      rw [List.mapM_cons, rowLine_of_coded may.coded (bodyText_insertRow (transaction_insertRow inserted))]
      rfl
    have rows : (t.rows ++ [row]).mapM (rowLine keep) = .ok (ls ++ (written ++ [l])) := by
      rw [← List.append_assoc]
      exact mapM_append_ok reads line
    have schema : (if stamp then max t.schema removalSchema else t.schema) ≤ supportedSchema := by
      split
      · exact Nat.max_le.mpr ⟨level.schema, Nat.le_refl 2⟩
      · exact level.schema
    exact ⟨⟨schema, .inr rows, state, by rw [← List.append_assoc]; exact replayed⟩, rows⟩

theorem appendRow_refused {stamp : Bool} {e : JournalError} (done : appendRow db t stamp kind body = (.error e, t')) :
    t' = t := by
  rw [appendRow] at done
  cases inserted : transaction db kind body with
  | error e => rw [inserted] at done; cases done; rfl
  | ok row => rw [inserted] at done; cases done

theorem Stored.of_absent {db : DbFile} {held : Bool} (stored : Stored keep ls db held written) (here : db = .absent) :
    held = false ∧ written = [] := by
  cases stored with
  | absent => exact ⟨rfl, rfl⟩
  | tables _ _ => cases here

theorem Stored.of_tables {held : Bool} (stored : Stored keep ls d.db held written) (here : d.db = .tables t) :
    Level keep ls written t ∧ (held = true → t.rows.mapM (rowLine keep) = .ok (ls ++ written)) := by
  rw [here] at stored
  cases stored with
  | tables level reads => exact ⟨level, reads⟩

/-- Wherever an opening stops, the tables are not there, or they hold nothing or the history. -/
theorem Stands.stop {dir : Dir} (stands : Stands keep legacy ls w) (old : OldJournal keep insertion legacy ls)
    (before : Settled keep w) (free : w.held = false) (left : dir ∈ openStops keep insertion db w.dir)
    (tables : dir.db ≠ .blank) : Stands keep legacy ls { w with dir := dir } := by
  have level := stands.db.migrate old.consistent
  have later : ∀ {own : Prop}, w.held = true → own := fun held => absurd (held.symm.trans free) (by decide)
  rw [openStops, List.mem_cons, List.mem_cons, List.mem_cons, List.mem_singleton] at left
  rcases left with rfl | rfl | rfl | rfl
  · exact stands
  · refine ⟨stands.legacy, stands.acked, ?_⟩
    cases here : w.dir.db with
    | absent => rw [here] at tables; exact absurd rfl tables
    | blank => exact absurd here before.tables
    | tables t =>
      have stored := stands.db
      rw [here] at stored
      exact stored
  · exact ⟨stands.legacy, stands.acked, .tables level later⟩
  · exact ⟨stands.legacy, stands.acked, .tables (level.openTables (stands.legacy ▸ old) before.migrate).1 later⟩

/-- Step lemma. -/
theorem Stands.step (stands : Stands keep legacy ls w) (old : OldJournal keep insertion legacy ls)
    (before : Settled keep w) (step : Step keep insertion w w') (after : Settled keep w') : Stands keep legacy ls w' := by
  cases step with
  | opens db free done =>
    obtain ⟨level, found⟩ := @Level.openTables _ _ _ _ db _ _ _ _ (stands.db.migrate old.consistent) (stands.legacy ▸ old) before.migrate
    obtain ⟨answer, rfl⟩ := Prod.mk.injEq .. ▸ done
    exact ⟨stands.legacy, stands.acked, .tables level fun _ => (found _ answer).2⟩
  | stops db free left => exact stands.stop old before free left after.tables
  | appends db stamp held here may done =>
    obtain ⟨level, reads⟩ := stands.db.of_tables here
    obtain ⟨level, reads⟩ := level.append (reads held) may done
    exact ⟨stands.legacy, stands.acked.append (List.Sublist.refl _), .tables level fun _ => reads⟩
  | refuses db stamp held here may done =>
    obtain ⟨level, reads⟩ := stands.db.of_tables here
    rw [appendRow_refused done]
    exact ⟨stands.legacy, stands.acked, .tables level reads⟩
  | loses db stamp held here may done =>
    obtain ⟨level, reads⟩ := stands.db.of_tables here
    obtain ⟨level, reads⟩ := level.append (reads held) may done
    exact ⟨stands.legacy, stands.acked.trans (List.sublist_append_left _ _), .tables level fun _ => reads⟩
  | closes =>
    refine ⟨stands.legacy, stands.acked, ?_⟩
    cases here : w.dir.db with
    | absent =>
      rw [(stands.db.of_absent here).2]
      exact .absent
    | blank => exact absurd here before.tables
    | tables t =>
      obtain ⟨level, _⟩ := stands.db.of_tables here
      exact .tables level fun held => nomatch held

/-! ## Runs -/

theorem Run.settled (run : Run keep insertion legacy (Settled keep) w) : Settled keep w := by
  cases run with
  | start =>
    refine ⟨?_, ?_⟩
    · intro blank
      cases blank
    · intro t own state here
      cases here
  | step _ _ settled => exact settled

/-- Run lemma. -/
theorem Run.stands (run : Run keep insertion legacy (Settled keep) w) (old : OldJournal keep insertion legacy ls) :
    Stands keep legacy ls w := by
  induction run with
  | start => exact ⟨rfl, .slnil, .absent⟩
  | step run step settled ih => exact ih.step old run.settled step settled

end

/-! ## A journal that the earlier version only created -/

namespace Upgraded

def applyConfig (s : Config.ConfigState) : Config.ConfigRecord ⊕ Unit → Except String Config.ConfigState
  | .inl r => s.apply r
  | .inr _ => .ok s

/-- A journal with configuration records, and no other kind of those that are not looked into. -/
def keep : Keeping (Config.ConfigRecord ⊕ Unit) Config.ConfigState where
  decode := Config.decodeOther fun _ => .error "unknown record"
  empty := .empty
  apply := applyConfig
  checkLogs _ _ := .ok ()
  checkPins s deployments := s.checkPins deployments

def insertion : Config.ConfigRecord ⊕ Unit → String × String
  | .inl r => ("config", Config.encode r)
  | .inr _ => ("", "")

/-- The file holds its header. -/
theorem created : OldJournal keep insertion (some headerBytes) [] where
  content := by
    refine .inr ⟨headerBytes, [], by rw [List.append_nil], List.not_mem_nil, .inl ?_⟩
    refine ⟨[utf8 encodeHeader], fileBytes_nil.symm.trans fileBytes_eq, ?_, List.cons_ne_nil _ _, ?_⟩
    · intro l mem
      rw [List.mem_singleton.mp mem]
      exact newline_utf8 header_newline
    · rw [recoverLines, recoverLine_header]
      rfl
  coded := fun _ mem => nomatch mem
  consistent := ⟨_, rfl⟩
  empty := ⟨_, rfl⟩

theorem rows_of_nothing {rows : List Row} (reads : rows.mapM (rowLine keep) = .ok []) : rows = [] := by
  cases rows with
  | nil => rfl
  | cons row rows =>
    rw [List.mapM_cons] at reads
    obtain ⟨_, _, reads⟩ := bind_ok reads
    obtain ⟨_, _, reads⟩ := bind_ok reads
    cases reads

/-- Its first opening imports nothing. -/
theorem opened : ∃ t : Tables, t.rows = [] ∧ t.schema ≤ supportedSchema ∧
    ∃ found, openDir keep insertion .works ⟨some headerBytes, .absent⟩ = (.ok found, ⟨some headerBytes, .tables t⟩) := by
  have level : Level keep [] [] (DbFile.migrate .absent) := ⟨by decide, .inl ⟨rfl, rfl⟩, _, rfl⟩
  have entered : Entered keep ⟨some headerBytes, .absent⟩ (DbFile.migrate .absent) := by
    intro _ filled
    exact absurd rfl filled
  have old : OldJournal keep insertion (Dir.mk (some headerBytes) .absent).legacy [] := created
  obtain ⟨found, answer⟩ := level.openTables_works old entered
  obtain ⟨left, reads⟩ := @Level.openTables _ _ _ _ .works _ _ _ _ level old entered
  exact ⟨_, rows_of_nothing (reads found answer).2, left.schema, found, by rw [openDir, answer]⟩

/-- `config set` at the global scope. -/
def definition : Config.ConfigRecord := .definition ⟨.everywhere none, "TZ", .set ⟨false, true⟩ (.config "utc"), 5⟩

theorem definition_reads : definition.Reads where
  scope := ⟨rfl, rfl⟩
  name := ok_of_toOption (by decide)
  setting := ⟨.inr rfl, ok_of_toOption (by decide)⟩
  time := by decide

theorem definition_coded : Coded keep insertion (.other (.inl definition)) "config" (Config.encode definition) :=
  ⟨rfl, Config.decodeLine_encode definition_reads⟩

/-- The command is acknowledged. -/
theorem defined {t : Tables} (empty : t.rows = []) : ∃ t' : Tables,
    appendRow .works t false "config" (Config.encode definition) = (.ok (), t') ∧ t'.schema = t.schema ∧
      t'.rows.mapM (rowLine keep) = .ok [.other (.inl definition)] := by
  have free : Free nul "config" ∧ Free nul (Config.encode definition) := by decide +kernel
  obtain ⟨row, inserted⟩ := insertRow_works free.1 free.2
  have done : transaction .works "config" (Config.encode definition) = .ok row := by
    rw [transaction, inserted]
    rfl
  refine ⟨⟨t.schema, t.rows ++ [row]⟩, by rw [appendRow, done]; rfl, rfl, ?_⟩
  show (t.rows ++ [row]).mapM (rowLine keep) = _
  rw [empty, List.nil_append, List.mapM_cons, rowLine_of_coded definition_coded (bodyText_insertRow inserted)]
  rfl

/-- What the definition amounts to. -/
def after : State Config.ConfigState :=
  ⟨[], .new, .new, ⟨[⟨.everywhere none, "TZ", .set ⟨false, true⟩ (.config "utc"), 5⟩], .empty, []⟩⟩

theorem replay_definition : replay keep [.other (.inl definition)] = .ok after := rfl

end Upgraded

end Harpoon.Journal
