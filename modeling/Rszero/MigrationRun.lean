import Rszero.AssocList
import Rszero.Migration

/-!
# Runs of a single migrator

`run` executes the pending migrations in the order of their names and records each, so that nothing
is pending afterwards. One whose SQL fails ends the run: what is before it is recorded, what is
after it is left alone, and the next run resumes with it.
-/

namespace Rszero.Migration

variable {collation : Collation} {faults : MigrationCall → Option String} {s s' t : State}

@[simp] theorem alone_done {α : Type} (result : Except RszeroError α) :
    alone collation faults s (.done result) = (some result, s) := rfl

@[simp] theorem alone_call {α : Type} {op : MigrationCall} {next : op.Answer → Program α} :
    alone collation faults s (.call op next) =
      alone collation faults (perform collation s (faults op) op).2
        (next (perform collation s (faults op) op).1) := rfl

@[simp] theorem answered_none {α : Type} (ans : Except String α) :
    answered none s ans s' = (ans, s') := rfl

@[simp] theorem answered_some {α : Type} (e : String) (ans : Except String α) :
    answered (some e) s ans s' = (.error e, s) := rfl

def Directory.read (dir : Directory) (name : String) : String := (dir.files.lookup name).getD ""

theorem Directory.lookup_eq (dir : Directory) {name sql : String} (h : (name, sql) ∈ dir.files) :
    dir.files.lookup name = some sql :=
  (AssocList.lookup_eq_some_iff dir.nodup).2 h

theorem Directory.lookup_of_mem (dir : Directory) {name : String} (h : name ∈ dir.names) :
    dir.files.lookup name = some (dir.read name) := by
  obtain ⟨⟨name', sql⟩, hmem, rfl⟩ := List.mem_map.1 h
  have hlookup := dir.lookup_eq hmem
  rw [Directory.read, hlookup]
  rfl

theorem Directory.mem_files_iff (dir : Directory) {name sql : String} :
    (name, sql) ∈ dir.files ↔ name ∈ dir.names ∧ sql = dir.read name := by
  constructor
  · intro h
    refine ⟨List.mem_map_of_mem h, ?_⟩
    simp [Directory.read, dir.lookup_eq h]
  · rintro ⟨hname, rfl⟩
    obtain ⟨⟨name', sql⟩, hmem, rfl⟩ := List.mem_map.1 hname
    simpa [Directory.read, dir.lookup_eq hmem] using hmem

def Directory.file (dir : Directory) (name : String) : String × String := (name, dir.read name)

theorem sortByName_perm (names : List String) : (sortByName names).Perm names :=
  List.perm_insertionSort ..

theorem mem_getMigrationFiles {names : List String} {name : String} :
    name ∈ getMigrationFiles names ↔ name ∈ names ∧ isMigration name := by
  rw [getMigrationFiles, (sortByName_perm _).mem_iff, List.mem_filter]

theorem getMigrationFiles_pairwise (names : List String) :
    (getMigrationFiles names).Pairwise (· ≤ ·) := List.pairwise_insertionSort ..

theorem sortByName_getMigrationFiles (names : List String) :
    sortByName (getMigrationFiles names) = getMigrationFiles names :=
  (getMigrationFiles_pairwise names).insertionSort_eq

theorem getMigrationFiles_nodup {names : List String} (h : names.Nodup) :
    (getMigrationFiles names).Nodup :=
  (sortByName_perm _).nodup_iff.2 (h.filter _)

/-- The files whose names are not applied, in the order of the names. -/
def todo (dir : Directory) (db : Database) : List (String × String) :=
  ((getMigrationFiles dir.names).filter (· ∉ db.applied)).map dir.file

def upBatch (file : String × String) : Batch := .up file.1 file.2

/-- The files have been executed and recorded, one after the other, and nothing else was done. -/
structure Applies (s s' : State) (files : List (String × String)) : Prop where
  dir : s'.dir = s.dir
  table : s'.db.table.isSome
  applied : s'.db.applied = s.db.applied ++ files.map Prod.fst
  log : s'.db.log = s.db.log ++ files.map upBatch

theorem Applies.refl (h : s.db.table.isSome) : Applies s s [] := ⟨rfl, h, by simp, by simp⟩

theorem Applies.trans {files files' : List (String × String)} (h : Applies s t files)
    (h' : Applies t s' files') : Applies s s' (files ++ files') where
  dir := h'.dir.trans h.dir
  table := h'.table
  applied := by rw [h'.applied, h.applied, List.map_append, List.append_assoc]
  log := by rw [h'.log, h.log, List.map_append, List.append_assoc]

structure Spared (faults : MigrationCall → Option String) (file : String × String) : Prop where
  read : faults (.readFile file.1) = none
  apply : faults (.apply file.1 file.2) = none
  insert : faults (.insertVersion file.1) = none

theorem alone_applyMigration (collation : Collation) {file : String × String}
    (hf : Spared faults file) (htable : s.db.table.isSome) (hnew : file.1 ∉ s.db.applied) :
    ∃ s', alone collation faults s (applyMigration file.1 file.2) = (some (.ok ()), s') ∧
      Applies s s' [file] := by
  obtain ⟨version, sql⟩ := file
  have hsome : (s.db.execute (.up version sql)).table.isNone = false := by
    simpa [Database.execute] using htable
  have hfree : version ∉ (s.db.execute (.up version sql)).applied := hnew
  refine ⟨{ s with db := (s.db.execute (.up version sql)).insert version hfree }, ?_,
    ⟨rfl, rfl, rfl, rfl⟩⟩
  simp [applyMigration, perform, hf.apply, hf.insert, hsome, hfree]

variable {dir : Directory} {applied names : List String}

theorem alone_readFile {α : Type} {name : String} {next : Except String String → Program α}
    (hdir : s.dir = some dir) (hmem : name ∈ dir.names) (hf : faults (.readFile name) = none) :
    alone collation faults s (.call (.readFile name) next) =
      alone collation faults s (next (.ok (dir.read name))) := by
  simp [perform, hf, hdir, dir.lookup_of_mem hmem]

/-- The loop passes the files that are applied and applies the others. -/
theorem alone_applyPending (collation : Collation) (applied : List String)
    (hdir : s.dir = some dir) (htable : s.db.table.isSome) (hnodup : names.Nodup)
    (hmem : ∀ name ∈ names, name ∈ dir.names)
    (hnew : ∀ name ∈ names, name ∉ applied → name ∉ s.db.applied)
    (hf : ∀ name ∈ names, name ∉ applied → Spared faults (dir.file name)) (rest : List String) :
    ∃ s', alone collation faults s (applyPending applied (names ++ rest)) =
        alone collation faults s' (applyPending applied rest) ∧
      Applies s s' ((names.filter (· ∉ applied)).map dir.file) := by
  induction names generalizing s with
  | nil => exact ⟨s, rfl, .refl htable⟩
  | cons name names ih =>
      rw [List.nodup_cons] at hnodup
      rw [List.cons_append, applyPending]
      by_cases hname : name ∈ applied
      · obtain ⟨s', hrun, happlies⟩ := ih hdir htable hnodup.2 (fun n hn => hmem n (by simp [hn]))
          (fun n hn => hnew n (by simp [hn])) (fun n hn => hf n (by simp [hn]))
        refine ⟨s', ?_, by simpa [hname] using happlies⟩
        rw [if_pos hname, hrun]
      · have hspared := hf name (by simp) hname
        obtain ⟨t, happly, ht⟩ := alone_applyMigration collation hspared htable
          (hnew name (by simp) hname)
        have hnew' (n : String) (hn : n ∈ names) (hn' : n ∉ applied) : n ∉ t.db.applied := by
          have hne : n ≠ name := by
            rintro rfl
            exact hnodup.1 hn
          rw [ht.applied]
          simp [Directory.file, hnew n (by simp [hn]) hn', hne]
        obtain ⟨s', hrun, happlies⟩ := ih (ht.dir.trans hdir) ht.table hnodup.2
          (fun n hn => hmem n (by simp [hn])) hnew' (fun n hn => hf n (by simp [hn]))
        refine ⟨s', ?_, by simpa [hname] using ht.trans happlies⟩
        rw [if_neg hname, alone_readFile hdir (hmem name (by simp)) hspared.read]
        exact (CallProgram.eval_bind happly).trans hrun

/-- The loop ends at a file whose SQL fails. -/
theorem alone_applyPending_fails {name : String} {e : String} (hdir : s.dir = some dir)
    (hmem : name ∈ dir.names) (hname : name ∉ applied) (hread : faults (.readFile name) = none)
    (hfault : faults (.apply name (dir.read name)) = some e) (rest : List String) :
    alone collation faults s (applyPending applied (name :: rest)) =
      (some (.error (.database s!"failed to apply migration {name}: {e}" none)), s) := by
  have happly : alone collation faults s (applyMigration name (dir.read name)) =
      (some (.error (.database s!"failed to apply migration {name}: {e}" none)), s) := by
    simp [applyMigration, fail, perform, hfault]
  rw [applyPending, if_neg hname, alone_readFile hdir hmem hread]
  exact CallProgram.eval_bind happly

def noFaults : MigrationCall → Option String := fun _ => none

theorem spared_noFaults (file : String × String) : Spared noFaults file := ⟨rfl, rfl, rfl⟩

structure Starts (faults : MigrationCall → Option String) : Prop where
  create : faults .createTable = none
  select : faults .selectVersions = none
  read : faults .readDir = none

theorem starts_noFaults : Starts noFaults := ⟨rfl, rfl, rfl⟩

theorem mem_sort {rows : List String} {name : String} : name ∈ collation.sort rows ↔ name ∈ rows :=
  List.mem_insertionSort _

theorem alone_run (hf : Starts faults) (hdir : s.dir = some dir) :
    alone collation faults s run =
      alone collation faults { s with db := s.db.createTable }
        (applyPending (collation.sort s.db.applied) (getMigrationFiles dir.names)) := by
  simp [run, perform, hdir, hf.create, hf.select, hf.read, Database.createTable,
    sortByName_getMigrationFiles]

/-- A run applies the files up to any of those that it has to do, if nothing fails until then. -/
theorem alone_run_until (collation : Collation) {before rest : List String} (hf : Starts faults)
    (hdir : s.dir = some dir)
    (hnames : getMigrationFiles dir.names = before ++ rest)
    (hspared : ∀ name ∈ before, name ∉ s.db.applied → Spared faults (dir.file name)) :
    ∃ s', alone collation faults s run =
        alone collation faults s' (applyPending (collation.sort s.db.applied) rest) ∧
      Applies s s' ((before.filter (· ∉ s.db.applied)).map dir.file) := by
  have hnodup : (before ++ rest).Nodup := hnames ▸ getMigrationFiles_nodup dir.nodup
  have hmem (name : String) (h : name ∈ before) : name ∈ dir.names := by
    have hfile : name ∈ getMigrationFiles dir.names := hnames ▸ List.mem_append_left _ h
    exact (mem_getMigrationFiles.1 hfile).1
  have hspared' (name : String) (h : name ∈ before) (hnew : name ∉ collation.sort s.db.applied) :
      Spared faults (dir.file name) := hspared name h (mt mem_sort.2 hnew)
  obtain ⟨s', hrun, happlies⟩ := alone_applyPending (s := { s with db := s.db.createTable })
    collation (collation.sort s.db.applied) hdir rfl (List.nodup_append.1 hnodup).1 hmem
    (fun name _ hnew => mt mem_sort.2 hnew) hspared' rest
  refine ⟨s', ?_, ?_⟩
  · rw [alone_run hf hdir, hnames]
    exact hrun
  · simp only [mem_sort] at happlies
    exact ⟨happlies.dir, happlies.table, happlies.applied, happlies.log⟩

theorem alone_run_noFaults (collation : Collation) (hdir : s.dir = some dir) :
    ∃ s', alone collation noFaults s run = (some (.ok ()), s') ∧ Applies s s' (todo dir s.db) := by
  obtain ⟨s', hrun, happlies⟩ := alone_run_until collation starts_noFaults hdir
    (List.append_nil _).symm (fun name _ _ => spared_noFaults _)
  exact ⟨s', hrun, happlies⟩

theorem todo_pairwise (dir : Directory) (db : Database) :
    ((todo dir db).map Prod.fst).Pairwise (· < ·) := by
  have hnodup : (getMigrationFiles dir.names).Nodup := getMigrationFiles_nodup dir.nodup
  have hlt : (getMigrationFiles dir.names).Pairwise (· < ·) :=
    ((getMigrationFiles_pairwise dir.names).and hnodup).imp (fun h => lt_of_le_of_ne h.1 h.2)
  have hfst : Prod.fst ∘ dir.file = id := rfl
  rw [todo, List.map_map, hfst, List.map_id]
  exact hlt.filter _

theorem mem_todo {db : Database} {file : String × String} :
    file ∈ todo dir db ↔ file ∈ dir.files ∧ isMigration file.1 ∧ file.1 ∉ db.applied := by
  obtain ⟨name, sql⟩ := file
  rw [dir.mem_files_iff, todo, List.mem_map]
  constructor
  · rintro ⟨name', hname, heq⟩
    obtain ⟨rfl, rfl⟩ := Prod.mk.inj heq
    obtain ⟨hfile, hnew⟩ := List.mem_filter.1 hname
    obtain ⟨hmem, hmigration⟩ := mem_getMigrationFiles.1 hfile
    exact ⟨⟨hmem, rfl⟩, hmigration, of_decide_eq_true hnew⟩
  · rintro ⟨⟨hmem, rfl⟩, hmigration, hnew⟩
    have hfile := mem_getMigrationFiles.2 ⟨hmem, hmigration⟩
    exact ⟨name, List.mem_filter.2 ⟨hfile, decide_eq_true hnew⟩, rfl⟩

/-- Once some of the files have been applied, the others are left. -/
theorem todo_of_applies {before rest : List (String × String)}
    (hsplit : todo dir s.db = before ++ rest) (h : Applies s s' before) :
    todo dir s'.db = rest := by
  obtain ⟨names, names', hnames, rfl, rfl⟩ := List.map_eq_append_iff.1 hsplit
  have hnodup : (names ++ names').Nodup :=
    hnames ▸ (getMigrationFiles_nodup dir.nodup).filter _
  have hfst : names.map (Prod.fst ∘ dir.file) = names := List.map_id _
  have hleft : (getMigrationFiles dir.names).filter (· ∉ s'.db.applied) =
      (names ++ names').filter (· ∉ names) := by
    rw [← hnames, List.filter_filter, h.applied, List.map_map, hfst]
    simp [and_comm]
  have hnone : names.filter (· ∉ names) = [] := by simp
  have hall : names'.filter (· ∉ names) = names' := by
    rw [List.filter_eq_self]
    intro name hname
    have hdisjoint := (List.nodup_append.1 hnodup).2.2
    exact decide_eq_true (fun h' => hdisjoint name h' name hname rfl)
  rw [todo, hleft, List.filter_append, hnone, hall, List.nil_append]

theorem alone_pending (collation : Collation) (hdir : s.dir = some dir)
    (htable : s.db.table.isSome) :
    alone collation noFaults s pending = (some (.ok ((todo dir s.db).map Prod.fst)), s) := by
  obtain ⟨rows, hrows⟩ := Option.isSome_iff_exists.1 htable
  have happlied : s.db.applied = rows := by rw [Database.applied, hrows, Option.getD_some]
  have hfst : Prod.fst ∘ dir.file = id := rfl
  simp [pending, perform, noFaults, hdir, hrows, todo, happlied, hfst, mem_sort]

/-- The run applies the files, after which nothing is pending and another run applies nothing. -/
def Completes (collation : Collation) (s : State) (files : List (String × String)) : Prop :=
  ∃ s', alone collation noFaults s run = (some (.ok ()), s') ∧ Applies s s' files ∧
    alone collation noFaults s' pending = (some (.ok []), s') ∧
    ∃ s'', alone collation noFaults s' run = (some (.ok ()), s'') ∧ Applies s' s'' []

structure FailsAt (faults : MigrationCall → Option String) (file : String × String)
    (after : List (String × String)) (e : String) : Prop where
  fails : faults (.apply file.1 file.2) = some e
  first : ∀ op, faults op ≠ none → ∃ file' ∈ file :: after, op = .apply file'.1 file'.2

/-- The run reports the file, having applied what is before it; the next run resumes with it. -/
def BreaksOff (collation : Collation) (s : State) (before : List (String × String))
    (file : String × String) (after : List (String × String))
    (faults : MigrationCall → Option String) (e : String) : Prop :=
  ∃ s', alone collation faults s run =
      (some (.error (.database s!"failed to apply migration {file.1}: {e}" none)), s') ∧
    Applies s s' before ∧
    ∃ s'', alone collation noFaults s' run = (some (.ok ()), s'') ∧ Applies s' s'' (file :: after)

theorem completes (collation : Collation) (hdir : s.dir = some dir) :
    Completes collation s (todo dir s.db) := by
  obtain ⟨s', hrun, happlies⟩ := alone_run_noFaults collation hdir
  have hdir' := happlies.dir.trans hdir
  have hnothing : todo dir s'.db = [] := todo_of_applies (List.append_nil _).symm happlies
  have hpending := alone_pending collation hdir' happlies.table
  obtain ⟨s'', hrun', happlies'⟩ := alone_run_noFaults collation hdir'
  rw [hnothing] at hpending happlies'
  exact ⟨s', hrun, happlies, hpending, s'', hrun', happlies'⟩

theorem FailsAt.starts {file : String × String} {after : List (String × String)} {e : String}
    (h : FailsAt faults file after e) : Starts faults := by
  constructor <;>
  · by_contra hne
    obtain ⟨file', -, heq⟩ := h.first _ hne
    cases heq

theorem FailsAt.spared {file file' : String × String} {after : List (String × String)} {e : String}
    (h : FailsAt faults file after e) (hne : file'.1 ∉ (file :: after).map Prod.fst) :
    Spared faults file' := by
  constructor
  · by_contra hread
    obtain ⟨file'', -, heq⟩ := h.first _ hread
    cases heq
  · by_contra happly
    obtain ⟨file'', hmem, heq⟩ := h.first _ happly
    obtain ⟨hname, -⟩ := MigrationCall.apply.inj heq
    exact hne (hname ▸ List.mem_map_of_mem hmem)
  · by_contra hinsert
    obtain ⟨file'', -, heq⟩ := h.first _ hinsert
    cases heq

theorem FailsAt.read {file : String × String} {after : List (String × String)} {e name : String}
    (h : FailsAt faults file after e) : faults (.readFile name) = none := by
  by_contra hread
  obtain ⟨file', -, heq⟩ := h.first _ hread
  cases heq

theorem breaksOff (collation : Collation) (hdir : s.dir = some dir)
    {before after : List (String × String)} {file : String × String} {e : String}
    (hsplit : todo dir s.db = before ++ file :: after) (hfails : FailsAt faults file after e) :
    BreaksOff collation s before file after faults e := by
  obtain ⟨names, names', hnames, rfl, hfiles⟩ := List.map_eq_append_iff.1 hsplit
  obtain ⟨name, after', rfl, rfl, rfl⟩ := List.map_eq_cons_iff.1 hfiles
  obtain ⟨passed, later, hall, hpassed, hlater⟩ := List.filter_eq_append_iff.1 hnames
  obtain ⟨skipped, rest, rfl, hskipped, hnew, -⟩ := List.filter_eq_cons_iff.1 hlater
  have hnew : name ∉ s.db.applied := of_decide_eq_true hnew
  have hbefore : (passed ++ skipped).filter (· ∉ s.db.applied) = names := by
    rw [List.filter_append, hpassed, List.filter_eq_nil_iff.2 hskipped, List.append_nil]
  have hnodup : (names ++ name :: after').Nodup :=
    hnames ▸ (getMigrationFiles_nodup dir.nodup).filter _
  have hfst : (dir.file name :: after'.map dir.file).map Prod.fst = name :: after' := by
    simp [Directory.file, Function.comp_def]
  have hspared (n : String) (hn : n ∈ passed ++ skipped) (hn' : n ∉ s.db.applied) :
      Spared faults (dir.file n) := by
    have hmem : n ∈ names := hbefore ▸ List.mem_filter.2 ⟨hn, decide_eq_true hn'⟩
    refine hfails.spared (fun h => ?_)
    rw [hfst] at h
    exact (List.nodup_append.1 hnodup).2.2 n hmem n h rfl
  obtain ⟨s', hrun, happlies⟩ := alone_run_until collation hfails.starts hdir
    (hall.trans (List.append_assoc ..).symm) hspared
  rw [hbefore] at happlies
  have hdir' := happlies.dir.trans hdir
  have hmem : name ∈ dir.names := by
    have hfile : name ∈ getMigrationFiles dir.names := by simp [hall]
    exact (mem_getMigrationFiles.1 hfile).1
  obtain ⟨s'', hresumed, happlies'⟩ := alone_run_noFaults collation hdir'
  rw [todo_of_applies hsplit happlies] at happlies'
  refine ⟨s', ?_, happlies, s'', hresumed, happlies'⟩
  rw [hrun]
  exact alone_applyPending_fails hdir' hmem (mt mem_sort.1 hnew) hfails.read hfails.fails rest

/-- For every directory and every set of applied versions, the files to do are those that are due,
in the order of their names, and a run applies them all, or those before the one whose SQL fails. -/
theorem run_applies_pending (collation : Collation) (dir : Directory) (db : Database) :
    ((todo dir db).map Prod.fst).Pairwise (· < ·) ∧
      (∀ file, file ∈ todo dir db ↔
        file ∈ dir.files ∧ isMigration file.1 ∧ file.1 ∉ db.applied) ∧
      Completes collation ⟨some dir, db⟩ (todo dir db) ∧
      ∀ before file after faults e, todo dir db = before ++ file :: after →
        FailsAt faults file after e →
        BreaksOff collation ⟨some dir, db⟩ before file after faults e :=
  ⟨todo_pairwise dir db, fun _ => mem_todo, completes collation rfl,
    fun _ _ _ _ _ hsplit hfails => breaksOff collation rfl hsplit hfails⟩

def twoFiles : Directory where
  files := [("002.sql", "b"), ("DOWN_002.sql", "c"), ("001.sql", "a")]
  nodup := by decide

def secondFails : MigrationCall → Option String :=
  fun op => if op = .apply "002.sql" "b" then some "syntax error" else none

theorem run_applies_pending_twoFiles :
    BreaksOff .binary ⟨some twoFiles, .empty⟩ [("001.sql", "a")] ("002.sql", "b") [] secondFails
      "syntax error" := by
  have hfails : FailsAt secondFails ("002.sql", "b") [] "syntax error" := by
    refine ⟨rfl, fun op hop => ?_⟩
    by_cases h : op = .apply "002.sql" "b"
    · exact ⟨_, List.mem_singleton_self _, h⟩
    · exact absurd (if_neg h) hop
  exact (run_applies_pending .binary twoFiles .empty).2.2.2 _ _ _ _ _ (by decide) hfails

end Rszero.Migration
