import Rszero.MigrationRun
import Rszero.TransitionSystem

/-!
# Rolling back

A single runner calls `run` and `rollback`, and between the calls files are added to the directory,
each with its `DOWN_` file. The migration that `rollback` takes is the last one in the order of the
database, which is the one applied last as long as the names have come in that order.
-/

namespace Rszero.Migration

theorem inEffect_append_files (log : List Batch) (files : List (String × String)) :
    inEffect (log ++ files.map upBatch) = inEffect log ++ files.map Prod.fst := by
  induction files generalizing log with
  | nil => simp
  | cons file files ih =>
      have hcons : log ++ (file :: files).map upBatch =
          (log ++ [upBatch file]) ++ files.map upBatch := by simp
      have hfile : inEffect (log ++ [upBatch file]) = inEffect log ++ [file.1] :=
        inEffect_append_up log file.1 file.2
      rw [hcons, ih, hfile]
      simp

inductive Label
  | run
  | rollback
  | add (name sql down : String)

theorem downFile_ne (name : String) : downFile name ≠ name := by
  intro h
  have hlength := congrArg String.length h
  simp [downFile] at hlength

theorem isMigration_downFile (name : String) : isMigration (downFile name) = false := by
  have hprefix : "DOWN_".toList.isPrefixOf (downFile name).toList = true := by
    rw [List.isPrefixOf_iff_prefix, downFile, String.toList_append]
    exact List.prefix_append ..
  rw [isMigration, hprefix, Bool.not_true, Bool.and_false]

def Directory.add (dir : Directory) (name sql down : String)
    (h : name ∉ dir.names ∧ downFile name ∉ dir.names) : Directory where
  files := dir.files ++ [(name, sql), (downFile name, down)]
  nodup := by
    rw [List.map_append, List.nodup_append]
    refine ⟨dir.nodup, by simp [(downFile_ne name).symm], ?_⟩
    rintro n hn _ hn' rfl
    rcases List.mem_pair.1 hn' with rfl | rfl
    · exact h.1 hn
    · exact h.2 hn

def State.add (s : State) (name sql down : String) : Option State :=
  s.dir.bind (fun dir =>
    if h : name ∉ dir.names ∧ downFile name ∉ dir.names then
      some { s with dir := some (dir.add name sql down h) }
    else none)

def history (collation : Collation) : TransitionSystem State Label where
  init := ⟨some ⟨[], List.nodup_nil⟩, .empty⟩
  step s
    | .run => some (alone collation noFaults s run).2
    | .rollback => some (alone collation noFaults s rollback).2
    | .add name sql down => s.add name sql down

/-- The `DOWN_` file of the migration that was applied last is executed, and its version removed. -/
def Undoes (s s' : State) : Prop :=
  match (inEffect s.db.log).getLast? with
  | none => s' = s
  | some version => s'.db.applied = s.db.applied.filter (· ≠ version) ∧
      ∃ dir sql, s.dir = some dir ∧ (downFile version, sql) ∈ dir.files ∧
        s'.db.log = s.db.log ++ [.down version sql]

def RollsBackLast (collation : Collation) (s : State) (a : Label) : Prop :=
  a = .rollback → ∀ s', (history collation).step s a = some s' → Undoes s s'

/-- No migration in effect comes after the one applied last in the order of the database. -/
def InOrder (collation : Collation) (s : State) (a : Label) : Prop :=
  a = .rollback → ∀ last, (inEffect s.db.log).getLast? = some last →
    ∀ version ∈ inEffect s.db.log, collation.le version last

structure Consistent (s : State) (dir : Directory) : Prop where
  found : s.dir = some dir
  rows : s.db.applied = inEffect s.db.log
  paired : ∀ name ∈ dir.names, isMigration name → downFile name ∈ dir.names
  kept : ∀ version ∈ s.db.applied, downFile version ∈ dir.names

variable {collation : Collation} {s s' : State} {dir : Directory}

theorem Consistent.run (h : Consistent s dir) :
    Consistent (alone collation noFaults s run).2 dir := by
  obtain ⟨s', hrun, happlies⟩ := alone_run_noFaults collation h.found
  rw [hrun]
  refine ⟨happlies.dir.trans h.found, ?_, h.paired, ?_⟩
  · rw [happlies.applied, happlies.log, inEffect_append_files, h.rows]
  · intro version hversion
    rw [happlies.applied] at hversion
    rcases List.mem_append.1 hversion with hold | hnew
    · exact h.kept version hold
    · obtain ⟨file, hfile, rfl⟩ := List.mem_map.1 hnew
      obtain ⟨hmem, hmigration, -⟩ := mem_todo.1 hfile
      exact h.paired _ (List.mem_map_of_mem hmem) hmigration

theorem Consistent.add {name sql down : String} (h : Consistent s dir)
    (hadd : s.add name sql down = some s') : ∃ dir', Consistent s' dir' := by
  rw [State.add, h.found, Option.bind_some] at hadd
  by_cases hfresh : name ∉ dir.names ∧ downFile name ∉ dir.names
  · rw [dif_pos hfresh] at hadd
    cases hadd
    have hnames : (dir.add name sql down hfresh).names = dir.names ++ [name, downFile name] := by
      simp [Directory.add, Directory.names]
    refine ⟨dir.add name sql down hfresh, rfl, h.rows, ?_, ?_⟩
    · intro n hn hmigration
      rw [hnames] at hn ⊢
      rcases List.mem_append.1 hn with hold | hnew
      · exact List.mem_append_left _ (h.paired n hold hmigration)
      · rcases List.mem_pair.1 hnew with rfl | rfl
        · simp
        · rw [isMigration_downFile] at hmigration
          cases hmigration
    · intro version hversion
      rw [hnames]
      exact List.mem_append_left _ (h.kept version hversion)
  · rw [dif_neg hfresh] at hadd
    cases hadd

/-- A rollback takes the greatest version in the order of the database. -/
theorem alone_rollback (h : Consistent s dir) {last : String}
    (hlast : (collation.sort s.db.applied).getLast? = some last) :
    ∃ s', alone collation noFaults s rollback = (some (.ok ()), s') ∧ s'.dir = s.dir ∧
      s'.db.applied = s.db.applied.filter (· ≠ last) ∧
      s'.db.log = s.db.log ++ [.down last (dir.read (downFile last))] := by
  have hmem : last ∈ s.db.applied := mem_sort.1 (List.mem_of_getLast? hlast)
  have hdown := h.kept last hmem
  cases htable : s.db.table with
  | none => simp [Database.applied, htable] at hmem
  | some rows =>
      have happlied : s.db.applied = rows := by rw [Database.applied, htable, Option.getD_some]
      rw [happlied] at hlast
      refine ⟨{ s with db := (s.db.execute (.down last (dir.read (downFile last)))).delete last },
        ?_, rfl, rfl, rfl⟩
      simp [rollback, rollBackLast, perform, noFaults, htable, hlast, h.found, hdown,
        dir.lookup_of_mem hdown, Database.execute]

/-- With nothing applied it does nothing. -/
theorem alone_rollback_nil (h : s.db.applied = []) :
    (alone collation noFaults s rollback).2 = s := by
  cases htable : s.db.table with
  | none => simp [rollback, fail, perform, noFaults, htable]
  | some rows =>
      have hrows : rows = [] := by rw [← h, Database.applied, htable, Option.getD_some]
      simp [rollback, perform, noFaults, htable, hrows, Collation.sort]

theorem sort_pairwise (collation : Collation) (rows : List String) :
    (collation.sort rows).Pairwise (fun a b => collation.le a b) := by
  have htotal : Std.Total (fun a b => collation.le a b = true) :=
    ⟨fun a b => by simpa using collation.total a b⟩
  have htrans : IsTrans String (fun a b => collation.le a b = true) := ⟨collation.trans⟩
  exact List.pairwise_insertionSort _ rows

theorem Collation.refl (collation : Collation) (a : String) : collation.le a a := by
  simpa using collation.total a a

theorem getLast?_sort (collation : Collation) (h : s.db.applied ≠ []) :
    ∃ last ∈ s.db.applied, (collation.sort s.db.applied).getLast? = some last ∧
      ∀ version ∈ s.db.applied, collation.le version last := by
  have hperm : (collation.sort s.db.applied).Perm s.db.applied := List.perm_insertionSort ..
  have hne : collation.sort s.db.applied ≠ [] := mt (fun hnil => (hnil ▸ hperm).nil_eq.symm) h
  have hlast := List.getLast?_eq_some_getLast hne
  generalize (collation.sort s.db.applied).getLast hne = last at hlast
  refine ⟨last, hperm.mem_iff.1 (List.mem_of_getLast? hlast), hlast, ?_⟩
  intro version hversion
  obtain ⟨front, hfront⟩ := List.getLast?_eq_some_iff.1 hlast
  have hsorted := sort_pairwise collation s.db.applied
  rw [hfront, List.pairwise_append] at hsorted
  rw [← hperm.mem_iff, hfront, List.mem_append] at hversion
  rcases hversion with hearlier | hself
  · exact hsorted.2.2 version hearlier last (List.mem_singleton_self last)
  · rw [List.mem_singleton.1 hself]
    exact collation.refl last

theorem Consistent.rollback (h : Consistent s dir) :
    Consistent (alone collation noFaults s Migration.rollback).2 dir := by
  by_cases hnil : s.db.applied = []
  · rwa [alone_rollback_nil hnil]
  · obtain ⟨last, -, hlast, -⟩ := getLast?_sort collation hnil
    obtain ⟨s', hrun, hdir, happlied, hlog⟩ := alone_rollback h hlast
    rw [hrun]
    refine ⟨hdir.trans h.found, ?_, h.paired, ?_⟩
    · rw [happlied, hlog, inEffect_append_down, h.rows]
    · intro version hversion
      rw [happlied] at hversion
      exact h.kept version (List.mem_filter.1 hversion).1

theorem consistent_step {a : Label} (h : ∃ dir, Consistent s dir)
    (hstep : (history collation).step s a = some s') : ∃ dir, Consistent s' dir := by
  obtain ⟨dir, h⟩ := h
  cases a with
  | run =>
      cases hstep
      exact ⟨dir, h.run⟩
  | rollback =>
      cases hstep
      exact ⟨dir, h.rollback⟩
  | add name sql down => exact h.add hstep

theorem undoes_iff {last : String} (h : Consistent s dir)
    (hsort : (collation.sort s.db.applied).getLast? = some last) :
    Undoes s (alone collation noFaults s rollback).2 ↔
      (inEffect s.db.log).getLast? = some last := by
  obtain ⟨s', hrun, hdir, happlied, hlog⟩ := alone_rollback h hsort
  have hmem : last ∈ s.db.applied := mem_sort.1 (List.mem_of_getLast? hsort)
  rw [hrun, Undoes]
  cases heffect : (inEffect s.db.log).getLast? with
  | none =>
      rw [List.getLast?_eq_none_iff, ← h.rows] at heffect
      simp [heffect] at hmem
  | some version =>
      constructor
      · rintro ⟨-, dir', sql, -, -, hlog'⟩
        rw [hlog, List.append_cancel_left_eq, List.cons.injEq, Batch.down.injEq] at hlog'
        rw [hlog'.1.1]
      · intro heq
        obtain rfl := Option.some.inj heq
        exact ⟨happlied, dir, _, h.found, dir.mem_files_iff.2 ⟨h.kept _ hmem, rfl⟩, hlog⟩

theorem rollsBackLast_iff_inOrder (h : Consistent s dir) (a : Label) :
    RollsBackLast collation s a ↔ InOrder collation s a := by
  have hstep : RollsBackLast collation s a ↔
      (a = .rollback → Undoes s (alone collation noFaults s rollback).2) := by
    refine forall_congr' (fun ha => ?_)
    subst ha
    simp [history]
  refine hstep.trans (forall_congr' (fun _ => ?_))
  by_cases hnil : s.db.applied = []
  · have heffect : inEffect s.db.log = [] := h.rows ▸ hnil
    rw [alone_rollback_nil hnil, Undoes, heffect]
    simp
  · obtain ⟨greatest, hmem, hsort, hgreatest⟩ := getLast?_sort collation hnil
    rw [undoes_iff h hsort]
    rw [h.rows] at hmem hgreatest
    constructor
    · intro hlast last hlast' version hversion
      obtain rfl := Option.some.inj (hlast.symm.trans hlast')
      exact hgreatest version hversion
    · intro horder
      have hlast := List.getLast?_eq_some_getLast (List.ne_nil_of_mem hmem)
      generalize (inEffect s.db.log).getLast _ = last at hlast
      have hle := horder last hlast greatest hmem
      rw [hlast, collation.antisymm _ _ hle (hgreatest last (List.mem_of_getLast? hlast))]

/-- In a history, every rollback undoes the migration that was applied last, exactly when at every
rollback that migration comes last in the order of the database too. -/
theorem rolls_back_last_iff (collation : Collation) (as : List Label) :
    (history collation).Along (RollsBackLast collation) (history collation).init as ↔
      (history collation).Along (InOrder collation) (history collation).init as := by
  refine TransitionSystem.along_congr (I := fun s => ∃ dir, Consistent s dir)
    (fun s a s' hs hstep => consistent_step hs hstep) ?_ ?_ as
  · rintro s a ⟨dir, h⟩
    exact rollsBackLast_iff_inOrder h a
  · exact ⟨⟨[], List.nodup_nil⟩, rfl, rfl, by simp [Directory.names], by
      simp [Database.applied, history, Database.empty]⟩

def mergedLater : List Label := [.add "002.sql" "b" "c", .run, .add "001.sql" "a" "d", .run]

/-- The rollback takes `002.sql` back, although `001.sql` was applied last. -/
theorem not_rolls_back_last :
    ¬ (history .binary).Along (RollsBackLast .binary) (history .binary).init
      (mergedLater ++ [.rollback]) := by
  intro h
  obtain ⟨s, hs, hlast⟩ := TransitionSystem.exists_exec (history .binary)
    (r := mergedLater) (s := (history .binary).init)
    (p := fun s => (inEffect s.db.log).getLast? == some "001.sql" &&
      (alone .binary noFaults s rollback).2.db.applied == ["001.sql"]) (by decide)
  rw [Bool.and_eq_true, beq_iff_eq, beq_iff_eq] at hlast
  have hundoes := ((TransitionSystem.along_append.1 h).2 s hs).1 rfl _ rfl
  rw [Undoes, hlast.1] at hundoes
  have hmem : "001.sql" ∈ (alone .binary noFaults s rollback).2.db.applied := by simp [hlast.2]
  rw [hundoes.1] at hmem
  exact of_decide_eq_true (List.mem_filter.1 hmem).2 rfl

end Rszero.Migration
