import Rszero.ConcurrentPrograms
import Rszero.MigrationRollback

/-!
# Migrators that fail, crash and overlap

Any number of processes call `run` and `rollback` over one database. The SQL of a migration and the
record of its version are two batches, so the table is behind in between, and stays behind when the
process does not get to the second one. What a process has read about a version may be out of date
when it sends the SQL.
-/

namespace Rszero.Migration

/-- The SQL of a migration is not executed twice unless it is rolled back in between. -/
def AtMostOnce (log : List Batch) : Prop :=
  ∀ before version sql between sql' after,
    log = before ++ .up version sql :: (between ++ .up version sql' :: after) →
      ∃ sql'', .down version sql'' ∈ between

/-- A version is in the table exactly when its SQL has taken effect and is not rolled back. -/
structure InStep (db : Database) : Prop where
  once : AtMostOnce db.log
  rows : ∀ version, version ∈ db.applied ↔ version ∈ inEffect db.log

/-- A batch of a log that has grown is the new one, or an old one. -/
theorem split_concat {log before after : List Batch} {last batch : Batch}
    (h : log ++ [last] = before ++ batch :: after) :
    after = [] ∧ log = before ∧ last = batch ∨
      ∃ after', after = after' ++ [last] ∧ log = before ++ batch :: after' := by
  rcases List.eq_nil_or_concat after with rfl | ⟨after', last', rfl⟩
  · obtain ⟨hlog, hlast⟩ := List.append_inj' h rfl
    exact .inl ⟨rfl, hlog, List.singleton_inj.1 hlast⟩
  · rw [List.concat_eq_append, ← List.cons_append, ← List.append_assoc] at h
    obtain ⟨hlog, hlast⟩ := List.append_inj' h rfl
    refine .inr ⟨after', ?_, hlog⟩
    rw [List.concat_eq_append, hlast]

theorem mem_inEffect_iff {log : List Batch} {version : String} :
    version ∈ inEffect log ↔ ∃ before sql after, log = before ++ .up version sql :: after ∧
      ∀ sql', .down version sql' ∉ after := by
  induction log using List.reverseRecOn with
  | nil => simp [inEffect]
  | append_singleton log batch ih =>
      cases batch with
      | up version' sql =>
          rw [inEffect_append_up, List.mem_append, ih, List.mem_singleton]
          constructor
          · rintro (⟨before, sql', after, rfl, hafter⟩ | rfl)
            · exact ⟨before, sql', after ++ [.up version' sql], by simp, by simpa using hafter⟩
            · exact ⟨log, sql, [], rfl, by simp⟩
          · rintro ⟨before, sql', after, hlog, hafter⟩
            rcases split_concat hlog with ⟨-, -, hlast⟩ | ⟨after', rfl, rfl⟩
            · exact .inr (Batch.up.inj hlast).1.symm
            · refine .inl ⟨before, sql', after', rfl, ?_⟩
              exact fun sql'' hmem => hafter sql'' (List.mem_append_left _ hmem)
      | down version' sql =>
          rw [inEffect_append_down, List.mem_filter, ih]
          constructor
          · rintro ⟨⟨before, sql', after, rfl, hafter⟩, hne⟩
            have hne' : version ≠ version' := of_decide_eq_true hne
            exact ⟨before, sql', after ++ [.down version' sql], by simp, by simp [hafter, hne']⟩
          · rintro ⟨before, sql', after, hlog, hafter⟩
            rcases split_concat hlog with ⟨-, -, hlast⟩ | ⟨after', rfl, rfl⟩
            · cases hlast
            · have hne : version ≠ version' := by
                rintro rfl
                exact hafter sql (by simp)
              refine ⟨⟨before, sql', after', rfl, ?_⟩, decide_eq_true hne⟩
              exact fun sql'' hmem => hafter sql'' (List.mem_append_left _ hmem)

theorem AtMostOnce.append_up {log : List Batch} {version : String} (h : AtMostOnce log)
    (hv : version ∉ inEffect log) (sql : String) : AtMostOnce (log ++ [.up version sql]) := by
  intro before version' sql₁ between sql₂ after hlog
  rw [← List.cons_append, ← List.append_assoc] at hlog
  rcases split_concat hlog with ⟨-, rfl, hlast⟩ | ⟨after', -, rfl⟩
  · obtain ⟨rfl, -⟩ := Batch.up.inj hlast
    by_contra hnone
    exact hv (mem_inEffect_iff.2 ⟨before, sql₁, between, rfl, not_exists.1 hnone⟩)
  · exact h before version' sql₁ between sql₂ after' (by simp)

theorem AtMostOnce.append_down {log : List Batch} (h : AtMostOnce log) (version sql : String) :
    AtMostOnce (log ++ [.down version sql]) := by
  intro before version' sql₁ between sql₂ after hlog
  rw [← List.cons_append, ← List.append_assoc] at hlog
  rcases split_concat hlog with ⟨-, -, hlast⟩ | ⟨after', -, rfl⟩
  · cases hlast
  · exact h before version' sql₁ between sql₂ after' (by simp)

theorem not_atMostOnce_append_up {log : List Batch} {version : String}
    (hv : version ∈ inEffect log) (sql : String) : ¬ AtMostOnce (log ++ [.up version sql]) := by
  intro h
  obtain ⟨before, sql', after, rfl, hafter⟩ := mem_inEffect_iff.1 hv
  obtain ⟨sql'', hdown⟩ := h before version sql' after sql [] (by simp)
  exact hafter sql'' hdown

inductive Command
  | run
  | rollback

def Command.program : Command → Program Unit
  | .run => Migration.run
  | .rollback => Migration.rollback

/-- The choice of a call is the error it fails with, if any. -/
def platform (collation : Collation) (s : State) :
    Platform MigrationCall.Answer Command (Except RszeroError Unit) State (Option String)
      Empty where
  shared := s
  body := Command.program
  perform s fault op := some (perform collation s fault op)
  env _ e := nomatch e

abbrev Processes := Platform.State MigrationCall.Answer Command (Except RszeroError Unit) State

abbrev ProcessStep := Platform.Label Command (Option String) Empty

def processes (collation : Collation) (s : State) : TransitionSystem Processes ProcessStep :=
  (platform collation s).system

inductive Record
  | insert (version : String)
  | delete (version : String)
  deriving DecidableEq

def Record.version : Record → String
  | .insert version | .delete version => version

def dueRecord : Program Unit → Option Record
  | .call (.insertVersion version) _ => some (.insert version)
  | .call (.deleteVersion version) _ => some (.delete version)
  | _ => none

/-- The record of a live process that has executed the SQL of a migration. -/
def due (s : Processes) (i : ℕ) : Option Record :=
  (s.tasks i).bind (fun task => if task.live then dueRecord task.rest else none)

/-- No process stands between the SQL of the migration and its record. -/
def Settled (s : Processes) (version : String) : Prop :=
  ∀ i record, due s i = some record → record.version ≠ version

/-- The laws as far as they can hold: a version may be out of step while its record is due. -/
structure AtRest (s : Processes) : Prop where
  once : AtMostOnce s.shared.db.log
  rows : ∀ version, Settled s version →
    (version ∈ s.shared.db.applied ↔ version ∈ inEffect s.shared.db.log)

def TakesEffect (s : Processes) : ProcessStep → Prop
  | .call i none => ∃ task version sql, s.tasks i = some task ∧ task.live ∧
      ((∃ next, task.rest = .call (.apply version sql) next) ∨
        ∃ next, task.rest = .call (.rollBack version sql) next)
  | _ => False

/-- Neither a crash nor a failed record comes after the SQL of a migration, and what the SQL relies
on is still so: the version is not recorded, or is, and no other process is about to change that. -/
def Undisturbed (collation : Collation) (s : Processes) : ProcessStep → Prop
  | .call i fault => ∀ task, s.tasks i = some task → match task.rest with
      | .call (.apply version _) _ =>
          fault = none → version ∉ s.shared.db.applied ∧ Settled s version
      | .call (.rollBack version _) _ =>
          fault = none → version ∈ s.shared.db.applied ∧ Settled s version
      | .call (.insertVersion version) _ =>
          (perform collation s.shared fault (.insertVersion version)).1 = .ok ()
      | .call (.deleteVersion version) _ =>
          (perform collation s.shared fault (.deleteVersion version)).1 = .ok ()
      | _ => True
  | .cut i => due s i = none
  | _ => True

def dueAfter : (op : MigrationCall) → op.Answer → Option Record
  | .apply version _, .ok () => some (.insert version)
  | .rollBack version _, .ok () => some (.delete version)
  | _, _ => none

/-- A program makes the record of a migration right after its SQL, and at no other time. -/
abbrev RecordsAtOnce : Program Unit → Prop :=
  CallProgram.Always (fun op ans rest => dueRecord rest = dueAfter op ans)

theorem dueRecord_applyPending (applied names : List String) :
    dueRecord (applyPending applied names) = none := by
  induction names with
  | nil => rfl
  | cons name names ih =>
      rw [applyPending]
      by_cases hname : name ∈ applied
      · rw [if_pos hname, ih]
      · rw [if_neg hname]
        rfl

theorem applyPending_recordsAtOnce (applied names : List String) :
    RecordsAtOnce (applyPending applied names) := by
  induction names with
  | nil => trivial
  | cons name names ih =>
      rw [applyPending]
      by_cases hname : name ∈ applied
      · rwa [if_pos hname]
      · rw [if_neg hname]
        rintro (e | content)
        · exact ⟨rfl, trivial⟩
        · refine ⟨rfl, ?_⟩
          rintro (e | ⟨⟩)
          · exact ⟨rfl, trivial⟩
          · refine ⟨rfl, ?_⟩
            rintro (e | ⟨⟩)
            · exact ⟨rfl, trivial⟩
            · exact ⟨dueRecord_applyPending applied names, ih⟩

theorem run_recordsAtOnce : RecordsAtOnce run := by
  rintro (_ | _)
  · exact ⟨rfl, trivial⟩
  · refine ⟨rfl, ?_⟩
    rintro (e | ⟨⟩)
    · exact ⟨rfl, trivial⟩
    · refine ⟨rfl, ?_⟩
      rintro (e | applied)
      · exact ⟨rfl, trivial⟩
      · refine ⟨rfl, ?_⟩
        rintro (e | names)
        · exact ⟨rfl, trivial⟩
        · exact ⟨dueRecord_applyPending _ _, applyPending_recordsAtOnce _ _⟩

theorem rollBackLast_recordsAtOnce (last : String) : RecordsAtOnce (rollBackLast last) := by
  rintro (_ | _)
  · exact ⟨rfl, trivial⟩
  · refine ⟨rfl, ?_⟩
    rintro (e | content)
    · exact ⟨rfl, trivial⟩
    · refine ⟨rfl, ?_⟩
      rintro (e | ⟨⟩)
      · exact ⟨rfl, trivial⟩
      · refine ⟨rfl, ?_⟩
        rintro (e | ⟨⟩) <;> exact ⟨rfl, trivial⟩

theorem rollback_recordsAtOnce : RecordsAtOnce rollback := by
  rintro (e | applied)
  · exact ⟨rfl, trivial⟩
  · cases hlast : applied.getLast? with
    | none =>
        simp only [hlast]
        exact ⟨rfl, trivial⟩
    | some last =>
        simp only [hlast]
        exact ⟨rfl, rollBackLast_recordsAtOnce last⟩

theorem program_recordsAtOnce (command : Command) : RecordsAtOnce command.program := by
  cases command with
  | run => exact run_recordsAtOnce
  | rollback => exact rollback_recordsAtOnce

structure Tally (applied : List String) (log : List Batch) (due : ℕ → Option Record) : Prop where
  once : AtMostOnce log
  sole : ∀ i j record record', due i = some record → due j = some record' →
    record.version = record'.version → i = j
  inserting : ∀ i version, due i = some (.insert version) →
    version ∉ applied ∧ version ∈ inEffect log
  deleting : ∀ i version, due i = some (.delete version) →
    version ∈ applied ∧ version ∉ inEffect log
  settled : ∀ version, (∀ i record, due i = some record → record.version ≠ version) →
    (version ∈ applied ↔ version ∈ inEffect log)

section Tally

variable {applied : List String} {log : List Batch} {due : ℕ → Option Record} {i : ℕ}
  {version : String}

theorem update_eq_some {f : ℕ → Option Record} {j : ℕ} {x : Option Record} {record : Record}
    (h : Function.update f i x j = some record) :
    j = i ∧ x = some record ∨ j ≠ i ∧ f j = some record := by
  by_cases hj : j = i
  · subst hj
    rw [Function.update_self] at h
    exact .inl ⟨rfl, h⟩
  · rw [Function.update_of_ne hj] at h
    exact .inr ⟨hj, h⟩

theorem settled_of_update {f : ℕ → Option Record} {x : Option Record} (hi : f i = none)
    (h : ∀ j record, Function.update f i x j = some record → record.version ≠ version) :
    ∀ j record, f j = some record → record.version ≠ version := by
  intro j record hj
  have hne : j ≠ i := by
    rintro rfl
    cases hi.symm.trans hj
  exact h j record ((Function.update_of_ne hne ..).trans hj)

/-- The SQL of a settled migration takes effect. -/
theorem Tally.execute (h : Tally applied log due) (hi : due i = none)
    (hsettled : ∀ j record, due j = some record → record.version ≠ version) {batch : Batch}
    {record : Record} (hversion : record.version = version) (honce : AtMostOnce (log ++ [batch]))
    (hothers : ∀ v, v ≠ version → (v ∈ inEffect (log ++ [batch]) ↔ v ∈ inEffect log))
    (hinsert : ∀ v, record = .insert v → v ∉ applied ∧ v ∈ inEffect (log ++ [batch]))
    (hdelete : ∀ v, record = .delete v → v ∈ applied ∧ v ∉ inEffect (log ++ [batch])) :
    Tally applied (log ++ [batch]) (Function.update due i (some record)) where
  once := honce
  sole := by
    intro j k r r' hj hk heq
    rcases update_eq_some hj with ⟨hji, hr⟩ | ⟨-, hj'⟩ <;>
      rcases update_eq_some hk with ⟨hki, hr'⟩ | ⟨-, hk'⟩
    · rw [hji, hki]
    · rw [← Option.some.inj hr, hversion] at heq
      exact absurd heq.symm (hsettled k r' hk')
    · rw [← Option.some.inj hr', hversion] at heq
      exact absurd heq (hsettled j r hj')
    · exact h.sole j k r r' hj' hk' heq
  inserting := by
    intro j v hj
    rcases update_eq_some hj with ⟨-, hr⟩ | ⟨-, hj⟩
    · exact hinsert v (Option.some.inj hr)
    · have hne : v ≠ version := hsettled j _ hj
      rw [hothers v hne]
      exact h.inserting j v hj
  deleting := by
    intro j v hj
    rcases update_eq_some hj with ⟨-, hr⟩ | ⟨-, hj⟩
    · exact hdelete v (Option.some.inj hr)
    · have hne : v ≠ version := hsettled j _ hj
      rw [hothers v hne]
      exact h.deleting j v hj
  settled := by
    intro v hv
    have hne : v ≠ version := by
      rintro rfl
      exact hv i record (Function.update_self ..) hversion
    rw [hothers v hne]
    exact h.settled v (settled_of_update hi hv)

theorem Tally.up (h : Tally applied log due) (hi : due i = none) (hnew : version ∉ applied)
    (hsettled : ∀ j record, due j = some record → record.version ≠ version) (sql : String) :
    Tally applied (log ++ [.up version sql])
      (Function.update due i (some (.insert version))) := by
  have hout : version ∉ inEffect log := mt (h.settled version hsettled).2 hnew
  refine h.execute hi hsettled rfl (h.once.append_up hout sql) ?_ ?_ nofun
  · intro v hv
    rw [inEffect_append_up, List.mem_append, List.mem_singleton, or_iff_left hv]
  · rintro v ⟨⟩
    rw [inEffect_append_up]
    exact ⟨hnew, by simp⟩

theorem Tally.down (h : Tally applied log due) (hi : due i = none) (hold : version ∈ applied)
    (hsettled : ∀ j record, due j = some record → record.version ≠ version) (sql : String) :
    Tally applied (log ++ [.down version sql])
      (Function.update due i (some (.delete version))) := by
  refine h.execute hi hsettled rfl (h.once.append_down version sql) ?_ nofun ?_
  · intro v hv
    rw [inEffect_append_down, List.mem_filter, decide_eq_true_iff, and_iff_left hv]
  · rintro v ⟨⟩
    rw [inEffect_append_down]
    exact ⟨hold, by simp⟩

/-- The record of a migration is made. -/
theorem Tally.record (h : Tally applied log due) {record : Record} (hi : due i = some record)
    {applied' : List String} (hself : record.version ∈ applied' ↔ record.version ∈ inEffect log)
    (hothers : ∀ v, v ≠ record.version → (v ∈ applied' ↔ v ∈ applied)) :
    Tally applied' log (Function.update due i none) where
  once := h.once
  sole := by
    intro j k r r' hj hk heq
    obtain ⟨-, hj⟩ := (update_eq_some hj).resolve_left (by simp)
    obtain ⟨-, hk⟩ := (update_eq_some hk).resolve_left (by simp)
    exact h.sole j k r r' hj hk heq
  inserting := by
    intro j v hj
    obtain ⟨hne, hj⟩ := (update_eq_some hj).resolve_left (by simp)
    rw [hothers v (fun heq => hne (h.sole j i _ record hj hi heq))]
    exact h.inserting j v hj
  deleting := by
    intro j v hj
    obtain ⟨hne, hj⟩ := (update_eq_some hj).resolve_left (by simp)
    rw [hothers v (fun heq => hne (h.sole j i _ record hj hi heq))]
    exact h.deleting j v hj
  settled := by
    intro v hv
    by_cases heq : v = record.version
    · rw [heq, hself]
    · rw [hothers v heq]
      refine h.settled v (fun j r hj hr => ?_)
      by_cases hne : j = i
      · subst hne
        obtain rfl := Option.some.inj (hi.symm.trans hj)
        exact heq hr.symm
      · exact hv j r ((Function.update_of_ne hne ..).trans hj) hr

theorem Tally.insert (h : Tally applied log due) (hi : due i = some (.insert version)) :
    Tally (applied ++ [version]) log (Function.update due i none) := by
  obtain ⟨-, hin⟩ := h.inserting i version hi
  refine h.record hi ?_ ?_
  · exact iff_of_true (by simp [Record.version]) hin
  · intro v hv
    rw [List.mem_append, List.mem_singleton]
    exact or_iff_left hv

theorem Tally.delete (h : Tally applied log due) (hi : due i = some (.delete version)) :
    Tally (applied.filter (· ≠ version)) log (Function.update due i none) := by
  obtain ⟨-, hout⟩ := h.deleting i version hi
  refine h.record hi ?_ ?_
  · exact iff_of_false (by simp [Record.version]) hout
  · intro v hv
    rw [List.mem_filter, decide_eq_true_iff]
    exact and_iff_left hv

end Tally

variable {collation : Collation} {s₀ : State} {s s' : Processes} {a : ProcessStep}

structure Orderly (s : Processes) : Prop where
  tally : Tally s.shared.db.applied s.shared.db.log (due s)
  atOnce : ∀ i task, s.tasks i = some task → RecordsAtOnce task.rest

theorem due_put (s : Processes) (i : ℕ)
    (task : Platform.Task MigrationCall.Answer Command (Except RszeroError Unit)) :
    due (s.put i task) =
      Function.update (due s) i (if task.live then dueRecord task.rest else none) := by
  funext j
  by_cases hj : j = i
  · subst hj
    simp [due]
  · rw [Function.update_of_ne hj, due, Platform.put_tasks_of_ne hj]
    rfl

theorem Orderly.put (h : Orderly s) {i : ℕ}
    {task : Platform.Task MigrationCall.Answer Command (Except RszeroError Unit)}
    (hrest : RecordsAtOnce task.rest) {sh : State}
    (htally : Tally sh.db.applied sh.db.log
      (Function.update (due s) i (if task.live then dueRecord task.rest else none))) :
    Orderly ({ s with shared := sh }.put i task) where
  tally := by
    rw [due_put]
    exact htally
  atOnce := by
    intro j task' hj
    rcases Platform.tasks_put hj with ⟨-, rfl⟩ | ⟨-, hj⟩
    · exact hrest
    · exact h.atOnce j task' hj

theorem dueRecord_program (command : Command) : dueRecord command.program = none := by
  cases command <;> rfl

/-- A call that is neither the SQL of a migration nor a record leaves the rows and the log. -/
theorem perform_others {sh sh' : State} {fault : Option String} {op : MigrationCall}
    {ans : op.Answer} (h : perform collation sh fault op = (ans, sh'))
    (hop : dueAfter op ans = none) (hrecord : ∀ version, op ≠ .insertVersion version ∧
      op ≠ .deleteVersion version) :
    sh'.db.applied = sh.db.applied ∧ sh'.db.log = sh.db.log := by
  cases op with
  | insertVersion version => exact absurd rfl (hrecord version).1
  | deleteVersion version => exact absurd rfl (hrecord version).2
  | dirExists | fileExists =>
      cases h
      exact ⟨rfl, rfl⟩
  | createTable | selectVersions | readDir | readFile =>
      cases fault <;> cases h <;> exact ⟨rfl, rfl⟩
  | apply | rollBack =>
      cases fault with
      | none =>
          cases h
          cases hop
      | some e =>
          cases h
          exact ⟨rfl, rfl⟩

theorem perform_insertVersion {sh sh' : State} {fault : Option String} {version : String}
    {ans : Except String Unit}
    (h : perform collation sh fault (.insertVersion version) = (ans, sh')) (hok : ans = .ok ()) :
    sh'.db.applied = sh.db.applied ++ [version] ∧ sh'.db.log = sh.db.log := by
  subst hok
  by_cases htable : sh.db.table.isNone
  · cases fault <;> simp [perform, htable] at h
  · by_cases hfree : version ∈ sh.db.applied
    · cases fault <;> simp [perform, htable, hfree] at h
    · cases fault with
      | some e => simp [perform, htable, hfree] at h
      | none =>
          simp only [perform, htable, hfree, answered_none, not_false_eq_true, dif_pos,
            Bool.false_eq_true, if_false, Prod.mk.injEq, true_and] at h
          subst h
          exact ⟨rfl, rfl⟩

theorem perform_deleteVersion {sh sh' : State} {fault : Option String} {version : String}
    {ans : Except String Unit}
    (h : perform collation sh fault (.deleteVersion version) = (ans, sh')) (hok : ans = .ok ()) :
    sh'.db.applied = sh.db.applied.filter (· ≠ version) ∧ sh'.db.log = sh.db.log := by
  subst hok
  by_cases htable : sh.db.table.isNone
  · cases fault <;> simp [perform, htable] at h
  · cases fault with
    | some e => simp [perform, htable] at h
    | none =>
        simp only [perform, htable, answered_none, Bool.false_eq_true, if_false, Prod.mk.injEq,
          true_and] at h
        subst h
        exact ⟨rfl, rfl⟩

/-- What an undisturbed call does to the tally. -/
theorem Tally.call {sh sh' : State} {dues : ℕ → Option Record} {i : ℕ} {fault : Option String}
    {op : MigrationCall} {ans : op.Answer} {next : op.Answer → Program Unit}
    (h : Tally sh.db.applied sh.db.log dues) (hi : dues i = dueRecord (.call op next))
    (hp : perform collation sh fault op = (ans, sh'))
    (hup : ∀ version sql, op = .apply version sql → fault = none →
      version ∉ sh.db.applied ∧ ∀ j record, dues j = some record → record.version ≠ version)
    (hdown : ∀ version sql, op = .rollBack version sql → fault = none →
      version ∈ sh.db.applied ∧ ∀ j record, dues j = some record → record.version ≠ version)
    (hinsert : ∀ version, op = .insertVersion version →
      (perform collation sh fault (.insertVersion version)).1 = .ok ())
    (hdelete : ∀ version, op = .deleteVersion version →
      (perform collation sh fault (.deleteVersion version)).1 = .ok ()) :
    Tally sh'.db.applied sh'.db.log (Function.update dues i (dueAfter op ans)) := by
  have hothers (hdue : dueAfter op ans = none) (hrecord : ∀ version, op ≠ .insertVersion version ∧
      op ≠ .deleteVersion version) (hnone : dues i = none) :
      Tally sh'.db.applied sh'.db.log (Function.update dues i (dueAfter op ans)) := by
    obtain ⟨happlied, hlog⟩ := perform_others hp hdue hrecord
    rw [happlied, hlog, hdue, ← hnone, Function.update_eq_self]
    exact h
  cases op with
  | apply version sql =>
      cases fault with
      | none =>
          cases hp
          obtain ⟨hnew, hsettled⟩ := hup version sql rfl rfl
          exact h.up hi hnew hsettled sql
      | some e =>
          cases hp
          exact hothers rfl (by simp) hi
  | rollBack version sql =>
      cases fault with
      | none =>
          cases hp
          obtain ⟨hold, hsettled⟩ := hdown version sql rfl rfl
          exact h.down hi hold hsettled sql
      | some e =>
          cases hp
          exact hothers rfl (by simp) hi
  | insertVersion version =>
      have hok := hinsert version rfl
      rw [hp] at hok
      obtain ⟨happlied, hlog⟩ := perform_insertVersion hp hok
      rw [happlied, hlog]
      exact h.insert hi
  | deleteVersion version =>
      have hok := hdelete version rfl
      rw [hp] at hok
      obtain ⟨happlied, hlog⟩ := perform_deleteVersion hp hok
      rw [happlied, hlog]
      exact h.delete hi
  | dirExists | fileExists | createTable | selectVersions | readDir | readFile =>
      exact hothers rfl (by simp) hi

theorem orderly_step (h : Orderly s) (hc : Undisturbed collation s a)
    (hstep : (processes collation s₀).step s a = some s') : Orderly s' := by
  cases Platform.next_move hstep with
  | @spawn i command ht =>
      have hnone : due s i = none := by rw [due, ht, Option.bind_none]
      refine h.put (program_recordsAtOnce command) ?_
      have hdue : dueRecord ((platform collation s₀).body command) = none :=
        dueRecord_program command
      simp only [Platform.begun, if_true, hdue]
      rw [← hnone, Function.update_eq_self]
      exact h.tally
  | @cut i task ht =>
      have hnone : due s i = none := hc
      change Orderly ({ s with shared := s.shared }.put i { task with live := false })
      apply h.put
      · exact h.atOnce i task ht
      · simp only [Bool.false_eq_true, if_false]
        rw [← hnone, Function.update_eq_self]
        exact h.tally
  | @call i fault task op rest ans sh ht hlive hrest hp =>
      have hdue : due s i = dueRecord (.call op rest) := by
        rw [due, ht, Option.bind_some, if_pos hlive, hrest]
      have hatOnce := h.atOnce i task ht
      have hcall := hc task ht
      rw [hrest] at hatOnce hcall
      refine h.put (hatOnce ans).2 ?_
      have hafter : dueRecord (rest ans) = dueAfter op ans := (hatOnce ans).1
      simp only [Platform.Task.answered, hlive, if_true, hafter]
      refine h.tally.call hdue (Option.some.inj hp) ?_ ?_ ?_ ?_
      · rintro version sql rfl
        exact hcall
      · rintro version sql rfl
        exact hcall
      · rintro version rfl
        exact hcall
      · rintro version rfl
        exact hcall
  | @env e sh he => exact e.elim

theorem orderly_init (hdb : InStep s₀.db) : Orderly (processes collation s₀).init where
  tally :=
    { once := hdb.once
      sole := by
        intro i j r r' hi
        cases hi
      inserting := by
        intro i version hi
        cases hi
      deleting := by
        intro i version hi
        cases hi
      settled := fun version _ => hdb.rows version }
  atOnce := by
    intro i task hi
    cases hi

theorem Orderly.atRest (h : Orderly s) : AtRest s := ⟨h.tally.once, h.tally.settled⟩

/-- The points at which a program sends SQL or makes a record, and what has come before. -/
def Justified (past : CallProgram.Calls MigrationCall.Answer) :
    Sigma MigrationCall.Answer → Prop
  | ⟨.rollBack version _, _⟩ => ∃ rows, ⟨.selectVersions, .ok rows⟩ ∈ past ∧ version ∈ rows
  | ⟨.insertVersion version, _⟩ => ∃ sql, ⟨.apply version sql, .ok ()⟩ ∈ past
  | ⟨.deleteVersion version, _⟩ => ∃ sql, ⟨.rollBack version sql, .ok ()⟩ ∈ past
  | _ => True

abbrev Justifies (p : Program Unit) (past : CallProgram.Calls MigrationCall.Answer) : Prop :=
  p.Ensures (fun _ => True) Justified (fun _ _ => True) past

theorem applyPending_justifies (applied names : List String)
    (past : CallProgram.Calls MigrationCall.Answer) :
    Justifies (applyPending applied names) past := by
  induction names generalizing past with
  | nil => trivial
  | cons name names ih =>
      rw [applyPending]
      by_cases hname : name ∈ applied
      · rw [if_pos hname]
        exact ih past
      · rw [if_neg hname]
        rintro (e | content) -
        · exact ⟨trivial, trivial⟩
        · refine ⟨trivial, ?_⟩
          rintro (e | ⟨⟩) -
          · exact ⟨trivial, trivial⟩
          · refine ⟨trivial, ?_⟩
            rintro (e | ⟨⟩) -
            · exact ⟨⟨content, by simp⟩, trivial⟩
            · exact ⟨⟨content, by simp⟩, ih _⟩

theorem run_justifies : Justifies run [] := by
  rintro (_ | _) -
  · exact ⟨trivial, trivial⟩
  · refine ⟨trivial, ?_⟩
    rintro (e | ⟨⟩) -
    · exact ⟨trivial, trivial⟩
    · refine ⟨trivial, ?_⟩
      rintro (e | applied) -
      · exact ⟨trivial, trivial⟩
      · refine ⟨trivial, ?_⟩
        rintro (e | names) -
        · exact ⟨trivial, trivial⟩
        · exact ⟨trivial, applyPending_justifies _ _ _⟩

theorem rollBackLast_justifies {last : String} {rows : List String}
    {past : CallProgram.Calls MigrationCall.Answer} (hmem : ⟨.selectVersions, .ok rows⟩ ∈ past)
    (hlast : last ∈ rows) : Justifies (rollBackLast last) past := by
  rintro (_ | _) -
  · exact ⟨trivial, trivial⟩
  · refine ⟨trivial, ?_⟩
    rintro (e | content) -
    · exact ⟨trivial, trivial⟩
    · refine ⟨trivial, ?_⟩
      have hrows : ∃ rows, ⟨.selectVersions, .ok rows⟩ ∈ (past ++
          [⟨.fileExists (downFile last), true⟩]) ++ [⟨.readFile (downFile last), .ok content⟩] ∧
          last ∈ rows := ⟨rows, by simp [hmem], hlast⟩
      rintro (e | ⟨⟩) -
      · exact ⟨hrows, trivial⟩
      · refine ⟨hrows, ?_⟩
        rintro (e | ⟨⟩) - <;> exact ⟨⟨content, by simp⟩, trivial⟩

theorem rollback_justifies : Justifies rollback [] := by
  rintro (e | rows) -
  · exact ⟨trivial, trivial⟩
  · refine ⟨trivial, ?_⟩
    cases hlast : rows.getLast? with
    | none =>
        simp only [hlast]
        trivial
    | some last =>
        simp only [hlast]
        exact rollBackLast_justifies (List.mem_singleton_self _) (List.mem_of_getLast? hlast)

theorem program_justifies (command : Command) : Justifies command.program [] := by
  cases command with
  | run => exact run_justifies
  | rollback => exact rollback_justifies

theorem justified_of_reaches {command : Command} {past : CallProgram.Calls MigrationCall.Answer}
    {op : MigrationCall} {next : op.Answer → Program Unit}
    (h : command.program.Reaches past (.call op next)) (ans : op.Answer) :
    Justified past ⟨op, ans⟩ :=
  (h.ensures (program_justifies command) (fun _ _ => trivial) ans trivial).1

def Untouched (s₀ : State) (sh : State) : Prop :=
  sh.db.applied = s₀.db.applied ∧ sh.db.log = s₀.db.log

def Uneventful (s₀ : State) : Sigma MigrationCall.Answer → Prop
  | ⟨.selectVersions, .ok rows⟩ => ∀ version ∈ rows, version ∈ s₀.db.applied
  | ⟨.apply .., .ok ()⟩ | ⟨.rollBack .., .ok ()⟩ => False
  | _ => True

abbrev Quiet (collation : Collation) (s₀ : State) (s : Processes) : Prop :=
  (platform collation s₀).Keeps (Untouched s₀) (fun _ => Uneventful s₀) s

theorem uneventful_of_dueAfter {sh sh' : State} {fault : Option String} {op : MigrationCall}
    {ans : op.Answer} (hp : perform collation sh fault op = (ans, sh'))
    (hsh : sh.db.applied = s₀.db.applied) (hdue : dueAfter op ans = none) :
    Uneventful s₀ ⟨op, ans⟩ := by
  cases op with
  | selectVersions =>
      cases fault with
      | some e =>
          cases hp
          trivial
      | none =>
          cases htable : sh.db.table with
          | none =>
              simp only [perform, htable, answered_none, Prod.mk.injEq] at hp
              rw [← hp.1]
              trivial
          | some rows =>
              simp only [perform, htable, answered_none, Prod.mk.injEq] at hp
              rw [← hp.1]
              intro version hversion
              rw [← hsh, Database.applied, htable]
              exact mem_sort.1 hversion
  | apply | rollBack =>
      cases ans with
      | error e => trivial
      | ok u => cases hdue
  | dirExists | createTable | readDir | fileExists | readFile | insertVersion | deleteVersion =>
      trivial

theorem quiet_step (h : Quiet collation s₀ s) (hc : ¬ TakesEffect s a)
    (hstep : (processes collation s₀).step s a = some s') : Quiet collation s₀ s' := by
  refine h.step_of ?_ (fun {e} _ _ => e.elim) hstep
  intro i fault task op rest ans sh ha ht hlive hrest hp
  subst ha
  have hp := Option.some.inj hp
  have hjustified := justified_of_reaches (hrest ▸ h.reaches i task ht) ans
  have hrelied := h.relied i task ht
  have hdue : dueAfter op ans = none := by
    cases fault with
    | none =>
        cases op with
        | apply version sql => exact absurd ⟨task, version, sql, ht, hlive, .inl ⟨rest, hrest⟩⟩ hc
        | rollBack version sql =>
            exact absurd ⟨task, version, sql, ht, hlive, .inr ⟨rest, hrest⟩⟩ hc
        | _ => rfl
    | some e =>
        cases op with
        | apply | rollBack =>
            cases hp
            rfl
        | _ => rfl
  have hrecord (version : String) : op ≠ .insertVersion version ∧ op ≠ .deleteVersion version := by
    constructor
    · rintro rfl
      obtain ⟨sql, hmem⟩ := hjustified
      exact hrelied _ hmem
    · rintro rfl
      obtain ⟨sql, hmem⟩ := hjustified
      exact hrelied _ hmem
  obtain ⟨happlied, hlog⟩ := perform_others hp hdue hrecord
  exact ⟨⟨happlied.trans h.shared.1, hlog.trans h.shared.2⟩,
    uneventful_of_dueAfter hp h.shared.1 hdue⟩

theorem Quiet.inStep (h : Quiet collation s₀ s) (hdb : InStep s₀.db) : InStep s.shared.db where
  once := by
    rw [h.shared.2]
    exact hdb.once
  rows := by
    intro version
    rw [h.shared.1, h.shared.2]
    exact hdb.rows version

/-- SQL that takes effect puts its migration out of step, if it was not executed twice. -/
theorem not_inStep_of_takesEffect (h : Quiet collation s₀ s) (hdb : InStep s₀.db)
    (ha : TakesEffect s a) (hstep : (processes collation s₀).step s a = some s') :
    ¬ InStep s'.shared.db := by
  have hin := h.inStep hdb
  intro hin'
  cases Platform.next_move hstep with
  | spawn | cut | env => exact ha
  | @call i fault task op rest ans sh ht hlive hrest hp =>
      cases fault with
      | some e => exact ha
      | none =>
          obtain ⟨task', version, sql, ht', -, hcall⟩ := ha
          obtain rfl := Option.some.inj (ht.symm.trans ht')
          have hreaches := h.reaches i task ht
          rcases hcall with ⟨next, hnext⟩ | ⟨next, hnext⟩
          · obtain ⟨rfl, -⟩ := CallProgram.call.inj (hrest.symm.trans hnext)
            cases hp
            by_cases hv : version ∈ inEffect s.shared.db.log
            · exact not_atMostOnce_append_up hv sql hin'.once
            · have hrows := hin'.rows version
              simp only [Platform.put_shared, Database.execute, inEffect_append_up] at hrows
              exact hv ((hin.rows version).1 (hrows.2 (by simp)))
          · obtain ⟨rfl, -⟩ := CallProgram.call.inj (hrest.symm.trans hnext)
            obtain ⟨rows, hmem, hversion⟩ := justified_of_reaches (hrest ▸ hreaches) ans
            have hold : version ∈ s.shared.db.applied := by
              rw [h.shared.1]
              exact h.relied i task ht _ hmem version hversion
            cases hp
            have hrows := hin'.rows version
            simp only [Platform.put_shared, Database.execute, inEffect_append_down] at hrows
            exact of_decide_eq_true (List.mem_filter.1 (hrows.1 hold)).2 rfl

/-- In a run the table is in step in every state exactly when no SQL of a migration takes effect.
In a run without disturbance it is in step for every migration whose record is not due, and no SQL
is executed twice. -/
theorem in_step_iff (hdb : InStep s₀.db) {run : List ProcessStep}
    (he : (processes collation s₀).exec (processes collation s₀).init run = some s) :
    ((processes collation s₀).Throughout (fun s => InStep s.shared.db)
          (processes collation s₀).init run ↔
        (processes collation s₀).Along (fun s a => ¬ TakesEffect s a)
          (processes collation s₀).init run) ∧
      ((processes collation s₀).Along (Undisturbed collation) (processes collation s₀).init run →
        (processes collation s₀).Throughout AtRest (processes collation s₀).init run) := by
  constructor
  · refine TransitionSystem.throughout_iff_along (I := Quiet collation s₀) ?_ ?_ ?_ ?_ he
    · exact fun s hs => hs.inStep hdb
    · exact fun s a s' hs hc hstep => quiet_step hs hc hstep
    · exact fun s a s' hs hc hstep => not_inStep_of_takesEffect hs hdb (not_not.1 hc) hstep
    · exact Platform.Keeps.init ⟨rfl, rfl⟩
  · intro hC
    refine TransitionSystem.throughout_of_along (I := Orderly) ?_ ?_ ?_ hC
    · exact fun s hs => hs.atRest
    · exact fun s a s' hs hc hstep => orderly_step hs hc hstep
    · exact orderly_init hdb

def oneFile : State := ⟨some ⟨[("001.sql", "a")], by decide⟩, .empty⟩

theorem inStep_empty : InStep Database.empty where
  once := by
    intro before version sql between sql' after h
    simp [Database.empty] at h
  rows := by
    intro version
    simp [Database.empty, Database.applied, inEffect]

/-- A process starts and makes its calls; the sixth one is the SQL, the seventh one the record. -/
def calls (i n : ℕ) : List ProcessStep := .spawn i .run :: List.replicate n (.call i none)

theorem undisturbed_oneFile : (processes .binary oneFile).Along (Undisturbed .binary)
    (processes .binary oneFile).init (calls 0 7) := by
  apply TransitionSystem.along_cons trivial rfl
  iterate 5
    refine TransitionSystem.along_cons ?_ rfl ?_
    · rintro task ⟨⟩
      trivial
  refine TransitionSystem.along_cons ?_ rfl ?_
  · rintro task ⟨⟩ -
    refine ⟨List.not_mem_nil, ?_⟩
    rintro (_ | i) record hdue <;> cases hdue
  refine TransitionSystem.along_cons ?_ rfl trivial
  rintro task ⟨⟩
  rfl

theorem in_step_iff_oneFile :
    ∃ s, (processes .binary oneFile).exec (processes .binary oneFile).init (calls 0 7) = some s ∧
      s.shared.db.applied = ["001.sql"] ∧
      (processes .binary oneFile).Throughout AtRest (processes .binary oneFile).init
        (calls 0 7) := by
  have hrun : (((processes .binary oneFile).exec (processes .binary oneFile).init (calls 0 7)).any
      fun s => s.shared.db.applied == ["001.sql"]) = true := by decide
  obtain ⟨s, he, happlied⟩ := TransitionSystem.exists_exec _ hrun
  exact ⟨s, he, eq_of_beq happlied, (in_step_iff inStep_empty he).2 undisturbed_oneFile⟩

/-- A process that crashes after the SQL leaves the version out of the table, so that the next one
executes the SQL again. -/
theorem not_in_step :
    ∃ s s', (processes .binary oneFile).exec (processes .binary oneFile).init
        (calls 0 6 ++ [.cut 0]) = some s ∧
      ("001.sql" ∈ inEffect s.shared.db.log ∧ "001.sql" ∉ s.shared.db.applied) ∧
      (processes .binary oneFile).exec s (calls 1 7) = some s' ∧
      ¬ AtMostOnce s'.shared.db.log := by
  have hrun : (((processes .binary oneFile).exec (processes .binary oneFile).init
      (calls 0 6 ++ [.cut 0])).any fun s => s.shared.db.log == [.up "001.sql" "a"] &&
        s.shared.db.applied == [] &&
        ((processes .binary oneFile).exec s (calls 1 7)).any fun s' =>
          s'.shared.db.log == [.up "001.sql" "a"] ++ [.up "001.sql" "a"]) = true := by decide
  obtain ⟨s, he, hs⟩ := TransitionSystem.exists_exec _ hrun
  simp only [Bool.and_eq_true, beq_iff_eq] at hs
  obtain ⟨⟨hlog, happlied⟩, hagain⟩ := hs
  obtain ⟨s', he', hs'⟩ := TransitionSystem.exists_exec _ hagain
  have hin : "001.sql" ∈ inEffect [.up "001.sql" "a"] := by simp [inEffect, Batch.perform]
  refine ⟨s, s', he, ⟨hlog ▸ hin, by simp [happlied]⟩, he', ?_⟩
  rw [eq_of_beq hs']
  exact not_atMostOnce_append_up hin "a"

end Rszero.Migration
