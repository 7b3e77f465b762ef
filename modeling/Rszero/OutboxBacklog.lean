import Rszero.OutboxSweeper
import Rszero.Ranking
import Mathlib.Algebra.Order.BigOperators.Group.List
import Mathlib.Algebra.Order.Ring.Nat

/-!
# What a sweep costs the rows ahead

A sweep that leaves a row out works on a hundred older ones, and each of them loses one of the
attempts that it has left, or is published. The potential of a state is the number of the attempts
that the rows ahead have left; a sweep that selects the row itself owes it an attempt.
-/

namespace Rszero.Outbox

def Row.left (config : Config) (row : Row) : ℕ := (config.max_retries.toNat - row.retry_count).toNat

/-- The rows that a sweep may prefer to `target`. -/
def Ahead (target row : Row) : Prop :=
  row.created_at ≤ target.created_at ∧ row.msg_id ≠ target.msg_id

instance (target row : Row) : Decidable (Ahead target row) := inferInstanceAs (Decidable (_ ∧ _))

/-- The attempts that the rows ahead of `target` have left. -/
def backlog (config : Config) (rows : List Row) (target : Row) : ℕ :=
  ((rows.filter (fun row => Eligible config row ∧ Ahead target row)).map (Row.left config)).sum

/-- A row that is due is charged for the attempt that it is going to have. -/
def weight (config : Config) (due : List (String × ℤ)) (row : Row) : ℕ :=
  if row.msg_id ∈ due.map Prod.fst then row.left config - 1
  else if Eligible config row then row.left config else 0

def charge (config : Config) (target : Row) (due : List (String × ℤ)) (row : Row) : ℕ :=
  if Ahead target row then weight config due row else 0

/-- The backlog while a sweep is under way. -/
def charged (config : Config) (target : Row) (due : List (String × ℤ)) (rows : List Row) : ℕ :=
  (rows.map (charge config target due)).sum

section Charges

variable {config : Config} {target : Row} {due due' : List (String × ℤ)} {rows : List Row}

theorem charged_nil (config : Config) (target : Row) (rows : List Row) :
    charged config target [] rows = backlog config rows target := by
  unfold charged backlog
  induction rows with
  | nil => rfl
  | cons row rows ih =>
      rw [List.map_cons, List.sum_cons, ih]
      by_cases hahead : Ahead target row
      · by_cases heligible : Eligible config row
        · simp [charge, weight, hahead, heligible]
        · simp [charge, weight, hahead, heligible]
      · simp [charge, hahead]

theorem weight_of_due (row : Row) (h : row.msg_id ∈ due.map Prod.fst) :
    weight config due row = row.left config - 1 := if_pos h

theorem weight_of_not_due (row : Row) (h : row.msg_id ∉ due.map Prod.fst) :
    weight config due row = if Eligible config row then row.left config else 0 := if_neg h

theorem weight_cons_of_ne {msg_id : String} {retry_count : ℤ} {row : Row}
    (h : row.msg_id ≠ msg_id) :
    weight config ((msg_id, retry_count) :: due) row = weight config due row := by
  by_cases hdue : row.msg_id ∈ due.map Prod.fst
  · have hcons : row.msg_id ∈ ((msg_id, retry_count) :: due).map Prod.fst :=
      List.mem_cons_of_mem _ hdue
    rw [weight_of_due row hdue, weight_of_due row hcons]
  · have hcons : row.msg_id ∉ ((msg_id, retry_count) :: due).map Prod.fst := by
      simpa [h] using hdue
    rw [weight_of_not_due row hdue, weight_of_not_due row hcons]

theorem not_eligible_markPublished (config : Config) (row : Row) :
    ¬ Eligible config (markPublished row) := by
  rintro ⟨hstatus, -⟩
  simp [markPublished] at hstatus

theorem weight_markPublished (config : Config) (due : List (String × ℤ)) (row : Row) :
    weight config due (markPublished row) ≤ weight config due row := by
  by_cases hdue : row.msg_id ∈ due.map Prod.fst
  · rw [weight_of_due row hdue, weight_of_due (markPublished row) hdue]
    exact Nat.le_refl _
  · rw [weight_of_not_due (markPublished row) hdue,
      if_neg (not_eligible_markPublished config row)]
    exact Nat.zero_le _

theorem charge_le {row row' : Row} (hid : row'.msg_id = row.msg_id)
    (hcreated : row'.created_at = row.created_at)
    (hweight : weight config due' row' ≤ weight config due row) :
    charge config target due' row' ≤ charge config target due row := by
  have hahead : Ahead target row' ↔ Ahead target row := by rw [Ahead, Ahead, hid, hcreated]
  unfold charge
  simp only [hahead]
  split_ifs
  · exact hweight
  · exact Nat.le_refl 0

theorem charged_append {row : Row} (h : ¬ Ahead target row) :
    charged config target due (rows ++ [row]) = charged config target due rows := by
  simp [charged, charge, h]

/-- An update of one row lowers the charges when it lowers the weight of every row. -/
theorem charged_updateRow_le {msg_id : String} {f : Row → Row}
    (hf : ∀ row, (f row).msg_id = row.msg_id ∧ (f row).created_at = row.created_at)
    (hself : ∀ row ∈ rows, row.msg_id = msg_id → weight config due' (f row) ≤ weight config due row)
    (hother : ∀ row ∈ rows, row.msg_id ≠ msg_id → weight config due' row ≤ weight config due row) :
    charged config target due' (updateRow rows msg_id f) ≤ charged config target due rows := by
  unfold charged updateRow
  rw [List.map_map]
  refine List.sum_le_sum (fun row hrow => ?_)
  simp only [Function.comp_apply]
  split_ifs with hid
  · exact charge_le (hf row).1 (hf row).2 (hself row hrow hid)
  · exact charge_le rfl rfl (hother row hrow hid)

theorem charged_markPublished (config : Config) (target : Row) (due : List (String × ℤ))
    (rows : List Row) (msg_id : String) :
    charged config target due (updateRow rows msg_id markPublished) ≤
      charged config target due rows :=
  charged_updateRow_le (fun _ => ⟨rfl, rfl⟩) (fun row _ _ => weight_markPublished config due row)
    (fun _ _ _ => Nat.le_refl _)

/-- The sweeper publishes a row. -/
theorem charged_published {msg_id : String} {retry_count : ℤ} (h : msg_id ∉ due.map Prod.fst) :
    charged config target due (updateRow rows msg_id markPublished) ≤
      charged config target ((msg_id, retry_count) :: due) rows := by
  refine charged_updateRow_le (fun _ => ⟨rfl, rfl⟩) ?_ ?_
  · intro row _ hid
    rw [weight_of_not_due (markPublished row) (by rwa [markPublished, hid]),
      if_neg (not_eligible_markPublished config row)]
    exact Nat.zero_le _
  · intro row _ hid
    rw [weight_cons_of_ne hid]

theorem left_recordFailure (hmax : config.max_retries.toNat < 2 ^ 31) {row : Row}
    (hnonneg : 0 ≤ row.retry_count) (hlt : row.retry_count < config.max_retries.toNat) :
    (recordFailure config row.retry_count row).left config = row.left config - 1 := by
  have hcount : asI32 (row.retry_count + 1) = row.retry_count + 1 :=
    asI32_eq (by omega) (by omega)
  simp only [Row.left, recordFailure, hcount]
  omega

/-- The sweeper records a failed attempt. -/
theorem charged_recordFailure (hmax : config.max_retries.toNat < 2 ^ 31) {msg_id : String}
    {retry_count : ℤ} (h : msg_id ∉ due.map Prod.fst)
    (hrows : ∀ row ∈ rows, row.msg_id = msg_id → row.retry_count = retry_count ∧
      0 ≤ retry_count ∧ retry_count < config.max_retries.toNat) :
    charged config target due (updateRow rows msg_id (recordFailure config retry_count)) ≤
      charged config target ((msg_id, retry_count) :: due) rows := by
  refine charged_updateRow_le (fun _ => ⟨rfl, rfl⟩) ?_ ?_
  · intro row hrow hid
    obtain ⟨rfl, hnonneg, hlt⟩ := hrows row hrow hid
    have hmem : row.msg_id ∈ ((msg_id, row.retry_count) :: due).map Prod.fst := by simp [hid]
    rw [weight_of_due row hmem, weight_of_not_due _ (by rwa [recordFailure, hid]),
      left_recordFailure hmax hnonneg hlt]
    split_ifs
    · exact Nat.le_refl _
    · exact Nat.zero_le _
  · intro row _ hid
    rw [weight_cons_of_ne hid]

/-- A row that a sweep takes on is charged for it. -/
theorem charge_select (target : Row) {order : List Row}
    (hrows : ∀ row ∈ order, Eligible config row) {row : Row}
    (hinj : ∀ row' ∈ order, row.msg_id = row'.msg_id → row = row') :
    charge config target (order.map (fun row => (row.msg_id, row.retry_count))) row +
        (if row ∈ order ∧ Ahead target row then 1 else 0) ≤ charge config target [] row := by
  have hids : (order.map (fun row => (row.msg_id, row.retry_count))).map Prod.fst =
      order.map Row.msg_id := by rw [List.map_map]; rfl
  have hfree : weight config [] row = if Eligible config row then row.left config else 0 :=
    weight_of_not_due row nofun
  by_cases hahead : Ahead target row
  · rw [charge, charge, if_pos hahead, if_pos hahead, hfree]
    by_cases hmem : row ∈ order
    · have heligible := hrows row hmem
      have hlt := heligible.2
      rw [weight_of_due row (by rw [hids]; exact List.mem_map_of_mem hmem), if_pos heligible,
        if_pos ⟨hmem, hahead⟩]
      unfold Row.left
      omega
    · have hnot : row.msg_id ∉ order.map Row.msg_id := by
        intro hid
        obtain ⟨row', hrow', heq⟩ := List.mem_map.1 hid
        exact hmem (hinj row' hrow' heq.symm ▸ hrow')
      have hfalse : ¬ (row ∈ order ∧ Ahead target row) := fun h => hmem h.1
      rw [weight_of_not_due row (by rwa [hids]), if_neg hfalse]
      exact Nat.le_refl _
  · rw [charge, charge, if_neg hahead, if_neg hahead, if_neg (fun h => hahead h.2)]

theorem charged_select {order : List Row} (hrows : ∀ row ∈ order, Eligible config row)
    (hinj : ∀ row ∈ rows, ∀ row' ∈ order, row.msg_id = row'.msg_id → row = row') :
    charged config target (order.map (fun row => (row.msg_id, row.retry_count))) rows +
        rows.countP (fun row => row ∈ order ∧ Ahead target row) ≤
      charged config target [] rows := by
  unfold charged
  induction rows with
  | nil => exact Nat.le_refl 0
  | cons row rows ih =>
      have htail := ih (fun row' hrow' => hinj row' (List.mem_cons_of_mem _ hrow'))
      have hhead := charge_select target hrows (hinj row List.mem_cons_self)
      rw [List.countP_cons, List.map_cons, List.sum_cons, List.map_cons, List.sum_cons]
      simp only [decide_eq_true_eq]
      omega

end Charges

def Later (target : Row) : Action → Prop
  | .insert created_at | .publishInTxn _ _ _ created_at => target.created_at < created_at
  | _ => True

def Pc.failing : Pc → Option String
  | .recording msg_id _ _ => some msg_id
  | _ => none

instance (target : Row) (action : Action) : Decidable (Later target action) :=
  match action with
  | .insert _ | .publishInTxn _ _ _ _ => inferInstanceAs (Decidable (_ < _))
  | .publish _ _ _ | .sweep | .select _ | .push _ | .update | .fail => isTrue trivial

/-- The only sweeper is `w`, the rows inserted are newer than `target`, and the update after a
failed attempt goes through. -/
structure Undisturbed (w : WorkerId) (target : Row) (s : State) (a : Label) : Prop where
  swept : SweptBy w a
  later : Later target a.action
  recorded : (s.workers a.worker).failing.isSome → a.action ≠ .fail

instance (w : WorkerId) (target : Row) (s : State) (a : Label) :
    Decidable (Undisturbed w target s a) :=
  decidable_of_iff (SweptBy w a ∧ Later target a.action ∧
      ((s.workers a.worker).failing.isSome → a.action ≠ .fail))
    ⟨fun h => ⟨h.1, h.2.1, h.2.2⟩, fun h => ⟨h.swept, h.later, h.recorded⟩⟩

def Settled (config : Config) (w : WorkerId) (msg_id : String) (x : State × List Event) : Prop :=
  msg_id ∉ (x.1.workers w).due.map Prod.fst ∧
    ∀ row ∈ x.1.rows, row.msg_id = msg_id → ¬ Eligible config row

def Pc.untried : Pc → List String
  | .idle | .inserting _ _ _ | .selecting => []
  | .pushing job | .marking job => job.due.map Prod.fst
  | .recording _ _ rest => rest.map Swept.msg_id

theorem untried_eq_nil {pc : Pc} (h : pc.due = []) : pc.untried = [] := by
  cases pc with
  | idle | inserting | selecting => rfl
  | pushing job | marking job =>
      have hjob : job.due = [] := h
      rw [Pc.untried, hjob, List.map_nil]
  | recording msg_id retry_count rest => cases h

/-- A sweep owes an attempt to the rows it has selected. -/
def owed (w : WorkerId) (msg_id : String) (x : State × List Event) : ℕ :=
  100 * failedAttempts x.2 msg_id + if msg_id ∈ (x.1.workers w).untried then 100 else 0

def Label.price (a : Label) : ℕ :=
  match a.action with
  | .select _ => 100
  | _ => 0

def potential (config : Config) (w : WorkerId) (target : Row) (x : State × List Event) : ℕ :=
  charged config target (x.1.workers w).due x.1.rows

theorem untried_sweepNext (rest : List Swept) :
    (sweepNext rest).untried = rest.map Swept.msg_id := by
  cases rest with
  | nil => rfl
  | cons row rest =>
      simp [sweepNext, Pc.untried, Job.due, Swept.read, Function.comp_def]

theorem untried_succeeded (job : Job) : job.succeeded.untried = (job.due.map Prod.fst).tail := by
  unfold Job.succeeded Job.due
  cases job.caller with
  | publisher => rfl
  | sweeper retry_count rest =>
      simp [untried_sweepNext, Swept.read, Function.comp_def]

theorem untried_failed (job : Job) : job.failed.untried = (job.due.map Prod.fst).tail := by
  unfold Job.failed Job.due
  cases job.caller with
  | publisher => rfl
  | sweeper retry_count rest => simp [Pc.untried, Swept.read, Function.comp_def]

structure Steady (config : Config) (w : WorkerId) (target : Row) (x : State × List Event) :
    Prop where
  consistent : Consistent config x.1 x.2
  sole : SoleSweeper config w x.1
  row : ∃ row ∈ x.1.rows, row.msg_id = target.msg_id ∧ row.created_at = target.created_at

section Steps

variable {config : Config} {s s' : State} {w v : WorkerId} {action : Action} {log : List Event}
  {target : Row}

/-- A sweep that leaves a row out takes on a hundred rows ahead of it. -/
theorem countP_selected {order : List Row} (horder : Ordered config s.rows order)
    (hs : (s.rows.map Row.msg_id).Nodup) {row : Row} (hrow : row ∈ s.rows)
    (heligible : Eligible config row) (hnot : row.msg_id ∉ (order.take 100).map Row.msg_id) :
    s.rows.countP (fun row' => row' ∈ order.take 100 ∧ Ahead row row') = 100 := by
  have hmem : row ∈ order.take 100 ++ order.drop 100 := by
    rw [List.take_append_drop]
    exact horder.1.symm.subset (by simpa using ⟨hrow, heligible⟩)
  have hdrop : row ∈ order.drop 100 :=
    (List.mem_append.1 hmem).resolve_left (fun htake => hnot (List.mem_map_of_mem htake))
  have hlength : (order.take 100).length = 100 := by
    have hpos := List.length_pos_of_mem hdrop
    rw [List.length_drop] at hpos
    rw [List.length_take]
    omega
  have hahead (row' : Row) (hrow' : row' ∈ order.take 100) : Ahead row row' := by
    have hsorted := horder.2
    rw [← List.take_append_drop 100 order] at hsorted
    refine ⟨(List.pairwise_append.1 hsorted).2.2 row' hrow' row hdrop, fun hid => hnot ?_⟩
    exact hid ▸ List.mem_map_of_mem hrow'
  have hperm : (s.rows.filter (fun row' => row' ∈ order.take 100 ∧ Ahead row row')).Perm
      (order.take 100) := by
    refine (List.perm_ext_iff_of_nodup (hs.of_map.filter _)
      (nodup_selected horder hs).of_map).2 (fun row' => ?_)
    simp only [List.mem_filter, decide_eq_true_eq]
    exact ⟨fun h => h.2.1, fun h => ⟨(mem_selected horder h).1, h, hahead row' h⟩⟩
  rw [List.countP_eq_length_filter, hperm.length_eq, hlength]

/-- A worker that only publishes fails no attempt of a sweep. -/
theorem failedAttempts_of_publishes (h : Move config s v action s')
    (hdue : (s.workers v).due = []) (msg_id : String) :
    failedAttempts (noteEvent config log s ⟨v, action⟩ s') msg_id = failedAttempts log msg_id := by
  cases h with
  | push hw => simp [noteEvent, hw, failedAttempts]
  | @failJob job hw =>
      have hjob : job.due = [] := by
        rcases hw with hw | hw
        · rwa [hw] at hdue
        · rwa [hw] at hdue
      have hnote : job.noteFailed log = log := by
        unfold Job.due at hjob
        unfold Job.noteFailed
        cases hcaller : job.caller with
        | publisher => rfl
        | sweeper retry_count rest => simp [hcaller] at hjob
      rcases hw with hw | hw
      · simp [noteEvent, hw, hnote]
      · simp [noteEvent, hw, hnote]
  | giveUp hw =>
      rcases hw with hw | ⟨uuid, topic, payload, hw⟩
      · simp [noteEvent, hw]
      · simp [noteEvent, hw]
  | publish hw | publishInTxn hw | sweep hw | insert hw | select hw | mark hw | record hw
  | failRecord hw => simp [noteEvent, hw]

theorem not_ahead_of_later {uuid : Uuid} {topic payload : String} {created_at : ℕ}
    (h : target.created_at < created_at) :
    ¬ Ahead target (pendingRow uuid topic payload created_at) := by
  intro hahead
  have hle : created_at ≤ target.created_at := hahead.1
  omega

theorem charged_publishes (h : Move config s v action s') (hdue : (s.workers v).due = [])
    (hlater : Later target action) (due : List (String × ℤ)) :
    charged config target due s'.rows ≤ charged config target due s.rows := by
  cases h with
  | publishInTxn hw | insert hw => exact (charged_append (not_ahead_of_later hlater)).le
  | mark hw => exact charged_markPublished ..
  | record hw =>
      rw [hw] at hdue
      cases hdue
  | _ => exact Nat.le_refl _

/-- Where the rows of the next state come from. -/
theorem Move.mem_rows (h : Move config s v action s') {row : Row} (hrow : row ∈ s'.rows) :
    row ∈ s.rows ∨ row.msg_id ∉ s.rows.map Row.msg_id ∨
      (∃ row' ∈ s.rows, row = markPublished row') ∨
      ∃ row' ∈ s.rows, ∃ retry_count rest, s.workers v = .recording row'.msg_id retry_count rest ∧
        row = recordFailure config retry_count row' := by
  cases h with
  | publishInTxn hw hnew | insert hw hnew =>
      rcases List.mem_append.1 hrow with hmem | hmem
      · exact .inl hmem
      · obtain rfl := List.mem_singleton.1 hmem
        exact .inr (.inl hnew)
  | mark hw =>
      obtain ⟨row', hrow', rfl⟩ := mem_updateRow.1 hrow
      split_ifs
      · exact .inr (.inr (.inl ⟨row', hrow', rfl⟩))
      · exact .inl hrow'
  | record hw =>
      obtain ⟨row', hrow', rfl⟩ := mem_updateRow.1 hrow
      split_ifs with hid
      · exact .inr (.inr (.inr ⟨row', hrow', _, _, hid ▸ hw, rfl⟩))
      · exact .inl hrow'
  | _ => exact .inl hrow

namespace Steady

/-- A row that is left to no sweep stays so. -/
theorem settled (h : Steady config w target (s, log)) (hmove : Move config s v action s')
    (hsettled : Settled config w target.msg_id (s, log)) :
    Settled config w target.msg_id (s', noteEvent config log s ⟨v, action⟩ s') := by
  obtain ⟨hdue, hrows⟩ := hsettled
  refine ⟨?_, fun row hrow hid => ?_⟩
  · by_cases hv : v = w
    · subst hv
      rcases hmove.due h.sole.distinct with ⟨hsuffix, -⟩ | ⟨order, horder, -, hselected⟩
      · exact fun hmem => hdue ((hsuffix.sublist.map _).subset hmem)
      · rw [hselected, List.map_map]
        intro hmem
        obtain ⟨row, hrow, hid⟩ := List.mem_map.1 hmem
        obtain ⟨hmem', heligible⟩ := mem_selected horder hrow
        exact hrows row hmem' hid heligible
    · rw [hmove.other (Ne.symm hv)]
      exact hdue
  · rcases hmove.mem_rows hrow with hmem | hnew | ⟨row', -, rfl⟩ |
      ⟨row', hmem, retry_count, rest, hw, rfl⟩
    · exact hrows row hmem hid
    · obtain ⟨row', hrow', hid', -⟩ := h.row
      have hold := List.mem_map_of_mem (f := Row.msg_id) hrow'
      rw [hid', ← hid] at hold
      exact absurd hold hnew
    · exact not_eligible_markPublished config row'
    · by_cases hv : v = w
      · subst hv
        refine absurd ?_ hdue
        rw [hw, ← hid]
        exact List.mem_cons_self
      · have hnone := (h.sole.others v hv).2
        rw [hw] at hnone
        cases hnone

/-- A step of a worker that has nothing due. -/
theorem paid_free (h : Steady config w target (s, log)) (hmove : Move config s v action s')
    (hselecting : s.workers v ≠ .selecting) (hdue : (s.workers v).due = [])
    (hlater : Later target action) :
    potential config w target (s', noteEvent config log s ⟨v, action⟩ s') +
        Label.price ⟨v, action⟩ + owed w target.msg_id (s, log) ≤
      potential config w target (s, log) +
        owed w target.msg_id (s', noteEvent config log s ⟨v, action⟩ s') := by
  have hprice : Label.price ⟨v, action⟩ = 0 := by
    cases hmove with
    | select hw => exact absurd hw hselecting
    | _ => rfl
  have hcharged := charged_publishes hmove hdue hlater (s.workers w).due
  have hself : (s'.workers w).due = (s.workers w).due ∧
      (s'.workers w).untried = (s.workers w).untried := by
    by_cases hv : v = w
    · subst hv
      have hdue' := hmove.due_nil hselecting hdue
      rw [hdue, hdue', untried_eq_nil hdue, untried_eq_nil hdue']
      exact ⟨rfl, rfl⟩
    · rw [hmove.other (Ne.symm hv)]
      exact ⟨rfl, rfl⟩
  unfold potential owed
  simp only [hself, failedAttempts_of_publishes hmove hdue, hprice]
  omega

/-- A sweep selects its rows. -/
theorem paid_select (h : Steady config w target (s, log)) (hw : s.workers w = .selecting)
    {order : List Row} (horder : Ordered config s.rows order) {s' : State}
    (hs' : s' = s.put w (sweepNext ((order.take 100).map Row.swept)))
    (hunsettled : ¬ Settled config w target.msg_id (s', log)) :
    potential config w target (s', log) + 100 + owed w target.msg_id (s, log) ≤
      potential config w target (s, log) + owed w target.msg_id (s', log) := by
  have hdue : (s'.workers w).due =
      (order.take 100).map (fun row => (row.msg_id, row.retry_count)) := by
    rw [hs', State.put_workers_self, due_sweepNext, List.map_map]
    rfl
  have huntried : (s'.workers w).untried = (order.take 100).map Row.msg_id := by
    rw [hs', State.put_workers_self, untried_sweepNext, List.map_map]
    rfl
  have hrows : s'.rows = s.rows := by rw [hs', State.put_rows]
  have hdue₀ : (s.workers w).due = [] := by rw [hw]; rfl
  have huntried₀ : (s.workers w).untried = [] := by rw [hw]; rfl
  have hcharged : charged config target
        ((order.take 100).map (fun row => (row.msg_id, row.retry_count))) s.rows +
          s.rows.countP (fun row => row ∈ order.take 100 ∧ Ahead target row) ≤
      charged config target [] s.rows :=
    charged_select (fun row hrow => (mem_selected horder hrow).2)
      (fun row hrow row' hrow' hid =>
        List.inj_on_of_nodup_map h.consistent.unique hrow (mem_selected horder hrow').1 hid)
  unfold potential owed
  simp only [hdue, huntried, hrows, hdue₀, huntried₀]
  by_cases hmem : target.msg_id ∈ (order.take 100).map Row.msg_id
  · rw [if_pos hmem, if_neg List.not_mem_nil]
    omega
  · have heligible : ∃ row ∈ s.rows, row.msg_id = target.msg_id ∧ Eligible config row := by
      by_contra hnone
      push Not at hnone
      refine hunsettled ⟨?_, ?_⟩
      · rw [hdue, List.map_map]
        exact hmem
      · rw [hrows]
        exact hnone
    obtain ⟨row, hrow, hid, heligible⟩ := heligible
    obtain ⟨row', hrow', hid', hcreated⟩ := h.row
    obtain rfl := List.inj_on_of_nodup_map h.consistent.unique hrow hrow' (hid.trans hid'.symm)
    have hahead : ∀ other, Ahead target other ↔ Ahead row other := by
      intro other
      rw [Ahead, Ahead, hid, hcreated]
    have hcount := countP_selected horder h.consistent.unique hrow heligible (by rwa [hid])
    simp only [hahead] at hcharged
    rw [hcount] at hcharged
    rw [if_neg hmem, if_neg List.not_mem_nil]
    omega

/-- The sweeper publishes the row that it has pushed. -/
theorem paid_mark (h : Steady config w target (s, log)) {job : Job}
    (hw : s.workers w = .marking job) {s' : State}
    (hs' : s' = (s.withRows (updateRow s.rows job.msg_id markPublished)).put w job.succeeded)
    (hunsettled : ¬ Settled config w target.msg_id (s', log)) :
    potential config w target (s', log) + owed w target.msg_id (s, log) ≤
      potential config w target (s, log) + owed w target.msg_id (s', log) := by
  have hdue : (s'.workers w).due = job.due.tail := by
    rw [hs', State.put_workers_self, due_succeeded]
  have huntried : (s'.workers w).untried = (job.due.map Prod.fst).tail := by
    rw [hs', State.put_workers_self, untried_succeeded]
  have hrows : s'.rows = updateRow s.rows job.msg_id markPublished := by rw [hs']; rfl
  have hdue₀ : (s.workers w).due = job.due := by rw [hw]; rfl
  have huntried₀ : (s.workers w).untried = job.due.map Prod.fst := by rw [hw]; rfl
  have hdistinct : (job.due.map Prod.fst).Nodup := hdue₀ ▸ h.sole.distinct
  unfold potential owed
  simp only [hdue, huntried, hrows, hdue₀, huntried₀]
  cases hcaller : job.caller with
  | publisher =>
      have hnil : job.due = [] := by rw [Job.due, hcaller]
      have hcharged := charged_markPublished config target [] s.rows job.msg_id
      simp only [hnil, List.tail_nil, List.map_nil]
      omega
  | sweeper retry_count rest =>
      have hcons : job.due = (job.msg_id, retry_count) :: rest.map Swept.read := by
        rw [Job.due, hcaller]
      rw [hcons] at hdistinct hdue
      have hnot := (List.nodup_cons.1 hdistinct).1
      have hcharged : charged config target (rest.map Swept.read)
          (updateRow s.rows job.msg_id markPublished) ≤
            charged config target ((job.msg_id, retry_count) :: rest.map Swept.read) s.rows :=
        charged_published hnot
      have hne : target.msg_id ≠ job.msg_id := by
        intro hid
        refine hunsettled ⟨?_, fun row hrow hrow' => ?_⟩
        · rw [hdue, hid]
          exact hnot
        · rw [hrows] at hrow
          obtain ⟨row', -, rfl⟩ := mem_updateRow.1 hrow
          split_ifs at hrow' ⊢ with heq
          · exact not_eligible_markPublished config row'
          · exact absurd (hrow'.trans hid) heq
      simp only [hcons, List.tail_cons, List.map_cons, List.mem_cons, hne, false_or]
      omega

/-- The sweeper records a failed attempt. -/
theorem paid_record (h : Steady config w target (s, log))
    (hmax : config.max_retries.toNat < 2 ^ 31) {msg_id : String} {retry_count : ℤ}
    {rest : List Swept} (hw : s.workers w = .recording msg_id retry_count rest) {s' : State}
    (hs' : s' = (s.withRows (updateRow s.rows msg_id (recordFailure config retry_count))).put w
      (sweepNext rest)) :
    potential config w target (s', log) + owed w target.msg_id (s, log) ≤
      potential config w target (s, log) + owed w target.msg_id (s', log) := by
  have hdue : (s'.workers w).due = rest.map Swept.read := by
    rw [hs', State.put_workers_self, due_sweepNext]
  have huntried : (s'.workers w).untried = rest.map Swept.msg_id := by
    rw [hs', State.put_workers_self, untried_sweepNext]
  have hrows : s'.rows = updateRow s.rows msg_id (recordFailure config retry_count) := by
    rw [hs']
    rfl
  have hdue₀ : (s.workers w).due = (msg_id, retry_count) :: rest.map Swept.read := by rw [hw]; rfl
  have huntried₀ : (s.workers w).untried = rest.map Swept.msg_id := by rw [hw]; rfl
  have hdistinct : (((msg_id, retry_count) :: rest.map Swept.read).map Prod.fst).Nodup :=
    hdue₀ ▸ h.sole.distinct
  obtain ⟨hlt, row, hrow, hid, hcount⟩ := h.sole.current msg_id retry_count
    (by simp only [hdue₀]; exact List.mem_cons_self)
  have hcharged : charged config target (rest.map Swept.read)
      (updateRow s.rows msg_id (recordFailure config retry_count)) ≤
        charged config target ((msg_id, retry_count) :: rest.map Swept.read) s.rows := by
    refine charged_recordFailure hmax (List.nodup_cons.1 hdistinct).1 (fun row' hrow' hid' => ?_)
    obtain rfl := List.inj_on_of_nodup_map h.consistent.unique hrow hrow' (hid.trans hid'.symm)
    have hnonneg := (h.consistent.rows row hrow).nonneg
    exact ⟨hcount, by omega, hlt⟩
  unfold potential owed
  simp only [hdue, huntried, hrows, hdue₀, huntried₀]
  omega

/-- An attempt fails. -/
theorem paid_failJob (h : Steady config w target (s, log)) {job : Job}
    (hw : s.workers w = .pushing job ∨ s.workers w = .marking job) {s' : State}
    (hs' : s' = s.put w job.failed) :
    potential config w target (s', job.noteFailed log) + owed w target.msg_id (s, log) ≤
      potential config w target (s, log) + owed w target.msg_id (s', job.noteFailed log) := by
  have hdue : (s'.workers w).due = job.due := by
    rw [hs', State.put_workers_self, due_failed]
  have huntried : (s'.workers w).untried = (job.due.map Prod.fst).tail := by
    rw [hs', State.put_workers_self, untried_failed]
  have hrows : s'.rows = s.rows := by rw [hs', State.put_rows]
  have hdue₀ : (s.workers w).due = job.due := by
    rcases hw with hw | hw
    · rw [hw]; rfl
    · rw [hw]; rfl
  have huntried₀ : (s.workers w).untried = job.due.map Prod.fst := by
    rcases hw with hw | hw
    · rw [hw]; rfl
    · rw [hw]; rfl
  have hdistinct : (job.due.map Prod.fst).Nodup := hdue₀ ▸ h.sole.distinct
  unfold potential owed
  simp only [hdue, huntried, hrows, hdue₀, huntried₀]
  cases hcaller : job.caller with
  | publisher =>
      have hnil : job.due = [] := by rw [Job.due, hcaller]
      have hnote : job.noteFailed log = log := by rw [Job.noteFailed, hcaller]
      simp only [hnil, hnote, List.tail_nil, List.map_nil]
      omega
  | sweeper retry_count rest =>
      have hcons : job.due = (job.msg_id, retry_count) :: rest.map Swept.read := by
        rw [Job.due, hcaller]
      have hnote : job.noteFailed log = .attemptFailed job.msg_id :: log := by
        rw [Job.noteFailed, hcaller]
      simp only [hcons, hnote, List.tail_cons, List.map_cons, List.mem_cons]
      by_cases hid : target.msg_id = job.msg_id
      · have hattempts : failedAttempts (.attemptFailed job.msg_id :: log) target.msg_id =
            failedAttempts log target.msg_id + 1 := by simp [failedAttempts, hid]
        rw [hattempts, if_pos (.inl hid)]
        omega
      · have hattempts : failedAttempts (.attemptFailed job.msg_id :: log) target.msg_id =
            failedAttempts log target.msg_id := by
          simp [failedAttempts, Ne.symm hid]
        simp only [hattempts, hid, false_or]
        omega

theorem paid_next (h : Steady config w target (s, log)) (hmax : config.max_retries.toNat < 2 ^ 31)
    (hmove : Move config s v action s') (hu : Undisturbed w target s ⟨v, action⟩)
    (hunsettled : ¬ Settled config w target.msg_id (s', noteEvent config log s ⟨v, action⟩ s')) :
    potential config w target (s', noteEvent config log s ⟨v, action⟩ s') +
        Label.price ⟨v, action⟩ + owed w target.msg_id (s, log) ≤
      potential config w target (s, log) +
        owed w target.msg_id (s', noteEvent config log s ⟨v, action⟩ s') := by
  by_cases hfree : s.workers v ≠ .selecting ∧ (s.workers v).due = []
  · exact h.paid_free hmove hfree.1 hfree.2 hu.later
  obtain rfl : v = w := by
    by_contra hv
    exact hfree (h.sole.others v hv)
  cases hmove with
  | publish hw | publishInTxn hw | sweep hw | insert hw =>
      exact absurd (by simp [hw, Pc.due]) hfree
  | giveUp hw =>
      rcases hw with hw | ⟨uuid, topic, payload, hw⟩
      · simp [potential, owed, Label.price, noteEvent, hw, Pc.due, Pc.untried]
      · exact absurd (by simp [hw, Pc.due]) hfree
  | select hw horder =>
      have hnote (order : List Row) (t : State) :
          noteEvent config log s ⟨v, .select order⟩ t = log := by simp [noteEvent, hw]
      rw [hnote] at hunsettled ⊢
      exact h.paid_select hw horder rfl hunsettled
  | @push job uuid hw =>
      have hattempts (t : State) : failedAttempts (noteEvent config log s ⟨v, .push uuid⟩ t)
          target.msg_id = failedAttempts log target.msg_id := by
        simp [noteEvent, hw, failedAttempts]
      unfold potential owed
      simp only [State.put_workers_self, State.put_rows, State.deliver_rows, hattempts, hw]
      exact Nat.le_refl _
  | mark hw =>
      have hnote (t : State) : noteEvent config log s ⟨v, .update⟩ t = log := by
        simp [noteEvent, hw]
      rw [hnote] at hunsettled ⊢
      exact h.paid_mark hw rfl hunsettled
  | record hw =>
      have hnote (t : State) : noteEvent config log s ⟨v, .update⟩ t = log := by
        simp [noteEvent, hw]
      rw [hnote]
      exact h.paid_record hmax hw rfl
  | @failJob job hw =>
      have hnote : noteEvent config log s ⟨v, .fail⟩ (s.put v job.failed) = job.noteFailed log := by
        rcases hw with hw | hw
        · simp [noteEvent, hw]
        · simp [noteEvent, hw]
      rw [hnote]
      exact h.paid_failJob hw rfl
  | failRecord hw => exact absurd rfl (hu.recorded (by simp [hw, Pc.failing]))

end Steady
end Steps

end Rszero.Outbox
