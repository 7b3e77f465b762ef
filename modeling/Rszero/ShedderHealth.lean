import Rszero.Shedder

/-!
# Shedding of healthy traffic

A call divides the sum by the number that it drew from `sample_count`, two accesses that other calls
may come between. As long as the sum never has more latencies than that when the call adds its own,
no average exceeds the largest latency, and nothing is shed.
-/

namespace Rszero.Shedder

open CallProgram

def access (s : State) (i : ℕ) : Option Access :=
  (s.tasks i).bind fun task => match task.rest with
    | .call op _ => some op
    | _ => none

def addedBy (added : ℕ) : Access → ℕ
  | .fetchAdd .latency_sum _ => added + 1
  | .store .latency_sum _ => 0
  | _ => added

def noteAdded (added : ℕ) (s : State) (a : Label) (_ : State) : ℕ :=
  match a with
  | .call i _ => (access s i).elim added (addedBy added)
  | _ => added

def counting (latency_threshold_ms : ℕ) : TransitionSystem (State × ℕ) Label :=
  (system latency_threshold_ms).observe 0 noteAdded

/-- `activate` is not called, and every latency is one of `L`. -/
def Records (L : ℕ → Prop) : Label → Prop
  | .spawn _ (.recordLatency latency_ms) => L latency_ms
  | .spawn _ .activate => False
  | _ => True

def Healthy (latency_threshold_ms : ℕ) (_ : State × ℕ) : Label → Prop :=
  Records (· ≤ latency_threshold_ms)

/-- The call was the next after `counted` samples, and is about to add its latency. -/
structure Adding (task : Task) (latency_ms counted : ℕ) : Prop where
  past : task.past = [⟨.fetchAdd .sample_count 1, counted⟩]
  rest : task.rest = addLatency latency_ms counted

/-- A call that adds its latency finds at most as many in the sum as there were samples when it was
counted. -/
def NotOvertaken (x : State × ℕ) : Label → Prop
  | .call i _ => ∀ task latency_ms counted, x.1.tasks i = some task →
      Adding task latency_ms counted → x.2 ≤ counted
  | _ => True

def Inactive (x : State × ℕ) : Prop :=
  x.1.shared.is_active = false ∧ x.1.shared.rejectProbability = 0

/-- A call before it has added its latency, or one that from then on keeps to `guar` if the answers
are as relied on. -/
inductive Stands (L : ℕ → Prop) (rely guar : Sigma Access.Answer → Prop) (task : Task) : Prop
  | begun {latency_ms : ℕ} (h : L latency_ms) (hpast : task.past = [])
      (hrest : task.rest = recordLatency latency_ms)
  | counted {latency_ms counted : ℕ} (h : L latency_ms) (hadding : Adding task latency_ms counted)
  | later {past : Calls Access.Answer}
      (h : task.rest.Ensures rely (fun _ => guar) (fun _ _ => True) past)

theorem access_of_rest {s : State} {i : ℕ} {task : Task} {op : Access}
    {rest : op.Answer → Program} (ht : s.tasks i = some task) (hrest : task.rest = .call op rest) :
    access s i = some op := by
  rw [access, ht, Option.bind_some, hrest]

section Discipline

variable {L : ℕ → Prop} {rely guar : Sigma Access.Answer → Prop} {T : ℕ}
  {I : AdaptiveShedder → ℕ → Prop} {Turn : ℕ → ℕ → Prop} {x y : State × ℕ} {a : Label}

/-- What keeps `I` of the shedder and of the number of latencies in its sum, when a call only adds
its latency in turn. -/
structure Discipline (L : ℕ → Prop) (rely guar : Sigma Access.Answer → Prop)
    (I : AdaptiveShedder → ℕ → Prop) (Turn : ℕ → ℕ → Prop) : Prop where
  answer : ∀ {s added} op, I s added → rely ⟨op, (perform s op).1⟩
  keeps : ∀ {s added op ans}, I s added → guar ⟨op, ans⟩ → I (perform s op).2 (addedBy added op)
  counts : ∀ {s added}, I s added → I (perform s (.fetchAdd .sample_count 1)).2 added
  adds : ∀ {s added latency_ms}, I s added → L latency_ms →
    I (perform s (.fetchAdd .latency_sum latency_ms)).2 (added + 1)
  settles : ∀ {s added latency_ms counted}, I s added → L latency_ms → Turn added counted →
    (settle (counted + 1) ((s.counter .latency_sum + latency_ms) / (counted + 1))).Ensures rely
      (fun _ => guar) (fun _ _ => True) []
  rejects : ∀ draw, (shouldReject draw).Ensures rely (fun _ => guar) (fun _ _ => True) []
  deactivates : deactivate.Ensures rely (fun _ => guar) (fun _ _ => True) []

/-- `I` holds, and every call stands where it keeps it. -/
structure Kept (L : ℕ → Prop) (rely guar : Sigma Access.Answer → Prop)
    (I : AdaptiveShedder → ℕ → Prop) (x : State × ℕ) : Prop where
  shared : I x.1.shared x.2
  stands : ∀ i task, x.1.tasks i = some task → Stands L rely guar task

theorem Stands.cut {task : Task} (h : Stands L rely guar task) :
    Stands L rely guar { task with live := false } := by
  cases h with
  | begun hlatency hpast hrest => exact .begun hlatency hpast hrest
  | counted hlatency hadding => exact .counted hlatency ⟨hadding.past, hadding.rest⟩
  | later hlater => exact .later hlater

theorem Kept.put {s : State} {added : ℕ} (h : Kept L rely guar I (s, added)) {i : ℕ} {task : Task}
    (ht : Stands L rely guar task) : Kept L rely guar I (s.put i task, added) where
  shared := h.shared
  stands := by
    intro j task' hj
    rcases Platform.tasks_put hj with ⟨-, rfl⟩ | ⟨-, hj⟩
    · exact ht
    · exact h.stands j task' hj

theorem Discipline.stands (hI : Discipline L rely guar I Turn) {request : Request} {i : ℕ}
    (h : Records L (.spawn i request)) : Stands L rely guar ((platform T).begun request) := by
  cases request with
  | recordLatency latency_ms => exact .begun h rfl rfl
  | shouldReject draw => exact .later (hI.rejects draw)
  | activate => exact h.elim
  | deactivate => exact .later hI.deactivates

theorem Kept.step (hI : Discipline L rely guar I Turn) (h : Kept L rely guar I x)
    (hrecords : Records L a)
    (hturn : ∀ i task latency_ms counted, a = .call i () → x.1.tasks i = some task →
      Adding task latency_ms counted → Turn x.2 counted)
    (hstep : (counting T).step x a = some y) : Kept L rely guar I y := by
  obtain ⟨s', hs', rfl⟩ := TransitionSystem.exists_of_observe_step hstep
  obtain ⟨s, added⟩ := x
  cases Platform.next_move hs' with
  | spawn ht => exact h.put (hI.stands hrecords)
  | @cut i task ht => exact h.put (h.stands i task ht).cut
  | @env e => exact e.elim
  | @call i _ task op rest ans shared ht hlive hrest hp =>
      rw [noteAdded, access_of_rest ht hrest, Option.elim_some]
      obtain ⟨rfl, rfl⟩ : (perform s.shared op).1 = ans ∧ (perform s.shared op).2 = shared :=
        Prod.mk.inj (Option.some.inj hp)
      have hput {added' : ℕ} (hshared : I (perform s.shared op).2 added')
          (hstands : Stands L rely guar (task.answered rest (perform s.shared op).1)) :
          Kept L rely guar I ({ s with shared := (perform s.shared op).2 }.put i
            (task.answered rest (perform s.shared op).1), added') :=
        Kept.put (s := { s with shared := _ }) ⟨hshared, h.stands⟩ hstands
      cases h.stands i task ht with
      | begun hlatency hpast hbody =>
          cases hrest.symm.trans hbody
          refine hput (hI.counts h.shared) (.counted hlatency ⟨?_, rfl⟩)
          rw [Platform.Task.answered, hpast]
          rfl
      | @counted latency_ms counted hlatency hadding =>
          have hcounted := hturn i task latency_ms counted rfl ht hadding
          cases hrest.symm.trans hadding.rest
          exact hput (hI.adds h.shared hlatency) (.later (hI.settles h.shared hlatency hcounted))
      | later hlater =>
          rw [hrest] at hlater
          obtain ⟨hop, hthen⟩ := hlater _ (hI.answer op h.shared)
          exact hput (hI.keeps h.shared hop) (.later hthen)

theorem Kept.init (hI : I (.new T) 0) : Kept L rely guar I (counting T).init where
  shared := hI
  stands := by
    intro i task ht
    cases ht

end Discipline

section Healthy

variable {T : ℕ}

def CalmAnswer (T : ℕ) : Sigma Access.Answer → Prop
  | ⟨.load .latency_threshold_ms, threshold⟩ => threshold = T
  | ⟨.load .reject_probability, current⟩ => current = 0
  | _ => True

def CalmAccess : Sigma Access.Answer → Prop
  | ⟨.store .latency_threshold_ms _, _⟩ => False
  | ⟨.store .reject_probability n, _⟩ => n = 0
  | ⟨.store .latency_sum n, _⟩ => n = 0
  | ⟨.fetchAdd .., _⟩ => False
  | ⟨.storeActive b, _⟩ => b = false
  | _ => True

abbrev Calm (T : ℕ) (p : Program) (past : Calls Access.Answer) : Prop :=
  p.Ensures (CalmAnswer T) (fun _ => CalmAccess) (fun _ _ => True) past

variable {past : Calls Access.Answer}

theorem calm_resetWindow (count : ℕ) : Calm T (resetWindow count) past := by
  unfold resetWindow
  split_ifs
  · exact fun _ _ => ⟨trivial, fun _ _ => ⟨rfl, trivial⟩⟩
  · trivial

theorem calm_deactivateAtZero (count : ℕ) : Calm T (deactivateAtZero count) past := by
  intro current hcurrent
  obtain rfl : current = 0 := hcurrent
  exact ⟨trivial, fun _ _ => ⟨rfl, calm_resetWindow count⟩⟩

/-- An average that does not exceed the threshold changes nothing. -/
theorem calm_settle {avg : ℕ} (count : ℕ) (h : avg ≤ T) : Calm T (settle count avg) past := by
  refine fun _ _ => ⟨trivial, ?_⟩
  intro threshold hthreshold
  obtain rfl : threshold = T := hthreshold
  refine ⟨trivial, ?_⟩
  simp only [gt_iff_lt, if_neg (Nat.not_lt.2 h)]
  intro current hcurrent
  obtain rfl : current = 0 := hcurrent
  exact ⟨trivial, calm_deactivateAtZero count⟩

theorem calm_shouldReject (draw : ℕ) : Calm T (shouldReject draw) past := by
  intro active _
  refine ⟨trivial, ?_⟩
  cases active with
  | true => exact fun _ _ => ⟨trivial, trivial⟩
  | false => trivial

theorem calm_deactivate : Calm T deactivate past := fun _ _ => ⟨rfl, fun _ _ => ⟨rfl, trivial⟩⟩

/-- The average of latencies under a threshold, of which at most `counted` are in the sum. -/
theorem average_le {sum latency_ms counted added : ℕ} (hsum : sum ≤ T * added)
    (hlatency : latency_ms ≤ T) (hadded : added ≤ counted) :
    (sum + latency_ms) / (counted + 1) ≤ T := by
  apply Nat.div_le_of_le_mul
  have hmul : T * added ≤ T * counted := Nat.mul_le_mul_left T hadded
  calc sum + latency_ms ≤ T * counted + T := by omega
    _ = (counted + 1) * T := by rw [Nat.add_mul, Nat.one_mul, Nat.mul_comm]

/-- Nothing is shed, and the sum is one of `added` latencies that do not exceed the threshold. -/
structure Untroubled (T : ℕ) (s : AdaptiveShedder) (added : ℕ) : Prop where
  active : s.active = false
  reject : s.counter .reject_probability = 0
  threshold : s.counter .latency_threshold_ms = T
  sum : s.counter .latency_sum ≤ T * added

theorem Untroubled.answer {s : AdaptiveShedder} {added : ℕ} (h : Untroubled T s added)
    (op : Access) : CalmAnswer T ⟨op, (perform s op).1⟩ := by
  cases op with
  | load c =>
      cases c with
      | latency_threshold_ms => exact h.threshold
      | reject_probability => exact h.reject
      | _ => trivial
  | _ => trivial

theorem Untroubled.perform {s : AdaptiveShedder} {added : ℕ} (h : Untroubled T s added)
    {op : Access} {ans : op.Answer} (hop : CalmAccess ⟨op, ans⟩) :
    Untroubled T (perform s op).2 (addedBy added op) := by
  cases op with
  | load | loadActive => exact h
  | fetchAdd => exact hop.elim
  | storeActive b =>
      obtain rfl : b = false := hop
      exact ⟨rfl, h.reject, h.threshold, h.sum⟩
  | store c n =>
      cases c with
      | latency_threshold_ms => exact hop.elim
      | reject_probability => exact ⟨h.active, hop, h.threshold, h.sum⟩
      | latency_sum =>
          obtain rfl : n = 0 := hop
          exact ⟨h.active, h.reject, h.threshold, Nat.zero_le _⟩
      | avg_latency_ms | sample_count => exact ⟨h.active, h.reject, h.threshold, h.sum⟩

theorem untroubled_discipline : Discipline (· ≤ T) (CalmAnswer T) CalmAccess (Untroubled T)
    (fun added counted => added ≤ counted) where
  answer op h := h.answer op
  keeps h hop := h.perform hop
  counts h := ⟨h.active, h.reject, h.threshold, h.sum⟩
  adds h hlatency := ⟨h.active, h.reject, h.threshold, Nat.add_le_add h.sum hlatency⟩
  settles h hlatency hadded := calm_settle _ (average_le h.sum hlatency hadded)
  rejects := calm_shouldReject
  deactivates := calm_deactivate

end Healthy

section Overtaken

variable {T : ℕ}

def KeepsSum : Sigma Access.Answer → Prop
  | ⟨.store .latency_threshold_ms _, _⟩ => False
  | ⟨.store .latency_sum n, _⟩ => n = 0
  | ⟨.fetchAdd .., _⟩ => False
  | _ => True

abbrev Steady (p : Program) (past : Calls Access.Answer) : Prop :=
  p.Ensures (fun _ => True) (fun _ => KeepsSum) (fun _ _ => True) past

variable {past : Calls Access.Answer}

theorem steady_resetWindow (count : ℕ) : Steady (resetWindow count) past := by
  unfold resetWindow
  split_ifs
  · exact fun _ _ => ⟨trivial, fun _ _ => ⟨rfl, trivial⟩⟩
  · trivial

theorem steady_deactivateAtZero (count : ℕ) : Steady (deactivateAtZero count) past := by
  intro current _
  refine ⟨trivial, ?_⟩
  dsimp only
  split_ifs
  · exact fun _ _ => ⟨trivial, steady_resetWindow count⟩
  · exact steady_resetWindow count

theorem steady_settle (count avg : ℕ) : Steady (settle count avg) past := by
  refine fun _ _ => ⟨trivial, fun threshold _ => ⟨trivial, ?_⟩⟩
  dsimp only
  split_ifs
  · exact fun _ _ => ⟨trivial, fun _ _ => ⟨trivial, steady_resetWindow count⟩⟩
  · intro current _
    refine ⟨trivial, ?_⟩
    dsimp only
    split_ifs
    · exact fun _ _ => ⟨trivial, steady_deactivateAtZero count⟩
    · exact steady_deactivateAtZero count

theorem steady_shouldReject (draw : ℕ) : Steady (shouldReject draw) past := by
  intro active _
  refine ⟨trivial, ?_⟩
  cases active with
  | true => exact fun _ _ => ⟨trivial, trivial⟩
  | false => trivial

/-- The sum is one of `added` latencies that equal the threshold. -/
structure Level (T : ℕ) (s : AdaptiveShedder) (added : ℕ) : Prop where
  threshold : s.counter .latency_threshold_ms = T
  sum : s.counter .latency_sum = T * added

theorem Level.perform {s : AdaptiveShedder} {added : ℕ} (h : Level T s added) {op : Access}
    {ans : op.Answer} (hop : KeepsSum ⟨op, ans⟩) : Level T (perform s op).2 (addedBy added op) := by
  cases op with
  | load | loadActive => exact h
  | fetchAdd => exact hop.elim
  | storeActive b => exact ⟨h.threshold, h.sum⟩
  | store c n =>
      cases c with
      | latency_threshold_ms => exact hop.elim
      | latency_sum => exact ⟨h.threshold, hop⟩
      | reject_probability | avg_latency_ms | sample_count => exact ⟨h.threshold, h.sum⟩

theorem level_discipline : Discipline (· = T) (fun _ => True) KeepsSum (Level T)
    (fun _ _ => True) where
  answer _ _ := trivial
  keeps h hop := h.perform hop
  counts h := ⟨h.threshold, h.sum⟩
  adds h hlatency := ⟨h.threshold, congrArg₂ (· + ·) h.sum hlatency⟩
  settles _ _ _ := steady_settle _ _
  rejects := steady_shouldReject
  deactivates := fun _ _ => ⟨trivial, fun _ _ => ⟨trivial, trivial⟩⟩

/-- The average of more latencies than were counted, when all of them equal the threshold. -/
theorem lt_average {counted added : ℕ} (hadded : counted < added) (hcounted : counted < T) :
    T < (T * added + T) / (counted + 1) := by
  rw [← Nat.succ_le_iff, Nat.le_div_iff_mul_le (Nat.succ_pos _)]
  have hmul : T * (counted + 1) ≤ T * added := Nat.mul_le_mul_left T hadded
  calc (T + 1) * (counted + 1) = T * (counted + 1) + (counted + 1) := by
        rw [Nat.add_mul, Nat.one_mul]
    _ ≤ T * added + T := Nat.add_le_add hmul hcounted

/-- The call that is at `p` takes the step that `p` begins with. -/
theorem counting_call {x : State × ℕ} {i : ℕ} {task : Task} {op : Access}
    {rest : op.Answer → Program} (ht : x.1.tasks i = some task) (hlive : task.live)
    (hrest : task.rest = .call op rest) :
    ∃ y, (counting T).step x (.call i ()) = some y ∧ y.1.shared = (perform x.1.shared op).2 ∧
      ∃ task', y.1.tasks i = some task' ∧ task'.live ∧
        task'.rest = rest (perform x.1.shared op).1 := by
  let s' : State := { x.1 with shared := (perform x.1.shared op).2 }.put i
    (task.answered rest (perform x.1.shared op).1)
  have hstep : (system T).step x.1 (.call i ()) = some s' := by
    change (x.1.tasks i).bind _ = _
    rw [ht, Option.bind_some, if_pos hlive, Platform.advance, hrest]
    rfl
  exact ⟨(s', noteAdded x.2 x.1 (.call i ()) s'),
    TransitionSystem.observe_step_eq_some.2 ⟨hstep, rfl⟩, rfl, _, Platform.put_tasks_self ..,
    hlive, rfl⟩

/-- When all latencies equal a threshold that exceeds its count, a call that was overtaken
activates the shedder by its own next accesses. -/
theorem overtaken_activates {x : State × ℕ} {i counted : ℕ} {task : Task}
    (h : Kept (· = T) (fun _ => True) KeepsSum (Level T) x) (ht : x.1.tasks i = some task)
    (hlive : task.live) (hadding : Adding task T counted) (hadded : counted < x.2)
    (hcounted : counted < T) :
    ∃ y, (counting T).exec x (List.replicate 5 (.call i ())) = some y ∧ ¬ Inactive y := by
  obtain ⟨y₁, hy₁, hs₁, task₁, ht₁, hlive₁, hrest₁⟩ := counting_call (T := T) ht hlive hadding.rest
  obtain ⟨y₂, hy₂, hs₂, task₂, ht₂, hlive₂, hrest₂⟩ := counting_call (T := T) ht₁ hlive₁ hrest₁
  obtain ⟨y₃, hy₃, hs₃, task₃, ht₃, hlive₃, hrest₃⟩ := counting_call (T := T) ht₂ hlive₂ hrest₂
  have hthreshold : y₂.1.shared.counter .latency_threshold_ms = T := by
    rw [hs₂, hs₁]
    exact h.shared.threshold
  have haverage : (x.1.shared.counter .latency_sum + T) / (counted + 1) > T := by
    rw [h.shared.sum]
    exact lt_average hadded hcounted
  have hsheds := hrest₃.trans (if_pos (hthreshold ▸ haverage))
  obtain ⟨y₄, hy₄, hs₄, task₄, ht₄, hlive₄, hrest₄⟩ := counting_call (T := T) ht₃ hlive₃ hsheds
  obtain ⟨y₅, hy₅, hs₅, -⟩ := counting_call (T := T) ht₄ hlive₄ hrest₄
  refine ⟨y₅, ?_, ?_⟩
  · have hcons {s t u : State × ℕ} {a : Label} {as : List Label}
        (ht : (counting T).step s a = some t) (hu : (counting T).exec t as = some u) :
        (counting T).exec s (a :: as) = some u :=
      ((counting T).exec_cons_eq_some).2 ⟨t, ht, hu⟩
    exact hcons hy₁ (hcons hy₂ (hcons hy₃ (hcons hy₄ (hcons hy₅ rfl))))
  · intro hinactive
    have hactive : y₅.1.shared.active = true := congrArg AdaptiveShedder.active hs₅
    exact Bool.false_ne_true (hinactive.1.symm.trans hactive)

end Overtaken

/-- In a run of healthy traffic in which no call is overtaken nothing is ever shed. A call that is
overtaken while all latencies equal the threshold makes the shedder shed, if the threshold exceeds
its count. -/
theorem healthy_inactive (T : ℕ) :
    (∀ run, (counting T).Along (fun x a => Healthy T x a ∧ NotOvertaken x a) (counting T).init run →
        (counting T).Throughout Inactive (counting T).init run) ∧
      ∀ run x i task counted, (counting T).exec (counting T).init run = some x →
        (counting T).Along (fun _ => Records (· = T)) (counting T).init run →
        x.1.tasks i = some task → task.live → Adding task T counted → counted < x.2 →
        counted < T →
        ∃ y, (counting T).exec x (List.replicate 5 (.call i ())) = some y ∧ ¬ Inactive y := by
  constructor
  · intro run hA
    have hgood : ∀ x a y, Kept (· ≤ T) (CalmAnswer T) CalmAccess (Untroubled T) x →
        Healthy T x a ∧ NotOvertaken x a → (counting T).step x a = some y →
        Kept (· ≤ T) (CalmAnswer T) CalmAccess (Untroubled T) y := by
      rintro x a y hx ⟨hhealthy, hturn⟩ hstep
      refine hx.step untroubled_discipline hhealthy ?_ hstep
      rintro i task latency_ms counted rfl ht hadding
      exact hturn task latency_ms counted ht hadding
    exact TransitionSystem.throughout_of_along (fun x hx => ⟨hx.shared.active, hx.shared.reject⟩)
      hgood (.init ⟨rfl, rfl, rfl, Nat.zero_le _⟩) hA
  · intro run x i task counted he hA ht hlive hadding hadded hcounted
    have hgood : ∀ x a y, Kept (· = T) (fun _ => True) KeepsSum (Level T) x → Records (· = T) a →
        (counting T).step x a = some y → Kept (· = T) (fun _ => True) KeepsSum (Level T) y :=
      fun x a y hx hrecords hstep =>
        hx.step level_discipline hrecords (fun _ _ _ _ _ _ _ => trivial) hstep
    have hlevel := TransitionSystem.exec_invariant_along hgood (.init ⟨rfl, rfl⟩) he hA
    exact overtaken_activates hlevel ht hlive hadding hadded hcounted

def inTurn : List Label :=
  [.spawn 0 (.recordLatency 60), .spawn 1 (.recordLatency 90), .call 0 (), .call 0 (), .call 1 (),
    .call 1 ()]

theorem healthy_inactive_inTurn :
    (counting 100).Throughout Inactive (counting 100).init inTurn := by
  apply (healthy_inactive 100).1
  have h60 : 60 ≤ 100 := by decide
  have h90 : 90 ≤ 100 := by decide
  apply TransitionSystem.along_cons ⟨h60, trivial⟩ rfl
  apply TransitionSystem.along_cons ⟨h90, trivial⟩ rfl
  refine TransitionSystem.along_cons ⟨trivial, ?_⟩ rfl ?_
  · rintro _ _ _ ⟨⟩ h
    cases h.past
  refine TransitionSystem.along_cons ⟨trivial, ?_⟩ rfl ?_
  · exact fun _ _ _ _ _ => Nat.zero_le _
  refine TransitionSystem.along_cons ⟨trivial, ?_⟩ rfl ?_
  · rintro _ _ _ ⟨⟩ h
    cases h.past
  refine TransitionSystem.along_cons ⟨trivial, ?_⟩ rfl trivial
  rintro _ _ _ ⟨⟩ h
  cases h.past
  exact Nat.le_refl _

/-- A call of 60 ms is counted first and adds its latency last. -/
def overtaken : List Label :=
  [.spawn 0 (.recordLatency 60), .call 0 (), .spawn 1 (.recordLatency 60), .call 1 (),
    .call 1 ()] ++ List.replicate 5 (.call 0 ())

/-- The average of the two calls of 60 ms is taken to be 120. -/
theorem not_healthy_inactive :
    (counting 100).Along (Healthy 100) (counting 100).init overtaken ∧
      ¬ (counting 100).Throughout Inactive (counting 100).init overtaken := by
  constructor
  · apply TransitionSystem.along_of_mem
    intro a ha s
    simp only [overtaken, List.mem_append, List.mem_cons, List.mem_replicate, List.not_mem_nil,
      or_false] at ha
    rcases ha with (rfl | rfl | rfl | rfl | rfl) | ⟨-, rfl⟩ <;> simp [Healthy, Records]
  · intro h
    obtain ⟨x, hx, hactive⟩ := TransitionSystem.exists_exec (counting 100) (r := overtaken)
      (s := (counting 100).init) (p := fun x => x.1.shared.active) rfl
    exact Bool.false_ne_true ((h.last hx).1.symm.trans hactive)

end Rszero.Shedder
