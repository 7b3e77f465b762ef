import Mathlib.Data.Option.Basic
import Mathlib.Tactic.Common

/-!
# Labelled transition systems and conditional runs

The label of a step resolves every choice of the scheduler and of the environment, so a step is a
partial function. `Reachable C` collects the states of the runs all of whose steps meet `C`; the
unconditional runs are those of `fun _ _ => True`. `observe` adds a history variable that the
steps never read. The last section is the rule for an exact condition: when a step that violates
`C` at once breaks `P`, a run keeps `P` throughout if and only if all its steps meet `C`.
-/

namespace Rszero

structure TransitionSystem (σ ι : Type*) where
  init : σ
  step : σ → ι → Option σ

namespace TransitionSystem

variable {σ ι μ : Type*} (S : TransitionSystem σ ι)

/-- The states reached by runs all of whose steps meet `C`. -/
inductive Reachable (C : σ → ι → Prop) : σ → Prop
  | init : Reachable C S.init
  | step {s s' : σ} {a : ι} (hs : Reachable C s) (ha : C s a) (he : S.step s a = some s') :
      Reachable C s'

variable {S}

theorem Reachable.invariant {C : σ → ι → Prop} {I : σ → Prop} (hinit : I S.init)
    (hstep : ∀ s a s', I s → C s a → S.step s a = some s' → I s') {s : σ}
    (h : S.Reachable C s) : I s := by
  induction h with
  | init => exact hinit
  | step _ ha he ih => exact hstep _ _ _ ih ha he

variable (S)

/-- The state at the end of a run, when every step of the run is possible. -/
def exec : σ → List ι → Option σ
  | s, [] => some s
  | s, a :: as => (S.step s a).bind (fun s' => exec s' as)

@[simp] theorem exec_nil (s : σ) : S.exec s [] = some s := rfl

theorem exec_cons_eq_some {s s' : σ} {a : ι} {as : List ι} :
    S.exec s (a :: as) = some s' ↔ ∃ t, S.step s a = some t ∧ S.exec t as = some s' := by
  simp [exec, Option.bind_eq_some_iff]

theorem exec_append {s t s' : σ} {as bs : List ι} (ht : S.exec s as = some t)
    (hs' : S.exec t bs = some s') : S.exec s (as ++ bs) = some s' := by
  induction as generalizing s with
  | nil =>
      obtain rfl := Option.some.inj ht
      exact hs'
  | cons a as ih =>
      obtain ⟨u, hu, hr⟩ := S.exec_cons_eq_some.1 ht
      exact S.exec_cons_eq_some.2 ⟨u, hu, ih hr⟩

theorem exec_append_eq_some {s s' : σ} {as bs : List ι} :
    S.exec s (as ++ bs) = some s' ↔ ∃ t, S.exec s as = some t ∧ S.exec t bs = some s' := by
  constructor
  · intro h
    induction as generalizing s with
    | nil => exact ⟨s, rfl, h⟩
    | cons a as ih =>
        obtain ⟨u, hu, hr⟩ := S.exec_cons_eq_some.1 h
        obtain ⟨t, ht, hs'⟩ := ih hr
        exact ⟨t, S.exec_cons_eq_some.2 ⟨u, hu, ht⟩, hs'⟩
  · rintro ⟨t, ht, hs'⟩
    exact S.exec_append ht hs'

/-- A system all of whose steps are possible runs whatever the labels. -/
theorem exists_exec_of_total (h : ∀ s a, ∃ s', S.step s a = some s') (s : σ) (as : List ι) :
    ∃ s', S.exec s as = some s' := by
  induction as generalizing s with
  | nil => exact ⟨s, rfl⟩
  | cons a as ih =>
      obtain ⟨t, ht⟩ := h s a
      obtain ⟨s', hs'⟩ := ih t
      exact ⟨s', S.exec_cons_eq_some.2 ⟨t, ht, hs'⟩⟩

theorem exec_invariant {I : σ → Prop} (hI : ∀ s a s', I s → S.step s a = some s' → I s')
    {s s' : σ} {as : List ι} (hs : I s) (he : S.exec s as = some s') : I s' := by
  induction as generalizing s with
  | nil => exact Option.some.inj he ▸ hs
  | cons a as ih =>
      obtain ⟨t, ht, hr⟩ := S.exec_cons_eq_some.1 he
      exact ih (hI s a t hs ht) hr

theorem Reachable.exec_of_mem {C : σ → ι → Prop} {s s' : σ} {as : List ι} (hs : S.Reachable C s)
    (hC : ∀ a ∈ as, ∀ t, C t a) (he : S.exec s as = some s') : S.Reachable C s' := by
  induction as generalizing s with
  | nil => exact Option.some.inj he ▸ hs
  | cons a as ih =>
      obtain ⟨t, ht, hr⟩ := (S.exec_cons_eq_some).1 he
      exact ih (.step hs (hC a (by simp) s) ht) (fun b hb => hC b (by simp [hb])) hr

theorem Reachable.exec {C : σ → ι → Prop} {s s' : σ} {as : List ι} (hs : S.Reachable C s)
    (hC : ∀ t a, C t a) (he : S.exec s as = some s') : S.Reachable C s' :=
  hs.exec_of_mem S (fun a _ t => hC t a) he

/-- What a step leaves alone unless its label names it, a run leaves alone unless one of its labels
names it. -/
theorem exec_frame {κ ν : Type*} {f : σ → κ → ν} {l : ι → Option κ}
    (hstep : ∀ s a s' d, S.step s a = some s' → l a ≠ some d → f s' d = f s d) {s s' : σ}
    {as : List ι} {d : κ} (h : S.exec s as = some s') (hd : ∀ a ∈ as, l a ≠ some d) :
    f s' d = f s d := by
  induction as generalizing s with
  | nil => rw [Option.some.inj h]
  | cons a as ih =>
      obtain ⟨t, ht, hr⟩ := (S.exec_cons_eq_some).1 h
      have htail : f s' d = f t d := ih hr (fun a' ha' => hd a' (by simp [ha']))
      exact htail.trans (hstep s a t d ht (hd a (by simp)))

/-- The same system with the steps that violate `C` disabled. -/
def guard (C : σ → ι → Prop) [∀ s a, Decidable (C s a)] : TransitionSystem σ ι where
  init := S.init
  step s a := if C s a then S.step s a else none

theorem guard_step_eq_some {C : σ → ι → Prop} [∀ s a, Decidable (C s a)] {s s' : σ} {a : ι} :
    (S.guard C).step s a = some s' ↔ C s a ∧ S.step s a = some s' := by
  by_cases h : C s a <;> simp [guard, h]

/-- Running the guarded system decides conditional reachability on a concrete run. -/
theorem reachable_of_guard_exec {C : σ → ι → Prop} [∀ s a, Decidable (C s a)] {s s' : σ}
    {as : List ι} (hs : S.Reachable C s) (he : (S.guard C).exec s as = some s') :
    S.Reachable C s' := by
  induction as generalizing s with
  | nil => exact Option.some.inj he ▸ hs
  | cons a as ih =>
      obtain ⟨t, ht, hr⟩ := ((S.guard C).exec_cons_eq_some).1 he
      obtain ⟨hc, hst⟩ := S.guard_step_eq_some.1 ht
      exact ih (.step hs hc hst) hr

/-- A run that ends in a state with the decidable property `p`, found by running it. -/
theorem exists_exec {s : σ} {r : List ι} {p : σ → Bool} (h : (S.exec s r).any p) :
    ∃ s', S.exec s r = some s' ∧ p s' := by
  simpa [Option.any_eq_true] using h

/-- The system together with a history variable, which `note` updates from each step. -/
def observe (m₀ : μ) (note : μ → σ → ι → σ → μ) : TransitionSystem (σ × μ) ι where
  init := (S.init, m₀)
  step x a := (S.step x.1 a).map (fun s' => (s', note x.2 x.1 a s'))

variable {S}

theorem observe_step_eq_some {m₀ : μ} {note : μ → σ → ι → σ → μ} {x y : σ × μ} {a : ι} :
    (S.observe m₀ note).step x a = some y ↔
      S.step x.1 a = some y.1 ∧ y.2 = note x.2 x.1 a y.1 := by
  obtain ⟨s', m'⟩ := y
  simp only [observe, Option.map_eq_some_iff, Prod.mk.injEq]
  constructor
  · rintro ⟨t, ht, rfl, rfl⟩
    exact ⟨ht, rfl⟩
  · rintro ⟨ht, rfl⟩
    exact ⟨s', ht, rfl, rfl⟩

/-- A step of the system with its history is one of the system, which the history follows. -/
theorem exists_of_observe_step {m₀ : μ} {note : μ → σ → ι → σ → μ} {x y : σ × μ} {a : ι}
    (h : (S.observe m₀ note).step x a = some y) :
    ∃ s', S.step x.1 a = some s' ∧ y = (s', note x.2 x.1 a s') := by
  obtain ⟨s', hs, hy⟩ := Option.map_eq_some_iff.1 h
  exact ⟨s', hs, hy.symm⟩

variable (S)

/-- Every step of the run from `s` meets `C`. -/
def Along (C : σ → ι → Prop) : σ → List ι → Prop
  | _, [] => True
  | s, a :: as => C s a ∧ ∀ s', S.step s a = some s' → Along C s' as

/-- Every state of the run from `s` satisfies `P`. -/
def Throughout (P : σ → Prop) : σ → List ι → Prop
  | s, [] => P s
  | s, a :: as => P s ∧ ∀ s', S.step s a = some s' → Throughout P s' as

variable {S}

theorem Throughout.head {P : σ → Prop} {s : σ} {as : List ι} (h : S.Throughout P s as) : P s := by
  cases as with
  | nil => exact h
  | cons a as => exact h.1

theorem Throughout.last {P : σ → Prop} {s s' : σ} {as : List ι} (h : S.Throughout P s as)
    (he : S.exec s as = some s') : P s' := by
  induction as generalizing s with
  | nil => exact Option.some.inj he ▸ h
  | cons a as ih =>
      obtain ⟨t, ht, hr⟩ := (S.exec_cons_eq_some).1 he
      exact ih (h.2 t ht) hr

theorem exec_of_guard_exec {C : σ → ι → Prop} [∀ s a, Decidable (C s a)] {s s' : σ}
    {as : List ι} (he : (S.guard C).exec s as = some s') :
    S.exec s as = some s' ∧ S.Along C s as := by
  induction as generalizing s with
  | nil => exact ⟨he, trivial⟩
  | cons a as ih =>
      obtain ⟨t, ht, hr⟩ := ((S.guard C).exec_cons_eq_some).1 he
      obtain ⟨hc, hst⟩ := S.guard_step_eq_some.1 ht
      obtain ⟨hexec, halong⟩ := ih hr
      refine ⟨S.exec_cons_eq_some.2 ⟨t, hst, hexec⟩, hc, ?_⟩
      intro u hu
      obtain rfl := Option.some.inj (hst.symm.trans hu)
      exact halong

/-- A condition that keeps the invariant, and whose violation breaks `P` in the very next state,
is exactly what a run of an environment that keeps to `A` needs in order to satisfy `P`
throughout. -/
theorem throughout_iff_along_within {A C : σ → ι → Prop} {I P : σ → Prop} (hP : ∀ s, I s → P s)
    (hgood : ∀ s a s', I s → A s a → C s a → S.step s a = some s' → I s')
    (hbad : ∀ s a s', I s → A s a → ¬ C s a → S.step s a = some s' → ¬ P s') {s s' : σ}
    {as : List ι} (hs : I s) (he : S.exec s as = some s') (hA : S.Along A s as) :
    S.Throughout P s as ↔ S.Along C s as := by
  induction as generalizing s with
  | nil => exact iff_of_true (hP s hs) trivial
  | cons a as ih =>
      obtain ⟨t, ht, hr⟩ := (S.exec_cons_eq_some).1 he
      obtain ⟨ha, hAtail⟩ := hA
      have htail (Q : σ → Prop) : (∀ u, S.step s a = some u → Q u) ↔ Q t := by simp [ht]
      simp only [Throughout, Along, htail]
      by_cases hc : C s a
      · rw [ih (hgood s a t hs ha hc ht) hr (hAtail t ht)]
        exact and_congr_left (fun _ => iff_of_true (hP s hs) hc)
      · refine iff_of_false (fun h => hbad s a t hs ha hc ht h.2.head) (fun h => hc h.1)

theorem along_of_mem {C : σ → ι → Prop} {as : List ι} (hC : ∀ a ∈ as, ∀ s, C s a) (s : σ) :
    S.Along C s as := by
  induction as generalizing s with
  | nil => trivial
  | cons a as ih =>
      exact ⟨hC a (by simp) s, fun s' _ => ih (fun b hb => hC b (by simp [hb])) s'⟩

theorem along_of_forall {C : σ → ι → Prop} (hC : ∀ s a, C s a) (s : σ) (as : List ι) :
    S.Along C s as := along_of_mem (fun a _ s => hC s a) s

theorem along_cons {C : σ → ι → Prop} {s t : σ} {a : ι} {as : List ι} (hC : C s a)
    (ht : S.step s a = some t) (h : S.Along C t as) : S.Along C s (a :: as) := by
  refine ⟨hC, fun u hu => ?_⟩
  rw [← Option.some.inj (ht.symm.trans hu)]
  exact h

/-- A run that meets `C` keeps what `C` preserves. -/
theorem throughout_of_along {C : σ → ι → Prop} {I P : σ → Prop} (hP : ∀ s, I s → P s)
    (hgood : ∀ s a s', I s → C s a → S.step s a = some s' → I s') {s : σ} {as : List ι} (hs : I s)
    (hC : S.Along C s as) : S.Throughout P s as := by
  induction as generalizing s with
  | nil => exact hP s hs
  | cons a as ih => exact ⟨hP s hs, fun t ht => ih (hgood s a t hs hC.1 ht) (hC.2 t ht)⟩

/-- A run that meets `C` ends in what `C` preserves. -/
theorem exec_invariant_along {C : σ → ι → Prop} {I : σ → Prop}
    (hgood : ∀ s a s', I s → C s a → S.step s a = some s' → I s') {s s' : σ} {as : List ι}
    (hs : I s) (he : S.exec s as = some s') (hC : S.Along C s as) : I s' := by
  induction as generalizing s with
  | nil => exact Option.some.inj he ▸ hs
  | cons a as ih =>
      obtain ⟨t, ht, hr⟩ := (S.exec_cons_eq_some).1 he
      exact ih (hgood s a t hs hC.1 ht) hr (hC.2 t ht)

theorem along_append {C : σ → ι → Prop} {s : σ} {as bs : List ι} :
    S.Along C s (as ++ bs) ↔ S.Along C s as ∧ ∀ t, S.exec s as = some t → S.Along C t bs := by
  induction as generalizing s with
  | nil =>
      simp [Along]
  | cons a as ih =>
      simp only [List.cons_append, Along, ih, exec_cons_eq_some]
      constructor
      · rintro ⟨ha, hrest⟩
        exact ⟨⟨ha, fun u hu => (hrest u hu).1⟩, fun t ⟨u, hu, ht⟩ => (hrest u hu).2 t ht⟩
      · rintro ⟨⟨ha, hrest⟩, hbs⟩
        exact ⟨ha, fun u hu => ⟨hrest u hu, fun t ht => hbs t ⟨u, hu, ht⟩⟩⟩

/-- A condition on labels alone is met along a run when its labels meet it. -/
theorem along_iff_forall_mem {C : ι → Prop} {s s' : σ} {as : List ι}
    (he : S.exec s as = some s') : S.Along (fun _ a => C a) s as ↔ ∀ a ∈ as, C a := by
  induction as generalizing s with
  | nil => simp [Along]
  | cons a as ih =>
      obtain ⟨t, ht, hr⟩ := (S.exec_cons_eq_some).1 he
      have htail : S.Along (fun _ a => C a) s (a :: as) ↔ C a ∧ S.Along (fun _ a => C a) t as := by
        simp [Along, ht]
      rw [htail, ih hr, List.forall_mem_cons]

/-- Conditions that agree in the states with an invariant are met along the same runs. -/
theorem along_congr {A C : σ → ι → Prop} {I : σ → Prop}
    (hI : ∀ s a s', I s → S.step s a = some s' → I s') (h : ∀ s a, I s → (A s a ↔ C s a)) {s : σ}
    (hs : I s) (as : List ι) : S.Along A s as ↔ S.Along C s as := by
  induction as generalizing s with
  | nil => exact Iff.rfl
  | cons a as ih =>
      have htail (t : σ) (ht : S.step s a = some t) := ih (hI s a t hs ht)
      exact and_congr (h s a hs) (forall_congr' (fun t => forall_congr' (htail t)))

/-- The same in any environment. -/
theorem throughout_iff_along {C : σ → ι → Prop} {I P : σ → Prop} (hP : ∀ s, I s → P s)
    (hgood : ∀ s a s', I s → C s a → S.step s a = some s' → I s')
    (hbad : ∀ s a s', I s → ¬ C s a → S.step s a = some s' → ¬ P s') {s s' : σ} {as : List ι}
    (hs : I s) (he : S.exec s as = some s') : S.Throughout P s as ↔ S.Along C s as :=
  throughout_iff_along_within hP (fun s a s' hi _ => hgood s a s' hi)
    (fun s a s' hi _ => hbad s a s' hi) hs he (along_of_forall (fun _ _ => trivial) s as)

/-- A property that a step of such an environment keeps exactly when it meets `C` is there in the
end exactly when it was there at the start and all steps meet `C`. -/
theorem final_iff_along_within {A C : σ → ι → Prop} {I P : σ → Prop}
    (hI : ∀ s a s', I s → S.step s a = some s' → I s')
    (hP : ∀ s a s', I s → A s a → S.step s a = some s' → (P s' ↔ P s ∧ C s a)) {s s' : σ}
    {as : List ι} (hs : I s) (he : S.exec s as = some s') (hA : S.Along A s as) :
    P s' ↔ P s ∧ S.Along C s as := by
  induction as generalizing s with
  | nil =>
      rw [← Option.some.inj he]
      exact (and_iff_left trivial).symm
  | cons a as ih =>
      obtain ⟨t, ht, hr⟩ := (S.exec_cons_eq_some).1 he
      obtain ⟨ha, hAtail⟩ := hA
      have htail : S.Along C s (a :: as) ↔ C s a ∧ S.Along C t as := by simp [Along, ht]
      rw [ih (hI s a t hs ht) hr (hAtail t ht), hP s a t hs ha ht, htail, and_assoc]

/-- The same in any environment. -/
theorem final_iff_along {C : σ → ι → Prop} {I P : σ → Prop}
    (hI : ∀ s a s', I s → S.step s a = some s' → I s')
    (hP : ∀ s a s', I s → S.step s a = some s' → (P s' ↔ P s ∧ C s a)) {s s' : σ} {as : List ι}
    (hs : I s) (he : S.exec s as = some s') : P s' ↔ P s ∧ S.Along C s as :=
  final_iff_along_within hI (fun s a s' hi _ => hP s a s' hi) hs he
    (along_of_forall (fun _ _ => trivial) s as)

end TransitionSystem
end Rszero
