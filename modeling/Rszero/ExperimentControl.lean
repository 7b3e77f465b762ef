import Rszero.ExperimentWeights
import Rszero.TransitionSystem

/-!
# Users outside an experiment

Without an experiment, or without variants, a user is assigned a control variant. A disabled
experiment and one without weight assign the first variant of the list, which is a control only if
the list begins with one.
-/

namespace Rszero.Experiments

namespace Experiment

/-- Users are not divided among the variants. -/
def Outside (e : Experiment) : Prop := e.enabled = false ∨ e.weight = 0 ∨ e.variants = []

def HasControl (e : Experiment) : Prop := e.variants = [] ∨ ∃ v ∈ e.variants, v.is_control

/-- The list is empty or begins with a control. -/
def ControlFirst (e : Experiment) : Prop := ∀ v, e.variants.head? = some v → v.is_control

end Experiment

def IsControl (variant : Option Variant) : Prop := ∃ v, variant = some v ∧ v.is_control

open Experiment

theorem isControl_default : IsControl (some (Variant.control "default")) := ⟨_, rfl, rfl⟩

section Assign

variable {e : Experiment}

theorem totalWeight_of_weight_eq_zero (hzero : e.weight = 0) : e.totalWeight = some 0 := by
  obtain ⟨total, htotal, hval⟩ : ∃ total, e.totalWeight = some total ∧
      total.toNat = (0 : UInt32).toNat + e.weight := by
    apply foldlM_checkedAdd
    change 0 + e.weight < 2 ^ 32
    omega
  rw [hzero] at hval
  rw [htotal, UInt32.toNat_inj.1 hval]

/-- The exits outside an experiment with variants all return the first of them. -/
theorem assign_of_outside (hout : e.Outside) (hne : e.variants ≠ []) (user_id : String) :
    e.assign user_id = e.variants.head? := by
  have hempty : e.variants.isEmpty = false := by simpa using hne
  rw [List.head?_eq_getElem?]
  cases henabled : e.enabled with
  | false => rw [assign, exitFor, hempty, henabled]; rfl
  | true =>
      have hzero : e.weight = 0 := by
        rcases hout with hdisabled | hzero | hnil
        · exact absurd (henabled.symm.trans hdisabled) (by decide)
        · exact hzero
        · exact absurd hnil hne
      rw [assign, exitFor, hempty, henabled, totalWeight_of_weight_eq_zero hzero]
      rfl

theorem isControl_assign_iff (hout : e.Outside) (user_id : String) :
    IsControl (e.assign user_id) ↔ e.ControlFirst := by
  cases hvs : e.variants with
  | nil =>
      have hassign : e.assign user_id = some (Variant.control "default") := by
        rw [assign, exitFor, hvs]
        rfl
      rw [hassign]
      exact iff_of_true isControl_default (fun v hv => by rw [hvs] at hv; cases hv)
  | cons v vs =>
      rw [assign_of_outside hout (by rw [hvs]; exact List.cons_ne_nil v vs), ControlFirst, hvs]
      simp [IsControl]

end Assign

inductive Label
  | register (e : Experiment)
  | unregister (name : String)

def next (registry : ExperimentRegistry) : Label → Option ExperimentRegistry
  | .register e => some (registry.register e)
  | .unregister name => some (registry.unregister name)

def system : TransitionSystem ExperimentRegistry Label where
  init := .new
  step := next

theorem next_total (registry : ExperimentRegistry) (a : Label) :
    ∃ registry', next registry a = some registry' := by
  cases a with
  | register e => exact ⟨_, rfl⟩
  | unregister name => exact ⟨_, rfl⟩

/-- Users who are outside an experiment, or ask for one that is not registered, get a control. -/
def OutsidersGetControl (registry : ExperimentRegistry) : Prop :=
  ∀ name user_id,
    (∀ e, registry.experiments name = some e → e.Outside ∧ e.HasControl) →
      IsControl (registry.assign name user_id)

/-- A registered experiment that users are outside of, and that has a control, begins with it. -/
def RegistersControlFirst (_ : ExperimentRegistry) : Label → Prop
  | .register e => e.Outside → e.HasControl → e.ControlFirst
  | .unregister _ => True

def AllControlFirst (registry : ExperimentRegistry) : Prop :=
  ∀ name e, registry.experiments name = some e → e.Outside → e.HasControl → e.ControlFirst

theorem outsidersGetControl_of_all {registry : ExperimentRegistry}
    (h : AllControlFirst registry) : OutsidersGetControl registry := by
  intro name user_id hout
  rw [ExperimentRegistry.assign]
  cases hget : registry.experiments name with
  | none => exact isControl_default
  | some e =>
      obtain ⟨houtside, hcontrol⟩ := hout e hget
      exact (isControl_assign_iff houtside user_id).2 (h name e hget houtside hcontrol)

theorem allControlFirst_next {registry registry' : ExperimentRegistry} {a : Label}
    (h : AllControlFirst registry) (ha : RegistersControlFirst registry a)
    (hstep : next registry a = some registry') : AllControlFirst registry' := by
  intro name e hget
  cases a with
  | register e' =>
      obtain rfl := Option.some.inj hstep
      by_cases hname : name = e'.name
      · subst hname
        obtain rfl : e' = e := by simpa [ExperimentRegistry.register] using hget
        exact ha
      · exact h name e (by simpa [ExperimentRegistry.register, hname] using hget)
  | unregister name' =>
      obtain rfl := Option.some.inj hstep
      by_cases hname : name = name'
      · simp [ExperimentRegistry.unregister, hname] at hget
      · exact h name e (by simpa [ExperimentRegistry.unregister, hname] using hget)

theorem not_outsidersGetControl_next {registry registry' : ExperimentRegistry} {a : Label}
    (ha : ¬ RegistersControlFirst registry a) (hstep : next registry a = some registry') :
    ¬ OutsidersGetControl registry' := by
  cases a with
  | unregister name => exact absurd trivial ha
  | register e =>
      obtain rfl := Option.some.inj hstep
      simp only [RegistersControlFirst, Classical.not_imp] at ha
      obtain ⟨houtside, hcontrol, hfirst⟩ := ha
      have hget : (registry.register e).experiments e.name = some e := Function.update_self ..
      intro h
      have hassigned := h e.name "" (fun e' he' => by
        obtain rfl := Option.some.inj (hget.symm.trans he')
        exact ⟨houtside, hcontrol⟩)
      rw [ExperimentRegistry.assign, hget] at hassigned
      exact hfirst ((isControl_assign_iff houtside "").1 hassigned)

/-- Users outside an experiment with a control get one if and only if it comes first; and they get
one throughout a history of the registry if and only if each registration puts it first. -/
theorem outsiders_get_control_iff (e : Experiment) (user_id : String) (history : List Label) :
    (e.Outside → e.HasControl → (IsControl (e.assign user_id) ↔ e.ControlFirst)) ∧
      (system.Throughout OutsidersGetControl .new history ↔
        system.Along RegistersControlFirst .new history) := by
  constructor
  · exact fun hout _ => isControl_assign_iff hout user_id
  · obtain ⟨registry, hexec⟩ := system.exists_exec_of_total next_total .new history
    refine TransitionSystem.throughout_iff_along (I := AllControlFirst)
      (fun _ => outsidersGetControl_of_all) (fun _ _ _ => allControlFirst_next)
      (fun _ _ _ _ => not_outsidersGetControl_next) ?_ hexec
    intro name e hget
    cases hget

/-- A disabled experiment that lists its control last. -/
def treatmentFirst : Experiment :=
  (Experiment.new "checkout" [.treatment "new" 50, .control "old"]).disable

theorem treatmentFirst_assign : treatmentFirst.assign "user_1" = some (.treatment "new" 50) ∧
    treatmentFirst.HasControl ∧ ¬ IsControl (treatmentFirst.assign "user_1") ∧
      ¬ OutsidersGetControl (ExperimentRegistry.new.register treatmentFirst) := by
  have hcontrol : treatmentFirst.HasControl := .inr ⟨.control "old", by decide, rfl⟩
  have hassign : treatmentFirst.assign "user_1" = some (.treatment "new" 50) := by decide
  have hnot : ¬ IsControl (treatmentFirst.assign "user_1") := by
    rintro ⟨v, hv, hvcontrol⟩
    obtain rfl := Option.some.inj (hassign.symm.trans hv)
    cases hvcontrol
  refine ⟨hassign, hcontrol, hnot, fun h => hnot (h "checkout" "user_1" ?_)⟩
  intro e he
  obtain rfl := Option.some.inj he
  exact ⟨.inl rfl, hcontrol⟩

end Rszero.Experiments
