import Mathlib.Algebra.Order.Ring.Nat
import Mathlib.Logic.Function.Basic
import Rszero.Fnv1a

/-!
# Experiments

`Experiment::assign` and the registry of experiments. A reference to a variant is its position in
the list, so that variants with equal ids stay apart, and `Exit` says which `return` it comes from.
A sum of weights that does not fit into 32 bits overflows, and the exit is `none` then. The lock of
the registry makes each of its calls one step.
-/

namespace Rszero.Experiments

structure Variant where
  id : String
  weight : UInt8
  is_control : Bool
  metadata : List (String × String)
  deriving DecidableEq

namespace Variant

def control (id : String) : Variant := ⟨id, 50, true, []⟩

def treatment (id : String) (weight : UInt8) : Variant :=
  ⟨id, if weight ≤ 100 then weight else 100, false, []⟩

def withMetadata (v : Variant) (key value : String) : Variant :=
  { v with metadata := (key, value) :: v.metadata.filter (fun e => e.1 ≠ key) }

end Variant

structure Experiment where
  name : String
  variants : List Variant
  enabled : Bool

/-- The returns of `Experiment::assign`, in their order. -/
inductive Exit
  | noVariants
  | disabled
  | noWeight
  | selected (i : ℕ)
  | fallThrough
  deriving DecidableEq

def checkedAdd (a b : UInt32) : Option UInt32 :=
  if a.toNat + b.toNat < 2 ^ 32 then some (a + b) else none

namespace Experiment

def new (name : String) (variants : List Variant) : Experiment := ⟨name, variants, true⟩

def disable (e : Experiment) : Experiment := { e with enabled := false }

def userHash (e : Experiment) (user_id : String) : UInt32 :=
  fnv1a32 (asBytes s!"{e.name}:{user_id}")

def totalWeight (e : Experiment) : Option UInt32 :=
  e.variants.foldlM (fun sum v => checkedAdd sum v.weight.toUInt32) 0

/-- The loop over the variants from the one with index `i` on. -/
def selectFrom (slot cumulative : UInt32) (i : ℕ) : List Variant → Option Exit
  | [] => some .fallThrough
  | v :: vs => do
      let cumulative ← checkedAdd cumulative v.weight.toUInt32
      if slot < cumulative then return .selected i
      selectFrom slot cumulative (i + 1) vs

/-- Where `assign` returns for a user with this hash. -/
def exitFor (e : Experiment) (hash : UInt32) : Option Exit :=
  if e.variants.isEmpty then some .noVariants
  else if !e.enabled then some .disabled
  else do
    let total_weight ← e.totalWeight
    if total_weight = 0 then return .noWeight
    selectFrom (hash % total_weight) 0 0 e.variants

/-- The position of the variant that is returned, unless it is `CONTROL_FALLBACK`. -/
def position (e : Experiment) : Exit → Option ℕ
  | .noVariants => none
  | .disabled | .noWeight => some 0
  | .selected i => some i
  | .fallThrough => some (e.variants.length - 1)

def variantOf (e : Experiment) (exit : Exit) : Option Variant :=
  match e.position exit with
  | none => some (Variant.control "default")
  | some i => e.variants[i]?

def assign (e : Experiment) (user_id : String) : Option Variant :=
  (e.exitFor (e.userHash user_id)).bind e.variantOf

end Experiment

structure ExperimentRegistry where
  experiments : String → Option Experiment

namespace ExperimentRegistry

def new : ExperimentRegistry := ⟨fun _ => none⟩

def register (registry : ExperimentRegistry) (experiment : Experiment) : ExperimentRegistry :=
  ⟨Function.update registry.experiments experiment.name (some experiment)⟩

def unregister (registry : ExperimentRegistry) (name : String) : ExperimentRegistry :=
  ⟨Function.update registry.experiments name none⟩

def assign (registry : ExperimentRegistry) (experiment_name user_id : String) : Option Variant :=
  match registry.experiments experiment_name with
  | some exp => exp.assign user_id
  | none => some (Variant.control "default")

end ExperimentRegistry

/-- `test_experiment_disabled` -/
example : ((Experiment.new "test" [.control "a"]).disable.assign "user_123").map Variant.id =
    some "a" := by decide

end Rszero.Experiments
