import Mathlib.Logic.Function.Basic
import Mathlib.Tactic.Common

/-!
# Writes to a map

What a map holds after a list of writes: under a key that no write has, what it held before, and
under another the value of the last write.
-/

namespace Rszero.Writes

variable {A K V : Type} [DecidableEq K] {key : A → K} {val : A → V} {l : List A} {m : K → V} {k : K}
  {v : V} {x y : A}

def writeAll (key : A → K) (val : A → V) (l : List A) (m : K → V) : K → V :=
  l.foldl (fun m x => Function.update m (key x) (val x)) m

theorem writeAll_cons :
    writeAll key val (x :: l) m = writeAll key val l (Function.update m (key x) (val x)) := rfl

theorem writeAll_of_notMem (h : ∀ x ∈ l, key x ≠ k) : writeAll key val l m k = m k := by
  induction l generalizing m with
  | nil => rfl
  | cons x l ih =>
      rw [List.forall_mem_cons] at h
      rw [writeAll_cons, ih h.2, Function.update_of_ne (Ne.symm h.1)]

/-- Writes to a key that agree leave what they agree on. -/
theorem writeAll_of_agree (hagree : ∀ x ∈ l, key x = k → val x = v) (hmem : ∃ x ∈ l, key x = k) :
    writeAll key val l m k = v := by
  induction l generalizing m with
  | nil => simp at hmem
  | cons x l ih =>
      rw [List.forall_mem_cons] at hagree
      rw [writeAll_cons]
      by_cases hrest : ∃ y ∈ l, key y = k
      · exact ih hagree.2 hrest
      · have hkey : key x = k := by
          obtain ⟨y, hy, hkey⟩ := hmem
          rcases List.mem_cons.1 hy with rfl | hy
          · exact hkey
          · exact absurd ⟨y, hy, hkey⟩ hrest
        rw [writeAll_of_notMem (fun y hy heq => hrest ⟨y, hy, heq⟩), ← hkey, Function.update_self,
          hagree.1 hkey]

/-- Every write is found again exactly when those to one key have one value. -/
theorem forall_writeAll_iff (key : A → K) (val : A → V) (l : List A) (m : K → V) :
    (∀ x ∈ l, writeAll key val l m (key x) = val x) ↔
      ∀ x ∈ l, ∀ y ∈ l, key x = key y → val x = val y := by
  constructor
  · intro h x hx y hy hkey
    rw [← h x hx, hkey, h y hy]
  · exact fun h x hx => writeAll_of_agree (fun y hy hkey => h y hy x hx hkey) ⟨x, hx, rfl⟩

/-- What a map held is kept when no write to its key has another value. -/
theorem writeAll_of_same (h : ∀ x ∈ l, key x = k → val x = m k) : writeAll key val l m k = m k := by
  by_cases hmem : ∃ x ∈ l, key x = k
  · exact writeAll_of_agree h hmem
  · exact writeAll_of_notMem (fun x hx heq => hmem ⟨x, hx, heq⟩)

end Rszero.Writes
