import Mathlib.Data.List.Basic
import Mathlib.Tactic.Common

/-!
# Association lists

What is found under a key when the entries of another key are taken out, and when every key has one
entry.
-/

namespace Rszero.AssocList

variable {K V : Type} [DecidableEq K] {l : List (K × V)} {key key' : K} {value : V}

theorem lookup_filter_ne (key : K) (l : List (K × V)) :
    (l.filter (fun e => e.1 ≠ key)).lookup key = none := by
  rw [List.lookup_eq_none_iff]
  intro e he
  have hne : e.1 ≠ key := of_decide_eq_true (List.mem_filter.1 he).2
  exact bne_iff_ne.2 hne.symm

theorem lookup_filter_of_ne (hne : key' ≠ key) (l : List (K × V)) :
    (l.filter (fun e => e.1 ≠ key)).lookup key' = l.lookup key' := by
  induction l with
  | nil => rfl
  | cons e l ih =>
      obtain ⟨key'', value⟩ := e
      by_cases he : key'' = key
      · have hbeq : (key' == key'') = false := beq_false_of_ne (he ▸ hne)
        rw [List.filter_cons_of_neg (by simp [he]), List.lookup_cons, hbeq]
        exact ih
      · rw [List.filter_cons_of_pos (by simp [he]), List.lookup_cons, List.lookup_cons]
        cases key' == key'' with
        | true => rfl
        | false => exact ih

theorem mem_of_lookup (h : l.lookup key = some value) : (key, value) ∈ l := by
  obtain ⟨before, after, rfl, -⟩ := List.lookup_eq_some_iff.1 h
  exact List.mem_append_right _ List.mem_cons_self

theorem lookup_eq_some_iff (h : (l.map Prod.fst).Nodup) :
    l.lookup key = some value ↔ (key, value) ∈ l := by
  rw [List.lookup_eq_some_iff]
  constructor
  · rintro ⟨before, after, rfl, -⟩
    exact List.mem_append_right _ List.mem_cons_self
  · intro hmem
    obtain ⟨before, after, rfl⟩ := List.append_of_mem hmem
    refine ⟨before, after, rfl, fun e he => bne_iff_ne.2 ?_⟩
    rw [List.map_append, List.nodup_append] at h
    exact (h.2.2 _ (List.mem_map_of_mem he) _ List.mem_cons_self).symm

end Rszero.AssocList
