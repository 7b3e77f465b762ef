import Mathlib.Data.List.Pairwise
import Mathlib.Order.Lattice
import Mathlib.Tactic.Common

/-!
# An ordered key-value store with leases

The entries stand in the order of their keys, one for each key. A put replaces the entry of its key,
value and lease together; a lease that expires takes the keys that hang on it along. A read selects
entries by their keys and hands them out in order.
-/

namespace Rszero.LeasedStore

structure Entry (K V L : Type*) where
  key : K
  value : V
  lease : L

structure Store (K V L : Type*) [LT K] where
  entries : List (Entry K V L)
  ordered : entries.Pairwise (fun e e' => e.key < e'.key)

namespace Store

variable {K V L : Type*} [LinearOrder K]

def empty : Store K V L := ⟨[], .nil⟩

def filter (store : Store K V L) (p : Entry K V L → Bool) : Store K V L :=
  ⟨store.entries.filter p, store.ordered.filter p⟩

/-- The new entry stands between the smaller and the greater keys. -/
def put (store : Store K V L) (e : Entry K V L) : Store K V L where
  entries := store.entries.filter (fun e' => e'.key < e.key) ++
    e :: store.entries.filter (fun e' => e.key < e'.key)
  ordered := by
    rw [List.pairwise_append, List.pairwise_cons]
    refine ⟨store.ordered.filter _, ⟨?_, store.ordered.filter _⟩, ?_⟩
    · intro e' he'
      exact of_decide_eq_true (List.mem_filter.1 he').2
    · intro e₁ he₁ e₂ he₂
      have hlt : e₁.key < e.key := of_decide_eq_true (List.mem_filter.1 he₁).2
      rcases List.mem_cons.1 he₂ with rfl | hmem
      · exact hlt
      · exact hlt.trans (of_decide_eq_true (List.mem_filter.1 hmem).2)

def delete (store : Store K V L) (key : K) : Store K V L :=
  store.filter (fun e => e.key ≠ key)

def expire [DecidableEq L] (store : Store K V L) (lease : L) : Store K V L :=
  store.filter (fun e => e.lease ≠ lease)

def range (store : Store K V L) (p : K → Bool) : List (Entry K V L) :=
  store.entries.filter (fun e => p e.key)

variable {store : Store K V L} {e e' : Entry K V L} {key : K}

theorem mem_put : e' ∈ (store.put e).entries ↔ e' = e ∨ e' ∈ store.entries ∧ e'.key ≠ e.key := by
  simp only [put, List.mem_append, List.mem_cons, List.mem_filter, decide_eq_true_eq,
    ne_iff_lt_or_gt]
  constructor
  · rintro (⟨hmem, hlt⟩ | rfl | ⟨hmem, hlt⟩)
    · exact .inr ⟨hmem, .inl hlt⟩
    · exact .inl rfl
    · exact .inr ⟨hmem, .inr hlt⟩
  · rintro (rfl | ⟨hmem, hlt | hlt⟩)
    · exact .inr (.inl rfl)
    · exact .inl ⟨hmem, hlt⟩
    · exact .inr (.inr ⟨hmem, hlt⟩)

theorem mem_delete : e ∈ (store.delete key).entries ↔ e ∈ store.entries ∧ e.key ≠ key := by
  simp [delete, filter]

theorem mem_expire [DecidableEq L] {lease : L} :
    e ∈ (store.expire lease).entries ↔ e ∈ store.entries ∧ e.lease ≠ lease := by
  simp [expire, filter]

theorem mem_range {p : K → Bool} : e ∈ store.range p ↔ e ∈ store.entries ∧ p e.key := by
  simp [range]

theorem range_nodup_keys (store : Store K V L) (p : K → Bool) :
    ((store.range p).map Entry.key).Nodup := by
  refine List.Pairwise.map _ ?_ (store.ordered.filter _)
  intro e₁ e₂ hlt
  exact hlt.ne

end Store
end Rszero.LeasedStore
