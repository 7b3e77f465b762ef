import Mathlib.Data.Nat.Notation
import Mathlib.Logic.Function.Basic

/-!
# First in, first out

A family of queues, one for each key. What was put into a queue is what was taken out of it,
followed by what still waits, as long as every value is put in at the end and taken from the front.
-/

namespace Rszero

abbrev FifoQueues (K V : Type*) := K → List V

namespace FifoQueues

variable {K V : Type*} [DecidableEq K] (q : FifoQueues K V) (k : K)

def empty : FifoQueues K V := fun _ => []

def enqueue (v : V) : FifoQueues K V := Function.update q k (q k ++ [v])

def dequeue : FifoQueues K V := Function.update q k (q k).tail

@[simp] theorem enqueue_self (v : V) : q.enqueue k v k = q k ++ [v] := Function.update_self ..

@[simp] theorem dequeue_self : q.dequeue k k = (q k).tail := Function.update_self ..

theorem enqueue_of_ne {k' : K} (h : k' ≠ k) (v : V) : q.enqueue k v k' = q k' :=
  Function.update_of_ne h ..

theorem dequeue_of_ne {k' : K} (h : k' ≠ k) : q.dequeue k k' = q k' := Function.update_of_ne h ..

theorem mem_enqueue {k' : K} {v v' : V} (h : v' ∈ q.enqueue k v k') :
    v' ∈ q k' ∨ k' = k ∧ v' = v := by
  by_cases hk : k' = k
  · subst hk
    rw [enqueue_self, List.mem_append, List.mem_singleton] at h
    exact h.imp_right (fun hv => ⟨rfl, hv⟩)
  · rw [enqueue_of_ne q k hk] at h
    exact .inl h

theorem mem_of_mem_dequeue {k' : K} {v : V} (h : v ∈ q.dequeue k k') : v ∈ q k' := by
  by_cases hk : k' = k
  · subst hk
    rw [dequeue_self] at h
    exact List.mem_of_mem_tail h
  · rw [dequeue_of_ne q k hk] at h
    exact h

structure History (K V : Type*) where
  pushed : K → List V
  pulled : K → List V

namespace History

variable (h : History K V)

def empty : History K V := ⟨fun _ => [], fun _ => []⟩

def push (v : V) : History K V :=
  { h with pushed := Function.update h.pushed k (h.pushed k ++ [v]) }

def pull (v : Option V) : History K V :=
  { h with pulled := Function.update h.pulled k (h.pulled k ++ v.toList) }

end History

def Tracks (q : FifoQueues K V) (h : History K V) : Prop := ∀ k, h.pulled k ++ q k = h.pushed k

variable {q : FifoQueues K V} {h : History K V} {k : K}

omit [DecidableEq K] in
theorem tracks_empty : Tracks (empty : FifoQueues K V) History.empty := fun _ => rfl

theorem Tracks.push (hq : Tracks q h) (v : V) : Tracks (q.enqueue k v) (h.push k v) := by
  intro k'
  by_cases hk : k' = k
  · subst hk
    simp [History.push, ← hq k']
  · rw [enqueue_of_ne q k hk]
    simp [History.push, hk, hq k']

theorem Tracks.pull (hq : Tracks q h) : Tracks (q.dequeue k) (h.pull k (q k).head?) := by
  intro k'
  by_cases hk : k' = k
  · subst hk
    have hpushed : (h.pull k' (q k').head?).pushed k' = h.pulled k' ++ q k' := (hq k').symm
    rw [hpushed]
    cases hqk : q k' <;> simp [History.pull, hqk]
  · rw [dequeue_of_ne q k hk]
    simp [History.pull, hk, hq k']

omit [DecidableEq K] in
theorem Tracks.pulled_prefix (hq : Tracks q h) (k : K) : h.pulled k <+: h.pushed k :=
  ⟨q k, hq k⟩

omit [DecidableEq K] in
theorem Tracks.length_waiting (hq : Tracks q h) (k : K) :
    (q k).length = (h.pushed k).length - (h.pulled k).length := by
  rw [← hq k, List.length_append]
  omega

omit [DecidableEq K] in
theorem Tracks.head?_eq_none_iff (hq : Tracks q h) (k : K) :
    (q k).head? = none ↔ (h.pushed k).length - (h.pulled k).length = 0 := by
  rw [← hq.length_waiting k, List.head?_eq_none_iff, List.length_eq_zero_iff]

end FifoQueues
end Rszero
