import Mathlib.Data.List.Basic
import Mathlib.Tactic.Common

/-!
# Receiving from a bounded broadcast channel

A channel keeps the values that were sent on it. A receiver has an index into them, which is their
number when it subscribes, so that it sees what is sent afterwards only. A receiver that falls back
by more than the capacity has lost values; one that has seen everything waits, unless no sender is
left. A receiver that subscribed before the only value of a channel gets it, and one that
subscribed after it waits for the senders to go.
-/

namespace Rszero.BroadcastChannel

inductive Received (α : Type*)
  | value (a : α)
  | lagged
  | closed
  | pending

variable {α : Type*} {capacity next : ℕ} {sent : List α} {alive : Bool}

/-- The state of `recv` at the index `next`, when `alive` tells whether there is a sender. -/
def recv (capacity : ℕ) (sent : List α) (alive : Bool) (next : ℕ) : Received α :=
  if capacity < sent.length - next then .lagged
  else match sent[next]? with
    | some a => .value a
    | none => if alive then .pending else .closed

def subscribe (sent : List α) : ℕ := sent.length

theorem getElem?_subscribe (sent : List α) : sent[subscribe sent]? = none :=
  List.getElem?_eq_none (Nat.le_refl _)

/-- What `recv` comes to. -/
theorem recv_cases (capacity : ℕ) (sent : List α) (alive : Bool) (next : ℕ) :
    capacity < sent.length - next ∧ recv capacity sent alive next = .lagged ∨
      (∃ a, sent[next]? = some a ∧ recv capacity sent alive next = .value a) ∨
      sent.length ≤ next ∧ recv capacity sent alive next = if alive then .pending else .closed := by
  unfold recv
  by_cases hlag : capacity < sent.length - next
  · exact .inl ⟨hlag, if_pos hlag⟩
  · rw [if_neg hlag]
    cases hs : sent[next]? with
    | some a => exact .inr (.inl ⟨a, rfl, rfl⟩)
    | none => exact .inr (.inr ⟨List.getElem?_eq_none_iff.1 hs, rfl⟩)

theorem recv_ne_lagged (h : sent.length ≤ capacity) : recv capacity sent alive next ≠ .lagged := by
  rcases recv_cases capacity sent alive next with ⟨hlag, -⟩ | ⟨a, -, hrecv⟩ | ⟨-, hrecv⟩
  · omega
  · simp [hrecv]
  · rw [hrecv]
    cases alive <;> simp

theorem getElem?_of_recv_eq_value {a : α} (h : recv capacity sent alive next = .value a) :
    sent[next]? = some a := by
  rcases recv_cases capacity sent alive next with ⟨-, hrecv⟩ | ⟨b, hb, hrecv⟩ | ⟨-, hrecv⟩
  · cases hrecv.symm.trans h
  · rw [hb, Received.value.inj (hrecv.symm.trans h)]
  · cases alive <;> cases hrecv.symm.trans h

theorem alive_of_recv_eq_closed (h : recv capacity sent alive next = .closed) :
    alive = false := by
  rcases recv_cases capacity sent alive next with ⟨-, hrecv⟩ | ⟨b, -, hrecv⟩ | ⟨-, hrecv⟩
  · cases hrecv.symm.trans h
  · cases hrecv.symm.trans h
  · cases alive with
    | false => rfl
    | true => cases hrecv.symm.trans h

theorem length_le_of_recv_eq_pending (h : recv capacity sent alive next = .pending) :
    sent.length ≤ next := by
  rcases recv_cases capacity sent alive next with ⟨-, hrecv⟩ | ⟨b, -, hrecv⟩ | ⟨hle, -⟩
  · cases hrecv.symm.trans h
  · cases hrecv.symm.trans h
  · exact hle

theorem recv_eq_pending_iff (h : sent.length ≤ capacity) :
    recv capacity sent alive next = .pending ↔ sent.length ≤ next ∧ alive := by
  unfold recv
  rw [if_neg (by omega)]
  by_cases hn : sent.length ≤ next
  · rw [List.getElem?_eq_none hn]
    cases alive <;> simp [hn]
  · rw [List.getElem?_eq_getElem (by omega)]
    simp [hn]

end Rszero.BroadcastChannel
