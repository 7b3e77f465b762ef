import Mathlib.Data.Nat.Notation
import Mathlib.Tactic.Common

/-!
# A bounded channel

A sender that does not wait is refused when the channel is full; the receiver takes the values in
the order in which they were sent.
-/

namespace Rszero

structure BoundedChannel (α : Type*) (capacity : ℕ) where
  queue : List α
  bounded : queue.length ≤ capacity

namespace BoundedChannel

variable {α : Type*} {capacity : ℕ} (channel : BoundedChannel α capacity)

def empty : BoundedChannel α capacity := ⟨[], Nat.zero_le _⟩

def trySend (a : α) : Option (BoundedChannel α capacity) :=
  if h : channel.queue.length < capacity then
    some ⟨channel.queue ++ [a], by simpa [Nat.succ_le_iff] using h⟩
  else none

def recv : Option (α × BoundedChannel α capacity) :=
  channel.queue.head?.map (fun a => (a, ⟨channel.queue.tail, by
    have hbounded := channel.bounded
    rw [List.length_tail]
    omega⟩))

variable {channel}

theorem trySend_eq_some {a : α} {channel' : BoundedChannel α capacity}
    (h : channel.trySend a = some channel') : channel'.queue = channel.queue ++ [a] := by
  unfold trySend at h
  split_ifs at h
  exact Option.some.inj h ▸ rfl

theorem trySend_isSome_iff {a : α} :
    (channel.trySend a).isSome ↔ channel.queue.length < capacity := by
  unfold trySend
  split_ifs with h <;> simp [h]

theorem trySend_eq_none {a : α} (h : ¬ channel.queue.length < capacity) :
    channel.trySend a = none :=
  dif_neg h

theorem recv_eq_some {a : α} {channel' : BoundedChannel α capacity}
    (h : channel.recv = some (a, channel')) : channel.queue = a :: channel'.queue := by
  obtain ⟨b, hb, hchannel⟩ := Option.map_eq_some_iff.1 h
  cases hchannel
  obtain ⟨rest, hrest⟩ := List.head?_eq_some_iff.1 hb
  simp [hrest]

end BoundedChannel
end Rszero
