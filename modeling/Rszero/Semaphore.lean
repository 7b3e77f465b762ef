import Mathlib.Algebra.Order.Ring.Nat
import Mathlib.Data.Finset.Card

/-!
# Semaphores

What a semaphore promises to those that share it: a request is granted at once, or it waits while
all permits are out, and a permit that comes back goes to one that waits. Whom it goes to is left to
the semaphore; `fair` is the one that serves its requests in their order.
-/

namespace Rszero

/-- The requests are numbered. `acquire` takes a request, which from then on is `held` or
`awaited`, and `release` takes back the permit of a request that is held. -/
structure Semaphore where
  State : Type
  new : UInt64 → Option State
  acquire : State → ℕ → State
  release : State → ℕ → State
  permits : State → ℕ
  held : State → Finset ℕ
  awaited : State → Finset ℕ
  /-- `new` panics beyond `MAX_PERMITS`, which is `usize::MAX >> 3`. -/
  new_isSome_iff : ∀ permits, (new permits).isSome ↔ permits.toNat ≤ (2 ^ 64 - 1) / 2 ^ 3
  permits_new : ∀ {n s}, new n = some s → permits s = n.toNat
  idle_new : ∀ {n s}, new n = some s → held s ∪ awaited s = ∅
  permits_acquire : ∀ s i, permits (acquire s i) = permits s
  permits_release : ∀ s i, permits (release s i) = permits s
  card_held_le : ∀ s, (held s).card ≤ permits s
  le_card_held : ∀ {s}, (awaited s).Nonempty → permits s ≤ (held s).card
  acquire_requests : ∀ {s i}, i ∉ held s ∪ awaited s →
    held (acquire s i) ∪ awaited (acquire s i) = insert i (held s ∪ awaited s)
  held_acquire : ∀ {s i}, i ∉ held s ∪ awaited s → held s ⊆ held (acquire s i)
  release_requests : ∀ {s i}, i ∈ held s →
    held (release s i) ∪ awaited (release s i) = (held s ∪ awaited s).erase i
  held_release : ∀ {s i}, i ∈ held s → (held s).erase i ⊆ held (release s i)

namespace Semaphore

/-- Some permit is out while a request waits. -/
theorem exists_held (sem : Semaphore) {s : sem.State} (h : (sem.awaited s).Nonempty)
    (hpermits : sem.permits s ≠ 0) : ∃ i, i ∈ sem.held s := by
  have hcard := sem.le_card_held h
  exact Finset.card_pos.1 (by omega)

theorem held_eq_empty (sem : Semaphore) {s : sem.State} (hpermits : sem.permits s = 0) :
    sem.held s = ∅ := by
  have hcard := sem.card_held_le s
  exact Finset.card_eq_zero.1 (by omega)

structure FairState where
  permits : ℕ
  held : Finset ℕ
  queue : List ℕ
  card_le : held.card ≤ permits
  full : queue ≠ [] → permits ≤ held.card
  apart : ∀ i ∈ queue, i ∉ held
  nodup : queue.Nodup

namespace FairState

def new (permits : ℕ) : FairState :=
  ⟨permits, ∅, [], Nat.zero_le _, fun h => (h rfl).elim, nofun, .nil⟩

def acquire (s : FairState) (i : ℕ) : FairState :=
  if hi : i ∈ s.held ∨ i ∈ s.queue then s
  else if hfree : s.held.card < s.permits then
    { s with
      held := insert i s.held
      card_le := by
        rw [Finset.card_insert_of_notMem (fun h => hi (.inl h))]
        exact hfree
      full := fun hqueue => (Nat.not_lt.2 (s.full hqueue) hfree).elim
      apart := fun j hj hheld => by
        rcases Finset.mem_insert.1 hheld with rfl | hheld
        · exact hi (.inr hj)
        · exact s.apart j hj hheld }
  else
    { s with
      queue := s.queue ++ [i]
      full := fun _ => Nat.not_lt.1 hfree
      apart := fun j hj hheld => by
        rcases List.mem_append.1 hj with hj | hj
        · exact s.apart j hj hheld
        · exact hi (.inl (List.mem_singleton.1 hj ▸ hheld))
      nodup := List.nodup_append.2 ⟨s.nodup, List.nodup_singleton i, fun j hj k hk hjk =>
        hi (.inr (List.mem_singleton.1 hk ▸ hjk ▸ hj))⟩ }

def release (s : FairState) (i : ℕ) : FairState :=
  if hi : i ∈ s.held then
    match hqueue : s.queue with
    | [] =>
        { s with
          held := s.held.erase i
          queue := []
          card_le := (Finset.card_erase_le).trans s.card_le
          full := fun h => (h rfl).elim
          apart := nofun
          nodup := .nil }
    | j :: rest =>
        have hj : j ∉ s.held := s.apart j (hqueue ▸ List.mem_cons_self)
        have hcard : (insert j (s.held.erase i)).card = s.held.card := by
          rw [Finset.card_insert_of_notMem (fun h => hj (Finset.mem_of_mem_erase h)),
            Finset.card_erase_add_one hi]
        { s with
          held := insert j (s.held.erase i)
          queue := rest
          card_le := hcard ▸ s.card_le
          full := fun _ => hcard ▸ s.full (hqueue ▸ List.cons_ne_nil j rest)
          apart := fun k hk hheld => by
            have hnodup : (j :: rest).Nodup := hqueue ▸ s.nodup
            rcases Finset.mem_insert.1 hheld with rfl | hheld
            · exact (List.nodup_cons.1 hnodup).1 hk
            · exact s.apart k (hqueue ▸ List.mem_cons_of_mem j hk) (Finset.mem_of_mem_erase hheld)
          nodup := (List.nodup_cons.1 (hqueue ▸ s.nodup : (j :: rest).Nodup)).2 }
  else s

variable {s : FairState} {i : ℕ}

theorem permits_acquire (s : FairState) (i : ℕ) : (s.acquire i).permits = s.permits := by
  unfold acquire
  split_ifs <;> rfl

theorem permits_release (s : FairState) (i : ℕ) : (s.release i).permits = s.permits := by
  unfold release
  split_ifs
  · split <;> rfl
  · rfl

theorem acquire_cases (hi : i ∉ s.held ∪ s.queue.toFinset) :
    (s.acquire i).held = insert i s.held ∧ (s.acquire i).queue = s.queue ∨
      (s.acquire i).held = s.held ∧ (s.acquire i).queue = s.queue ++ [i] := by
  have hnew : ¬ (i ∈ s.held ∨ i ∈ s.queue) := fun h => by
    rcases h with h | h
    · exact hi (Finset.mem_union_left _ h)
    · exact hi (Finset.mem_union_right _ (List.mem_toFinset.2 h))
  unfold acquire
  rw [dif_neg hnew]
  split_ifs
  · exact .inl ⟨rfl, rfl⟩
  · exact .inr ⟨rfl, rfl⟩

theorem release_cases (hi : i ∈ s.held) :
    s.queue = [] ∧ (s.release i).held = s.held.erase i ∧ (s.release i).queue = [] ∨
      ∃ j, s.queue = j :: (s.release i).queue ∧
        (s.release i).held = insert j (s.held.erase i) := by
  unfold release
  rw [dif_pos hi]
  split
  · exact .inl ⟨‹_›, rfl, rfl⟩
  · exact .inr ⟨_, ‹_›, rfl⟩

theorem acquire_requests (hi : i ∉ s.held ∪ s.queue.toFinset) :
    (s.acquire i).held ∪ (s.acquire i).queue.toFinset =
      insert i (s.held ∪ s.queue.toFinset) := by
  rcases acquire_cases hi with ⟨hheld, hqueue⟩ | ⟨hheld, hqueue⟩
  · rw [hheld, hqueue, Finset.insert_union]
  · rw [hheld, hqueue, List.toFinset_append, List.toFinset_cons, List.toFinset_nil,
      Finset.insert_empty, ← Finset.union_assoc, Finset.union_comm _ {i}, Finset.insert_eq]

theorem held_acquire (hi : i ∉ s.held ∪ s.queue.toFinset) : s.held ⊆ (s.acquire i).held := by
  rcases acquire_cases hi with ⟨hheld, -⟩ | ⟨hheld, -⟩
  · rw [hheld]
    exact Finset.subset_insert i s.held
  · rw [hheld]

theorem release_requests (hi : i ∈ s.held) :
    (s.release i).held ∪ (s.release i).queue.toFinset =
      (s.held ∪ s.queue.toFinset).erase i := by
  have hqueued : i ∉ s.queue := fun h => s.apart i h hi
  have herase : (s.held ∪ s.queue.toFinset).erase i = s.held.erase i ∪ s.queue.toFinset := by
    rw [Finset.erase_union_distrib, Finset.erase_eq_of_notMem (mt List.mem_toFinset.1 hqueued)]
  rw [herase]
  rcases release_cases hi with ⟨hempty, hheld, hqueue⟩ | ⟨j, hqueue, hheld⟩
  · rw [hheld, hqueue, hempty]
  · rw [hheld, hqueue, List.toFinset_cons, Finset.insert_union, Finset.union_insert]

theorem held_release (hi : i ∈ s.held) : s.held.erase i ⊆ (s.release i).held := by
  rcases release_cases hi with ⟨-, hheld, -⟩ | ⟨j, -, hheld⟩
  · rw [hheld]
  · rw [hheld]
    exact Finset.subset_insert j _

end FairState

/-- Permits are given out in the order in which they were requested. -/
def fair : Semaphore where
  State := FairState
  new permits :=
    if permits.toNat ≤ (2 ^ 64 - 1) / 2 ^ 3 then some (.new permits.toNat) else none
  acquire := FairState.acquire
  release := FairState.release
  permits := FairState.permits
  held := FairState.held
  awaited s := s.queue.toFinset
  new_isSome_iff permits := by
    split_ifs with h
    · exact iff_of_true rfl h
    · exact iff_of_false nofun h
  permits_new h := by
    split_ifs at h
    exact Option.some.inj h ▸ rfl
  idle_new h := by
    split_ifs at h
    exact Option.some.inj h ▸ rfl
  permits_acquire := FairState.permits_acquire
  permits_release := FairState.permits_release
  card_held_le := FairState.card_le
  le_card_held {s} h := s.full (fun hempty => by simp [hempty] at h)
  acquire_requests := FairState.acquire_requests
  held_acquire := FairState.held_acquire
  release_requests := FairState.release_requests
  held_release := FairState.held_release

end Semaphore
end Rszero
