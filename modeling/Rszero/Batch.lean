import Mathlib.Data.List.Induction
import Mathlib.Tactic.Common
import Rszero.Duration

/-!
# Chunks

`chunk_vec` as a fold over the items. The length that stands for no chunk yet is the size and one,
computed for each item: with overflow checks the sum panics when the size is the greatest one, and
without them it is zero and the chunk that is then asked for is not there.
-/

namespace Rszero.Batch

variable {T : Type}

/-- Whether a build checks for overflow. -/
inductive OverflowChecks
  | on
  | off

def OverflowChecks.add (checks : OverflowChecks) (a b : UInt64) : Option UInt64 :=
  match checks with
  | .on => Time.addU64 a b
  | .off => some (a + b)

/-- `acc.last_mut().unwrap().push(item)` -/
def pushLast (acc : List (List T)) (item : T) : Option (List (List T)) :=
  acc.getLast?.map (fun last => acc.dropLast ++ [last ++ [item]])

def chunkStep (checks : OverflowChecks) (chunk_size : UInt64) (acc : List (List T)) (item : T) :
    Option (List (List T)) := do
  let none_yet ← checks.add chunk_size 1
  if (acc.getLast?.map List.length).getD none_yet.toNat ≥ chunk_size.toNat then
    pushLast (acc ++ [[]]) item
  else pushLast acc item

/-- `none` is a panic. -/
def chunkVec (checks : OverflowChecks) (items : List T) (chunk_size : UInt64) :
    Option (List (List T)) :=
  items.foldlM (chunkStep checks (max chunk_size 1)) []

/-- The items in chunks of `size`, of which the last may be shorter, but not empty. -/
structure Partitions (items : List T) (size : ℕ) (chunks : List (List T)) : Prop where
  flatten : chunks.flatten = items
  nonempty : ∀ c ∈ chunks, c ≠ []
  full : ∀ c ∈ chunks.dropLast, c.length = size
  last : ∀ c, chunks.getLast? = some c → c.length ≤ size

section Step

variable {checks : OverflowChecks} {items : List T} {chunk_size : UInt64} {chunks : List (List T)}
  {size : ℕ}

theorem pushLast_append (init : List (List T)) (last : List T) (item : T) :
    pushLast (init ++ [last]) item = some (init ++ [last ++ [item]]) := by
  simp [pushLast]

theorem Partitions.nil (size : ℕ) : Partitions ([] : List T) size [] :=
  ⟨rfl, nofun, nofun, nofun⟩

theorem Partitions.pushNew (h : Partitions items size chunks)
    (hlast : ∀ c, chunks.getLast? = some c → c.length = size) (hsize : 1 ≤ size) (item : T) :
    Partitions (items ++ [item]) size (chunks ++ [[item]]) where
  flatten := by rw [List.flatten_append, h.flatten]; rfl
  nonempty := by
    intro c hc
    rcases List.mem_append.1 hc with hc | hc
    · exact h.nonempty c hc
    · exact List.mem_singleton.1 hc ▸ List.cons_ne_nil item []
  full := by
    intro c hc
    rw [List.dropLast_concat] at hc
    -- the last chunk so far is full, as are those before it
    cases chunks using List.reverseRecOn with
    | nil => cases hc
    | append_singleton init last _ =>
        rcases List.mem_append.1 hc with hc | hc
        · exact h.full c (by rwa [List.dropLast_concat])
        · exact hlast c (by rw [List.mem_singleton.1 hc, List.getLast?_concat])
  last := by
    intro c hc
    rw [List.getLast?_concat] at hc
    rw [← Option.some.inj hc]
    exact hsize

theorem Partitions.pushOnto {init : List (List T)} {last : List T}
    (h : Partitions items size (init ++ [last])) (hroom : last.length < size) (item : T) :
    Partitions (items ++ [item]) size (init ++ [last ++ [item]]) where
  flatten := by rw [← h.flatten]; simp
  nonempty := by
    intro c hc
    rcases List.mem_append.1 hc with hc | hc
    · exact h.nonempty c (List.mem_append_left _ hc)
    · rw [List.mem_singleton.1 hc]
      simp
  full := by
    intro c hc
    rw [List.dropLast_concat] at hc
    exact h.full c (by rwa [List.dropLast_concat])
  last := by
    intro c hc
    rw [List.getLast?_concat] at hc
    rw [← Option.some.inj hc, List.length_append, List.length_singleton]
    exact hroom

/-- One more item opens a chunk or goes to the last one. -/
theorem chunkStep_partitions (h : Partitions items chunk_size.toNat chunks)
    (hsize : 1 ≤ chunk_size.toNat) (hfit : chunk_size.toNat + 1 < 2 ^ 64) (item : T) :
    ∃ chunks', chunkStep checks chunk_size chunks item = some chunks' ∧
      Partitions (items ++ [item]) chunk_size.toNat chunks' := by
  have hnone : checks.add chunk_size 1 = some (chunk_size + 1) := by
    cases checks with
    | on => exact if_pos hfit
    | off => rfl
  have hval : (chunk_size + 1).toNat = chunk_size.toNat + 1 := by
    rw [UInt64.toNat_add, UInt64.toNat_one, Nat.mod_eq_of_lt hfit]
  have hstep : chunkStep checks chunk_size chunks item =
      if (chunks.getLast?.map List.length).getD (chunk_size.toNat + 1) ≥ chunk_size.toNat then
        pushLast (chunks ++ [[]]) item
      else pushLast chunks item := by
    rw [chunkStep, hnone, ← hval]
    rfl
  rw [hstep]
  cases chunks using List.reverseRecOn with
  | nil =>
      refine ⟨[[item]], ?_, h.pushNew nofun hsize item⟩
      rw [List.getLast?_nil, Option.map_none, Option.getD_none, if_pos (Nat.le_succ _),
        pushLast_append, List.nil_append, List.nil_append]
  | append_singleton init last _ =>
      have hle := h.last last List.getLast?_concat
      rw [List.getLast?_concat, Option.map_some, Option.getD_some]
      split_ifs with hfull
      · refine ⟨_, pushLast_append _ _ item, h.pushNew (fun c hc => ?_) hsize item⟩
        rw [List.getLast?_concat] at hc
        rw [← Option.some.inj hc]
        omega
      · exact ⟨_, pushLast_append init last item, h.pushOnto (by omega) item⟩

theorem foldlM_partitions (hsize : 1 ≤ chunk_size.toNat) (hfit : chunk_size.toNat + 1 < 2 ^ 64)
    (items : List T) :
    ∃ chunks, items.foldlM (chunkStep checks chunk_size) [] = some chunks ∧
      Partitions items chunk_size.toNat chunks := by
  induction items using List.reverseRecOn with
  | nil => exact ⟨[], rfl, .nil _⟩
  | append_singleton items item ih =>
      obtain ⟨chunks, hchunks, hpart⟩ := ih
      obtain ⟨chunks', hstep, hpart'⟩ := chunkStep_partitions hpart hsize hfit item
      refine ⟨chunks', ?_, hpart'⟩
      rw [List.foldlM_append, hchunks]
      simpa using hstep

/-- No build gets past the first item when the size is the greatest one. -/
theorem chunkStep_greatest (checks : OverflowChecks) (item : T) :
    chunkStep checks 0xffffffffffffffff [] item = none := by
  cases checks <;> rfl

theorem max_toNat (a b : UInt64) : (max a b).toNat = max a.toNat b.toNat := by
  change (if a ≤ b then b else a).toNat = max a.toNat b.toNat
  have hle : a ≤ b ↔ a.toNat ≤ b.toNat := UInt64.le_iff_toNat_le
  by_cases h : a ≤ b
  · rw [if_pos h, Nat.max_eq_right (hle.1 h)]
  · rw [if_neg h, Nat.max_eq_left (Nat.le_of_lt (Nat.lt_of_not_le (mt hle.2 h)))]

end Step

/-- In every build, `chunk_vec` partitions the items if and only if there are none or the size is
not the greatest one. -/
theorem chunkVec_partitions_iff (checks : OverflowChecks) (items : List T) (chunk_size : UInt64) :
    (∃ chunks, chunkVec checks items chunk_size = some chunks ∧
        Partitions items (max chunk_size.toNat 1) chunks) ↔
      items = [] ∨ chunk_size ≠ 0xffffffffffffffff := by
  have hmax : (max chunk_size 1).toNat = max chunk_size.toNat 1 := max_toNat chunk_size 1
  constructor
  · rintro ⟨chunks, hrun, -⟩
    by_contra hne
    obtain ⟨hitems, rfl⟩ := (not_or.1 hne).imp_right not_not.1
    cases items with
    | nil => exact hitems rfl
    | cons item items =>
        have hgreatest : max 0xffffffffffffffff 1 = (0xffffffffffffffff : UInt64) := rfl
        rw [chunkVec, hgreatest, List.foldlM_cons, chunkStep_greatest] at hrun
        cases hrun
  · intro hholds
    rw [← hmax]
    rcases hholds with rfl | hsize
    · exact ⟨[], rfl, .nil _⟩
    · have hlt : chunk_size.toNat < 2 ^ 64 := chunk_size.toNat_lt
      have hne : chunk_size.toNat ≠ 2 ^ 64 - 1 := fun h => hsize (UInt64.toNat_inj.1 h)
      exact foldlM_partitions (by omega) (by omega) items

/-- One item and the greatest size, for everything in one chunk, is a panic in either build. -/
theorem not_chunkVec_partitions :
    ¬ (∀ (items : List ℕ) (chunk_size : UInt64), ∃ chunks,
        chunkVec .on items chunk_size = some chunks ∧
          Partitions items (max chunk_size.toNat 1) chunks) ∧
      ¬ (∀ (items : List ℕ) (chunk_size : UInt64), ∃ chunks,
        chunkVec .off items chunk_size = some chunks ∧
          Partitions items (max chunk_size.toNat 1) chunks) := by
  constructor
  · intro h
    obtain ⟨chunks, hrun, -⟩ := h [1] 0xffffffffffffffff
    cases hrun
  · intro h
    obtain ⟨chunks, hrun, -⟩ := h [1] 0xffffffffffffffff
    cases hrun

end Rszero.Batch
