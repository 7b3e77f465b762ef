import Mathlib.Data.List.Induction
import Mathlib.Data.List.Nodup
import Mathlib.Data.List.Perm.Subperm
import Mathlib.Data.Nat.Notation

/-!
# Even rotations

A sequence of choices among the numbers below `n` is cut into blocks of `n` choices. After every
prefix the choices are level, no number having been chosen more than once more often than another,
if and only if no number is chosen twice in a block.
-/

namespace Rszero.EvenRotation

variable {n x : ℕ} {l : List ℕ}

/-- No number has been chosen more than once more often than another. -/
def Level (n : ℕ) (l : List ℕ) : Prop := ∀ a < n, ∀ b < n, l.count a ≤ l.count b + 1

def BlocksDistinct (n : ℕ) (l : List ℕ) : Prop :=
  ∀ i j, ∀ hij : i < j, ∀ hj : j < l.length, i / n = j / n → l[i] ≠ l[j]

def openBlock (n : ℕ) (l : List ℕ) : List ℕ := l.drop (l.length / n * n)

theorem length_openBlock (n : ℕ) (l : List ℕ) : (openBlock n l).length = l.length % n := by
  have hdiv := Nat.div_add_mod l.length n
  rw [Nat.mul_comm] at hdiv
  rw [openBlock, List.length_drop]
  omega

theorem openBlock_subset (n : ℕ) (l : List ℕ) : openBlock n l ⊆ l := List.drop_subset ..

/-- A full block closes, any other one grows. -/
theorem openBlock_concat (n : ℕ) (l : List ℕ) (x : ℕ) :
    (n ∣ l.length + 1 ∧ openBlock n (l ++ [x]) = [] ∧ (l.length + 1) / n = l.length / n + 1) ∨
      (¬ n ∣ l.length + 1 ∧ openBlock n (l ++ [x]) = openBlock n l ++ [x] ∧
        (l.length + 1) / n = l.length / n) := by
  have hlength : (l ++ [x]).length = l.length + 1 := by simp
  by_cases hdvd : n ∣ l.length + 1
  · refine .inl ⟨hdvd, ?_, by rw [Nat.succ_div, if_pos hdvd]⟩
    rw [openBlock, hlength, Nat.div_mul_cancel hdvd, ← hlength, List.drop_length]
  · have hdiv : (l.length + 1) / n = l.length / n := by rw [Nat.succ_div, if_neg hdvd, Nat.add_zero]
    refine .inr ⟨hdvd, ?_, hdiv⟩
    rw [openBlock, hlength, hdiv, List.drop_append_of_le_length (Nat.div_mul_le_self ..)]
    rfl

/-- Every closed block has every number once. -/
structure Rotating (n : ℕ) (l : List ℕ) : Prop where
  count : ∀ a < n, l.count a = l.length / n + (openBlock n l).count a
  nodup : (openBlock n l).Nodup
  bounded : ∀ a ∈ l, a < n

theorem rotating_nil (n : ℕ) : Rotating n [] where
  count := by simp [openBlock]
  nodup := by simp [openBlock]
  bounded := by simp

/-- As many different numbers below `n` as there are, are all of them. -/
theorem mem_of_full {block : List ℕ} (hnodup : block.Nodup) (hb : ∀ a ∈ block, a < n)
    (hlength : n ≤ block.length) {a : ℕ} (ha : a < n) : a ∈ block := by
  have hsub : block ⊆ List.range n := fun b hmem => List.mem_range.2 (hb b hmem)
  have hperm := (hnodup.subperm hsub).perm_of_length_le (by simpa using hlength)
  exact hperm.mem_iff.2 (List.mem_range.2 ha)

theorem Rotating.concat (h : Rotating n l) (hx : x < n)
    (hfresh : x ∉ openBlock n l) : Rotating n (l ++ [x]) := by
  have hnodup : (openBlock n l ++ [x]).Nodup :=
    List.nodup_append.2 ⟨h.nodup, List.nodup_singleton x, by
      intro a ha b hb
      rw [List.mem_singleton.1 hb]
      exact fun hax => hfresh (hax ▸ ha)⟩
  have hbounded : ∀ a ∈ l ++ [x], a < n := by
    intro a ha
    rcases List.mem_append.1 ha with hmem | hmem
    · exact h.bounded a hmem
    · exact List.mem_singleton.1 hmem ▸ hx
  have hcount (a : ℕ) (ha : a < n) :
      (l ++ [x]).count a = l.length / n + (openBlock n l ++ [x]).count a := by
    rw [List.count_append, List.count_append, h.count a ha, Nat.add_assoc]
  have hlength : (l ++ [x]).length = l.length + 1 := by simp
  rcases openBlock_concat n l x with ⟨hdvd, hblock, hdiv⟩ | ⟨-, hblock, hdiv⟩
  · refine ⟨fun a ha => ?_, by simp [hblock], hbounded⟩
    have hfull : n ≤ (openBlock n l ++ [x]).length := by
      have hle := Nat.mod_le l.length n
      have hsplit : l.length - l.length % n + (l.length % n + 1) = l.length + 1 := by omega
      rw [← hsplit, ← Nat.dvd_add_iff_right (Nat.dvd_sub_mod l.length)] at hdvd
      rw [List.length_append, length_openBlock, List.length_singleton]
      exact Nat.le_of_dvd (Nat.succ_pos _) hdvd
    have hmem : a ∈ openBlock n l ++ [x] := by
      refine mem_of_full hnodup (fun b hb => hbounded b ?_) hfull ha
      rcases List.mem_append.1 hb with hb | hb
      · exact List.mem_append_left _ (openBlock_subset n l hb)
      · exact List.mem_append_right _ hb
    rw [hcount a ha, hlength, hdiv, hblock, List.count_eq_one_of_mem hnodup hmem]
    rfl
  · refine ⟨fun a ha => ?_, by rwa [hblock], hbounded⟩
    rw [hcount a ha, hlength, hdiv, hblock]

theorem Rotating.level (h : Rotating n l) : Level n l := by
  intro a ha b hb
  have hone : (openBlock n l).count a ≤ 1 := List.nodup_iff_count_le_one.1 h.nodup a
  rw [h.count a ha, h.count b hb]
  omega

/-- A number that is chosen twice in a block is ahead of one that is not in the block. -/
theorem Rotating.not_level_concat (hn : 0 < n) (h : Rotating n l) (hx : x < n)
    (hmem : x ∈ openBlock n l) : ¬ Level n (l ++ [x]) := by
  intro hlevel
  obtain ⟨b, hb, hmissing⟩ : ∃ b < n, b ∉ openBlock n l := by
    by_contra hall
    push Not at hall
    have hsub : List.range n ⊆ openBlock n l := fun b hb => hall b (List.mem_range.1 hb)
    have hle := (List.nodup_range.subperm hsub).length_le
    have hlt := Nat.mod_lt l.length hn
    rw [List.length_range, length_openBlock] at hle
    omega
  have hne : x ≠ b := fun hxb => hmissing (hxb ▸ hmem)
  have hahead := hlevel x hx b hb
  rw [List.count_append, List.count_append, List.count_singleton_self,
    List.count_singleton, h.count x hx, h.count b hb, List.count_eq_one_of_mem h.nodup hmem,
    List.count_eq_zero_of_not_mem hmissing] at hahead
  simp only [beq_iff_eq, hne, if_false] at hahead
  omega

theorem div_eq_div_iff {i j : ℕ} (hn : 0 < n) (hij : i < j) : i / n = j / n ↔ j / n * n ≤ i := by
  rw [← Nat.le_div_iff_mul_le hn]
  have hle : i / n ≤ j / n := Nat.div_le_div_right (Nat.le_of_lt hij)
  omega

/-- The open block before a choice has the earlier choices of the block. -/
theorem mem_openBlock_take (hn : 0 < n) {j : ℕ} (hj : j ≤ l.length) :
    x ∈ openBlock n (l.take j) ↔ ∃ i, i < j ∧ i / n = j / n ∧ l[i]? = some x := by
  rw [openBlock, List.length_take, Nat.min_eq_left hj, List.mem_iff_getElem?]
  simp only [List.getElem?_drop, List.getElem?_take]
  constructor
  · rintro ⟨k, hk⟩
    split_ifs at hk with hlt
    exact ⟨_, hlt, (div_eq_div_iff hn hlt).2 (Nat.le_add_right ..), hk⟩
  · rintro ⟨i, hij, hblock, hi⟩
    have hle := (div_eq_div_iff hn hij).1 hblock
    refine ⟨i - j / n * n, ?_⟩
    rw [Nat.add_sub_cancel' hle, if_pos hij, hi]

/-- No prefix is followed by a choice that its open block has. -/
def Fresh (n : ℕ) (l : List ℕ) : Prop := ∀ p x, p ++ [x] <+: l → x ∉ openBlock n p

theorem fresh_iff_blocksDistinct (hn : 0 < n) : Fresh n l ↔ BlocksDistinct n l := by
  constructor
  · intro h i j hij hj hblock heq
    refine h (l.take j) l[j] ?_ ((mem_openBlock_take hn (Nat.le_of_lt hj)).2 ?_)
    · rw [← List.take_succ_eq_append_getElem hj]
      exact List.take_prefix ..
    · exact ⟨i, hij, hblock, by rw [List.getElem?_eq_getElem (Nat.lt_trans hij hj), heq]⟩
  · rintro h p x ⟨rest, rfl⟩ hmem
    have hp : p = ((p ++ [x]) ++ rest).take p.length := by simp
    rw [hp, mem_openBlock_take hn (by simp)] at hmem
    obtain ⟨i, hij, hblock, hi⟩ := hmem
    obtain ⟨_, hi⟩ := List.getElem?_eq_some_iff.1 hi
    refine h i p.length hij (by simp) hblock ?_
    rw [hi]
    simp

theorem fresh_concat_iff : Fresh n (l ++ [x]) ↔ Fresh n l ∧ x ∉ openBlock n l := by
  constructor
  · intro h
    exact ⟨fun p y hp => h p y (hp.trans (List.prefix_append ..)), h l x (List.prefix_refl _)⟩
  · rintro ⟨h, hx⟩ p y hp
    rcases List.prefix_concat_iff.1 hp with heq | hp
    · obtain ⟨rfl, hyx⟩ := List.append_inj' heq rfl
      exact List.singleton_inj.1 hyx ▸ hx
    · exact h p y hp

theorem rotating_of_fresh (hl : ∀ a ∈ l, a < n) (h : Fresh n l) : Rotating n l := by
  induction l using List.reverseRecOn with
  | nil => exact rotating_nil n
  | append_singleton l x ih =>
      obtain ⟨hfresh, hx⟩ := fresh_concat_iff.1 h
      exact (ih (fun a ha => hl a (List.mem_append_left _ ha)) hfresh).concat (hl x (by simp)) hx

/-- After every prefix the choices are level exactly when those of each block are different. -/
theorem level_prefixes_iff (hn : 0 < n) (hl : ∀ a ∈ l, a < n) :
    (∀ p, p <+: l → Level n p) ↔ BlocksDistinct n l := by
  rw [← fresh_iff_blocksDistinct hn]
  constructor
  · intro hlevel
    induction l using List.reverseRecOn with
    | nil => exact fun p x hp => by simp at hp
    | append_singleton l x ih =>
        have hl' : ∀ a ∈ l, a < n := fun a ha => hl a (List.mem_append_left _ ha)
        have hfresh := ih hl' (fun p hp => hlevel p (hp.trans (List.prefix_append ..)))
        refine fresh_concat_iff.2 ⟨hfresh, fun hmem => ?_⟩
        have hnot := (rotating_of_fresh hl' hfresh).not_level_concat hn (hl x (by simp)) hmem
        exact hnot (hlevel _ (List.prefix_refl _))
  · intro hfresh p hp
    have hp' : ∀ a ∈ p, a < n := fun a ha => hl a (hp.subset ha)
    exact (rotating_of_fresh hp' (fun q x hq => hfresh q x (hq.trans hp))).level

end Rszero.EvenRotation
