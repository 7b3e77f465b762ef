import Mathlib.Data.List.Basic
import Mathlib.Data.List.DropRight
import Mathlib.Tactic.Common

/-!
# Texts in pieces

A text split at a separator, or at its first one: what the pieces hold, and which pieces a text has.
-/

namespace Rszero.Pieces

variable {α : Type} [DecidableEq α] {sep c : α} {xs : List α} {pieces : List (List α)}

theorem mem_splitOn : (∃ piece ∈ xs.splitOn sep, c ∈ piece) ↔ c ∈ xs ∧ c ≠ sep := by
  induction xs with
  | nil => simp
  | cons x xs ih =>
      obtain ⟨piece, pieces, hpieces⟩ := List.exists_cons_of_ne_nil (List.splitOn_ne_nil sep xs)
      rw [List.splitOn_cons_eq_if_modifyHead]
      rw [hpieces, List.exists_mem_cons_iff] at ih
      by_cases hx : x = sep
      · subst hx
        rw [if_pos (by simp), hpieces, List.exists_mem_cons_iff, List.exists_mem_cons_iff,
          or_iff_right List.not_mem_nil, ih, List.mem_cons]
        exact and_congr_left (fun hne => (or_iff_right hne).symm)
      · rw [if_neg (by simpa using hx), hpieces, List.modifyHead_cons, List.exists_mem_cons_iff,
          List.mem_cons, or_assoc, ih, List.mem_cons]
        constructor
        · rintro (rfl | ⟨hmem, hne⟩)
          · exact ⟨.inl rfl, hx⟩
          · exact ⟨.inr hmem, hne⟩
        · rintro ⟨rfl | hmem, hne⟩
          · exact .inl rfl
          · exact .inr ⟨hmem, hne⟩

/-- The pieces are those without the separator that it joins to the text. -/
theorem splitOn_eq_iff (hpieces : pieces ≠ []) :
    xs.splitOn sep = pieces ↔ [sep].intercalate pieces = xs ∧ ∀ piece ∈ pieces, sep ∉ piece := by
  constructor
  · rintro rfl
    exact ⟨List.intercalate_splitOn .., fun piece hpiece hsep =>
      (mem_splitOn.1 ⟨piece, hpiece, hsep⟩).2 rfl⟩
  · rintro ⟨rfl, hsep⟩
    exact List.splitOn_intercalate sep hsep hpieces

/-- The item reaches from one separator to the next, where an end of the text is as good. -/
def StandsBetween (sep : α) (item xs : List α) : Prop :=
  ∃ pre post, xs = pre ++ item ++ post ∧ (pre = [] ∨ ∃ before, pre = before ++ [sep]) ∧
    (post = [] ∨ ∃ after, post = sep :: after)

omit [DecidableEq α] in
theorem standsBetween_of_mem {item : List α} (hmem : item ∈ pieces) :
    StandsBetween sep item ([sep].intercalate pieces) := by
  induction pieces with
  | nil => exact absurd hmem List.not_mem_nil
  | cons piece pieces ih =>
      rcases List.mem_cons.1 hmem with rfl | hrest
      · cases pieces with
        | nil => exact ⟨[], [], by simp, .inl rfl, .inl rfl⟩
        | cons next pieces =>
            refine ⟨[], sep :: [sep].intercalate (next :: pieces), ?_, .inl rfl, .inr ⟨_, rfl⟩⟩
            rw [List.intercalate_cons_cons, List.nil_append, List.append_assoc]
            rfl
      · obtain ⟨pre, post, heq, hpre, hpost⟩ := ih hrest
        obtain ⟨next, pieces, rfl⟩ := List.exists_cons_of_ne_nil (List.ne_nil_of_mem hrest)
        refine ⟨piece ++ sep :: pre, post, ?_, .inr ?_, hpost⟩
        · rw [List.intercalate_cons_cons, heq]
          simp
        · rcases hpre with rfl | ⟨before, rfl⟩
          · exact ⟨piece, rfl⟩
          · exact ⟨piece ++ sep :: before, by simp⟩

/-- The pieces are the items without the separator. -/
theorem mem_splitOn_iff {item : List α} :
    item ∈ xs.splitOn sep ↔ sep ∉ item ∧ StandsBetween sep item xs := by
  constructor
  · intro hmem
    refine ⟨fun hsep => (mem_splitOn.1 ⟨item, hmem, hsep⟩).2 rfl, ?_⟩
    have htext : [sep].intercalate (xs.splitOn sep) = xs := List.intercalate_splitOn sep
    exact htext ▸ standsBetween_of_mem hmem
  · rintro ⟨hsep, pre, post, rfl, hpre, hpost⟩
    have hitem : item ∈ (item ++ post).splitOn sep := by
      rcases hpost with rfl | ⟨after, rfl⟩
      · rw [List.append_nil, List.splitOn_eq_singleton hsep]
        exact List.mem_singleton_self item
      · rw [List.splitOn_append_cons_self_of_not_mem hsep]
        exact List.mem_cons_self
    rw [List.append_assoc]
    rcases hpre with rfl | ⟨before, rfl⟩
    · exact hitem
    · rw [List.append_assoc, List.singleton_append, List.splitOn_append_cons_self]
      exact List.mem_append_right _ hitem

/-- `str::split_once` -/
def splitOnce (sep : α) : List α → Option (List α × List α)
  | [] => none
  | x :: xs =>
      if x = sep then some ([], xs)
      else (splitOnce sep xs).map (fun parts => (x :: parts.1, parts.2))

theorem splitOnce_append {as : List α} (h : sep ∉ as) (bs : List α) :
    splitOnce sep (as ++ sep :: bs) = some (as, bs) := by
  induction as with
  | nil => simp [splitOnce]
  | cons a as ih =>
      rw [List.mem_cons, not_or] at h
      rw [List.cons_append, splitOnce, if_neg (Ne.symm h.1), ih h.2]
      rfl

theorem splitOnce_eq_none (h : sep ∉ xs) : splitOnce sep xs = none := by
  induction xs with
  | nil => rfl
  | cons x xs ih =>
      rw [List.mem_cons, not_or] at h
      rw [splitOnce, if_neg (Ne.symm h.1), ih h.2]
      rfl

theorem splitOnce_eq_some_iff {as bs : List α} :
    splitOnce sep xs = some (as, bs) ↔ sep ∉ as ∧ xs = as ++ sep :: bs := by
  constructor
  · intro h
    by_cases hsep : sep ∈ xs
    · obtain ⟨as', bs', rfl, has'⟩ := List.eq_append_cons_of_mem hsep
      rw [splitOnce_append has', Option.some.injEq, Prod.mk.injEq] at h
      obtain ⟨rfl, rfl⟩ := h
      exact ⟨has', rfl⟩
    · rw [splitOnce_eq_none hsep] at h
      exact absurd h.symm (Option.some_ne_none _)
  · rintro ⟨hsep, rfl⟩
    exact splitOnce_append hsep bs

section Trim

variable {blank : α} {t : List α}

def trim (blank : α) (xs : List α) : List α :=
  (xs.dropWhile (fun x => x == blank)).rdropWhile (fun x => x == blank)

theorem eq_replicate_of_all (h : ∀ x ∈ xs, x == blank) : xs = List.replicate xs.length blank :=
  List.eq_replicate_iff.2 ⟨rfl, fun x hx => eq_of_beq (h x hx)⟩

theorem exists_replicate_trim (blank : α) (xs : List α) :
    ∃ i j, xs = List.replicate i blank ++ trim blank xs ++ List.replicate j blank := by
  refine ⟨(xs.takeWhile (fun x => x == blank)).length,
    ((xs.dropWhile (fun x => x == blank)).rtakeWhile (fun x => x == blank)).length, ?_⟩
  rw [← eq_replicate_of_all (fun x hx => List.mem_takeWhile_imp (p := fun x => x == blank) hx),
    ← eq_replicate_of_all (fun x hx => List.mem_rtakeWhile_imp (p := fun x => x == blank) hx), trim,
    List.append_assoc, List.rdropWhile_append_rtakeWhile, List.takeWhile_append_dropWhile]

theorem head?_trim (blank : α) (xs : List α) : (trim blank xs).head? ≠ some blank := by
  intro hhead
  obtain ⟨rest, hrest⟩ : trim blank xs <+: xs.dropWhile (fun x => x == blank) :=
    List.rdropWhile_prefix _ _
  have hdrop : (xs.dropWhile (fun x => x == blank)).head? = some blank := by
    rw [← hrest, List.head?_append, hhead]
    rfl
  have hnot := List.head?_dropWhile_not (fun x => x == blank) xs
  rw [hdrop] at hnot
  simp at hnot

theorem getLast?_trim (blank : α) (xs : List α) : (trim blank xs).getLast? ≠ some blank := by
  intro hlast
  have hne : trim blank xs ≠ [] := by
    rintro heq
    simp [heq] at hlast
  have hnot := List.rdropWhile_last_not (fun x => x == blank) _ hne
  rw [List.getLast?_eq_some_getLast hne, Option.some.injEq] at hlast
  exact hnot (beq_iff_eq.2 hlast)

theorem rdropWhile_append_replicate (hlast : t.getLast? ≠ some blank) (j : ℕ) :
    (t ++ List.replicate j blank).rdropWhile (fun x => x == blank) = t := by
  induction j with
  | zero =>
      rw [List.replicate_zero, List.append_nil, List.rdropWhile_eq_self_iff]
      intro hne heq
      exact hlast ((List.getLast?_eq_some_getLast hne).trans (congrArg some (eq_of_beq heq)))
  | succ j ih =>
      rw [List.replicate_succ', ← List.append_assoc, List.rdropWhile_concat_pos _ _ _ (by simp)]
      exact ih

theorem trim_replicate_append (hne : t ≠ []) (hhead : t.head? ≠ some blank)
    (hlast : t.getLast? ≠ some blank) (i j : ℕ) :
    trim blank (List.replicate i blank ++ t ++ List.replicate j blank) = t := by
  have hleft : (List.replicate i blank ++ t ++ List.replicate j blank).dropWhile
      (fun x => x == blank) = t ++ List.replicate j blank := by
    obtain ⟨x, t, rfl⟩ := List.exists_cons_of_ne_nil hne
    have hx : ¬ (x == blank) := fun heq => hhead (congrArg some (eq_of_beq heq))
    rw [List.append_assoc, List.dropWhile_append_of_pos (by simp), List.cons_append,
      List.dropWhile_cons_of_neg (p := fun x => x == blank) hx]
  rw [trim, hleft, rdropWhile_append_replicate hlast]

theorem trim_eq_iff (hne : t ≠ []) : trim blank xs = t ↔
    t.head? ≠ some blank ∧ t.getLast? ≠ some blank ∧
      ∃ i j, xs = List.replicate i blank ++ t ++ List.replicate j blank := by
  constructor
  · rintro rfl
    exact ⟨head?_trim blank xs, getLast?_trim blank xs, exists_replicate_trim blank xs⟩
  · rintro ⟨hhead, hlast, i, j, rfl⟩
    exact trim_replicate_append hne hhead hlast i j

end Trim

section Pairs

variable {eq blank : α} {name value : List α}

def pairs (sep eq blank : α) (xs : List α) : List (List α × List α) :=
  (xs.splitOn sep).filterMap (fun item => splitOnce eq (trim blank item))

/-- The pair is one whose text fills what is between two separators, but for blanks. -/
def Fills (sep blank : α) (t xs : List α) : Prop :=
  ∃ i j, StandsBetween sep (List.replicate i blank ++ t ++ List.replicate j blank) xs

theorem mem_pairs_iff (heq : sep ≠ eq) (hblank : sep ≠ blank) (hne : eq ≠ blank)
    (hvalue : value ≠ []) (hlast : value.getLast? ≠ some blank) (hsep : sep ∉ value) :
    (name, value) ∈ pairs sep eq blank xs ↔
      (eq ∉ name ∧ sep ∉ name ∧ name.head? ≠ some blank) ∧
        Fills sep blank (name ++ eq :: value) xs := by
  have htext : name ++ eq :: value ≠ [] := by simp
  have hend : (name ++ eq :: value).getLast? ≠ some blank := by
    rw [List.getLast?_append_cons, List.getLast?_cons]
    simpa [List.getLast?_eq_some_getLast hvalue] using hlast
  have hstart : (name ++ eq :: value).head? ≠ some blank ↔ name.head? ≠ some blank := by
    cases name with
    | nil => simp [hne]
    | cons c name => rfl
  have hmem (i j : ℕ) : sep ∉ List.replicate i blank ++ (name ++ eq :: value) ++
      List.replicate j blank ↔ sep ∉ name := by
    simp [hsep, heq, hblank]
  simp only [pairs, List.mem_filterMap, splitOnce_eq_some_iff, trim_eq_iff htext, hstart,
    mem_splitOn_iff]
  constructor
  · rintro ⟨item, ⟨hitem, hstands⟩, hname, hhead, -, i, j, rfl⟩
    exact ⟨⟨hname, (hmem i j).1 hitem, hhead⟩, i, j, hstands⟩
  · rintro ⟨⟨hname, hsepName, hhead⟩, i, j, hstands⟩
    exact ⟨_, ⟨(hmem i j).2 hsepName, hstands⟩, hname, hhead, hend, i, j, rfl⟩

end Pairs

end Rszero.Pieces
