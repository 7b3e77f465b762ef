import Mathlib.Data.List.Basic
import Mathlib.Tactic.Common

/-!
# Texts in UTF-8

Byte offsets into a text, the search for a pattern and the lower-case mapping of Unicode with its
rule for a final sigma. Texts are lists of characters; the tables of Unicode are a parameter.
-/

namespace Rszero.Utf8

/-- What holds below a bound, tested there, holds of every character below it. -/
@[elab_as_elim]
theorem of_toNat_lt {bound : ℕ} {P : Char → Prop} {c : Char} (hc : c.toNat < bound)
    (h : ∀ n < bound, P (Char.ofNat n)) : P c := by
  have hchar := h c.toNat hc
  rwa [Char.ofNat_toNat] at hchar

def size : List Char → ℕ
  | [] => 0
  | c :: cs => c.utf8Size + size cs

/-- The text cut at a byte offset that is a boundary between characters. -/
def cut (n : ℕ) : List Char → Option (List Char × List Char)
  | [] => if n = 0 then some ([], []) else none
  | c :: cs =>
      if n = 0 then some ([], c :: cs)
      else if c.utf8Size ≤ n then
        (cut (n - c.utf8Size) cs).map fun parts => (c :: parts.1, parts.2)
      else none

variable {as bs cs ds pat : List Char} {c d : Char} {n : ℕ}

@[simp] theorem size_nil : size [] = 0 := rfl

@[simp] theorem size_cons : size (c :: cs) = c.utf8Size + size cs := rfl

@[simp] theorem size_append (as bs : List Char) : size (as ++ bs) = size as + size bs := by
  induction as with
  | nil => rw [List.nil_append, size_nil, Nat.zero_add]
  | cons a as ih => rw [List.cons_append, size_cons, size_cons, ih, Nat.add_assoc]

theorem cut_eq_some {cs : List Char} : cut n cs = some (as, bs) ↔ cs = as ++ bs ∧ size as = n := by
  induction cs generalizing n as with
  | nil =>
      rw [cut, eq_comm (a := []), List.append_eq_nil_iff]
      by_cases hn : n = 0
      · rw [if_pos hn, Option.some.injEq, Prod.mk.injEq, hn]
        constructor
        · rintro ⟨rfl, rfl⟩
          exact ⟨⟨rfl, rfl⟩, rfl⟩
        · rintro ⟨⟨rfl, rfl⟩, -⟩
          exact ⟨rfl, rfl⟩
      · rw [if_neg hn]
        refine iff_of_false (fun h => nomatch h) ?_
        rintro ⟨⟨rfl, -⟩, hsize⟩
        exact hn hsize.symm
  | cons c cs ih =>
      have hpos := c.utf8Size_pos
      rw [cut]
      cases as with
      | nil =>
          by_cases hn : n = 0
          · simp [hn]
          · rw [if_neg hn]
            refine iff_of_false ?_ (fun h => hn h.2.symm)
            split_ifs <;> simp
      | cons a as =>
          rw [List.cons_append, List.cons.injEq, size_cons]
          by_cases hn : n = 0
          · rw [if_pos hn]
            refine iff_of_false (by simp) ?_
            rintro ⟨⟨rfl, -⟩, hsize⟩
            omega
          · rw [if_neg hn]
            by_cases hle : c.utf8Size ≤ n
            · rw [if_pos hle, Option.map_eq_some_iff]
              constructor
              · rintro ⟨⟨as', bs'⟩, hcut, heq⟩
                simp only [Prod.mk.injEq, List.cons.injEq] at heq
                obtain ⟨⟨rfl, rfl⟩, rfl⟩ := heq
                obtain ⟨hcs, hsize⟩ := ih.1 hcut
                exact ⟨⟨rfl, hcs⟩, by omega⟩
              · rintro ⟨⟨rfl, hcs⟩, hsize⟩
                exact ⟨(as, bs), ih.2 ⟨hcs, by omega⟩, rfl⟩
            · rw [if_neg hle]
              refine iff_of_false (fun h => nomatch h) ?_
              rintro ⟨⟨rfl, -⟩, hsize⟩
              omega

/-- Beginnings of a text that have the same size are equal. -/
theorem eq_of_append_eq (h : as ++ cs = bs ++ ds) (hsize : size as = size bs) :
    as = bs ∧ cs = ds := by
  have hcut : cut (size as) (as ++ cs) = some (as, cs) := cut_eq_some.2 ⟨rfl, rfl⟩
  have hcut' : cut (size as) (as ++ cs) = some (bs, ds) := cut_eq_some.2 ⟨h, hsize.symm⟩
  simpa using hcut.symm.trans hcut'

/-- A character of several bytes lies on both sides of the offset. -/
def Straddled (n : ℕ) (cs : List Char) : Prop :=
  ∃ as c bs, cs = as ++ c :: bs ∧ size as < n ∧ n < size as + c.utf8Size

theorem straddled_cons_iff :
    Straddled n (c :: cs) ↔
      (0 < n ∧ n < c.utf8Size) ∨ c.utf8Size ≤ n ∧ Straddled (n - c.utf8Size) cs := by
  constructor
  · rintro ⟨as, d, bs, heq, hlt, hgt⟩
    cases as with
    | nil =>
        obtain ⟨rfl, -⟩ := List.cons.inj heq
        exact .inl ⟨hlt, by rwa [size_nil, Nat.zero_add] at hgt⟩
    | cons a as =>
        obtain ⟨rfl, rfl⟩ := List.cons.inj heq
        rw [size_cons] at hlt hgt
        exact .inr ⟨by omega, as, d, bs, rfl, by omega, by omega⟩
  · rintro (⟨hpos, hlt⟩ | ⟨hle, as, d, bs, rfl, hlt, hgt⟩)
    · exact ⟨[], c, cs, rfl, hpos, by rwa [size_nil, Nat.zero_add]⟩
    · refine ⟨c :: as, d, bs, rfl, ?_, ?_⟩ <;>
        rw [size_cons] <;>
        omega

theorem not_straddled (h : size cs ≤ n) : ¬ Straddled n cs := by
  rintro ⟨as, c, bs, rfl, hlt, hgt⟩
  rw [size_append, size_cons] at h
  omega

/-- Within the text an offset is a boundary exactly where no character straddles it. -/
theorem isSome_cut_iff : (cut n cs).isSome ↔ n ≤ size cs ∧ ¬ Straddled n cs := by
  induction cs generalizing n with
  | nil =>
      rw [cut, size_nil, Nat.le_zero]
      split_ifs with hn
      · exact iff_of_true rfl ⟨hn, not_straddled (Nat.zero_le n)⟩
      · exact iff_of_false (by simp) (fun h => hn h.1)
  | cons c cs ih =>
      have hpos := c.utf8Size_pos
      rw [cut, straddled_cons_iff, size_cons]
      split_ifs with hn hle
      · refine iff_of_true rfl ⟨by omega, ?_⟩
        rintro (⟨h, -⟩ | ⟨h, -⟩) <;> omega
      · rw [Option.isSome_map, ih]
        constructor
        · rintro ⟨hsize, hnone⟩
          refine ⟨by omega, ?_⟩
          rintro (⟨-, h⟩ | ⟨-, h⟩)
          · omega
          · exact hnone h
        · rintro ⟨hsize, hnone⟩
          exact ⟨by omega, fun h => hnone (.inr ⟨hle, h⟩)⟩
      · exact iff_of_false (by simp) (fun h => h.2 (.inl ⟨by omega, by omega⟩))

theorem size_of_ascii {cs : List Char} (h : ∀ c ∈ cs, c.toNat < 128) : size cs = cs.length := by
  induction cs with
  | nil => rfl
  | cons c cs ih =>
      rw [List.forall_mem_cons] at h
      have hc : c.utf8Size = 1 :=
        Char.utf8Size_eq_one_iff.2 (UInt32.le_iff_toNat_le.2 (Nat.lt_succ_iff.1 h.1))
      rw [size_cons, hc, ih h.2, List.length_cons, Nat.add_comm]

def find (pat : List Char) : List Char → Option ℕ
  | [] => if pat = [] then some 0 else none
  | c :: cs => if pat <+: c :: cs then some 0 else (find pat cs).map (c.utf8Size + ·)

/-- A pattern without the character does not reach over it. -/
theorem prefix_append_cons_iff (hc : c ∉ pat) (as bs : List Char) :
    pat <+: as ++ c :: bs ↔ pat <+: as := by
  constructor
  · intro h
    have hlength : pat.length ≤ as.length := by
      by_contra hlong
      have hinit : as ++ [c] <+: as ++ c :: bs := ⟨bs, by simp⟩
      have hsub : as ++ [c] <+: pat := by
        apply List.prefix_of_prefix_length_le hinit h
        rw [List.length_append, List.length_singleton]
        omega
      exact hc (hsub.subset (by simp))
    exact List.prefix_of_prefix_length_le h (List.prefix_append ..) hlength
  · exact fun h => h.trans (List.prefix_append ..)

/-- A character that is not in the pattern only moves the occurrences behind it. -/
theorem find_append_cons (hpat : pat ≠ []) (hc : c ∉ pat) (as bs : List Char) :
    find pat (as ++ c :: bs) =
      (find pat as).or ((find pat bs).map (size as + c.utf8Size + ·)) := by
  induction as with
  | nil =>
      have hnot : ¬ pat <+: c :: bs := fun h =>
        hpat (List.prefix_nil.1 ((prefix_append_cons_iff hc [] bs).1 h))
      simp [find, hnot, hpat]
  | cons a as ih =>
      have hprefix := prefix_append_cons_iff hc (a :: as) bs
      rw [List.cons_append] at hprefix
      simp only [List.cons_append, find, hprefix]
      by_cases h : pat <+: a :: as
      · simp [h]
      · rw [if_neg h, if_neg h, ih]
        cases find pat as <;> simp [Function.comp_def, Nat.add_assoc]

theorem find_cons (hpat : pat ≠ []) (hc : c ∉ pat) (cs : List Char) :
    find pat (c :: cs) = (find pat cs).map (c.utf8Size + ·) := by
  have happend := find_append_cons hpat hc [] cs
  simpa [find, hpat] using happend

/-- What follows an occurrence does not matter. -/
theorem find_append_self (as bs : List Char) :
    find pat (as ++ (pat ++ bs)) = find pat (as ++ pat) := by
  induction as with
  | nil =>
      cases pat with
      | nil => cases bs <;> simp [find]
      | cons p pat => simp [find]
  | cons a as ih =>
      have hprefix : pat <+: a :: (as ++ (pat ++ bs)) ↔ pat <+: a :: (as ++ pat) := by
        have happend : a :: (as ++ (pat ++ bs)) = (a :: (as ++ pat)) ++ bs := by simp
        rw [happend]
        constructor
        · intro h
          apply List.prefix_of_prefix_length_le h (List.prefix_append ..)
          simp
          omega
        · exact fun h => h.trans (List.prefix_append ..)
      simp only [List.cons_append, find, hprefix, ih]

theorem exists_of_find_eq_some (h : find pat cs = some n) :
    ∃ front rest, cs = front ++ (pat ++ rest) ∧ size front = n := by
  induction cs generalizing n with
  | nil =>
      obtain ⟨rfl, hn⟩ := Option.ite_none_right_eq_some.1 h
      exact ⟨[], [], rfl, Option.some.inj hn⟩
  | cons c cs ih =>
      rw [find] at h
      by_cases hprefix : pat <+: c :: cs
      · rw [if_pos hprefix] at h
        obtain ⟨rest, hrest⟩ := hprefix
        exact ⟨[], rest, hrest.symm, Option.some.inj h⟩
      · rw [if_neg hprefix, Option.map_eq_some_iff] at h
        obtain ⟨n', hn', rfl⟩ := h
        obtain ⟨front, rest, rfl, rfl⟩ := ih hn'
        exact ⟨c :: front, rest, rfl, size_cons⟩

theorem find_char (h : c ∉ as) (bs : List Char) : find [c] (as ++ c :: bs) = some (size as) := by
  induction as with
  | nil => simp [find]
  | cons a as ih =>
      rw [List.mem_cons, not_or] at h
      have hprefix : ¬ [c] <+: a :: (as ++ c :: bs) := fun hp => h.1 (List.cons_prefix_cons.1 hp).1
      rw [List.cons_append, find, if_neg hprefix, ih h.2]
      rfl

theorem find_char_eq_none (h : c ∉ cs) : find [c] cs = none := by
  rw [Option.eq_none_iff_forall_ne_some]
  intro n hn
  obtain ⟨front, rest, rfl, -⟩ := exists_of_find_eq_some hn
  exact h (List.mem_append_right _ List.mem_cons_self)

/-- A text that goes on in the same way up to the end of the first occurrence has it there too. -/
theorem find_of_size (h : find pat (as ++ bs) = some n) (hsize : size as = n + size pat)
    (cs : List Char) : find pat (as ++ cs) = some n := by
  obtain ⟨front, rest, htext, rfl⟩ := exists_of_find_eq_some h
  rw [← List.append_assoc] at htext
  have hsize' : size as = size (front ++ pat) := by
    rw [hsize, size_append]
  obtain ⟨rfl, rfl⟩ := eq_of_append_eq htext hsize'
  rw [List.append_assoc, find_append_self] at h ⊢
  exact h

/-- The case mapping and the properties `Cased` and `Case_Ignorable`. -/
structure CaseTables where
  lower : Char → List Char
  cased : Char → Bool
  ignorable : Char → Bool
  lower_ascii : ∀ c, c.toNat < 128 → lower c = [c.toLower]
  cased_digit : ∀ c, c.isDigit → cased c = false
  ignorable_alphanum : ∀ c, c.isAlphanum → ignorable c = false

namespace CaseTables

variable (u : CaseTables)

/-- The next character that is not ignorable is cased. -/
def thenCased : List Char → Bool
  | [] => false
  | c :: cs => if u.ignorable c then thenCased cs else u.cased c

/-- The mapping of a character, with what is before it, backwards, and behind it. -/
def lowerChar (before : List Char) (c : Char) (after : List Char) : List Char :=
  if c = 'Σ' then [if u.thenCased before && !u.thenCased after then 'ς' else 'σ'] else u.lower c

/-- The mapping of the first of two texts that follow each other. -/
def lowerPart (before : List Char) : List Char → List Char → List Char
  | [], _ => []
  | c :: cs, after => u.lowerChar before c (cs ++ after) ++ lowerPart (c :: before) cs after

/-- `str::to_lowercase` -/
def toLowercase (cs : List Char) : List Char := u.lowerPart [] cs []

variable {u} {before before' after after' : List Char}

theorem lowerPart_append (before cs ds after : List Char) :
    u.lowerPart before (cs ++ ds) after =
      u.lowerPart before cs (ds ++ after) ++ u.lowerPart (cs.reverse ++ before) ds after := by
  induction cs generalizing before with
  | nil => rfl
  | cons c cs ih =>
      simp only [List.cons_append, lowerPart, ih, List.append_assoc, List.reverse_cons,
        List.nil_append]

theorem thenCased_append (h : u.thenCased after = u.thenCased after') (cs : List Char) :
    u.thenCased (cs ++ after) = u.thenCased (cs ++ after') := by
  induction cs with
  | nil => exact h
  | cons c cs ih => rw [List.cons_append, List.cons_append, thenCased, thenCased, ih]

/-- Only that matters of the rest of the text. -/
theorem lowerPart_congr (hbefore : u.thenCased before = u.thenCased before')
    (hafter : u.thenCased after = u.thenCased after') (cs : List Char) :
    u.lowerPart before cs after = u.lowerPart before' cs after' := by
  induction cs generalizing before before' with
  | nil => rfl
  | cons c cs ih =>
      have hnext : u.thenCased (c :: before) = u.thenCased (c :: before') := by
        rw [thenCased, thenCased, hbefore]
      rw [lowerPart, lowerPart, ih hnext]
      simp only [lowerChar, hbefore, thenCased_append hafter cs]

theorem thenCased_cons (h : c.isAlphanum) (cs : List Char) : u.thenCased (c :: cs) = u.cased c := by
  rw [thenCased, u.ignorable_alphanum c h]
  rfl

theorem thenCased_digit (h : c.isDigit) (cs : List Char) : u.thenCased (c :: cs) = false := by
  rw [thenCased_cons (by simp [Char.isAlphanum, h]), u.cased_digit c h]

theorem lowerPart_ascii {cs : List Char} (h : ∀ c ∈ cs, c.toNat < 128) (before after : List Char) :
    u.lowerPart before cs after = cs.map Char.toLower := by
  induction cs generalizing before with
  | nil => rfl
  | cons c cs ih =>
      rw [List.forall_mem_cons] at h
      have hsigma : c ≠ 'Σ' := by
        rintro rfl
        exact absurd h.1 (by decide)
      rw [lowerPart, ih h.2, lowerChar, if_neg hsigma, u.lower_ascii c h.1]
      rfl

theorem size_map_toLower {cs : List Char} (h : ∀ c ∈ cs, c.toNat < 128) :
    size (cs.map Char.toLower) = size cs := by
  induction cs with
  | nil => rfl
  | cons c cs ih =>
      rw [List.forall_mem_cons] at h
      have hchar : c.toLower.utf8Size = c.utf8Size := of_toNat_lt h.1 (by decide)
      rw [List.map_cons, size_cons, size_cons, hchar, ih h.2]

def ascii : CaseTables where
  lower c := [c.toLower]
  cased c := !c.isDigit && c.isAlpha
  ignorable c := !c.isAlphanum && ['\'', '.', ':', '^', Char.ofNat 0x60].contains c
  lower_ascii _ _ := rfl
  cased_digit c hc := by rw [hc]; rfl
  ignorable_alphanum c hc := by rw [hc]; rfl

end CaseTables

end Rszero.Utf8
