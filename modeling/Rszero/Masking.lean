import Mathlib.Algebra.Order.Ring.Nat
import Rszero.Utf8

/-!
# Masking of personal data

The masks of phone numbers, emails, ID cards, names and bank cards, and the generic one. Some cut a
text at byte offsets and some count its characters; `none` is a panic, and so is an arithmetic
overflow.
-/

namespace Rszero.Masking

open Utf8

def addLen (a b : ℕ) : Option ℕ := if a + b < 2 ^ 64 then some (a + b) else none

def subLen (a b : ℕ) : Option ℕ := if b ≤ a then some (a - b) else none

/-- `&s[..n]` -/
def sliceTo (s : List Char) (n : ℕ) : Option (List Char) := (cut n s).map Prod.fst

/-- `&s[n..]` -/
def sliceFrom (s : List Char) (n : ℕ) : Option (List Char) := (cut n s).map Prod.snd

def stars (n : ℕ) : List Char := List.replicate n '*'

/-- The first and the last bytes of a text with stars between them. -/
def keepEnds (s : List Char) (keep_start hidden keep_end : ℕ) : Option (List Char) := do
  let front ← sliceTo s keep_start
  let start ← subLen (size s) keep_end
  let back ← sliceFrom s start
  return front ++ stars hidden ++ back

def maskPhone (phone : List Char) : Option (List Char) :=
  if size phone < 7 then some (stars 4) else keepEnds phone 3 4 4

def maskEmail (email : List Char) : Option (List Char) :=
  match find ['@'] email with
  | some at_pos => do
      let name ← sliceTo email at_pos
      let domain ← sliceFrom email at_pos
      if name = [] then
        return stars 3 ++ domain
      else
        let kept ← sliceTo name (min (size name) 2)
        return kept ++ stars 3 ++ domain
  | none => some (stars 3)

def maskIdcard (idcard : List Char) : Option (List Char) :=
  if size idcard < 10 then some (stars 16)
  else do
    let hidden ← subLen (size idcard) 6
    let hidden ← subLen hidden 4
    keepEnds idcard 6 hidden 4

def maskName (name : List Char) : Option (List Char) :=
  if name.length ≤ 1 then some (stars 1)
  else do
    let first ← name[0]?
    let hidden ← subLen name.length 1
    return first :: stars hidden

/-- It keeps nothing at the start. -/
def maskBankcard (card : List Char) : Option (List Char) :=
  if size card < 4 then some (stars 4)
  else do
    let hidden ← subLen (size card) 4
    keepEnds card 0 hidden 4

def maskGeneric (s : List Char) (prefixLen suffix : UInt64) : Option (List Char) := do
  let kept ← addLen prefixLen.toNat suffix.toNat
  if s.length ≤ kept then
    return stars s.length
  else
    let hidden ← subLen s.length prefixLen.toNat
    let hidden ← subLen hidden suffix.toNat
    let skipped ← subLen s.length suffix.toNat
    return s.take prefixLen.toNat ++ stars hidden ++ s.drop skipped

variable {s s' m : List Char} {n first hidden last : ℕ}

theorem subLen_eq {a b : ℕ} (h : b ≤ a) : subLen a b = some (a - b) := if_pos h

theorem isSome_sliceTo : (sliceTo s n).isSome ↔ n ≤ size s ∧ ¬ Straddled n s := by
  rw [sliceTo, Option.isSome_map, isSome_cut_iff]

theorem keepEnds_eq_some_iff (hlast : last ≤ size s) :
    keepEnds s first hidden last = some m ↔
      ∃ front rest before back, s = front ++ rest ∧ size front = first ∧ s = before ++ back ∧
        size before = size s - last ∧ m = front ++ stars hidden ++ back := by
  simp only [keepEnds, sliceTo, sliceFrom, subLen_eq hlast, Option.pure_def, Option.bind_eq_bind,
    Option.bind_eq_some_iff, Option.map_eq_some_iff, Prod.exists, cut_eq_some, Option.some.injEq]
  constructor
  · rintro ⟨front, ⟨_, rest, ⟨hs, hfront⟩, rfl⟩, _, rfl, back, ⟨before, _, ⟨hs', hbefore⟩, rfl⟩,
      rfl⟩
    exact ⟨_, rest, before, _, hs, hfront, hs', hbefore, rfl⟩
  · rintro ⟨front, rest, before, back, hs, hfront, hs', hbefore, rfl⟩
    exact ⟨front, ⟨_, rest, ⟨hs, hfront⟩, rfl⟩, _, rfl, back, ⟨before, _, ⟨hs', hbefore⟩, rfl⟩,
      rfl⟩

theorem isSome_keepEnds (hfirst : first ≤ size s) (hlast : last ≤ size s) :
    (keepEnds s first hidden last).isSome ↔
      ¬ Straddled first s ∧ ¬ Straddled (size s - last) s := by
  have hstart : (cut first s).isSome ↔ ¬ Straddled first s := by
    rw [isSome_cut_iff, and_iff_right hfirst]
  have hend : (cut (size s - last) s).isSome ↔ ¬ Straddled (size s - last) s := by
    rw [isSome_cut_iff, and_iff_right (Nat.sub_le ..)]
  rw [← hstart, ← hend]
  simp only [keepEnds, sliceTo, sliceFrom, subLen_eq hlast, Option.bind_eq_bind, Option.bind_some]
  cases cut first s <;> cases cut (size s - last) s <;> simp

theorem isSome_maskPhone :
    (maskPhone s).isSome ↔ size s < 7 ∨ ¬ Straddled 3 s ∧ ¬ Straddled (size s - 4) s := by
  rw [maskPhone]
  split_ifs with hsize
  · exact iff_of_true rfl (.inl hsize)
  · rw [isSome_keepEnds (by omega) (by omega), or_iff_right hsize]

theorem maskIdcard_eq (h : ¬ size s < 10) :
    maskIdcard s = keepEnds s 6 (size s - 6 - 4) 4 := by
  have hsix : 6 ≤ size s := by omega
  have hfour : 4 ≤ size s - 6 := by omega
  simp only [maskIdcard, if_neg h, subLen_eq hsix, subLen_eq hfour, Option.bind_eq_bind,
    Option.bind_some]

theorem isSome_maskIdcard :
    (maskIdcard s).isSome ↔ size s < 10 ∨ ¬ Straddled 6 s ∧ ¬ Straddled (size s - 4) s := by
  by_cases hsize : size s < 10
  · rw [maskIdcard, if_pos hsize]
    exact iff_of_true rfl (.inl hsize)
  · rw [maskIdcard_eq hsize, isSome_keepEnds (by omega) (by omega), or_iff_right hsize]

theorem maskBankcard_eq (h : ¬ size s < 4) :
    maskBankcard s = keepEnds s 0 (size s - 4) 4 := by
  have hfour : 4 ≤ size s := by omega
  simp only [maskBankcard, if_neg h, subLen_eq hfour, Option.bind_eq_bind, Option.bind_some]

theorem isSome_maskBankcard :
    (maskBankcard s).isSome ↔ size s < 4 ∨ ¬ Straddled (size s - 4) s := by
  by_cases hsize : size s < 4
  · rw [maskBankcard, if_pos hsize]
    exact iff_of_true rfl (.inl hsize)
  · have hstart : ¬ Straddled 0 s := by
      rintro ⟨as, c, bs, -, hlt, -⟩
      omega
    rw [maskBankcard_eq hsize, isSome_keepEnds (by omega) (by omega), or_iff_right hsize,
      and_iff_right hstart]

theorem maskName_cons (c : Char) (h : s ≠ []) :
    maskName (c :: s) = some (c :: stars s.length) := by
  have hlength : 0 < s.length := List.length_pos_iff.2 h
  have hlong : ¬ (c :: s).length ≤ 1 := by
    rw [List.length_cons]
    omega
  have hhidden : subLen (c :: s).length 1 = some s.length := subLen_eq (by simp)
  rw [maskName, if_neg hlong, hhidden]
  rfl

theorem isSome_maskName (s : List Char) : (maskName s).isSome := by
  cases s with
  | nil => rfl
  | cons c s =>
      cases s with
      | nil => rfl
      | cons d s => rw [maskName_cons c (List.cons_ne_nil d s)]; rfl

theorem maskGeneric_eq {prefixLen suffix : UInt64}
    (h : prefixLen.toNat + suffix.toNat < 2 ^ 64) :
    maskGeneric s prefixLen suffix =
      some (if s.length ≤ prefixLen.toNat + suffix.toNat then stars s.length
        else s.take prefixLen.toNat ++ stars (s.length - prefixLen.toNat - suffix.toNat) ++
          s.drop (s.length - suffix.toNat)) := by
  rw [maskGeneric, addLen, if_pos h]
  simp only [Option.bind_eq_bind, Option.bind_some]
  split_ifs with hlength
  · rfl
  · have hfront : prefixLen.toNat ≤ s.length := by omega
    have hback : suffix.toNat ≤ s.length - prefixLen.toNat := by omega
    have hskip : suffix.toNat ≤ s.length := by omega
    rw [subLen_eq hfront, Option.bind_some, subLen_eq hback, subLen_eq hskip]
    rfl

theorem isSome_maskGeneric {prefixLen suffix : UInt64} :
    (maskGeneric s prefixLen suffix).isSome ↔ prefixLen.toNat + suffix.toNat < 2 ^ 64 := by
  by_cases h : prefixLen.toNat + suffix.toNat < 2 ^ 64
  · exact iff_of_true (maskGeneric_eq h ▸ rfl) h
  · rw [maskGeneric, addLen, if_neg h]
    exact iff_of_false (by simp) h

theorem isSome_maskEmail_append {name domain : List Char} (h : '@' ∉ name) :
    (maskEmail (name ++ '@' :: domain)).isSome ↔ ¬ Straddled 2 name := by
  have hcut : cut (size name) (name ++ '@' :: domain) = some (name, '@' :: domain) :=
    cut_eq_some.2 ⟨rfl, rfl⟩
  simp only [maskEmail, find_char h, sliceTo, sliceFrom, hcut, Option.map_some,
    Option.bind_eq_bind, Option.bind_some]
  split_ifs with hname
  · subst hname
    exact iff_of_true rfl (not_straddled (Nat.zero_le 2))
  · have hslice : (sliceTo name (min (size name) 2)).isSome ↔ ¬ Straddled 2 name := by
      rw [isSome_sliceTo, and_iff_right (Nat.min_le_left ..)]
      rcases Nat.le_total (size name) 2 with hle | hle
      · rw [Nat.min_eq_left hle]
        exact iff_of_true (not_straddled le_rfl) (not_straddled hle)
      · rw [Nat.min_eq_right hle]
    rw [← hslice, sliceTo]
    cases cut (min (size name) 2) name <;> rfl

theorem isSome_maskEmail :
    (maskEmail s).isSome ↔
      ∀ name domain, s = name ++ '@' :: domain → '@' ∉ name → ¬ Straddled 2 name := by
  by_cases hat : '@' ∈ s
  · obtain ⟨name, domain, rfl, hname⟩ := List.eq_append_cons_of_mem hat
    rw [isSome_maskEmail_append hname]
    constructor
    · intro h name' domain' heq hname'
      have hsize : size name = size name' := by
        have hfind := find_char hname' domain'
        rw [← heq, find_char hname] at hfind
        exact Option.some.inj hfind
      obtain ⟨rfl, -⟩ := eq_of_append_eq heq hsize
      exact h
    · exact fun h => h name domain rfl hname
  · have hnone : maskEmail s = some (stars 3) := by
      rw [maskEmail, find_char_eq_none hat]
    rw [hnone]
    refine iff_of_true rfl ?_
    rintro name domain rfl -
    exact absurd (List.mem_append_right _ List.mem_cons_self) hat

/-- The masks that cut at byte offsets return exactly for the texts without a character that
straddles an offset, and the generic one exactly for lengths whose sum does not overflow. -/
theorem masks_return_iff (s : List Char) (prefixLen suffix : UInt64) :
    ((maskPhone s).isSome ↔
        size s < 7 ∨ ¬ Straddled 3 s ∧ ¬ Straddled (size s - 4) s) ∧
      ((maskEmail s).isSome ↔
        ∀ name domain, s = name ++ '@' :: domain → '@' ∉ name → ¬ Straddled 2 name) ∧
      ((maskIdcard s).isSome ↔
        size s < 10 ∨ ¬ Straddled 6 s ∧ ¬ Straddled (size s - 4) s) ∧
      (maskName s).isSome ∧
      ((maskBankcard s).isSome ↔ size s < 4 ∨ ¬ Straddled (size s - 4) s) ∧
      ((maskGeneric s prefixLen suffix).isSome ↔
        prefixLen.toNat + suffix.toNat < 2 ^ 64) :=
  ⟨isSome_maskPhone, isSome_maskEmail, isSome_maskIdcard, isSome_maskName s, isSome_maskBankcard,
    isSome_maskGeneric⟩

/-- The fourth byte from the end of the first text is within its third character. -/
theorem masks_panic :
    maskPhone ['张', '三', '李', '四'] = none ∧ maskEmail ['a', '张', '@', 'x'] = none ∧
      maskGeneric ['a'] 0xffffffffffffffff 1 = none :=
  ⟨rfl, rfl, rfl⟩

end Rszero.Masking
