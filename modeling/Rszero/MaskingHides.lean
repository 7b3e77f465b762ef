import Rszero.Masking

/-!
# What a mask hides

A mask hides something of a text when another text of the same length has the same mask. For a text
in ASCII every mask does, but for those of the least length that is not masked as a whole: there the
ends that are kept meet.
-/

namespace Rszero.Masking

open Utf8

def Hides (mask : List Char → Option (List Char)) (s : List Char) : Prop :=
  ∃ s', s' ≠ s ∧ size s' = size s ∧ mask s' = mask s

def Ascii (s : List Char) : Prop := ∀ c ∈ s, c.toNat < 128

theorem ascii_of_all {s : List Char} (h : s.all (fun c => decide (c.toNat < 128))) : Ascii s :=
  fun c hc => of_decide_eq_true (List.all_eq_true.1 h c hc)

variable {mask : List Char → Option (List Char)} {s s' : List Char} {i : ℕ}

def flip (c : Char) : Char := if c = 'a' then 'b' else 'a'

theorem flip_ne (c : Char) : flip c ≠ c := by
  rw [flip]
  split_ifs with hc
  · rw [hc]
    decide
  · exact Ne.symm hc

theorem flip_ascii (c : Char) : (flip c).toNat < 128 := by
  rw [flip]
  split_ifs <;> decide

def change (s : List Char) (i : ℕ) : List Char := s.modify i flip

@[simp] theorem length_change (s : List Char) (i : ℕ) : (change s i).length = s.length :=
  List.length_modify ..

theorem change_ne (hi : i < s.length) : change s i ≠ s := by
  intro h
  have hget : (change s i)[i]? = s[i]? := congrArg (·[i]?) h
  rw [change, List.getElem?_modify_eq, List.getElem?_eq_getElem hi] at hget
  exact flip_ne _ (Option.some.inj hget)

theorem Ascii.change (h : Ascii s) (i : ℕ) : Ascii (change s i) := by
  intro c hc
  obtain ⟨j, hj, rfl⟩ := List.getElem_of_mem hc
  simp only [Masking.change, List.getElem_modify]
  split_ifs
  · exact flip_ascii _
  · exact h _ (List.getElem_mem _)

theorem size_change (h : Ascii s) (i : ℕ) : size (change s i) = size s := by
  rw [size_of_ascii (h.change i), size_of_ascii h, length_change]

theorem hides_of_change (h : Ascii s) (hi : i < s.length)
    (hmask : mask (change s i) = mask s) : Hides mask s :=
  ⟨change s i, change_ne hi, size_change h i, hmask⟩

theorem keepEnds_of_ascii {first hidden last : ℕ} (h : Ascii s) (hfirst : first ≤ s.length)
    (hlast : last ≤ s.length) :
    keepEnds s first hidden last =
      some (s.take first ++ stars hidden ++ s.drop (s.length - last)) := by
  have hsize := size_of_ascii h
  have htake (n : ℕ) (hn : n ≤ s.length) : size (s.take n) = n := by
    rw [size_of_ascii (fun c hc => h c (List.mem_of_mem_take hc)), List.length_take_of_le hn]
  rw [keepEnds_eq_some_iff (hsize ▸ hlast)]
  refine ⟨s.take first, s.drop first, s.take (s.length - last), s.drop (s.length - last),
    (List.take_append_drop ..).symm, htake first hfirst, (List.take_append_drop ..).symm, ?_, rfl⟩
  rw [htake _ (Nat.sub_le ..), hsize]

theorem take_change {n : ℕ} (hi : n ≤ i) : (change s i).take n = s.take n := by
  rw [change, List.take_modify, List.modify_eq_self]
  exact (List.length_take_le ..).trans hi

theorem drop_change {n : ℕ} (hi : i < n) : (change s i).drop n = s.drop n :=
  List.drop_modify_of_lt flip i n s hi

/-- A change between the ends does not show. -/
theorem keepEnds_change {first hidden last : ℕ} (h : Ascii s) (hi : first ≤ i)
    (hj : i + last < s.length) :
    keepEnds (change s i) first hidden last = keepEnds s first hidden last := by
  have hlength := length_change s i
  rw [keepEnds_of_ascii h (by omega) (by omega),
    keepEnds_of_ascii (h.change i) (by omega) (by omega), hlength, take_change hi,
    drop_change (by omega)]

/-- Ends that meet are the whole text. -/
theorem not_hides_keepEnds {first hidden last : ℕ} (hsize : size s = first + last)
    (hmask : ∀ t, size t = size s → mask t = keepEnds t first hidden last)
    (hsome : (mask s).isSome) : ¬ Hides mask s := by
  rintro ⟨s', hne, hsize', hsame⟩
  obtain ⟨m, hm⟩ := Option.isSome_iff_exists.1 hsome
  have hparts (t : List Char) (ht : size t = size s) (htm : mask t = some m) :
      ∃ front back, t = front ++ back ∧ size front = first ∧
        m = front ++ (stars hidden ++ back) := by
    rw [hmask t ht, keepEnds_eq_some_iff (by omega)] at htm
    obtain ⟨front, rest, before, back, hfront, hsize₁, hback, hsize₂, rfl⟩ := htm
    obtain ⟨rfl, rfl⟩ := eq_of_append_eq (hback.symm.trans hfront) (by omega)
    exact ⟨before, back, hback, hsize₁, List.append_assoc ..⟩
  obtain ⟨front, back, rfl, hfront, hm₁⟩ := hparts s rfl hm
  obtain ⟨front', back', rfl, hfront', hm₂⟩ := hparts s' hsize' (hsame.trans hm)
  obtain ⟨rfl, hrest⟩ := eq_of_append_eq (hm₁.symm.trans hm₂) (hfront.trans hfront'.symm)
  exact hne (congrArg _ (List.append_cancel_left hrest).symm)

/-- In ASCII a mask that keeps the ends hides something exactly when they do not meet. -/
theorem hides_keepEnds_iff (first hidden last : ℕ) (h : Ascii s)
    (hle : first + last ≤ s.length)
    (hmask : ∀ t, size t = s.length → mask t = keepEnds t first hidden last) :
    Hides mask s ↔ s.length ≠ first + last := by
  have hsize := size_of_ascii h
  constructor
  · intro hhides heq
    refine not_hides_keepEnds (hsize.trans heq) (fun t ht => hmask t (ht.trans hsize)) ?_ hhides
    rw [hmask s hsize, keepEnds_of_ascii h (by omega) (by omega)]
    rfl
  · intro hne
    refine hides_of_change h (by omega : first < s.length) ?_
    rw [hmask _ ((size_change h _).trans hsize), hmask s hsize,
      keepEnds_change h le_rfl (by omega)]

/-- A mask that depends on the length only. -/
theorem hides_of_const (m : List Char) (hne : s ≠ []) (h : Ascii s)
    (hmask : ∀ t, size t = s.length → mask t = some m) : Hides mask s := by
  have hsize := size_of_ascii h
  refine hides_of_change h (List.length_pos_iff.2 hne) ?_
  rw [hmask _ ((size_change h _).trans hsize), hmask s hsize]

theorem hides_maskPhone_iff (hne : s ≠ []) (h : Ascii s) :
    Hides maskPhone s ↔ s.length ≠ 7 := by
  rcases Nat.lt_or_ge s.length 7 with hlt | hge
  · refine iff_of_true (hides_of_const (stars 4) hne h fun t ht => ?_) (by omega)
    rw [maskPhone, if_pos (ht ▸ hlt)]
  · refine hides_keepEnds_iff 3 4 4 h hge fun t ht => ?_
    rw [maskPhone, if_neg (by omega)]

theorem hides_maskIdcard_iff (hne : s ≠ []) (h : Ascii s) :
    Hides maskIdcard s ↔ s.length ≠ 10 := by
  rcases Nat.lt_or_ge s.length 10 with hlt | hge
  · refine iff_of_true (hides_of_const (stars 16) hne h fun t ht => ?_) (by omega)
    rw [maskIdcard, if_pos (ht ▸ hlt)]
  · refine hides_keepEnds_iff 6 (s.length - 6 - 4) 4 h hge fun t ht => ?_
    rw [maskIdcard_eq (by omega), ht]

theorem hides_maskBankcard_iff (hne : s ≠ []) (h : Ascii s) :
    Hides maskBankcard s ↔ s.length ≠ 4 := by
  rcases Nat.lt_or_ge s.length 4 with hlt | hge
  · refine iff_of_true (hides_of_const (stars 4) hne h fun t ht => ?_) (by omega)
    rw [maskBankcard, if_pos (ht ▸ hlt)]
  · refine hides_keepEnds_iff 0 (s.length - 4) 4 h (by omega) fun t ht => ?_
    rw [maskBankcard_eq (by omega), ht]

theorem hides_maskName (hne : s ≠ []) (h : Ascii s) : Hides maskName s := by
  obtain ⟨c, rest, rfl⟩ := List.exists_cons_of_ne_nil hne
  by_cases hrest : rest = []
  · subst hrest
    exact hides_of_change h (Nat.lt_succ_self 0) rfl
  · have hlength : 0 < rest.length := List.length_pos_iff.2 hrest
    refine hides_of_change h (by rw [List.length_cons]; omega : 1 < (c :: rest).length) ?_
    have hchange : change (c :: rest) 1 = c :: change rest 0 := rfl
    have hne' : change rest 0 ≠ [] := List.length_pos_iff.1 (by rwa [length_change])
    rw [hchange, maskName_cons c hne', maskName_cons c hrest, length_change]

theorem hides_maskGeneric {prefixLen suffix : UInt64}
    (hfit : prefixLen.toNat + suffix.toNat < 2 ^ 64) (hne : s ≠ []) (h : Ascii s) :
    Hides (maskGeneric · prefixLen suffix) s := by
  by_cases hle : s.length ≤ prefixLen.toNat + suffix.toNat
  · refine hides_of_change h (List.length_pos_iff.2 hne) ?_
    simp only [maskGeneric_eq hfit, length_change, if_pos hle]
  · refine hides_of_change h (by omega : prefixLen.toNat < s.length) ?_
    simp only [maskGeneric_eq hfit, length_change, if_neg hle, take_change le_rfl]
    rw [drop_change (by omega)]

/-- The masks of a text in ASCII hide something but for a phone number of 7, an ID card of 10 and
a bank card of 4 characters, which they show. -/
theorem masks_hide_iff (hne : s ≠ []) (h : Ascii s) {prefixLen suffix : UInt64}
    (hfit : prefixLen.toNat + suffix.toNat < 2 ^ 64) :
    (Hides maskPhone s ↔ s.length ≠ 7) ∧ (Hides maskIdcard s ↔ s.length ≠ 10) ∧
      Hides maskName s ∧ (Hides maskBankcard s ↔ s.length ≠ 4) ∧
      Hides (maskGeneric · prefixLen suffix) s :=
  ⟨hides_maskPhone_iff hne h, hides_maskIdcard_iff hne h, hides_maskName hne h,
    hides_maskBankcard_iff hne h, hides_maskGeneric hfit hne h⟩

/-- `test_mask_phone` -/
theorem masks_hide_iff_phone : Hides maskPhone "13800138000".toList :=
  (masks_hide_iff (by decide) (ascii_of_all (by decide))
    (by decide : (2 : UInt64).toNat + (3 : UInt64).toNat < 2 ^ 64)).1.2 (by decide)

theorem masks_show :
    ¬ Hides maskPhone "1234567".toList ∧ ¬ Hides maskIdcard "1234567890".toList ∧
      ¬ Hides maskBankcard "1234".toList := by
  refine ⟨fun h => ?_, fun h => ?_, fun h => ?_⟩
  · exact (hides_maskPhone_iff (by decide) (ascii_of_all (by decide))).1 h rfl
  · exact (hides_maskIdcard_iff (by decide) (ascii_of_all (by decide))).1 h rfl
  · exact (hides_maskBankcard_iff (by decide) (ascii_of_all (by decide))).1 h rfl

end Rszero.Masking
