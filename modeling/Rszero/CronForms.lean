import Rszero.CronFields
import Rszero.Pieces

/-!
# The documented forms and the ones read

The parser is exact on a field unless the field is a step in decimals that does not fit into a byte,
or is read in spite of a plus sign, a blank or a second hyphen in a part.
-/

namespace Rszero.Cron

section Forms

variable {min max n : ℕ} {cs part field : List Char}

theorem digit_bounds {c : Char} (h : c.isDigit) : 48 ≤ c.toNat ∧ c.toNat ≤ 57 := by
  simp only [Char.isDigit, Bool.and_eq_true, decide_eq_true_eq] at h
  exact h

theorem not_isWhitespace_digit {c : Char} (h : c.isDigit) : ¬ isWhitespace c := by
  have hbounds := digit_bounds h
  simp only [isWhitespace, Bool.or_eq_true, Bool.and_eq_true, decide_eq_true_eq, beq_iff_eq]
  omega

theorem Decimal.notMem (h : Decimal cs n) {c : Char} (hc : ¬ c.isDigit) : c ∉ cs :=
  fun hmem => hc (h.digits c hmem)

theorem Decimal.no_blank (h : Decimal cs n) : ∀ c ∈ cs, ¬ isWhitespace c :=
  fun c hc => not_isWhitespace_digit (h.digits c hc)

theorem Decimal.unique (h : Decimal cs n) {m : ℕ} (h' : Decimal cs m) : n = m :=
  h.value.symm.trans h'.value

theorem Signed.decimal (h : Signed cs n) (hplus : '+' ∉ cs) : Decimal cs n := by
  rcases h with h | ⟨digits, rfl, -⟩
  · exact h
  · simp at hplus

theorem trim_of_no_blank (h : ∀ c ∈ cs, ¬ isWhitespace c) : trim cs = cs := by
  have hdrop : cs.dropWhile isWhitespace = cs := by
    cases cs with
    | nil => rfl
    | cons c cs => exact List.dropWhile_cons_of_neg (h c (by simp))
  rw [trim, hdrop, List.rdropWhile_eq_self_iff]
  exact fun hne => h _ (List.getLast_mem hne)

def IrregularPart (part : List Char) : Prop :=
  '+' ∈ part ∨ (∃ c ∈ part, isWhitespace c) ∨ 2 ≤ part.count '-'

/-- The characters of the documented forms, but for the comma. -/
theorem not_irregularPart (h : ∀ c ∈ part, c.isDigit ∨ c ∈ ['-', '*', '/'])
    (hcount : part.count '-' ≤ 1) : ¬ IrregularPart part := by
  have hblank {c : Char} (hc : c ∈ ['-', '*', '/']) : ¬ isWhitespace c := by
    simp only [List.mem_cons, List.not_mem_nil, or_false] at hc
    rcases hc with rfl | rfl | rfl <;> decide
  rintro (hplus | ⟨c, hc, hwhite⟩ | htwo)
  · rcases h '+' hplus with hdigit | hmark
    · exact absurd hdigit (by decide)
    · exact absurd hmark (by decide)
  · rcases h c hc with hdigit | hmark
    · exact not_isWhitespace_digit hdigit hwhite
    · exact hblank hmark hwhite
  · omega

theorem Part.regular {first last : ℕ} (h : Part min max part first last) :
    ¬ IrregularPart part := by
  cases h with
  | number hn =>
      apply not_irregularPart
      · exact fun c hc => .inl (hn.digits c hc)
      · rw [List.count_eq_zero_of_not_mem (hn.notMem (by decide))]
        exact Nat.zero_le 1
  | range ha hb =>
      apply not_irregularPart
      · intro c hc
        rw [List.mem_append, List.mem_cons] at hc
        rcases hc with hc | rfl | hc
        · exact .inl (ha.digits c hc)
        · exact .inr (by decide)
        · exact .inl (hb.digits c hc)
      · rw [List.count_append, List.count_cons_self,
          List.count_eq_zero_of_not_mem (ha.notMem (by decide)),
          List.count_eq_zero_of_not_mem (hb.notMem (by decide))]

theorem Part.read {first last : ℕ} (h : Part min max part first last) :
    ReadPart min max part first last := by
  cases h with
  | number hn hmin hmax => exact .number (.inl hn) hmin hmax
  | @range as bs _ _ ha hb hmin hle hmax =>
      rw [← List.append_nil bs]
      refine .range (ha.notMem (by decide)) (hb.notMem (by decide)) (.inl rfl) ?_ ?_ hmin hle hmax
      · rw [trim_of_no_blank ha.no_blank]
        exact .inl ha
      · rw [trim_of_no_blank hb.no_blank]
        exact .inl hb

theorem ReadPart.regular {first last : ℕ} (h : ReadPart min max part first last)
    (hregular : ¬ IrregularPart part) : Part min max part first last := by
  unfold IrregularPart at hregular
  rw [not_or, not_or] at hregular
  obtain ⟨hplus, hblank, hcount⟩ := hregular
  cases h with
  | number hn hmin hmax => exact .number (hn.decimal hplus) hmin hmax
  | @range as bs rest _ _ has hbs hrest ha hb hmin hle hmax =>
      obtain rfl : rest = [] := by
        rcases hrest with hnil | ⟨more, rfl⟩
        · exact hnil
        · simp only [List.count_append, List.count_cons_self] at hcount
          omega
      rw [List.append_nil] at hplus hblank ⊢
      simp only [List.mem_append, List.mem_cons, not_or] at hplus
      have has' : ∀ c ∈ as, ¬ isWhitespace c :=
        fun c hc hb => hblank ⟨c, by simp [hc], hb⟩
      have hbs' : ∀ c ∈ bs, ¬ isWhitespace c :=
        fun c hc hb => hblank ⟨c, by simp [hc], hb⟩
      rw [trim_of_no_blank has'] at ha
      rw [trim_of_no_blank hbs'] at hb
      exact .range (ha.decimal hplus.1) (hb.decimal hplus.2.2) hmin hle hmax

theorem irregular_iff : Irregular field ↔ ∃ part ∈ field.splitOn ',', IrregularPart part := by
  have hcomma : ¬ isWhitespace ',' := by decide
  have hpieces {c : Char} (hc : c ∈ field) (hne : c ≠ ',') : ∃ part ∈ field.splitOn ',', c ∈ part :=
    Pieces.mem_splitOn.2 ⟨hc, hne⟩
  constructor
  · rintro (hplus | ⟨c, hc, hblank⟩ | ⟨part, hpart, hcount⟩)
    · obtain ⟨part, hpart, hmem⟩ := hpieces hplus (by decide)
      exact ⟨part, hpart, .inl hmem⟩
    · obtain ⟨part, hpart, hmem⟩ := hpieces hc (fun heq => hcomma (heq ▸ hblank))
      exact ⟨part, hpart, .inr (.inl ⟨c, hmem, hblank⟩)⟩
    · exact ⟨part, hpart, .inr (.inr hcount)⟩
  · rintro ⟨part, hpart, hplus | ⟨c, hc, hblank⟩ | hcount⟩
    · exact .inl (Pieces.mem_splitOn.1 ⟨part, hpart, hplus⟩).1
    · exact .inr (.inl ⟨c, (Pieces.mem_splitOn.1 ⟨part, hpart, hc⟩).1, hblank⟩)
    · exact .inr (.inr ⟨part, hpart, hcount⟩)

theorem Decimal.signed_iff (h : Decimal cs n) {m : ℕ} : Signed cs m ↔ m = n := by
  constructor
  · intro h'
    exact (h'.decimal (h.notMem (by decide))).unique h
  · rintro rfl
    exact .inl h

variable {S : ℕ → Prop}

theorem not_irregular (hcomma : ',' ∉ field) (h : ¬ IrregularPart field) : ¬ Irregular field := by
  rw [irregular_iff, List.splitOn_eq_singleton hcomma]
  rintro ⟨part, hpart, hirregular⟩
  rw [List.mem_singleton.1 hpart] at hirregular
  exact h hirregular

theorem FieldOf.regular (h : Field min max field S) : ¬ Irregular field := by
  cases h with
  | star => exact not_irregular (by decide) (not_irregularPart (by simp) (by decide))
  | @step cs s hs =>
      apply not_irregular
      · simp only [List.mem_cons, not_or]
        exact ⟨by decide, by decide, hs.notMem (by decide)⟩
      · apply not_irregularPart
        · intro c hc
          rw [List.mem_cons, List.mem_cons] at hc
          rcases hc with rfl | rfl | hc
          · exact .inr (by decide)
          · exact .inr (by decide)
          · exact .inl (hs.digits c hc)
        · rw [List.count_cons_of_ne (by decide), List.count_cons_of_ne (by decide),
            List.count_eq_zero_of_not_mem (hs.notMem (by decide))]
          exact Nat.zero_le 1
  | parts hparts =>
      rw [irregular_iff]
      rintro ⟨part, hpart, hirregular⟩
      obtain ⟨first, last, hread⟩ := hparts part hpart
      exact hread.regular hirregular

/-- The two grammars give a field the same values where they both give some. -/
theorem values_congr (h : ∀ part ∈ field.splitOn ',', ∀ first last,
      Part min max part first last ↔ ReadPart min max part first last) :
    (fun v => ∃ part ∈ field.splitOn ',', ∃ first last, Part min max part first last ∧
      first ≤ v ∧ v ≤ last) =
    (fun v => ∃ part ∈ field.splitOn ',', ∃ first last, ReadPart min max part first last ∧
      first ≤ v ∧ v ≤ last) := by
  funext v
  refine propext (exists_congr (fun part => and_congr_right (fun hpart => ?_)))
  exact exists_congr (fun first => exists_congr (fun last => and_congr_left' (h part hpart _ _)))

theorem part_iff_readPart (h : ¬ Irregular field) (hpart : part ∈ field.splitOn ',')
    (first last : ℕ) : Part min max part first last ↔ ReadPart min max part first last := by
  constructor
  · exact Part.read
  · intro hread
    apply hread.regular
    intro hirregular
    exact h (irregular_iff.2 ⟨part, hpart, hirregular⟩)

theorem readField_of_field (h : Field min max field S) (hbig : ¬ BigStep field) :
    ReadField min max field S := by
  have hregular := FieldOf.regular h
  cases h with
  | star => exact .star
  | @step cs s hs hpos =>
      refine .step ⟨.inl hs, ?_⟩ hpos
      by_contra hlarge
      exact hbig ⟨cs, s, rfl, hs, by omega⟩
  | parts hparts =>
      rw [values_congr (fun _ hpart => part_iff_readPart hregular hpart)]
      apply FieldOf.parts
      intro part hpart
      obtain ⟨first, last, hread⟩ := hparts part hpart
      exact ⟨first, last, hread.read⟩

theorem field_of_readField (h : ReadField min max field S) (hregular : ¬ Irregular field) :
    Field min max field S := by
  cases h with
  | star => exact .star
  | @step cs s hs hpos =>
      refine .step (hs.1.decimal ?_) hpos
      intro hplus
      exact hregular (.inl (by simp [hplus]))
  | parts hparts =>
      rw [← values_congr (fun _ hpart => part_iff_readPart hregular hpart)]
      apply FieldOf.parts
      intro part hpart
      obtain ⟨first, last, hread⟩ := hparts part hpart
      exact ⟨first, last, (part_iff_readPart hregular hpart first last).2 hread⟩

/-- A step that does not fit into a byte is not read. -/
theorem not_readField_bigStep (h : BigStep field) : ¬ ReadField min max field S := by
  obtain ⟨cs, s, rfl, hs, hbig⟩ := h
  intro hread
  generalize hfield : '*' :: '/' :: cs = field at hread
  cases hread with
  | star => cases hfield
  | step hs' =>
      obtain rfl := (List.cons.inj (List.cons.inj hfield).2).2
      rw [hs.signed_iff] at hs'
      omega
  | parts hparts => exact head_ne_star hparts _ hfield.symm

theorem exact_iff_of_le (hle : min ≤ max) (hmax : max ≤ 255) :
    Exact min max field ↔
      ¬ BigStep field ∧ ((∃ S, ReadField min max field S) → ¬ Irregular field) := by
  constructor
  · intro h
    constructor
    · intro hbig
      obtain ⟨cs, s, rfl, hs, hlarge⟩ := id hbig
      obtain ⟨values, hvalues, -⟩ := h.accepts _ (.step hs (by omega))
      obtain ⟨S, hread⟩ := parseField_reads hmax hvalues
      exact not_readField_bigStep hbig hread
    · rintro ⟨S, hread⟩ hirregular
      obtain ⟨values, hvalues, -⟩ := parseField_accepts hle hmax hread
      obtain ⟨e, he⟩ := h.rejects (fun S' hS' => FieldOf.regular hS' hirregular)
      cases hvalues.symm.trans he
  · rintro ⟨hbig, hregular⟩
    constructor
    · exact fun S hS => parseField_accepts hle hmax (readField_of_field hS hbig)
    · intro hnone
      cases hparse : parseField field min max with
      | error e => exact ⟨e, rfl⟩
      | ok values =>
          obtain ⟨S, hread⟩ := parseField_reads hmax hparse
          exact absurd (field_of_readField hread (hregular ⟨S, hread⟩)) (hnone S)

end Forms

inductive FieldName
  | minute
  | hour
  | day
  | month
  | weekday

namespace FieldName

def min : FieldName → ℕ
  | .minute | .hour | .weekday => 0
  | .day | .month => 1

def max : FieldName → ℕ
  | .minute => 59
  | .hour => 23
  | .day => 31
  | .month => 12
  | .weekday => 6

end FieldName

/-- The parser is exact on a field, with the bounds of any of the five, if and only if the field is
not a step that is too large for a byte, and not one that is read although it is irregular. -/
theorem exact_iff (name : FieldName) (field : List Char) :
    Exact name.min name.max field ↔
      ¬ BigStep field ∧ ((∃ S, ReadField name.min name.max field S) → ¬ Irregular field) := by
  cases name <;> exact exact_iff_of_le (by decide) (by decide)

/-- The third number of `1-2-3` is ignored. -/
theorem not_exact : ¬ Exact FieldName.minute.min FieldName.minute.max "1-2-3".toList := by
  intro h
  have hnone (S : ℕ → Prop) : ¬ Field FieldName.minute.min FieldName.minute.max "1-2-3".toList S :=
    fun hS => FieldOf.regular hS (.inr (.inr ⟨"1-2-3".toList, by decide, by decide⟩))
  obtain ⟨e, he⟩ := h.rejects hnone
  cases he

end Rszero.Cron
