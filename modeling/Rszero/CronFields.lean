import Rszero.CronExpr

/-!
# What the fields of a cron expression denote

The documented forms of a field as a grammar, beside the forms that the parser reads: it also takes
a plus sign before a number, blanks around the ends of a range and anything behind a second hyphen,
and does not take a step that does not fit into a byte.
-/

namespace Rszero.Cron

def decimalValue (n : ℕ) (cs : List Char) : ℕ := cs.foldl (fun n c => n * 10 + digitValue c) n

structure Decimal (cs : List Char) (n : ℕ) : Prop where
  ne_nil : cs ≠ []
  digits : ∀ c ∈ cs, c.isDigit
  value : decimalValue 0 cs = n

def Signed (cs : List Char) (n : ℕ) : Prop :=
  Decimal cs n ∨ ∃ digits, cs = '+' :: digits ∧ Decimal digits n

/-- A part denotes the values from `first` to `last`. -/
inductive Part (min max : ℕ) : List Char → ℕ → ℕ → Prop
  | number {cs : List Char} {n : ℕ} (h : Decimal cs n) (hmin : min ≤ n) (hmax : n ≤ max) :
      Part min max cs n n
  | range {as bs : List Char} {first last : ℕ} (ha : Decimal as first) (hb : Decimal bs last)
      (hmin : min ≤ first) (hle : first ≤ last) (hmax : last ≤ max) :
      Part min max (as ++ '-' :: bs) first last

/-- A part as the parser reads it; `rest` is what it leaves out. -/
inductive ReadPart (min max : ℕ) : List Char → ℕ → ℕ → Prop
  | number {cs : List Char} {n : ℕ} (h : Signed cs n) (hmin : min ≤ n) (hmax : n ≤ max) :
      ReadPart min max cs n n
  | range {as bs rest : List Char} {first last : ℕ} (has : '-' ∉ as) (hbs : '-' ∉ bs)
      (hrest : rest = [] ∨ ∃ more, rest = '-' :: more) (ha : Signed (trim as) first)
      (hb : Signed (trim bs) last) (hmin : min ≤ first) (hle : first ≤ last) (hmax : last ≤ max) :
      ReadPart min max (as ++ '-' :: (bs ++ rest)) first last

/-- A field, the parts and the steps of which are as given, denotes a set of values. -/
inductive FieldOf (Step : List Char → ℕ → Prop) (Part : List Char → ℕ → ℕ → Prop) (min max : ℕ) :
    List Char → (ℕ → Prop) → Prop
  | star : FieldOf Step Part min max ['*'] (fun v => min ≤ v ∧ v ≤ max)
  | step {cs : List Char} {s : ℕ} (h : Step cs s) (hs : 1 ≤ s) :
      FieldOf Step Part min max ('*' :: '/' :: cs) (fun v => min ≤ v ∧ v ≤ max ∧ s ∣ v - min)
  | parts {field : List Char} (h : ∀ part ∈ field.splitOn ',', ∃ first last, Part part first last) :
      FieldOf Step Part min max field
        (fun v => ∃ part ∈ field.splitOn ',', ∃ first last, Part part first last ∧
          first ≤ v ∧ v ≤ last)

/-- The documented forms. -/
abbrev Field (min max : ℕ) : List Char → (ℕ → Prop) → Prop :=
  FieldOf Decimal (Part min max) min max

/-- The forms that the parser reads. -/
abbrev ReadField (min max : ℕ) : List Char → (ℕ → Prop) → Prop :=
  FieldOf (fun cs s => Signed cs s ∧ s ≤ 255) (ReadPart min max) min max

structure Lists (min max : ℕ) (S : ℕ → Prop) (values : List ℕ) : Prop where
  ascending : values.Pairwise (· < ·)
  ne_nil : values ≠ []
  bounds : ∀ v ∈ values, min ≤ v ∧ v ≤ max
  mem_iff : ∀ v, v ∈ values ↔ S v

/-- The parser takes the documented forms, with the values that they denote, and nothing else. -/
structure Exact (min max : ℕ) (field : List Char) : Prop where
  accepts : ∀ S, Field min max field S →
    ∃ values, parseField field min max = .ok values ∧ Lists min max S values
  rejects : (∀ S, ¬ Field min max field S) → ∃ e, parseField field min max = .error e

/-- A step in decimals that does not fit into a byte. -/
def BigStep (field : List Char) : Prop :=
  ∃ cs s, field = '*' :: '/' :: cs ∧ Decimal cs s ∧ 255 < s

def Irregular (field : List Char) : Prop :=
  '+' ∈ field ∨ (∃ c ∈ field, isWhitespace c) ∨ ∃ part ∈ field.splitOn ',', 2 ≤ part.count '-'

theorem le_decimalValue (n : ℕ) (cs : List Char) : n ≤ decimalValue n cs := by
  induction cs generalizing n with
  | nil => exact Nat.le_refl n
  | cons c cs ih =>
      have hle := ih (n * 10 + digitValue c)
      change n ≤ decimalValue (n * 10 + digitValue c) cs
      omega

theorem parseDigits_eq_ok {n m : ℕ} (hn : n ≤ 255) (cs : List Char) :
    parseDigits n cs = .ok m ↔ (∀ c ∈ cs, c.isDigit) ∧ decimalValue n cs = m ∧ m ≤ 255 := by
  induction cs generalizing n with
  | nil =>
      rw [parseDigits, Except.ok.injEq]
      constructor
      · rintro rfl
        exact ⟨by simp, rfl, hn⟩
      · exact fun h => h.2.1
  | cons c cs ih =>
      have hvalue : decimalValue n (c :: cs) = decimalValue (n * 10 + digitValue c) cs := rfl
      rw [parseDigits, hvalue, List.forall_mem_cons]
      by_cases hc : c.isDigit
      · rw [if_pos hc]
        by_cases hle : n * 10 + digitValue c ≤ 255
        · rw [if_pos hle, ih hle, and_iff_right hc]
        · rw [if_neg hle]
          apply iff_of_false
          · intro h
            cases h
          · rintro ⟨-, hm, hm255⟩
            have hlarge := le_decimalValue (n * 10 + digitValue c) cs
            omega
      · rw [if_neg hc]
        apply iff_of_false
        · intro h
          cases h
        · exact fun h => hc h.1.1

theorem decimal_iff_parseDigits {cs : List Char} (hne : cs ≠ []) {n : ℕ} :
    parseDigits 0 cs = .ok n ↔ Decimal cs n ∧ n ≤ 255 := by
  rw [parseDigits_eq_ok (by decide)]
  constructor
  · rintro ⟨hdigits, hvalue, hle⟩
    exact ⟨⟨hne, hdigits, hvalue⟩, hle⟩
  · rintro ⟨h, hle⟩
    exact ⟨h.digits, h.value, hle⟩

theorem not_decimal_nil {n : ℕ} : ¬ Decimal [] n := fun h => h.ne_nil rfl

theorem signed_plus_iff {cs : List Char} {n : ℕ} : Signed ('+' :: cs) n ↔ Decimal cs n := by
  constructor
  · rintro (h | ⟨digits, heq, h⟩)
    · exact absurd (h.digits '+' (by simp)) (by decide)
    · rwa [(List.cons.inj heq).2]
  · exact fun h => .inr ⟨cs, rfl, h⟩

theorem signed_iff_decimal {cs : List Char} (hcs : ∀ rest, cs ≠ '+' :: rest) {n : ℕ} :
    Signed cs n ↔ Decimal cs n := by
  constructor
  · rintro (h | ⟨digits, heq, -⟩)
    · exact h
    · exact absurd heq (hcs digits)
  · exact .inl

theorem parseU8_eq_ok {n : ℕ} (cs : List Char) : parseU8 cs = .ok n ↔ Signed cs n ∧ n ≤ 255 := by
  unfold parseU8
  split
  · rw [signed_iff_decimal (by simp)]
    exact iff_of_false (fun h => nomatch h) (fun h => not_decimal_nil h.1)
  · rw [signed_plus_iff]
    exact iff_of_false (fun h => nomatch h) (fun h => not_decimal_nil h.1)
  · next cs hne =>
      rw [signed_plus_iff]
      exact decimal_iff_parseDigits hne
  · next cs hnil hplus hsign =>
      rw [signed_iff_decimal hsign]
      exact decimal_iff_parseDigits hnil

theorem parseNumber_eq_ok {what : String} {part cs : List Char} {n : ℕ} :
    parseNumber what part cs = .ok n ↔ Signed cs n ∧ n ≤ 255 := by
  rw [← parseU8_eq_ok]
  unfold parseNumber
  cases parseU8 cs with
  | ok m => simp only [Except.ok.injEq]
  | error e => exact iff_of_false (fun h => nomatch h) (fun h => nomatch h)

theorem bind_eq_ok {α β : Type} {x : Except RszeroError α} {f : α → Except RszeroError β} {b : β} :
    (x >>= f) = .ok b ↔ ∃ a, x = .ok a ∧ f a = .ok b := by
  cases x with
  | ok a =>
      constructor
      · exact fun h => ⟨a, rfl, h⟩
      · rintro ⟨a', ha, h⟩
        rwa [Except.ok.inj ha]
  | error e => exact iff_of_false (fun h => nomatch h) (fun ⟨_, h, _⟩ => nomatch h)

/-- The first hyphen, and the next one if there is one. -/
theorem exists_pieces {part : List Char} (h : '-' ∈ part) :
    ∃ as bs rest, part = as ++ '-' :: (bs ++ rest) ∧ '-' ∉ as ∧ '-' ∉ bs ∧
      (rest = [] ∨ ∃ more, rest = '-' :: more) := by
  obtain ⟨as, tail, rfl, has⟩ := List.eq_append_cons_of_mem h
  by_cases htail : '-' ∈ tail
  · obtain ⟨bs, more, rfl, hbs⟩ := List.eq_append_cons_of_mem htail
    exact ⟨as, bs, '-' :: more, rfl, has, hbs, .inr ⟨more, rfl⟩⟩
  · exact ⟨as, tail, [], by rw [List.append_nil], has, htail, .inl rfl⟩

theorem splitOn_pieces {as bs rest : List Char} (has : '-' ∉ as) (hbs : '-' ∉ bs)
    (hrest : rest = [] ∨ ∃ more, rest = '-' :: more) :
    ∃ more, (as ++ '-' :: (bs ++ rest)).splitOn '-' = as :: bs :: more := by
  rw [List.splitOn_append_cons_self_of_not_mem has]
  rcases hrest with rfl | ⟨more, rfl⟩
  · rw [List.append_nil, List.splitOn_eq_singleton hbs]
    exact ⟨[], rfl⟩
  · rw [List.splitOn_append_cons_self_of_not_mem hbs]
    exact ⟨more.splitOn '-', rfl⟩

theorem hyphen_notMem_of_signed {cs : List Char} {n : ℕ} (h : Signed cs n) : '-' ∉ cs := by
  have hdigits {ds : List Char} (hd : Decimal ds n) : '-' ∉ ds :=
    fun hmem => absurd (hd.digits '-' hmem) (by decide)
  rcases h with h | ⟨digits, rfl, h⟩
  · exact hdigits h
  · rw [List.mem_cons, not_or]
    exact ⟨by decide, hdigits h⟩

variable {min max : ℕ}

theorem parsePart_number {part : List Char} (hpart : '-' ∉ part) (hmax : max ≤ 255)
    {values : List ℕ} : parsePart part min max = .ok values ↔
      ∃ n, Signed part n ∧ min ≤ n ∧ n ≤ max ∧ values = [n] := by
  rw [parsePart, if_neg hpart, bind_eq_ok]
  simp only [parseNumber_eq_ok]
  constructor
  · rintro ⟨n, ⟨hn, -⟩, h⟩
    by_cases hbounds : n < min ∨ n > max
    · rw [if_pos hbounds] at h
      cases h
    · rw [if_neg hbounds] at h
      cases h
      exact ⟨n, hn, by omega, by omega, rfl⟩
  · rintro ⟨n, hn, hmin, hle, rfl⟩
    refine ⟨n, ⟨hn, by omega⟩, ?_⟩
    rw [if_neg (by omega)]
    rfl

theorem parsePart_range {as bs rest : List Char} (has : '-' ∉ as) (hbs : '-' ∉ bs)
    (hrest : rest = [] ∨ ∃ more, rest = '-' :: more) (hmax : max ≤ 255) {values : List ℕ} :
    parsePart (as ++ '-' :: (bs ++ rest)) min max = .ok values ↔
      ∃ first last, Signed (trim as) first ∧ Signed (trim bs) last ∧ min ≤ first ∧ first ≤ last ∧
        last ≤ max ∧ values = rangeInclusive first last := by
  obtain ⟨more, hpieces⟩ := splitOn_pieces has hbs hrest
  rw [parsePart, if_pos (by simp), hpieces]
  simp only [bind_eq_ok, parseNumber_eq_ok, List.getElem?_cons_zero, List.getElem?_cons_succ,
    Option.getD_some]
  constructor
  · rintro ⟨first, ⟨ha, -⟩, last, ⟨hb, -⟩, h⟩
    by_cases hbounds : first > last ∨ first < min ∨ last > max
    · rw [if_pos hbounds] at h
      cases h
    · rw [if_neg hbounds] at h
      cases h
      exact ⟨first, last, ha, hb, by omega, by omega, by omega, rfl⟩
  · rintro ⟨first, last, ha, hb, hmin, hle, hlast, rfl⟩
    refine ⟨first, ⟨ha, by omega⟩, last, ⟨hb, by omega⟩, ?_⟩
    rw [if_neg (by omega)]
    rfl

theorem rangeInclusive_self (n : ℕ) : rangeInclusive n n = [n] := by
  rw [rangeInclusive, Nat.add_sub_cancel_left]
  rfl

/-- What `parse_part` reads. -/
theorem parsePart_eq_ok {part : List Char} (hmax : max ≤ 255) {values : List ℕ} :
    parsePart part min max = .ok values ↔
      ∃ first last, ReadPart min max part first last ∧ values = rangeInclusive first last := by
  constructor
  · intro h
    by_cases hpart : '-' ∈ part
    · obtain ⟨as, bs, rest, rfl, has, hbs, hrest⟩ := exists_pieces hpart
      obtain ⟨first, last, ha, hb, hmin, hle, hlast, rfl⟩ :=
        (parsePart_range has hbs hrest hmax).1 h
      exact ⟨first, last, .range has hbs hrest ha hb hmin hle hlast, rfl⟩
    · obtain ⟨n, hn, hmin, hle, rfl⟩ := (parsePart_number hpart hmax).1 h
      exact ⟨n, n, .number hn hmin hle, (rangeInclusive_self n).symm⟩
  · rintro ⟨first, last, h, rfl⟩
    cases h with
    | number hn hmin hle =>
        rw [rangeInclusive_self]
        exact (parsePart_number (hyphen_notMem_of_signed hn) hmax).2 ⟨_, hn, hmin, hle, rfl⟩
    | range has hbs hrest ha hb hmin hle hlast =>
        exact (parsePart_range has hbs hrest hmax).2 ⟨_, _, ha, hb, hmin, hle, hlast, rfl⟩

/-- A part is read in one way only. -/
theorem ReadPart.values_eq (hmax : max ≤ 255) {part : List Char} {first last first' last' : ℕ}
    (h : ReadPart min max part first last) (h' : ReadPart min max part first' last') :
    rangeInclusive first last = rangeInclusive first' last' := by
  have hread := (parsePart_eq_ok hmax).2 ⟨first, last, h, rfl⟩
  have hread' := (parsePart_eq_ok hmax).2 ⟨first', last', h', rfl⟩
  exact Except.ok.inj (hread.symm.trans hread')

theorem ReadPart.bounds {part : List Char} {first last : ℕ}
    (h : ReadPart min max part first last) : min ≤ first ∧ first ≤ last ∧ last ≤ max := by
  cases h with
  | number _ hmin hle => exact ⟨hmin, Nat.le_refl _, hle⟩
  | range _ _ _ _ _ hmin hle hlast => exact ⟨hmin, hle, hlast⟩

theorem parseParts_reads (hmax : max ≤ 255) {parts : List (List Char)} {values : List ℕ}
    (h : parseParts min max parts = .ok values) :
    ∀ part ∈ parts, ∃ first last, ReadPart min max part first last := by
  induction parts generalizing values with
  | nil => simp
  | cons part parts ih =>
      obtain ⟨values, hpart, hrest⟩ := bind_eq_ok.1 h
      obtain ⟨rest, hparts, -⟩ := bind_eq_ok.1 hrest
      obtain ⟨first, last, hread, -⟩ := (parsePart_eq_ok hmax).1 hpart
      rw [List.forall_mem_cons]
      exact ⟨⟨first, last, hread⟩, ih hparts⟩

theorem parseParts_accepts (hmax : max ≤ 255) {parts : List (List Char)}
    (h : ∀ part ∈ parts, ∃ first last, ReadPart min max part first last) :
    ∃ values, parseParts min max parts = .ok values ∧
      ∀ v, v ∈ values ↔ ∃ part ∈ parts, ∃ first last, ReadPart min max part first last ∧
        first ≤ v ∧ v ≤ last := by
  induction parts with
  | nil => exact ⟨[], rfl, by simp⟩
  | cons part parts ih =>
      rw [List.forall_mem_cons] at h
      obtain ⟨⟨first, last, hread⟩, hparts⟩ := h
      obtain ⟨rest, hrest, hmem⟩ := ih hparts
      refine ⟨rangeInclusive first last ++ rest, ?_, ?_⟩
      · have hpart := (parsePart_eq_ok hmax).2 ⟨first, last, hread, rfl⟩
        exact bind_eq_ok.2 ⟨_, hpart, bind_eq_ok.2 ⟨rest, hrest, rfl⟩⟩
      · intro v
        rw [List.mem_append, hmem v, List.exists_mem_cons_iff]
        refine or_congr_left ?_
        constructor
        · exact fun hv => ⟨first, last, hread, mem_rangeInclusive.1 hv⟩
        · rintro ⟨first', last', hread', hv⟩
          rw [hread.values_eq hmax hread']
          exact mem_rangeInclusive.2 hv

theorem mem_dedup {v : ℕ} (values : List ℕ) : v ∈ dedup values ↔ v ∈ values := by
  induction values using dedup.induct with
  | case1 | case2 => rfl
  | case3 w values ih =>
      rw [dedup, if_pos rfl, ih]
      simp
  | case4 w x values hne ih =>
      rw [dedup, if_neg hne, List.mem_cons, ih]
      exact List.mem_cons.symm

/-- What is sorted has no repetitions left. -/
theorem pairwise_dedup {values : List ℕ} (h : values.Pairwise (· ≤ ·)) :
    (dedup values).Pairwise (· < ·) := by
  induction values using dedup.induct with
  | case1 => exact List.Pairwise.nil
  | case2 v => exact List.pairwise_singleton ..
  | case3 w values ih =>
      rw [dedup, if_pos rfl]
      exact ih h.of_cons
  | case4 w x values hne ih =>
      rw [dedup, if_neg hne, List.pairwise_cons]
      refine ⟨?_, ih h.of_cons⟩
      intro v hv
      rw [mem_dedup, List.mem_cons] at hv
      rw [List.pairwise_cons, List.pairwise_cons] at h
      have hle : w ≤ x := h.1 x (by simp)
      rcases hv with rfl | hv
      · omega
      · have hxv := h.2.1 v hv
        omega

theorem lists_rangeInclusive {first last : ℕ} (hmin : min ≤ first) (hle : first ≤ last)
    (hmax : last ≤ max) :
    Lists min max (fun v => first ≤ v ∧ v ≤ last) (rangeInclusive first last) where
  ascending := List.pairwise_lt_range'
  ne_nil := List.ne_nil_of_mem (mem_rangeInclusive.2 ⟨Nat.le_refl first, hle⟩)
  bounds v hv := by
    have hbounds := mem_rangeInclusive.1 hv
    omega
  mem_iff _ := mem_rangeInclusive

theorem mem_steps {step v : ℕ} (hstep : 1 ≤ step) (hle : min ≤ max) :
    v ∈ List.range' min ((max - min) / step + 1) step ↔ min ≤ v ∧ v ≤ max ∧ step ∣ v - min := by
  rw [List.mem_range']
  constructor
  · rintro ⟨i, hi, rfl⟩
    have hmul : step * i ≤ max - min :=
      (Nat.mul_le_mul_left step (Nat.lt_succ_iff.1 hi)).trans (Nat.mul_div_le ..)
    exact ⟨by omega, by omega, by rw [Nat.add_sub_cancel_left]; exact Nat.dvd_mul_right ..⟩
  · rintro ⟨hmin, hmax, i, hi⟩
    refine ⟨i, ?_, by omega⟩
    rw [Nat.lt_succ_iff, Nat.le_div_iff_mul_le hstep, Nat.mul_comm, ← hi]
    omega

theorem lists_steps {step : ℕ} (hstep : 1 ≤ step) (hle : min ≤ max) :
    Lists min max (fun v => min ≤ v ∧ v ≤ max ∧ step ∣ v - min)
      (List.range' min ((max - min) / step + 1) step) where
  ascending := List.pairwise_lt_range' step hstep
  ne_nil := List.ne_nil_of_mem
    ((mem_steps hstep hle).2 ⟨Nat.le_refl min, hle, by rw [Nat.sub_self]; exact Nat.dvd_zero _⟩)
  bounds v hv := by
    have hbounds := (mem_steps hstep hle).1 hv
    exact ⟨hbounds.1, hbounds.2.1⟩
  mem_iff _ := mem_steps hstep hle

theorem not_signed_star {cs : List Char} {n : ℕ} : ¬ Signed ('*' :: cs) n := by
  rw [signed_iff_decimal (by simp)]
  exact fun h => absurd (h.digits '*' (by simp)) (by decide)

theorem trim_star (cs : List Char) : ∃ rest, trim ('*' :: cs) = '*' :: rest := by
  have hstar : isWhitespace '*' = false := by decide
  rw [trim, List.dropWhile_cons_of_neg (by simp [hstar])]
  have hinit := List.rdropWhile_prefix isWhitespace (l := '*' :: cs)
  cases htrim : List.rdropWhile isWhitespace ('*' :: cs) with
  | nil =>
      have hall := List.rdropWhile_eq_nil_iff.1 htrim '*' (by simp)
      exact absurd hall (by simp [hstar])
  | cons c rest =>
      rw [htrim, List.cons_prefix_cons] at hinit
      exact ⟨rest, by rw [hinit.1]⟩

/-- No part begins with a star. -/
theorem not_readPart_star {cs : List Char} {first last : ℕ} :
    ¬ ReadPart min max ('*' :: cs) first last := by
  intro h
  generalize hpart : '*' :: cs = part at h
  cases h with
  | number hn =>
      rw [← hpart] at hn
      exact not_signed_star hn
  | @range as bs rest _ _ _ _ _ ha =>
      cases as with
      | nil => cases hpart
      | cons a as =>
          obtain rfl := (List.cons.inj hpart).1
          obtain ⟨trimmed, htrim⟩ := trim_star as
          rw [htrim] at ha
          exact not_signed_star ha

theorem head_ne_star {field : List Char}
    (h : ∀ part ∈ field.splitOn ',', ∃ first last, ReadPart min max part first last)
    (cs : List Char) : field ≠ '*' :: cs := by
  rintro rfl
  obtain ⟨piece, pieces, hpieces⟩ := List.exists_cons_of_ne_nil (List.splitOn_ne_nil ',' cs)
  have hsplit : ('*' :: cs).splitOn ',' = ('*' :: piece) :: pieces := by
    rw [List.splitOn_cons_eq_if_modifyHead, hpieces]
    rfl
  obtain ⟨first, last, hread⟩ := h ('*' :: piece) (by simp [hsplit])
  exact not_readPart_star hread

theorem parseField_of_ne {field : List Char} (hstar : field ≠ ['*'])
    (hstep : ∀ rest, field ≠ '*' :: '/' :: rest) :
    parseField field min max =
      if ',' ∈ field then (parseParts min max (field.splitOn ',')).map sortDedup
      else parsePart field min max := by
  unfold parseField
  split
  · exact absurd rfl hstar
  · exact absurd rfl (hstep _)
  · split_ifs
    · cases parseParts min max (field.splitOn ',') <;> rfl
    · rfl

/-- The parser takes what it reads, with the values that it denotes. -/
theorem parseField_accepts (hle : min ≤ max) (hmax : max ≤ 255) {field : List Char}
    {S : ℕ → Prop} (h : ReadField min max field S) :
    ∃ values, parseField field min max = .ok values ∧ Lists min max S values := by
  cases h with
  | star =>
      exact ⟨_, rfl, lists_rangeInclusive (Nat.le_refl min) hle (Nat.le_refl max)⟩
  | @step cs s hs hpos =>
      refine ⟨_, ?_, lists_steps hpos hle⟩
      refine bind_eq_ok.2 ⟨s, parseNumber_eq_ok.2 hs, ?_⟩
      rw [if_neg (by omega)]
      rfl
  | parts hparts =>
      rw [parseField_of_ne (head_ne_star hparts _) (fun rest => head_ne_star hparts _)]
      by_cases hcomma : ',' ∈ field
      · rw [if_pos hcomma]
        obtain ⟨values, hvalues, hmem⟩ := parseParts_accepts hmax hparts
        rw [hvalues]
        refine ⟨sortDedup values, rfl, ?_⟩
        have hsorted := List.pairwise_insertionSort (· ≤ ·) values
        have hmem' (v : ℕ) : v ∈ sortDedup values ↔ v ∈ values := by
          rw [sortDedup, mem_dedup, List.mem_insertionSort]
        refine ⟨pairwise_dedup hsorted, ?_, ?_, fun v => (hmem' v).trans (hmem v)⟩
        · obtain ⟨piece, pieces, hpieces⟩ :=
            List.exists_cons_of_ne_nil (List.splitOn_ne_nil ',' field)
          obtain ⟨first, last, hread⟩ := hparts piece (by simp [hpieces])
          apply List.ne_nil_of_mem (a := first)
          rw [hmem', hmem]
          exact ⟨piece, by simp [hpieces], first, last, hread, Nat.le_refl _, hread.bounds.2.1⟩
        · intro v hv
          obtain ⟨piece, -, first, last, hread, hv⟩ := (hmem v).1 ((hmem' v).1 hv)
          have hbounds := hread.bounds
          omega
      · rw [if_neg hcomma]
        rw [List.splitOn_eq_singleton hcomma] at hparts ⊢
        obtain ⟨first, last, hread⟩ := hparts field (by simp)
        obtain ⟨hmin, hfirst, hlast⟩ := hread.bounds
        have hlists := lists_rangeInclusive hmin hfirst hlast
        refine ⟨_, (parsePart_eq_ok hmax).2 ⟨first, last, hread, rfl⟩, hlists.ascending,
          hlists.ne_nil, hlists.bounds, ?_⟩
        intro v
        constructor
        · exact fun hv => ⟨field, by simp, first, last, hread, (hlists.mem_iff v).1 hv⟩
        · rintro ⟨piece, hpiece, first', last', hread', hv⟩
          obtain rfl := List.mem_singleton.1 hpiece
          rw [hread.values_eq hmax hread']
          exact mem_rangeInclusive.2 hv

/-- The parser takes nothing but what it reads. -/
theorem parseField_reads (hmax : max ≤ 255) {field : List Char} {values : List ℕ}
    (h : parseField field min max = .ok values) : ∃ S, ReadField min max field S := by
  by_cases hstar : field = ['*']
  · subst hstar
    exact ⟨_, .star⟩
  by_cases hstep : ∃ rest, field = '*' :: '/' :: rest
  · obtain ⟨rest, rfl⟩ := hstep
    obtain ⟨s, hs, h⟩ := bind_eq_ok.1 h
    have hpos : 1 ≤ s := by
      by_contra hzero
      rw [if_pos (by omega)] at h
      cases h
    exact ⟨_, .step (parseNumber_eq_ok.1 hs) hpos⟩
  refine ⟨_, .parts ?_⟩
  rw [parseField_of_ne hstar (fun rest hrest => hstep ⟨rest, hrest⟩)] at h
  by_cases hcomma : ',' ∈ field
  · rw [if_pos hcomma] at h
    cases hparts : parseParts min max (field.splitOn ',') with
    | ok values => exact parseParts_reads hmax hparts
    | error e =>
        rw [hparts] at h
        cases h
  · rw [if_neg hcomma] at h
    obtain ⟨first, last, hread, -⟩ := (parsePart_eq_ok hmax).1 h
    rw [List.splitOn_eq_singleton hcomma]
    intro part hpart
    rw [List.mem_singleton.1 hpart]
    exact ⟨first, last, hread⟩

end Rszero.Cron
