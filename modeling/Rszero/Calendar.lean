import Mathlib.Data.Int.Notation
import Mathlib.Data.Nat.Notation
import Mathlib.Tactic.Common
import Mathlib.Tactic.IntervalCases

/-!
# The Gregorian calendar

Dates of the proleptic Gregorian calendar, numbered by days, and the times of day. The year is any
integer. A leap second is a fraction of a second beyond the whole one.
-/

namespace Rszero.Calendar

def IsLeap (y : ℤ) : Prop := y % 4 = 0 ∧ (y % 100 ≠ 0 ∨ y % 400 = 0)

instance (y : ℤ) : Decidable (IsLeap y) := inferInstanceAs (Decidable (_ ∧ _))

def daysInMonth (y : ℤ) : ℕ → ℕ
  | 2 => if IsLeap y then 29 else 28
  | 4 | 6 | 9 | 11 => 30
  | _ => 31

def daysThrough (y : ℤ) : ℕ → ℕ
  | 0 => 0
  | m + 1 => daysThrough y m + daysInMonth y (m + 1)

def daysBeforeYear (y : ℤ) : ℤ := 365 * (y - 1) + (y - 1) / 4 - (y - 1) / 100 + (y - 1) / 400

theorem daysInMonth_bounds (y : ℤ) (m : ℕ) : 0 < daysInMonth y m ∧ daysInMonth y m ≤ 31 := by
  unfold daysInMonth
  split
  · split_ifs <;> omega
  · omega
  · omega
  · omega
  · omega
  · omega

theorem daysInMonth_pos (y : ℤ) (m : ℕ) : 0 < daysInMonth y m := (daysInMonth_bounds y m).1

theorem daysInMonth_le (y : ℤ) (m : ℕ) : daysInMonth y m ≤ 31 := (daysInMonth_bounds y m).2

theorem daysThrough_mono {y : ℤ} {m n : ℕ} (h : m ≤ n) : daysThrough y m ≤ daysThrough y n := by
  induction n, h using Nat.le_induction with
  | base => exact Nat.le_refl _
  | succ n _ ih => exact ih.trans (Nat.le_add_right _ _)

theorem daysInMonth_eq (y : ℤ) (m : ℕ) :
    daysInMonth y m = daysInMonth 1 m + if IsLeap y ∧ m = 2 then 1 else 0 := by
  have hone : ¬ IsLeap 1 := by decide
  by_cases hm : m = 2
  · subst hm
    by_cases hy : IsLeap y <;> simp [daysInMonth, hy, hone]
  · rw [if_neg (fun h => hm h.2)]
    unfold daysInMonth
    split <;> simp_all

/-- A leap year has one day more from its second month on. -/
theorem daysThrough_eq (y : ℤ) {m : ℕ} (hm : m ≤ 12) :
    daysThrough y m = daysThrough 1 m + if IsLeap y ∧ 2 ≤ m then 1 else 0 := by
  have hone : ¬ IsLeap 1 := by decide
  by_cases hy : IsLeap y
  · interval_cases m <;> simp [daysThrough, daysInMonth, hy, hone]
  · interval_cases m <;> simp [daysThrough, daysInMonth, hy, hone]

theorem daysBeforeYear_succ (y : ℤ) :
    daysBeforeYear (y + 1) = daysBeforeYear y + daysThrough y 12 := by
  have hcommon : daysThrough 1 12 = 365 := by decide
  rw [daysThrough_eq y (Nat.le_refl 12), hcommon]
  unfold daysBeforeYear
  split_ifs with hy
  · obtain ⟨⟨h4, h⟩, -⟩ := hy
    push_cast
    omega
  · have hleap : ¬ (y % 4 = 0 ∧ (y % 100 ≠ 0 ∨ y % 400 = 0)) := fun h => hy ⟨h, by decide⟩
    push_cast
    omega

theorem daysBeforeYear_mono {y z : ℤ} (h : y ≤ z) : daysBeforeYear y ≤ daysBeforeYear z := by
  unfold daysBeforeYear
  omega

theorem daysBeforeYear_add_four (y : ℤ) :
    daysBeforeYear (y + 4) = daysBeforeYear y + 1461 ∨
      daysBeforeYear (y + 4) = daysBeforeYear y + 1460 ∧ ¬ IsLeap y := by
  unfold daysBeforeYear IsLeap
  omega

theorem daysBeforeYear_of_leap_add_four {y : ℤ} (hy : ¬ IsLeap y) (hz : IsLeap (y + 4)) :
    daysBeforeYear (y + 4) = daysBeforeYear y + 1460 := by
  unfold IsLeap at hy hz
  unfold daysBeforeYear
  omega

structure Date where
  year : ℤ
  month : ℕ
  day : ℕ
  one_le_month : 1 ≤ month
  month_le : month ≤ 12
  one_le_day : 1 ≤ day
  day_le : day ≤ daysInMonth year month
  deriving DecidableEq

def IsDate (y : ℤ) (m d : ℕ) : Prop := 1 ≤ m ∧ m ≤ 12 ∧ 1 ≤ d ∧ d ≤ daysInMonth y m

instance (y : ℤ) (m d : ℕ) : Decidable (IsDate y m d) := inferInstanceAs (Decidable (_ ∧ _))

namespace Date

def ofYmd (y : ℤ) (m d : ℕ) (h : IsDate y m d) : Date := ⟨y, m, d, h.1, h.2.1, h.2.2.1, h.2.2.2⟩

/-- The number of the day, the first day of the year 1 being the first. -/
def dayNumber (d : Date) : ℤ := daysBeforeYear d.year + daysThrough d.year (d.month - 1) + d.day

/-- Days from Sunday; the first day of the year 1 is a Monday. -/
def weekday (d : Date) : ℕ := (d.dayNumber % 7).toNat

def firstOf (y : ℤ) (m : ℕ) (h : 1 ≤ m) (h' : m ≤ 12) : Date :=
  ⟨y, m, 1, h, h', Nat.le_refl 1, daysInMonth_pos y m⟩

def succ (d : Date) : Date :=
  if h : d.day < daysInMonth d.year d.month then
    { d with day := d.day + 1, one_le_day := Nat.le_add_left 1 d.day, day_le := h }
  else if h : d.month < 12 then firstOf d.year (d.month + 1) (Nat.le_add_left 1 d.month) h
  else firstOf (d.year + 1) 1 (Nat.le_refl 1) (by omega)

/-- The date in that many years, or the last day of its month if there is no such date. -/
def addYears (d : Date) (n : ℕ) : Date where
  year := d.year + n
  month := d.month
  day := min d.day (daysInMonth (d.year + n) d.month)
  one_le_month := d.one_le_month
  month_le := d.month_le
  one_le_day := Nat.le_min.2 ⟨d.one_le_day, daysInMonth_pos _ _⟩
  day_le := Nat.min_le_right _ _

def Before (d e : Date) : Prop :=
  d.year < e.year ∨ d.year = e.year ∧ (d.month < e.month ∨ d.month = e.month ∧ d.day < e.day)

variable {d e : Date}

theorem ext (hy : d.year = e.year) (hm : d.month = e.month) (hd : d.day = e.day) : d = e := by
  cases d
  cases e
  cases hy
  cases hm
  cases hd
  rfl

/-- The days through the month of a date. -/
theorem daysThrough_month (d : Date) :
    daysThrough d.year d.month = daysThrough d.year (d.month - 1) + daysInMonth d.year d.month := by
  have hm : d.month - 1 + 1 = d.month := Nat.sub_add_cancel d.one_le_month
  conv_lhs => rw [← hm]
  rw [daysThrough, hm]

theorem dayNumber_le (d : Date) :
    d.dayNumber ≤ daysBeforeYear d.year + daysThrough d.year d.month := by
  have hday := d.day_le
  rw [dayNumber, daysThrough_month]
  omega

theorem lt_dayNumber (d : Date) :
    daysBeforeYear d.year + daysThrough d.year (d.month - 1) < d.dayNumber := by
  have hday := d.one_le_day
  rw [dayNumber]
  omega

theorem Before.dayNumber_lt (h : d.Before e) : d.dayNumber < e.dayNumber := by
  have hd := d.dayNumber_le
  have he := e.lt_dayNumber
  rcases h with hy | ⟨hy, hm | ⟨hm, hday⟩⟩
  · have hyear : daysThrough d.year d.month ≤ daysThrough d.year 12 := daysThrough_mono d.month_le
    have hnext := daysBeforeYear_succ d.year
    have hmono : daysBeforeYear (d.year + 1) ≤ daysBeforeYear e.year := daysBeforeYear_mono hy
    omega
  · have hmonth : daysThrough d.year d.month ≤ daysThrough d.year (e.month - 1) :=
      daysThrough_mono (by omega)
    rw [← hy] at he
    omega
  · rw [dayNumber, dayNumber, hy, hm]
    omega

theorem before_or_eq_or_before (d e : Date) : d.Before e ∨ d = e ∨ e.Before d := by
  unfold Before
  by_cases hy : d.year = e.year
  · by_cases hm : d.month = e.month
    · by_cases hd : d.day = e.day
      · exact .inr (.inl (ext hy hm hd))
      · omega
    · omega
  · omega

theorem before_iff : d.Before e ↔ d.dayNumber < e.dayNumber := by
  constructor
  · exact Before.dayNumber_lt
  · intro h
    rcases before_or_eq_or_before d e with hlt | rfl | hgt
    · exact hlt
    · omega
    · have hnumber := hgt.dayNumber_lt
      omega

theorem dayNumber_injective (h : d.dayNumber = e.dayNumber) : d = e := by
  rcases before_or_eq_or_before d e with hlt | heq | hgt
  · have hnumber := hlt.dayNumber_lt
    omega
  · exact heq
  · have hnumber := hgt.dayNumber_lt
    omega

theorem dayNumber_succ (d : Date) : d.succ.dayNumber = d.dayNumber + 1 := by
  have hday := d.day_le
  unfold succ
  split_ifs with h h'
  · rw [dayNumber, dayNumber]
    push_cast
    omega
  · have hthrough := d.daysThrough_month
    simp only [dayNumber, firstOf, Nat.add_sub_cancel]
    omega
  · have hthrough := d.daysThrough_month
    have hmonth : d.month = 12 := by
      have hle := d.month_le
      omega
    have hyear := daysBeforeYear_succ d.year
    have hzero : daysThrough (d.year + 1) 0 = 0 := rfl
    rw [hmonth] at hthrough h hday
    simp only [dayNumber, firstOf, hmonth, Nat.sub_self, hzero]
    omega

theorem weekday_lt (d : Date) : d.weekday < 7 := by
  unfold weekday
  omega

/-- Four years later the number is 1460 or 1461 days higher. -/
theorem dayNumber_addYears_four (d : Date) :
    d.dayNumber + 1460 ≤ (d.addYears 4).dayNumber ∧
      (d.addYears 4).dayNumber ≤ d.dayNumber + 1461 := by
  have hday := d.day_le
  have hmonth := d.month_le
  have hthrough := daysThrough_eq d.year (m := d.month - 1) (by omega)
  have hthrough' := daysThrough_eq (d.year + 4) (m := d.month - 1) (by omega)
  rw [daysInMonth_eq] at hday
  simp only [dayNumber, addYears, Nat.cast_ofNat]
  rw [hthrough, hthrough', daysInMonth_eq (d.year + 4)]
  have hyears := daysBeforeYear_add_four d.year
  by_cases hy : IsLeap d.year
  · by_cases hz : IsLeap (d.year + 4)
    · simp only [hy, hz, true_and, not_true_eq_false, and_false, or_false] at hday hyears ⊢
      split_ifs at hday ⊢ <;> omega
    · simp only [hy, hz, true_and, false_and, if_false, not_true_eq_false, and_false,
        or_false] at hday hyears ⊢
      split_ifs at hday ⊢ <;> omega
  · by_cases hz : IsLeap (d.year + 4)
    · have hyears' := daysBeforeYear_of_leap_add_four hy hz
      simp only [hy, hz, true_and, false_and, if_false] at hday ⊢
      split_ifs <;> omega
    · simp only [hy, hz, false_and, if_false] at hday ⊢
      omega

/-- Every day of a month of a leap year falls on every day of the week in some year. -/
theorem exists_weekday {m d w : ℕ} (hm : 1 ≤ m) (hm' : m ≤ 12) (hd : 1 ≤ d)
    (hd' : d ≤ daysInMonth 2000 m) (hw : w < 7) :
    ∃ date : Date, date.month = m ∧ date.day = d ∧ date.weekday = w := by
  have hthrough := daysThrough_eq 2000 (m := m - 1) (by omega)
  -- The leap years from 2000 to 2024 shift the weekday by five days each.
  obtain ⟨j, hj, hshift⟩ : ∃ j : ℕ, j ≤ 6 ∧
      (daysBeforeYear 2000 + daysThrough 2000 (m - 1) + d + 1461 * j) % 7 = w := by
    refine ⟨((3 * (w - (daysBeforeYear 2000 + daysThrough 2000 (m - 1) + d))) % 7).toNat, ?_, ?_⟩
    · omega
    · omega
  have hleap : IsLeap (2000 + 4 * j) := by
    unfold IsLeap
    omega
  have hyear : daysBeforeYear (2000 + 4 * j) = daysBeforeYear 2000 + 1461 * j := by
    unfold daysBeforeYear
    omega
  have hleap₀ : IsLeap 2000 := by decide
  have hthrough' := daysThrough_eq (2000 + 4 * j) (m := m - 1) (by omega)
  have hday := daysInMonth_eq (2000 + 4 * j) m
  rw [daysInMonth_eq] at hd'
  simp only [hleap, hleap₀, true_and] at hthrough hthrough' hday hd'
  refine ⟨⟨2000 + 4 * j, m, d, hm, hm', hd, by omega⟩, rfl, rfl, ?_⟩
  simp only [weekday, dayNumber, hyear]
  rw [hthrough', ← hthrough]
  omega

end Date

/-- `frac` counts nanoseconds; from a thousand million on they are those of a leap second. -/
structure DateTime where
  date : Date
  secs : ℕ
  frac : ℕ
  secs_lt : secs < 86400
  frac_lt : frac < 2000000000
  deriving DecidableEq

namespace DateTime

def midnight (date : Date) : DateTime := ⟨date, 0, 0, by omega, by omega⟩

def minute (t : DateTime) : ℕ := t.secs / 60 % 60

def hour (t : DateTime) : ℕ := t.secs / 3600

/-- The beginning of its minute. -/
def onTheMinute (t : DateTime) : DateTime :=
  { t with
    secs := t.secs - t.secs % 60
    frac := 0
    secs_lt := lt_of_le_of_lt (Nat.sub_le ..) t.secs_lt
    frac_lt := by omega }

/-- The time in a minute. A leap second has the fraction of the second before it by then. -/
def addMinute (t : DateTime) : DateTime where
  date := if t.secs + 60 < 86400 then t.date else t.date.succ
  secs := if t.secs + 60 < 86400 then t.secs + 60 else t.secs + 60 - 86400
  frac := if t.frac < 1000000000 then t.frac else t.frac - 1000000000
  secs_lt := by
    have hsecs := t.secs_lt
    split_ifs <;> omega
  frac_lt := by
    have hfrac := t.frac_lt
    split_ifs <;> omega

def addYears (t : DateTime) (n : ℕ) : DateTime := { t with date := t.date.addYears n }

def Before (t u : DateTime) : Prop :=
  t.date.Before u.date ∨
    t.date = u.date ∧ (t.secs < u.secs ∨ t.secs = u.secs ∧ t.frac < u.frac)

def IsMinute (t : DateTime) : Prop := t.secs % 60 = 0 ∧ t.frac = 0

def minuteNumber (t : DateTime) : ℤ := t.date.dayNumber * 1440 + t.secs / 60

def nanos (t : DateTime) : ℤ := (t.date.dayNumber * 86400 + t.secs) * 1000000000 + t.frac

variable {t u : DateTime}

theorem ext (hdate : t.date = u.date) (hsecs : t.secs = u.secs) (hfrac : t.frac = u.frac) :
    t = u := by
  cases t
  cases u
  cases hdate
  cases hsecs
  cases hfrac
  rfl

theorem minute_lt (t : DateTime) : t.minute < 60 := Nat.mod_lt _ (by decide)

theorem hour_lt (t : DateTime) : t.hour < 24 := by
  have hsecs := t.secs_lt
  unfold hour
  omega

theorem isMinute_onTheMinute (t : DateTime) : t.onTheMinute.IsMinute := by
  refine ⟨?_, rfl⟩
  simp only [onTheMinute]
  omega

theorem minuteNumber_onTheMinute (t : DateTime) : t.onTheMinute.minuteNumber = t.minuteNumber := by
  simp only [minuteNumber, onTheMinute]
  omega

theorem minuteNumber_addMinute (t : DateTime) :
    t.addMinute.minuteNumber = t.minuteNumber + 1 := by
  have hsecs := t.secs_lt
  have hsucc := t.date.dayNumber_succ
  simp only [minuteNumber, addMinute]
  split_ifs <;> omega

theorem IsMinute.addMinute (h : t.IsMinute) : t.addMinute.IsMinute := by
  obtain ⟨hsecs, hfrac⟩ := h
  unfold IsMinute DateTime.addMinute
  split_ifs <;> simp_all <;> omega

theorem IsMinute.eq_of_minuteNumber (ht : t.IsMinute) (hu : u.IsMinute)
    (h : t.minuteNumber = u.minuteNumber) : t = u := by
  have htsecs := t.secs_lt
  have husecs := u.secs_lt
  obtain ⟨ht, htfrac⟩ := ht
  obtain ⟨hu, hufrac⟩ := hu
  unfold minuteNumber at h
  have hdate : t.date = u.date := Date.dayNumber_injective (by omega)
  rw [hdate] at h
  exact ext hdate (by omega) (htfrac.trans hufrac.symm)

/-- A whole minute comes after the times that are in a minute before it. -/
theorem IsMinute.before_iff (hu : u.IsMinute) : t.Before u ↔ t.minuteNumber < u.minuteNumber := by
  have htsecs := t.secs_lt
  have husecs := u.secs_lt
  obtain ⟨hu, hfrac⟩ := hu
  unfold Before minuteNumber
  rw [Date.before_iff]
  constructor
  · rintro (hdate | ⟨hdate, hsecs | ⟨-, hlt⟩⟩)
    · omega
    · rw [hdate]
      omega
    · omega
  · intro h
    by_cases hlt : t.date.dayNumber < u.date.dayNumber
    · exact .inl hlt
    · have hdate : t.date = u.date := Date.dayNumber_injective (by omega)
      rw [hdate] at h
      exact .inr ⟨hdate, .inl (by omega)⟩

theorem IsMinute.nanos_eq (h : t.IsMinute) : t.nanos = t.minuteNumber * 60000000000 := by
  obtain ⟨hsecs, hfrac⟩ := h
  unfold nanos minuteNumber
  omega

theorem nanos_lt (h : t.frac < 1000000000) : t.nanos < (t.minuteNumber + 1) * 60000000000 := by
  unfold nanos minuteNumber
  omega

theorem minuteNumber_addYears_four (t : DateTime) :
    t.minuteNumber + 1460 * 1440 ≤ (t.addYears 4).minuteNumber ∧
      (t.addYears 4).minuteNumber ≤ t.minuteNumber + 1461 * 1440 := by
  have hdays := t.date.dayNumber_addYears_four
  simp only [minuteNumber, addYears]
  omega

end DateTime

end Rszero.Calendar
