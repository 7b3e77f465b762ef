import Rszero.CronFields

/-!
# The days of a cron expression

By the rule of crontab a date matches when its day or its weekday does, if both fields are
restricted. Here it matches when both do. The parsed expression does not keep which fields were
stars.
-/

namespace Rszero.Cron

open Calendar

def Restricted (expr : String) (field : ℕ) : Prop :=
  ∃ cs, (splitWhitespace expr.toList)[field]? = some cs ∧ cs ≠ ['*']

def BothRestricted (expr : String) : Prop := Restricted expr 2 ∧ Restricted expr 4

namespace CronExpr

variable {e : CronExpr} {dt : DateTime} {expr : String}

def TimeMatches (e : CronExpr) (dt : DateTime) : Prop :=
  dt.minute ∈ e.minutes ∧ dt.hour ∈ e.hours ∧ dt.date.month ∈ e.months

def DayMatches (e : CronExpr) (dt : DateTime) : Prop := dt.date.day ∈ e.days

def WeekdayMatches (e : CronExpr) (dt : DateTime) : Prop := dt.date.weekday ∈ e.weekdays

/-- The rule of crontab for an expression that parses to `e`. -/
def Crontab (e : CronExpr) (expr : String) (dt : DateTime) : Prop :=
  e.TimeMatches dt ∧
    (BothRestricted expr ∧ (e.DayMatches dt ∨ e.WeekdayMatches dt) ∨
      ¬ BothRestricted expr ∧ e.DayMatches dt ∧ e.WeekdayMatches dt)

/-- The days are all that the months can have, and the weekdays are all seven. -/
structure AllDays (e : CronExpr) : Prop where
  days : ∀ m ∈ e.months, ∀ d, 1 ≤ d → d ≤ daysInMonth 2000 m → d ∈ e.days
  weekdays : ∀ w < 7, w ∈ e.weekdays

theorem matchesAt_iff :
    e.matchesAt dt ↔ e.TimeMatches dt ∧ e.DayMatches dt ∧ e.WeekdayMatches dt := by
  simp only [matchesAt, TimeMatches, DayMatches, WeekdayMatches, Bool.and_eq_true,
    List.contains_iff_mem]
  tauto

theorem crontab_iff :
    (e.matchesAt dt ↔ e.Crontab expr dt) ↔
      (BothRestricted expr → e.TimeMatches dt → (e.DayMatches dt ↔ e.WeekdayMatches dt)) := by
  rw [matchesAt_iff, Crontab]
  tauto

theorem exists_lists {field : List Char} {min max : ℕ} {values : List ℕ} (hle : min ≤ max)
    (hmax : max ≤ 255) (h : parseField field min max = .ok values) :
    ∃ S, Lists min max S values := by
  obtain ⟨S, hread⟩ := parseField_reads hmax h
  obtain ⟨values', hvalues', hlists⟩ := parseField_accepts hle hmax hread
  obtain rfl := Except.ok.inj (hvalues'.symm.trans h)
  exact ⟨S, hlists⟩

/-- The lists of a parsed expression are within their bounds and not empty. -/
theorem lists_of_parse (h : parse expr = .ok e) :
    (∃ S, Lists 0 59 S e.minutes) ∧ (∃ S, Lists 0 23 S e.hours) ∧ (∃ S, Lists 1 31 S e.days) ∧
      (∃ S, Lists 1 12 S e.months) ∧ ∃ S, Lists 0 6 S e.weekdays := by
  unfold parse at h
  split at h
  · obtain ⟨minutes, hminutes, h⟩ := bind_eq_ok.1 h
    obtain ⟨hours, hhours, h⟩ := bind_eq_ok.1 h
    obtain ⟨days, hdays, h⟩ := bind_eq_ok.1 h
    obtain ⟨months, hmonths, h⟩ := bind_eq_ok.1 h
    obtain ⟨weekdays, hweekdays, h⟩ := bind_eq_ok.1 h
    cases h
    exact ⟨exists_lists (by omega) (by omega) hminutes, exists_lists (by omega) (by omega) hhours,
      exists_lists (by omega) (by omega) hdays, exists_lists (by omega) (by omega) hmonths,
      exists_lists (by omega) (by omega) hweekdays⟩
  · cases h

theorem daysInMonth_le_leap (y : ℤ) (m : ℕ) : daysInMonth y m ≤ daysInMonth 2000 m := by
  have hleap : IsLeap 2000 := by decide
  rw [daysInMonth_eq y, daysInMonth_eq 2000]
  split_ifs <;> simp_all

/-- Some time of a date has a minute and an hour of the expression. -/
theorem exists_timeMatches (h : parse expr = .ok e) {date : Date} (hmonth : date.month ∈ e.months) :
    ∃ dt : DateTime, dt.date = date ∧ e.TimeMatches dt := by
  obtain ⟨⟨_, hminutes⟩, ⟨_, hhours⟩, -⟩ := lists_of_parse h
  obtain ⟨minute, hminute⟩ := List.exists_mem_of_ne_nil _ hminutes.ne_nil
  obtain ⟨hour, hhour⟩ := List.exists_mem_of_ne_nil _ hhours.ne_nil
  have hminute' := hminutes.bounds minute hminute
  have hhour' := hhours.bounds hour hhour
  let dt : DateTime := ⟨date, hour * 3600 + minute * 60, 0, by omega, by omega⟩
  have hm : dt.minute = minute := by
    simp only [dt, DateTime.minute]
    omega
  have hh : dt.hour = hour := by
    simp only [dt, DateTime.hour]
    omega
  exact ⟨dt, rfl, by rwa [hm], by rwa [hh], hmonth⟩

/-- If the two fields always agree, then they take every day, since each day of a month falls on
each weekday in some year. -/
theorem allDays_of_agree (h : parse expr = .ok e)
    (hagree : ∀ dt, e.TimeMatches dt → (e.DayMatches dt ↔ e.WeekdayMatches dt)) : e.AllDays := by
  obtain ⟨-, -, -, ⟨_, hmonths⟩, ⟨_, hweekdays⟩⟩ := lists_of_parse h
  have hdate (m d w : ℕ) (hm : m ∈ e.months) (hd : 1 ≤ d) (hd' : d ≤ daysInMonth 2000 m)
      (hw : w < 7) : d ∈ e.days ↔ w ∈ e.weekdays := by
    obtain ⟨hm₁, hm₂⟩ := hmonths.bounds m hm
    obtain ⟨date, rfl, rfl, rfl⟩ := Date.exists_weekday hm₁ hm₂ hd hd' hw
    obtain ⟨dt, rfl, htime⟩ := exists_timeMatches h hm
    exact hagree dt htime
  have hdays : ∀ m ∈ e.months, ∀ d, 1 ≤ d → d ≤ daysInMonth 2000 m → d ∈ e.days := by
    intro m hm d hd hd'
    obtain ⟨w, hw⟩ := List.exists_mem_of_ne_nil _ hweekdays.ne_nil
    have hw' := hweekdays.bounds w hw
    exact (hdate m d w hm hd hd' (by omega)).2 hw
  refine ⟨hdays, ?_⟩
  intro w hw
  obtain ⟨m, hm⟩ := List.exists_mem_of_ne_nil _ hmonths.ne_nil
  have hpos := daysInMonth_pos 2000 m
  exact (hdate m 1 w hm (Nat.le_refl 1) hpos hw).1 (hdays m hm 1 (Nat.le_refl 1) hpos)

theorem AllDays.agree (h : e.AllDays) (htime : e.TimeMatches dt) :
    e.DayMatches dt ↔ e.WeekdayMatches dt := by
  apply iff_of_true
  · have hle := dt.date.day_le.trans (daysInMonth_le_leap _ _)
    exact h.days dt.date.month htime.2.2 dt.date.day dt.date.one_le_day hle
  · exact h.weekdays dt.date.weekday dt.date.weekday_lt

def firstMondays : CronExpr := ⟨[0], [0], [1], rangeInclusive 1 12, [1]⟩

def firsts : CronExpr := ⟨[0], [0], [1], rangeInclusive 1 12, rangeInclusive 0 6⟩

def monday : DateTime := .midnight (.ofYmd 2024 1 8 (by decide))

/-- A parsed expression matches a date as crontab does if and only if not both fields are
restricted, or the rest does not match, or the two fields agree on the date. It matches all dates
as crontab does if and only if not both fields are restricted or they take every day anyway. -/
theorem matchesAt_iff_crontab (h : parse expr = .ok e) :
    (∀ dt, (e.matchesAt dt ↔ e.Crontab expr dt) ↔
      (BothRestricted expr → e.TimeMatches dt → (e.DayMatches dt ↔ e.WeekdayMatches dt))) ∧
    ((∀ dt, e.matchesAt dt ↔ e.Crontab expr dt) ↔ (BothRestricted expr → e.AllDays)) := by
  refine ⟨fun dt => crontab_iff, ?_⟩
  simp only [crontab_iff]
  constructor
  · intro hagree hboth
    exact allDays_of_agree h (fun dt => hagree dt hboth)
  · intro hall dt hboth htime
    exact (hall hboth).agree htime

theorem matchesAt_iff_crontab_firsts :
    parse "0 0 1 * *" = .ok firsts ∧
      (firsts.matchesAt monday ↔ firsts.Crontab "0 0 1 * *" monday) := by
  have hparse : parse "0 0 1 * *" = .ok firsts := by decide
  have hstar : ¬ BothRestricted "0 0 1 * *" := by
    rintro ⟨-, cs, hcs, hne⟩
    exact hne (Option.some.inj hcs).symm
  exact ⟨hparse, (matchesAt_iff_crontab hparse).2.2 (fun h => absurd h hstar) monday⟩

theorem not_crontab :
    parse "0 0 1 * 1" = .ok firstMondays ∧
      ¬ (firstMondays.matchesAt monday ↔ firstMondays.Crontab "0 0 1 * 1" monday) := by
  refine ⟨by decide, ?_⟩
  rw [crontab_iff]
  intro h
  have hboth : BothRestricted "0 0 1 * 1" :=
    ⟨⟨['1'], by decide, by decide⟩, ⟨['1'], by decide, by decide⟩⟩
  have htime : firstMondays.TimeMatches monday := ⟨by decide, by decide, by decide⟩
  have hweekday : firstMondays.WeekdayMatches monday := by
    unfold WeekdayMatches
    decide
  have hday := (h hboth htime).2 hweekday
  unfold DayMatches at hday
  exact absurd hday (by decide)

end CronExpr

end Rszero.Cron
