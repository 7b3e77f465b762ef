import Rszero.CronExpr

/-!
# The next matching minute

The search runs for 4 · 365 days, while four calendar years mostly have a February 29. It finds the
first minute that matches unless that minute is in the rest of the four years.
-/

namespace Rszero.Cron

open Calendar

namespace CronExpr

def iterates (e : CronExpr) (start : DateTime) : ℕ → Option DateTime
  | 0 => some start
  | n + 1 => (e.iterates start n).bind e.nextAfter

variable (e : CronExpr) {start t u : DateTime}

/-- A whole minute after `start`, within four calendar years, that matches. -/
structure Due (start t : DateTime) : Prop where
  isMinute : t.IsMinute
  after : start.Before t
  within : ¬ (start.addYears 4).Before t
  matchesAt : e.matchesAt t

def FindsLeast (start : DateTime) : Prop :=
  match e.nextAfter start with
  | some t => e.Due start t ∧ ∀ u, e.Due start u → ¬ u.Before t
  | none => ∀ t, ¬ e.Due start t

/-- If a minute within the four years matches, then one in the first 4 · 365 days does. -/
def FoundInTime (start : DateTime) : Prop :=
  ∀ t, e.Due start t → ∃ u, e.Due start u ∧ u.minuteNumber ≤ start.minuteNumber + 4 * 365 * 24 * 60

def Stop (start t : DateTime) : Prop :=
  t = start ∨ t.IsMinute ∧ start.Before t ∧ e.matchesAt t

/-- Every minute that matches is reached, if no gap before it is longer than four years, and all
that is reached matches and is in order. -/
structure Enumerates (start : DateTime) : Prop where
  complete : ∀ t, t.IsMinute → start.Before t → e.matchesAt t →
    (∀ u, e.Stop start u → u.Before t → ∃ v, e.Due u v) → ∃ n, e.iterates start n = some t
  sound : ∀ n t u, e.iterates start n = some t → e.nextAfter t = some u →
    u.IsMinute ∧ t.Before u ∧ e.matchesAt u

variable {e} {n : ℕ} {candidate : DateTime}

/-- What the search returns is the first match from the candidate on. -/
theorem search_eq_some (hc : candidate.IsMinute) (h : e.search n candidate = some t) :
    t.IsMinute ∧ e.matchesAt t ∧ candidate.minuteNumber ≤ t.minuteNumber ∧
      t.minuteNumber < candidate.minuteNumber + n ∧
      ∀ u, u.IsMinute → e.matchesAt u → candidate.minuteNumber ≤ u.minuteNumber →
        t.minuteNumber ≤ u.minuteNumber := by
  induction n generalizing candidate with
  | zero => cases h
  | succ n ih =>
      rw [search] at h
      split_ifs at h with hmatch
      · cases h
        exact ⟨hc, hmatch, by omega, by omega, fun u _ _ hu => hu⟩
      · obtain ⟨ht, hmatch', hle, hlt, hfirst⟩ := ih hc.addMinute h
        rw [DateTime.minuteNumber_addMinute] at hle hlt hfirst
        refine ⟨ht, hmatch', by omega, by omega, ?_⟩
        intro u hu humatch hule
        by_cases heq : candidate.minuteNumber = u.minuteNumber
        · rw [hc.eq_of_minuteNumber hu heq] at hmatch
          exact absurd humatch hmatch
        · exact hfirst u hu humatch (by omega)

theorem search_eq_none (hc : candidate.IsMinute) (h : e.search n candidate = none)
    (hu : u.IsMinute) (hmatch : e.matchesAt u) (hle : candidate.minuteNumber ≤ u.minuteNumber) :
    candidate.minuteNumber + n ≤ u.minuteNumber := by
  induction n generalizing candidate with
  | zero => omega
  | succ n ih =>
      rw [search] at h
      split_ifs at h with hcandidate
      have hne : candidate.minuteNumber ≠ u.minuteNumber := by
        intro heq
        rw [hc.eq_of_minuteNumber hu heq] at hcandidate
        exact hcandidate hmatch
      have hnext := ih hc.addMinute h (by rw [DateTime.minuteNumber_addMinute]; omega)
      rw [DateTime.minuteNumber_addMinute] at hnext
      omega

theorem minuteNumber_candidate (start : DateTime) :
    start.addMinute.onTheMinute.minuteNumber = start.minuteNumber + 1 := by
  rw [DateTime.minuteNumber_onTheMinute, DateTime.minuteNumber_addMinute]

theorem nextAfter_eq_some (h : e.nextAfter start = some t) :
    t.IsMinute ∧ e.matchesAt t ∧ start.Before t ∧
      t.minuteNumber ≤ start.minuteNumber + 4 * 365 * 24 * 60 ∧
      ∀ u, u.IsMinute → e.matchesAt u → start.Before u → ¬ u.Before t := by
  obtain ⟨ht, hmatch, hle, hlt, hfirst⟩ := search_eq_some (DateTime.isMinute_onTheMinute _) h
  rw [minuteNumber_candidate] at hle hlt hfirst
  have hlength : (searchLength : ℤ) = 4 * 365 * 24 * 60 := rfl
  refine ⟨ht, hmatch, ht.before_iff.2 (by omega), by omega, ?_⟩
  intro u hu humatch hafter hbefore
  rw [hu.before_iff] at hafter
  rw [ht.before_iff] at hbefore
  have hule := hfirst u hu humatch (by omega)
  omega

theorem nextAfter_eq_none (h : e.nextAfter start = none) (hu : u.IsMinute)
    (hmatch : e.matchesAt u) (hafter : start.Before u) :
    start.minuteNumber + 4 * 365 * 24 * 60 < u.minuteNumber := by
  rw [hu.before_iff] at hafter
  have hlength : (searchLength : ℤ) = 4 * 365 * 24 * 60 := rfl
  have hbeyond := search_eq_none (DateTime.isMinute_onTheMinute _) h hu hmatch
    (by rw [minuteNumber_candidate]; omega)
  rw [minuteNumber_candidate] at hbeyond
  omega

/-- The search does not go beyond the four years. -/
theorem not_before_of_le (ht : t.IsMinute)
    (h : t.minuteNumber ≤ start.minuteNumber + 4 * 365 * 24 * 60) :
    ¬ (start.addYears 4).Before t := by
  rw [ht.before_iff]
  have hyears := start.minuteNumber_addYears_four
  omega

theorem due_of_nextAfter (h : e.nextAfter start = some t) : e.Due start t := by
  obtain ⟨ht, hmatch, hafter, hle, -⟩ := nextAfter_eq_some h
  exact ⟨ht, hafter, not_before_of_le ht hle, hmatch⟩

theorem findsLeast_iff_foundInTime : e.FindsLeast start ↔ e.FoundInTime start := by
  unfold FindsLeast
  cases h : e.nextAfter start with
  | some t =>
      obtain ⟨ht, hmatch, hafter, hle, hfirst⟩ := nextAfter_eq_some h
      have hdue := due_of_nextAfter h
      apply iff_of_true
      · exact ⟨hdue, fun u hu => hfirst u hu.isMinute hu.matchesAt hu.after⟩
      · exact fun u _ => ⟨t, hdue, hle⟩
  | none =>
      constructor
      · intro hnone t ht
        exact absurd ht (hnone t)
      · intro hfound t ht
        obtain ⟨u, hu, hle⟩ := hfound t ht
        have hlt := nextAfter_eq_none h hu.isMinute hu.matchesAt hu.after
        omega

theorem nextAfter_isSome (h : e.FoundInTime start) (hdue : e.Due start t) :
    ∃ u, e.nextAfter start = some u := by
  cases hnext : e.nextAfter start with
  | some u => exact ⟨u, rfl⟩
  | none =>
      obtain ⟨u, hu, hle⟩ := h t hdue
      have hlt := nextAfter_eq_none hnext hu.isMinute hu.matchesAt hu.after
      omega

theorem enumerates_of_foundInTime (h : ∀ u, e.Stop start u → e.FoundInTime u) :
    e.Enumerates start where
  sound := by
    intro n t u _ hnext
    obtain ⟨hu, hmatch, hafter, -⟩ := nextAfter_eq_some hnext
    exact ⟨hu, hafter, hmatch⟩
  complete := by
    intro t ht hafter hmatch hgaps
    have hreach : ∀ (d : ℕ) (n : ℕ) (u : DateTime), e.iterates start n = some u →
        e.Stop start u → u.Before t → (t.minuteNumber - u.minuteNumber).toNat ≤ d →
        ∃ n, e.iterates start n = some t := by
      intro d
      induction d with
      | zero =>
          intro n u _ _ hu hd
          rw [ht.before_iff] at hu
          omega
      | succ d ih =>
          intro n u hn hstop hu hd
          obtain ⟨v, hv⟩ := hgaps u hstop hu
          obtain ⟨w, hw⟩ := nextAfter_isSome (h u hstop) hv
          obtain ⟨hwminute, hwmatch, hwafter, -, hfirst⟩ := nextAfter_eq_some hw
          have hnext : e.iterates start (n + 1) = some w := by
            rw [iterates, hn]
            exact hw
          have hle := hfirst t ht hmatch hu
          rw [hwminute.before_iff] at hle
          by_cases heq : w.minuteNumber = t.minuteNumber
          · exact ⟨n + 1, hwminute.eq_of_minuteNumber ht heq ▸ hnext⟩
          · have hwstop : e.Stop start w := by
              refine .inr ⟨hwminute, ?_, hwmatch⟩
              rw [hwminute.before_iff] at hwafter ⊢
              rcases hstop with rfl | ⟨huminute, hustart, -⟩
              · exact hwafter
              · rw [huminute.before_iff] at hustart
                omega
            rw [hwminute.before_iff] at hwafter
            rw [ht.before_iff] at hu
            exact ih (n + 1) w hnext hwstop (ht.before_iff.2 (by omega)) (by omega)
    exact hreach _ 0 start rfl (.inl rfl) hafter (Nat.le_refl _)

/-- The search finds the first minute within four calendar years that matches if and only if a
minute in the first 4 · 365 days matches or none in the four years does. Where it always does, its
iterates are the minutes that match. -/
theorem findsLeast_iff (e : CronExpr) (start : DateTime) :
    (e.FindsLeast start ↔ e.FoundInTime start) ∧
      ((∀ u, e.Stop start u → e.FoundInTime u) → e.Enumerates start) :=
  ⟨findsLeast_iff_foundInTime, enumerates_of_foundInTime⟩

def everyMinute : CronExpr :=
  ⟨rangeInclusive 0 59, rangeInclusive 0 23, rangeInclusive 1 31, rangeInclusive 1 12,
    rangeInclusive 0 6⟩

theorem everyMinute_matchesAt (t : DateTime) : everyMinute.matchesAt t := by
  have hminute := t.minute_lt
  have hhour := t.hour_lt
  have hday := t.date.day_le.trans (daysInMonth_le _ _)
  have hweekday := t.date.weekday_lt
  simp only [matchesAt, everyMinute, Bool.and_eq_true, List.contains_iff_mem, mem_rangeInclusive]
  exact ⟨⟨⟨⟨by omega, by omega⟩, t.date.one_le_day, hday⟩, t.date.one_le_month, t.date.month_le⟩,
    by omega⟩

theorem everyMinute_foundInTime (start : DateTime) : everyMinute.FoundInTime start := by
  intro t _
  have hnumber := minuteNumber_candidate start
  have hminute := DateTime.isMinute_onTheMinute start.addMinute
  refine ⟨start.addMinute.onTheMinute, ⟨hminute, ?_, ?_, everyMinute_matchesAt _⟩, by omega⟩
  · rw [hminute.before_iff]
    omega
  · exact not_before_of_le hminute (by omega)

theorem isDate_leapDay {y : ℤ} (h : IsLeap y) : IsDate y 2 29 := by
  simp [IsDate, daysInMonth, h]

def leapDay (y : ℤ) (h : IsLeap y) : DateTime := .midnight (.ofYmd y 2 29 (isDate_leapDay h))

theorem findsLeast_iff_everyMinute :
    everyMinute.FindsLeast (leapDay 2024 (by decide)) ∧
      everyMinute.Enumerates (leapDay 2024 (by decide)) :=
  ⟨(findsLeast_iff everyMinute _).1.2 (everyMinute_foundInTime _),
    (findsLeast_iff everyMinute _).2 (fun u _ => everyMinute_foundInTime u)⟩

def leapDays : CronExpr := ⟨[0], [0], [29], [2], [0, 1, 2, 3, 4, 5, 6]⟩

theorem leapDays_matchesAt (h : leapDays.matchesAt t) :
    t.hour = 0 ∧ t.minute = 0 ∧ t.date.month = 2 ∧ t.date.day = 29 := by
  simp only [matchesAt, leapDays, Bool.and_eq_true, List.contains_iff_mem,
    List.mem_singleton] at h
  obtain ⟨⟨⟨⟨hminute, hhour⟩, hday⟩, hmonth⟩, -⟩ := h
  exact ⟨hhour, hminute, hmonth, hday⟩

/-- From one February 29 the search does not get to the next one. -/
theorem not_findsLeast :
    parse "0 0 29 2 *" = .ok leapDays ∧ ¬ leapDays.FindsLeast (leapDay 2024 (by decide)) := by
  refine ⟨by decide, ?_⟩
  rw [findsLeast_iff_foundInTime]
  intro h
  have hdue : leapDays.Due (leapDay 2024 (by decide)) (leapDay 2028 (by decide)) := by
    refine ⟨⟨rfl, rfl⟩, .inl (.inl (by decide)), ?_, by decide⟩
    rintro (hbefore | ⟨-, hlt | ⟨-, hlt⟩⟩)
    · rw [Date.before_iff] at hbefore
      exact absurd hbefore (by decide)
    · exact absurd hlt (Nat.lt_irrefl _)
    · exact absurd hlt (Nat.lt_irrefl _)
  obtain ⟨u, hu, hle⟩ := h _ hdue
  obtain ⟨hhour, hminute, hmonth, hday⟩ := leapDays_matchesAt hu.matchesAt
  have hleap : IsLeap u.date.year := by
    by_contra hcommon
    have hdays := u.date.day_le
    rw [hmonth, hday, daysInMonth, if_neg hcommon] at hdays
    omega
  have hafter := hu.isMinute.before_iff.1 hu.after
  have hstart : (leapDay 2024 (by decide)).minuteNumber = 738945 * 1440 := by decide
  have hjanuary : daysThrough u.date.year 1 = 31 := rfl
  have hmidnight : (u.secs : ℤ) / 60 = 0 := by
    unfold DateTime.hour at hhour
    unfold DateTime.minute at hminute
    omega
  rw [hstart, DateTime.minuteNumber, hmidnight, Date.dayNumber, hmonth, hday, hjanuary]
    at hafter hle
  have h2024 : daysBeforeYear 2024 = 738885 := by decide
  have h2028 : daysBeforeYear 2028 = 740346 := by decide
  have hlow : 2024 < u.date.year := by
    by_contra hyear
    have hmono := daysBeforeYear_mono (Int.not_lt.1 hyear)
    omega
  have hhigh : u.date.year < 2028 := by
    by_contra hyear
    have hmono := daysBeforeYear_mono (Int.not_lt.1 hyear)
    omega
  unfold IsLeap at hleap
  omega

end CronExpr

end Rszero.Cron
