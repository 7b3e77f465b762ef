import Mathlib.Data.List.DropRight
import Mathlib.Data.List.Sort
import Rszero.Calendar
import Rszero.Error

/-!
# Cron expressions

Parsing of a five-field expression, and the search for the next minute that it matches. A field is
the list of its values. Fields and their parts are lists of characters.
-/

namespace Rszero.Cron

open Calendar

/-- `char::is_whitespace` -/
def isWhitespace (c : Char) : Bool :=
  let n := c.toNat
  (9 ≤ n && n ≤ 13) || n == 0x20 || n == 0x85 || n == 0xA0 || n == 0x1680 ||
    (0x2000 ≤ n && n ≤ 0x200A) || n == 0x2028 || n == 0x2029 || n == 0x202F || n == 0x205F ||
    n == 0x3000

def splitWhitespace (cs : List Char) : List (List Char) :=
  (cs.splitOnP isWhitespace).filter (fun field => !field.isEmpty)

def trim (cs : List Char) : List Char := (cs.dropWhile isWhitespace).rdropWhile isWhitespace

inductive ParseIntError
  | empty
  | invalidDigit
  | posOverflow
  deriving DecidableEq

def ParseIntError.toString : ParseIntError → String
  | .empty => "cannot parse integer from empty string"
  | .invalidDigit => "invalid digit found in string"
  | .posOverflow => "number too large to fit in target type"

def digitValue (c : Char) : ℕ := c.toNat - '0'.toNat

def parseDigits (n : ℕ) : List Char → Except ParseIntError ℕ
  | [] => .ok n
  | c :: cs =>
      if c.isDigit then
        if n * 10 + digitValue c ≤ 255 then parseDigits (n * 10 + digitValue c) cs
        else .error .posOverflow
      else .error .invalidDigit

/-- `str::parse::<u8>` -/
def parseU8 : List Char → Except ParseIntError ℕ
  | [] => .error .empty
  | ['+'] => .error .invalidDigit
  | '+' :: cs => parseDigits 0 cs
  | cs => parseDigits 0 cs

def configError {α : Type} (message : String) : Except RszeroError α :=
  .error (.config message none)

/-- `(first..=last).collect()` -/
def rangeInclusive (first last : ℕ) : List ℕ := List.range' first (last + 1 - first)

/-- The number in a part, or the error with a text before it. -/
def parseNumber (what : String) (part cs : List Char) : Except RszeroError ℕ :=
  match parseU8 cs with
  | .ok n => .ok n
  | .error e => configError (what ++ ": " ++ String.ofList part ++ ": " ++ e.toString)

def parsePart (part : List Char) (min max : ℕ) : Except RszeroError (List ℕ) :=
  if '-' ∈ part then do
    let pieces := part.splitOn '-'
    let start ← parseNumber "invalid cron range start" part (trim (pieces[0]?.getD []))
    let last ← parseNumber "invalid cron range end" part (trim (pieces[1]?.getD []))
    if start > last ∨ start < min ∨ last > max then
      configError s!"cron range {start}-{last} out of bounds [{min}, {max}]"
    else
      return rangeInclusive start last
  else do
    let val ← parseNumber "invalid cron value" part part
    if val < min ∨ val > max then
      configError s!"cron value {val} out of bounds [{min}, {max}]"
    else
      return [val]

def parseParts (min max : ℕ) : List (List Char) → Except RszeroError (List ℕ)
  | [] => return []
  | part :: parts => do
      let values ← parsePart part min max
      return values ++ (← parseParts min max parts)

/-- `Vec::dedup` -/
def dedup : List ℕ → List ℕ
  | [] => []
  | [v] => [v]
  | v :: w :: values => if v = w then dedup (w :: values) else v :: dedup (w :: values)

/-- `values.sort_unstable()` and `values.dedup()` -/
def sortDedup (values : List ℕ) : List ℕ := dedup (values.insertionSort (· ≤ ·))

def parseField (field : List Char) (min max : ℕ) : Except RszeroError (List ℕ) :=
  match field with
  | ['*'] => return rangeInclusive min max
  | '*' :: '/' :: rest => do
      let step ← parseNumber "invalid cron step" field rest
      if step = 0 then
        configError "cron step cannot be zero"
      else
        return List.range' min ((max - min) / step + 1) step
  | _ =>
      if ',' ∈ field then do
        return sortDedup (← parseParts min max (field.splitOn ','))
      else
        parsePart field min max

structure CronExpr where
  minutes : List ℕ
  hours : List ℕ
  days : List ℕ
  months : List ℕ
  weekdays : List ℕ
  deriving DecidableEq

def parse (expr : String) : Except RszeroError CronExpr :=
  match splitWhitespace expr.toList with
  | [minutes, hours, days, months, weekdays] =>
      return {
        minutes := ← parseField minutes 0 59
        hours := ← parseField hours 0 23
        days := ← parseField days 1 31
        months := ← parseField months 1 12
        weekdays := ← parseField weekdays 0 6 }
  | fields => configError s!"cron expression must have 5 fields, got {fields.length}"

namespace CronExpr

def matchesAt (e : CronExpr) (dt : DateTime) : Bool :=
  e.minutes.contains dt.minute && e.hours.contains dt.hour && e.days.contains dt.date.day &&
    e.months.contains dt.date.month && e.weekdays.contains dt.date.weekday

/-- The first of `n` minutes from `candidate` on that matches. -/
def search (e : CronExpr) : ℕ → DateTime → Option DateTime
  | 0, _ => none
  | n + 1, candidate =>
      if e.matchesAt candidate then some candidate else e.search n candidate.addMinute

/-- Search up to 4 years ahead -/
def searchLength : ℕ := 4 * 365 * 24 * 60

def nextAfter (e : CronExpr) (start : DateTime) : Option DateTime :=
  e.search searchLength start.addMinute.onTheMinute

end CronExpr

@[simp] theorem mem_rangeInclusive {first last v : ℕ} :
    v ∈ rangeInclusive first last ↔ first ≤ v ∧ v ≤ last := by
  simp only [rangeInclusive, List.mem_range'_1]
  omega

example : parse "*/15 9-17 * * 1,3,5" =
    .ok ⟨[0, 15, 30, 45], [9, 10, 11, 12, 13, 14, 15, 16, 17], rangeInclusive 1 31,
      rangeInclusive 1 12, [1, 3, 5]⟩ := by decide

end Rszero.Cron
