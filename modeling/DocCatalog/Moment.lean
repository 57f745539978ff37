/-
**Days and times.**

A file of settings may hold a day of the calendar, a time of day, or a day with a time.  A day with
a time may come with an offset, and is then a point in time.  Days are numbered, the first day of
the year 1 having the number 1, and times are counted in microseconds; the calendar goes on in both
directions, where that of a file ends.

Main definitions:

* `Moment`: a day, a time of day, a day with a time, or a point in time;
* `Moment.before?`: the order of moments, each kind having one of its own;
* `Moment.canonical`: the form that a point in time shares with the same point at other offsets;
* `Moment.date`: the year, the month and the day of the month of a numbered day;
* `Moment.literal`, `Moment.display`: how a moment is quoted, and how it stands in running text.
-/

set_option autoImplicit false

namespace DocCatalog

/-- A day, a time of day, or both. -/
inductive Moment where
  /-- The day of a number. -/
  | day (number : Int)
  /-- The time so many microseconds after midnight. -/
  | time (count : Nat)
  /-- The time so many microseconds after the beginning of the calendar, wherever it is read. -/
  | dayTime (count : Int)
  /-- The point so many microseconds after the beginning of the calendar at the offset zero, and the
  offset in minutes at which it is read. -/
  | instant (count : Int) (offset : Int)
  deriving DecidableEq, Repr

namespace Moment

/-! ### Order -/

/-- The kinds of moments. -/
inductive Kind where
  | day
  | time
  | dayTime
  | instant
  deriving DecidableEq, Repr

/-- The kind of a moment. -/
def kind : Moment → Kind
  | day _ => .day
  | time _ => .time
  | dayTime _ => .dayTime
  | instant _ _ => .instant

/-- The number that orders a moment among those of its kind. -/
def count : Moment → Int
  | day n => n
  | time n => n
  | dayTime n => n
  | instant n _ => n

/-- Whether a moment is before another; those of different kinds have no order. -/
def before? (a b : Moment) : Option Bool :=
  if a.kind = b.kind then some (a.count < b.count) else none

/-- The form of a moment in which the offset plays no part. -/
def canonical : Moment → Moment
  | instant n _ => instant n 0
  | m => m

@[simp] theorem kind_canonical (m : Moment) : m.canonical.kind = m.kind := by cases m <;> rfl

/-! ### The calendar -/

/-- The lengths of the months of a year. -/
def monthLengths (leap : Bool) : List Nat :=
  [31, if leap then 29 else 28, 31, 30, 31, 30, 31, 31, 30, 31, 30, 31]

/-- The month, from a number on, and its day that so many days lead to. -/
def monthOf (month : Nat) (days : Nat) : List Nat → Nat × Nat
  | [] => (month, days + 1)
  | length :: rest =>
      if days < length then (month, days + 1) else monthOf (month + 1) (days - length) rest

/-- The year, the month and the day of the month of the day of a number.  The days of four hundred
years are always as many, and in them only the last century, and in a century only the last four
years, are a day longer or shorter than the others. -/
def date (number : Int) : Int × Nat × Nat :=
  let before := number - 1
  let days := (before % 146097).toNat
  let century := min (days / 36524) 3
  let days := days - century * 36524
  let cycle := days / 1461
  let days := days % 1461
  let year := min (days / 365) 3
  let leap := year = 3 ∧ (cycle ≠ 24 ∨ century = 3)
  (before / 146097 * 400 + century * 100 + cycle * 4 + year + 1,
    monthOf 1 (days - year * 365) (monthLengths leap))

/-- The microseconds of a day. -/
def dayLength : Nat := 86400000000

/-- The number of the day on which a count of microseconds ends, and the time of that day. -/
def split (count : Int) : Int × Nat := (count / dayLength + 1, (count % dayLength).toNat)

/-- The hour, the minute, the second and the microsecond of a time. -/
def clock (count : Nat) : Nat × Nat × Nat × Nat :=
  (count / 3600000000, count / 60000000 % 60, count / 1000000 % 60, count % 1000000)

/-- The count of an instant as it is read at an offset. -/
def shifted (count offset : Int) : Int := count + offset * 60000000

/-! ### The two forms -/

/-- A number in at least so many digits. -/
def padded (width n : Nat) : String :=
  let digits := Nat.toDigits 10 n
  String.ofList (List.replicate (width - digits.length) '0' ++ digits)

/-- A day in running text. -/
def dayText (number : Int) : String :=
  let (y, m, d) := date number
  padded 4 y.toNat ++ "-" ++ padded 2 m ++ "-" ++ padded 2 d

/-- A time in running text, with microseconds if there are any. -/
def timeText (count : Nat) : String :=
  let (hour, minute, second, micro) := clock count
  padded 2 hour ++ ":" ++ padded 2 minute ++ ":" ++ padded 2 second
    ++ if micro = 0 then "" else "." ++ padded 6 micro

/-- A day with a time in running text. -/
def dayTimeText (count : Int) : String :=
  let (number, rest) := split count
  dayText number ++ " " ++ timeText rest

/-- An offset in running text. -/
def offsetText (offset : Int) : String :=
  (if offset < 0 then "-" else "+") ++ padded 2 (offset.natAbs / 60) ++ ":"
    ++ padded 2 (offset.natAbs % 60)

/-- The form in which a moment stands in running text. -/
def display : Moment → String
  | day n => dayText n
  | time n => timeText n
  | dayTime n => dayTimeText n
  | instant n offset => dayTimeText (shifted n offset) ++ offsetText offset

/-- The arguments of a day when it is quoted. -/
def dayArguments (number : Int) : List String :=
  let (y, m, d) := date number
  [toString y, toString m, toString d]

/-- The arguments of a time when it is quoted: seconds and microseconds stand only if they must. -/
def timeArguments (count : Nat) : List String :=
  let (hour, minute, second, micro) := clock count
  [toString hour, toString minute] ++
    if micro ≠ 0 then [toString second, toString micro]
    else if second ≠ 0 then [toString second] else []

/-- The arguments of a day with a time when it is quoted. -/
def dayTimeArguments (count : Int) : List String :=
  let (number, rest) := split count
  dayArguments number ++ timeArguments rest

/-- An offset when it is quoted. -/
def offsetLiteral (offset : Int) : String :=
  let seconds := offset * 60
  if offset = 0 then "datetime.timezone.utc"
  else "datetime.timezone(datetime.timedelta("
    ++ (if offset < 0 then "days=-1, seconds=" ++ toString (seconds + 86400)
      else "seconds=" ++ toString seconds) ++ "))"

/-- The word for the class of a moment. -/
def word : Moment → String
  | day _ => "date"
  | time _ => "time"
  | dayTime _ => "datetime"
  | instant _ _ => "datetime"

/-- The name of the class of a moment, with that of its module. -/
def className (m : Moment) : String := "datetime." ++ m.word

/-- The arguments of a moment when it is quoted. -/
def arguments : Moment → List String
  | day n => dayArguments n
  | time n => timeArguments n
  | dayTime n => dayTimeArguments n
  | instant n offset =>
      dayTimeArguments (shifted n offset) ++ ["tzinfo=" ++ offsetLiteral offset]

/-- The form in which a moment is quoted. -/
def literal (m : Moment) : String := m.className ++ "(" ++ ", ".intercalate m.arguments ++ ")"

/-- A day that is in leap years only, and a point in time half an hour and seven hours back. -/
example : (day 730179).display = "2000-02-29" ∧
    (instant 62432235120000000 (-450)).display = "1979-05-27 00:02:00-07:30" ∧
    (instant 62432235120000000 (-450)).literal = "datetime.datetime(1979, 5, 27, 0, 2, " ++
      "tzinfo=datetime.timezone(datetime.timedelta(days=-1, seconds=59400)))" := by
  decide +kernel

end Moment

end DocCatalog
