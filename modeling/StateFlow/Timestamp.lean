/-!
# Timestamps

A timestamp is a number of seconds since 1970-01-01T00:00:00Z and the nanoseconds after it; a leap
second is written as nanoseconds beyond one thousand million, so that it is later than the second it
extends and earlier than the next one.  `Timestamp.read` reads RFC 3339 text, `Timestamp.text`
writes milliseconds in universal time.
-/

namespace StateFlow

/-- An instant. -/
structure Timestamp where
  seconds : Int
  nanoseconds : Nat
deriving DecidableEq, Repr, Inhabited

namespace Timestamp

/-- Instants compare by second and then within the second. -/
def compare (a b : Timestamp) : Ordering :=
  (Ord.compare a.seconds b.seconds).then (Ord.compare a.nanoseconds b.nanoseconds)

/-- Nanoseconds from one instant to a later one; zero when it is not later. -/
def nanosecondsUntil (now target : Timestamp) : Nat :=
  ((target.seconds - now.seconds) * 1000000000 + target.nanoseconds - now.nanoseconds).toNat

/-- The instant a number of milliseconds later. -/
def addMilliseconds (t : Timestamp) (ms : Nat) : Timestamp :=
  let n := t.nanoseconds + (ms % 1000) * 1000000
  ⟨t.seconds + (ms / 1000 : Nat) + (n / 1000000000 : Nat), n % 1000000000⟩

/-! ## The calendar -/

/-- True of leap years. -/
def isLeapYear (year : Int) : Bool := year % 4 == 0 && (year % 100 != 0 || year % 400 == 0)

/-- The number of days of a month. -/
def daysInMonth (year : Int) (month : Nat) : Nat :=
  match month with
  | 2 => if isLeapYear year then 29 else 28
  | 4 | 6 | 9 | 11 => 30
  | _ => 31

/-- Days from 1970-01-01 to a date; years are counted from March. -/
def daysOfDate (year : Int) (month day : Nat) : Int :=
  let y := if month ≤ 2 then year - 1 else year
  let era := y.fdiv 400
  let yearOfEra := y - era * 400
  let monthFromMarch : Int := if 2 < month then (month : Int) - 3 else (month : Int) + 9
  let dayOfYear := (153 * monthFromMarch + 2).fdiv 5 + day - 1
  let dayOfEra := yearOfEra * 365 + yearOfEra.fdiv 4 - yearOfEra.fdiv 100 + dayOfYear
  era * 146097 + dayOfEra - 719468

/-- The date a number of days after 1970-01-01. -/
def dateOfDays (days : Int) : Int × Int × Int :=
  let z := days + 719468
  let era := z.fdiv 146097
  let dayOfEra := z - era * 146097
  let yearOfEra :=
    (dayOfEra - dayOfEra.fdiv 1460 + dayOfEra.fdiv 36524 - dayOfEra.fdiv 146096).fdiv 365
  let dayOfYear := dayOfEra - (365 * yearOfEra + yearOfEra.fdiv 4 - yearOfEra.fdiv 100)
  let monthFromMarch := (5 * dayOfYear + 2).fdiv 153
  let day := dayOfYear - (153 * monthFromMarch + 2).fdiv 5 + 1
  let month := if monthFromMarch < 10 then monthFromMarch + 3 else monthFromMarch - 9
  let year := yearOfEra + era * 400 + (if month ≤ 2 then 1 else 0)
  (year, month, day)

/-! ## Text -/

/-- What is wrong with a text that is no timestamp. -/
inductive Flaw where
  | tooShort
  | invalid
  | outOfRange
  | tooLong
deriving DecidableEq, Repr, Inhabited

/-- The text of a flaw. -/
def Flaw.message : Flaw → String
  | tooShort => "premature end of input"
  | invalid => "input contains invalid characters"
  | outOfRange => "input is out of range"
  | tooLong => "trailing input"

/-- Checks that a part of a timestamp is within its range. -/
def require (within : Prop) [Decidable within] : Except Flaw Unit :=
  if within then .ok () else .error .outOfRange

/-- The digits that a text starts with. -/
def leadingDigits (cs : List Char) : List Char := cs.takeWhile fun c => '0' ≤ c ∧ c ≤ '9'

/-- The value of some digits. -/
def valueOfDigits (ds : List Char) : Nat := ds.foldl (fun n c => n * 10 + (c.toNat - '0'.toNat)) 0

/-- The number of bytes of a text in UTF-8. -/
def byteLength : List Char → Nat
  | [] => 0
  | c :: cs => c.utf8Size + byteLength cs

/-- A number of `count` digits, and what follows it.  A text of fewer bytes is too short, whatever
stands in it. -/
def readNumber (count : Nat) (cs : List Char) : Except Flaw (Nat × List Char) :=
  if byteLength cs < count then .error .tooShort
  else if (leadingDigits cs).length < count then .error .invalid
  else .ok (valueOfDigits (cs.take count), cs.drop count)

/-- What follows one of some characters. -/
def readMark (marks : List Char) : List Char → Except Flaw (List Char)
  | c :: cs => if c ∈ marks then .ok cs else .error .invalid
  | [] => .error .tooShort

/-- Nanoseconds from a fraction's digits, of which nine count. -/
def fractionNanoseconds (ds : List Char) : Nat :=
  valueOfDigits ((ds ++ List.replicate 9 '0').take 9)

/-- A fraction of a second, when there is one: a point and at least one digit. -/
def readFraction : List Char → Except Flaw (Nat × List Char)
  | '.' :: cs => do
    let ds := leadingDigits cs
    let _ ← readNumber 1 cs
    return (fractionNanoseconds ds, cs.drop ds.length)
  | cs => .ok (0, cs)

/-- An offset from universal time in seconds, and what follows it. -/
def readOffset : List Char → Except Flaw (Int × List Char)
  | 'Z' :: cs | 'z' :: cs => .ok (0, cs)
  | cs => do
    let after ← readMark ['+', '-', '\u2212'] cs
    let (hours, after) ← readNumber 2 after
    let after ← readMark [':'] after
    let (minutes, after) ← readNumber 2 after
    require (minutes < 60)
    require (hours < 24)
    let seconds : Int := hours * 3600 + minutes * 60
    return (if cs.head? = some '+' then seconds else -seconds, after)

/-- Reads RFC 3339 text: a date, `T`, `t` or a blank, a time with an optional fraction, and an
offset.  Second 60 is a leap second at any minute. -/
def readChars (cs : List Char) : Except Flaw Timestamp := do
  let (year, cs) ← readNumber 4 cs
  let cs ← readMark ['-'] cs
  let (month, cs) ← readNumber 2 cs
  require (1 ≤ month ∧ month ≤ 12)
  let cs ← readMark ['-'] cs
  let (day, cs) ← readNumber 2 cs
  require (1 ≤ day ∧ day ≤ 31)
  let cs ← readMark ['T', 't', ' '] cs
  let (hour, cs) ← readNumber 2 cs
  require (hour < 24)
  let cs ← readMark [':'] cs
  let (minute, cs) ← readNumber 2 cs
  require (minute < 60)
  let cs ← readMark [':'] cs
  let (second, cs) ← readNumber 2 cs
  require (second ≤ 60)
  let (nanoseconds, cs) ← readFraction cs
  let (offset, cs) ← readOffset cs
  if cs ≠ [] then .error .tooLong
  -- the day is looked up in the calendar only when all of the text has been read
  require (day ≤ daysInMonth year month)
  let leap := second = 60
  let inDay : Int := (hour * 3600 + minute * 60 + (if leap then 59 else second) : Nat)
  return ⟨daysOfDate year month day * 86400 + inDay - offset,
    if leap then nanoseconds + 1000000000 else nanoseconds⟩

/-- Reads RFC 3339 text. -/
def read (text : String) : Except Flaw Timestamp := readChars text.toList

/-- The timestamp of a text, if it is one. -/
def read? (text : String) : Option Timestamp := (read text).toOption

/-- A natural number with at least `width` digits. -/
def padded (width n : Nat) : String :=
  let ds := toString n
  String.ofList (List.replicate (width - ds.length) '0') ++ ds

/-- A year: four digits, or a sign and at least four outside the years 0 to 9999. -/
def yearText (year : Int) : String :=
  if 0 ≤ year ∧ year ≤ 9999 then padded 4 year.toNat
  else (if year < 0 then "-" else "+") ++ padded 4 year.natAbs

/-- The text of an instant in universal time, to the millisecond. -/
def text (t : Timestamp) : String :=
  let (year, month, day) := dateOfDays (t.seconds.fdiv 86400)
  let inDay := (t.seconds.fmod 86400).toNat
  let leap := 1000000000 ≤ t.nanoseconds
  let second := inDay % 60 + (if leap then 1 else 0)
  let millisecond := (if leap then t.nanoseconds - 1000000000 else t.nanoseconds) / 1000000
  s!"{yearText year}-{padded 2 month.toNat}-{padded 2 day.toNat}T" ++
    s!"{padded 2 (inDay / 3600)}:{padded 2 (inDay / 60 % 60)}:{padded 2 second}." ++
    s!"{padded 3 millisecond}Z"

end Timestamp

end StateFlow
