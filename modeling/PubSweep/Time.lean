import PubSweep.Text.Blank

/-!
Moments in time, read and written as dates with a time of day.
-/

namespace PubSweep

/-- A moment: seconds since the start of 1970, and nanoseconds; a leap second is counted as a second
of two thousand million nanoseconds. -/
structure Timestamp where
  seconds : Int
  nanos : Nat := 0
deriving Repr, DecidableEq, Inhabited

namespace Timestamp

/-- The number of days from the start of 1970 to a date. -/
def daysOf (year : Int) (month day : Nat) : Int :=
  let y := if month ≤ 2 then year - 1 else year
  let era := Int.fdiv y 400
  let yearOfEra := y - era * 400
  let shifted : Int := if month ≤ 2 then month + 9 else month - 3
  let dayOfYear := (153 * shifted + 2) / 5 + day - 1
  let dayOfEra := yearOfEra * 365 + yearOfEra / 4 - yearOfEra / 100 + dayOfYear
  era * 146097 + dayOfEra - 719468

/-- The date of a number of days from the start of 1970. -/
def dateOf (days : Int) : Int × Nat × Nat :=
  let z := days + 719468
  let era := Int.fdiv z 146097
  let dayOfEra := (z - era * 146097).toNat
  let yearOfEra := (dayOfEra - dayOfEra / 1460 + dayOfEra / 36524 - dayOfEra / 146096) / 365
  let dayOfYear := dayOfEra - (365 * yearOfEra + yearOfEra / 4 - yearOfEra / 100)
  let shifted := (5 * dayOfYear + 2) / 153
  let day := dayOfYear - (153 * shifted + 2) / 5 + 1
  let month := if shifted < 10 then shifted + 3 else shifted - 9
  let year : Int := yearOfEra + era * 400
  (if month ≤ 2 then year + 1 else year, month, day)

/-- Whether a year has a leap day. -/
def isLeap (year : Int) : Bool := year % 4 = 0 && (year % 100 ≠ 0 || year % 400 = 0)

/-- The number of days of a month. -/
def daysInMonth (year : Int) (month : Nat) : Nat :=
  if month = 2 then if isLeap year then 29 else 28
  else if month = 4 || month = 6 || month = 9 || month = 11 then 30
  else 31

/-- The first and the last year that a date can have. -/
def yearRange : Int × Int := (-262143, 262142)

/-- Whether the date of a moment, in universal time, has a year in the range. -/
def isRepresentable (t : Timestamp) : Bool :=
  let (year, _, _) := dateOf (Int.fdiv t.seconds 86400)
  yearRange.1 ≤ year && year ≤ yearRange.2

/-- A number with zeros in front. -/
def padded (width n : Nat) : String :=
  let digits := toString n
  String.ofList (List.replicate (width - digits.length) '0') ++ digits

/-- The text of a year: of four digits, or with a sign. -/
def renderYear (year : Int) : String :=
  if 0 ≤ year && year ≤ 9999 then padded 4 year.toNat
  else (if year < 0 then "-" else "+") ++ padded 4 year.natAbs

/-- The text of a fraction of a second: in groups of three digits, as many as needed. -/
def renderFraction (nanos : Nat) : String :=
  if nanos = 0 then ""
  else if nanos % 1000000 = 0 then "." ++ padded 3 (nanos / 1000000)
  else if nanos % 1000 = 0 then "." ++ padded 6 (nanos / 1000)
  else "." ++ padded 9 nanos

/-- The text of a moment. -/
def render (t : Timestamp) : String :=
  let days := Int.fdiv t.seconds 86400
  let time := (t.seconds - days * 86400).toNat
  let (year, month, day) := dateOf days
  let leap := t.nanos / 1000000000
  renderYear year ++ "-" ++ padded 2 month ++ "-" ++ padded 2 day ++ "T" ++
    padded 2 (time / 3600) ++ ":" ++ padded 2 (time / 60 % 60) ++ ":" ++
    padded 2 (time % 60 + leap) ++ renderFraction (t.nanos % 1000000000) ++ "Z"

/-- Leaves out white space in front. -/
def skipBlank (cs : List Char) : List Char := cs.dropWhile Text.isBlank

/-- The value of decimal digits. -/
def decimal (ds : List Char) : Nat := ds.foldl (fun n c => 10 * n + (c.toNat - 48)) 0

/-- Reads a number of one digit up to `width` digits, after white space. -/
def number? (width : Nat) (cs : List Char) : Option (Nat × List Char) :=
  let cs := skipBlank cs
  let digits := (cs.take width).takeWhile Char.isDigit
  if digits.isEmpty then none else some (decimal digits, cs.drop digits.length)

/-- Reads a year: four digits at most, or any number after a sign. -/
def year? (cs : List Char) : Option (Int × List Char) :=
  let unlimited (cs : List Char) : Option (Nat × List Char) :=
    let digits := cs.takeWhile Char.isDigit
    if digits.isEmpty then none else some (decimal digits, cs.drop digits.length)
  match skipBlank cs with
  | '-' :: rest => (unlimited rest).map fun (n, rest) => (-(n : Int), rest)
  | '+' :: rest => (unlimited rest).map fun (n, rest) => ((n : Int), rest)
  | cs => (number? 4 cs).map fun (n, rest) => ((n : Int), rest)

/-- Reads a mark, after white space. -/
def mark? (c : Char) (cs : List Char) : Option (List Char) :=
  match skipBlank cs with
  | d :: rest => if c = d then some rest else none
  | [] => none

/-- Reads the mark between the date and the time of day. -/
def between? : List Char → Option (List Char)
  | c :: rest => if c = 'T' || c = 't' || c = ' ' then some rest else none
  | [] => none

/-- Reads the fraction of a second, in nanoseconds; digits behind the ninth are passed over. -/
def fraction? (cs : List Char) : Option (Nat × List Char) :=
  match cs with
  | '.' :: rest =>
    let digits := rest.takeWhile Char.isDigit
    if digits.isEmpty then none
    else
      let used := digits.take 9
      some (decimal used * Nat.pow 10 (9 - used.length), rest.drop digits.length)
  | _ => some (0, cs)

/-- Reads two digits. -/
def pair? : List Char → Option (Nat × List Char)
  | a :: b :: rest => if a.isDigit && b.isDigit then some (decimal [a, b], rest) else none
  | _ => none

/-- Reads the distance from universal time, in seconds. -/
def offset? (cs : List Char) : Option (Int × List Char) :=
  match cs with
  | 'Z' :: rest | 'z' :: rest => some (0, rest)
  | sign :: rest =>
    if "UTC".toList == (cs.take 3).map Char.toUpper then some (0, cs.drop 3)
    else if sign = '+' || sign = '-' || sign = '−' then do
      let (hours, rest) ← pair? rest
      let (minutes, rest) ← pair? (rest.dropWhile fun c => c = ':' || Text.isBlank c)
      if 59 < minutes then none
      else
        let seconds : Int := hours * 3600 + minutes * 60
        return (if sign = '+' then seconds else -seconds, rest)
    else none
  | [] => none

/-- The numbers in the text of a moment: the date and the time of day at a place, and the distance
of the place from universal time. -/
structure Reading where
  year : Int
  month : Nat
  day : Nat
  hour : Nat
  minute : Nat
  second : Nat
  nanos : Nat
  offset : Int
deriving Repr, DecidableEq

/-- Reads the year, the month and the day of a date. -/
def date? (cs : List Char) : Option ((Int × Nat × Nat) × List Char) := do
  let (year, cs) ← year? cs
  let (month, cs) ← number? 2 (← mark? '-' cs)
  let (day, cs) ← number? 2 (← mark? '-' cs)
  return ((year, month, day), cs)

/-- Reads the hour, the minute, the second and the nanoseconds of a time of day. -/
def clock? (cs : List Char) : Option ((Nat × Nat × Nat × Nat) × List Char) := do
  let (hour, cs) ← number? 2 cs
  let (minute, cs) ← number? 2 (← mark? ':' cs)
  let (second, cs) ← number? 2 (← mark? ':' cs)
  let (nanos, cs) ← fraction? cs
  return ((hour, minute, second, nanos), cs)

/-- Reads the numbers of a moment: a date, a time of day and the distance from universal time.
White space between the parts is passed over. -/
def read? (text : String) : Option Reading := do
  let ((year, month, day), cs) ← date? text.toList
  let ((hour, minute, second, nanos), cs) ← clock? (← between? cs)
  let (offset, cs) ← offset? (skipBlank cs)
  if (skipBlank cs).isEmpty then
    some ⟨year, month, day, hour, minute, second, nanos, offset⟩
  else none

/-- Whether there is such a date and such a time of day. -/
def Reading.isLegal (r : Reading) : Bool :=
  let inYears := yearRange.1 ≤ r.year && r.year ≤ yearRange.2
  let isDate := 1 ≤ r.month && r.month ≤ 12 && 1 ≤ r.day && r.day ≤ daysInMonth r.year r.month
  let isTime := r.hour ≤ 23 && r.minute ≤ 59 && r.second ≤ 60
  inYears && isDate && isTime && r.offset.natAbs < 86400

/-- The moment of some numbers. -/
def Reading.moment (r : Reading) : Timestamp :=
  let (second, nanos) :=
    if r.second = 60 then (59, r.nanos + 1000000000) else (r.second, r.nanos)
  let atPlace : Int :=
    daysOf r.year r.month r.day * 86400 + (r.hour * 3600 + r.minute * 60 + second : Nat)
  ⟨atPlace - r.offset, nanos⟩

/-- Reads a moment.  Its year is in the range at the place and in universal time. -/
def parse? (text : String) : Option Timestamp :=
  (read? text).bind fun r =>
    if r.isLegal && r.moment.isRepresentable then some r.moment else none

end Timestamp

end PubSweep
