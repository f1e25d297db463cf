import SafeCalls.Text.Blank

namespace SafeCalls.Time

/-!
# Moments of universal time

Dates of the Gregorian calendar, extended to all years in a fixed range, and times of day down to
the nanosecond. A leap second is the second 60 of its minute. A moment is written in universal time,
with as many groups of three fractional digits as it needs.
-/

def leastYear : Int := -262143

def greatestYear : Int := 262142

def isLeapYear (year : Int) : Bool := (year % 4 == 0 && year % 100 != 0) || year % 400 == 0

def daysInMonth (year : Int) (month : Nat) : Nat :=
  if month = 2 then if isLeapYear year then 29 else 28
  else if month = 4 ∨ month = 6 ∨ month = 9 ∨ month = 11 then 30
  else 31

structure Date where
  year : Int
  month : Nat
  day : Nat
  deriving DecidableEq, Repr

namespace Date

def isValid (d : Date) : Bool :=
  leastYear ≤ d.year && d.year ≤ greatestYear && 1 ≤ d.month && d.month ≤ 12 &&
    1 ≤ d.day && d.day ≤ daysInMonth d.year d.month

/-- The day after, which may lie beyond the range. -/
def next (d : Date) : Date :=
  if d.day < daysInMonth d.year d.month then ⟨d.year, d.month, d.day + 1⟩
  else if d.month < 12 then ⟨d.year, d.month + 1, 1⟩
  else ⟨d.year + 1, 1, 1⟩

/-- The day before, which may lie beyond the range. -/
def previous (d : Date) : Date :=
  if 1 < d.day then ⟨d.year, d.month, d.day - 1⟩
  else if 1 < d.month then ⟨d.year, d.month - 1, daysInMonth d.year (d.month - 1)⟩
  else ⟨d.year - 1, 12, 31⟩

/-- The date that many days after the first of January 1970. Years are taken to begin in March, so
that a leap day is the last one of its year, and to repeat after 400 years. -/
def ofDays (days : Int) : Date :=
  let days := days + 719468
  let day := (days % 146097).toNat
  let year := (day - day / 1460 + day / 36524 - day / 146096) / 365
  let dayOfYear := day - (365 * year + year / 4 - year / 100)
  let month := (5 * dayOfYear + 2) / 153
  let year : Int := year + 400 * (days / 146097)
  ⟨if month < 10 then year else year + 1, if month < 10 then month + 3 else month - 9,
    dayOfYear - (153 * month + 2) / 5 + 1⟩

end Date

structure Timestamp where
  date : Date
  hour : Nat
  minute : Nat
  second : Nat
  nanosecond : Nat
  deriving DecidableEq, Repr

/-- A number with leading zeros up to a width. -/
def padded (width n : Nat) : String :=
  let digits := Nat.toDigits 10 n
  String.ofList (List.replicate (width - digits.length) '0' ++ digits)

/-- Years of four digits are written as they are, all others with their sign. -/
def yearText (year : Int) : String :=
  if 0 ≤ year ∧ year ≤ 9999 then padded 4 year.toNat
  else (if year < 0 then "-" else "+") ++ padded 4 year.natAbs

/-- The fewest groups of three digits that give the fraction of a second exactly. -/
def fractionText (nanosecond : Nat) : String :=
  if nanosecond = 0 then ""
  else if nanosecond % 1000000 = 0 then "." ++ padded 3 (nanosecond / 1000000)
  else if nanosecond % 1000 = 0 then "." ++ padded 6 (nanosecond / 1000)
  else "." ++ padded 9 nanosecond

namespace Timestamp

def render (t : Timestamp) : String :=
  yearText t.date.year ++ "-" ++ padded 2 t.date.month ++ "-" ++ padded 2 t.date.day ++ "T" ++
    padded 2 t.hour ++ ":" ++ padded 2 t.minute ++ ":" ++ padded 2 t.second ++
    fractionText t.nanosecond ++ "Z"

/-- The same moment in universal time, given the minutes by which the local time is ahead of it,
which are less than a day. -/
def toUniversal (t : Timestamp) (ahead : Int) : Timestamp :=
  let minutes : Int := 60 * t.hour + t.minute - ahead
  let date :=
    if minutes < 0 then t.date.previous else if minutes < 1440 then t.date else t.date.next
  let minutes := (minutes % 1440).toNat
  { t with date, hour := minutes / 60, minute := minutes % 60 }

/-- The moment that many seconds and nanoseconds after the start of the year 1970. -/
def ofUnix (seconds : Int) (nanosecond : Nat) : Timestamp :=
  let clock := (seconds % 86400).toNat
  ⟨.ofDays (seconds / 86400), clock / 3600, clock / 60 % 60, clock % 60, nanosecond⟩

end Timestamp

/-- Why a text is no timestamp. -/
inductive TimestampError where
  | outOfRange
  | invalid
  | tooShort
  | trailing
  | impossible
  deriving DecidableEq, Repr

namespace TimestampError

def message : TimestampError → String
  | outOfRange => "input is out of range"
  | invalid => "input contains invalid characters"
  | tooShort => "premature end of input"
  | trailing => "trailing input"
  | impossible => "no possible date and time matching input"

end TimestampError

def value (digits : List Char) : Nat :=
  digits.foldl (fun n c => n * 10 + (c.toNat - '0'.toNat)) 0

/-- A number of one digit up to `width` digits, and the rest of the text. -/
def number (width : Nat) (cs : List Char) : Except TimestampError (Nat × List Char) :=
  match cs with
  | [] => .error .tooShort
  | c :: rest =>
      if c.isDigit then
        let digits := (c :: rest).takeWhile Char.isDigit |>.take width
        .ok (value digits, (c :: rest).drop digits.length)
      else .error .invalid

/-- A number as above after blanks, which has to lie within bounds. -/
def bounded (width least greatest : Nat) (cs : List Char) :
    Except TimestampError (Nat × List Char) := do
  let (n, rest) ← number width (Text.trimStart cs)
  if least ≤ n ∧ n ≤ greatest then .ok (n, rest) else .error .outOfRange

/-- The year: of four digits at most, or of any number of digits after a sign. -/
def year (cs : List Char) : Except TimestampError (Int × List Char) := do
  match Text.trimStart cs with
  | '-' :: rest => do
      let (n, rest) ← number rest.length rest
      if 2 * n ≤ UInt32.size then .ok (-(n : Int), rest) else .error .outOfRange
  | '+' :: rest => do
      let (n, rest) ← number rest.length rest
      if 2 * n < UInt32.size then .ok ((n : Int), rest) else .error .outOfRange
  | cs => do
      let (n, rest) ← number 4 cs
      .ok ((n : Int), rest)

/-- One character that has to follow, blanks before it allowed. -/
def mark (c : Char) (cs : List Char) : Except TimestampError (List Char) :=
  match Text.trimStart cs with
  | [] => .error .tooShort
  | d :: rest => if d = c then .ok rest else .error .invalid

/-- What stands between the date and the time. -/
def separator (cs : List Char) : Except TimestampError (List Char) :=
  match cs with
  | [] => .error .tooShort
  | c :: rest => if c = 'T' ∨ c = 't' ∨ c = ' ' then .ok rest else .error .invalid

/-- The fraction of a second after a point, in nanoseconds; further digits are dropped. -/
def fraction (cs : List Char) : Except TimestampError (Nat × List Char) :=
  match cs with
  | '.' :: rest => do
      let (_, after) ← number rest.length rest
      let digits := (rest.takeWhile Char.isDigit).take 9
      .ok (value digits * Nat.pow 10 (9 - digits.length), after)
  | cs => .ok (0, cs)

/-- Exactly two digits; a text of fewer than two bytes is too short. -/
def twoDigits (cs : List Char) : Except TimestampError (Nat × List Char) :=
  match cs with
  | a :: b :: rest =>
      if a.isDigit ∧ b.isDigit then .ok (value [a, b], rest) else .error .invalid
  | [a] => if a.utf8Size < 2 then .error .tooShort else .error .invalid
  | [] => .error .tooShort

/-- An offset of hours and minutes after its sign, in minutes. -/
def hoursAndMinutes (cs : List Char) : Except TimestampError (Nat × List Char) := do
  let (hours, rest) ← twoDigits cs
  let (minutes, rest) ← twoDigits (rest.dropWhile fun c => c == ':' || Text.isBlank c)
  if minutes < 60 then .ok (hours * 60 + minutes, rest) else .error .outOfRange

/-- The minutes by which the local time is ahead of universal time. -/
def offset (cs : List Char) : Except TimestampError (Int × List Char) :=
  match cs with
  | [] => .error .tooShort
  | 'Z' :: rest => .ok (0, rest)
  | 'z' :: rest => .ok (0, rest)
  | '+' :: rest => do
      let (minutes, rest) ← hoursAndMinutes rest
      .ok ((minutes : Int), rest)
  | c :: rest =>
      if c = '-' ∨ c = '\u2212' then do
        let (minutes, rest) ← hoursAndMinutes rest
        .ok (-(minutes : Int), rest)
      else if ((c :: rest).take 3).map Char.toUpper = ['U', 'T', 'C'] then .ok (0, rest.drop 2)
      else .error .invalid

namespace Timestamp

/-- The moment that a text gives: date, time and offset, with blanks allowed around the whole,
before every number and before the offset. -/
def parse (text : String) : Except TimestampError Timestamp := do
  let (y, rest) ← year text.toList
  let (month, rest) ← bounded 2 1 12 (← mark '-' rest)
  let (day, rest) ← bounded 2 1 31 (← mark '-' rest)
  let (hour, rest) ← bounded 2 0 23 (← separator rest)
  let (minute, rest) ← bounded 2 0 59 (← mark ':' rest)
  let (second, rest) ← bounded 2 0 60 (← mark ':' rest)
  let (nanosecond, rest) ← fraction rest
  let (ahead, rest) ← offset (Text.trimStart rest)
  if ¬ (Text.trimStart rest).isEmpty then .error .trailing
  else
    let date : Date := ⟨y, month, day⟩
    let shifted := toUniversal ⟨date, hour, minute, second, nanosecond⟩ ahead
    if ¬ date.isValid then .error .outOfRange
    else if 1440 ≤ ahead.natAbs then .error .outOfRange
    else if ¬ shifted.date.isValid then .error .impossible
    else .ok shifted

end Timestamp

end SafeCalls.Time
