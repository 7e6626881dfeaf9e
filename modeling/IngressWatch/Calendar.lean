/-!
# Dates and times

The proleptic Gregorian calendar and moments on a clock with an offset.

* `Date.dayNumber`, `Date.ofDayNumber`: days since 1970-01-01 and back.
* `Moment.unixSeconds`: the seconds since 1970-01-01T00:00:00Z.
* `Moment.text`: the form used in reports, `2036-11-16 13:34:31.0 +00:00:00`.
* `utcText`, `ofRfc3339?`: the form used in manifests, `2036-11-16T13:34:31Z`.
-/

namespace IngressWatch

structure Date where
  year : Int
  month : Nat
  day : Nat
deriving DecidableEq, Repr

namespace Date

def isLeap (year : Int) : Bool := year % 4 == 0 && (year % 100 != 0 || year % 400 == 0)

def daysInMonth (year : Int) (month : Nat) : Nat :=
  if month = 2 then if isLeap year then 29 else 28
  else if month ∈ [4, 6, 9, 11] then 30 else 31

def isValid (d : Date) : Bool :=
  1 ≤ d.month && d.month ≤ 12 && 1 ≤ d.day && d.day ≤ daysInMonth d.year d.month

/-- Days since 1970-01-01. Years are counted from March, so that a leap day ends its year, in eras
of 400 years with 146097 days each. -/
def dayNumber (d : Date) : Int :=
  let year := if d.month ≤ 2 then d.year - 1 else d.year
  let yearOfEra := year % 400
  let dayOfYear := (153 * ((d.month + 9) % 12) + 2) / 5 + d.day - 1
  year / 400 * 146097 + yearOfEra * 365 + yearOfEra / 4 - yearOfEra / 100 + dayOfYear - 719468

def ofDayNumber (n : Int) : Date :=
  let shifted := n + 719468
  let dayOfEra := (shifted % 146097).toNat
  let yearOfEra := (dayOfEra - dayOfEra / 1460 + dayOfEra / 36524 - dayOfEra / 146096) / 365
  let dayOfYear := dayOfEra - (365 * yearOfEra + yearOfEra / 4 - yearOfEra / 100)
  let shiftedMonth := (5 * dayOfYear + 2) / 153
  let month := if shiftedMonth < 10 then shiftedMonth + 3 else shiftedMonth - 9
  let year := shifted / 146097 * 400 + yearOfEra
  ⟨if month ≤ 2 then year + 1 else year, month, dayOfYear - (153 * shiftedMonth + 2) / 5 + 1⟩

end Date

/-- A number with at least `width` digits. -/
def padded (width : Nat) (n : Nat) : String :=
  let digits := toString n
  String.ofList (List.replicate (width - digits.length) '0') ++ digits

/-- A year with at least four digits. -/
def yearText (year : Int) : String :=
  if year < 0 then "-" ++ padded 4 (-year).toNat else padded 4 year.toNat

/-- A time of day on a date. -/
structure LocalTime where
  date : Date
  hour : Nat
  minute : Nat
  second : Nat
deriving DecidableEq, Repr

/-- A time on a clock that is `offset` seconds ahead of UTC. -/
structure Moment where
  reading : LocalTime
  millisecond : Nat
  offset : Int
deriving DecidableEq, Repr

namespace LocalTime

def isValid (t : LocalTime) : Bool :=
  t.date.isValid && t.hour ≤ 23 && t.minute ≤ 59 && t.second ≤ 59

/-- Seconds since 1970-01-01 on the same clock. -/
def seconds (t : LocalTime) : Int :=
  t.date.dayNumber * 86400 + (t.hour * 3600 + t.minute * 60 + t.second : Nat)

def ofSeconds (n : Int) : LocalTime :=
  let rest := (n % 86400).toNat
  ⟨Date.ofDayNumber (n / 86400), rest / 3600, rest / 60 % 60, rest % 60⟩

end LocalTime

namespace Moment

def unixSeconds (m : Moment) : Int := m.reading.seconds - m.offset

/-- A part of a second without zeros at its end, but with at least one digit. -/
def fractionText (millisecond : Nat) : String :=
  if millisecond % 100 = 0 then padded 1 (millisecond / 100)
  else if millisecond % 10 = 0 then padded 2 (millisecond / 10)
  else padded 3 millisecond

def offsetText (offset : Int) : String :=
  let n := offset.natAbs
  (if offset < 0 then "-" else "+") ++ padded 2 (n / 3600) ++ ":" ++ padded 2 (n / 60 % 60) ++ ":"
    ++ padded 2 (n % 60)

def text (m : Moment) : String :=
  let t := m.reading
  yearText t.date.year ++ "-" ++ padded 2 t.date.month ++ "-" ++ padded 2 t.date.day ++ " "
    ++ toString t.hour ++ ":" ++ padded 2 t.minute ++ ":" ++ padded 2 t.second ++ "."
    ++ fractionText m.millisecond ++ " " ++ offsetText m.offset

end Moment

/-- The time of `n` Unix seconds at UTC, as manifests write it. -/
def utcText (n : Int) : String :=
  let t := LocalTime.ofSeconds n
  yearText t.date.year ++ "-" ++ padded 2 t.date.month ++ "-" ++ padded 2 t.date.day ++ "T"
    ++ padded 2 t.hour ++ ":" ++ padded 2 t.minute ++ ":" ++ padded 2 t.second ++ "Z"

/-- The value of `count` decimal digits, and the rest. -/
def readDigits (count : Nat) (s : List Char) : Option (Nat × List Char) :=
  let digits := s.take count
  if digits.length = count ∧ digits.all Char.isDigit then
    some (digits.foldl (fun n c => 10 * n + (c.toNat - 48)) 0, s.drop count)
  else none

/-- The rest after a character in `cs`. -/
def readMark (cs : List Char) : List Char → Option (List Char)
  | c :: rest => if c ∈ cs then some rest else none
  | [] => none

/-- A zone: `Z`, or a sign, hours and minutes. -/
def readZone : List Char → Option Int
  | [c] => if c = 'Z' ∨ c = 'z' then some 0 else none
  | sign :: rest => do
    let (hours, rest) ← readDigits 2 rest
    let (minutes, rest) ← readDigits 2 (← readMark [':'] rest)
    guard (rest = [] ∧ hours ≤ 23 ∧ minutes ≤ 59)
    let offset : Int := hours * 3600 + minutes * 60
    if sign = '+' then return offset else if sign = '-' then return -offset else none
  | [] => none

/-- The Unix seconds of a time as RFC 3339 writes it, without the fraction of its second. -/
def ofRfc3339? (s : String) : Option Int := do
  let (year, s) ← readDigits 4 s.toList
  let (month, s) ← readDigits 2 (← readMark ['-'] s)
  let (day, s) ← readDigits 2 (← readMark ['-'] s)
  let (hour, s) ← readDigits 2 (← readMark ['T', 't', ' '] s)
  let (minute, s) ← readDigits 2 (← readMark [':'] s)
  let (second, s) ← readDigits 2 (← readMark [':'] s)
  let zone := match s with
    | '.' :: fraction => fraction.dropWhile Char.isDigit
    | _ => s
  let t : LocalTime := ⟨⟨year, month, day⟩, hour, minute, second⟩
  guard t.isValid
  return t.seconds - (← readZone zone)

end IngressWatch
