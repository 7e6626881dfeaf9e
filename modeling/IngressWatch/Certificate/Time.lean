import IngressWatch.Calendar
import IngressWatch.Der.Element

/-!
# Times in certificates

A validity bound is a UTCTime with a two-digit year or a GeneralizedTime with four digits.

* `readTime`: the moment an element writes, and the bytes after it.
* `utcTime`: years 00 to 49 are in this century. The offset may be other than zero.
* `generalizedTime`: UTC only, with up to three digits of a fraction.
-/

namespace IngressWatch.Certificate

open Der

def digitValue? (c : UInt8) : Option Nat :=
  if 48 ≤ c ∧ c ≤ 57 then some (c.toNat - 48) else none

/-- Two decimal digits and the rest. -/
def twoDigits : Bytes → Option (Nat × Bytes)
  | a :: b :: rest => do return (10 * (← digitValue? a) + (← digitValue? b), rest)
  | _ => none

/-- Month, day, hour and minute, and the second if two more characters follow; it is 0
otherwise. -/
def clockReading (year : Int) (b : Bytes) : Option (LocalTime × Bytes) := do
  let (month, b) ← twoDigits b
  let (day, b) ← twoDigits b
  let (hour, b) ← twoDigits b
  let (minute, b) ← twoDigits b
  let (second, b) ← if 2 ≤ b.length then twoDigits b else some (0, b)
  let t : LocalTime := ⟨⟨year, month, day⟩, hour, minute, second⟩
  guard t.isValid
  return (t, b)

/-- The offset of a time zone: `Z`, or a sign, hours up to 25 and minutes. -/
def zoneOffset? : Bytes → Option Int
  | [90] => some 0
  | sign :: digits => do
    let (hours, digits) ← twoDigits digits
    let (minutes, digits) ← twoDigits digits
    guard (digits = [] ∧ hours ≤ 25 ∧ minutes ≤ 59)
    let offset : Int := hours * 3600 + minutes * 60
    if sign = 43 then return offset
    else if sign = 45 then return if hours = 0 then offset else -offset
    else none
  | [] => none

/-- A text of visible ASCII characters, with a year from 1950 to 2049. -/
def utcTime (text : Bytes) : Option Moment := do
  guard (text.all fun c => 32 ≤ c && c ≤ 127)
  let (year, rest) ← twoDigits text
  let (t, zone) ← clockReading (if 50 ≤ year then 1900 + year else 2000 + year : Nat) rest
  return ⟨t, 0, ← zoneOffset? zone⟩

/-- Thousandths of a second from at most three digits after a point; none without a point. -/
def fraction? : Bytes → Option Nat
  | [] => some 0
  | 46 :: digits => do
    guard (digits.length ≤ 3)
    let digits ← digits.mapM digitValue?
    return (digits.foldl (fun n d => 10 * n + d) 0) * Nat.pow 10 (3 - digits.length)
  | _ => none

def generalizedTime (text : Bytes) : Option Moment := do
  guard (text.all fun c => 32 ≤ c && c ≤ 127)
  guard (text.getLast? = some 90)
  let (century, rest) ← twoDigits text
  let (year, rest) ← twoDigits rest
  let (t, rest) ← clockReading (100 * century + year : Nat) rest
  return ⟨t, ← fraction? rest.dropLast, 0⟩

def readTime (b : Bytes) : Option (Moment × Bytes) := do
  let (e, rest) ← Element.read b
  let moment ←
    if e.number = 23 then utcTime e.contents
    else if e.number = 24 then generalizedTime e.contents
    else none
  return (moment, rest)

end IngressWatch.Certificate
