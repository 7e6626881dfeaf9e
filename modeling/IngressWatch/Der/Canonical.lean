import IngressWatch.Bytes

/-!
# DER elements, read strictly

Private keys are read in the canonical form: tags of one byte that must be the expected ones,
lengths and integers in the fewest bytes.

* `canonical`: the contents of an element with a given tag and what follows it.
* `optional`: the same, for an element that may be missing.
* `unsigned`: a nonnegative integer.
* `sequenceOf`, `unsignedElement`: the written forms.
-/

namespace IngressWatch.Der

def sequenceTag : UInt8 := 0x30
def integerTag : UInt8 := 2
def bitStringTag : UInt8 := 3
def octetStringTag : UInt8 := 4
def nullTag : UInt8 := 5
def objectTag : UInt8 := 6

/-- The constructed context-specific tag `n`. -/
def contextTag (n : UInt8) : UInt8 := 0xa0 + n

/-- A length in its shortest form, of at most four bytes after the first. -/
def canonicalLength : Bytes → Option (Nat × Bytes)
  | [] => none
  | b :: rest =>
    if b < 128 then some (b.toNat, rest)
    else
      let count := b.toNat - 128
      let digits := rest.take count
      let value := Bytes.toNat digits
      if count = 0 ∨ 4 < count ∨ digits.length < count ∨ value < 128 ∨ digits.head? = some 0 then none
      else some (value, rest.drop count)

def canonical (tag : UInt8) : Bytes → Option (Bytes × Bytes)
  | [] => none
  | b :: rest => do
    guard (b = tag)
    let (length, rest) ← canonicalLength rest
    let contents := rest.take length
    guard (contents.length = length)
    return (contents, rest.drop length)

/-- An element that may be missing: it is there when its tag is. -/
def optional (tag : UInt8) (b : Bytes) : Option (Option Bytes × Bytes) :=
  if b.head? = some tag then do
    let (contents, rest) ← canonical tag b
    return (some contents, rest)
  else some (none, b)

/-- The contents of a nonnegative integer in the fewest bytes. -/
def unsignedContents? : Bytes → Option Nat
  | [] => none
  | [b] => if b < 128 then some b.toNat else none
  | b :: c :: rest =>
    if b < 128 ∧ ¬(b = 0 ∧ c < 128) then some (Bytes.toNat (b :: c :: rest)) else none

def unsigned (b : Bytes) : Option (Nat × Bytes) := do
  let (contents, rest) ← canonical integerTag b
  return (← unsignedContents? contents, rest)

/-- Reads `n` nonnegative integers. -/
def unsignedList : (n : Nat) → Bytes → Option (List Nat × Bytes)
  | 0, b => some ([], b)
  | n + 1, b => do
    let (first, b) ← unsigned b
    let (others, b) ← unsignedList n b
    return (first :: others, b)

/-- The contents of an element that fills `b`. -/
def whole (tag : UInt8) (b : Bytes) : Option Bytes := do
  let (contents, rest) ← canonical tag b
  guard (rest = [])
  return contents

def writeLength (n : Nat) : Bytes :=
  if n < 128 then [UInt8.ofNat n]
  else
    let digits := Bytes.ofNatMinimal n
    UInt8.ofNat (128 + digits.length) :: digits

def element (tag : UInt8) (contents : Bytes) : Bytes :=
  tag :: writeLength contents.length ++ contents

def sequenceOf (parts : List Bytes) : Bytes := element sequenceTag parts.flatten

/-- A nonnegative integer: a zero byte stands before a first byte with its high bit set. -/
def unsignedElement (n : Nat) : Bytes :=
  let digits := Bytes.ofNatMinimal n
  element integerTag (if digits.head?.all (128 ≤ ·) then 0 :: digits else digits)

end IngressWatch.Der
