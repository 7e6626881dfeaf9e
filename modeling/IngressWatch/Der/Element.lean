import IngressWatch.Bytes

/-!
# DER elements, read leniently

Certificates are read element by element. A length may be written with more bytes than it needs,
and bytes that follow the last field of a sequence are not looked at.

* `Header.read`: the tag and length that open some bytes.
* `Element.read`: the first element of some bytes and the bytes after it.
* `Element.numbered`: the same, for one tag number of any class.
* `bitString`, `smallUnsigned`: the contents that are checked.
-/

namespace IngressWatch.Der

/-- A tag, and the number of bytes that it marks. -/
structure Header where
  tagClass : Nat
  constructed : Bool
  number : Nat
  length : Nat

namespace Header

/-- The rest of a tag number in base 128, at most `fuel` bytes long. Its value is kept in 32
bits. -/
def readNumber (value : Nat) : (fuel : Nat) → Bytes → Option (Nat × Bytes)
  | fuel + 1, b :: rest =>
    let value := (value * 128 + b.toNat % 128) % UInt32.size
    if b < 128 then some (value, rest) else readNumber value fuel rest
  | _, _ => none

/-- A length: one byte, or a count and that many bytes. It must be definite and fit in 64 bits. -/
def readLength : Bytes → Option (Nat × Bytes)
  | [] => none
  | b :: rest =>
    if b < 128 then some (b.toNat, rest)
    else
      let count := b.toNat - 128
      let digits := rest.take count
      let value := Bytes.toNat digits
      if count = 0 ∨ count = 127 ∨ digits.length < count ∨ UInt64.size ≤ value then none
      else some (value, rest.drop count)

/-- The header and all bytes after it. -/
def read : Bytes → Option (Header × Bytes)
  | [] => none
  | b :: rest => do
    let (number, rest) ←
      if b.toNat % 32 = 31 then readNumber 0 5 rest else some (b.toNat % 32, rest)
    let (length, rest) ← readLength rest
    return (⟨b.toNat / 64, b.toNat / 32 % 2 = 1, number, length⟩, rest)

end Header

/-- A tag with the contents it marks. -/
structure Element where
  tagClass : Nat
  constructed : Bool
  number : Nat
  contents : Bytes

namespace Element

/-- The class of a tag whose meaning depends on where it stands. -/
def contextClass : Nat := 2

def read (b : Bytes) : Option (Element × Bytes) := do
  let (h, rest) ← Header.read b
  let contents := rest.take h.length
  guard (contents.length = h.length)
  return (⟨h.tagClass, h.constructed, h.number, contents⟩, rest.drop h.length)

/-- The first element, whose tag number must be `number`. -/
def numbered (number : Nat) (b : Bytes) : Option (Element × Bytes) := do
  let (e, rest) ← read b
  guard (e.number = number)
  return (e, rest)

/-- The first element, if its tag is the context-specific `number`. Other bytes are left alone. -/
def context? (number : Nat) (b : Bytes) : Option (Option Element × Bytes) :=
  if b = [] then some (none, [])
  else do
    let (e, rest) ← read b
    if e.tagClass = contextClass ∧ e.number = number then return (some e, rest)
    else return (none, b)

end Element

/-- The contents of a constructed element with tag number `number`, and what follows it. -/
def constructedPart (number : Nat) (b : Bytes) : Option (Bytes × Bytes) := do
  let (e, rest) ← Element.numbered number b
  guard e.constructed
  return (e.contents, rest)

def sequencePart : Bytes → Option (Bytes × Bytes) := constructedPart 16

def setPart : Bytes → Option (Bytes × Bytes) := constructedPart 17

/-- The contents of an object identifier and what follows it. Where one has to stand, any element
that is not constructed is taken for it. -/
def objectIdentifier (b : Bytes) : Option (Bytes × Bytes) := do
  let (e, rest) ← Element.read b
  guard !e.constructed
  return (e.contents, rest)

/-- The number of zero bits at the low end of a byte, eight for zero. -/
def trailingZeros (b : UInt8) : Nat :=
  ((List.range 8).filter fun i => b.toNat % 1 <<< (i + 1) = 0).length

/-- The contents of a bit string: a count of unused bits, which must be zero, and the bits. -/
def isBitString (contents : Bytes) : Bool :=
  match contents with
  | [] => false
  | [unused] => unused == 0
  | unused :: bits => bits.getLast?.any fun last => unused.toNat ≤ trailingZeros last

/-- What follows a bit string. -/
def bitString (b : Bytes) : Option Bytes := do
  let (e, rest) ← Element.numbered 3 b
  guard (!e.constructed && isBitString e.contents)
  return rest

/-- Whether `contents` writes an integer in the fewest bytes. -/
def isMinimal (contents : Bytes) : Bool :=
  match contents with
  | [] => false
  | [_] => true
  | first :: second :: _ => !(first == 0 && second < 128) && !(first == 255 && 128 ≤ second)

/-- An integer from 0 to 2³² − 1. -/
def smallUnsigned (b : Bytes) : Option (Nat × Bytes) := do
  let (e, rest) ← Element.numbered 2 b
  let value := Bytes.toNat e.contents
  guard (!e.constructed && isMinimal e.contents && e.contents.head?.any (· < 128) && value < UInt32.size)
  return (value, rest)

end IngressWatch.Der
