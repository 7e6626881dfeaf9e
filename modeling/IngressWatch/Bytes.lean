/-!
# Byte strings

Everything that is hashed, decoded from PEM or written to a credential file is a list of bytes.

* `Bytes.ofString`: the UTF-8 form of a text.
* `Bytes.toString?`: the text of a valid UTF-8 byte string.
* `Bytes.ofNat`, `Bytes.toNat`: big-endian numbers.
* `Bytes.pieces`: the parts between separators.
* `Bytes.toHex`: two lowercase hexadecimal digits per byte.
-/

namespace IngressWatch

abbrev Bytes := List UInt8

namespace Bytes

def ofString (s : String) : Bytes := s.toUTF8.toList

def toByteArray (b : Bytes) : ByteArray := ⟨b.toArray⟩

/-- The text these bytes encode, if they are valid UTF-8. -/
def toString? (b : Bytes) : Option String := String.fromUTF8? (toByteArray b)

/-- The bytes of `c`, one per ASCII character. -/
def ofAscii (s : String) : Bytes := s.toList.map fun c => UInt8.ofNat c.toNat

/-- The number that `b` writes in base 256, most significant byte first. -/
def toNat (b : Bytes) : Nat := b.foldl (fun n c => n * 256 + c.toNat) 0

/-- The low `width` bytes of `n`, most significant first. -/
def ofNat : (width : Nat) → Nat → Bytes
  | 0, _ => []
  | width + 1, n => UInt8.ofNat (n / Nat.pow 256 width) :: ofNat width (n % Nat.pow 256 width)

/-- The fewest bytes that hold `n`, most significant first; none for zero. -/
def ofNatMinimal (n : Nat) : Bytes := ofNat (if n = 0 then 0 else n.log2 / 8 + 1) n

def hexDigit (n : Nat) : Char :=
  if n < 10 then Char.ofNat (48 + n) else Char.ofNat (87 + n)

def toHex (b : Bytes) : String :=
  String.ofList (b.flatMap fun c => [hexDigit (c.toNat / 16), hexDigit (c.toNat % 16)])

/-- The pieces between the bytes that satisfy `p`, one more than there are such bytes. -/
def pieces (p : UInt8 → Bool) (b : Bytes) : List Bytes :=
  b.foldr (fun c done => if p c then [] :: done else
    match done with
    | [] => [[c]]
    | piece :: done => (c :: piece) :: done) [[]]

theorem length_ofNat (width n : Nat) : (ofNat width n).length = width := by
  induction width generalizing n with
  | zero => rfl
  | succ width ih => simp [ofNat, ih]

end Bytes

end IngressWatch
