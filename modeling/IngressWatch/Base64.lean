import IngressWatch.Bytes

/-!
# Base64

The alphabet of RFC 4648 §4 with two readers and a writer.

* `decode`: blocks of four characters. Padding closes a block, the bits it stands for are zero,
  and another block may follow a padded one.
* `decodeLoose`: white space is skipped, padding at the end may be missing, and the bits it stands
  for are not looked at.
* `encode`: the padded form.
-/

namespace IngressWatch.Base64

/-- The byte that pads a last block, `=`. -/
def pad : UInt8 := 61

def digit? (c : UInt8) : Option Nat :=
  let n := c.toNat
  if 65 ≤ n ∧ n ≤ 90 then some (n - 65)
  else if 97 ≤ n ∧ n ≤ 122 then some (n - 71)
  else if 48 ≤ n ∧ n ≤ 57 then some (n + 4)
  else if n = 43 then some 62
  else if n = 47 then some 63
  else none

def digitByte (n : Nat) : UInt8 :=
  UInt8.ofNat (if n < 26 then n + 65 else if n < 52 then n + 71 else if n < 62 then n - 4
    else if n = 62 then 43 else 47)

/-- The bytes of a block without padding: four digits, or three or two of them and zeros. -/
def unpack (count : Nat) (a b c d : Nat) : Bytes :=
  (Bytes.ofNat 3 (((a * 64 + b) * 64 + c) * 64 + d)).take count

/-- One block of four characters; the bits that padding stands for must be zero. -/
def decodeBlock (a b c d : UInt8) : Option Bytes := do
  let a ← digit? a
  let b ← digit? b
  if d = pad then
    if c = pad then
      guard (b % 16 = 0)
      return unpack 1 a b 0 0
    else
      let c ← digit? c
      guard (c % 4 = 0)
      return unpack 2 a b c 0
  else
    return unpack 3 a b (← digit? c) (← digit? d)

/-- Reads the rest of a text after the bytes `done`, last first, have been read. -/
def decodeAfter (done : Bytes) : Bytes → Option Bytes
  | [] => some done.reverse
  | a :: b :: c :: d :: rest =>
    match decodeBlock a b c d with
    | none => none
    | some block => decodeAfter (block.reverse ++ done) rest
  | _ => none

def decode (text : Bytes) : Option Bytes := decodeAfter [] text

def isSpace (c : UInt8) : Bool := (9 ≤ c && c ≤ 13) || c = 32

/-- The last characters of a text, at most four, where padding may be missing. -/
def decodeTail : Bytes → Option Bytes
  | [] => some []
  | [a, b] => do return unpack 1 (← digit? a) (← digit? b) 0 0
  | [a, b, c] => do return unpack 2 (← digit? a) (← digit? b) (← digit? c) 0
  | [a, b, c, d] =>
    if d = pad then
      if c = pad then do return unpack 1 (← digit? a) (← digit? b) 0 0
      else do return unpack 2 (← digit? a) (← digit? b) (← digit? c) 0
    else do return unpack 3 (← digit? a) (← digit? b) (← digit? c) (← digit? d)
  | _ => none

/-- Reads two blocks at a time after the bytes `done`, last first. Two blocks that end in padding
end the text. -/
def decodePairs (done : Bytes) : Bytes → Option Bytes
  | a :: b :: c :: d :: e :: f :: g :: h :: rest =>
    match digit? a, digit? b, digit? c, digit? d, decodeTail [e, f, g, h] with
    | some a, some b, some c, some d, some tail =>
      let done := tail.reverse ++ (unpack 3 a b c d).reverse ++ done
      if h = pad then some done.reverse else decodePairs done rest
    | _, _, _, _, _ => none
  | a :: b :: c :: d :: e :: rest => do
    let first := unpack 3 (← digit? a) (← digit? b) (← digit? c) (← digit? d)
    return done.reverse ++ first ++ (← decodeTail (e :: rest))
  | tail => do return done.reverse ++ (← decodeTail tail)

def decodeLoose (text : Bytes) : Option Bytes := decodePairs [] (text.filter fun c => !isSpace c)

/-- Writes the rest of the bytes after the characters `done`, last first. -/
def encodeAfter (done : Bytes) : Bytes → Bytes
  | [] => done.reverse
  | [a] =>
    let n := a.toNat * 16
    done.reverse ++ [digitByte (n / 64), digitByte (n % 64), pad, pad]
  | [a, b] =>
    let n := (a.toNat * 256 + b.toNat) * 4
    done.reverse ++ [digitByte (n / 4096), digitByte (n / 64 % 64), digitByte (n % 64), pad]
  | a :: b :: c :: rest =>
    let n := (a.toNat * 256 + b.toNat) * 256 + c.toNat
    encodeAfter (digitByte (n % 64) :: digitByte (n / 64 % 64) :: digitByte (n / 4096 % 64) ::
      digitByte (n / 262144) :: done) rest

def encode (b : Bytes) : Bytes := encodeAfter [] b

/-- The base64 text of `b`. -/
def encodeText (b : Bytes) : String := String.ofList ((encode b).map fun c => Char.ofNat c.toNat)

/-- Reads a base64 text. -/
def decodeText (s : String) : Option Bytes := decode (Bytes.ofString s)

end IngressWatch.Base64
