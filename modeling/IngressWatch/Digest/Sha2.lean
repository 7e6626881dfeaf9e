import IngressWatch.Bytes

/-!
# The SHA-2 family

One description serves both word sizes: a `Variant` names the rotation amounts and the number of
rounds, and everything else follows from the word size.

* `Variant.pad`: the message, one set bit, zeros, and the length of the message in bits.
* `Variant.hash`: the chained compression of the padded blocks, most significant byte first.
* `fraction`: the constants, which are leading bits of the fractional parts of square and cube
  roots of the first primes.
-/

namespace IngressWatch.Sha2

/-- The greatest `r` with `r ^ k ≤ n`, below `2 ^ bits`, found bit by bit. -/
def root (k n : Nat) : (bits : Nat) → Nat → Nat
  | 0, r => r
  | bits + 1, r => root k n bits (if Nat.pow (r + 1 <<< bits) k ≤ n then r + 1 <<< bits else r)

/-- The first `width` bits after the binary point of the `k`-th root of `p`. -/
def fraction (k width p : Nat) : BitVec width :=
  BitVec.ofNat width (root k (p <<< (k * width)) (width + 8) 0)

def primes : List Nat :=
  [2, 3, 5, 7, 11, 13, 17, 19, 23, 29, 31, 37, 41, 43, 47, 53, 59, 61, 67, 71, 73, 79, 83, 89, 97,
   101, 103, 107, 109, 113, 127, 131, 137, 139, 149, 151, 157, 163, 167, 173, 179, 181, 191, 193,
   197, 199, 211, 223, 227, 229, 233, 239, 241, 251, 257, 263, 269, 271, 277, 281, 283, 293, 307,
   311, 313, 317, 331, 337, 347, 349, 353, 359, 367, 373, 379, 383, 389, 397, 401, 409]

/-- Two rotations and a third amount, which is a rotation in `Σ` and a shift in `σ`. -/
structure Mix where
  first : Nat
  second : Nat
  third : Nat

/-- The parameters of one member of the family with words of `width` bits. -/
structure Variant (width : Nat) where
  bigSigma0 : Mix
  bigSigma1 : Mix
  smallSigma0 : Mix
  smallSigma1 : Mix
  constants : List (BitVec width)
  initial : List (BitVec width)

variable {width : Nat}

def Mix.rotate (m : Mix) (x : BitVec width) : BitVec width :=
  x.rotateRight m.first ^^^ x.rotateRight m.second ^^^ x.rotateRight m.third

def Mix.shift (m : Mix) (x : BitVec width) : BitVec width :=
  x.rotateRight m.first ^^^ x.rotateRight m.second ^^^ x >>> m.third

/-- The eight working words. -/
structure Working (width : Nat) where
  a : BitVec width
  b : BitVec width
  c : BitVec width
  d : BitVec width
  e : BitVec width
  f : BitVec width
  g : BitVec width
  h : BitVec width

def Working.ofList (s : List (BitVec width)) : Working width :=
  ⟨s.getD 0 0, s.getD 1 0, s.getD 2 0, s.getD 3 0, s.getD 4 0, s.getD 5 0, s.getD 6 0, s.getD 7 0⟩

def Working.toList (s : Working width) : List (BitVec width) :=
  [s.a, s.b, s.c, s.d, s.e, s.f, s.g, s.h]

namespace Variant

/-- One round with constant `k` and schedule word `w`. -/
def round (v : Variant width) (k w : BitVec width) (s : Working width) : Working width :=
  let choice := (s.e &&& s.f) ^^^ (~~~s.e &&& s.g)
  let majority := (s.a &&& s.b) ^^^ (s.a &&& s.c) ^^^ (s.b &&& s.c)
  let t1 := s.h + v.bigSigma1.rotate s.e + choice + k + w
  let t2 := v.bigSigma0.rotate s.a + majority
  ⟨t1 + t2, s.a, s.b, s.c, s.d + t1, s.e, s.f, s.g⟩

/-- All rounds over a sliding window of the sixteen next schedule words. -/
def rounds (v : Variant width) :
    List (BitVec width) → List (BitVec width) → Working width → Working width
  | k :: ks, w :: window, s =>
    let next := v.smallSigma1.shift (window.getD 13 0) + window.getD 8 0
      + v.smallSigma0.shift (window.getD 0 0) + w
    v.rounds ks (window ++ [next]) (v.round k w s)
  | _, _, s => s

def compress (v : Variant width) (state block : List (BitVec width)) : List (BitVec width) :=
  List.zipWith (· + ·) state (v.rounds v.constants block (Working.ofList state)).toList

/-- Cuts bytes into words; a rest shorter than a word is dropped. -/
def words (width : Nat) : Bytes → List (BitVec width)
  | [] => []
  | b :: rest =>
    let word := (b :: rest).take (width / 8)
    if word.length < width / 8 then []
    else BitVec.ofNat width (Bytes.toNat word) :: words width (rest.drop (width / 8 - 1))
  termination_by l => l.length

/-- The number of bytes in a block. -/
def blockBytes (_ : Variant width) : Nat := 2 * width

def pad (v : Variant width) (message : Bytes) : Bytes :=
  let lengthBytes := width / 4
  let gap := (message.length + 1 + lengthBytes) % v.blockBytes
  message ++ 0x80 :: List.replicate ((v.blockBytes - gap) % v.blockBytes) 0
    ++ Bytes.ofNat lengthBytes (8 * message.length)

/-- Compresses one block after the other; a rest shorter than a block changes nothing. -/
def absorb (v : Variant width) (state : List (BitVec width)) : Bytes → List (BitVec width)
  | [] => state
  | b :: rest =>
    let block := (b :: rest).take v.blockBytes
    if block.length < v.blockBytes then state
    else v.absorb (v.compress state (words width block)) (rest.drop (v.blockBytes - 1))
  termination_by l => l.length

def hash (v : Variant width) (message : Bytes) : Bytes :=
  (v.absorb v.initial (v.pad message)).flatMap fun w => Bytes.ofNat (width / 8) w.toNat

end Variant

def sha256Variant : Variant 32 where
  bigSigma0 := ⟨2, 13, 22⟩
  bigSigma1 := ⟨6, 11, 25⟩
  smallSigma0 := ⟨7, 18, 3⟩
  smallSigma1 := ⟨17, 19, 10⟩
  constants := (primes.take 64).map (fraction 3 32)
  initial := (primes.take 8).map (fraction 2 32)

def sha512Variant : Variant 64 where
  bigSigma0 := ⟨28, 34, 39⟩
  bigSigma1 := ⟨14, 18, 41⟩
  smallSigma0 := ⟨1, 8, 7⟩
  smallSigma1 := ⟨19, 61, 6⟩
  constants := primes.map (fraction 3 64)
  initial := (primes.take 8).map (fraction 2 64)

end Sha2

/-- The SHA-256 digest, 32 bytes. -/
def sha256 (message : Bytes) : Bytes := Sha2.sha256Variant.hash message

/-- The SHA-512 digest, 64 bytes. -/
def sha512 (message : Bytes) : Bytes := Sha2.sha512Variant.hash message

end IngressWatch
