import IngressWatch.Der.Canonical

/-!
# RSA private keys

* `RsaKey.read`: the two-prime key of PKCS #1, and the bytes after it.
* `RsaKey.isConsistent`: the private exponent inverts the public one.
* `RsaKey.isUsable`: also the precomputed values are right and the size is one that TLS accepts.
* `RsaKey.write`: the PKCS #1 form.
-/

namespace IngressWatch

open Der

/-- A two-prime key with the values precomputed for the Chinese remainder theorem. -/
structure RsaKey where
  modulus : Nat
  publicExponent : Nat
  privateExponent : Nat
  prime1 : Nat
  prime2 : Nat
  exponent1 : Nat
  exponent2 : Nat
  coefficient : Nat
deriving DecidableEq, Repr

/-- The number of bits of `n`, 0 for zero. -/
def bitLength (n : Nat) : Nat := if n = 0 then 0 else n.log2 + 1

namespace RsaKey

def ofList? : List Nat → Option RsaKey
  | [n, e, d, p, q, dp, dq, qi] => some ⟨n, e, d, p, q, dp, dq, qi⟩
  | _ => none

def toList (k : RsaKey) : List Nat :=
  [k.modulus, k.publicExponent, k.privateExponent, k.prime1, k.prime2, k.exponent1, k.exponent2,
   k.coefficient]

/-- A sequence of the version 0 and the eight numbers, and what follows it. -/
def read (b : Bytes) : Option (RsaKey × Bytes) := do
  let (fields, rest) ← canonical sequenceTag b
  let (version, fields) ← unsigned fields
  let (numbers, fields) ← unsignedList 8 fields
  guard (version = 0 ∧ fields = [])
  return (← ofList? numbers, rest)

def write (k : RsaKey) : Bytes := sequenceOf ((0 :: k.toList).map unsignedElement)

/-- Whether `x` inverts `y` modulo `m`. -/
def inverts (x y m : Nat) : Bool := x * y % m == 1

/-- The primes multiply to the modulus and the exponents are inverse to each other. -/
def isConsistent (k : RsaKey) : Bool :=
  1 < k.prime1 && 1 < k.prime2 && k.prime1 * k.prime2 == k.modulus
    && inverts k.privateExponent k.publicExponent (k.prime1 - 1)
    && inverts k.privateExponent k.publicExponent (k.prime2 - 1)

/-- The precomputed values are reduced and right. -/
def isPrecomputed (k : RsaKey) : Bool :=
  k.exponent1 < k.prime1 - 1 && inverts k.exponent1 k.publicExponent (k.prime1 - 1)
    && k.exponent2 < k.prime2 - 1 && inverts k.exponent2 k.publicExponent (k.prime2 - 1)
    && k.coefficient < k.prime1 && inverts k.coefficient k.prime2 k.prime1

/-- A key that signs: an odd modulus of 2048 to 8192 bits, and an odd public exponent from 3 with
at most 33 bits. -/
def isUsable (k : RsaKey) : Bool :=
  k.modulus % 2 == 1 && 2048 ≤ bitLength k.modulus && bitLength k.modulus ≤ 8192
    && k.publicExponent % 2 == 1 && 3 ≤ k.publicExponent && bitLength k.publicExponent ≤ 33
    && k.privateExponent < k.modulus && k.prime1 < k.modulus && k.prime2 < k.modulus
    && k.isConsistent && k.isPrecomputed

end RsaKey

end IngressWatch
