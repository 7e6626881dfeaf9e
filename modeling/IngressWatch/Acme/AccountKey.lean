import IngressWatch.Error
import IngressWatch.Pem.Armor
import IngressWatch.PrivateKey.Rsa

/-!
# ACME account keys

An account key is an RSA key in strict PEM text.

* `KeyCodec`: how keys are written and read; `rsaCodec` is the one in use.
* `AccountKey.decode`: PKCS #1, or the same key in the PKCS #8 envelope.
* `RsaKey.ofPrimes?`: the key of two primes.
-/

namespace IngressWatch

open Der

/-- How keys of a type are written into a secret and read back. -/
structure KeyCodec (κ : Type) where
  encode : κ → Bytes
  decode : Bytes → Except Malformed κ

/-- An `x` with `a * x ≡ g`, for `g` the greatest common divisor of `a` and `m`, modulo `m`. The
invariant is `a * s ≡ r` and `a * s' ≡ r'`. -/
def bezout (m : Int) : (fuel : Nat) → (r s r' s' : Int) → Int
  | 0, _, s, _, _ => s % m
  | fuel + 1, r, s, r', s' =>
    if r' = 0 then s % m else bezout m fuel r' s' (r % r') (s - r / r' * s')

/-- The inverse of `a` modulo `m`, if they have no common divisor. -/
def inverse? (a m : Nat) : Option Nat :=
  let x := (bezout m (2 * (m.log2 + a.log2) + 4) a 1 m 0).toNat
  if a * x % m = 1 then some x else none

/-- The exponent of generated keys. -/
def accountExponent : Nat := 65537

/-- The key of two primes with the usual public exponent. -/
def RsaKey.ofPrimes? (p q : Nat) : Option RsaKey := do
  let d ← inverse? accountExponent (Nat.lcm (p - 1) (q - 1))
  return {
    modulus := p * q
    publicExponent := accountExponent
    privateExponent := d
    prime1 := p
    prime2 := q
    exponent1 := d % (p - 1)
    exponent2 := d % (q - 1)
    coefficient := ← inverse? q p }

namespace AccountKey

def pkcs1Label : Bytes := Bytes.ofAscii "RSA PRIVATE KEY"

def pkcs8Label : Bytes := Bytes.ofAscii "PRIVATE KEY"

/-- An odd modulus of at most 4096 bits, an odd public exponent below it from 3 with at most 33
bits, and exponents that are inverse to each other. -/
def isAccepted (k : RsaKey) : Bool :=
  bitLength k.modulus ≤ 4096 && k.modulus % 2 == 1 && k.publicExponent < k.modulus
    && k.publicExponent % 2 == 1 && 3 ≤ k.publicExponent && bitLength k.publicExponent ≤ 33
    && k.isConsistent

def ofPkcs1 (der : Bytes) : Option RsaKey := do
  let (k, rest) ← RsaKey.read der
  guard (rest = [] ∧ isAccepted k)
  return k

/-- Skips elements with a lower context tag, and reads the bit string with context tag 1 if it is
there. `fuel` bounds the number of elements. -/
def publicKey : (fuel : Nat) → Bytes → Option (Option Bytes × Bytes)
  | fuel + 1, b :: rest =>
    if b = 0x81 then (canonical 0x81 (b :: rest)).map fun r => (some r.1, r.2)
    else if b = 0x80 ∨ b = 0xa0 then
      (canonical b (b :: rest)).bind fun r => publicKey fuel r.2
    else some (none, b :: rest)
  | _, b => some (none, b)

/-- Whether only context-specific elements are left, each around one element. -/
def onlyExtras : (fuel : Nat) → Bytes → Bool
  | _, [] => true
  | fuel + 1, b :: rest =>
    match canonical b (b :: rest) with
    | some (inner :: contents, after) =>
      0xa0 ≤ b && b < 0xbf && (whole inner (inner :: contents)).isSome && onlyExtras fuel after
    | _ => false
  | 0, _ => false

def rsaIdentifier : Bytes := [0x2a, 0x86, 0x48, 0x86, 0xf7, 0x0d, 1, 1, 1]

/-- The envelope of PKCS #8. Its second version holds a public key and its first does not. -/
def ofPkcs8 (der : Bytes) : Option RsaKey := do
  let fields ← whole sequenceTag der
  let (version, fields) ← unsigned fields
  let (algorithm, fields) ← canonical sequenceTag fields
  let (identifier, parameters) ← canonical objectTag algorithm
  let (key, fields) ← canonical octetStringTag fields
  let (bits, fields) ← publicKey fields.length fields
  guard (identifier = rsaIdentifier ∧ parameters = [nullTag, 0])
  guard (version = 0 ∧ bits = none ∨ version = 1 ∧ (bits.bind (·.head?)) = some 0)
  guard (onlyExtras fields.length fields)
  ofPkcs1 key

def ofText (text : Bytes) : Option RsaKey := do
  let (label, der) ← Pem.readArmor text
  if label = pkcs1Label then ofPkcs1 der
  else if label = pkcs8Label then ofPkcs8 der
  else none

def decode (text : Bytes) : Except Malformed RsaKey :=
  if (Bytes.toString? text).isNone then .error (.pem "account key")
  else match ofText text with
    | some k => .ok k
    | none => .error .accountKey

def encode (k : RsaKey) : Bytes := Pem.writeArmor pkcs1Label k.write

end AccountKey

def rsaCodec : KeyCodec RsaKey := ⟨AccountKey.encode, AccountKey.decode⟩

end IngressWatch
