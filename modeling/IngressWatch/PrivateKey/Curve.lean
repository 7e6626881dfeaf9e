import IngressWatch.Der.Canonical

/-!
# Keys on prime curves

The curves P-256, P-384 and P-521, `y² = x³ − 3x + b` modulo a prime, and their private keys.

* `Curve.multiply`: a multiple of the base point, in Jacobian coordinates.
* `Curve.ofParameters`: the curve that an identifier names or that explicit numbers describe.
* `Curve.isKey`: whether bytes hold a private key of the curve.
-/

namespace IngressWatch

open Der

structure Curve where
  /-- The object identifier that names the curve. -/
  identifier : Bytes
  prime : Nat
  b : Nat
  baseX : Nat
  baseY : Nat
  /-- The order of the base point. -/
  order : Nat
  /-- The number of bytes that hold a coordinate. -/
  width : Nat
deriving DecidableEq

namespace Curve

def p256 : Curve where
  identifier := [0x2a, 0x86, 0x48, 0xce, 0x3d, 3, 1, 7]
  prime := 1 <<< 256 - 1 <<< 224 + 1 <<< 192 + 1 <<< 96 - 1
  b := 0x5ac635d8aa3a93e7b3ebbd55769886bc651d06b0cc53b0f63bce3c3e27d2604b
  baseX := 0x6b17d1f2e12c4247f8bce6e563a440f277037d812deb33a0f4a13945d898c296
  baseY := 0x4fe342e2fe1a7f9b8ee7eb4a7c0f9e162bce33576b315ececbb6406837bf51f5
  order := 0xffffffff00000000ffffffffffffffffbce6faada7179e84f3b9cac2fc632551
  width := 32

def p384 : Curve where
  identifier := [0x2b, 0x81, 4, 0, 0x22]
  prime := 1 <<< 384 - 1 <<< 128 - 1 <<< 96 + 1 <<< 32 - 1
  b := 0xb3312fa7e23ee7e4988e056be3f82d19181d9c6efe8141120314088f5013875ac656398d8a2ed19d2a85c8edd3ec2aef
  baseX := 0xaa87ca22be8b05378eb1c71ef320ad746e1d3b628ba79b9859f741e082542a385502f25dbf55296c3a545e3872760ab7
  baseY := 0x3617de4a96262c6f5d9e98bf9292dc29f8f41dbd289a147ce9da3113b5f0b8c00a60b1ce1d7e819d7a431d7c90ea0e5f
  order := 0xffffffffffffffffffffffffffffffffffffffffffffffffc7634d81f4372ddf581a0db248b0a77aecec196accc52973
  width := 48

def p521 : Curve where
  identifier := [0x2b, 0x81, 4, 0, 0x23]
  prime := 1 <<< 521 - 1
  b := 0x51953eb9618e1c9a1f929a21a0b68540eea2da725b99b315f3b8b489918ef109e156193951ec7e937b1652c0bd3bb1bf073573df883d2c34f1ef451fd46b503f00
  baseX := 0xc6858e06b70404e9cd9e3ecb662395b4429c648139053fb521f828af606b4d3dbaa14b5e77efe75928fe1dc127a2ffa8de3348b3c1856a429bf97e7e31c2e5bd66
  baseY := 0x11839296a789a3bc0045c8a5fb42c7d1bd998f54449579b446817afbd17273e662c97ee72995ef42640c550b9013fad0761353c7086a272c24088be94769fd16650
  order := 0x1fffffffffffffffffffffffffffffffffffffffffffffffffffffffffffffffffa51868783bf2f966b7fcc0148f709a5d03bb5c9b8899c47aebb6fb71e91386409
  width := 66

def supported : List Curve := [p256, p384, p521]

/-- The point `(x / z², y / z³)`; the point at infinity when `z = 0`. -/
structure Jacobian where
  x : Int
  y : Int
  z : Int

variable (c : Curve)

def double (p : Jacobian) : Jacobian :=
  let m : Int := c.prime
  let y2 := p.y * p.y % m
  let z2 := p.z * p.z % m
  let s := 4 * p.x * y2 % m
  let t := 3 * (p.x - z2) * (p.x + z2) % m
  let x := (t * t - 2 * s) % m
  ⟨x, (t * (s - x) - 8 * (y2 * y2 % m)) % m, 2 * p.y * p.z % m⟩

def add (p q : Jacobian) : Jacobian :=
  let m : Int := c.prime
  if p.z = 0 then q
  else if q.z = 0 then p
  else
    let pz2 := p.z * p.z % m
    let qz2 := q.z * q.z % m
    let u := p.x * qz2 % m
    let s := p.y * (qz2 * q.z % m) % m
    let h := (q.x * pz2 - u) % m
    let r := (q.y * (pz2 * p.z % m) - s) % m
    if h = 0 then if r = 0 then double c p else ⟨1, 1, 0⟩
    else
      let h2 := h * h % m
      let h3 := h2 * h % m
      let x := (r * r - h3 - 2 * u * h2) % m
      ⟨x, (r * (u * h2 - x) - s * h3) % m, p.z * q.z % m * h % m⟩

/-- `k` times the base point, by the bits of `k` below `2 ^ bits` from the highest on. -/
def ladder (k : Nat) : (bits : Nat) → Jacobian → Jacobian
  | 0, acc => acc
  | bits + 1, acc =>
    let acc := double c acc
    ladder k bits (if k.testBit bits then add c acc ⟨c.baseX, c.baseY, 1⟩ else acc)

def multiply (k : Nat) : Jacobian := ladder c k (k.log2 + 1) ⟨1, 1, 0⟩

/-- Powers modulo `m`, by squaring. -/
def power (m : Int) (x : Int) (k : Nat) : Int :=
  if k = 0 then 1 % m
  else
    let root := power m (x * x % m) (k / 2)
    if k % 2 = 1 then x * root % m else root

/-- Both coordinates of `k` times the base point. -/
def publicPoint (k : Nat) : Nat × Nat :=
  let m : Int := c.prime
  let p := multiply c k
  let inverse := power m p.z (c.prime - 2)
  let inverse2 := inverse * inverse % m
  ((p.x * inverse2 % m).toNat, (p.y * (inverse2 * inverse % m) % m).toNat)

/-- Whether `encoded` is a point's uncompressed form, or its compressed form with the parity of
the second coordinate. -/
def isPoint (p : Nat × Nat) (encoded : Bytes) : Bool :=
  encoded == 4 :: (Bytes.ofNat c.width p.1 ++ Bytes.ofNat c.width p.2)
    || encoded == UInt8.ofNat (2 + p.2 % 2) :: Bytes.ofNat c.width p.1

/-- Checks that explicit parameters are those of `c`. Octet strings may have any number of leading
zeros, a seed is ignored, and a cofactor must be 1. -/
def checkExplicit (b : Bytes) : Option Unit := do
  let (version, b) ← unsigned b
  let (field, b) ← canonical sequenceTag b
  let (fieldKind, field) ← canonical objectTag field
  let (prime, field) ← unsigned field
  let (coefficients, b) ← canonical sequenceTag b
  let (first, coefficients) ← canonical octetStringTag coefficients
  let (second, coefficients) ← canonical octetStringTag coefficients
  let (_, coefficients) ← optional bitStringTag coefficients
  let (base, b) ← canonical octetStringTag b
  let (order, b) ← unsigned b
  let (cofactor, b) ← optional integerTag b
  guard (version = 1 ∧ fieldKind = primeField ∧ prime = c.prime ∧ field = [])
  guard (Bytes.toNat first = c.prime - 3 ∧ Bytes.toNat second = c.b ∧ coefficients = [])
  let coordinates := base.drop 1
  guard (base.head? = some 4 ∧ coordinates.length % 2 = 0)
  guard (Bytes.toNat (coordinates.take (coordinates.length / 2)) = c.baseX)
  guard (Bytes.toNat (coordinates.drop (coordinates.length / 2)) = c.baseY)
  guard (order = c.order ∧ cofactor.all (· = [1]) ∧ b = [])
where
  /-- The object identifier of prime fields. -/
  primeField : Bytes := [0x2a, 0x86, 0x48, 0xce, 0x3d, 1, 1]

/-- The supported curve that parameters name or describe, and what follows them. -/
def ofParameters (b : Bytes) : Option (Curve × Bytes) :=
  if b.head? = some sequenceTag then do
    let (explicit, rest) ← canonical sequenceTag b
    return (← supported.find? fun c => (checkExplicit c explicit).isSome, rest)
  else do
    let (identifier, rest) ← canonical objectTag b
    return (← supported.find? (·.identifier = identifier), rest)

/-- Checks the key of RFC 5915 in `b` and returns what follows it: a number below the order,
parameters that agree with the curve and a public point that belongs to the number, where they are
given. -/
def readKey (b : Bytes) : Option Bytes := do
  let (fields, rest) ← canonical sequenceTag b
  let (version, fields) ← unsigned fields
  let (secret, fields) ← canonical octetStringTag fields
  let (parameters, fields) ← optional (contextTag 0) fields
  let (point, fields) ← optional (contextTag 1) fields
  let k := Bytes.toNat secret
  guard (version = 1 ∧ fields = [] ∧ 0 < k ∧ k < c.order)
  if let some parameters := parameters then guard (ofParameters parameters = some (c, []))
  if let some point := point then
    let bits ← whole bitStringTag point
    guard (bits.head? = some 0 ∧ isPoint c (publicPoint c k) (bits.drop 1))
  return rest

end Curve

end IngressWatch
