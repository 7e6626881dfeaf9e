import IngressWatch.Digest.Sha2

/-!
# Ed25519 public keys

The twisted Edwards curve `−x² + y² = 1 + d x² y²` modulo `2²⁵⁵ − 19`, as far as it takes to
derive a public key.

* `publicKey`: the 32 bytes that belong to a 32-byte seed.
-/

namespace IngressWatch.Edwards

def prime : Int := (1 <<< 255 - 19 : Nat)

/-- The point `(x / z, y / z)`, with `t = x y / z`. -/
structure Extended where
  x : Int
  y : Int
  z : Int
  t : Int

def power (x : Int) (k : Nat) : Int :=
  if k = 0 then 1
  else
    let root := power (x * x % prime) (k / 2)
    if k % 2 = 1 then x * root % prime else root

def inverse (x : Int) : Int := power x (1 <<< 255 - 21)

/-- The coefficient `d`. -/
def coefficient : Int := -121665 * inverse 121666 % prime

/-- The base point: `y = 4/5` and the even `x`. -/
def base : Extended :=
  let x := 15112221349535400772501151409588531511454012693041857206046113283949847762202
  let y := 4 * inverse 5 % prime
  ⟨x, y, 1, x * y % prime⟩

def add (p q : Extended) : Extended :=
  let a := (p.y - p.x) * (q.y - q.x) % prime
  let b := (p.y + p.x) * (q.y + q.x) % prime
  let c := 2 * p.t * q.t % prime * coefficient % prime
  let d := 2 * p.z * q.z % prime
  let e := b - a
  let f := d - c
  let g := d + c
  let h := b + a
  ⟨e * f % prime, g * h % prime, f * g % prime, e * h % prime⟩

/-- `k` times the base point, by the bits of `k` below `2 ^ bits` from the highest on. -/
def ladder (k : Nat) : (bits : Nat) → Extended → Extended
  | 0, acc => acc
  | bits + 1, acc =>
    let acc := add acc acc
    ladder k bits (if k.testBit bits then add acc base else acc)

/-- The secret number: the digest's first half, least significant byte first, with the three low
bits and the highest bit cleared and the bit below it set. -/
def secretNumber (seed : Bytes) : Nat :=
  let n := Bytes.toNat ((sha512 seed).take 32).reverse
  1 <<< 254 + n % 1 <<< 254 / 8 * 8

def publicKey (seed : Bytes) : Bytes :=
  let p := ladder (secretNumber seed) 255 ⟨0, 1, 1, 0⟩
  let z := inverse p.z
  let x := (p.x * z % prime).toNat
  let y := (p.y * z % prime).toNat
  (Bytes.ofNat 32 ((x % 2) <<< 255 + y)).reverse

end IngressWatch.Edwards
