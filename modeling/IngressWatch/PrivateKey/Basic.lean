import IngressWatch.Error
import IngressWatch.Pem.Section
import IngressWatch.PrivateKey.Curve
import IngressWatch.PrivateKey.Edwards
import IngressWatch.PrivateKey.Rsa

/-!
# Private keys for TLS

* `PrivateKey.validate`: whether a PEM text holds a private key that can be used, or the step that
  failed.
* `PrivateKey.isUsable`: RSA keys, keys on the curves P-256, P-384 and P-521, and Ed25519 keys.
* `Wrapped.read`: the envelope of PKCS #8.
-/

namespace IngressWatch.PrivateKey

open Der

/-- A key in its envelope: the algorithm, its parameters, the key itself and, in the second
version, the public key. -/
structure Wrapped where
  algorithm : Bytes
  parameters : Bytes
  key : Bytes
  publicKey : Option Bytes

/-- The first two versions differ in that only the second may hold a public key. Attributes are
not looked at. -/
def Wrapped.read (b : Bytes) : Option Wrapped := do
  let (fields, _) ← canonical sequenceTag b
  let (version, fields) ← unsigned fields
  let (algorithm, fields) ← canonical sequenceTag fields
  let (identifier, parameters) ← canonical objectTag algorithm
  let (key, fields) ← canonical octetStringTag fields
  let (_, fields) ← optional (contextTag 0) fields
  guard (version ≤ 1)
  let publicKey ← if version = 1 then (optional 0x81 fields).map (·.1) else some none
  return ⟨identifier, parameters, key, publicKey⟩

def rsaAlgorithm : Bytes := [0x2a, 0x86, 0x48, 0x86, 0xf7, 0x0d, 1, 1, 1]
def curveAlgorithm : Bytes := [0x2a, 0x86, 0x48, 0xce, 0x3d, 2, 1]
def edwardsAlgorithm : Bytes := [0x2b, 0x65, 0x70]

/-- An RSA key whose parameters are the null element. -/
def Wrapped.isRsa (w : Wrapped) : Bool :=
  w.algorithm == rsaAlgorithm && w.parameters == [nullTag, 0] && w.publicKey.isNone
    && match RsaKey.read w.key with
      | some (k, []) => k.isUsable
      | _ => false

/-- A key on the curve that the parameters name. -/
def Wrapped.isCurve (w : Wrapped) : Bool :=
  w.algorithm == curveAlgorithm && w.publicKey.isNone
    && match Curve.ofParameters w.parameters with
      | some (c, []) => c.readKey w.key == some []
      | _ => false

/-- A seed of 32 bytes without parameters. A public key must be the one that belongs to it. -/
def Wrapped.isEdwards (w : Wrapped) : Bool :=
  w.algorithm == edwardsAlgorithm && w.parameters.isEmpty
    && match whole octetStringTag w.key with
      | some seed =>
        seed.length == 32 && w.publicKey.all fun bits => bits == 0 :: Edwards.publicKey seed
      | none => false

/-- Whether the DER bytes of a section hold a usable key. A section for curve keys may hold the
envelope, or a bare key of any supported curve. -/
def isUsable (format : Pem.KeyFormat) (der : Bytes) : Bool :=
  let wrapped := Wrapped.read der
  match format with
  | .pkcs1 => (RsaKey.read der).any fun k => k.1.isUsable
  | .sec1 => wrapped.any (·.isCurve) || Curve.supported.any fun c => (c.readKey der).isSome
  | .pkcs8 => wrapped.any fun w => w.isRsa || w.isCurve || w.isEdwards

def validate (text : Bytes) : Except Malformed Unit :=
  match Pem.firstKey text with
  | none => .error .privateKey
  | some (format, der) => if isUsable format der then .ok () else .error .unusableKey

end IngressWatch.PrivateKey
