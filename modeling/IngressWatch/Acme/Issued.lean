import IngressWatch.Acme.Signer
import IngressWatch.TlsChecks

/-!
# Issued certificates

* `Issued.find`: the certificate that a secret holds, if it and its key can be used.
* `Issued.store`: the write that puts a certificate and its key into a secret.
-/

namespace IngressWatch

/-- A certificate with its private key in PEM text. -/
structure Issued where
  certificate : Certificate
  keyText : Bytes

namespace Issued

/-- The certificate in a secret; none when an entry is missing or can not be read. -/
def ofSecret (secret : Secret) (checks : TlsChecks := pemChecks) : Option Issued := do
  let certificate ← secret.value? Entry.tlsCertificate
  let keyText ← secret.value? Entry.tlsKey
  let certificate ← (checks.certificate certificate).toOption
  let _ ← (checks.privateKey keyText).toOption
  return ⟨certificate, keyText⟩

def find (secrets : Mirror Secret) (key : Key) (checks : TlsChecks := pemChecks) : Option Issued :=
  (secrets.lookup key).bind fun secret => ofSecret secret checks

/-- The secret of a TLS pair; all else in it is kept. -/
def update (secret : Secret) (certificate keyText : Bytes) : Secret :=
  { ((secret.setEntry Entry.tlsCertificate certificate).setEntry Entry.tlsKey keyText) with
    purpose := some tlsSecretType }

def store (secrets : Mirror Secret) (key : Key) (certificate keyText : Bytes) : Write Secret :=
  Write.of secrets (update ((secrets.lookup key).getD (Secret.ofKey key)) certificate keyText)

end Issued

end IngressWatch
