import IngressWatch.Certificate.Basic
import IngressWatch.PrivateKey.Basic

/-!
# What a TLS pair has to pass

* `TlsChecks`: what is asked of a certificate and of its private key; `pemChecks` is what is asked
  of them here.
-/

namespace IngressWatch

/-- What a certificate and a private key have to pass before they are used. -/
structure TlsChecks where
  /-- Reads a certificate, or tells what is wrong with it. -/
  certificate : Bytes → Except Malformed Certificate
  privateKey : Bytes → Except Malformed Unit

def pemChecks : TlsChecks := ⟨Certificate.parse, PrivateKey.validate⟩

end IngressWatch
