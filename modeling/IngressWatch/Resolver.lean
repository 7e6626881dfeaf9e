import IngressWatch.CredentialStore
import IngressWatch.Mirror
import IngressWatch.Settings
import IngressWatch.TlsChecks

/-!
# Resolving references to secrets

A reference names a secret from within a namespace. Whether it may point to another namespace is a
policy. The entries of the secret become files.

* `Resolver.key`: the key of a reference under the policy.
* `Resolver.tls`, `Resolver.ca`, `Resolver.dh`: files of certificates, CA bundles and
  Diffie-Hellman parameters. Everything is checked before anything is written.
* `Resolver.content`: one entry as it is.
-/

namespace IngressWatch

/-- A file and the fingerprint of what it was made from. -/
structure CredentialFile where
  path : String
  fingerprint : String
deriving DecidableEq, Repr

structure TlsFile where
  file : CredentialFile
  identity : Identity
deriving DecidableEq

structure CaFiles where
  ca : CredentialFile
  crl : Option CredentialFile
deriving DecidableEq, Repr

/-- Resolves references. `checks` is what it asks of certificates and private keys. -/
structure Resolver (checks : TlsChecks := pemChecks) where
  /-- Whether references to other namespaces are followed. -/
  allowForeign : Bool
  secrets : Mirror Secret

namespace Resolver

variable {checks : TlsChecks}

/-- The key of a reference as seen from the namespace `ns`. With an empty namespace the reference
is taken as it is written. -/
def key (r : Resolver checks) (ns reference : String) : Except Error Key :=
  match Key.parse reference with
  | .error cause => .error (.malformed cause)
  | .ok key =>
    if ns = "" then .ok key
    else if key.ns = "" then .ok ⟨ns, key.name⟩
    else if r.allowForeign ∨ key.ns = ns then .ok key
    else .error (.foreignReference reference ns)

def secret (r : Resolver checks) (key : Key) : Except Error Secret :=
  match r.secrets.lookup key with
  | some secret => .ok secret
  | none => .error (.notFound key.ns key.name none)

/-- An entry that the secret must have. -/
def entry (secret : Secret) (key : Key) (name : String) : Except Error Bytes :=
  match secret.value? name with
  | some content => .ok content
  | none => .error (.notFound key.ns key.name (some name))

/-- What a TLS secret holds. -/
structure TlsMaterial where
  key : Key
  certificate : Bytes
  keyText : Bytes
  identity : Identity

/-- Finds and checks the certificate and key of a TLS secret. -/
def tlsMaterial (r : Resolver checks) (ns reference : String) : Except Error TlsMaterial := do
  let key ← r.key ns reference
  let secret ← r.secret key
  let certificate ← entry secret key Entry.tlsCertificate
  let keyText ← entry secret key Entry.tlsKey
  let parsed ← (checks.certificate certificate).mapError .malformed
  (checks.privateKey keyText).mapError .malformed
  return ⟨key, certificate, keyText, parsed.identity⟩

/-- What a CA secret holds. -/
structure CaMaterial where
  key : Key
  ca : Bytes
  crl : Option Bytes

/-- Finds and checks a CA bundle. A revocation list is taken as it is. -/
def caMaterial (r : Resolver checks) (ns reference : String) : Except Error CaMaterial := do
  let key ← r.key ns reference
  let secret ← r.secret key
  let ca ← entry secret key Entry.caCertificate
  let _ ← (checks.certificate ca).mapError .malformed
  return ⟨key, ca, secret.value? Entry.caRevocation⟩

/-- The key and content of a secret's entry. -/
def entryMaterial (r : Resolver checks) (ns reference name : String) :
    Except Error (Key × Bytes) := do
  let key ← r.key ns reference
  let secret ← r.secret key
  return (key, ← entry secret key name)

/-- The certificate and private key of a TLS secret, in one file. -/
def tls (r : Resolver checks) (store : CredentialStore) (ns reference : String) :
    CredentialStore.Result TlsFile :=
  match r.tlsMaterial ns reference with
  | .error e => (.error e, store)
  | .ok m =>
    let (path, store') := store.storeTls m.key m.certificate m.keyText
    (path.map fun path =>
      ⟨⟨path, fingerprint store.hash [m.certificate, m.keyText]⟩, m.identity⟩, store')

/-- A CA bundle and, if the secret holds one, its revocation list. Both carry one fingerprint. -/
def ca (r : Resolver checks) (store : CredentialStore) (ns reference : String) :
    CredentialStore.Result CaFiles :=
  match r.caMaterial ns reference with
  | .error e => (.error e, store)
  | .ok m =>
    let print := fingerprint store.hash (m.ca :: m.crl.toList)
    let (paths, store') := store.storeCa m.key m.ca m.crl
    (paths.map fun paths => ⟨⟨paths.1, print⟩, paths.2.map fun path => ⟨path, print⟩⟩, store')

/-- Diffie-Hellman parameters. -/
def dh (r : Resolver checks) (store : CredentialStore) (ns reference : String) :
    CredentialStore.Result CredentialFile :=
  match r.entryMaterial ns reference Entry.dhParameters with
  | .error e => (.error e, store)
  | .ok (key, parameters) =>
    let (path, store') := store.storeDh key parameters
    (path.map fun path => ⟨path, fingerprint store.hash [parameters]⟩, store')

/-- The bytes of one entry. -/
def content (r : Resolver checks) (ns reference name : String) : Except Error Bytes :=
  (r.entryMaterial ns reference name).map (·.2)

end Resolver

end IngressWatch
