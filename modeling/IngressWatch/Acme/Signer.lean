import IngressWatch.Acme.AccountKey
import IngressWatch.Remote.Write
import IngressWatch.Settings

/-!
# The ACME account key

There is one account key. It is generated when it is first needed and the account secret does not
hold one, and written to that secret. Until the mirror shows it, the last key that was read or
written is used.

* `Signer.plan`: what to do by the mirror and the last known key.
* `Signer.withKey`: the secret with a new key; all else in it is kept.
* `Signer.call`: a whole call.
-/

namespace IngressWatch

/-- A secret with one entry set. -/
def Secret.setEntry (secret : Secret) (name : String) (content : Bytes) : Secret :=
  { secret with data := some ((secret.data.getD Dict.empty).insert name content) }

/-- A secret that holds nothing yet. -/
def Secret.ofKey (key : Key) : Secret := { metadata := .ofKey key }

namespace Signer

/-- What a call does after it has looked at the mirror. -/
inductive Plan (κ : Type) where
  | answer (result : Except Error κ) (cached : Option κ)
  /-- A key has to be generated and put into this secret. -/
  | generate (existing : Option Secret)

variable {κ : Type}

def plan (codec : KeyCodec κ) (account : Key) (secrets : Mirror Secret) (cached : Option κ) :
    Plan κ :=
  let existing := secrets.lookup account
  match existing.bind (·.value? Entry.tlsKey), cached with
  | some text, _ =>
    match codec.decode text with
    | .ok k => .answer (.ok k) (some k)
    | .error cause => .answer (.error (.malformed cause)) cached
  | none, some k => .answer (.ok k) cached
  | none, none => .generate existing

/-- The account secret with a new key. -/
def withKey (codec : KeyCodec κ) (account : Key) (existing : Option Secret) (fresh : κ) : Secret :=
  (existing.getD (Secret.ofKey account)).setEntry Entry.tlsKey (codec.encode fresh)

/-- What a call did: its answer, its write and the key that is known after it. -/
structure Call (κ : Type) where
  result : Except Error κ
  write : Option (Write Secret)
  cached : Option κ

/-- The end of a call that wrote a generated key. -/
def finish (write : Write Secret) (fresh : κ) (accepted : Bool) : Call κ where
  result := (write.settle accepted).map fun _ => fresh
  write := some write
  cached := if accepted then some fresh else none

/-- A call that looks at one mirror throughout. `fresh` is the key that it generates if it has to,
and `accepts` tells whether its write is accepted. -/
def call (codec : KeyCodec κ) (account : Key) (secrets : Mirror Secret) (cached : Option κ)
    (fresh : κ) (accepts : Write Secret → Bool) : Call κ :=
  match plan codec account secrets cached with
  | .answer result cached => ⟨result, none, cached⟩
  | .generate existing =>
    let write := Write.of secrets (withKey codec account existing fresh)
    finish write fresh (accepts write)

end Signer

end IngressWatch
