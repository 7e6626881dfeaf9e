import IngressWatch.Acme.Signer
import IngressWatch.Proofs.Replica

/-!
# A signer and its server

A signer decides by a mirror that lags behind the server. Each of its writes may fail, with or
without the secret being stored. Nobody else writes the account secret.

* `Signer.Setup.run`: calls of the signer, steps of the mirror and writes of other secrets in any
  order, with the outcomes of the calls.
* `Signer.Setup.keyWrite`: the write of a generated key. It is for the account secret, and it is an
  update exactly if the mirror shows that secret.
* `Signer.Setup.call_of_read`, `call_of_cached`, `call_of_unknown`: the three ways in which a call
  goes.
-/

namespace IngressWatch

theorem Secret.value?_setEntry (s : Secret) (name other : String) (content : Bytes) :
    (s.setEntry name content).value? other =
      if other = name then some content else s.value? other := by
  cases hdata : s.data with
  | none => simp [Secret.setEntry, Secret.value?, hdata, Dict.get?_insert]
  | some data => simp [Secret.setEntry, Secret.value?, hdata, Dict.get?_insert]

namespace Signer

open Resource

/-- What becomes of a write that the server admits. -/
inductive Fate where
  | confirmed
  /-- The secret is stored and the answer is lost. -/
  | unconfirmed
  | dropped
deriving DecidableEq, Repr

/-- The setting of a signer and its server. -/
structure Setup (κ : Type) where
  codec : KeyCodec κ
  account : Key
  /-- The version that the server gives to the `n`-th object that it stores. -/
  version : Nat → String

structure World (κ : Type) where
  replica : Replica
  /-- The key that the signer knows. -/
  cached : Option κ := none

/-- What a call answered, and the generated key that the server stored in it. -/
structure Outcome (κ : Type) where
  result : Except Error κ
  stored : Option κ

inductive Step (κ : Type) where
  /-- A call, with the key that it generates if it has to. -/
  | call (fresh : κ) (fate : Fate)
  | catchUp
  /-- Someone else writes a secret. -/
  | put (s : Secret)
  /-- Someone else deletes a secret. -/
  | remove (s : Secret)

/-- The keys that calls answered. -/
def answers {κ : Type} (log : List (Outcome κ)) : List κ := log.filterMap (·.result.toOption)

/-- The generated keys that the server stored. -/
def generated {κ : Type} (log : List (Outcome κ)) : List κ := log.filterMap (·.stored)

namespace Setup

variable {κ : Type} (u : Setup κ)

/-- A whole call, during which the mirror stands still. -/
def call (w : World κ) (fresh : κ) (fate : Fate) : Outcome κ × World κ :=
  let call := Signer.call u.codec u.account w.replica.mirror w.cached fresh fun write =>
    w.replica.admits write && fate = .confirmed
  match call.write.filter fun write => w.replica.admits write && fate ≠ .dropped with
  | none => (⟨call.result, none⟩, ⟨w.replica, call.cached⟩)
  | some write => (⟨call.result, some fresh⟩, ⟨w.replica.put u.version write.object, call.cached⟩)

def step (w : World κ) : Step κ → List (Outcome κ) × World κ
  | .call fresh fate => ([(u.call w fresh fate).1], (u.call w fresh fate).2)
  | .catchUp => ([], { w with replica := w.replica.catchUp })
  | .put s => ([], { w with replica := w.replica.put u.version s })
  | .remove s => ([], { w with replica := w.replica.remove s })

/-- A run, with the outcomes of its calls in order. -/
def run (w : World κ) : List (Step κ) → List (Outcome κ) × World κ
  | [] => ([], w)
  | s :: rest =>
    let (later, last) := run (u.step w s).2 rest
    ((u.step w s).1 ++ later, last)

/-- Generated keys are read back as they were written, and nobody else touches the account
secret. -/
def Allows : Step κ → Prop
  | .call fresh _ => u.codec.decode (u.codec.encode fresh) = .ok fresh
  | .catchUp => True
  | .put s | .remove s => IsNamed s ∧ key s ≠ u.account

/-- The account key that a state of the server holds. -/
def key? (m : Mirror Secret) : Option κ :=
  ((m.find? u.account.identifier).bind (·.value? Entry.tlsKey)).bind fun text =>
    (u.codec.decode text).toOption

/-- A server to start with. The versions that it gives out later are fresh, and its account secret
may be missing, have no key or have a readable one. -/
structure IsStart (server : Mirror Secret) : Prop where
  served : server.IsServed
  unissued : ∀ s ∈ server.objects, ∀ n, s.metadata.resourceVersion ≠ some (u.version n)
  readable : ∀ s ∈ server.find? u.account.identifier, ∀ text ∈ s.value? Entry.tlsKey,
    ∃ k, u.codec.decode text = .ok k

end Setup

/-! ## The write of a generated key -/

section

variable {κ : Type} {codec : KeyCodec κ} {account : Key} {existing : Option Secret} {fresh : κ}

theorem key_withKey (h : ∀ s ∈ existing, key s = account) :
    key (withKey codec account existing fresh) = account := by
  cases existing with
  | none => rfl
  | some s => exact h s rfl

theorem isNamed_withKey (h : ∀ s ∈ existing, IsNamed s) :
    IsNamed (withKey codec account existing fresh) := by
  cases existing with
  | none => exact ⟨rfl, rfl⟩
  | some s => exact ⟨(h s rfl).ns, (h s rfl).name⟩

theorem value?_withKey :
    (withKey codec account existing fresh).value? Entry.tlsKey = some (codec.encode fresh) := by
  simp [withKey, Secret.setEntry, Secret.value?, Dict.get?_insert]

end

namespace Setup

variable {κ : Type} {u : Setup κ} {w : World κ} {k : κ}

/-- The write that brings a generated key to the server. -/
def keyWrite (u : Setup κ) (m : Mirror Secret) (fresh : κ) : Write Secret :=
  Write.of m (withKey u.codec u.account (m.lookup u.account) fresh)

section

variable {m : Mirror Secret} {P : Secret → Prop} (hns : u.account.ns ≠ "")
  (hm : m.Shows u.account P)

include hns hm

theorem of_mem_lookup : ∀ o ∈ m.lookup u.account, IsNamed o ∧ key o = u.account ∧ P o := by
  intro o ho
  rw [hm.served.lookup hns] at ho
  obtain ⟨hnamed, hkey⟩ := hm.served.key_of_find? ho
  exact ⟨hnamed, hkey, hm.all o ho⟩

theorem key_keyWrite (fresh : κ) : key (u.keyWrite m fresh).object = u.account :=
  key_withKey fun o ho => (of_mem_lookup hns hm o ho).2.1

theorem isNamed_keyWrite (fresh : κ) : IsNamed (u.keyWrite m fresh).object :=
  isNamed_withKey fun o ho => (of_mem_lookup hns hm o ho).1

theorem verb_keyWrite (fresh : κ) :
    (u.keyWrite m fresh).verb = if (m.lookup u.account).isSome then .update else .create := by
  have hkey : key (u.keyWrite m fresh).object = u.account := key_keyWrite hns hm fresh
  show (if (m.lookup (key (u.keyWrite m fresh).object)).isSome then Verb.update else .create) = _
  rw [hkey]

end

/-! ## What a call does -/

section

variable {fresh : κ} {fate : Fate}

theorem call_of_read {text : Bytes}
    (htext : (w.replica.mirror.lookup u.account).bind (·.value? Entry.tlsKey) = some text)
    (hk : u.codec.decode text = .ok k) :
    u.call w fresh fate = (⟨.ok k, none⟩, ⟨w.replica, some k⟩) := by
  simp [call, Signer.call, plan, htext, hk]

theorem call_of_cached
    (htext : (w.replica.mirror.lookup u.account).bind (·.value? Entry.tlsKey) = none)
    (hk : w.cached = some k) :
    u.call w fresh fate = (⟨.ok k, none⟩, ⟨w.replica, some k⟩) := by
  simp [call, Signer.call, plan, htext, hk]

/-- Without a known key, a call ends by what becomes of its write. -/
theorem call_of_unknown
    (htext : (w.replica.mirror.lookup u.account).bind (·.value? Entry.tlsKey) = none)
    (hcached : w.cached = none) :
    let write := u.keyWrite w.replica.mirror fresh
    let last := finish write fresh (w.replica.admits write && fate = .confirmed)
    u.call w fresh fate =
      if w.replica.admits write ∧ fate ≠ .dropped then
        (⟨last.result, some fresh⟩, ⟨w.replica.put u.version write.object, last.cached⟩)
      else (⟨last.result, none⟩, ⟨w.replica, last.cached⟩) := by
  intro write last
  have hcall : Signer.call u.codec u.account w.replica.mirror w.cached fresh
      (fun write => w.replica.admits write && fate = .confirmed) = last := by
    simp [Signer.call, plan, htext, hcached, last, write, keyWrite]
  rw [call, hcall]
  by_cases hstored : w.replica.admits write ∧ fate ≠ .dropped
  · have hfilter : last.write.filter (fun write => w.replica.admits write && fate ≠ .dropped) =
        some write := by simp [last, finish, hstored]
    rw [if_pos hstored]
    simp only [hfilter]
  · have hfilter : last.write.filter (fun write => w.replica.admits write && fate ≠ .dropped) =
        none := by simpa [last, finish] using hstored
    rw [if_neg hstored]
    simp only [hfilter]

theorem eq_of_finish_ok {write : Write Secret} {accepted : Bool}
    (h : (finish write fresh accepted).result = .ok k) : k = fresh := by
  cases accepted with
  | true => exact (Except.ok.inj h).symm
  | false => cases h

theorem eq_of_mem_finish_cached {write : Write Secret} {accepted : Bool}
    (h : k ∈ (finish write fresh accepted).cached) : k = fresh := by
  cases accepted with
  | true => exact (Option.some.inj h).symm
  | false => cases h

end

end Setup

end Signer

end IngressWatch
