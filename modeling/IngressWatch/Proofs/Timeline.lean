import IngressWatch.Proofs.Replica

/-!
# A server with its history

What is read from a mirror may come from any earlier state of the server, and states may be shown in
any order. Versions tell whether what was read is still what is stored.

* `Timeline`: a server, the states that it has left, and the state that its mirror shows.
* `Timeline.Held`: what the server holds or has held.
* `Timeline.Sound`: versions are never given out twice, so key and version name one object that was
  ever held. Every change and every step of the mirror keeps this.
* `Timeline.Sound.find?_of_admits`: **an update that keeps the version of what was read is admitted
  only while the server holds exactly that.**
-/

namespace IngressWatch

open Resource

/-- A kind of objects that are stored under versions. -/
class Versioned (α : Type) [Resource α] where
  withVersion : α → String → α
  metadata_withVersion (o : α) (v : String) :
    metadata (withVersion o v) = { metadata o with resourceVersion := some v }

instance : Versioned Secret := ⟨Secret.withVersion, fun _ _ => rfl⟩

instance : Versioned ConfigMap where
  withVersion o v := { o with metadata := { o.metadata with resourceVersion := some v } }
  metadata_withVersion _ _ := rfl

/-- The version under which an object was stored. -/
def Resource.version? {α : Type} [Resource α] (o : α) : Option String :=
  (metadata o).resourceVersion

namespace Versioned

variable {α : Type} [Resource α] [Versioned α] (o : α) (v : String)

@[simp] theorem key_withVersion : key (withVersion o v) = key o := by
  simp [key, metadata_withVersion, Metadata.key, Metadata.space, Metadata.title]

@[simp] theorem version?_withVersion : version? (withVersion o v) = some v := by
  simp [version?, metadata_withVersion]

theorem isNamed_withVersion {o : α} (h : IsNamed o) (v : String) : IsNamed (withVersion o v) := by
  constructor
  · rw [metadata_withVersion]
    exact h.ns
  · rw [metadata_withVersion]
    exact h.name

end Versioned

open Versioned

/-- A server, the states that it has left, latest first, and one of its states as its mirror shows
it. The mirror is empty at first. -/
structure Timeline (α : Type) [Resource α] where
  server : Mirror α
  past : List (Mirror α) := []
  mirror : Mirror α := ∅
  /-- How many objects the server has stored. -/
  stored : Nat := 0

namespace Timeline

variable {α : Type} [Resource α] {t : Timeline α} {w : Write α} {o p : α} {k : Key}

/-- What the server holds or has held. -/
def Held (t : Timeline α) (o : α) : Prop := ∃ m ∈ t.server :: t.past, o ∈ m.objects

/-- Whether the server admits a write. A creation needs a free name, and an update the version that
is stored, unless it names none. -/
def admits (t : Timeline α) (w : Write α) : Bool :=
  match w.verb, t.server.find? (identifier w.object) with
  | .create, old => old.isNone
  | .update, none => false
  | .update, some old => (version? w.object).all fun v => version? old = some v

/-- The server goes over to another state. -/
def change (t : Timeline α) (state : Mirror α) : Timeline α :=
  { t with server := state, past := t.server :: t.past }

/-- The server stores an object. `version n` is the version of the `n`-th object that it stores. -/
def put [Versioned α] (t : Timeline α) (version : Nat → String) (o : α) : Timeline α :=
  { t.change (t.server.put (withVersion o (version t.stored))) with stored := t.stored + 1 }

def remove (t : Timeline α) (o : α) : Timeline α := t.change (t.server.remove o)

/-- The mirror shows the state that the server was in `n` changes ago. -/
def turnTo (t : Timeline α) (n : Nat) : Timeline α :=
  { t with mirror := (t.server :: t.past).getD n t.server }

/-! ## What is held -/

theorem held_of_mem (h : o ∈ t.server.objects) : t.Held o := ⟨_, List.mem_cons_self, h⟩

theorem held_change {state : Mirror α} (h : (t.change state).Held o) :
    o ∈ state.objects ∨ t.Held o := by
  obtain ⟨m, hm, ho⟩ := h
  rcases List.mem_cons.1 hm with rfl | hm
  · exact .inl ho
  · exact .inr ⟨m, hm, ho⟩

/-- What was held stays so: a change never rewrites the past. -/
theorem Held.change (h : t.Held o) (state : Mirror α) : (t.change state).Held o := by
  obtain ⟨m, hm, ho⟩ := h
  exact ⟨m, List.mem_cons_of_mem _ hm, ho⟩

theorem Held.put [Versioned α] (h : t.Held o) (version : Nat → String) (p : α) :
    (t.put version p).Held o := h.change _

theorem Held.remove (h : t.Held o) (p : α) : (t.remove p).Held o := h.change _

theorem Held.turnTo (h : t.Held o) (n : Nat) : (t.turnTo n).Held o := h

theorem held_put [Versioned α] {version : Nat → String} (h : (t.put version p).Held o) :
    o = withVersion p (version t.stored) ∨ t.Held o := by
  rcases held_change h with ho | ho
  · exact (Mirror.mem_put ho).imp_right held_of_mem
  · exact .inr ho

theorem held_remove (h : (t.remove p).Held o) : t.Held o := by
  rcases held_change h with ho | ho
  · exact held_of_mem (Mirror.mem_remove ho)
  · exact ho

theorem held_turnTo {n : Nat} (h : o ∈ (t.turnTo n).mirror.objects) : t.Held o := by
  have hstate : (t.turnTo n).mirror ∈ t.server :: t.past := by
    simp only [turnTo, List.getD_eq_getElem?_getD]
    cases hn : (t.server :: t.past)[n]? with
    | none => exact List.mem_cons_self
    | some m => exact List.mem_of_getElem? hn
  exact ⟨_, hstate, h⟩

/-- What the server holds for a key after it has stored an object. -/
theorem find?_put [Versioned α] (hp : IsNamed p) (version : Nat → String) (k : Key) :
    (t.put version p).server.find? k.identifier =
      if k = key p then some (withVersion p (version t.stored))
      else t.server.find? k.identifier := by
  show (t.server.put _).find? k.identifier = _
  rw [Mirror.find?_key_put (isNamed_withVersion hp _), key_withVersion]

theorem find?_remove (hp : IsNamed p) (k : Key) :
    (t.remove p).server.find? k.identifier =
      if k = key p then none else t.server.find? k.identifier :=
  Mirror.find?_key_remove hp k

/-! ## What is admitted -/

/-- A creation is admitted only where the server holds nothing. -/
theorem find?_of_create (hw : IsNamed w.object) (hverb : w.verb = .create)
    (hadmits : t.admits w = true) : t.server.find? (key w.object).identifier = none := by
  rw [← hw.identifier_eq]
  simpa [admits, hverb] using hadmits

/-- An update is admitted only where the server holds something. -/
theorem find?_of_update (hw : IsNamed w.object) (hverb : w.verb = .update)
    (hadmits : t.admits w = true) :
    ∃ s, t.server.find? (key w.object).identifier = some s ∧
      ∀ v, version? w.object = some v → version? s = some v := by
  rw [← hw.identifier_eq]
  cases hfound : t.server.find? (identifier w.object) with
  | none => simp [admits, hverb, hfound] at hadmits
  | some s =>
    refine ⟨s, rfl, fun v hv => ?_⟩
    simpa [admits, hverb, hfound, hv] using hadmits

/-! ## Versions -/

/-- A server to start with: what it holds is named and stored under versions that it does not give
out again. -/
structure IsStart (version : Nat → String) (server : Mirror α) : Prop where
  named : ∀ o ∈ server.objects, IsNamed o
  versioned : ∀ o ∈ server.objects, (version? o).isSome
  unissued : ∀ o ∈ server.objects, ∀ n, version? o ≠ some (version n)

/-- All that was ever held is named, and key and version tell it apart. -/
structure Sound (version : Nat → String) (t : Timeline α) : Prop where
  named : ∀ o, t.Held o → IsNamed o
  versioned : ∀ o, t.Held o → (version? o).isSome
  /-- The versions that are yet to be given out are fresh. -/
  unissued : ∀ o, t.Held o → ∀ n, t.stored ≤ n → version? o ≠ some (version n)
  single : ∀ o p, t.Held o → t.Held p → key o = key p → version? o = version? p → o = p
  mirrored : ∀ o ∈ t.mirror.objects, t.Held o

namespace Sound

variable {version : Nat → String} {server : Mirror α}

theorem start (h : IsStart version server) : Sound version { server } := by
  have hmem (o : α) (ho : Held { server } o) : o ∈ server.objects := by
    obtain ⟨m, hm, ho⟩ := ho
    rwa [List.mem_singleton.1 hm] at ho
  refine ⟨fun o ho => h.named o (hmem o ho), fun o ho => h.versioned o (hmem o ho),
    fun o ho n _ => h.unissued o (hmem o ho) n, fun o p ho hp hkey _ => ?_, fun o ho => ?_⟩
  · -- one state holds one object for a key
    have hfound := (Mirror.find?_key_iff h.named).2 ⟨hmem o ho, rfl⟩
    have hfound' := (Mirror.find?_key_iff h.named).2 ⟨hmem p hp, hkey.symm⟩
    exact Option.some.inj (hfound.symm.trans hfound')
  · cases ho

theorem named_server (h : Sound version t) : ∀ o ∈ t.server.objects, IsNamed o :=
  fun o ho => h.named o (held_of_mem ho)

/-- **The server stores an object** under the next version. -/
theorem put [Versioned α] (h : Sound version t) (hversion : Function.Injective version)
    (hp : IsNamed p) : Sound version (t.put version p) := by
  have hnew (o : α) (ho : t.Held o) : version? o ≠ some (version t.stored) :=
    h.unissued o ho t.stored (Nat.le_refl _)
  constructor
  · intro o ho
    rcases held_put ho with rfl | ho
    · exact isNamed_withVersion hp _
    · exact h.named o ho
  · intro o ho
    rcases held_put ho with rfl | ho
    · rw [version?_withVersion]
      rfl
    · exact h.versioned o ho
  · intro o ho n hn
    have hn : t.stored + 1 ≤ n := hn
    rcases held_put ho with rfl | ho
    · rw [version?_withVersion]
      intro heq
      have := hversion (Option.some.inj heq)
      omega
    · exact h.unissued o ho n (by omega)
  · -- nothing that was held has the version that is given out now
    intro o q ho hq hkey hsame
    rcases held_put ho with rfl | ho <;> rcases held_put hq with rfl | hq
    · rfl
    · rw [version?_withVersion] at hsame
      exact absurd hsame.symm (hnew q hq)
    · rw [version?_withVersion] at hsame
      exact absurd hsame (hnew o ho)
    · exact h.single o q ho hq hkey hsame
  · exact fun o ho => (h.mirrored o ho).put version p

theorem remove (h : Sound version t) (p : α) : Sound version (t.remove p) where
  named o ho := h.named o (held_remove ho)
  versioned o ho := h.versioned o (held_remove ho)
  unissued o ho := h.unissued o (held_remove ho)
  single o q ho hq := h.single o q (held_remove ho) (held_remove hq)
  mirrored o ho := (h.mirrored o ho).remove p

theorem turnTo (h : Sound version t) (n : Nat) : Sound version (t.turnTo n) where
  named := h.named
  versioned := h.versioned
  unissued := h.unissued
  single := h.single
  mirrored _ ho := held_turnTo ho

/-- What a lookup finds was held under that key. -/
theorem of_lookup (h : Sound version t) (ho : t.mirror.lookup k = some o) :
    t.Held o ∧ key o = k := by
  have hnamed : ∀ o ∈ t.mirror.objects, IsNamed o := fun o ho => h.named o (h.mirrored o ho)
  rw [Mirror.lookup_of_spaced fun o ho => (hnamed o ho).ns] at ho
  split at ho
  · cases ho
  · obtain ⟨hmem, hkey⟩ := (Mirror.find?_key_iff hnamed).1 ho
    exact ⟨h.mirrored o hmem, hkey⟩

/-- **An update that keeps the version of what was read** is admitted only while the server holds
exactly that. -/
theorem find?_of_admits (h : Sound version t) (ho : t.Held o) (hw : IsNamed w.object)
    (hkey : key w.object = key o) (hsame : version? w.object = version? o)
    (hverb : w.verb = .update) (hadmits : t.admits w = true) :
    t.server.find? (key w.object).identifier = some o := by
  obtain ⟨s, hfound, hversion⟩ := find?_of_update hw hverb hadmits
  obtain ⟨v, hv⟩ := Option.isSome_iff_exists.1 (h.versioned o ho)
  obtain ⟨hmem, hskey⟩ := (Mirror.find?_key_iff h.named_server).1 hfound
  have hs : version? s = version? o := by
    rw [hversion v (hsame.trans hv), hv]
  have heq : s = o := h.single s o (held_of_mem hmem) ho (hskey.trans hkey) hs
  rw [hfound, heq]

end Sound

end Timeline

end IngressWatch
