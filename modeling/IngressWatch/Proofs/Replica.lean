import IngressWatch.Proofs.Lookup
import IngressWatch.Remote.Write

/-!
# An API server and a mirror that lags behind it

The server holds the secrets, each under a version of its own. The mirror is empty at first and
then shows one state of the server after the other, at any pace.

* `Replica.admits`: which writes the server admits. A creation needs a free name, and an update the
  version that is stored, unless it names none.
* `Replica.change`, `Replica.catchUp`: a new state of the server, and a step forward of the mirror.
* `Replica.Tracks`: what the server holds for a key now, and what the mirror may show for it until
  it has caught up. **Writes of other secrets and steps of the mirror change nothing about that.**
-/

namespace IngressWatch

open Resource

/-- A secret as it is stored under a version. -/
def Secret.withVersion (s : Secret) (version : String) : Secret :=
  { s with metadata := { s.metadata with resourceVersion := some version } }

namespace Secret

variable {s : Secret} {version : String}

@[simp] theorem key_withVersion : key (s.withVersion version) = key s := rfl

@[simp] theorem value?_withVersion (name : String) :
    (s.withVersion version).value? name = s.value? name := rfl

@[simp] theorem resourceVersion_withVersion :
    (s.withVersion version).metadata.resourceVersion = some version := rfl

theorem isNamed_withVersion (h : IsNamed s) : IsNamed (s.withVersion version) := ⟨h.ns, h.name⟩

end Secret

/-! ## The states of the server -/

/-- What a server holds has a namespace, a name and a version. -/
def Mirror.IsServed (m : Mirror Secret) : Prop :=
  ∀ s ∈ m.objects, IsNamed s ∧ s.metadata.resourceVersion.isSome

/-- A state of the server with `held` as the secret of a key. -/
structure Mirror.Serves (k : Key) (held : Option Secret) (m : Mirror Secret) : Prop where
  served : m.IsServed
  found : m.find? k.identifier = held

/-- A state of the server in which the secret of a key, if there is one, has a property. -/
structure Mirror.Shows (k : Key) (P : Secret → Prop) (m : Mirror Secret) : Prop where
  served : m.IsServed
  all : ∀ s ∈ m.find? k.identifier, P s

namespace Mirror

variable {m : Mirror Secret} {s : Secret} {k : Key} {held : Option Secret}
  {P Q : Secret → Prop}

theorem shows_empty : (∅ : Mirror Secret).Shows k P :=
  ⟨fun _ h => (by cases h), fun _ h => (by cases h)⟩

theorem Shows.mono (h : m.Shows k P) (hPQ : ∀ s, P s → Q s) : m.Shows k Q :=
  ⟨h.served, fun s hs => hPQ s (h.all s hs)⟩

theorem Serves.shows (h : m.Serves k held) (hP : ∀ s ∈ held, P s) : m.Shows k P :=
  ⟨h.served, fun s hs => hP s (by rwa [h.found] at hs)⟩

theorem IsServed.put (h : m.IsServed) (hs : IsNamed s) (version : String) :
    (m.put (s.withVersion version)).IsServed := by
  intro p hp
  rcases mem_put hp with rfl | hp
  · exact ⟨Secret.isNamed_withVersion hs, rfl⟩
  · exact h p hp

theorem IsServed.remove (h : m.IsServed) : (m.remove s).IsServed := fun p hp => h p (mem_remove hp)

theorem IsServed.lookup (h : m.IsServed) (hns : k.ns ≠ "") :
    m.lookup k = m.find? k.identifier := by
  rw [lookup_of_spaced (fun o ho => (h o ho).1.ns), if_neg hns]

theorem IsServed.key_of_find? (h : m.IsServed) (hs : m.find? k.identifier = some s) :
    IsNamed s ∧ key s = k :=
  have ⟨hmem, hkey⟩ := (find?_key_iff fun o ho => (h o ho).1).1 hs
  ⟨(h s hmem).1, hkey⟩

/-- The secret of the key is replaced. -/
theorem IsServed.serves_put (h : m.IsServed) (hs : IsNamed s) (hkey : key s = k)
    (version : String) :
    (m.put (s.withVersion version)).Serves k (some (s.withVersion version)) := by
  refine ⟨h.put hs version, ?_⟩
  rw [find?_key_put (Secret.isNamed_withVersion hs), Secret.key_withVersion, if_pos hkey.symm]

/-- Another secret is written. -/
theorem Serves.put_of_ne (h : m.Serves k held) (hs : IsNamed s) (hkey : key s ≠ k)
    (version : String) : (m.put (s.withVersion version)).Serves k held := by
  refine ⟨h.served.put hs version, ?_⟩
  rw [find?_key_put (Secret.isNamed_withVersion hs), Secret.key_withVersion,
    if_neg (Ne.symm hkey)]
  exact h.found

/-- Another secret is deleted. -/
theorem Serves.remove_of_ne (h : m.Serves k held) (hs : IsNamed s) (hkey : key s ≠ k) :
    (m.remove s).Serves k held := by
  refine ⟨h.served.remove, ?_⟩
  rw [find?_key_remove hs, if_neg (Ne.symm hkey)]
  exact h.found

end Mirror

/-! ## The server and the mirror -/

structure Replica where
  server : Mirror Secret
  /-- The earlier states of the server that the mirror has yet to show, oldest first. -/
  pending : List (Mirror Secret) := []
  mirror : Mirror Secret := ∅
  /-- How many objects the server has stored. -/
  stored : Nat := 0

namespace Replica

variable {r : Replica}

/-- Whether the server admits a write. -/
def admits (r : Replica) (w : Write Secret) : Bool :=
  match w.verb, r.server.find? (identifier w.object) with
  | .create, old => old.isNone
  | .update, none => false
  | .update, some old =>
    w.object.metadata.resourceVersion.all fun v => old.metadata.resourceVersion = some v

/-- The server goes over to another state. -/
def change (r : Replica) (state : Mirror Secret) : Replica :=
  { r with server := state, pending := r.pending ++ [r.server] }

/-- The server stores a secret. `version n` is the version of the `n`-th object that it stores. -/
def put (r : Replica) (version : Nat → String) (s : Secret) : Replica :=
  { r.change (r.server.put (s.withVersion (version r.stored))) with stored := r.stored + 1 }

def remove (r : Replica) (s : Secret) : Replica := r.change (r.server.remove s)

/-- The mirror shows the next state. -/
def catchUp (r : Replica) : Replica :=
  match r.pending with
  | [] => { r with mirror := r.server }
  | m :: rest => { r with mirror := m, pending := rest }

/-- An update that does not name the version that is stored is not admitted. -/
theorem not_admits_update {w : Write Secret} {s : Secret} (hverb : w.verb = .update)
    (hs : r.server.find? (identifier w.object) = some s)
    (hsome : w.object.metadata.resourceVersion.isSome)
    (hne : w.object.metadata.resourceVersion ≠ s.metadata.resourceVersion) :
    r.admits w = false := by
  obtain ⟨v, hv⟩ := Option.isSome_iff_exists.1 hsome
  rw [hv] at hne
  simp [admits, hverb, hs, hv, Ne.symm hne]

/-- The creation of a name that is taken is not admitted. -/
theorem not_admits_create {w : Write Secret} {s : Secret} (hverb : w.verb = .create)
    (hs : r.server.find? (identifier w.object) = some s) : r.admits w = false := by
  simp [admits, hverb, hs]

/-- The server holds `held` as the secret of a key, and what the mirror shows of that secret, now or
on its way to the state of the server, has a property. -/
structure Tracks (k : Key) (held : Option Secret) (P : Secret → Prop) (r : Replica) : Prop where
  now : r.server.Serves k held
  seen : ∀ m ∈ r.mirror :: r.pending, m.Shows k P

namespace Tracks

variable {k : Key} {held : Option Secret} {P Q : Secret → Prop} {s : Secret}

theorem start {server : Mirror Secret} (h : server.Serves k held) : Tracks k held P { server } :=
  ⟨h, fun m hm => by
    rw [List.mem_singleton.1 hm]
    exact Mirror.shows_empty⟩

theorem shows_mirror (h : r.Tracks k held P) : r.mirror.Shows k P := h.seen _ List.mem_cons_self

theorem catchUp (h : r.Tracks k held P) (hP : ∀ s ∈ held, P s) : r.catchUp.Tracks k held P := by
  unfold Replica.catchUp
  split
  · refine ⟨h.now, fun m hm => ?_⟩
    rcases List.mem_cons.1 hm with rfl | hm
    · exact h.now.shows hP
    · exact h.seen m (List.mem_cons_of_mem _ hm)
  · rename_i m rest hpending
    refine ⟨h.now, fun m' hm' => h.seen m' (List.mem_cons_of_mem _ ?_)⟩
    rwa [hpending]

/-- The server goes over to a state in which it may hold something else. -/
theorem change (h : r.Tracks k held P) {state : Mirror Secret} {held' : Option Secret}
    (hstate : state.Serves k held') (hQ : ∀ s ∈ held, Q s) (hPQ : ∀ s, P s → Q s) :
    (r.change state).Tracks k held' Q := by
  refine ⟨hstate, fun m hm => ?_⟩
  rcases List.mem_cons.1 hm with rfl | hm
  · exact h.shows_mirror.mono hPQ
  · rcases List.mem_append.1 hm with hm | hm
    · exact (h.seen m (List.mem_cons_of_mem _ hm)).mono hPQ
    · -- the state that the server leaves is yet to be shown
      rw [List.mem_singleton.1 hm]
      exact h.now.shows hQ

theorem put_of_ne (h : r.Tracks k held P) (hP : ∀ s ∈ held, P s) (hs : IsNamed s) (hkey : key s ≠ k)
    (version : Nat → String) : (r.put version s).Tracks k held P :=
  have hchange := h.change (h.now.put_of_ne hs hkey (version r.stored)) hP fun _ => id
  ⟨hchange.now, hchange.seen⟩

theorem remove_of_ne (h : r.Tracks k held P) (hP : ∀ s ∈ held, P s) (hs : IsNamed s)
    (hkey : key s ≠ k) : (r.remove s).Tracks k held P :=
  h.change (h.now.remove_of_ne hs hkey) hP fun _ => id

/-- The secret of the key is written. -/
theorem put_of_eq (h : r.Tracks k held P) (hs : IsNamed s) (hkey : key s = k)
    (version : Nat → String) (hQ : ∀ s ∈ held, Q s) (hPQ : ∀ s, P s → Q s) :
    (r.put version s).Tracks k (some (s.withVersion (version r.stored))) Q :=
  have hchange := h.change (h.now.served.serves_put hs hkey (version r.stored)) hQ hPQ
  ⟨hchange.now, hchange.seen⟩

end Tracks

end Replica

end IngressWatch
