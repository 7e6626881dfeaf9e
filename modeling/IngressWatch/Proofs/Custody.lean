import IngressWatch.Aggregator
import IngressWatch.Proofs.Feed
import IngressWatch.Proofs.Resolution
import IngressWatch.Proofs.Store

/-!
# No credentials outlive their secret

The watch of secrets, the aggregator of its changes and the store of files work side by side: a
resolver writes what the mirror shows, and a reported deletion removes what was written.

* `Resolver.Writes`: what a call of a resolver may do to the store.
* `Vault.step`: one event of the watch, or one such call.
* `Vault.Accounted`: every file below the directory is recorded for a secret that is mirrored now.
* `Vault.Kept.step`: **each step keeps it so.** A secret that leaves the mirror is reported, and
  its files go.
* `Vault.run_accounted`: it is so after every run that starts without files.
-/

namespace IngressWatch

open Resource

/-- A place below the directory of the store. -/
def CredentialStore.Below (s : CredentialStore) (l : Location) : Prop :=
  s.disk.goal s.directory <+: l ∧ l ≠ s.disk.goal s.directory

theorem CredentialStore.below_iff {s s' : CredentialStore} (hd : s'.directory = s.directory)
    (hk : s.disk.Keeps s'.disk) {l : Location} : s'.Below l ↔ s.Below l := by
  rw [Below, Below, hd, hk.goal_eq]

namespace Resolver

/-- What a call may do to the store: nothing, or store credentials of a mirrored secret. -/
def Writes {checks : TlsChecks} (r : Resolver checks) (store store' : CredentialStore) : Prop :=
  store' = store ∨ ∃ s ∈ r.secrets.objects, CredentialStore.Extends (Resource.key s) store store'

variable {checks : TlsChecks} {r : Resolver checks} {store : CredentialStore}
  {ns reference : String}

theorem writes_tls (h : ∀ s ∈ r.secrets.objects, IsNamed s) :
    r.Writes store (r.tls store ns reference).2 := by
  unfold tls
  split
  · exact .inl rfl
  · rename_i m hm
    obtain ⟨s, hs, hk⟩ := found_of_tlsMaterial h hm
    refine .inr ⟨s, hs, ?_⟩
    rw [hk]
    exact store.extends_storeTls m.key m.certificate m.keyText

theorem writes_ca (h : ∀ s ∈ r.secrets.objects, IsNamed s) :
    r.Writes store (r.ca store ns reference).2 := by
  unfold ca
  split
  · exact .inl rfl
  · rename_i m hm
    obtain ⟨s, hs, hk⟩ := found_of_caMaterial h hm
    refine .inr ⟨s, hs, ?_⟩
    rw [hk]
    exact store.extends_storeCa m.key m.ca m.crl

theorem writes_dh (h : ∀ s ∈ r.secrets.objects, IsNamed s) :
    r.Writes store (r.dh store ns reference).2 := by
  unfold dh
  split
  · exact .inl rfl
  · rename_i k parameters hm
    obtain ⟨s, hs, hk⟩ := found_of_entryMaterial h hm
    refine .inr ⟨s, hs, ?_⟩
    rw [hk]
    exact store.extends_storeDh k parameters

end Resolver

/-- The watch of secrets, the aggregator of its changes and the files made of the secrets. -/
structure Vault (checks : TlsChecks := pemChecks) where
  secrets : Binding Secret
  aggregator : Aggregator
  store : CredentialStore

namespace Vault

/-- What can happen to a vault. -/
inductive Step where
  | watch (e : Event Secret)
  | tls (allowForeign : Bool) (ns reference : String)
  | ca (allowForeign : Bool) (ns reference : String)
  | dh (allowForeign : Bool) (ns reference : String)

def Step.event? : Step → Option (Event Secret)
  | .watch e => some e
  | _ => none

variable {checks : TlsChecks}

/-- A change reaches the aggregator, and makes the files of a deleted secret go. -/
def apply (v : Vault checks) (c : Change) : Vault checks :=
  { v with
    aggregator := v.aggregator.apply c
    store := (Window.invalidated c).elim v.store v.store.invalidate }

def applyAll (v : Vault checks) (changes : List Change) : Vault checks := changes.foldl apply v

/-- An event reaches the binding, and the changes it means are applied. -/
def observe (v : Vault checks) (e : Event Secret) : Vault checks :=
  { v.applyAll ((v.secrets.changes e).map Delta.change) with secrets := v.secrets.next e }

/-- The resolver of a policy, on the mirror as it is. -/
def resolver (v : Vault checks) (allowForeign : Bool) : Resolver checks :=
  ⟨allowForeign, v.secrets.mirror⟩

/-- One step. Whether a call succeeds does not matter. -/
def step (v : Vault checks) : Step → Vault checks
  | .watch e => v.observe e
  | .tls allowForeign ns reference =>
    { v with store := ((v.resolver allowForeign).tls v.store ns reference).2 }
  | .ca allowForeign ns reference =>
    { v with store := ((v.resolver allowForeign).ca v.store ns reference).2 }
  | .dh allowForeign ns reference =>
    { v with store := ((v.resolver allowForeign).dh v.store ns reference).2 }

def run (v : Vault checks) (steps : List Step) : Vault checks := steps.foldl step v

/-- The events of the watch in a run. -/
def events (steps : List Step) : List (Event Secret) := steps.filterMap Step.event?

/-- **Every file below the directory is recorded for a secret that is mirrored now.** -/
def Accounted (v : Vault checks) : Prop :=
  ∀ l, v.store.Below l → v.store.disk.IsFile l →
    ∃ s ∈ v.secrets.mirror.objects, v.store.Recorded (key s) l

/-! ## One event -/

theorem applyAll_eq (v : Vault checks) (changes : List Change) :
    v.applyAll changes = { v with
      aggregator := v.aggregator.applyAll changes
      store := v.store.invalidateAll (changes.filterMap Window.invalidated) } := by
  induction changes generalizing v with
  | nil => rfl
  | cons c cs ih =>
    show (v.apply c).applyAll cs = _
    rw [ih]
    cases hc : Window.invalidated c with
    | none => simp only [apply, hc, List.filterMap_cons]; rfl
    | some k => simp only [apply, hc, List.filterMap_cons]; rfl

/-- The keys that an event makes invalid. -/
def invalidated (v : Vault checks) (e : Event Secret) : List Key :=
  ((v.secrets.changes e).map Delta.change).filterMap Window.invalidated

theorem store_observe (v : Vault checks) (e : Event Secret) :
    (v.observe e).store = v.store.invalidateAll (v.invalidated e) := by
  rw [observe, applyAll_eq]
  rfl

/-- The key of a deleted secret is made invalid. -/
theorem key_mem_invalidated {v : Vault checks} {e : Event Secret} {s : Secret}
    (h : .deleted s ∈ v.secrets.changes e) : key s ∈ v.invalidated e :=
  List.mem_filterMap.2 ⟨Delta.change (.deleted s), List.mem_map_of_mem h, rfl⟩

/-! ## The invariant -/

/-- **What every step keeps**, along the feed of the watch. -/
structure Kept (v : Vault checks) (f : Feed) : Prop where
  accepts : ∀ s, v.secrets.accept s = true
  follows : v.secrets.Follows f
  removable : v.store.Removable
  accounted : v.Accounted

namespace Kept

variable {v : Vault checks} {f : Feed}

/-- An event takes away the files of every secret that leaves the mirror. -/
theorem observe (h : v.Kept f) {e : Event Secret} (he : f.Orderly True e)
    (hn : ∀ s ∈ e.object?, IsNamed s) : (v.observe e).Kept (f.next e) := by
  have hq := v.store.quiet_invalidateAll (v.invalidated e)
  refine ⟨h.accepts, h.follows.step he hn, ?_, ?_⟩
  · rw [v.store_observe e]
    exact h.removable.invalidateAll _
  · intro l hbelow hfile
    rw [v.store_observe e] at hbelow hfile ⊢
    have hdirectory := v.store.directory_invalidateAll (v.invalidated e)
    obtain ⟨s, hs, hrecorded⟩ := h.accounted l
      ((CredentialStore.below_iff hdirectory hq.toKeeps).1 hbelow) (hq.files l hfile)
    -- the file is still there, so the key it is recorded for was not made invalid
    have hvalid : key s ∉ v.invalidated e := fun hk =>
      CredentialStore.not_recorded_of_isFile_invalidateAll h.removable hfile hk hrecorded
    rcases Binding.kept_or_deleted h.follows he hn hs (h.accepts s) with ⟨p, hp, hk⟩ | ⟨p, hp, hk⟩
    · refine ⟨p, hp, ?_⟩
      rw [hk]
      exact hrecorded.invalidateAll hvalid
    · rw [← hk] at hvalid
      exact absurd (key_mem_invalidated hp) hvalid

/-- A call keeps it, since files are made only for a secret that is mirrored. -/
theorem call (h : v.Kept f) {allowForeign : Bool} {store : CredentialStore}
    (hw : (v.resolver allowForeign).Writes v.store store) :
    ({ v with store } : Vault checks).Kept f := by
  rcases hw with rfl | ⟨s, hs, hstore⟩
  · exact h
  -- credentials of the mirrored secret `s` were stored
  refine ⟨h.accepts, h.follows, h.removable.extend hstore, fun l hbelow hfile => ?_⟩
  have hbelow' := (CredentialStore.below_iff hstore.directory hstore.keeps).1 hbelow
  rcases hstore.files l hfile with hold | hnew
  · obtain ⟨t, ht, hrecorded⟩ := h.accounted l hbelow' hold
    exact ⟨t, ht, hrecorded.extend hstore⟩
  · exact ⟨s, hs, hnew⟩

/-- **One step.** Only an event of the watch moves the feed. -/
theorem step (h : v.Kept f) {s : Step} (horder : ∀ e ∈ s.event?, f.Orderly True e)
    (hnamed : ∀ e ∈ s.event?, ∀ o ∈ e.object?, IsNamed o) :
    (v.step s).Kept (s.event?.elim f f.next) := by
  cases s with
  | watch e => exact h.observe (horder e rfl) (hnamed e rfl)
  | tls => exact h.call (Resolver.writes_tls h.follows.mirrored)
  | ca => exact h.call (Resolver.writes_ca h.follows.mirrored)
  | dh => exact h.call (Resolver.writes_dh h.follows.mirrored)

/-- **A whole run.** Calls come anywhere between the events. -/
theorem run (h : v.Kept f) {steps : List Step}
    (horder : Feed.Along (Feed.Orderly True) f (events steps))
    (hnamed : ∀ e ∈ events steps, ∀ s ∈ e.object?, IsNamed s) :
    (v.run steps).Kept (f.after (events steps)) := by
  induction steps generalizing v f with
  | nil => exact h
  | cons s rest ih =>
    cases he : s.event? with
    | none =>
      -- a call: the feed stands still
      have hevents : events (s :: rest) = events rest := List.filterMap_cons_none he
      rw [hevents] at horder hnamed ⊢
      have hstep := h.step (s := s) (by simp [he]) (by simp [he])
      rw [he] at hstep
      exact ih hstep horder hnamed
    | some e =>
      have hevents : events (s :: rest) = e :: events rest := List.filterMap_cons_some he
      rw [hevents] at horder hnamed ⊢
      have hstep := h.step (s := s) (by simpa [he] using horder.1) (by simp_all)
      rw [he] at hstep
      exact ih hstep horder.2 fun e' he' => hnamed e' (List.mem_cons_of_mem _ he')

end Kept

/-- **No credentials outlive their secret.** A run starts with an empty mirror, an empty index
and no files below the directory. The watch may give up relists, and calls of any resolver come in
between and may fail. If credential files can be removed, then after every run each file below the
directory is recorded for a secret that is mirrored at that moment. -/
theorem run_accounted (aggregator : Aggregator) {store : CredentialStore}
    (hwritten : store.written = {}) (hempty : ∀ l, store.Below l → ¬ store.disk.IsFile l)
    (hremoves : store.Removes) {steps : List Step}
    (horder : Feed.Along (Feed.Orderly True) {} (events steps))
    (hnamed : ∀ e ∈ events steps, ∀ s ∈ e.object?, IsNamed s) :
    ((⟨{ accept := fun _ => true }, aggregator, store⟩ : Vault checks).run steps).Accounted := by
  have hstart : (⟨{ accept := fun _ => true }, aggregator, store⟩ : Vault checks).Kept {} := by
    refine ⟨fun _ => rfl, Binding.follows_start _, ⟨fun key path hp => ?_, hremoves⟩,
      fun l hbelow hfile => absurd hfile (hempty l hbelow)⟩
    rw [CredentialStore.paths, hwritten] at hp
    cases hp
  exact (hstart.run horder hnamed).accounted

/-- A secret with Diffie-Hellman parameters. -/
def parameterSecret (name : String) : Secret where
  metadata := { ns := some "web", name := some name }
  data := some ⟨[(Entry.dhParameters, [100, 104])], by simp⟩

/-- Two secrets are listed and made into files. A relist is given up, and the next one shows only
one of them. -/
def relistedSteps : List Step :=
  [.watch .init, .watch (.initApply (parameterSecret "a")),
    .watch (.initApply (parameterSecret "b")), .watch .initDone,
    .dh false "web" "a", .dh true "api" "web/b", .dh false "api" "web/b",
    .watch .init, .watch (.initApply (parameterSecret "a")),
    .watch .init, .watch (.initApply (parameterSecret "b")), .watch .initDone]

/-- One file is left, that of the secret which was listed again. -/
theorem run_accounted_relisted :
    let store : CredentialStore := { directory := "certs", disk := Disk.empty }
    let debouncer : Debouncer := { delay := 800, now := some 0, signals := .counter 0 }
    let aggregator := Aggregator.new none none debouncer
    let last := (⟨{ accept := fun _ => true }, aggregator, store⟩ : Vault).run relistedSteps
    let file := fun name => last.store.disk.node? ["home", "certs", "dhparam", name]
    store.written = {} ∧ (∀ l, store.Below l → ¬ store.disk.IsFile l) ∧ store.Removes ∧
      Feed.Along (Feed.Orderly True) {} (events relistedSteps) ∧
      (∀ e ∈ events relistedSteps, ∀ s ∈ e.object?, IsNamed s) ∧ last.Accounted ∧
      file "web_a.pem" = none ∧ file "web_b.pem" = some (.file [100, 104] 1) := by
  intro store debouncer aggregator last file
  -- an empty disk has two directories and no files
  have hempty : ∀ l, store.Below l → ¬ store.disk.IsFile l := by
    rintro l - ⟨content, number, h⟩
    have h' : ((Table.empty.insert [] .directory).insert ["home"] .directory).get? l =
      some (Node.file content number) := h
    rw [Table.get?_insert, Table.get?_insert] at h'
    split at h'
    · cases h'
    · split at h' <;> cases h'
  have hremoves : store.Removes := fun _ _ _ _ => rfl
  have horder : Feed.Along (Feed.Orderly True) {} (events relistedSteps) := by decide
  have hnamed : ∀ e ∈ events relistedSteps, ∀ s ∈ e.object?, IsNamed s := by decide
  exact ⟨rfl, hempty, hremoves, horder, hnamed,
    run_accounted aggregator rfl hempty hremoves horder hnamed, by decide +kernel,
    by decide +kernel⟩

end Vault

end IngressWatch
