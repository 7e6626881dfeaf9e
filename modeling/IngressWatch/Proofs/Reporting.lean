import IngressWatch.Proofs.Keys
import IngressWatch.Proofs.Resolution
import IngressWatch.Proofs.Separation
import IngressWatch.Report

/-!
# What a report does to TLS files

A report resolves references to secrets one after the other, and each of them may write the TLS file
of one secret.

* `CredentialStore.Bypasses`: the TLS file of a key is the one it was, or gone.
* `CredentialStore.HoldsTls`: the TLS file of a key has some content, if it is there.
* `Report.requests`: the references that a report resolves. `Report.run_store` says that its files
  are those of these requests.
* `Resolver.bypasses_tlsAll`, `Resolver.holdsTls_tlsAll`: **a file is brought up to date exactly by
  the requests that ask for its secret**, and no other touches it.
-/

namespace IngressWatch

open Resource

/-- The content of the TLS file that a secret makes, if its certificate and its key pass the
checks. -/
def Secret.tlsContent? (s : Secret) (checks : TlsChecks := pemChecks) : Option Bytes := do
  let certificate ← s.value? Entry.tlsCertificate
  let keyText ← s.value? Entry.tlsKey
  let _ ← (checks.certificate certificate).toOption
  let _ ← (checks.privateKey keyText).toOption
  return CredentialStore.tlsContent certificate keyText

theorem Key.IsDns.ns_ne {k : Key} (h : k.IsDns) : k.ns ≠ "" := by
  intro hc
  have hends := h.ns.ends
  rw [hc] at hends
  exact absurd hends (by decide)

theorem Key.IsDns.name_ne {k : Key} (h : k.IsDns) : k.name ≠ "" := by
  intro hc
  have hends := h.name.ends
  rw [hc] at hends
  exact absurd hends (by decide)

/-- **A key of a cluster is read back as it was written.** -/
theorem Key.parse_display {k : Key} (h : k.IsDns) : Key.parse k.display = .ok k :=
  h.plain.flat.parse_display h.name_ne

namespace CredentialStore

variable {s s' s'' : CredentialStore} {k other : Key} {content : Bytes}

/-- Where the TLS file of a key stands. -/
def tlsGoal (s : CredentialStore) (k : Key) : Location := s.disk.goal (tlsPath s.directory k)

/-- **The TLS file of a key is the one that it was, or gone.** -/
structure Bypasses (k : Key) (s s' : CredentialStore) : Prop where
  directory : s'.directory = s.directory
  hash : s'.hash = s.hash
  keeps : s.disk.Keeps s'.disk
  back : Disk.Leaves (s.tlsGoal k) s'.disk s.disk

/-- The TLS file of a key, if there is one, has the content or another of the same fingerprint. -/
def HoldsTls (s : CredentialStore) (k : Key) (content : Bytes) : Prop :=
  ∀ found number, s.disk.node? (s.tlsGoal k) = some (.file found number) →
    s.sameContent found content = true

theorem tlsGoal_eq (hdirectory : s'.directory = s.directory) (hkeeps : s.disk.Keeps s'.disk)
    (k : Key) : s'.tlsGoal k = s.tlsGoal k := by
  rw [tlsGoal, hdirectory, hkeeps.goal_eq, tlsGoal]

namespace Bypasses

theorem refl (k : Key) (s : CredentialStore) : Bypasses k s s :=
  ⟨rfl, rfl, .refl _, .refl _ _⟩

theorem trans (h : Bypasses k s s') (h' : Bypasses k s' s'') : Bypasses k s s'' where
  directory := h'.directory.trans h.directory
  hash := h'.hash.trans h.hash
  keeps := h.keeps.trans h'.keeps
  back := by
    have hback := h'.back
    rw [tlsGoal_eq h.directory h.keeps] at hback
    exact hback.trans h.back

theorem holdsTls (h : Bypasses k s s') (hs : s.HoldsTls k content) : s'.HoldsTls k content := by
  intro found number hnode
  rw [tlsGoal_eq h.directory h.keeps] at hnode
  have hsame := hs found number (h.back found number hnode)
  rwa [sameContent, h.hash]

end Bypasses

/-! ## Writes and removals -/

/-- A file that could not be stored is a failure of the file system. -/
theorem error_of_store {path : String} {e : Error} (h : (s.store k path content).1 = .error e) :
    e = .fileSystem := by
  rw [store_eq] at h
  have hwrite := map_eq_error.1 h
  cases s.write_ends k path content with
  | kept _ _ _ hanswer | replaced _ _ _ _ _ hanswer =>
    rw [hanswer] at hwrite
    cases hwrite
  | blocked _ _ _ hanswer | refused _ _ _ _ _ hanswer =>
    rw [hanswer] at hwrite
    exact (Except.error.inj hwrite).symm

/-- TLS files of different secrets stand apart: plain keys and roles are read off a path. -/
theorem eq_of_tlsGoal_eq (hk : k.Plain) (hother : other.Plain)
    (hgoal : s.tlsGoal k = s.tlsGoal other) : k = other := by
  have hpaths : s.disk.goal (Role.tls.path s.directory k) =
      s.disk.goal (Role.tls.path s.directory other) := hgoal
  rcases Role.goal_path_inj hk hother hpaths with ⟨h, -⟩ | h
  · exact h
  · rcases h with ⟨hrole, -⟩ | ⟨hrole, -⟩ <;> cases hrole

theorem bypasses_storeTls (hk : k.Plain) (hother : other.Plain) (hne : k ≠ other)
    (certificate keyText : Bytes) : Bypasses k s (s.storeTls other certificate keyText).2 := by
  have htouches : Touches [tlsPath s.directory other] s
      (s.storeTls other certificate keyText).2 := (s.store_cases other _ _).1
  have hgoal : s.tlsGoal k ≠ s.tlsGoal other := fun h => hne (eq_of_tlsGoal_eq hk hother h)
  exact ⟨htouches.directory, htouches.hash, htouches.keeps,
    back_store hgoal other (tlsContent certificate keyText)⟩

/-- **A TLS file that is stored** holds what it is to hold. -/
theorem holdsTls_storeTls {certificate keyText : Bytes}
    (hok : (s.storeTls k certificate keyText).1 ≠ .error .fileSystem) :
    (s.storeTls k certificate keyText).2.HoldsTls k (tlsContent certificate keyText) := by
  unfold storeTls at hok ⊢
  obtain ⟨htouches, ⟨e, he⟩ | ⟨-, -, found, number, hnode, hsame⟩⟩ :=
    s.store_cases k (tlsPath s.directory k) (tlsContent certificate keyText)
  · obtain rfl := error_of_store he
    exact absurd he hok
  · intro found' number' hnode'
    have hplace := Disk.node?_goal hnode
    rw [htouches.keeps.goal_eq] at hplace
    rw [tlsGoal_eq htouches.directory htouches.keeps, tlsGoal] at hnode'
    have hfile : some (Node.file found number) = some (.file found' number') :=
      hplace.symm.trans hnode'
    cases hfile
    exact hsame

theorem bypasses_invalidate (k : Key) (s : CredentialStore) (other : Key) :
    Bypasses k s (s.invalidate other) where
  directory := rfl
  hash := rfl
  keeps := (s.quiet_invalidate other).toKeeps
  back := Disk.back_removeAll _ _ _

theorem bypasses_invalidateAll (k : Key) (s : CredentialStore) (keys : List Key) :
    Bypasses k s (s.invalidateAll keys) := by
  induction keys generalizing s with
  | nil => exact .refl k s
  | cons j keys ih => exact (bypasses_invalidate k s j).trans (ih (s.invalidate j))

end CredentialStore

/-! ## One request -/

namespace Resolver

open CredentialStore

variable {checks : TlsChecks} {r : Resolver checks} {store : CredentialStore}
  {ns reference : String} {k : Key} {s : Secret} {content : Bytes}

/-- A usable secret is found by a reference to its key. -/
theorem tlsMaterial_of_mem (hr : ∀ s ∈ r.secrets.objects, IsNamed s)
    (hs : s ∈ r.secrets.objects) (hns : (Resource.key s).ns ≠ "")
    (hcontent : s.tlsContent? checks = some content)
    (hkey : r.key ns reference = .ok (Resource.key s)) :
    ∃ m, r.tlsMaterial ns reference = .ok m ∧ m.key = Resource.key s ∧
      tlsContent m.certificate m.keyText = content := by
  have hlookup : r.secrets.lookup (Resource.key s) = some s := by
    rw [Mirror.lookup_of_spaced fun o ho => (hr o ho).ns, if_neg hns]
    exact (Mirror.find?_key_iff hr).2 ⟨hs, rfl⟩
  obtain ⟨certificate, keyText, parsed, hbears, hcontent⟩ :=
    Secret.bind_eq_some_iff_bears.1 hcontent
  exact ⟨⟨Resource.key s, certificate, keyText, parsed.identity⟩,
    tlsMaterial_eq_ok.2 ⟨hkey, s, parsed, hlookup, hbears, rfl⟩, rfl, hcontent⟩

/-- **A request that does not ask for a key** bypasses the TLS file of that key. -/
theorem bypasses_tls (hr : ∀ s ∈ r.secrets.objects, IsNamed s ∧ (Resource.key s).Plain)
    (hk : k.Plain) (hne : r.key ns reference ≠ .ok k) :
    Bypasses k store (r.tls store ns reference).2 := by
  unfold tls
  split
  · exact .refl k store
  · rename_i m hm
    obtain ⟨s, hs, hkey⟩ := found_of_tlsMaterial (fun s hs => (hr s hs).1) hm
    have hother : m.key.Plain := hkey ▸ (hr s hs).2
    refine bypasses_storeTls hk hother (fun heq => hne ?_) m.certificate m.keyText
    rw [heq]
    exact (tlsMaterial_eq_ok.1 hm).1

/-- **A request that asks for a usable secret** leaves its content in the TLS file. -/
theorem holdsTls_tls (hr : ∀ s ∈ r.secrets.objects, IsNamed s) (hs : s ∈ r.secrets.objects)
    (hns : (Resource.key s).ns ≠ "") (hcontent : s.tlsContent? checks = some content)
    (hkey : r.key ns reference = .ok (Resource.key s))
    (hok : (r.tls store ns reference).1 ≠ .error .fileSystem) :
    (r.tls store ns reference).2.HoldsTls (Resource.key s) content := by
  obtain ⟨m, hm, hmkey, hmcontent⟩ := tlsMaterial_of_mem hr hs hns hcontent hkey
  rw [← hmkey, ← hmcontent]
  unfold tls at hok ⊢
  rw [hm] at hok ⊢
  refine holdsTls_storeTls fun herror => hok ?_
  show (store.storeTls m.key m.certificate m.keyText).1.map _ = _
  rw [herror]
  rfl

/-! ## Requests in order -/

/-- The store after requests in order. Each names a secret as seen from a namespace. -/
def tlsAll (r : Resolver checks) (store : CredentialStore) (requests : List (String × String)) :
    CredentialStore :=
  requests.foldl (fun store q => (r.tls store q.1 q.2).2) store

/-- No request fails for the file system. -/
def AllWritten (r : Resolver checks) (store : CredentialStore) : List (String × String) → Prop
  | [] => True
  | q :: rest =>
    (r.tls store q.1 q.2).1 ≠ .error .fileSystem ∧ AllWritten r (r.tls store q.1 q.2).2 rest

/-- Some request asks for the key. -/
def Asks (r : Resolver checks) (k : Key) (requests : List (String × String)) : Prop :=
  ∃ q ∈ requests, r.key q.1 q.2 = .ok k

variable {requests : List (String × String)}

theorem bypasses_tlsAll (hr : ∀ s ∈ r.secrets.objects, IsNamed s ∧ (Resource.key s).Plain)
    (hk : k.Plain) (hasks : ¬ r.Asks k requests) :
    Bypasses k store (r.tlsAll store requests) := by
  induction requests generalizing store with
  | nil => exact .refl k store
  | cons q rest ih =>
    have hfirst : r.key q.1 q.2 ≠ .ok k := fun hq => hasks ⟨q, List.mem_cons_self, hq⟩
    have hrest : ¬ r.Asks k rest := fun ⟨p, hp, hpk⟩ =>
      hasks ⟨p, List.mem_cons_of_mem _ hp, hpk⟩
    exact (bypasses_tls hr hk hfirst).trans (ih hrest)

/-- **The TLS file of a usable secret is up to date after requests** if it was before or one of them
asks for it. -/
theorem holdsTls_tlsAll (hr : ∀ s ∈ r.secrets.objects, IsNamed s ∧ (Resource.key s).Plain)
    (hs : s ∈ r.secrets.objects) (hns : (Resource.key s).ns ≠ "")
    (hcontent : s.tlsContent? checks = some content) (hok : r.AllWritten store requests)
    (h : store.HoldsTls (Resource.key s) content ∨ r.Asks (Resource.key s) requests) :
    (r.tlsAll store requests).HoldsTls (Resource.key s) content := by
  induction requests generalizing store with
  | nil =>
    rcases h with h | ⟨q, hq, -⟩
    · exact h
    · cases hq
  | cons q rest ih =>
    refine ih hok.2 ?_
    by_cases hfirst : r.key q.1 q.2 = .ok (Resource.key s)
    · exact .inl (holdsTls_tls (fun s hs => (hr s hs).1) hs hns hcontent hfirst hok.1)
    · rcases h with h | ⟨p, hp, hpk⟩
      · exact .inl ((bypasses_tls hr (hr s hs).2 hfirst).holdsTls h)
      · rcases List.mem_cons.1 hp with rfl | hp
        · exact absurd hpk hfirst
        · exact .inr ⟨p, hp, hpk⟩

end Resolver

/-! ## What a report asks for -/

namespace Report

variable {checks : TlsChecks}

/-- The request for a reported secret, if that has a certificate. -/
def secretRequest (s : Secret) : List (String × String) :=
  if (s.value? Entry.tlsCertificate).isNone then [] else [("", (Resource.key s).display)]

/-- **The requests of a report**: the references of its ingresses, and then its secrets. -/
def requests (snapshot : Snapshot) (mirrors : Mirrors) : List (String × String) :=
  (references (ingresses snapshot mirrors)).map (fun p => (Resource.space p.1, p.2)) ++
    snapshot.secrets.present.flatMap secretRequest

/-- Lines that each make some requests. -/
theorem lines_store {α : Type} {r : Resolver checks}
    {line : CredentialStore → α → List LogLine × CredentialStore}
    {asked : α → List (String × String)}
    (h : ∀ store a, (line store a).2 = r.tlsAll store (asked a)) (store : CredentialStore)
    (l : List α) : (lines line store l).2 = r.tlsAll store (l.flatMap asked) := by
  induction l generalizing store with
  | nil => rfl
  | cons a rest ih =>
    show (lines line (line store a).2 rest).2 = _
    rw [ih, h, List.flatMap_cons, Resolver.tlsAll, Resolver.tlsAll, Resolver.tlsAll,
      List.foldl_append]

/-- **The files of a report are those of its requests.** -/
theorem run_store (snapshot : Snapshot) (allowForeign : Bool) (mirrors : Mirrors)
    (store : CredentialStore) (checks : TlsChecks) :
    (run snapshot allowForeign mirrors store checks).2 =
      (⟨allowForeign, mirrors.secrets⟩ : Resolver checks).tlsAll store
        (requests snapshot mirrors) := by
  let r : Resolver checks := ⟨allowForeign, mirrors.secrets⟩
  have hrun : (run snapshot allowForeign mirrors store checks).2 =
      (lines (fun store secret =>
          ((secretLine r store secret).1.toList, (secretLine r store secret).2))
        (lines (fun store p => ([(tlsLine r store p.1 p.2).1], (tlsLine r store p.1 p.2).2)) store
          (references (ingresses snapshot mirrors))).2
        snapshot.secrets.present).2 := rfl
  have hsecret : ∀ store secret,
      (secretLine r store secret).2 = r.tlsAll store (secretRequest secret) := by
    intro store secret
    unfold secretLine secretRequest
    split <;> rfl
  have htls : ∀ (store : CredentialStore) (p : Ingress × String),
      (tlsLine r store p.1 p.2).2 = r.tlsAll store [(Resource.space p.1, p.2)] :=
    fun store p => rfl
  rw [hrun, lines_store hsecret, lines_store htls, requests, List.map_eq_flatMap]
  simp only [Resolver.tlsAll, List.foldl_append]
  rfl

/-- A report of nothing makes no requests. -/
theorem requests_of_isEmpty {snapshot : Snapshot} (h : snapshot.isEmpty = true)
    (mirrors : Mirrors) : requests snapshot mirrors = [] := by
  simp only [Snapshot.isEmpty, ChangeSet.isEmpty, Bool.and_eq_true, List.isEmpty_iff,
    Bool.not_eq_true'] at h
  obtain ⟨⟨⟨⟨⟨⟨⟨⟨⟨hadded, hupdated⟩, -⟩, -⟩, ⟨⟨hsecrets, hsecrets'⟩, -⟩⟩, -⟩, -⟩, -⟩, -⟩,
    hresync⟩ := h
  simp [requests, ingresses, references, ChangeSet.present, hadded, hupdated, hsecrets, hsecrets',
    hresync]

/-- **A secret that is reported with a certificate is asked for.** -/
theorem asks_of_present {snapshot : Snapshot} {s : Secret} (hs : s ∈ snapshot.secrets.present)
    (hcertificate : (s.value? Entry.tlsCertificate).isSome) (hdns : (Resource.key s).IsDns)
    (allowForeign : Bool) (mirrors : Mirrors) :
    (⟨allowForeign, mirrors.secrets⟩ : Resolver checks).Asks (Resource.key s)
      (requests snapshot mirrors) := by
  have hrequest : secretRequest s = [("", (Resource.key s).display)] := by
    rw [secretRequest, if_neg]
    simpa [Option.isSome_iff_ne_none] using hcertificate
  refine ⟨("", (Resource.key s).display), ?_, ?_⟩
  · refine List.mem_append_right _ (List.mem_flatMap.2 ⟨s, hs, ?_⟩)
    rw [hrequest]
    exact List.mem_singleton_self _
  · simp [Resolver.key, Key.parse_display hdns]

end Report

end IngressWatch
