import IngressWatch.Proofs.Bundles
import IngressWatch.Proofs.Catalogue
import IngressWatch.Proofs.Freshness

/-!
# What a resolver answers with

A reference that is answered with files comes from one secret. Its entries are what the files hold,
and the fingerprint is made of them.

* `Resolver.LeadsTo`: the secret that a reference leads to.
* `Resolver.tls_ok`, `Resolver.ca_ok`, `Resolver.dh_ok`: where an answer comes from, and what its
  files hold when it is given.
* `CredentialStore.Performs`: what a call may do to a store. `CredentialStore.Akin` is what it
  never changes: how files are named and contents are told apart.
* `CredentialStore.Holds`: what a file holds, byte by byte.
* `Resolver.tls_parts`, `Resolver.ca_parts`, `Resolver.dh_parts`: what the fingerprint of an answer
  is made of.
* `fingerprint_identifies`: **a fingerprint identifies the material**: lists of parts, entries of
  secrets and files are the same where their fingerprints are.
-/

namespace IngressWatch

open CredentialStore

/-- What a lookup finds is in the mirror. -/
theorem Mirror.mem_of_lookup {α : Type} [Resource α] {m : Mirror α} {k : Key} {o : α}
    (h : m.lookup k = some o) : o ∈ m.objects := by
  unfold lookup get? at h
  rcases Option.or_eq_some_iff.1 h with h | ⟨-, h⟩
  · exact mem_of_find? h
  · exact mem_of_find? h

namespace Resolver

variable {checks : TlsChecks} {r : Resolver checks} {store : CredentialStore}
  {ns reference name : String}

/-! ## The secret of a reference -/

/-- The secret that a reference leads to. -/
def LeadsTo (r : Resolver checks) (ns reference : String) (s : Secret) : Prop :=
  ∃ k, r.key ns reference = .ok k ∧ r.secret k = .ok s

theorem LeadsTo.mem {s : Secret} (h : r.LeadsTo ns reference s) : s ∈ r.secrets.objects := by
  obtain ⟨k, -, hs⟩ := h
  exact Mirror.mem_of_lookup (secret_eq_ok.1 hs)

/-- **TLS material** is two entries of the secret that the reference leads to. -/
theorem leadsTo_of_tlsMaterial {m : TlsMaterial} (h : r.tlsMaterial ns reference = .ok m) :
    ∃ s, r.LeadsTo ns reference s ∧ s.value? Entry.tlsCertificate = some m.certificate ∧
      s.value? Entry.tlsKey = some m.keyText := by
  obtain ⟨hk, s, parsed, hs, hbears, -⟩ := tlsMaterial_eq_ok.1 h
  exact ⟨s, ⟨m.key, hk, secret_eq_ok.2 hs⟩, hbears.certificateEntry, hbears.keyEntry⟩

theorem leadsTo_of_caMaterial {m : CaMaterial} (h : r.caMaterial ns reference = .ok m) :
    ∃ s, r.LeadsTo ns reference s ∧ s.value? Entry.caCertificate = some m.ca ∧
      s.value? Entry.caRevocation = m.crl := by
  obtain ⟨hk, s, hs, hentries⟩ := of_caMaterial h
  exact ⟨s, ⟨m.key, hk, secret_eq_ok.2 hs⟩, hentries⟩

theorem leadsTo_of_entryMaterial {m : Key × Bytes} (h : r.entryMaterial ns reference name = .ok m) :
    ∃ s, r.LeadsTo ns reference s ∧ s.value? name = some m.2 := by
  obtain ⟨hk, s, hs, hentry⟩ := of_entryMaterial h
  exact ⟨s, ⟨m.1, hk, secret_eq_ok.2 hs⟩, hentry⟩

end Resolver

/-! ## Files of an answer -/

namespace CredentialStore

variable {s s' s'' : CredentialStore} {key : Key} {path : String} {content ca : Bytes}
  {crl : Option Bytes}

/-- **Stores that answer alike**: they name files and tell contents apart in the same way. -/
structure Akin (s s' : CredentialStore) : Prop where
  directory : s'.directory = s.directory
  hash : s'.hash = s.hash

namespace Akin

theorem refl (s : CredentialStore) : s.Akin s := ⟨rfl, rfl⟩

theorem trans (h : s.Akin s') (h' : s'.Akin s'') : s.Akin s'' :=
  ⟨h'.directory.trans h.directory, h'.hash.trans h.hash⟩

end Akin

/-- **What a call may do to a store**: nothing, or one operation for some key. -/
def Performs (s s' : CredentialStore) : Prop :=
  s' = s ∨ ∃ key op, s' = (s.perform key op).2

namespace Performs

theorem akin (h : s.Performs s') : s.Akin s' := by
  rcases h with rfl | ⟨key, op, rfl⟩
  · exact .refl s'
  · exact ⟨(s.touches_perform key op).directory, (s.touches_perform key op).hash⟩

theorem keeps (h : s.Performs s') : s.disk.Keeps s'.disk := by
  rcases h with rfl | ⟨key, op, rfl⟩
  · exact .refl s'.disk
  · exact (s.touches_perform key op).keeps

theorem injective (h : s.Performs s') (hhash : Function.Injective s.hash) :
    Function.Injective s'.hash := by
  rw [h.akin.hash]
  exact hhash

end Performs

/-- The file at the end of a path holds exactly this content. -/
def Holds (s : CredentialStore) (path : String) (content : Bytes) : Prop :=
  ∃ number, s.disk.nodeAt? path = some (.file content number)

/-- **Without collisions** a file of the same fingerprint holds the content itself. -/
theorem Shows.holds (hhash : Function.Injective s.hash) (h : s.Shows path content) :
    s.Holds path content := by
  obtain ⟨found, number, hnode, hsame⟩ := h
  obtain rfl := (sameContent_iff hhash).1 hsame
  exact ⟨number, hnode⟩

theorem shows_of_store {answer : String} (h : (s.store key path content).1 = .ok answer) :
    answer = path ∧ (s.store key path content).2.Shows path content := by
  obtain ⟨-, ⟨e, herror⟩ | ⟨hpath, -, hshows⟩⟩ := s.store_cases key path content
  · rw [h] at herror
    cases herror
  · rw [h] at hpath
    exact ⟨Except.ok.inj hpath, hshows⟩

/-- **A bundle and its list** are both there when the answer is given. -/
theorem shows_of_storeCa {paths : String × Option String}
    (h : (s.storeCa key ca crl).1 = .ok paths) :
    paths = (caPath s.directory key, crl.map fun _ => crlPath s.directory key) ∧
      (s.storeCa key ca crl).2.Shows (caPath s.directory key) ca ∧
      ∀ list ∈ crl, (s.storeCa key ca crl).2.Shows (crlPath s.directory key) list := by
  obtain ⟨htouches, hbundle⟩ := s.store_cases key (caPath s.directory key) ca
  have hdirectory := htouches.directory
  unfold storeCa at h ⊢
  generalize s.store key (caPath s.directory key) ca = bundle at h hbundle hdirectory ⊢
  obtain ⟨e | path, s'⟩ := bundle
  · cases h
  · obtain ⟨e, he⟩ | ⟨hpath, -, hca⟩ := hbundle
    · cases he
    obtain rfl := Except.ok.inj hpath
    dsimp only at hdirectory hca
    cases crl with
    | none => exact ⟨(Except.ok.inj h).symm, hca, nofun⟩
    | some list =>
      dsimp only at h ⊢
      rw [hdirectory] at h ⊢
      obtain ⟨htouches', hlast⟩ := s'.store_cases key (crlPath s.directory key) list
      -- the list is written elsewhere, so the bundle stays
      have hapart : s'.disk.goal (caPath s.directory key) ≠
          s'.disk.goal (crlPath s.directory key) := by
        have hplace := s'.place_crl_ne_place_ca key
        rw [place, place, hdirectory] at hplace
        exact hplace.symm
      have hkept := htouches'.shows (List.forall_mem_singleton.2 hapart) hca
      generalize s'.store key (crlPath s.directory key) list = last at h hlast hkept ⊢
      obtain ⟨e | path', s''⟩ := last
      · cases h
      · obtain ⟨e, he⟩ | ⟨hpath', -, hlist⟩ := hlast
        · cases he
        obtain rfl := Except.ok.inj hpath'
        refine ⟨(Except.ok.inj h).symm, hkept, fun list' hlist' => ?_⟩
        obtain rfl := Option.some.inj hlist'
        exact hlist

end CredentialStore

namespace Resolver

variable {checks : TlsChecks} {r : Resolver checks} {store : CredentialStore}
  {ns reference : String}

theorem performs_tls (r : Resolver checks) (store : CredentialStore) (ns reference : String) :
    store.Performs (r.tls store ns reference).2 := by
  unfold tls
  split
  · exact .inl rfl
  · rename_i m _
    exact .inr ⟨m.key, .tls m.certificate m.keyText, rfl⟩

theorem performs_ca (r : Resolver checks) (store : CredentialStore) (ns reference : String) :
    store.Performs (r.ca store ns reference).2 := by
  unfold ca
  split
  · exact .inl rfl
  · rename_i m _
    exact .inr ⟨m.key, .ca m.ca m.crl, rfl⟩

theorem performs_dh (r : Resolver checks) (store : CredentialStore) (ns reference : String) :
    store.Performs (r.dh store ns reference).2 := by
  unfold dh
  split
  · exact .inl rfl
  · rename_i k parameters _
    exact .inr ⟨k, .dh parameters, rfl⟩

/-- **Where a TLS answer comes from.** -/
theorem tls_ok {f : TlsFile} (h : (r.tls store ns reference).1 = .ok f) :
    ∃ m, r.tlsMaterial ns reference = .ok m ∧
      f = ⟨⟨tlsPath store.directory m.key, fingerprint store.hash [m.certificate, m.keyText]⟩,
        m.identity⟩ ∧
      (r.tls store ns reference).2.Shows f.file.path (tlsContent m.certificate m.keyText) := by
  unfold tls at h ⊢
  cases hm : r.tlsMaterial ns reference with
  | error e =>
    rw [hm] at h
    cases h
  | ok m =>
    rw [hm] at h
    obtain ⟨path, hpath, rfl⟩ := map_eq_ok.1 h
    obtain ⟨rfl, hshows⟩ := shows_of_store hpath
    exact ⟨m, rfl, rfl, hshows⟩

/-- **Where a CA answer comes from.** -/
theorem ca_ok {f : CaFiles} (h : (r.ca store ns reference).1 = .ok f) :
    ∃ m, r.caMaterial ns reference = .ok m ∧
      f.ca = ⟨caPath store.directory m.key, fingerprint store.hash (m.ca :: m.crl.toList)⟩ ∧
      (f.crl = m.crl.map fun _ =>
        ⟨crlPath store.directory m.key, fingerprint store.hash (m.ca :: m.crl.toList)⟩) ∧
      (r.ca store ns reference).2.Shows f.ca.path m.ca ∧
      ∀ list ∈ m.crl,
        (r.ca store ns reference).2.Shows (crlPath store.directory m.key) list := by
  unfold ca at h ⊢
  cases hm : r.caMaterial ns reference with
  | error e =>
    rw [hm] at h
    cases h
  | ok m =>
    rw [hm] at h
    obtain ⟨paths, hpaths, rfl⟩ := map_eq_ok.1 h
    obtain ⟨rfl, hbundle, hlist⟩ := shows_of_storeCa hpaths
    exact ⟨m, rfl, rfl, by rw [Option.map_map]; rfl, hbundle, hlist⟩

/-- **Where an answer with parameters comes from.** -/
theorem dh_ok {f : CredentialFile} (h : (r.dh store ns reference).1 = .ok f) :
    ∃ m, r.entryMaterial ns reference Entry.dhParameters = .ok m ∧
      f = ⟨dhPath store.directory m.1, fingerprint store.hash [m.2]⟩ ∧
      (r.dh store ns reference).2.Shows f.path m.2 := by
  unfold dh at h ⊢
  cases hm : r.entryMaterial ns reference Entry.dhParameters with
  | error e =>
    rw [hm] at h
    cases h
  | ok m =>
    rw [hm] at h
    obtain ⟨path, hpath, rfl⟩ := map_eq_ok.1 h
    obtain ⟨rfl, hshows⟩ := shows_of_store hpath
    exact ⟨m, rfl, rfl, hshows⟩

end Resolver

/-! ## Equal fingerprints -/

/-- A secret whose entries fit into frames. -/
def Secret.IsShort (s : Secret) : Prop :=
  ∀ name content, s.value? name = some content → content.length < Nat.pow 2 64

/-- Two files hold the same bytes. -/
def SameBytes (s : CredentialStore) (path : String) (s' : CredentialStore) (path' : String) :
    Prop :=
  ∃ content, s.Holds path content ∧ s'.Holds path' content

namespace Resolver

variable {checks checks' : TlsChecks}

/-- Two references lead to secrets with the same entries of some names. -/
def SameEntries (names : List String) (r : Resolver checks) (ns reference : String)
    (r' : Resolver checks') (ns' reference' : String) : Prop :=
  ∃ s s', r.LeadsTo ns reference s ∧ r'.LeadsTo ns' reference' s' ∧
    ∀ name ∈ names, s.value? name = s'.value? name

/-! What the fingerprint of an answer is made of, and what the files hold when it is given. -/

section

variable {r : Resolver checks} {store : CredentialStore} {ns reference : String}
  (hhash : Function.Injective store.hash) (hshort : ∀ s ∈ r.secrets.objects, s.IsShort)
include hhash hshort

theorem tls_parts {f : TlsFile} (hf : (r.tls store ns reference).1 = .ok f) :
    ∃ s certificate keyText, r.LeadsTo ns reference s ∧
      s.value? Entry.tlsCertificate = some certificate ∧ s.value? Entry.tlsKey = some keyText ∧
      AllShort [certificate, keyText] ∧
      f.file.fingerprint = fingerprint store.hash [certificate, keyText] ∧
      (r.tls store ns reference).2.Holds f.file.path (tlsContent certificate keyText) := by
  obtain ⟨m, hm, rfl, hshows⟩ := tls_ok hf
  obtain ⟨s, hs, hcertificate, hkeyText⟩ := leadsTo_of_tlsMaterial hm
  have hparts : AllShort [m.certificate, m.keyText] :=
    List.forall_mem_cons.2 ⟨hshort s hs.mem _ _ hcertificate,
      List.forall_mem_singleton.2 (hshort s hs.mem _ _ hkeyText)⟩
  have hafter := (r.performs_tls store ns reference).injective hhash
  exact ⟨s, m.certificate, m.keyText, hs, hcertificate, hkeyText, hparts, rfl, hshows.holds hafter⟩

/-- The list is a part of its own, if there is one. -/
theorem ca_parts {f : CaFiles} (hf : (r.ca store ns reference).1 = .ok f) :
    ∃ s ca, r.LeadsTo ns reference s ∧ s.value? Entry.caCertificate = some ca ∧
      AllShort (ca :: (s.value? Entry.caRevocation).toList) ∧
      f.ca.fingerprint = fingerprint store.hash (ca :: (s.value? Entry.caRevocation).toList) ∧
      (r.ca store ns reference).2.Holds f.ca.path ca ∧
      ((s.value? Entry.caRevocation = none ∧ f.crl = none) ∨
        ∃ content list, s.value? Entry.caRevocation = some content ∧ f.crl = some list ∧
          (r.ca store ns reference).2.Holds list.path content) := by
  obtain ⟨m, hm, hca, hcrl, hshows, hlist⟩ := ca_ok hf
  obtain ⟨s, hs, hbundle, hrevocation⟩ := leadsTo_of_caMaterial hm
  have hparts : AllShort (m.ca :: m.crl.toList) :=
    List.forall_mem_cons.2 ⟨hshort s hs.mem _ _ hbundle, fun list hl =>
      hshort s hs.mem _ _ (hrevocation.trans (Option.mem_toList.1 hl))⟩
  have hafter := (r.performs_ca store ns reference).injective hhash
  rw [← hrevocation] at hca hcrl hlist hparts
  have hprint := congrArg CredentialFile.fingerprint hca
  refine ⟨s, m.ca, hs, hbundle, hparts, hprint, hshows.holds hafter, ?_⟩
  cases hc : s.value? Entry.caRevocation with
  | none =>
    rw [hc] at hcrl
    exact .inl ⟨rfl, hcrl⟩
  | some content =>
    rw [hc] at hcrl
    exact .inr ⟨content, _, rfl, hcrl, (hlist content hc).holds hafter⟩

theorem dh_parts {f : CredentialFile} (hf : (r.dh store ns reference).1 = .ok f) :
    ∃ s parameters, r.LeadsTo ns reference s ∧
      s.value? Entry.dhParameters = some parameters ∧ AllShort [parameters] ∧
      f.fingerprint = fingerprint store.hash [parameters] ∧
      (r.dh store ns reference).2.Holds f.path parameters := by
  obtain ⟨m, hm, rfl, hshows⟩ := dh_ok hf
  obtain ⟨s, hs, hentry⟩ := leadsTo_of_entryMaterial hm
  have hparts : AllShort [m.2] := List.forall_mem_singleton.2 (hshort s hs.mem _ _ hentry)
  have hafter := (r.performs_dh store ns reference).injective hhash
  exact ⟨s, m.2, hs, hentry, hparts, rfl, hshows.holds hafter⟩

end

/-! Two answers with one fingerprint. -/

section

variable {r : Resolver checks} {r' : Resolver checks'} {store store' : CredentialStore}
  {ns reference ns' reference' : String}
  (hhash : Function.Injective store.hash) (hsame : store'.hash = store.hash)
  (hshort : ∀ s ∈ r.secrets.objects, s.IsShort) (hshort' : ∀ s ∈ r'.secrets.objects, s.IsShort)
include hhash hsame hshort hshort'

theorem same_of_tls {f f' : TlsFile} (hf : (r.tls store ns reference).1 = .ok f)
    (hf' : (r'.tls store' ns' reference').1 = .ok f')
    (hprint : f.file.fingerprint = f'.file.fingerprint) :
    SameEntries [Entry.tlsCertificate, Entry.tlsKey] r ns reference r' ns' reference' ∧
      SameBytes (r.tls store ns reference).2 f.file.path
        (r'.tls store' ns' reference').2 f'.file.path := by
  have hhash' : Function.Injective store'.hash := hsame ▸ hhash
  obtain ⟨s, c, k, hs, hc, hk, hparts, hfrom, hholds⟩ := tls_parts hhash hshort hf
  obtain ⟨s', c', k', hs', hc', hk', hparts', hfrom', hholds'⟩ := tls_parts hhash' hshort' hf'
  rw [hfrom, hfrom', hsame] at hprint
  obtain ⟨rfl, hrest⟩ := List.cons_eq_cons.1 (fingerprint_inj hhash hparts hparts' hprint)
  obtain rfl : k = k' := List.singleton_inj.1 hrest
  refine ⟨⟨s, s', hs, hs', ?_⟩, tlsContent c k, hholds, hholds'⟩
  rw [List.forall_mem_cons, List.forall_mem_singleton]
  exact ⟨hc.trans hc'.symm, hk.trans hk'.symm⟩

theorem same_of_ca {f f' : CaFiles} (hf : (r.ca store ns reference).1 = .ok f)
    (hf' : (r'.ca store' ns' reference').1 = .ok f')
    (hprint : f.ca.fingerprint = f'.ca.fingerprint) :
    SameEntries [Entry.caCertificate, Entry.caRevocation] r ns reference r' ns' reference' ∧
      SameBytes (r.ca store ns reference).2 f.ca.path (r'.ca store' ns' reference').2 f'.ca.path ∧
      ((f.crl = none ∧ f'.crl = none) ∨ ∃ list list', f.crl = some list ∧ f'.crl = some list' ∧
        SameBytes (r.ca store ns reference).2 list.path
          (r'.ca store' ns' reference').2 list'.path) := by
  have hhash' : Function.Injective store'.hash := hsame ▸ hhash
  obtain ⟨s, ca, hs, hbundle, hparts, hfrom, hholds, hlist⟩ := ca_parts hhash hshort hf
  obtain ⟨s', ca', hs', hbundle', hparts', hfrom', hholds', hlist'⟩ := ca_parts hhash' hshort' hf'
  rw [hfrom, hfrom', hsame] at hprint
  obtain ⟨rfl, hrest⟩ := List.cons_eq_cons.1 (fingerprint_inj hhash hparts hparts' hprint)
  -- the list is the second part, if there is a second part
  have hrevocation : s.value? Entry.caRevocation = s'.value? Entry.caRevocation := by
    rw [← Option.head?_toList (o := s.value? _), hrest, Option.head?_toList]
  refine ⟨⟨s, s', hs, hs', ?_⟩, ⟨ca, hholds, hholds'⟩, ?_⟩
  · rw [List.forall_mem_cons, List.forall_mem_singleton]
    exact ⟨hbundle.trans hbundle'.symm, hrevocation⟩
  · rw [← hrevocation] at hlist'
    rcases hlist with ⟨hnone, hf⟩ | ⟨content, list, hsome, hf, hlist⟩
    · rcases hlist' with ⟨-, hf'⟩ | ⟨_, _, hsome, -⟩
      · exact .inl ⟨hf, hf'⟩
      · rw [hnone] at hsome
        cases hsome
    · rcases hlist' with ⟨hnone, -⟩ | ⟨content', list', hsome', hf', hlist'⟩
      · rw [hsome] at hnone
        cases hnone
      · obtain rfl := Option.some.inj (hsome.symm.trans hsome')
        exact .inr ⟨list, list', hf, hf', content, hlist, hlist'⟩

theorem same_of_dh {f f' : CredentialFile} (hf : (r.dh store ns reference).1 = .ok f)
    (hf' : (r'.dh store' ns' reference').1 = .ok f') (hprint : f.fingerprint = f'.fingerprint) :
    SameEntries [Entry.dhParameters] r ns reference r' ns' reference' ∧
      SameBytes (r.dh store ns reference).2 f.path (r'.dh store' ns' reference').2 f'.path := by
  have hhash' : Function.Injective store'.hash := hsame ▸ hhash
  obtain ⟨s, p, hs, hp, hparts, hfrom, hholds⟩ := dh_parts hhash hshort hf
  obtain ⟨s', p', hs', hp', hparts', hfrom', hholds'⟩ := dh_parts hhash' hshort' hf'
  rw [hfrom, hfrom', hsame] at hprint
  obtain rfl : p = p' := List.singleton_inj.1 (fingerprint_inj hhash hparts hparts' hprint)
  refine ⟨⟨s, s', hs, hs', ?_⟩, p, hholds, hholds'⟩
  rw [List.forall_mem_singleton]
  exact hp.trans hp'.symm

end

end Resolver

/-- **A fingerprint identifies the material**, if the hash function has no collisions. Lists of
parts have one fingerprint exactly if they are the same list. So let two references be answered, by
any resolvers, at any time and on any disks. Where the fingerprints of the answers are equal, the
secrets have the same entries, a revocation list included or missing, and the files hold the same
bytes. -/
theorem fingerprint_identifies {hash : Bytes → Bytes} (hhash : Function.Injective hash) :
    (∀ parts parts' : List Bytes, AllShort parts → AllShort parts' →
      (fingerprint hash parts = fingerprint hash parts' ↔ parts = parts')) ∧
    ∀ (checks checks' : TlsChecks) (r : Resolver checks) (r' : Resolver checks')
      (store store' : CredentialStore) (ns reference ns' reference' : String),
      store.hash = hash → store'.hash = hash → (∀ s ∈ r.secrets.objects, s.IsShort) →
      (∀ s ∈ r'.secrets.objects, s.IsShort) →
      (∀ f f', (r.tls store ns reference).1 = .ok f → (r'.tls store' ns' reference').1 = .ok f' →
        f.file.fingerprint = f'.file.fingerprint →
          Resolver.SameEntries [Entry.tlsCertificate, Entry.tlsKey] r ns reference
            r' ns' reference' ∧
          SameBytes (r.tls store ns reference).2 f.file.path
            (r'.tls store' ns' reference').2 f'.file.path) ∧
      (∀ f f', (r.ca store ns reference).1 = .ok f → (r'.ca store' ns' reference').1 = .ok f' →
        f.ca.fingerprint = f'.ca.fingerprint →
          Resolver.SameEntries [Entry.caCertificate, Entry.caRevocation] r ns reference
            r' ns' reference' ∧
          SameBytes (r.ca store ns reference).2 f.ca.path
            (r'.ca store' ns' reference').2 f'.ca.path ∧
          ((f.crl = none ∧ f'.crl = none) ∨
            ∃ list list', f.crl = some list ∧ f'.crl = some list' ∧
              SameBytes (r.ca store ns reference).2 list.path
                (r'.ca store' ns' reference').2 list'.path)) ∧
      ∀ f f', (r.dh store ns reference).1 = .ok f → (r'.dh store' ns' reference').1 = .ok f' →
        f.fingerprint = f'.fingerprint →
          Resolver.SameEntries [Entry.dhParameters] r ns reference r' ns' reference' ∧
          SameBytes (r.dh store ns reference).2 f.path (r'.dh store' ns' reference').2 f'.path := by
  refine ⟨fun parts parts' hparts hparts' => ⟨fingerprint_inj hhash hparts hparts', ?_⟩, ?_⟩
  · rintro rfl
    rfl
  intro checks checks' r r' store store' ns reference ns' reference' hstore hstore' hshort hshort'
  subst hstore
  exact ⟨fun f f' => Resolver.same_of_tls hhash hstore' hshort hshort',
    fun f f' => Resolver.same_of_ca hhash hstore' hshort hshort',
    fun f f' => Resolver.same_of_dh hhash hstore' hshort hshort'⟩

/-! ## One bundle in two namespaces -/

/-- A secret with a bundle and a revocation list. -/
def rootSecret (ns : String) : Secret where
  metadata := { ns := some ns, name := some "root" }
  data := some (Dict.ofList
    [(Entry.caCertificate, Controller.leastCertificate), (Entry.caRevocation, [108])])

theorem isShort_rootSecret (ns : String) : (rootSecret ns).IsShort := by
  intro name content hvalue
  have hbundle : Controller.leastCertificate.length < Nat.pow 2 64 := by decide +kernel
  simp only [Secret.value?, rootSecret, Option.bind_some, Dict.ofList, List.foldl_cons,
    List.foldl_nil, Dict.get?_insert] at hvalue
  split at hvalue
  · obtain rfl := Option.some.inj hvalue
    decide
  · split at hvalue
    · obtain rfl := Option.some.inj hvalue
      exact hbundle
    · cases hvalue

/-- A resolver that knows this secret only. -/
def rootResolver (ns : String) : Resolver where
  allowForeign := false
  secrets := Mirror.empty.put (rootSecret ns)

/-- What it answers with has the fingerprint of both entries. -/
theorem ca_rootResolver {ns : String} {f : CaFiles}
    (h : ((rootResolver ns).ca plainStore ns "root").1 = .ok f) :
    f.ca.fingerprint = fingerprint plainStore.hash [Controller.leastCertificate, [108]] ∧
      f.crl ≠ none := by
  obtain ⟨m, hm, hca, hcrl, -⟩ := Resolver.ca_ok h
  obtain ⟨s, hs, hbundle, hrevocation⟩ := Resolver.leadsTo_of_caMaterial hm
  obtain rfl : s = rootSecret ns := List.mem_singleton.1 hs.mem
  have hbundle' : (rootSecret ns).value? Entry.caCertificate = some Controller.leastCertificate :=
    rfl
  have hrevocation' : (rootSecret ns).value? Entry.caRevocation = some [108] := rfl
  have hm' : m.ca = Controller.leastCertificate := Option.some.inj (hbundle.symm.trans hbundle')
  rw [hca, hcrl, hm', ← hrevocation, hrevocation']
  exact ⟨rfl, Option.some_ne_none _⟩

/-- Both namespaces have an answer. -/
theorem isOk_rootResolver : ∀ ns ∈ ["web", "mail"],
    ((rootResolver ns).ca plainStore ns "root").1.isOk := by
  decide +kernel

/-- The lists of both namespaces are the same. -/
theorem fingerprint_identifies_root :
    Function.Injective plainStore.hash ∧
      (∀ ns, ∀ s ∈ (rootResolver ns).secrets.objects, s.IsShort) ∧
      ∃ f f', ((rootResolver "web").ca plainStore "web" "root").1 = .ok f ∧
        ((rootResolver "mail").ca plainStore "mail" "root").1 = .ok f' ∧
        f.ca.fingerprint = f'.ca.fingerprint ∧
        ∃ list list', f.crl = some list ∧ f'.crl = some list' ∧
          SameBytes ((rootResolver "web").ca plainStore "web" "root").2 list.path
            ((rootResolver "mail").ca plainStore "mail" "root").2 list'.path := by
  have hhash : Function.Injective plainStore.hash := Function.injective_id
  have hshort : ∀ ns, ∀ s ∈ (rootResolver ns).secrets.objects, s.IsShort := fun ns =>
    List.forall_mem_singleton.2 (isShort_rootSecret ns)
  obtain ⟨f, hf⟩ := exists_ok_of_isOk (isOk_rootResolver "web" (by simp))
  obtain ⟨f', hf'⟩ := exists_ok_of_isOk (isOk_rootResolver "mail" (by simp))
  have hprint : f.ca.fingerprint = f'.ca.fingerprint :=
    (ca_rootResolver hf).1.trans (ca_rootResolver hf').1.symm
  obtain ⟨-, hcalls⟩ := fingerprint_identifies hhash
  obtain ⟨-, hca, -⟩ := hcalls pemChecks pemChecks (rootResolver "web") (rootResolver "mail")
    plainStore plainStore "web" "root" "mail" "root" rfl rfl (hshort "web") (hshort "mail")
  obtain ⟨-, -, ⟨hnone, -⟩ | hlists⟩ := hca f f' hf hf' hprint
  · exact absurd hnone (ca_rootResolver hf).2
  · exact ⟨hhash, hshort, f, f', hf, hf', hprint, hlists⟩

end IngressWatch
