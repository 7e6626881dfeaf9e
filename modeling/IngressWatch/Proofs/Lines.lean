import IngressWatch.Proofs.Answers
import IngressWatch.Proofs.Draining

/-!
# The lines of a report, object by object

A report resolves references one after the other and its files change on the way. Its lines do not
depend on that, as long as the files can be written.

* `Resolver.tlsAnswer`: what a reference is answered with, from the mirror and the directory alone.
  `Resolver.tls_eq_tlsAnswer` says that it is the answer whenever the file system does not fail.
* `Report.Item`: what a report has lines about. `Report.Item.lines` are its lines, and
  `Report.Item.IsDue` says when there are any.
* `Report.lines_eq`: lines that are made one after the other, each as if alone.
* `Report.run_lines`: **a report is the lines of its items in order**, and each item has the lines
  that it has when it is reported alone.
-/

namespace IngressWatch

open CredentialStore

namespace Resolver

variable {checks : TlsChecks} {r : Resolver checks} {store store' : CredentialStore}
  {ns reference : String}

/-- What a reference is answered with, if its file can be written. -/
def tlsAnswer (r : Resolver checks) (store : CredentialStore) (ns reference : String) :
    Except Error TlsFile :=
  (r.tlsMaterial ns reference).map fun m =>
    ⟨⟨tlsPath store.directory m.key, fingerprint store.hash [m.certificate, m.keyText]⟩, m.identity⟩

/-- The files that are there do not matter. -/
theorem tlsAnswer_eq (h : store.Akin store') (ns reference : String) :
    r.tlsAnswer store' ns reference = r.tlsAnswer store ns reference := by
  rw [tlsAnswer, tlsAnswer, h.directory, h.hash]

theorem tls_eq_tlsAnswer (hok : (r.tls store ns reference).1 ≠ .error .fileSystem) :
    (r.tls store ns reference).1 = r.tlsAnswer store ns reference := by
  unfold tls tlsAnswer at *
  cases hm : r.tlsMaterial ns reference with
  | error e => rfl
  | ok m =>
    rw [hm] at hok
    have hstored := (store.store_cases m.key (tlsPath store.directory m.key)
      (tlsContent m.certificate m.keyText)).2
    show (store.storeTls m.key m.certificate m.keyText).1.map _ = _
    rcases hstored with ⟨e, he⟩ | ⟨hpath, -⟩
    · obtain rfl := error_of_store he
      refine absurd ?_ hok
      show (store.storeTls m.key m.certificate m.keyText).1.map _ = _
      rw [storeTls, he]
      rfl
    · rw [storeTls, hpath]
      rfl

theorem allWritten_append {before after : List (String × String)} :
    r.AllWritten store (before ++ after) ↔
      r.AllWritten store before ∧ r.AllWritten (r.tlsAll store before) after := by
  induction before generalizing store with
  | nil => exact (and_iff_right trivial).symm
  | cons q before ih =>
    show _ ∧ r.AllWritten _ (before ++ after) ↔ (_ ∧ r.AllWritten _ before) ∧ _
    rw [ih, and_assoc]
    rfl

theorem akin_tlsAll (r : Resolver checks) (store : CredentialStore)
    (requests : List (String × String)) :
    store.Akin (r.tlsAll store requests) := by
  induction requests generalizing store with
  | nil => exact .refl store
  | cons q requests ih => exact (r.performs_tls store q.1 q.2).akin.trans (ih _)

/-- The mirror has usable TLS material for a reference. -/
def Resolves (r : Resolver checks) (ns reference : String) : Prop :=
  ∃ m, r.tlsMaterial ns reference = .ok m

/-- An answer is given exactly for references that resolve. -/
theorem resolves_iff_tlsAnswer (r : Resolver checks) (store : CredentialStore)
    (ns reference : String) :
    r.Resolves ns reference ↔ ∃ tls, r.tlsAnswer store ns reference = .ok tls := by
  constructor
  · rintro ⟨m, hm⟩
    rw [tlsAnswer, hm]
    exact ⟨_, rfl⟩
  · rintro ⟨tls, htls⟩
    obtain ⟨m, hm, -⟩ := map_eq_ok.1 htls
    exact ⟨m, hm⟩

end Resolver

namespace Report

open Resource

variable {checks : TlsChecks} {r : Resolver checks} {store alone : CredentialStore}

/-! ## Single lines -/

/-- The line of a certificate of an ingress, from the answer to its reference. -/
def tlsText (i : Ingress) (answer : Except Error TlsFile) : LogLine :=
  let owner := space i ++ "/" ++ title i
  match answer with
  | .ok tls => (.info, s!"🔐 {owner} uses {tls.file.path} "
      ++ s!"(CN={tls.identity.commonName}, expires {tls.identity.notAfter.text})")
  | .error e => (.warn, s!"{owner}: {e.summary}")

/-- The line of a secret that can not be used. -/
def secretText (s : Secret) : Except Error TlsFile → Option LogLine
  | .ok _ => none
  | .error e =>
    some (.warn, s!"Secret {(key s).display} holds unusable TLS material: {e.summary}")

/-- What a report has lines about. -/
inductive Item where
  | globalConfig (view : ConfigView)
  | tcpConfig (view : ConfigView)
  | ingress (i : Ingress)
  | secret (s : Secret)
  | service (s : Service)

namespace Item

/-- The lines of an item. Of the store they take only how it names files and tells contents
apart. -/
def lines (r : Resolver checks) (pods : Mirror Pod) (store : CredentialStore) : Item → List LogLine
  | globalConfig view => (configLine "Global" view).toList
  | tcpConfig view => (configLine "TCP services" view).toList
  | ingress i => i.tlsSecrets.map fun reference => tlsText i (r.tlsAnswer store (space i) reference)
  | secret s =>
    if (s.value? Entry.tlsCertificate).isNone then []
    else (secretText s (r.tlsAnswer store "" (key s).display)).toList
  | service s => (serviceLine pods s).toList

/-- A snapshot in which nothing but this item has changed. -/
def snapshot : Item → Snapshot :=
  let quiet : Snapshot := ⟨{}, {}, {}, [], [], {}, {}, false⟩
  fun
  | globalConfig view => { quiet with globalConfig := view }
  | tcpConfig view => { quiet with tcpConfig := view }
  | ingress i => { quiet with ingresses.updated := [i] }
  | secret s => { quiet with secrets.updated := [s] }
  | service s => { quiet with services.updated := [s] }

end Item

/-- There is one line exactly if it is due. -/
def OneIf (due : Prop) (l : List LogLine) : Prop := (due ∧ ∃ line, l = [line]) ∨ (¬ due ∧ l = [])

/-- Some pod that a service selects is going away. -/
def Drains (pods : Mirror Pod) (s : Service) : Prop :=
  ∃ selector, Selector.ofTerms s.selectorTerms = .ok selector ∧ selector.isEmpty = false ∧
    ∃ pod ∈ pods.inNamespace (space s),
      selector.accepts pod.metadata.labels = true ∧ pod.isTerminating = true

/-- The selector of a service is malformed. -/
def Misselects (s : Service) : Prop := ∃ cause, Selector.ofTerms s.selectorTerms = .error cause

/-- **When lines are due**: one for a config map that has changed, one for each reference of an
ingress, a warning for a secret whose certificate can not be used, and one for a service with
draining pods or a malformed selector. -/
def Item.IsDue (r : Resolver checks) (pods : Mirror Pod) : Item → List LogLine → Prop
  | .globalConfig view, l => OneIf (view.changed = true) l
  | .tcpConfig view, l => OneIf (view.changed = true) l
  | .ingress i, l => List.Forall₂ (fun reference line =>
      line.1 = .info ∧ r.Resolves (space i) reference ∨
        line.1 = .warn ∧ ¬ r.Resolves (space i) reference) i.tlsSecrets l
  | .secret s, l => OneIf ((s.value? Entry.tlsCertificate).isSome = true ∧
      ¬ r.Resolves "" (key s).display) l ∧ ∀ line ∈ l, line.1 = .warn
  | .service s, l => OneIf (Drains pods s ∨ Misselects s) l

/-- **The items of a report**, in order. -/
def items (snapshot : Snapshot) (mirrors : Mirrors) : List Item :=
  [.globalConfig snapshot.globalConfig, .tcpConfig snapshot.tcpConfig] ++
    (ingresses snapshot mirrors).map .ingress ++ snapshot.secrets.present.map .secret ++
    snapshot.services.present.map .service

/-! ## When lines are due -/

theorem oneIf_toList {due : Prop} {line : Option LogLine} (h : line.isSome ↔ due) :
    OneIf due line.toList := by
  cases line with
  | none => exact .inr ⟨fun hdue => (by simpa using h.2 hdue), rfl⟩
  | some line => exact .inl ⟨h.1 rfl, line, rfl⟩

/-- A config map that has changed has content. -/
theorem isSome_configLine (title : String) (view : ConfigView) :
    (configLine title view).isSome ↔ view.changed = true := by
  unfold configLine
  split
  · rename_i hchanged
    obtain ⟨data, hpending⟩ := Option.isSome_iff_exists.1 hchanged
    rw [ConfigView.effective, hpending]
    exact iff_of_true rfl hchanged
  · rename_i hchanged
    exact iff_of_false nofun hchanged

theorem misselects_iff (pods : Mirror Pod) (s : Service) :
    Misselects s ↔ ∃ cause, terminatingPods pods s = .error cause :=
  exists_congr fun _ => terminatingPods_eq_error_iff.symm

theorem drains_iff (pods : Mirror Pod) (s : Service) :
    Drains pods s ↔ ∃ pod rest, terminatingPods pods s = .ok (pod :: rest) := by
  unfold Drains terminatingPods
  constructor
  · rintro ⟨selector, hselector, hsome, pod, hpod, haccepts, hterminating⟩
    have hmem : pod ∈ (pods.inNamespace (space s)).filter fun pod =>
        selector.accepts pod.metadata.labels && pod.isTerminating :=
      List.mem_filter.2 ⟨hpod, Bool.and_eq_true_iff.2 ⟨haccepts, hterminating⟩⟩
    obtain ⟨first, rest, hdraining⟩ := List.exists_cons_of_ne_nil (List.ne_nil_of_mem hmem)
    refine ⟨first, rest, ?_⟩
    rw [hselector]
    dsimp only
    rw [if_neg (by rw [hsome]; exact Bool.false_ne_true), hdraining]
  · rintro ⟨pod, rest, h⟩
    split at h
    · cases h
    · rename_i selector hselector
      split at h
      · cases h
      · rename_i hsome
        have hmem : pod ∈ pod :: rest := List.mem_cons_self
        rw [← Except.ok.inj h] at hmem
        obtain ⟨hpod, haccepted⟩ := List.mem_filter.1 hmem
        obtain ⟨haccepts, hterminating⟩ := Bool.and_eq_true_iff.1 haccepted
        exact ⟨selector, hselector, Bool.eq_false_iff.2 hsome, pod, hpod, haccepts, hterminating⟩

theorem isSome_serviceLine (pods : Mirror Pod) (s : Service) :
    (serviceLine pods s).isSome ↔ Drains pods s ∨ Misselects s := by
  rw [drains_iff pods s, misselects_iff pods s]
  unfold serviceLine
  cases h : terminatingPods pods s with
  | error cause => exact iff_of_true rfl (.inr ⟨cause, rfl⟩)
  | ok draining =>
    cases draining with
    | nil =>
      refine iff_of_false nofun ?_
      rintro (⟨pod, rest, hsome⟩ | ⟨cause, hcause⟩)
      · cases hsome
      · cases hcause
    | cons pod rest => exact iff_of_true rfl (.inl ⟨pod, rest, rfl⟩)

/-- **Each item has the lines that are due.** -/
theorem Item.isDue_lines (r : Resolver checks) (pods : Mirror Pod) (store : CredentialStore)
    (item : Item) : item.IsDue r pods (item.lines r pods store) := by
  cases item with
  | globalConfig view => exact oneIf_toList (isSome_configLine _ view)
  | tcpConfig view => exact oneIf_toList (isSome_configLine _ view)
  | service s => exact oneIf_toList (isSome_serviceLine pods s)
  | ingress i =>
    show List.Forall₂ _ i.tlsSecrets (i.tlsSecrets.map _)
    refine List.forall₂_map_right_iff.2 (List.forall₂_same.2 fun reference _ => ?_)
    rw [r.resolves_iff_tlsAnswer store]
    cases r.tlsAnswer store (space i) reference with
    | ok tls => exact .inl ⟨rfl, tls, rfl⟩
    | error e => exact .inr ⟨rfl, fun ⟨tls, htls⟩ => by cases htls⟩
  | secret s =>
    dsimp only [IsDue, lines]
    rw [r.resolves_iff_tlsAnswer store]
    split
    · rename_i hnone
      refine ⟨.inr ⟨fun ⟨hsome, _⟩ => ?_, rfl⟩, nofun⟩
      rw [Option.isNone_iff_eq_none.1 hnone] at hsome
      cases hsome
    · rename_i hsome
      have hcertificate : (s.value? Entry.tlsCertificate).isSome = true := by
        simpa [Option.isSome_iff_ne_none] using hsome
      cases r.tlsAnswer store "" (key s).display with
      | ok tls => exact ⟨.inr ⟨fun ⟨_, hnot⟩ => hnot ⟨tls, rfl⟩, rfl⟩, nofun⟩
      | error e =>
        refine ⟨.inl ⟨⟨hcertificate, fun ⟨tls, htls⟩ => by cases htls⟩, _, rfl⟩, ?_⟩
        intro line hline
        rw [List.mem_singleton.1 hline]

/-! ## Lines in order -/

section

variable {α : Type} {line : CredentialStore → α → List LogLine × CredentialStore}
  {asked : α → List (String × String)} {text : α → List LogLine}

/-- **Lines that are made one after the other**, each as if alone. The induction is on the items;
what each of them finds on the disk is the work of those before it. -/
theorem lines_eq (hasked : ∀ store a, (line store a).2 = r.tlsAll store (asked a))
    (htext : ∀ store', store.Akin store' → ∀ a, r.AllWritten store' (asked a) →
      (line store' a).1 = text a)
    {l : List α} {store' : CredentialStore} (hakin : store.Akin store')
    (hok : r.AllWritten store' (l.flatMap asked)) :
    (Report.lines line store' l).1 = l.flatMap text := by
  induction l generalizing store' with
  | nil => rfl
  | cons a rest ih =>
    rw [List.flatMap_cons, Resolver.allWritten_append] at hok
    have hnext : store.Akin (line store' a).2 := by
      rw [hasked]
      exact hakin.trans (r.akin_tlsAll store' (asked a))
    show (line store' a).1 ++ (Report.lines line (line store' a).2 rest).1 = _
    rw [htext store' hakin a hok.1, List.flatMap_cons, ih hnext (by rw [hasked]; exact hok.2)]

end

/-- How a report goes through references. -/
def referenceLines (r : Resolver checks) (store : CredentialStore) (p : Ingress × String) :
    List LogLine × CredentialStore :=
  ([(tlsLine r store p.1 p.2).1], (tlsLine r store p.1 p.2).2)

/-- How a report goes through secrets. -/
def secretLines (r : Resolver checks) (store : CredentialStore) (s : Secret) :
    List LogLine × CredentialStore :=
  ((secretLine r store s).1.toList, (secretLine r store s).2)

theorem referenceLines_store (r : Resolver checks) (store : CredentialStore)
    (p : Ingress × String) :
    (referenceLines r store p).2 = r.tlsAll store [(space p.1, p.2)] := rfl

theorem secretLines_store (r : Resolver checks) (store : CredentialStore) (s : Secret) :
    (secretLines r store s).2 = r.tlsAll store (secretRequest s) := by
  unfold secretLines secretLine secretRequest
  split <;> rfl

/-- A line for an ingress says what its reference is answered with. -/
theorem referenceLines_eq {store' : CredentialStore} (hakin : store.Akin store')
    (p : Ingress × String) (hok : r.AllWritten store' [(space p.1, p.2)]) :
    (referenceLines r store' p).1 = [tlsText p.1 (r.tlsAnswer store (space p.1) p.2)] := by
  rw [← Resolver.tlsAnswer_eq hakin, ← Resolver.tls_eq_tlsAnswer hok.1]
  unfold referenceLines tlsLine
  dsimp only
  obtain ⟨e | tls, _⟩ := r.tls store' (space p.1) p.2 <;> rfl

theorem secretLines_eq {store' : CredentialStore} (hakin : store.Akin store') (pods : Mirror Pod)
    (s : Secret) (hok : r.AllWritten store' (secretRequest s)) :
    (secretLines r store' s).1 = (Item.secret s).lines r pods store := by
  dsimp only [secretLines, secretLine, Item.lines]
  unfold secretRequest at hok
  split
  · rfl
  · rename_i hsome
    rw [if_neg hsome] at hok
    rw [← Resolver.tlsAnswer_eq hakin, ← Resolver.tls_eq_tlsAnswer hok.1]
    obtain ⟨e | tls, _⟩ := r.tls store' "" (key s).display <;> rfl

/-- **A report is the lines of its items**, in order. -/
theorem run_eq_flatMap {snapshot : Snapshot} {allowForeign : Bool} {mirrors : Mirrors}
    (hok : (⟨allowForeign, mirrors.secrets⟩ : Resolver checks).AllWritten store
      (requests snapshot mirrors)) :
    (run snapshot allowForeign mirrors store checks).1 = (items snapshot mirrors).flatMap
      (Item.lines (⟨allowForeign, mirrors.secrets⟩ : Resolver checks) mirrors.pods store) := by
  let r : Resolver checks := ⟨allowForeign, mirrors.secrets⟩
  let reported := references (ingresses snapshot mirrors)
  let afterTls := (Report.lines (referenceLines r) store reported).2
  rw [requests, List.map_eq_flatMap, Resolver.allWritten_append] at hok
  have hafter : afterTls = r.tlsAll store (reported.flatMap fun p => [(space p.1, p.2)]) :=
    lines_store (referenceLines_store r) store reported
  have htls : (Report.lines (referenceLines r) store reported).1 =
      (ingresses snapshot mirrors).flatMap fun i =>
        (Item.ingress i).lines r mirrors.pods store := by
    rw [lines_eq (referenceLines_store r) (fun _ => referenceLines_eq) (.refl store) hok.1,
      references, List.flatMap_assoc]
    refine List.flatMap_congr fun i _ => ?_
    rw [List.flatMap_map, ← List.map_eq_flatMap]
    rfl
  have hsecrets : (Report.lines (secretLines r) afterTls snapshot.secrets.present).1 =
      snapshot.secrets.present.flatMap fun s => (Item.secret s).lines r mirrors.pods store := by
    rw [hafter]
    exact lines_eq (secretLines_store r) (fun _ hakin => secretLines_eq hakin mirrors.pods)
      (r.akin_tlsAll store _) hok.2
  have hrun : (run snapshot allowForeign mirrors store checks).1 =
      (configLine "Global" snapshot.globalConfig).toList ++
        (configLine "TCP services" snapshot.tcpConfig).toList ++
        (Report.lines (referenceLines r) store reported).1 ++
        (Report.lines (secretLines r) afterTls snapshot.secrets.present).1 ++
        snapshot.services.present.flatMap fun s => (serviceLine mirrors.pods s).toList := rfl
  -- what is left is how the lines of the kinds are put together
  rw [hrun, htls, hsecrets]
  simp only [items, List.flatMap_append, List.flatMap_map, List.flatMap_cons, List.flatMap_nil,
    List.append_nil]
  rfl

/-- Stores that answer alike have the same lines. -/
theorem Item.lines_akin (h : store.Akin alone) (pods : Mirror Pod) (item : Item) :
    item.lines r pods alone = item.lines r pods store := by
  cases item with
  | ingress i => simp only [lines, Resolver.tlsAnswer_eq h]
  | secret s => simp only [lines, Resolver.tlsAnswer_eq h]
  | globalConfig view | tcpConfig view | service s => rfl

/-- Nothing else has lines in the snapshot of one item. -/
theorem Item.flatMap_items (item : Item) (mirrors : Mirrors) :
    (items item.snapshot mirrors).flatMap (Item.lines r mirrors.pods store) =
      item.lines r mirrors.pods store := by
  have hquiet : ∀ title, (configLine title {}).toList = [] := fun _ => rfl
  cases item <;>
    simp [items, snapshot, ingresses, ChangeSet.present, lines, hquiet]

/-- **No object hides another in a report.** If all files can be written, a report is the lines of
its items in order: of the config maps, of the ingresses, of the secrets and of the services. The
lines of an item are those that are due, and they are the same when the item is reported alone, with
any store that answers alike and can write its files. This is so whatever is asked of certificates
and keys. -/
theorem run_lines (snapshot : Snapshot) (allowForeign : Bool) (mirrors : Mirrors)
    (store : CredentialStore) (checks : TlsChecks) :
    let r : Resolver checks := ⟨allowForeign, mirrors.secrets⟩
    r.AllWritten store (requests snapshot mirrors) →
      (run snapshot allowForeign mirrors store checks).1 =
          (items snapshot mirrors).flatMap (Item.lines r mirrors.pods store) ∧
        ∀ item ∈ items snapshot mirrors,
          item.IsDue r mirrors.pods (item.lines r mirrors.pods store) ∧
          ∀ alone, store.Akin alone → r.AllWritten alone (requests item.snapshot mirrors) →
            (run item.snapshot allowForeign mirrors alone checks).1 =
              item.lines r mirrors.pods store := by
  intro r hok
  refine ⟨run_eq_flatMap hok, fun item _ => ⟨item.isDue_lines r mirrors.pods store, ?_⟩⟩
  intro alone hakin halone
  rw [run_eq_flatMap halone, item.flatMap_items, item.lines_akin hakin]

/-! ## A site and a secret that is not there -/

/-- An ingress that refers to a secret that is not there and to the secret of the site. -/
def shopIngress : Ingress where
  metadata := { ns := some "web", name := some "shop" }
  spec := some { tls := some [{ secretName := some "gone" }, {}, { secretName := some "site" }] }

/-- A secret with a certificate that does not parse. -/
def tornSecret : Secret where
  metadata := { ns := some "web", name := some "torn" }
  data := some (Dict.ofList [(Entry.tlsCertificate, [])])

/-- The ingress is reported with the torn secret. -/
def shopSnapshot : Snapshot :=
  { (Item.ingress shopIngress).snapshot with secrets.added := [tornSecret] }

def shopMirrors : Mirrors where
  secrets := (Mirror.empty.put tornSecret).put (Controller.siteSecret 0)

/-- Both references of the ingress have a line, and the torn secret has one as it has alone. -/
theorem run_lines_shop :
    let r : Resolver := ⟨false, shopMirrors.secrets⟩
    let torn := (Item.secret tornSecret).lines r shopMirrors.pods plainStore
    r.AllWritten plainStore (requests shopSnapshot shopMirrors) ∧
      (run shopSnapshot false shopMirrors plainStore).1 =
        (items shopSnapshot shopMirrors).flatMap (Item.lines r shopMirrors.pods plainStore) ∧
      (Item.ingress shopIngress).IsDue r shopMirrors.pods
        ((Item.ingress shopIngress).lines r shopMirrors.pods plainStore) ∧
      (∃ line, torn = [line]) ∧
      (run (Item.secret tornSecret).snapshot false shopMirrors plainStore).1 = torn := by
  intro r torn
  have hok : r.AllWritten plainStore (requests shopSnapshot shopMirrors) := by decide +kernel
  have halone : r.AllWritten plainStore
      (requests (Item.secret tornSecret).snapshot shopMirrors) := by decide +kernel
  obtain ⟨hrun, hitems⟩ := run_lines shopSnapshot false shopMirrors plainStore pemChecks hok
  have hingress := hitems (.ingress shopIngress) (by simp [items, shopSnapshot, Item.snapshot,
    ingresses, ChangeSet.present])
  have htorn := hitems (.secret tornSecret) (by simp [items, shopSnapshot, Item.snapshot,
    ingresses, ChangeSet.present])
  have hunusable : ¬ r.Resolves "" (key tornSecret).display := by
    rintro ⟨m, hm⟩
    have hnone : (r.tlsMaterial "" (key tornSecret).display).isOk = false := by decide +kernel
    rw [hm] at hnone
    cases hnone
  refine ⟨hok, hrun, hingress.1, ?_, htorn.2 plainStore (.refl _) halone⟩
  obtain ⟨⟨-, hline⟩ | ⟨hnot, -⟩, -⟩ := htorn.1
  · exact hline
  · exact absurd ⟨rfl, hunusable⟩ hnot

end Report

end IngressWatch
