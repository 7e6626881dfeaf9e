import IngressWatch.Proofs.FailedWrites
import IngressWatch.Resolver

/-!
# A bundle and its revocation list are stored one after the other

A CA bundle and its revocation list are two files. Each of them is replaced as a whole, but the
second may fail when the first is in place.

* `Disk.content?`: what a file holds.
* `Path.components_append_ending`, `Disk.goal_append_ne`: paths that differ in the end of their last
  name only.
* `CredentialStore.place_crl_ne_place_ca`: for every key, the list stands beside the bundle.
* `CredentialStore.store_ok_cases`: what storing a file leaves when it succeeds: the old file, which
  had the fingerprint of the content already, or the content.
* `CredentialStore.failed_bundle`: **a failed update does what an update without the list does**:
  the list is the old one, and the bundle is the new one unless it is the one that failed.
* `CredentialStore.not_together`: so the two are not replaced together.
-/

namespace IngressWatch

/-! ## Contents -/

namespace Disk

variable {d d' : Disk} {l : Location} {content : Bytes}

/-- The content of the file at a location, if there is one. -/
def content? (d : Disk) (l : Location) : Option Bytes :=
  match d.node? l with
  | some (.file content _) => some content
  | _ => none

theorem content?_eq_some_iff :
    d.content? l = some content ↔ ∃ number, d.node? l = some (.file content number) := by
  unfold content?
  split
  · rename_i found number hnode
    rw [hnode]
    simp
  · rename_i hnone
    exact ⟨nofun, fun ⟨number, hnode⟩ => absurd hnode (hnone content number)⟩

theorem content?_of_nodeAt? {path : String} {number : Nat}
    (h : d.nodeAt? path = some (.file content number)) : d.content? (d.goal path) = some content :=
  content?_eq_some_iff.2 ⟨number, node?_goal h⟩

/-- A file that was left alone, and not made either, holds what it held. -/
theorem content?_eq_of_leaves (h : Leaves l d d') (hback : Leaves l d' d) :
    d'.content? l = d.content? l := by
  refine Option.ext fun content => ?_
  rw [content?_eq_some_iff, content?_eq_some_iff]
  exact ⟨fun ⟨number, hnode⟩ => ⟨number, hback _ _ hnode⟩,
    fun ⟨number, hnode⟩ => ⟨number, h _ _ hnode⟩⟩

theorem SameFiles.content?_eq (h : d.SameFiles d') (l : Location) : d'.content? l = d.content? l :=
  content?_eq_of_leaves (fun content number => (h.files l content number).2)
    fun content number => (h.files l content number).1

end Disk

/-! ## Names with different ends -/

namespace Path

/-- Text without a slash goes to the last piece. -/
theorem pieces_append_of_not_mem (s : List Char) {t : List Char} (ht : '/' ∉ t) :
    pieces (s ++ t) = (pieces s).dropLast ++ [(pieces s).getLast (pieces_ne_nil s) ++ t] := by
  induction s with
  | nil => exact pieces_of_not_mem ht
  | cons c s ih =>
    by_cases hc : c = '/'
    · subst hc
      obtain ⟨p, ps, hs⟩ := List.exists_cons_of_ne_nil (pieces_ne_nil s)
      simp only [List.cons_append, pieces_cons_slash, ih, hs, List.dropLast_cons_of_ne_nil
        (List.cons_ne_nil p ps), List.getLast_cons (List.cons_ne_nil p ps)]
    · obtain ⟨p, ps, hs⟩ := List.exists_cons_of_ne_nil (pieces_ne_nil s)
      cases ps with
      | nil =>
        simp only [hs, List.dropLast_singleton, List.getLast_singleton, List.nil_append] at ih
        simp only [List.cons_append, pieces_cons hc ih, pieces_cons hc hs, List.dropLast_singleton,
          List.getLast_singleton, List.nil_append]
      | cons q ps =>
        simp only [hs, List.dropLast_cons_of_ne_nil (List.cons_ne_nil q ps),
          List.getLast_cons (List.cons_ne_nil q ps), List.cons_append] at ih
        simp only [List.cons_append, pieces_cons hc ih, pieces_cons hc hs,
          List.dropLast_cons_of_ne_nil (List.cons_ne_nil q ps),
          List.getLast_cons (List.cons_ne_nil q ps)]

/-- The end of a file's name: it is part of one name, and that name is not a dot or two. -/
structure IsEnding (ending : String) : Prop where
  slash : '/' ∉ ending.toList
  letter : ∃ c ∈ ending.toList, c ≠ '.'

/-- A piece with an ending counts as a name. -/
theorem IsEnding.keeps {ending : String} (h : IsEnding ending) (p : List Char) :
    p ++ ending.toList ≠ [] ∧ p ++ ending.toList ≠ ['.'] ∧ p ++ ending.toList ≠ ['.', '.'] := by
  obtain ⟨c, hc, hdot⟩ := h.letter
  have hmem : c ∈ p ++ ending.toList := List.mem_append_right p hc
  refine ⟨fun hp => ?_, fun hp => ?_, fun hp => ?_⟩ <;> rw [hp] at hmem
  · cases hmem
  · exact hdot (List.mem_singleton.1 hmem)
  · exact hdot (by simpa using hmem)

/-- **Different endings of a text** are names in one directory. -/
theorem components_append_ending (base : String) : ∃ names last, ∀ ending, IsEnding ending →
    components (base ++ ending) = names ++ [last ++ ending] ∧ last ++ ending ≠ ".." := by
  set last := (pieces base.toList).getLast (pieces_ne_nil _) with hlast
  refine ⟨((pieces base.toList).dropLast.filter fun p => p ≠ [] ∧ p ≠ ['.']).map String.ofList,
    String.ofList last, fun ending h => ?_⟩
  obtain ⟨hempty, hdot, hdots⟩ := h.keeps last
  refine ⟨?_, fun hup => hdots ?_⟩
  · have hkept : [last ++ ending.toList].filter (fun p => p ≠ [] ∧ p ≠ ['.']) =
        [last ++ ending.toList] := List.filter_cons_of_pos (decide_eq_true ⟨hempty, hdot⟩)
    rw [components, String.toList_append, pieces_append_of_not_mem _ h.slash, ← hlast,
      List.filter_append, hkept, List.map_append, List.map_singleton, String.ofList_append,
      String.ofList_toList]
  · rw [← String.toList_ofList (l := last), ← String.toList_append, hup]
    rfl

theorem isAbsolute_append_ending (base : String) {ending : String} (h : IsEnding ending) :
    isAbsolute (base ++ ending) = isAbsolute base := by
  have hhead : ending.toList.head? ≠ some '/' := fun hc => h.slash (List.mem_of_head? hc)
  rw [isAbsolute, isAbsolute, String.toList_append]
  cases base.toList with
  | nil => simp [hhead]
  | cons c text => rfl

theorem join_append (base : String) {rest : String} (hrest : rest ≠ "") (ending : String) :
    join base (rest ++ ending) = join base rest ++ ending := by
  obtain ⟨c, text, htext⟩ := List.exists_cons_of_ne_nil
    (mt (fun hc => String.toList_injective hc) hrest : rest.toList ≠ [])
  have hhead : (rest ++ ending).toList.head? = rest.toList.head? := by
    rw [String.toList_append, htext]
    rfl
  unfold join
  rw [hhead]
  split
  · rfl
  · split <;> simp only [String.append_assoc]

end Path

/-- **Paths with different endings lead to different places**, on any disk. -/
theorem Disk.goal_append_ne (d : Disk) (base : String) {ending ending' : String}
    (h : Path.IsEnding ending) (h' : Path.IsEnding ending') (hne : ending ≠ ending') :
    d.goal (base ++ ending) ≠ d.goal (base ++ ending') := by
  obtain ⟨names, last, hnames⟩ := Path.components_append_ending base
  intro hgoal
  obtain ⟨hpath, hup⟩ := hnames ending h
  obtain ⟨hpath', hup'⟩ := hnames ending' h'
  rw [goal, goal, hpath, hpath', Path.isAbsolute_append_ending base h,
    Path.isAbsolute_append_ending base h', List.foldl_append, List.foldl_append, List.foldl_cons,
    List.foldl_cons, if_neg hup, if_neg hup'] at hgoal
  have hlast : last ++ ending = last ++ ending' :=
    List.singleton_inj.1 (List.append_cancel_left hgoal)
  exact hne ((String.append_right_inj _).1 hlast)

namespace CredentialStore

variable {s : CredentialStore} {key : Key} {path : String} {ca content : Bytes}
  {crl : Option Bytes} {e : Error}

/-- Where a file of a key stands once its directories exist. -/
def place (s : CredentialStore) (key : Key) (role : Role) : Location :=
  s.disk.goal (role.path s.directory key)

/-- **The revocation list never stands in the place of its own bundle**, whatever the key. -/
theorem place_crl_ne_place_ca (s : CredentialStore) (key : Key) :
    s.place key .crl ≠ s.place key .ca := by
  have hstem : key.fileStem ≠ "" := by
    intro hempty
    have hseparator : '_' ∈ key.fileStem.toList := by simp [Key.fileStem, String.toList_append]
    rw [hempty] at hseparator
    cases hseparator
  have hca : Path.IsEnding ".pem" := ⟨by decide, 'p', by decide, by decide⟩
  have hcrl : Path.IsEnding "-crl.pem" := ⟨by decide, 'p', by decide, by decide⟩
  show s.disk.goal (Path.join (Path.join s.directory "ca") (key.fileStem ++ "-crl.pem")) ≠
    s.disk.goal (Path.join (Path.join s.directory "ca") (key.fileStem ++ ".pem"))
  rw [Path.join_append _ hstem, Path.join_append _ hstem]
  exact s.disk.goal_append_ne _ hcrl hca (by decide)

/-! ## One file -/

/-- **A file that is stored** is the old one, if that has the fingerprint of the content, or holds
the content. -/
theorem write_ok_cases {new : Bool} (h : (s.write key path content).1 = .ok new) :
    (∃ old, s.disk.content? (s.disk.goal path) = some old ∧ s.sameContent old content = true ∧
        (s.write key path content).2.disk.content? (s.disk.goal path) = some old) ∨
      (s.write key path content).2.disk.content? (s.disk.goal path) = some content := by
  cases s.write_ends key path content with
  | kept old hread hsame _ hstore =>
    rw [hstore]
    obtain ⟨number, hnode⟩ := Disk.nodeAt?_of_read hread
    have hcontent := Disk.content?_of_nodeAt? hnode
    exact .inl ⟨old, hcontent, hsame, ((s.disk.sameFiles_read path).content?_eq _).trans hcontent⟩
  | blocked _ _ _ hanswer | refused _ _ _ _ _ hanswer =>
    rw [hanswer] at h
    cases h
  | replaced d d' _ hprepared hreplace _ hstore =>
    rw [hstore]
    have hkeeps := (quiet_prepared hprepared).toKeeps.trans (Disk.keeps_replace hreplace).1
    rw [← hkeeps.goal_eq]
    exact .inr (Disk.content?_of_nodeAt? (Disk.nodeAt?_replace hreplace))

theorem store_ok_cases {answer : String} (h : (s.store key path content).1 = .ok answer) :
    (∃ old, s.disk.content? (s.disk.goal path) = some old ∧ s.sameContent old content = true ∧
        (s.store key path content).2.disk.content? (s.disk.goal path) = some old) ∨
      (s.store key path content).2.disk.content? (s.disk.goal path) = some content := by
  rw [store_eq] at h ⊢
  obtain ⟨new, hwrite, -⟩ := map_eq_ok.1 h
  exact write_ok_cases hwrite

/-- No other file changes. -/
theorem content?_store_of_ne {l : Location} (hne : l ≠ s.disk.goal path) (key : Key)
    (content : Bytes) : (s.store key path content).2.disk.content? l = s.disk.content? l :=
  Disk.content?_eq_of_leaves
    ((s.store_cases key path content).1.leaves l (List.forall_mem_singleton.2 hne))
    (back_store hne key content)

/-! ## Two files -/

/-- To store a bundle without a list is to store one file. -/
theorem storeCa_none (s : CredentialStore) (key : Key) (ca : Bytes) :
    s.storeCa key ca none =
      ((s.store key (caPath s.directory key) ca).1.map fun path => (path, none),
        (s.store key (caPath s.directory key) ca).2) := by
  unfold storeCa
  rcases s.store key (caPath s.directory key) ca with ⟨e | path, s'⟩ <;> rfl

/-- **Where an update can fail**: at the bundle, and then at the list that follows it. -/
theorem storeCa_error_cases (h : (s.storeCa key ca crl).1 = .error e) :
    ((s.storeCa key ca none).1 = .error e ∧
        (s.storeCa key ca crl).2 = (s.storeCa key ca none).2) ∨
      ∃ list, crl = some list ∧ (s.storeCa key ca none).1.isOk ∧
        ((s.storeCa key ca none).2.store key (crlPath s.directory key) list).1 = .error e ∧
        (s.storeCa key ca crl).2 =
          ((s.storeCa key ca none).2.store key (crlPath s.directory key) list).2 := by
  have hdirectory := (s.store_cases key (caPath s.directory key) ca).1.directory
  rw [storeCa_none]
  unfold storeCa at h ⊢
  generalize s.store key (caPath s.directory key) ca = bundle at h hdirectory ⊢
  obtain ⟨e' | path, s'⟩ := bundle
  · exact .inl ⟨congrArg _ (Except.error.inj h), rfl⟩
  · cases crl with
    | none => cases h
    | some list =>
      dsimp only at h hdirectory ⊢
      rw [hdirectory] at h ⊢
      refine .inr ⟨list, rfl, rfl, ?_⟩
      generalize s'.store key (crlPath s.directory key) list = last at h ⊢
      obtain ⟨e' | path', s''⟩ := last
      · exact ⟨congrArg _ (Except.error.inj h), rfl⟩
      · cases h

/-- **What a failed update leaves**: the files and the index that an update without the list
leaves. So the list is the old one. The bundle is the old one too if it is what failed. If not,
there is a list, and the bundle is the new one, or an old one of the same fingerprint. -/
structure Interrupts (s : CredentialStore) (key : Key) (ca : Bytes) (crl : Option Bytes)
    (after : CredentialStore) : Prop where
  files : (s.storeCa key ca none).2.disk.SameFiles after.disk
  written : after.written = (s.storeCa key ca none).2.written
  others : ∀ l, l ≠ s.place key .ca → after.disk.content? l = s.disk.content? l
  list : after.disk.content? (s.place key .crl) = s.disk.content? (s.place key .crl)
  failed : (s.storeCa key ca none).1.isOk = false →
    s.disk.SameFiles after.disk ∧ after.written = s.written
  stored : (s.storeCa key ca none).1.isOk → crl.isSome ∧
    (after.disk.content? (s.place key .ca) = some ca ∨
      ∃ old, s.disk.content? (s.place key .ca) = some old ∧ s.sameContent old ca = true ∧
        after.disk.content? (s.place key .ca) = some old)

theorem interrupts_storeCa (h : (s.storeCa key ca crl).1 = .error e) :
    s.Interrupts key ca crl (s.storeCa key ca crl).2 := by
  -- what the list leaves when it fails, and the bundle before it
  have hafter : (s.storeCa key ca none).2.disk.SameFiles (s.storeCa key ca crl).2.disk ∧
      (s.storeCa key ca crl).2.written = (s.storeCa key ca none).2.written := by
    rcases storeCa_error_cases h with ⟨-, hsame⟩ | ⟨list, -, -, hlist, hsame⟩
    · rw [hsame]
      exact ⟨.of_nodes rfl rfl rfl, rfl⟩
    · rw [hsame]
      exact (store_error hlist).symm
  obtain ⟨hfiles, hwritten⟩ := hafter
  have hbundle : (s.storeCa key ca none).2 = (s.store key (caPath s.directory key) ca).2 := by
    rw [storeCa_none]
  have hothers : ∀ l, l ≠ s.place key .ca →
      (s.storeCa key ca crl).2.disk.content? l = s.disk.content? l := by
    intro l hl
    rw [hfiles.content?_eq, hbundle]
    exact content?_store_of_ne hl key ca
  refine ⟨hfiles, hwritten, hothers, hothers _ (s.place_crl_ne_place_ca key), fun hfailed => ?_,
    fun hstored => ?_⟩
  · rw [storeCa_none] at hfailed
    cases herror : (s.store key (caPath s.directory key) ca).1 with
    | ok path =>
      rw [herror] at hfailed
      cases hfailed
    | error e' =>
      obtain ⟨hindex, hsame⟩ := store_error herror
      rw [hbundle] at hfiles hwritten
      exact ⟨hsame.trans hfiles, hwritten.trans hindex⟩
  · rcases storeCa_error_cases h with ⟨herror, -⟩ | ⟨list, rfl, -, -, -⟩
    · rw [herror] at hstored
      cases hstored
    · refine ⟨rfl, ?_⟩
      rw [storeCa_none] at hstored
      cases hok : (s.store key (caPath s.directory key) ca).1 with
      | error e' =>
        rw [hok] at hstored
        cases hstored
      | ok path =>
        rw [hfiles.content?_eq, hbundle]
        exact (store_ok_cases hok).symm

/-- **A failed update of a bundle with its list does what an update of the bundle alone does.**
Whichever step fails, on any disk, the list and all files but the bundle are as before. So is the
bundle if its own step failed. If the list's did, the new bundle stands beside the old list. A
reference to a CA secret that is answered with an error has stored nothing, or has failed in this
way. -/
theorem failed_bundle (s : CredentialStore) :
    (∀ key ca crl e, (s.storeCa key ca crl).1 = .error e →
      s.Interrupts key ca crl (s.storeCa key ca crl).2) ∧
    ∀ (checks : TlsChecks) (r : Resolver checks) (ns reference : String) (e : Error),
      (r.ca s ns reference).1 = .error e →
      (r.caMaterial ns reference = .error e ∧ (r.ca s ns reference).2 = s) ∨
        ∃ m, r.caMaterial ns reference = .ok m ∧ (s.storeCa m.key m.ca m.crl).1 = .error e ∧
          s.Interrupts m.key m.ca m.crl (r.ca s ns reference).2 := by
  refine ⟨fun key ca crl e h => interrupts_storeCa h, fun checks r ns reference e herror => ?_⟩
  unfold Resolver.ca at herror ⊢
  cases hm : r.caMaterial ns reference with
  | error e' =>
    rw [hm] at herror
    exact .inl ⟨congrArg _ (Except.error.inj herror), rfl⟩
  | ok m =>
    rw [hm] at herror
    have hstore : (s.storeCa m.key m.ca m.crl).1 = .error e := by
      cases hanswer : (s.storeCa m.key m.ca m.crl).1 with
      | error e' =>
        simp only [hanswer, Except.map] at herror
        exact congrArg _ (Except.error.inj herror)
      | ok paths =>
        simp only [hanswer, Except.map] at herror
        cases herror
    exact .inr ⟨m, rfl, hstore, interrupts_storeCa hstore⟩

/-- The bundle of a site is there, and a directory where its list would be. -/
def siteStore : CredentialStore :=
  let stored := (emptyStore.storeCa (webKey "site") [98] none).2
  { stored with disk := stored.disk.makeDirectories (crlPath "certs" (webKey "site")) }

/-- A new bundle comes with a list, which can not be written. -/
theorem siteStore_update :
    siteStore.disk.content? (siteStore.place (webKey "site") .ca) = some [98] ∧
      (siteStore.storeCa (webKey "site") [99] (some [108])).1 = .error .fileSystem ∧
      (siteStore.storeCa (webKey "site") [99] none).1.isOk ∧
      (siteStore.storeCa (webKey "site") [99] (some [108])).2.disk.content?
        (siteStore.place (webKey "site") .ca) = some [99] := by
  decide +kernel

/-- The new bundle stands without its list. -/
theorem failed_bundle_site :
    let after := (siteStore.storeCa (webKey "site") [99] (some [108])).2
    (siteStore.storeCa (webKey "site") [99] (some [108])).1 = .error .fileSystem ∧
      siteStore.Interrupts (webKey "site") [99] (some [108]) after ∧
      after.disk.content? (siteStore.place (webKey "site") .ca) = some [99] ∧
      after.disk.content? (siteStore.place (webKey "site") .crl) =
        siteStore.disk.content? (siteStore.place (webKey "site") .crl) := by
  intro after
  obtain ⟨-, herror, -, hnew⟩ := siteStore_update
  have hleft : siteStore.Interrupts (webKey "site") [99] (some [108]) after :=
    (failed_bundle siteStore).1 _ _ _ _ herror
  exact ⟨herror, hleft, hnew, hleft.list⟩

/-- **A bundle and its list are not replaced together**: the bundle may be when the list fails. -/
theorem not_together :
    ¬ ∀ (s : CredentialStore) (key : Key) (ca : Bytes) (crl : Option Bytes) (e : Error),
      (s.storeCa key ca crl).1 = .error e → ∀ role ∈ [Role.ca, Role.crl],
        (s.storeCa key ca crl).2.disk.content? (s.place key role) =
          s.disk.content? (s.place key role) := by
  intro htogether
  obtain ⟨hold, herror, -, hnew⟩ := siteStore_update
  have hsame := htogether siteStore (webKey "site") [99] (some [108]) .fileSystem herror .ca
    List.mem_cons_self
  rw [hold, hnew] at hsame
  exact absurd hsame (by decide)

end CredentialStore

end IngressWatch
