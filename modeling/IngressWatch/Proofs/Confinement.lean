import IngressWatch.Proofs.Answers
import IngressWatch.Proofs.Keys

/-!
# References do not leave the directory of credentials

References come from objects that others make, so they may be any text. Whatever they are, and
whether or not they may point to other namespaces, they lead to files in three folders.

* `Path.IsFileIn`: a path of one more name, which is not a way up and ends in `.pem`.
* `Path.Apart`: paths that never lead to one place.
* `Disk.Alters`: what a call may change on a disk: files at some paths, and missing directories on
  the way to them.
* `Resolver.operation`, `Resolver.targets`: what a reference is to store, and at which paths.
  `Resolver.resolve_eq` says that this is all that a call does.
* `references_confined`: **every path of a reference is a file in the folder of its use**, and
  files of different uses stand apart.
-/

namespace IngressWatch

open CredentialStore

/-! ## Files in a folder -/

namespace Path

/-- The name of a credential file. -/
structure IsPem (name : String) : Prop extends IsComponent name where
  ending : ".pem".toList <:+ name.toList

/-- A path that is a folder joined with the name of a credential file. -/
def IsFileIn (folder path : String) : Prop := ∃ name, IsPem name ∧ path = join folder name

/-- **Paths that never meet**: there are other names on them, and they lead to different places,
on every disk. -/
structure Apart (path path' : String) : Prop where
  components : Path.components path ≠ Path.components path'
  goal : ∀ d : Disk, d.goal path ≠ d.goal path'

end Path

/-! ## What changes on a disk -/

namespace Disk

variable {d d' d'' : Disk} {folder path : String} {files : List String}

/-- A place on the way to a folder, or that of the folder. -/
def OnWay (d : Disk) (folder : String) (l : Location) : Prop :=
  ∃ names, names <+: Path.components folder ∧
    l = names.foldl (fun l name => if name = ".." then l.dropLast else l ++ [name])
      (if Path.isAbsolute folder then [] else d.home)

/-- **What may change**: on the way to a folder directories are made where nothing stood, and where
the paths of some files lead, there are files afterwards. All else stays as it is. -/
structure Alters (folder : String) (files : List String) (d d' : Disk) : Prop where
  home : d'.home = d.home
  nodes : ∀ l, d'.node? l = d.node? l ∨
    (d.OnWay folder l ∧ d.node? l = none ∧ d'.node? l = some .directory) ∨
    ((∃ path ∈ files, l = d.goal path) ∧ d.node? l ≠ some .directory ∧ d'.IsFile l)

namespace Alters

theorem of_nodes (hhome : d'.home = d.home) (hnodes : d'.nodes = d.nodes) :
    Alters folder files d d' := by
  refine ⟨hhome, fun l => .inl ?_⟩
  rw [node?, node?, hnodes]

theorem refl (d : Disk) : Alters folder files d d := .of_nodes rfl rfl

/-- What was made stays, and a file does not become a directory. -/
theorem trans (h : Alters folder files d d') (h' : Alters folder files d' d'') :
    Alters folder files d d'' := by
  refine ⟨h'.home.trans h.home, fun l => ?_⟩
  have hway : d'.OnWay folder l = d.OnWay folder l := by rw [OnWay, OnWay, h.home]
  have hgoal : ∀ path, d'.goal path = d.goal path := fun path => by rw [goal, goal, h.home]
  have hlater := h'.nodes l
  rw [hway] at hlater
  simp only [hgoal] at hlater
  rcases h.nodes l with hsame | ⟨honWay, hnone, hmade⟩ | ⟨hfile, hnode, content, number, hput⟩
  · rw [← hsame]
    exact hlater
  · rcases hlater with hsame | ⟨-, hnone', -⟩ | ⟨-, hnode', -⟩
    · exact .inr (.inl ⟨honWay, hnone, hsame.trans hmade⟩)
    · rw [hmade] at hnone'
      cases hnone'
    · exact absurd hmade hnode'
  · rcases hlater with hsame | ⟨-, hnone', -⟩ | ⟨-, -, hput'⟩
    · exact .inr (.inr ⟨hfile, hnode, content, number, hsame.trans hput⟩)
    · rw [hput] at hnone'
      cases hnone'
    · exact .inr (.inr ⟨hfile, hnode, hput'⟩)

end Alters

/-! One operation. -/

theorem alters_read (d : Disk) (path : String) : Alters folder files d (d.read path).2 := by
  unfold read
  dsimp only
  split <;> exact .of_nodes rfl rfl

theorem alters_makeDirectory (d : Disk) {names : List String}
    (h : names <+: Path.components folder) :
    Alters folder files d (d.makeDirectory (Path.isAbsolute folder) names).2 := by
  have hcounted : Alters folder files d (d.attempt (.makeDirectory names)).2 := .of_nodes rfl rfl
  unfold makeDirectory
  dsimp only
  split
  · exact hcounted
  · exact hcounted
  · exact hcounted
  · rename_i made _ hmade
    split
    · exact hcounted
    · split
      · exact hcounted
      · rename_i hnone
        refine ⟨rfl, fun l => ?_⟩
        by_cases hl : l = made
        · subst hl
          refine .inr (.inl ⟨⟨names, h, follow_eq_goal hmade⟩, hnone, ?_⟩)
          rw [node?, Table.get?_insert, if_pos rfl]
        · refine .inl ?_
          rw [node?, Table.get?_insert, if_neg hl]
          rfl

/-- The directories that are made for a file are those on the way to its folder. -/
theorem alters_makeParents (d : Disk) (h : Path.IsFileIn folder path) :
    Alters folder files d (d.makeParents path).2 := by
  obtain ⟨name, hname, rfl⟩ := h
  have hparents : parentNames (Path.join folder name) = Path.components folder := by
    rw [parentNames, Path.components_join folder hname.toIsComponent, List.dropLast_concat]
  unfold makeParents
  rw [hparents, Path.isAbsolute_join folder hname.toIsComponent]
  split
  · have hmake : ∀ d made, made <+: (Path.components folder).reverse.reverse →
        Alters folder files d (d.makeDirectory (Path.isAbsolute folder) made).2 := by
      intro d made hmade
      rw [List.reverse_reverse] at hmade
      exact d.alters_makeDirectory hmade
    exact makeAll_induct_of_prefix .refl (fun _ _ _ h h' => h.trans h') _ hmake d
  · exact .refl d

theorem alters_replace {d' : Disk} {content : Bytes} {done : Bool}
    (h : d.replace path content = (done, d')) (hpath : path ∈ files) :
    Alters folder files d d' := by
  obtain ⟨hhome, -, ⟨-, hnodes⟩ | ⟨-, -, placed, hplaced, hnode, hnodes⟩⟩ := replace_cases h
  · exact .of_nodes hhome hnodes
  · refine ⟨hhome, fun l => ?_⟩
    by_cases hl : l = placed
    · subst hl
      refine .inr (.inr ⟨⟨path, hpath, locate_eq_goal hplaced⟩, hnode, content, d.created, ?_⟩)
      rw [node?, hnodes, Table.get?_insert, if_pos rfl]
    · refine .inl ?_
      rw [node?, hnodes, Table.get?_insert, if_neg hl]
      rfl

end Disk

/-! ## What a store writes -/

namespace CredentialStore

variable {s s' : CredentialStore} {folder path : String} {files : List String}

/-- **What storing some files of a folder may do to a store**: it changes the disk in this way only,
and notes no other paths. -/
structure Adds (folder : String) (files : List String) (s s' : CredentialStore) : Prop where
  directory : s'.directory = s.directory
  disk : s.disk.Alters folder files s'.disk
  noted : ∀ k path, path ∈ s'.paths k → path ∈ s.paths k ∨ path ∈ files

theorem Adds.refl (s : CredentialStore) : Adds folder files s s :=
  ⟨rfl, .refl s.disk, fun _ _ => .inl⟩

theorem Adds.trans {s'' : CredentialStore} (h : Adds folder files s s')
    (h' : Adds folder files s' s'') : Adds folder files s s'' where
  directory := h'.directory.trans h.directory
  disk := h.disk.trans h'.disk
  noted k path hp := (h'.noted k path hp).elim (h.noted k path) .inr

theorem alters_write (s : CredentialStore) (key : Key) (hin : Path.IsFileIn folder path)
    (hpath : path ∈ files) (content : Bytes) :
    s.disk.Alters folder files (s.write key path content).2.disk := by
  have hread : s.disk.Alters folder files (s.disk.read path).2 := s.disk.alters_read path
  have hparents : ∀ done d, s.prepared path = (done, d) → s.disk.Alters folder files d := by
    intro done d hprepared
    rw [← makeParents_of_prepared hprepared]
    exact hread.trans ((s.disk.read path).2.alters_makeParents hin)
  cases s.write_ends key path content with
  | kept _ _ _ _ hstore =>
    rw [hstore]
    exact hread
  | blocked d _ hprepared _ hstore =>
    rw [hstore]
    exact hparents _ d hprepared
  | refused d d' _ hprepared hreplace _ hstore | replaced d d' _ hprepared hreplace _ hstore =>
    rw [hstore]
    exact (hparents _ d hprepared).trans (Disk.alters_replace hreplace hpath)

/-- **One file.** -/
theorem adds_store (s : CredentialStore) (key : Key) (hin : Path.IsFileIn folder path)
    (hpath : path ∈ files) (content : Bytes) :
    Adds folder files s (s.store key path content).2 := by
  obtain ⟨htouches, hcases⟩ := s.store_cases key path content
  refine ⟨htouches.directory, ?_, fun k p hp => ?_⟩
  · rw [store_eq]
    exact s.alters_write key hin hpath content
  · rcases hcases with ⟨e, herror⟩ | ⟨-, hwritten, -⟩
    · -- what fails is not noted
      rw [paths, (store_error herror).1] at hp
      exact .inl hp
    · rcases (mem_paths_iff_of_track hwritten).1 hp with hp | ⟨-, rfl⟩
      · exact .inl hp
      · exact .inr hpath

/-- **Several files of one folder**, also if a later one fails. -/
theorem adds_storeAll (s : CredentialStore) (key : Key) {ws : List (Role × Bytes)}
    (hws : ∀ w ∈ ws, Path.IsFileIn folder (w.1.path s.directory key) ∧
      w.1.path s.directory key ∈ files) : Adds folder files s (s.storeAll key ws).2 := by
  induction ws generalizing s with
  | nil => exact .refl s
  | cons w ws ih =>
    obtain ⟨⟨hin, hpath⟩, hrest⟩ := List.forall_mem_cons.1 hws
    have hfirst := s.adds_store key hin hpath w.2
    unfold storeAll
    split
    · rename_i hs
      rw [hs] at hfirst
      exact hfirst
    · rename_i s₁ hs
      rw [hs] at hfirst
      rw [← hfirst.directory] at hrest
      exact hfirst.trans (ih s₁ hrest)

end CredentialStore

/-! ## What a reference is for -/

/-- What a reference asks for. -/
inductive Use where
  | tls
  | ca
  | dh
deriving DecidableEq

namespace Use

/-- The directories below that of all credentials. -/
def steps : Use → List String
  | tls => []
  | ca => ["ca"]
  | dh => ["dhparam"]

/-- Where the files of a use stand. -/
def folder (directory : String) (use : Use) : String := use.steps.foldl Path.join directory

/-- The files that a use may have. -/
def roles : Use → List Role
  | tls => [.tls]
  | ca => [.ca, .crl]
  | dh => [.dh]

variable {use other : Use} {role : Role} {directory path path' : String} {k : Key}

theorem isFileIn_path (hk : k.Flat) (h : role ∈ use.roles) :
    Path.IsFileIn (use.folder directory) (role.path directory k) := by
  have hending : ".pem".toList <:+ (k.fileStem ++ role.suffix).toList := by
    have hsuffix : ".pem".toList <:+ role.suffix.toList := by cases role <;> decide
    rw [String.toList_append]
    exact hsuffix.trans (List.suffix_append _ _)
  refine ⟨k.fileStem ++ role.suffix, ⟨Role.isComponent_name hk role, hending⟩, ?_⟩
  cases use <;> cases role <;> first | rfl | simp [roles] at h

/-! Names and places are made of those of the directory in one way. -/

section

variable {f : String → List String}
  (hf : ∀ base name, Path.IsComponent name → f (Path.join base name) = f base ++ [name])
include hf

theorem apply_folder (directory : String) (use : Use) :
    f (use.folder directory) = f directory ++ use.steps := by
  cases use with
  | tls => exact (List.append_nil _).symm
  | ca => exact hf directory "ca" ⟨by decide, by decide, by decide, by decide⟩
  | dh => exact hf directory "dhparam" ⟨by decide, by decide, by decide, by decide⟩

/-- Before their last names, files of different uses have different names. -/
theorem apply_ne_of_ne (hne : use ≠ other) (h : Path.IsFileIn (use.folder directory) path)
    (h' : Path.IsFileIn (other.folder directory) path') : f path ≠ f path' := by
  obtain ⟨name, hname, rfl⟩ := h
  obtain ⟨name', hname', rfl⟩ := h'
  rw [hf _ _ hname.toIsComponent, hf _ _ hname'.toIsComponent, apply_folder hf, apply_folder hf]
  intro heq
  have hsteps : use.steps = other.steps :=
    List.append_cancel_left (List.append_inj' heq rfl).1
  cases use <;> cases other <;> first | exact hne rfl | simp [steps] at hsteps

/-- The last name of a folder is not that of a file. -/
theorem apply_ne_folder (hother : other ≠ .tls) (h : Path.IsFileIn (use.folder directory) path) :
    f path ≠ f (other.folder directory) := by
  obtain ⟨name, hname, rfl⟩ := h
  rw [hf _ _ hname.toIsComponent, apply_folder hf, apply_folder hf]
  intro heq
  have hending := hname.ending
  cases other with
  | tls => exact hother rfl
  | ca =>
    rw [List.singleton_inj.1 (List.append_inj' heq rfl).2] at hending
    exact absurd hending (by decide)
  | dh =>
    rw [List.singleton_inj.1 (List.append_inj' heq rfl).2] at hending
    exact absurd hending (by decide)

end

/-- **Files of different uses stand apart.** -/
theorem apart_of_ne (hne : use ≠ other) (h : Path.IsFileIn (use.folder directory) path)
    (h' : Path.IsFileIn (other.folder directory) path') : Path.Apart path path' where
  components := apply_ne_of_ne (fun base _ => Path.components_join base) hne h h'
  goal d := apply_ne_of_ne (fun base _ => d.goal_join base) hne h h'

/-- **No file stands where a folder is.** -/
theorem apart_folder (hother : other ≠ .tls) (h : Path.IsFileIn (use.folder directory) path) :
    Path.Apart path (other.folder directory) where
  components := apply_ne_folder (fun base _ => Path.components_join base) hother h
  goal d := apply_ne_folder (fun base _ => d.goal_join base) hother h

end Use

namespace Resolver

variable {checks : TlsChecks} {r : Resolver checks} {use : Use} {store : CredentialStore}
  {ns reference : String} {k : Key} {op : Op}

/-- What a reference is to store, and for which key. -/
def operation (r : Resolver checks) (ns reference : String) : Use → Except Error (Key × Op)
  | .tls => (r.tlsMaterial ns reference).map fun m => (m.key, .tls m.certificate m.keyText)
  | .ca => (r.caMaterial ns reference).map fun m => (m.key, .ca m.ca m.crl)
  | .dh => (r.entryMaterial ns reference Entry.dhParameters).map fun m => (m.1, .dh m.2)

/-- **The paths that a reference is to be written at.** -/
def targets (r : Resolver checks) (directory ns reference : String) (use : Use) : List String :=
  match r.operation ns reference use with
  | .error _ => []
  | .ok (k, op) => op.writes.map fun w => w.1.path directory k

/-- The paths that a call answers with, and the store after it. -/
def resolve (r : Resolver checks) (store : CredentialStore) (ns reference : String) :
    Use → Result (List String)
  | .tls =>
    let (answer, store) := r.tls store ns reference
    (answer.map fun f => [f.file.path], store)
  | .ca =>
    let (answer, store) := r.ca store ns reference
    (answer.map fun f => f.ca.path :: (f.crl.map (·.path)).toList, store)
  | .dh =>
    let (answer, store) := r.dh store ns reference
    (answer.map fun f => [f.path], store)

/-- **A call does nothing but this.** -/
theorem resolve_eq (r : Resolver checks) (store : CredentialStore) (ns reference : String)
    (use : Use) :
    r.resolve store ns reference use = match r.operation ns reference use with
      | .error e => (.error e, store)
      | .ok (k, op) =>
        ((store.perform k op).1.map fun files => files.map (·.2), (store.perform k op).2) := by
  cases use with
  | tls =>
    unfold resolve operation tls perform
    rcases r.tlsMaterial ns reference with e | m
    · rfl
    · dsimp only [Except.map]
      rcases store.storeTls m.key m.certificate m.keyText with ⟨e | path, store'⟩ <;> rfl
  | ca =>
    unfold resolve operation ca perform
    rcases r.caMaterial ns reference with e | m
    · rfl
    · dsimp only [Except.map]
      rcases store.storeCa m.key m.ca m.crl with ⟨e | ⟨path, _ | path'⟩, store'⟩ <;> rfl
  | dh =>
    unfold resolve operation dh perform
    rcases r.entryMaterial ns reference Entry.dhParameters with e | m
    · rfl
    · dsimp only [Except.map]
      rcases store.storeDh m.1 m.2 with ⟨e | path, store'⟩ <;> rfl

theorem flat_of_key (hns : '/' ∉ ns.toList) (h : r.key ns reference = .ok k) : k.Flat := by
  rw [key_eq] at h
  split at h
  · cases h
  · rename_i qualified hqualified
    split at h
    · cases h
    · obtain rfl := Except.ok.inj h
      obtain ⟨parsed, hparsed, rfl⟩ := map_eq_ok.1 hqualified
      have hflat := Key.flat_of_parse hparsed
      unfold Key.within
      split
      · exact ⟨hns, hflat.name⟩
      · exact hflat

theorem of_operation (h : r.operation ns reference use = .ok (k, op)) :
    r.key ns reference = .ok k ∧ op ≠ .invalidate ∧ ∀ w ∈ op.writes, w.1 ∈ use.roles := by
  cases use with
  | tls =>
    obtain ⟨m, hm, heq⟩ := map_eq_ok.1 h
    obtain ⟨rfl, rfl⟩ := Prod.ext_iff.1 heq
    exact ⟨(tlsMaterial_eq_ok.1 hm).1, by simp, by simp [Op.writes, Use.roles]⟩
  | ca =>
    obtain ⟨m, hm, heq⟩ := map_eq_ok.1 h
    obtain ⟨rfl, rfl⟩ := Prod.ext_iff.1 heq
    refine ⟨(of_caMaterial hm).1, by simp, ?_⟩
    cases m.crl <;> simp [Op.writes, Use.roles]
  | dh =>
    obtain ⟨m, hm, heq⟩ := map_eq_ok.1 h
    obtain ⟨rfl, rfl⟩ := Prod.ext_iff.1 heq
    exact ⟨(of_entryMaterial hm).1, by simp, by simp [Op.writes, Use.roles]⟩

theorem isFileIn_of_mem_targets {directory path : String} (hns : '/' ∉ ns.toList)
    (h : path ∈ r.targets directory ns reference use) :
    Path.IsFileIn (use.folder directory) path := by
  unfold targets at h
  split at h
  · cases h
  · rename_i k op hop
    obtain ⟨hkey, -, hroles⟩ := of_operation hop
    obtain ⟨w, hw, rfl⟩ := List.mem_map.1 h
    exact Use.isFileIn_path (flat_of_key hns hkey) (hroles w hw)

/-- **A call** writes and notes its targets only, and answers with them. -/
theorem adds_resolve (r : Resolver checks) (use : Use) (store : CredentialStore)
    (reference : String) (hns : '/' ∉ ns.toList) :
    (∀ paths, (r.resolve store ns reference use).1 = .ok paths →
      paths = r.targets store.directory ns reference use) ∧
    store.Adds (use.folder store.directory) (r.targets store.directory ns reference use)
      (r.resolve store ns reference use).2 := by
  have hin : ∀ path ∈ r.targets store.directory ns reference use,
      Path.IsFileIn (use.folder store.directory) path := fun path => isFileIn_of_mem_targets hns
  rw [resolve_eq]
  unfold targets at hin ⊢
  split
  · exact ⟨nofun, .refl store⟩
  · rename_i k op hop
    obtain ⟨-, hne, -⟩ := of_operation hop
    rw [hop] at hin
    refine ⟨fun paths hpaths => ?_, ?_⟩
    · obtain ⟨files, hfiles, rfl⟩ := map_eq_ok.1 hpaths
      rw [answer_perform hfiles, List.map_map]
      rfl
    · rw [perform_eq_storeAll hne]
      refine store.adds_storeAll k fun w hw => ?_
      have hpath := List.mem_map_of_mem (f := fun w => w.1.path store.directory k) hw
      exact ⟨hin _ hpath, hpath⟩

end Resolver

/-- **References do not leave the directory of credentials.** Let a reference be any text, in any
namespace without a slash, and let references to other namespaces be allowed or not. All paths that
a call answers with, notes or writes are its targets, also when it fails halfway. A target is a
folder joined with one name that has no slash, is not a dot or two, and ends in `.pem`. The folder
is the directory itself for TLS, and `ca` or `dhparam` in it for the others. Nothing but the
targets and missing directories on the way to that folder changes on the disk. Targets of two
references for different uses are apart from each other, and from these folders. -/
theorem references_confined (directory : String) :
    (∀ (checks : TlsChecks) (r : Resolver checks) (use : Use) (store : CredentialStore)
      (ns reference : String), store.directory = directory → '/' ∉ ns.toList →
        (∀ paths, (r.resolve store ns reference use).1 = .ok paths →
          paths = r.targets directory ns reference use) ∧
        (∀ k path, path ∈ (r.resolve store ns reference use).2.paths k →
          path ∈ store.paths k ∨ path ∈ r.targets directory ns reference use) ∧
        store.disk.Alters (use.folder directory) (r.targets directory ns reference use)
          (r.resolve store ns reference use).2.disk ∧
        ∀ path ∈ r.targets directory ns reference use,
          Path.IsFileIn (use.folder directory) path ∧
          Path.Apart path (Path.join directory "ca") ∧
          Path.Apart path (Path.join directory "dhparam")) ∧
    ∀ (checks checks' : TlsChecks) (r : Resolver checks) (r' : Resolver checks') (use use' : Use)
      (ns reference ns' reference' : String),
      '/' ∉ ns.toList → '/' ∉ ns'.toList → use ≠ use' →
        ∀ path ∈ r.targets directory ns reference use,
          ∀ path' ∈ r'.targets directory ns' reference' use', Path.Apart path path' := by
  constructor
  · rintro checks r use store ns reference rfl hns
    obtain ⟨hanswer, hadds⟩ := r.adds_resolve use store reference hns
    refine ⟨hanswer, hadds.noted, hadds.disk, fun path hpath => ?_⟩
    have hin := Resolver.isFileIn_of_mem_targets hns hpath
    have hca : Path.Apart path (Use.ca.folder store.directory) := Use.apart_folder nofun hin
    have hdh : Path.Apart path (Use.dh.folder store.directory) := Use.apart_folder nofun hin
    exact ⟨hin, hca, hdh⟩
  · intro checks checks' r r' use use' ns reference ns' reference' hns hns' hne path hpath
      path' hpath'
    exact Use.apart_of_ne hne (Resolver.isFileIn_of_mem_targets hns hpath)
      (Resolver.isFileIn_of_mem_targets hns' hpath')

/-- A resolver that follows references to other namespaces, to a secret whose namespace and name are
ways up. -/
def dotsResolver : Resolver where
  allowForeign := true
  secrets := Mirror.empty.put
    { metadata := { ns := some "..", name := some ".." }
      data := some (Dict.ofList
        [(Entry.caCertificate, Controller.leastCertificate), (Entry.dhParameters, [100])]) }

/-- The secret has a bundle and parameters. -/
theorem targets_dotsResolver :
    dotsResolver.targets "certs" "web" "../.." .ca = ["certs/ca/.._...pem"] ∧
      dotsResolver.targets "certs" "web" "../.." .dh = ["certs/dhparam/.._...pem"] ∧
      (dotsResolver.resolve plainStore "web" "../.." .dh).1.isOk := by
  decide +kernel

/-- Its files are in the folders still. -/
theorem references_confined_dots :
    plainStore.directory = "certs" ∧ '/' ∉ "web".toList ∧ Use.ca ≠ Use.dh ∧
      "certs/ca/.._...pem" ∈ dotsResolver.targets "certs" "web" "../.." .ca ∧
      "certs/dhparam/.._...pem" ∈ dotsResolver.targets "certs" "web" "../.." .dh ∧
      (dotsResolver.resolve plainStore "web" "../.." .dh).1 = .ok ["certs/dhparam/.._...pem"] ∧
      Path.IsFileIn (Use.dh.folder "certs") "certs/dhparam/.._...pem" ∧
      Path.Apart "certs/ca/.._...pem" "certs/dhparam/.._...pem" := by
  obtain ⟨hca, hdh, hok⟩ := targets_dotsResolver
  have hns : '/' ∉ "web".toList := by decide
  have hcaMem : "certs/ca/.._...pem" ∈ dotsResolver.targets "certs" "web" "../.." .ca := by
    rw [hca]
    exact List.mem_singleton_self _
  have hdhMem : "certs/dhparam/.._...pem" ∈ dotsResolver.targets "certs" "web" "../.." .dh := by
    rw [hdh]
    exact List.mem_singleton_self _
  obtain ⟨hcalls, hapart⟩ := references_confined "certs"
  obtain ⟨hanswer, -, -, hfiles⟩ :=
    hcalls pemChecks dotsResolver .dh plainStore "web" "../.." rfl hns
  obtain ⟨paths, hpaths⟩ := exists_ok_of_isOk hok
  refine ⟨rfl, hns, nofun, hcaMem, hdhMem, ?_, (hfiles _ hdhMem).1, ?_⟩
  · rw [hpaths, hanswer paths hpaths, hdh]
  · exact hapart pemChecks pemChecks dotsResolver dotsResolver .ca .dh "web" "../.." "web" "../.."
      hns hns nofun _ hcaMem _ hdhMem

end IngressWatch
