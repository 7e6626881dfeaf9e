import IngressWatch.Proofs.Separation
import Mathlib.Data.List.Induction

/-!
# A write that fails changes nothing

A credential file is written in several steps, and each of them may be refused. Until the last one
the new content stands in a draft only.

* `Disk.SameFiles`: the same files stand on two disks. The second may have more directories.
* `CredentialStore.write_error`: whichever step of a write fails, the files are the same and
  nothing is noted.
* `Disk.IsTree.locate`: **new directories bring no file within reach of a path** that does not lead
  up.
* `Disk.Behind.removeAll`: removals of the same paths find the same files on both, and what lies
  where a path leads again.
* `CredentialStore.failed_keeps`: what a failed write leaves, and what a later invalidation removes.
  Through a path that leads up this can be more than without the write
  (`CredentialStore.not_removes_same`).
-/

namespace IngressWatch

namespace Disk

variable {d d' d'' : Disk}

/-! ## The same files -/

/-- The same files stand on both disks, and no directory is gone. -/
structure SameFiles (d d' : Disk) : Prop extends Keeps d d' where
  files : ∀ l content number,
    d'.node? l = some (.file content number) ↔ d.node? l = some (.file content number)

namespace SameFiles

theorem trans (h : d.SameFiles d') (h' : d'.SameFiles d'') : d.SameFiles d'' where
  toKeeps := h.toKeeps.trans h'.toKeeps
  files l content number := (h'.files l content number).trans (h.files l content number)

theorem of_nodes (hh : d'.home = d.home) (hr : d'.refuses = d.refuses) (hn : d'.nodes = d.nodes) :
    d.SameFiles d' where
  toKeeps := .of_nodes hh hr hn
  files l content number := by rw [node?, hn, node?]

/-- Every file stays as it is, and none is made. -/
theorem of_leaves (hkeeps : d.Keeps d') (hleaves : ∀ l, Leaves l d d')
    (hback : ∀ l, Leaves l d' d) : d.SameFiles d' where
  toKeeps := hkeeps
  files l content number := ⟨hback l content number, hleaves l content number⟩

theorem isFile_iff (h : d.SameFiles d') (l : Location) : d'.IsFile l ↔ d.IsFile l :=
  exists_congr fun content => exists_congr fun number => h.files l content number

end SameFiles

theorem sameFiles_read (d : Disk) (path : String) : d.SameFiles (d.read path).2 :=
  .of_leaves (d.quiet_read path).toKeeps (fun l => leaves_read l d path) fun l => back_read l d path

/-- A replacement that fails has put nothing in place. -/
theorem sameFiles_replace {d' : Disk} {path : String} {content : Bytes}
    (h : d.replace path content = (false, d')) : d.SameFiles d' := by
  obtain ⟨hhome, hrefuses, ⟨-, hnodes⟩ | ⟨hdone, -⟩⟩ := replace_cases h
  · exact .of_nodes hhome hrefuses hnodes
  · cases hdone

/-! ## Paths on a tree -/

/-- **A tree of directories**: what does not stand at the root stands in a directory. -/
def IsTree (d : Disk) : Prop :=
  ∀ e ∈ d.nodes.entries, e.1 ≠ [] → d.node? e.1.dropLast = some .directory

instance (d : Disk) : Decidable d.IsTree :=
  inferInstanceAs (Decidable (∀ e ∈ d.nodes.entries, e.1 ≠ [] → _))

/-- Where something stands on a tree, all places on the way are directories. -/
theorem IsTree.directory (h : d.IsTree) {l : Location} {names : List String} (hne : names ≠ [])
    (hnode : (d.node? (l ++ names)).isSome) : d.node? l = some .directory := by
  induction names using List.reverseRecOn with
  | nil => exact absurd rfl hne
  | append_singleton names name ih =>
    obtain ⟨node, hnode⟩ := Option.isSome_iff_exists.1 hnode
    have hmem : (l ++ (names ++ [name]), node) ∈ d.nodes.entries := Table.mem_entries_iff.2 hnode
    have habove := h _ hmem (by simp)
    rw [← List.append_assoc, List.dropLast_concat] at habove
    by_cases hnames : names = []
    · rwa [hnames, List.append_nil] at habove
    · exact ih hnames (by rw [habove]; rfl)

/-- Names that do not lead up lead straight down. -/
theorem follow_eq_append {names : List String} (hup : ".." ∉ names) {l l' : Location}
    (hl : d.follow l names = .at l') : l' = l ++ names := by
  rw [follow_eq_goal hl]
  clear hl
  induction names generalizing l with
  | nil => rw [List.foldl_nil, List.append_nil]
  | cons name rest ih =>
    obtain ⟨hname, hrest⟩ := not_or.1 (mt List.mem_cons.2 hup)
    rw [List.foldl_cons, if_neg (Ne.symm hname), ih hrest, List.append_assoc]
    rfl

theorem IsTree.follow (h : d.IsTree) {names : List String} (hup : ".." ∉ names)
    {l l' : Location} (hl : d'.follow l names = .at l') (hnode : (d.node? l').isSome) :
    d.follow l names = .at l' := by
  have hend : l' = l ++ names := follow_eq_append hup hl
  induction names generalizing l with
  | nil => exact hl
  | cons name rest ih =>
    obtain ⟨hname, hrest⟩ := not_or.1 (mt List.mem_cons.2 hup)
    have hdirectory : d.node? l = some .directory := by
      rw [hend] at hnode
      exact h.directory (List.cons_ne_nil name rest) hnode
    have hend' : l' = (l ++ [name]) ++ rest := by rw [hend, List.append_assoc]; rfl
    unfold Disk.follow at hl ⊢
    rw [hdirectory]
    dsimp only
    split at hl
    · cases hl
    · cases hl
    · rw [if_neg (Ne.symm hname)] at hl ⊢
      split at hl
      · rename_i hlegal
        rw [if_pos hlegal]
        exact ih hrest hl hend'
      · cases hl

/-- **New directories bring no file within reach** of a path that does not lead up: where they lead
to a file, the path has led there before. -/
theorem IsTree.locate (h : d.IsTree) (hkeeps : d.Keeps d') {path : String}
    (hup : ".." ∉ Path.components path) {l : Location} (hl : d'.locate path = .at l)
    (hfile : d.IsFile l) : d.locate path = .at l := by
  obtain ⟨content, number, hnode⟩ := hfile
  unfold Disk.locate locateNames at hl ⊢
  rw [hkeeps.home] at hl
  split at hl
  · rename_i husable
    rw [if_pos husable]
    exact h.follow hup hl (by rw [hnode]; rfl)
  · cases hl

/-! ## Removals -/

/-- **What a removal does**: it takes away the file at the end of its path, if there is one and the
removal is not refused. -/
theorem remove_cases (d : Disk) (path : String) :
    (d.refuses d.steps (.remove path) = false ∧
        ∃ l, d.locate path = .at l ∧ d.IsFile l ∧ (d.remove path).nodes = d.nodes.erase l) ∨
      (d.refuses d.steps (.remove path) = false → ∀ l, d.locate path = .at l → ¬ d.IsFile l) ∧
        (d.remove path).nodes = d.nodes := by
  unfold remove attempt
  cases hrefused : d.refuses d.steps (.remove path) with
  | true => exact .inr ⟨fun h => Bool.noConfusion h, rfl⟩
  | false =>
    cases hl : d.locate path with
    | «at» l =>
      by_cases hfile : d.IsFile l
      · obtain ⟨content, number, hnode⟩ := hfile
        refine .inl ⟨rfl, l, rfl, ⟨content, number, hnode⟩, ?_⟩
        simp only [hnode]
      · refine .inr ⟨fun _ l' hl' => Found.at.inj hl' ▸ hfile, ?_⟩
        dsimp only
        split
        · rename_i content number hnode
          exact absurd ⟨content, number, hnode⟩ hfile
        · rfl
    | missing => exact .inr ⟨fun _ l hl' => Found.noConfusion hl', rfl⟩
    | blocked => exact .inr ⟨fun _ l hl' => Found.noConfusion hl', rfl⟩

theorem steps_remove (d : Disk) (path : String) : (d.remove path).steps = d.steps + 1 := by
  unfold remove
  dsimp only
  split
  · split <;> rfl
  · rfl

/-- No directory comes with a removal. -/
theorem keeps_of_remove (d : Disk) (path : String) : (d.remove path).Keeps d := by
  have hquiet := (d.quiet_remove path).toKeeps
  refine ⟨hquiet.home.symm, hquiet.refuses.symm, fun l hl => ?_⟩
  rcases d.remove_cases path with ⟨-, l', -, -, hnodes⟩ | ⟨-, hnodes⟩
  · rw [node?, hnodes, Table.get?_erase] at hl
    split at hl
    · cases hl
    · exact hl
  · rwa [node?, hnodes] at hl

/-- A file stays unless the path leads to it and its removal is not refused. -/
theorem remove_file (d : Disk) (path : String) {l : Location} {content : Bytes} {number : Nat} :
    (d.remove path).node? l = some (.file content number) ↔
      d.node? l = some (.file content number) ∧
        ¬ (d.refuses d.steps (.remove path) = false ∧ d.locate path = .at l) := by
  rcases d.remove_cases path with ⟨hfree, l', hl', -, hnodes⟩ | ⟨hnone, hnodes⟩
  · rw [node?, hnodes, Table.get?_erase, hl']
    by_cases heq : l = l'
    · rw [if_pos heq, heq]
      refine iff_of_false (fun h => ?_) fun h => h.2 ⟨hfree, rfl⟩
      cases h
    · rw [if_neg heq]
      exact ⟨fun h => ⟨h, fun hends => heq (Found.at.inj hends.2).symm⟩, fun h => h.1⟩
  · rw [node?, hnodes]
    exact ⟨fun h => ⟨h, fun hends => hnone hends.1 l hends.2 ⟨content, number, h⟩⟩, fun h => h.1⟩

/-! ## Paths that lead somewhere again -/

/-- The path led nowhere on the first disk and leads to `l` on the second. -/
structure Reopens (d d' : Disk) (path : String) (l : Location) : Prop where
  closed : ∀ l', d.locate path ≠ .at l'
  leads : d'.locate path = .at l

theorem Keeps.locate_or_reopens (h : d.Keeps d') {path : String} {l : Location}
    (hl : d'.locate path = .at l) : d.locate path = .at l ∨ d.Reopens d' path l := by
  cases hbefore : d.locate path with
  | «at» l' => exact .inl ((h.locate hbefore).symm.trans hl)
  | missing | blocked =>
    refine .inr ⟨fun l' hl' => ?_, hl⟩
    rw [hbefore] at hl'
    cases hl'

/-- On a tree, only a path that leads up can lead to a file again. -/
theorem IsTree.leads_up (h : d.IsTree) (hkeeps : d.Keeps d') {path : String} {l : Location}
    (hopens : d.Reopens d' path l) (hfile : d.IsFile l) : ".." ∈ Path.components path := by
  by_contra hup
  exact hopens.closed l (h.locate hkeeps hup hopens.leads hfile)

/-- Two disks at the same moment. The files of the second stand on the first. What it lacks, and
where its paths lead beyond those of the first, is in `extra`. -/
structure Behind (paths : List String) (extra : Location → Prop) (d d' : Disk) : Prop
    extends Keeps d d' where
  steps : d'.steps = d.steps
  files : ∀ l content number, d'.node? l = some (.file content number) →
    d.node? l = some (.file content number)
  lost : ∀ l content number, d.node? l = some (.file content number) →
    d'.node? l = some (.file content number) ∨ extra l
  reach : ∀ path ∈ paths, ∀ l, d'.locate path = .at l → d.locate path = .at l ∨ extra l

namespace Behind

variable {paths : List String} {extra : Location → Prop}

theorem refuses_eq (h : Behind paths extra d d') (step : FileStep) :
    d'.refuses d'.steps step = d.refuses d.steps step := by
  rw [h.refuses, h.steps]

/-- **The same removal** takes the same file away from both, or one in `extra` from the second. -/
theorem remove (h : Behind paths extra d d') {path : String} (hp : path ∈ paths) :
    Behind paths extra (d.remove path) (d'.remove path) where
  home := by rw [(d'.quiet_remove path).home, h.home, (d.quiet_remove path).home]
  refuses := by rw [(d'.quiet_remove path).refuses, h.refuses, (d.quiet_remove path).refuses]
  directories l hl := (d'.quiet_remove path).directories l
    (h.directories l ((d.keeps_of_remove path).directories l hl))
  steps := by rw [steps_remove, steps_remove, h.steps]
  files l content number hnode := by
    obtain ⟨hnode, hstays⟩ := (d'.remove_file path).1 hnode
    refine (d.remove_file path).2 ⟨h.files l content number hnode, fun hends => hstays ?_⟩
    -- a path that leads there on the first disk does so on the second
    exact ⟨(h.refuses_eq _).trans hends.1, h.toKeeps.locate hends.2⟩
  lost l content number hnode := by
    obtain ⟨hnode, hstays⟩ := (d.remove_file path).1 hnode
    by_cases hends : d'.refuses d'.steps (.remove path) = false ∧ d'.locate path = .at l
    · rcases h.reach path hp l hends.2 with hl | hextra
      · exact absurd ⟨(h.refuses_eq _).symm.trans hends.1, hl⟩ hstays
      · exact .inr hextra
    · exact (h.lost l content number hnode).imp_left fun hnode' =>
        (d'.remove_file path).2 ⟨hnode', hends⟩
  reach q hq l hl := by
    have hbefore : d'.locate q = .at l := (d'.keeps_of_remove path).locate hl
    exact (h.reach q hq l hbefore).imp_left (d.quiet_remove path).toKeeps.locate

theorem removeAll (h : Behind paths extra d d') {removed : List String}
    (hremoved : ∀ p ∈ removed, p ∈ paths) :
    Behind paths extra (removed.foldl Disk.remove d) (removed.foldl Disk.remove d') := by
  induction removed generalizing d d' with
  | nil => exact h
  | cons p rest ih =>
    exact ih (h.remove (hremoved p List.mem_cons_self)) fun q hq =>
      hremoved q (List.mem_cons_of_mem p hq)

end Behind

end Disk

namespace CredentialStore

variable {s : CredentialStore} {key : Key} {path : String} {content : Bytes} {e : Error}

/-- **A write that fails**, at whichever step, leaves the files as they are and notes nothing. -/
theorem write_error (h : (s.write key path content).1 = .error e) :
    (s.write key path content).2.written = s.written ∧
      s.disk.SameFiles (s.write key path content).2.disk := by
  have hsame : ∀ done d, s.prepared path = (done, d) → s.disk.SameFiles d := fun done d hprepared =>
    .of_leaves (quiet_prepared hprepared).toKeeps (leaves_prepared hprepared)
      (back_prepared hprepared)
  cases s.write_ends key path content with
  | kept _ _ _ hanswer | replaced _ _ _ _ _ hanswer =>
    rw [hanswer] at h
    cases h
  | blocked d _ hprepared _ hstore =>
    rw [hstore]
    exact ⟨rfl, hsame _ d hprepared⟩
  | refused d d' _ hprepared hreplace _ hstore =>
    rw [hstore]
    exact ⟨rfl, (hsame _ d hprepared).trans (Disk.sameFiles_replace hreplace)⟩

theorem store_error (h : (s.store key path content).1 = .error e) :
    (s.store key path content).2.written = s.written ∧
      s.disk.SameFiles (s.store key path content).2.disk := by
  rw [store_eq] at h ⊢
  exact write_error (map_eq_error.1 h)

/-- The same store at another moment. -/
def later (s : CredentialStore) (steps : Nat) : CredentialStore :=
  { s with disk := { s.disk with steps } }

theorem sameFiles_later (s : CredentialStore) (steps : Nat) :
    s.disk.SameFiles (s.later steps).disk := .of_nodes rfl rfl rfl

theorem later_sameFiles (s : CredentialStore) (steps : Nat) :
    (s.later steps).disk.SameFiles s.disk := .of_nodes rfl rfl rfl

/-- **Stores with the same index and the same files**, of which the second has more directories,
remove the same files at the same moment, apart from those that paths lead to again. -/
theorem invalidate_behind {s' : CredentialStore} (hwritten : s'.written = s.written)
    (hfiles : s.disk.SameFiles s'.disk) (k : Key) (steps : Nat) :
    Disk.Behind (s.paths k) (fun l => ∃ path ∈ s.paths k, s.disk.Reopens s'.disk path l)
      ((s.later steps).invalidate k).disk ((s'.later steps).invalidate k).disk := by
  have hpaths : (s'.later steps).paths k = s.paths k := by
    show (s'.written.get? k).getD [] = _
    rw [hwritten, paths]
  have hlater : (s.later steps).disk.SameFiles (s'.later steps).disk :=
    ((s.later_sameFiles steps).trans hfiles).trans (s'.sameFiles_later steps)
  have hbehind : Disk.Behind (s.paths k)
      (fun l => ∃ path ∈ s.paths k, s.disk.Reopens s'.disk path l)
      (s.later steps).disk (s'.later steps).disk := by
    refine ⟨hlater.toKeeps, rfl, fun l content number => (hlater.files l content number).1,
      fun l content number hnode => .inl ((hlater.files l content number).2 hnode),
      fun path hp l hl => ?_⟩
    have hnow : s'.disk.locate path = .at l := (s'.later_sameFiles steps).toKeeps.locate hl
    exact (hfiles.toKeeps.locate_or_reopens hnow).imp
      (fun hbefore => (s.sameFiles_later steps).toKeeps.locate hbefore)
      fun hopens => ⟨path, hp, hopens⟩
  have hremoved := hbehind.removeAll fun p hp => hp
  show Disk.Behind _ _ ((s.paths k).foldl Disk.remove (s.later steps).disk)
    (((s'.later steps).paths k).foldl Disk.remove (s'.later steps).disk)
  rw [hpaths]
  exact hremoved

/-- **A failed write changes nothing.** Whichever step of storing a TLS file or parameters fails, on
any disk, every file is the same as before, no file is new and nothing is noted. So what would have
been removed at any later moment for any key is removed. What is removed in addition stands where a
noted path leads that led nowhere before: on a tree of directories this is a path that leads up
through a directory which was missing and which the attempt has made. -/
theorem failed_keeps {answer : Result String}
    (hcall : (∃ certificate keyText, answer = s.storeTls key certificate keyText) ∨
      ∃ parameters, answer = s.storeDh key parameters) (herror : answer.1 = .error e) :
    (∀ l content number, answer.2.disk.node? l = some (.file content number) ↔
      s.disk.node? l = some (.file content number)) ∧
      answer.2.written = s.written ∧
      ∀ k steps l content number,
        (((answer.2.later steps).invalidate k).disk.node? l = some (.file content number) →
          ((s.later steps).invalidate k).disk.node? l = some (.file content number)) ∧
        (((s.later steps).invalidate k).disk.node? l = some (.file content number) →
          ((answer.2.later steps).invalidate k).disk.node? l = some (.file content number) ∨
            ∃ path ∈ s.paths k, s.disk.Reopens answer.2.disk path l ∧
              (s.disk.IsTree → ".." ∈ Path.components path)) := by
  have hkept : answer.2.written = s.written ∧ s.disk.SameFiles answer.2.disk := by
    rcases hcall with ⟨certificate, keyText, rfl⟩ | ⟨parameters, rfl⟩
    · exact store_error herror
    · exact store_error herror
  obtain ⟨hwritten, hfiles⟩ := hkept
  refine ⟨hfiles.files, hwritten, fun k steps l content number => ?_⟩
  have hbehind := invalidate_behind hwritten hfiles k steps
  refine ⟨hbehind.files l content number, fun hleft => ?_⟩
  refine (hbehind.lost l content number hleft).imp_right ?_
  rintro ⟨path, hp, hopens⟩
  have hfile : s.disk.IsFile l :=
    ((s.later_sameFiles steps).isFile_iff l).2
      (((s.later steps).quiet_invalidate k).files l ⟨content, number, hleft⟩)
  exact ⟨path, hp, hopens, fun htree => htree.leads_up hfiles.toKeeps hopens hfile⟩

/-- A store with the parameters of a site, on a disk that has become full since. -/
def fullStore (directory : String) : CredentialStore :=
  let start : CredentialStore := { directory, disk := .empty, hash := id }
  let stored := (start.storeDh (webKey "site") [100]).2
  { stored with disk := { stored.disk with refuses := fun _ step => step matches .writeDraft _ } }

/-- New parameters can not be written. The old ones stay, and go when the site goes. -/
theorem failed_keeps_full :
    let site := ["home", "certs", "dhparam", "web_site.pem"]
    let answer := (fullStore "certs").storeDh (webKey "site") [101]
    answer.1 = .error .fileSystem ∧ answer.2.disk.node? site = some (.file [100] 0) ∧
      ∀ steps, ¬ ∃ content number,
        ((answer.2.later steps).invalidate (webKey "site")).disk.node? site =
          some (.file content number) := by
  intro site answer
  have herror : answer.1 = .error .fileSystem := by decide +kernel
  have hsite : (fullStore "certs").disk.node? site = some (.file [100] 0) := by decide +kernel
  obtain ⟨hfiles, -, hremoved⟩ := failed_keeps (.inr ⟨_, rfl⟩) herror
  refine ⟨herror, (hfiles site [100] 0).2 hsite, fun steps => ?_⟩
  rintro ⟨content, number, hnode⟩
  have hleft := (hremoved (webKey "site") steps site content number).1 hnode
  have hnone : (((fullStore "certs").later steps).invalidate (webKey "site")).disk.node? site =
      none := rfl
  rw [hnone] at hleft
  cases hleft

/-- Someone has removed the directory that the paths lead up through. -/
def cutStore : CredentialStore :=
  let full := fullStore "a/../b"
  { full with disk := { full.disk with nodes := full.disk.nodes.erase ["home", "a"] } }

/-- The parameters of the site are out of reach, until an attempt makes the directory anew. -/
theorem cutStore_storeDh :
    let site := ["home", "b", "dhparam", "web_site.pem"]
    let answer := cutStore.storeDh (webKey "site") [101]
    cutStore.disk.IsTree ∧ answer.1 = .error .fileSystem ∧
      ((cutStore.later 0).invalidate (webKey "site")).disk.node? site = some (.file [100] 0) ∧
      ((answer.2.later 0).invalidate (webKey "site")).disk.node? site = none := by
  decide +kernel

/-- **A failed write can bring a file within reach of a removal**, also on a tree. -/
theorem not_removes_same :
    ¬ ∀ (s : CredentialStore) (key : Key) (parameters : Bytes) (e : Error), s.disk.IsTree →
      (s.storeDh key parameters).1 = .error e → ∀ k steps l content number,
        ((((s.storeDh key parameters).2.later steps).invalidate k).disk.node? l =
            some (.file content number) ↔
          ((s.later steps).invalidate k).disk.node? l = some (.file content number)) := by
  intro hsame
  obtain ⟨htree, herror, hleft, hgone⟩ := cutStore_storeDh
  have hkept := (hsame cutStore (webKey "site") [101] .fileSystem htree herror (webKey "site") 0
    ["home", "b", "dhparam", "web_site.pem"] [100] 0).2 hleft
  rw [hgone] at hkept
  cases hkept

end CredentialStore

end IngressWatch
