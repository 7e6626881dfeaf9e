import IngressWatch.CredentialStore
import IngressWatch.Proofs.Files
import IngressWatch.Proofs.Results

/-!
# What the credential store writes and notes

* `CredentialStore.filePaths`: the paths that a key can have files at.
* `CredentialStore.Recorded`: a file that is noted for a key.
* `CredentialStore.Extends`: what storing credentials of a key may do. **Every new file is recorded
  for that key**, also when a later step fails.
* `CredentialStore.write_ends`: the four ways in which a write can end.
* `CredentialStore.Removable`: only such paths are noted, and they can be removed.
* `CredentialStore.not_recorded_of_isFile_invalidateAll`: after keys are invalidated, no file that
  was recorded for one of them is left.
-/

namespace IngressWatch.CredentialStore

/-- The paths that a key can have files at. -/
def filePaths (directory : String) (key : Key) : List String :=
  [tlsPath directory key, caPath directory key, crlPath directory key, dhPath directory key]

/-- The paths noted for a key. -/
def paths (s : CredentialStore) (key : Key) : List String := (s.written.get? key).getD []

/-- A place that a path noted for the key leads to. -/
def Recorded (s : CredentialStore) (key : Key) (l : Location) : Prop :=
  ∃ path ∈ s.paths key, s.disk.locate path = .at l

/-- **What storing credentials of a key may do.** -/
structure Extends (key : Key) (s s' : CredentialStore) : Prop where
  directory : s'.directory = s.directory
  keeps : s.disk.Keeps s'.disk
  others : ∀ k, k ≠ key → s'.written.get? k = s.written.get? k
  noted : ∀ path ∈ s.paths key, path ∈ s'.paths key
  own : ∀ path ∈ s'.paths key, path ∈ s.paths key ∨ path ∈ filePaths s.directory key
  files : ∀ l, s'.disk.IsFile l → s.disk.IsFile l ∨ s'.Recorded key l

variable {key : Key} {s s' s'' : CredentialStore}

theorem Recorded.extend (h : Extends key s s') {k : Key} {l : Location} (hr : s.Recorded k l) :
    s'.Recorded k l := by
  obtain ⟨path, hp, hl⟩ := hr
  refine ⟨path, ?_, h.keeps.locate hl⟩
  by_cases hk : k = key
  · subst hk
    exact h.noted path hp
  · rw [paths, h.others k hk]
    exact hp

namespace Extends

theorem refl (key : Key) (s : CredentialStore) : Extends key s s :=
  ⟨rfl, .refl _, fun _ _ => rfl, fun _ h => h, fun _ h => .inl h, fun _ h => .inl h⟩

theorem trans (h : Extends key s s') (h' : Extends key s' s'') : Extends key s s'' where
  directory := h'.directory.trans h.directory
  keeps := h.keeps.trans h'.keeps
  others k hk := (h'.others k hk).trans (h.others k hk)
  noted path hp := h'.noted path (h.noted path hp)
  own path hp := by
    rcases h'.own path hp with hp | hp
    · exact h.own path hp
    · rw [h.directory] at hp
      exact .inr hp
  files l hl := by
    rcases h'.files l hl with hl | hr
    · exact (h.files l hl).imp_right fun hr => hr.extend h'
    · exact .inr hr

theorem of_quiet {d : Disk} (h : s.disk.Quiet d) : Extends key s { s with disk := d } :=
  ⟨rfl, h.toKeeps, fun _ _ => rfl, fun _ hp => hp, fun _ hp => .inl hp,
    fun l hl => .inl (h.files l hl)⟩

end Extends

theorem mem_paths_track {s : CredentialStore} {key : Key} {path p : String} :
    p ∈ (s.track key path).paths key ↔ p ∈ s.paths key ∨ p = path := by
  rw [paths, track, Table.get?_insert, if_pos rfl, Option.getD_some]
  split
  · rename_i hp
    exact ⟨.inl, fun h => h.elim id fun h => h ▸ hp⟩
  · rw [List.mem_append, List.mem_singleton]
    rfl

/-- Noting a path. A file may have been put in place where it leads. -/
theorem extends_track {d : Disk} {path : String} (hp : path ∈ filePaths s.directory key)
    (hd : s.disk.Keeps d) (hf : ∀ l, d.IsFile l → s.disk.IsFile l ∨ s.disk.locate path = .at l) :
    Extends key s ({ s with disk := d }.track key path) where
  directory := rfl
  keeps := hd
  others k hk := by
    show (s.written.insert key _).get? k = _
    rw [Table.get?_insert, if_neg hk]
  noted p hmem := mem_paths_track.2 (.inl hmem)
  own p hmem := by
    rcases mem_paths_track.1 hmem with hmem | rfl
    · exact .inl hmem
    · exact .inr hp
  files l hl := by
    rcases hf l hl with h | h
    · exact .inl h
    · exact .inr ⟨path, mem_paths_track.2 (.inr rfl), hd.locate h⟩

/-! ## Writes -/

/-- The disk that a file is put on: an old file was looked for, and the directories were made. -/
def prepared (s : CredentialStore) (path : String) : Bool × Disk :=
  (s.disk.read path).2.makeParents path

/-- **How a write ends**: the file is kept, or it can not be replaced, or it is. -/
inductive WriteEnds (s : CredentialStore) (key : Key) (path : String) (content : Bytes)
    (answer : Except Error Bool) (s' : CredentialStore) : Prop where
  /-- The file has the content already. -/
  | kept (old : Bytes) (hread : (s.disk.read path).1 = some old)
    (hsame : s.sameContent old content = true)
    (hanswer : answer = .ok false)
    (hstore : s' = { s with disk := (s.disk.read path).2 }.track key path)
  /-- A directory can not be made. -/
  | blocked (d : Disk)
    (hchanged : ∀ old, (s.disk.read path).1 = some old → s.sameContent old content = false)
    (hprepared : s.prepared path = (false, d))
    (hanswer : answer = .error .fileSystem) (hstore : s' = { s with disk := d })
  /-- The file can not be put in place. -/
  | refused (d d' : Disk)
    (hchanged : ∀ old, (s.disk.read path).1 = some old → s.sameContent old content = false)
    (hprepared : s.prepared path = (true, d)) (hreplace : d.replace path content = (false, d'))
    (hanswer : answer = .error .fileSystem) (hstore : s' = { s with disk := d' })
  /-- The file is put in place and noted. -/
  | replaced (d d' : Disk)
    (hchanged : ∀ old, (s.disk.read path).1 = some old → s.sameContent old content = false)
    (hprepared : s.prepared path = (true, d)) (hreplace : d.replace path content = (true, d'))
    (hanswer : answer = .ok true) (hstore : s' = { s with disk := d' }.track key path)

theorem write_ends (s : CredentialStore) (key : Key) (path : String) (content : Bytes) :
    s.WriteEnds key path content (s.write key path content).1 (s.write key path content).2 := by
  unfold write
  dsimp only
  split
  · rename_i hkept
    obtain ⟨old, hread, hsame⟩ := (Option.any_eq_true _ _).1 hkept
    exact .kept old hread hsame rfl rfl
  · rename_i hkept
    have hchanged : ∀ old, (s.disk.read path).1 = some old →
        s.sameContent old content = false := fun old hread =>
      Bool.eq_false_iff.2 fun hsame => hkept ((Option.any_eq_true _ _).2 ⟨old, hread, hsame⟩)
    split
    · rename_i d hprepared
      exact .blocked d hchanged hprepared rfl rfl
    · rename_i d hprepared
      split
      · rename_i d' hreplace
        exact .refused d d' hchanged hprepared hreplace rfl rfl
      · rename_i d' hreplace
        exact .replaced d d' hchanged hprepared hreplace rfl rfl

theorem makeParents_of_prepared {path : String} {done : Bool} {d : Disk}
    (h : s.prepared path = (done, d)) : ((s.disk.read path).2.makeParents path).2 = d :=
  congrArg Prod.snd h

theorem quiet_prepared {path : String} {done : Bool} {d : Disk}
    (h : s.prepared path = (done, d)) : s.disk.Quiet d := by
  rw [← makeParents_of_prepared h]
  exact (s.disk.quiet_read path).trans ((s.disk.read path).2.quiet_makeParents path)

/-- **A write** for a key, whether it succeeds or not. -/
theorem extends_write {path : String} (hp : path ∈ filePaths s.directory key)
    (content : Bytes) : Extends key s (s.write key path content).2 := by
  cases s.write_ends key path content with
  | kept old _ _ _ hstore =>
    rw [hstore]
    have hread : Extends key s { s with disk := (s.disk.read path).2 } :=
      .of_quiet (s.disk.quiet_read path)
    exact hread.trans (extends_track hp (.refl _) fun l hl => .inl hl)
  | blocked d _ hprepared _ hstore =>
    rw [hstore]
    exact .of_quiet (quiet_prepared hprepared)
  | refused d d' _ hprepared hreplace _ hstore =>
    rw [hstore]
    exact .of_quiet ((quiet_prepared hprepared).trans (Disk.quiet_replace hreplace))
  | replaced d d' _ hprepared hreplace _ hstore =>
    rw [hstore]
    -- only here a file is made, and its path is noted at once
    obtain ⟨hkeeps, l, hl, hfiles⟩ := Disk.keeps_replace hreplace
    have hparents : Extends key s { s with disk := d } := .of_quiet (quiet_prepared hprepared)
    refine hparents.trans (extends_track hp hkeeps fun l' hl' => ?_)
    rcases hfiles l' hl' with h | rfl
    · exact .inl h
    · exact .inr hl

/-- **To store a file** is to write it and to answer with its path. -/
theorem store_eq (s : CredentialStore) (key : Key) (path : String) (content : Bytes) :
    s.store key path content =
      ((s.write key path content).1.map fun _ => path, (s.write key path content).2) := by
  unfold store
  rcases s.write key path content with ⟨e | _, s'⟩ <;> rfl

theorem extends_store {path : String} (hp : path ∈ filePaths s.directory key)
    (content : Bytes) : Extends key s (s.store key path content).2 := by
  rw [store_eq]
  exact extends_write hp content

theorem extends_storeTls (s : CredentialStore) (key : Key) (certificate keyText : Bytes) :
    Extends key s (s.storeTls key certificate keyText).2 :=
  extends_store (by simp [filePaths]) _

/-- The revocation list may fail when the bundle is already there. -/
theorem extends_storeCa (s : CredentialStore) (key : Key) (ca : Bytes) (crl : Option Bytes) :
    Extends key s (s.storeCa key ca crl).2 := by
  have h : Extends key s (s.store key (caPath s.directory key) ca).2 :=
    extends_store (by simp [filePaths]) ca
  unfold storeCa
  split
  · rename_i hs
    rw [hs] at h
    exact h
  · rename_i hs
    rw [hs] at h
    exact h
  · rename_i path s₁ content hs
    rw [hs] at h
    have h₁ : Extends key s₁ (s₁.store key (crlPath s₁.directory key) content).2 :=
      extends_store (by simp [filePaths]) content
    split <;>
    · rename_i hc
      rw [hc] at h₁
      exact h.trans h₁

theorem extends_storeDh (s : CredentialStore) (key : Key) (parameters : Bytes) :
    Extends key s (s.storeDh key parameters).2 :=
  extends_store (by simp [filePaths]) parameters

/-! ## Invalidation -/

/-- Whether the removal of a credential file is never refused. -/
def Removes (s : CredentialStore) : Prop :=
  ∀ n key, ∀ path ∈ filePaths s.directory key, s.disk.refuses n (.remove path) = false

/-- **A store that can remove what it has noted.** -/
structure Removable (s : CredentialStore) : Prop where
  own : ∀ key, ∀ path ∈ s.paths key, path ∈ filePaths s.directory key
  removes : s.Removes

theorem Removes.keep (h : s.Removes) (hd : s'.directory = s.directory)
    (hk : s.disk.Keeps s'.disk) : s'.Removes := by
  intro n key path hp
  rw [hd] at hp
  rw [hk.refuses]
  exact h n key path hp

theorem Removable.extend (h : s.Removable) (he : Extends key s s') : s'.Removable := by
  refine ⟨fun k path hp => ?_, h.removes.keep he.directory he.keeps⟩
  rw [he.directory]
  by_cases hk : k = key
  · subst hk
    exact (he.own path hp).elim (h.own k path) id
  · rw [paths, he.others k hk] at hp
    exact h.own k path hp

theorem quiet_invalidate (s : CredentialStore) (key : Key) :
    s.disk.Quiet (s.invalidate key).disk := s.disk.quiet_removeAll _

/-- The paths of the key are forgotten, and no others. -/
theorem paths_invalidate (s : CredentialStore) (key k : Key) :
    (s.invalidate key).paths k = if k = key then [] else s.paths k := by
  have hget : (s.invalidate key).written.get? k = if k = key then none else s.written.get? k :=
    Table.get?_erase s.written key k
  rw [paths, hget]
  split
  · rfl
  · rfl

theorem Removable.invalidate (h : s.Removable) (key : Key) : (s.invalidate key).Removable := by
  refine ⟨fun k path hp => ?_, h.removes.keep rfl (s.quiet_invalidate key).toKeeps⟩
  rw [paths_invalidate] at hp
  split at hp
  · cases hp
  · exact h.own k path hp

/-- **After its key is invalidated, no recorded file is left.** -/
theorem not_isFile_invalidate (h : s.Removable) {l : Location} (hr : s.Recorded key l) :
    ¬ (s.invalidate key).disk.IsFile l := by
  obtain ⟨path, hp, hl⟩ := hr
  exact Disk.not_isFile_removeAll (fun n p hmem => h.removes n key p (h.own key p hmem)) hp hl

def invalidateAll (s : CredentialStore) (keys : List Key) : CredentialStore :=
  keys.foldl invalidate s

theorem directory_invalidateAll (s : CredentialStore) (keys : List Key) :
    (s.invalidateAll keys).directory = s.directory := by
  induction keys generalizing s with
  | nil => rfl
  | cons k ks ih => exact ih (s.invalidate k)

theorem quiet_invalidateAll (s : CredentialStore) (keys : List Key) :
    s.disk.Quiet (s.invalidateAll keys).disk := by
  induction keys generalizing s with
  | nil => exact .refl _
  | cons k ks ih => exact (s.quiet_invalidate k).trans (ih _)

theorem Removable.invalidateAll (h : s.Removable) (keys : List Key) :
    (s.invalidateAll keys).Removable := by
  induction keys generalizing s with
  | nil => exact h
  | cons k ks ih => exact ih (h.invalidate k)

/-- The index forgets exactly the invalidated keys. -/
theorem written_invalidateAll (s : CredentialStore) (keys : List Key) (k : Key) :
    (s.invalidateAll keys).written.get? k = if k ∈ keys then none else s.written.get? k := by
  induction keys generalizing s with
  | nil => rfl
  | cons j keys ih =>
    show ((s.invalidate j).invalidateAll keys).written.get? k = _
    rw [ih]
    show (if k ∈ keys then none else (s.written.erase j).get? k) = _
    rw [Table.get?_erase]
    by_cases hj : k = j
    · simp [hj]
    · simp [hj]

/-- What is recorded for a key that is not invalidated stays recorded. -/
theorem Recorded.invalidateAll {k : Key} {l : Location} (hr : s.Recorded k l) {keys : List Key}
    (hk : k ∉ keys) : (s.invalidateAll keys).Recorded k l := by
  obtain ⟨path, hp, hl⟩ := hr
  refine ⟨path, ?_, (s.quiet_invalidateAll keys).toKeeps.locate hl⟩
  rw [paths, written_invalidateAll, if_neg hk]
  exact hp

/-- **No file is left that was recorded for an invalidated key.** -/
theorem not_recorded_of_isFile_invalidateAll (h : s.Removable) {keys : List Key} {l : Location}
    (hl : (s.invalidateAll keys).disk.IsFile l) {k : Key} (hk : k ∈ keys) : ¬ s.Recorded k l := by
  induction keys generalizing s with
  | nil => cases hk
  | cons j keys ih =>
    intro hr
    by_cases hj : k = j
    · -- the file went with the first key, and no removal brings it back
      subst hj
      exact not_isFile_invalidate h hr (((s.invalidate k).quiet_invalidateAll keys).files l hl)
    · have hkept : (s.invalidateAll [j]).Recorded k l := hr.invalidateAll (by simpa using hj)
      exact ih (h.invalidate j) hl ((List.mem_cons.1 hk).resolve_left hj) hkept

end IngressWatch.CredentialStore
