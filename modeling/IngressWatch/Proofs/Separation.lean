import IngressWatch.Proofs.FileNames
import IngressWatch.Proofs.Store

/-!
# Files of different secrets are kept apart

Credentials of several secrets are stored and invalidated in turn. What is done for one of them
does not reach the files of another.

* `CredentialStore.Touches`: nothing is touched but the files of some paths.
* `CredentialStore.write_cases`: what a write does. It touches one file.
* `CredentialStore.Op`, `CredentialStore.perform`: what is done for a key, and which files it is to
  write.
* `CredentialStore.Guards`: the invariant of a run, for one file of one key.
* `CredentialStore.run_separate`: **a file keeps what was stored last for its key**, and no other
  key changes or removes it, unless the two go by one name: a revocation list and a bundle of its
  twin.
-/

namespace IngressWatch.CredentialStore

variable {s s' s'' : CredentialStore} {key other : Key} {role role' : Role}

/-! ## What is touched -/

/-- **Nothing is touched but the files of some paths.** -/
structure Touches (touched : List String) (s s' : CredentialStore) : Prop where
  directory : s'.directory = s.directory
  hash : s'.hash = s.hash
  keeps : s.disk.Keeps s'.disk
  leaves : ∀ l, (∀ path ∈ touched, l ≠ s.disk.goal path) → Disk.Leaves l s.disk s'.disk

/-- The file of a path holds the content, or another of the same fingerprint. -/
def Shows (s : CredentialStore) (path : String) (content : Bytes) : Prop :=
  ∃ found number, s.disk.nodeAt? path = some (.file found number) ∧
    s.sameContent found content = true

theorem sameContent_refl (s : CredentialStore) (content : Bytes) :
    s.sameContent content content = true := by
  rw [sameContent, beq_self_eq_true]

namespace Touches

variable {touched : List String}

theorem nil (s : CredentialStore) : Touches [] s s := ⟨rfl, rfl, .refl _, fun l _ => .refl l _⟩

theorem cons {path : String} (h : Touches [path] s s') (h' : Touches touched s' s'') :
    Touches (path :: touched) s s'' where
  directory := h'.directory.trans h.directory
  hash := h'.hash.trans h.hash
  keeps := h.keeps.trans h'.keeps
  leaves l hl := by
    obtain ⟨hpath, hrest⟩ := List.forall_mem_cons.1 hl
    refine (h.leaves l (List.forall_mem_singleton.2 hpath)).trans (h'.leaves l fun p hp => ?_)
    rw [h.keeps.goal_eq]
    exact hrest p hp

/-- A file elsewhere is found as before. -/
theorem nodeAt? (h : Touches touched s s') {path : String}
    (hne : ∀ p ∈ touched, s.disk.goal path ≠ s.disk.goal p) {content : Bytes} {number : Nat}
    (hnode : s.disk.nodeAt? path = some (.file content number)) :
    s'.disk.nodeAt? path = some (.file content number) :=
  (h.leaves _ hne).nodeAt? h.keeps hnode

theorem shows (h : Touches touched s s') {path : String}
    (hne : ∀ p ∈ touched, s.disk.goal path ≠ s.disk.goal p) {content : Bytes}
    (hs : s.Shows path content) : s'.Shows path content := by
  obtain ⟨found, number, hnode, hsame⟩ := hs
  refine ⟨found, number, h.nodeAt? hne hnode, ?_⟩
  rwa [sameContent, h.hash]

end Touches

theorem leaves_prepared {path : String} {done : Bool} {d : Disk}
    (h : s.prepared path = (done, d)) (l : Location) : Disk.Leaves l s.disk d := by
  rw [← makeParents_of_prepared h]
  exact (Disk.leaves_read l s.disk path).trans (Disk.leaves_makeParents l _ path)

theorem back_prepared {path : String} {done : Bool} {d : Disk}
    (h : s.prepared path = (done, d)) (l : Location) : Disk.Leaves l d s.disk := by
  rw [← makeParents_of_prepared h]
  exact ((s.disk.read path).2.back_makeParents l path).trans (s.disk.back_read l path)

/-- **A write** touches its file only. If it succeeds, the file holds the content and is noted. -/
theorem write_cases (s : CredentialStore) (key : Key) (path : String) (content : Bytes) :
    Touches [path] s (s.write key path content).2 ∧
      ((∃ e, (s.write key path content).1 = .error e) ∨
        (s.write key path content).2.written = (s.track key path).written ∧
          (s.write key path content).2.Shows path content) := by
  have hleaves : ∀ d done d', s.prepared path = (true, d) →
      d.replace path content = (done, d') →
        ∀ l, (∀ p ∈ [path], l ≠ s.disk.goal p) → Disk.Leaves l s.disk d' := by
    intro d done d' hprepared hreplace l hne
    rw [List.forall_mem_singleton, ← (quiet_prepared hprepared).goal_eq] at hne
    exact (leaves_prepared hprepared l).trans (Disk.leaves_replace hreplace hne)
  cases s.write_ends key path content with
  | kept old hread hsame hanswer hstore =>
    rw [hanswer, hstore]
    have hkeeps := (s.disk.quiet_read path).toKeeps
    have hleft := fun l => Disk.leaves_read l s.disk path
    obtain ⟨number, hnode⟩ := Disk.nodeAt?_of_read hread
    exact ⟨⟨rfl, rfl, hkeeps, fun l _ => hleft l⟩,
      .inr ⟨rfl, old, number, (hleft _).nodeAt? hkeeps hnode, hsame⟩⟩
  | blocked d _ hprepared hanswer hstore =>
    rw [hanswer, hstore]
    exact ⟨⟨rfl, rfl, (quiet_prepared hprepared).toKeeps, fun l _ => leaves_prepared hprepared l⟩,
      .inl ⟨_, rfl⟩⟩
  | refused d d' _ hprepared hreplace hanswer hstore =>
    rw [hanswer, hstore]
    have hquiet := (quiet_prepared hprepared).trans (Disk.quiet_replace hreplace)
    exact ⟨⟨rfl, rfl, hquiet.toKeeps, hleaves d _ d' hprepared hreplace⟩, .inl ⟨_, rfl⟩⟩
  | replaced d d' _ hprepared hreplace hanswer hstore =>
    rw [hanswer, hstore]
    have hkeeps := (quiet_prepared hprepared).toKeeps.trans (Disk.keeps_replace hreplace).1
    exact ⟨⟨rfl, rfl, hkeeps, hleaves d _ d' hprepared hreplace⟩,
      .inr ⟨rfl, content, _, Disk.nodeAt?_replace hreplace, s.sameContent_refl content⟩⟩

/-- No file is made elsewhere. -/
theorem back_write {l : Location} {path : String} (hne : l ≠ s.disk.goal path) (k : Key)
    (content : Bytes) : Disk.Leaves l (s.write k path content).2.disk s.disk := by
  cases s.write_ends k path content with
  | kept _ _ _ _ hstore =>
    rw [hstore]
    exact s.disk.back_read l path
  | blocked d _ hprepared _ hstore =>
    rw [hstore]
    exact back_prepared hprepared l
  | refused d d' _ hprepared hreplace _ hstore | replaced d d' _ hprepared hreplace _ hstore =>
    rw [hstore]
    rw [← (quiet_prepared hprepared).goal_eq] at hne
    exact (Disk.back_replace hreplace hne).trans (back_prepared hprepared l)

/-- **What storing a file does**, and what it answers. -/
theorem store_cases (s : CredentialStore) (key : Key) (path : String) (content : Bytes) :
    Touches [path] s (s.store key path content).2 ∧
      ((∃ e, (s.store key path content).1 = .error e) ∨
        (s.store key path content).1 = .ok path ∧
          (s.store key path content).2.written = (s.track key path).written ∧
            (s.store key path content).2.Shows path content) := by
  obtain ⟨htouches, hwrite⟩ := s.write_cases key path content
  rw [store_eq]
  cases hanswer : (s.write key path content).1 with
  | error e => exact ⟨htouches, .inl ⟨e, rfl⟩⟩
  | ok _ =>
    rw [hanswer] at hwrite
    obtain ⟨e, he⟩ | h := hwrite
    · cases he
    · exact ⟨htouches, .inr ⟨rfl, h⟩⟩

theorem back_store {l : Location} {path : String} (hne : l ≠ s.disk.goal path) (k : Key)
    (content : Bytes) : Disk.Leaves l (s.store k path content).2.disk s.disk := by
  rw [store_eq]
  exact back_write hne k content

theorem touches_invalidate (s : CredentialStore) (key : Key) :
    Touches (s.paths key) s (s.invalidate key) :=
  ⟨rfl, rfl, (s.quiet_invalidate key).toKeeps, fun _ hne => Disk.leaves_removeAll hne⟩

/-! ## Operations -/

/-- What is done with the credentials of a key. -/
inductive Op where
  | tls (certificate keyText : Bytes)
  | ca (bundle : Bytes) (crl : Option Bytes)
  | dh (parameters : Bytes)
  | invalidate

/-- What an operation is to store, and in which files. -/
def Op.writes : Op → List (Role × Bytes)
  | .tls certificate keyText => [(.tls, tlsContent certificate keyText)]
  | .ca bundle none => [(.ca, bundle)]
  | .ca bundle (some crl) => [(.ca, bundle), (.crl, crl)]
  | .dh parameters => [(.dh, parameters)]
  | .invalidate => []

/-- An operation for a key. It answers with the files that it stored. -/
def perform (s : CredentialStore) (key : Key) : Op → Result (List (Role × String))
  | .tls certificate keyText =>
    let (answer, s) := s.storeTls key certificate keyText
    (answer.map fun path => [(.tls, path)], s)
  | .ca bundle crl =>
    let (answer, s) := s.storeCa key bundle crl
    (answer.map fun paths => (.ca, paths.1) :: (paths.2.map (Role.crl, ·)).toList, s)
  | .dh parameters =>
    let (answer, s) := s.storeDh key parameters
    (answer.map fun path => [(.dh, path)], s)
  | .invalidate => (.ok [], s.invalidate key)

/-- Some files of a key, stored in order until one fails. -/
def storeAll (s : CredentialStore) (key : Key) :
    List (Role × Bytes) → Result (List (Role × String))
  | [] => (.ok [], s)
  | (role, content) :: rest =>
    match s.store key (role.path s.directory key) content with
    | (.error e, s) => (.error e, s)
    | (.ok path, s) =>
      ((s.storeAll key rest).1.map ((role, path) :: ·), (s.storeAll key rest).2)

/-- **To store credentials is to store the files that they are for.** -/
theorem perform_eq_storeAll {op : Op} (h : op ≠ .invalidate) :
    s.perform key op = s.storeAll key op.writes := by
  cases op with
  | tls certificate keyText =>
    dsimp only [perform, storeTls, Op.writes, storeAll, Role.path]
    rcases s.store key (tlsPath s.directory key) (tlsContent certificate keyText)
      with ⟨_ | path, s₁⟩ <;> rfl
  | dh parameters =>
    dsimp only [perform, storeDh, Op.writes, storeAll, Role.path]
    rcases s.store key (dhPath s.directory key) parameters with ⟨_ | path, s₁⟩ <;> rfl
  | ca bundle crl =>
    cases crl with
    | none =>
      dsimp only [perform, storeCa, Op.writes, storeAll, Role.path]
      rcases s.store key (caPath s.directory key) bundle with ⟨_ | path, s₁⟩ <;> rfl
    | some crl =>
      dsimp only [perform, storeCa, Op.writes, storeAll, Role.path]
      rcases s.store key (caPath s.directory key) bundle with ⟨_ | path, s₁⟩
      · rfl
      · dsimp only
        rcases s₁.store key (crlPath s₁.directory key) crl with ⟨_ | path', s₂⟩ <;> rfl
  | invalidate => exact absurd rfl h

/-- **Storing files** touches no others. If it succeeds, it answers with their paths. -/
theorem storeAll_cases (s : CredentialStore) (key : Key) (ws : List (Role × Bytes)) :
    Touches (ws.map fun w => w.1.path s.directory key) s (s.storeAll key ws).2 ∧
      ((∃ e, (s.storeAll key ws).1 = .error e) ∨
        (s.storeAll key ws).1 = .ok (ws.map fun w => (w.1, w.1.path s.directory key))) := by
  induction ws generalizing s with
  | nil => exact ⟨.nil s, .inr rfl⟩
  | cons w ws ih =>
    obtain ⟨htouches, hstore⟩ := s.store_cases key (w.1.path s.directory key) w.2
    unfold storeAll
    split
    · rename_i e s₁ heq
      rw [heq] at htouches
      refine ⟨⟨htouches.directory, htouches.hash, htouches.keeps, fun l hl => ?_⟩, .inl ⟨e, rfl⟩⟩
      exact htouches.leaves l (List.forall_mem_singleton.2 (hl _ List.mem_cons_self))
    · rename_i path s₁ heq
      rw [heq] at htouches hstore
      obtain ⟨e, he⟩ | ⟨hpath, -⟩ := hstore
      · cases he
      · obtain rfl := Except.ok.inj hpath
        obtain ⟨hrest, hanswer⟩ := ih s₁
        rw [htouches.directory] at hrest hanswer
        refine ⟨htouches.cons hrest, ?_⟩
        rcases hanswer with ⟨e, he⟩ | hanswer
        · rw [he]
          exact .inl ⟨e, rfl⟩
        · rw [hanswer]
          exact .inr rfl

/-- **To store several files** is to store the first and then the others. -/
theorem storeAll_cons {w : Role × Bytes} {ws : List (Role × Bytes)}
    (hok : (s.storeAll key (w :: ws)).1.isOk) :
    (s.store key (w.1.path s.directory key) w.2).1.isOk ∧
      ((s.store key (w.1.path s.directory key) w.2).2.storeAll key ws).1.isOk ∧
        (s.storeAll key (w :: ws)).2 =
          ((s.store key (w.1.path s.directory key) w.2).2.storeAll key ws).2 := by
  rw [storeAll] at hok ⊢
  generalize s.store key (w.1.path s.directory key) w.2 = first at hok ⊢
  obtain ⟨e | path, s₁⟩ := first
  · cases hok
  · refine ⟨rfl, ?_, rfl⟩
    dsimp only at hok ⊢
    cases hrest : (s₁.storeAll key ws).1 with
    | ok files => rfl
    | error e =>
      rw [hrest] at hok
      cases hok

/-- The paths of the files that an operation may touch. -/
def Op.touched (s : CredentialStore) (key : Key) : Op → List String
  | .invalidate => s.paths key
  | op => op.writes.map fun w => w.1.path s.directory key

theorem Op.touched_of_ne {op : Op} (h : op ≠ .invalidate) :
    op.touched s key = op.writes.map fun w => w.1.path s.directory key := by
  cases op with
  | invalidate => exact absurd rfl h
  | _ => rfl

theorem touches_perform (s : CredentialStore) (key : Key) (op : Op) :
    Touches (op.touched s key) s (s.perform key op).2 := by
  by_cases hop : op = .invalidate
  · subst hop
    exact s.touches_invalidate key
  · rw [perform_eq_storeAll hop, Op.touched_of_ne hop]
    exact (s.storeAll_cases key op.writes).1

/-- **What is answered** is where the files stand that were to be stored. -/
theorem answer_perform {op : Op} {files : List (Role × String)}
    (h : (s.perform key op).1 = .ok files) :
    files = op.writes.map fun w => (w.1, w.1.path s.directory key) := by
  by_cases hop : op = .invalidate
  · subst hop
    exact (Except.ok.inj h).symm
  · rw [perform_eq_storeAll hop] at h
    obtain ⟨e, he⟩ | hanswer := (s.storeAll_cases key op.writes).2
    · rw [he] at h
      cases h
    · rw [hanswer] at h
      exact (Except.ok.inj h).symm

/-! ## One file among others -/

/-- What some writes leave in a file that held `old`. -/
def overwritten (role : Role) (ws : List (Role × Bytes)) (old : Option Bytes) : Option Bytes :=
  ws.foldl (fun old w => if w.1 = role then some w.2 else old) old

theorem overwritten_cons (role : Role) (w : Role × Bytes) (ws : List (Role × Bytes))
    (old : Option Bytes) : overwritten role (w :: ws) old =
      overwritten role ws (if w.1 = role then some w.2 else old) := rfl

/-- What an operation leaves in a file of its key. -/
def Op.leaves (role : Role) (old : Option Bytes) : Op → Option Bytes
  | .invalidate => none
  | op => overwritten role op.writes old

/-- **What was stored last** in a file of a key, if that was not invalidated since. -/
def lastStored (key : Key) (role : Role) (ops : List (Key × Op)) : Option Bytes :=
  ops.foldl (fun old p => if p.1 = key then p.2.leaves role old else old) none

/-- An operation for `other` stores no file that goes by the name of this one. -/
def Op.Spares (key : Key) (role : Role) (other : Key) (op : Op) : Prop :=
  ∀ w ∈ op.writes, ¬ Role.Meets key role other w.1

instance (key : Key) (role : Role) (other : Key) (op : Op) :
    Decidable (op.Spares key role other) :=
  inferInstanceAs (Decidable (∀ w ∈ op.writes, ¬ Role.Meets key role other w.1))

/-- **A file is kept**: it holds what was stored last, and no path is noted that leads to it for
another key. -/
structure Guards (s : CredentialStore) (key : Key) (role : Role) (last : Option Bytes) : Prop where
  shows : ∀ content ∈ last, s.Shows (role.path s.directory key) content
  noted : ∀ k, ∀ path ∈ s.paths k, k.Plain ∧
    ∃ role', path = role'.path s.directory k ∧ ¬ Role.Meets key role k role'

theorem mem_paths_iff_of_track {path p : String} {k : Key}
    (h : s'.written = (s.track other path).written) :
    p ∈ s'.paths k ↔ p ∈ s.paths k ∨ k = other ∧ p = path := by
  rw [paths, h]
  by_cases hk : k = other
  · subst hk
    exact mem_paths_track.trans (or_congr_right ⟨fun hp => ⟨rfl, hp⟩, fun hp => hp.2⟩)
  · rw [track, Table.get?_insert, if_neg hk]
    exact ⟨.inl, fun hp => hp.elim id fun hown => absurd hown.1 hk⟩

namespace Guards

variable {last : Option Bytes} (h : s.Guards key role last) (hkey : key.Plain)
include h hkey

/-- **A file of any key** is stored. -/
theorem store (hother : other.Plain) (hmeets : ¬ Role.Meets key role other role') (content : Bytes)
    (hok : (s.store other (role'.path s.directory other) content).1.isOk) :
    (s.store other (role'.path s.directory other) content).2.Guards key role
      (if other = key ∧ role' = role then some content else last) := by
  obtain ⟨htouches, ⟨e, herror⟩ | ⟨-, hwritten, hshows⟩⟩ :=
    s.store_cases other (role'.path s.directory other) content
  · rw [herror] at hok
    cases hok
  refine ⟨fun content' hcontent' => ?_, fun k p hp => ?_⟩
  · rw [htouches.directory]
    split at hcontent'
    · rename_i hown
      obtain ⟨rfl, rfl⟩ := hown
      obtain rfl := Option.some.inj hcontent'
      exact hshows
    · rename_i hown
      refine htouches.shows (List.forall_mem_singleton.2 fun hgoal => ?_)
        (h.shows content' hcontent')
      rcases Role.goal_path_inj hkey hother hgoal with ⟨rfl, rfl⟩ | hmeets'
      · exact hown ⟨rfl, rfl⟩
      · exact hmeets hmeets'
  · rw [htouches.directory]
    rcases (mem_paths_iff_of_track hwritten).1 hp with hp | ⟨rfl, rfl⟩
    · exact h.noted k p hp
    · exact ⟨hother, role', rfl, hmeets⟩

omit hkey in
/-- What an operation for another key may touch stands elsewhere. -/
theorem apart (hkey : key.Plain) (hother : other.Plain) (hne : other ≠ key) (op : Op)
    (hspares : op.Spares key role other) :
    ∀ p ∈ op.touched s other, s.disk.goal (role.path s.directory key) ≠ s.disk.goal p := by
  intro p hp hgoal
  have hfile : other.Plain ∧ ∃ role', p = role'.path s.directory other ∧
      ¬ Role.Meets key role other role' := by
    by_cases hop : op = .invalidate
    · subst hop
      exact h.noted other p hp
    · rw [Op.touched_of_ne hop] at hp
      obtain ⟨w, hw, rfl⟩ := List.mem_map.1 hp
      exact ⟨hother, w.1, rfl, hspares w hw⟩
  obtain ⟨-, role', rfl, hmeets⟩ := hfile
  rcases Role.goal_path_inj hkey hother hgoal with ⟨rfl, -⟩ | hmeets'
  · exact hne rfl
  · exact hmeets hmeets'

/-- **Several files of any key** are stored. -/
theorem storeAll (hother : other.Plain) {ws : List (Role × Bytes)}
    (hmeets : ∀ w ∈ ws, ¬ Role.Meets key role other w.1) (hok : (s.storeAll other ws).1.isOk) :
    (s.storeAll other ws).2.Guards key role
      (if other = key then overwritten role ws last else last) := by
  induction ws generalizing s last with
  | nil =>
    rw [overwritten, List.foldl_nil, ite_self]
    exact h
  | cons w ws ih =>
    obtain ⟨hokFirst, hokRest, hstore⟩ := storeAll_cons hok
    have hfirst := h.store hkey hother (hmeets w List.mem_cons_self) w.2 hokFirst
    have hall := ih hfirst (fun w' hw' => hmeets w' (List.mem_cons_of_mem _ hw')) hokRest
    rw [hstore, overwritten_cons]
    by_cases hown : other = key
    · simpa only [hown, true_and, if_true] using hall
    · simpa only [hown, false_and, if_false] using hall

/-- **The files of any key** are removed. -/
theorem invalidate (hother : other.Plain) :
    (s.invalidate other).Guards key role (if other = key then none else last) := by
  refine ⟨fun content hcontent => ?_, fun k path hp => ?_⟩
  · split at hcontent
    · cases hcontent
    · rename_i hne
      have hapart := h.apart hkey hother hne .invalidate fun w hw => by cases hw
      exact (s.touches_invalidate other).shows hapart (h.shows content hcontent)
  · rw [paths_invalidate] at hp
    split at hp
    · cases hp
    · exact h.noted k path hp

/-- **One operation** for any key. -/
theorem perform (hother : other.Plain) {op : Op} (hspares : op.Spares key role other)
    (hok : (s.perform other op).1.isOk) :
    (s.perform other op).2.Guards key role (if other = key then op.leaves role last else last) := by
  by_cases hop : op = .invalidate
  · subst hop
    exact h.invalidate hkey hother
  · have hleaves : op.leaves role last = overwritten role op.writes last := by
      cases op with
      | invalidate => exact absurd rfl hop
      | _ => rfl
    rw [perform_eq_storeAll hop] at hok ⊢
    rw [hleaves]
    exact h.storeAll hkey hother hspares hok

end Guards

/-! ## Runs -/

/-- The store after some operations. -/
def after (s : CredentialStore) (ops : List (Key × Op)) : CredentialStore :=
  ops.foldl (fun s p => (s.perform p.1 p.2).2) s

/-- All operations succeed. -/
def AllSucceed (s : CredentialStore) : List (Key × Op) → Prop
  | [] => True
  | p :: rest => (s.perform p.1 p.2).1.isOk ∧ AllSucceed (s.perform p.1 p.2).2 rest

instance decidableAllSucceed : (s : CredentialStore) → (ops : List (Key × Op)) →
    Decidable (s.AllSucceed ops)
  | _, [] => instDecidableTrue
  | s, p :: rest =>
    have := decidableAllSucceed (s.perform p.1 p.2).2 rest
    inferInstanceAs (Decidable ((s.perform p.1 p.2).1.isOk ∧ AllSucceed (s.perform p.1 p.2).2 rest))

theorem directory_after (s : CredentialStore) (ops : List (Key × Op)) :
    (s.after ops).directory = s.directory := by
  induction ops generalizing s with
  | nil => rfl
  | cons p ops ih =>
    exact (ih (s.perform p.1 p.2).2).trans (s.touches_perform p.1 p.2).directory

/-- **A whole run.** -/
theorem Guards.run {last : Option Bytes} (h : s.Guards key role last) (hkey : key.Plain)
    {ops : List (Key × Op)} (hplain : ∀ p ∈ ops, p.1.Plain)
    (hspares : ∀ p ∈ ops, p.2.Spares key role p.1) (hok : s.AllSucceed ops) :
    (s.after ops).Guards key role
      (ops.foldl (fun old p => if p.1 = key then p.2.leaves role old else old) last) := by
  induction ops generalizing s last with
  | nil => exact h
  | cons p ops ih =>
    refine ih (h.perform hkey (hplain p List.mem_cons_self) (hspares p List.mem_cons_self) hok.1)
      (fun q hq => hplain q (List.mem_cons_of_mem _ hq))
      (fun q hq => hspares q (List.mem_cons_of_mem _ hq)) hok.2

/-- **Files of different secrets are kept apart.** A store starts with an empty index, on any disk,
and credentials of any secrets of a cluster are stored and invalidated in any order without a
failure. A file of one of them holds what was stored last, where the caller was told, unless its
name is that of another's: then the one is a revocation list and the other a bundle. Whatever is
done next for another secret leaves the file as it is, also if it fails halfway. -/
theorem run_separate (hwritten : s.written = {}) {ops : List (Key × Op)} (hkey : key.IsDns)
    (hdns : ∀ p ∈ ops, p.1.IsDns) (hok : s.AllSucceed ops)
    (hspares : ∀ p ∈ ops, p.2.Spares key role p.1) :
    let last := s.after ops
    let path := role.path s.directory key
    (∀ before op rest, ops = before ++ (key, op) :: rest →
        ∀ files, ((s.after before).perform key op).1 = .ok files →
          ∀ p, (role, p) ∈ files → p = path) ∧
      (∀ content ∈ lastStored key role ops, last.Shows path content) ∧
      ∀ other op, other ≠ key → other.IsDns → op.Spares key role other →
        ∀ content number, last.disk.nodeAt? path = some (.file content number) →
          (last.perform other op).2.disk.nodeAt? path = some (.file content number) := by
  intro last path
  have hstart : s.Guards key role none := by
    refine ⟨fun content hc => (by cases hc), fun k p hp => ?_⟩
    rw [paths, hwritten] at hp
    cases hp
  have hlast : last.Guards key role (lastStored key role ops) :=
    hstart.run hkey.plain (fun p hp => (hdns p hp).plain) hspares hok
  have hpath : role.path last.directory key = path := by
    rw [s.directory_after ops]
  refine ⟨fun before op rest _ files hfiles p hp => ?_, fun content hc => ?_, ?_⟩
  · rw [answer_perform hfiles] at hp
    obtain ⟨w, -, hw⟩ := List.mem_map.1 hp
    obtain ⟨rfl, rfl⟩ := Prod.ext_iff.1 hw
    exact congrArg (fun d => w.1.path d key) (s.directory_after before)
  · rw [← hpath]
    exact hlast.shows content hc
  · intro other op hne hother hspares content number hnode
    rw [← hpath] at hnode ⊢
    exact (last.touches_perform other op).nodeAt?
      (hlast.apart hkey.plain hother.plain hne op hspares) hnode

/-- A key of the namespace of a site. -/
def webKey (name : String) : Key := ⟨"web", name⟩

theorem isDns_site : (webKey "site").IsDns where
  ns := ⟨by decide, by decide, by decide⟩
  name := ⟨by decide, by decide, by decide⟩

theorem isDns_siteCrl : (webKey "site-crl").IsDns where
  ns := ⟨by decide, by decide, by decide⟩
  name := ⟨by decide, by decide, by decide⟩

/-- A store without files. -/
def emptyStore : CredentialStore := { directory := "certs", disk := Disk.empty }

/-- A site has a bundle with a revocation list. Its twin has other files only, which are removed
in the end. -/
def siteOps : List (Key × Op) :=
  [(webKey "site", .ca [98] (some [108])), (webKey "site-crl", .tls [99] [107]),
    (webKey "site-crl", .dh [100]), (webKey "site-crl", .invalidate)]

/-- The revocation list of the site is there still. -/
theorem run_separate_site :
    emptyStore.written = {} ∧ (webKey "site").IsDns ∧ (∀ p ∈ siteOps, p.1.IsDns) ∧
      emptyStore.AllSucceed siteOps ∧ (∀ p ∈ siteOps, p.2.Spares (webKey "site") .crl p.1) ∧
      lastStored (webKey "site") .crl siteOps = some [108] ∧
      (emptyStore.after siteOps).Shows (Role.crl.path "certs" (webKey "site")) [108] := by
  have hdns : ∀ p ∈ siteOps, p.1.IsDns :=
    List.forall_mem_cons.2 ⟨isDns_site, List.forall_mem_cons.2 ⟨isDns_siteCrl,
      List.forall_mem_cons.2 ⟨isDns_siteCrl, List.forall_mem_singleton.2 isDns_siteCrl⟩⟩⟩
  have hok : emptyStore.AllSucceed siteOps := by decide +kernel
  have hspares : ∀ p ∈ siteOps, p.2.Spares (webKey "site") .crl p.1 := by decide
  have hlast : lastStored (webKey "site") .crl siteOps = some [108] := rfl
  exact ⟨rfl, isDns_site, hdns, hok, hspares, hlast,
    (run_separate rfl isDns_site hdns hok hspares).2.1 [108] hlast⟩

/-- The twin's bundle is the revocation list of the site, and goes with the site. -/
def twinOps : List (Key × Op) :=
  [(webKey "site", .ca [98] (some [108])), (webKey "site-crl", .ca [108] none),
    (webKey "site", .invalidate)]

/-- So a file need not stay until its own secret is stored anew or goes. -/
theorem not_separate :
    ¬ ∀ (s : CredentialStore) (ops : List (Key × Op)) (key : Key) (role : Role),
      s.written = {} → key.IsDns → (∀ p ∈ ops, p.1.IsDns) → s.AllSucceed ops →
        ∀ content ∈ lastStored key role ops,
          (s.after ops).Shows (role.path s.directory key) content := by
  intro h
  have hdns : ∀ p ∈ twinOps, p.1.IsDns :=
    List.forall_mem_cons.2 ⟨isDns_site, List.forall_mem_cons.2 ⟨isDns_siteCrl,
      List.forall_mem_singleton.2 isDns_site⟩⟩
  -- all goes well, and the file is gone
  have hlost : emptyStore.AllSucceed twinOps ∧ (emptyStore.after twinOps).disk.nodeAt?
      (Role.ca.path emptyStore.directory (webKey "site-crl")) = none := by decide +kernel
  obtain ⟨found, number, hnode, -⟩ :=
    h emptyStore twinOps (webKey "site-crl") .ca rfl isDns_siteCrl hdns hlost.1 [108] rfl
  rw [hlost.2] at hnode
  cases hnode

end IngressWatch.CredentialStore
