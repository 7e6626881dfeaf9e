import IngressWatch.Proofs.Custody
import IngressWatch.Proofs.FailedWrites
import IngressWatch.Proofs.Fingerprints

/-!
# The files are a map from paths to contents

The index of a store and its disk change apart: an unchanged content is noted without a write, two
keys may note one path, and a file may be gone when its path is still noted. To an observer of the
directory there is only a map from paths to contents.

* `Catalogue`: that map, with the paths that were stored for each key since it was last
  invalidated.
* `CredentialStore.write_calm`: what a write does on a disk that refuses nothing. It keeps the file
  that has the content, or puts a new one in place.
* `CredentialStore.Matches`: the files below the directory are those of a catalogue, and the index
  notes its paths.
* `CredentialStore.Matches.perform`: **every operation that succeeds keeps it so.**
* `CredentialStore.run_refines`: so it is after every run, files are replaced only by other
  contents, and none is left once all keys are invalidated.
-/

namespace IngressWatch

open CredentialStore (Op)

/-- **What a store should hold**: contents by path, and the paths that were stored for each key
since it was last invalidated. -/
structure Catalogue where
  content : String → Option Bytes
  stored : Key → List String

namespace Catalogue

def empty : Catalogue := ⟨fun _ => none, fun _ => []⟩

/-- A content is stored for a key. -/
def put (c : Catalogue) (key : Key) (path : String) (content : Bytes) : Catalogue where
  content p := if p = path then some content else c.content p
  stored k := if k = key then path :: c.stored k else c.stored k

/-- All that was stored for a key goes, whoever stored there last. -/
def clear (c : Catalogue) (key : Key) : Catalogue where
  content p := if p ∈ c.stored key then none else c.content p
  stored k := if k = key then [] else c.stored k

/-- What an operation should do. -/
def perform (directory : String) (c : Catalogue) (key : Key) : Op → Catalogue
  | .tls certificate keyText =>
    c.put key (CredentialStore.tlsPath directory key)
      (certificate ++ (if certificate.getLast? = some 10 then [] else [10]) ++ keyText)
  | .ca bundle none => c.put key (CredentialStore.caPath directory key) bundle
  | .ca bundle (some crl) =>
    (c.put key (CredentialStore.caPath directory key) bundle).put key
      (CredentialStore.crlPath directory key) crl
  | .dh parameters => c.put key (CredentialStore.dhPath directory key) parameters
  | .invalidate => c.clear key

def run (directory : String) (c : Catalogue) (ops : List (Key × Op)) : Catalogue :=
  ops.foldl (fun c p => c.perform directory p.1 p.2) c

/-- Some files of a key are stored. -/
def putAll (directory : String) (c : Catalogue) (key : Key) (ws : List (Role × Bytes)) :
    Catalogue :=
  ws.foldl (fun c w => c.put key (w.1.path directory key) w.2) c

variable {c : Catalogue} {directory : String} {key : Key}

theorem content_put_self (c : Catalogue) (key : Key) (path : String) (content : Bytes) :
    (c.put key path content).content path = some content := if_pos rfl

theorem content_put_of_ne {path p : String} (hp : p ≠ path) (content : Bytes) :
    (c.put key path content).content p = c.content p := if_neg hp

theorem mem_stored_put {path p : String} {content : Bytes} {k : Key} :
    p ∈ (c.put key path content).stored k ↔ p ∈ c.stored k ∨ k = key ∧ p = path := by
  unfold put
  dsimp only
  split
  · rename_i hk
    rw [List.mem_cons]
    exact ⟨fun h => h.symm.imp_right fun hp => ⟨hk, hp⟩, fun h => h.symm.imp_left fun hp => hp.2⟩
  · rename_i hk
    exact ⟨.inl, fun h => h.elim id fun hown => absurd hown.1 hk⟩

theorem content_clear_eq_some {path : String} {content : Bytes} :
    (c.clear key).content path = some content ↔
      path ∉ c.stored key ∧ c.content path = some content := by
  unfold clear
  dsimp only
  split
  · rename_i hmem
    exact ⟨nofun, fun h => absurd hmem h.1⟩
  · rename_i hmem
    exact ⟨fun h => ⟨hmem, h⟩, fun h => h.2⟩

theorem mem_stored_clear {p : String} {k : Key} :
    p ∈ (c.clear key).stored k ↔ k ≠ key ∧ p ∈ c.stored k := by
  unfold clear
  dsimp only
  split
  · rename_i hk
    exact ⟨fun h => absurd h List.not_mem_nil, fun h => absurd hk h.1⟩
  · rename_i hk
    exact ⟨fun h => ⟨hk, h⟩, fun h => h.2⟩

theorem perform_eq_putAll {op : Op} (h : op ≠ .invalidate) :
    c.perform directory key op = c.putAll directory key op.writes := by
  cases op with
  | ca bundle crl => cases crl <;> rfl
  | invalidate => exact absurd rfl h
  | _ => rfl

/-- Every content is stored for some key. -/
def Owned (c : Catalogue) : Prop := ∀ path, c.content path ≠ none → ∃ k, path ∈ c.stored k

theorem Owned.put (h : c.Owned) (key : Key) (path : String) (content : Bytes) :
    (c.put key path content).Owned := by
  intro p hp
  by_cases hpath : p = path
  · exact ⟨key, mem_stored_put.2 (.inr ⟨rfl, hpath⟩)⟩
  · rw [content_put_of_ne hpath] at hp
    obtain ⟨k, hk⟩ := h p hp
    exact ⟨k, mem_stored_put.2 (.inl hk)⟩

theorem Owned.clear (h : c.Owned) (key : Key) : (c.clear key).Owned := by
  intro p hp
  obtain ⟨content, hcontent⟩ := Option.ne_none_iff_exists'.1 hp
  obtain ⟨hkept, hbefore⟩ := content_clear_eq_some.1 hcontent
  obtain ⟨k, hk⟩ := h p (by rw [hbefore]; exact Option.some_ne_none content)
  -- what is left was stored for another key only
  have hkey : k ≠ key := by
    rintro rfl
    exact hkept hk
  exact ⟨k, mem_stored_clear.2 ⟨hkey, hk⟩⟩

/-- Nothing is stored for a key that no operation is for. -/
theorem stored_putAll_of_ne {k : Key} (hk : k ≠ key) (ws : List (Role × Bytes)) (c : Catalogue) :
    (c.putAll directory key ws).stored k = c.stored k := by
  induction ws generalizing c with
  | nil => rfl
  | cons w ws ih =>
    have hput : (c.put key (w.1.path directory key) w.2).stored k = c.stored k := if_neg hk
    exact (ih _).trans hput

theorem stored_perform_of_ne {k : Key} (hk : k ≠ key) (op : Op) (c : Catalogue) :
    (c.perform directory key op).stored k = c.stored k := by
  by_cases hop : op = .invalidate
  · subst hop
    exact if_neg hk
  · rw [perform_eq_putAll hop, stored_putAll_of_ne hk]

theorem stored_run_of_ne {k : Key} {ops : List (Key × Op)} (hk : ∀ p ∈ ops, p.1 ≠ k)
    (c : Catalogue) : (c.run directory ops).stored k = c.stored k := by
  induction ops generalizing c with
  | nil => rfl
  | cons p ops ih =>
    have hfirst : k ≠ p.1 := (hk p List.mem_cons_self).symm
    exact (ih (fun q hq => hk q (List.mem_cons_of_mem p hq)) _).trans
      (stored_perform_of_ne hfirst p.2 c)

/-- After its keys are cleared, nothing is stored for any of them. -/
theorem stored_clearAll {k : Key} (keys : List Key) (c : Catalogue)
    (h : k ∈ keys ∨ c.stored k = []) : (keys.foldl clear c).stored k = [] := by
  induction keys generalizing c with
  | nil => exact h.resolve_left List.not_mem_nil
  | cons j keys ih =>
    -- clearing another key stores nothing for this one
    refine ih (c.clear j) ?_
    by_cases hj : k = j
    · exact .inr (if_pos hj)
    · have hsame : (c.clear j).stored k = c.stored k := if_neg hj
      rw [hsame]
      exact h.imp_left fun hmem => (List.mem_cons.1 hmem).resolve_left hj

end Catalogue

namespace CredentialStore

/-- No file is stored twice by one operation. -/
theorem Op.nodup_writes (op : Op) : (op.writes.map Prod.fst).Nodup := by
  cases op with
  | ca bundle crl => cases crl <;> simp [Op.writes]
  | _ => simp [Op.writes]

variable {s s' : CredentialStore} {key : Key} {path : String} {content : Bytes}

/-! ## A write on a disk that refuses nothing -/

/-- **The file has the content already.** It stays, as all others do. -/
structure Kept (s s' : CredentialStore) (path : String) (content : Bytes) : Prop where
  same : s.disk.SameFiles s'.disk
  created : s'.disk.created = s.disk.created
  shown : ∃ number, s.disk.nodeAt? path = some (.file content number)

/-- **A new file** is put in place. It takes the next number, and all others stay. -/
structure Replaced (s s' : CredentialStore) (path : String) (content : Bytes) : Prop where
  changed : ∀ number, s.disk.nodeAt? path ≠ some (.file content number)
  created : s'.disk.created = s.disk.created + 1
  placed : s'.disk.nodeAt? path = some (.file content s.disk.created)
  back : ∀ l, l ≠ s.disk.goal path → Disk.Leaves l s'.disk s.disk

/-- **A write that succeeds** keeps the file that has the content, or puts a new one in place. -/
theorem write_calm (hhash : Function.Injective s.hash)
    (hcalm : ∀ n step, s.disk.refuses n step = false)
    (hok : (s.write key path content).1.isOk) :
    Kept s (s.write key path content).2 path content ∨
      Replaced s (s.write key path content).2 path content := by
  cases s.write_ends key path content with
  | kept old hread hsame _ hstore =>
    rw [hstore]
    obtain rfl := (sameContent_iff hhash).1 hsame
    exact .inl ⟨s.disk.sameFiles_read path, s.disk.created_read path, Disk.nodeAt?_of_read hread⟩
  | blocked _ _ _ hanswer | refused _ _ _ _ _ hanswer =>
    rw [hanswer] at hok
    cases hok
  | replaced d d' hchanged hprepared hreplace _ hstore =>
    have hback := fun l (hne : l ≠ s.disk.goal path) => back_write hne key content
    have hcreated : d.created = s.disk.created := by
      rw [← makeParents_of_prepared hprepared]
      exact ((s.disk.read path).2.created_makeParents path).trans (s.disk.created_read path)
    have hcreated' := Disk.created_replace hreplace
    have hplaced := Disk.nodeAt?_replace hreplace
    rw [hcreated] at hcreated' hplaced
    rw [hstore] at hback ⊢
    refine .inr ⟨fun number hnode => ?_, hcreated', hplaced, hback⟩
    -- a file with the content would have been read
    have hsame := hchanged content (Disk.read_of_nodeAt? (hcalm _ _) hnode)
    rw [sameContent_refl] at hsame
    cases hsame

theorem store_calm (hhash : Function.Injective s.hash)
    (hcalm : ∀ n step, s.disk.refuses n step = false)
    (hok : (s.store key path content).1.isOk) :
    Kept s (s.store key path content).2 path content ∨
      Replaced s (s.store key path content).2 path content := by
  rw [store_eq] at hok ⊢
  rw [isOk_map] at hok
  exact write_calm hhash hcalm hok

theorem back_storeAll {l : Location} {ws : List (Role × Bytes)}
    (hne : ∀ w ∈ ws, l ≠ s.disk.goal (w.1.path s.directory key))
    (hok : (s.storeAll key ws).1.isOk) :
    Disk.Leaves l (s.storeAll key ws).2.disk s.disk := by
  induction ws generalizing s with
  | nil => exact .refl l s.disk
  | cons w ws ih =>
    obtain ⟨-, hokRest, hstore⟩ := storeAll_cons hok
    have htouches := (s.store_cases key (w.1.path s.directory key) w.2).1
    have hfirst := back_store (hne w List.mem_cons_self) key w.2
    rw [hstore]
    refine (ih (fun v hv => ?_) hokRest).trans hfirst
    rw [htouches.directory, htouches.keeps.goal_eq]
    exact hne v (List.mem_cons_of_mem w hv)

/-! ## Stores that hold what they should -/

/-- A path that some key has a file at. -/
def IsFilePath (directory path : String) : Prop :=
  ∃ key : Key, key.Flat ∧ ∃ role : Role, path = role.path directory key

theorem IsFilePath.eq_of_goal {d : Disk} {directory path' : String}
    (h : IsFilePath directory path) (h' : IsFilePath directory path')
    (hgoal : d.goal path = d.goal path') : path = path' := by
  obtain ⟨key, hkey, role, rfl⟩ := h
  obtain ⟨key', hkey', role', rfl⟩ := h'
  exact Role.path_eq_of_goal hkey hkey' hgoal

theorem IsFilePath.below (h : IsFilePath s.directory path) : s.Below (s.disk.goal path) := by
  obtain ⟨key, hkey, role, rfl⟩ := h
  rw [Below, Role.goal_path s.disk s.directory hkey role, List.append_assoc]
  exact ⟨List.prefix_append _ _, by simp⟩

/-- **A store holds what it should**: its files are those of the catalogue, and its index has the
paths that were stored for each key. -/
structure Matches (s : CredentialStore) (c : Catalogue) : Prop where
  hash : Function.Injective s.hash
  calm : ∀ n step, s.disk.refuses n step = false
  filed : ∀ path content, c.content path = some content →
    ∃ number, s.disk.nodeAt? path = some (.file content number)
  files : ∀ l content number, s.Below l → s.disk.node? l = some (.file content number) →
    number < s.disk.created ∧ ∃ path, c.content path = some content ∧ s.disk.goal path = l
  noted : ∀ k path, path ∈ s.paths k ↔ path ∈ c.stored k
  owned : c.Owned
  known : ∀ k, ∀ path ∈ c.stored k, IsFilePath s.directory path

namespace Matches

variable {c : Catalogue} (h : s.Matches c)
include h

theorem isFilePath (hpath : c.content path = some content) : IsFilePath s.directory path := by
  obtain ⟨k, hk⟩ := h.owned path (by rw [hpath]; exact Option.some_ne_none content)
  exact h.known k path hk

/-- What the catalogue has at a path is what stands at its end. -/
theorem content_iff (hpath : IsFilePath s.directory path) :
    c.content path = some content ↔
      ∃ number, s.disk.nodeAt? path = some (.file content number) := by
  constructor
  · exact h.filed path content
  · rintro ⟨number, hnode⟩
    obtain ⟨-, path', hcontent, hgoal⟩ :=
      h.files _ content number hpath.below (Disk.node?_goal hnode)
    have hsame : path' = path := (h.isFilePath hcontent).eq_of_goal hpath hgoal
    rwa [hsame] at hcontent

/-- After a file was stored, it has the content and a number that was given before or just now. -/
theorem stands (hpath : IsFilePath s.directory path)
    (hok : (s.store key path content).1.isOk) :
    s.disk.created ≤ (s.store key path content).2.disk.created ∧
      ∃ number, number < (s.store key path content).2.disk.created ∧
        (s.store key path content).2.disk.nodeAt? path = some (.file content number) := by
  rcases store_calm h.hash h.calm hok with hkept | hreplaced
  · obtain ⟨number, hnode⟩ := hkept.shown
    have hleaves : Disk.Leaves (s.disk.goal path) s.disk (s.store key path content).2.disk :=
      fun content number => (hkept.same.files _ content number).2
    have hnumber : number < s.disk.created :=
      (h.files _ content number hpath.below (Disk.node?_goal hnode)).1
    rw [hkept.created]
    exact ⟨Nat.le_refl _, number, hnumber, hleaves.nodeAt? hkept.same.toKeeps hnode⟩
  · rw [hreplaced.created]
    exact ⟨by omega, _, by omega, hreplaced.placed⟩

/-- **A file is stored.** -/
theorem store (hpath : IsFilePath s.directory path) (hok : (s.store key path content).1.isOk) :
    (s.store key path content).2.Matches (c.put key path content) := by
  obtain ⟨hcreated, number, hnumber, hplaced⟩ := h.stands hpath hok
  obtain ⟨htouches, ⟨e, herror⟩ | ⟨-, hwritten, -⟩⟩ := s.store_cases key path content
  · rw [herror] at hok
    cases hok
  have hback := fun l (hne : l ≠ s.disk.goal path) => back_store hne key content
  set s' := (s.store key path content).2
  have hgoal := htouches.keeps.goal_eq
  constructor
  case hash =>
    rw [htouches.hash]
    exact h.hash
  case calm =>
    rw [htouches.keeps.refuses]
    exact h.calm
  case filed =>
    intro p content' hp
    by_cases hp' : p = path
    · rw [hp', Catalogue.content_put_self] at hp
      obtain rfl := Option.some.inj hp
      exact ⟨number, hp' ▸ hplaced⟩
    · rw [Catalogue.content_put_of_ne hp'] at hp
      obtain ⟨number, hnode⟩ := h.filed p content' hp
      -- another path leads elsewhere, so its file is not touched
      have hapart : s.disk.goal p ≠ s.disk.goal path := fun hsame =>
        hp' ((h.isFilePath hp).eq_of_goal hpath hsame)
      exact ⟨number, htouches.nodeAt? (List.forall_mem_singleton.2 hapart) hnode⟩
  case files =>
    intro l content' number' hl hnode
    by_cases hplace : l = s.disk.goal path
    · -- this is the file that was stored
      have hnode' := Disk.node?_goal hplaced
      rw [hgoal, ← hplace, hnode] at hnode'
      obtain ⟨rfl, rfl⟩ := Node.file.inj (Option.some.inj hnode')
      exact ⟨hnumber, path, Catalogue.content_put_self .., by rw [hgoal, hplace]⟩
    · have hbelow : s.Below l := (below_iff htouches.directory htouches.keeps).1 hl
      obtain ⟨hbefore, p, hp, hplace'⟩ :=
        h.files l content' number' hbelow (hback l hplace content' number' hnode)
      have hp' : p ≠ path := by
        rintro rfl
        exact hplace hplace'.symm
      refine ⟨by omega, p, ?_, by rw [hgoal, hplace']⟩
      rwa [Catalogue.content_put_of_ne hp']
  case noted =>
    intro k p
    rw [mem_paths_iff_of_track hwritten, Catalogue.mem_stored_put, h.noted]
  case owned => exact h.owned.put key path content
  case known =>
    intro k p hp
    rw [htouches.directory]
    rcases Catalogue.mem_stored_put.1 hp with hp | ⟨-, rfl⟩
    · exact h.known k p hp
    · exact hpath

/-- **Several files of a key** are stored. -/
theorem storeAll (hkey : key.Flat) {ws : List (Role × Bytes)}
    (hok : (s.storeAll key ws).1.isOk) :
    (s.storeAll key ws).2.Matches (c.putAll s.directory key ws) := by
  induction ws generalizing s c with
  | nil => exact h
  | cons w ws ih =>
    obtain ⟨hokFirst, hokRest, hstore⟩ := storeAll_cons hok
    have hfirst := h.store ⟨key, hkey, w.1, rfl⟩ hokFirst
    have hall := ih hfirst hokRest
    rw [(s.store_cases key (w.1.path s.directory key) w.2).1.directory] at hall
    rw [hstore]
    exact hall

/-- **The files of a key** are removed. -/
theorem invalidate (key : Key) : (s.invalidate key).Matches (c.clear key) := by
  have htouches := s.touches_invalidate key
  have hback := fun l => Disk.back_removeAll l s.disk (s.paths key)
  have hcreated : (s.invalidate key).disk.created = s.disk.created :=
    s.disk.created_removeAll (s.paths key)
  constructor
  case hash => exact h.hash
  case calm =>
    rw [htouches.keeps.refuses]
    exact h.calm
  case filed =>
    intro p content hp
    obtain ⟨hkept, hp⟩ := Catalogue.content_clear_eq_some.1 hp
    obtain ⟨number, hnode⟩ := h.filed p content hp
    refine ⟨number, htouches.nodeAt? (fun q hq hgoal => ?_) hnode⟩
    -- a removed path that led here would be this one
    have hstored : q ∈ c.stored key := (h.noted key q).1 hq
    have hsame : p = q := (h.isFilePath hp).eq_of_goal (h.known key q hstored) hgoal
    rw [hsame] at hkept
    exact hkept hstored
  case files =>
    intro l content number hl hnode
    have hbelow : s.Below l := (below_iff htouches.directory htouches.keeps).1 hl
    obtain ⟨hnumber, p, hp, hgoal⟩ :=
      h.files l content number hbelow (hback l content number hnode)
    have hkept : p ∉ c.stored key := by
      -- otherwise its file would be gone
      intro hstored
      obtain ⟨n, hfile⟩ := h.filed p content hp
      have hplace := Disk.locate_goal hfile
      rw [hgoal] at hplace
      exact Disk.not_isFile_removeAll (fun n q _ => h.calm n _) ((h.noted key p).2 hstored) hplace
        ⟨content, number, hnode⟩
    rw [hcreated]
    refine ⟨hnumber, p, Catalogue.content_clear_eq_some.2 ⟨hkept, hp⟩, ?_⟩
    rw [htouches.keeps.goal_eq, hgoal]
  case noted =>
    intro k p
    rw [paths_invalidate, Catalogue.mem_stored_clear, ← h.noted]
    by_cases hk : k = key
    · simp [hk]
    · simp [hk]
  case owned => exact h.owned.clear key
  case known =>
    intro k p hp
    exact h.known k p (Catalogue.mem_stored_clear.1 hp).2

/-- **An operation succeeds.** -/
theorem perform (hkey : key.Flat) {op : Op} (hok : (s.perform key op).1.isOk) :
    (s.perform key op).2.Matches (c.perform s.directory key op) := by
  by_cases hop : op = .invalidate
  · subst hop
    exact h.invalidate key
  · rw [perform_eq_storeAll hop] at hok ⊢
    rw [Catalogue.perform_eq_putAll hop]
    exact h.storeAll hkey hok

/-- **A whole run.** -/
theorem after {ops : List (Key × Op)} (hflat : ∀ p ∈ ops, p.1.Flat) (hok : s.AllSucceed ops) :
    (s.after ops).Matches (c.run s.directory ops) := by
  induction ops generalizing s c with
  | nil => exact h
  | cons p ops ih =>
    have hfirst := h.perform (hflat p List.mem_cons_self) hok.1
    have hrest := ih hfirst (fun q hq => hflat q (List.mem_cons_of_mem p hq)) hok.2
    rw [(s.touches_perform p.1 p.2).directory] at hrest
    exact hrest

theorem invalidateAll (keys : List Key) :
    (s.invalidateAll keys).Matches (keys.foldl Catalogue.clear c) := by
  induction keys generalizing s c with
  | nil => exact h
  | cons k keys ih => exact ih (h.invalidate k)

/-- **A file is replaced** exactly when its content is not that of the catalogue. -/
theorem renewed_store (hpath : IsFilePath s.directory path)
    (hok : (s.store key path content).1.isOk) :
    s.disk.goal path ∈ s.disk.renewed (s.store key path content).2.disk ↔
      c.content path ≠ some content := by
  rw [ne_eq, h.content_iff hpath, Disk.mem_renewed_iff]
  rcases store_calm h.hash h.calm hok with hkept | hreplaced
  · refine iff_of_false ?_ (not_not.2 hkept.shown)
    rintro ⟨found, number, hnode, hnew⟩
    exact hnew found ((hkept.same.files _ found number).1 hnode)
  · refine iff_of_true ?_ fun hshown => hshown.elim hreplaced.changed
    have hkeeps := (s.store_cases key path content).1.keeps
    have hnode := Disk.node?_goal hreplaced.placed
    rw [hkeeps.goal_eq] at hnode
    refine ⟨content, _, hnode, fun old hold => ?_⟩
    -- all files that were there have smaller numbers
    have hnumber := (h.files _ old _ hpath.below hold).1
    omega

/-- **Each of several files** is replaced exactly when its content is not that of the catalogue. -/
theorem renewed_storeAll (hkey : key.Flat) {ws : List (Role × Bytes)}
    (hroles : (ws.map Prod.fst).Nodup) (hok : (s.storeAll key ws).1.isOk) :
    ∀ w ∈ ws,
      s.disk.goal (w.1.path s.directory key) ∈ s.disk.renewed (s.storeAll key ws).2.disk ↔
        c.content (w.1.path s.directory key) ≠ some w.2 := by
  induction ws generalizing s c with
  | nil => exact fun w hw => absurd hw List.not_mem_nil
  | cons v ws ih =>
    obtain ⟨hfresh, hroles⟩ := List.nodup_cons.1 hroles
    obtain ⟨hokFirst, hokRest, hstore⟩ := storeAll_cons hok
    have hpath : IsFilePath s.directory (v.1.path s.directory key) := ⟨key, hkey, v.1, rfl⟩
    -- the files of different roles stand apart
    have hapart : ∀ w ∈ ws,
        s.disk.goal (w.1.path s.directory key) ≠ s.disk.goal (v.1.path s.directory key) := by
      intro w hw hgoal
      have hrole : w.1 = v.1 := Role.eq_of_goal hkey hgoal
      rw [← hrole] at hfresh
      exact hfresh (List.mem_map_of_mem hw)
    have htouches := (s.store_cases key (v.1.path s.directory key) v.2).1
    set s₁ := (s.store key (v.1.path s.directory key) v.2).2 with hs₁
    have hlater := (s₁.storeAll_cases key ws).1
    have hgoal : ∀ role : Role, s₁.disk.goal (role.path s₁.directory key) =
        s.disk.goal (role.path s.directory key) := by
      intro role
      rw [htouches.directory, htouches.keeps.goal_eq]
    rw [hstore]
    refine List.forall_mem_cons.2 ⟨?_, fun w hw => ?_⟩
    · -- the others leave the first as it is
      rw [← h.renewed_store hpath hokFirst]
      refine Disk.mem_renewed_congr (.refl _ _) (.refl _ _) ?_ ?_
      · refine back_storeAll (fun w hw => ?_) hokRest
        rw [hgoal]
        exact (hapart w hw).symm
      · refine hlater.leaves _ (List.forall_mem_map.2 fun w hw => ?_)
        rw [hgoal]
        exact (hapart w hw).symm
    · have hothers := ih (h.store hpath hokFirst) hroles hokRest w hw
      rw [hgoal, htouches.directory, Catalogue.content_put_of_ne fun hsame =>
        hapart w hw (congrArg s.disk.goal hsame)] at hothers
      rw [← hothers]
      refine Disk.mem_renewed_congr ?_ ?_ (.refl _ _) (.refl _ _)
      · exact htouches.leaves _ (List.forall_mem_singleton.2 (hapart w hw))
      · exact back_store (hapart w hw) key v.2

/-- **Exactly the files whose content changes** are replaced by an operation. -/
theorem renewed_perform (hkey : key.Flat) {op : Op} (hok : (s.perform key op).1.isOk)
    (l : Location) : l ∈ s.disk.renewed (s.perform key op).2.disk ↔
      ∃ w ∈ op.writes, s.disk.goal (w.1.path s.directory key) = l ∧
        c.content (w.1.path s.directory key) ≠ some w.2 := by
  -- what was there before is not new
  have hold : Disk.Leaves l (s.perform key op).2.disk s.disk →
      l ∉ s.disk.renewed (s.perform key op).2.disk := by
    intro hback hnew
    obtain ⟨content, number, hnode, hne⟩ := Disk.mem_renewed_iff.1 hnew
    exact hne content (hback content number hnode)
  by_cases hop : op = .invalidate
  · subst hop
    refine iff_of_false (hold (Disk.back_removeAll l s.disk (s.paths key))) ?_
    rintro ⟨w, hw, -⟩
    cases hw
  · rw [perform_eq_storeAll hop] at hok hold ⊢
    have hrenewed := h.renewed_storeAll hkey op.nodup_writes hok
    constructor
    · intro hnew
      by_contra hnone
      refine hold (back_storeAll (fun w hw hgoal => hnone ⟨w, hw, hgoal.symm, ?_⟩) hok) hnew
      rw [hgoal] at hnew
      exact (hrenewed w hw).1 hnew
    · rintro ⟨w, hw, rfl, hchanged⟩
      exact (hrenewed w hw).2 hchanged

end Matches

/-! ## Runs -/

theorem matches_empty (hhash : Function.Injective s.hash)
    (hcalm : ∀ n step, s.disk.refuses n step = false) (hwritten : s.written = {})
    (hempty : ∀ l, s.Below l → ¬ s.disk.IsFile l) : s.Matches .empty where
  hash := hhash
  calm := hcalm
  filed _ _ := nofun
  files l content number hl hnode := absurd ⟨content, number, hnode⟩ (hempty l hl)
  noted k path := by
    rw [paths, hwritten]
    exact Iff.rfl
  owned path hpath := absurd rfl hpath
  known k path hpath := absurd hpath List.not_mem_nil

/-- **The files are those of a map.** Without a failure and without collisions of fingerprints,
credentials of any keys are stored and invalidated in a directory without files. Each path of the
map leads to a file with its content, and each file is that of one path. What is stored next
replaces exactly the files whose content changes. Once all keys are invalidated, no file is left. -/
theorem run_refines (hhash : Function.Injective s.hash)
    (hcalm : ∀ n step, s.disk.refuses n step = false) (hwritten : s.written = {})
    (hempty : ∀ l, s.Below l → ¬ s.disk.IsFile l) {ops : List (Key × Op)}
    (hflat : ∀ p ∈ ops, p.1.Flat) (hok : s.AllSucceed ops) :
    let last := s.after ops
    let map := Catalogue.empty.run s.directory ops
    (∀ path content, map.content path = some content → ∃ l number, last.Below l ∧
      last.disk.locate path = .at l ∧ last.disk.node? l = some (.file content number)) ∧
    (∀ l content number, last.Below l → last.disk.node? l = some (.file content number) →
      ∃ path, map.content path = some content ∧ last.disk.locate path = .at l ∧
        ∀ other, map.content other ≠ none → last.disk.locate other = .at l → other = path) ∧
    (∀ key op, key.Flat → (last.perform key op).1.isOk → ∀ l,
      l ∈ last.disk.renewed (last.perform key op).2.disk ↔
        ∃ w ∈ op.writes, last.disk.goal (w.1.path s.directory key) = l ∧
          map.content (w.1.path s.directory key) ≠ some w.2) ∧
    ∀ keys, (∀ p ∈ ops, p.1 ∈ keys) → ∀ l, last.Below l →
      ¬ (last.invalidateAll keys).disk.IsFile l := by
  intro last map
  have hlast : last.Matches map := (matches_empty hhash hcalm hwritten hempty).after hflat hok
  have hdirectory : last.directory = s.directory := s.directory_after ops
  refine ⟨fun path content hcontent => ?_, fun l content number hl hnode => ?_,
    fun key op hkey hnext l => ?_, fun keys hkeys l hl => ?_⟩
  · obtain ⟨number, hnode⟩ := hlast.filed path content hcontent
    exact ⟨_, number, (hlast.isFilePath hcontent).below, Disk.locate_goal hnode,
      Disk.node?_goal hnode⟩
  · obtain ⟨-, path, hcontent, hgoal⟩ := hlast.files l content number hl hnode
    obtain ⟨number', hnode'⟩ := hlast.filed path content hcontent
    refine ⟨path, hcontent, ?_, fun other hother hplace => ?_⟩
    · rw [Disk.locate_goal hnode', hgoal]
    · obtain ⟨content', hcontent'⟩ := Option.ne_none_iff_exists'.1 hother
      have hsame : last.disk.goal other = last.disk.goal path :=
        (Disk.locate_eq_goal hplace).symm.trans hgoal.symm
      exact (hlast.isFilePath hcontent').eq_of_goal (hlast.isFilePath hcontent) hsame
  · rw [hlast.renewed_perform hkey hnext, hdirectory]
  · -- nothing is stored for any key any more
    have hcleared := hlast.invalidateAll keys
    have hstored : ∀ k, (keys.foldl Catalogue.clear map).stored k = [] := by
      intro k
      refine Catalogue.stored_clearAll keys map ?_
      by_cases hk : k ∈ keys
      · exact .inl hk
      · refine .inr (Catalogue.stored_run_of_ne (fun p hp heq => hk ?_) .empty)
        rw [← heq]
        exact hkeys p hp
    rintro ⟨content, number, hnode⟩
    have hbelow : (last.invalidateAll keys).Below l :=
      (below_iff (last.directory_invalidateAll keys)
        (last.quiet_invalidateAll keys).toKeeps).2 hl
    obtain ⟨-, path, hcontent, -⟩ := hcleared.files l content number hbelow hnode
    obtain ⟨k, hk⟩ := hcleared.owned path (by rw [hcontent]; exact Option.some_ne_none content)
    rw [hstored] at hk
    cases hk

/-- A store whose fingerprints are the contents themselves. -/
def plainStore : CredentialStore := { directory := "certs", disk := .empty, hash := id }

/-- Two keys of one file stem. -/
def leftKey : Key := ⟨"a_b", "c"⟩
def rightKey : Key := ⟨"a", "b_c"⟩

/-- Both keys have the same TLS file, which goes with the first of them. -/
def sharedOps : List (Key × Op) :=
  [(leftKey, .tls [99] [107]), (rightKey, .tls [99, 10] [107]), (leftKey, .invalidate),
    (rightKey, .ca [98] (some [108]))]

/-- The bundle is there. The TLS file is written anew with the content that it had before. -/
theorem run_refines_shared :
    let last := plainStore.after sharedOps
    let next := (last.perform rightKey (.tls [99] [107])).2
    Function.Injective plainStore.hash ∧ (∀ n step, plainStore.disk.refuses n step = false) ∧
      (∀ l, plainStore.Below l → ¬ plainStore.disk.IsFile l) ∧ (∀ p ∈ sharedOps, p.1.Flat) ∧
      plainStore.AllSucceed sharedOps ∧
      (∃ l number, last.Below l ∧ last.disk.locate (caPath "certs" rightKey) = .at l ∧
        last.disk.node? l = some (.file [98] number)) ∧
      ["home", "certs", "a_b_c.pem"] ∈ last.disk.renewed next.disk ∧
      ∀ l, last.Below l → ¬ (last.invalidateAll [leftKey, rightKey]).disk.IsFile l := by
  intro last next
  have hhash : Function.Injective plainStore.hash := Function.injective_id
  have hempty : ∀ l, plainStore.Below l → ¬ plainStore.disk.IsFile l := by
    rintro l - ⟨content, number, hnode⟩
    have hall : ∀ e ∈ plainStore.disk.nodes.entries, e.2 = .directory := by decide
    have hdirectory := hall _ (Table.mem_entries_iff.2 hnode)
    cases hdirectory
  have hleft : leftKey.Flat := ⟨by decide, by decide⟩
  have hright : rightKey.Flat := ⟨by decide, by decide⟩
  have hflat : ∀ p ∈ sharedOps, p.1.Flat :=
    List.forall_mem_cons.2 ⟨hleft, List.forall_mem_cons.2 ⟨hright,
      List.forall_mem_cons.2 ⟨hleft, List.forall_mem_singleton.2 hright⟩⟩⟩
  have hok : plainStore.AllSucceed sharedOps := by decide +kernel
  obtain ⟨hfiled, -, hreplaced, hcleared⟩ :=
    run_refines hhash (fun _ _ => rfl) rfl hempty hflat hok
  have hbundle : (Catalogue.empty.run plainStore.directory sharedOps).content
      (caPath "certs" rightKey) = some [98] := by decide +kernel
  have hgone : (Catalogue.empty.run plainStore.directory sharedOps).content
      (Role.tls.path plainStore.directory rightKey) = none := by decide +kernel
  have hnext : (last.perform rightKey (.tls [99] [107])).1.isOk := by decide +kernel
  have hgoal : last.disk.goal (Role.tls.path plainStore.directory rightKey) =
      ["home", "certs", "a_b_c.pem"] := by decide +kernel
  have hwritten : ["home", "certs", "a_b_c.pem"] ∈ last.disk.renewed next.disk := by
    rw [hreplaced rightKey (.tls [99] [107]) hright hnext]
    refine ⟨(.tls, tlsContent [99] [107]), List.mem_singleton_self _, hgoal, ?_⟩
    rw [hgone]
    exact (Option.some_ne_none _).symm
  exact ⟨hhash, fun _ _ => rfl, hempty, hflat, hok, hfiled _ _ hbundle, hwritten,
    hcleared [leftKey, rightKey] (by decide)⟩

end CredentialStore

end IngressWatch
