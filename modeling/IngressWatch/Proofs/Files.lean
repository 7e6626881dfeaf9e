import IngressWatch.Files.Disk
import Mathlib.Tactic.Set

/-!
# What the file operations leave alone

* `Disk.Keeps`: what no operation takes away. A path that led somewhere leads there still.
* `Disk.Quiet`: no file is made either, as by `Disk.read`, `Disk.makeParents` and `Disk.remove`.
* `Disk.Leaves`: a file stays as it is, as under any operation whose path leads elsewhere.
* `Disk.replace_cases`: a file is put in place only where its path leads, and only if the operation
  says so.
* `Disk.not_isFile_remove`: a removal that is not refused leaves no file where its path leads.
* `Disk.goal`: where a path leads once its directories exist.
* `Disk.mem_renewed_iff`: what a new file is. `Disk.created_replace` says that it has a new number.
-/

namespace IngressWatch.Disk

/-- A file stands at the location. -/
def IsFile (d : Disk) (l : Location) : Prop :=
  ∃ content number, d.node? l = some (.file content number)

/-- **What no operation takes away**: the current directory, what will be refused, and all
directories. -/
structure Keeps (d d' : Disk) : Prop where
  home : d'.home = d.home
  refuses : d'.refuses = d.refuses
  directories : ∀ l, d.node? l = some .directory → d'.node? l = some .directory

/-- Where a path leads once all directories on the way exist. -/
def goal (d : Disk) (path : String) : Location :=
  (Path.components path).foldl (fun l name => if name = ".." then l.dropLast else l ++ [name])
    (if Path.isAbsolute path then [] else d.home)

variable {d d' d'' : Disk}

namespace Keeps

theorem refl (d : Disk) : d.Keeps d := ⟨rfl, rfl, fun _ h => h⟩

theorem trans (h : d.Keeps d') (h' : d'.Keeps d'') : d.Keeps d'' :=
  ⟨h'.home.trans h.home, h'.refuses.trans h.refuses,
    fun l hl => h'.directories l (h.directories l hl)⟩

theorem of_nodes (hh : d'.home = d.home) (hr : d'.refuses = d.refuses) (hn : d'.nodes = d.nodes) :
    d.Keeps d' := ⟨hh, hr, fun l hl => by rw [node?, hn]; exact hl⟩

theorem follow (h : d.Keeps d') {names : List String} {l l' : Location}
    (hl : d.follow l names = .at l') : d'.follow l names = .at l' := by
  induction names generalizing l with
  | nil => exact hl
  | cons name rest ih =>
    unfold Disk.follow at hl ⊢
    cases hd : d.node? l with
    | none => rw [hd] at hl; cases hl
    | some node =>
      rw [hd] at hl
      cases node with
      | file content number => cases hl
      | directory =>
        rw [h.directories l hd]
        dsimp only at hl ⊢
        split at hl
        · rename_i hname
          rw [if_pos hname]
          exact ih hl
        · rename_i hname
          rw [if_neg hname]
          split at hl
          · rename_i hn
            rw [if_pos hn]
            exact ih hl
          · cases hl

/-- **A path that led somewhere leads there still.** -/
theorem locate (h : d.Keeps d') {path : String} {l : Location} (hl : d.locate path = .at l) :
    d'.locate path = .at l := by
  unfold Disk.locate locateNames at hl ⊢
  rw [h.home]
  split at hl
  · rename_i hu
    rw [if_pos hu]
    exact h.follow hl
  · cases hl

theorem goal_eq (h : d.Keeps d') (path : String) : d'.goal path = d.goal path := by
  rw [goal, goal, h.home]

end Keeps

theorem follow_eq_goal {names : List String} {l l' : Location} (h : d.follow l names = .at l') :
    l' = names.foldl (fun l name => if name = ".." then l.dropLast else l ++ [name]) l := by
  induction names generalizing l with
  | nil => exact (Found.at.inj h).symm
  | cons name rest ih =>
    unfold follow at h
    rw [List.foldl_cons]
    split at h
    · cases h
    · cases h
    · split at h
      · rename_i hname
        rw [if_pos hname]
        exact ih h
      · rename_i hname
        rw [if_neg hname]
        split at h
        · exact ih h
        · cases h

/-- A path that leads somewhere leads to its goal. -/
theorem locate_eq_goal {path : String} {l : Location} (h : d.locate path = .at l) :
    l = d.goal path := by
  unfold locate at h
  split at h
  · exact follow_eq_goal h
  · cases h

/-! ## The operations -/

/-- Nothing is taken away and no file is made. -/
structure Quiet (d d' : Disk) : Prop extends Keeps d d' where
  files : ∀ l, d'.IsFile l → d.IsFile l

theorem Quiet.refl (d : Disk) : d.Quiet d := ⟨.refl d, fun _ h => h⟩

theorem Quiet.trans (h : d.Quiet d') (h' : d'.Quiet d'') : d.Quiet d'' :=
  ⟨h.toKeeps.trans h'.toKeeps, fun l hl => h.files l (h'.files l hl)⟩

theorem Quiet.of_nodes (hh : d'.home = d.home) (hr : d'.refuses = d.refuses)
    (hn : d'.nodes = d.nodes) : d.Quiet d' := by
  refine ⟨⟨hh, hr, fun l hl => ?_⟩, ?_⟩
  · rw [node?, hn]
    exact hl
  · rintro l ⟨content, number, hl⟩
    rw [node?, hn] at hl
    exact ⟨content, number, hl⟩

theorem quiet_attempt (d : Disk) (s : FileStep) : d.Quiet (d.attempt s).2 := .of_nodes rfl rfl rfl

theorem quiet_read (d : Disk) (path : String) : d.Quiet (d.read path).2 := by
  have h := d.quiet_attempt (.read path)
  unfold read
  dsimp only
  split <;> exact h

theorem quiet_insert_directory (d : Disk) (l : Location) :
    d.Quiet { d with nodes := d.nodes.insert l .directory } := by
  refine ⟨⟨rfl, rfl, fun l' hl' => ?_⟩, ?_⟩
  · rw [node?, Table.get?_insert]
    split
    · rfl
    · exact hl'
  · rintro l' ⟨content, number, hl'⟩
    rw [node?, Table.get?_insert] at hl'
    split at hl'
    · cases hl'
    · exact ⟨content, number, hl'⟩

theorem quiet_makeDirectory (d : Disk) (absolute : Bool) (names : List String) :
    d.Quiet (d.makeDirectory absolute names).2 := by
  have h := d.quiet_attempt (.makeDirectory names)
  unfold makeDirectory
  dsimp only
  split
  · exact h
  · exact h
  · exact h
  · split
    · exact h
    · split
      · exact h
      · exact h.trans (quiet_insert_directory _ _)

/-- **What each made directory keeps**, making a directory and those above it keeps. All of them are
on the way to the last one. -/
theorem makeAll_induct_of_prefix {R : Disk → Disk → Prop} (hrefl : ∀ d, R d d)
    (htrans : ∀ d d' d'', R d d' → R d' d'' → R d d'') (absolute : Bool) {names : List String}
    (hmake : ∀ d made, made <+: names.reverse → R d (d.makeDirectory absolute made).2)
    (d : Disk) : R d (d.makeAll absolute names).2 := by
  induction names generalizing d with
  | nil => exact hrefl d
  | cons name above ih =>
    have h := hmake d (name :: above).reverse (List.prefix_refl _)
    have habove : above.reverse <+: (name :: above).reverse := by
      rw [List.reverse_cons]
      exact List.prefix_append _ _
    unfold makeAll
    dsimp only
    split
    · rename_i hm
      rw [hm] at h
      exact h
    · rename_i hm
      rw [hm] at h
      exact h
    · rename_i d₁ hm
      rw [hm] at h
      have h₂ := ih (fun d made hmade => hmake d made (hmade.trans habove)) d₁
      split
      · rename_i ha
        rw [ha] at h₂
        exact htrans _ _ _ h h₂
      · rename_i d₂ ha
        rw [ha] at h₂
        have h₃ := hmake d₂ (name :: above).reverse (List.prefix_refl _)
        split <;>
        · rename_i hm'
          rw [hm'] at h₃
          exact htrans _ _ _ (htrans _ _ _ h h₂) h₃

theorem makeAll_induct {R : Disk → Disk → Prop} (hrefl : ∀ d, R d d)
    (htrans : ∀ d d' d'', R d d' → R d' d'' → R d d'') (absolute : Bool)
    (hmake : ∀ d names, R d (d.makeDirectory absolute names).2) (d : Disk) (names : List String) :
    R d (d.makeAll absolute names).2 :=
  makeAll_induct_of_prefix hrefl htrans absolute (fun d made _ => hmake d made) d

theorem quiet_makeAll (d : Disk) (absolute : Bool) (names : List String) :
    d.Quiet (d.makeAll absolute names).2 :=
  makeAll_induct .refl (fun _ _ _ h h' => h.trans h') absolute
    (fun d => d.quiet_makeDirectory absolute) d names

theorem quiet_makeParents (d : Disk) (path : String) : d.Quiet (d.makeParents path).2 := by
  unfold makeParents
  split
  · exact d.quiet_makeAll _ _
  · exact .refl d

/-- A file put in place of a file or of nothing. -/
theorem keeps_place {l : Location} (content : Bytes) (h : d.node? l ≠ some .directory) :
    d.Keeps (d.place l content) ∧ ∀ l', (d.place l content).IsFile l' → d.IsFile l' ∨ l' = l := by
  refine ⟨⟨rfl, rfl, fun l' hl' => ?_⟩, ?_⟩
  · show (d.nodes.insert l _).get? l' = _
    have hne : l' ≠ l := by
      rintro rfl
      exact h hl'
    rw [Table.get?_insert, if_neg hne]
    exact hl'
  · rintro l' ⟨c, number, hl'⟩
    have hl'' : (d.nodes.insert l (.file content d.created)).get? l' = some (.file c number) := hl'
    rw [Table.get?_insert] at hl''
    split at hl''
    · rename_i hc
      exact .inr hc
    · exact .inl ⟨c, number, hl''⟩

theorem locate_of_target? {path : String} {l : Location} (h : d.target? path = some l) :
    d.locate path = .at l ∧ d.node? l ≠ some .directory := by
  unfold target? at h
  split at h
  · rename_i l' hl
    split at h
    · cases h
    · rename_i hnode
      obtain rfl := Option.some.inj h
      exact ⟨hl, hnode⟩
  · cases h

section

variable {path : String} {content : Bytes} {done : Bool}

/-- **What a replacement does**: it puts a new file where its path leads, or leaves the tree as it
is. -/
theorem replace_cases (h : d.replace path content = (done, d')) :
    d'.home = d.home ∧ d'.refuses = d.refuses ∧
      ((done = false ∧ d'.nodes = d.nodes) ∨
        (done = true ∧ d'.created = d.created + 1 ∧ ∃ l, d.locate path = .at l ∧
          d.node? l ≠ some .directory ∧
          d'.nodes = d.nodes.insert l (.file content d.created))) := by
  -- the steps before the draft is put in place only count
  set d₄ := ((((d.attempt (.createDraft path)).2.attempt (.writeDraft content)).2.attempt
    .syncDraft).2.attempt (.rename path)).2 with hd₄
  have hfrom : d₄.Keeps d := .of_nodes rfl rfl rfl
  unfold replace at h
  dsimp only at h
  split at h
  · obtain ⟨rfl, rfl⟩ := Prod.mk.inj h
    exact ⟨rfl, rfl, .inl ⟨rfl, rfl⟩⟩
  · split at h
    · obtain ⟨rfl, rfl⟩ := Prod.mk.inj h
      exact ⟨rfl, rfl, .inl ⟨rfl, rfl⟩⟩
    · split at h
      · obtain ⟨rfl, rfl⟩ := Prod.mk.inj h
        exact ⟨rfl, rfl, .inl ⟨rfl, rfl⟩⟩
      · split at h
        · obtain ⟨rfl, rfl⟩ := Prod.mk.inj h
          exact ⟨rfl, rfl, .inl ⟨rfl, rfl⟩⟩
        · split at h
          · rename_i l ht
            obtain ⟨rfl, rfl⟩ := Prod.mk.inj h
            obtain ⟨hl, hnode⟩ := locate_of_target? ht
            exact ⟨rfl, rfl, .inr ⟨rfl, rfl, l, hfrom.locate hl, hnode, rfl⟩⟩
          · obtain ⟨rfl, rfl⟩ := Prod.mk.inj h
            exact ⟨rfl, rfl, .inl ⟨rfl, rfl⟩⟩

/-- **A replacement that fails** makes no file. -/
theorem quiet_replace (h : d.replace path content = (false, d')) : d.Quiet d' := by
  obtain ⟨hhome, hrefuses, ⟨-, hnodes⟩ | ⟨hdone, -⟩⟩ := replace_cases h
  · exact .of_nodes hhome hrefuses hnodes
  · cases hdone

/-- **A replacement** puts one file in place where its path leads. -/
theorem keeps_replace (h : d.replace path content = (true, d')) :
    d.Keeps d' ∧ ∃ l, d.locate path = .at l ∧ ∀ l', d'.IsFile l' → d.IsFile l' ∨ l' = l := by
  obtain ⟨hhome, hrefuses, ⟨hdone, -⟩ | ⟨-, -, l, hl, hnode, hnodes⟩⟩ := replace_cases h
  · cases hdone
  · -- the tree is that of the placed file
    have hplaced : (d.place l content).Quiet d' := .of_nodes hhome hrefuses hnodes
    obtain ⟨hkeeps, hfiles⟩ := keeps_place content hnode
    exact ⟨hkeeps.trans hplaced.toKeeps, l, hl, fun l' hl' => hfiles l' (hplaced.files l' hl')⟩

/-- A file that is put in place takes the next number. -/
theorem created_replace (h : d.replace path content = (true, d')) :
    d'.created = d.created + 1 := by
  obtain ⟨-, -, ⟨hdone, -⟩ | ⟨-, hcreated, -⟩⟩ := replace_cases h
  · cases hdone
  · exact hcreated

end

theorem quiet_remove (d : Disk) (path : String) : d.Quiet (d.remove path) := by
  have h : d.Quiet (d.attempt (.remove path)).2 := .of_nodes rfl rfl rfl
  unfold remove
  dsimp only
  split
  · split
    · rename_i l _ _ _ content number hnode
      refine h.trans ⟨⟨rfl, rfl, fun l' hl' => ?_⟩, ?_⟩
      · have hne : l' ≠ l := by
          rintro rfl
          have : d.node? l' = some .directory := hl'
          rw [hnode] at this
          cases this
        rw [node?, Table.get?_erase, if_neg hne]
        exact hl'
      · rintro l' ⟨c, n, hl'⟩
        rw [node?, Table.get?_erase] at hl'
        split at hl'
        · cases hl'
        · exact ⟨c, n, hl'⟩
    · exact h
  · exact h

/-- **A removal that is not refused leaves no file** where its path leads. -/
theorem not_isFile_remove {path : String} {l : Location}
    (hr : ∀ n, d.refuses n (.remove path) = false) (hl : d.locate path = .at l) :
    ¬ (d.remove path).IsFile l := by
  rintro ⟨content, number, hfile⟩
  obtain ⟨c, n, hnode⟩ := (d.quiet_remove path).files l ⟨content, number, hfile⟩
  have hremove : (d.remove path).nodes = d.nodes.erase l := by
    unfold remove
    simp only [attempt, hr, hl, hnode]
  rw [node?, hremove, Table.get?_erase, if_pos rfl] at hfile
  cases hfile

/-! ## Many removals -/

theorem quiet_removeAll (d : Disk) (paths : List String) : d.Quiet (paths.foldl remove d) := by
  induction paths generalizing d with
  | nil => exact .refl d
  | cons p ps ih => exact (d.quiet_remove p).trans (ih _)

theorem not_isFile_removeAll {paths : List String}
    (hr : ∀ n, ∀ p ∈ paths, d.refuses n (.remove p) = false) {path : String} (hp : path ∈ paths)
    {l : Location} (hl : d.locate path = .at l) : ¬ (paths.foldl remove d).IsFile l := by
  induction paths generalizing d with
  | nil => cases hp
  | cons p ps ih =>
    have hq := d.quiet_remove p
    rcases List.mem_cons.1 hp with rfl | hp
    · intro hfile
      exact not_isFile_remove (fun n => hr n path List.mem_cons_self) hl
        (((d.remove path).quiet_removeAll ps).files l hfile)
    · refine ih (fun n q hmem => ?_) hp (hq.toKeeps.locate hl)
      rw [hq.refuses]
      exact hr n q (List.mem_cons_of_mem _ hmem)

/-! ## Files that stay as they are -/

/-- A file at the location stays as it is, with its content and its number. -/
def Leaves (l : Location) (d d' : Disk) : Prop :=
  ∀ content number, d.node? l = some (.file content number) →
    d'.node? l = some (.file content number)

section

variable {l : Location}

theorem Leaves.refl (l : Location) (d : Disk) : Leaves l d d := fun _ _ h => h

theorem Leaves.trans (h : Leaves l d d') (h' : Leaves l d' d'') : Leaves l d d'' :=
  fun content number hl => h' content number (h content number hl)

theorem Leaves.of_nodes (l : Location) (h : d'.nodes = d.nodes) : Leaves l d d' := by
  intro content number hl
  rw [node?, h]
  exact hl

theorem leaves_insert {l' : Location} {node : Node} (hne : l ≠ l')
    (h : d'.nodes = d.nodes.insert l' node) : Leaves l d d' := by
  intro content number hl
  rw [node?, h, Table.get?_insert, if_neg hne]
  exact hl

theorem leaves_read (l : Location) (d : Disk) (path : String) : Leaves l d (d.read path).2 := by
  unfold read
  dsimp only
  split <;> exact .of_nodes l rfl

/-- Directories are made only where nothing stands. -/
theorem leaves_makeDirectory (l : Location) (absolute : Bool) (d : Disk) (names : List String) :
    Leaves l d (d.makeDirectory absolute names).2 := by
  have h : Leaves l d (d.attempt (.makeDirectory names)).2 := .of_nodes l rfl
  unfold makeDirectory
  dsimp only
  split
  · exact h
  · exact h
  · exact h
  · split
    · exact h
    · split
      · exact h
      · rename_i hnone
        intro content number hl
        refine leaves_insert (d := d) (fun heq => ?_) rfl content number hl
        have hnode : d.node? l = none := heq ▸ hnone
        rw [hnode] at hl
        cases hl

theorem leaves_makeParents (l : Location) (d : Disk) (path : String) :
    Leaves l d (d.makeParents path).2 := by
  unfold makeParents
  split
  · exact makeAll_induct (.refl l) (fun _ _ _ h h' => h.trans h') _
      (leaves_makeDirectory l _) d _
  · exact .refl l d

theorem leaves_replace {path : String} {content : Bytes} {done : Bool}
    (h : d.replace path content = (done, d')) (hne : l ≠ d.goal path) : Leaves l d d' := by
  obtain ⟨-, -, ⟨-, hnodes⟩ | ⟨-, -, l', hl', -, hnodes⟩⟩ := replace_cases h
  · exact .of_nodes l hnodes
  · rw [← locate_eq_goal hl'] at hne
    exact leaves_insert hne hnodes

theorem leaves_remove {path : String} (hne : l ≠ d.goal path) : Leaves l d (d.remove path) := by
  unfold remove
  dsimp only
  split
  · rename_i l' _ hl'
    rw [← locate_eq_goal hl'] at hne
    split
    · intro content number hl
      rw [node?, Table.get?_erase, if_neg hne]
      exact hl
    · exact .of_nodes l rfl
  · exact .of_nodes l rfl

theorem leaves_removeAll {paths : List String} (hne : ∀ path ∈ paths, l ≠ d.goal path) :
    Leaves l d (paths.foldl remove d) := by
  induction paths generalizing d with
  | nil => exact .refl l d
  | cons p ps ih =>
    refine (leaves_remove (hne p List.mem_cons_self)).trans (ih fun path hp => ?_)
    rw [(d.quiet_remove p).goal_eq]
    exact hne path (List.mem_cons_of_mem _ hp)

/-! What stands at the end of a path. -/

theorem nodeAt?_eq_some_iff {path : String} {node : Node} :
    d.nodeAt? path = some node ↔ ∃ l, d.locate path = .at l ∧ d.node? l = some node := by
  unfold nodeAt?
  split <;> simp_all

theorem locate_goal {path : String} {node : Node} (h : d.nodeAt? path = some node) :
    d.locate path = .at (d.goal path) := by
  obtain ⟨l, hl, -⟩ := nodeAt?_eq_some_iff.1 h
  rw [hl, locate_eq_goal hl]

theorem node?_goal {path : String} {node : Node} (h : d.nodeAt? path = some node) :
    d.node? (d.goal path) = some node := by
  obtain ⟨l, hl, hnode⟩ := nodeAt?_eq_some_iff.1 h
  rwa [locate_eq_goal hl] at hnode

/-- **A file at the end of a path** stays where the operations leave its place as it is. -/
theorem Leaves.nodeAt? (hkeeps : d.Keeps d') {path : String} (h : Leaves (d.goal path) d d')
    {content : Bytes} {number : Nat} (hnode : d.nodeAt? path = some (.file content number)) :
    d'.nodeAt? path = some (.file content number) := by
  obtain ⟨l, hl, hnode⟩ := nodeAt?_eq_some_iff.1 hnode
  rw [← locate_eq_goal hl] at h
  exact nodeAt?_eq_some_iff.2 ⟨l, hkeeps.locate hl, h content number hnode⟩

/-- A replacement that succeeds leaves its content at the end of the path, in a new file. -/
theorem nodeAt?_replace {path : String} {content : Bytes}
    (h : d.replace path content = (true, d')) :
    d'.nodeAt? path = some (.file content d.created) := by
  obtain ⟨hhome, hrefuses, ⟨hdone, -⟩ | ⟨-, -, l, hl, hnode, hnodes⟩⟩ := replace_cases h
  · cases hdone
  · have hplaced : (d.place l content).Keeps d' := .of_nodes hhome hrefuses hnodes
    have hkeeps := (keeps_place content hnode).1.trans hplaced
    refine nodeAt?_eq_some_iff.2 ⟨l, hkeeps.locate hl, ?_⟩
    rw [node?, hnodes, Table.get?_insert, if_pos rfl]

/-- What is read is what stands there. -/
theorem nodeAt?_of_read {path : String} {content : Bytes} (h : (d.read path).1 = some content) :
    ∃ number, d.nodeAt? path = some (.file content number) := by
  unfold read at h
  dsimp only at h
  split at h
  · rename_i number _ hnode
    obtain rfl := Option.some.inj h
    exact ⟨number, hnode⟩
  · cases h

/-! A file of the later disk that was there before: no operation makes one away from its path. -/

theorem back_read (l : Location) (d : Disk) (path : String) : Leaves l (d.read path).2 d := by
  unfold read
  dsimp only
  split <;> exact .of_nodes l rfl

theorem back_makeDirectory (l : Location) (absolute : Bool) (d : Disk) (names : List String) :
    Leaves l (d.makeDirectory absolute names).2 d := by
  have h : Leaves l (d.attempt (.makeDirectory names)).2 d := .of_nodes l rfl
  unfold makeDirectory
  dsimp only
  split
  · exact h
  · exact h
  · exact h
  · split
    · exact h
    · split
      · exact h
      · -- what was made is no file
        intro content number hl
        rw [node?, Table.get?_insert] at hl
        split at hl
        · cases hl
        · exact hl

theorem back_makeParents (l : Location) (d : Disk) (path : String) :
    Leaves l (d.makeParents path).2 d := by
  unfold makeParents
  split
  · exact makeAll_induct (R := fun d d' => Leaves l d' d) (.refl l)
      (fun _ _ _ h h' => h'.trans h) _ (back_makeDirectory l _) d _
  · exact .refl l d

theorem back_replace {path : String} {content : Bytes} {done : Bool}
    (h : d.replace path content = (done, d')) (hne : l ≠ d.goal path) : Leaves l d' d := by
  obtain ⟨-, -, ⟨-, hnodes⟩ | ⟨-, -, l', hl', -, hnodes⟩⟩ := replace_cases h
  · exact .of_nodes l hnodes.symm
  · rw [← locate_eq_goal hl'] at hne
    intro content' number hl
    rw [node?, hnodes, Table.get?_insert, if_neg hne] at hl
    exact hl

theorem back_remove (l : Location) (d : Disk) (path : String) : Leaves l (d.remove path) d := by
  unfold remove
  dsimp only
  split
  · split
    · intro content number hl
      rw [node?, Table.get?_erase] at hl
      split at hl
      · cases hl
      · exact hl
    · exact .of_nodes l rfl
  · exact .of_nodes l rfl

theorem back_removeAll (l : Location) (d : Disk) (paths : List String) :
    Leaves l (paths.foldl remove d) d := by
  induction paths generalizing d with
  | nil => exact .refl l d
  | cons p ps ih => exact (ih (d.remove p)).trans (back_remove l d p)

end

/-! ## Files and their numbers -/

variable {path : String}

/-- What is new is a file where the file of that number was not before. -/
theorem mem_renewed_iff {l : Location} :
    l ∈ d.renewed d' ↔ ∃ content number, d'.node? l = some (.file content number) ∧
      ∀ old, d.node? l ≠ some (.file old number) := by
  unfold renewed
  rw [List.mem_filterMap]
  constructor
  · rintro ⟨⟨l', node⟩, hmem, hnew⟩
    have hnode : d'.node? l' = some node := Table.mem_entries_iff.1 hmem
    dsimp only at hnew
    split at hnew
    · rename_i content number old oldNumber hold
      split at hnew
      · cases hnew
      · rename_i hne
        obtain rfl := Option.some.inj hnew
        refine ⟨content, number, hnode, fun old' hold' => hne ?_⟩
        rw [hold] at hold'
        exact (Node.file.inj (Option.some.inj hold')).2.symm
    · rename_i content number hnone
      obtain rfl := Option.some.inj hnew
      exact ⟨content, number, hnode, fun old hold => hnone old number hold⟩
    · cases hnew
  · rintro ⟨content, number, hnode, hne⟩
    refine ⟨(l, .file content number), Table.mem_entries_iff.2 hnode, ?_⟩
    dsimp only
    split
    · rename_i content' number' old oldNumber hfile hold
      obtain ⟨-, rfl⟩ := Node.file.inj hfile
      have hother : number ≠ oldNumber := by
        rintro rfl
        exact hne old hold
      rw [if_neg hother]
    · rfl
    · rename_i hfile
      cases hfile

/-- Files at other places do not matter, before or after. -/
theorem mem_renewed_congr {d₁ d₁' : Disk} {l : Location}
    (hbefore : Leaves l d d₁) (hbefore' : Leaves l d₁ d)
    (hafter : Leaves l d' d₁') (hafter' : Leaves l d₁' d') :
    l ∈ d.renewed d' ↔ l ∈ d₁.renewed d₁' := by
  rw [mem_renewed_iff, mem_renewed_iff]
  constructor
  · rintro ⟨content, number, hnode, hne⟩
    exact ⟨content, number, hafter _ _ hnode, fun old hold => hne old (hbefore' _ _ hold)⟩
  · rintro ⟨content, number, hnode, hne⟩
    exact ⟨content, number, hafter' _ _ hnode, fun old hold => hne old (hbefore _ _ hold)⟩

theorem created_read (d : Disk) (path : String) : (d.read path).2.created = d.created := by
  unfold read
  dsimp only
  split <;> rfl

theorem created_makeDirectory (d : Disk) (absolute : Bool) (names : List String) :
    (d.makeDirectory absolute names).2.created = d.created := by
  unfold makeDirectory
  dsimp only
  split
  · rfl
  · rfl
  · rfl
  · split
    · rfl
    · split <;> rfl

theorem created_makeParents (d : Disk) (path : String) :
    (d.makeParents path).2.created = d.created := by
  unfold makeParents
  split
  · exact makeAll_induct (R := fun d d' => d'.created = d.created) (fun _ => rfl)
      (fun _ _ _ h h' => h'.trans h) _ (fun d => created_makeDirectory d _) d _
  · rfl

theorem created_remove (d : Disk) (path : String) : (d.remove path).created = d.created := by
  unfold remove
  dsimp only
  split
  · split <;> rfl
  · rfl

theorem created_removeAll (d : Disk) (paths : List String) :
    (paths.foldl remove d).created = d.created := by
  induction paths generalizing d with
  | nil => rfl
  | cons p ps ih => exact (ih (d.remove p)).trans (d.created_remove p)

/-- A file that stands at the end of a path is read, unless that is refused. -/
theorem read_of_nodeAt? {content : Bytes} {number : Nat}
    (hcalm : d.refuses d.steps (.read path) = false)
    (hnode : d.nodeAt? path = some (.file content number)) : (d.read path).1 = some content := by
  simp only [read, attempt, hcalm, hnode]

end IngressWatch.Disk
