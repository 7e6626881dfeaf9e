import IngressWatch.CredentialStore
import IngressWatch.Proofs.Files

/-!
# Where the files of a secret stand

* `Disk.goal_join`: a path below another leads one step further.
* `Role.path_eq_of_goal`: no place has two paths among the files of secrets.
* `Role.goal_path_inj`: the files of secrets of a cluster stand apart, with one exception.
-/

namespace IngressWatch

namespace Path

/-- A text that is one name on a path, and not a way up. -/
structure IsComponent (name : String) : Prop where
  slash : '/' ∉ name.toList
  nonempty : name ≠ ""
  dot : name ≠ "."
  dots : name ≠ ".."

theorem pieces_ne_nil (s : List Char) : pieces s ≠ [] := by
  induction s with
  | nil => exact List.cons_ne_nil _ _
  | cons c s ih =>
    rw [pieces, List.foldr_cons]
    split
    · exact List.cons_ne_nil _ _
    · split <;> exact List.cons_ne_nil _ _

theorem pieces_cons_slash (s : List Char) : pieces ('/' :: s) = [] :: pieces s := rfl

theorem pieces_cons {c : Char} (hc : c ≠ '/') {s p : List Char} {ps : List (List Char)}
    (hs : pieces s = p :: ps) : pieces (c :: s) = (c :: p) :: ps := by
  unfold pieces at hs ⊢
  rw [List.foldr_cons, if_neg hc, hs]

/-- A slash starts a new piece. -/
theorem pieces_append (s t : List Char) : pieces (s ++ '/' :: t) = pieces s ++ pieces t := by
  induction s with
  | nil => rfl
  | cons c s ih =>
    by_cases hc : c = '/'
    · subst hc
      rw [List.cons_append, pieces_cons_slash, ih, pieces_cons_slash, List.cons_append]
    · obtain ⟨p, ps, hs⟩ := List.exists_cons_of_ne_nil (pieces_ne_nil s)
      rw [hs, List.cons_append] at ih
      rw [List.cons_append, pieces_cons hc ih, pieces_cons hc hs, List.cons_append]

theorem pieces_of_not_mem {s : List Char} (h : '/' ∉ s) : pieces s = [s] := by
  induction s with
  | nil => rfl
  | cons c s ih =>
    obtain ⟨hc, hs⟩ := not_or.1 (mt List.mem_cons.2 h)
    exact pieces_cons (Ne.symm hc) (ih hs)

theorem toList_slash (before after : String) :
    (before ++ "/" ++ after).toList = before.toList ++ '/' :: after.toList := by
  simp [String.toList_append]

theorem components_append (base rest : String) :
    components (base ++ "/" ++ rest) = components base ++ components rest := by
  rw [components, toList_slash, pieces_append, List.filter_append, List.map_append]
  rfl

theorem IsComponent.components {name : String} (h : IsComponent name) :
    Path.components name = [name] := by
  have hkeep : name.toList ≠ [] ∧ name.toList ≠ ['.'] := by
    refine ⟨fun hc => h.nonempty ?_, fun hc => h.dot ?_⟩
    · exact String.toList_injective hc
    · exact String.toList_injective hc
  rw [Path.components, pieces_of_not_mem h.slash, List.filter_cons_of_pos (by simpa using hkeep)]
  simp

/-- **A path below another has one more component.** -/
theorem components_join (base : String) {name : String} (h : IsComponent name) :
    components (join base name) = components base ++ [name] := by
  have hhead : name.toList.head? ≠ some '/' := fun hc => h.slash (List.mem_of_head? hc)
  rw [join, if_neg hhead]
  split
  · rename_i hbase
    rcases hbase with rfl | hbase
    · rw [String.empty_append, h.components]
      rfl
    · -- the base ends with the slash
      obtain ⟨text, htext⟩ := List.getLast?_eq_some_iff.1 hbase
      obtain rfl : base = String.ofList text ++ "/" := String.toList_injective (by
        rw [htext]
        simp [String.toList_append])
      have hempty := components_append (String.ofList text) ""
      rw [String.append_empty] at hempty
      rw [components_append, hempty, h.components]
      simp [components, pieces]
  · rw [components_append, h.components]

theorem isAbsolute_join (base : String) {name : String} (h : IsComponent name) :
    isAbsolute (join base name) = isAbsolute base := by
  have hhead : name.toList.head? ≠ some '/' := fun hc => h.slash (List.mem_of_head? hc)
  by_cases hbase : base = ""
  · subst hbase
    simp [join, isAbsolute, hhead]
  · obtain ⟨c, text, htext⟩ := List.exists_cons_of_ne_nil
      (mt (fun hc => String.toList_injective hc) hbase : base.toList ≠ [])
    rw [join, if_neg hhead]
    split <;> simp [isAbsolute, String.toList_append, htext]

end Path

theorem Disk.goal_join (d : Disk) (base : String) {name : String} (h : Path.IsComponent name) :
    d.goal (Path.join base name) = d.goal base ++ [name] := by
  rw [goal, Path.components_join base h, Path.isAbsolute_join base h, List.foldl_append,
    List.foldl_cons, if_neg h.dots]
  rfl

/-! ## Names in a cluster -/

/-- A lower-case letter or a digit. -/
def isAlphanumeric (c : Char) : Bool := c.isLower || c.isDigit

/-- A text that starts and ends with a letter or digit. -/
def hasEnds (s : List Char) : Bool := s.head?.any isAlphanumeric && s.getLast?.any isAlphanumeric

/-- A DNS label: letters and digits, with hyphens between them. -/
structure IsLabel (s : String) : Prop where
  length : s.length ≤ 63
  chars : s.toList.all fun c => isAlphanumeric c || c == '-'
  ends : hasEnds s.toList

/-- A DNS subdomain: the same in several parts with dots between them. -/
structure IsSubdomain (s : String) : Prop where
  length : s.length ≤ 253
  chars : s.toList.all fun c => isAlphanumeric c || c == '-' || c == '.'
  ends : (s.toList.splitOn '.').all hasEnds

attribute [ext] Key

namespace Key

/-- **The keys of a cluster.** -/
structure IsDns (k : Key) : Prop where
  ns : IsLabel k.ns
  name : IsSubdomain k.name

/-- A key whose file stem is part of one name. -/
structure Flat (k : Key) : Prop where
  ns : '/' ∉ k.ns.toList
  name : '/' ∉ k.name.toList

/-- A key whose file stem can be read back, and is part of one name. -/
structure Plain (k : Key) : Prop where
  separator : '_' ∉ k.ns.toList
  ns : '/' ∉ k.ns.toList
  name : '/' ∉ k.name.toList

theorem Plain.flat {k : Key} (h : k.Plain) : k.Flat := ⟨h.ns, h.name⟩

theorem IsDns.plain {k : Key} (h : k.IsDns) : k.Plain where
  separator hc := absurd (List.all_eq_true.1 h.ns.chars _ hc) (by decide)
  ns hc := absurd (List.all_eq_true.1 h.ns.chars _ hc) (by decide)
  name hc := absurd (List.all_eq_true.1 h.name.chars _ hc) (by decide)

/-- The key whose bundle goes by the name of the revocation list of `k`. -/
def twin (k : Key) : Key := { k with name := k.name ++ "-crl" }

/-- The stem of a plain key ends its namespace at the first separator. -/
theorem Plain.fileStem_append_inj {k k' : Key} (hk : k.Plain) (hk' : k'.Plain) {s s' : String}
    (h : k.fileStem ++ s = k'.fileStem ++ s') : k.ns = k'.ns ∧ k.name ++ s = k'.name ++ s' := by
  have htext : k.ns.toList ++ '_' :: (k.name ++ s).toList =
      k'.ns.toList ++ '_' :: (k'.name ++ s').toList := by
    have := congrArg String.toList h
    simpa [fileStem, String.toList_append] using this
  have hbefore : ∀ {l : List Char} (rest : List Char), '_' ∉ l →
      (l ++ '_' :: rest).takeWhile (· ≠ '_') = l := by
    intro l rest hl
    have hall : ∀ c ∈ l, decide (c ≠ '_') = true := by
      intro c hc
      rw [decide_eq_true_eq]
      rintro rfl
      exact hl hc
    rw [List.takeWhile_append_of_pos hall]
    simp
  have hns : k.ns.toList = k'.ns.toList := by
    rw [← hbefore _ hk.separator, htext, hbefore _ hk'.separator]
  rw [hns] at htext
  refine ⟨String.toList_injective hns, String.toList_injective ?_⟩
  exact List.tail_eq_of_cons_eq (List.append_cancel_left htext)

end Key

/-! ## The files of a secret -/

/-- What a file of a secret is for. -/
inductive Role where
  | tls
  | ca
  | crl
  | dh
deriving DecidableEq

namespace Role

/-- The path of a secret's file. -/
def path (directory : String) (key : Key) : Role → String
  | tls => CredentialStore.tlsPath directory key
  | ca => CredentialStore.caPath directory key
  | crl => CredentialStore.crlPath directory key
  | dh => CredentialStore.dhPath directory key

/-- The directories on the way to a file. -/
def folder : Role → Location
  | tls => []
  | ca | crl => ["ca"]
  | dh => ["dhparam"]

def suffix : Role → String
  | tls | ca | dh => ".pem"
  | crl => "-crl.pem"

/-- Files of two keys that go by one name: the revocation list of one key and the bundle of the
other. -/
def Meets (key : Key) (role : Role) (other : Key) (role' : Role) : Prop :=
  role = crl ∧ role' = ca ∧ other = key.twin ∨ role = ca ∧ role' = crl ∧ key = other.twin

instance (key : Key) (role : Role) (other : Key) (role' : Role) :
    Decidable (Meets key role other role') :=
  inferInstanceAs (Decidable (_ ∨ _))

variable {key other : Key} {role role' : Role}

theorem isComponent_name (h : key.Flat) (role : Role) :
    Path.IsComponent (key.fileStem ++ role.suffix) := by
  have hseparator : '_' ∈ (key.fileStem ++ role.suffix).toList := by
    simp [Key.fileStem, String.toList_append]
  refine ⟨fun hc => ?_, ?_, ?_, ?_⟩
  · have hsuffix : '/' ∉ role.suffix.toList := by cases role <;> decide
    have := h.ns
    have := h.name
    simp_all [Key.fileStem, String.toList_append]
  all_goals
    intro hc
    rw [hc] at hseparator
    revert hseparator
    decide

/-- **Where a file of a secret stands.** -/
theorem goal_path (d : Disk) (directory : String) (h : key.Flat) (role : Role) :
    d.goal (role.path directory key) =
      d.goal directory ++ role.folder ++ [key.fileStem ++ role.suffix] := by
  have hname := isComponent_name h role
  have hca : Path.IsComponent "ca" := ⟨by decide, by decide, by decide, by decide⟩
  have hdh : Path.IsComponent "dhparam" := ⟨by decide, by decide, by decide, by decide⟩
  cases role with
  | tls =>
    rw [folder, List.append_nil]
    exact d.goal_join _ hname
  | ca | crl => exact (d.goal_join _ hname).trans (by rw [d.goal_join _ hca]; rfl)
  | dh => exact (d.goal_join _ hname).trans (by rw [d.goal_join _ hdh]; rfl)

/-- Files at one place go by one name in one directory. -/
theorem folder_and_name_of_goal {d : Disk} {directory : String} (h : key.Flat) (h' : other.Flat)
    (hgoal : d.goal (role.path directory key) = d.goal (role'.path directory other)) :
    role.folder = role'.folder ∧ key.fileStem ++ role.suffix = other.fileStem ++ role'.suffix := by
  rw [goal_path d directory h, goal_path d directory h', List.append_assoc,
    List.append_assoc] at hgoal
  obtain ⟨hfolder, hname⟩ := List.append_inj' (List.append_cancel_left hgoal) rfl
  exact ⟨hfolder, List.singleton_inj.1 hname⟩

/-- **Paths that lead to one place are the same text.** -/
theorem path_eq_of_goal {d : Disk} {directory : String} (h : key.Flat) (h' : other.Flat)
    (hgoal : d.goal (role.path directory key) = d.goal (role'.path directory other)) :
    role.path directory key = role'.path directory other := by
  obtain ⟨hfolder, hname⟩ := folder_and_name_of_goal h h' hgoal
  cases role <;> cases role'
  case tls.tls => exact congrArg (Path.join directory) hname
  case ca.ca | ca.crl | crl.ca | crl.crl =>
    exact congrArg (Path.join (Path.join directory "ca")) hname
  case dh.dh => exact congrArg (Path.join (Path.join directory "dhparam")) hname
  all_goals simp [folder] at hfolder

/-- A file of a key is at no place of another of its files. -/
theorem eq_of_goal {d : Disk} {directory : String} (h : key.Flat)
    (hgoal : d.goal (role.path directory key) = d.goal (role'.path directory key)) :
    role = role' := by
  obtain ⟨hfolder, hname⟩ := folder_and_name_of_goal h h hgoal
  have hsuffix : role.suffix = role'.suffix := (String.append_right_inj _).1 hname
  cases role <;> cases role'
  case tls.tls | ca.ca | crl.crl | dh.dh => rfl
  case ca.crl | crl.ca => simp [suffix] at hsuffix
  all_goals simp [folder] at hfolder

/-- **Files of secrets stand apart**, but for a revocation list and the bundle of its twin. -/
theorem goal_path_inj {d : Disk} {directory : String} (h : key.Plain) (h' : other.Plain)
    (hgoal : d.goal (role.path directory key) = d.goal (role'.path directory other)) :
    (key = other ∧ role = role') ∨ Meets key role other role' := by
  obtain ⟨hfolder, hname⟩ := folder_and_name_of_goal h.flat h'.flat hgoal
  obtain ⟨hns, hname⟩ := h.fileStem_append_inj h' hname
  have hsame : role.suffix = role'.suffix → key = other := by
    intro hs
    rw [hs, String.append_left_inj] at hname
    exact Key.ext hns hname
  -- a list's name is that of the twin's bundle
  have htwin : ∀ {k k' : Key}, k.ns = k'.ns → k.name ++ "-crl.pem" = k'.name ++ ".pem" →
      k' = k.twin := by
    intro k k' hns hname
    have hsplit : k.name ++ "-crl" ++ ".pem" = k'.name ++ ".pem" := by
      rw [String.append_assoc]
      exact hname
    exact Key.ext hns.symm ((String.append_left_inj _).1 hsplit).symm
  cases role <;> cases role'
  case ca.crl => exact .inr (.inr ⟨rfl, rfl, htwin hns.symm hname.symm⟩)
  case crl.ca => exact .inr (.inl ⟨rfl, rfl, htwin hns hname⟩)
  case tls.tls | ca.ca | crl.crl | dh.dh => exact .inl ⟨hsame rfl, rfl⟩
  all_goals simp [folder] at hfolder

end Role

end IngressWatch
