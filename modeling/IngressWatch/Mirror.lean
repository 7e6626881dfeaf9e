import IngressWatch.Resource.Basic

/-!
# Mirrors

The local copy of all objects of one kind. Objects are told apart by their own namespace, which
may be missing, and name.

* `Mirror.put`, `Mirror.remove`: the changes, described by `find?_put` and `find?_remove`.
* `Mirror.get?`: an exact match, or else the object of that name without a namespace.
* `Mirror.lookup`: the object that a key refers to.
* `Mirror.inNamespace`: the objects of one namespace.
-/

namespace IngressWatch

/-- What tells objects of one kind apart. -/
structure Identifier where
  ns : Option String
  name : String
deriving DecidableEq, Repr

def Metadata.identifier (m : Metadata) : Identifier := ⟨m.ns, m.name.getD ""⟩

namespace Resource

def identifier {α : Type} [Resource α] (object : α) : Identifier := (metadata object).identifier

end Resource

open Resource

/-- Objects of one kind, no two of them alike. -/
structure Mirror (α : Type) [Resource α] where
  objects : List α
  nodup : (objects.map identifier).Nodup := by simp

namespace Mirror

variable {α : Type} [Resource α]

def empty : Mirror α := ⟨[], by simp⟩

instance : EmptyCollection (Mirror α) := ⟨empty⟩
instance : Inhabited (Mirror α) := ⟨empty⟩

/-- Removes the object with this identifier. -/
def erase (m : Mirror α) (id : Identifier) : Mirror α :=
  ⟨m.objects.filter (identifier · ≠ id), m.nodup.sublist (List.filter_sublist.map _)⟩

def remove (m : Mirror α) (object : α) : Mirror α := m.erase (identifier object)

/-- Adds an object in place of one with the same identifier. -/
def put (m : Mirror α) (object : α) : Mirror α :=
  ⟨object :: (m.remove object).objects, by
    refine List.nodup_cons.2 ⟨fun h => ?_, (m.remove object).nodup⟩
    obtain ⟨o, ho, hk⟩ := List.mem_map.1 h
    have := List.mem_filter.1 ho
    simp_all⟩

/-- The objects in order, later ones in place of earlier ones. -/
def ofList (objects : List α) : Mirror α := objects.foldl put empty

/-- The object with exactly this identifier. -/
def find? (m : Mirror α) (id : Identifier) : Option α := m.objects.find? (identifier · = id)

/-- The object with this identifier, or else the one of that name without a namespace. -/
def get? (m : Mirror α) (id : Identifier) : Option α :=
  (m.find? id).or (m.find? { id with ns := none })

/-- The object that a key refers to. A key without a namespace refers to objects without one. -/
def lookup (m : Mirror α) (key : Key) : Option α :=
  m.get? ⟨if key.ns = "" then none else some key.ns, key.name⟩

/-- The objects that name this namespace. -/
def inNamespace (m : Mirror α) (ns : String) : List α :=
  m.objects.filter fun o => (metadata o).ns = some ns

@[simp] theorem find?_empty (id : Identifier) : (empty : Mirror α).find? id = none := rfl

theorem find?_erase (m : Mirror α) (id other : Identifier) :
    (m.erase id).find? other = if other = id then none else m.find? other := by
  simp only [find?, erase]
  induction m.objects with
  | nil => simp
  | cons o l ih =>
    by_cases ho : identifier o = id
    · rw [List.filter_cons_of_neg (by simp [ho]), ih]
      by_cases h : other = id
      · simp [h]
      · simp [h, ho, Ne.symm h]
    · rw [List.filter_cons_of_pos (by simp [ho]), List.find?_cons, ih]
      by_cases h : other = id
      · subst h
        simp [ho]
      · simp [h, List.find?_cons]

theorem find?_remove (m : Mirror α) (object : α) (id : Identifier) :
    (m.remove object).find? id = if id = identifier object then none else m.find? id :=
  m.find?_erase _ id

theorem find?_put (m : Mirror α) (object : α) (id : Identifier) :
    (m.put object).find? id = if id = identifier object then some object else m.find? id := by
  have := m.find?_remove object id
  by_cases h : id = identifier object
  · simp [find?, put, h]
  · simp only [h, if_false, find?] at this
    simp [find?, put, h, Ne.symm h, this]

theorem mem_objects_iff {m : Mirror α} {object : α} :
    object ∈ m.objects ↔ m.find? (identifier object) = some object := by
  obtain ⟨l, hl⟩ := m
  simp only [find?]
  constructor
  · intro h
    induction l with
    | nil => simp at h
    | cons o l ih =>
      have ⟨ho, hn⟩ := List.nodup_cons.1 hl
      rcases List.mem_cons.1 h with rfl | h
      · simp
      · have : identifier o ≠ identifier object := fun hc =>
          ho (hc ▸ List.mem_map_of_mem h)
        simp [this, ih hn h]
  · exact List.mem_of_find?_eq_some

theorem identifier_of_find? {m : Mirror α} {id : Identifier} {object : α}
    (h : m.find? id = some object) : identifier object = id := by
  simpa using List.find?_some h

end Mirror

end IngressWatch
