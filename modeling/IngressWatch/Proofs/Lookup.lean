import IngressWatch.Mirror

/-!
# Lookups among named objects

Objects of a cluster name their namespace. Then their keys tell them apart as well as their
identifiers do, and a lookup finds exact matches only.

* `IsNamed`: an object with a namespace and a name of its own.
* `get?_of_spaced`, `lookup_of_spaced`: no object is found in place of another.
* `find?_key_iff`: the named objects of a mirror by their keys.
-/

namespace IngressWatch

open Resource

/-- The identifier of the named objects that go by this key. -/
def Key.identifier (k : Key) : Identifier := ⟨some k.ns, k.name⟩

theorem Key.identifier_inj {k l : Key} : k.identifier = l.identifier ↔ k = l := by
  obtain ⟨_, _⟩ := k
  obtain ⟨_, _⟩ := l
  simp [Key.identifier]

variable {α : Type} [Resource α]

/-- An object with a namespace and a name of its own. -/
structure IsNamed (object : α) : Prop where
  ns : (metadata object).ns.isSome
  name : (metadata object).name.isSome

instance (o : α) : Decidable (IsNamed o) :=
  decidable_of_iff ((metadata o).ns.isSome ∧ (metadata o).name.isSome)
    ⟨fun h => ⟨h.1, h.2⟩, fun h => ⟨h.ns, h.name⟩⟩

theorem IsNamed.identifier_eq {o : α} (h : IsNamed o) : identifier o = (key o).identifier := by
  obtain ⟨ns, hns⟩ := Option.isSome_iff_exists.1 h.ns
  obtain ⟨name, hname⟩ := Option.isSome_iff_exists.1 h.name
  simp [identifier, Metadata.identifier, Key.identifier, key, Metadata.key, Metadata.space,
    Metadata.title, hns, hname]

/-- **Named objects are alike exactly if they go by the same key.** -/
theorem IsNamed.identifier_eq_iff {o p : α} (ho : IsNamed o) (hp : IsNamed p) :
    identifier o = identifier p ↔ key o = key p := by
  rw [ho.identifier_eq, hp.identifier_eq, Key.identifier_inj]

namespace Mirror

variable {m : Mirror α}

theorem mem_of_find? {id : Identifier} {o : α} (h : m.find? id = some o) : o ∈ m.objects :=
  List.mem_of_find?_eq_some h

theorem find?_of_mem {o : α} (h : o ∈ m.objects) : m.find? (identifier o) = some o :=
  mem_objects_iff.1 h

/-- Where every object has a namespace, nothing is found without one. -/
theorem find?_none_of_spaced (h : ∀ o ∈ m.objects, (metadata o).ns.isSome) (name : String) :
    m.find? ⟨none, name⟩ = none := by
  rw [Option.eq_none_iff_forall_ne_some]
  intro o ho
  have hid := identifier_of_find? ho
  have hns : (metadata o).ns = none := congrArg Identifier.ns hid
  have := h o (mem_of_find? ho)
  simp [hns] at this

theorem get?_of_spaced (h : ∀ o ∈ m.objects, (metadata o).ns.isSome) (id : Identifier) :
    m.get? id = m.find? id := by
  rw [get?, find?_none_of_spaced h, Option.or_none]

/-- **A lookup finds the object of exactly that key**, and nothing for a key without a
namespace. -/
theorem lookup_of_spaced (h : ∀ o ∈ m.objects, (metadata o).ns.isSome) (k : Key) :
    m.lookup k = if k.ns = "" then none else m.find? k.identifier := by
  rw [lookup, get?_of_spaced h]
  split
  · exact find?_none_of_spaced h _
  · rfl

/-- The named objects of a mirror by their keys. -/
theorem find?_key_iff (h : ∀ o ∈ m.objects, IsNamed o) {k : Key} {o : α} :
    m.find? k.identifier = some o ↔ o ∈ m.objects ∧ key o = k := by
  constructor
  · intro ho
    have hm := mem_of_find? ho
    refine ⟨hm, Key.identifier_inj.1 ?_⟩
    rw [← (h o hm).identifier_eq]
    exact identifier_of_find? ho
  · rintro ⟨hm, rfl⟩
    rw [← (h o hm).identifier_eq]
    exact find?_of_mem hm

theorem find?_key_put {o : α} (h : IsNamed o) (k : Key) :
    (m.put o).find? k.identifier = if k = key o then some o else m.find? k.identifier := by
  rw [find?_put, h.identifier_eq]
  simp only [Key.identifier_inj]

/-- What is put into a mirror is all that can be new in it. -/
theorem mem_put {o p : α} (h : p ∈ (m.put o).objects) : p = o ∨ p ∈ m.objects := by
  rw [mem_objects_iff, find?_put] at h
  split at h
  · exact .inl (Option.some.inj h).symm
  · exact .inr (mem_objects_iff.2 h)

theorem find?_key_remove {o : α} (h : IsNamed o) (k : Key) :
    (m.remove o).find? k.identifier = if k = key o then none else m.find? k.identifier := by
  rw [find?_remove, h.identifier_eq]
  simp only [Key.identifier_inj]

theorem mem_remove {o p : α} (h : p ∈ (m.remove o).objects) : p ∈ m.objects :=
  (List.mem_filter.1 h).1

end Mirror

end IngressWatch
