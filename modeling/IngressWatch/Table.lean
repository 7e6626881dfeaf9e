/-!
# Finite tables

Maps whose keys have no order of their own.

* `Table`: entries with different keys.
* `Table.get?_insert`, `Table.get?_erase`: what a lookup finds after a change.
* `Table.mem_keys_iff`: the keys are those that are found.
-/

namespace IngressWatch

structure Table (κ α : Type) where
  entries : List (κ × α)
  nodup : (entries.map Prod.fst).Nodup := by simp

namespace Table

variable {κ α : Type} [DecidableEq κ]

def empty : Table κ α := ⟨[], by simp⟩

instance : EmptyCollection (Table κ α) := ⟨empty⟩
instance : Inhabited (Table κ α) := ⟨empty⟩

def keys (t : Table κ α) : List κ := t.entries.map Prod.fst

/-- The value of the first entry with this key. -/
def find (key : κ) : List (κ × α) → Option α
  | [] => none
  | e :: rest => if e.1 = key then some e.2 else find key rest

def get? (t : Table κ α) (key : κ) : Option α := find key t.entries

def contains (t : Table κ α) (key : κ) : Bool := (t.get? key).isSome

/-- Removes the entry of `key`, if there is one. -/
def erase (t : Table κ α) (key : κ) : Table κ α :=
  ⟨t.entries.filter (·.1 ≠ key), t.nodup.sublist (List.filter_sublist.map _)⟩

/-- Sets the value of `key`. -/
def insert (t : Table κ α) (key : κ) (value : α) : Table κ α :=
  ⟨(key, value) :: (t.erase key).entries, by
    refine List.nodup_cons.2 ⟨fun h => ?_, (t.erase key).nodup⟩
    obtain ⟨e, he, hk⟩ := List.mem_map.1 h
    have := List.mem_filter.1 he
    simp_all⟩

@[simp] theorem get?_empty (key : κ) : (empty : Table κ α).get? key = none := rfl

theorem find_filter_ne (key other : κ) (l : List (κ × α)) :
    find other (l.filter (·.1 ≠ key)) = if other = key then none else find other l := by
  induction l with
  | nil => simp [find]
  | cons e l ih =>
    by_cases he : e.1 = key
    · rw [List.filter_cons_of_neg (by simp [he]), ih]
      by_cases h : other = key
      · simp [h]
      · simp [find, h, he, Ne.symm h]
    · rw [List.filter_cons_of_pos (by simp [he])]
      simp only [find, ih]
      by_cases h : other = key
      · subst h
        simp [he]
      · simp [h]

theorem get?_erase (t : Table κ α) (key other : κ) :
    (t.erase key).get? other = if other = key then none else t.get? other :=
  find_filter_ne key other t.entries

theorem get?_insert (t : Table κ α) (key other : κ) (value : α) :
    (t.insert key value).get? other = if other = key then some value else t.get? other := by
  have := t.get?_erase key other
  by_cases h : other = key
  · simp [get?, insert, find, h]
  · simp only [h, if_false, get?] at this
    simp [get?, insert, find, h, Ne.symm h, this]

theorem find_eq_none_iff {key : κ} {l : List (κ × α)} :
    find key l = none ↔ key ∉ l.map Prod.fst := by
  induction l with
  | nil => simp [find]
  | cons e l ih =>
    by_cases h : e.1 = key
    · simp [find, h]
    · simp [find, h, ih, Ne.symm h]

theorem mem_keys_iff {t : Table κ α} {key : κ} : key ∈ t.keys ↔ (t.get? key).isSome := by
  rw [Option.isSome_iff_ne_none, ne_eq, get?, find_eq_none_iff, keys, Decidable.not_not]

theorem mem_entries_iff {t : Table κ α} {key : κ} {value : α} :
    (key, value) ∈ t.entries ↔ t.get? key = some value := by
  obtain ⟨l, hl⟩ := t
  simp only [get?]
  induction l with
  | nil => simp [find]
  | cons e l ih =>
    have ⟨he, hn⟩ := List.nodup_cons.1 hl
    by_cases h : e.1 = key
    · subst h
      have : (e.1, value) ∉ l := fun hm => he (List.mem_map.2 ⟨_, hm, rfl⟩)
      simp [find, this, Prod.ext_iff, eq_comm]
    · have : e ≠ (key, value) := fun hc => h (by rw [hc])
      simp [find, h, ih hn, Ne.symm this]

end Table

end IngressWatch
