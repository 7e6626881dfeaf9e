/-!
# Maps from names

Labels, annotations and the data of secrets and config maps are maps from texts, listed in the
order of their names.

* `Dict`: the entries in ascending order of their names, so that equal maps are equal values.
* `Dict.get?_insert`, `Dict.get?_erase`: what a lookup finds after a change.
* `Dict.ext_get?`: two maps in which every lookup finds the same are equal.
-/

namespace IngressWatch

/-- A map whose entries are in strictly ascending order of their names. -/
structure Dict (α : Type) where
  entries : List (String × α)
  ascending : entries.Pairwise (fun a b => a.1 < b.1) := by simp

namespace Dict

variable {α β : Type}

instance [DecidableEq α] : DecidableEq (Dict α) := fun a b =>
  if h : a.entries = b.entries then isTrue (by cases a; cases b; simp_all)
  else isFalse fun e => h (by rw [e])

theorem entries_inj {d e : Dict α} : d.entries = e.entries ↔ d = e := by
  cases d
  cases e
  simp

def empty : Dict α := ⟨[], by simp⟩

instance : EmptyCollection (Dict α) := ⟨empty⟩
instance : Inhabited (Dict α) := ⟨empty⟩

def isEmpty (d : Dict α) : Bool := d.entries.isEmpty

def size (d : Dict α) : Nat := d.entries.length

/-- The value of the first entry with this name. -/
def find (name : String) : List (String × α) → Option α
  | [] => none
  | e :: rest => if e.1 = name then some e.2 else find name rest

def get? (d : Dict α) (name : String) : Option α := find name d.entries

def contains (d : Dict α) (name : String) : Bool := (d.get? name).isSome

/-- Puts an entry where it belongs among ascending entries. -/
def insertEntry (name : String) (value : α) : List (String × α) → List (String × α)
  | [] => [(name, value)]
  | e :: rest =>
    if name < e.1 then (name, value) :: e :: rest
    else if name = e.1 then (name, value) :: rest
    else e :: insertEntry name value rest

theorem fst_of_mem_insertEntry {name : String} {value : α} {l : List (String × α)}
    {e : String × α} (h : e ∈ insertEntry name value l) : e.1 = name ∨ e ∈ l := by
  induction l with
  | nil => simp_all [insertEntry]
  | cons f l ih =>
    simp only [insertEntry] at h
    split at h
    · simp only [List.mem_cons] at h ⊢
      rcases h with rfl | h | h <;> simp_all
    · split at h
      · simp only [List.mem_cons] at h ⊢
        rcases h with rfl | h <;> simp_all
      · simp only [List.mem_cons] at h ⊢
        rcases h with rfl | h
        · exact .inr (.inl rfl)
        · exact (ih h).imp_right .inr

theorem pairwise_insertEntry {name : String} {value : α} {l : List (String × α)}
    (h : l.Pairwise (fun a b => a.1 < b.1)) :
    (insertEntry name value l).Pairwise (fun a b => a.1 < b.1) := by
  induction l with
  | nil => simp [insertEntry]
  | cons e l ih =>
    have ⟨he, hl⟩ := List.pairwise_cons.1 h
    simp only [insertEntry]
    split
    · rename_i hlt
      refine List.pairwise_cons.2 ⟨fun f hf => ?_, h⟩
      rcases List.mem_cons.1 hf with rfl | hf
      · exact hlt
      · exact String.lt_trans hlt (he f hf)
    · split
      · rename_i heq
        exact List.pairwise_cons.2 ⟨fun f hf => heq ▸ he f hf, hl⟩
      · rename_i hnlt hne
        refine List.pairwise_cons.2 ⟨fun f hf => ?_, ih hl⟩
        rcases fst_of_mem_insertEntry hf with hf | hf
        · rw [hf]
          exact Decidable.byContradiction fun hc =>
            hne (String.le_antisymm (String.not_lt.1 hc) (String.not_lt.1 hnlt))
        · exact he f hf

/-- Sets the value of `name`. -/
def insert (d : Dict α) (name : String) (value : α) : Dict α :=
  ⟨insertEntry name value d.entries, pairwise_insertEntry d.ascending⟩

/-- Removes the entry of `name`, if there is one. -/
def erase (d : Dict α) (name : String) : Dict α :=
  ⟨d.entries.filter (·.1 ≠ name), d.ascending.filter _⟩

/-- Later entries replace earlier ones of the same name. -/
def ofList (l : List (String × α)) : Dict α := l.foldl (fun d e => d.insert e.1 e.2) empty

def map (f : α → β) (d : Dict α) : Dict β :=
  ⟨d.entries.map fun e => (e.1, f e.2), by simpa [List.pairwise_map] using d.ascending⟩

/-- Maps the values and keeps those that have an image. -/
def filterMap (f : α → Option β) (d : Dict α) : Dict β :=
  ⟨d.entries.filterMap fun e => (f e.2).map fun b => (e.1, b), by
    refine List.Pairwise.filterMap _ (fun a b hab a' ha b' hb => ?_) d.ascending
    obtain ⟨_, _, rfl⟩ := Option.map_eq_some_iff.1 ha
    obtain ⟨_, _, rfl⟩ := Option.map_eq_some_iff.1 hb
    exact hab⟩

@[simp] theorem get?_empty (name : String) : (empty : Dict α).get? name = none := rfl

theorem find_eq_none {name : String} {l : List (String × α)} (h : ∀ e ∈ l, e.1 ≠ name) :
    find name l = none := by
  induction l with
  | nil => rfl
  | cons e l ih => simp_all [find]

theorem get?_insert (d : Dict α) (name other : String) (value : α) :
    (d.insert name value).get? other = if other = name then some value else d.get? other := by
  simp only [get?, insert]
  induction d.entries with
  | nil => simp [insertEntry, find, eq_comm]
  | cons e l ih =>
    simp only [insertEntry]
    split
    · by_cases h : other = name
      · simp [find, h]
      · simp [find, h, Ne.symm h]
    · split
      · rename_i h
        subst h
        by_cases h : other = e.1
        · simp [find, h]
        · simp [find, h, Ne.symm h]
      · rename_i h
        simp only [find, ih]
        by_cases ho : other = name
        · subst ho
          simp [Ne.symm h]
        · simp [ho]

theorem get?_erase (d : Dict α) (name other : String) :
    (d.erase name).get? other = if other = name then none else d.get? other := by
  simp only [get?, erase]
  induction d.entries with
  | nil => simp [find]
  | cons e l ih =>
    by_cases he : e.1 = name
    · rw [List.filter_cons_of_neg (by simp [he]), ih]
      by_cases h : other = name
      · simp [h]
      · simp [find, h, he, Ne.symm h]
    · rw [List.filter_cons_of_pos (by simp [he])]
      simp only [find, ih]
      by_cases h : other = name
      · subst h
        simp [he]
      · simp [h]

theorem mem_entries_iff {d : Dict α} {name : String} {value : α} :
    (name, value) ∈ d.entries ↔ d.get? name = some value := by
  obtain ⟨l, hl⟩ := d
  simp only [get?]
  induction l with
  | nil => simp [find]
  | cons e l ih =>
    have ⟨he, htail⟩ := List.pairwise_cons.1 hl
    by_cases h : e.1 = name
    · subst h
      have hlater : (e.1, value) ∉ l := fun hm =>
        String.lt_irrefl e.1 (he (e.1, value) hm)
      simp [find, hlater, Prod.ext_iff, eq_comm]
    · have hother : e ≠ (name, value) := fun hc => h (by rw [hc])
      simp [find, h, ih htail, Ne.symm hother]

/-- In ascending entries, a name that is found is not before the first. -/
theorem not_lt_of_find {a : String × α} {l : List (String × α)} {name : String}
    (hp : (a :: l).Pairwise (fun a b => a.1 < b.1)) (hf : find name (a :: l) ≠ none) :
    ¬ name < a.1 := by
  intro hlt
  refine hf (find_eq_none fun b hb hn => ?_)
  subst hn
  rcases List.mem_cons.1 hb with rfl | hb
  · exact String.lt_irrefl _ hlt
  · exact String.lt_asymm hlt ((List.pairwise_cons.1 hp).1 b hb)

theorem eq_of_find_eq {l m : List (String × α)} (hl : l.Pairwise (fun a b => a.1 < b.1))
    (hm : m.Pairwise (fun a b => a.1 < b.1)) (h : ∀ name, find name l = find name m) : l = m := by
  induction l generalizing m with
  | nil =>
    cases m with
    | nil => rfl
    | cons b m => simpa [find] using h b.1
  | cons a l ih =>
    cases m with
    | nil => simpa [find] using h a.1
    | cons b m =>
      have h1 : ¬ a.1 < b.1 := not_lt_of_find hm (by rw [← h]; simp [find])
      have h2 : ¬ b.1 < a.1 := not_lt_of_find hl (by rw [h]; simp [find])
      have hk : a.1 = b.1 := String.le_antisymm (String.not_lt.1 h2) (String.not_lt.1 h1)
      have hv : a.2 = b.2 := by simpa [find, hk] using h a.1
      have hl' := List.pairwise_cons.1 hl
      have hm' := List.pairwise_cons.1 hm
      have absent : ∀ {l : List (String × α)}, (∀ c ∈ l, a.1 < c.1) → find a.1 l = none :=
        fun hc => find_eq_none fun c hmem hn => String.lt_irrefl _ (hn ▸ hc c hmem)
      rw [Prod.ext hk hv, ih hl'.2 hm'.2 fun name => ?_]
      by_cases hn : a.1 = name
      · subst hn
        rw [absent hl'.1, absent fun c hc => hk ▸ hm'.1 c hc]
      · simpa [find, hn, hk ▸ hn] using h name

theorem ext_get? {d e : Dict α} (h : ∀ name, d.get? name = e.get? name) : d = e := by
  obtain ⟨l, hl⟩ := d
  obtain ⟨m, hm⟩ := e
  have : l = m := eq_of_find_eq hl hm h
  subst this
  rfl

end Dict

end IngressWatch
