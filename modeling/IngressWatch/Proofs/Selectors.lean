import IngressWatch.Selector

/-!
# Selectors and their texts

The text of a selector has no escapes. What keeps it readable is which terms are accepted.

* `Selector.ofTerms_eq_ok_iff`, `Selector.ofTerms_eq_error_iff`: **which maps are accepted**, and
  the first term that is to blame if one is not.
* `Selector.accepts_some_iff`, `Selector.accepts_none_iff`: which labels a selector asks for.
* `Selector.readTerms_display`: **the text is read back** as the terms of the selector.
* `Selector.text_determines`: so selectors with one text are the same, and so are selectors that
  accept the same labels.
-/

namespace IngressWatch.Selector

variable {s t : Selector} {terms : Dict String}

/-! ## Accepted terms -/

/-- A separator, another operator, or white space. -/
def IsSpecial (c : Char) : Prop :=
  c = ',' ∨ c = '=' ∨ c = '!' ∨ c = '(' ∨ c = ')' ∨ Text.isBlank c = true

/-- A term without a key, or with a special character in its key or value. -/
def IsUnfit (key value : String) : Prop :=
  key = "" ∨ (∃ c ∈ key.toList, IsSpecial c) ∨ ∃ c ∈ value.toList, IsSpecial c

theorem isPlainChar_iff {c : Char} : isPlainChar c = true ↔ ¬ IsSpecial c := by
  simp [isPlainChar, IsSpecial, and_assoc]

theorem isPlain_iff {text : String} : isPlain text = true ↔ ¬ ∃ c ∈ text.toList, IsSpecial c := by
  rw [isPlain, List.all_eq_true]
  simp only [isPlainChar_iff, not_exists, not_and]

theorem isTerm_iff {key value : String} : isTerm key value = true ↔ ¬ IsUnfit key value := by
  rw [isTerm, Bool.and_eq_true, Bool.and_eq_true, isPlain_iff, isPlain_iff, IsUnfit, not_or, not_or,
    decide_eq_true_eq, and_assoc]

theorem not_isTerm_iff {key value : String} : (!isTerm key value) = true ↔ IsUnfit key value := by
  rw [Bool.not_eq_true', ← Bool.not_eq_true, isTerm_iff, Classical.not_not]

/-- **A map is a selector if all of its terms can be written.** -/
theorem ofTerms_eq_ok_iff : ofTerms terms = .ok s ↔
    s.terms = terms ∧ ∀ e ∈ terms.entries, ¬ IsUnfit e.1 e.2 := by
  unfold ofTerms
  cases hfind : terms.entries.find? fun e => !isTerm e.1 e.2 with
  | some e =>
    have hunfit := List.find?_some hfind
    exact ⟨nofun, fun h =>
      absurd (not_isTerm_iff.1 hunfit) (h.2 e (List.mem_of_find?_eq_some hfind))⟩
  | none =>
    have hfit : ∀ e ∈ terms.entries, ¬ IsUnfit e.1 e.2 := fun e he =>
      mt not_isTerm_iff.2 (List.find?_eq_none.1 hfind e he)
    constructor
    · intro h
      obtain rfl := Except.ok.inj h
      exact ⟨rfl, hfit⟩
    · rintro ⟨rfl, -⟩
      rfl

/-- Otherwise the first that can not is to blame. -/
theorem ofTerms_eq_error_iff {cause : Malformed} : ofTerms terms = .error cause ↔
    ∃ before e after, terms.entries = before ++ e :: after ∧ (∀ f ∈ before, ¬ IsUnfit f.1 f.2) ∧
      IsUnfit e.1 e.2 ∧ cause = .selectorTerm e.1 e.2 := by
  have hfirst : ∀ e, terms.entries.find? (fun e => !isTerm e.1 e.2) = some e ↔
      IsUnfit e.1 e.2 ∧ ∃ before after, terms.entries = before ++ e :: after ∧
        ∀ f ∈ before, ¬ IsUnfit f.1 f.2 := by
    intro e
    rw [List.find?_eq_some_iff_append, not_isTerm_iff]
    simp only [Bool.not_not, isTerm_iff]
  unfold ofTerms
  constructor
  · intro h
    split at h
    · rename_i key value hfind
      obtain ⟨hunfit, before, after, hentries, hbefore⟩ := (hfirst _).1 hfind
      exact ⟨before, _, after, hentries, hbefore, hunfit, (Except.error.inj h).symm⟩
    · cases h
  · rintro ⟨before, e, after, hentries, hbefore, hunfit, rfl⟩
    rw [(hfirst e).2 ⟨hunfit, before, after, hentries, hbefore⟩]

/-! ## Accepted labels -/

theorem isEmpty_iff : s.isEmpty = true ↔ s.terms = Dict.empty := by
  rw [isEmpty, Dict.isEmpty, List.isEmpty_iff, ← Dict.entries_inj]
  rfl

theorem accepts_some_iff {labels : Dict String} : s.accepts (some labels) = true ↔
    ∀ name value, s.terms.get? name = some value → labels.get? name = some value := by
  rw [accepts, List.all_eq_true]
  simp only [Option.getD_some, decide_eq_true_eq, Prod.forall, Dict.mem_entries_iff]

theorem accepts_none_iff : s.accepts none = true ↔ s.isEmpty = true := by
  rw [accepts, isEmpty, Dict.isEmpty]
  cases s.terms.entries with
  | nil => simp
  | cons e rest => simp

/-- Selectors that accept the same labels have the same terms. -/
theorem eq_of_accepts (h : ∀ labels, s.accepts labels = t.accepts labels) : s = t := by
  -- each of them accepts its own terms as labels
  have hle : ∀ {s t : Selector}, s.accepts (some s.terms) = t.accepts (some s.terms) →
      ∀ name value, t.terms.get? name = some value → s.terms.get? name = some value := by
    intro s t h
    rw [← accepts_some_iff, ← h, accepts_some_iff]
    exact fun _ _ hvalue => hvalue
  have hterms : s.terms = t.terms := Dict.ext_get? fun name => Option.ext fun value =>
    ⟨hle (h _).symm name value, hle (h _) name value⟩
  cases s
  cases t
  exact congrArg mk hterms

/-! ## Reading texts back -/

/-- The key and value of a term, around its first sign. -/
def readTerm (text : List Char) : String × String :=
  (String.ofList (text.takeWhile (· ≠ '=')), String.ofList (text.dropWhile (· ≠ '=')).tail)

/-- The terms of a text, between its commas. -/
def readTerms (text : String) : List (String × String) :=
  if text = "" then [] else (text.toList.splitOn ',').map readTerm

theorem readTerm_termText {e : String × String} (h : '=' ∉ e.1.toList) :
    readTerm (termText e) = e := by
  have hkey : ∀ c ∈ e.1.toList, decide (c ≠ '=') = true :=
    fun _ hc => decide_eq_true (ne_of_mem_of_not_mem hc h)
  rw [readTerm, termText, List.takeWhile_append_of_pos hkey, List.dropWhile_append_of_pos hkey]
  simp

/-- The parts of a term that can be written hold no separator. -/
theorem not_mem_of_fit {key value : String} (h : ¬ IsUnfit key value) {c : Char}
    (hc : IsSpecial c) : c ∉ key.toList ∧ c ∉ value.toList :=
  ⟨fun hkey => h (.inr (.inl ⟨c, hkey, hc⟩)), fun hvalue => h (.inr (.inr ⟨c, hvalue, hc⟩))⟩

/-- **The text of a selector is read back as its terms.** -/
theorem readTerms_display (h : ∀ e ∈ s.terms.entries, ¬ IsUnfit e.1 e.2) :
    readTerms s.display = s.terms.entries := by
  have hread : (s.terms.entries.map termText).map readTerm = s.terms.entries := by
    rw [List.map_map]
    refine (List.map_congr_left fun e he => ?_).trans (List.map_id _)
    exact readTerm_termText (not_mem_of_fit (h e he) (.inr (.inl rfl))).1
  have hcomma : ∀ text ∈ s.terms.entries.map termText, ',' ∉ text := by
    intro text htext
    obtain ⟨e, he, rfl⟩ := List.mem_map.1 htext
    obtain ⟨hkey, hvalue⟩ := not_mem_of_fit (h e he) (c := ',') (.inl rfl)
    simp [termText, hkey, hvalue]
  rcases hentries : s.terms.entries with _ | ⟨e, rest⟩
  · simp [readTerms, display, hentries]
  · have hne : s.terms.entries.map termText ≠ [] := by simp [hentries]
    have htext : s.display.toList = [','].intercalate (s.terms.entries.map termText) := by
      rw [display, String.toList_ofList]
    have hsplit : s.display.toList.splitOn ',' = s.terms.entries.map termText := by
      rw [htext, List.splitOn_intercalate ',' hcomma hne]
    -- a text with a term is not empty, since the term has a sign
    have hfilled : s.display ≠ "" := by
      intro hempty
      rw [hempty, hentries] at hsplit
      simp [termText] at hsplit
    rw [readTerms, if_neg hfilled, hsplit, hread, hentries]

/-- **The text of an accepted selector determines it.** Two accepted maps are written alike exactly
if they are equal, the empty map alone has the empty text, and selectors are written alike exactly
if they accept the same labels. -/
theorem text_determines {a b : Dict String} (hs : ofTerms a = .ok s) (ht : ofTerms b = .ok t) :
    (s.display = t.display ↔ a = b) ∧ (s.display = "" ↔ a = Dict.empty) ∧
      (s.display = t.display ↔ ∀ labels, s.accepts labels = t.accepts labels) := by
  obtain ⟨rfl, hfit⟩ := ofTerms_eq_ok_iff.1 hs
  obtain ⟨rfl, hfit'⟩ := ofTerms_eq_ok_iff.1 ht
  have hinj : s.display = t.display ↔ s.terms = t.terms := by
    constructor
    · intro h
      rw [← Dict.entries_inj, ← readTerms_display hfit, h, readTerms_display hfit']
    · intro h
      rw [display, display, h]
  have hempty : s.display = "" ↔ s.terms = Dict.empty := by
    constructor
    · intro h
      rw [← Dict.entries_inj, ← readTerms_display hfit, h]
      rfl
    · intro h
      rw [display, h]
      rfl
  refine ⟨hinj, hempty, hinj.trans ⟨?_, ?_⟩⟩
  · intro h labels
    rw [accepts, accepts, h]
  · intro h
    rw [eq_of_accepts h]

/-- A term without a value is written, too. -/
theorem text_determines_tier :
    let web : Dict String := Dict.ofList [("app", "web")]
    let tiered : Dict String := Dict.ofList [("tier", ""), ("app", "web")]
    let s : Selector := ⟨web⟩
    let t : Selector := ⟨tiered⟩
    ofTerms web = .ok s ∧ ofTerms tiered = .ok t ∧ t.display = "app=web,tier=" ∧
      (s.display = t.display ↔ web = tiered) ∧ (s.display = "" ↔ web = Dict.empty) ∧
      (s.display = t.display ↔ ∀ labels, s.accepts labels = t.accepts labels) := by
  intro web tiered s t
  have hs : ofTerms web = .ok s := rfl
  have ht : ofTerms tiered = .ok t := rfl
  exact ⟨hs, ht, by decide, text_determines hs ht⟩

end IngressWatch.Selector
