import IngressWatch.Proofs.FileNames

/-!
# Keys and their texts

* `Key.parse_of_not_mem`, `Key.parse_of_slash`: what is read, by where the first slash is.
* `Key.parse_eq_ok_iff`: **which texts are read as a key**: the two that spell it, if it has a name
  and no slash of its own.
* `Key.Flat.parse_display`: such a key is read back as it was written.
* `Key.written_and_read`: **reading and writing are inverse exactly for these texts and keys.**
-/

namespace IngressWatch.Key

variable {text : String} {k : Key}

/-! ## The first slash -/

theorem ne_slash_of_not_mem {s : List Char} (h : '/' ∉ s) : ∀ c ∈ s, decide (c ≠ '/') = true :=
  fun _ hc => decide_eq_true (ne_of_mem_of_not_mem hc h)

/-- A text without a slash is all name. -/
theorem parse_of_not_mem (h : '/' ∉ text.toList) :
    parse text = if text = "" then .error (.keyName text) else .ok ⟨"", text⟩ := by
  have hfirst : text.toList.takeWhile (· ≠ '/') = text.toList := by
    rw [← List.append_nil text.toList, List.takeWhile_append_of_pos (ne_slash_of_not_mem h)]
    rfl
  have hrest : text.toList.dropWhile (· ≠ '/') = [] := by
    rw [← List.append_nil text.toList, List.dropWhile_append_of_pos (ne_slash_of_not_mem h)]
    rfl
  unfold parse
  simp only [hfirst, hrest, String.ofList_toList, String.toList_eq_nil_iff]

/-- Otherwise the first slash ends the namespace, and the rest is the name. -/
theorem parse_of_slash {ns : String} (h : '/' ∉ ns.toList) (rest : String) :
    parse (ns ++ "/" ++ rest) =
      if '/' ∈ rest.toList then .error (.keyFormat (ns ++ "/" ++ rest))
      else if rest = "" then .error (.keyName (ns ++ "/" ++ rest)) else .ok ⟨ns, rest⟩ := by
  have hfirst : (ns ++ "/" ++ rest).toList.takeWhile (· ≠ '/') = ns.toList := by
    rw [Path.toList_slash, List.takeWhile_append_of_pos (ne_slash_of_not_mem h)]
    simp
  have hrest : (ns ++ "/" ++ rest).toList.dropWhile (· ≠ '/') = '/' :: rest.toList := by
    rw [Path.toList_slash, List.dropWhile_append_of_pos (ne_slash_of_not_mem h)]
    simp
  unfold parse
  simp only [hfirst, hrest, String.ofList_toList, String.toList_eq_nil_iff]

/-- Every text with a slash has a first one. -/
theorem exists_slash (h : '/' ∈ text.toList) :
    ∃ ns rest : String, '/' ∉ ns.toList ∧ text = ns ++ "/" ++ rest := by
  obtain ⟨before, after, htext, hbefore⟩ := List.eq_append_cons_of_mem h
  refine ⟨String.ofList before, String.ofList after, by rwa [String.toList_ofList], ?_⟩
  apply String.toList_injective
  rw [htext, Path.toList_slash, String.toList_ofList, String.toList_ofList]

/-! ## Texts of keys -/

/-- A key is written in one of these ways. -/
theorem display_cases (k : Key) :
    k.display = k.ns ++ "/" ++ k.name ∨ k.ns = "" ∧ k.display = k.name := by
  unfold display
  split
  · rename_i hns
    exact .inr ⟨hns, rfl⟩
  · exact .inl rfl

/-- **Which texts are read as a key.** A key without a namespace has two. -/
theorem parse_eq_ok_iff : parse text = .ok k ↔
    k.Flat ∧ k.name ≠ "" ∧ (text = k.ns ++ "/" ++ k.name ∨ k.ns = "" ∧ text = k.name) := by
  constructor
  · intro h
    by_cases hslash : '/' ∈ text.toList
    · obtain ⟨ns, rest, hns, rfl⟩ := exists_slash hslash
      rw [parse_of_slash hns] at h
      split at h
      · cases h
      · rename_i hrest
        split at h
        · cases h
        · rename_i hname
          obtain rfl := Except.ok.inj h
          exact ⟨⟨hns, hrest⟩, hname, .inl rfl⟩
    · rw [parse_of_not_mem hslash] at h
      split at h
      · cases h
      · rename_i hname
        obtain rfl := Except.ok.inj h
        exact ⟨⟨List.not_mem_nil, hslash⟩, hname, .inr ⟨rfl, rfl⟩⟩
  · rintro ⟨hflat, hname, rfl | ⟨hns, rfl⟩⟩
    · rw [parse_of_slash hflat.ns, if_neg hflat.name, if_neg hname]
    · rw [parse_of_not_mem hflat.name, if_neg hname, ← hns]

theorem flat_of_parse (h : parse text = .ok k) : k.Flat := (parse_eq_ok_iff.1 h).1

theorem Flat.parse_display (h : k.Flat) (hname : k.name ≠ "") : parse k.display = .ok k :=
  parse_eq_ok_iff.2 ⟨h, hname, k.display_cases⟩

/-- A text is read exactly if it has one slash at most, and its last part is not empty. -/
theorem exists_parse_eq_ok_iff : (∃ k, parse text = .ok k) ↔
    text.toList.count '/' ≤ 1 ∧ (text.toList.splitOn '/').getLast? ≠ some [] := by
  by_cases hslash : '/' ∈ text.toList
  · obtain ⟨ns, rest, hns, rfl⟩ := exists_slash hslash
    have hcount : (ns ++ "/" ++ rest).toList.count '/' = 1 + rest.toList.count '/' := by
      rw [Path.toList_slash, List.count_append, List.count_cons_self, List.count_eq_zero.2 hns]
      omega
    rw [parse_of_slash hns, hcount, Path.toList_slash,
      List.splitOn_append_cons_self_of_not_mem hns]
    by_cases hrest : '/' ∈ rest.toList
    · -- a second slash
      have hmore := List.count_pos_iff.2 hrest
      rw [if_pos hrest]
      constructor
      · rintro ⟨k, h⟩
        cases h
      · rintro ⟨h, -⟩
        omega
    · rw [if_neg hrest, List.count_eq_zero.2 hrest, List.splitOn_eq_singleton hrest]
      by_cases hname : rest = "" <;> simp [hname]
  · rw [parse_of_not_mem hslash, List.count_eq_zero.2 hslash, List.splitOn_eq_singleton hslash]
    by_cases hname : text = "" <;> simp [hname]

/-- The key of a text is written as the text was, but for a slash at the start. -/
theorem display_of_parse (h : parse text = .ok k) : k.display.toList =
    if text.toList.head? = some '/' then text.toList.tail else text.toList := by
  obtain ⟨hflat, -, rfl | ⟨hns, rfl⟩⟩ := parse_eq_ok_iff.1 h
  · by_cases hns : k.ns = ""
    · simp [display, hns, String.toList_append]
    · -- the text starts as the namespace does
      obtain ⟨c, rest, hc⟩ := List.exists_cons_of_ne_nil (mt String.toList_eq_nil_iff.1 hns)
      have hfirst : c ≠ '/' := by
        rintro rfl
        exact hflat.ns (hc ▸ List.mem_cons_self)
      simp [display, hns, String.toList_append, hc, hfirst]
  · have hfirst : k.name.toList.head? ≠ some '/' := fun hc => hflat.name (List.mem_of_head? hc)
    rw [if_neg hfirst, display, if_pos hns]

/-- **Reading and writing are inverse exactly where they should be.** A text is read exactly if it
has one slash at most and something after it, or something at all if it has none; the key that is
read has no slash in its parts, and is written as the text was, but for a slash at the start. A key
is read back from its text exactly if it has a name and no slash in its parts. -/
theorem written_and_read (text : String) (k : Key) :
    ((∃ read, parse text = .ok read) ↔
        text.toList.count '/' ≤ 1 ∧ (text.toList.splitOn '/').getLast? ≠ some []) ∧
      (∀ read, parse text = .ok read → '/' ∉ read.ns.toList ∧ '/' ∉ read.name.toList ∧
        read.display.toList =
          if text.toList.head? = some '/' then text.toList.tail else text.toList) ∧
      (parse k.display = .ok k ↔
        k.name ≠ "" ∧ '/' ∉ k.ns.toList ∧ '/' ∉ k.name.toList) ∧
      (¬ (k.name ≠ "" ∧ '/' ∉ k.ns.toList ∧ '/' ∉ k.name.toList) →
        (∃ cause, parse k.display = .error cause) ∨ ∃ other ≠ k, parse k.display = .ok other) := by
  have hback : parse k.display = .ok k ↔
      k.name ≠ "" ∧ '/' ∉ k.ns.toList ∧ '/' ∉ k.name.toList := by
    rw [parse_eq_ok_iff]
    constructor
    · rintro ⟨hflat, hname, -⟩
      exact ⟨hname, hflat.ns, hflat.name⟩
    · rintro ⟨hname, hns, hslash⟩
      exact ⟨⟨hns, hslash⟩, hname, k.display_cases⟩
  refine ⟨exists_parse_eq_ok_iff, ?_, hback, ?_⟩
  · intro read h
    have hflat := flat_of_parse h
    exact ⟨hflat.ns, hflat.name, display_of_parse h⟩
  · intro hk
    cases h : parse k.display with
    | error cause => exact .inl ⟨cause, rfl⟩
    | ok other =>
      refine .inr ⟨other, ?_, rfl⟩
      rintro rfl
      exact hk (hback.1 h)

end IngressWatch.Key
