import IngressWatch.Proofs.Announcements
import IngressWatch.Proofs.Replay

/-!
# Relists that are given up

What a relist lists is reported at once, but enters the mirror at its end only. If the relist is
given up, the next one starts from the mirror and does not know what was reported.

* `standing`: what the changes so far say about a key, by the last of them.
* `Binding.standing_changes`, `Binding.shownAt_next`: **a change says what is shown from then on**,
  and without one the same is shown as before, up to the start of a relist.
* `Binding.Stranded`: an object that a relist showed before it was given up, that the mirror did not
  hold, and that nothing was said about since.
* `run_stranded`: **at the end of a relist, the last word on a key is what the mirror holds**, but
  for the objects that are stranded. These stay for good: no later relist misses them.
-/

namespace IngressWatch

open Resource

variable {α : Type} [Resource α]

/-! ## The last word on a key -/

/-- None of the changes is filed under the key. -/
def Quiet (k : Key) (ds : List (Delta α)) : Prop := ∀ d ∈ ds, ∀ o ∈ d.filed?, key o ≠ k

/-- A change is filed under the key. -/
def Delta.isAt (k : Key) (d : Delta α) : Bool := d.filed?.any (key · = k)

/-- **The last word on a key**: the object that the last change filed under it brings, if there is
one and it is no deletion. -/
def standing (k : Key) (ds : List (Delta α)) : Option α :=
  ((ds.filter (Delta.isAt k)).getLast?).bind Delta.new?

section

variable {k : Key} {ds ds' : List (Delta α)}

theorem Delta.isAt_iff {d : Delta α} : d.isAt k = true ↔ ∃ o ∈ d.filed?, key o = k := by
  simp [Delta.isAt, Option.any_eq_true]

omit [Resource α] in
/-- A change is filed under the key of the object that it brings. -/
theorem Delta.filed?_of_new {d : Delta α} {o : α} (h : d.new? = some o) : d.filed? = some o := by
  rw [Delta.filed?, h, Option.some_or]

theorem quiet_iff_filter : Quiet k ds ↔ ds.filter (Delta.isAt k) = [] := by
  rw [List.filter_eq_nil_iff]
  simp only [Delta.isAt_iff, not_exists, not_and]
  rfl

theorem quiet_append : Quiet k (ds ++ ds') ↔ Quiet k ds ∧ Quiet k ds' := by
  simp only [Quiet, List.forall_mem_append]

theorem standing_of_quiet (h : Quiet k ds) : standing k ds = none := by
  rw [standing, quiet_iff_filter.1 h]
  rfl

theorem standing_append_of_quiet (h : Quiet k ds') : standing k (ds ++ ds') = standing k ds := by
  rw [standing, List.filter_append, quiet_iff_filter.1 h, List.append_nil]
  rfl

theorem standing_append_of_not_quiet (h : ¬ Quiet k ds') :
    standing k (ds ++ ds') = standing k ds' := by
  rw [quiet_iff_filter] at h
  rw [standing, List.filter_append, List.getLast?_append_of_ne_nil _ h]
  rfl

/-- Changes that bring nothing leave nothing standing. -/
theorem standing_eq_none (h : ∀ d ∈ ds, d.new? = none) : standing k ds = none := by
  rw [standing, Option.bind_eq_none_iff]
  intro d hd
  exact h d (List.mem_of_mem_filter (List.mem_of_getLast? hd))

theorem standing_singleton {d : Delta α} {o : α} (ho : o ∈ d.filed?) (hk : key o = k) :
    standing k [d] = d.new? := by
  rw [standing, List.filter_cons_of_pos (Delta.isAt_iff.2 ⟨o, ho, hk⟩)]
  rfl

end

/-! ## What an event says about a key -/

/-- An identifier is listed in the relist in progress. -/
def Feed.Lists (f : Feed) (id : Identifier) : Prop := ∃ ids ∈ f.listed, id ∈ ids

instance (f : Feed) : DecidablePred f.Lists := fun id =>
  inferInstanceAs (Decidable (∃ ids ∈ f.listed, id ∈ ids))

namespace Binding

/-- The accepted object that was shown last at a key. -/
def shownAt (b : Binding α) (k : Key) : Option α := (b.shown k.identifier).filter b.accept

variable {b : Binding α} {f : Feed} {k : Key} {o : α}

theorem shownAt_of_none (h : b.relist = none) (k : Key) : b.shownAt k = b.acceptedAt k := by
  rw [shownAt, b.shown_of_none h]
  rfl

/-- An accepted object that takes a place is the last word on its key. -/
theorem standing_replaced_of_accept (ho : b.accept o = true) (hk : key o = k) (old : Option α) :
    standing k (b.replaced old o) = some o := by
  obtain ⟨d, hd, hnew⟩ := b.replaced_of_accept ho old
  rw [hd, standing_singleton (Delta.filed?_of_new hnew) hk, hnew]

theorem not_quiet_replaced (ho : b.accept o = true) (hk : key o = k) (old : Option α) :
    ¬ Quiet k (b.replaced old o) := by
  intro hquiet
  have hstanding := standing_replaced_of_accept ho hk old
  rw [standing_of_quiet hquiet] at hstanding
  cases hstanding

/-- When an object takes the place of another of its key, a change that is filed says what is there
from then on. -/
theorem standing_replaced {old : Option α} (hold : ∀ p ∈ old, key p = key o)
    (hk : ¬ Quiet k (b.replaced old o)) :
    k = key o ∧ standing k (b.replaced old o) = (some o).filter b.accept := by
  cases ha : b.accept o with
  | true =>
    have hkey : key o = k := by
      by_contra hne
      obtain ⟨d, hd, hnew⟩ := b.replaced_of_accept ha old
      refine hk fun d' hd' p hp => ?_
      rw [hd, List.mem_singleton] at hd'
      rw [hd', Delta.filed?_of_new hnew] at hp
      rwa [← Option.some.inj hp]
    rw [standing_replaced_of_accept ha hkey, Option.filter_some_pos ha]
    exact ⟨hkey.symm, rfl⟩
  | false =>
    rw [b.replaced_of_refuse ha] at hk ⊢
    rw [Option.filter_some_neg (by simp [ha])]
    refine ⟨?_, standing_eq_none fun d hd => ?_⟩
    · by_contra hne
      refine hk fun d hd p hp => ?_
      obtain ⟨q, hq, rfl⟩ := List.mem_map.1 hd
      obtain rfl := Option.some.inj hp
      have hmem := (Option.filter_eq_some_iff.1 (Option.mem_toList.1 hq)).1
      rw [hold q hmem]
      exact Ne.symm hne
    · obtain ⟨q, -, rfl⟩ := List.mem_map.1 hd
      rfl

namespace Follows

variable (h : b.Follows f)
include h

theorem shownAt_of_not_lists (hk : ¬ f.Lists k.identifier) : b.shownAt k = b.acceptedAt k := by
  cases hf : f.listed with
  | none => exact shownAt_of_none (h.relist_of_none hf) k
  | some ids =>
    obtain ⟨r, hb, -, hseen, -⟩ := h.relist_of_some hf
    have hnot : k.identifier ∉ ids := fun hmem => hk ⟨ids, hf, hmem⟩
    rw [shownAt, b.shown_of_some hb, hseen, if_neg hnot]
    rfl

/-! What is shown after an event. -/

theorem shownAt_apply (hf : f.listed = none) (ho : IsNamed o) :
    (b.next (.apply o)).shownAt k =
      if k = key o then (some o).filter b.accept else b.shownAt k := by
  have hb := h.relist_of_none hf
  have hb' : (b.next (.apply o)).relist = none := by simp [Binding.next, relisted, hb]
  rw [shownAt_of_none hb', shownAt_of_none hb]
  show ((b.mirror.put o).find? k.identifier).filter b.accept = _
  rw [Mirror.find?_key_put ho]
  split <;> rfl

theorem shownAt_delete (hf : f.listed = none) (ho : IsNamed o) :
    (b.next (.delete o)).shownAt k = if k = key o then none else b.shownAt k := by
  have hb := h.relist_of_none hf
  have hb' : (b.next (.delete o)).relist = none := by simp [Binding.next, relisted, hb]
  rw [shownAt_of_none hb', shownAt_of_none hb]
  show ((b.mirror.remove o).find? k.identifier).filter b.accept = _
  rw [Mirror.find?_key_remove ho]
  split <;> rfl

theorem shownAt_initApply (hf : f.listed ≠ none) (ho : IsNamed o) :
    (b.next (.initApply o)).shownAt k =
      if k = key o then (some o).filter b.accept else b.shownAt k := by
  obtain ⟨ids, hf⟩ := Option.ne_none_iff_exists'.1 hf
  obtain ⟨r, hb, -⟩ := h.relist_of_some hf
  have hb' : (b.next (.initApply o)).relist = some { r with seen := identifier o :: r.seen } := by
    simp [Binding.next, relisted, hb]
  rw [shownAt, shown_of_some hb', shownAt, shown_of_some hb]
  show Option.filter b.accept (if k.identifier ∈ identifier o :: r.seen then
    (b.buffer.put o).find? k.identifier else b.mirror.find? k.identifier) = _
  rw [Mirror.find?_key_put ho, ho.identifier_eq]
  by_cases hk : k = key o
  · simp [hk]
  · simp [hk, Key.identifier_inj]

theorem shownAt_initDone_of_lists (hk : f.Lists k.identifier) :
    (b.next .initDone).shownAt k = b.shownAt k := by
  obtain ⟨ids, hf, hmem⟩ := hk
  obtain ⟨r, hb, -, hseen, -⟩ := h.relist_of_some hf
  rw [shownAt_of_none rfl, shownAt, b.shown_of_some hb, hseen, if_pos hmem]
  rfl

theorem shownAt_initDone_of_not_lists (hf : f.listed ≠ none) (hk : ¬ f.Lists k.identifier) :
    (b.next .initDone).shownAt k = none := by
  obtain ⟨ids, hf⟩ := Option.ne_none_iff_exists'.1 hf
  obtain ⟨r, hb, -, -, hids⟩ := h.relist_of_some hf
  have hbuffer : b.buffer.find? k.identifier = none :=
    Option.not_isSome_iff_eq_none.1 fun hmem => hk ⟨ids, hf, (hids _).2 hmem⟩
  rw [shownAt_of_none rfl]
  show (b.buffer.find? k.identifier).filter b.accept = none
  rw [hbuffer]
  rfl

end Follows

theorem shownAt_init (b : Binding α) (k : Key) : (b.next .init).shownAt k = b.acceptedAt k := by
  rw [shownAt, shown_of_some (r := ⟨b.mirror.objects, []⟩) rfl, if_neg List.not_mem_nil]
  rfl

end Binding

namespace Feed

/-- A relist shows no object twice. -/
def Unrepeated (f : Feed) : Event α → Prop
  | .initApply o => ¬ f.Lists (identifier o)
  | _ => True

instance (f : Feed) : DecidablePred (f.Unrepeated : Event α → Prop)
  | .initApply o => inferInstanceAs (Decidable (¬ f.Lists (identifier o)))
  | .apply _ | .delete _ | .init | .initDone => inferInstanceAs (Decidable True)

/-- **The events of a watch whose lists may fail.** A list that fails is given up for a new one. -/
def Restarting (f : Feed) (e : Event α) : Prop := f.Orderly True e ∧ f.Unrepeated e

instance (f : Feed) : DecidablePred (f.Restarting : Event α → Prop) := fun e =>
  inferInstanceAs (Decidable (f.Orderly True e ∧ f.Unrepeated e))

end Feed

namespace Binding.Follows

variable {b : Binding α} {f : Feed} {e : Event α} {k : Key} (h : b.Follows f)
include h

theorem acceptedAt_eq_some_iff {o : α} :
    b.acceptedAt k = some o ↔ o ∈ b.mirror.objects ∧ key o = k ∧ b.accept o = true := by
  rw [acceptedAt, Option.filter_eq_some_iff, Mirror.find?_key_iff h.mirrored, and_assoc]

theorem key_of_get? {o p : α} (ho : IsNamed o) (hp : p ∈ b.mirror.get? (identifier o)) :
    key p = key o := by
  rw [h.get?_mirror] at hp
  exact h.key_of_find? ho hp

/-- The object that a deletion reports goes by the key of the deleted one. -/
theorem key_getD {o : α} (ho : IsNamed o) :
    key ((b.mirror.get? (identifier o)).getD o) = key o := by
  cases hp : b.mirror.get? (identifier o) with
  | none => rfl
  | some p => exact h.key_of_get? ho hp

/-- The end of a relist says something about the accepted objects that it did not list. -/
theorem quiet_initDone_iff (hf : f.listed ≠ none) :
    Quiet k (b.changes .initDone) ↔ f.Lists k.identifier ∨ b.acceptedAt k = none := by
  obtain ⟨ids, hf⟩ := Option.ne_none_iff_exists'.1 hf
  have hgone := h.mem_gone hf
  constructor
  · intro hquiet
    by_contra hnot
    obtain ⟨hlists, hsome⟩ := not_or.1 hnot
    obtain ⟨o, ho⟩ := Option.ne_none_iff_exists'.1 hsome
    obtain ⟨hmem, hkey, haccept⟩ := h.acceptedAt_eq_some_iff.1 ho
    have hunlisted : identifier o ∉ ids := fun hid =>
      hlists ⟨ids, hf, by rwa [← hkey, ← (h.mirrored o hmem).identifier_eq]⟩
    refine hquiet (.deleted o) ?_ o rfl hkey
    rw [changes_initDone, List.mem_append, List.mem_flatMap]
    exact .inl ⟨o, (hgone o).2 ⟨hmem, hunlisted⟩, b.mem_vanished.2 ⟨haccept, rfl⟩⟩
  · intro hor d hd p hp hkey
    rw [changes_initDone, List.mem_append, List.mem_flatMap, List.mem_singleton] at hd
    rcases hd with ⟨o, ho, hd⟩ | rfl
    · obtain ⟨haccept, rfl⟩ := b.mem_vanished.1 hd
      obtain rfl := Option.some.inj hp
      obtain ⟨hmem, hunlisted⟩ := (hgone o).1 ho
      rcases hor with ⟨ids', hf', hid⟩ | hnone
      · obtain rfl := Option.some.inj (hf.symm.trans hf')
        rw [(h.mirrored o hmem).identifier_eq, hkey] at hunlisted
        exact hunlisted hid
      · have hsome := h.acceptedAt_eq_some_iff.2 ⟨hmem, hkey, haccept⟩
        rw [hnone] at hsome
        cases hsome
    · cases hp

/-- **What is filed under a key** says what is shown at it from then on. -/
theorem standing_changes (he : f.Restarting e) (hn : ∀ o ∈ e.object?, IsNamed o)
    (hk : ¬ Quiet k (b.changes e)) : standing k (b.changes e) = (b.next e).shownAt k := by
  cases e with
  | apply o =>
    have ho : IsNamed o := hn o rfl
    obtain ⟨hkey, hstanding⟩ := standing_replaced (fun _ => h.key_of_get? ho) hk
    rw [h.shownAt_apply he.1 ho, if_pos hkey]
    exact hstanding
  | initApply o =>
    have ho : IsNamed o := hn o rfl
    obtain ⟨hkey, hstanding⟩ := standing_replaced (fun _ => h.key_of_get? ho) hk
    rw [h.shownAt_initApply he.1 ho, if_pos hkey]
    exact hstanding
  | delete o =>
    have ho : IsNamed o := hn o rfl
    have hkey : k = key o := by
      by_contra hne
      refine hk fun d hd p hp => ?_
      obtain ⟨-, rfl⟩ := b.mem_vanished.1 hd
      obtain rfl := Option.some.inj hp
      rw [h.key_getD ho]
      exact Ne.symm hne
    rw [h.shownAt_delete he.1 ho, if_pos hkey]
    refine standing_eq_none fun d hd => ?_
    obtain ⟨-, rfl⟩ := b.mem_vanished.1 hd
    rfl
  | init => exact absurd (fun d hd => by cases hd) hk
  | initDone =>
    have hlists : ¬ f.Lists k.identifier := fun hlists =>
      hk ((h.quiet_initDone_iff he.1).2 (.inl hlists))
    rw [h.shownAt_initDone_of_not_lists he.1 hlists, changes_initDone, flatMap_vanished]
    refine standing_eq_none fun d hd => ?_
    rw [List.mem_append, List.mem_map, List.mem_singleton] at hd
    rcases hd with ⟨o, -, rfl⟩ | rfl <;> rfl

/-- **Where nothing is filed under a key**, the same is shown at it as before, unless a relist
starts. -/
theorem shownAt_next (he : f.Restarting e) (hn : ∀ o ∈ e.object?, IsNamed o) (hne : e ≠ .init)
    (hk : Quiet k (b.changes e)) : (b.next e).shownAt k = b.shownAt k := by
  -- an object that is shown at the key takes the place of the mirrored one
  have hreplaced : ∀ o, IsNamed o → k = key o → ¬ f.Lists k.identifier →
      Quiet k (b.replaced (b.mirror.get? (identifier o)) o) →
      (some o).filter b.accept = b.shownAt k := by
    intro o ho hkey hlists hquiet
    rw [filter_eq_of_quiet_replaced hkey.symm
      (fun p hp => (h.key_of_get? ho hp).trans hkey.symm) hquiet, h.get?_mirror,
      h.shownAt_of_not_lists hlists, acceptedAt, hkey, ho.identifier_eq]
  cases e with
  | apply o =>
    have ho : IsNamed o := hn o rfl
    have hlists : ¬ f.Lists k.identifier := by
      rintro ⟨ids, hf, -⟩
      rw [he.1] at hf
      cases hf
    rw [h.shownAt_apply he.1 ho]
    split
    · exact hreplaced o ho ‹_› hlists hk
    · rfl
  | initApply o =>
    have ho : IsNamed o := hn o rfl
    rw [h.shownAt_initApply he.1 ho]
    split
    · rename_i hkey
      refine hreplaced o ho hkey ?_ hk
      rw [hkey, ← ho.identifier_eq]
      exact he.2
    · rfl
  | delete o =>
    have ho : IsNamed o := hn o rfl
    rw [h.shownAt_delete he.1 ho]
    split
    · rename_i hkey
      rw [shownAt_of_none (h.relist_of_none he.1), acceptedAt, hkey, ← ho.identifier_eq]
      cases hold : b.mirror.find? (identifier o) with
      | none => rfl
      | some p =>
        simp only [changes, h.get?_mirror, hold, Option.getD_some] at hk
        exact (filter_eq_none_of_quiet_vanished ((h.key_of_find? ho hold).trans hkey.symm) hk).symm
    · rfl
  | init => exact absurd rfl hne
  | initDone =>
    by_cases hlists : f.Lists k.identifier
    · exact h.shownAt_initDone_of_lists hlists
    · rw [h.shownAt_initDone_of_not_lists he.1 hlists, h.shownAt_of_not_lists hlists]
      exact (((h.quiet_initDone_iff he.1).1 hk).resolve_left hlists).symm

end Binding.Follows

/-! ## Runs -/

namespace Binding

theorem after_append (b : Binding α) (es es' : List (Event α)) :
    b.after (es ++ es') = (b.after es).after es' := by
  induction es generalizing b with
  | nil => rfl
  | cons e es ih => exact ih (b.next e)

theorem log_append (b : Binding α) (es es' : List (Event α)) :
    b.log (es ++ es') = b.log es ++ (b.after es).log es' := by
  induction es generalizing b with
  | nil => rfl
  | cons e es ih => rw [List.cons_append, log_cons, log_cons, ih, after_cons, List.append_assoc]

theorem after_concat (b : Binding α) (es : List (Event α)) (e : Event α) :
    b.after (es ++ [e]) = (b.after es).next e := b.after_append es [e]

theorem log_concat (b : Binding α) (es : List (Event α)) (e : Event α) :
    b.log (es ++ [e]) = b.log es ++ (b.after es).changes e := by
  rw [log_append, log_cons, log_nil, List.append_nil]

theorem Follows.run {b : Binding α} {f : Feed} (h : b.Follows f) {es : List (Event α)}
    (hes : Feed.Along Feed.Restarting f es) (hn : ∀ e ∈ es, ∀ o ∈ e.object?, IsNamed o) :
    (b.after es).Follows (f.after es) := by
  induction es generalizing b f with
  | nil => exact h
  | cons e es ih =>
    exact ih (h.step hes.1.1 (hn e List.mem_cons_self)) hes.2 fun e' he' =>
      hn e' (List.mem_cons_of_mem _ he')

/-- A relist shows an object at a key where the mirror holds none that is accepted, and nothing is
said about the key since. -/
structure Introduced (b : Binding α) (k : Key) (o : α) (before since : List (Event α)) : Prop where
  key_eq : key o = k
  accepted : b.accept o = true
  absent : (b.after before).acceptedAt k = none
  quiet : Quiet k ((b.after (before ++ [Event.initApply o])).log since)

/-- An object that the relist in progress introduced. -/
def Pending (b : Binding α) (es : List (Event α)) (k : Key) (o : α) : Prop :=
  ∃ (before : List (Event α)) (listed : List α),
    es = before ++ Event.initApply o :: listed.map .initApply ∧
      b.Introduced k o before (listed.map .initApply)

/-- **An object that is stranded**: a relist introduced it and was then given up. -/
def Stranded (b : Binding α) (es : List (Event α)) (k : Key) (o : α) : Prop :=
  ∃ (before : List (Event α)) (listed : List α) (after : List (Event α)),
    es = before ++ Event.initApply o :: (listed.map .initApply ++ Event.init :: after) ∧
      b.Introduced k o before (listed.map .initApply ++ Event.init :: after)

variable {b : Binding α} {f : Feed} {es before since : List (Event α)} {e : Event α} {k : Key}
  {o : α}

namespace Introduced

variable (h : b.Introduced k o before since)
include h

/-- What was introduced last is the last word on its key. -/
theorem standing : standing k (b.log (before ++ Event.initApply o :: since)) = some o := by
  have haccept : (b.after before).accept o = true := by rw [accept_after, h.accepted]
  have hquiet : ¬ Quiet k ((b.after before).changes (.initApply o)) :=
    not_quiet_replaced haccept h.key_eq _
  rw [← List.singleton_append, ← List.append_assoc, log_append,
    standing_append_of_quiet h.quiet, log_concat, standing_append_of_not_quiet hquiet]
  exact standing_replaced_of_accept haccept h.key_eq _

theorem concat (hquiet : Quiet k ((b.after (before ++ Event.initApply o :: since)).changes e)) :
    b.Introduced k o before (since ++ [e]) := by
  refine ⟨h.key_eq, h.accepted, h.absent, ?_⟩
  rw [log_concat, quiet_append, ← after_append, List.append_assoc, List.singleton_append]
  exact ⟨h.quiet, hquiet⟩

end Introduced

theorem Stranded.standing (h : b.Stranded es k o) : standing k (b.log es) = some o := by
  obtain ⟨before, listed, after, rfl, h⟩ := h
  exact h.standing

theorem Stranded.concat (h : b.Stranded es k o) (hquiet : Quiet k ((b.after es).changes e)) :
    b.Stranded (es ++ [e]) k o := by
  obtain ⟨before, listed, after, rfl, h⟩ := h
  have hconcat := h.concat hquiet
  rw [List.append_assoc] at hconcat
  exact ⟨before, listed, after ++ [e], by simp, hconcat⟩

/-- A relist that is given up strands what it introduced. -/
theorem Pending.stranded (h : b.Pending es k o) : b.Stranded (es ++ [Event.init]) k o := by
  obtain ⟨before, listed, rfl, h⟩ := h
  exact ⟨before, listed, [], by simp, h.concat fun d hd => by cases hd⟩

theorem Pending.concat (h : b.Pending es k o) {p : α}
    (hquiet : Quiet k ((b.after es).changes (.initApply p))) :
    b.Pending (es ++ [Event.initApply p]) k o := by
  obtain ⟨before, listed, rfl, h⟩ := h
  have hconcat := h.concat hquiet
  refine ⟨before, listed ++ [p], by simp, ?_⟩
  rwa [List.map_append]

end Binding

theorem Feed.lists_initApply {f : Feed} {o : α} {id : Identifier}
    (h : (f.next (.initApply o)).Lists id) : id = identifier o ∨ f.Lists id := by
  obtain ⟨ids, hids, hmem⟩ := h
  obtain ⟨ids', hf, rfl⟩ := Option.map_eq_some_iff.1 hids
  rcases List.mem_cons.1 hmem with hid | hid
  · exact .inl hid
  · exact .inr ⟨ids', hf, hid⟩

theorem Feed.not_lists_of_none {f : Feed} (h : f.listed = none) (id : Identifier) :
    ¬ f.Lists id := by
  rintro ⟨ids, hf, -⟩
  rw [h] at hf
  cases hf

open Binding

/-- **A run so far**: the last word on a key is what is shown there, unless the object is stranded
or the relist in progress has yet to come to the mirrored object. -/
structure Narrates (b : Binding α) (f : Feed) (es : List (Event α)) (k : Key) : Prop where
  standing : standing k (b.log es) = (b.after es).shownAt k ∨
    ((b.after es).shownAt k = none ∧ ∃ o, b.Stranded es k o) ∨
      (f.listed ≠ none ∧ ¬ f.Lists k.identifier ∧ (b.after es).acceptedAt k ≠ none)
  /-- What is listed and not mirrored was introduced by the relist in progress. -/
  pending : f.Lists k.identifier → (b.after es).acceptedAt k = none →
    ∀ o ∈ (b.after es).shownAt k, b.Pending es k o

namespace Narrates

variable {b : Binding α} {f : Feed} {es : List (Event α)} {e : Event α} {k : Key}

theorem start (b : Binding α) (f : Feed) (hf : f.listed = none) (hb : b.shownAt k = none) :
    Narrates b f [] k where
  standing := .inl (by rw [after_nil, hb]; rfl)
  pending hlists := absurd hlists (Feed.not_lists_of_none hf _)

theorem init (h : Narrates b f es k) (hfollows : (b.after es).Follows f) :
    Narrates b (f.next (.init : Event α)) (es ++ [Event.init]) k := by
  have hlists : ¬ (f.next (.init : Event α)).Lists k.identifier := by
    rintro ⟨ids, hids, hmem⟩
    obtain rfl := Option.some.inj hids
    cases hmem
  refine ⟨?_, fun h => absurd h hlists⟩
  have hquiet : Quiet k ((b.after es).changes .init) := fun d hd => by cases hd
  rw [log_concat, standing_append_of_quiet hquiet, after_concat, shownAt_init]
  cases haccepted : (b.after es).acceptedAt k with
  | some p =>
    refine .inr (.inr ⟨Option.some_ne_none _, hlists, ?_⟩)
    show (b.after es).acceptedAt k ≠ none
    rw [haccepted]
    exact Option.some_ne_none p
  | none =>
    rcases h.standing with hstanding | ⟨-, o, hstranded⟩ | ⟨-, -, hsome⟩
    · cases hshown : (b.after es).shownAt k with
      | none => exact .inl (hstanding.trans hshown)
      | some o =>
        -- it is shown and not mirrored, so it was listed
        have hlisted : f.Lists k.identifier := by
          by_contra hnot
          rw [hfollows.shownAt_of_not_lists hnot, haccepted] at hshown
          cases hshown
        exact .inr (.inl ⟨rfl, o, (h.pending hlisted haccepted o hshown).stranded⟩)
    · exact .inr (.inl ⟨rfl, o, hstranded.concat hquiet⟩)
    · exact absurd haccepted hsome

variable (h : Narrates b f es k) (hfollows : (b.after es).Follows f) (he : f.Restarting e)
  (hn : ∀ o ∈ e.object?, IsNamed o)
include h hfollows he hn

/-- What is listed by now and not mirrored was introduced by the relist in progress. -/
theorem pending_next (hlists : (f.next e).Lists k.identifier)
    (habsent : (b.after (es ++ [e])).acceptedAt k = none) :
    ∀ o ∈ (b.after (es ++ [e])).shownAt k, b.Pending (es ++ [e]) k o := by
  rw [after_concat] at habsent ⊢
  intro o hshown
  cases e with
  | initApply p =>
    have hp : IsNamed p := hn p rfl
    rw [hfollows.shownAt_initApply he.1 hp] at hshown
    split at hshown
    · rename_i hkey
      obtain ⟨hmem, haccept⟩ := Option.filter_eq_some_iff.1 hshown
      obtain rfl := Option.some.inj hmem
      rw [accept_after] at haccept
      exact ⟨es, [], rfl, hkey.symm, haccept, habsent, fun d hd => by cases hd⟩
    · rename_i hkey
      have hlisted : f.Lists k.identifier := by
        refine (Feed.lists_initApply hlists).resolve_left fun hid => hkey ?_
        rwa [hp.identifier_eq, Key.identifier_inj] at hid
      refine (h.pending hlisted habsent o hshown).concat ?_
      by_contra hloud
      exact hkey (standing_replaced (fun _ => hfollows.key_of_get? hp) hloud).1
  | apply p | delete p =>
    have hnone : f.listed = none := he.1
    exact absurd hlists (Feed.not_lists_of_none hnone _)
  | init =>
    obtain ⟨ids, hids, hmem⟩ := hlists
    obtain rfl := Option.some.inj hids
    cases hmem
  | initDone => exact absurd hlists (Feed.not_lists_of_none rfl _)

/-- **One event** of a watch that may give up its relists. -/
theorem step : Narrates b (f.next e) (es ++ [e]) k := by
  by_cases hinit : e = .init
  · subst hinit
    exact h.init hfollows
  refine ⟨?_, h.pending_next hfollows he hn⟩
  rw [log_concat, after_concat]
  by_cases hquiet : Quiet k ((b.after es).changes e)
  · have hshown := hfollows.shownAt_next he hn hinit hquiet
    rw [standing_append_of_quiet hquiet, hshown]
    rcases h.standing with hstanding | ⟨hnone, o, hstranded⟩ | ⟨hrelist, hlists, haccepted⟩
    · exact .inl hstanding
    · exact .inr (.inl ⟨hnone, o, hstranded.concat hquiet⟩)
    · -- the relist goes on, and has not come to the mirrored object yet
      cases e with
      | apply p | delete p => exact absurd he.1 hrelist
      | init => exact absurd rfl hinit
      | initApply p =>
        have hp : IsNamed p := hn p rfl
        refine .inr (.inr ⟨by simpa [Feed.next] using hrelist, fun hnext => ?_, haccepted⟩)
        have hid := (Feed.lists_initApply hnext).resolve_right hlists
        rw [hp.identifier_eq, Key.identifier_inj] at hid
        rw [hfollows.shownAt_initApply he.1 hp, if_pos hid,
          hfollows.shownAt_of_not_lists hlists] at hshown
        obtain ⟨q, hq⟩ := Option.ne_none_iff_exists'.1 haccepted
        obtain ⟨hmem, haccept⟩ := Option.filter_eq_some_iff.1 (hshown.trans hq)
        obtain rfl := Option.some.inj hmem
        exact not_quiet_replaced haccept hid.symm _ hquiet
      | initDone =>
        rcases (hfollows.quiet_initDone_iff he.1).1 hquiet with hlisted | hnone
        · exact absurd hlisted hlists
        · exact absurd hnone haccepted
  · rw [standing_append_of_not_quiet hquiet]
    exact .inl (hfollows.standing_changes he hn hquiet)

omit he hn in
/-- **A run of events** of a watch that may give up its relists. -/
theorem run {es' : List (Event α)} (hes : Feed.Along Feed.Restarting f es')
    (hn : ∀ e ∈ es', ∀ o ∈ e.object?, IsNamed o) : Narrates b (f.after es') (es ++ es') k := by
  induction es' generalizing es f with
  | nil =>
    rw [List.append_nil]
    exact h
  | cons e es' ih =>
    have he : ∀ o ∈ e.object?, IsNamed o := hn e List.mem_cons_self
    have hnext : (b.after (es ++ [e])).Follows (f.next e) := by
      rw [after_concat]
      exact hfollows.step hes.1.1 he
    have hrest := ih (h.step hfollows hes.1 he) hnext hes.2 fun e' he' =>
      hn e' (List.mem_cons_of_mem _ he')
    rwa [List.append_assoc] at hrest

end Narrates

/-- Where nothing is shown at a key, and nothing is said about it, the mirror holds nothing there
later on. -/
theorem Binding.Follows.absent_run {b : Binding α} {f : Feed} {k : Key} (h : b.Follows f)
    {es : List (Event α)} (hes : Feed.Along Feed.Restarting f es)
    (hn : ∀ e ∈ es, ∀ o ∈ e.object?, IsNamed o) (hquiet : Quiet k (b.log es))
    (habsent : b.acceptedAt k = none) (hshown : b.shownAt k = none) :
    (b.after es).acceptedAt k = none := by
  induction es generalizing b f with
  | nil => exact habsent
  | cons e es ih =>
    have he := hn e List.mem_cons_self
    have hnext := h.step hes.1.1 he
    obtain ⟨hquiet, hrest⟩ := quiet_append.1 hquiet
    have hshown' : (b.next e).shownAt k = none := by
      by_cases hinit : e = .init
      · rw [hinit, shownAt_init, habsent]
      · rw [h.shownAt_next hes.1 he hinit hquiet, hshown]
    refine ih hnext hes.2 (fun e' he' => hn e' (List.mem_cons_of_mem _ he')) hrest ?_ hshown'
    cases e with
    | apply p | delete p | initDone =>
      -- no relist is in progress, so what is shown is what is mirrored
      rw [← hnext.shownAt_of_not_lists (Feed.not_lists_of_none ?_ _)]
      · exact hshown'
      · first | exact hes.1.1 | rfl
    | init | initApply p => exact habsent

/-- Until its end a relist leaves the mirror as it is. -/
theorem Binding.acceptedAt_after_listed (b : Binding α) (listed : List α) (k : Key) :
    (b.after (listed.map .initApply)).acceptedAt k = b.acceptedAt k := by
  induction listed generalizing b with
  | nil => rfl
  | cons o listed ih => exact ih (b.next (.initApply o))

/-- A stranded object is not in the mirror, nor is another that is accepted at its key. -/
theorem Binding.Stranded.absent {accept : α → Bool} {es : List (Event α)} {k : Key} {o : α}
    (h : ({ accept } : Binding α).Stranded es k o) (hes : Feed.Along Feed.Restarting {} es)
    (hn : ∀ e ∈ es, ∀ o ∈ e.object?, IsNamed o) :
    (({ accept } : Binding α).after es).acceptedAt k = none := by
  obtain ⟨before, listed, after, rfl, h⟩ := h
  -- up to the next relist, then the rest
  have hsplit : before ++ Event.initApply o :: (listed.map .initApply ++ Event.init :: after) =
      (before ++ Event.initApply o :: listed.map .initApply) ++ Event.init :: after := by simp
  rw [hsplit] at hes hn ⊢
  obtain ⟨hfirst, hrest⟩ := Feed.along_append.1 hes
  have hfollows := (follows_start accept).run hfirst fun e he => hn e (List.mem_append_left _ he)
  have hquiet := h.quiet
  have habsent := (({ accept } : Binding α).after
    (before ++ [Event.initApply o])).acceptedAt_after_listed listed k
  rw [log_append, quiet_append, ← after_append, List.append_assoc, List.singleton_append] at hquiet
  rw [← after_append, List.append_assoc, List.singleton_append, after_concat] at habsent
  have hmirrored := habsent.trans h.absent
  rw [after_append]
  have hinit := hfollows.step (e := .init) hrest.1.1 fun o ho => by cases ho
  exact hinit.absent_run hrest.2 (fun e he => hn e (List.mem_append_right _
    (List.mem_cons_of_mem _ he))) hquiet.2 hmirrored (by rw [shownAt_init, hmirrored])

/-- **At the end of a relist the last word on a key is what the mirror holds**, but for objects that
are stranded, and those are in no mirror. This holds for any objects that are accepted, and for any
run of a watch that may give up its relists, if all objects are named. -/
theorem run_stranded (accept : α → Bool) {es : List (Event α)}
    (hes : Feed.Along Feed.Restarting {} (es ++ [Event.initDone]))
    (hnamed : ∀ e ∈ es, ∀ o ∈ e.object?, IsNamed o) (k : Key) (o : α) :
    let b : Binding α := { accept }
    (standing k (b.log (es ++ [Event.initDone])) = some o ↔
        (b.after (es ++ [Event.initDone])).acceptedAt k = some o ∨
          b.Stranded (es ++ [Event.initDone]) k o) ∧
      (b.Stranded (es ++ [Event.initDone]) k o →
        (b.after (es ++ [Event.initDone])).acceptedAt k = none) := by
  intro b
  have hn : ∀ e ∈ es ++ [Event.initDone], ∀ o ∈ e.object?, IsNamed o := by
    intro e he o ho
    rcases List.mem_append.1 he with he | he
    · exact hnamed e he o ho
    · obtain rfl := List.mem_singleton.1 he
      cases ho
  have hrun : Narrates b (({} : Feed).after (es ++ [Event.initDone])) (es ++ [Event.initDone]) k :=
    (Narrates.start b {} rfl rfl).run (follows_start accept) hes hn
  have hlast : (({} : Feed).after (es ++ [Event.initDone])).listed = none := by
    rw [Feed.after, List.foldl_append]
    rfl
  have hfollows : (b.after (es ++ [Event.initDone])).Follows _ := (follows_start accept).run hes hn
  have hshown : (b.after (es ++ [Event.initDone])).shownAt k =
      (b.after (es ++ [Event.initDone])).acceptedAt k :=
    shownAt_of_none (hfollows.relist_of_none hlast) k
  refine ⟨⟨fun hstanding => ?_, ?_⟩, fun h => h.absent hes hn⟩
  · rcases hrun.standing with h | ⟨-, p, hstranded⟩ | ⟨hrelist, -, -⟩
    · rw [← hshown, ← h]
      exact .inl hstanding
    · rw [hstranded.standing] at hstanding
      obtain rfl := Option.some.inj hstanding
      exact .inr hstranded
    · exact absurd hlast hrelist
  · rintro (haccepted | hstranded)
    · rcases hrun.standing with h | ⟨hnone, -⟩ | ⟨hrelist, -, -⟩
      · rw [h, hshown, haccepted]
      · rw [hshown, haccepted] at hnone
        cases hnone
      · exact absurd hlast hrelist
    · exact hstranded.standing

/-- A secret that is deleted while it is listed. -/
def goneSecret : Secret where
  metadata := { ns := some "web", name := some "gone" }

/-- The list fails after its first page, and the secret is gone when it is listed anew. -/
def failedList : List (Event Secret) := [.init, .initApply goneSecret, .init]

/-- The secret was added, and its deletion is not reported. -/
theorem run_stranded_gone :
    let b : Binding Secret := { accept := fun _ => true }
    let gone : Key := ⟨"web", "gone"⟩
    Feed.Along Feed.Restarting {} (failedList ++ [Event.initDone]) ∧
      (∀ e ∈ failedList, ∀ o ∈ e.object?, IsNamed o) ∧
      standing gone (b.log (failedList ++ [Event.initDone])) = some goneSecret ∧
      (b.after (failedList ++ [Event.initDone])).acceptedAt gone = none := by
  intro b gone
  have hes : Feed.Along Feed.Restarting {} (failedList ++ [Event.initDone]) := by decide
  have hnamed : ∀ e ∈ failedList, ∀ o ∈ e.object?, IsNamed o := by decide
  have hstranded : b.Stranded (failedList ++ [Event.initDone]) gone goneSecret := by
    refine ⟨[.init], [], [.initDone], rfl, rfl, rfl, rfl, fun d hd => ?_⟩
    obtain rfl := List.mem_singleton.1 hd
    exact fun o ho => by cases ho
  obtain ⟨hstanding, habsent⟩ := run_stranded (fun _ => true) hes hnamed gone goneSecret
  exact ⟨hes, hnamed, hstanding.2 (.inr hstranded), habsent hstranded⟩

/-- So the last word on a key need not be the mirror's. -/
theorem not_standing_mirrored :
    ¬ ∀ (accept : Secret → Bool) (es : List (Event Secret)),
      Feed.Along Feed.Restarting {} (es ++ [Event.initDone]) →
        (∀ e ∈ es, ∀ o ∈ e.object?, IsNamed o) →
          let b : Binding Secret := { accept }
          ∀ k, (standing k (b.log (es ++ [Event.initDone]))).isSome →
            ∃ o ∈ (b.after (es ++ [Event.initDone])).mirror.objects,
              b.accept o = true ∧ key o = k := by
  intro h
  obtain ⟨o, ho, -⟩ := h (fun _ => true) failedList (by decide) (by decide) ⟨"web", "gone"⟩ rfl
  cases ho

end IngressWatch
