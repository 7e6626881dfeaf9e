import IngressWatch.Proofs.Lookup
import IngressWatch.Watch.Binding

/-!
# Events in the order of a watch

A watch alternates between relists and single events. What it may report next depends on what it
has reported so far.

* `Feed`: the objects that a watch has shown, and those of the relist in progress.
* `Feed.Orderly`: single events come between relists. A relist may be given up for a new one where
  `restarts` says so.
* `Feed.Distinct`: a relist shows no object twice, and only what was shown is deleted.
* `Feed.Along`: a property of every event of a run.
* `Binding.Follows`: **the binding knows what the feed has shown.** A relist that was given up
  leaves nothing behind in it.
* `Binding.kept_or_deleted`: no accepted object leaves the mirror without a word.
-/

namespace IngressWatch

open Resource

variable {α : Type} [Resource α]

/-- The object that an event is about. -/
def Event.object? : Event α → Option α
  | .apply o | .delete o | .initApply o => some o
  | .init | .initDone => none

/-- What a watch has shown so far. -/
structure Feed where
  /-- The objects that exist. -/
  live : List Identifier := []
  /-- The objects listed by the relist in progress. -/
  listed : Option (List Identifier) := none

namespace Feed

def next (f : Feed) : Event α → Feed
  | .apply o => { f with live := identifier o :: f.live }
  | .delete o => { f with live := f.live.filter (· ≠ identifier o) }
  | .init => { f with listed := some [] }
  | .initApply o => { f with listed := f.listed.map (identifier o :: ·) }
  | .initDone => ⟨f.listed.getD [], none⟩

def after (f : Feed) (es : List (Event α)) : Feed := es.foldl next f

/-- Single events come between relists, and the parts of a relist inside it. -/
def Orderly (restarts : Prop) (f : Feed) : Event α → Prop
  | .apply _ | .delete _ => f.listed = none
  | .init => restarts ∨ f.listed = none
  | .initApply _ | .initDone => f.listed ≠ none

instance (restarts : Prop) [Decidable restarts] (f : Feed) :
    DecidablePred (f.Orderly restarts : Event α → Prop)
  | .apply _ | .delete _ => inferInstanceAs (Decidable (f.listed = none))
  | .init => inferInstanceAs (Decidable (restarts ∨ f.listed = none))
  | .initApply _ | .initDone => inferInstanceAs (Decidable (f.listed ≠ none))

/-- A relist shows no object twice, and only objects that exist are deleted. -/
def Distinct (f : Feed) : Event α → Prop
  | .initApply o => ∀ ids ∈ f.listed, identifier o ∉ ids
  | .delete o => identifier o ∈ f.live
  | _ => True

instance (f : Feed) : DecidablePred (f.Distinct : Event α → Prop)
  | .initApply o => inferInstanceAs (Decidable (∀ ids ∈ f.listed, identifier o ∉ ids))
  | .delete o => inferInstanceAs (Decidable (identifier o ∈ f.live))
  | .apply _ | .init | .initDone => inferInstanceAs (Decidable True)

/-- **The events of a watch whose lists never fail.** -/
def Steady (f : Feed) (e : Event α) : Prop := f.Orderly False e ∧ f.Distinct e

instance (f : Feed) : DecidablePred (f.Steady : Event α → Prop) := fun e =>
  inferInstanceAs (Decidable (f.Orderly False e ∧ f.Distinct e))

theorem Steady.orderly {f : Feed} {e : Event α} (h : f.Steady e) : f.Orderly True e := by
  cases e with
  | init => exact .inl trivial
  | _ => exact h.1

/-- A property of every event, after the events before it. -/
def Along (P : Feed → Event α → Prop) (f : Feed) : List (Event α) → Prop
  | [] => True
  | e :: rest => P f e ∧ Along P (f.next e) rest

instance decidableAlong {P : Feed → Event α → Prop} [∀ f, DecidablePred (P f)] :
    ∀ (f : Feed) (es : List (Event α)), Decidable (Along P f es)
  | _, [] => inferInstanceAs (Decidable True)
  | f, e :: rest =>
    have := decidableAlong (P := P) (f.next e) rest
    inferInstanceAs (Decidable (P f e ∧ Along P (f.next e) rest))

variable {P : Feed → Event α → Prop} {f : Feed} {es : List (Event α)}

theorem along_append {es' : List (Event α)} :
    Along P f (es ++ es') ↔ Along P f es ∧ Along P (f.after es) es' := by
  induction es generalizing f with
  | nil => simp [Along, after]
  | cons e es ih => simp [Along, ih, after, and_assoc]

end Feed

namespace Binding

variable (b : Binding α)

/-- The binding after some events. -/
def after (es : List (Event α)) : Binding α := (b.run es).2

/-- The changes that some events mean, in order. -/
def log (es : List (Event α)) : List (Delta α) := (b.run es).1

@[simp] theorem after_nil : b.after [] = b := rfl

@[simp] theorem log_nil : b.log [] = [] := rfl

@[simp] theorem after_cons (e : Event α) (es : List (Event α)) :
    b.after (e :: es) = (b.next e).after es := rfl

@[simp] theorem log_cons (e : Event α) (es : List (Event α)) :
    b.log (e :: es) = b.changes e ++ (b.next e).log es := rfl

theorem accept_after (es : List (Event α)) : (b.after es).accept = b.accept := by
  induction es generalizing b with
  | nil => rfl
  | cons e es ih => exact ih (b.next e)

/-- The objects that the relist in progress has not listed. -/
def gone : List α := (b.relist.map Relist.missing).getD []

theorem changes_initDone : b.changes .initDone = b.gone.flatMap b.vanished ++ [.resync] := rfl

/-! ## Accepted objects -/

/-- An accepted object that takes a place is reported. -/
theorem replaced_of_accept {new : α} (h : b.accept new = true) (old : Option α) :
    ∃ d, b.replaced old new = [d] ∧ d.new? = some new := by
  unfold replaced
  rw [h]
  cases old.filter b.accept with
  | none => exact ⟨.added new, rfl, rfl⟩
  | some p => exact ⟨.updated p new, rfl, rfl⟩

/-- An object that is refused takes the place of an accepted one as if that were deleted. -/
theorem replaced_of_refuse {new : α} (h : b.accept new = false) (old : Option α) :
    b.replaced old new = (old.filter b.accept).toList.map .deleted := by
  unfold replaced
  rw [h]
  cases old.filter b.accept <;> rfl

theorem accepted_of_mem_replaced {old : Option α} {new : α} {d : Delta α}
    (h : d ∈ b.replaced old new) {o : α} (ho : d.old? = some o ∨ d.new? = some o) :
    b.accept o = true := by
  unfold replaced at h
  split at h
  · rename_i p hold hnew
    obtain rfl := List.mem_singleton.1 h
    have hp := (Option.filter_eq_some_iff.1 hold).2
    simp only [Delta.old?, Delta.new?, Option.some.injEq] at ho
    rcases ho with rfl | rfl
    · exact hp
    · exact hnew
  · rename_i hnew
    obtain rfl := List.mem_singleton.1 h
    simp only [Delta.old?, Delta.new?, Option.some.injEq, reduceCtorEq, false_or] at ho
    exact ho ▸ hnew
  · rename_i p hold _
    obtain rfl := List.mem_singleton.1 h
    simp only [Delta.old?, Delta.new?, Option.some.injEq, reduceCtorEq, or_false] at ho
    exact ho ▸ (Option.filter_eq_some_iff.1 hold).2
  · simp at h

theorem mem_vanished {old : α} {d : Delta α} :
    d ∈ b.vanished old ↔ b.accept old = true ∧ d = .deleted old := by
  unfold vanished
  split <;> simp_all

theorem flatMap_vanished (l : List α) :
    l.flatMap b.vanished = (l.filter b.accept).map .deleted := by
  induction l with
  | nil => rfl
  | cons o l ih =>
    rw [List.flatMap_cons, ih, vanished, List.filter_cons]
    split <;> rfl

/-- **Only accepted objects are reported.** -/
theorem accepted_of_mem_changes {e : Event α} {d : Delta α} (h : d ∈ b.changes e) {o : α}
    (ho : d.old? = some o ∨ d.new? = some o) : b.accept o = true := by
  have gone : ∀ old, d ∈ b.vanished old → b.accept o = true := by
    intro old hd
    obtain ⟨hold, rfl⟩ := b.mem_vanished.1 hd
    simp only [Delta.old?, Delta.new?, Option.some.injEq, reduceCtorEq, or_false] at ho
    exact ho ▸ hold
  cases e with
  | apply p => exact b.accepted_of_mem_replaced h ho
  | initApply p => exact b.accepted_of_mem_replaced h ho
  | delete p => exact gone _ h
  | init => simp [changes] at h
  | initDone =>
    rcases List.mem_append.1 h with h | h
    · obtain ⟨old, -, hd⟩ := List.mem_flatMap.1 h
      exact gone old hd
    · obtain rfl := List.mem_singleton.1 h
      simp [Delta.old?, Delta.new?] at ho

theorem accepted_of_mem_log {es : List (Event α)} {d : Delta α} (h : d ∈ b.log es) {o : α}
    (ho : d.old? = some o ∨ d.new? = some o) : b.accept o = true := by
  induction es generalizing b with
  | nil => simp at h
  | cons e es ih =>
    rw [log_cons, List.mem_append] at h
    rcases h with h | h
    · exact b.accepted_of_mem_changes h ho
    · exact ih (b.next e) h

/-- **Only the end of a relist asks for a resync.** -/
theorem eq_initDone_of_resync {e : Event α} (h : .resync ∈ b.changes e) : e = .initDone := by
  cases e with
  | apply p | initApply p =>
    simp only [changes, replaced] at h
    split at h <;> simp at h
  | delete p => exact absurd (b.mem_vanished.1 h).2 (by simp)
  | init => simp [changes] at h
  | initDone => rfl

/-! ## Named objects -/

/-- Whatever the order of events, only objects that they are about come into a binding. -/
structure AllNamed (b : Binding α) : Prop where
  mirrored : ∀ o ∈ b.mirror.objects, IsNamed o
  buffered : ∀ o ∈ b.buffer.objects, IsNamed o

namespace AllNamed

variable {b}

theorem start (accept : α → Bool) : ({ accept } : Binding α).AllNamed where
  mirrored o h := by cases h
  buffered o h := by cases h

theorem next (h : b.AllNamed) {e : Event α} (hn : ∀ o ∈ e.object?, IsNamed o) :
    (b.next e).AllNamed := by
  cases e with
  | apply o =>
    refine ⟨fun p hp => ?_, h.buffered⟩
    rcases Mirror.mem_put hp with rfl | hp
    · exact hn p rfl
    · exact h.mirrored p hp
  | delete o => exact ⟨fun p hp => h.mirrored p (Mirror.mem_remove hp), h.buffered⟩
  | init => exact ⟨h.mirrored, fun o ho => by cases ho⟩
  | initApply o =>
    refine ⟨h.mirrored, fun p hp => ?_⟩
    rcases Mirror.mem_put hp with rfl | hp
    · exact hn p rfl
    · exact h.buffered p hp
  | initDone => exact ⟨h.buffered, fun o ho => by cases ho⟩

theorem get?_mirror (h : b.AllNamed) (id : Identifier) : b.mirror.get? id = b.mirror.find? id :=
  Mirror.get?_of_spaced (fun o ho => (h.mirrored o ho).ns) id

/-- An object that is found by an identifier goes by the key of it. -/
theorem key_of_find? (h : b.AllNamed) {o p : α} (ho : IsNamed o)
    (hp : b.mirror.find? (identifier o) = some p) : key p = key o :=
  ((h.mirrored p (Mirror.mem_of_find? hp)).identifier_eq_iff ho).1 (Mirror.identifier_of_find? hp)

end AllNamed

/-! ## A binding and its feed -/

/-- The relist that a binding takes part in is the one of the feed, and its buffer holds what was
listed. -/
def SameRelist (b : Binding α) (f : Feed) : Prop :=
  match b.relist, f.listed with
  | some r, some ids =>
    r.before = b.mirror.objects ∧ r.seen = ids ∧ ∀ id, id ∈ ids ↔ (b.buffer.find? id).isSome
  | none, none => True
  | _, _ => False

/-- **A binding that keeps up with a feed** of named objects. -/
structure Follows (b : Binding α) (f : Feed) : Prop where
  mirrored : ∀ o ∈ b.mirror.objects, IsNamed o
  buffered : ∀ o ∈ b.buffer.objects, IsNamed o
  live : ∀ id ∈ f.live, (b.mirror.find? id).isSome
  relist : b.SameRelist f

theorem follows_start (accept : α → Bool) : ({ accept } : Binding α).Follows {} where
  mirrored o h := by cases h
  buffered o h := by cases h
  live id h := by cases h
  relist := trivial

namespace Follows

variable {b} {f : Feed}

theorem relist_of_none (h : b.Follows f) (hf : f.listed = none) : b.relist = none := by
  have hr := h.relist
  unfold SameRelist at hr
  rw [hf] at hr
  cases hb : b.relist with
  | none => rfl
  | some r => rw [hb] at hr; exact hr.elim

theorem relist_of_some (h : b.Follows f) {ids : List Identifier} (hf : f.listed = some ids) :
    ∃ r, b.relist = some r ∧ r.before = b.mirror.objects ∧ r.seen = ids ∧
      ∀ id, id ∈ ids ↔ (b.buffer.find? id).isSome := by
  have hr := h.relist
  unfold SameRelist at hr
  rw [hf] at hr
  cases hb : b.relist with
  | none => rw [hb] at hr; exact hr.elim
  | some r => rw [hb] at hr; exact ⟨r, rfl, hr⟩

theorem allNamed (h : b.Follows f) : b.AllNamed := ⟨h.mirrored, h.buffered⟩

theorem get?_mirror (h : b.Follows f) (id : Identifier) : b.mirror.get? id = b.mirror.find? id :=
  h.allNamed.get?_mirror id

/-- An object that is found by an identifier goes by the key of it. -/
theorem key_of_find? (h : b.Follows f) {o p : α} (ho : IsNamed o)
    (hp : b.mirror.find? (identifier o) = some p) : key p = key o :=
  h.allNamed.key_of_find? ho hp

/-- The objects that a relist has not listed, as the feed tells it. -/
theorem mem_gone (h : b.Follows f) {ids : List Identifier} (hf : f.listed = some ids) (o : α) :
    o ∈ b.gone ↔ o ∈ b.mirror.objects ∧ identifier o ∉ ids := by
  obtain ⟨r, hb, hbefore, hseen, -⟩ := h.relist_of_some hf
  rw [gone, hb, Option.map_some, Option.getD_some, Relist.missing, List.mem_filter, hbefore, hseen,
    decide_eq_true_eq]

theorem nodup_gone (h : b.Follows f) {ids : List Identifier} (hf : f.listed = some ids) :
    (b.gone.map identifier).Nodup := by
  obtain ⟨r, hb, hbefore, -, -⟩ := h.relist_of_some hf
  rw [gone, hb, Option.map_some, Option.getD_some, Relist.missing, hbefore]
  exact b.mirror.nodup.sublist (List.filter_sublist.map _)

/-- **One event**, in the order of a watch that may give up its relists. -/
theorem step (h : b.Follows f) {e : Event α} (he : f.Orderly True e)
    (hn : ∀ o ∈ e.object?, IsNamed o) : (b.next e).Follows (f.next e) := by
  have hnamed := h.allNamed.next hn
  refine ⟨hnamed.mirrored, hnamed.buffered, fun id hid => ?_, ?_⟩
  · -- what was shown before is still mirrored, and what was listed is in the buffer
    cases e with
    | apply o =>
      show ((b.mirror.put o).find? id).isSome
      rw [Mirror.find?_put]
      split
      · rfl
      · rename_i hne
        exact h.live id ((List.mem_cons.1 hid).resolve_left hne)
    | delete o =>
      obtain ⟨hid, hne⟩ := List.mem_filter.1 hid
      show ((b.mirror.remove o).find? id).isSome
      rw [Mirror.find?_remove, if_neg (by simpa using hne)]
      exact h.live id hid
    | init => exact h.live id hid
    | initApply o => exact h.live id hid
    | initDone =>
      obtain ⟨ids, hf⟩ := Option.ne_none_iff_exists'.1 he
      obtain ⟨r, -, -, -, hids⟩ := h.relist_of_some hf
      rw [Feed.next, hf, Option.getD_some] at hid
      exact (hids id).1 hid
  · cases e with
    | apply o | delete o =>
      have hb := h.relist_of_none he
      have hf : f.listed = none := he
      simp [SameRelist, Binding.next, relisted, Feed.next, hb, hf]
    | init =>
      -- whatever a relist that was given up left in the buffer is dropped
      refine ⟨rfl, rfl, fun id => ?_⟩
      show id ∈ [] ↔ ((Mirror.empty : Mirror α).find? id).isSome
      simp
    | initApply o =>
      obtain ⟨ids, hf⟩ := Option.ne_none_iff_exists'.1 he
      obtain ⟨r, hb, hbefore, hseen, hids⟩ := h.relist_of_some hf
      simp only [SameRelist, Binding.next, relisted, Feed.next, hb, hf, Option.map_some]
      refine ⟨hbefore, by rw [hseen], fun id => ?_⟩
      show _ ↔ ((b.buffer.put o).find? id).isSome
      rw [Mirror.find?_put, List.mem_cons, hids]
      split <;> simp_all
    | initDone => trivial

end Follows

/-- **No accepted object leaves the mirror without a word**: its key is kept, or a deletion is
reported for it. -/
theorem kept_or_deleted {b : Binding α} {f : Feed} (h : b.Follows f) {e : Event α}
    (he : f.Orderly True e) (hn : ∀ o ∈ e.object?, IsNamed o) {o : α} (ho : o ∈ b.mirror.objects)
    (ha : b.accept o = true) :
    (∃ p ∈ (b.next e).mirror.objects, key p = key o) ∨
      ∃ p, .deleted p ∈ b.changes e ∧ key p = key o := by
  have hnamed := h.mirrored o ho
  cases e with
  | apply p =>
    refine .inl ?_
    by_cases hid : identifier o = identifier p
    · exact ⟨p, List.mem_cons_self, ((hnamed.identifier_eq_iff (hn p rfl)).1 hid).symm⟩
    · refine ⟨o, Mirror.mem_objects_iff.2 ?_, rfl⟩
      show (b.mirror.put p).find? _ = _
      rw [Mirror.find?_put, if_neg hid, Mirror.find?_of_mem ho]
  | delete p =>
    by_cases hid : identifier o = identifier p
    · refine .inr ⟨o, ?_, rfl⟩
      show _ ∈ b.vanished _
      rw [← hid, h.get?_mirror, Mirror.find?_of_mem ho, Option.getD_some]
      exact (b.mem_vanished).2 ⟨ha, rfl⟩
    · refine .inl ⟨o, Mirror.mem_objects_iff.2 ?_, rfl⟩
      show (b.mirror.remove p).find? _ = _
      rw [Mirror.find?_remove, if_neg hid, Mirror.find?_of_mem ho]
  | init => exact .inl ⟨o, ho, rfl⟩
  | initApply p => exact .inl ⟨o, ho, rfl⟩
  | initDone =>
    obtain ⟨ids, hf⟩ := Option.ne_none_iff_exists'.1 he
    obtain ⟨r, -, -, -, hids⟩ := h.relist_of_some hf
    by_cases hid : identifier o ∈ ids
    · -- listed again, perhaps in a newer version
      obtain ⟨p, hp⟩ := Option.isSome_iff_exists.1 ((hids _).1 hid)
      have hmem := Mirror.mem_of_find? hp
      exact .inl ⟨p, hmem, ((h.buffered p hmem).identifier_eq_iff hnamed).1
        (Mirror.identifier_of_find? hp)⟩
    · refine .inr ⟨o, List.mem_append_left _ ?_, rfl⟩
      exact List.mem_flatMap.2 ⟨o, (h.mem_gone hf o).2 ⟨ho, hid⟩, (b.mem_vanished).2 ⟨ha, rfl⟩⟩

end Binding

end IngressWatch
