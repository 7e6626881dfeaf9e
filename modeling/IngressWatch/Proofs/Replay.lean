import IngressWatch.Proofs.Feed
import IngressWatch.Table

/-!
# The changes of a watch, replayed

Someone who only hears of the changes keeps a map of the objects by their keys.

* `Delta.replay`, `Delta.Fits`: what a change does to that map, and what it says about it.
* `Tracks`: the invariant of a run. Each key holds the accepted object that was shown for it last,
  which in a relist may be newer than the mirror.
* `run_faithful`: **the changes are a faithful log of the accepted part of the mirror.**
-/

namespace IngressWatch

open Resource

variable {α : Type} [Resource α]

namespace Delta

/-- A change as it is carried out on a map of objects. -/
def replay (m : Table Key α) : Delta α → Table Key α
  | added new => m.insert (key new) new
  | updated _ new => m.insert (key new) new
  | deleted old => m.erase (key old)
  | resync => m

/-- What a change takes for granted about the map: an added object is new, and an updated or deleted
one is the very object that the map holds. -/
def Fits (m : Table Key α) : Delta α → Prop
  | added new => m.get? (key new) = none
  | updated old new => m.get? (key old) = some old ∧ key new = key old
  | deleted old => m.get? (key old) = some old
  | resync => True

/-- A list of changes carried out in order. -/
def replayAll (m : Table Key α) (ds : List (Delta α)) : Table Key α := ds.foldl replay m

/-- Each change of a list fits the map when its turn comes. -/
def AllFit (m : Table Key α) : List (Delta α) → Prop
  | [] => True
  | d :: ds => d.Fits m ∧ AllFit (d.replay m) ds

variable {m : Table Key α}

theorem replayAll_append (ds ds' : List (Delta α)) :
    replayAll m (ds ++ ds') = replayAll (replayAll m ds) ds' := List.foldl_append

theorem allFit_append {ds ds' : List (Delta α)} :
    AllFit m (ds ++ ds') ↔ AllFit m ds ∧ AllFit (replayAll m ds) ds' := by
  induction ds generalizing m with
  | nil => simp [AllFit, replayAll]
  | cons d ds ih => simp only [List.cons_append, AllFit, ih, and_assoc]; rfl

end Delta

open Delta

namespace Binding

variable {b : Binding α} {m : Table Key α}

/-- **A replaced object, replayed**: its key holds the new object if that is accepted. -/
theorem replay_replaced {old : Option α} {new : α} (hold : ∀ o ∈ old, key o = key new)
    (h : m.get? (key new) = old.filter b.accept) :
    AllFit m (b.replaced old new) ∧ ∀ k, (replayAll m (b.replaced old new)).get? k =
      if k = key new then (some new).filter b.accept else m.get? k := by
  unfold replaced
  cases ho : old.filter b.accept with
  | none =>
    rw [ho] at h
    cases hn : b.accept new with
    | true =>
      refine ⟨⟨h, trivial⟩, fun k => ?_⟩
      rw [Option.filter_some_pos hn]
      exact Table.get?_insert m _ k new
    | false =>
      refine ⟨trivial, fun k => ?_⟩
      show m.get? k = _
      rw [Option.filter_some_neg (by simp [hn])]
      split
      · rename_i hk
        rw [hk]
        exact h
      · rfl
  | some o =>
    rw [ho] at h
    have hk : key o = key new := hold o (Option.filter_eq_some_iff.1 ho).1
    rw [← hk] at h
    cases hn : b.accept new with
    | true =>
      refine ⟨⟨⟨h, hk.symm⟩, trivial⟩, fun k => ?_⟩
      rw [Option.filter_some_pos hn]
      exact Table.get?_insert m _ k new
    | false =>
      refine ⟨⟨h, trivial⟩, fun k => ?_⟩
      rw [Option.filter_some_neg (by simp [hn]), ← hk]
      exact Table.get?_erase m _ k

/-- A vanished object, replayed: nothing is left at its key. -/
theorem replay_vanished {old : α} (h : m.get? (key old) = (some old).filter b.accept) :
    AllFit m (b.vanished old) ∧ ∀ k, (replayAll m (b.vanished old)).get? k =
      if k = key old then none else m.get? k := by
  unfold vanished
  cases ho : b.accept old with
  | true =>
    rw [Option.filter_some_pos ho] at h
    exact ⟨⟨h, trivial⟩, Table.get?_erase m _⟩
  | false =>
    rw [Option.filter_some_neg (by simp [ho])] at h
    refine ⟨trivial, fun k => ?_⟩
    show m.get? k = _
    split
    · rename_i hk
      rw [hk]
      exact h
    · rfl

/-- Vanished objects with different keys, replayed: nothing is left at any of their keys. -/
theorem replay_flatMap_vanished {l : List α} (hl : (l.map key).Nodup)
    (h : ∀ o ∈ l, m.get? (key o) = (some o).filter b.accept) :
    AllFit m (l.flatMap b.vanished) ∧ ∀ k, (replayAll m (l.flatMap b.vanished)).get? k =
      if k ∈ l.map key then none else m.get? k := by
  induction l generalizing m with
  | nil => exact ⟨trivial, fun k => by simp [replayAll]⟩
  | cons o l ih =>
    obtain ⟨hno, hl⟩ := List.nodup_cons.1 hl
    obtain ⟨hf, hr⟩ := replay_vanished (h o List.mem_cons_self)
    -- the deletion of `o` leaves the other keys as they are
    have hrest : ∀ p ∈ l, (replayAll m (b.vanished o)).get? (key p) = (some p).filter b.accept := by
      intro p hp
      have hne : key p ≠ key o := fun hc => hno (hc ▸ List.mem_map_of_mem hp)
      rw [hr, if_neg hne]
      exact h p (List.mem_cons_of_mem _ hp)
    obtain ⟨hf', hr'⟩ := ih hl hrest
    rw [List.flatMap_cons, allFit_append, replayAll_append]
    refine ⟨⟨hf, hf'⟩, fun k => ?_⟩
    rw [hr', hr, List.map_cons]
    by_cases hk : k = key o
    · simp [hk]
    · simp [hk]

end Binding

/-! ## The invariant of a run -/

/-- The object that was shown last at an identifier: that of the relist in progress, if it was
listed again, or else that of the mirror. -/
def Binding.shown (b : Binding α) (id : Identifier) : Option α :=
  match b.relist with
  | some r => if id ∈ r.seen then b.buffer.find? id else b.mirror.find? id
  | none => b.mirror.find? id

/-- **A run so far**: the binding knows what the feed has shown, and the replayed map holds the
accepted objects that were shown last. -/
structure Tracks (f : Feed) (b : Binding α) (m : Table Key α) : Prop where
  follows : b.Follows f
  replayed : ∀ k, m.get? k = (b.shown k.identifier).filter b.accept

theorem Binding.shown_of_none {b : Binding α} (h : b.relist = none) (id : Identifier) :
    b.shown id = b.mirror.find? id := by
  unfold shown
  rw [h]

theorem Binding.shown_of_some {b : Binding α} {r : Relist α} (h : b.relist = some r)
    (id : Identifier) :
    b.shown id = if id ∈ r.seen then b.buffer.find? id else b.mirror.find? id := by
  unfold shown
  rw [h]

namespace Tracks

variable {f : Feed} {b : Binding α} {m : Table Key α}

theorem start (accept : α → Bool) : Tracks {} ({ accept } : Binding α) {} where
  follows := Binding.follows_start accept
  replayed _ := rfl

/-- Between relists the map holds what is mirrored. -/
theorem get?_of_none (h : Tracks f b m) (hf : f.listed = none) (k : Key) :
    m.get? k = (b.mirror.find? k.identifier).filter b.accept := by
  rw [h.replayed, b.shown_of_none (h.follows.relist_of_none hf)]

theorem apply (h : Tracks f b m) {o : α} (hf : f.listed = none) (ho : IsNamed o) :
    AllFit m (b.changes (.apply o)) ∧ ∀ k, (replayAll m (b.changes (.apply o))).get? k =
      ((b.next (.apply o)).shown k.identifier).filter b.accept := by
  have hb := h.follows.relist_of_none hf
  have hold : m.get? (key o) = (b.mirror.find? (identifier o)).filter b.accept := by
    rw [h.get?_of_none hf, ho.identifier_eq]
  obtain ⟨hfit, hr⟩ := Binding.replay_replaced (fun p hp => h.follows.key_of_find? ho hp) hold
  simp only [Binding.changes, h.follows.get?_mirror]
  refine ⟨hfit, fun k => ?_⟩
  have hb' : (b.next (.apply o)).relist = none := by simp [Binding.next, Binding.relisted, hb]
  rw [hr, Binding.shown_of_none hb', h.get?_of_none hf]
  show _ = ((b.mirror.put o).find? k.identifier).filter b.accept
  rw [Mirror.find?_key_put ho]
  split <;> rfl

theorem delete (h : Tracks f b m) {o : α} (hf : f.listed = none) (ho : IsNamed o)
    (hlive : identifier o ∈ f.live) :
    AllFit m (b.changes (.delete o)) ∧ ∀ k, (replayAll m (b.changes (.delete o))).get? k =
      ((b.next (.delete o)).shown k.identifier).filter b.accept := by
  have hb := h.follows.relist_of_none hf
  obtain ⟨old, hold⟩ := Option.isSome_iff_exists.1 (h.follows.live _ hlive)
  have hk : key old = key o := h.follows.key_of_find? ho hold
  have hm : m.get? (key old) = (some old).filter b.accept := by
    rw [h.get?_of_none hf, hk, ← ho.identifier_eq, hold]
  obtain ⟨hfit, hr⟩ := Binding.replay_vanished hm
  simp only [Binding.changes, h.follows.get?_mirror, hold, Option.getD_some]
  refine ⟨hfit, fun k => ?_⟩
  have hb' : (b.next (.delete o)).relist = none := by simp [Binding.next, Binding.relisted, hb]
  rw [hr, Binding.shown_of_none hb', h.get?_of_none hf]
  show _ = ((b.mirror.remove o).find? k.identifier).filter b.accept
  rw [Mirror.find?_key_remove ho, hk]
  split <;> rfl

theorem init (h : Tracks f b m) (hf : f.listed = none) (k : Key) :
    m.get? k = ((b.next .init).shown k.identifier).filter b.accept := by
  rw [h.get?_of_none hf, Binding.shown_of_some (r := ⟨b.mirror.objects, []⟩) rfl,
    if_neg List.not_mem_nil]
  rfl

theorem initApply (h : Tracks f b m) {o : α} {ids : List Identifier} (hf : f.listed = some ids)
    (ho : IsNamed o) (hnew : identifier o ∉ ids) :
    AllFit m (b.changes (.initApply o)) ∧ ∀ k, (replayAll m (b.changes (.initApply o))).get? k =
      ((b.next (.initApply o)).shown k.identifier).filter b.accept := by
  obtain ⟨r, hb, -, hseen, -⟩ := h.follows.relist_of_some hf
  -- the object was not listed before, so the map still holds the mirrored one
  have hold : m.get? (key o) = (b.mirror.find? (identifier o)).filter b.accept := by
    rw [h.replayed, b.shown_of_some hb, ← ho.identifier_eq, hseen, if_neg hnew]
  obtain ⟨hfit, hr⟩ := Binding.replay_replaced (fun p hp => h.follows.key_of_find? ho hp) hold
  have hb' : (b.next (.initApply o)).relist = some { r with seen := identifier o :: r.seen } := by
    simp [Binding.next, Binding.relisted, hb]
  simp only [Binding.changes, h.follows.get?_mirror]
  refine ⟨hfit, fun k => ?_⟩
  rw [hr, h.replayed, b.shown_of_some hb, Binding.shown_of_some hb']
  show _ = Option.filter b.accept (if k.identifier ∈ identifier o :: r.seen then
    (b.buffer.put o).find? k.identifier else b.mirror.find? k.identifier)
  rw [Mirror.find?_key_put ho, ho.identifier_eq]
  by_cases hk : k = key o
  · simp [hk]
  · simp [hk, Key.identifier_inj]

theorem initDone (h : Tracks f b m) {ids : List Identifier} (hf : f.listed = some ids) :
    AllFit m (b.changes .initDone) ∧ ∀ k, (replayAll m (b.changes .initDone)).get? k =
      ((b.next .initDone).shown k.identifier).filter b.accept := by
  obtain ⟨r, hb, -, hseen, hids⟩ := h.follows.relist_of_some hf
  have hgone := h.follows.mem_gone hf
  have hnamed : ∀ o ∈ b.gone, IsNamed o := fun o ho => h.follows.mirrored o ((hgone o).1 ho).1
  have hnodup : (b.gone.map key).Nodup := by
    refine List.pairwise_map.2 ((List.pairwise_map.1 (h.follows.nodup_gone hf)).imp_of_mem ?_)
    intro o p ho hp hne hk
    exact hne (((hnamed o ho).identifier_eq_iff (hnamed p hp)).2 hk)
  have hshown : ∀ o ∈ b.gone, m.get? (key o) = (some o).filter b.accept := by
    intro o ho
    have hid := (hnamed o ho).identifier_eq
    obtain ⟨hmem, hnot⟩ := (hgone o).1 ho
    rw [h.replayed, b.shown_of_some hb, ← hid, hseen, if_neg hnot, Mirror.find?_of_mem hmem]
  obtain ⟨hfit, hr⟩ := Binding.replay_flatMap_vanished hnodup hshown
  rw [Binding.changes_initDone, allFit_append, replayAll_append]
  -- after the deletions the map holds what the buffer shows: the mirror of the next event
  refine ⟨⟨hfit, trivial, trivial⟩, fun k => ?_⟩
  show (replayAll m (b.gone.flatMap b.vanished)).get? k =
    (b.buffer.find? k.identifier).filter b.accept
  rw [hr, h.replayed, b.shown_of_some hb, hseen]
  have hbuffer : k.identifier ∉ ids → b.buffer.find? k.identifier = none := fun hk =>
    Option.not_isSome_iff_eq_none.1 (mt (hids _).2 hk)
  split
  · -- a deleted key was not listed
    rename_i hk
    obtain ⟨o, ho, rfl⟩ := List.mem_map.1 hk
    have hnot := ((hgone o).1 ho).2
    rw [(hnamed o ho).identifier_eq] at hnot
    rw [hbuffer hnot, Option.filter_none]
  · rename_i hk
    split
    · rfl
    · rename_i hnot
      -- an object that was mirrored at this key would be gone
      have hmirror : b.mirror.find? k.identifier = none := by
        rw [Option.eq_none_iff_forall_ne_some]
        intro o ho
        obtain ⟨hmem, rfl⟩ := (Mirror.find?_key_iff h.follows.mirrored).1 ho
        rw [← (h.follows.mirrored o hmem).identifier_eq] at hnot
        exact hk (List.mem_map_of_mem ((hgone o).2 ⟨hmem, hnot⟩))
      rw [hmirror, hbuffer hnot]

/-- **One event** of a steady feed: its changes fit the map, and the run goes on. -/
theorem step (h : Tracks f b m) {e : Event α} (he : f.Steady e)
    (hn : ∀ o ∈ e.object?, IsNamed o) :
    AllFit m (b.changes e) ∧ Tracks (f.next e) (b.next e) (replayAll m (b.changes e)) := by
  have hfollows := h.follows.step he.orderly hn
  suffices AllFit m (b.changes e) ∧ ∀ k, (replayAll m (b.changes e)).get? k =
      ((b.next e).shown k.identifier).filter b.accept from ⟨this.1, hfollows, this.2⟩
  obtain ⟨ho, hd⟩ := he
  cases e with
  | apply o => exact h.apply ho (hn o rfl)
  | delete o => exact h.delete ho (hn o rfl) hd
  | init => exact ⟨trivial, h.init (ho.resolve_left id)⟩
  | initApply o =>
    obtain ⟨ids, hf⟩ := Option.ne_none_iff_exists'.1 ho
    exact h.initApply hf (hn o rfl) (hd ids hf)
  | initDone =>
    obtain ⟨ids, hf⟩ := Option.ne_none_iff_exists'.1 ho
    exact h.initDone hf

/-- **A run of events** of a steady feed. -/
theorem run {es : List (Event α)} (h : Tracks f b m) (he : Feed.Along Feed.Steady f es)
    (hn : ∀ e ∈ es, ∀ o ∈ e.object?, IsNamed o) :
    AllFit m (b.log es) ∧ Tracks (f.after es) (b.after es) (replayAll m (b.log es)) := by
  induction es generalizing f b m with
  | nil => exact ⟨trivial, h⟩
  | cons e es ih =>
    obtain ⟨hfit, hstep⟩ := h.step he.1 (hn e List.mem_cons_self)
    obtain ⟨hfit', hrun⟩ := ih hstep he.2 fun e' he' => hn e' (List.mem_cons_of_mem _ he')
    rw [Binding.log_cons, allFit_append, replayAll_append]
    exact ⟨⟨hfit, hfit'⟩, hrun⟩

end Tracks

/-- **The changes of a run are a faithful log** of the accepted part of its mirror. -/
structure Binding.Faithful (b : Binding α) (f : Feed) (es : List (Event α)) : Prop where
  /-- Between relists the replayed map holds exactly the accepted objects of the mirror. -/
  replayed : (f.after es).listed = none → ∀ k o, (replayAll {} (b.log es)).get? k = some o ↔
    o ∈ (b.after es).mirror.objects ∧ b.accept o = true ∧ key o = k
  /-- Added keys are new to the map, and old objects are the ones that it holds. -/
  fits : AllFit {} (b.log es)
  /-- Every object of a change is accepted. -/
  accepted : ∀ d ∈ b.log es, ∀ o, d.old? = some o ∨ d.new? = some o → b.accept o = true
  /-- The end of a relist reports each accepted object that was not listed once, and then asks for a
  resync. -/
  completed : ∀ before rest, es = before ++ .initDone :: rest → ∃ gone : List α,
    (b.after before).changes .initDone = gone.map .deleted ++ [.resync] ∧
      (gone.map identifier).Nodup ∧ ∀ o, o ∈ gone ↔ o ∈ (b.after before).mirror.objects ∧
        b.accept o = true ∧ identifier o ∉ (f.after before).listed.getD []
  /-- Nothing else asks for one. -/
  resync : ∀ before e rest, es = before ++ e :: rest → .resync ∈ (b.after before).changes e →
    e = .initDone

namespace Tracks

variable {f : Feed} {b : Binding α} {m : Table Key α}

/-- Between relists the map holds the accepted objects of the mirror. -/
theorem get?_eq_some_iff (h : Tracks f b m) (hf : f.listed = none) {k : Key} {o : α} :
    m.get? k = some o ↔ o ∈ b.mirror.objects ∧ b.accept o = true ∧ key o = k := by
  rw [h.get?_of_none hf, Option.filter_eq_some_iff, Mirror.find?_key_iff h.follows.mirrored,
    and_right_comm, and_assoc]

/-- What the end of a relist reports. -/
theorem changes_initDone (h : Tracks f b m) (hf : f.listed ≠ none) :
    ∃ gone : List α, b.changes .initDone = gone.map .deleted ++ [.resync] ∧
      (gone.map identifier).Nodup ∧ ∀ o, o ∈ gone ↔ o ∈ b.mirror.objects ∧ b.accept o = true ∧
        identifier o ∉ f.listed.getD [] := by
  obtain ⟨ids, hf⟩ := Option.ne_none_iff_exists'.1 hf
  refine ⟨b.gone.filter b.accept, ?_, ?_, fun o => ?_⟩
  · rw [Binding.changes_initDone, Binding.flatMap_vanished]
  · exact (h.follows.nodup_gone hf).sublist (List.filter_sublist.map _)
  · rw [List.mem_filter, h.follows.mem_gone hf, hf, Option.getD_some, and_right_comm, and_assoc]

end Tracks

/-- **Whoever replays the changes of a watch has the accepted part of its mirror.** This holds for
any objects that are accepted, and for any run of a watch whose lists never fail, if all objects are
named. -/
theorem run_faithful (accept : α → Bool) {es : List (Event α)}
    (hes : Feed.Along Feed.Steady {} es) (hnamed : ∀ e ∈ es, ∀ o ∈ e.object?, IsNamed o) :
    ({ accept } : Binding α).Faithful {} es := by
  obtain ⟨hfit, hrun⟩ := (Tracks.start accept).run hes hnamed
  have haccept := ({ accept } : Binding α).accept_after
  refine ⟨fun hf k o => ?_, hfit, fun d hd o ho => Binding.accepted_of_mem_log _ hd ho, ?_, ?_⟩
  · rw [hrun.get?_eq_some_iff hf, haccept]
  · -- the events before the end of the relist are a run as well
    intro before rest hsplit
    rw [hsplit] at hes hnamed
    obtain ⟨hbefore, hdone⟩ := Feed.along_append.1 hes
    have hb := ((Tracks.start accept).run hbefore fun e he =>
      hnamed e (List.mem_append_left _ he)).2
    have := hb.changes_initDone hdone.1.1
    rwa [haccept] at this
  · exact fun before e rest _ h => Binding.eq_initDone_of_resync _ h

/-- An ingress of a class. -/
def classedIngress (name className : String) : Ingress where
  metadata := { ns := some "web", name := some name }
  spec := some { className := some className }

/-- An ingress changes its class, another is deleted, and one vanishes in a relist. -/
def classedEvents : List (Event Ingress) :=
  [.init, .initApply (classedIngress "a" "haproxy"), .initApply (classedIngress "b" "nginx"),
    .initDone, .apply (classedIngress "b" "haproxy"), .delete (classedIngress "a" "haproxy"),
    .apply (classedIngress "c" "haproxy"), .init, .initApply (classedIngress "c" "nginx"),
    .initDone]

theorem run_faithful_classed :
    Feed.Along Feed.Steady {} classedEvents ∧
      (∀ e ∈ classedEvents, ∀ o ∈ e.object?, IsNamed o) ∧
      ({ accept := fun i => (i.spec.bind (·.className)) = some "haproxy" } :
        Binding Ingress).Faithful {} classedEvents := by
  have hes : Feed.Along Feed.Steady {} classedEvents := by decide
  have hnamed : ∀ e ∈ classedEvents, ∀ o ∈ e.object?, IsNamed o := by decide
  exact ⟨hes, hnamed, run_faithful _ hes hnamed⟩

end IngressWatch
