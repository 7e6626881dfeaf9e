import IngressWatch.Proofs.Feed
import IngressWatch.Proofs.Snapshots
import IngressWatch.Watch.Watches

/-!
# No change of a mirror goes unannounced

Watches may report events in any order: relists that overlap, are given up or are repeated, with
single events inside them. A consumer that looks at the mirrors at its syncs is told where to look.

* `Binding.acceptedAt`: the accepted object that a mirror holds at a key.
* `Binding.acceptedAt_next`: **an event that neither asks for a resync nor reports a key leaves the
  accepted object at that key as it is.**
* `Lane`: a kind whose changes are filed in lists, from its watch to its place in a snapshot.
* `Intake.run_announces`: between two syncs in a row, the accepted object at a key stays the same
  unless the second snapshot asks for a resync or reports the key.
-/

namespace IngressWatch

open Resource

section

variable {α : Type} [Resource α]

/-- The object that a change is filed under: the new one, or else the old one. -/
def Delta.filed? (d : Delta α) : Option α := d.new?.or d.old?

/-- An object of this key was added, updated or deleted. -/
def ChangeSet.Reports (s : ChangeSet α) (k : Key) : Prop :=
  ∃ o ∈ s.added ++ s.updated ++ s.deleted, key o = k

namespace Binding

variable {b : Binding α}

/-- The accepted object that the mirror holds at a key. -/
def acceptedAt (b : Binding α) (k : Key) : Option α :=
  (b.mirror.find? k.identifier).filter b.accept

/-- When one object takes the place of another of its key, the accepted object at that key stays the
same only if neither is accepted. -/
theorem filter_eq_of_quiet_replaced {old : Option α} {new : α} {k : Key} (hnew : key new = k)
    (hold : ∀ p ∈ old, key p = k) (hk : ∀ d ∈ b.replaced old new, ∀ o ∈ d.filed?, key o ≠ k) :
    (some new).filter b.accept = old.filter b.accept := by
  -- in three of the four cases there is a change, and it is filed under the key
  unfold replaced at hk
  split at hk
  · exact absurd hnew (hk _ List.mem_cons_self _ rfl)
  · exact absurd hnew (hk _ List.mem_cons_self _ rfl)
  · rename_i p hp _
    have hmem : p ∈ old := (Option.filter_eq_some_iff.1 hp).1
    exact absurd (hold p hmem) (hk _ List.mem_cons_self _ rfl)
  · rename_i hp hrefused
    rw [hp]
    simp [hrefused]

/-- An object that vanishes without a report was not accepted. -/
theorem filter_eq_none_of_quiet_vanished {old : α} {k : Key} (hold : key old = k)
    (hk : ∀ d ∈ b.vanished old, ∀ o ∈ d.filed?, key o ≠ k) :
    (some old).filter b.accept = none := by
  have hrefused : b.accept old = false := by
    by_contra hc
    have haccept : b.accept old = true := by simpa using hc
    have hd : Delta.deleted old ∈ b.vanished old := b.mem_vanished.2 ⟨haccept, rfl⟩
    exact hk _ hd old rfl hold
  simp [hrefused]

/-- **An event that neither asks for a resync nor reports a key** leaves the accepted object at that
key as it is. -/
theorem acceptedAt_next (hb : b.AllNamed) {e : Event α} (hn : ∀ o ∈ e.object?, IsNamed o) {k : Key}
    (hresync : .resync ∉ b.changes e) (hk : ∀ d ∈ b.changes e, ∀ o ∈ d.filed?, key o ≠ k) :
    (b.next e).acceptedAt k = b.acceptedAt k := by
  cases e with
  | apply o =>
    have ho : IsNamed o := hn o rfl
    show ((b.mirror.put o).find? k.identifier).filter b.accept = _
    rw [Mirror.find?_key_put ho]
    split
    · rename_i hkey
      subst hkey
      rw [acceptedAt, ← ho.identifier_eq, ← hb.get?_mirror]
      refine filter_eq_of_quiet_replaced rfl (fun p hp => ?_) hk
      rw [hb.get?_mirror] at hp
      exact hb.key_of_find? ho hp
    · rfl
  | delete o =>
    have ho : IsNamed o := hn o rfl
    show ((b.mirror.remove o).find? k.identifier).filter b.accept = _
    rw [Mirror.find?_key_remove ho]
    split
    · rename_i hkey
      subst hkey
      rw [acceptedAt, ← ho.identifier_eq]
      cases hold : b.mirror.find? (identifier o) with
      | none => rfl
      | some p =>
        simp only [changes, hb.get?_mirror, hold, Option.getD_some] at hk
        exact (filter_eq_none_of_quiet_vanished (hb.key_of_find? ho hold) hk).symm
    · rfl
  | init => rfl
  | initApply o => rfl
  | initDone =>
    -- the mirror is swapped wholesale, and a resync is asked for
    exact absurd (List.mem_append_right _ List.mem_cons_self) hresync

end Binding

end

/-! ## From a watch to its place in a snapshot -/

/-- Every object that an event is about has a namespace and a name. -/
def WatchEvent.AllNamed : WatchEvent → Prop
  | .ingress e => ∀ o ∈ e.object?, IsNamed o
  | .service e => ∀ o ∈ e.object?, IsNamed o
  | .endpoints e => ∀ o ∈ e.object?, IsNamed o
  | .secret e => ∀ o ∈ e.object?, IsNamed o
  | .configMap e => ∀ o ∈ e.object?, IsNamed o
  | .pod e => ∀ o ∈ e.object?, IsNamed o

instance : DecidablePred WatchEvent.AllNamed
  | .ingress e => inferInstanceAs (Decidable (∀ o ∈ e.object?, IsNamed o))
  | .service e => inferInstanceAs (Decidable (∀ o ∈ e.object?, IsNamed o))
  | .endpoints e => inferInstanceAs (Decidable (∀ o ∈ e.object?, IsNamed o))
  | .secret e => inferInstanceAs (Decidable (∀ o ∈ e.object?, IsNamed o))
  | .configMap e => inferInstanceAs (Decidable (∀ o ∈ e.object?, IsNamed o))
  | .pod e => inferInstanceAs (Decidable (∀ o ∈ e.object?, IsNamed o))

/-- A kind whose changes are filed in lists. -/
structure Lane (α : Type) [Watchable α] where
  binding : Watches → Binding α
  event? : WatchEvent → Option (Event α)
  pick : Watched → Option α
  filed : Contents → ChangeSet α
  named : ∀ {e e'}, event? e = some e' → e.AllNamed → ∀ o ∈ e'.object?, IsNamed o := by
    intro e e' h hn
    cases e <;> cases h
    exact hn
  /-- The watch of the kind reports the changes of its binding. -/
  step_of_some : ∀ {e e'} w, event? e = some e' →
    (w.step e).1 = ((binding w).changes e').map Delta.change ∧
      binding (w.step e).2 = (binding w).next e' := by
    intro e e' w h
    cases e <;> cases h
    exact ⟨rfl, rfl⟩
  /-- The watches of other kinds do not touch it. -/
  step_of_none : ∀ {e} w, event? e = none → binding (w.step e).2 = binding w := by
    intro e w h
    cases e <;> first | rfl | cases h
  pick_watched : ∀ o, pick (Watchable.watched o) = some o := by intro o; rfl
  filed_ofChanges : ∀ cs, filed (Contents.ofChanges cs) = ChangeSet.ofChanges pick cs := by
    intro cs
    rfl

namespace Lane

def ingresses : Lane Ingress where
  binding := Watches.ingresses
  event? e := match e with
    | .ingress e => some e
    | _ => none
  pick := Watched.ingress?
  filed := Contents.ingresses

def services : Lane Service where
  binding := Watches.services
  event? e := match e with
    | .service e => some e
    | _ => none
  pick := Watched.service?
  filed := Contents.services

def secrets : Lane Secret where
  binding := Watches.secrets
  event? e := match e with
    | .secret e => some e
    | _ => none
  pick := Watched.secret?
  filed := Contents.secrets

variable {α : Type} [Watchable α] (lane : Lane α) {w : Watches} {e : WatchEvent}
  {es : List WatchEvent} {cs : List Change} {k : Key}

theorem allNamed_step (h : (lane.binding w).AllNamed) (hn : e.AllNamed) :
    (lane.binding (w.step e).2).AllNamed := by
  cases he : lane.event? e with
  | none =>
    rw [lane.step_of_none w he]
    exact h
  | some e' =>
    rw [(lane.step_of_some w he).2]
    exact h.next (lane.named he hn)

/-- A change is filed under its object. -/
theorem reports_of_mem {d : Delta α} (hd : d.change ∈ cs) {o : α} (ho : o ∈ d.filed?) :
    (lane.filed (Contents.ofChanges cs)).Reports (key o) := by
  rw [lane.filed_ofChanges]
  have hpick := lane.pick_watched o
  refine ⟨o, ?_, rfl⟩
  cases d with
  | added new =>
    obtain rfl : new = o := Option.some.inj ho
    refine List.mem_append_left _ (List.mem_append_left _ (List.mem_filterMap.2 ⟨_, hd, ?_⟩))
    simpa [Delta.change, Delta.old?, Delta.new?] using hpick
  | updated old new =>
    obtain rfl : new = o := Option.some.inj ho
    refine List.mem_append_left _ (List.mem_append_right _ (List.mem_filterMap.2 ⟨_, hd, ?_⟩))
    simpa [Delta.change, Delta.old?, Delta.new?] using hpick
  | deleted old =>
    obtain rfl : old = o := Option.some.inj ho
    refine List.mem_append_right _ (List.mem_filterMap.2 ⟨_, hd, ?_⟩)
    simpa [Delta.change, Delta.old?, Delta.new?] using hpick
  | resync => cases ho

theorem resync_of_mem (hd : Delta.change (α := α) .resync ∈ cs) :
    (Contents.ofChanges cs).resync = true :=
  List.any_eq_true.2 ⟨_, hd, rfl⟩

/-- **One event** of any kind, whose changes are among some that neither ask for a resync nor report
the key. -/
theorem acceptedAt_step (h : (lane.binding w).AllNamed) (hn : e.AllNamed)
    (hsub : ∀ c ∈ (w.step e).1, c ∈ cs) (hresync : (Contents.ofChanges cs).resync ≠ true)
    (hk : ¬ (lane.filed (Contents.ofChanges cs)).Reports k) :
    (lane.binding (w.step e).2).acceptedAt k = (lane.binding w).acceptedAt k := by
  cases he : lane.event? e with
  | none => rw [lane.step_of_none w he]
  | some e' =>
    obtain ⟨hchanges, hnext⟩ := lane.step_of_some w he
    have hmem : ∀ d ∈ (lane.binding w).changes e', d.change ∈ cs := fun d hd =>
      hsub _ (hchanges ▸ List.mem_map_of_mem hd)
    rw [hnext]
    refine Binding.acceptedAt_next h (lane.named he hn) (fun hd => ?_) (fun d hd o ho hkey => ?_)
    · exact hresync (resync_of_mem (hmem _ hd))
    · exact hk (hkey ▸ lane.reports_of_mem (hmem d hd) ho)

end Lane

/-! ## Watches that feed an aggregator -/

namespace Watches

/-- The watches after some events. -/
def after (w : Watches) (es : List WatchEvent) : Watches := es.foldl (fun w e => (w.step e).2) w

/-- The changes that some events mean, in order. -/
def log (w : Watches) : List WatchEvent → List Change
  | [] => []
  | e :: es => (w.step e).1 ++ log (w.step e).2 es

end Watches

/-- **Several events in a row**, of any kinds. -/
theorem Lane.acceptedAt_after {α : Type} [Watchable α] (lane : Lane α) {w : Watches}
    {es : List WatchEvent} {cs : List Change} {k : Key} (h : (lane.binding w).AllNamed)
    (hn : ∀ e ∈ es, e.AllNamed) (hsub : ∀ c ∈ w.log es, c ∈ cs)
    (hresync : (Contents.ofChanges cs).resync ≠ true)
    (hk : ¬ (lane.filed (Contents.ofChanges cs)).Reports k) :
    (lane.binding (w.after es)).acceptedAt k = (lane.binding w).acceptedAt k := by
  induction es generalizing w with
  | nil => rfl
  | cons e es ih =>
    have hstep : (lane.binding (w.step e).2).acceptedAt k = (lane.binding w).acceptedAt k :=
      lane.acceptedAt_step h (hn e List.mem_cons_self)
        (fun c hc => hsub c (List.mem_append_left _ hc)) hresync hk
    rw [← hstep]
    exact ih (lane.allNamed_step h (hn e List.mem_cons_self))
      (fun e' he' => hn e' (List.mem_cons_of_mem _ he'))
      (fun c hc => hsub c (List.mem_append_right _ hc))

/-- The watches of all kinds and the aggregator that they feed. -/
structure Intake where
  watches : Watches
  aggregator : Aggregator

namespace Intake

inductive Step where
  | event (e : WatchEvent)
  | sync

/-- One step. The changes of an event are applied as soon as its mirror shows it. -/
def step (i : Intake) : Step → Intake
  | .event e => ⟨(i.watches.step e).2, i.aggregator.applyAll (i.watches.step e).1⟩
  | .sync => { i with aggregator := i.aggregator.sync.2 }

def run (i : Intake) (steps : List Step) : Intake := steps.foldl step i

/-- Every object that a step is about has a namespace and a name. -/
def Step.AllNamed : Step → Prop
  | .event e => e.AllNamed
  | .sync => True

instance : DecidablePred Step.AllNamed
  | .event e => inferInstanceAs (Decidable e.AllNamed)
  | .sync => instDecidableTrue

variable {i : Intake} {globalMap tcpMap : Option Key} {since : List Change}

theorem holds_applyAll {a : Aggregator} (h : a.window.Holds globalMap tcpMap since)
    (cs : List Change) : (a.applyAll cs).window.Holds globalMap tcpMap (since ++ cs) := by
  induction cs generalizing a since with
  | nil =>
    rw [List.append_nil]
    exact h
  | cons c cs ih =>
    have := ih (a := a.apply c) (h.record c)
    rwa [List.append_assoc] at this

/-- Events leave their changes in the window. -/
theorem run_events (h : i.aggregator.window.Holds globalMap tcpMap since) (es : List WatchEvent) :
    (i.run (es.map .event)).watches = i.watches.after es ∧
      (i.run (es.map .event)).aggregator.window.Holds globalMap tcpMap
        (since ++ i.watches.log es) := by
  induction es generalizing i since with
  | nil =>
    rw [Watches.log, List.append_nil]
    exact ⟨rfl, h⟩
  | cons e es ih =>
    have hrest := ih (i := i.step (.event e)) (holds_applyAll h (i.watches.step e).1)
    rwa [List.append_assoc] at hrest

/-- A window that holds the changes since the last sync does so after any run. -/
theorem exists_holds_run (h : i.aggregator.window.Holds globalMap tcpMap since)
    (steps : List Step) :
    ∃ since', (i.run steps).aggregator.window.Holds globalMap tcpMap since' := by
  induction steps generalizing i since with
  | nil => exact ⟨since, h⟩
  | cons s steps ih =>
    cases s with
    | event e => exact ih (i := i.step (.event e)) (holds_applyAll h _)
    | sync => exact ih (i := i.step .sync) h.next

end Intake

namespace Lane

variable {α : Type} [Watchable α] (lane : Lane α) {i : Intake}

theorem allNamed_run (h : (lane.binding i.watches).AllNamed) {steps : List Intake.Step}
    (hn : ∀ s ∈ steps, s.AllNamed) : (lane.binding (i.run steps).watches).AllNamed := by
  induction steps generalizing i with
  | nil => exact h
  | cons s steps ih =>
    have hrest : ∀ s ∈ steps, s.AllNamed := fun s hs => hn s (List.mem_cons_of_mem _ hs)
    cases s with
    | event e => exact ih (lane.allNamed_step h (hn _ List.mem_cons_self)) hrest
    | sync => exact ih (i := i.step .sync) h hrest

/-- From a sync to the next one, a kind's accepted object at a key stays the same unless the
snapshot says otherwise. -/
theorem announces (h : (lane.binding i.watches).AllNamed) {globalMap tcpMap : Option Key}
    (hwindow : i.aggregator.window.Holds globalMap tcpMap []) {es : List WatchEvent}
    (hn : ∀ e ∈ es, e.AllNamed) {k : Key}
    (hne : (lane.binding i.watches).acceptedAt k ≠
      (lane.binding (i.run (es.map .event)).watches).acceptedAt k) :
    (i.run (es.map .event)).aggregator.sync.1.resync = true ∨
      (lane.filed (i.run (es.map .event)).aggregator.sync.1.contents).Reports k := by
  obtain ⟨hwatches, hholds⟩ := Intake.run_events hwindow es
  rw [List.nil_append] at hholds
  have hcontents : (i.run (es.map .event)).aggregator.sync.1.contents =
      Contents.ofChanges (i.watches.log es) := hholds.contents
  have hresync : (i.run (es.map .event)).aggregator.sync.1.resync =
      (Contents.ofChanges (i.watches.log es)).resync := congrArg Contents.resync hcontents
  rw [hresync, hcontents]
  by_contra hquiet
  obtain ⟨hr, hk⟩ := not_or.1 hquiet
  rw [hwatches, lane.acceptedAt_after h hn (fun _ hc => hc) hr hk] at hne
  exact hne rfl

end Lane

/-- The watches of a controller, before they have seen anything, and the aggregator that they
feed. -/
def Intake.ofSettings (s : Settings) (signals : Signals) : Intake :=
  ⟨Watches.ofSettings s, Aggregator.ofSettings s signals⟩

/-- **No change of a mirror goes unannounced.** The watches of a controller report events in any
order whatever, about named objects, and syncs come anywhere between them. From any sync to the next
one, the accepted ingress, service or secret at a key stays the same, unless the snapshot of the
second sync asks for a full resync or holds an object of that key among those added, updated or
deleted. -/
theorem Intake.run_announces (settings : Settings) (signals : Signals) (before : List Step)
    (between : List WatchEvent)
    (hnamed : ∀ s ∈ before ++ .sync :: between.map .event, s.AllNamed) (k : Key) :
    let first := (Intake.ofSettings settings signals).run (before ++ [.sync])
    let second := first.run (between.map .event)
    let snapshot := second.aggregator.sync.1
    (first.watches.ingresses.acceptedAt k ≠ second.watches.ingresses.acceptedAt k →
        snapshot.resync = true ∨ snapshot.ingresses.Reports k) ∧
      (first.watches.services.acceptedAt k ≠ second.watches.services.acceptedAt k →
        snapshot.resync = true ∨ snapshot.services.Reports k) ∧
      (first.watches.secrets.acceptedAt k ≠ second.watches.secrets.acceptedAt k →
        snapshot.resync = true ∨ snapshot.secrets.Reports k) := by
  intro first second snapshot
  have hbefore : ∀ s ∈ before ++ [.sync], s.AllNamed := by
    intro s hs
    rcases List.mem_append.1 hs with h | h
    · exact hnamed s (List.mem_append_left _ h)
    · exact hnamed s (List.mem_append_right _ (List.mem_cons.2 (.inl (List.mem_singleton.1 h))))
  have hbetween : ∀ e ∈ between, e.AllNamed := fun e he =>
    hnamed (.event e) (List.mem_append_right _ (List.mem_cons_of_mem _ (List.mem_map_of_mem he)))
  -- the first sync leaves an empty window
  have hwindow : first.aggregator.window.Holds settings.globalMap settings.tcpMap [] := by
    obtain ⟨since, hholds⟩ := exists_holds_run (i := Intake.ofSettings settings signals)
      (Window.holds_ofKeys settings.globalMap settings.tcpMap) before
    have hrun : first = ((Intake.ofSettings settings signals).run before).step .sync := by
      show List.foldl _ _ _ = _
      rw [List.foldl_append]
      rfl
    rw [hrun]
    exact hholds.next
  refine ⟨fun hne => ?_, fun hne => ?_, fun hne => ?_⟩
  · exact Lane.ingresses.announces (Lane.ingresses.allNamed_run (.start _) hbefore) hwindow
      hbetween hne
  · exact Lane.services.announces (Lane.services.allNamed_run (.start _) hbefore) hwindow
      hbetween hne
  · exact Lane.secrets.announces (Lane.secrets.allNamed_run (.start _) hbefore) hwindow
      hbetween hne

/-- The only ingress of a shop, of some class. -/
def shopIngress (className : String) : Ingress where
  metadata := { ns := some "web", name := some "shop" }
  spec := some { className := some className }

/-- A relist is given up and started anew, and the shop changes its class before the end. -/
def shopEvents : List WatchEvent :=
  [.ingress .init, .ingress (.initApply (shopIngress "haproxy")), .ingress .init,
    .ingress (.apply (shopIngress "nginx"))]

/-- The shop leaves the controller's class between two syncs, and no resync is asked for: the second
snapshot reports it. -/
theorem Intake.run_announces_shop :
    let steps : List Step := [.event (.ingress (.apply (shopIngress "haproxy")))]
    let shop : Key := ⟨"web", "shop"⟩
    let first := (Intake.ofSettings (.standard "web") (.permit false)).run (steps ++ [.sync])
    let second := first.run (shopEvents.map .event)
    (∀ s ∈ steps ++ .sync :: shopEvents.map .event, s.AllNamed) ∧
      (first.watches.ingresses.acceptedAt shop).isSome ∧
      second.watches.ingresses.acceptedAt shop = none ∧
      second.aggregator.sync.1.resync = false ∧
      second.aggregator.sync.1.ingresses.Reports shop := by
  intro steps shop first second
  have hnamed : ∀ s ∈ steps ++ .sync :: shopEvents.map .event, s.AllNamed := by decide
  have hfirst : (first.watches.ingresses.acceptedAt shop).isSome := by decide
  have hsecond : second.watches.ingresses.acceptedAt shop = none := by rfl
  have hresync : second.aggregator.sync.1.resync = false := by decide
  have hne :
      first.watches.ingresses.acceptedAt shop ≠ second.watches.ingresses.acceptedAt shop := by
    intro heq
    rw [heq, hsecond] at hfirst
    cases hfirst
  refine ⟨hnamed, hfirst, hsecond, hresync, ?_⟩
  rcases (Intake.run_announces _ _ steps shopEvents hnamed shop).1 hne with hasked | hreported
  · exact absurd (hresync.symm.trans hasked) Bool.false_ne_true
  · exact hreported

end IngressWatch
