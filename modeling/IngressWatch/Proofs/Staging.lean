import IngressWatch.Proofs.Announcements

/-!
# Config maps are staged and promoted

Two config maps steer the controller, each by a key of its own. What the watch shows of them is put
aside in a slot and comes into effect at the next sync.

* `latest`: the content that some events show last for a key.
* `Watches.contents_step`: **the filter of the watch lets through exactly what a slot takes.** What
  the changes of an event bring for a distinguished key is what the event shows for it.
* `Slot.view_applyAll`: what a list of changes does to a slot.
* `Intake.run_staged`: after every sync a slot holds what was shown last for its key, and between
  syncs what was shown last since waits beside it.
-/

namespace IngressWatch

open Resource

/-! ## What is shown for a key -/

/-- The content of a config map; empty when it has no data. -/
def ConfigMap.content (m : ConfigMap) : ConfigData := m.data.getD Dict.empty

/-- The content of a config map, if it is the one that the key names. -/
def ConfigMap.contentFor (target : Option Key) (m : ConfigMap) : Option ConfigData :=
  if target = some (key m) then some m.content else none

/-- The config map that an event shows, in a relist or on its own. -/
def WatchEvent.shown? : WatchEvent → Option ConfigMap
  | .configMap (.apply m) | .configMap (.initApply m) => some m
  | _ => none

/-- The content that an event shows for a key. -/
def WatchEvent.content? (target : Option Key) (e : WatchEvent) : Option ConfigData :=
  e.shown?.bind (ConfigMap.contentFor target)

/-- **The content that some events show last for a key**, if they show it at all. -/
def latest (target : Option Key) (es : List WatchEvent) : Option ConfigData :=
  (es.filterMap (WatchEvent.content? target)).getLast?

/-- The config map that a change brings. -/
def Change.brought? (c : Change) : Option ConfigMap :=
  match c.new with
  | some (.configMap m) => some m
  | _ => none

/-- The content that a change brings for a key. -/
def Change.content? (target : Option Key) (c : Change) : Option ConfigData :=
  c.brought?.bind (ConfigMap.contentFor target)

theorem ConfigMap.contentFor_eq {target : Option Key} {m : ConfigMap} (h : target = some (key m)) :
    m.contentFor target = some m.content := if_pos h

theorem ConfigMap.contentFor_ne {target : Option Key} {m : ConfigMap} (h : target ≠ some (key m)) :
    m.contentFor target = none := if_neg h

theorem latest_append (target : Option Key) (es es' : List WatchEvent) :
    latest target (es ++ es') = (latest target es').or (latest target es) := by
  rw [latest, List.filterMap_append, List.getLast?_append]
  rfl

/-- Nothing is shown for a key that is not configured. -/
theorem latest_none (es : List WatchEvent) : latest none es = none := by
  have hnone : ∀ e ∈ es, WatchEvent.content? none e = none := by
    intro e _
    cases h : e.shown? with
    | none => rw [WatchEvent.content?, h, Option.bind_none]
    | some m => rw [WatchEvent.content?, h, Option.bind_some, ConfigMap.contentFor_ne (by simp)]
  rw [latest, List.filterMap_eq_nil_iff.2 hnone, List.getLast?_nil]

/-! ## From an event to its changes -/

section

variable {settings : Settings} {w : Watches} {target : Option Key}

/-- The contents that the changes of a config map's watch bring for a key, where the maps of that
key are accepted. -/
theorem Binding.contents_replaced {b : Binding ConfigMap} {m : ConfigMap}
    (haccept : target = some (key m) → b.accept m = true) (old : Option ConfigMap) :
    ((b.replaced old m).map Delta.change).filterMap (Change.content? target) =
      (m.contentFor target).toList := by
  cases hm : b.accept m with
  | true =>
    obtain ⟨d, hd, hnew⟩ := b.replaced_of_accept hm old
    have hcontent : d.change.content? target = m.contentFor target := by
      rw [Change.content?, Change.brought?, Delta.change, hnew]
      rfl
    rw [hd]
    cases h : m.contentFor target <;> simp [hcontent, h]
  | false =>
    -- a map that is refused is not the one of the key
    have hne : target ≠ some (key m) := fun ht => by
      rw [haccept ht] at hm
      cases hm
    rw [b.replaced_of_refuse hm, ConfigMap.contentFor_ne hne]
    cases old.filter b.accept <;> rfl

theorem Binding.contents_vanished (target : Option Key) (b : Binding ConfigMap)
    (l : List ConfigMap) :
    ((l.flatMap b.vanished).map Delta.change).filterMap (Change.content? target) = [] := by
  rw [b.flatMap_vanished, List.filterMap_eq_nil_iff]
  intro c hc
  obtain ⟨d, hd, rfl⟩ := List.mem_map.1 hc
  obtain ⟨m, -, rfl⟩ := List.mem_map.1 hd
  rfl

/-- The changes of other kinds bring no config map. -/
theorem contents_of_kind {α : Type} [Watchable α] {ds : List (Delta α)}
    (hkind : ∀ (o m), Watchable.watched (α := α) o ≠ .configMap m) :
    (ds.map Delta.change).filterMap (Change.content? target) = [] := by
  rw [List.filterMap_eq_nil_iff]
  intro c hc
  obtain ⟨d, -, rfl⟩ := List.mem_map.1 hc
  have hbrought : d.change.brought? = none := by
    unfold Change.brought?
    split
    · rename_i m hm
      obtain ⟨o, -, ho⟩ := Option.map_eq_some_iff.1 hm
      exact absurd ho (hkind o m)
    · rfl
  rw [Change.content?, hbrought, Option.bind_none]

/-- **The filter of the watch lets through exactly what a slot takes.** -/
theorem Watches.contents_step (haccept : ∀ m, target = some (key m) → w.configMaps.accept m = true)
    (e : WatchEvent) :
    (w.step e).1.filterMap (Change.content? target) = (e.content? target).toList := by
  cases e with
  | configMap e =>
    cases e with
    | apply m => exact Binding.contents_replaced (haccept m) _
    | initApply m => exact Binding.contents_replaced (haccept m) _
    | delete m =>
      have h := w.configMaps.contents_vanished target
        [(w.configMaps.mirror.get? (identifier m)).getD m]
      rwa [List.flatMap_singleton] at h
    | init => rfl
    | initDone =>
      show ((w.configMaps.changes .initDone).map Delta.change).filterMap _ = _
      rw [Binding.changes_initDone, List.map_append, List.filterMap_append,
        Binding.contents_vanished]
      rfl
  | ingress e => exact contents_of_kind fun _ _ h => by cases h
  | service e => exact contents_of_kind fun _ _ h => by cases h
  | endpoints e => exact contents_of_kind fun _ _ h => by cases h
  | secret e => exact contents_of_kind fun _ _ h => by cases h
  | pod e => exact contents_of_kind fun _ _ h => by cases h

end

/-! ## From the changes to a slot -/

/-- A view with new content put aside, if there is some. -/
def ConfigView.await (v : ConfigView) (new : Option ConfigData) : ConfigView :=
  { v with pending := new.or v.pending }

namespace ConfigView

@[simp] theorem await_none (v : ConfigView) : v.await none = v := rfl

theorem await_await (v : ConfigView) (new newer : Option ConfigData) :
    (v.await new).await newer = v.await (newer.or new) := by
  simp only [await, Option.or_assoc]

theorem eq_empty_of_effective {v : ConfigView} (h : v.effective = none) : v = {} := by
  obtain ⟨hpending, hcurrent⟩ := Option.or_eq_none_iff.1 h
  obtain ⟨current, pending⟩ := v
  cases hpending
  cases hcurrent
  rfl

theorem effective_await (v : ConfigView) (new : Option ConfigData) :
    (v.await new).effective = new.or v.effective := Option.or_assoc

end ConfigView

/-- The two config maps that steer the controller. -/
inductive Slot where
  | global
  | tcp

namespace Slot

/-- The key of a slot's config map, if one is configured. -/
def key? (settings : Settings) : Slot → Option Key
  | global => settings.globalMap
  | tcp => settings.tcpMap

def inWindow (w : Window) : Slot → ConfigSlot
  | global => w.globalConfig
  | tcp => w.tcpConfig

def inSnapshot (s : Snapshot) : Slot → ConfigView
  | global => s.globalConfig
  | tcp => s.tcpConfig

/-- Staging a config map puts its content aside in the slot. -/
def Takes (slot : Slot) (w : Window) (m : ConfigMap) : Prop :=
  (slot.inWindow w).key = some (key m) ∧
    (slot.inWindow (w.stage m)).view.pending = some m.content

variable {slot : Slot} {w : Window}

theorem key_record (slot : Slot) (w : Window) (c : Change) :
    (slot.inWindow (w.record c)).key = (slot.inWindow w).key := by
  cases slot with
  | global => exact (w.keys_record c).1
  | tcp => exact (w.keys_record c).2

/-- A config map goes to the slot of its key, where the slots have different keys. -/
theorem view_stage (hapart : ∀ k, w.globalConfig.key = some k → w.tcpConfig.key ≠ some k)
    (m : ConfigMap) : (slot.inWindow (w.stage m)).view =
      (slot.inWindow w).view.await (m.contentFor (slot.inWindow w).key) := by
  simp only [Window.stage]
  cases slot with
  | global =>
    show _ = w.globalConfig.view.await (m.contentFor w.globalConfig.key)
    split
    · rename_i hglobal
      rw [ConfigMap.contentFor_eq hglobal]
      rfl
    · rename_i hglobal
      rw [ConfigMap.contentFor_ne hglobal]
      split <;> rfl
  | tcp =>
    show _ = w.tcpConfig.view.await (m.contentFor w.tcpConfig.key)
    split
    · rename_i hglobal
      rw [ConfigMap.contentFor_ne (hapart _ hglobal)]
      rfl
    · split
      · rename_i htcp
        rw [ConfigMap.contentFor_eq htcp]
        rfl
      · rename_i htcp
        rw [ConfigMap.contentFor_ne htcp]
        rfl

/-- **One change** puts aside what it brings for the key of the slot. -/
theorem view_record (hapart : ∀ k, w.globalConfig.key = some k → w.tcpConfig.key ≠ some k)
    (c : Change) : (slot.inWindow (w.record c)).view =
      (slot.inWindow w).view.await (c.content? (slot.inWindow w).key) := by
  obtain ⟨old, new⟩ := c
  cases new with
  | some new =>
    cases new with
    | configMap m => exact view_stage hapart m
    | _ => cases slot <;> rfl
  | none =>
    cases old with
    | none => cases slot <;> rfl
    | some old => cases old <;> cases slot <;> rfl

/-- **Several changes**: the content that is brought last waits. -/
theorem view_applyAll {a : Aggregator} (cs : List Change)
    (hapart : ∀ k, a.window.globalConfig.key = some k → a.window.tcpConfig.key ≠ some k) :
    (slot.inWindow (a.applyAll cs).window).view = (slot.inWindow a.window).view.await
      (cs.filterMap (Change.content? (slot.inWindow a.window).key)).getLast? := by
  induction cs generalizing a with
  | nil => rfl
  | cons c cs ih =>
    have hkeys := a.window.keys_record c
    have hrest := ih (a := a.apply c) (by
      show ∀ k, (a.window.record c).globalConfig.key = some k →
        (a.window.record c).tcpConfig.key ≠ some k
      rw [hkeys.1, hkeys.2]
      exact hapart)
    show (slot.inWindow ((a.apply c).applyAll cs).window).view = _
    rw [hrest]
    show (slot.inWindow (a.window.record c)).view.await (cs.filterMap
      (Change.content? (slot.inWindow (a.window.record c)).key)).getLast? = _
    rw [key_record, view_record hapart, ConfigView.await_await]
    congr 1
    cases h : c.content? (slot.inWindow a.window).key with
    | none => rw [List.filterMap_cons_none h, Option.or_none]
    | some data => rw [List.filterMap_cons_some h, List.getLast?_cons, Option.or_some]

theorem key_applyAll {a : Aggregator} (cs : List Change) :
    (slot.inWindow (a.applyAll cs).window).key = (slot.inWindow a.window).key := by
  induction cs generalizing a with
  | nil => rfl
  | cons c cs ih => exact (ih (a := a.apply c)).trans (slot.key_record a.window c)

end Slot

/-! ## Runs -/

theorem Watches.accept_step (w : Watches) (e : WatchEvent) :
    (w.step e).2.configMaps.accept = w.configMaps.accept := by
  cases e <;> rfl

/-- What a slot of an intake holds. -/
def Slot.view (slot : Slot) (i : Intake) : ConfigView := (slot.inWindow i.aggregator.window).view

namespace Intake

/-- The events of a run. -/
def events (steps : List Step) : List WatchEvent :=
  steps.filterMap fun
    | .event e => some e
    | .sync => none

/-- **The two places that tell config maps apart** go by the same settings: the filter of the watch
and the slots of the window. -/
structure Configured (settings : Settings) (i : Intake) : Prop where
  accept : i.watches.configMaps.accept = Watches.isDistinguished settings
  slotKey : ∀ slot : Slot, (slot.inWindow i.aggregator.window).key = slot.key? settings

variable {settings : Settings} {i : Intake}

theorem configured_ofSettings (settings : Settings) (signals : Signals) :
    (ofSettings settings signals).Configured settings :=
  ⟨rfl, fun slot => by cases slot <;> rfl⟩

namespace Configured

theorem step (h : i.Configured settings) (s : Step) : (i.step s).Configured settings := by
  cases s with
  | event e =>
    exact ⟨(i.watches.accept_step e).trans h.accept,
      fun slot => (Slot.key_applyAll _).trans (h.slotKey slot)⟩
  | sync =>
    refine ⟨h.accept, fun slot => ?_⟩
    rw [← h.slotKey slot]
    cases slot <;> rfl

theorem run (h : i.Configured settings) (steps : List Step) :
    (i.run steps).Configured settings := by
  induction steps generalizing i with
  | nil => exact h
  | cons s steps ih => exact ih (h.step s)

theorem accepts (h : i.Configured settings) {slot : Slot} {m : ConfigMap}
    (hm : slot.key? settings = some (key m)) : i.watches.configMaps.accept m = true := by
  rw [h.accept, Watches.isDistinguished, Bool.or_eq_true, decide_eq_true_eq, decide_eq_true_eq]
  cases slot with
  | global => exact .inl hm
  | tcp => exact .inr hm

theorem apart (h : i.Configured settings)
    (hkeys : ∀ k, settings.globalMap = some k → settings.tcpMap ≠ some k) :
    ∀ k, i.aggregator.window.globalConfig.key = some k →
      i.aggregator.window.tcpConfig.key ≠ some k := by
  have hglobal : i.aggregator.window.globalConfig.key = settings.globalMap := h.slotKey .global
  have htcp : i.aggregator.window.tcpConfig.key = settings.tcpMap := h.slotKey .tcp
  rw [hglobal, htcp]
  exact hkeys

variable (hkeys : ∀ k, settings.globalMap = some k → settings.tcpMap ≠ some k)
include hkeys

/-- **One event** puts aside what it shows for the key of a slot. -/
theorem view_event (h : i.Configured settings) (slot : Slot) (e : WatchEvent) :
    slot.view (i.step (.event e)) =
      (slot.view i).await (e.content? (slot.key? settings)) := by
  show (slot.inWindow (i.aggregator.applyAll (i.watches.step e).1).window).view = _
  rw [Slot.view_applyAll _ (h.apart hkeys), h.slotKey,
    Watches.contents_step fun m (hm : slot.key? settings = some (key m)) => h.accepts hm]
  cases e.content? (slot.key? settings) <;> rfl

/-- **Several events**: what is shown last waits. -/
theorem view_events (h : i.Configured settings) (slot : Slot) (es : List WatchEvent) :
    slot.view (i.run (es.map .event)) =
      (slot.view i).await (latest (slot.key? settings) es) := by
  induction es generalizing i with
  | nil => rfl
  | cons e es ih =>
    show slot.view ((i.step (.event e)).run (es.map .event)) = _
    rw [ih (h.step _), h.view_event hkeys, ConfigView.await_await, ← List.singleton_append,
      latest_append]
    congr 2
    cases he : e.content? (slot.key? settings) <;> simp [latest, he]

/-- **A whole run**: what is current or waits to be is what was shown last, wherever the syncs
are. -/
theorem effective_run (h : i.Configured settings) (slot : Slot) (steps : List Step) :
    (slot.view (i.run steps)).effective =
      (latest (slot.key? settings) (events steps)).or (slot.view i).effective := by
  induction steps generalizing i with
  | nil => rfl
  | cons s steps ih =>
    show (slot.view ((i.step s).run steps)).effective = _
    rw [ih (h.step s)]
    cases s with
    | event e =>
      rw [h.view_event hkeys, ConfigView.effective_await, ← Option.or_assoc]
      congr 1
      show _ = latest _ ([e] ++ events steps)
      rw [latest_append]
      cases he : e.content? (slot.key? settings) <;> simp [latest, he]
    | sync => cases slot <;> rfl

end Configured

/-- **What a run makes of the slots.** It has come to `i`, where its events are `shown`; then there
is a sync, and some events `between` that one and the next. -/
structure Staged (settings : Settings) (shown between : List WatchEvent) (i : Intake) : Prop where
  /-- After the sync the current content is the one that was shown last. -/
  synced : ∀ slot : Slot,
    slot.view (i.step .sync) = ⟨latest (slot.key? settings) shown, none⟩
  /-- It stays until the next sync, and what was shown last since then waits. -/
  waiting : ∀ slot : Slot, slot.view ((i.step .sync).run (between.map .event)) =
    ⟨(slot.view (i.step .sync)).current, latest (slot.key? settings) between⟩
  /-- The snapshot of the next sync starts from what the one before put into effect. -/
  chained : ∀ slot : Slot,
    (slot.inSnapshot ((i.step .sync).run (between.map .event)).aggregator.sync.1).current =
      (slot.inSnapshot i.aggregator.sync.1).effective
  /-- Deletions, other config maps and other kinds leave a slot as it is. -/
  untouched : ∀ (slot : Slot) (e : WatchEvent),
    (∀ m ∈ e.shown?, slot.key? settings ≠ some (key m)) →
      slot.view (i.step (.event e)) = slot.view i
  /-- A slot without a key stays empty. -/
  keyless : ∀ slot : Slot, slot.key? settings = none → slot.view i = {}
  /-- No event is dropped whose config map a slot would take. -/
  forwarded : ∀ (slot : Slot) (e : WatchEvent) (m : ConfigMap), e.shown? = some m →
    slot.Takes i.aggregator.window m → ∃ c ∈ (i.watches.step e).1, c.new = some (.configMap m)
  /-- Every change that brings an object puts its content into the slot of its key. -/
  stored : ∀ (e : Event ConfigMap), ∀ c ∈ (i.watches.step (.configMap e)).1, ∀ o ∈ c.new,
    ∃ (slot : Slot) (m : ConfigMap), o = .configMap m ∧ slot.key? settings = some (key m) ∧
      (slot.view (i.step (.event (.configMap e)))).pending = some m.content

namespace Configured

/-- What is shown for a key of the settings is let through. -/
theorem exists_change_of_shown (h : i.Configured settings) {slot : Slot} {e : WatchEvent}
    {m : ConfigMap} (hshown : e.shown? = some m) (hkey : slot.key? settings = some (key m)) :
    ∃ c ∈ (i.watches.step e).1, c.new = some (.configMap m) := by
  have hreplaced : ∀ old, ∃ c ∈ (i.watches.configMaps.replaced old m).map Delta.change,
      c.new = some (.configMap m) := by
    intro old
    obtain ⟨d, hd, hnew⟩ := i.watches.configMaps.replaced_of_accept (h.accepts hkey) old
    refine ⟨d.change, ?_, ?_⟩
    · rw [hd]
      exact List.mem_singleton_self _
    · rw [Delta.change, hnew]
      rfl
  unfold WatchEvent.shown? at hshown
  split at hshown
  · obtain rfl := Option.some.inj hshown
    exact hreplaced _
  · obtain rfl := Option.some.inj hshown
    exact hreplaced _
  · cases hshown

/-- A change of the config maps' watch that brings an object brings the map of a slot. -/
theorem slot_of_mem_changes (h : i.Configured settings) {e : Event ConfigMap} {c : Change}
    (hc : c ∈ (i.watches.step (.configMap e)).1) {o : Watched} (ho : o ∈ c.new) :
    ∃ (slot : Slot) (m : ConfigMap), o = .configMap m ∧ slot.key? settings = some (key m) := by
  obtain ⟨d, hd, rfl⟩ := List.mem_map.1 hc
  obtain ⟨m, hm, rfl⟩ := Option.map_eq_some_iff.1 ho
  have haccept := i.watches.configMaps.accepted_of_mem_changes hd (.inr hm)
  rw [h.accept, Watches.isDistinguished, Bool.or_eq_true, decide_eq_true_eq,
    decide_eq_true_eq] at haccept
  rcases haccept with hglobal | htcp
  · exact ⟨.global, m, rfl, hglobal⟩
  · exact ⟨.tcp, m, rfl, htcp⟩

/-- What a change brings for the key of a slot waits in it after the event. -/
theorem pending_of_mem_changes (h : i.Configured settings)
    (hkeys : ∀ k, settings.globalMap = some k → settings.tcpMap ≠ some k) {e : WatchEvent}
    {c : Change} (hc : c ∈ (i.watches.step e).1) {slot : Slot} {m : ConfigMap}
    (hnew : c.new = some (.configMap m)) (hkey : slot.key? settings = some (key m)) :
    (slot.view (i.step (.event e))).pending = some m.content := by
  have hbrought : c.content? (slot.key? settings) = some m.content := by
    rw [Change.content?, Change.brought?, hnew]
    exact ConfigMap.contentFor_eq hkey
  have hmem : m.content ∈ (e.content? (slot.key? settings)).toList := by
    rw [← Watches.contents_step (w := i.watches) fun m hm => h.accepts hm]
    exact List.mem_filterMap.2 ⟨c, hc, hbrought⟩
  rw [h.view_event hkeys, Option.mem_toList.1 hmem]
  rfl

end Configured

theorem view_sync (slot : Slot) (i : Intake) :
    slot.view (i.step .sync) = ⟨(slot.view i).effective, none⟩ := by
  cases slot <;> rfl

/-- A snapshot shows what the window holds. -/
theorem inSnapshot_sync (slot : Slot) (i : Intake) :
    slot.inSnapshot i.aggregator.sync.1 = slot.view i := by
  cases slot <;> rfl

/-- **Config maps are staged and promoted**, one slot for each of the two keys if they differ. This
holds for events of any kinds in any order, relists that are given up included, with syncs anywhere
between them. -/
theorem run_staged (settings : Settings) (signals : Signals)
    (hkeys : ∀ k, settings.globalMap = some k → settings.tcpMap ≠ some k) (steps : List Step)
    (between : List WatchEvent) :
    ((ofSettings settings signals).run steps).Staged settings (events steps) between ∧
      ∀ slot : Slot, slot.view ((ofSettings settings signals).run (between.map .event)) =
        ⟨none, latest (slot.key? settings) between⟩ := by
  have hstart := configured_ofSettings settings signals
  have hempty : ∀ slot : Slot, slot.view (ofSettings settings signals) = ⟨none, none⟩ :=
    fun slot => by cases slot <;> rfl
  set i := (ofSettings settings signals).run steps
  have hi : i.Configured settings := hstart.run steps
  have heffective : ∀ slot : Slot,
      (slot.view i).effective = latest (slot.key? settings) (events steps) := by
    intro slot
    have h := hstart.effective_run hkeys slot steps
    rw [hempty] at h
    exact h.trans Option.or_none
  have hwaiting : ∀ slot : Slot, slot.view ((i.step .sync).run (between.map .event)) =
      ⟨(slot.view (i.step .sync)).current, latest (slot.key? settings) between⟩ := by
    intro slot
    rw [(hi.step .sync).view_events hkeys, view_sync, ConfigView.await, Option.or_none]
  refine ⟨⟨fun slot => ?_, hwaiting, fun slot => ?_, fun slot e he => ?_, fun slot hkey => ?_,
    fun slot e m hshown htakes => ?_, fun e c hc o ho => ?_⟩, fun slot => ?_⟩
  · rw [view_sync, heffective]
  · rw [inSnapshot_sync, inSnapshot_sync, hwaiting, view_sync]
  · have hcontent : e.content? (slot.key? settings) = none := by
      rw [WatchEvent.content?, Option.bind_eq_none_iff]
      exact fun m hm => ConfigMap.contentFor_ne (he m hm)
    rw [hi.view_event hkeys, hcontent, ConfigView.await_none]
  · -- nothing is shown for it, so nothing is in effect
    have hnone := heffective slot
    rw [hkey, latest_none] at hnone
    exact ConfigView.eq_empty_of_effective hnone
  · have hkey : slot.key? settings = some (key m) := by
      rw [← hi.slotKey slot]
      exact htakes.1
    exact hi.exists_change_of_shown hshown hkey
  · obtain ⟨slot, m, rfl, hkey⟩ := hi.slot_of_mem_changes hc ho
    exact ⟨slot, m, rfl, hkey, hi.pending_of_mem_changes hkeys hc ho hkey⟩
  · rw [hstart.view_events hkeys, hempty]
    exact congrArg _ (Option.or_none)

/-- A config map of the controller's namespace. -/
def steeringMap (name : String) (data : Option ConfigData) : ConfigMap where
  metadata := { ns := some "web", name := some name }
  data

/-- The content of the global config map. -/
def timeout (value : String) : ConfigData := ⟨[("timeout", value)], by simp⟩

/-- A relist is given up and started anew, and the global config map is deleted after a sync. -/
def steeringSteps : List Step :=
  [.event (.configMap .init),
    .event (.configMap (.initApply (steeringMap "global" (timeout "5s")))),
    .event (.configMap .init),
    .event (.configMap (.initApply (steeringMap "global" (timeout "6s")))),
    .event (.configMap (.initApply (steeringMap "tokens" (timeout "7s")))),
    .event (.configMap .initDone), .sync,
    .event (.configMap (.delete (steeringMap "global" (timeout "6s"))))]

/-- The deleted content is in effect still, and the TCP config map waits with no data. -/
theorem run_staged_deleted :
    let settings : Settings :=
      { Settings.standard "web" with
        globalMap := some ⟨"web", "global"⟩
        tcpMap := some ⟨"web", "tcp"⟩ }
    let start := ofSettings settings (.permit false)
    let between : List WatchEvent := [.configMap (.apply (steeringMap "tcp" none))]
    let last := ((start.run steeringSteps).step .sync).run (between.map .event)
    (∀ k, settings.globalMap = some k → settings.tcpMap ≠ some k) ∧
      (start.run steeringSteps).Staged settings (events steeringSteps) between ∧
      Slot.global.view last = ⟨some (timeout "6s"), none⟩ ∧
      Slot.tcp.view last = ⟨none, some Dict.empty⟩ := by
  intro settings start between last
  have hkeys : ∀ k, settings.globalMap = some k → settings.tcpMap ≠ some k := by
    intro k hk
    obtain rfl := Option.some.inj hk
    decide
  have hstaged := (run_staged settings (.permit false) hkeys steeringSteps between).1
  refine ⟨hkeys, hstaged, ?_, ?_⟩
  · rw [hstaged.waiting .global, hstaged.synced .global]
    rfl
  · rw [hstaged.waiting .tcp, hstaged.synced .tcp]
    rfl

end Intake

end IngressWatch
