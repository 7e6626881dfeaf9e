import IngressWatch.Aggregator
import Mathlib.Data.List.Forall2

/-!
# Snapshots hold exactly what changed

* `Contents.ofChanges`: what a list of changes amounts to, each list of objects read off the
  changes on its own.
* `contents_record`: filing one change adds what that change amounts to, and nothing else.
* `run_reports`: in every run, **each sync yields exactly the changes since the sync before it**,
  and all snapshots together yield all changes in order, wherever the syncs are.
-/

namespace IngressWatch

namespace ChangeSet

variable {α : Type}

/-- The objects of one kind in a list of changes, in order. `pick` chooses the kind. -/
def ofChanges (pick : Watched → Option α) (cs : List Change) : ChangeSet α where
  added := cs.filterMap fun c => if c.old.isNone then c.new.bind pick else none
  updated := cs.filterMap fun c => if c.old.isSome then c.new.bind pick else none
  deleted := cs.filterMap fun c => if c.new.isNone then c.old.bind pick else none

instance : Append (ChangeSet α) :=
  ⟨fun s t => ⟨s.added ++ t.added, s.updated ++ t.updated, s.deleted ++ t.deleted⟩⟩

theorem append_def (s t : ChangeSet α) :
    s ++ t = ⟨s.added ++ t.added, s.updated ++ t.updated, s.deleted ++ t.deleted⟩ := rfl

theorem ofChanges_append (pick : Watched → Option α) (cs ds : List Change) :
    ofChanges pick (cs ++ ds) = ofChanges pick cs ++ ofChanges pick ds := by
  simp only [ofChanges, List.filterMap_append, append_def]

theorem isEmpty_append (s t : ChangeSet α) : (s ++ t).isEmpty = (s.isEmpty && t.isEmpty) := by
  rw [Bool.eq_iff_iff]
  simp only [append_def, isEmpty, Bool.and_eq_true, List.isEmpty_iff, List.append_eq_nil_iff]
  tauto

end ChangeSet

namespace Watched

def ingress? : Watched → Option Ingress
  | ingress o => some o
  | _ => none

def service? : Watched → Option Service
  | service o => some o
  | _ => none

def secret? : Watched → Option Secret
  | secret o => some o
  | _ => none

def endpoints? : Watched → Option Endpoints
  | endpoints o => some o
  | _ => none

def pod? : Watched → Option Pod
  | pod o => some o
  | _ => none

end Watched

/-- What a window holds, apart from the content of config maps. -/
structure Contents where
  ingresses : ChangeSet Ingress := {}
  services : ChangeSet Service := {}
  secrets : ChangeSet Secret := {}
  endpoints : List Endpoints := []
  pods : List Pod := []
  resync : Bool := false

namespace Contents

/-- **What a list of changes amounts to.** -/
def ofChanges (cs : List Change) : Contents where
  ingresses := .ofChanges Watched.ingress? cs
  services := .ofChanges Watched.service? cs
  secrets := .ofChanges Watched.secret? cs
  endpoints := cs.filterMap fun c => c.new.bind Watched.endpoints?
  pods := cs.filterMap fun c => c.new.bind Watched.pod?
  resync := cs.any fun c => c.old.isNone && c.new.isNone

instance : Append Contents :=
  ⟨fun a b => ⟨a.ingresses ++ b.ingresses, a.services ++ b.services, a.secrets ++ b.secrets,
    a.endpoints ++ b.endpoints, a.pods ++ b.pods, a.resync || b.resync⟩⟩

theorem append_def (a b : Contents) :
    a ++ b = ⟨a.ingresses ++ b.ingresses, a.services ++ b.services, a.secrets ++ b.secrets,
      a.endpoints ++ b.endpoints, a.pods ++ b.pods, a.resync || b.resync⟩ := rfl

/-- Several contents after one another. -/
def concat (l : List Contents) : Contents := l.foldr (· ++ ·) {}

def isEmpty (a : Contents) : Bool :=
  a.ingresses.isEmpty && a.services.isEmpty && a.secrets.isEmpty && a.endpoints.isEmpty
    && a.pods.isEmpty && !a.resync

theorem ofChanges_append (cs ds : List Change) :
    ofChanges (cs ++ ds) = ofChanges cs ++ ofChanges ds := by
  simp only [ofChanges, ChangeSet.ofChanges_append, List.filterMap_append, List.any_append,
    append_def]

theorem isEmpty_append (a b : Contents) : (a ++ b).isEmpty = (a.isEmpty && b.isEmpty) := by
  rw [Bool.eq_iff_iff]
  simp only [append_def, isEmpty, ChangeSet.isEmpty_append, Bool.not_or, Bool.and_eq_true,
    List.isEmpty_iff, List.append_eq_nil_iff]
  tauto

/-- Nothing is in the contents of some changes exactly when it is in those of none. -/
theorem isEmpty_ofChanges (cs : List Change) :
    (ofChanges cs).isEmpty = true ↔ ∀ c ∈ cs, (ofChanges [c]).isEmpty = true := by
  induction cs with
  | nil => simp only [List.not_mem_nil, false_imp_iff, implies_true, iff_true]; rfl
  | cons c cs ih =>
    rw [← List.singleton_append, ofChanges_append, isEmpty_append, Bool.and_eq_true, ih]
    simp

/-- Windows after one another amount to all their changes. -/
theorem concat_map_ofChanges (ws : List (List Change)) :
    concat (ws.map ofChanges) = ofChanges ws.flatten := by
  induction ws with
  | nil => rfl
  | cons w ws ih => rw [List.flatten_cons, ofChanges_append, ← ih]; rfl

end Contents

/-- The content of a config map that is told apart by its key. -/
def Change.Stages (globalMap tcpMap : Option Key) (c : Change) : Prop :=
  ∃ m, c.new = some (.configMap m) ∧
    (globalMap = some (Resource.key m) ∨ tcpMap = some (Resource.key m))

/-- **A change of which nothing is kept**: the deletion of endpoints, a pod or a config map, or a
config map that matches neither key. -/
def Change.IsDropped (globalMap tcpMap : Option Key) (c : Change) : Prop :=
  (c.new = none ∧ ∃ o, c.old = some o ∧ o.kind ∈ [Kind.endpoints, .pod, .configMap]) ∨
    ∃ m, c.new = some (.configMap m) ∧
      globalMap ≠ some (Resource.key m) ∧ tcpMap ≠ some (Resource.key m)

/-- A change amounts to nothing exactly when it is a deletion of a kind without a list, or a config
map. -/
theorem isEmpty_ofChanges_singleton (c : Change) :
    (Contents.ofChanges [c]).isEmpty = true ↔
      (c.new = none ∧ ∃ o, c.old = some o ∧ o.kind ∈ [Kind.endpoints, .pod, .configMap]) ∨
        ∃ m, c.new = some (.configMap m) := by
  obtain ⟨old, new⟩ := c
  cases new with
  | some new =>
    cases new <;> cases old <;>
      simp [Contents.ofChanges, ChangeSet.ofChanges, Contents.isEmpty, ChangeSet.isEmpty,
        Watched.ingress?, Watched.service?, Watched.secret?, Watched.endpoints?, Watched.pod?]
  | none =>
    cases old with
    | none => simp [Contents.ofChanges, Contents.isEmpty]
    | some old =>
      cases old <;>
        simp [Contents.ofChanges, ChangeSet.ofChanges, Contents.isEmpty, ChangeSet.isEmpty,
          Watched.kind, Watched.ingress?, Watched.service?, Watched.secret?]

/-- A change is dropped exactly when it amounts to nothing and is no distinguished config map. -/
theorem isDropped_iff (globalMap tcpMap : Option Key) (c : Change) :
    c.IsDropped globalMap tcpMap ↔
      (Contents.ofChanges [c]).isEmpty = true ∧ ¬ c.Stages globalMap tcpMap := by
  rw [isEmpty_ofChanges_singleton, Change.IsDropped, Change.Stages]
  constructor
  · rintro (⟨hn, ho⟩ | ⟨m, hm, hg, ht⟩)
    · exact ⟨.inl ⟨hn, ho⟩, fun ⟨m, hm, _⟩ => by simp [hn] at hm⟩
    · refine ⟨.inr ⟨m, hm⟩, fun ⟨m', hm', h⟩ => ?_⟩
      obtain rfl : m = m' := by simpa [hm] using hm'
      exact h.elim hg ht
  · rintro ⟨h | ⟨m, hm⟩, hs⟩
    · exact .inl h
    · exact .inr ⟨m, hm, fun h => hs ⟨m, hm, .inl h⟩, fun h => hs ⟨m, hm, .inr h⟩⟩

/-! ## One change -/

namespace Window

/-- What a window holds, apart from the content of config maps. -/
def contents (w : Window) : Contents :=
  ⟨w.ingresses, w.services, w.secrets, w.endpoints, w.pods, w.resync⟩

/-- Whether new content of a config map is waiting for the next sync. -/
def staged (w : Window) : Bool := w.globalConfig.view.changed || w.tcpConfig.view.changed

/-- **Filing a change adds what it amounts to.** -/
theorem contents_record (w : Window) (c : Change) :
    (w.record c).contents = w.contents ++ Contents.ofChanges [c] := by
  obtain ⟨old, new⟩ := c
  cases new with
  | none =>
    cases old with
    | none => simp [record, contents, Contents.append_def, Contents.ofChanges, ChangeSet.ofChanges,
        ChangeSet.append_def]
    | some old =>
      cases old <;> simp [record, contents, Contents.append_def, Contents.ofChanges,
        ChangeSet.ofChanges, ChangeSet.append_def, ChangeSet.dismiss, Watched.ingress?,
        Watched.service?, Watched.secret?]
  | some new =>
    cases new with
    | configMap m =>
      -- whether it is distinguished or not, it is in no list
      have hs : (w.stage m).contents = w.contents := by
        simp only [stage]; split
        · rfl
        · split <;> rfl
      show (w.stage m).contents = _
      rw [hs]
      cases old <;> simp [contents, Contents.append_def, Contents.ofChanges, ChangeSet.ofChanges,
        ChangeSet.append_def, Watched.ingress?, Watched.service?, Watched.secret?,
        Watched.endpoints?, Watched.pod?]
    | _ =>
      cases old <;> simp [record, contents, Contents.append_def, Contents.ofChanges,
        ChangeSet.ofChanges, ChangeSet.append_def, ChangeSet.announce, Watched.ingress?,
        Watched.service?, Watched.secret?, Watched.endpoints?, Watched.pod?]

theorem keys_record (w : Window) (c : Change) :
    (w.record c).globalConfig.key = w.globalConfig.key ∧
      (w.record c).tcpConfig.key = w.tcpConfig.key := by
  obtain ⟨old, new⟩ := c
  cases new with
  | none => cases old with
    | none => exact ⟨rfl, rfl⟩
    | some old => cases old <;> exact ⟨rfl, rfl⟩
  | some new =>
    cases new with
    | configMap m =>
      simp only [record, stage]; split
      · exact ⟨rfl, rfl⟩
      · split <;> exact ⟨rfl, rfl⟩
    | _ => exact ⟨rfl, rfl⟩

/-- New content waits after a change exactly if it did before or the change brings it. -/
theorem staged_record (w : Window) (c : Change) :
    (w.record c).staged = true ↔
      w.staged = true ∨ c.Stages w.globalConfig.key w.tcpConfig.key := by
  obtain ⟨old, new⟩ := c
  cases new with
  | none => cases old with
    | none => simp [record, staged, Change.Stages]
    | some old => cases old <;> simp [record, staged, Change.Stages]
  | some new =>
    cases new with
    | configMap m =>
      simp only [record, stage]
      split
      · rename_i hg
        simp [staged, Change.Stages, ConfigView.changed, hg]
      · split
        · rename_i hg ht
          simp [staged, Change.Stages, ConfigView.changed, ht]
        · rename_i hg ht
          simp [Change.Stages, hg, ht]
    | _ => simp [record, staged, Change.Stages]

/-! ## One window -/

/-- **A window in a run**: it holds what the changes since the last sync amount to, and new content
of a config map waits exactly if one of them brought it. -/
structure Holds (globalMap tcpMap : Option Key) (since : List Change) (w : Window) : Prop where
  globalKey : w.globalConfig.key = globalMap
  tcpKey : w.tcpConfig.key = tcpMap
  contents : w.contents = Contents.ofChanges since
  staged : w.staged = true ↔ ∃ c ∈ since, c.Stages globalMap tcpMap

theorem holds_ofKeys (globalMap tcpMap : Option Key) :
    (ofKeys globalMap tcpMap).Holds globalMap tcpMap [] :=
  ⟨rfl, rfl, rfl, by simp [ofKeys, Window.staged, ConfigView.changed]⟩

variable {globalMap tcpMap : Option Key} {since : List Change} {w : Window}

theorem Holds.record (h : w.Holds globalMap tcpMap since) (c : Change) :
    (w.record c).Holds globalMap tcpMap (since ++ [c]) where
  globalKey := (w.keys_record c).1.trans h.globalKey
  tcpKey := (w.keys_record c).2.trans h.tcpKey
  contents := by rw [contents_record, h.contents, Contents.ofChanges_append]
  staged := by
    rw [staged_record, h.staged, h.globalKey, h.tcpKey]
    simp [or_and_right, exists_or]

theorem Holds.next (h : w.Holds globalMap tcpMap since) : w.next.Holds globalMap tcpMap [] :=
  ⟨h.globalKey, h.tcpKey, rfl, by simp [Window.next, Window.staged, ConfigView.promote,
    ConfigView.changed]⟩

end Window

/-- What a snapshot holds, apart from the content of config maps. -/
def Snapshot.contents (s : Snapshot) : Contents :=
  ⟨s.ingresses, s.services, s.secrets, s.endpoints, s.pods, s.resync⟩

theorem Snapshot.isEmpty_iff (s : Snapshot) :
    s.isEmpty = true ↔
      s.contents.isEmpty = true ∧ ¬ (s.globalConfig.changed || s.tcpConfig.changed) = true := by
  simp only [isEmpty, Contents.isEmpty, contents, Bool.and_eq_true, Bool.or_eq_true, not_or,
    Bool.not_eq_true', Bool.not_eq_true]
  tauto

/-- **A snapshot reports exactly the given changes.** -/
structure Snapshot.Reports (globalMap tcpMap : Option Key) (s : Snapshot) (cs : List Change) :
    Prop where
  contents : s.contents = Contents.ofChanges cs
  isEmpty_iff : s.isEmpty = true ↔ ∀ c ∈ cs, c.IsDropped globalMap tcpMap

theorem Window.Holds.reports {globalMap tcpMap : Option Key} {since : List Change} {w : Window}
    (h : w.Holds globalMap tcpMap since) : w.snapshot.Reports globalMap tcpMap since := by
  refine ⟨h.contents, ?_⟩
  have hc : w.snapshot.contents = Contents.ofChanges since := h.contents
  have hs : ¬ (w.snapshot.globalConfig.changed || w.snapshot.tcpConfig.changed) = true ↔
      ¬ ∃ c ∈ since, c.Stages globalMap tcpMap := not_congr h.staged
  -- both sides speak of each change on its own now
  rw [Snapshot.isEmpty_iff, hc, hs, Contents.isEmpty_ofChanges]
  simp only [isDropped_iff, not_exists, not_and]
  exact ⟨fun ⟨h1, h2⟩ c hm => ⟨h1 c hm, h2 c hm⟩, fun h => ⟨fun c hm => (h c hm).1,
    fun c hm => (h c hm).2⟩⟩

/-! ## Runs -/

namespace Aggregator

/-- The changes of a run, in order. -/
def changesOf : List Step → List Change
  | [] => []
  | .change c :: rest => c :: changesOf rest
  | _ :: rest => changesOf rest

/-- The changes up to each sync of a run since the one before it. `since` are those since the last
sync before the run. -/
def windows (since : List Change) : List Step → List (List Change)
  | [] => []
  | .change c :: rest => windows (since ++ [c]) rest
  | .sync :: rest => since :: windows [] rest
  | _ :: rest => windows since rest

/-- No change is lost or counted twice before the last sync of a run. -/
theorem flatten_windows (since : List Change) (steps : List Step) :
    (windows since (steps ++ [.sync])).flatten = since ++ changesOf steps := by
  induction steps generalizing since with
  | nil => simp [windows, changesOf]
  | cons s steps ih =>
    cases s with
    | change c => simp [windows, changesOf, ih]
    | sync => simp [windows, changesOf, ih]
    | advance t => exact ih since
    | take => exact ih since

variable {globalMap tcpMap : Option Key}

/-- From a window that holds the changes since the last sync, each sync of a run reports the changes
since the sync before it. -/
theorem run_forall₂ {since : List Change} {a : Aggregator}
    (h : a.window.Holds globalMap tcpMap since) (steps : List Step) :
    List.Forall₂ (Snapshot.Reports globalMap tcpMap) (a.run steps).1 (windows since steps) := by
  induction steps generalizing since a with
  | nil => exact .nil
  | cons s steps ih =>
    cases s with
    | change c => exact ih (h.record c)
    | sync => exact .cons h.reports (ih h.next)
    | advance t => exact ih (a := a.advance t) h
    | take => exact ih (a := a.take.2) h

theorem map_contents_of_reports {snapshots : List Snapshot} {ws : List (List Change)}
    (h : List.Forall₂ (Snapshot.Reports globalMap tcpMap) snapshots ws) :
    snapshots.map Snapshot.contents = ws.map Contents.ofChanges := by
  induction h with
  | nil => rfl
  | cons hs _ ih => rw [List.map_cons, List.map_cons, hs.contents, ih]

/-- A sync right after a sync finds nothing. -/
theorem isEmpty_sync_sync (a : Aggregator) : a.sync.2.sync.1.isEmpty = true := rfl

/-- **Each sync of a run yields exactly the changes since the sync before it**, filed by kind and
side, and is empty exactly if nothing is kept of them. So a sync right after a sync is empty, and
all snapshots up to a last sync together hold all changes in order, wherever the other syncs are. -/
theorem run_reports (globalMap tcpMap : Option Key) (d : Debouncer) (steps : List Step) :
    let a := new globalMap tcpMap d
    List.Forall₂ (Snapshot.Reports globalMap tcpMap) (a.run steps).1 (windows [] steps) ∧
      (a.run steps).2.sync.2.sync.1.isEmpty = true ∧
      Contents.concat ((a.run (steps ++ [.sync])).1.map Snapshot.contents) =
        Contents.ofChanges (changesOf steps) := by
  intro a
  -- the invariant of the run starts with an empty window
  have h0 : a.window.Holds globalMap tcpMap [] := Window.holds_ofKeys globalMap tcpMap
  refine ⟨run_forall₂ h0 steps, isEmpty_sync_sync _, ?_⟩
  rw [map_contents_of_reports (run_forall₂ h0 _), Contents.concat_map_ofChanges,
    flatten_windows, List.nil_append]

end Aggregator

end IngressWatch
