import IngressWatch.Change

/-!
# Windows

A window collects the changes between two syncs, sorted by kind.

* `Window.record`: files one change. Nothing is dropped but deletions of endpoints, pods and
  config maps, and config maps that are not distinguished.
* `Window.snapshot`, `Window.next`: what the window holds, and the empty window after it.
* `ConfigView`: the content of a distinguished config map before and after the next sync.
-/

namespace IngressWatch

/-- Objects of one kind that were added, updated or deleted, in order. An object may be in several
lists. -/
structure ChangeSet (α : Type) where
  added : List α := []
  updated : List α := []
  deleted : List α := []

namespace ChangeSet

variable {α : Type}

def isEmpty (s : ChangeSet α) : Bool :=
  s.added.isEmpty && s.updated.isEmpty && s.deleted.isEmpty

def size (s : ChangeSet α) : Nat := s.added.length + s.updated.length + s.deleted.length

/-- Files an object that is there now. It was added unless there was one before. -/
def announce (s : ChangeSet α) (hadOld : Bool) (object : α) : ChangeSet α :=
  if hadOld then { s with updated := s.updated ++ [object] }
  else { s with added := s.added ++ [object] }

def dismiss (s : ChangeSet α) (object : α) : ChangeSet α :=
  { s with deleted := s.deleted ++ [object] }

/-- Objects that are there now, added ones first. -/
def present (s : ChangeSet α) : List α := s.added ++ s.updated

end ChangeSet

/-- The content of a config map. -/
abbrev ConfigData := Dict String

/-- The content that was in effect at the last sync, and newer content seen since. -/
structure ConfigView where
  current : Option ConfigData := none
  pending : Option ConfigData := none

namespace ConfigView

def changed (v : ConfigView) : Bool := v.pending.isSome

def effective (v : ConfigView) : Option ConfigData := v.pending.or v.current

/-- The view after a sync. -/
def promote (v : ConfigView) : ConfigView := ⟨v.effective, none⟩

end ConfigView

/-- A distinguished config map, if one is configured, and its content. -/
structure ConfigSlot where
  key : Option Key
  view : ConfigView := {}

/-- Everything that changed between two syncs. -/
structure Snapshot where
  ingresses : ChangeSet Ingress
  services : ChangeSet Service
  secrets : ChangeSet Secret
  endpoints : List Endpoints
  pods : List Pod
  globalConfig : ConfigView
  tcpConfig : ConfigView
  resync : Bool

def Snapshot.isEmpty (s : Snapshot) : Bool :=
  s.ingresses.isEmpty && s.services.isEmpty && s.secrets.isEmpty && s.endpoints.isEmpty
    && s.pods.isEmpty && !s.globalConfig.changed && !s.tcpConfig.changed && !s.resync

structure Window where
  ingresses : ChangeSet Ingress := {}
  services : ChangeSet Service := {}
  secrets : ChangeSet Secret := {}
  endpoints : List Endpoints := []
  pods : List Pod := []
  globalConfig : ConfigSlot
  tcpConfig : ConfigSlot
  resync : Bool := false

namespace Window

/-- An empty window with the given distinguished config maps. -/
def ofKeys (globalMap tcpMap : Option Key) : Window where
  globalConfig := ⟨globalMap, {}⟩
  tcpConfig := ⟨tcpMap, {}⟩

/-- Puts the content of a distinguished config map aside for the next sync. -/
def stage (w : Window) (m : ConfigMap) : Window :=
  let key := Resource.key m
  let data := m.data.getD Dict.empty
  if w.globalConfig.key = some key then
    { w with globalConfig.view.pending := some data }
  else if w.tcpConfig.key = some key then
    { w with tcpConfig.view.pending := some data }
  else w

def record (w : Window) (c : Change) : Window :=
  match c.new, c.old with
  | some (.ingress o), old => { w with ingresses := w.ingresses.announce old.isSome o }
  | some (.service o), old => { w with services := w.services.announce old.isSome o }
  | some (.secret o), old => { w with secrets := w.secrets.announce old.isSome o }
  | some (.endpoints o), _ => { w with endpoints := w.endpoints ++ [o] }
  | some (.pod o), _ => { w with pods := w.pods ++ [o] }
  | some (.configMap o), _ => w.stage o
  | none, some (.ingress o) => { w with ingresses := w.ingresses.dismiss o }
  | none, some (.service o) => { w with services := w.services.dismiss o }
  | none, some (.secret o) => { w with secrets := w.secrets.dismiss o }
  | none, some _ => w
  | none, none => { w with resync := true }

/-- The key whose credentials a change makes invalid: that of a deleted secret. -/
def invalidated (c : Change) : Option Key :=
  match c.new, c.old with
  | none, some (.secret o) => some (Resource.key o)
  | _, _ => none

def snapshot (w : Window) : Snapshot where
  ingresses := w.ingresses
  services := w.services
  secrets := w.secrets
  endpoints := w.endpoints
  pods := w.pods
  globalConfig := w.globalConfig.view
  tcpConfig := w.tcpConfig.view
  resync := w.resync

/-- The window after a sync: pending content is current and everything else is gone. -/
def next (w : Window) : Window where
  globalConfig := { w.globalConfig with view := w.globalConfig.view.promote }
  tcpConfig := { w.tcpConfig with view := w.tcpConfig.view.promote }

end Window

end IngressWatch
