import IngressWatch.Change
import IngressWatch.Mirror

/-!
# Watches

A watch reports events of one kind of objects. A binding keeps the mirror of that kind and
turns each event into the changes that it means for accepted objects.

* `Event`: what a watch reports. A relist starts with `init`, lists every object, and ends with
  `initDone`.
* `Binding.mirrored`: the mirror after an event. A relist fills a buffer, which replaces the mirror
  at its end.
* `Binding.changes`: the changes. Objects that a relist did not list are reported as deleted at
  its end, together with a request for a full resync.
-/

namespace IngressWatch

open Resource

inductive Event (α : Type) where
  | apply (object : α)
  | delete (object : α)
  | init
  | initApply (object : α)
  | initDone

/-- The objects known when a relist started, and the identifiers seen since. -/
structure Relist (α : Type) where
  before : List α
  seen : List Identifier

/-- The objects that were known before a relist and not listed in it. -/
def Relist.missing {α : Type} [Resource α] (r : Relist α) : List α :=
  r.before.filter fun o => identifier o ∉ r.seen

structure Binding (α : Type) [Resource α] where
  /-- Which objects are reported. All of them are mirrored. -/
  accept : α → Bool
  mirror : Mirror α := {}
  buffer : Mirror α := {}
  relist : Option (Relist α) := none

namespace Binding

variable {α : Type} [Resource α]

/-- The change when `new` takes the place of `old`. Objects that are not accepted count as
missing. -/
def replaced (b : Binding α) (old : Option α) (new : α) : List (Delta α) :=
  match old.filter b.accept, b.accept new with
  | some old, true => [.updated old new]
  | none, true => [.added new]
  | some old, false => [.deleted old]
  | none, false => []

def vanished (b : Binding α) (old : α) : List (Delta α) :=
  if b.accept old then [.deleted old] else []

/-- The changes that an event means, by the mirror as it was before the event. -/
def changes (b : Binding α) : Event α → List (Delta α)
  | .apply o | .initApply o => b.replaced (b.mirror.get? (identifier o)) o
  | .delete o => b.vanished ((b.mirror.get? (identifier o)).getD o)
  | .init => []
  | .initDone => ((b.relist.map Relist.missing).getD []).flatMap b.vanished ++ [.resync]

/-- The mirror and the buffer after an event. -/
def mirrored (b : Binding α) : Event α → Mirror α × Mirror α
  | .apply o => (b.mirror.put o, b.buffer)
  | .delete o => (b.mirror.remove o, b.buffer)
  | .init => (b.mirror, {})
  | .initApply o => (b.mirror, b.buffer.put o)
  | .initDone => (b.buffer, {})

/-- The relist in progress after an event. -/
def relisted (b : Binding α) : Event α → Option (Relist α)
  | .apply o | .initApply o => b.relist.map fun r => { r with seen := identifier o :: r.seen }
  | .delete _ => b.relist
  | .init => some ⟨b.mirror.objects, []⟩
  | .initDone => none

/-- The binding after an event. -/
def next (b : Binding α) (e : Event α) : Binding α :=
  { b with mirror := (b.mirrored e).1, buffer := (b.mirrored e).2, relist := b.relisted e }

def step (b : Binding α) (e : Event α) : List (Delta α) × Binding α := (b.changes e, b.next e)

/-- A run of events with all changes in order. -/
def run (b : Binding α) : List (Event α) → List (Delta α) × Binding α
  | [] => ([], b)
  | e :: rest =>
    let (later, last) := run (b.next e) rest
    (b.changes e ++ later, last)

end Binding

end IngressWatch
