import IngressWatch.Resource.Basic

/-!
# Changes

What a watch reports: an object that appeared, was replaced or vanished, or the request to look at
everything again.

* `Change`: the object before and after, of any kind.
* `Delta`: the same for objects of one kind; `Delta.change` forgets the kind.
-/

namespace IngressWatch

/-- An object before and after a change. Without either it asks for a full resync. -/
structure Change where
  old : Option Watched
  new : Option Watched

namespace Change

def resync : Change := ⟨none, none⟩

/-- The kind of the object after the change, or else before. -/
def kind (c : Change) : Option Kind := (c.new.or c.old).map Watched.kind

end Change

/-- A change of objects of one kind. -/
inductive Delta (α : Type) where
  | added (new : α)
  | updated (old new : α)
  | deleted (old : α)
  | resync

namespace Delta

variable {α : Type}

def old? : Delta α → Option α
  | updated old _ => some old
  | deleted old => some old
  | _ => none

def new? : Delta α → Option α
  | added new => some new
  | updated _ new => some new
  | _ => none

def change [Watchable α] (d : Delta α) : Change :=
  ⟨d.old?.map Watchable.watched, d.new?.map Watchable.watched⟩

end Delta

end IngressWatch
