import IngressWatch.Mirror

/-!
# Writes to the API server

An object that the mirror knows is updated, and one that it does not know is created. Each name has
a single writer, so the mirror decides.

* `Write.of`: the write of an object by the mirror.
* `Write.settle`: the answer of a write that was accepted or not.
-/

namespace IngressWatch

inductive Verb where
  | create
  | update
deriving DecidableEq, Repr

structure Write (α : Type) where
  verb : Verb
  object : α

namespace Write

variable {α : Type} [Resource α]

/-- The write that brings `object` to the server. -/
def of (mirror : Mirror α) (object : α) : Write α :=
  ⟨if (mirror.lookup (Resource.key object)).isSome then .update else .create, object⟩

/-- The error of a write that failed. -/
def failure (w : Write α) : Error :=
  let key := Resource.key w.object
  .remoteWrite key.ns key.name

/-- The answer of a write. -/
def settle (w : Write α) (accepted : Bool) : Except Error Unit :=
  if accepted then .ok () else .error w.failure

end Write

end IngressWatch
