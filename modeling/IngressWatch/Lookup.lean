import IngressWatch.Draining
import IngressWatch.Mirrors
import IngressWatch.Settings

/-!
# Lookups in the mirrors

* `Mirror.find`: the object of a written key, or why there is none.
* `Mirrors.endpointsOf`: the endpoints of a service.
* `Mirrors.controllerPod`: the pod that the controller runs in.
-/

namespace IngressWatch

/-- The object of a key. -/
def Mirror.at {α : Type} [Resource α] (m : Mirror α) (key : Key) : Except Error α :=
  match m.lookup key with
  | some object => .ok object
  | none => .error (.notFound key.ns key.name none)

/-- The object of a key that is still to be read. -/
def Mirror.find {α : Type} [Resource α] (m : Mirror α) (text : String) : Except Error α :=
  match Key.parse text with
  | .error cause => .error (.malformed cause)
  | .ok key => m.at key

namespace Mirrors

/-- The endpoints that go by the same key as a service. -/
def endpointsOf (m : Mirrors) (service : Service) : Except Error Endpoints :=
  m.endpoints.at (Resource.key service)

def controllerPod (m : Mirrors) (env : Environment) : Except Error Pod :=
  match env.ownPod with
  | .error e => .error e
  | .ok key => m.pods.at key

end Mirrors

end IngressWatch
