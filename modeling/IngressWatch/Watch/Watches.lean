import IngressWatch.Mirrors
import IngressWatch.Settings
import IngressWatch.Watch.Binding

/-!
# The watches of all kinds

* `Watches`: a binding for each kind. Ingresses are filtered by class, config maps by the
  distinguished keys, and the other kinds are all accepted.
* `Watches.step`: one event of any kind.
* `WatchEvent.apply` and its like: the event of an object's kind.
-/

namespace IngressWatch

/-- An event of a watch for a given kind. -/
inductive WatchEvent where
  | ingress (e : Event Ingress)
  | service (e : Event Service)
  | endpoints (e : Event Endpoints)
  | secret (e : Event Secret)
  | configMap (e : Event ConfigMap)
  | pod (e : Event Pod)

structure Watches where
  ingresses : Binding Ingress
  services : Binding Service
  endpoints : Binding Endpoints
  secrets : Binding Secret
  configMaps : Binding ConfigMap
  pods : Binding Pod

namespace Watches

/-- Config maps with a distinguished key. -/
def isDistinguished (s : Settings) (m : ConfigMap) : Bool :=
  s.globalMap = some (Resource.key m) || s.tcpMap = some (Resource.key m)

def ofSettings (s : Settings) : Watches where
  ingresses := { accept := s.classFilter.accepts }
  services := { accept := fun _ => true }
  endpoints := { accept := fun _ => true }
  secrets := { accept := fun _ => true }
  configMaps := { accept := isDistinguished s }
  pods := { accept := fun _ => true }

def mirrors (w : Watches) : Mirrors :=
  ⟨w.ingresses.mirror, w.services.mirror, w.endpoints.mirror, w.secrets.mirror,
   w.configMaps.mirror, w.pods.mirror⟩

def step (w : Watches) : WatchEvent → List Change × Watches
  | .ingress e => ((w.ingresses.changes e).map Delta.change, { w with ingresses := w.ingresses.next e })
  | .service e => ((w.services.changes e).map Delta.change, { w with services := w.services.next e })
  | .endpoints e =>
    ((w.endpoints.changes e).map Delta.change, { w with endpoints := w.endpoints.next e })
  | .secret e => ((w.secrets.changes e).map Delta.change, { w with secrets := w.secrets.next e })
  | .configMap e =>
    ((w.configMaps.changes e).map Delta.change, { w with configMaps := w.configMaps.next e })
  | .pod e => ((w.pods.changes e).map Delta.change, { w with pods := w.pods.next e })

end Watches

namespace WatchEvent

def apply : Watched → WatchEvent
  | .ingress o => .ingress (.apply o)
  | .service o => .service (.apply o)
  | .endpoints o => .endpoints (.apply o)
  | .secret o => .secret (.apply o)
  | .configMap o => .configMap (.apply o)
  | .pod o => .pod (.apply o)

def delete : Watched → WatchEvent
  | .ingress o => .ingress (.delete o)
  | .service o => .service (.delete o)
  | .endpoints o => .endpoints (.delete o)
  | .secret o => .secret (.delete o)
  | .configMap o => .configMap (.delete o)
  | .pod o => .pod (.delete o)

def initApply : Watched → WatchEvent
  | .ingress o => .ingress (.initApply o)
  | .service o => .service (.initApply o)
  | .endpoints o => .endpoints (.initApply o)
  | .secret o => .secret (.initApply o)
  | .configMap o => .configMap (.initApply o)
  | .pod o => .pod (.initApply o)

def init : Kind → WatchEvent
  | .ingress => .ingress .init
  | .service => .service .init
  | .endpoints => .endpoints .init
  | .secret => .secret .init
  | .configMap => .configMap .init
  | .pod => .pod .init

def initDone : Kind → WatchEvent
  | .ingress => .ingress .initDone
  | .service => .service .initDone
  | .endpoints => .endpoints .initDone
  | .secret => .secret .initDone
  | .configMap => .configMap .initDone
  | .pod => .pod .initDone

end WatchEvent

end IngressWatch
