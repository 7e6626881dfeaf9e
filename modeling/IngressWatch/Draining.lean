import IngressWatch.Mirror
import IngressWatch.Selector

/-!
# Draining pods

Pods that are going away may still serve connections for a while.

* `Pod.isTerminating`: a pod that is being deleted, was not lost with its node, and has an address.
* `terminatingPods`: those that a service selects in its namespace.
-/

namespace IngressWatch

/-- The reason of a pod that was lost with its node. -/
def nodeLost : String := "NodeLost"

namespace Pod

def reason (pod : Pod) : String := (pod.status.bind (·.reason)).getD ""

def address (pod : Pod) : String := (pod.status.bind (·.address)).getD ""

def isTerminating (pod : Pod) : Bool :=
  pod.metadata.deletionTime.isSome && pod.reason ≠ nodeLost && pod.address ≠ ""

end Pod

/-- The selector of a service; empty when it has none. -/
def Service.selectorTerms (service : Service) : Dict String :=
  (service.spec.bind (·.selector)).getD Dict.empty

/-- The terminating pods that a service selects. A service without a selector selects none. -/
def terminatingPods (pods : Mirror Pod) (service : Service) : Except Malformed (List Pod) :=
  match Selector.ofTerms service.selectorTerms with
  | .error cause => .error cause
  | .ok selector =>
    if selector.isEmpty then .ok []
    else .ok ((pods.inNamespace (Resource.space service)).filter fun pod =>
      selector.accepts pod.metadata.labels && pod.isTerminating)

end IngressWatch
