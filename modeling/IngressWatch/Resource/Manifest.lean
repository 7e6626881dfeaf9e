import IngressWatch.Base64
import IngressWatch.Calendar
import IngressWatch.Resource.Basic

/-!
# Manifests

Objects as documents. Fields that a kind does not have are dropped when it is read, and fields
without a value are not written.

* `Manifest`: the class of kinds that are read and written; `Manifest.document` is the written
  form.
* `Watched.ofDocument?`: an object of the kind that its document names.
-/

namespace IngressWatch

open Schema

/-- Kinds that are read from a document and written as the fields of one. -/
class Manifest (α : Type) extends Watchable α where
  ofDocument : Document → α
  fields : α → List (String × Document)

def timeOf? (d : Document) : Option Int := d.text?.bind ofRfc3339?

def writeTime (seconds : Int) : Document := .text (utcText seconds)

def bytesOf? (d : Document) : Option Bytes := d.text?.bind Base64.decodeText

def writeBytes (b : Bytes) : Document := .text (Base64.encodeText b)

namespace Schema

def time : Schema := via fun d => (timeOf? d).map writeTime
def bytes : Schema := via fun d => (bytesOf? d).map writeBytes

def noText : Document := .text ""
def zero : Document := .number 0
def noList : Document := .list []
def noObject : Document := .object []

def ownerReference : Schema :=
  record [must "apiVersion" any noText, may "blockOwnerDeletion" any, may "controller" any,
    must "kind" any noText, must "name" any noText, must "uid" any noText]

def managedFields : Schema :=
  record (may "time" time ::
    plain ["apiVersion", "fieldsType", "fieldsV1", "manager", "operation", "subresource"])

/-- The metadata that is carried along. -/
def metadata : List (String × Schema × Option Document) :=
  [may "creationTimestamp" time, may "ownerReferences" (list ownerReference),
    may "managedFields" (list managedFields)]
    ++ plain ["deletionGracePeriodSeconds", "finalizers", "generation", "selfLink", "uid"]

def backend : Schema :=
  let resource := record [may "apiGroup" any, must "kind" any noText, must "name" any noText]
  let service := record [must "name" any noText, may "port" (record (plain ["name", "number"]))]
  record [may "resource" resource, may "service" service]

def ingressPath : Schema :=
  record [must "backend" backend noObject, may "path" any, must "pathType" any noText]

def ingressRule : Schema :=
  record [may "host" any, may "http" (record [must "paths" (list ingressPath) noList])]

def ingressSpec : List (String × Schema × Option Document) :=
  [may "defaultBackend" backend, may "rules" (list ingressRule)]

def portStatus : Schema :=
  record [may "error" any, must "port" any zero, must "protocol" any noText]

def loadBalancer : Schema :=
  record [may "ingress" (list (record (may "ports" (list portStatus) ::
    plain ["hostname", "ip", "ipMode"])))]

def condition : Schema :=
  record [must "lastTransitionTime" time (writeTime 0), must "message" any noText,
    may "observedGeneration" any, must "reason" any noText, must "status" any noText,
    must "type" any noText]

def servicePort : Schema :=
  record (must "port" any zero :: plain ["appProtocol", "name", "nodePort", "protocol",
    "targetPort"])

def serviceSpec : List (String × Schema × Option Document) :=
  [may "ports" (list servicePort),
    may "sessionAffinityConfig" (record [may "clientIP" (record (plain ["timeoutSeconds"]))])]
    ++ plain ["allocateLoadBalancerNodePorts", "clusterIP", "clusterIPs", "externalIPs",
      "externalName", "externalTrafficPolicy", "healthCheckNodePort", "internalTrafficPolicy",
      "ipFamilies", "ipFamilyPolicy", "loadBalancerClass", "loadBalancerIP",
      "loadBalancerSourceRanges", "publishNotReadyAddresses", "sessionAffinity",
      "trafficDistribution", "type"]

def endpointAddress : Schema :=
  record [may "hostname" any, must "ip" any noText, may "nodeName" any,
    may "targetRef" (record (plain ["apiVersion", "fieldPath", "kind", "name", "namespace",
      "resourceVersion", "uid"]))]

def endpointSubset : Schema :=
  record [may "addresses" (list endpointAddress), may "notReadyAddresses" (list endpointAddress),
    may "ports" (list (record (must "port" any zero :: plain ["appProtocol", "name", "protocol"])))]

end Schema

namespace Metadata

def ofDocument (d : Document) : Metadata where
  ns := d.textField? "namespace"
  name := d.textField? "name"
  generateName := d.textField? "generateName"
  resourceVersion := d.textField? "resourceVersion"
  labels := (d.field? "labels").bind Document.textDict?
  annotations := (d.field? "annotations").bind Document.textDict?
  deletionTime := (d.field? "deletionTimestamp").bind timeOf?
  carried := normalizeFields Schema.metadata d

def document (m : Metadata) : Document :=
  .object (Document.optionalField "namespace" (m.ns.map .text)
    ++ Document.optionalField "name" (m.name.map .text)
    ++ Document.optionalField "generateName" (m.generateName.map .text)
    ++ Document.optionalField "resourceVersion" (m.resourceVersion.map .text)
    ++ Document.optionalField "labels" (m.labels.map .ofTextDict)
    ++ Document.optionalField "annotations" (m.annotations.map .ofTextDict)
    ++ Document.optionalField "deletionTimestamp" (m.deletionTime.map writeTime)
    ++ m.carried)

end Metadata

/-- The metadata of an object's document, empty when it has none. -/
def metadataOf (d : Document) : Metadata := Metadata.ofDocument ((d.field? "metadata").getD .null)

namespace IngressTls

def ofDocument (d : Document) : IngressTls :=
  ⟨d.textField? "secretName", normalizeFields (plain ["hosts"]) d⟩

def document (t : IngressTls) : Document :=
  .object (Document.optionalField "secretName" (t.secretName.map .text) ++ t.carried)

end IngressTls

namespace IngressSpec

def ofDocument (d : Document) : IngressSpec where
  className := d.textField? "ingressClassName"
  tls := ((d.field? "tls").bind Document.items?).map (·.map IngressTls.ofDocument)
  carried := normalizeFields Schema.ingressSpec d

def document (s : IngressSpec) : Document :=
  .object (Document.optionalField "ingressClassName" (s.className.map .text)
    ++ Document.optionalField "tls" (s.tls.map fun tls => .list (tls.map IngressTls.document))
    ++ s.carried)

end IngressSpec

namespace ServiceSpec

def ofDocument (d : Document) : ServiceSpec :=
  ⟨(d.field? "selector").bind Document.textDict?, normalizeFields Schema.serviceSpec d⟩

def document (s : ServiceSpec) : Document :=
  .object (Document.optionalField "selector" (s.selector.map .ofTextDict) ++ s.carried)

end ServiceSpec

namespace PodStatus

/-- Fields of a status that have a typed place. -/
def typed : List String := ["reason", "podIP"]

def ofDocument (d : Document) : PodStatus where
  reason := d.textField? "reason"
  address := d.textField? "podIP"
  carried := (normalizeFields [may "startTime" time] d) ++
    d.fields.filter fun e => !e.2.isNull && e.1 ∉ "startTime" :: typed

def document (s : PodStatus) : Document :=
  .object (Document.optionalField "reason" (s.reason.map .text)
    ++ Document.optionalField "podIP" (s.address.map .text) ++ s.carried)

end PodStatus

instance : Manifest Ingress where
  ofDocument d := ⟨metadataOf d, (d.field? "spec").map IngressSpec.ofDocument,
    normalizeFields [may "status" (record [may "loadBalancer" loadBalancer])] d⟩
  fields o := Document.optionalField "spec" (o.spec.map IngressSpec.document) ++ o.carried

instance : Manifest Service where
  ofDocument d := ⟨metadataOf d, (d.field? "spec").map ServiceSpec.ofDocument,
    normalizeFields [may "status" (record [may "conditions" (list condition),
      may "loadBalancer" loadBalancer])] d⟩
  fields o := Document.optionalField "spec" (o.spec.map ServiceSpec.document) ++ o.carried

instance : Manifest Endpoints where
  ofDocument d := ⟨metadataOf d, normalizeFields [may "subsets" (list endpointSubset)] d⟩
  fields o := o.carried

instance : Manifest Secret where
  ofDocument d := ⟨metadataOf d, d.textField? "type",
    (d.field? "data").bind (Document.dict? bytesOf?),
    normalizeFields (plain ["immutable", "stringData"]) d⟩
  fields o := Document.optionalField "type" (o.purpose.map .text)
    ++ Document.optionalField "data" (o.data.map (.ofDict writeBytes)) ++ o.carried

instance : Manifest ConfigMap where
  ofDocument d := ⟨metadataOf d, (d.field? "data").bind Document.textDict?,
    normalizeFields [may "binaryData" (map bytes), may "immutable" any] d⟩
  fields o := Document.optionalField "data" (o.data.map .ofTextDict) ++ o.carried

instance : Manifest Pod where
  ofDocument d := ⟨metadataOf d, (d.field? "status").map PodStatus.ofDocument,
    normalizeFields [may "spec" (openRecord [must "containers" any noList])] d⟩
  fields o := Document.optionalField "status" (o.status.map PodStatus.document) ++ o.carried

namespace Manifest

/-- The whole manifest of an object. -/
def document {α : Type} [Manifest α] (object : α) : Document :=
  let kind := Resource.kind α
  .object (("apiVersion", .text kind.apiVersion) :: ("kind", .text kind.title)
    :: ("metadata", (Resource.metadata object).document) :: fields object)

end Manifest

namespace Watched

/-- The object of kind `kind` that a document holds. -/
def ofDocument (kind : Kind) (d : Document) : Watched :=
  match kind with
  | .ingress => .ingress (Manifest.ofDocument d)
  | .service => .service (Manifest.ofDocument d)
  | .endpoints => .endpoints (Manifest.ofDocument d)
  | .secret => .secret (Manifest.ofDocument d)
  | .configMap => .configMap (Manifest.ofDocument d)
  | .pod => .pod (Manifest.ofDocument d)

/-- The object that a document holds, of the kind that it names. -/
def ofDocument? (d : Document) : Option Watched := do
  let title ← d.textField? "kind"
  let kind ← Kind.all.find? (·.title = title)
  return ofDocument kind d

def document : Watched → Document
  | ingress object => Manifest.document object
  | service object => Manifest.document object
  | endpoints object => Manifest.document object
  | secret object => Manifest.document object
  | configMap object => Manifest.document object
  | pod object => Manifest.document object

end Watched

end IngressWatch
