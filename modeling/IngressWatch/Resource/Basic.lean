import IngressWatch.Bytes
import IngressWatch.Document
import IngressWatch.Key

/-!
# Watched objects

The kinds of objects that are watched, with the fields that decisions depend on. Fields that are
only carried along are kept as documents.

* `Metadata`: what every object has; `Metadata.key` is the key it goes by.
* `Resource`: the class of the six kinds.
* `Watched`: an object of any kind.
-/

namespace IngressWatch

inductive Kind where
  | ingress
  | service
  | endpoints
  | secret
  | configMap
  | pod
deriving DecidableEq, Repr

namespace Kind

/-- The name used in messages. -/
def label : Kind → String
  | ingress => "ingress"
  | service => "service"
  | endpoints => "endpoints"
  | secret => "secret"
  | configMap => "configmap"
  | pod => "pod"

/-- The name used in manifests. -/
def title : Kind → String
  | ingress => "Ingress"
  | service => "Service"
  | endpoints => "Endpoints"
  | secret => "Secret"
  | configMap => "ConfigMap"
  | pod => "Pod"

/-- The name used in request paths. -/
def plural : Kind → String
  | ingress => "ingresses"
  | service => "services"
  | endpoints => "endpoints"
  | secret => "secrets"
  | configMap => "configmaps"
  | pod => "pods"

/-- The version of the API that serves the kind. -/
def apiVersion : Kind → String
  | ingress => "networking.k8s.io/v1"
  | _ => "v1"

def all : List Kind := [ingress, service, endpoints, secret, configMap, pod]

end Kind

/-- Fields that are carried along. -/
abbrev Carried := List (String × Document)

structure Metadata where
  ns : Option String := none
  name : Option String := none
  generateName : Option String := none
  resourceVersion : Option String := none
  labels : Option (Dict String) := none
  annotations : Option (Dict String) := none
  /-- When deletion was requested, in Unix seconds. -/
  deletionTime : Option Int := none
  carried : Carried := []

namespace Metadata

/-- The namespace in which the object lives; empty when it names none. -/
def space (m : Metadata) : String := m.ns.getD ""

/-- The name, or the name it was generated from. -/
def title (m : Metadata) : String := (m.name.or m.generateName).getD ""

def key (m : Metadata) : Key := ⟨m.space, m.title⟩

/-- The metadata of a new object. -/
def ofKey (key : Key) : Metadata := { ns := some key.ns, name := some key.name }

end Metadata

/-- A kind of object with metadata. -/
class Resource (α : Type) where
  kind : Kind
  metadata : α → Metadata

namespace Resource

variable {α : Type} [Resource α]

def key (object : α) : Key := (metadata object).key

def space (object : α) : String := (metadata object).space

def title (object : α) : String := (metadata object).title

end Resource

structure IngressTls where
  secretName : Option String := none
  carried : Carried := []

structure IngressSpec where
  className : Option String := none
  tls : Option (List IngressTls) := none
  carried : Carried := []

structure Ingress where
  metadata : Metadata := {}
  spec : Option IngressSpec := none
  carried : Carried := []

structure ServiceSpec where
  selector : Option (Dict String) := none
  carried : Carried := []

structure Service where
  metadata : Metadata := {}
  spec : Option ServiceSpec := none
  carried : Carried := []

structure Endpoints where
  metadata : Metadata := {}
  carried : Carried := []

structure Secret where
  metadata : Metadata := {}
  /-- What the entries are for, such as `kubernetes.io/tls`. -/
  purpose : Option String := none
  data : Option (Dict Bytes) := none
  carried : Carried := []

structure ConfigMap where
  metadata : Metadata := {}
  data : Option (Dict String) := none
  carried : Carried := []

structure PodStatus where
  reason : Option String := none
  address : Option String := none
  carried : Carried := []

structure Pod where
  metadata : Metadata := {}
  status : Option PodStatus := none
  carried : Carried := []

instance : Resource Ingress := ⟨.ingress, Ingress.metadata⟩
instance : Resource Service := ⟨.service, Service.metadata⟩
instance : Resource Endpoints := ⟨.endpoints, Endpoints.metadata⟩
instance : Resource Secret := ⟨.secret, Secret.metadata⟩
instance : Resource ConfigMap := ⟨.configMap, ConfigMap.metadata⟩
instance : Resource Pod := ⟨.pod, Pod.metadata⟩

/-- The value of a secret's entry. -/
def Secret.value? (secret : Secret) (name : String) : Option Bytes :=
  secret.data.bind fun data => data.get? name

/-- The names of the secrets that hold an ingress's certificates. -/
def Ingress.tlsSecrets (ingress : Ingress) : List String :=
  ((ingress.spec.bind (·.tls)).getD []).filterMap (·.secretName)

/-- An object of any watched kind. -/
inductive Watched where
  | ingress (object : Ingress)
  | service (object : Service)
  | endpoints (object : Endpoints)
  | secret (object : Secret)
  | configMap (object : ConfigMap)
  | pod (object : Pod)

namespace Watched

def kind : Watched → Kind
  | ingress _ => .ingress
  | service _ => .service
  | endpoints _ => .endpoints
  | secret _ => .secret
  | configMap _ => .configMap
  | pod _ => .pod

def metadata : Watched → Metadata
  | ingress object => object.metadata
  | service object => object.metadata
  | endpoints object => object.metadata
  | secret object => object.metadata
  | configMap object => object.metadata
  | pod object => object.metadata

def key (object : Watched) : Key := object.metadata.key

end Watched

/-- Any object of the kind, as a watched object. -/
class Watchable (α : Type) extends Resource α where
  watched : α → Watched

instance : Watchable Ingress := ⟨.ingress⟩
instance : Watchable Service := ⟨.service⟩
instance : Watchable Endpoints := ⟨.endpoints⟩
instance : Watchable Secret := ⟨.secret⟩
instance : Watchable ConfigMap := ⟨.configMap⟩
instance : Watchable Pod := ⟨.pod⟩

end IngressWatch
