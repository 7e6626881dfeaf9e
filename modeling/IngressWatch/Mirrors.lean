import IngressWatch.Mirror

/-!
# The mirrors of all kinds

* `Mirrors.put`, `Mirrors.remove`: changes, each to the mirror of the object's kind.
* `Mirrors.ofList`: the mirrors of objects in order, later ones in place of earlier ones.
-/

namespace IngressWatch

/-- The mirrors of all kinds. -/
structure Mirrors where
  ingresses : Mirror Ingress := {}
  services : Mirror Service := {}
  endpoints : Mirror Endpoints := {}
  secrets : Mirror Secret := {}
  configMaps : Mirror ConfigMap := {}
  pods : Mirror Pod := {}

namespace Mirrors

def put (m : Mirrors) : Watched → Mirrors
  | .ingress o => { m with ingresses := m.ingresses.put o }
  | .service o => { m with services := m.services.put o }
  | .endpoints o => { m with endpoints := m.endpoints.put o }
  | .secret o => { m with secrets := m.secrets.put o }
  | .configMap o => { m with configMaps := m.configMaps.put o }
  | .pod o => { m with pods := m.pods.put o }

def remove (m : Mirrors) : Watched → Mirrors
  | .ingress o => { m with ingresses := m.ingresses.remove o }
  | .service o => { m with services := m.services.remove o }
  | .endpoints o => { m with endpoints := m.endpoints.remove o }
  | .secret o => { m with secrets := m.secrets.remove o }
  | .configMap o => { m with configMaps := m.configMaps.remove o }
  | .pod o => { m with pods := m.pods.remove o }

/-- The mirrored objects of one kind. -/
def objects (m : Mirrors) : Kind → List Watched
  | .ingress => m.ingresses.objects.map .ingress
  | .service => m.services.objects.map .service
  | .endpoints => m.endpoints.objects.map .endpoints
  | .secret => m.secrets.objects.map .secret
  | .configMap => m.configMaps.objects.map .configMap
  | .pod => m.pods.objects.map .pod

def ofList (objects : List Watched) : Mirrors := objects.foldl put {}

end Mirrors

end IngressWatch
