import IngressWatch.Resource.Basic

/-!
# Settings

* `ClassFilter.accepts`: which ingresses belong to this controller.
* `Environment`: variables, and what they say about the running instance.
* `Settings`: what the caches and watches are set up with.
-/

namespace IngressWatch

namespace Entry

/-- Well-known entries of secrets. -/
def tlsCertificate : String := "tls.crt"
def tlsKey : String := "tls.key"
def caCertificate : String := "ca.crt"
def caRevocation : String := "ca.crl"
def dhParameters : String := "dhparam.pem"

end Entry

/-- The type of a secret that holds an issued certificate. -/
def tlsSecretType : String := "kubernetes.io/tls"

/-- The annotation that names an ingress's class where its specification does not. -/
def classAnnotation : String := "kubernetes.io/ingress.class"

def standardClass : String := "haproxy"
def standardAccountSecret : String := "acme-private-key"
def standardTokenMap : String := "acme-validation-tokens"
def standardDirectory : String := "/var/lib/ingress-cache/ssl"

/-- Milliseconds between the first change of a window and its notification. -/
def standardDelay : Nat := 500

/-- The namespace of a controller that is not told where it runs. -/
def fallbackSpace : String := "default"

/-- Decides which ingresses belong to this controller. -/
structure ClassFilter where
  className : String := standardClass
  /-- Whether ingresses that name no class belong to it. -/
  acceptUnclassed : Bool := true
deriving DecidableEq, Repr

/-- The class that an ingress names, in its specification or else by annotation. -/
def Ingress.className? (ingress : Ingress) : Option String :=
  (ingress.spec.bind (·.className)).or
    (ingress.metadata.annotations.bind fun a => a.get? classAnnotation)

def ClassFilter.accepts (filter : ClassFilter) (ingress : Ingress) : Bool :=
  match ingress.className? with
  | some name => name == filter.className
  | none => filter.acceptUnclassed

/-- The variables that are set. -/
abbrev Environment := Dict String

namespace Environment

def podSpaceVariable : String := "POD_NAMESPACE"
def podNameVariable : String := "POD_NAME"

/-- A variable that is set and not empty. -/
def filled? (env : Environment) (name : String) : Option String :=
  (env.get? name).bind fun v => if v = "" then none else some v

/-- The namespace in which the controller runs. -/
def controllerSpace (env : Environment) : String := (env.filled? podSpaceVariable).getD fallbackSpace

/-- The key of the pod that the controller runs in. -/
def ownPod (env : Environment) : Except Error Key :=
  match env.filled? podSpaceVariable, env.filled? podNameVariable with
  | some ns, some name => .ok ⟨ns, name⟩
  | _, _ => .error (.other s!"missing {podSpaceVariable} or {podNameVariable} envvar")

end Environment

structure Settings where
  /-- Whether references to secrets of other namespaces are followed. -/
  allowForeign : Bool
  /-- The config map with global options. -/
  globalMap : Option Key
  /-- The config map with exposed TCP services. -/
  tcpMap : Option Key
  /-- The secret with the ACME account key. -/
  accountSecret : Key
  /-- The config map with ACME challenge tokens. -/
  tokenMap : Key
  /-- The directory of credential files. -/
  directory : String
  /-- Milliseconds between the first change of a window and its notification. -/
  delay : Nat
  classFilter : ClassFilter
deriving DecidableEq, Repr

namespace Settings

/-- The standard settings of a controller that runs in `ns`. -/
def standard (ns : String) : Settings where
  allowForeign := false
  globalMap := none
  tcpMap := none
  accountSecret := ⟨ns, standardAccountSecret⟩
  tokenMap := ⟨ns, standardTokenMap⟩
  directory := standardDirectory
  delay := standardDelay
  classFilter := {}

def withAccountSecret (s : Settings) (ns reference : String) : Except Malformed Settings :=
  (Key.qualified ns reference).map fun key => { s with accountSecret := key }

def withTokenMap (s : Settings) (ns reference : String) : Except Malformed Settings :=
  (Key.qualified ns reference).map fun key => { s with tokenMap := key }

end Settings

end IngressWatch
