import IngressWatch.LogFilter
import IngressWatch.Lookup
import IngressWatch.Resolver
import IngressWatch.Window

/-!
# Reports

After a sync the controller resolves what the changed objects refer to and logs a line for each
outcome.

* `Report.run`: the lines of a snapshot, in order, and the store after all files are written.
* `Report.configLine`, `Report.tlsLine`, `Report.secretLine`, `Report.serviceLine`: the lines of
  single objects.
-/

namespace IngressWatch

abbrev LogLine := LogLevel × String

namespace Report

variable {checks : TlsChecks}

/-- The line of a config map whose content changed. -/
def configLine (title : String) (view : ConfigView) : Option LogLine :=
  if view.changed then
    view.effective.map fun data => (.info, s!"⚙️  {title} config now has {data.size} entries")
  else none

/-- Resolves one certificate of an ingress. -/
def tlsLine (r : Resolver checks) (store : CredentialStore) (ingress : Ingress)
    (reference : String) : LogLine × CredentialStore :=
  let ns := Resource.space ingress
  let owner := ns ++ "/" ++ Resource.title ingress
  let (result, store) := r.tls store ns reference
  let line := match result with
    | .ok tls => (LogLevel.info, s!"🔐 {owner} uses {tls.file.path} "
        ++ s!"(CN={tls.identity.commonName}, expires {tls.identity.notAfter.text})")
    | .error e => (LogLevel.warn, s!"{owner}: {e.summary}")
  (line, store)

/-- Resolves a secret that holds a certificate. A line is due only when it can not be used. -/
def secretLine (r : Resolver checks) (store : CredentialStore) (secret : Secret) :
    Option LogLine × CredentialStore :=
  if (secret.value? Entry.tlsCertificate).isNone then (none, store)
  else
    let key := (Resource.key secret).display
    let (result, store) := r.tls store "" key
    let line := match result with
      | .ok _ => none
      | .error e => some (LogLevel.warn, s!"Secret {key} holds unusable TLS material: {e.summary}")
    (line, store)

/-- Counts the draining pods of a service. A line is due when there are some or none can be
found. -/
def serviceLine (pods : Mirror Pod) (service : Service) : Option LogLine :=
  match terminatingPods pods service with
  | .ok [] => none
  | .ok pods =>
    some (.info, s!"⏳ {pods.length} pods of {Resource.space service}/{Resource.title service} draining")
  | .error cause =>
    some (.warn, s!"Service {Resource.title service}: {(Error.malformed cause).summary}")

/-- Lines that are made one after the other with a store. -/
def lines {α : Type} (line : CredentialStore → α → List LogLine × CredentialStore)
    (store : CredentialStore) : List α → List LogLine × CredentialStore
  | [] => ([], store)
  | a :: rest =>
    let (first, store) := line store a
    let (others, store) := lines line store rest
    (first ++ others, store)

/-- The ingresses that a report is about: all of them after a resync request. -/
def ingresses (snapshot : Snapshot) (mirrors : Mirrors) : List Ingress :=
  if snapshot.resync then mirrors.ingresses.objects else snapshot.ingresses.present

/-- The references of ingresses to secrets with certificates, in order. -/
def references (ingresses : List Ingress) : List (Ingress × String) :=
  ingresses.flatMap fun i => i.tlsSecrets.map fun reference => (i, reference)

/-- The report of a snapshot on the mirrors that `mirrors` holds. -/
def run (snapshot : Snapshot) (allowForeign : Bool) (mirrors : Mirrors) (store : CredentialStore)
    (checks : TlsChecks := pemChecks) : List LogLine × CredentialStore :=
  let r : Resolver checks := ⟨allowForeign, mirrors.secrets⟩
  let configs := (configLine "Global" snapshot.globalConfig).toList
    ++ (configLine "TCP services" snapshot.tcpConfig).toList
  let (tls, store) := lines (fun store p =>
    let (line, store) := tlsLine r store p.1 p.2
    ([line], store)) store (references (ingresses snapshot mirrors))
  let (secrets, store) := lines (fun store secret =>
    let (line, store) := secretLine r store secret
    (line.toList, store)) store snapshot.secrets.present
  let services := snapshot.services.present.flatMap fun s => (serviceLine mirrors.pods s).toList
  (configs ++ tls ++ secrets ++ services, store)

end Report

end IngressWatch
