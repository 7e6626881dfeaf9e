import IngressWatch.CommandLine
import IngressWatch.LogFilter

/-!
# Starting the program

* `productName`: what the program calls itself.
* `UserAgent`: the name under which requests are sent.
* `launch`: how a start ends where no cluster configuration can be found.
-/

namespace IngressWatch

def programName : String := "ingress-cache"

def programVersion : String := "0.3.2"

def productName : String := programName ++ "/" ++ programVersion

namespace UserAgent

def overrideVariable : String := "INGRESS_CACHE_USER_AGENT"

/-- The variable wins over the program's own choice. -/
def effective (env : Environment) (custom : Option String) : Option String :=
  (env.filled? overrideVariable).or custom

/-- A header value holds no control characters but tabs. -/
def isHeaderValue (value : String) : Bool :=
  value.toList.all fun c => (32 ≤ c.toNat && c.toNat ≠ 127) || c = '\t'

/-- The header values that a client sends: one, or none when it can not be sent. -/
def sent (env : Environment) (custom : Option String) : List String :=
  ((effective env custom).filter isHeaderValue).toList

end UserAgent

/-- How a run ended: the exit code, the first line on standard error unless it is a usage error's,
and the lines logged. -/
structure Ending where
  code : Nat
  errorLine : Option String
  log : List (LogLevel × String)

/-- The name that the program's log lines carry. -/
def logTarget : String := "ingress_cache"

/-- Runs up to the point where a cluster configuration is needed, which can not be found. -/
def launch (args : List String) (env : Environment) : Ending :=
  match CommandLine.parse args env with
  | .error .help | .error .version => ⟨0, some "", []⟩
  | .error _ => ⟨2, none, []⟩
  | .ok options =>
    let (filter, left) := LogFilter.ofText options.logLevel
    let firstLine (line : String) : Option String :=
      match left with
      | [] => some line
      | (piece, complaint) :: _ => some s!"ignoring \x60{piece}\x60: {complaint.text}"
    let ns := env.controllerSpace
    match options.settings ns with
    | .error cause => ⟨1, firstLine s!"Error: {(Error.malformed cause).message}", []⟩
    | .ok _ =>
      let start := (LogLevel.info, s!"🚀 Starting {productName} in {ns}")
      ⟨1, firstLine "Error: failed to create kubernetes client",
        if filter.enables .info logTarget then [start] else []⟩

end IngressWatch
