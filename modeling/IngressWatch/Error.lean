/-!
# Errors

What can go wrong, as causes. The wording of each cause is `Error.message`.

* `Malformed`: content that can not be read.
* `Error.message`: the display text. It ends where the text of an outer cause would begin.
* `Error.isRetryable`: only failures of the API server may pass on their own.
-/

namespace IngressWatch

/-- Content that can not be read. -/
inductive Malformed where
  /-- More than one separator in an object key. -/
  | keyFormat (key : String)
  /-- An object key without a name. -/
  | keyName (key : String)
  /-- A label selector with a term that is empty or holds a separator. -/
  | selectorTerm (key value : String)
  /-- No PEM block where `what` was expected. -/
  | pem (what : String)
  | certificate
  /-- No private key in a PEM text. -/
  | privateKey
  /-- A private key that can not be used. -/
  | unusableKey
  | accountKey
  | other (text : String)
deriving DecidableEq, Repr

def Malformed.text : Malformed → String
  | .keyFormat key => s!"unexpected key format: '{key}'"
  | .keyName key => s!"missing object name in key '{key}'"
  | .selectorTerm key value => s!"invalid label selector term '{key}={value}'"
  | .pem what => s!"{what} is not valid PEM"
  | .certificate => "invalid x509 certificate"
  | .privateKey => "invalid private key"
  | .unusableKey => "unsupported private key"
  | .accountKey => "invalid account key"
  | .other text => text

inductive Error where
  | malformed (cause : Malformed)
  /-- An object that is missing, or an entry of a secret that is. -/
  | notFound (ns name : String) (entry : Option String)
  /-- A reference to another namespace while such references are not allowed. -/
  | foreignReference (reference ns : String)
  /-- A write that the API server did not accept. -/
  | remoteWrite (ns name : String)
  | fileSystem
  /-- No usable cluster configuration. -/
  | clusterConfig
  | apiServer
  | httpHeader
  | other (text : String)
deriving DecidableEq, Repr

namespace Error

/-- This library's own words for an error. -/
def summary : Error → String
  | malformed cause => s!"parse error: {cause.text}"
  | notFound ns name none => s!"'{ns}/{name}' not found"
  | notFound ns name (some entry) => s!"secret '{ns}/{name}' does not have key '{entry}'"
  | foreignReference reference ns =>
    s!"trying to read secret '{reference}' from namespace '{ns}', but cross-namespace reading is disabled"
  | remoteWrite ns name => s!"error writing '{ns}/{name}'"
  | fileSystem => "i/o error"
  | clusterConfig => "cannot infer kubernetes config"
  | apiServer => "kubernetes api error"
  | httpHeader => "invalid http header"
  | other text => text

/-- Whether the error was caused by one outside this library. -/
def hasCause : Error → Bool
  | remoteWrite _ _ | fileSystem | clusterConfig | apiServer | httpHeader => true
  | _ => false

/-- The display text, up to where the text of an outer cause begins. -/
def message (e : Error) : String := if e.hasCause then e.summary ++ ": " else e.summary

def isRetryable : Error → Bool
  | remoteWrite _ _ | apiServer => true
  | _ => false

end Error

end IngressWatch
