import IngressWatch.Settings

/-!
# The command line

* `CommandLine.parse`: the options given by arguments, else by variables, else by default.
* `UsageError`: why arguments are refused, or that help or the version was asked for.
* `CommandLine.usage`: the text that help shows.
* `Options.settings`: the settings of a controller that runs in a given namespace.
-/

namespace IngressWatch

inductive UsageError where
  | unknownArgument
  /-- A value that is missing or not one of those allowed. -/
  | invalidValue
  /-- A value that can not be read. -/
  | unreadableValue
  /-- An option given twice. -/
  | repeated
  /-- A value for an option that takes none. -/
  | unexpectedValue
  | help
  | version
deriving DecidableEq, Repr

def UsageError.text : UsageError → String
  | unknownArgument => "unknown argument"
  | invalidValue => "value missing or not allowed"
  | unreadableValue => "value can not be read"
  | repeated => "option given twice"
  | unexpectedValue => "value for an option that takes none"
  | help => "help asked for"
  | version => "version asked for"

/-- What an option does with its value. -/
inductive OptionShape where
  | flag
  | text
  | path
  | count
  | help
  | version
deriving DecidableEq, Repr

structure OptionRule where
  name : String
  letter : Option Char
  fromVariable : Option String
  shape : OptionShape

structure Options where
  ns : Option String
  allowForeign : Bool
  globalMap : Option String
  tcpMap : Option String
  accountSecret : String
  tokenMap : String
  acme : Bool
  className : String
  ignoreUnclassed : Bool
  directory : String
  /-- Seconds between forced syncs. -/
  resyncInterval : Nat
  logLevel : String
deriving DecidableEq, Repr

namespace CommandLine

def rules : List OptionRule :=
  [⟨"namespace", some 'n', some "WATCH_NAMESPACE", .text⟩,
   ⟨"allow-cross-namespace", none, some "ALLOW_CROSS_NAMESPACE", .flag⟩,
   ⟨"configmap", none, none, .text⟩,
   ⟨"tcp-services-configmap", none, none, .text⟩,
   ⟨"acme-secret-key-name", none, none, .text⟩,
   ⟨"acme-token-configmap-name", none, none, .text⟩,
   ⟨"acme", none, none, .flag⟩,
   ⟨"ingress-class", none, none, .text⟩,
   ⟨"ignore-ingress-without-class", none, none, .flag⟩,
   ⟨"certificate-dir", none, none, .path⟩,
   ⟨"resync-interval", none, none, .count⟩,
   ⟨"log-level", none, some "LOG_LEVEL", .text⟩,
   ⟨"help", some 'h', none, .help⟩,
   ⟨"version", some 'V', none, .version⟩]

/-- The options, one to a line. -/
def usage : String :=
  "\n".intercalate (rules.map fun rule =>
    (rule.letter.map fun c => s!"-{c} ").getD "   " ++ "--" ++ rule.name ++
      (if rule.shape ∈ [OptionShape.text, .path, .count] then " VALUE" else ""))

/-- A decimal number below 2⁶⁴, with or without a plus sign. -/
def count? (text : String) : Option Nat :=
  let digits : List Char := match text.toList with
    | '+' :: rest => rest
    | chars => chars
  let value : Nat := digits.foldl (fun n c => 10 * n + (c.toNat - 48)) 0
  if digits ≠ [] ∧ digits.all Char.isDigit ∧ value < UInt64.size then some value else none

/-- Whether a rule refuses a value. -/
def refusal? (shape : OptionShape) (value : String) : Option UsageError :=
  match shape with
  | .flag => if value = "true" ∨ value = "false" then none else some .invalidValue
  | .path => if value = "" then some .invalidValue else none
  | .count => if (count? value).isNone then some .unreadableValue else none
  | .text | .help | .version => none

/-- Values that are settled, and an option whose value is not: it may still be to come, and it is
only looked at when something follows. -/
structure Progress where
  given : List (String × String)
  pending : Option (OptionRule × Option String)

/-- Records a value. -/
def record (given : List (String × String)) (rule : OptionRule) (value : String) :
    Except UsageError (List (String × String)) :=
  if (given.lookup rule.name).isSome then .error .repeated
  else match refusal? rule.shape value with
    | some e => .error e
    | none => .ok ((rule.name, value) :: given)

/-- Settles the pending option. -/
def settle (p : Progress) : Except UsageError (List (String × String)) :=
  match p.pending with
  | none => .ok p.given
  | some (_, none) => .error .invalidValue
  | some (rule, some value) => record p.given rule value

/-- Takes an option with the value attached to it, if one is. -/
def take (p : Progress) (rule : OptionRule) (attached : Option String) :
    Except UsageError Progress :=
  let takesValue := rule.shape ∈ [OptionShape.text, .path, .count]
  if ¬takesValue ∧ attached.isSome then .error .unexpectedValue
  else do
    let given ← settle p
    match rule.shape, attached with
    | .help, _ => .error .help
    | .version, _ => .error .version
    | .flag, _ => return ⟨← record given rule "true", none⟩
    | _, some value => return ⟨← record given rule value, none⟩
    | _, none => return ⟨given, some (rule, none)⟩

/-- One argument that is not the separator. -/
def step (p : Progress) (arg : List Char) : Except UsageError Progress :=
  match arg with
  | '-' :: '-' :: long =>
    let name := long.takeWhile (· ≠ '=')
    let attached := match long.dropWhile (· ≠ '=') with
      | _ :: value => some (String.ofList value)
      | [] => none
    match rules.find? (·.name = String.ofList name) with
    | none => .error .unknownArgument
    | some rule => take p rule attached
  | '-' :: letter :: rest =>
    match rules.find? (·.letter = some letter) with
    | none => .error .unknownArgument
    | some rule =>
      let attached := match rest with
        | [] => none
        | '=' :: value => some (String.ofList value)
        | value => some (String.ofList value)
      take p rule (if rule.shape = .text then attached else none)
  | value =>
    match p.pending with
    | some (rule, none) => .ok { p with pending := some (rule, some (String.ofList value)) }
    | _ => .error .unknownArgument

/-- All arguments. Nothing may follow the separator `--`. -/
def run (p : Progress) : List String → Except UsageError (List (String × String))
  | [] => settle p
  | arg :: rest =>
    if arg = "--" then if rest = [] then settle p else .error .unknownArgument
    else do run (← step p arg.toList) rest

/-- Adds the variable of an option that was not given. -/
def addVariable (env : Environment) (given : List (String × String)) (rule : OptionRule) :
    Except UsageError (List (String × String)) :=
  match given.lookup rule.name, rule.fromVariable.bind env.get? with
  | none, some value => record given rule value
  | _, _ => .ok given

def parse (args : List String) (env : Environment) : Except UsageError Options := do
  let given ← rules.foldlM (addVariable env) (← run ⟨[], none⟩ args)
  let text (name standard : String) := (given.lookup name).getD standard
  let flag (name : String) := given.lookup name = some "true"
  return {
    ns := given.lookup "namespace"
    allowForeign := flag "allow-cross-namespace"
    globalMap := given.lookup "configmap"
    tcpMap := given.lookup "tcp-services-configmap"
    accountSecret := text "acme-secret-key-name" standardAccountSecret
    tokenMap := text "acme-token-configmap-name" standardTokenMap
    acme := flag "acme"
    className := text "ingress-class" standardClass
    ignoreUnclassed := flag "ignore-ingress-without-class"
    directory := text "certificate-dir" standardDirectory
    resyncInterval := ((given.lookup "resync-interval").bind count?).getD 60
    logLevel := text "log-level" "info" }

end CommandLine

/-- The settings of a controller that runs in `ns`. -/
def Options.settings (o : Options) (ns : String) : Except Malformed Settings := do
  let s ← (Settings.standard ns).withAccountSecret ns o.accountSecret
  let s ← s.withTokenMap ns o.tokenMap
  let globalMap ← o.globalMap.mapM (Key.qualified ns)
  let tcpMap ← o.tcpMap.mapM (Key.qualified ns)
  return { s with
    allowForeign := o.allowForeign
    globalMap, tcpMap
    directory := o.directory
    classFilter := ⟨o.className, !o.ignoreUnclassed⟩ }

end IngressWatch
