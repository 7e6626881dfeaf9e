import IngressWatch.Startup

/-!
# The program

Starts with the arguments and variables of the process, prints what is logged, and ends with the
exit code that `IngressWatch.launch` gives.
-/

namespace IngressWatch

/-- The variables that the program looks at. -/
def Environment.consulted : List String :=
  CommandLine.rules.filterMap OptionRule.fromVariable
    ++ [Environment.podSpaceVariable, Environment.podNameVariable, UserAgent.overrideVariable]

/-- The variables of the process, as far as the program looks at them. -/
def Environment.ofProcess : IO Environment :=
  Environment.consulted.foldlM (fun env name => return match ← IO.getEnv name with
    | some value => env.insert name value
    | none => env) Dict.empty

end IngressWatch

open IngressWatch in
def main (args : List String) : IO UInt32 := do
  let env ← Environment.ofProcess
  match CommandLine.parse args env with
  | .error .version => IO.println s!"{programName} {programVersion}"
  | .error .help => IO.println CommandLine.usage
  | .error reason => IO.eprintln reason.text
  | .ok _ => pure ()
  let ending := launch args env
  for (level, line) in ending.log do
    IO.println s!"{level.label} {line}"
  if let some line := ending.errorLine then
    unless line = "" do IO.eprintln line
  return ending.code.toUInt32
