import IngressWatch.Error

/-!
# Object keys

A key names an object by its namespace and its name, and is written `namespace/name` or, without a
namespace, `name`.

* `Key.parse`, `Key.display`: reading and writing.
* `Key.qualified`: a reference as seen from a namespace.
* `Key.fileStem`: the form used in file names.
* `Key.sortUnique`: ascending order without repetitions.
-/

namespace IngressWatch

structure Key where
  /-- The namespace; empty when the key has none. -/
  ns : String
  name : String
deriving DecidableEq, Repr

namespace Key

/-- Reads a name, or a namespace and a name around a single slash. The name must not be empty. -/
def parse (text : String) : Except Malformed Key :=
  let chars := text.toList
  let first := chars.takeWhile (· ≠ '/')
  match chars.dropWhile (· ≠ '/') with
  | [] => if first = [] then .error (.keyName text) else .ok ⟨"", String.ofList first⟩
  | _ :: second =>
    if '/' ∈ second then .error (.keyFormat text)
    else if second = [] then .error (.keyName text)
    else .ok ⟨String.ofList first, String.ofList second⟩

def display (key : Key) : String := if key.ns = "" then key.name else key.ns ++ "/" ++ key.name

/-- The key with `ns` in place of a missing namespace. -/
def within (ns : String) (key : Key) : Key := if key.ns = "" then { key with ns := ns } else key

/-- Reads a reference; one without a namespace refers to an object in `ns`. -/
def qualified (ns : String) (reference : String) : Except Malformed Key :=
  (parse reference).map (within ns)

def fileStem (key : Key) : String := key.ns ++ "_" ++ key.name

/-- By namespace, then by name. -/
def le (a b : Key) : Bool := a.ns < b.ns || (a.ns == b.ns && a.name ≤ b.name)

def sortUnique (keys : List Key) : List Key := (keys.mergeSort le).eraseReps

end Key

end IngressWatch
