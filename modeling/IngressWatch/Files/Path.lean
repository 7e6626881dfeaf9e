/-!
# Paths

Paths are texts with slashes between their components.

* `Path.join`: a path below another. An absolute path stands for itself.
* `Path.components`: the names on the way, without empty ones and single dots.
-/

namespace IngressWatch.Path

/-- `rest` as seen from `base`. Nothing is added to an empty base or a slash at its end. -/
def join (base rest : String) : String :=
  if rest.toList.head? = some '/' then rest
  else if base = "" ∨ base.toList.getLast? = some '/' then base ++ rest
  else base ++ "/" ++ rest

def isAbsolute (path : String) : Bool := path.toList.head? = some '/'

/-- The pieces of a text between slashes. -/
def pieces (s : List Char) : List (List Char) :=
  s.foldr (fun c done => if c = '/' then [] :: done else
    match done with
    | [] => [[c]]
    | piece :: done => (c :: piece) :: done) [[]]

def components (path : String) : List String :=
  ((pieces path.toList).filter fun p => p ≠ [] ∧ p ≠ ['.']).map String.ofList

/-- What comes before the last slash. -/
def parent (path : String) : String :=
  String.ofList (((path.toList.reverse.dropWhile (· ≠ '/')).drop 1).reverse)

/-- The longest name of a file, in bytes. -/
def maxName : Nat := 255

/-- Paths must be shorter than this, in bytes. -/
def maxLength : Nat := 4096

/-- A name that a directory can hold. -/
def isName (name : String) : Bool := name.utf8ByteSize ≤ maxName

/-- A path that can be handed to the file system. -/
def isUsable (path : String) : Bool := path.utf8ByteSize < maxLength && '\x00' ∉ path.toList

end IngressWatch.Path
