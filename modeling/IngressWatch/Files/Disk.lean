import IngressWatch.Bytes
import IngressWatch.Error
import IngressWatch.Files.Path
import IngressWatch.Table

/-!
# The file system

A tree of directories and files. Any step may be refused, as on a full or broken disk.

* `Disk.locate`: where a path leads.
* `Disk.read`, `Disk.makeDirectories`, `Disk.replace`, `Disk.remove`: the operations that credential
  files need. `Disk.replace` writes a draft first and puts it in place when it is complete.
* `Disk.put`: what someone else does to a file.
* `Disk.renewed`: the files that are not the ones they were before.
-/

namespace IngressWatch

/-- The names on the way from the root. -/
abbrev Location := List String

/-- A file with its content and a number that no other file has. -/
inductive Node where
  | directory
  | file (content : Bytes) (number : Nat)
deriving DecidableEq, Repr

/-- What can be refused. -/
inductive FileStep where
  | read (path : String)
  | makeDirectory (path : Location)
  | createDraft (directory : String)
  | writeDraft (content : Bytes)
  | syncDraft
  | rename (path : String)
  | remove (path : String)
deriving DecidableEq, Repr

structure Disk where
  nodes : Table Location Node
  /-- The current directory. -/
  home : Location := ["home"]
  /-- How many files were created. -/
  created : Nat := 0
  /-- How many steps were taken. -/
  steps : Nat := 0
  /-- Whether a step is refused, by its number. -/
  refuses : Nat → FileStep → Bool := fun _ _ => false

/-- Where a path leads. -/
inductive Found where
  | at (location : Location)
  /-- A directory on the way does not exist. -/
  | missing
  /-- Something on the way is no directory, or a name or the path is not allowed. -/
  | blocked
deriving DecidableEq, Repr

namespace Disk

/-- An empty file system with its current directory. -/
def empty : Disk where
  nodes := (Table.empty.insert [] .directory).insert ["home"] .directory

def node? (d : Disk) (l : Location) : Option Node := d.nodes.get? l

/-- Follows names from a directory. Only the last may lead to something that does not exist. -/
def follow (d : Disk) (l : Location) : List String → Found
  | [] => .at l
  | name :: rest =>
    match d.node? l with
    | none => .missing
    | some (.file _ _) => .blocked
    | some .directory =>
      if name = ".." then follow d l.dropLast rest
      else if Path.isName name then follow d (l ++ [name]) rest
      else .blocked

/-- Where names lead from the root or the current directory. -/
def locateNames (d : Disk) (absolute : Bool) (names : List String) : Found :=
  d.follow (if absolute then [] else d.home) names

def locate (d : Disk) (path : String) : Found :=
  if Path.isUsable path then d.locateNames (Path.isAbsolute path) (Path.components path)
  else .blocked

/-- What stands at the end of a path. -/
def nodeAt? (d : Disk) (path : String) : Option Node :=
  match d.locate path with
  | .at l => d.node? l
  | _ => none

/-- Counts a step, and tells whether it is refused. -/
def attempt (d : Disk) (s : FileStep) : Bool × Disk :=
  (d.refuses d.steps s, { d with steps := d.steps + 1 })

/-- The content of a file, if it can be read. -/
def read (d : Disk) (path : String) : Option Bytes × Disk :=
  let (refused, d') := d.attempt (.read path)
  match refused, d.nodeAt? path with
  | false, some (.file content _) => (some content, d')
  | _, _ => (none, d')

/-- Why a directory was not made, or that it was. -/
inductive Made where
  | made
  | missing
  | failed

/-- Makes one directory in one that exists. -/
def makeDirectory (d : Disk) (absolute : Bool) (names : List String) : Made × Disk :=
  let (refused, d) := d.attempt (.makeDirectory names)
  match refused, d.locateNames absolute names with
  | true, _ => (.failed, d)
  | false, .missing => (.missing, d)
  | false, .blocked => (.failed, d)
  | false, .at l =>
    if names.getLast? = some ".." then (.failed, d)
    else match d.node? l with
      | some _ => (.failed, d)
      | none => (.made, { d with nodes := d.nodes.insert l .directory })

def isDirectory (d : Disk) (absolute : Bool) (names : List String) : Bool :=
  match d.locateNames absolute names with
  | .at l => d.node? l = some .directory
  | _ => false

/-- Makes a directory and, where needed, those above it. `names` come last first. -/
def makeAll (d : Disk) (absolute : Bool) : (names : List String) → Bool × Disk
  | [] => (true, d)
  | name :: above =>
    let path := (name :: above).reverse
    match d.makeDirectory absolute path with
    | (.made, d) => (true, d)
    | (.failed, d) => (d.isDirectory absolute path, d)
    | (.missing, d) =>
      match makeAll d absolute above with
      | (false, d) => (false, d)
      | (true, d) =>
        match d.makeDirectory absolute path with
        | (.made, d) => (true, d)
        | (_, d) => (d.isDirectory absolute path, d)

/-- The names of a path but the last. -/
def parentNames (path : String) : List String := (Path.components path).dropLast

/-- Makes the directory in which `path` stands. -/
def makeParents (d : Disk) (path : String) : Bool × Disk :=
  if Path.isUsable (Path.parent path) then d.makeAll (Path.isAbsolute path) (parentNames path).reverse
  else (false, d)

/-- Puts a new file in place. -/
def place (d : Disk) (l : Location) (content : Bytes) : Disk :=
  { d with nodes := d.nodes.insert l (.file content d.created), created := d.created + 1 }

/-- Where a draft may be put in place: at the name of a file or of nothing. -/
def target? (d : Disk) (path : String) : Option Location :=
  match d.locate path with
  | .at l => if d.node? l = some .directory then none else some l
  | _ => none

/-- The length of a draft's name with the slash before it. -/
def draftLength : Nat := 11

/-- Whether a draft can stand beside `path`. -/
def hasDraft (path : String) : Bool :=
  (Path.parent path).utf8ByteSize + draftLength < Path.maxLength

/-- Writes a draft beside `path` and puts it in place. A draft that is not completed is gone. -/
def replace (d : Disk) (path : String) (content : Bytes) : Bool × Disk :=
  let (r1, d) := d.attempt (.createDraft path)
  if r1 || !hasDraft path then (false, d) else
  let (r2, d) := d.attempt (.writeDraft content)
  if r2 then (false, d) else
  let (r3, d) := d.attempt .syncDraft
  if r3 then (false, d) else
  let (r4, d) := d.attempt (.rename path)
  if r4 then (false, d) else
  match d.target? path with
  | some l => (true, d.place l content)
  | none => (false, d)

/-- Removes a file. Nothing happens when there is none or the removal is refused. -/
def remove (d : Disk) (path : String) : Disk :=
  let (refused, d') := d.attempt (.remove path)
  match refused, d.locate path with
  | false, .at l =>
    match d.node? l with
    | some (.file _ _) => { d' with nodes := d'.nodes.erase l }
    | _ => d'
  | _, _ => d'

/-- Someone else writes a file: a new one, or new content of one that is there. -/
def put (d : Disk) (path : String) (content : Bytes) : Disk :=
  let d := (d.makeParents path).2
  match d.target? path with
  | none => d
  | some l =>
    match d.node? l with
    | some (.file _ number) => { d with nodes := d.nodes.insert l (.file content number) }
    | _ => d.place l content

/-- Someone else makes a directory. -/
def makeDirectories (d : Disk) (path : String) : Disk :=
  (d.makeAll (Path.isAbsolute path) (Path.components path).reverse).2

/-- The files at whose place there was no file or another one before. -/
def renewed (before after : Disk) : List Location :=
  after.nodes.entries.filterMap fun e =>
    match e.2, before.node? e.1 with
    | .file _ number, some (.file _ old) => if number = old then none else some e.1
    | .file _ _, _ => some e.1
    | .directory, _ => none

end Disk

end IngressWatch
