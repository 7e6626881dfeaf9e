import IngressWatch.Aggregator
import IngressWatch.Watch.Watches

/-!
# Sessions with an API server

A session runs the watches of all kinds against a server on one clock. Each kind is listed, then
watched; a list that fails is tried again after a pause that doubles.

* `Session.pass`: lets time pass, and everything happen that is due in it. `Session.advance` does
  nothing while the clock stands still.
* `Session.observe`: a watched object changes.
* `Session.expire`: a watch ends and its kind has to be listed again.
* `Session.await`: waits for the first lists of all kinds.
-/

namespace IngressWatch

/-- The server's side of one kind. -/
structure Source where
  /-- What a list shows. -/
  listed : List Watched := []
  /-- How many lists are still to fail. -/
  failures : Nat := 0
  /-- When the next list is due; none while the kind is watched. -/
  due : Option Nat := some 0
  /-- How many attempts failed since the kind was last watched. -/
  attempts : Nat := 0
  /-- Events that wait for the watch to start. -/
  waiting : List WatchEvent := []
  /-- Whether a list was ever completed. -/
  ready : Bool := false

structure Session where
  /-- The only namespace that is watched, if there is one. -/
  ns : Option String
  watches : Watches
  aggregator : Aggregator
  sources : Kind → Source
  now : Nat := 0
  running : Bool := true
  awaited : Bool := false
  /-- The kinds that were listed. -/
  listedKinds : List Kind := []
  /-- The keys whose credentials became invalid since the last look. -/
  invalidated : List Key := []

namespace Session

/-- The pause after so many failures in a row, in milliseconds. -/
def pause (attempts : Nat) : Nat := min 30000 (800 <<< attempts)

/-- The time within which an expired watch is listed again. -/
def relistTime : Nat := 300000

def listPath (ns : Option String) (kind : Kind) : String :=
  let root := match kind with
    | .ingress => "/apis/" ++ kind.apiVersion ++ "/"
    | _ => "/api/" ++ kind.apiVersion ++ "/"
  root ++ (ns.map fun n => "namespaces/" ++ n ++ "/").getD "" ++ kind.plural

/-- Whether the server shows the object. -/
def shows (s : Session) (object : Watched) : Bool :=
  s.ns.all fun ns => object.metadata.ns = some ns

def setSource (s : Session) (kind : Kind) (source : Source) : Session :=
  { s with sources := fun k => if k = kind then source else s.sources k }

/-- One event reaches its binding, and the changes it means reach the aggregator. -/
def deliver (s : Session) (e : WatchEvent) : Session :=
  let (changes, watches) := s.watches.step e
  { s with
    watches
    aggregator := s.aggregator.applyAll changes
    invalidated := s.invalidated ++ changes.filterMap Window.invalidated }

def deliverAll (s : Session) (events : List WatchEvent) : Session := events.foldl deliver s

/-- Lists a kind. A list that fails has started all the same. -/
def list (s : Session) (kind : Kind) : Session :=
  let source := s.sources kind
  let s := { s with listedKinds := kind :: s.listedKinds }
  let s := s.deliver (.init kind)
  if 0 < source.failures then
    s.setSource kind { source with
      failures := source.failures - 1
      due := some (s.now + pause source.attempts)
      attempts := source.attempts + 1 }
  else
    let objects := source.listed.filter s.shows
    let s := s.deliverAll (objects.map .initApply ++ .initDone kind :: source.waiting)
    s.setSource kind { source with due := none, attempts := 0, waiting := [], ready := true }

def moveTo (s : Session) (time : Nat) : Session :=
  { s with aggregator := s.aggregator.advance (time - s.now), now := time }

/-- The first list that is due up to `time`. -/
def firstDue (s : Session) (time : Nat) : Option (Nat × Kind) :=
  Kind.all.foldl (fun best kind =>
    match (s.sources kind).due with
    | some due =>
      if due ≤ time ∧ best.all (fun b => due < b.1) then some (due, kind) else best
    | none => best) none

/-- Does what is due up to `time`, at most `fuel` lists. -/
def passTo (s : Session) (time : Nat) : (fuel : Nat) → Session
  | 0 => s.moveTo time
  | fuel + 1 =>
    match s.firstDue time with
    | some (due, kind) => passTo ((s.moveTo (max due s.now)).list kind) time fuel
    | none => s.moveTo time

/-- Every list either uses up a failure or is the last of its kind. -/
def pass (s : Session) (milliseconds : Nat) : Session :=
  let time := s.now + milliseconds
  if s.running then
    s.passTo time (Kind.all.foldl (fun fuel kind => fuel + (s.sources kind).failures + 1) 0)
  else s.moveTo time

def advance (s : Session) (milliseconds : Nat) : Session :=
  if milliseconds = 0 then s else s.pass milliseconds

/-- An event happens at the server. It is seen at once, or when the watch has started. -/
def observe (s : Session) (object : Watched) (e : WatchEvent) : Session :=
  let s := s.pass 0
  if !s.running || !s.shows object then s
  else
    let source := s.sources object.kind
    if source.due.isNone then s.deliver e
    else s.setSource object.kind { source with waiting := source.waiting ++ [e] }

/-- The watch of a kind ends, and the server lists `items` from now on. -/
def expire (s : Session) (kind : Kind) (items : List Watched) (failures : Nat) : Session :=
  let s := s.pass 0
  let source := s.sources kind
  let due := source.due.getD (s.now + pause 0)
  (s.setSource kind { source with listed := items, failures, due := some due }).pass relistTime

def isReady (s : Session) : Bool := Kind.all.all fun kind => (s.sources kind).ready

/-- Waits a millisecond for the first lists, the first time only. Nothing to wait for is left
after a shutdown. -/
def await (s : Session) : Option Bool × Session :=
  if !s.running then (none, s)
  else if s.awaited then (some true, s)
  else
    let s := { s.pass 0 with awaited := true }
    let s := if s.isReady then s else s.pass 1
    (some s.isReady, s)

def sync (s : Session) : Snapshot × Session :=
  let (snapshot, aggregator) := s.aggregator.sync
  (snapshot, { s with aggregator })

def shutdown (s : Session) : Session := { s with running := false }

/-- A session that is about to start. -/
def start (settings : Settings) (ns : Option String) (objects : List Watched)
    (failures : Kind → Nat) : Session where
  ns
  watches := Watches.ofSettings settings
  aggregator := Aggregator.ofSettings settings (.counter 0)
  sources kind := { listed := objects.filter (·.kind = kind), failures := failures kind }

end Session

end IngressWatch
