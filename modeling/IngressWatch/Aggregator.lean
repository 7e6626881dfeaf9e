import IngressWatch.Debounce
import IngressWatch.Settings
import IngressWatch.Window

/-!
# The aggregator of changes

Changes from all watches are collected in a window until the consumer syncs, and the first change
of a window arms the debounce timer.

* `Aggregator.apply`: one change. `Window.invalidated` tells which credentials it makes invalid.
* `Aggregator.sync`: takes everything since the last sync.
* `Aggregator.advance`, `Aggregator.take`: time passes, and the consumer takes a signal.
* `Aggregator.run`: a run of such steps with the snapshots it yields.
-/

namespace IngressWatch

structure Aggregator where
  window : Window
  debouncer : Debouncer

namespace Aggregator

/-- A fresh aggregator. -/
def new (globalMap tcpMap : Option Key) (debouncer : Debouncer) : Aggregator :=
  ⟨Window.ofKeys globalMap tcpMap, debouncer⟩

/-- A fresh aggregator with the given settings, at time 0. -/
def ofSettings (s : Settings) (signals : Signals) : Aggregator :=
  new s.globalMap s.tcpMap { delay := s.delay, now := some 0, signals }

def apply (a : Aggregator) (c : Change) : Aggregator :=
  ⟨a.window.record c, a.debouncer.arm⟩

def applyAll (a : Aggregator) (changes : List Change) : Aggregator := changes.foldl apply a

def sync (a : Aggregator) : Snapshot × Aggregator :=
  (a.window.snapshot, ⟨a.window.next, a.debouncer.reset⟩)

def advance (a : Aggregator) (milliseconds : Nat) : Aggregator :=
  { a with debouncer := a.debouncer.advance milliseconds }

def take (a : Aggregator) : Bool × Aggregator :=
  let (ready, debouncer) := a.debouncer.take
  (ready, { a with debouncer })

/-- Whether the timer is armed for the current window. -/
def isPending (a : Aggregator) : Bool := a.debouncer.armed

/-- What can happen to an aggregator. -/
inductive Step where
  | change (c : Change)
  | sync
  | advance (milliseconds : Nat)
  | take

/-- One step, and the snapshot that it yields if it is a sync. -/
def step (a : Aggregator) : Step → Option Snapshot × Aggregator
  | .change c => (none, a.apply c)
  | .sync => (some a.sync.1, a.sync.2)
  | .advance milliseconds => (none, a.advance milliseconds)
  | .take => (none, a.take.2)

/-- A run of steps, and the snapshots of its syncs in order. -/
def run (a : Aggregator) : List Step → List Snapshot × Aggregator
  | [] => ([], a)
  | s :: rest =>
    let (snapshot, a) := a.step s
    let (snapshots, a) := run a rest
    (snapshot.toList ++ snapshots, a)

end Aggregator

end IngressWatch
