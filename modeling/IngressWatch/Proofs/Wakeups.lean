import IngressWatch.Proofs.Snapshots

/-!
# No wake-up is lost

Changes come in while a consumer waits for a signal, syncs, and waits again. Signals are coalesced,
dropped by a full channel, or left over from an earlier window, and the consumer may sync without
one.

* `Consumer.step`: one step of the aggregator or of its consumer.
* `unsynced`: the changes of a run that no sync has covered.
* `Consumer.Alert`: **while there are such changes, something is under way that ends in a sync**:
  a deadline, a signal, or a consumer that has taken one.
* `Consumer.Alert.step`: each step keeps it so.
* `Consumer.run_wakes`: it is so after every run.
-/

namespace IngressWatch

open Aggregator (Step)

namespace Signals

/-- A single permit, or a channel with room for a signal. -/
def IsWaking : Signals → Prop
  | permit _ => True
  | channel capacity _ => 1 ≤ capacity
  | counter _ => False

instance : DecidablePred IsWaking
  | permit _ => inferInstanceAs (Decidable True)
  | channel capacity _ => inferInstanceAs (Decidable (1 ≤ capacity))
  | counter _ => inferInstanceAs (Decidable False)

variable {s : Signals}

/-- A notification leaves a signal to be taken, even where it adds none. -/
theorem IsWaking.isReady_notify (h : s.IsWaking) : s.notify.isReady = true := by
  cases s with
  | counter calls => exact h.elim
  | permit stored => rfl
  | channel capacity waiting =>
    have hroom : 1 ≤ capacity := h
    have : 0 < min capacity (waiting + 1) := by omega
    simpa [notify, isReady] using this

theorem IsWaking.notify (h : s.IsWaking) : s.notify.IsWaking := by
  cases s <;> exact h

theorem IsWaking.taken (h : s.IsWaking) : s.taken.IsWaking := by
  cases s <;> exact h

end Signals

namespace Debouncer

variable {d : Debouncer}

/-- The consumer has been notified, or will be. -/
def Calls (d : Debouncer) : Prop := d.deadline.isSome = true ∨ d.signals.isReady = true

theorem isWaking_arm (h : d.signals.IsWaking) : d.arm.signals.IsWaking := by
  rcases d.arm_cases with ⟨-, harm⟩ | ⟨-, ⟨_, -, -, harm⟩ | ⟨_, -, -, harm⟩ | ⟨-, harm⟩⟩ <;>
    rw [harm]
  · exact h
  · exact h
  · exact h.notify
  · exact h.notify

theorem isWaking_fire (h : d.signals.IsWaking) : d.fire.signals.IsWaking := by
  rcases d.fire_cases with ⟨_, _, -, -, -, hfire⟩ | ⟨hfire, -⟩ <;> rw [hfire]
  · exact h.notify
  · exact h

/-- Time takes no signal away. -/
theorem isReady_fire (hwaking : d.signals.IsWaking) (h : d.signals.isReady = true) :
    d.fire.signals.isReady = true := by
  rcases d.fire_cases with ⟨_, _, -, -, -, hfire⟩ | ⟨hfire, -⟩ <;> rw [hfire]
  · exact hwaking.isReady_notify
  · exact h

/-- The first change of a window calls the consumer. -/
theorem calls_arm (hwaking : d.signals.IsWaking) (harmed : d.armed = false) : d.arm.Calls := by
  rcases d.arm_cases with ⟨h, -⟩ | ⟨-, ⟨_, -, -, harm⟩ | ⟨_, -, -, harm⟩ | ⟨-, harm⟩⟩
  · rw [harmed] at h
    cases h
  · exact .inl (by rw [harm]; rfl)
  · exact .inr (by rw [harm]; exact hwaking.isReady_notify)
  · exact .inr (by rw [harm]; exact hwaking.isReady_notify)

/-- A deadline that is reached becomes a signal. -/
theorem Calls.fire (h : d.Calls) (hwaking : d.signals.IsWaking) : d.fire.Calls := by
  rcases d.fire_cases with ⟨_, _, -, -, -, hfire⟩ | ⟨hfire, -⟩
  · exact .inr (by rw [hfire]; exact hwaking.isReady_notify)
  · rw [hfire]
    exact h

/-- A deadline is outstanding, and the clock will reach it within the delay. -/
def IsRunning (d : Debouncer) : Prop :=
  ∃ deadline now, d.deadline = some deadline ∧ d.now = some now ∧ now < deadline ∧
    deadline ≤ now + d.delay

/-- Once the delay has passed, a deadline that was outstanding is a signal. -/
theorem IsRunning.isReady_advance (h : d.IsRunning) (hwaking : d.signals.IsWaking) :
    (d.advance d.delay).signals.isReady = true := by
  obtain ⟨deadline, now, hdeadline, hnow, -, hle⟩ := h
  have hfire : d.advance d.delay =
      { d with now := some (now + d.delay), deadline := none, signals := d.signals.notify } := by
    simp [advance, fire, hdeadline, hnow, hle]
  rw [hfire]
  exact hwaking.isReady_notify

end Debouncer

/-- An aggregator and the consumer that it wakes up. -/
structure Consumer where
  aggregator : Aggregator
  /-- Whether a signal was taken that no sync has followed. -/
  busy : Bool := false

namespace Consumer

/-- One step. A consumer that is busy does not wait for signals, and takes none. -/
def step (c : Consumer) : Step → Consumer
  | .take => if c.busy then c else ⟨c.aggregator.take.2, c.aggregator.take.1⟩
  | .sync => ⟨c.aggregator.sync.2, false⟩
  | .change change => { c with aggregator := c.aggregator.apply change }
  | .advance milliseconds => { c with aggregator := c.aggregator.advance milliseconds }

def run (c : Consumer) (steps : List Step) : Consumer := steps.foldl step c

/-- A deadline is outstanding, a signal can be taken, or one was and no sync has followed. -/
def IsCalled (c : Consumer) : Prop :=
  c.aggregator.debouncer.IsRunning ∨ c.aggregator.debouncer.signals.isReady = true ∨ c.busy = true

/-- The changes that no sync has covered, `since` those before the step. -/
def unsyncedAfter (since : List Change) : Step → List Change
  | .change c => since ++ [c]
  | .sync => []
  | .advance _ | .take => since

/-- The changes of a run that no sync has covered. -/
def unsynced (steps : List Step) : List Change := steps.foldl unsyncedAfter []

variable {globalMap tcpMap : Option Key} {delay : Nat} {since : List Change} {c : Consumer}

/-- **What every step keeps**: the timer is armed exactly while changes wait for a sync, and as long
as they do the consumer is called. -/
structure Alert (globalMap tcpMap : Option Key) (delay : Nat) (since : List Change) (c : Consumer) :
    Prop where
  holds : c.aggregator.window.Holds globalMap tcpMap since
  delayed : c.aggregator.debouncer.delay = delay
  waking : c.aggregator.debouncer.signals.IsWaking
  timely : c.aggregator.debouncer.Timely
  armed : c.aggregator.debouncer.armed = true ↔ since ≠ []
  called : since ≠ [] → c.aggregator.debouncer.Calls ∨ c.busy = true

namespace Alert

theorem start (globalMap tcpMap : Option Key) (delay : Nat) (now : Option Nat) {signals : Signals}
    (hsignals : signals.IsWaking) :
    Alert globalMap tcpMap delay []
      ⟨Aggregator.new globalMap tcpMap { delay, now, signals }, false⟩ where
  holds := Window.holds_ofKeys globalMap tcpMap
  delayed := rfl
  waking := hsignals
  timely := .of_deadline_eq_none rfl
  armed := by simp [Aggregator.new]
  called h := absurd rfl h

/-- A change arms the timer unless it is armed, and then the changes before it have called the
consumer. -/
theorem change (h : Alert globalMap tcpMap delay since c) (change : Change) :
    Alert globalMap tcpMap delay (since ++ [change]) (c.step (.change change)) where
  holds := h.holds.record change
  delayed := (Debouncer.delay_arm _).trans h.delayed
  waking := Debouncer.isWaking_arm h.waking
  timely := h.timely.arm
  armed := by
    have : since ++ [change] ≠ [] := by simp
    exact ⟨fun _ => this, fun _ => Debouncer.armed_arm _⟩
  called _ := by
    show c.aggregator.debouncer.arm.Calls ∨ c.busy = true
    cases harmed : c.aggregator.debouncer.armed with
    | false => exact .inl (Debouncer.calls_arm h.waking harmed)
    | true =>
      rw [Debouncer.arm_of_armed harmed]
      exact h.called (h.armed.1 harmed)

theorem sync (h : Alert globalMap tcpMap delay since c) :
    Alert globalMap tcpMap delay [] (c.step .sync) where
  holds := h.holds.next
  delayed := h.delayed
  waking := h.waking
  timely := .reset
  armed := by simp [Consumer.step, Aggregator.sync, Debouncer.reset]
  called hne := absurd rfl hne

/-- What the clock takes from the deadline it turns into a signal. -/
theorem advance (h : Alert globalMap tcpMap delay since c) (milliseconds : Nat) :
    Alert globalMap tcpMap delay since (c.step (.advance milliseconds)) where
  holds := h.holds
  delayed := (Debouncer.delay_fire _).trans h.delayed
  waking := Debouncer.isWaking_fire h.waking
  timely := h.timely.advance milliseconds
  armed := by
    have : (c.aggregator.debouncer.advance milliseconds).armed = c.aggregator.debouncer.armed :=
      Debouncer.armed_fire _
    show (c.aggregator.debouncer.advance milliseconds).armed = true ↔ _
    rw [this]
    exact h.armed
  called hne := by
    rcases h.called hne with hcalls | hbusy
    · exact .inl (Debouncer.Calls.fire hcalls h.waking)
    · exact .inr hbusy

/-- What a consumer takes from the signals makes it busy. -/
theorem take (h : Alert globalMap tcpMap delay since c) :
    Alert globalMap tcpMap delay since (c.step .take) := by
  by_cases hbusy : c.busy = true
  · have hsame : c.step .take = c := if_pos hbusy
    rw [hsame]
    exact h
  have hstep : c.step .take = ⟨c.aggregator.take.2, c.aggregator.take.1⟩ := if_neg hbusy
  rw [hstep]
  refine ⟨h.holds, h.delayed, h.waking.taken, h.timely.take, h.armed, fun hne => ?_⟩
  rcases h.called hne with (hdeadline | hready) | hb
  · exact .inl (.inl hdeadline)
  · exact .inr hready
  · exact absurd hb hbusy

/-- **One step.** -/
theorem step (h : Alert globalMap tcpMap delay since c) (s : Step) :
    Alert globalMap tcpMap delay (unsyncedAfter since s) (c.step s) := by
  cases s with
  | change change => exact h.change change
  | sync => exact h.sync
  | advance milliseconds => exact h.advance milliseconds
  | take => exact h.take

/-- **A whole run**, in any order of its steps. -/
theorem run (h : Alert globalMap tcpMap delay since c) (steps : List Step) :
    Alert globalMap tcpMap delay (steps.foldl unsyncedAfter since) (c.run steps) := by
  induction steps generalizing since c with
  | nil => exact h
  | cons s steps ih => exact ih (h.step s)

theorem isCalled (h : Alert globalMap tcpMap delay since c) (hne : since ≠ []) : c.IsCalled := by
  rcases h.called hne with (hdeadline | hready) | hbusy
  · obtain ⟨deadline, hd⟩ := Option.isSome_iff_exists.1 hdeadline
    obtain ⟨now, hnow, hlt, hle⟩ := h.timely.ahead deadline hd
    exact .inl ⟨deadline, now, hd, hnow, hlt, hle⟩
  · exact .inr (.inl hready)
  · exact .inr (.inr hbusy)

/-- After the delay, what calls the consumer is a signal. -/
theorem isReady_advance (h : Alert globalMap tcpMap delay since c) (hne : since ≠ []) :
    (c.aggregator.advance delay).debouncer.signals.isReady = true ∨ c.busy = true := by
  rcases h.isCalled hne with hrunning | hready | hbusy
  · rw [← h.delayed]
    exact .inl (hrunning.isReady_advance h.waking)
  · exact .inl (Debouncer.isReady_fire h.waking hready)
  · exact .inr hbusy

/-- A window that has not armed the timer holds no changes. -/
theorem isEmpty_sync (h : Alert globalMap tcpMap delay since c)
    (harmed : c.aggregator.isPending = false) : c.aggregator.sync.1.isEmpty = true := by
  have hnone : since = [] := by
    by_contra hne
    have : c.aggregator.debouncer.armed = true := h.armed.2 hne
    rw [Aggregator.isPending, this] at harmed
    cases harmed
  rw [hnone] at h
  exact h.holds.reports.isEmpty_iff.2 (by simp)

end Alert

/-- **No wake-up is lost.** The notifier is a single permit or a channel with room for a signal, the
delay is any, and there is a clock or none. Changes, syncs, takes and the passing of time come in
any order. As long as changes wait for a sync, the timer is armed, and a deadline is outstanding, or
a signal can be taken, or the consumer has taken one and not yet synced. Once the delay has passed
it is one of the latter two. And where the timer is not armed there is nothing to sync. -/
theorem run_wakes (globalMap tcpMap : Option Key) (delay : Nat) (now : Option Nat)
    {signals : Signals} (hsignals : signals.IsWaking) (steps : List Step) :
    let start : Consumer := ⟨Aggregator.new globalMap tcpMap { delay, now, signals }, false⟩
    let c := start.run steps
    (unsynced steps ≠ [] → c.aggregator.isPending = true ∧ c.IsCalled ∧
      ((c.aggregator.advance delay).debouncer.signals.isReady = true ∨ c.busy = true)) ∧
      (c.aggregator.isPending = false → c.aggregator.sync.1.isEmpty = true) := by
  intro start c
  have h : Alert globalMap tcpMap delay (unsynced steps) c :=
    (Alert.start globalMap tcpMap delay now hsignals).run steps
  exact ⟨fun hne => ⟨h.armed.2 hne, h.isCalled hne, h.isReady_advance hne⟩, h.isEmpty_sync⟩

/-- A permit is left over from a window that was synced without it. The next window takes it early,
and another change comes before the sync. -/
def staleSteps : List Step :=
  [.change .resync, .advance 800, .sync, .change .resync, .take, .change .resync, .take]

/-- The consumer of a stale permit is busy, so the changes after it are not stuck. -/
theorem run_wakes_stale :
    let start : Consumer := ⟨Aggregator.new none none
      { delay := 800, now := some 0, signals := .permit false }, false⟩
    let c := start.run staleSteps
    Signals.IsWaking (.permit false) ∧ (unsynced staleSteps).length = 2 ∧
      c.aggregator.isPending = true ∧ c.IsCalled ∧ c.busy = true ∧
      (c.aggregator.isPending = false → c.aggregator.sync.1.isEmpty = true) := by
  intro start c
  have hsignals : Signals.IsWaking (.permit false) := trivial
  obtain ⟨hwakes, hempty⟩ := run_wakes none none 800 (some 0) hsignals staleSteps
  obtain ⟨hpending, hcalled, -⟩ := hwakes (by decide)
  exact ⟨hsignals, rfl, hpending, hcalled, rfl, hempty⟩

end Consumer

end IngressWatch
