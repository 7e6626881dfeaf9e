import IngressWatch.Aggregator

/-!
# When the notifier is called

The notifier counts its calls, and the clock moves by one millisecond at a time, so that each call
is seen at the time at which it is made.

* `Aggregator.ticks`: a run with its clock slowed down so. It is the same run
  (`Aggregator.run_ticks`).
* `Aggregator.callLog`: the times of the calls in each window of a run.
* `Span`: what decides over the calls of a window: the time of its first change, and that of its
  end.
* `Aggregator.OnTime.step`: **the calls that were made and the deadline that is outstanding are
  those of the span**, at every moment.
* `Aggregator.run_calls`: in each window with a change there is one call, the delay after the first
  change, if the window lasts so long.
-/

namespace IngressWatch

/-- A window on the clock. -/
structure Span where
  /-- The time of its first change. -/
  first : Option Nat
  /-- The time of its last step, which is the sync that closes it, if one does. -/
  last : Nat

namespace Span

variable (delay : Nat) (w : Span)

/-- The times of the calls in the window: the delay after its first change, if it lasts until
then. -/
def calls : List Nat :=
  match w.first with
  | some first => if first + delay ≤ w.last then [first + delay] else []
  | none => []

/-- The deadline that is outstanding at the end of the window. -/
def due : Option Nat :=
  match w.first with
  | some first => if first + delay ≤ w.last then none else some (first + delay)
  | none => none

/-- Whether the window has made its call by a given time. -/
def CalledBy (t : Nat) (w : Span) : Prop :=
  ∃ first ∈ w.first, first + delay ≤ t ∧ first + delay ≤ w.last

instance (t : Nat) : DecidablePred (CalledBy delay t)
  | ⟨some first, last⟩ => decidable_of_iff (first + delay ≤ t ∧ first + delay ≤ last)
      (by simp [CalledBy])
  | ⟨none, _⟩ => isFalse (by simp [CalledBy])

/-- The window after one more step that does not close it. -/
def extend : Aggregator.Step → Span
  | .change _ => { w with first := w.first.or (some w.last) }
  | .advance milliseconds => { w with last := w.last + milliseconds }
  | .sync | .take => w

theorem countP_calls (t : Nat) :
    (w.calls delay).countP (· ≤ t) = if w.CalledBy delay t then 1 else 0 := by
  obtain ⟨first, last⟩ := w
  cases first with
  | none => simp [calls, CalledBy]
  | some first =>
    by_cases hlast : first + delay ≤ last
    · simp [calls, CalledBy, hlast]
    · simp [calls, CalledBy, hlast]

theorem countP_flatten_calls (t : Nat) (windows : List Span) :
    (windows.map (calls delay)).flatten.countP (· ≤ t) = windows.countP (CalledBy delay t) := by
  induction windows with
  | nil => rfl
  | cons w windows ih =>
    rw [List.map_cons, List.flatten_cons, List.countP_append, ih, w.countP_calls delay t,
      List.countP_cons, Nat.add_comm]
    simp only [decide_eq_true_eq]

end Span

namespace Aggregator

/-- How often a counting notifier was called. -/
def calls (a : Aggregator) : Nat :=
  match a.debouncer.signals with
  | .counter calls => calls
  | _ => 0

/-- The time on the clock. -/
def time (a : Aggregator) : Nat := a.debouncer.now.getD 0

/-- The times of the calls in one step. -/
def newCalls (a : Aggregator) (s : Step) : List Nat :=
  List.replicate ((a.step s).2.calls - a.calls) (a.step s).2.time

/-- The times of the calls in each window of a run. `made` are those in the window so far. -/
def callLog (a : Aggregator) (made : List Nat) : List Step → List (List Nat)
  | [] => [made]
  | .sync :: rest => (made ++ a.newCalls .sync) :: callLog a.sync.2 [] rest
  | s :: rest => callLog (a.step s).2 (made ++ a.newCalls s) rest

/-- The windows of a run on the clock. `w` is the window that is open. -/
def spans (w : Span) : List Step → List Span
  | [] => [w]
  | .sync :: rest => w :: spans ⟨none, w.last⟩ rest
  | s :: rest => spans (w.extend s) rest

theorem callLog_cons {a : Aggregator} {made : List Nat} {s : Step} {rest : List Step}
    (hs : s ≠ .sync) :
    a.callLog made (s :: rest) = (a.step s).2.callLog (made ++ a.newCalls s) rest := by
  cases s <;> first | rfl | exact absurd rfl hs

theorem spans_cons {w : Span} {s : Step} {rest : List Step} (hs : s ≠ .sync) :
    spans w (s :: rest) = spans (w.extend s) rest := by
  cases s <;> first | rfl | exact absurd rfl hs

/-- A step in which the clock moves by a millisecond at most. -/
def IsTick : Step → Prop
  | .advance milliseconds => milliseconds = 1
  | _ => True

/-- A step on a clock that moves by one millisecond at a time. -/
def tick : Step → List Step
  | .advance milliseconds => List.replicate milliseconds (.advance 1)
  | s => [s]

/-- A run on a clock that moves by one millisecond at a time. -/
def ticks (steps : List Step) : List Step := steps.flatMap tick

theorem isTick_of_mem_ticks {steps : List Step} {s : Step} (h : s ∈ ticks steps) : IsTick s := by
  obtain ⟨s', -, hs⟩ := List.mem_flatMap.1 h
  cases s' with
  | advance milliseconds =>
    rw [List.eq_of_mem_replicate hs]
    rfl
  | change | sync | take =>
    rw [List.mem_singleton.1 hs]
    trivial

/-! ## The slow clock shows the same run -/

variable {a : Aggregator}

theorem timely_step (h : a.debouncer.Timely) (s : Step) : (a.step s).2.debouncer.Timely := by
  cases s with
  | change c => exact h.arm
  | sync => exact .reset
  | advance milliseconds => exact h.advance milliseconds
  | take => exact h.take

theorem run_advance (h : a.debouncer.Timely) (milliseconds : Nat) (rest : List Step) :
    a.run (List.replicate milliseconds (.advance 1) ++ rest) =
      a.run (.advance milliseconds :: rest) := by
  induction milliseconds generalizing a with
  | zero =>
    -- nothing is overdue
    have hsame : a.advance 0 = a := by rw [advance, h.advance_zero]
    show a.run rest = (a.advance 0).run rest
    rw [hsame]
  | succ n ih =>
    have hsplit : a.advance (n + 1) = (a.advance 1).advance n := by
      rw [advance, Nat.add_comm, Debouncer.advance_add]
      rfl
    calc a.run (List.replicate (n + 1) (.advance 1) ++ rest)
        = (a.advance 1).run (List.replicate n (.advance 1) ++ rest) := rfl
      _ = (a.advance 1).run (.advance n :: rest) := ih (h.advance 1)
      _ = ((a.advance 1).advance n).run rest := rfl
      _ = (a.advance (n + 1)).run rest := by rw [hsplit]
      _ = a.run (.advance (n + 1) :: rest) := rfl

/-- **A run on the slow clock yields the same snapshots and ends in the same state.** -/
theorem run_ticks (h : a.debouncer.Timely) (steps : List Step) :
    a.run (ticks steps) = a.run steps := by
  induction steps generalizing a with
  | nil => rfl
  | cons s steps ih =>
    have hrest : (a.step s).2.run (ticks steps) = (a.step s).2.run steps := ih (timely_step h s)
    cases s with
    | advance milliseconds =>
      show a.run (List.replicate milliseconds (.advance 1) ++ ticks steps) = _
      rw [run_advance h]
      simp only [run, hrest]
    | change | sync | take =>
      show a.run (_ :: ticks steps) = _
      simp only [run, hrest]

theorem spans_replicate (w : Span) (milliseconds : Nat) (rest : List Step) :
    spans w (List.replicate milliseconds (.advance 1) ++ rest) =
      spans { w with last := w.last + milliseconds } rest := by
  induction milliseconds generalizing w with
  | zero => rfl
  | succ n ih =>
    show spans (w.extend (.advance 1)) (List.replicate n (.advance 1) ++ rest) = _
    rw [ih]
    simp only [Span.extend, Nat.add_assoc, Nat.add_comm 1 n]

theorem spans_ticks (w : Span) (steps : List Step) : spans w (ticks steps) = spans w steps := by
  induction steps generalizing w with
  | nil => rfl
  | cons s steps ih =>
    cases s with
    | advance milliseconds =>
      show spans w (List.replicate milliseconds (.advance 1) ++ ticks steps) = _
      rw [spans_replicate, ih]
      rfl
    | sync =>
      show w :: spans _ (ticks steps) = w :: spans _ steps
      rw [ih]
    | change | take => exact ih _

/-! ## One step -/

variable {delay : Nat} {w : Span} {count : Nat}

/-- **A timer in a window**: it is armed by the first change, and the deadline that is outstanding
is that of the span. -/
structure OnTime (delay : Nat) (w : Span) (count : Nat) (d : Debouncer) : Prop where
  delayed : d.delay = delay
  now : d.now = some w.last
  signals : d.signals = .counter count
  armed : d.armed = w.first.isSome
  deadline : d.deadline = w.due delay

namespace OnTime

theorem start (delay now : Nat) :
    OnTime delay ⟨none, now⟩ 0 { delay, now := some now, signals := .counter 0 } :=
  ⟨rfl, rfl, rfl, rfl, rfl⟩

variable {d : Debouncer}

/-- A sync drops the deadline, and the next window starts without one. -/
theorem reset (h : OnTime delay w count d) : OnTime delay ⟨none, w.last⟩ count d.reset :=
  ⟨h.delayed, h.now, h.signals, rfl, rfl⟩

/-- A counting notifier is never taken from. -/
theorem take (h : OnTime delay w count d) : OnTime delay w count d.take.2 := by
  refine ⟨h.delayed, h.now, ?_, h.armed, h.deadline⟩
  show d.signals.taken = .counter count
  rw [h.signals]
  rfl

/-- A change arms the timer if it is the first of its window. Without a delay it makes the call. -/
theorem arm (h : OnTime delay w count d) (c : Change) :
    ∃ k, OnTime delay (w.extend (.change c)) (count + k) d.arm ∧
      (w.extend (.change c)).calls delay = w.calls delay ++ List.replicate k w.last := by
  obtain ⟨first, last⟩ := w
  cases first with
  | some first =>
    -- the timer is armed, and stays as it is
    have harm : d.arm = d := Debouncer.arm_of_armed h.armed
    rw [harm]
    exact ⟨0, h, (List.append_nil _).symm⟩
  | none =>
    rcases d.arm_cases with
      ⟨harmed, -⟩ | ⟨-, ⟨now, hnow, hpos, harm⟩ | ⟨now, hnow, hzero, harm⟩ | ⟨hnone, -⟩⟩
    · rw [h.armed] at harmed
      cases harmed
    · -- a deadline is set, and the call is still to come
      obtain rfl : now = last := by simpa [h.now] using hnow.symm
      rw [h.delayed] at hpos
      rw [harm]
      have hahead : ¬ now + delay ≤ now := by omega
      refine ⟨0, ⟨h.delayed, h.now, h.signals, rfl, ?_⟩, ?_⟩
      · show some (now + d.delay) = if now + delay ≤ now then none else some (now + delay)
        rw [if_neg hahead, h.delayed]
      · show (if now + delay ≤ now then [now + delay] else []) = []
        exact if_neg hahead
    · -- there is nothing to wait for
      obtain rfl : now = last := by simpa [h.now] using hnow.symm
      obtain rfl : delay = 0 := by rw [← h.delayed, hzero]
      rw [harm]
      refine ⟨1, ⟨h.delayed, h.now, ?_, rfl, ?_⟩, ?_⟩
      · show d.signals.notify = .counter (count + 1)
        rw [h.signals]
        rfl
      · simp [Span.due, Span.extend]
      · simp [Span.calls, Span.extend]
    · rw [h.now] at hnone
      cases hnone

/-- A millisecond makes the call if it is the one that reaches the deadline. -/
theorem advance (h : OnTime delay w count d) :
    ∃ k, OnTime delay (w.extend (.advance 1)) (count + k) (d.advance 1) ∧
      (w.extend (.advance 1)).calls delay = w.calls delay ++ List.replicate k (w.last + 1) := by
  obtain ⟨first, last⟩ := w
  have hnow : d.now.map (· + 1) = some (last + 1) := by rw [h.now]; rfl
  unfold Debouncer.advance
  rcases Debouncer.fire_cases { d with now := d.now.map (· + 1) } with
    ⟨deadline, now, hdeadline, hnow', hle, hfire⟩ | ⟨hfire, hahead⟩
  · -- the deadline is reached now, since it was not before
    rw [hfire]
    obtain rfl : now = last + 1 := by simpa [hnow] using hnow'.symm
    have hdue : Span.due delay ⟨first, last⟩ = some deadline := h.deadline.symm.trans hdeadline
    cases first with
    | none => cases hdue
    | some first =>
      simp only [Span.due] at hdue
      split at hdue
      · cases hdue
      · rename_i hbefore
        obtain rfl : first + delay = deadline := by simpa using hdue
        have hreached : first + delay = last + 1 := by omega
        refine ⟨1, ⟨h.delayed, hnow, ?_, h.armed, ?_⟩, ?_⟩
        · show d.signals.notify = .counter (count + 1)
          rw [h.signals]
          rfl
        · simp [Span.due, Span.extend, hreached]
        · simp [Span.calls, Span.extend, hreached]
  · -- the deadline is still to come, or was reached before
    rw [hfire]
    have hdeadline : d.deadline = Span.due delay ⟨first, last⟩ := h.deadline
    cases first with
    | none =>
      exact ⟨0, ⟨h.delayed, hnow, h.signals, h.armed, h.deadline⟩, rfl⟩
    | some first =>
      by_cases hbefore : first + delay ≤ last
      · have hstill : first + delay ≤ last + 1 := by omega
        refine ⟨0, ⟨h.delayed, hnow, h.signals, h.armed, ?_⟩, ?_⟩
        · simpa [Span.due, Span.extend, hbefore, hstill] using hdeadline
        · simp [Span.calls, Span.extend, hbefore, hstill]
      · have hdue : d.deadline = some (first + delay) := by
          simpa [Span.due, hbefore] using hdeadline
        have hlt : last + 1 < first + delay := hahead _ hdue _ hnow
        have hstill : ¬ first + delay ≤ last + 1 := by omega
        refine ⟨0, ⟨h.delayed, hnow, h.signals, h.armed, ?_⟩, ?_⟩
        · simpa [Span.due, Span.extend, hstill] using hdue
        · simp [Span.calls, Span.extend, hbefore, hstill]

/-- The calls of a step are told by the counts before and after it. -/
theorem newCalls_eq {w' : Span} {s : Step} {k : Nat} (h : OnTime delay w count a.debouncer)
    (h' : OnTime delay w' (count + k) (a.step s).2.debouncer) :
    a.newCalls s = List.replicate k w'.last := by
  have hbefore : a.calls = count := by rw [calls, h.signals]
  have hafter : (a.step s).2.calls = count + k := by rw [calls, h'.signals]
  have htime : (a.step s).2.time = w'.last := by rw [time, h'.now]; rfl
  rw [newCalls, hbefore, hafter, Nat.add_sub_cancel_left, htime]

/-- **One step** within a window: the calls that it makes are those that it adds to the span. -/
theorem step (h : OnTime delay w count a.debouncer) {s : Step} (htick : IsTick s) (hs : s ≠ .sync) :
    ∃ count', OnTime delay (w.extend s) count' (a.step s).2.debouncer ∧
      (w.extend s).calls delay = w.calls delay ++ a.newCalls s := by
  suffices hk : ∃ k, OnTime delay (w.extend s) (count + k) (a.step s).2.debouncer ∧
      (w.extend s).calls delay = w.calls delay ++ List.replicate k (w.extend s).last by
    obtain ⟨k, hstep, hcalls⟩ := hk
    exact ⟨count + k, hstep, by rw [hcalls, h.newCalls_eq hstep]⟩
  cases s with
  | change c => exact h.arm c
  | sync => exact absurd rfl hs
  | advance milliseconds =>
    obtain rfl : milliseconds = 1 := htick
    exact h.advance
  | take => exact ⟨0, h.take, (List.append_nil _).symm⟩

/-- **A whole run** on the slow clock, from a window that may have begun before it. -/
theorem callLog_eq (h : OnTime delay w count a.debouncer) {steps : List Step}
    (hticks : ∀ s ∈ steps, IsTick s) :
    a.callLog (w.calls delay) steps = (spans w steps).map (Span.calls delay) := by
  induction steps generalizing a w count with
  | nil => rfl
  | cons s steps ih =>
    have hrest : ∀ s ∈ steps, IsTick s := fun s hs => hticks s (List.mem_cons_of_mem _ hs)
    by_cases hs : s = .sync
    · subst hs
      -- the window is closed with the calls that it has made
      have hnone : a.newCalls .sync = [] := h.newCalls_eq (s := .sync) (k := 0) h.reset
      have hnext :
          a.sync.2.callLog [] steps = (spans ⟨none, w.last⟩ steps).map (Span.calls delay) :=
        ih (w := ⟨none, w.last⟩) h.reset hrest
      rw [callLog, spans, hnone, List.append_nil, hnext]
      rfl
    · obtain ⟨_, hstep, hcalls⟩ := h.step (hticks s List.mem_cons_self) hs
      rw [callLog_cons hs, spans_cons hs, ← hcalls]
      exact ih hstep hrest

end OnTime

/-- **The notifier is called once in each window, when the delay after its first change is over.**
On a clock and for any delay, let changes, syncs and the passing of time come in any order. A window
without a change makes no call. One with a change makes exactly one call, at the time of its first
change plus the delay, if it lasts until then, and else none, neither then nor later. So the number
of calls up to any time is that of the windows that came to it by then. This rests on a runtime that
runs every task as soon as it is due, as `Debouncer.arm` and `Debouncer.advance` have it. -/
theorem run_calls (globalMap tcpMap : Option Key) (delay now : Nat) (steps : List Step) :
    let a := new globalMap tcpMap { delay, now := some now, signals := .counter 0 }
    let log := a.callLog [] (ticks steps)
    let windows := spans ⟨none, now⟩ steps
    a.run (ticks steps) = a.run steps ∧ log = windows.map (Span.calls delay) ∧
      ∀ t, log.flatten.countP (· ≤ t) = windows.countP (Span.CalledBy delay t) := by
  intro a log windows
  have hstart : OnTime delay ⟨none, now⟩ 0 a.debouncer := .start delay now
  have hlog : log = windows.map (Span.calls delay) := by
    have hslow : log = (spans ⟨none, now⟩ (ticks steps)).map (Span.calls delay) :=
      hstart.callLog_eq fun s hs => isTick_of_mem_ticks hs
    rw [hslow, spans_ticks]
  refine ⟨run_ticks (.of_deadline_eq_none rfl) steps, hlog, fun t => ?_⟩
  rw [hlog]
  exact Span.countP_flatten_calls delay t windows

/-- A burst goes on after a sync that comes too early for its call. The next deadline is reached
just before a sync, and a window without a change makes no call. -/
example :
    (new none none { delay := 5, now := some 0, signals := .counter 0 }).callLog [] (ticks
      [.change .resync, .advance 4, .sync, .change .resync, .advance 3, .change .resync, .advance 2,
        .sync, .advance 9]) = [[], [9], []] := by
  decide

end Aggregator

end IngressWatch
