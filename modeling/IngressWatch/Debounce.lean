/-!
# Debouncing

The first change of a window arms a timer, and when its delay is over the consumer is notified
once. Further changes leave the timer alone, and a sync disarms it.

* `Signals`: how notifications reach the consumer.
* `Debouncer.arm`, `Debouncer.advance`, `Debouncer.reset`: the timer on a clock.
* `Debouncer.take`: the consumer takes a signal, if one is there.
* `Debouncer.fire_cases`, `Debouncer.arm_cases`: everything that a timer can do.
* `Debouncer.Timely`: a deadline is ahead of the clock, by the delay at most, and every operation
  keeps it so.
* `Debouncer.advance_add`: time may pass in pieces.
-/

namespace IngressWatch

/-- Where notifications go: a count of them, a single permit, or a channel with room for some. -/
inductive Signals where
  | counter (calls : Nat)
  | permit (stored : Bool)
  | channel (capacity waiting : Nat)
deriving DecidableEq, Repr

namespace Signals

/-- One notification. A stored permit and a full channel take no more. -/
def notify : Signals → Signals
  | counter calls => counter (calls + 1)
  | permit _ => permit true
  | channel capacity waiting => channel capacity (min capacity (waiting + 1))

/-- Whether a signal can be taken. -/
def isReady : Signals → Bool
  | counter calls => 0 < calls
  | permit stored => stored
  | channel _ waiting => 0 < waiting

/-- The state after a signal was taken. A counter keeps its count. -/
def taken : Signals → Signals
  | counter calls => counter calls
  | permit _ => permit false
  | channel capacity waiting => channel capacity (waiting - 1)

end Signals

/-- A timer with its notifications. Times are in milliseconds. -/
structure Debouncer where
  delay : Nat
  /-- The time now; none when there is no clock to wait on. -/
  now : Option Nat
  signals : Signals
  armed : Bool := false
  /-- When the consumer will be notified. -/
  deadline : Option Nat := none
deriving DecidableEq, Repr

namespace Debouncer

/-- Notifies when the deadline is reached. -/
def fire (d : Debouncer) : Debouncer :=
  match d.deadline, d.now with
  | some deadline, some now =>
    if deadline ≤ now then { d with deadline := none, signals := d.signals.notify } else d
  | _, _ => d

/-- Arms the timer unless it is armed. Without a clock the consumer is notified at once.

The step includes that the runtime runs every task that is due. So the timer's task starts to wait
now, and if there is no delay it notifies before anything else happens, although a sync could drop a
task that has not been run yet. -/
def arm (d : Debouncer) : Debouncer :=
  if d.armed then d
  else
    match d.now with
    | some now => { d with armed := true, deadline := some (now + d.delay) }.fire
    | none => { d with armed := true, signals := d.signals.notify }

/-- Lets time pass. As in `arm`, the step includes that the runtime runs every task that is due:
once the clock has reached the deadline the consumer is notified, and no sync comes before that. -/
def advance (d : Debouncer) (milliseconds : Nat) : Debouncer :=
  { d with now := d.now.map (· + milliseconds) }.fire

/-- Disarms the timer; a deadline that is still to come is dropped. -/
def reset (d : Debouncer) : Debouncer := { d with armed := false, deadline := none }

/-- Whether a signal was there, and the state after it was taken. -/
def take (d : Debouncer) : Bool × Debouncer :=
  (d.signals.isReady, { d with signals := d.signals.taken })

variable (d : Debouncer)

/-- A deadline is dropped with a notification once the clock has reached it, and kept before. -/
theorem fire_cases :
    (∃ deadline now, d.deadline = some deadline ∧ d.now = some now ∧ deadline ≤ now ∧
        d.fire = { d with deadline := none, signals := d.signals.notify }) ∨
      d.fire = d ∧ ∀ deadline ∈ d.deadline, ∀ now ∈ d.now, now < deadline := by
  unfold fire
  split
  · rename_i deadline now hdeadline hnow
    split
    · rename_i hle
      exact .inl ⟨deadline, now, hdeadline, hnow, hle, rfl⟩
    · refine .inr ⟨rfl, fun t ht n hn => ?_⟩
      rw [hdeadline] at ht
      rw [hnow] at hn
      cases ht
      cases hn
      omega
  · rename_i hnone
    exact .inr ⟨rfl, fun t ht n hn => absurd hn (hnone t n ht)⟩

/-- The first change of a window sets a deadline, or notifies when there is nothing to wait for. -/
theorem arm_cases :
    (d.armed = true ∧ d.arm = d) ∨
      d.armed = false ∧
        ((∃ now, d.now = some now ∧ 0 < d.delay ∧
            d.arm = { d with armed := true, deadline := some (now + d.delay) }) ∨
          (∃ now, d.now = some now ∧ d.delay = 0 ∧
            d.arm = { d with armed := true, deadline := none, signals := d.signals.notify }) ∨
          d.now = none ∧ d.arm = { d with armed := true, signals := d.signals.notify }) := by
  unfold arm
  by_cases harmed : d.armed = true
  · exact .inl ⟨harmed, if_pos harmed⟩
  refine .inr ⟨by simpa using harmed, ?_⟩
  rw [if_neg harmed]
  cases hnow : d.now with
  | none => exact .inr (.inr ⟨rfl, rfl⟩)
  | some now =>
    by_cases hdelay : d.delay = 0
    · refine .inr (.inl ⟨now, rfl, hdelay, ?_⟩)
      simp [fire, hdelay]
    · have hahead : ¬ now + d.delay ≤ now := by omega
      refine .inl ⟨now, rfl, by omega, ?_⟩
      simp only [fire, if_neg hahead]

theorem arm_of_armed {d : Debouncer} (h : d.armed = true) : d.arm = d := if_pos h

theorem armed_arm : d.arm.armed = true := by
  rcases d.arm_cases with ⟨h, harm⟩ | ⟨-, ⟨_, -, -, harm⟩ | ⟨_, -, -, harm⟩ | ⟨-, harm⟩⟩
  · rw [harm, h]
  all_goals rw [harm]

theorem delay_arm : d.arm.delay = d.delay := by
  rcases d.arm_cases with ⟨-, harm⟩ | ⟨-, ⟨_, -, -, harm⟩ | ⟨_, -, -, harm⟩ | ⟨-, harm⟩⟩ <;>
    rw [harm]

theorem delay_fire : d.fire.delay = d.delay := by
  rcases d.fire_cases with ⟨_, _, -, -, -, hfire⟩ | ⟨hfire, -⟩ <;> rw [hfire]

theorem armed_fire : d.fire.armed = d.armed := by
  rcases d.fire_cases with ⟨_, _, -, -, -, hfire⟩ | ⟨hfire, -⟩ <;> rw [hfire]

/-- A timer that runs as it should: a deadline is yet to be reached by the clock and will be within
the delay, and only an armed timer has one. -/
structure Timely (d : Debouncer) : Prop where
  ahead : ∀ deadline ∈ d.deadline,
    ∃ now, d.now = some now ∧ now < deadline ∧ deadline ≤ now + d.delay
  idle : d.armed = false → d.deadline = none

namespace Timely

variable {d : Debouncer}

theorem of_deadline_eq_none (h : d.deadline = none) : d.Timely where
  ahead deadline hdeadline := by
    rw [h] at hdeadline
    cases hdeadline
  idle _ := h

theorem arm (h : d.Timely) : d.arm.Timely := by
  rcases d.arm_cases with
    ⟨-, harm⟩ | ⟨harmed, ⟨now, hnow, hdelay, harm⟩ | ⟨_, -, -, harm⟩ | ⟨-, harm⟩⟩
  · rw [harm]
    exact h
  · rw [harm]
    refine ⟨fun deadline hd => ?_, fun hc => by cases hc⟩
    cases hd
    exact ⟨now, hnow, by omega, Nat.le_refl _⟩
  · rw [harm]
    exact of_deadline_eq_none rfl
  · rw [harm]
    exact of_deadline_eq_none (h.idle harmed)

theorem advance (h : d.Timely) (milliseconds : Nat) : (d.advance milliseconds).Timely := by
  unfold Debouncer.advance
  generalize hmoved : { d with now := d.now.map (· + milliseconds) } = moved
  rcases moved.fire_cases with ⟨_, _, -, -, -, hfire⟩ | ⟨hfire, hahead⟩
  · rw [hfire]
    exact of_deadline_eq_none rfl
  · -- what has not fired is still ahead of the clock
    rw [hfire]
    subst hmoved
    refine ⟨fun deadline hdeadline => ?_, h.idle⟩
    obtain ⟨now, hnow, -, hle⟩ := h.ahead deadline hdeadline
    have hnow' : d.now.map (· + milliseconds) = some (now + milliseconds) := by rw [hnow]; rfl
    have hlt : now + milliseconds < deadline := hahead deadline hdeadline _ hnow'
    refine ⟨now + milliseconds, hnow', hlt, ?_⟩
    show deadline ≤ now + milliseconds + d.delay
    omega

theorem reset : d.reset.Timely := of_deadline_eq_none rfl

theorem take (h : d.Timely) : d.take.2.Timely := ⟨h.ahead, h.idle⟩

theorem advance_zero (h : d.Timely) : d.advance 0 = d := by
  have hd : { d with now := d.now.map (· + 0) } = d := by simp
  rw [Debouncer.advance, hd]
  rcases d.fire_cases with ⟨deadline, now, hdeadline, hnow, hle, -⟩ | ⟨hfire, -⟩
  · obtain ⟨n, hn, hlt, -⟩ := h.ahead deadline hdeadline
    rw [hnow] at hn
    cases hn
    omega
  · exact hfire

end Timely

/-- **Time may pass in pieces.** -/
theorem advance_add (d : Debouncer) (m n : Nat) : d.advance (m + n) = (d.advance m).advance n := by
  obtain ⟨delay, now, signals, armed, deadline⟩ := d
  cases now with
  | none => cases deadline <;> rfl
  | some now =>
    cases deadline with
    | none => simp [advance, fire, Nat.add_assoc]
    | some deadline =>
      by_cases hm : deadline ≤ now + m
      · have hmn : deadline ≤ now + m + n := by omega
        simp [advance, fire, hm, hmn, ← Nat.add_assoc]
      · simp [advance, fire, hm, ← Nat.add_assoc]

end Debouncer

end IngressWatch
