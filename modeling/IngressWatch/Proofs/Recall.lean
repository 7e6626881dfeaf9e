import IngressWatch.Proofs.Overwrites

/-!
# What a signer remembers

A signer answers the key that it knows whenever the mirror shows none. It does not tell a key that
is yet to be shown from one that was shown and is gone.

* `Signer.Ledger`: a signer with the writes that it has made, and how many of them the mirror has
  shown. `Ledger.run` takes calls and states of the mirror in any order.
* `Ledger.Persisted`: the mirror holds the key, or a write of it is yet to be shown.
* `Ledger.Sound.call`: **what a signer knows is the last key that it answered.**
* `Signer.run_recalls`: exactly when a key is answered that is not persisted.
* `Signer.not_run_persisted`: such an answer is given after the account secret was deleted.
-/

namespace IngressWatch.Signer

/-- A signer, the mirror that it looks at, and what has become of its own writes. -/
structure Ledger (κ : Type) where
  mirror : Mirror Secret := ∅
  /-- The key that the signer knows. -/
  cached : Option κ := none
  /-- The keys of its writes that succeeded, in order. -/
  written : List κ := []
  /-- How many of these writes some state of the mirror has included. -/
  shown : Nat := 0

inductive Event (κ : Type) where
  /-- A call, with the key that it generates if it has to, and whether its write succeeds. -/
  | call (fresh : κ) (accepted : Bool)
  /-- The mirror shows any state, which includes that many of the signer's writes. -/
  | shows (mirror : Mirror Secret) (writes : Nat)

/-- The keys that are answered. -/
def okays {κ : Type} (log : List (Except Error κ)) : List κ := log.filterMap (·.toOption)

theorem okays_append {κ : Type} (log later : List (Except Error κ)) :
    okays (log ++ later) = okays log ++ okays later := List.filterMap_append

/-- The text of the account key in a mirror. -/
def keyText? (account : Key) (m : Mirror Secret) : Option Bytes :=
  (m.lookup account).bind (·.value? Entry.tlsKey)

namespace Ledger

variable {κ : Type} (codec : KeyCodec κ) (account : Key) (l : Ledger κ)

def call (fresh : κ) (accepted : Bool) : Except Error κ × Ledger κ :=
  let call := Signer.call codec account l.mirror l.cached fresh fun _ => accepted
  let own := if call.write.isSome && accepted then [fresh] else []
  (call.result, { l with cached := call.cached, written := l.written ++ own })

def step : Event κ → List (Except Error κ) × Ledger κ
  | .call fresh accepted =>
    ([(l.call codec account fresh accepted).1], (l.call codec account fresh accepted).2)
  | .shows mirror writes =>
    ([], { l with mirror := mirror, shown := max l.shown (min writes l.written.length) })

/-- Events in order, with the results of the calls. -/
def run (l : Ledger κ) : List (Event κ) → List (Except Error κ) × Ledger κ
  | [] => ([], l)
  | e :: rest =>
    let (later, last) := run (l.step codec account e).2 rest
    ((l.step codec account e).1 ++ later, last)

/-- The signer has written the key, and the mirror has yet to show that. -/
def Bridges (k : κ) : Prop := ∃ n, l.shown ≤ n ∧ l.written[n]? = some k

/-- The mirror holds the key, or is yet to show that the signer has written it. -/
def Persisted (k : κ) : Prop :=
  (∃ text, keyText? account l.mirror = some text ∧ codec.decode text = .ok k) ∨ l.Bridges k

/-! ## The three ways in which a call goes -/

variable {codec account l} {fresh : κ} {accepted : Bool}

theorem call_of_text {text : Bytes} (htext : keyText? account l.mirror = some text) :
    l.call codec account fresh accepted =
      match codec.decode text with
      | .ok k => (.ok k, { l with cached := some k })
      | .error cause => (.error (.malformed cause), l) := by
  unfold keyText? at htext
  cases hdecode : codec.decode text <;> simp [call, Signer.call, plan, htext, hdecode]

theorem call_of_cached {k : κ} (htext : keyText? account l.mirror = none)
    (hcached : l.cached = some k) : l.call codec account fresh accepted = (.ok k, l) := by
  unfold keyText? at htext
  have hsame : { l with cached := some k } = l := by rw [← hcached]
  simp [call, Signer.call, plan, htext, hcached, hsame]

theorem call_of_accepted (htext : keyText? account l.mirror = none) (hcached : l.cached = none) :
    l.call codec account fresh true =
      (.ok fresh, { l with cached := some fresh, written := l.written ++ [fresh] }) := by
  unfold keyText? at htext
  simp [call, Signer.call, plan, htext, hcached, finish, Write.settle, Except.map]

theorem call_of_refused (htext : keyText? account l.mirror = none) (hcached : l.cached = none) :
    ∃ failure, l.call codec account fresh false = (.error failure, l) := by
  unfold keyText? at htext
  have hsame : { l with cached := none } = l := by rw [← hcached]
  simp [call, Signer.call, plan, htext, hcached, finish, Write.settle, Except.map, hsame]

/-! ## What a signer knows -/

/-- The signer knows the last key that it answered, and no more of its writes were shown than it has
made. -/
structure Sound (log : List (Except Error κ)) (l : Ledger κ) : Prop where
  cached : l.cached = (okays log).getLast?
  shown : l.shown ≤ l.written.length

namespace Sound

variable {log : List (Except Error κ)}

/-- An answer is the last one of all. -/
theorem answer (h : Sound log l) (k : κ) : Sound (log ++ [.ok k]) { l with cached := some k } := by
  refine ⟨?_, h.shown⟩
  have hlast : okays (log ++ [.ok k]) = okays log ++ [k] := okays_append _ _
  rw [hlast, List.getLast?_concat]

/-- An error is no answer. -/
theorem error (h : Sound log l) (failure : Error) : Sound (log ++ [.error failure]) l := by
  refine ⟨?_, h.shown⟩
  have hsame : okays (log ++ [.error failure]) = okays log := by
    rw [okays_append]
    exact List.append_nil _
  rw [hsame, h.cached]

/-- **A call** leaves the signer with the last key that was answered. -/
theorem call (h : Sound log l) (fresh : κ) (accepted : Bool) :
    Sound (log ++ [(l.call codec account fresh accepted).1])
      (l.call codec account fresh accepted).2 := by
  cases htext : keyText? account l.mirror with
  | some text =>
    rw [call_of_text htext]
    cases codec.decode text with
    | ok k => exact h.answer k
    | error cause => exact h.error _
  | none =>
    cases hcached : l.cached with
    | some k =>
      have hsame : { l with cached := some k } = l := by rw [← hcached]
      rw [call_of_cached htext hcached]
      exact hsame ▸ h.answer k
    | none =>
      cases accepted with
      | true =>
        rw [call_of_accepted htext hcached]
        refine ⟨(h.answer fresh).cached, ?_⟩
        have hshown := h.shown
        show l.shown ≤ (l.written ++ [fresh]).length
        rw [List.length_append]
        omega
      | false =>
        obtain ⟨failure, hcall⟩ :
            ∃ failure, l.call codec account fresh false = (.error failure, l) :=
          call_of_refused htext hcached
        rw [hcall]
        exact h.error failure

/-- **One event** of either kind. -/
theorem step (h : Sound log l) (e : Event κ) :
    Sound (log ++ (l.step codec account e).1) (l.step codec account e).2 := by
  cases e with
  | call fresh accepted => exact h.call fresh accepted
  | shows mirror writes =>
    have hshown := h.shown
    have hlog : log ++ (l.step codec account (.shows mirror writes)).1 = log := List.append_nil log
    rw [hlog]
    refine ⟨h.cached, ?_⟩
    show max l.shown (min writes l.written.length) ≤ l.written.length
    omega

/-- **A run.** -/
theorem run {events : List (Event κ)} (h : Sound log l) :
    Sound (log ++ (l.run codec account events).1) (l.run codec account events).2 := by
  induction events generalizing l log with
  | nil =>
    have hlog : log ++ (l.run codec account []).1 = log := List.append_nil log
    rw [hlog]
    exact h
  | cons e rest ih =>
    have hnext : Sound (log ++ (l.step codec account e).1) (l.step codec account e).2 := h.step e
    have hlater := ih hnext
    rw [List.append_assoc] at hlater
    exact hlater

end Sound

/-! ## Keys that are not persisted -/

theorem not_persisted_iff (htext : keyText? account l.mirror = none) {k : κ} :
    ¬ l.Persisted codec account k ↔ ¬ l.Bridges k := by
  unfold Persisted
  simp [htext]

/-- **Exactly when a call answers a key that is not persisted**: the mirror shows no key, and the
signer knows one that it has not written or that was shown since. -/
theorem call_recalls (hshown : l.shown ≤ l.written.length) (k : κ) :
    ((l.call codec account fresh accepted).1 = .ok k ∧
        ¬ (l.call codec account fresh accepted).2.Persisted codec account k) ↔
      keyText? account l.mirror = none ∧ l.cached = some k ∧ ¬ l.Bridges k := by
  cases htext : keyText? account l.mirror with
  | some text =>
    -- a key that is read is persisted
    rw [call_of_text htext]
    constructor
    · rintro ⟨hok, hlost⟩
      cases hdecode : codec.decode text with
      | error cause =>
        rw [hdecode] at hok
        cases hok
      | ok k' =>
        rw [hdecode] at hok hlost
        obtain rfl : k' = k := Except.ok.inj hok
        exact absurd (.inl ⟨text, htext, hdecode⟩) hlost
    · rintro ⟨hnone, -⟩
      cases hnone
  | none =>
    cases hcached : l.cached with
    | some k' =>
      rw [call_of_cached htext hcached]
      simp only [not_persisted_iff htext, Except.ok.injEq, Option.some.injEq, true_and]
    | none =>
      refine iff_of_false ?_ (by simp)
      rintro ⟨hok, hlost⟩
      cases accepted with
      | true =>
        -- the mirror cannot have shown the write that was just made
        rw [call_of_accepted htext hcached] at hok hlost
        obtain rfl : fresh = k := Except.ok.inj hok
        refine hlost (.inr ⟨l.written.length, hshown, ?_⟩)
        exact List.getElem?_concat_length
      | false =>
        obtain ⟨failure, hcall⟩ :
            ∃ failure, l.call codec account fresh false = (.error failure, l) :=
          call_of_refused htext hcached
        rw [hcall] at hok
        cases hok

end Ledger

/-- **A key is answered that is not persisted** exactly if the mirror shows none, the key is the one
that the signer answered last, and no write of it is yet to be shown. This holds for all runs of
calls and for all states that the mirror may show in between. -/
theorem run_recalls {κ : Type} (codec : KeyCodec κ) (account : Key) (events : List (Event κ))
    (fresh : κ) (accepted : Bool) (k : κ) :
    let run := Ledger.run codec account {} events
    let call := run.2.call codec account fresh accepted
    (call.1 = .ok k ∧ ¬ call.2.Persisted codec account k) ↔
      keyText? account run.2.mirror = none ∧ (okays run.1).getLast? = some k ∧
        ¬ run.2.Bridges k := by
  intro run call
  have hstart : Ledger.Sound [] ({} : Ledger κ) := ⟨rfl, Nat.le_refl 0⟩
  have hsound : Ledger.Sound run.1 run.2 := hstart.run
  rw [← hsound.cached]
  exact Ledger.call_recalls hsound.shown k

/-- The mirror shows a secret with a key, a call reads that key, and then the secret is gone. -/
def goneEvents : List (Event RsaKey) := [.shows keyedServer 0, .call oneKey true, .shows ∅ 0]

/-- **A key that is nowhere stored any more** is answered, by a signer that has never written it. -/
theorem not_run_persisted :
    ¬ ∀ (events : List (Event RsaKey)) (fresh : RsaKey) (accepted : Bool) (k : RsaKey),
      let run := Ledger.run rsaCodec tallied.account {} events
      let call := run.2.call rsaCodec tallied.account fresh accepted
      call.1 = .ok k → call.2.Persisted rsaCodec tallied.account k := by
  intro hpersisted
  let call := (Ledger.run rsaCodec tallied.account {} goneEvents).2.call rsaCodec tallied.account
    oneKey true
  have hok : call.1 = .ok otherKey := toOption_eq_some.1 (by decide +kernel)
  have hnone : keyText? tallied.account call.2.mirror = none := by decide +kernel
  have hunwritten : call.2.written = [] := by decide +kernel
  rcases hpersisted goneEvents oneKey true otherKey hok with ⟨text, htext, -⟩ | ⟨n, -, hn⟩
  · have htext' : keyText? tallied.account call.2.mirror = some text := htext
    rw [hnone] at htext'
    cases htext'
  · have hn' : call.2.written[n]? = some otherKey := hn
    rw [hunwritten] at hn'
    cases hn'

end IngressWatch.Signer
