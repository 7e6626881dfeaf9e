import IngressWatch.Proofs.Results
import IngressWatch.Proofs.Signing

/-!
# There is one account key

The account secret is as it was at the start until a generated key is stored in it. From then on a
signer that does not know the key looks at an earlier state of the server, and the server refuses
the write that follows from it.

* `Signer.Unkeyed`: no key is stored, nor known to the signer. A call keeps it so or brings about:
* `Signer.Keyed`: **the server holds a key. All that the mirror may still show instead is a secret
  that can neither be created nor updated any more.**
* `Signer.Setup.run_agrees`: all calls that succeed answer the key that the server holds, and at
  most one generated key is ever stored.
-/

namespace IngressWatch.Signer

open Resource

/-! ## Outcomes -/

namespace Outcome

variable {κ : Type}

/-- A call that stores nothing and answers no key. -/
def Fails (o : Outcome κ) : Prop := o.stored = none ∧ ∀ k, o.result ≠ .ok k

/-- A call that stores a generated key and answers no other. -/
def Stores (k : κ) (o : Outcome κ) : Prop := o.stored = some k ∧ ∀ k', o.result = .ok k' → k' = k

/-- A call that stores nothing and answers no other key. -/
def Repeats (k : κ) (o : Outcome κ) : Prop := o.stored = none ∧ ∀ k', o.result = .ok k' → k' = k

end Outcome

/-- One call stores a key. Those before it fail, and those after it repeat the key. -/
def StoresOnce {κ : Type} (k : κ) (log : List (Outcome κ)) : Prop :=
  ∃ before o after, log = before ++ o :: after ∧
    (∀ o ∈ before, o.Fails) ∧ o.Stores k ∧ ∀ o ∈ after, o.Repeats k

section

variable {κ : Type} {log : List (Outcome κ)} {o : Outcome κ} {k : κ}

theorem mem_answers : k ∈ answers log ↔ ∃ o ∈ log, o.result = .ok k := by
  simp only [answers, List.mem_filterMap, toOption_eq_some]

theorem answers_eq_nil (h : ∀ o ∈ log, o.Fails) : answers log = [] := by
  refine List.eq_nil_iff_forall_not_mem.2 fun k hk => ?_
  obtain ⟨o, ho, hok⟩ := mem_answers.1 hk
  exact (h o ho).2 k hok

theorem generated_eq_nil (h : ∀ o ∈ log, o.stored = none) : generated log = [] :=
  List.filterMap_eq_nil_iff.2 h

namespace StoresOnce

theorem cons (ho : o.Stores k) (hlog : ∀ o ∈ log, o.Repeats k) : StoresOnce k (o :: log) :=
  ⟨[], o, log, rfl, fun _ h => (by cases h), ho, hlog⟩

theorem append {first : List (Outcome κ)} (hfirst : ∀ o ∈ first, o.Fails) (h : StoresOnce k log) :
    StoresOnce k (first ++ log) := by
  obtain ⟨before, o, after, rfl, hbefore, ho, hafter⟩ := h
  refine ⟨first ++ before, o, after, (List.append_assoc _ _ _).symm, fun p hp => ?_, ho, hafter⟩
  rcases List.mem_append.1 hp with hp | hp
  · exact hfirst p hp
  · exact hbefore p hp

theorem eq_of_mem_answers (h : StoresOnce k log) : ∀ k' ∈ answers log, k' = k := by
  intro k' hk'
  obtain ⟨before, o, after, rfl, hbefore, ho, hafter⟩ := h
  obtain ⟨p, hp, hok⟩ := mem_answers.1 hk'
  rcases List.mem_append.1 hp with hp | hp
  · exact absurd hok ((hbefore p hp).2 k')
  · rcases List.mem_cons.1 hp with rfl | hp
    · exact ho.2 k' hok
    · exact (hafter p hp).2 k' hok

theorem generated_eq (h : StoresOnce k log) : generated log = [k] := by
  obtain ⟨before, o, after, rfl, hbefore, ho, hafter⟩ := h
  have hnone : generated before = [] := generated_eq_nil fun o ho => (hbefore o ho).1
  have hmore : generated after = [] := generated_eq_nil fun o ho => (hafter o ho).1
  rw [generated] at hnone hmore ⊢
  rw [List.filterMap_append, hnone, List.nil_append, List.filterMap_cons_some ho.1, hmore]

end StoresOnce

end

/-! ## The server holds a key -/

/-- A secret without a key that cannot be updated where `s` is stored. -/
def Outdated (s o : Secret) : Prop :=
  o.value? Entry.tlsKey = none ∧ o.metadata.resourceVersion ≠ s.metadata.resourceVersion

/-- The server holds `k` in the account secret `s`. The mirror shows `s` or an outdated secret, if
any, and the signer knows no other key. -/
structure Keyed {κ : Type} (u : Setup κ) (s : Secret) (k : κ) (w : World κ) : Prop where
  readable : ∃ text, s.value? Entry.tlsKey = some text ∧ u.codec.decode text = .ok k
  states : w.replica.Tracks u.account (some s) fun o => o = s ∨ Outdated s o
  cached : ∀ c ∈ w.cached, c = k

namespace Keyed

variable {κ : Type} {u : Setup κ} {w : World κ} {s : Secret} {k : κ}

theorem states_seen : ∀ o ∈ some s, o = s ∨ Outdated s o := fun _ ho =>
  .inl (Option.some.inj ho).symm

theorem key?_eq (h : Keyed u s k w) : u.key? w.replica.server = some k := by
  obtain ⟨text, htext, hk⟩ := h.readable
  simp [Setup.key?, h.states.now.found, htext, hk, Except.toOption]

/-- No write of a generated key is admitted, as long as the mirror does not show the key. -/
theorem not_admits (hns : u.account.ns ≠ "") (h : Keyed u s k w)
    (ho : ∀ o ∈ w.replica.mirror.lookup u.account, Outdated s o) (fresh : κ) :
    w.replica.admits (u.keyWrite w.replica.mirror fresh) = false := by
  have hm := h.states.shows_mirror
  have hfound : w.replica.server.find? (identifier (u.keyWrite w.replica.mirror fresh).object) =
      some s := by
    rw [(Setup.isNamed_keyWrite hns hm fresh).identifier_eq, Setup.key_keyWrite hns hm fresh]
    exact h.states.now.found
  have hverb := Setup.verb_keyWrite hns hm fresh
  cases hlookup : w.replica.mirror.lookup u.account with
  | none =>
    -- the write creates a secret that is there
    rw [hlookup] at hverb
    exact Replica.not_admits_create hverb hfound
  | some o =>
    -- the write keeps the version of the outdated secret
    have hversion : (u.keyWrite w.replica.mirror fresh).object.metadata.resourceVersion =
        o.metadata.resourceVersion := by
      simp [Setup.keyWrite, Write.of, withKey, hlookup, Secret.setEntry]
    have hmem : o ∈ w.replica.mirror.objects := by
      rw [hm.served.lookup hns] at hlookup
      exact Mirror.mem_of_find? hlookup
    rw [hlookup] at hverb
    refine Replica.not_admits_update hverb hfound ?_ ?_
    · rw [hversion]
      exact (hm.served o hmem).2
    · rw [hversion]
      exact (ho o hlookup).2

/-- **A call** answers the key that the server holds, or fails; it changes nothing on the server. -/
theorem call (hns : u.account.ns ≠ "") (h : Keyed u s k w) (fresh : κ) (fate : Fate) :
    Keyed u s k (u.call w fresh fate).2 ∧ (u.call w fresh fate).1.Repeats k := by
  obtain ⟨text, htext, hk⟩ := h.readable
  by_cases hread : w.replica.mirror.lookup u.account = some s
  · -- the mirror shows the key
    have hvalue : (w.replica.mirror.lookup u.account).bind (·.value? Entry.tlsKey) = some text := by
      rw [hread]
      exact htext
    rw [Setup.call_of_read hvalue hk]
    exact ⟨⟨h.readable, h.states, fun c hc => (Option.some.inj hc).symm⟩, rfl,
      fun k' hk' => (Except.ok.inj hk').symm⟩
  · -- the mirror shows a state from before the key
    have ho : ∀ o ∈ w.replica.mirror.lookup u.account, Outdated s o := fun o ho =>
      (Setup.of_mem_lookup hns h.states.shows_mirror o ho).2.2.resolve_left
        fun heq => hread (heq ▸ ho)
    have hvalue : (w.replica.mirror.lookup u.account).bind (·.value? Entry.tlsKey) = none := by
      cases hlookup : w.replica.mirror.lookup u.account with
      | none => rfl
      | some o => exact (ho o hlookup).1
    cases hcached : w.cached with
    | some c =>
      obtain rfl : c = k := h.cached c hcached
      rw [Setup.call_of_cached hvalue hcached]
      exact ⟨⟨h.readable, h.states, fun c' hc' => (Option.some.inj hc').symm⟩, rfl,
        fun k' hk' => (Except.ok.inj hk').symm⟩
    | none =>
      -- the write is refused
      have hadmits := h.not_admits hns ho fresh
      rw [Setup.call_of_unknown hvalue hcached]
      simp only [hadmits, Bool.false_and, Bool.false_eq_true, false_and, if_false]
      exact ⟨⟨h.readable, h.states, fun c hc => by cases hc⟩, rfl, fun k' hk' => by cases hk'⟩

/-- **One step** of any kind. -/
theorem step (hns : u.account.ns ≠ "") (h : Keyed u s k w) {step : Step κ} (hs : u.Allows step) :
    Keyed u s k (u.step w step).2 ∧ ∀ o ∈ (u.step w step).1, o.Repeats k := by
  cases step with
  | call fresh fate =>
    obtain ⟨hnext, hrepeats⟩ := h.call hns fresh fate
    exact ⟨hnext, fun o ho => List.mem_singleton.1 ho ▸ hrepeats⟩
  | catchUp =>
    exact ⟨⟨h.readable, h.states.catchUp states_seen, h.cached⟩, fun o ho => by cases ho⟩
  | put o =>
    exact ⟨⟨h.readable, h.states.put_of_ne states_seen hs.1 hs.2 u.version, h.cached⟩,
      fun o ho => by cases ho⟩
  | remove o =>
    exact ⟨⟨h.readable, h.states.remove_of_ne states_seen hs.1 hs.2, h.cached⟩,
      fun o ho => by cases ho⟩

/-- **A run** that starts when the server holds a key. -/
theorem run (hns : u.account.ns ≠ "") {steps : List (Step κ)} (h : Keyed u s k w)
    (hsteps : ∀ step ∈ steps, u.Allows step) :
    Keyed u s k (u.run w steps).2 ∧ ∀ o ∈ (u.run w steps).1, o.Repeats k := by
  induction steps generalizing w with
  | nil => exact ⟨h, fun o ho => by cases ho⟩
  | cons step rest ih =>
    obtain ⟨hnext, hfirst⟩ := h.step hns (hsteps step List.mem_cons_self)
    obtain ⟨hlast, hlater⟩ := ih hnext fun s hs => hsteps s (List.mem_cons_of_mem _ hs)
    refine ⟨hlast, fun o ho => ?_⟩
    rcases List.mem_append.1 ho with ho | ho
    · exact hfirst o ho
    · exact hlater o ho

theorem agrees (h : Keyed u s k w) {ks : List κ} (hks : ∀ k' ∈ ks, k' = k) :
    (∀ k₁ ∈ ks, ∀ k₂ ∈ ks, k₁ = k₂) ∧ ∀ k₁ ∈ ks, u.key? w.replica.server = some k₁ := by
  refine ⟨fun k₁ h₁ k₂ h₂ => (hks k₁ h₁).trans (hks k₂ h₂).symm, fun k₁ h₁ => ?_⟩
  rw [hks k₁ h₁]
  exact h.key?_eq

end Keyed

/-! ## No key is stored -/

/-- No key is stored, nor known to the signer. The account secret is as it was at the start. -/
structure Unkeyed {κ : Type} (u : Setup κ) (initial : Option Secret) (w : World κ) : Prop where
  keyless : ∀ o ∈ initial, o.value? Entry.tlsKey = none
  unissued : ∀ o ∈ initial, ∀ n, o.metadata.resourceVersion ≠ some (u.version n)
  states : w.replica.Tracks u.account initial fun o => initial = some o
  cached : w.cached = none

namespace Unkeyed

variable {κ : Type} {u : Setup κ} {w : World κ} {initial : Option Secret}

/-- The secret with the key that was generated for it. -/
theorem keyed_put (hns : u.account.ns ≠ "") (h : Unkeyed u initial w) {fresh : κ}
    (hfresh : u.codec.decode (u.codec.encode fresh) = .ok fresh) {cached : Option κ}
    (hcached : ∀ c ∈ cached, c = fresh) :
    let write := u.keyWrite w.replica.mirror fresh
    Keyed u (write.object.withVersion (u.version w.replica.stored)) fresh
      ⟨w.replica.put u.version write.object, cached⟩ := by
  intro write
  have hm := h.states.shows_mirror
  have houtdated : ∀ o ∈ initial,
      Outdated (write.object.withVersion (u.version w.replica.stored)) o := by
    intro o ho
    rw [Outdated, Secret.resourceVersion_withVersion]
    exact ⟨h.keyless o ho, h.unissued o ho w.replica.stored⟩
  have hvalue : (write.object.withVersion (u.version w.replica.stored)).value? Entry.tlsKey =
      some (u.codec.encode fresh) := by
    rw [Secret.value?_withVersion]
    exact value?_withKey
  refine ⟨⟨_, hvalue, hfresh⟩, ?_, hcached⟩
  refine h.states.put_of_eq (Setup.isNamed_keyWrite hns hm fresh) (Setup.key_keyWrite hns hm fresh)
    u.version (fun o ho => .inr (houtdated o ho)) fun o ho => .inr (houtdated o ho)

/-- **A call** stores the key that it generates, or fails and changes nothing. -/
theorem call (hns : u.account.ns ≠ "") (h : Unkeyed u initial w) {fresh : κ} (fate : Fate)
    (hfresh : u.codec.decode (u.codec.encode fresh) = .ok fresh) :
    (Unkeyed u initial (u.call w fresh fate).2 ∧ (u.call w fresh fate).1.Fails) ∨
      ∃ s k, Keyed u s k (u.call w fresh fate).2 ∧ (u.call w fresh fate).1.Stores k := by
  have hvalue : (w.replica.mirror.lookup u.account).bind (·.value? Entry.tlsKey) = none := by
    cases hlookup : w.replica.mirror.lookup u.account with
    | none => rfl
    | some o =>
      exact h.keyless o (Setup.of_mem_lookup hns h.states.shows_mirror o hlookup).2.2
  rw [Setup.call_of_unknown hvalue h.cached]
  split
  · -- the key is stored, whether or not the signer is told so
    refine .inr ⟨_, fresh, h.keyed_put hns hfresh fun c hc => ?_, rfl, fun k' hk' => ?_⟩
    · exact Setup.eq_of_mem_finish_cached hc
    · exact Setup.eq_of_finish_ok hk'
  · rename_i hstored
    -- a write that is not stored is not confirmed either
    have hrefused : (w.replica.admits (u.keyWrite w.replica.mirror fresh) &&
        decide (fate = .confirmed)) = false := by
      rw [Bool.and_eq_false_imp]
      intro hadmits
      exact decide_eq_false fun hfate => hstored ⟨hadmits, by simp [hfate]⟩
    rw [hrefused]
    exact .inl ⟨⟨h.keyless, h.unissued, h.states, rfl⟩, rfl, fun k hk => by cases hk⟩

/-- **One step** of any kind. -/
theorem step (hns : u.account.ns ≠ "") (h : Unkeyed u initial w) {step : Step κ}
    (hs : u.Allows step) :
    (Unkeyed u initial (u.step w step).2 ∧ ∀ o ∈ (u.step w step).1, o.Fails) ∨
      ∃ s k o, Keyed u s k (u.step w step).2 ∧ (u.step w step).1 = [o] ∧ o.Stores k := by
  have hseen : ∀ o ∈ initial, initial = some o := fun _ ho => ho
  cases step with
  | call fresh fate =>
    rcases h.call hns fate hs with ⟨hnext, hfails⟩ | ⟨s, k, hnext, hstores⟩
    · exact .inl ⟨hnext, fun o ho => List.mem_singleton.1 ho ▸ hfails⟩
    · exact .inr ⟨s, k, _, hnext, rfl, hstores⟩
  | catchUp =>
    exact .inl ⟨⟨h.keyless, h.unissued, h.states.catchUp hseen, h.cached⟩, fun o ho => by cases ho⟩
  | put o =>
    exact .inl ⟨⟨h.keyless, h.unissued, h.states.put_of_ne hseen hs.1 hs.2 u.version, h.cached⟩,
      fun o ho => by cases ho⟩
  | remove o =>
    exact .inl ⟨⟨h.keyless, h.unissued, h.states.remove_of_ne hseen hs.1 hs.2, h.cached⟩,
      fun o ho => by cases ho⟩

/-- **A run** that starts without a key: no call succeeds, or one stores a key. -/
theorem run (hns : u.account.ns ≠ "") {steps : List (Step κ)} (h : Unkeyed u initial w)
    (hsteps : ∀ step ∈ steps, u.Allows step) :
    (∀ o ∈ (u.run w steps).1, o.Fails) ∨
      ∃ s k, Keyed u s k (u.run w steps).2 ∧ StoresOnce k (u.run w steps).1 := by
  induction steps generalizing w with
  | nil => exact .inl fun o ho => by cases ho
  | cons step rest ih =>
    have hrest : ∀ s ∈ rest, u.Allows s := fun s hs => hsteps s (List.mem_cons_of_mem _ hs)
    rcases h.step hns (hsteps step List.mem_cons_self) with
      ⟨hnext, hfirst⟩ | ⟨s, k, o, hnext, hfirst, hstores⟩
    · rcases ih hnext hrest with hlater | ⟨s, k, hlast, hlater⟩
      · refine .inl fun o ho => ?_
        rcases List.mem_append.1 ho with ho | ho
        · exact hfirst o ho
        · exact hlater o ho
      · exact .inr ⟨s, k, hlast, hlater.append hfirst⟩
    · obtain ⟨hlast, hlater⟩ := hnext.run hns hrest
      refine .inr ⟨s, k, hlast, ?_⟩
      show StoresOnce k ((u.step w step).1 ++ _)
      rw [hfirst]
      exact .cons hstores hlater

end Unkeyed

/-! ## Runs from the start -/

namespace Setup

variable {κ : Type} {u : Setup κ} {server : Mirror Secret}

/-- The start of a server, its mirror and a signer. -/
theorem IsStart.keyed_or_unkeyed (h : u.IsStart server) :
    (∃ s k, Keyed u s k ⟨{ server }, none⟩) ∨ ∃ initial, Unkeyed u initial ⟨{ server }, none⟩ := by
  have hserves (held : Option Secret) (hfound : server.find? u.account.identifier = held)
      (P : Secret → Prop) : Replica.Tracks u.account held P { server } :=
    .start ⟨h.served, hfound⟩
  cases hfound : server.find? u.account.identifier with
  | none =>
    refine .inr ⟨none, fun o ho => ?_, fun o ho => ?_, hserves none hfound _, rfl⟩
    · cases ho
    · cases ho
  | some s =>
    cases htext : s.value? Entry.tlsKey with
    | none =>
      refine .inr ⟨some s, fun o ho => ?_, fun o ho => ?_, hserves (some s) hfound _, rfl⟩
      · rw [← Option.some.inj ho]
        exact htext
      · rw [← Option.some.inj ho]
        exact h.unissued s (Mirror.mem_of_find? hfound)
    | some text =>
      obtain ⟨k, hk⟩ := h.readable s hfound text htext
      exact .inl ⟨s, k, ⟨text, htext, hk⟩, hserves (some s) hfound _, fun c hc => by cases hc⟩

end Setup

/-- **There is one account key.** The mirror of a server is empty at first and lags behind it, what
the server stores gets a fresh version, and nobody else touches the account secret. Whatever becomes
of the writes, all calls that succeed answer the same key, which the server holds, and at most one
generated key is ever stored. -/
theorem Setup.run_agrees {κ : Type} (u : Setup κ) (hns : u.account.ns ≠ "") {server : Mirror Secret}
    (hserver : u.IsStart server) {steps : List (Step κ)} (hsteps : ∀ s ∈ steps, u.Allows s) :
    let run := u.run ⟨{ server }, none⟩ steps
    (∀ k ∈ answers run.1, ∀ k' ∈ answers run.1, k = k') ∧
      (∀ k ∈ answers run.1, u.key? run.2.replica.server = some k) ∧
      (generated run.1).length ≤ 1 := by
  intro run
  rcases hserver.keyed_or_unkeyed with ⟨s, k, hkeyed⟩ | ⟨initial, hunkeyed⟩
  · obtain ⟨hlast, hrepeats⟩ := hkeyed.run hns hsteps
    have hanswers : ∀ k' ∈ answers run.1, k' = k := fun k' hk' =>
      have ⟨o, ho, hok⟩ := mem_answers.1 hk'
      (hrepeats o ho).2 k' hok
    have hgenerated : generated run.1 = [] := generated_eq_nil fun o ho => (hrepeats o ho).1
    obtain ⟨hsame, hheld⟩ := hlast.agrees hanswers
    exact ⟨hsame, hheld, by simp [hgenerated]⟩
  · rcases hunkeyed.run hns hsteps with hfails | ⟨s, k, hlast, hstores⟩
    · have hanswers : answers run.1 = [] := answers_eq_nil hfails
      have hgenerated : generated run.1 = [] := generated_eq_nil fun o ho => (hfails o ho).1
      simp [hanswers, hgenerated]
    · obtain ⟨hsame, hheld⟩ := hlast.agrees hstores.eq_of_mem_answers
      have hgenerated : generated run.1 = [k] := hstores.generated_eq
      exact ⟨hsame, hheld, by simp [hgenerated]⟩

/-- Versions that are tallies of what was stored before. -/
def tally (n : Nat) : String := String.ofList (List.replicate n 'i')

theorem tally_zero_ne (n : Nat) : tally 0 ≠ tally (n + 1) := fun h => by
  have hlist := congrArg String.toList h
  simp [tally, List.replicate_succ] at hlist

def tallied : Setup RsaKey := ⟨rsaCodec, ⟨"web", "account"⟩, fun n => tally (n + 1)⟩

theorem injective_tallied : Function.Injective tallied.version := fun m n h => by
  have hlist := congrArg String.toList h
  simpa [tallied, tally] using congrArg List.length hlist

/-- The keys of two pairs of small primes. -/
def oneKey : RsaKey := ⟨2021027, 65537, 122561, 1009, 2003, 593, 439, 269⟩
def otherKey : RsaKey := ⟨2037143, 65537, 407153, 1013, 2011, 329, 1133, 135⟩

/-- An account secret that has an entry but no key yet. -/
def plainSecret : Secret where
  metadata := { ns := some "web", name := some "account", resourceVersion := some (tally 0) }
  data := some (Dict.ofList [("note", [])])

def plainServer : Mirror Secret := ⟨[plainSecret], by simp⟩

theorem isStart_plain : tallied.IsStart plainServer where
  served s hs := by
    rw [List.mem_singleton.1 hs]
    exact ⟨⟨rfl, rfl⟩, rfl⟩
  unissued s hs n h := by
    rw [List.mem_singleton.1 hs] at h
    exact tally_zero_ne n (Option.some.inj h)
  readable s hs text htext := by
    have hplain : plainSecret = s := Option.some.inj hs
    rw [← hplain] at htext
    cases htext

/-- The answer of the first call is lost. The next two calls see the start of the server still, and
their updates are refused. The last call sees the key. -/
def lossySteps : List (Step RsaKey) :=
  [.catchUp, .call oneKey .unconfirmed, .call otherKey .confirmed,
    .put { metadata := { ns := some "web", name := some "site" } }, .catchUp,
    .call otherKey .confirmed, .catchUp, .call otherKey .confirmed]

theorem allows_lossy : ∀ s ∈ lossySteps, tallied.Allows s := by
  have hone : rsaCodec.decode (rsaCodec.encode oneKey) = .ok oneKey :=
    toOption_eq_some.1 (by decide +kernel)
  have hother : rsaCodec.decode (rsaCodec.encode otherKey) = .ok otherKey :=
    toOption_eq_some.1 (by decide +kernel)
  intro s hs
  simp only [lossySteps, List.mem_cons, List.not_mem_nil, or_false] at hs
  rcases hs with rfl | rfl | rfl | rfl | rfl | rfl | rfl | rfl
  · trivial
  · exact hone
  · exact hother
  · exact ⟨⟨rfl, rfl⟩, by decide⟩
  · trivial
  · exact hother
  · trivial
  · exact hother

/-- The key whose answer was lost is the account key. -/
theorem Setup.run_agrees_lossy :
    let run := tallied.run ⟨{ server := plainServer }, none⟩ lossySteps
    tallied.account.ns ≠ "" ∧ tallied.IsStart plainServer ∧ (∀ s ∈ lossySteps, tallied.Allows s) ∧
      answers run.1 = [oneKey] ∧ tallied.key? run.2.replica.server = some oneKey ∧
      (generated run.1).length ≤ 1 := by
  have hns : tallied.account.ns ≠ "" := by decide
  have hanswers :
      answers (tallied.run ⟨{ server := plainServer }, none⟩ lossySteps).1 = [oneKey] := by
    decide +kernel
  obtain ⟨-, hheld, hgenerated⟩ := tallied.run_agrees hns isStart_plain allows_lossy
  refine ⟨hns, isStart_plain, allows_lossy, hanswers, hheld oneKey ?_, hgenerated⟩
  rw [hanswers]
  exact List.mem_singleton_self oneKey

end IngressWatch.Signer
