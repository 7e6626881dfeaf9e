import IngressWatch.Der.Canonical
import IngressWatch.Pem.Armor
import IngressWatch.Proofs.Announcements
import IngressWatch.Proofs.Feed
import IngressWatch.Proofs.Reporting
import Mathlib.Data.List.Induction

/-!
# TLS files follow the mirror

A controller observes the events of its watches and now and then consumes what has changed. A relist
announces a secret when it lists it, and the mirror shows it only when the relist ends.

* `Controller.run`: events and steps of the consumer in any order.
* `Controller.Awaits`: a secret of the key is announced, so that the next report asks for it.
* `Controller.Outdated`: a secret was listed, its announcement was consumed, the relist ended, and
  no report has asked for it since.
* `Controller.Tended.concat`: **each step keeps it so** that the file of a mirrored secret is up to
  date, or the secret is awaited or outdated.
* `Controller.run_current`: after a step of the consumer the TLS files are up to date, but for those
  of outdated secrets.
* `Controller.not_run_current`: a file does stay out of date.
-/

namespace IngressWatch

open Resource

/-! ## Announced secrets -/

/-- The present secrets of a window are those that changes brought. -/
theorem Window.mem_present_record {w : Window} {c : Change} {s : Secret} :
    s ∈ (w.record c).secrets.present ↔ s ∈ w.secrets.present ∨ c.new = some (.secret s) := by
  obtain ⟨old, new⟩ := c
  cases new with
  | none =>
    cases old with
    | none => simp [record]
    | some old => cases old <;> simp [record, ChangeSet.dismiss, ChangeSet.present]
  | some new =>
    cases new with
    | secret o =>
      have heq : (o = s) = (s = o) := propext eq_comm
      cases old <;> simp [record, ChangeSet.announce, ChangeSet.present, heq, or_comm] <;>
        exact or_left_comm
    | configMap m =>
      have hs : (w.stage m).secrets = w.secrets := by
        simp only [stage]
        split
        · rfl
        · split <;> rfl
      simp [record, hs]
    | _ => cases old <;> simp [record]

theorem Aggregator.mem_present_applyAll {a : Aggregator} {cs : List Change} {s : Secret} :
    s ∈ (a.applyAll cs).window.secrets.present ↔
      s ∈ a.window.secrets.present ∨ ∃ c ∈ cs, c.new = some (.secret s) := by
  induction cs generalizing a with
  | nil => simp [applyAll]
  | cons c cs ih =>
    have hcons : a.applyAll (c :: cs) = (a.apply c).applyAll cs := rfl
    have hfirst : s ∈ (a.apply c).window.secrets.present ↔ _ := Window.mem_present_record
    rw [hcons, ih, hfirst, or_assoc]
    simp

/-- An object that is shown or listed is announced. -/
theorem Binding.announced {α : Type} [Watchable α] {b : Binding α} {e : Event α} {o : α}
    (ho : b.accept o = true) (he : e = .apply o ∨ e = .initApply o) :
    ∃ c ∈ (b.changes e).map Delta.change, c.new = some (Watchable.watched o) := by
  obtain ⟨d, hd, hnew⟩ := b.replaced_of_accept ho (b.mirror.get? (identifier o))
  have hchanges : b.changes e = [d] := by
    rcases he with rfl | rfl
    · exact hd
    · exact hd
  refine ⟨d.change, ?_, ?_⟩
  · rw [hchanges]
    exact List.mem_singleton_self _
  · show d.new?.map _ = _
    rw [hnew]
    rfl

/-- What the mirror shows after an event was there before, is shown by the event or comes from the
relist that ends. -/
theorem Binding.mem_mirror_next {α : Type} [Watchable α] {b : Binding α} {e : Event α} {o : α}
    (h : o ∈ (b.next e).mirror.objects) :
    e = .apply o ∨ o ∈ b.mirror.objects ∨ e = .initDone ∧ o ∈ b.buffer.objects := by
  cases e with
  | apply p =>
    rcases Mirror.mem_put h with rfl | h
    · exact .inl rfl
    · exact .inr (.inl h)
  | delete p => exact .inr (.inl (Mirror.mem_remove h))
  | init => exact .inr (.inl h)
  | initApply p => exact .inr (.inl h)
  | initDone => exact .inr (.inr ⟨rfl, h⟩)

/-- What a relist has listed after an event. -/
theorem Binding.mem_buffer_next {α : Type} [Watchable α] {b : Binding α} {e : Event α} {o : α}
    (h : o ∈ (b.next e).buffer.objects) : e = .initApply o ∨ o ∈ b.buffer.objects := by
  cases e with
  | apply p => exact .inr h
  | delete p => exact .inr h
  | init => cases h
  | initApply p =>
    rcases Mirror.mem_put h with rfl | h
    · exact .inl rfl
    · exact .inr h
  | initDone => cases h

instance Resolver.decidableAllWritten {checks : TlsChecks} (r : Resolver checks)
    (store : CredentialStore) :
    (requests : List (String × String)) → Decidable (r.AllWritten store requests)
  | [] => inferInstanceAs (Decidable True)
  | q :: rest =>
    have := Resolver.decidableAllWritten r (r.tls store q.1 q.2).2 rest
    inferInstanceAs (Decidable ((r.tls store q.1 q.2).1 ≠ .error .fileSystem ∧
      r.AllWritten (r.tls store q.1 q.2).2 rest))

/-- A secret with a namespace and a name as they are in a cluster. -/
structure Secret.IsDns (s : Secret) : Prop where
  named : IsNamed s
  key : (key s).IsDns

/-! ## A controller -/

/-- The watches, the aggregator that they feed and the files of the secrets. -/
structure Controller (checks : TlsChecks := pemChecks) where
  intake : Intake
  store : CredentialStore
  /-- Whether references to other namespaces are followed. -/
  allowForeign : Bool

namespace Controller

inductive Step where
  | event (e : WatchEvent)
  /-- The consumer syncs, and reports unless nothing has changed. -/
  | consume

variable {checks : TlsChecks} (c : Controller checks)

/-- The mirror of secrets. -/
def secrets : Mirror Secret := c.intake.watches.secrets.mirror

/-- The resolver on the mirror as it is. -/
def resolver : Resolver checks := ⟨c.allowForeign, c.secrets⟩

/-- What a sync would yield. -/
def snapshot : Snapshot := c.intake.aggregator.sync.1

/-- What a report would ask for. -/
def requests : List (String × String) := Report.requests c.snapshot c.intake.watches.mirrors

/-- One step. The changes of an event are applied as soon as its mirror shows it, and those that
invalidate credentials remove them at once. -/
def step : Step → Controller checks
  | .event e =>
    { c with
      intake := c.intake.step (.event e)
      store := c.store.invalidateAll ((c.intake.watches.step e).1.filterMap Window.invalidated) }
  | .consume =>
    { c with
      intake := c.intake.step .sync
      store :=
        if c.snapshot.isEmpty then c.store
        else (Report.run c.snapshot c.allowForeign c.intake.watches.mirrors c.store checks).2 }

def run (steps : List Step) : Controller checks := steps.foldl step c

/-- A property of every state in which the consumer takes a step. -/
def AtReports (P : Controller checks → Prop) (c : Controller checks) : List Step → Prop
  | [] => True
  | .event e :: rest => AtReports P (c.step (.event e)) rest
  | .consume :: rest => P c ∧ AtReports P (c.step .consume) rest

instance decidableAtReports (P : Controller checks → Prop) [DecidablePred P]
    (c : Controller checks) : (steps : List Step) → Decidable (AtReports P c steps)
  | [] => inferInstanceAs (Decidable True)
  | .event e :: rest => decidableAtReports P (c.step (.event e)) rest
  | .consume :: rest =>
    have := decidableAtReports P (c.step .consume) rest
    inferInstanceAs (Decidable (P c ∧ AtReports P (c.step .consume) rest))

/-- No report fails to write a file. -/
def AllWritten (steps : List Step) : Prop :=
  c.AtReports (fun c => c.resolver.AllWritten c.store c.requests) steps

instance (steps : List Step) : Decidable (c.AllWritten steps) :=
  decidableAtReports (fun c => c.resolver.AllWritten c.store c.requests) c steps

/-- No report asks for the key. -/
def Unasked (k : Key) (steps : List Step) : Prop :=
  c.AtReports (fun c => ¬ c.resolver.Asks k c.requests) steps

/-- A secret of the key, with a certificate, is announced. -/
def Awaits (k : Key) : Prop :=
  ∃ s ∈ c.snapshot.secrets.present, key s = k ∧ (s.value? Entry.tlsCertificate).isSome

/-- The secrets of a step are those of a cluster. -/
def Step.IsDns : Step → Prop
  | .event (.secret e) => ∀ s ∈ e.object?, s.IsDns
  | _ => True

variable {c : Controller checks} {P : Controller checks → Prop} {steps : List Step} {k : Key}
  {s : Secret}

theorem run_concat (c : Controller checks) (steps : List Step) (st : Step) :
    c.run (steps ++ [st]) = (c.run steps).step st := by
  rw [run, List.foldl_append, List.foldl_cons, List.foldl_nil, run]

theorem atReports_concat {st : Step} : c.AtReports P (steps ++ [st]) ↔
    c.AtReports P steps ∧ (st = .consume → P (c.run steps)) := by
  induction steps generalizing c with
  | nil => cases st <;> simp [AtReports, run]
  | cons first rest ih =>
    cases first with
    | event e => exact ih
    | consume =>
      show P c ∧ AtReports P _ (rest ++ [st]) ↔ (P c ∧ AtReports P _ rest) ∧ _
      rw [ih, and_assoc]
      rfl

/-- **The files after a step of the consumer** are those of its requests. -/
theorem store_consume : (c.step .consume).store = c.resolver.tlsAll c.store c.requests := by
  by_cases hempty : c.snapshot.isEmpty = true
  · have hrequests : c.requests = [] := Report.requests_of_isEmpty hempty _
    have hstore : (c.step .consume).store = c.store := if_pos hempty
    rw [hstore, hrequests]
    rfl
  · have hstore : (c.step .consume).store =
        (Report.run c.snapshot c.allowForeign c.intake.watches.mirrors c.store checks).2 :=
      if_neg hempty
    rw [hstore, Report.run_store]
    rfl

theorem bypasses_event (k : Key) (c : Controller checks) (e : WatchEvent) :
    c.store.Bypasses k (c.step (.event e)).store :=
  CredentialStore.bypasses_invalidateAll k c.store _

/-- What is announced stays so until the consumer takes a step. -/
theorem Awaits.event (h : c.Awaits k) (e : WatchEvent) : (c.step (.event e)).Awaits k := by
  obtain ⟨s, hs, hkey⟩ := h
  exact ⟨s, Aggregator.mem_present_applyAll.2 (.inl hs), hkey⟩

/-- **The next report asks for an announced secret.** -/
theorem Awaits.asks (h : c.Awaits k) (hk : k.IsDns) : c.resolver.Asks k c.requests := by
  obtain ⟨s, hs, rfl, hcertificate⟩ := h
  exact Report.asks_of_present hs hcertificate hk _ _

theorem not_awaits_consume (k : Key) (c : Controller checks) : ¬ (c.step .consume).Awaits k := by
  rintro ⟨s, hs, -⟩
  cases hs

/-- A secret is announced when it is shown and when it is listed. -/
theorem awaits_of_announced (haccept : c.intake.watches.secrets.accept s = true) {e : Event Secret}
    (he : e = .apply s ∨ e = .initApply s) {content : Bytes}
    (hs : s.tlsContent? checks = some content) :
    (c.step (.event (.secret e))).Awaits (key s) := by
  have hcertificate : (s.value? Entry.tlsCertificate).isSome := by
    obtain ⟨certificate, hcertificate, -⟩ := Option.bind_eq_some_iff.1 hs
    rw [hcertificate]
    rfl
  obtain ⟨change, hchange, hnew⟩ := Binding.announced haccept he
  exact ⟨s, Aggregator.mem_present_applyAll.2 (.inr ⟨change, hchange, hnew⟩), rfl, hcertificate⟩

/-! ## Files that are not up to date -/

/-- A secret was listed by a relist, and the consumer has taken a step since. -/
def Taken (s : Secret) (steps : List Step) : Prop :=
  ∃ before after, steps = before ++ .event (.secret (.initApply s)) :: after ∧ .consume ∈ after

/-- **A secret whose file is out of date.** It was listed, and its announcement was consumed before
the relist ended. No report has asked for it since, and its file is the one that it was, or gone. -/
structure Outdated (c : Controller checks) (s : Secret) (listed after : List Step) : Prop where
  taken : Taken s listed
  unasked : (c.run (listed ++ [.event (.secret .initDone)])).Unasked (key s) after
  kept : (c.run listed).store.Bypasses (key s)
    (c.run (listed ++ .event (.secret .initDone) :: after)).store

/-- A secret is out of date since the end of some relist. -/
def IsOutdated (c : Controller checks) (s : Secret) (steps : List Step) : Prop :=
  ∃ listed after, steps = listed ++ .event (.secret .initDone) :: after ∧ c.Outdated s listed after

/-- A step that brings nothing new for the file. -/
theorem IsOutdated.concat (h : c.IsOutdated s steps) {st : Step}
    (hst : st = .consume → ¬ (c.run steps).resolver.Asks (key s) (c.run steps).requests)
    (hstore : (c.run steps).store.Bypasses (key s) (c.run (steps ++ [st])).store) :
    c.IsOutdated s (steps ++ [st]) := by
  obtain ⟨listed, after, rfl, houtdated⟩ := h
  have hsteps : listed ++ .event (.secret .initDone) :: after ++ [st] =
      listed ++ .event (.secret .initDone) :: (after ++ [st]) := by
    rw [List.append_assoc, List.cons_append]
  have hrun : (c.run (listed ++ [.event (.secret .initDone)])).run after =
      c.run (listed ++ .event (.secret .initDone) :: after) := by
    rw [run, run, run, ← List.foldl_append, List.append_assoc, List.singleton_append]
  refine ⟨listed, after ++ [st], hsteps, houtdated.taken, ?_, ?_⟩
  · refine atReports_concat.2 ⟨houtdated.unasked, fun hconsume => ?_⟩
    rw [hrun]
    exact hst hconsume
  · rw [← hsteps]
    exact houtdated.kept.trans hstore

/-- **A controller that tends its files**, after some steps. A secret that a relist has listed is
awaited, unless the consumer has taken a step since. -/
structure Tended (c : Controller checks) (steps : List Step) : Prop where
  accept : ∀ s, (c.run steps).intake.watches.secrets.accept s = true
  mirrored : ∀ s ∈ (c.run steps).secrets.objects, s.IsDns
  buffered : ∀ s ∈ (c.run steps).intake.watches.secrets.buffer.objects, s.IsDns
  listed : ∀ s ∈ (c.run steps).intake.watches.secrets.buffer.objects, ∀ content,
    s.tlsContent? checks = some content → ∃ before after,
      steps = before ++ .event (.secret (.initApply s)) :: after ∧
        (.consume ∈ after ∨ (c.run steps).Awaits (key s))
  current : ∀ s ∈ (c.run steps).secrets.objects, ∀ content, s.tlsContent? checks = some content →
    (c.run steps).store.HoldsTls (key s) content ∨ (c.run steps).Awaits (key s) ∨
      c.IsOutdated s steps

namespace Tended

variable {content : Bytes}

/-- A secret that was listed before an event. -/
theorem listed_event (h : c.Tended steps) (e : WatchEvent)
    (hs : s ∈ (c.run steps).intake.watches.secrets.buffer.objects)
    (hcontent : s.tlsContent? checks = some content) :
    ∃ before after, steps ++ [.event e] = before ++ .event (.secret (.initApply s)) :: after ∧
      (.consume ∈ after ∨ (c.run (steps ++ [.event e])).Awaits (key s)) := by
  obtain ⟨before, after, hsteps, htaken⟩ := h.listed s hs content hcontent
  refine ⟨before, after ++ [.event e], by rw [hsteps, List.append_assoc, List.cons_append], ?_⟩
  rcases htaken with hconsume | hawaits
  · exact .inl (List.mem_append_left _ hconsume)
  · right
    rw [run_concat]
    exact hawaits.event e

/-- A secret that was mirrored before an event. -/
theorem current_event (h : c.Tended steps) (e : WatchEvent)
    (hs : s ∈ (c.run steps).secrets.objects) (hcontent : s.tlsContent? checks = some content) :
    (c.run (steps ++ [.event e])).store.HoldsTls (key s) content ∨
      (c.run (steps ++ [.event e])).Awaits (key s) ∨ c.IsOutdated s (steps ++ [.event e]) := by
  have hbypasses : (c.run steps).store.Bypasses (key s) (c.run (steps ++ [.event e])).store := by
    rw [run_concat]
    exact bypasses_event (key s) _ e
  rcases h.current s hs content hcontent with hholds | hawaits | houtdated
  · exact .inl (hbypasses.holdsTls hholds)
  · right; left
    rw [run_concat]
    exact hawaits.event e
  · exact .inr (.inr (houtdated.concat (fun hc => by cases hc) hbypasses))

/-- **An event of another kind** changes nothing about the secrets. -/
theorem other (h : c.Tended steps) (e : WatchEvent)
    (hsame : ((c.run steps).intake.watches.step e).2.secrets =
      (c.run steps).intake.watches.secrets) :
    c.Tended (steps ++ [.event e]) := by
  have hbinding : (c.run (steps ++ [.event e])).intake.watches.secrets =
      (c.run steps).intake.watches.secrets := by
    rw [run_concat]
    exact hsame
  have hmirror : (c.run (steps ++ [.event e])).secrets = (c.run steps).secrets :=
    congrArg Binding.mirror hbinding
  refine ⟨?_, ?_, ?_, fun s hs content hcontent => ?_, fun s hs content hcontent => ?_⟩
  · rw [hbinding]
    exact h.accept
  · rw [hmirror]
    exact h.mirrored
  · rw [hbinding]
    exact h.buffered
  · rw [hbinding] at hs
    exact h.listed_event e hs hcontent
  · rw [hmirror] at hs
    exact h.current_event e hs hcontent

/-- **An event of a secret.** -/
theorem secret (h : c.Tended steps) {e : Event Secret} (he : ∀ s ∈ e.object?, s.IsDns) :
    c.Tended (steps ++ [.event (.secret e)]) := by
  have hbinding : (c.run (steps ++ [.event (.secret e)])).intake.watches.secrets =
      (c.run steps).intake.watches.secrets.next e := by
    rw [run_concat]
    rfl
  have hmirror : (c.run (steps ++ [.event (.secret e)])).secrets =
      ((c.run steps).intake.watches.secrets.next e).mirror := congrArg Binding.mirror hbinding
  have hannounced : ∀ s content, e = .apply s ∨ e = .initApply s →
      s.tlsContent? checks = some content →
        (c.run (steps ++ [.event (.secret e)])).Awaits (key s) := by
    intro s content hs hcontent
    rw [run_concat]
    exact awaits_of_announced (h.accept s) hs hcontent
  refine ⟨?_, ?_, ?_, ?_, ?_⟩
  · rw [hbinding]
    exact h.accept
  · intro s hs
    rw [hmirror] at hs
    rcases Binding.mem_mirror_next hs with rfl | hs | ⟨-, hs⟩
    · exact he s rfl
    · exact h.mirrored s hs
    · exact h.buffered s hs
  · intro s hs
    rw [hbinding] at hs
    rcases Binding.mem_buffer_next hs with rfl | hs
    · exact he s rfl
    · exact h.buffered s hs
  · intro s hs content hcontent
    rw [hbinding] at hs
    rcases Binding.mem_buffer_next hs with rfl | hs
    · exact ⟨steps, [], rfl, .inr (hannounced s content (.inr rfl) hcontent)⟩
    · exact h.listed_event _ hs hcontent
  · intro s hs content hcontent
    rw [hmirror] at hs
    rcases Binding.mem_mirror_next hs with rfl | hs | ⟨rfl, hs⟩
    · exact .inr (.inl (hannounced s content (.inl rfl) hcontent))
    · exact h.current_event _ hs hcontent
    · -- the relist ends: the announcement is still there, or was consumed
      obtain ⟨before, after, hsteps, hconsume | hawaits⟩ := h.listed s hs content hcontent
      · refine .inr (.inr ⟨steps, [], rfl, ⟨before, after, hsteps, hconsume⟩, trivial, ?_⟩)
        rw [run_concat]
        exact bypasses_event (key s) _ _
      · right; left
        rw [run_concat]
        exact hawaits.event _

/-- **A step of the consumer** brings the files up to date that it is asked for. -/
theorem consume (h : c.Tended steps)
    (hok : (c.run steps).resolver.AllWritten (c.run steps).store (c.run steps).requests) :
    c.Tended (steps ++ [.consume]) := by
  have hsame : (c.run (steps ++ [.consume])).intake.watches = (c.run steps).intake.watches := by
    rw [run_concat]
    rfl
  have hmirror : (c.run (steps ++ [.consume])).secrets = (c.run steps).secrets :=
    congrArg (fun w => w.secrets.mirror) hsame
  have hstore : (c.run (steps ++ [.consume])).store =
      (c.run steps).resolver.tlsAll (c.run steps).store (c.run steps).requests := by
    rw [run_concat, store_consume]
  have hr : ∀ s ∈ (c.run steps).resolver.secrets.objects, IsNamed s ∧ (key s).Plain :=
    fun s hs => ⟨(h.mirrored s hs).named, (h.mirrored s hs).key.plain⟩
  refine ⟨?_, ?_, ?_, ?_, ?_⟩
  · rw [hsame]
    exact h.accept
  · rw [hmirror]
    exact h.mirrored
  · rw [hsame]
    exact h.buffered
  · intro s hs content hcontent
    rw [hsame] at hs
    obtain ⟨before, after, hsteps, -⟩ := h.listed s hs content hcontent
    refine ⟨before, after ++ [.consume], ?_, .inl ?_⟩
    · rw [hsteps, List.append_assoc, List.cons_append]
    · exact List.mem_append_right _ (List.mem_singleton_self _)
  · intro s hs content hcontent
    rw [hmirror] at hs
    have hdns : (key s).IsDns := (h.mirrored s hs).key
    -- a report that does not ask for the secret has not had it announced
    by_cases hasks : (c.run steps).resolver.Asks (key s) (c.run steps).requests
    · left
      rw [hstore]
      exact Resolver.holdsTls_tlsAll hr hs hdns.ns_ne hcontent hok (.inr hasks)
    · have hbypasses : (c.run steps).store.Bypasses (key s)
          (c.run (steps ++ [.consume])).store := by
        rw [hstore]
        exact Resolver.bypasses_tlsAll hr hdns.plain hasks
      rcases h.current s hs content hcontent with hholds | hawaits | houtdated
      · exact .inl (hbypasses.holdsTls hholds)
      · exact absurd (hawaits.asks hdns) hasks
      · exact .inr (.inr (houtdated.concat (fun _ => hasks) hbypasses))

/-- **One step** of any kind. -/
theorem concat (h : c.Tended steps) {st : Step} (hst : st.IsDns)
    (hok : st = .consume →
      (c.run steps).resolver.AllWritten (c.run steps).store (c.run steps).requests) :
    c.Tended (steps ++ [st]) := by
  cases st with
  | consume => exact h.consume (hok rfl)
  | event e =>
    cases e with
    | secret e => exact h.secret hst
    | ingress e | service e | endpoints e | configMap e | pod e => exact h.other _ rfl

end Tended

/-- A controller before its watches have seen anything. -/
def ofSettings (settings : Settings) (signals : Signals) (store : CredentialStore)
    (allowForeign : Bool) : Controller checks :=
  ⟨Intake.ofSettings settings signals, store, allowForeign⟩

theorem tended_start (settings : Settings) (signals : Signals) (store : CredentialStore)
    (allowForeign : Bool) :
    (ofSettings settings signals store allowForeign : Controller checks).Tended [] where
  accept s := rfl
  mirrored s hs := by cases hs
  buffered s hs := by cases hs
  listed s hs := by cases hs
  current s hs := by cases hs

/-- **A run** of any length. -/
theorem Tended.run (hstart : c.Tended []) (hdns : ∀ st ∈ steps, st.IsDns)
    (hok : c.AllWritten steps) : c.Tended steps := by
  induction steps using List.reverseRecOn with
  | nil => exact hstart
  | append_singleton steps st ih =>
    obtain ⟨hbefore, hlast⟩ := atReports_concat.1 hok
    have hrest := ih (fun s hs => hdns s (List.mem_append_left _ hs)) hbefore
    exact hrest.concat (hdns st (List.mem_append_right _ (List.mem_singleton_self _))) hlast

/-- **TLS files follow the mirror, but for a relist that is consumed halfway.** Watches report
events in any order, the consumer takes its steps anywhere between them, all secrets have the
namespaces and names of a cluster, and no report fails to write a file. After a step of the
consumer, let a mirrored secret have a certificate and a key that pass the checks. Its TLS file, if
there is one, holds both, unless the secret is outdated: a relist listed it, the consumer took a
step before that relist ended, and no report has asked for the secret since then. In that case the
file is the one that was there at the end of the relist. -/
theorem run_current (settings : Settings) (signals : Signals) (store : CredentialStore)
    (allowForeign : Bool) {steps : List Step} (hdns : ∀ st ∈ steps, st.IsDns) :
    let start : Controller checks := ofSettings settings signals store allowForeign
    let last := start.run (steps ++ [.consume])
    start.AllWritten (steps ++ [.consume]) →
      ∀ s ∈ last.secrets.objects, ∀ content, s.tlsContent? checks = some content →
        last.store.HoldsTls (key s) content ∨ start.IsOutdated s (steps ++ [.consume]) := by
  intro start last hok s hs content hcontent
  have hall : ∀ st ∈ steps ++ [.consume], st.IsDns := by
    intro st hst
    rcases List.mem_append.1 hst with hst | hst
    · exact hdns st hst
    · rw [List.mem_singleton.1 hst]
      trivial
  have htended : start.Tended (steps ++ [.consume]) :=
    (tended_start settings signals store allowForeign).run hall hok
  rcases htended.current s hs content hcontent with hholds | hawaits | houtdated
  · exact .inl hholds
  · rw [run_concat] at hawaits
    exact absurd hawaits (not_awaits_consume _ _)
  · exact .inr houtdated

/-! ## The key of a site changes -/

/-- The least certificate that parses. -/
def leastCertificate : Bytes :=
  let algorithm := Der.sequenceOf [Der.element Der.objectTag PrivateKey.edwardsAlgorithm]
  let bits := Der.element Der.bitStringTag [0]
  let date (year : String) := Der.element 0x17 (Bytes.ofAscii (year ++ "0101000000Z"))
  Pem.writeArmor (Bytes.ofAscii "CERTIFICATE") (Der.sequenceOf
    [Der.sequenceOf [Der.unsignedElement 1, algorithm, Der.sequenceOf [],
      Der.sequenceOf [date "26", date "36"], Der.sequenceOf [], Der.sequenceOf [algorithm, bits]],
    algorithm, bits])

/-- A private key of 32 equal bytes. -/
def plainKey (byte : UInt8) : Bytes :=
  let algorithm := Der.sequenceOf [Der.element Der.objectTag PrivateKey.edwardsAlgorithm]
  let seed := Der.element Der.octetStringTag (List.replicate 32 byte)
  Pem.writeArmor (Bytes.ofAscii "PRIVATE KEY")
    (Der.sequenceOf [Der.unsignedElement 0, algorithm, Der.element Der.octetStringTag seed])

/-- The secret of a site with one of its keys. -/
def siteSecret (byte : UInt8) : Secret where
  metadata := { ns := some "web", name := some "site" }
  data := some (Dict.ofList
    [(Entry.tlsCertificate, leastCertificate), (Entry.tlsKey, plainKey byte)])

def siteContent (byte : UInt8) : Bytes :=
  CredentialStore.tlsContent leastCertificate (plainKey byte)

theorem isDns_siteSecret (byte : UInt8) : (siteSecret byte).IsDns :=
  ⟨⟨rfl, rfl⟩, CredentialStore.isDns_site⟩

theorem tlsContent?_siteSecret : (siteSecret 1).tlsContent? = some (siteContent 1) := by
  decide +kernel

/-- A controller without files, all of which can be written. -/
def siteController : Controller :=
  ofSettings (.standard "web") (.permit false) .emptyStore false

def sitePath : String :=
  CredentialStore.tlsPath siteController.store.directory (key (siteSecret 1))

/-- The consumer takes a step while the first list is in progress. The secret is replaced when that
list is over. -/
def replacement : List Step :=
  [.event (.secret .init), .event (.secret (.initApply (siteSecret 0))), .consume,
    .event (.secret .initDone), .event (.secret (.apply (siteSecret 1)))]

/-- The next step writes what replaces it. -/
theorem run_current_replacement :
    let last := siteController.run (replacement ++ [.consume])
    (∀ st ∈ replacement, st.IsDns) ∧ siteController.AllWritten (replacement ++ [.consume]) ∧
      siteSecret 1 ∈ last.secrets.objects ∧ (last.store.disk.nodeAt? sitePath).isSome ∧
      last.store.HoldsTls (key (siteSecret 1)) (siteContent 1) := by
  intro last
  have hdns : ∀ st ∈ replacement, st.IsDns := by
    simp [replacement, Step.IsDns, Event.object?, isDns_siteSecret]
  have hok : siteController.AllWritten (replacement ++ [.consume]) := by decide +kernel
  have hthere : (last.store.disk.nodeAt? sitePath).isSome := by decide +kernel
  have hmirrored : siteSecret 1 ∈ last.secrets.objects := List.mem_cons_self
  refine ⟨hdns, hok, hmirrored, hthere, ?_⟩
  have hcurrent := run_current _ _ _ _ hdns hok _ hmirrored _ tlsContent?_siteSecret
  refine hcurrent.resolve_right ?_
  -- no relist has listed what replaces it
  rintro ⟨listed, after, hsteps, ⟨before, between, rfl, -⟩, -, -⟩
  have hlisted : .event (.secret (.initApply (siteSecret 1))) ∈ replacement ++ [.consume] := by
    rw [hsteps]
    simp
  have hsame : siteSecret 1 = siteSecret 0 := by simpa [replacement] using hlisted
  have hkeys : plainKey 1 = plainKey 0 := Option.some.inj (congrArg (·.value? Entry.tlsKey) hsame)
  exact absurd hkeys (by decide +kernel)

/-! ## A file that stays out of date -/

/-- The event of a secret. -/
def Step.secret? : Step → Option (Event Secret)
  | .event (.secret e) => some e
  | _ => none

/-- The site gets a new key, which a relist lists. The consumer takes a step before the relist
ends. -/
def rotation : List Step :=
  [.event (.secret .init), .event (.secret (.initApply (siteSecret 0))),
    .event (.secret .initDone), .consume, .event (.secret .init),
    .event (.secret (.initApply (siteSecret 1))), .consume, .event (.secret .initDone)]

/-- All files are written, and that of the site keeps its old key. -/
theorem rotation_stale :
    siteController.AllWritten (rotation ++ [.consume]) ∧
      (siteController.run (rotation ++ [.consume])).store.disk.nodeAt? sitePath =
        some (.file (siteContent 0) 0) := by
  decide +kernel

/-- **A file can stay out of date**, when only secrets change and all relists are over. -/
theorem not_run_current :
    ¬ ∀ steps : List Step,
      (∀ st ∈ steps, st.IsDns ∧ (st = .consume ∨ st.secret?.isSome)) →
      Feed.Along Feed.Steady {} (steps.filterMap Step.secret?) →
      (Feed.after {} (steps.filterMap Step.secret?)).listed = none →
      siteController.AllWritten (steps ++ [.consume]) →
      let last := siteController.run (steps ++ [.consume])
      ∀ s ∈ last.secrets.objects, ∀ content, s.tlsContent? = some content →
        ∀ found number, last.store.disk.nodeAt?
          (CredentialStore.tlsPath siteController.store.directory (key s)) =
            some (.file found number) → found = content := by
  intro hcurrent
  have hsteps : ∀ st ∈ rotation, st.IsDns ∧ (st = .consume ∨ st.secret?.isSome) := by
    simp [rotation, Step.IsDns, Step.secret?, Event.object?, isDns_siteSecret]
  have hsteady : Feed.Along Feed.Steady {} (rotation.filterMap Step.secret?) := by decide +kernel
  have hdone : (Feed.after {} (rotation.filterMap Step.secret?)).listed = none := rfl
  have hmirrored : siteSecret 1 ∈ (siteController.run (rotation ++ [.consume])).secrets.objects :=
    List.mem_cons_self
  have hsame : siteContent 0 = siteContent 1 :=
    hcurrent rotation hsteps hsteady hdone rotation_stale.1 _ hmirrored _ tlsContent?_siteSecret
      _ _ rotation_stale.2
  exact absurd hsame (by decide +kernel)

end Controller

end IngressWatch
