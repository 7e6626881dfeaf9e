import IngressWatch.Proofs.Announcements
import IngressWatch.Report

/-!
# Which ingresses a report serves

The watch of ingresses reports those of the controller's class only, but mirrors them all. A report
takes its ingresses from the reported changes or, after a resync request, from the mirror.

* `Report.Resolves`: the references that a report resolves.
* `Watches.accepted_of_mem_step`: only ingresses of the controller's class are reported.
* `Intake.Gated`: the invariant of a run. The window holds such ingresses only, and a resync is
  asked for exactly if a relist has ended.
* `Intake.run_serves`: **an ingress of another class is served exactly if it is mirrored and a
  relist of any kind has ended since the last sync.**
-/

namespace IngressWatch

namespace Report

/-- A report resolves this reference of an ingress to a secret with a certificate. -/
def Resolves (snapshot : Snapshot) (mirrors : Mirrors) (ingress : Ingress) (reference : String) :
    Prop := (ingress, reference) ∈ references (ingresses snapshot mirrors)

theorem resolves_iff {snapshot : Snapshot} {mirrors : Mirrors} {ingress : Ingress}
    {reference : String} : Resolves snapshot mirrors ingress reference ↔
      ingress ∈ ingresses snapshot mirrors ∧ reference ∈ ingress.tlsSecrets := by
  simp only [Resolves, references, List.mem_flatMap, List.mem_map, Prod.mk.injEq]
  constructor
  · rintro ⟨i, hi, r, hr, rfl, rfl⟩
    exact ⟨hi, hr⟩
  · rintro ⟨hi, hr⟩
    exact ⟨ingress, hi, reference, hr, rfl, rfl⟩

end Report

/-! ## What the watches report -/

theorem Delta.change_eq_resync {α : Type} [Watchable α] {d : Delta α} :
    d.change = .resync ↔ d = .resync := by
  cases d <;> simp [Delta.change, Delta.old?, Delta.new?, Change.resync]

/-- A watch asks for a resync exactly at the end of a relist. -/
theorem Binding.resync_mem_changes {α : Type} [Watchable α] (b : Binding α) (e : Event α) :
    .resync ∈ (b.changes e).map Delta.change ↔ e = .initDone := by
  rw [List.mem_map]
  constructor
  · rintro ⟨d, hd, hresync⟩
    rw [Delta.change_eq_resync] at hresync
    subst hresync
    exact b.eq_initDone_of_resync hd
  · rintro rfl
    exact ⟨.resync, List.mem_append_right _ List.mem_cons_self, rfl⟩

/-- The end of a relist of any kind. -/
def WatchEvent.EndsRelist : WatchEvent → Prop
  | .ingress e => e = .initDone
  | .service e => e = .initDone
  | .endpoints e => e = .initDone
  | .secret e => e = .initDone
  | .configMap e => e = .initDone
  | .pod e => e = .initDone

namespace Watches

variable (w : Watches) (e : WatchEvent)

theorem resync_mem_step : .resync ∈ (w.step e).1 ↔ e.EndsRelist := by
  cases e <;> exact Binding.resync_mem_changes _ _

/-- **Only ingresses of the controller's class are reported.** -/
theorem accepted_of_mem_step {c : Change} (hc : c ∈ (w.step e).1) {o : Ingress}
    (ho : c.new = some (.ingress o)) : w.ingresses.accept o = true := by
  cases e with
  | ingress e =>
    obtain ⟨d, hd, rfl⟩ := List.mem_map.1 hc
    obtain ⟨p, hp, hpo⟩ := Option.map_eq_some_iff.1 ho
    cases hpo
    exact w.ingresses.accepted_of_mem_changes hd (.inr hp)
  | service e | endpoints e | secret e | configMap e | pod e =>
    -- a change of another kind brings no ingress
    obtain ⟨d, -, rfl⟩ := List.mem_map.1 hc
    obtain ⟨p, -, hpo⟩ := Option.map_eq_some_iff.1 ho
    cases hpo

theorem ingressAccept_step : (w.step e).2.ingresses.accept = w.ingresses.accept := by
  cases e <;> rfl

end Watches

/-! ## What a window holds -/

namespace Contents

variable {cs : List Change}

/-- What is present in a list of objects was brought by a change. -/
theorem exists_of_mem_present {o : Ingress} (h : o ∈ (ofChanges cs).ingresses.present) :
    ∃ c ∈ cs, c.new = some (.ingress o) := by
  have hpick : ∀ c : Change, c.new.bind Watched.ingress? = some o → c.new = some (.ingress o) := by
    intro c hc
    obtain ⟨n, hn, hpick⟩ := Option.bind_eq_some_iff.1 hc
    cases n <;> cases hpick
    exact hn
  rcases List.mem_append.1 h with h | h
  all_goals
    obtain ⟨c, hc, hbrought⟩ := List.mem_filterMap.1 h
    split at hbrought
    · exact ⟨c, hc, hpick c hbrought⟩
    · cases hbrought

theorem resync_ofChanges : (ofChanges cs).resync = true ↔ .resync ∈ cs := by
  show (cs.any _) = true ↔ _
  rw [List.any_eq_true]
  constructor
  · rintro ⟨⟨old, new⟩, hc, hnone⟩
    simp only [Bool.and_eq_true, Option.isNone_iff_eq_none] at hnone
    obtain ⟨rfl, rfl⟩ := hnone
    exact hc
  · exact fun h => ⟨_, h, rfl⟩

end Contents

namespace Intake

/-- The events since the last sync after one more step. -/
def Step.extend (shown : List WatchEvent) : Step → List WatchEvent
  | .event e => shown ++ [e]
  | .sync => []

/-- **The events since the last sync** of a run. -/
def since (steps : List Step) : List WatchEvent := steps.foldl Step.extend []

/-- **What the window of a run holds**: ingresses of the controller's class, and a resync request
exactly if a relist has ended. -/
structure Gated (settings : Settings) (shown : List WatchEvent) (i : Intake) : Prop where
  accept : i.watches.ingresses.accept = settings.classFilter.accepts
  window : ∃ cs, i.aggregator.window.Holds settings.globalMap settings.tcpMap cs ∧
    (∀ c ∈ cs, ∀ o, c.new = some (.ingress o) → settings.classFilter.accepts o = true) ∧
      (.resync ∈ cs ↔ ∃ e ∈ shown, e.EndsRelist)

namespace Gated

variable {settings : Settings} {shown : List WatchEvent} {i : Intake}

theorem start (settings : Settings) (signals : Signals) :
    (ofSettings settings signals).Gated settings [] where
  accept := rfl
  window := ⟨[], Window.holds_ofKeys _ _, fun c hc => (by cases hc), by simp⟩

/-- **One step.** -/
theorem step (h : i.Gated settings shown) (s : Step) :
    (i.step s).Gated settings (s.extend shown) := by
  obtain ⟨cs, hholds, haccepted, hresync⟩ := h.window
  cases s with
  | event e =>
    refine ⟨(i.watches.ingressAccept_step e).trans h.accept, cs ++ (i.watches.step e).1,
      holds_applyAll hholds _, fun c hc o ho => ?_, ?_⟩
    · rcases List.mem_append.1 hc with hc | hc
      · exact haccepted c hc o ho
      · rw [← h.accept]
        exact i.watches.accepted_of_mem_step e hc ho
    · rw [List.mem_append, hresync, i.watches.resync_mem_step]
      simp [Step.extend, or_and_right, exists_or]
  | sync => exact ⟨h.accept, [], hholds.next, fun c hc => (by cases hc), by simp [Step.extend]⟩

theorem run (h : i.Gated settings shown) (steps : List Step) :
    (i.run steps).Gated settings (steps.foldl Step.extend shown) := by
  induction steps generalizing i shown with
  | nil => exact h
  | cons s steps ih => exact ih (h.step s)

/-- The ingresses of the next report: those of the controller's class that changed, or all that are
mirrored. -/
theorem mem_ingresses (h : i.Gated settings shown) {mirrors : Mirrors} {o : Ingress}
    (hforeign : settings.classFilter.accepts o = false) :
    o ∈ Report.ingresses i.aggregator.sync.1 mirrors ↔
      (∃ e ∈ shown, e.EndsRelist) ∧ o ∈ mirrors.ingresses.objects := by
  obtain ⟨cs, hholds, haccepted, hresync⟩ := h.window
  have hcontents : i.aggregator.window.contents = Contents.ofChanges cs := hholds.contents
  have hasked : i.aggregator.sync.1.resync = true ↔ ∃ e ∈ shown, e.EndsRelist := by
    rw [← hresync, ← Contents.resync_ofChanges, ← hcontents]
    rfl
  unfold Report.ingresses
  split
  · rename_i hr
    exact ⟨fun ho => ⟨hasked.1 hr, ho⟩, fun ho => ho.2⟩
  · rename_i hr
    refine ⟨fun ho => ?_, fun ho => absurd (hasked.2 ho.1) hr⟩
    have hpresent : o ∈ i.aggregator.window.contents.ingresses.present := ho
    rw [hcontents] at hpresent
    obtain ⟨c, hc, hnew⟩ := Contents.exists_of_mem_present hpresent
    rw [haccepted c hc o hnew] at hforeign
    cases hforeign

end Gated

/-- **Which ingresses of other classes are served.** Watches report events of any kinds in any
order, and syncs come anywhere between them. The report of a sync resolves a reference of an ingress
that the class filter refuses exactly if a relist has ended since the sync before, of whatever kind,
and the ingress is mirrored. -/
theorem run_serves (settings : Settings) (signals : Signals) (steps : List Step)
    (mirrors : Mirrors) {o : Ingress} (hforeign : settings.classFilter.accepts o = false)
    (reference : String) :
    Report.Resolves ((ofSettings settings signals).run steps).aggregator.sync.1 mirrors o
        reference ↔
      (∃ e ∈ since steps, e.EndsRelist) ∧ o ∈ mirrors.ingresses.objects ∧
        reference ∈ o.tlsSecrets := by
  rw [Report.resolves_iff, ((Gated.start settings signals).run steps).mem_ingresses hforeign,
    and_assoc]
  rfl

/-- An ingress of another class. -/
def foreignIngress : Ingress where
  metadata := { ns := some "web", name := some "shop" }
  spec := some { className := some "nginx", tls := some [{ secretName := some "shop-tls" }] }

/-- The first list of ingresses, which shows it. -/
def firstList : List (Event Ingress) := [.init, .initApply foreignIngress, .initDone]

/-- The first report serves it. -/
theorem run_serves_foreign :
    let start := ofSettings (.standard "web") (.permit false)
    let steps := firstList.map fun e => Step.event (.ingress e)
    (Settings.standard "web").classFilter.accepts foreignIngress = false ∧
      Report.Resolves (start.run steps).aggregator.sync.1 (start.run steps).watches.mirrors
        foreignIngress "shop-tls" := by
  intro start steps
  have hforeign : (Settings.standard "web").classFilter.accepts foreignIngress = false := by decide
  refine ⟨hforeign, (run_serves _ _ steps _ hforeign "shop-tls").2 ⟨?_, ?_, ?_⟩⟩
  · exact ⟨.ingress .initDone, List.mem_of_getLast? rfl, rfl⟩
  · exact List.mem_cons_self
  · exact List.mem_cons_self

/-- So what is served need not be of the controller's class. -/
theorem not_serves_accepted :
    ¬ ∀ (settings : Settings) (signals : Signals) (events : List (Event Ingress)) (o : Ingress)
      (reference : String),
        let i := (ofSettings settings signals).run (events.map fun e => .event (.ingress e))
        Report.Resolves i.aggregator.sync.1 i.watches.mirrors o reference →
          settings.classFilter.accepts o = true := by
  intro h
  have haccepts := h (.standard "web") (.permit false) firstList foreignIngress "shop-tls"
    (Report.resolves_iff.2 ⟨List.mem_cons_self, List.mem_cons_self⟩)
  revert haccepts
  decide

end Intake

end IngressWatch
