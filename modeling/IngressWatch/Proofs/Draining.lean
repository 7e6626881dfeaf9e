import IngressWatch.Draining
import IngressWatch.Proofs.Lookup
import IngressWatch.Proofs.Selectors
import Mathlib.Data.List.Nodup

/-!
# Which pods a service drains

* `Service.IsDraining`: **a pod that is going away while a service still selects it.**
* `selected_iff`: the pods that are looked for are these.
* `terminatingPods_exact`: **they are what a service is answered with**, each of them once, or a
  term of its selector that can not be written; pods of other namespaces and pods without labels
  make no difference.
-/

namespace IngressWatch

open Resource

/-- **A pod that is going away while a service still selects it**: it is in the namespace of the
service, has all labels of its selector, is being deleted, was not lost with its node, and has an
address. -/
structure Service.IsDraining (service : Service) (pod : Pod) : Prop where
  space : pod.metadata.ns = service.metadata.ns
  selected : ∃ labels, pod.metadata.labels = some labels ∧ ∀ name value,
    service.selectorTerms.get? name = some value → labels.get? name = some value
  deleted : pod.metadata.deletionTime.isSome = true
  reachable : ∃ status address, pod.status = some status ∧ status.reason ≠ some "NodeLost" ∧
    status.address = some address ∧ address ≠ ""

/-- Both answer with the same pods, in some order, or both fail alike. -/
def SamePods : Except Malformed (List Pod) → Except Malformed (List Pod) → Prop
  | .ok l, .ok l' => l.Perm l'
  | .error cause, .error cause' => cause = cause'
  | _, _ => False

/-- The fields that decide whether a pod is going away. -/
theorem Pod.isTerminating_iff {pod : Pod} : pod.isTerminating = true ↔
    pod.metadata.deletionTime.isSome = true ∧
      ∃ status address, pod.status = some status ∧ status.reason ≠ some "NodeLost" ∧
        status.address = some address ∧ address ≠ "" := by
  rw [isTerminating, reason, address, Bool.and_eq_true, Bool.and_eq_true, and_assoc,
    decide_eq_true_eq, decide_eq_true_eq, nodeLost]
  refine and_congr_right fun _ => ?_
  cases hstatus : pod.status with
  | none => simp
  | some status =>
    cases hreason : status.reason <;> cases haddress : status.address <;> simp [*]

variable {service : Service} {ns : String}

/-- **The pods that are looked for are those that drain.** -/
theorem selected_iff (hns : service.metadata.ns = some ns)
    (hterms : service.selectorTerms ≠ Dict.empty) {pods : Mirror Pod} {pod : Pod} :
    pod ∈ (pods.inNamespace (space service)).filter (fun pod =>
        (Selector.mk service.selectorTerms).accepts pod.metadata.labels && pod.isTerminating) ↔
      pod ∈ pods.objects ∧ service.IsDraining pod := by
  have hspace : space service = ns := by
    show service.metadata.ns.getD "" = ns
    rw [hns]
    rfl
  have hspaced : (decide ((metadata pod).ns = some (space service)) = true) ↔
      pod.metadata.ns = service.metadata.ns := by
    rw [hspace, hns, decide_eq_true_eq]
    rfl
  -- without labels nothing is accepted, since the selector asks for some
  have hlabels : (Selector.mk service.selectorTerms).accepts pod.metadata.labels = true ↔
      ∃ labels, pod.metadata.labels = some labels ∧ ∀ name value,
        service.selectorTerms.get? name = some value → labels.get? name = some value := by
    cases h : pod.metadata.labels with
    | none =>
      rw [Selector.accepts_none_iff, Selector.isEmpty_iff]
      exact ⟨fun hempty => absurd hempty hterms, fun ⟨_, hnone, _⟩ => nomatch hnone⟩
    | some labels =>
      rw [Selector.accepts_some_iff]
      exact ⟨fun hall => ⟨labels, rfl, hall⟩, fun ⟨_, rfl, hall⟩ => hall⟩
  rw [Mirror.inNamespace, List.mem_filter, List.mem_filter, hspaced, Bool.and_eq_true, hlabels,
    Pod.isTerminating_iff, and_assoc]
  refine and_congr_right fun _ => ⟨?_, fun h => ⟨h.space, h.selected, h.deleted, h.reachable⟩⟩
  rintro ⟨hin, hselected, hdeleted, hreachable⟩
  exact ⟨hin, hselected, hdeleted, hreachable⟩

/-! ## What a service is answered with -/

theorem terminatingPods_eq_error_iff {pods : Mirror Pod} {cause : Malformed} :
    terminatingPods pods service = .error cause ↔
      Selector.ofTerms service.selectorTerms = .error cause := by
  unfold terminatingPods
  cases Selector.ofTerms service.selectorTerms with
  | error cause' =>
    exact ⟨fun h => congrArg _ (Except.error.inj h), fun h => congrArg _ (Except.error.inj h)⟩
  | ok selector => cases hempty : selector.isEmpty <;> simp [hempty]

/-- A service without a selector is answered with no pods. -/
theorem terminatingPods_of_empty (h : service.selectorTerms = Dict.empty) (pods : Mirror Pod) :
    terminatingPods pods service = .ok [] := by
  rw [terminatingPods, h]
  rfl

/-- Any other, if its selector can be written, with the pods that drain. -/
theorem terminatingPods_of_fit (hns : service.metadata.ns = some ns)
    (hfit : ∀ e ∈ service.selectorTerms.entries, ¬ Selector.IsUnfit e.1 e.2)
    (hterms : service.selectorTerms ≠ Dict.empty) (pods : Mirror Pod) :
    ∃ drained, terminatingPods pods service = .ok drained ∧ (drained.map identifier).Nodup ∧
      ∀ pod, pod ∈ drained ↔ pod ∈ pods.objects ∧ service.IsDraining pod := by
  have hselector : Selector.ofTerms service.selectorTerms = .ok ⟨service.selectorTerms⟩ :=
    Selector.ofTerms_eq_ok_iff.2 ⟨rfl, hfit⟩
  refine ⟨_, ?_, ?_, fun pod => selected_iff hns hterms⟩
  · rw [terminatingPods, hselector]
    exact if_neg (mt Selector.isEmpty_iff.1 hterms)
  · exact ((List.filter_sublist.trans List.filter_sublist).map identifier).nodup pods.nodup

/-- A service fails exactly if some term of its selector can not be written, and names such a
term. -/
theorem terminatingPods_error_cases (service : Service) (pods : Mirror Pod) :
    ((∃ cause, terminatingPods pods service = .error cause) ↔
        ∃ e ∈ service.selectorTerms.entries, Selector.IsUnfit e.1 e.2) ∧
      ∀ cause, terminatingPods pods service = .error cause →
        ∃ e ∈ service.selectorTerms.entries, Selector.IsUnfit e.1 e.2 ∧
          cause = .selectorTerm e.1 e.2 := by
  have hnames : ∀ cause, terminatingPods pods service = .error cause →
      ∃ e ∈ service.selectorTerms.entries, Selector.IsUnfit e.1 e.2 ∧
        cause = .selectorTerm e.1 e.2 := by
    intro cause h
    obtain ⟨before, e, after, hentries, -, hunfit, rfl⟩ :=
      Selector.ofTerms_eq_error_iff.1 (terminatingPods_eq_error_iff.1 h)
    exact ⟨e, by simp [hentries], hunfit, rfl⟩
  refine ⟨⟨?_, ?_⟩, hnames⟩
  · rintro ⟨cause, h⟩
    obtain ⟨e, he, hunfit, -⟩ := hnames cause h
    exact ⟨e, he, hunfit⟩
  · rintro ⟨e, he, hunfit⟩
    cases hselector : Selector.ofTerms service.selectorTerms with
    | error cause => exact ⟨cause, terminatingPods_eq_error_iff.2 hselector⟩
    | ok selector => exact absurd hunfit ((Selector.ofTerms_eq_ok_iff.1 hselector).2 e he)

/-- **What is outside the namespace or without labels makes no difference.** -/
theorem samePods_of_agree (hns : service.metadata.ns = some ns) {pods others : Mirror Pod}
    (h : ∀ pod : Pod, pod.metadata.ns = some ns → pod.metadata.labels.isSome = true →
      (pod ∈ pods.objects ↔ pod ∈ others.objects)) :
    SamePods (terminatingPods pods service) (terminatingPods others service) := by
  cases hselector : Selector.ofTerms service.selectorTerms with
  | error cause =>
    rw [terminatingPods_eq_error_iff.2 hselector, terminatingPods_eq_error_iff.2 hselector]
    exact rfl
  | ok selector =>
    have hfit := (Selector.ofTerms_eq_ok_iff.1 hselector).2
    by_cases hterms : service.selectorTerms = Dict.empty
    · rw [terminatingPods_of_empty hterms, terminatingPods_of_empty hterms]
      exact .refl []
    · obtain ⟨drained, hdrained, hnodup, hmem⟩ := terminatingPods_of_fit hns hfit hterms pods
      obtain ⟨drained', hdrained', hnodup', hmem'⟩ := terminatingPods_of_fit hns hfit hterms others
      rw [hdrained, hdrained']
      have hdistinct : drained.Nodup := List.Nodup.of_map identifier hnodup
      have hdistinct' : drained'.Nodup := List.Nodup.of_map identifier hnodup'
      refine (List.perm_ext_iff_of_nodup hdistinct hdistinct').2 fun pod => ?_
      rw [hmem, hmem']
      -- a pod that drains is in the namespace and has labels
      refine and_congr_left fun hdraining => h pod (hdraining.space.trans hns) ?_
      obtain ⟨labels, hlabels, -⟩ := hdraining.selected
      rw [hlabels]
      rfl

/-- **A service is answered with exactly the pods that drain**, each of them once. It is answered
with none if it has no selector, and with an error if some term of the selector can not be written;
the error has such a term. Pods of other namespaces and pods without labels make no difference. -/
theorem terminatingPods_exact (hns : service.metadata.ns = some ns) (pods : Mirror Pod) :
    ((∃ cause, terminatingPods pods service = .error cause) ↔
        ∃ e ∈ service.selectorTerms.entries, Selector.IsUnfit e.1 e.2) ∧
      (∀ cause, terminatingPods pods service = .error cause →
        ∃ e ∈ service.selectorTerms.entries, Selector.IsUnfit e.1 e.2 ∧
          cause = .selectorTerm e.1 e.2) ∧
      ((∀ e ∈ service.selectorTerms.entries, ¬ Selector.IsUnfit e.1 e.2) →
        ∃ drained, terminatingPods pods service = .ok drained ∧
          (service.selectorTerms = Dict.empty → drained = []) ∧
          (service.selectorTerms ≠ Dict.empty → (drained.map identifier).Nodup ∧
            ∀ pod, pod ∈ drained ↔ pod ∈ pods.objects ∧ service.IsDraining pod)) ∧
      ∀ others : Mirror Pod,
        (∀ pod : Pod, pod.metadata.ns = some ns → pod.metadata.labels.isSome = true →
          (pod ∈ pods.objects ↔ pod ∈ others.objects)) →
        SamePods (terminatingPods pods service) (terminatingPods others service) := by
  obtain ⟨hfails, hnames⟩ := terminatingPods_error_cases service pods
  refine ⟨hfails, hnames, fun hfit => ?_, fun others h => samePods_of_agree hns h⟩
  by_cases hterms : service.selectorTerms = Dict.empty
  · exact ⟨[], terminatingPods_of_empty hterms pods, fun _ => rfl, fun hne => absurd hterms hne⟩
  · obtain ⟨drained, hdrained, hnodup, hmem⟩ := terminatingPods_of_fit hns hfit hterms pods
    exact ⟨drained, hdrained, fun hempty => absurd hempty hterms, fun _ => ⟨hnodup, hmem⟩⟩

/-- A pod that is being deleted and has an address. -/
def leavingPod (ns name : String) (labels : Option (Dict String)) (reason : Option String) :
    Pod where
  metadata := { ns := some ns, name := some name, labels := labels, deletionTime := some 0 }
  status := some { reason := reason, address := some "10.0.0.1" }

/-- A service that selects by one label. -/
def webService : Service where
  metadata := { ns := some "web", name := some "web" }
  spec := some { selector := some (Dict.ofList [("app", "web")]) }

/-- One of four pods drains. Two of the others make no difference. -/
theorem terminatingPods_exact_web :
    let labels := Dict.ofList [("app", "web"), ("tier", "front")]
    let draining := leavingPod "web" "draining" (some labels) none
    let lost := leavingPod "web" "lost" (some labels) (some "NodeLost")
    let elsewhere := leavingPod "api" "elsewhere" (some labels) none
    let unlabelled := leavingPod "web" "unlabelled" none none
    let pods : Mirror Pod := ⟨[draining, lost, elsewhere, unlabelled], by decide⟩
    let others : Mirror Pod := ⟨[lost, draining], by decide⟩
    webService.metadata.ns = some "web" ∧ terminatingPods pods webService = .ok [draining] ∧
      (∃ drained, terminatingPods pods webService = .ok drained ∧
        (drained.map identifier).Nodup ∧
        ∀ pod, pod ∈ drained ↔ pod ∈ pods.objects ∧ webService.IsDraining pod) ∧
      SamePods (terminatingPods pods webService) (terminatingPods others webService) := by
  intro labels draining lost elsewhere unlabelled pods others
  have hns : webService.metadata.ns = some "web" := rfl
  have hfit : ∀ e ∈ webService.selectorTerms.entries, ¬ Selector.IsUnfit e.1 e.2 := by
    intro e he
    rw [← Selector.isTerm_iff]
    revert e
    decide
  have hterms : webService.selectorTerms ≠ Dict.empty := by decide
  obtain ⟨-, -, hanswer, hsame⟩ := terminatingPods_exact hns pods
  obtain ⟨drained, hdrained, -, hexact⟩ := hanswer hfit
  refine ⟨hns, rfl, ⟨drained, hdrained, hexact hterms⟩, hsame others ?_⟩
  intro pod hpod hlabels
  have helsewhere : pod ≠ elsewhere := by
    rintro rfl
    simp [elsewhere, leavingPod] at hpod
  have hunlabelled : pod ≠ unlabelled := by
    rintro rfl
    simp [unlabelled, leavingPod] at hlabels
  simp [pods, others, helsewhere, hunlabelled, or_comm]

end IngressWatch
