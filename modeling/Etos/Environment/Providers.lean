import Etos.Controller.Environment
import Etos.Controller.Guarded

/-!
# `Environment.Providers` — Environments without providers

`Spec.Providers` of an Environment is optional, and so is the image of an EnvironmentRequest. The reconciler
dereferences both. `reconcile_deref_iff` says exactly when it gets away with it: an Environment without providers must
not have come to the point where its resources are taken over or released, and a request without an image must not be
asked for a release job.
-/

namespace Etos

namespace EnvironmentReconciler

open Kube Prog

/-- What a reconcile of an Environment reads: the Environment, and the EnvironmentRequest that owns it. Everything
    else, the jobs included, may be anything, and every call may fail. -/
def Reads (environment : Environment) (request : EnvironmentRequest) : (o : Op) → Ans o → Prop
  | .get .environment _, .ok e => e = environment
  | .get .environmentRequest _, .ok r => r = request
  | _, _ => True

/-- The resources of the Environment are neither taken over nor released. -/
def Idle (environment : Environment) : Prop :=
  environment.status.completionTime ≠ none ∨ findStatusCondition environment.status.conditions .active = none ∨
    (environment.deleting = false ∧ environment.metadata.containsFinalizer releaseFinalizer = false)

/-- The Environment is being deleted and may need a release job. -/
def Releasing (environment : Environment) : Prop :=
  environment.status.completionTime = none ∧ findStatusCondition environment.status.conditions .active ≠ none ∧
    isStatusReason environment.status.conditions .active .pending = false ∧ environment.deleting = true ∧
    environmentRequestName environment ≠ ""

variable {environment : Environment} {request : EnvironmentRequest}

/-- Along every path, no nil pointer is dereferenced. -/
abbrev NoNil {α : Type} (environment : Environment) (request : EnvironmentRequest) (p : M α) : Prop :=
  p.Guarded (Reads environment request) (fun _ => True) (fun _ => True) fun _ => True

/-! ## Enough to be safe -/

theorem takeResource_noNil (e : Environment) (r : ResourceKind) (n : String) :
    NoNil environment request (takeResource e r n) := by
  refine ⟨trivial, fun a _ => ?_⟩
  cases a with
  | error e => trivial
  | ok resource =>
      show Prog.Guarded _ _ _ (takeOwnership e r resource >>= _) _
      unfold takeOwnership
      split
      · trivial
      · refine ⟨trivial, fun a _ => ?_⟩
        cases a <;> trivial

theorem setAndPersist_noNil (e : Environment) (c : Condition) : NoNil environment request (setAndPersist e c) := by
  refine (setCondition_guarded (fun _ _ => trivial) e c).bind fun out _ => ?_
  dsimp only
  split
  · exact ⟨trivial, fun a _ => trivial⟩
  · trivial

theorem withProviders_noNil {α : Type} {f : Providers → M α} {e : Environment} (h : e.spec.providers ≠ none)
    (hf : ∀ providers, NoNil environment request (f providers)) :
    NoNil environment request (withProviders e f) := by
  unfold withProviders
  cases hp : e.spec.providers with
  | none => exact absurd hp h
  | some providers => exact hf providers

theorem reconcileEnvironment_noNil {e : Environment} (h : e.spec.providers ≠ none) :
    NoNil environment request (reconcileEnvironment e) := by
  refine withProviders_noNil h fun providers => ?_
  refine (takeResource_noNil e _ _).bind fun iut _ => ?_
  cases iut with
  | error err => trivial
  | ok iut =>
      refine (takeResource_noNil e _ _).bind fun logArea _ => ?_
      cases logArea with
      | error err => trivial
      | ok logArea =>
          refine (takeResource_noNil e _ _).bind fun executionSpace _ => ?_
          cases executionSpace with
          | error err => trivial
          | ok executionSpace =>
              refine (checkProviders_guarded (fun _ _ => trivial) _).bind fun err _ => ?_
              cases err with
              | some err => trivial
              | none => exact setAndPersist_noNil _ _

theorem getReleasable_noNil (r : ResourceKind) (n : String) : NoNil environment request (getReleasable r n) := by
  refine ⟨trivial, fun a _ => ?_⟩
  cases a with
  | error e => trivial
  | ok resource =>
      refine ⟨trivial, fun a _ => ?_⟩
      cases a <;> trivial

/-- The release job needs the image of the request. -/
theorem releaseJob_noNil {e : Environment} (h : e.spec.providers ≠ none)
    (himage : environmentRequestName e ≠ "" → request.spec.image ≠ none) :
    NoNil environment request (releaseJob e) := by
  unfold releaseJob environmentRequest
  split
  · trivial
  rename_i hname
  refine ⟨trivial, fun a ha => ?_⟩
  cases a with
  | error err => trivial
  | ok found =>
      obtain rfl : found = request := ha
      refine withProviders_noNil h fun providers => ?_
      refine (getReleasable_noNil _ _).bind fun iut _ => ?_
      cases iut with
      | error err => trivial
      | ok iut =>
          refine (getReleasable_noNil _ _).bind fun logArea _ => ?_
          cases logArea with
          | error err => trivial
          | ok logArea =>
              refine (getReleasable_noNil _ _).bind fun executionSpace _ => ?_
              cases executionSpace with
              | error err => trivial
              | ok executionSpace =>
                  refine (checkCluster_guarded (fun _ _ => trivial) _).bind fun err _ => ?_
                  cases err with
                  | some err => trivial
                  | none =>
                      cases hi : found.spec.image with
                      | none => exact absurd hi (himage hname)
                      | some image => trivial

theorem releaseResource_noNil (r : ResourceKind) (n : String) : NoNil environment request (releaseResource r n) := by
  refine ⟨trivial, fun a _ => ?_⟩
  cases a with
  | error e => trivial
  | ok resource =>
      show Prog.Guarded _ _ _ (if _ then _ else _) _
      split
      · exact ⟨trivial, fun a _ => trivial⟩
      · trivial

theorem releaseProviders_noNil {e : Environment} (h : e.spec.providers ≠ none) :
    NoNil environment request (releaseProviders e) := by
  refine withProviders_noNil h fun providers => ?_
  refine (releaseResource_noNil _ _).bind fun out _ => ?_
  match out with
  | (false, none) =>
      refine (releaseResource_noNil _ _).bind fun out _ => ?_
      match out with
      | (false, none) => exact releaseResource_noNil _ _
      | (true, _) => trivial
      | (false, some _) => trivial
  | (true, _) => trivial
  | (false, some _) => trivial

/-- The Active condition, which completing dereferences, is there. -/
theorem released_noNil {e : Environment} {manager : JobManager} (h : e.spec.providers ≠ none)
    (hactive : findStatusCondition e.status.conditions .active ≠ none) :
    NoNil environment request (released e manager) := by
  refine (result_guarded (fun _ _ => trivial) _ _ _).bind fun result _ => ?_
  refine (releaseProviders_noNil h).bind fun out _ => ?_
  dsimp only
  split
  · trivial
  cases hf : findStatusCondition e.status.conditions .active with
  | none => exact absurd hf hactive
  | some c =>
      refine (setCondition_guarded (fun _ _ => trivial) e _).bind fun out _ => ?_
      split
      · exact ⟨trivial, fun a _ => (delete_guarded (fun _ _ => trivial) _).bind fun _ _ => trivial⟩
      · trivial

theorem notCreated_noNil (e : Environment) (err : Err) : NoNil environment request (notCreated e err) := by
  unfold notCreated
  split
  · trivial
  · refine (setCondition_guarded (fun _ _ => trivial) e _).bind fun out _ => ?_
    dsimp only
    split
    · exact ⟨trivial, fun a _ => trivial⟩
    · trivial

theorem reconcileReleaser_noNil {e : Environment} (h : e.spec.providers ≠ none)
    (hactive : findStatusCondition e.status.conditions .active ≠ none)
    (himage : e.deleting = true → environmentRequestName e ≠ "" → request.spec.image ≠ none) :
    NoNil environment request (reconcileReleaser e) := by
  refine (status_guarded (fun _ _ => trivial) _).bind fun out _ => ?_
  match out with
  | (_, .error err) => trivial
  | (manager, .ok .failed) =>
      exact (result_guarded (fun _ _ => trivial) _ _ _).bind fun _ _ => setAndPersist_noNil _ _
  | (manager, .ok .successful) => exact released_noNil h hactive
  | (manager, .ok .active) => exact setAndPersist_noNil _ _
  | (manager, .ok .none) =>
      show Prog.Guarded _ _ _ (if _ then _ else _) _
      split
      · trivial
      · rename_i hdel
        refine (create_guarded (fun _ _ => trivial) (releaseJob_noNil h (himage (by simpa using hdel)))).bind
          fun err _ => ?_
        cases err with
        | some err => exact notCreated_noNil _ _
        | none => trivial

theorem checkDeadline_noNil (r : EnvironmentReconciler) (e : Environment) :
    NoNil environment request (r.checkDeadline e) := by
  unfold checkDeadline
  split
  · refine ⟨trivial, fun now _ => ?_⟩
    show Prog.Guarded _ _ _ (if _ then _ else _) _
    split
    · refine (setCondition_guarded (fun _ _ => trivial) e _).bind fun out _ => ?_
      dsimp only
      split
      · exact ⟨trivial, fun a _ => trivial⟩
      · exact ⟨trivial, fun a _ => trivial⟩
    · exact ⟨trivial, fun now _ => trivial⟩
  · trivial

theorem reconcileCompleted_noNil (e : Environment) : NoNil environment request (reconcileCompleted e) := by
  unfold reconcileCompleted
  split
  · refine ⟨trivial, fun a _ => ?_⟩
    cases a with
    | ok e' => trivial
    | error err =>
        show Prog.Guarded _ _ _ (if _ then _ else _) _
        split <;> trivial
  · trivial

/-- The two conditions are enough. -/
theorem reconcile_noNil {e : Environment} (hcompletion : e.status.completionTime = none)
    (hproviders : e.spec.providers ≠ none ∨ Idle e) (himage : request.spec.image ≠ none ∨ ¬ Releasing e) :
    NoNil environment request (reconcile e) := by
  unfold reconcile
  cases hactive : findStatusCondition e.status.conditions .active with
  | none =>
      refine (setCondition_guarded (fun _ _ => trivial) e _).bind fun out _ => ?_
      exact ⟨trivial, fun a _ => trivial⟩
  | some c =>
      dsimp only
      split
      · exact ⟨trivial, fun a _ => trivial⟩
      rename_i hkept
      have hne : findStatusCondition e.status.conditions .active ≠ none := by rw [hactive]; nofun
      have hproviders : e.spec.providers ≠ none := by
        refine hproviders.resolve_right ?_
        rintro (h | h | ⟨hdel, hfin⟩)
        · exact h hcompletion
        · exact hne h
        · simp [hdel, hfin] at hkept
      split
      · exact reconcileEnvironment_noNil hproviders
      · rename_i hpending
        refine reconcileReleaser_noNil hproviders hne fun hdel hname => ?_
        exact himage.resolve_right fun h => h ⟨hcompletion, hne, by simpa using hpending, hdel, hname⟩

/-! ## Needed to be safe -/

/-- A path on which the pointer to the providers is dereferenced. -/
theorem withProviders_nil {α : Type} {f : Providers → M α} {e : Environment} (h : e.spec.providers = none) :
    ¬ NoNil environment request (withProviders e f) := by
  unfold withProviders
  rw [h]
  exact fun hg => hg trivial

/-- A finished release job. -/
def finishedJob : Job :=
  { metadata := { name := "release" }
    spec := {}
    status := { conditions := [{ type := .complete, status := .true }] } }

theorem status_finished (j : JobManager) :
    j.status.Can (free (Reads environment request)) (fun out _ => out.2 = .ok .successful) () :=
  ⟨.ok [finishedJob], (), trivial, rfl⟩

theorem resultLoop_can (manager : String) (names : List String) (jobs : List Job) (result : Result) :
    (resultLoop manager names jobs result).Can (free (Reads environment request)) (fun _ _ => True) () := by
  cases jobs with
  | nil => trivial
  | cons job jobs => exact ⟨.ok [], (), trivial, trivial⟩

/-- Without providers a finished release job is enough to die. -/
theorem reconcileReleaser_nil {e : Environment} (h : e.spec.providers = none) :
    ¬ NoNil environment request (reconcileReleaser e) := by
  refine not_guarded_bind (status_finished _) ?_
  rintro ⟨manager, _⟩ rfl
  refine not_guarded_bind ((resultLoop_can _ _ _ _).bind fun _ _ _ => trivial) (R := fun _ => True) fun result _ => ?_
  exact not_guarded_bind_left (withProviders_nil h)

theorem getReleasable_can (r : ResourceKind) (n : String) :
    (getReleasable r n).Can (free (Reads environment request)) (fun out _ => ∃ x, out = .ok x) () :=
  ⟨.ok ⟨{ name := n }, r.casesOn {} {} {}, {}⟩, (), trivial, .ok ⟨{ name := n }, {}, {}⟩, (), trivial, _, rfl⟩

/-- Without an image the release job cannot be built. -/
theorem releaseJob_nil {e : Environment} {providers : Providers} (hproviders : e.spec.providers = some providers)
    (hname : environmentRequestName e ≠ "") (himage : request.spec.image = none) :
    ¬ NoNil environment request (releaseJob e) := by
  unfold releaseJob environmentRequest
  rw [if_neg hname]
  refine not_guarded_call (.ok request) rfl ?_
  show ¬ Prog.Guarded _ _ _ (withProviders e _) _
  unfold withProviders
  rw [hproviders]
  refine not_guarded_bind (getReleasable_can _ _) ?_
  rintro _ ⟨iut, rfl⟩
  refine not_guarded_bind (getReleasable_can _ _) ?_
  rintro _ ⟨logArea, rfl⟩
  refine not_guarded_bind (getReleasable_can _ _) ?_
  rintro _ ⟨executionSpace, rfl⟩
  refine not_guarded_bind (checkCluster_can request ⟨{ name := "" }, {}, ()⟩ fun _ => trivial) ?_
  rintro _ rfl
  simp only [himage]
  exact fun hg => hg trivial

theorem reconcileReleaser_imageless {e : Environment} {providers : Providers}
    (hproviders : e.spec.providers = some providers) (hdel : e.deleting = true)
    (hname : environmentRequestName e ≠ "") (himage : request.spec.image = none) :
    ¬ NoNil environment request (reconcileReleaser e) := by
  refine not_guarded_bind (status_can _ fun _ => trivial) ?_
  rintro ⟨manager, _⟩ rfl
  show ¬ Prog.Guarded _ _ _ (if _ then _ else _) _
  rw [if_neg (by simp [hdel])]
  exact not_guarded_bind_left (not_guarded_bind_left (releaseJob_nil hproviders hname himage))

/-- The two conditions are needed. -/
theorem reconcile_nil {e : Environment}
    (h : (e.spec.providers = none ∧ ¬ Idle e) ∨ (request.spec.image = none ∧ Releasing e)) :
    ¬ NoNil environment request (reconcile e) := by
  unfold reconcile
  cases hactive : findStatusCondition e.status.conditions .active with
  | none =>
      rcases h with ⟨_, hidle⟩ | ⟨_, hreleasing⟩
      · exact absurd (.inr (.inl hactive)) hidle
      · exact absurd hactive hreleasing.2.1
  | some c =>
      dsimp only
      have hkept : ¬ (!e.deleting && !e.metadata.containsFinalizer releaseFinalizer) = true := by
        rcases h with ⟨_, hidle⟩ | ⟨_, hreleasing⟩
        · intro hk
          refine hidle (.inr (.inr ?_))
          simpa using hk
        · simp [hreleasing.2.2.2.1]
      rw [if_neg hkept]
      cases hproviders : e.spec.providers with
      | none =>
          split
          · exact withProviders_nil hproviders
          · exact reconcileReleaser_nil hproviders
      | some providers =>
          obtain ⟨himage, _, _, hpending, hdel, hname⟩ := h.resolve_left fun hn => by
            rw [hproviders] at hn
            cases hn.1
          rw [if_neg (by simp [hpending])]
          exact reconcileReleaser_imageless hproviders hdel hname himage

/-- `reconcile` is on a path of `Reconcile`. -/
theorem noNil_of_Reconcile {r : EnvironmentReconciler} {name : String}
    (hcompletion : environment.status.completionTime = none)
    (hg : NoNil environment request (r.Reconcile name)) : NoNil environment request (reconcile environment) := by
  have hg := hg.2 (.ok environment) rfl
  simp only [Prog.bind, hcompletion] at hg
  exact (guarded_bind.mp hg).post fun _ _ => trivial

/-- **When an Environment is reconciled without dereferencing nil.** Exactly if it has providers or does not need them
    yet or any more, and the request that owns it has an image or no release job has to be built. -/
theorem reconcile_deref_iff (r : EnvironmentReconciler) (name : String) (environment : Environment)
    (request : EnvironmentRequest) :
    (r.Reconcile name).Guarded (Reads environment request) (fun _ => True) (fun _ => True) (fun _ => True) ↔
      (environment.spec.providers ≠ none ∨ Idle environment) ∧
        (request.spec.image ≠ none ∨ ¬ Releasing environment) := by
  constructor
  · intro hg
    cases hcompletion : environment.status.completionTime with
    | some t =>
        refine ⟨.inr (.inl (by rw [hcompletion]; exact Option.some_ne_none t)), .inr fun h => ?_⟩
        rw [h.1] at hcompletion
        cases hcompletion
    | none =>
        have hrec := noNil_of_Reconcile hcompletion hg
        constructor
        · by_contra hn
          rw [not_or, not_not] at hn
          exact reconcile_nil (.inl hn) hrec
        · by_contra hn
          rw [not_or, not_not, not_not] at hn
          exact reconcile_nil (.inr hn) hrec
  · rintro ⟨hproviders, himage⟩
    refine ⟨trivial, fun a ha => ?_⟩
    cases a with
    | error e => trivial
    | ok e =>
        obtain rfl : e = environment := ha
        simp only [Prog.bind]
        cases hcompletion : e.status.completionTime with
        | some t => exact reconcileCompleted_noNil e
        | none =>
            refine (reconcile_noNil hcompletion hproviders himage).bind fun out _ => ?_
            obtain ⟨e', err⟩ := out
            cases err with
            | some err => trivial
            | none => exact checkDeadline_noNil r e'

/-- An Environment without providers that waits for its resources. -/
def bareEnvironment : Environment :=
  { metadata := { name := "environment", finalizers := [releaseFinalizer] }
    spec := {}
    status := { conditions := [inactive .pending "Waiting for environment to become ready"] } }

/-- **It takes the reconciler down.** -/
theorem bareEnvironment_deref : ∃ request : EnvironmentRequest,
    ¬ ((⟨fun _ => ""⟩ : EnvironmentReconciler).Reconcile "environment").Guarded (Reads bareEnvironment request)
      (fun _ => True) (fun _ => True) (fun _ => True) := by
  refine ⟨⟨{ name := "request" }, { image := some {} }, {}⟩, fun hg => ?_⟩
  refine reconcile_nil (.inl ⟨rfl, ?_⟩) (noNil_of_Reconcile rfl hg)
  rintro (h | h | h)
  · exact h rfl
  · exact absurd h (by decide)
  · exact absurd h.2 (by decide)

end EnvironmentReconciler

end Etos
