import Etos.Controller.Jobs

/-!
# `Controller.Resource` — the Iut, LogArea and ExecutionSpace reconcilers

`internal/controller/iut_controller.go`, `logarea_controller.go` and `executionspace_controller.go`, with the
release jobs of `internal/release`. The three reconcilers are one program over the kind of resource, up to the
texts they write and the completion time: an Iut takes the transition time of its Active condition, the two
others take the clock. Whatever the three have in common is stated once over `r : ResourceKind`; the members
follow under the names of the source.
-/

namespace Etos

open Kube

/-! ## Shared steps -/

/-- Status and reason of a condition. -/
def ReleasableStatus.cond (st : ReleasableStatus) (t : ConditionType) : Option (ConditionStatus × Reason) :=
  (findStatusCondition st.conditions t).map fun c => (c.status, c.reason)

theorem ReleasableStatus.cond_eq_none {st : ReleasableStatus} {t : ConditionType} :
    st.cond t = none ↔ findStatusCondition st.conditions t = none := Option.map_eq_none_iff

theorem ReleasableStatus.cond_of_find {st : ReleasableStatus} {t : ConditionType} {c : Condition}
    (h : findStatusCondition st.conditions t = some c) : st.cond t = some (c.status, c.reason) := by
  rw [cond, h]
  rfl

theorem isStatusReason_cond {st : ReleasableStatus} {t : ConditionType} {r : Reason} :
    isStatusReason st.conditions t r = true ↔ ∃ s, st.cond t = some (s, r) := by
  rw [isStatusReason_iff]
  constructor
  · rintro ⟨c, hc, rfl⟩
    exact ⟨c.status, ReleasableStatus.cond_of_find hc⟩
  · rintro ⟨s, hs⟩
    obtain ⟨c, hc, he⟩ := Option.map_eq_some_iff.mp hs
    exact ⟨c, hc, congrArg Prod.snd he⟩

/-- How far an object has come: one of its conditions, and its completion time. -/
structure Progress where
  cond : Option (ConditionStatus × Reason)
  completion : Option Int
  deriving DecidableEq

def ReleasableStatus.progress (st : ReleasableStatus) (t : ConditionType) : Progress :=
  ⟨st.cond t, st.completionTime⟩

section SetCondition

variable {S : Type} (now : Int) (o : Object S ReleasableStatus) (c : Condition)

/-- An object with the condition set at time `now`. -/
def conditionSet : Object S ReleasableStatus :=
  { o with status := { o.status with conditions := (setStatusCondition now c o.status.conditions).1 } }

/-- Does setting the condition change anything? -/
def conditionChanged : Bool := (setStatusCondition now c o.status.conditions).2

/-- `meta.SetStatusCondition(&o.Status.Conditions, c)` on an object that is not a TestRun. -/
def setCondition : M (Object S ReleasableStatus × Bool) := do
  let now ← metaNow
  return (conditionSet now o c, conditionChanged now o c)

/-- Setting a condition is one reading of the clock. -/
theorem setCondition_bind {α : Type} (f : Object S ReleasableStatus × Bool → M α) :
    (setCondition o c >>= f) = .call (Kube.Op.ext .timeNow : Op) fun t =>
      f (conditionSet (unixSeconds t) o c, conditionChanged (unixSeconds t) o c) := rfl

@[simp] theorem conditionSet_metadata : (conditionSet now o c).metadata = o.metadata := rfl
@[simp] theorem conditionSet_spec : (conditionSet now o c).spec = o.spec := rfl
@[simp] theorem conditionSet_completionTime :
    (conditionSet now o c).status.completionTime = o.status.completionTime := rfl

@[simp] theorem conditionSet_cond_self : (conditionSet now o c).status.cond c.type = some (c.status, c.reason) := by
  obtain ⟨c', hf, hs, hr, _⟩ := find_set_self now c o.status.conditions
  rw [← hs, ← hr]
  exact ReleasableStatus.cond_of_find hf

theorem conditionSet_progress : (conditionSet now o c).status.progress c.type =
    ⟨some (c.status, c.reason), o.status.completionTime⟩ :=
  congrArg (Progress.mk · o.status.completionTime) (conditionSet_cond_self now o c)

/-- A condition that does not change is there already. -/
theorem conditionSet_unchanged (h : conditionChanged now o c = false) :
    conditionSet now o c = o ∧ o.status.cond c.type = some (c.status, c.reason) := by
  obtain ⟨hsame, c', hf, hs, hr, _⟩ := set_unchanged h
  refine ⟨?_, ?_⟩
  · unfold conditionSet
    rw [hsame]
  · rw [← hs, ← hr]
    exact ReleasableStatus.cond_of_find hf

end SetCondition

/-- `if apierrors.IsConflict(err) { return ctrl.Result{Requeue: true}, nil }`, and else the error. -/
def requeueOnConflict : Option Err → ReconcileResult × Option Err
  | none => ({}, none)
  | some e => if e.isConflict then ({ requeue := true }, none) else ({}, some e)

/-- `client.IgnoreNotFound`. -/
def ignoreNotFound (e : Err) : Option Err := if e.isNotFound then none else some e

/-- `getProvider`. -/
def getProvider (name : String) : M (Except Err Provider) := M.get .provider name

/-- The cluster a request is labelled with, if any, must exist. -/
def checkCluster (environmentrequest : EnvironmentRequest) : M (Option Err) :=
  if environmentrequest.metadata.labels.get clusterLabel = "" then return none
  else do
    let a ← M.get .cluster (environmentrequest.metadata.labels.get clusterLabel)
    return errOf a

/-- A condition of type Active with the status False. -/
def inactive (reason : Reason) (message : String) : Condition :=
  { type := .active, status := .false, reason := reason, message := message }

/-! ## `internal/release` -/

/-- `ReleaseContainer`; the namespace argument is the namespace everything lives in. -/
def ReleaseContainer (name containerName : String) (provider : Provider)
    (environmentrequest : EnvironmentRequest) (noDelete : Bool) : Container :=
  { name := containerName
    image := provider.spec.image
    args := ["-release", "-name=" ++ name, "-environment-request=" ++ environmentrequest.name,
      "-provider=" ++ provider.name] ++ if noDelete then ["-nodelete"] else [] }

/-- `if value != "" { labels[key] = value }`. -/
def setUnlessEmpty (labels : StrMap) (key value : String) : StrMap :=
  if value = "" then labels else labels.set key value

/-- The labels of a release job. -/
def releaseLabels (name : String) (environmentrequest : EnvironmentRequest) : StrMap :=
  let labels : StrMap :=
    [("app.kubernetes.io/name", name), ("app.kubernetes.io/part-of", "etos"),
      (requestLabel, environmentrequest.spec.name), (requestIdLabel, environmentrequest.spec.id)]
  let labels := setUnlessEmpty labels clusterLabel (environmentrequest.metadata.labels.get clusterLabel)
  setUnlessEmpty labels idLabel environmentrequest.spec.identifier

/-- `ReleaseJob`. -/
def ReleaseJob (jobName name : String) (environmentrequest : EnvironmentRequest)
    (containers : List Container) : Job :=
  { metadata := { name := jobName, labels := releaseLabels name environmentrequest }
    spec :=
      { containers := containers
        serviceAccountName := environmentrequest.spec.serviceAccountName
        ttlSecondsAfterFinished := some 300 }
    status := {} }

namespace ResourceKind

/-- The kind an owner reference to such a resource has. -/
def kindName : ResourceKind → String
  | .iut => "Iut"
  | .logArea => "LogArea"
  | .executionSpace => "ExecutionSpace"

/-- `IutReleaserName`, `LogAreaReleaserName` and `ExecutionSpaceReleaserName`. -/
def releaserName : ResourceKind → String
  | .iut => "iut-releaser"
  | .logArea => "log-area-releaser"
  | .executionSpace => "execution-space-releaser"

/-- The message of a resource that is being released. -/
def releasingMessage : ResourceKind → String
  | .iut => "Releasing IUT"
  | .logArea => "Releasing LogArea"
  | .executionSpace => "Releasing ExecutionSpace"

/-- `IutReleaserContainer`, `LogAreaReleaserContainer` and `ExecutionSpaceReleaserContainer`. -/
def releaserContainer (r : ResourceKind) (resource : Resource r) (provider : Provider)
    (environmentrequest : EnvironmentRequest) (skipDeleting : Bool) : Container :=
  ReleaseContainer resource.name r.releaserName provider environmentrequest skipDeleting

/-- `IutReleaser`, `LogAreaReleaser` and `ExecutionSpaceReleaser`. -/
def releaser (r : ResourceKind) (resource : Resource r) (environmentrequest : EnvironmentRequest)
    (provider : Provider) (skipDeleting : Bool) : Job :=
  ReleaseJob resource.name r.releaserName environmentrequest
    [r.releaserContainer resource provider environmentrequest skipDeleting]

end ResourceKind

/-! ## The reconciler -/

namespace ResourceReconciler

variable (r : ResourceKind)

/-- `jobs.NewJob(r.Client, IutOwnerKey, …)` and its siblings. -/
def jobManager (resource : Resource r) : JobManager :=
  { ownerAPIVersion := apiV2GroupVersionString, ownerKind := r.kindName, name := resource.name }

/-- `releaseJob`: a job that runs the provider's releaser without deleting the resource. -/
def releaseJob (resource : Resource r) : M (Except Err Job) := do
  match ← getProvider (r.common resource.spec).providerID with
  | .error e => return .error e
  | .ok provider =>
      match ← M.get .environmentRequest (r.common resource.spec).environmentRequest with
      | .error e => return .error e
      | .ok environmentrequest =>
          let job := r.releaser resource environmentrequest provider true
          return .ok { job with metadata :=
            job.metadata.setControllerReference apiV2GroupVersionString r.kindName resource.name }

/-- `r.Status().Update(ctx, resource)`, for its error. -/
def persist (resource : Resource r) : M (Option Err) := do
  let (_, err) ← M.statusUpdate (.resource r) resource
  return err

/-- Set a condition, and write the resource if that changed anything. -/
def setAndPersist (resource : Resource r) (c : Condition) : M (Option Err) := do
  let (resource, changed) ← setCondition resource c
  if changed then persist r resource else return none

/-- The condition after a successful job, from the conclusion of its result. -/
def releasedCondition (result : Result) : Condition :=
  inactive (if result.conclusion = conclusionFailed then .failed else .completed) result.description

/-- `resource.Status.CompletionTime = &t`. -/
def completeAt (resource : Resource r) (t : Int) : Resource r :=
  { resource with status := { resource.status with completionTime := some t } }

/-- `case jobs.StatusSuccessful` of an Iut. The completion time points into the Active condition, so it moves
    with the transition time that `SetStatusCondition` writes there. -/
def iutReleased (iut : Iut) (result : Result) : M (Option Err) :=
  match findStatusCondition iut.status.conditions .active with
  | none => .panic "Active condition"
  | some _ => do
      let (iut, changed) ← setCondition iut (releasedCondition result)
      let transition := match findStatusCondition iut.status.conditions .active with
        | some c => c.lastTransitionTime
        | none => 0
      if changed then persist .iut (completeAt .iut iut transition) else return none

/-- `case jobs.StatusSuccessful` of a LogArea or an ExecutionSpace: the completion time is the clock's. -/
def resourceReleased (resource : Resource r) (result : Result) : M (Option Err) := do
  let now ← metaNow
  let (resource, changed) ← setCondition (completeAt r resource now) (releasedCondition result)
  -- without a new condition the completion time is lost
  if changed then persist r resource else return none

/-- `case jobs.StatusSuccessful`. -/
def released : (r : ResourceKind) → Resource r → Result → M (Option Err)
  | .iut => iutReleased
  | .logArea => resourceReleased .logArea
  | .executionSpace => resourceReleased .executionSpace

/-- Creating the release job failed; a failed resource keeps its message. -/
def notCreated (resource : Resource r) (err : Err) : M (Option Err) :=
  if isStatusReason resource.status.conditions .active .failed then return some err
  else do
    let (resource, changed) ← setCondition resource (inactive .failed err.text)
    if changed then persist r resource else return some err

/-- `reconcileIutReleaser`, `reconcileLogAreaReleaser` and `reconcileExecutionSpaceReleaser`. -/
def reconcileReleaser (resource : Resource r) : M (Option Err) := do
  let (manager, jobStatus) ← (jobManager r resource).status
  match jobStatus with
  | .error e => return some e
  | .ok .failed => do
      let result ← manager.result r.releaserName
      setAndPersist r resource (inactive .failed result.description)
  | .ok .successful => do
      let result ← manager.result r.releaserName
      released r resource result
  | .ok .active => setAndPersist r resource (inactive .pending r.releasingMessage)
  | .ok .none =>
      if !resource.deleting then return none
      else do
        match ← JobManager.create (releaseJob r resource) with
        | some err => notCreated r resource err
        | none => setAndPersist r resource (inactive .pending r.releasingMessage)

/-- `reconcile`: initial condition, finalizer, then the releaser of a resource under deletion. -/
def reconcile (resource : Resource r) : M (Option Err) :=
  match findStatusCondition resource.status.conditions .active with
  | none => do
      let (resource, _) ← setCondition resource (inactive .pending "Waiting for environment")
      persist r resource
  | some active =>
      -- a failed release is not tried again
      if active.reason = .failed then return none
      else if !resource.deleting then
        if resource.metadata.containsFinalizer providerFinalizer then return none
        else do
          let (_, err) ← M.update (.resource r)
            { resource with metadata := resource.metadata.addFinalizer providerFinalizer }
          return err
      else reconcileReleaser r resource

/-- Drop the provider finalizer if asked to; the resource in memory is then the one the server answers with. -/
def dropFinalizerIf (drop : Bool) (resource : Resource r) : M (Resource r × Option Err) :=
  if drop then
    M.update (.resource r) { resource with metadata := resource.metadata.removeFinalizer providerFinalizer }
  else return (resource, none)

/-- The condition of a resource that an Environment manages. -/
def managedCondition (resource : Resource r) : Condition :=
  if resource.deleting then inactive .pending r.releasingMessage
  else { type := .active, status := .true, reason := .active, message := "In use" }

/-- The ownership handoff: an Environment owns the resource, so this reconciler gives up its finalizer and
    only mirrors the deletion in the status. -/
def managed (resource : Resource r) : M (ReconcileResult × Option Err) := do
  let (resource, err) ←
    dropFinalizerIf r (resource.metadata.containsFinalizer providerFinalizer) resource
  match err with
  | some e => return requeueOnConflict (some e)
  | none => do
      let err ← setAndPersist r resource (managedCondition r resource)
      return requeueOnConflict err

/-- A released resource: drop the finalizer if it is being deleted, then delete the jobs of a manager that
    has not looked for any. -/
def completed (resource : Resource r) : M (ReconcileResult × Option Err) := do
  let (resource, err) ←
    dropFinalizerIf r (resource.deleting && resource.metadata.containsFinalizer providerFinalizer) resource
  match err with
  | some e => return requeueOnConflict (some e)
  | none => do
      let _ ← (jobManager r resource).delete
      return ({}, none)

/-- `Reconcile`. -/
def Reconcile (name : String) : M (ReconcileResult × Option Err) := do
  match ← M.get (.resource r) name with
  | .error e => return ({}, ignoreNotFound e)
  | .ok resource =>
      if ownedByEnvironment resource.metadata.ownerReferences then managed r resource
      else
        match resource.status.completionTime with
        | some _ => completed r resource
        | none => do
            let err ← reconcile r resource
            return requeueOnConflict err

end ResourceReconciler

/-- `IutReconciler.Reconcile`. -/
def IutReconciler.Reconcile : String → M (ReconcileResult × Option Err) := ResourceReconciler.Reconcile .iut
/-- `LogAreaReconciler.Reconcile`. -/
def LogAreaReconciler.Reconcile : String → M (ReconcileResult × Option Err) :=
  ResourceReconciler.Reconcile .logArea
/-- `ExecutionSpaceReconciler.Reconcile`. -/
def ExecutionSpaceReconciler.Reconcile : String → M (ReconcileResult × Option Err) :=
  ResourceReconciler.Reconcile .executionSpace

end Etos
