import Etos.Controller.Resource

/-!
# `Controller.Environment` — the Environment reconciler

`internal/controller/environment_controller.go`, function by function. A *pending* Environment takes ownership
of the Iut, LogArea and ExecutionSpace it names: it becomes their controller and puts its own finalizer on
them. Under deletion it runs a release job, takes its finalizer off the three resources, completes, and drops
its own finalizer. An Environment past its deadline is deleted.

The Environment is passed along as the Go code mutates it, so that the deadline check at the end of
`Reconcile` sees what the steps before it left in memory.
-/

namespace Etos

open Kube

/-- The reconciler's configuration: how a `time.Time` is printed. -/
structure EnvironmentReconciler where
  timeString : Int → String

namespace EnvironmentReconciler

def environmentKind : String := "Environment"

/-- `jobs.NewJob(r.Client, EnvironmentOwnerKey, …)`. -/
def jobManager (environment : Environment) : JobManager :=
  { ownerAPIVersion := apiGroupVersionString, ownerKind := environmentKind, name := environment.name }

/-- Set a condition, and write the Environment if that changed anything. -/
def setAndPersist (environment : Environment) (c : Condition) : M (Environment × Option Err) := do
  let (environment, changed) ← setCondition environment c
  if changed then M.statusUpdate .environment environment else return (environment, none)

/-- `environment.Spec.Providers`, a pointer. -/
def withProviders {α : Type} (environment : Environment) (f : Providers → M α) : M α :=
  match environment.spec.providers with
  | none => .panic "environment.Spec.Providers"
  | some providers => f providers

/-- The name under which an Environment refers to a kind of resource. -/
def named (providers : Providers) : ResourceKind → String
  | .iut => providers.iut
  | .logArea => providers.logArea
  | .executionSpace => providers.executionSpace

/-! ## A pending Environment -/

/-- The metadata of a resource after the Environment has taken it over. -/
def ownedMeta (environment : Environment) (m : ObjectMeta) : ObjectMeta :=
  (m.setControllerReference apiGroupVersionString environmentKind environment.name).addFinalizer
    releaseFinalizer

/-- `takeOwnership`. -/
def takeOwnership (environment : Environment) (r : ResourceKind) (resource : Resource r) :
    M (Resource r × Option Err) :=
  -- whoever the controller is
  if resource.metadata.hasControllerReference then return (resource, none)
  else M.update (.resource r) { resource with metadata := ownedMeta environment resource.metadata }

/-- Fetch a resource and take ownership of it. -/
def takeResource (environment : Environment) (r : ResourceKind) (name : String) :
    M (Except Err (Resource r)) := do
  match ← M.get (.resource r) name with
  | .error e => return .error e
  | .ok resource => do
      let (resource, err) ← takeOwnership environment r resource
      match err with
      | some e => return .error e
      | none => return .ok resource

/-- The condition of an Environment that can be used. -/
def readyForUse : Condition :=
  { type := .active, status := .true, reason := .completed, message := "Actively being used" }

/-- `reconcileEnvironment`. -/
def reconcileEnvironment (environment : Environment) : M (Environment × Option Err) :=
  withProviders environment fun providers => do
    match ← takeResource environment .iut providers.iut with
    | .error e => return (environment, some e)
    | .ok iut =>
        match ← takeResource environment .logArea providers.logArea with
        | .error e => return (environment, some e)
        | .ok logArea =>
            match ← takeResource environment .executionSpace providers.executionSpace with
            | .error e => return (environment, some e)
            | .ok executionSpace => do
                match ← checkProviders
                    { iut := iut.spec.providerID
                      logArea := logArea.spec.providerID
                      executionSpace := executionSpace.spec.providerID } with
                | some e => return (environment, some e)
                | none => setAndPersist environment readyForUse

/-! ## The release job -/

/-- The name of the EnvironmentRequest among the owners; the last one counts. -/
def environmentRequestName (environment : Environment) : String :=
  environment.metadata.ownerReferences.foldl
    (fun name owner => if owner.kind = "EnvironmentRequest" then owner.name else name) ""

/-- `environmentRequest`. -/
def environmentRequest (environment : Environment) : M (Except Err EnvironmentRequest) :=
  if environmentRequestName environment = "" then
    return .error (.new "failed to find EnvironmentRequest owner")
  else M.get .environmentRequest (environmentRequestName environment)

/-- A resource and its provider. -/
def getReleasable (r : ResourceKind) (name : String) : M (Except Err (Resource r × Provider)) := do
  match ← M.get (.resource r) name with
  | .error e => return .error e
  | .ok resource =>
      match ← getProvider (r.common resource.spec).providerID with
      | .error e => return .error e
      | .ok provider => return .ok (resource, provider)

/-- The labels of the release job. -/
def releaseJobLabels (environment : Environment) (environmentRequest : EnvironmentRequest) : StrMap :=
  let labels : StrMap :=
    [("app.kubernetes.io/name", "environment-releaser"), ("app.kubernetes.io/part-of", "etos"),
      (idLabel, environment.metadata.labels.get idLabel),
      ("etos.eiffel-community.github.io/sub-suite", environment.name)]
  setUnlessEmpty labels clusterLabel (environmentRequest.metadata.labels.get clusterLabel)

/-- The container that releases the Environment itself. -/
def environmentReleaser (environment : Environment) (environmentRequest : EnvironmentRequest)
    (image : Image) : Container :=
  { name := "environment-provider"
    image := image.image
    args := ["-release", "-name=" ++ environment.name, "-environment-request=" ++ environmentRequest.name,
      "-provider=environment-provider"] }

/-- The release job once everything it refers to has been fetched: the three releasers as init containers, then
    the Environment's own. -/
def releaseJobOf (environment : Environment) (environmentRequest : EnvironmentRequest) (image : Image)
    (iut : Iut × Provider) (logArea : LogArea × Provider) (executionSpace : ExecutionSpace × Provider) :
    Job :=
  let metadata : ObjectMeta :=
    { name := environment.name, labels := releaseJobLabels environment environmentRequest }
  { metadata := metadata.setControllerReference apiGroupVersionString environmentKind environment.name
    spec :=
      { initContainers :=
          [ResourceKind.releaserContainer .executionSpace executionSpace.1 executionSpace.2
              environmentRequest false,
            ResourceKind.releaserContainer .logArea logArea.1 logArea.2 environmentRequest false,
            ResourceKind.releaserContainer .iut iut.1 iut.2 environmentRequest false]
        containers := [environmentReleaser environment environmentRequest image]
        serviceAccountName := environmentRequest.spec.serviceAccountName
        ttlSecondsAfterFinished := some 300 }
    status := {} }

/-- `releaseJob` after the resources have been fetched: the cluster, if the request is labelled with one, must
    exist. Dereferences the embedded `Image` of the request. -/
def releaseJobFrom (environment : Environment) (environmentRequest : EnvironmentRequest)
    (iut : Iut × Provider) (logArea : LogArea × Provider) (executionSpace : ExecutionSpace × Provider) :
    M (Except Err Job) := do
  match ← checkCluster environmentRequest with
  | some e => return .error e
  | none =>
      match environmentRequest.spec.image with
      | none => .panic "environmentRequest.Spec.Image"
      | some image => return .ok (releaseJobOf environment environmentRequest image iut logArea executionSpace)

/-- `releaseJob`. -/
def releaseJob (environment : Environment) : M (Except Err Job) := do
  match ← environmentRequest environment with
  | .error e => return .error e
  | .ok environmentRequest =>
      withProviders environment fun providers => do
        match ← getReleasable .iut providers.iut with
        | .error e => return .error e
        | .ok iut =>
            match ← getReleasable .logArea providers.logArea with
            | .error e => return .error e
            | .ok logArea =>
                match ← getReleasable .executionSpace providers.executionSpace with
                | .error e => return .error e
                | .ok executionSpace => releaseJobFrom environment environmentRequest iut logArea executionSpace

/-! ## Releasing -/

/-- Take the release finalizer off one resource: was it there, and the error of the write. -/
def releaseResource (r : ResourceKind) (name : String) : M (Bool × Option Err) := do
  match ← M.get (.resource r) name with
  | .error e => return (false, ignoreNotFound e)
  | .ok resource =>
      if resource.metadata.containsFinalizer releaseFinalizer then do
        let (_, err) ← M.update (.resource r)
          { resource with metadata := resource.metadata.removeFinalizer releaseFinalizer }
        return (true, err)
      else return (false, none)

/-- `releaseProviders`: at most one resource per call. -/
def releaseProviders (environment : Environment) : M (Bool × Option Err) :=
  withProviders environment fun providers => do
    match ← releaseResource .executionSpace providers.executionSpace with
    | (false, none) =>
        match ← releaseResource .logArea providers.logArea with
        | (false, none) => releaseResource .iut providers.iut
        | out => return out
    | out => return out

/-- The reason of a condition of the release: a timed out Environment stays timed out. -/
def releaseReason (environment : Environment) (reason : Reason) : Reason :=
  if isStatusReason environment.status.conditions .active .timedOut then .timedOut else reason

/-- The condition after a successful release job. -/
def releasedCondition (environment : Environment) (result : Result) : Condition :=
  inactive (releaseReason environment
    (if result.conclusion = conclusionFailed then .failed else .completed)) result.description

/-- The completion time points into the Active condition, so it moves with the transition time
    `SetStatusCondition` writes there. -/
def completeWithActive (environment : Environment) : Environment :=
  match findStatusCondition environment.status.conditions .active with
  | none => environment
  | some c =>
      { environment with status := { environment.status with completionTime := some c.lastTransitionTime } }

/-- `case jobs.StatusSuccessful`: release the resources one reconcile at a time, then complete. Dereferences the
    Active condition. -/
def released (environment : Environment) (manager : JobManager) : M (Environment × Option Err) := do
  let result ← manager.result environment.name
  let condition := releasedCondition environment result
  let (updated, err) ← releaseProviders environment
  -- the update of the resource wakes the reconciler up again
  if updated || err.isSome then return (environment, err)
  else
    match findStatusCondition environment.status.conditions .active with
    | none => .panic "Active condition"
    | some _ => do
        let (environment, changed) ← setCondition environment condition
        if changed then do
          let (environment, err) ← M.statusUpdate .environment (completeWithActive environment)
          let deleted ← manager.delete
          return (environment, Err.join err deleted)
        else return (completeWithActive environment, none)

/-- Creating the release job failed. -/
def notCreated (environment : Environment) (err : Err) : M (Environment × Option Err) :=
  if isStatusReason environment.status.conditions .active .failed then return (environment, some err)
  else do
    let (environment, changed) ←
      setCondition environment (inactive (releaseReason environment .failed) err.text)
    if changed then M.statusUpdate .environment environment else return (environment, some err)

/-- The job part of `reconcile`. -/
def reconcileReleaser (environment : Environment) : M (Environment × Option Err) := do
  let (manager, jobStatus) ← (jobManager environment).status
  match jobStatus with
  | .error e => return (environment, some e)
  | .ok .failed => do
      let result ← manager.result environment.name
        [ResourceKind.iut.releaserName, ResourceKind.executionSpace.releaserName,
          ResourceKind.logArea.releaserName]
      setAndPersist environment (inactive (releaseReason environment .failed) result.description)
  | .ok .successful => released environment manager
  | .ok .active =>
      setAndPersist environment (inactive (releaseReason environment .active) "Release job is running")
  | .ok .none =>
      -- in use
      if !environment.deleting then return (environment, none)
      else do
        match ← JobManager.create (releaseJob environment) with
        | some err => notCreated environment err
        | none => return (environment, none)

/-! ## `reconcile` and `Reconcile` -/

/-- `reconcile`. -/
def reconcile (environment : Environment) : M (Environment × Option Err) :=
  match findStatusCondition environment.status.conditions .active with
  | none => do
      let (environment, _) ← setCondition environment
        (inactive .pending "Waiting for environment to become ready")
      M.statusUpdate .environment environment
  | some _ =>
      if !environment.deleting && !environment.metadata.containsFinalizer releaseFinalizer then
        M.update .environment
          { environment with metadata := environment.metadata.addFinalizer releaseFinalizer }
      else if isStatusReason environment.status.conditions .active .pending then
        reconcileEnvironment environment
      else reconcileReleaser environment

/-- The text of an exceeded deadline. -/
def deadlineMessage (r : EnvironmentReconciler) (deadline : Int) : String :=
  "Environment deadline of " ++ r.timeString deadline ++ " exceeded"

/-- The deadline check: first the status says so, then, in a later reconcile, the Environment is deleted. -/
def checkDeadline (r : EnvironmentReconciler) (environment : Environment) :
    M (ReconcileResult × Option Err) :=
  if environment.spec.deadline ≠ 0 ∧ !environment.deleting then do
    let now ← M.ext .timeNow
    if now > unixTime environment.spec.deadline then do
      let (environment, changed) ← setCondition environment
        (inactive .timedOut (r.deadlineMessage environment.spec.deadline))
      if changed then do
        let (_, err) ← M.statusUpdate .environment environment
        return ({}, err)
      else do
        -- an earlier pass has said so
        let a ← M.delete .environment environment.name
        return ({}, errOf a)
    else do
      let now ← M.ext .timeNow
      return ({ requeueAfter := unixTime environment.spec.deadline - now }, none)
  else return ({}, none)

/-- The branch of `Reconcile` for a completed Environment: drop the finalizer if it is being deleted. -/
def reconcileCompleted (environment : Environment) : M (ReconcileResult × Option Err) :=
  if environment.deleting && environment.metadata.containsFinalizer releaseFinalizer then do
    let (_, err) ← M.update .environment
      { environment with metadata := environment.metadata.removeFinalizer releaseFinalizer }
    match err with
    | some e => if e.isConflict then return ({ requeue := true }, none) else return ({}, ignoreNotFound e)
    | none => return ({}, none)
  else return ({}, none)

/-- `Reconcile`. -/
def Reconcile (r : EnvironmentReconciler) (name : String) : M (ReconcileResult × Option Err) := do
  match ← M.get .environment name with
  | .error e => return ({}, ignoreNotFound e)
  | .ok environment =>
      match environment.status.completionTime with
      | some _ => reconcileCompleted environment
      | none => do
          let (environment, err) ← reconcile environment
          match err with
          | some e => return requeueOnConflict (some e)
          | none => r.checkDeadline environment

end EnvironmentReconciler

end Etos
