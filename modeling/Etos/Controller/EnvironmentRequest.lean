import Etos.Controller.Resource

/-!
# `Controller.EnvironmentRequest` — the EnvironmentRequest reconciler

`internal/controller/environmentrequest_controller.go`, function by function. An EnvironmentRequest is served by
one *provider job*, which creates Iuts, LogAreas, ExecutionSpaces and then the Environments that use them. When
the job has finished the reconciler collects the resources no Environment owns (`cleanupUnused`); when the
request is deleted it deletes what carries the request's `Spec.Identifier` and waits for it to disappear
(`reconcileDeletion`).

Environment variables of the containers, resource limits and the namespace arguments are left out: nothing in
the controllers reads them back. The secrets behind them are read, since that can fail.
-/

namespace Etos

open Kube

/-- The kinds of objects that are created for an EnvironmentRequest. -/
def requestKinds : List Kind :=
  [.environment, .resource .iut, .resource .logArea, .resource .executionSpace]

namespace EnvironmentRequestReconciler

def environmentRequestKind : String := "EnvironmentRequest"

/-- `jobs.NewJob(r.Client, EnvironmentRequestOwnerKey, …)`. -/
def jobManager (environmentrequest : EnvironmentRequest) : JobManager :=
  { ownerAPIVersion := apiGroupVersionString
    ownerKind := environmentRequestKind
    name := environmentrequest.name }

/-- `r.Status().Update(ctx, environmentrequest)`, for its error. -/
def persist (environmentrequest : EnvironmentRequest) : M (Option Err) := do
  let (_, err) ← M.statusUpdate .environmentRequest environmentrequest
  return err

/-- A condition of type Ready. -/
def readyCondition (status : ConditionStatus) (reason : Reason) (message : String) : Condition :=
  { type := .ready, status := status, reason := reason, message := message }

/-! ## The provider job -/

/-- The secrets `envVarListFrom` reads; the variables themselves go to the containers only. -/
def envVarListFrom (environmentrequest : EnvironmentRequest) : M (Option Err) := do
  match ← environmentrequest.spec.config.encryptionKey.get with
  | .error e => return some e
  | .ok _ =>
      match ← Var.getPointer environmentrequest.spec.config.etosMessageBus.password with
      | .error e => return some e
      | .ok _ =>
          match ← Var.getPointer environmentrequest.spec.config.eiffelMessageBus.password with
          | .error e => return some e
          | .ok _ => return none

/-- A container of the provider job. -/
def providerContainer (name image provider : String) (environmentrequest : EnvironmentRequest) : Container :=
  { name := name
    image := image
    args := ["-environment-request=" ++ environmentrequest.name, "-provider=" ++ provider] }

/-- The labels of the provider job. -/
def providerJobLabels (environmentrequest : EnvironmentRequest) : StrMap :=
  let labels : StrMap :=
    [("app.kubernetes.io/name", "environment-provider"), ("app.kubernetes.io/part-of", "etos")]
  let labels := setUnlessEmpty labels idLabel environmentrequest.spec.identifier
  setUnlessEmpty labels clusterLabel (environmentrequest.metadata.labels.get clusterLabel)

/-- The provider job once everything it refers to has been fetched. -/
def providerJob (environmentrequest : EnvironmentRequest) (image : Image)
    (iutProvider logAreaProvider executionSpaceProvider : Provider) : Job :=
  let metadata : ObjectMeta :=
    { generateName := "environment-provider-", labels := providerJobLabels environmentrequest }
  { metadata := metadata.setControllerReference apiGroupVersionString environmentRequestKind
      environmentrequest.name
    spec :=
      { initContainers :=
          [providerContainer "iut-provider" iutProvider.spec.image iutProvider.name environmentrequest,
            providerContainer "log-area-provider" logAreaProvider.spec.image logAreaProvider.name
              environmentrequest,
            providerContainer "execution-space-provider" executionSpaceProvider.spec.image
              executionSpaceProvider.name environmentrequest]
        containers :=
          [providerContainer "environment-provider" image.image "environment-provider" environmentrequest]
        serviceAccountName := environmentrequest.spec.serviceAccountName }
    status := {} }

/-- The three `getProvider` calls of the provider job, and the job. Dereferences the embedded `Image`. -/
def providerJobFrom (environmentrequest : EnvironmentRequest) : M (Except Err Job) := do
  match ← getProvider environmentrequest.spec.providers.iut with
  | .error e => return .error e
  | .ok iutProvider =>
      match ← getProvider environmentrequest.spec.providers.logArea with
      | .error e => return .error e
      | .ok logAreaProvider =>
          match ← getProvider environmentrequest.spec.providers.executionSpace.id with
          | .error e => return .error e
          | .ok executionSpaceProvider =>
              match environmentrequest.spec.image with
              | none => .panic "environmentrequest.Spec.Image"
              | some image =>
                  return .ok (providerJob environmentrequest image iutProvider logAreaProvider
                    executionSpaceProvider)

/-- `environmentProviderJob`. -/
def environmentProviderJob (environmentrequest : EnvironmentRequest) : M (Except Err Job) := do
  match ← checkCluster environmentrequest with
  | some e => return .error e
  | none =>
      match ← envVarListFrom environmentrequest with
      | some e => return .error e
      | none => providerJobFrom environmentrequest

/-- `environmentrequest.Status.CompletionTime = &readyCondition.LastTransitionTime`. -/
def completeWithReady (environmentrequest : EnvironmentRequest) : EnvironmentRequest :=
  match findStatusCondition environmentrequest.status.conditions .ready with
  | none => environmentrequest
  | some c =>
      { environmentrequest with status :=
          { environmentrequest.status with completionTime := some c.lastTransitionTime } }

/-- The provider job has finished: set Ready, and if that changed anything complete the request. -/
def providerFinished (environmentrequest : EnvironmentRequest) (condition : Condition) : M (Option Err) := do
  let (environmentrequest, changed) ← setCondition environmentrequest condition
  if changed then persist (completeWithReady environmentrequest) else return none

/-- The result of the provider job, from all four containers. -/
def providerResult (manager : JobManager) : M Result :=
  manager.result "environment-provider" ["iut-provider", "execution-space-provider", "log-area-provider"]

/-- Ready after a successful job. -/
def successCondition (result : Result) : Condition :=
  if result.conclusion = conclusionFailed then readyCondition .false .failed result.description
  else readyCondition .true .completed result.description

/-- Creating the provider job failed. -/
def providerNotCreated (environmentrequest : EnvironmentRequest) (err : Err) : M (Option Err) :=
  if isStatusReason environmentrequest.status.conditions .ready .failed then return some err
  else do
    let (environmentrequest, changed) ←
      setCondition environmentrequest (readyCondition .false .failed err.text)
    if changed then persist environmentrequest else return some err

/-- No job exists: create it and mark the request as starting. -/
def providerMissing (environmentrequest : EnvironmentRequest) : M (Option Err) :=
  if environmentrequest.deleting then return none
  -- an earlier pass has created the job, and the cache does not have it yet
  else if isStatusReason environmentrequest.status.conditions .ready .starting then return none
  else do
    match ← JobManager.create (environmentProviderJob environmentrequest) with
    | some err => providerNotCreated environmentrequest err
    | none => do
        let (environmentrequest, changed) ← setCondition environmentrequest
          (readyCondition .false .starting "Environment provider job created")
        if changed then persist environmentrequest else return none

/-- `reconcileEnvironmentProvider`. -/
def reconcileEnvironmentProvider (environmentrequest : EnvironmentRequest) : M (Option Err) := do
  let (manager, jobStatus) ← (jobManager environmentrequest).status
  match jobStatus with
  | .error e => return some e
  | .ok .failed => do
      let result ← providerResult manager
      providerFinished environmentrequest (readyCondition .false .failed result.description)
  | .ok .successful => do
      let result ← providerResult manager
      providerFinished environmentrequest (successCondition result)
  | .ok .active => do
      let (environmentrequest, changed) ← setCondition environmentrequest
        (readyCondition .false .active "Environment provider is running")
      if changed then persist environmentrequest else return none
  | .ok .none => providerMissing environmentrequest

/-- The providers of a request, as `checkProviders` takes them. -/
def requestProviders (environmentrequest : EnvironmentRequest) : Providers :=
  { iut := environmentrequest.spec.providers.iut
    executionSpace := environmentrequest.spec.providers.executionSpace.id
    logArea := environmentrequest.spec.providers.logArea }

/-- `reconcile`. -/
def reconcile (environmentrequest : EnvironmentRequest) : M (Option Err) :=
  match findStatusCondition environmentrequest.status.conditions .ready with
  | none => do
      let (environmentrequest, _) ← setCondition environmentrequest
        (readyCondition .false .pending "Reconciliation started")
      persist environmentrequest
  | some ready =>
      -- a failed request is not tried again
      if ready.reason = .failed then return none
      else do
        match ← checkProviders (requestProviders environmentrequest) with
        | some e => do
            -- written whether or not it changed
            let (environmentrequest, _) ← setCondition environmentrequest
              (readyCondition .false .failed ("Provider check failed: " ++ e.text))
            persist environmentrequest
        | none => reconcileEnvironmentProvider environmentrequest

/-! ## Collecting unused resources -/

/-- The loop of `cleanupUnused` over one list: the first error ends it. -/
def deleteUnowned (r : ResourceKind) : List (Resource r) → M (Option Err)
  | [] => return none
  | resource :: rest =>
      -- in use
      if ownedByEnvironment resource.metadata.ownerReferences then deleteUnowned r rest
      else do
        match ← M.delete (.resource r) resource.name with
        | .error e => return some e
        | .ok _ => deleteUnowned r rest

/-- `cleanupUnused` for one kind of resource. -/
def cleanupKind (r : ResourceKind) (environmentrequest : EnvironmentRequest) : M (Option Err) := do
  match ← M.list (.resource r) (.label requestIdLabel environmentrequest.spec.id) with
  | .error e => return some e
  | .ok resources => deleteUnowned r resources

/-- `cleanupUnused`. -/
def cleanupUnused (environmentrequest : EnvironmentRequest) : M (Option Err) := do
  match ← cleanupKind .iut environmentrequest with
  | some e => return some e
  | none =>
      match ← cleanupKind .executionSpace environmentrequest with
      | some e => return some e
      | none => cleanupKind .logArea environmentrequest

/-! ## Deletion -/

/-- The loop over one list of `reconcileDeletion`: delete what is not being deleted yet; errors other than
    NotFound are joined. -/
def deleteEach (k : Kind) : List (Obj k) → M (Option Err)
  | [] => return none
  | o :: rest =>
      if o.deleting then deleteEach k rest
      else do
        let a ← M.delete k o.name
        let err := match errOf a with
          | some e => ignoreNotFound e
          | none => none
        let restErr ← deleteEach k rest
        return Err.join err restErr

/-- Delete the objects of one kind that are labelled with the request's identifier, and count them. -/
def deleteLabelled (k : Kind) (environmentrequest : EnvironmentRequest) : M (Int × Option Err) := do
  match ← M.list k (.label idLabel environmentrequest.spec.identifier) with
  | .error e => return (-1, some e)
  | .ok items => do
      let err ← deleteEach k items
      return (items.length, err)

def deleteEnvironments : EnvironmentRequest → M (Int × Option Err) := deleteLabelled .environment
def deleteIuts : EnvironmentRequest → M (Int × Option Err) := deleteLabelled (.resource .iut)
def deleteLogAreas : EnvironmentRequest → M (Int × Option Err) := deleteLabelled (.resource .logArea)
def deleteExecutionSpaces : EnvironmentRequest → M (Int × Option Err) :=
  deleteLabelled (.resource .executionSpace)

/-- Ready while the environment is released: as it is, with a new message. -/
def releasingCondition (environmentrequest : EnvironmentRequest) : Condition :=
  match findStatusCondition environmentrequest.status.conditions .ready with
  | none => readyCondition .false .unknown "Releasing environment"
  | some c => readyCondition c.status c.reason "Releasing environment"

/-- The first part of `reconcileDeletion`: announce the release in the status, unless the request has failed.
    Returns the request in memory and the error of the write. -/
def announceRelease (environmentrequest : EnvironmentRequest) : M (EnvironmentRequest × Option Err) :=
  if isStatusReason environmentrequest.status.conditions .ready .failed then
    return (environmentrequest, none)
  else do
    let (environmentrequest, changed) ←
      setCondition environmentrequest (releasingCondition environmentrequest)
    if changed then M.statusUpdate .environmentRequest environmentrequest
    else return (environmentrequest, none)

/-- The second part: delete everything labelled with the identifier. Returns how much was listed and the joined
    error. -/
def deleteResources (environmentrequest : EnvironmentRequest) : M (Int × Option Err) := do
  let (environments, err₁) ← deleteEnvironments environmentrequest
  let (iuts, err₂) ← deleteIuts environmentrequest
  let (logAreas, err₃) ← deleteLogAreas environmentrequest
  let (executionSpaces, err₄) ← deleteExecutionSpaces environmentrequest
  return (environments + iuts + logAreas + executionSpaces,
    Err.join (Err.join (Err.join err₁ err₂) err₃) err₄)

/-- The last part: nothing was listed, so the finalizer goes. -/
def removeFinalizer (environmentrequest : EnvironmentRequest) : M (ReconcileResult × Option Err) :=
  if environmentrequest.metadata.containsFinalizer releaseFinalizer then do
    let (_, err) ← M.update .environmentRequest
      { environmentrequest with metadata := environmentrequest.metadata.removeFinalizer releaseFinalizer }
    return requeueOnConflict err
  else return ({}, none)

/-- `reconcileDeletion`. -/
def reconcileDeletion (environmentrequest : EnvironmentRequest) : M (ReconcileResult × Option Err) := do
  let (environmentrequest, err) ← announceRelease environmentrequest
  match err with
  | some e => return requeueOnConflict (some e)
  | none => do
      let (count, allErr) ← deleteResources environmentrequest
      -- the errors are logged, and the request is queued again
      if allErr.isSome then return ({ requeue := true }, none)
      else if count ≠ 0 then return ({ requeueAfter := 5 * 1000000000 }, none)
      else removeFinalizer environmentrequest

/-! ## `Reconcile` -/

/-- The branch of `Reconcile` for a completed request. The job manager has not looked for jobs, so it deletes
    none; errors of the collection are only logged. -/
def reconcileCompleted (environmentrequest : EnvironmentRequest) : M (ReconcileResult × Option Err) := do
  let _ ← (jobManager environmentrequest).delete
  let _ ← cleanupUnused environmentrequest
  return ({}, none)

/-- `Reconcile` after the finalizer has been taken care of. -/
def reconcileFinalized (environmentrequest : EnvironmentRequest) : M (ReconcileResult × Option Err) :=
  match environmentrequest.status.completionTime with
  | some _ => reconcileCompleted environmentrequest
  | none => do
      let err ← reconcile environmentrequest
      return requeueOnConflict err

/-- `Reconcile`. -/
def Reconcile (name : String) : M (ReconcileResult × Option Err) := do
  match ← M.get .environmentRequest name with
  | .error e => return ({}, ignoreNotFound e)
  | .ok environmentrequest =>
      if !environmentrequest.deleting then
        if environmentrequest.metadata.containsFinalizer releaseFinalizer then
          reconcileFinalized environmentrequest
        else do
          let (_, err) ← M.update .environmentRequest
            { environmentrequest with metadata := environmentrequest.metadata.addFinalizer releaseFinalizer }
          return requeueOnConflict err
      else if environmentrequest.metadata.containsFinalizer releaseFinalizer then
        reconcileDeletion environmentrequest
      -- a finalizer of somebody else keeps it
      else reconcileFinalized environmentrequest

end EnvironmentRequestReconciler

end Etos
