import Etos.Api.Text
import Etos.Controller.Jobs

/-!
# `Controller.TestRun` — the TestRun reconciler

`internal/controller/testrun_controller.go`, function by function. The Go code mutates the TestRun it holds a
pointer to; here every function takes the TestRun and hands it back in its `Outcome`, together with the
`(updated bool, err error)` the Go function returns. A nil pointer that Go would dereference is a `panic`.

`SetStatusCondition` reads the wall clock for a transition time, and every `Status().Update` may fail, so both
are calls. The order of the calls is the order of the source, including the evaluation order of the arguments
of `errors.Join`.
-/

namespace Etos

open Kube

/-- What a step of the reconciler returns: the TestRun in memory, `updated` and `err`. -/
structure Outcome where
  testrun : TestRun
  updated : Bool
  err : Option Err

/-- The reconciler's configuration: is there a `Tracer`, and how a `time.Time` is printed. -/
structure TestRunReconciler where
  tracer : Bool
  timeString : Int → String

def testRunKind : String := "TestRun"

def traceparentKey : String := "etos.eiffel-community.github.io/traceparent"
def tracestateKey : String := "etos.eiffel-community.github.io/tracestate"
def baggageKey : String := "etos.eiffel-community.github.io/baggage"

namespace TestRunReconciler

/-- `meta.SetStatusCondition(&testrun.Status.Conditions, c)`. -/
def setCondition (testrun : TestRun) (c : Condition) : M (TestRun × Bool) := do
  let now ← metaNow
  let (conditions, changed) := setStatusCondition now c testrun.status.conditions
  return ({ testrun with status := { testrun.status with conditions := conditions } }, changed)

/-- `if testrun.Status.Verdict == "" { testrun.Status.Verdict = string(jobs.VerdictNone) }`. -/
def verdictOrNone (testrun : TestRun) : TestRun :=
  if testrun.status.verdict = "" then
    { testrun with status := { testrun.status with verdict := verdictNone } }
  else testrun

/-- `return true, r.Status().Update(ctx, testrun)`. -/
def updated (testrun : TestRun) : M Outcome := do
  let (testrun, err) ← M.statusUpdate .testRun testrun
  return ⟨testrun, true, err⟩

/-- `eventPublisher.Publish(testrun.Spec.ID, events.NewShutdown(result))`; an error is only logged. -/
def publish (testrun : TestRun) (result : Result) : M Unit := do
  let _ ← M.ext (.publish testrun.spec.id ⟨result⟩)
  return ()

/-- The fail-safe branch of a failed environment or suite runner: publish an inconclusive shutdown event, give
    the TestRun a verdict, clean up, and write the TestRun if its verdict changed. -/
def failSafe (testrun : TestRun) (description : String) (cleanup : M (Option Err)) : M Outcome := do
  -- whether or not it was published before
  publish testrun { conclusion := conclusionFailed, verdict := verdictInconclusive,
                    description := description }
  let deleted ← cleanup
  if (setInconclusiveVerdictIfUnset testrun).2 then do
    let (testrun, err) ← M.statusUpdate .testRun (setInconclusiveVerdictIfUnset testrun).1
    return ⟨testrun, true, Err.join deleted err⟩
  else return ⟨testrun, false, deleted⟩

/-- The objects a TestRun controls, by the index `TestRunOwnerKey`. -/
def owned (name : String) : Selector := .controlledBy apiGroupVersionString testRunKind name

/-- `jobs.NewJob(r.Client, TestRunOwnerKey, …)`. -/
def jobManager (testrun : TestRun) : JobManager :=
  { ownerAPIVersion := apiGroupVersionString, ownerKind := testRunKind, name := testrun.name }

/-! ## Tracing -/

/-- `maybeAddTraceparentLabel`: the TestRun, and the error of the deferred `r.Update`. -/
def maybeAddTraceparentLabel (r : TestRunReconciler) (testrun : TestRun) : M (TestRun × Option Err) :=
  if testrun.metadata.annotations.has traceparentKey then return (testrun, none)
  else if !r.tracer then return (testrun, none)
  else do
    let span ← M.ext .startSpan
    let annotations := ((testrun.metadata.annotations.set traceparentKey span.traceparent).set
      tracestateKey span.tracestate).set baggageKey span.baggage
    M.update .testRun { testrun with metadata := { testrun.metadata with annotations := annotations } }

/-! ## Environment requests -/

/-- The loop of `deleteEnvironmentRequests`: an error other than NotFound ends it. -/
def deleteRequests : List EnvironmentRequest → M (Option Err)
  | [] => return none
  | request :: rest =>
      if request.deleting then deleteRequests rest
      else do
        match ← M.delete .environmentRequest request.name with
        | .ok _ => deleteRequests rest
        | .error e => if e.isNotFound then deleteRequests rest else return some e

/-- `deleteEnvironmentRequests`. -/
def deleteEnvironmentRequests (testrun : TestRun) : M (Option Err) := do
  match ← M.list .environmentRequest (owned testrun.name) with
  | .error e => if e.isNotFound then return none else return some e
  | .ok requests => deleteRequests requests

/-- The labels of everything created for a TestRun. -/
def testRunLabels (testrun : TestRun) : StrMap :=
  [(idLabel, testrun.spec.id), (clusterLabel, testrun.spec.cluster),
    ("app.kubernetes.io/name", "suite-runner"), ("app.kubernetes.io/part-of", "etos")]

/-- The trace annotations an environment request inherits. -/
def traceAnnotations (testrun : TestRun) : StrMap :=
  testrun.metadata.annotations.filter (fun p => p.1 ∈ [traceparentKey, tracestateKey, baggageKey])

/-- `environmentRequest`. Dereferences `TestRunner` and `EnvironmentProvider` of the TestRun, and both message buses,
    the event repository and the database of the Cluster. -/
def environmentRequest (name testrunner : String) (cluster : Cluster) (testrun : TestRun) (tests : List Test)
    (dataset : Option Json) : M EnvironmentRequest := do
  let now ← M.ext .timeNow
  -- a timeout that is no number counts as a minute
  let deadline := unixSeconds now + (parseInt cluster.spec.config.environmentTimeout).getD 60
  let id ← M.ext .newUUID
  match testrun.spec.testRunner, testrun.spec.environmentProvider, cluster.spec.eiffelMessageBus,
      cluster.spec.etosMessageBus, cluster.spec.eventRepository, cluster.spec.database with
  | some testRunner, some environmentProvider, some eiffelMessageBus, some etosMessageBus, some eventRepository,
      some database =>
      return {
        metadata :=
          { labels := testRunLabels testrun
            annotations := traceAnnotations testrun
            generateName := testrun.name ++ "-" }
        spec :=
          { id := id
            name := name
            schemaVersion := testrun.spec.schemaVersion
            identifier := testrun.spec.id
            artifact := testrun.spec.artifact
            identity := testrun.spec.identity
            minimumAmount := 1
            maximumAmount := tests.length
            dataset := dataset
            providers :=
              { iut := testrun.spec.providers.iut
                executionSpace :=
                  { id := testrun.spec.providers.executionSpace
                    testRunner := testRunner.version
                    testRunnerImage := testrunner }
                logArea := testrun.spec.providers.logArea }
            tests := tests
            image := environmentProvider.image
            serviceAccountName := testrun.spec.cluster ++ "-provider"
            deadline := deadline
            config :=
              { eiffelMessageBus := eiffelMessageBus
                etosMessageBus := etosMessageBus
                etosApi := cluster.spec.config.etosApiURL
                etosSse := cluster.spec.config.etosSseURL
                encryptionKey := cluster.spec.config.encryptionKey
                routingKeyTag := cluster.spec.config.routingKeyTag
                graphQlServer := eventRepository.host
                etcdHost := database.etcd.host
                etcdPort := database.etcd.port
                waitForTimeout := cluster.spec.config.environmentTimeout
                eventDataTimeout := cluster.spec.config.eventDataTimeout
                serviceAccount := cluster.name ++ "-provider"
                testSuiteTimeout := cluster.spec.config.testSuiteTimeout
                testRunnerVersion := testRunner.version } }
        status := {} }
  | none, _, _, _, _, _ => .panic "testrun.Spec.TestRunner"
  | some _, none, _, _, _, _ => .panic "testrun.Spec.EnvironmentProvider"
  | some _, some _, none, _, _, _ => .panic "cluster.Spec.MessageBus.EiffelMessageBus"
  | some _, some _, some _, none, _, _ => .panic "cluster.Spec.MessageBus.ETOSMessageBus"
  | some _, some _, some _, some _, none, _ => .panic "cluster.Spec.EventRepository"
  | some _, some _, some _, some _, some _, none => .panic "cluster.Spec.Database"

/-- Nothing that `environmentRequest` dereferences is nil. -/
structure Equipped (cluster : Cluster) (testrun : TestRun) : Prop where
  testRunner : testrun.spec.testRunner ≠ none
  environmentProvider : testrun.spec.environmentProvider ≠ none
  eiffelMessageBus : cluster.spec.eiffelMessageBus ≠ none
  etosMessageBus : cluster.spec.etosMessageBus ≠ none
  eventRepository : cluster.spec.eventRepository ≠ none
  database : cluster.spec.database ≠ none

instance (cluster : Cluster) (testrun : TestRun) : Decidable (Equipped cluster testrun) :=
  decidable_of_iff (testrun.spec.testRunner ≠ none ∧ testrun.spec.environmentProvider ≠ none ∧
      cluster.spec.eiffelMessageBus ≠ none ∧ cluster.spec.etosMessageBus ≠ none ∧
      cluster.spec.eventRepository ≠ none ∧ cluster.spec.database ≠ none)
    ⟨fun ⟨a, b, c, d, e, f⟩ => ⟨a, b, c, d, e, f⟩, fun ⟨a, b, c, d, e, f⟩ => ⟨a, b, c, d, e, f⟩⟩

theorem Equipped.of_spec {cluster : Cluster} {testrun testrun' : TestRun} (h : Equipped cluster testrun)
    (hspec : testrun'.spec = testrun.spec) : Equipped cluster testrun' := by
  constructor
  · exact hspec ▸ h.testRunner
  · exact hspec ▸ h.environmentProvider
  · exact h.eiffelMessageBus
  · exact h.etosMessageBus
  · exact h.eventRepository
  · exact h.database

/-- Then a request is made of the time and of a fresh id. -/
theorem environmentRequest_equipped {cluster : Cluster} {testrun : TestRun} (h : Equipped cluster testrun)
    (name testrunner : String) (tests : List Test) (dataset : Option Json) :
    ∃ request : Int → String → EnvironmentRequest,
      (∀ now id, (request now id).spec.name = name ∧
        (request now id).spec.providers.executionSpace.testRunnerImage = testrunner ∧
        (request now id).spec.tests = tests) ∧
      environmentRequest name testrunner cluster testrun tests dataset = (do
        let now ← M.ext .timeNow
        let id ← M.ext .newUUID
        return request now id) := by
  obtain ⟨testRunner, htestRunner⟩ := Option.ne_none_iff_exists'.mp h.testRunner
  obtain ⟨environmentProvider, henvironmentProvider⟩ := Option.ne_none_iff_exists'.mp h.environmentProvider
  obtain ⟨eiffel, heiffel⟩ := Option.ne_none_iff_exists'.mp h.eiffelMessageBus
  obtain ⟨etos, hetos⟩ := Option.ne_none_iff_exists'.mp h.etosMessageBus
  obtain ⟨eventRepository, heventRepository⟩ := Option.ne_none_iff_exists'.mp h.eventRepository
  obtain ⟨database, hdatabase⟩ := Option.ne_none_iff_exists'.mp h.database
  unfold environmentRequest
  simp only [htestRunner, henvironmentProvider, heiffel, hetos, heventRepository, hdatabase]
  exact ⟨_, fun _ _ => ⟨rfl, rfl, rfl⟩, rfl⟩

/-- The distinct test runners of a suite, in order of first appearance: the keys of `indices`, where the
    index of a test runner is its position. -/
def testrunners (suite : Suite) : List String :=
  suite.tests.foldl (fun seen test =>
    if test.execution.testRunner ∈ seen then seen else seen ++ [test.execution.testRunner]) []

/-- Is there already a request for the suite and the test runner? The suite is matched by prefix. -/
def requestFound (suite : Suite) (testrunner : String) (requests : List EnvironmentRequest) : Bool :=
  requests.any (fun request =>
    suite.name.toList.isPrefixOf request.spec.name.toList &&
      decide (request.spec.providers.executionSpace.testRunnerImage = testrunner))

/-- The loop of `createEnvironmentRequests` over the test runners in the order the map yields them. -/
def createRequests (suite : Suite) (requests : List EnvironmentRequest) (testrun : TestRun)
    (cluster : Cluster) : List String → M (Option Err)
  | [] => return none
  | testrunner :: rest =>
      if requestFound suite testrunner requests then createRequests suite requests testrun cluster rest
      else do
        -- only the requests of a suite with several test runners are numbered
        let name :=
          if (testrunners suite).length > 1 then
            suite.name ++ "-" ++ toString ((testrunners suite).idxOf testrunner)
          else suite.name
        let tests := suite.tests.filter (·.execution.testRunner = testrunner)
        let request ← environmentRequest name testrunner cluster testrun tests suite.dataset
        let request := { request with metadata :=
          request.metadata.setControllerReference apiGroupVersionString testRunKind testrun.name }
        match ← M.create .environmentRequest request with
        | .error e => return some e
        | .ok _ => createRequests suite requests testrun cluster rest

/-- `createEnvironmentRequests`. -/
def createEnvironmentRequests (suite : Suite) (requests : List EnvironmentRequest) (testrun : TestRun)
    (cluster : Cluster) : M (Option Err) := do
  -- the keys of a map come in any order, and in another one each time
  let order ← M.ext (.rangeKeys (testrunners suite))
  createRequests suite requests testrun cluster order.val

/-- The loop over `testrun.Spec.Suites`. -/
def createForSuites (requests : List EnvironmentRequest) (testrun : TestRun) (cluster : Cluster) :
    List Suite → M (Option Err)
  | [] => return none
  | suite :: suites => do
      match ← createEnvironmentRequests suite requests testrun cluster with
      | some e => return some e
      | none => createForSuites requests testrun cluster suites

/-- The `Ready` condition of a request that has failed. -/
def failedReady (request : EnvironmentRequest) : Option Condition :=
  match findStatusCondition request.status.conditions .ready with
  | none => none
  | some c => if c.status = .false ∧ c.reason = .failed then some c else none

/-- The loop over the listed requests: the first failed one fails the Environment condition. -/
def failOnRequest (testrun : TestRun) : List EnvironmentRequest → M Outcome
  | [] => return ⟨testrun, false, none⟩
  | request :: rest =>
      match failedReady request with
      | none => failOnRequest testrun rest
      | some condition => do
          let (testrun, changed) ← setCondition testrun
            { type := .environment, status := .false, reason := .failed, message := condition.message }
          if changed then updated (setInconclusiveVerdictIfUnset testrun).1
          else if request.deleting then return ⟨testrun, false, none⟩
          else do
            -- the error is only logged
            let _ ← M.delete .environmentRequest request.name
            return ⟨testrun, false, none⟩

/-- Where no request has failed, there is nothing to do. -/
theorem failOnRequest_eq {testrun : TestRun} {requests : List EnvironmentRequest}
    (h : ∀ y ∈ requests, failedReady y = none) : failOnRequest testrun requests = pure ⟨testrun, false, none⟩ := by
  induction requests with
  | nil => rfl
  | cons request rest ih =>
      unfold failOnRequest
      rw [h request List.mem_cons_self]
      exact ih fun y hy => h y (List.mem_cons_of_mem _ hy)

/-- The reference `ref.GetReference` makes to a listed request. -/
def requestReference (request : EnvironmentRequest) : ObjectReference :=
  { apiVersion := apiGroupVersionString, kind := "EnvironmentRequest", name := request.name }

/-- `reconcileEnvironmentRequest` from the list of requests on: remember them, create the missing ones, and
    look for a failed one. -/
def reconcileRequests (cluster : Cluster) (testrun : TestRun) (requests : List EnvironmentRequest) :
    M Outcome := do
  -- in memory only, until a later step writes the status
  let testrun := { testrun with status :=
    { testrun.status with environmentRequests := requests.map requestReference } }
  match ← createForSuites requests testrun cluster testrun.spec.suites with
  | some e => return ⟨testrun, false, some e⟩
  | none => failOnRequest testrun requests

/-- `reconcileEnvironmentRequest`. -/
def reconcileEnvironmentRequest (cluster : Cluster) (testrun : TestRun) : M Outcome :=
  if findStatusCondition testrun.status.conditions .environment = none then do
    let (testrun, _) ← setCondition testrun
      { type := .environment, status := .false, reason := .pending, message := "Reconciliation started" }
    updated testrun
  else if isStatusReason testrun.status.conditions .environment .failed then
    failSafe testrun "Environment provisioning failed" (deleteEnvironmentRequests testrun)
  else do
    match ← M.list .environmentRequest (owned testrun.name) with
    | .error e => if e.isNotFound then reconcileRequests cluster testrun [] else return ⟨testrun, false, some e⟩
    | .ok requests => reconcileRequests cluster testrun requests

/-- `checkEnvironment`: any Environment labelled with the TestRun's id makes the environment ready. -/
def checkEnvironment (testrun : TestRun) : M Outcome := do
  match ← M.list .environment (.label idLabel testrun.spec.id) with
  | .error e => return ⟨testrun, false, some e⟩
  | .ok [] => return ⟨testrun, false, none⟩
  | .ok (_ :: _) => do
      -- also if the condition was Failed before
      let (testrun, changed) ← setCondition testrun
        { type := .environment, status := .true, reason := .completed, message := "Environment ready" }
      if changed then updated testrun else return ⟨testrun, false, none⟩

/-! ## The suite runner -/

/-- `suiteRunnerJob`. Dereferences `SuiteRunner` and its embedded `Image`. -/
def suiteRunnerJob (testrun : TestRun) : M (Except Err Job) := do
  match ← M.get .cluster testrun.spec.cluster with
  | .error e => return .error e
  | .ok _ =>
      match testrun.spec.suiteRunner with
      | none => .panic "testrun.Spec.SuiteRunner"
      | some suiteRunner =>
          match suiteRunner.image with
          | none => .panic "testrun.Spec.SuiteRunner.Image"
          | some image =>
              let metadata : ObjectMeta := { name := testrun.name, labels := testRunLabels testrun }
              return .ok {
                metadata := metadata.setControllerReference apiGroupVersionString testRunKind testrun.name
                spec :=
                  { containers := [{ name := testrun.name, image := image.image }]
                    serviceAccountName := testrun.spec.cluster ++ "-provider" }
                status := {} }

/-- The condition the suite runner gets. -/
def suiteRunnerCondition (status : ConditionStatus) (reason : Reason) (message : String) : Condition :=
  { type := .suiteRunner, status := status, reason := reason, message := message }

/-- A finished suite runner: record the condition; if it changed, publish the result and write it. -/
def suiteRunnerFinished (testrun : TestRun) (result : Result) (condition : Condition) : M Outcome := do
  let testrun := { testrun with status := { testrun.status with verdict := result.verdict } }
  let (testrun, changed) ← setCondition testrun condition
  if changed then do
    -- published before it is written: if the write fails, a later pass publishes once more
    publish testrun result
    updated testrun
  else return ⟨testrun, false, none⟩

/-- A failed job without a verdict is inconclusive. -/
def resultOrInconclusive (result : Result) : Result :=
  if result.verdict = "" ∨ result.verdict = verdictNone then { result with verdict := verdictInconclusive }
  else result

/-- A successful job without a verdict has the verdict `None`. -/
def resultOrNone (result : Result) : Result :=
  if result.verdict = "" then { result with verdict := verdictNone } else result

/-- `case jobs.StatusFailed`. -/
def suiteRunnerFailed (testrun : TestRun) (manager : JobManager) : M Outcome := do
  let result ← manager.result testrun.name
  suiteRunnerFinished testrun (resultOrInconclusive result)
    (suiteRunnerCondition .false .failed result.description)

/-- `case jobs.StatusSuccessful`. -/
def suiteRunnerSuccessful (testrun : TestRun) (manager : JobManager) : M Outcome := do
  let result ← manager.result testrun.name
  if result.conclusion = conclusionFailed then
    suiteRunnerFinished testrun (resultOrNone result)
      (suiteRunnerCondition .false .failed result.description)
  else
    suiteRunnerFinished testrun (resultOrNone result)
      (suiteRunnerCondition .true .completed result.description)

/-- `case jobs.StatusActive`. -/
def suiteRunnerActive (testrun : TestRun) : M Outcome := do
  let verdictChanged : Bool := testrun.status.verdict = ""
  let (testrun, changed) ← setCondition (verdictOrNone testrun)
    (suiteRunnerCondition .true .active "Job is running")
  if changed then updated testrun
  -- running as before, but the verdict was still empty
  else if verdictChanged then updated testrun
  else return ⟨testrun, false, none⟩

/-- `!isStatusReason(…, ReasonFailed) && meta.SetStatusCondition(…)`: a failed suite runner keeps its message. -/
def setUnlessFailed (testrun : TestRun) (c : Condition) : M (TestRun × Bool) :=
  if isStatusReason testrun.status.conditions .suiteRunner .failed then return (testrun, false)
  else setCondition testrun c

/-- Creating the suite runner job failed. -/
def suiteRunnerNotCreated (testrun : TestRun) (err : Err) : M Outcome := do
  let (testrun, conditionChanged) ←
    setUnlessFailed testrun (suiteRunnerCondition .false .failed err.text)
  if conditionChanged then do
    publish testrun { conclusion := conclusionFailed, verdict := verdictInconclusive,
                      description := "Failed to create suite runner job: " ++ err.text }
    updated (setInconclusiveVerdictIfUnset testrun).1
  else if (setInconclusiveVerdictIfUnset testrun).2 then updated (setInconclusiveVerdictIfUnset testrun).1
  else return ⟨testrun, false, some err⟩

/-- The `default` case: no job exists. -/
def suiteRunnerMissing (testrun : TestRun) : M Outcome :=
  if testrun.deleting then return ⟨testrun, false, none⟩
  -- an earlier pass has created the job, and the cache does not have it yet
  else if isStatusReason testrun.status.conditions .suiteRunner .starting then
    return ⟨testrun, false, none⟩
  else do
    match ← JobManager.create (suiteRunnerJob testrun) with
    | some err => suiteRunnerNotCreated testrun err
    | none => do
        let (testrun, changed) ← setCondition testrun
          (suiteRunnerCondition .false .starting "Suite runner job created")
        if changed then updated testrun else return ⟨testrun, false, none⟩

/-- `reconcileSuiteRunner`. -/
def reconcileSuiteRunner (testrun : TestRun) (manager : JobManager) (jobStatus : JobStatus) : M Outcome :=
  if findStatusCondition testrun.status.conditions .suiteRunner = none then do
    let (testrun, _) ← setCondition testrun
      (suiteRunnerCondition .false .pending "Reconciliation started")
    updated testrun
  else if isStatusReason testrun.status.conditions .suiteRunner .failed then
    failSafe testrun "SuiteRunner job failed" do
      let jobsDeleted ← manager.delete
      let requestsDeleted ← deleteEnvironmentRequests testrun
      return Err.join jobsDeleted requestsDeleted
  -- there is no environment to run in yet
  else if !isStatusReason testrun.status.conditions .environment .completed then
    return ⟨testrun, false, none⟩
  else
    match jobStatus with
    | .failed => suiteRunnerFailed testrun manager
    | .successful => suiteRunnerSuccessful testrun manager
    | .active => suiteRunnerActive testrun
    | .none => suiteRunnerMissing testrun

/-! ## The Active condition -/

/-- The message of a condition that may be absent. -/
def conditionMessage (conditions : List Condition) (t : ConditionType) : String :=
  match findStatusCondition conditions t with
  | some c => c.message
  | none => ""

/-- What the Active condition should be, from lowest to highest priority: an active suite runner, a failed
    environment, a failed suite runner, a completed suite runner. `none` is `ConditionUnknown`. -/
def activeCondition (conditions : List Condition) : Option Condition :=
  if isStatusReason conditions .suiteRunner .completed then
    some { type := .active, status := .false, reason := .completed,
           message := "Suite runners finished successfully" }
  else if isStatusReason conditions .suiteRunner .failed then
    some { type := .active, status := .false, reason := .failed,
           message := conditionMessage conditions .suiteRunner }
  else if isStatusReason conditions .environment .failed then
    some { type := .active, status := .false, reason := .failed,
           message := conditionMessage conditions .environment }
  else if isStatusReason conditions .suiteRunner .active then
    some { type := .active, status := .true, reason := .active,
           message := "Waiting for suite runners to finish" }
  else none

/-- `testrun.Status.CompletionTime = &now`. -/
def complete (testrun : TestRun) (now : Int) : TestRun :=
  { testrun with status := { testrun.status with completionTime := some now } }

/-- The Active condition changed: if it became false, the TestRun has completed. -/
def activeChanged (testrun : TestRun) (condition : Condition) : M Outcome :=
  if condition.status = .false then do
    let now ← metaNow
    updated (complete testrun now)
  else updated testrun

/-- The Active condition is as it was: make sure that a failed TestRun has a verdict. -/
def activeUnchanged (testrun : TestRun) (condition : Condition) : M Outcome :=
  if condition.status = .false ∧ (condition.reason = .failed ∨ condition.reason = .timedOut) ∧
      (setInconclusiveVerdictIfUnset testrun).2 then
    updated (setInconclusiveVerdictIfUnset testrun).1
  else return ⟨testrun, false, none⟩

/-- `reconcileActiveStatus`. -/
def reconcileActiveStatus (testrun : TestRun) : M Outcome :=
  if findStatusCondition testrun.status.conditions .active = none then do
    let (testrun, _) ← setCondition testrun
      { type := .active, status := .false, reason := .pending, message := "Reconciliation started" }
    updated (verdictOrNone testrun)
  else
    match activeCondition testrun.status.conditions with
    | none => return ⟨testrun, false, none⟩
    | some condition => do
        let (testrun, conditionChanged) ← setCondition testrun condition
        if conditionChanged then activeChanged testrun condition else activeUnchanged testrun condition

/-! ## `reconcile` and `Reconcile` -/

/-- A provider is missing or unavailable: the TestRun is marked failed, and the error is returned. -/
def providersFailed (testrun : TestRun) (err : Err) : M (TestRun × Option Err) := do
  let (testrun, conditionChanged) ← setCondition testrun
    { type := .active, status := .false, reason := .failed, message := err.text }
  if conditionChanged || (setInconclusiveVerdictIfUnset testrun).2 then do
    let (testrun, writeErr) ← M.statusUpdate .testRun (setInconclusiveVerdictIfUnset testrun).1
    return (testrun, Err.join (some err) writeErr)
  else return (testrun, some err)

/-- `if updated, err := step(); updated || err != nil { return err }`, then the rest. -/
def andThen (step : M Outcome) (rest : TestRun → M (TestRun × Option Err)) : M (TestRun × Option Err) := do
  let out ← step
  if out.updated || out.err.isSome then return (out.testrun, out.err) else rest out.testrun

/-- `reconcile`. -/
def reconcile (cluster : Cluster) (testrun : TestRun) : M (TestRun × Option Err) := do
  match ← checkProviders testrun.spec.providers with
  | some err => providersFailed testrun err
  | none =>
      andThen (reconcileEnvironmentRequest cluster testrun) fun testrun =>
      andThen (checkEnvironment testrun) fun testrun => do
        let (manager, jobStatus) ← (jobManager testrun).status
        match jobStatus with
        | .error e => return (testrun, some e)
        | .ok jobStatus =>
            andThen (reconcileSuiteRunner testrun manager jobStatus) fun testrun =>
            andThen (reconcileActiveStatus testrun) fun testrun => return (testrun, none)

/-- How long a completed TestRun with this Active condition is kept. -/
def retention (testrun : TestRun) (condition : Condition) : Option Int :=
  if condition.reason = .completed then testrun.spec.retention.success else testrun.spec.retention.failure

/-- The branch of `Reconcile` for a TestRun with a completion time: clean up, and delete the TestRun when
    its retention is over. Dereferences the Active condition. -/
def reconcileCompleted (testrun : TestRun) (completionTime : Int) : M (ReconcileResult × Option Err) := do
  let (manager, jobStatus) ← (jobManager testrun).status
  match jobStatus with
  | .error e => return ({}, some e)
  | .ok _ => do
      -- errors are ignored: the TestRun is queued again only if its retention is limited
      let _ ← manager.delete
      let _ ← deleteEnvironmentRequests testrun
      match findStatusCondition testrun.status.conditions .active with
      | none => .panic "Active condition"
      | some condition =>
          match retention testrun condition with
          | none => return ({}, none)
          | some duration => do
              let now ← M.ext .timeNow
              if unixTime completionTime + duration < now then do
                let _ ← M.delete .testRun testrun.name
                return ({}, none)
              else do
                -- the clock of the reconciler this time
                let now ← M.ext .clockNow
                return ({ requeueAfter := unixTime completionTime + duration - now }, none)

/-- The text of an exceeded deadline. -/
def deadlineMessage (r : TestRunReconciler) (deadline : Int) : String :=
  "Testrun deadline of " ++ r.timeString deadline ++ " exceeded"

/-- The deadline is exceeded: the TestRun times out, unless that is already its reason. -/
def deadlineExceeded (r : TestRunReconciler) (testrun : TestRun) : M (ReconcileResult × Option Err) := do
  let (testrun, changed) ← setCondition testrun
    { type := .active, status := .false, reason := .timedOut,
      message := r.deadlineMessage testrun.spec.deadline }
  if changed then do
    let now ← metaNow
    let testrun := complete (setInconclusiveVerdictIfUnset testrun).1 now
    publish testrun { conclusion := conclusionTimedOut, verdict := verdictInconclusive,
                      description := r.deadlineMessage testrun.spec.deadline }
    let (_, err) ← M.statusUpdate .testRun testrun
    return ({}, err)
  -- timed out in an earlier pass: only the verdict can be missing
  else if (setInconclusiveVerdictIfUnset testrun).2 then do
    let (_, err) ← M.statusUpdate .testRun (setInconclusiveVerdictIfUnset testrun).1
    return ({}, err)
  else return ({}, none)

/-- The deadline check at the end of `Reconcile`. -/
def checkDeadline (r : TestRunReconciler) (testrun : TestRun) : M (ReconcileResult × Option Err) :=
  if testrun.spec.deadline = 0 then return ({}, none)
  else do
    let now ← M.ext .clockNow
    if now > unixTime testrun.spec.deadline then r.deadlineExceeded testrun
    else do
      let now ← M.ext .timeNow
      return ({ requeueAfter := unixTime testrun.spec.deadline - now }, none)

/-- The part of `Reconcile` for a TestRun that has not completed. Dereferences the ETOS message bus and its
    password. -/
def reconcileRunning (r : TestRunReconciler) (testrun : TestRun) : M (ReconcileResult × Option Err) := do
  match ← M.get .cluster testrun.spec.cluster with
  -- whatever the error is, it is not retried
  | .error _ => return ({}, none)
  | .ok cluster =>
      match cluster.spec.etosMessageBus with
      | none => .panic "cluster.Spec.MessageBus.ETOSMessageBus"
      | some etosMessageBus => do
          match ← getPublisher etosMessageBus with
          | .error e => return ({}, some e)
          | .ok _ => do
              let (testrun, err) ← reconcile cluster testrun
              match err with
              | some e => if e.isConflict then return ({ requeue := true }, none) else return ({}, some e)
              | none => r.checkDeadline testrun

/-- `Reconcile`. -/
def Reconcile (r : TestRunReconciler) (name : String) : M (ReconcileResult × Option Err) := do
  match ← M.get .testRun name with
  | .error e => if e.isNotFound then return ({}, none) else return ({}, some e)
  | .ok testrun => do
      let (testrun, err) ← r.maybeAddTraceparentLabel testrun
      match err with
      | some e => return ({}, some e)
      | none =>
          match testrun.status.completionTime with
          | some completionTime => reconcileCompleted testrun completionTime
          | none => r.reconcileRunning testrun

end TestRunReconciler

end Etos
