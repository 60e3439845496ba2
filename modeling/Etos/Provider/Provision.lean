import Etos.Api.Text
import Etos.Controller.Resource

/-!
# `Provider.Provision` — the containers of a provider job

`pkg/provider`, `pkg/splitter` and the four programs under `cmd/` that run in a provider job: the generic Iut,
LogArea and ExecutionSpace providers create their resources for an EnvironmentRequest, then the environment
provider pairs the resources up and creates the Environments. The release entry points of the same programs,
which run in release jobs, are at the end.

The clients of these programs read from the API server, not from a cache. Tracing, logging, the termination log
and the environment variables of the test runner are left out; the secrets read on the way are not.
-/

namespace Etos

open Kube

/-! ## `toRFC1123` -/

/-- Is the character matched by `[a-z0-9]`? -/
def isLowerAlphanumeric (c : Char) : Bool := ('a' ≤ c && c ≤ 'z') || ('0' ≤ c && c ≤ '9')

/-- Replace every maximal run of other characters by one hyphen. -/
def hyphenate : List Char → List Char
  | [] => []
  | c :: cs =>
      if isLowerAlphanumeric c then c :: hyphenate cs
      else
        match hyphenate cs with
        | '-' :: rest => '-' :: rest
        | rest => '-' :: rest

/-- `strings.Trim(s, "-")`. -/
def trimHyphens (s : List Char) : List Char :=
  ((s.dropWhile (· = '-')).reverse.dropWhile (· = '-')).reverse

/-- `strings.TrimSuffix(s, "-")`. -/
def trimHyphenSuffix (s : List Char) : List Char := if s.getLast? = some '-' then s.dropLast else s

/-- `toRFC1123`. -/
def toRFC1123 (s : String) (maxlen : Nat) : String :=
  String.ofList (trimHyphenSuffix ((trimHyphens (hyphenate (s.toList.map lowerRune))).take maxlen))

/-! ## New resources -/

/-- The owner reference of everything a provider creates: it does not make the request a controller. -/
def requestOwner (environmentrequest : EnvironmentRequest) : OwnerReference :=
  { apiVersion := apiGroupVersionString
    kind := "EnvironmentRequest"
    name := environmentrequest.name
    controller := false }

/-- What `NewIUT`, `NewLogArea` and `NewExecutionSpace` return, under a generated name. -/
def newResource (r : ResourceKind) (environmentrequest : EnvironmentRequest) (appName : String)
    (spec : r.Spec) : Resource r :=
  { metadata :=
      { labels := [("app.kubernetes.io/name", appName), ("app.kubernetes.io/part-of", "etos")]
        generateName := toRFC1123 environmentrequest.spec.name 62 ++ "-"
        ownerReferences := [requestOwner environmentrequest] }
    spec := spec
    status := {} }

/-- `NewIUT`. -/
def NewIUT (environmentrequest : EnvironmentRequest) (spec : IutSpec) : M Iut := do
  let id ← M.ext .newUUID
  return newResource .iut environmentrequest "iut-provider"
    { spec with
      id := id
      providerID := environmentrequest.spec.providers.iut
      identity := environmentrequest.spec.identity
      environmentRequest := environmentrequest.name }

/-- `NewLogArea`. -/
def NewLogArea (environmentrequest : EnvironmentRequest) (spec : LogAreaSpec) : M LogArea := do
  let id ← M.ext .newUUID
  return newResource .logArea environmentrequest "log-area-provider"
    { spec with
      id := id
      providerID := environmentrequest.spec.providers.logArea
      environmentRequest := environmentrequest.name }

/-- `getAndEncrypt`; a missing password is an error here. -/
def getAndEncrypt : Option Var → M (Option Err)
  | none => return some (.new "no value provided")
  | some v => do
      match ← v.get with
      | .error e => return some e
      | .ok _ => do
          let a ← M.ext (.attempt "encrypt")
          return errOf a

/-- `environmentVariables`, for its error: the variables go to the test runner only. -/
def environmentVariables (environmentrequest : EnvironmentRequest) : M (Option Err) := do
  match ← environmentrequest.spec.config.encryptionKey.get with
  | .error e => return Err.join (some (.new "failed to get encryption key")) (some e)
  | .ok _ =>
      match errOf (← M.ext (.attempt "decode key")) with
      | some e => return Err.join (some (.new "failed to decode encryption key")) (some e)
      | none =>
          match errOf (← M.ext (.attempt "hostname")) with
          | some e => return Err.join (some (.new "failed to get hostname")) (some e)
          | none =>
              match ← getAndEncrypt environmentrequest.spec.config.etosMessageBus.password with
              | some e =>
                  return Err.join (some (.new "failed to get and encrypt ETOS MessageBus password")) (some e)
              | none =>
                  match ← getAndEncrypt environmentrequest.spec.config.eiffelMessageBus.password with
                  | some e =>
                      return Err.join (some (.new "failed to get and encrypt Eiffel MessageBus password"))
                        (some e)
                  | none => return none

/-- `NewExecutionSpace`. -/
def NewExecutionSpace (environmentrequest : EnvironmentRequest) (spec : ExecutionSpaceSpec) :
    M (Except Err ExecutionSpace) := do
  let id ← M.ext .newUUID
  match ← environmentVariables environmentrequest with
  | some e => return .error e
  | none =>
      return .ok (newResource .executionSpace environmentrequest "execution-space-provider"
        { spec with
          id := id
          providerID := environmentrequest.spec.providers.executionSpace.id
          environmentRequest := environmentrequest.name })

/-- `GetIUTs`, `GetLogAreas` and `GetExecutionSpaces`. -/
def getResources (r : ResourceKind) (environmentRequestID : String) : M (Except Err (List (Resource r))) :=
  M.list (.resource r) (.label requestIdLabel environmentRequestID)

/-! ## The generic providers -/

/-- `ProvisionConfig`, without the tracer. -/
structure ProvisionConfig where
  minimumAmount : Int
  environmentRequest : EnvironmentRequest

/-- `for range n { … }`, ended by the first error. -/
def repeatUntilError (step : M (Option Err)) : Nat → M (Option Err)
  | 0 => return none
  | n + 1 => do
      match ← step with
      | some e => return some e
      | none => repeatUntilError step n

/-- Create a resource, for its error. -/
def createResource (r : ResourceKind) (resource : Resource r) : M (Option Err) := do
  let a ← M.create (.resource r) resource
  return errOf a

/-- `genericIutProvider.createIUTs`. -/
def createIUTs (cfg : ProvisionConfig) : M (Option Err) :=
  repeatUntilError (do
    let iut ← NewIUT cfg.environmentRequest {}
    createResource .iut iut) cfg.minimumAmount.toNat

/-- `genericIutProvider.Provision`. -/
def iutProvision (cfg : ProvisionConfig) : M (Option Err) :=
  if cfg.minimumAmount ≤ 0 then
    return some (.new "minimum amount of IUTs requested is less than or equal to 0")
  else createIUTs cfg

/-- `genericLogAreaProvider.createLogAreas`. -/
def createLogAreas (cfg : ProvisionConfig) : M (Option Err) := do
  match ← M.get .provider cfg.environmentRequest.spec.providers.logArea with
  | .error e => return some e
  | .ok logAreaProvider =>
      match logAreaProvider.spec.logAreaProviderConfig with
      | none => return some (.new (logAreaProvider.name ++ " has no LogAreaProviderConfig"))
      | some liveLogs =>
          repeatUntilError (do
            let logarea ← NewLogArea cfg.environmentRequest { liveLogs := liveLogs }
            createResource .logArea logarea) cfg.minimumAmount.toNat

/-- `genericLogAreaProvider.Provision`. -/
def logAreaProvision (cfg : ProvisionConfig) : M (Option Err) :=
  if cfg.minimumAmount ≤ 0 then
    return some (.new "minimum amount of LogAreas requested is less than or equal to 0")
  else createLogAreas cfg

/-- The labels of the test runner's job. -/
def testRunnerLabels (environmentrequest : EnvironmentRequest) : StrMap :=
  let labels : StrMap :=
    [(providerLabel, environmentrequest.spec.providers.executionSpace.id),
      (requestLabel, environmentrequest.spec.name), (requestIdLabel, environmentrequest.spec.id),
      ("app.kubernetes.io/name", "etr"), ("app.kubernetes.io/part-of", "etos")]
  let labels := setUnlessEmpty labels clusterLabel (environmentrequest.metadata.labels.get clusterLabel)
  setUnlessEmpty labels idLabel environmentrequest.spec.identifier

/-- `genericExecutionSpaceProvider.start`: the job of the test runner, owned but not controlled by its execution
    space. -/
def startTestRunner (environmentrequest : EnvironmentRequest) (executionSpace : ExecutionSpace) :
    M (Option Err) := do
  let a ← M.create .job
    { metadata :=
        { name := "etr-" ++ executionSpace.spec.id
          labels := testRunnerLabels environmentrequest
          ownerReferences :=
            [{ apiVersion := apiV2GroupVersionString
               kind := "ExecutionSpace"
               name := executionSpace.name
               controller := false }] }
      spec := { containers := [{ name := "etos-test-runner", image := executionSpace.spec.testRunner }] }
      status := {} }
  return errOf a

/-- Create one execution space and start its test runner; the name it got. -/
def createExecutionSpace (cfg : ProvisionConfig) : M (Except Err String) := do
  match ← NewExecutionSpace cfg.environmentRequest
      { testRunner := cfg.environmentRequest.spec.providers.executionSpace.testRunnerImage } with
  | .error e => return .error e
  | .ok executionSpace =>
      match ← M.create (.resource .executionSpace) executionSpace with
      | .error e => return .error e
      | .ok executionSpace =>
          match ← startTestRunner cfg.environmentRequest executionSpace with
          | some e => return .error e
          | none => return .ok executionSpace.name

/-- The loop of `createExecutionSpaces`: the names of the execution spaces to wait for. -/
def createExecutionSpaceLoop (cfg : ProvisionConfig) : Nat → M (Except Err (List String))
  | 0 => return .ok []
  | n + 1 => do
      match ← createExecutionSpace cfg with
      | .error e => return .error e
      | .ok name =>
          match ← createExecutionSpaceLoop cfg n with
          | .error e => return .error e
          | .ok names => return .ok (name :: names)

/-- `waitForTestRunner`: an execution space whose test runner does not come up is deleted. -/
def waitForTestRunner (name : String) : M (Option Err) := do
  match errOf (← M.ext (.attempt ("wait for test runner " ++ name))) with
  | none => return none
  | some e => do
      let a ← M.delete (.resource .executionSpace) name
      return Err.join (some e) (errOf a)

/-- `waitForTestRunners`, in the order in which the waits end. -/
def waitForTestRunners : List String → M (Option Err)
  | [] => return none
  | name :: names => do
      let err ← waitForTestRunner name
      let rest ← waitForTestRunners names
      return Err.join err rest

/-- `datasetEnvironment`, for its error. -/
def datasetEnvironment : Option Json → M (Option Err)
  | none => return none
  | some dataset => do
      let a ← M.ext (.attempt ("unmarshal " ++ dataset))
      return errOf a

/-- `genericExecutionSpaceProvider.createExecutionSpaces`. -/
def createExecutionSpaces (cfg : ProvisionConfig) : M (Option Err) := do
  match ← datasetEnvironment cfg.environmentRequest.spec.dataset with
  | some e => return some e
  | none =>
      match ← createExecutionSpaceLoop cfg cfg.minimumAmount.toNat with
      | .error e => return some e
      | .ok names => do
          let order ← M.ext (.rangeKeys names)
          waitForTestRunners order.val

/-- `genericExecutionSpaceProvider.Provision`. -/
def executionSpaceProvision (cfg : ProvisionConfig) : M (Option Err) :=
  if cfg.minimumAmount ≤ 0 then
    return some (.new "minimum amount of ExecutionSpaces requested is less than or equal to 0")
  else createExecutionSpaces cfg

/-! ## The splitter -/

/-- `splitter.RoundRobin`. -/
structure RoundRobin where
  suites : List (List Test)
  current : Nat

namespace RoundRobin

/-- `NewRoundRobinSplitter().SetSize(size)`. -/
def ofSize (size : Nat) : RoundRobin := ⟨List.replicate size [], 0⟩

/-- `AddTest`; `none` is the division by zero of an empty splitter. -/
def addTest (s : RoundRobin) (test : Test) : Option RoundRobin :=
  if s.suites.isEmpty then none
  else
    let index := s.current % s.suites.length
    some ⟨s.suites.modify index (· ++ [test]), s.current + 1⟩

/-- Add the tests in order. -/
def addTests (s : RoundRobin) : List Test → Option RoundRobin
  | [] => some s
  | test :: tests => (s.addTest test).bind (·.addTests tests)

end RoundRobin

/-! ## The environment provider -/

/-- The labels of an Environment. -/
def environmentLabels (environmentrequest : EnvironmentRequest) (executionSpace : ExecutionSpace) : StrMap :=
  let labels : StrMap :=
    [(requestLabel, environmentrequest.name), (requestIdLabel, environmentrequest.spec.id),
      ("etos.eiffel-community.github.io/sub-suite-id", executionSpace.spec.id),
      ("app.kubernetes.io/name", "environment-provider"), ("app.kubernetes.io/part-of", "etos"),
      ("etos.eiffel-community.github.io/suite-id", environmentrequest.spec.id)]
  let labels := setUnlessEmpty labels clusterLabel (environmentrequest.metadata.labels.get clusterLabel)
  setUnlessEmpty labels idLabel environmentrequest.spec.identifier

/-- The three `json.Marshal` calls of `CreateEnvironment`, each with its error. -/
structure Marshal where
  executionSpace : ExecutionSpaceSpec → Except Err Json
  logArea : LogAreaSpec → Except Err Json
  /-- Of a `fakeIut`. -/
  iut : IutSpec → Except Err Json

/-- The Environment made of an Iut, an ExecutionSpace and a LogArea. -/
def newEnvironment (index : Nat) (tests : List Test) (environmentrequest : EnvironmentRequest) (iut : Iut)
    (executionSpace : ExecutionSpace) (logArea : LogArea) (executorJson logAreaJson iutJson : Json) :
    Environment :=
  { metadata :=
      { name := executionSpace.spec.id
        labels := environmentLabels environmentrequest executionSpace
        ownerReferences := [requestOwner environmentrequest] }
    spec :=
      { name := environmentrequest.spec.name ++ "_SubSuite_" ++ toString index
        priority := 1
        providers := some
          { iut := iut.name, logArea := logArea.name, executionSpace := executionSpace.name }
        deadline := min (min executionSpace.spec.deadline logArea.spec.deadline) iut.spec.deadline
        suiteID := environmentrequest.spec.identifier
        mainSuiteID := environmentrequest.spec.id
        artifact := environmentrequest.spec.artifact
        subSuiteID := executionSpace.spec.id
        testRunner := executionSpace.spec.testRunner
        context := environmentrequest.spec.id
        executor := some executorJson
        logArea := some logAreaJson
        iut := some iutJson
        tests := tests }
    status := {} }

/-- `CreateEnvironment`. -/
def CreateEnvironment (marshal : Marshal) (index : Nat) (tests : List Test)
    (environmentrequest : EnvironmentRequest) (iut : Iut) (executionSpace : ExecutionSpace)
    (logArea : LogArea) : M (Option Err) :=
  match marshal.executionSpace executionSpace.spec, marshal.logArea logArea.spec, marshal.iut iut.spec with
  | .error e, _, _ => return some e
  | _, .error e, _ => return some e
  | _, _, .error e => return some e
  | .ok executorJson, .ok logAreaJson, .ok iutJson => do
      let a ← M.create .environment (newEnvironment index tests environmentrequest iut executionSpace logArea
        executorJson logAreaJson iutJson)
      return errOf a

/-- The loop of `createEnvironments`, over the lists from position `index` on: as many Environments as there
    are resources of each kind, the first error ends it. -/
def createEnvironments (marshal : Marshal) (environmentrequest : EnvironmentRequest) (index : Nat) :
    List (List Test) → List Iut → List LogArea → List ExecutionSpace → M (Option Err)
  | tests :: split, iut :: iuts, logArea :: logAreas, executionSpace :: executionSpaces => do
      match ← CreateEnvironment marshal index tests environmentrequest iut executionSpace logArea with
      | some e => return some e
      | none => createEnvironments marshal environmentrequest (index + 1) split iuts logAreas executionSpaces
  | _, _, _, _ => return none

/-- `Provision` from the three lists on. The split has one entry per Environment to create; splitting tests
    over no Environment divides by zero. -/
def provisionFrom (marshal : Marshal) (environmentRequest : EnvironmentRequest) (iuts : List Iut)
    (logAreas : List LogArea) (executionSpaces : List ExecutionSpace) : M (Option Err) :=
  let minRequired := min environmentRequest.spec.maximumAmount environmentRequest.spec.minimumAmount
  let maxPossible := min (min iuts.length logAreas.length) executionSpaces.length
  if maxPossible < minRequired then
    return some (.new ("not enough resources to create environments, expected at least " ++
      toString minRequired ++ " environments, got at\n\t\t\tmost " ++ toString maxPossible ++
      " environments with " ++ toString logAreas.length ++ " log areas and " ++
      toString executionSpaces.length ++ " execution spaces"))
  else
    match (RoundRobin.ofSize maxPossible).addTests environmentRequest.spec.tests with
    | none => .panic "integer divide by zero"
    | some split => createEnvironments marshal environmentRequest 0 split.suites iuts logAreas executionSpaces

/-- `environmentProvider.Provision`. -/
def environmentProvision (marshal : Marshal) (cfg : ProvisionConfig) : M (Option Err) := do
  match ← getResources .iut cfg.environmentRequest.spec.id with
  | .error e => return some e
  | .ok iuts =>
      match ← getResources .logArea cfg.environmentRequest.spec.id with
      | .error e => return some e
      | .ok logAreas =>
          match ← getResources .executionSpace cfg.environmentRequest.spec.id with
          | .error e => return some e
          | .ok executionSpaces => provisionFrom marshal cfg.environmentRequest iuts logAreas executionSpaces

/-! ## Running a provider -/

/-- The amount of Iuts and Environments: `min(MaximumAmount, MinimumAmount)`. -/
def requestedAmount (environmentRequest : EnvironmentRequest) : M (Except Err Int) :=
  return .ok (min environmentRequest.spec.maximumAmount environmentRequest.spec.minimumAmount)

/-- `GetIUTCount`, the amount of LogAreas and ExecutionSpaces. -/
def GetIUTCount (environmentRequest : EnvironmentRequest) : M (Except Err Int) := do
  match ← getResources .iut environmentRequest.spec.id with
  | .error e => return .error e
  | .ok iuts => return .ok iuts.length

/-- `run`: fetch the EnvironmentRequest, connect to the message bus, then do the work. -/
def runProvider (environmentRequestName : String) (work : EnvironmentRequest → M (Option Err)) :
    M (Option Err) := do
  match ← M.get .environmentRequest environmentRequestName with
  | .error e => return some { e with text := "failed to get EnvironmentRequest: " ++ e.text }
  | .ok environmentRequest =>
      match ← getPublisher environmentRequest.spec.config.etosMessageBus with
      | .error e => return some { e with text := "failed to create message bus publisher: " ++ e.text }
      | .ok _ => work environmentRequest

/-- A provider that provisions. -/
def runProvision (environmentRequestName : String) (amount : EnvironmentRequest → M (Except Err Int))
    (provision : ProvisionConfig → M (Option Err)) : M (Option Err) :=
  runProvider environmentRequestName fun environmentRequest => do
    match ← amount environmentRequest with
    | .error e => return some e
    | .ok minimumAmount => provision ⟨minimumAmount, environmentRequest⟩

/-- Containers in sequence: a failed one ends the pod. -/
def runContainers : List (M (Option Err)) → M Unit
  | [] => return ()
  | container :: containers => do
      match ← container with
      | some _ => return ()
      | none => runContainers containers

/-- The pod of a provider job: three init containers, then the environment provider. -/
def providerPod (marshal : Marshal) (environmentRequestName : String) : M Unit :=
  runContainers
    [runProvision environmentRequestName requestedAmount iutProvision,
      runProvision environmentRequestName GetIUTCount logAreaProvision,
      runProvision environmentRequestName GetIUTCount executionSpaceProvision,
      runProvision environmentRequestName requestedAmount (environmentProvision marshal)]

/-! ## Releasing -/

/-- `Release` of a generic provider. -/
def releaseResourceNamed (r : ResourceKind) (name : String) (noDelete : Bool) : M (Option Err) := do
  match ← M.get (.resource r) name with
  | .error e => return some e
  | .ok resource =>
      if noDelete then return none
      else do
        let a ← M.delete (.resource r) resource.name
        return errOf a

/-- `runReleaser`: a container that releases what has this name. -/
def runReleaser (environmentRequestName name : String) (release : M (Option Err)) : M (Option Err) :=
  runProvider environmentRequestName fun _ =>
    if name = "" then return some (.new "must set -name") else release

/-- A container that releases a resource. -/
def runRelease (environmentRequestName : String) (r : ResourceKind) (name : String) (noDelete : Bool) :
    M (Option Err) :=
  runReleaser environmentRequestName name (releaseResourceNamed r name noDelete)

/-- The pod of an Environment's release job: the three releasers, then the Environment's own, which does
    nothing. -/
def releasePod (environmentRequestName environment : String) (providers : Providers) : M Unit :=
  runContainers
    [runRelease environmentRequestName .executionSpace providers.executionSpace false,
      runRelease environmentRequestName .logArea providers.logArea false,
      runRelease environmentRequestName .iut providers.iut false,
      runReleaser environmentRequestName environment (return none)]

/-- The pod of the release job of a resource that no Environment uses. -/
def resourceReleasePod (environmentRequestName : String) (r : ResourceKind) (name : String) : M Unit :=
  runContainers [runRelease environmentRequestName r name true]

end Etos
