import Etos.Kube.Api

/-!
# `Api.Types` — the custom resources of ETOS

The specification and status types of `api/v1alpha1` and `api/v1alpha2`, and the parts of `batch/v1` jobs and
`core/v1` pods the controllers read. An embedded pointer is an `Option`; a nil list or map is the empty one.
Verdicts and conclusions are strings, as in the source: a result is parsed from whatever JSON a container
leaves behind, so any string can occur beside the named constants.
-/

namespace Etos

open Kube

/-! ## Statuses -/

/-- `internal/controller/status`: condition types. -/
inductive ConditionType where
  | available | ready | failed | active | environment | suiteRunner
  deriving DecidableEq, Repr

/-- `internal/controller/status`: reasons. `unknown` is the literal `"Unknown"` of `reconcileDeletion`. -/
inductive Reason where
  | pending | starting | active | failed
  /-- `ReasonTimedOut = "DeadlineExceeded"`. -/
  | timedOut
  | completed | unknown
  deriving DecidableEq, Repr

abbrev Condition := Kube.Condition ConditionType Reason

/-- `jobs.Verdict`. -/
abbrev Verdict := String

def verdictPassed : Verdict := "Passed"
def verdictFailed : Verdict := "Failed"
def verdictInconclusive : Verdict := "Inconclusive"
def verdictNone : Verdict := "None"

/-- `jobs.Conclusion`. -/
abbrev Conclusion := String

def conclusionSuccessful : Conclusion := "Successful"
def conclusionFailed : Conclusion := "Failed"
def conclusionAborted : Conclusion := "Aborted"
def conclusionTimedOut : Conclusion := "TimedOut"

/-- `jobs.Result` and `events.Result`. -/
structure Result where
  conclusion : Conclusion := ""
  verdict : Verdict := ""
  description : String := ""
  deriving DecidableEq, Repr

/-! ## Common types -/

/-- Raw JSON text (`apiextensionsv1.JSON`). -/
abbrev Json := String

structure Image where
  image : String := ""
  imagePullPolicy : String := ""
  deriving DecidableEq, Repr

/-- A key of a secret or of a config map. -/
structure KeySelector where
  name : String
  key : String
  deriving DecidableEq, Repr

/-- The objects that a key may be read from. -/
inductive KeySource where
  | secret | configMap
  deriving DecidableEq, Repr

/-- A value, or where to read it from. -/
structure Var where
  value : String := ""
  secretKeyRef : Option KeySelector := none
  configMapKeyRef : Option KeySelector := none
  deriving DecidableEq, Repr

structure RabbitMQ where
  deploy : Bool := true
  host : String := ""
  exchange : String := ""
  password : Option Var := none
  username : String := ""
  port : String := ""
  ssl : String := ""
  vhost : String := ""
  streamPort : String := ""
  streamName : String := ""
  deriving DecidableEq, Repr

/-- `corev1.ObjectReference`. -/
structure ObjectReference where
  apiVersion : String
  kind : String
  name : String
  deriving DecidableEq, Repr

/-- `schema.GroupVersion.String()` of `api/v1alpha1`. -/
def apiGroupVersionString : String := "etos.eiffel-community.github.io/v1alpha1"
/-- `schema.GroupVersion.String()` of `api/v1alpha2`. -/
def apiV2GroupVersionString : String := "etos.eiffel-community.github.io/v1alpha2"

/-! ## `TestRun` -/

structure Providers where
  iut : String := ""
  logArea : String := ""
  executionSpace : String := ""
  deriving DecidableEq, Repr

structure TestCase where
  id : String
  version : String := ""
  tracker : String := ""
  uri : String := ""
  deriving DecidableEq, Repr

structure Execution where
  checkout : List String := []
  parameters : StrMap := []
  environment : StrMap := []
  command : String := ""
  execute : List String := []
  testRunner : String
  deriving DecidableEq, Repr

structure Test where
  id : String
  testCase : TestCase
  execution : Execution
  deriving DecidableEq, Repr

structure Suite where
  name : String
  priority : Int := 1
  tests : List Test := []
  dataset : Option Json := none
  deriving DecidableEq, Repr

structure TestRunner where
  version : String
  deriving DecidableEq, Repr

/-- `SuiteRunner`, `LogListener` and `EnvironmentProvider` all embed an `*Image`. -/
structure EmbeddedImage where
  image : Option Image := none
  deriving DecidableEq, Repr

structure Retention where
  failure : Option Int := none
  success : Option Int := none
  deriving DecidableEq, Repr

structure TestRunSpec where
  cluster : String := ""
  schemaVersion : String := "v1alpha1"
  id : String := ""
  artifact : String := ""
  retention : Retention := {}
  suiteRunner : Option EmbeddedImage := none
  testRunner : Option TestRunner := none
  logListener : Option EmbeddedImage := none
  environmentProvider : Option EmbeddedImage := none
  identity : String := ""
  providers : Providers := {}
  suites : List Suite := []
  suiteSource : String := ""
  timeout : Int := 86400
  /-- Unix seconds; 0 means no deadline. -/
  deadline : Int := 0
  deriving DecidableEq, Repr

structure TestRunStatus where
  conditions : List Condition := []
  suiteRunners : List ObjectReference := []
  environmentRequests : List ObjectReference := []
  startTime : Option Int := none
  completionTime : Option Int := none
  verdict : Verdict := ""
  deriving DecidableEq, Repr

/-! ## `EnvironmentRequest` -/

structure ExecutionSpaceProvider where
  id : String := ""
  testRunner : String := ""
  testRunnerImage : String := ""
  deriving DecidableEq, Repr

structure EnvironmentProviders where
  iut : String := ""
  executionSpace : ExecutionSpaceProvider := {}
  logArea : String := ""
  deriving DecidableEq, Repr

structure EnvironmentProviderJobConfig where
  eiffelMessageBus : RabbitMQ := {}
  etosMessageBus : RabbitMQ := {}
  etosApi : String := ""
  etosSse : String := ""
  encryptionKey : Var := {}
  etcdHost : String := ""
  etcdPort : String := ""
  graphQlServer : String := ""
  routingKeyTag : String := ""
  waitForTimeout : String := ""
  testRunnerVersion : String := ""
  eventDataTimeout : String := ""
  serviceAccount : String := ""
  testSuiteTimeout : String := ""
  deriving DecidableEq, Repr

structure EnvironmentRequestSpec where
  id : String := ""
  name : String := ""
  schemaVersion : String := "v1beta1"
  image : Option Image := none
  identifier : String := ""
  artifact : String := ""
  identity : String := ""
  minimumAmount : Int := 0
  maximumAmount : Int := 0
  deadline : Int := 0
  timeout : Int := 60
  dataset : Option Json := none
  providers : EnvironmentProviders := {}
  /-- `Splitter.Tests`. -/
  tests : List Test := []
  serviceAccountName : String := ""
  config : EnvironmentProviderJobConfig := {}
  deriving DecidableEq, Repr

/-- `EnvironmentRequestStatus`, `EnvironmentStatus`, `IutStatus`, `LogAreaStatus` and
    `ExecutionSpaceStatus`: conditions and a completion time. -/
structure ReleasableStatus where
  conditions : List Condition := []
  completionTime : Option Int := none
  deriving DecidableEq, Repr

abbrev EnvironmentRequestStatus := ReleasableStatus

/-! ## `Environment` and the provider resources -/

structure EnvironmentSpec where
  name : String := ""
  suiteID : String := ""
  subSuiteID : String := ""
  mainSuiteID : String := ""
  artifact : String := ""
  context : String := ""
  providers : Option Providers := none
  deadline : Int := 0
  priority : Int := 1
  tests : List Test := []
  testRunner : String := ""
  iut : Option Json := none
  executor : Option Json := none
  logArea : Option Json := none
  deriving DecidableEq, Repr

/-- What the specifications of an Iut, a LogArea and an ExecutionSpace have in common. -/
structure ResourceSpec where
  id : String := ""
  deadline : Int := 0
  environmentRequest : String := ""
  providerID : String := ""
  deriving DecidableEq, Repr

structure IutSpec extends ResourceSpec where
  identity : String := ""
  providerData : Option Json := none
  deriving DecidableEq, Repr

structure LogAreaSpec extends ResourceSpec where
  liveLogs : String := ""
  deriving DecidableEq, Repr

structure ExecutionSpaceSpec extends ResourceSpec where
  testRunner : String := ""
  deriving DecidableEq, Repr

/-- The resources a provider hands out. -/
inductive ResourceKind where
  | iut | logArea | executionSpace
  deriving DecidableEq, Repr

@[reducible] def ResourceKind.Spec : ResourceKind → Type
  | .iut => IutSpec
  | .logArea => LogAreaSpec
  | .executionSpace => ExecutionSpaceSpec

/-- The common part of a specification. -/
def ResourceKind.common : (r : ResourceKind) → r.Spec → ResourceSpec
  | .iut, spec => spec.toResourceSpec
  | .logArea, spec => spec.toResourceSpec
  | .executionSpace, spec => spec.toResourceSpec

/-! ## `Provider` and `Cluster` -/

structure ProviderSpec where
  type : String := ""
  image : String := ""
  /-- `LogAreaProviderConfig`: the live-log URI it hands to log areas. -/
  logAreaProviderConfig : Option String := none
  deriving DecidableEq, Repr

structure ProviderStatus where
  conditions : List Condition := []
  deriving DecidableEq, Repr

structure ETOSConfig where
  environmentTimeout : String := "3600"
  etosApiURL : String := ""
  etosSseURL : String := ""
  encryptionKey : Var := {}
  routingKeyTag : String := ""
  eventDataTimeout : String := "60"
  testSuiteTimeout : String := "10"
  deriving DecidableEq, Repr

structure EventRepository where
  host : String := ""
  deriving DecidableEq, Repr

structure Etcd where
  host : String := ""
  port : String := ""
  deriving DecidableEq, Repr

structure Database where
  etcd : Etcd := {}
  deriving DecidableEq, Repr

/-- `Ingress`, as far as the addresses of the services depend on it. -/
structure ServiceIngress where
  enabled : Bool := false
  ssl : Bool := false
  host : String := ""
  deriving DecidableEq, Repr

/-- `ClusterSpec`. The message buses, the event repository and the database are pointers, which may be nil. -/
structure ClusterSpec where
  eiffelMessageBus : Option RabbitMQ := none
  etosMessageBus : Option RabbitMQ := none
  eventRepository : Option EventRepository := none
  database : Option Database := none
  config : ETOSConfig := {}
  /-- `ETOS.Ingress`. -/
  ingress : ServiceIngress := {}
  /-- `ETOS.SuiteRunner`, `ETOS.SuiteRunner.LogListener` and `ETOS.EnvironmentProvider`, which embed an `Image`. -/
  suiteRunner : Image := {}
  logListener : Image := {}
  environmentProvider : Image := {}
  /-- `ETOS.TestRunner.Version`. -/
  testRunnerVersion : String := ""
  deriving DecidableEq, Repr

/-! ## The operator's configuration -/

/-- `config.Service`. -/
structure Service where
  image : String
  version : String

def ImageOrDefault (service : Service) (image : Image) : String :=
  if image.image ≠ "" then image.image else service.image ++ ":" ++ service.version

def VersionOrDefault (service : Service) (version : String) : String :=
  if version ≠ "" then version else service.version

def PullPolicyOrDefault (image : Image) : String :=
  if image.imagePullPolicy ≠ "" then image.imagePullPolicy else "IfNotPresent"

/-! ## Jobs and pods -/

/-- `batchv1.JobConditionType`. -/
inductive JobConditionType where
  | complete | failed
  | other (type : String)
  deriving DecidableEq, Repr

structure JobCondition where
  type : JobConditionType
  status : ConditionStatus
  deriving DecidableEq, Repr

structure Container where
  name : String
  image : String := ""
  args : List String := []
  deriving DecidableEq, Repr

structure JobSpec where
  initContainers : List Container := []
  containers : List Container := []
  serviceAccountName : String := ""
  ttlSecondsAfterFinished : Option Nat := none
  deriving DecidableEq, Repr

structure JobStatusConditions where
  conditions : List JobCondition := []
  deriving DecidableEq, Repr

/-- A terminated container: its message, and what `json.Unmarshal` makes of it as a `Result`. -/
structure Terminated where
  message : String
  result : Option Result
  deriving DecidableEq, Repr

structure ContainerStatus where
  name : String
  terminated : Option Terminated
  deriving DecidableEq, Repr

structure PodStatus where
  containerStatuses : List ContainerStatus := []
  initContainerStatuses : List ContainerStatus := []
  deriving DecidableEq, Repr

/-! ## The kinds and their objects -/

/-- The object kinds the controllers handle. -/
inductive Kind where
  | testRun | environmentRequest | environment
  /-- `Iut`, `LogArea` and `ExecutionSpace`. -/
  | resource (r : ResourceKind)
  | provider | cluster | job | pod
  deriving DecidableEq, Repr

@[reducible] def Spec : Kind → Type
  | .testRun => TestRunSpec
  | .environmentRequest => EnvironmentRequestSpec
  | .environment => EnvironmentSpec
  | .resource r => r.Spec
  | .provider => ProviderSpec
  | .cluster => ClusterSpec
  | .job => JobSpec
  | .pod => Unit

@[reducible] def Status : Kind → Type
  | .testRun => TestRunStatus
  | .environmentRequest => EnvironmentRequestStatus
  | .environment => ReleasableStatus
  | .resource _ => ReleasableStatus
  | .provider => ProviderStatus
  | .cluster => Unit
  | .job => JobStatusConditions
  | .pod => PodStatus

/-- An object of kind `k`. -/
abbrev Obj (k : Kind) : Type := Object (Spec k) (Status k)

abbrev TestRun := Object TestRunSpec TestRunStatus
abbrev EnvironmentRequest := Object EnvironmentRequestSpec EnvironmentRequestStatus
abbrev Environment := Object EnvironmentSpec ReleasableStatus
/-- An Iut, LogArea or ExecutionSpace. -/
abbrev Resource (r : ResourceKind) := Object r.Spec ReleasableStatus
abbrev Iut := Resource .iut
abbrev LogArea := Resource .logArea
abbrev ExecutionSpace := Resource .executionSpace
abbrev Provider := Object ProviderSpec ProviderStatus
abbrev Cluster := Object ClusterSpec Unit
abbrev Job := Object JobSpec JobStatusConditions
abbrev Pod := Object Unit PodStatus

end Etos
