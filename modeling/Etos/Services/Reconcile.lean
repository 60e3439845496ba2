import Etos.Api.Types
import Etos.Services.Objects

/-!
# `Services.Reconcile` — the reconcilers of the ETOS services

`internal/etos/api/sse.go`, `internal/etos/api/api.go` and `internal/etos/suitestarter/suitestarter.go`. Each brings the
objects of a service to their expected state, one after the other, and returns at the first error. A service reads its
configuration from a secret when its pods start; a reconciler that writes that secret sets `restartRequired`, a field of
the reconciler, and when it comes to the Deployment it then changes an annotation of the pod template.

A reconciler lives for one attempt. Here `restartRequired` is passed along. Setting the controller reference of an
object that was just built cannot fail, and is left out, as is the namespace of the objects.
-/

namespace Etos.Services

open Kube

/-- What a reconciler does: calls, until it returns a result or an error. -/
abbrev Reconcile (Pod α : Type) := ExceptT Failure (Prog (Op Pod) (Ans Pod)) α

variable {Pod : Type}

/-- A call. -/
def ask (o : Op Pod) : Reconcile Pod (Ans Pod o) := ExceptT.lift (Prog.perform o)

/-- `if err != nil { return err }`. -/
def orFail : Except Err Unit → Reconcile Pod Unit
  | .ok _ => pure ()
  | .error e => throw (.err e)

/-! ## One object -/

/-- Roles, service accounts, role bindings and services are created, or patched. -/
def reconcileObject (kind : Kind) (name : String) : Reconcile Pod Unit := do
  match ← ask (.get kind name) with
  | .error e =>
      if !e.isNotFound then throw (.err e)
      else orFail (← ask (.create kind name))
  | .ok _ => orFail (← ask (.patch kind name))

/-- A secret is created, or patched unless it is the `same`. Was it written? -/
def reconcileData (same : Fields Bytes → Fields Bytes → Bool) (name : String) (target : Fields Bytes) :
    Reconcile Pod Bool := do
  match ← ask (.getSecret name) with
  | .error e =>
      if !e.isNotFound then throw (.err e)
      else
        orFail (← ask (.createSecret name target))
        return true
  | .ok data =>
      if same target data then return false
      else
        orFail (← ask (.patchSecret name target data))
        return true

/-- `target.Spec.Template.Annotations[…] = value`. -/
def DeploymentSpec.annotate (spec : DeploymentSpec Pod) (value : String) : DeploymentSpec Pod :=
  { spec with
    template := { spec.template with annotations := Lists.mapsCopy spec.template.annotations [(restartedAt, value)] } }

/-- `reconcileDeployment`, for the expected specification. -/
def reconcileDeployment (m : Machinery Pod) (name : String) (target : DeploymentSpec Pod) (restartRequired : Bool) :
    Reconcile Pod Unit := do
  match ← ask (.getDeployment name) with
  | .error e =>
      if !e.isNotFound then throw (.err e)
      else
        orFail (← ask (.createDeployment name target))
        throw (.notReady name "deployment just created")
  | .ok deployment =>
      if restartRequired then
        let now ← ask .now
        orFail (← ask (.patchDeployment name (target.annotate (m.rfc3339 now)) deployment.spec))
        throw (.notReady name "deployment just updated")
      else if target.deepDerivative m deployment.spec then
        match deploymentReady name deployment with
        | .ok _ => pure ()
        | .error failure => throw failure
      else
        orFail (← ask (.patchDeployment name target deployment.spec))
        throw (.notReady name "deployment just updated")

/-- The data of a secret that has to be there. -/
def sourceData (name : String) : Reconcile Pod (Fields Bytes) := do
  match ← ask (.getSecret name) with
  | .error e => throw (.err e)
  | .ok data => return data

/-! ## The cluster -/

/-- What the reconcilers read of a `Cluster`. -/
structure ClusterValues where
  name : String
  namespace_ : String := ""
  /-- `OpenTelemetry`. -/
  openTelemetryEnabled : Bool := false
  openTelemetryEndpoint : String := ""
  openTelemetryInsecure : String := ""
  /-- `ETOS.Config.RoutingKeyTag`. -/
  routingKeyTag : String := ""
  suiteRunner : Image := {}
  logListener : Image := {}
  /-- `ETOS.SuiteRunner.LogListener.ETOSQueueName` and `ETOSQueueParams`. -/
  etosQueueName : String := ""
  etosQueueParams : String := ""

/-! ## `ETOSSSEDeployment` -/

structure ETOSSSEDeployment (Pod : Type) where
  messagebusSecret : String
  /-- The pods of `deployment`, which read the secret with the name. -/
  pod : ClusterValues → (secretName : String) → Pod

namespace ETOSSSEDeployment

variable (m : Machinery Pod) (r : ETOSSSEDeployment Pod)

/-- The scheme of the message bus, with and without TLS. -/
def streamScheme (ssl : Bytes) : Bytes :=
  if ssl = Url.bytes "true" then Url.bytes "rabbitmq-stream+tls" else Url.bytes "rabbitmq-stream"

/-- The user in the URL of the message bus. -/
def rabbitmqUser (etos : Fields Bytes) : Option Url.Userinfo :=
  let user : Option Url.Userinfo := (etos.lookup "ETOS_RABBITMQ_USERNAME").map fun d => ⟨d, none⟩
  match etos.lookup "ETOS_RABBITMQ_PASSWORD" with
  | some d =>
      match user with
      | some user => some ⟨user.username, some d⟩
      | none => some ⟨[], some d⟩
  | none => user

/-- The URL of the message bus, or the key that is missing in its secret. -/
def rabbitmqURL (etos : Fields Bytes) : Except Err Url.URL :=
  let scheme := match etos.lookup "ETOS_RABBITMQ_SSL" with
    | some d => streamScheme d
    | none => Url.bytes "rabbitmq-stream"
  match etos.lookup "ETOS_RABBITMQ_HOST" with
  | none => .error (.new "ETOS_RABBITMQ_HOST is required in the message bus secret")
  | some host =>
      match etos.lookup "ETOS_RABBITMQ_STREAM_PORT" with
      | none => .error (.new "ETOS_RABBITMQ_STREAM_PORT is required in the message bus secret")
      | some port =>
          match etos.lookup "ETOS_RABBITMQ_VHOST" with
          | none => .error (.new "ETOS_RABBITMQ_VHOST is required in the message bus secret")
          | some vhost =>
              .ok { scheme := scheme, user := rabbitmqUser etos, host := host ++ Url.byte ':' :: port, path := vhost }

/-- `config`. -/
def config (cluster : ClusterValues) : Reconcile Pod (Fields Bytes) := do
  let etos ← sourceData r.messagebusSecret
  match rabbitmqURL etos with
  | .error e => throw (.err e)
  | .ok url =>
      let data : Fields Bytes := [("ETOS_CLUSTER", bytes cluster.name), ("ETOS_NAMESPACE", bytes cluster.namespace_),
        ("ETOS_RABBITMQ_URI", m.urlString url),
        ("ETOS_RABBITMQ_STREAM_NAME", (etos.lookup "ETOS_RABBITMQ_STREAM_NAME").getD [])]
      if cluster.openTelemetryEnabled then
        return data ++ [("OTEL_EXPORTER_OTLP_ENDPOINT", bytes cluster.openTelemetryEndpoint),
          ("OTEL_EXPORTER_OTLP_INSECURE", bytes cluster.openTelemetryInsecure)]
      else return data

/-- `reconcileConfig`. -/
def reconcileConfig (name : String) (cluster : ClusterValues) : Reconcile Pod Bool := do
  let target ← config m r cluster
  reconcileData Fields.deepEqual (name ++ "-cfg") target

/-- `deployment`. -/
def deployment (secretName : String) (cluster : ClusterValues) : DeploymentSpec Pod :=
  ⟨1, [], r.pod cluster secretName⟩

/-- `Reconcile`. -/
def reconcile (cluster : ClusterValues) : Reconcile Pod Unit := do
  let name := cluster.name ++ "-etos-sse"
  let restartRequired ← reconcileConfig m r name cluster
  reconcileObject .role (name ++ ":sa:esr-reader")
  reconcileObject .serviceAccount name
  reconcileObject .roleBinding name
  reconcileObject .service name
  reconcileDeployment m name (r.deployment (name ++ "-cfg") cluster) restartRequired

end ETOSSSEDeployment

/-! ## `ETOSApiDeployment` -/

structure ETOSApiDeployment (Pod : Type) where
  rabbitmqSecret : String
  messagebusSecret : String
  etosSecret : String
  replicas : Option Int := none
  pod : ClusterValues → (secretName : String) → Pod

namespace ETOSApiDeployment

variable (m : Machinery Pod) (r : ETOSApiDeployment Pod)

/-- `config`. -/
def config : Reconcile Pod (Fields Bytes) := do
  let eiffel ← sourceData r.rabbitmqSecret
  let etos ← sourceData r.messagebusSecret
  let cfg ← sourceData r.etosSecret
  return Lists.mapsCopy (Lists.mapsCopy (Lists.mapsCopy [] eiffel) etos) cfg

/-- `reconcileConfig`. -/
def reconcileConfig (name : String) : Reconcile Pod Bool := do
  let target ← config r
  reconcileData Fields.deepDerivative (name ++ "-cfg") target

/-- `reconcileSecret`: the secret of the service account's token, which the reconciler puts no data in. -/
def reconcileSecret (name : String) : Reconcile Pod Unit := do
  let _ ← reconcileData Fields.deepDerivative (name ++ "-token") []

/-- `deployment`. A Deployment without a number of replicas has one. -/
def deployment (secretName : String) (cluster : ClusterValues) : DeploymentSpec Pod :=
  ⟨r.replicas.getD 1, [], r.pod cluster secretName⟩

/-- `Reconcile`. -/
def reconcile (cluster : ClusterValues) : Reconcile Pod Unit := do
  let name := cluster.name ++ "-etos-api"
  let restartRequired ← reconcileConfig r name
  reconcileSecret name
  reconcileObject .role (name ++ ":sa:esr-handler")
  reconcileObject .serviceAccount name
  reconcileObject .roleBinding name
  reconcileObject .service name
  reconcileDeployment m name (r.deployment (name ++ "-cfg") cluster) restartRequired

end ETOSApiDeployment

/-! ## `ETOSSuiteStarterDeployment` -/

structure ETOSSuiteStarterDeployment (Pod : Type) where
  rabbitmqSecret : String
  messagebusSecret : String
  /-- The name and the data of `etosSecret`. -/
  etosSecretName : String
  etosSecretData : Fields Bytes
  encryptionSecretData : Fields Bytes
  /-- `Config.TTL`, `Config.GracePeriod` and `Config.SidecarImage`. -/
  ttl : String := ""
  gracePeriod : String := ""
  sidecarImage : String := ""
  eiffelQueueName : String := ""
  eiffelQueueParams : String := ""
  suiteRunnerTemplateSecretName : String := ""
  replicas : Option Int := none
  /-- `cfg.SuiteRunner` and `cfg.LogListener`. -/
  suiteRunner : Service
  logListener : Service
  /-- The YAML of `suiteRunnerTemplate`, for a service account. -/
  suiteRunnerTemplate : (saName : String) → Bytes
  pod : ClusterValues → (secretName suiteRunnerTemplate : String) → Pod

namespace ETOSSuiteStarterDeployment

variable (m : Machinery Pod) (r : ETOSSuiteStarterDeployment Pod)

/-- `mergedSecret`. -/
def mergedSecret (cluster : ClusterValues) : Reconcile Pod (Fields Bytes) := do
  let eiffel ← sourceData r.rabbitmqSecret
  let etos ← sourceData r.messagebusSecret
  let data := Lists.mapsCopy
    (Lists.mapsCopy (Lists.mapsCopy (Lists.mapsCopy [] eiffel) etos) r.etosSecretData) r.encryptionSecretData
  let data := Lists.mapsCopy data [("ETOS_RABBITMQ_QUEUE_NAME", bytes cluster.etosQueueName)]
  if cluster.etosQueueParams ≠ "" then
    return Lists.mapsCopy data [("ETOS_RABBITMQ_QUEUE_PARAMS", bytes cluster.etosQueueParams)]
  else return data

/-- `reconcileSuiteRunnerSecret`, which patches the secret in any case. -/
def reconcileSuiteRunnerSecret (cluster : ClusterValues) : Reconcile Pod String := do
  let name := cluster.name ++ "-etos-suite-runner-cfg"
  let target ← mergedSecret r cluster
  let _ ← reconcileData (fun _ _ => false) name target
  return name

/-- `config`. -/
def config (secretName : String) (cluster : ClusterValues) : Reconcile Pod (Fields Bytes) := do
  let data : Fields Bytes := [("SUITE_RUNNER", bytes (ImageOrDefault r.suiteRunner cluster.suiteRunner)),
    ("LOG_LISTENER", bytes (ImageOrDefault r.logListener cluster.logListener)),
    ("ETOS_CONFIGMAP", bytes r.etosSecretName), ("ETOS_RABBITMQ_SECRET", bytes secretName),
    ("ETOS_ESR_TTL", bytes r.ttl), ("ETOS_TERMINATION_GRACE_PERIOD", bytes r.gracePeriod),
    ("RABBITMQ_ROUTING_KEY",
      bytes ("eiffel.*.EiffelTestExecutionRecipeCollectionCreatedEvent." ++ cluster.routingKeyTag ++ ".*")),
    ("RABBITMQ_QUEUE", bytes r.eiffelQueueName)]
  let data := if r.sidecarImage ≠ "" then data ++ [("ETOS_SIDECAR_IMAGE", bytes r.sidecarImage)] else data
  let data := if r.eiffelQueueParams ≠ "" then data ++ [("RABBITMQ_QUEUE_PARAMS", bytes r.eiffelQueueParams)] else data
  let eiffel ← sourceData r.rabbitmqSecret
  let etos ← sourceData r.messagebusSecret
  return Lists.mapsCopy (Lists.mapsCopy (Lists.mapsCopy data eiffel) etos) r.etosSecretData

/-- `reconcileConfig`. -/
def reconcileConfig (secretName name : String) (cluster : ClusterValues) : Reconcile Pod Bool := do
  let target ← config r secretName cluster
  reconcileData Fields.deepDerivative (name ++ "-cfg") target

/-- `reconcileTemplate`. -/
def reconcileTemplate (saName : String) : Reconcile Pod Bool :=
  reconcileData Fields.deepDerivative (saName ++ "-template")
    [("suite_runner_template.yaml", r.suiteRunnerTemplate saName)]

/-- `reconcileSecret`. -/
def reconcileSecret (name : String) : Reconcile Pod Unit := do
  let _ ← reconcileData Fields.deepDerivative (name ++ "-token") []

/-- `deployment`. -/
def deployment (secretName suiteRunnerTemplate : String) (cluster : ClusterValues) : DeploymentSpec Pod :=
  ⟨r.replicas.getD 1, [], r.pod cluster secretName suiteRunnerTemplate⟩

/-- `Reconcile`. -/
def reconcile (cluster : ClusterValues) : Reconcile Pod Unit := do
  let suiteStarterName := cluster.name ++ "-etos-suite-starter"
  let suiteRunnerName := cluster.name ++ "-etos-suite-runner"
  reconcileObject .serviceAccount suiteRunnerName
  let secretName ← reconcileSuiteRunnerSecret r cluster
  let configWritten ← reconcileConfig r secretName suiteStarterName cluster
  let templateWritten ← reconcileTemplate r suiteRunnerName
  let suiteRunnerTemplateName :=
    if r.suiteRunnerTemplateSecretName = "" then suiteRunnerName ++ "-template" else r.suiteRunnerTemplateSecretName
  reconcileSecret suiteStarterName
  reconcileObject .role (suiteStarterName ++ ":sa:esr-handler")
  reconcileObject .serviceAccount suiteStarterName
  reconcileObject .roleBinding suiteStarterName
  reconcileObject .role (suiteRunnerName ++ ":sa:testrun-reader")
  reconcileObject .serviceAccount suiteRunnerName
  reconcileObject .roleBinding suiteRunnerName
  reconcileDeployment m suiteStarterName
    (r.deployment (suiteStarterName ++ "-cfg") suiteRunnerTemplateName cluster) (configWritten || templateWritten)

end ETOSSuiteStarterDeployment

end Etos.Services
