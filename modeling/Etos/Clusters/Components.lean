import Etos.Extras.Reconcile
import Etos.Prog.Embed
import Etos.Services.Reconcile

/-!
# `Clusters.Components` — the reconcilers of everything an ETOS cluster is made of

A cluster consists of two message buses, two databases, an event repository and the ETOS services. The message buses
and the ingress are in `Extras.Reconcile`, three of the services in `Services.Reconcile`. Here are
`internal/extras/mongodb.go`, `internal/extras/eventrepository.go`, `internal/etos/database.go`,
`internal/etos/api/logarea.go`, and `internal/etos/etos.go`, which puts the services together.

All of them are programs over the calls `ComponentOp`. What the objects they build contain is a parameter, but for the
data that is read again by another reconciler.
-/

namespace Etos.Clusters

open Kube Services Extras

/-- The calls of the components. -/
inductive ComponentOp (Pod : Type) where
  | extras (o : Extras.Op Pod)
  | services (o : Services.Op Pod)
  | deleteDeployment (name : String)
  | getProvider (name : String)
  | createProvider (name : String) (target : ProviderSpec)
  /-- `Patch` with `MergeFrom`, on top of the provider that was read. -/
  | patchProvider (name : String) (target : ProviderSpec)

@[reducible] def ComponentAns (Pod : Type) : ComponentOp Pod → Type
  | .extras o => Extras.Ans Pod o
  | .services o => Services.Ans Pod o
  | .deleteDeployment _ | .getProvider _ | .createProvider _ _ | .patchProvider _ _ => Except Err Unit

abbrev Component (Pod α : Type) := ExceptT Failure (Prog (ComponentOp Pod) (ComponentAns Pod)) α

variable {Pod α : Type}

def extrasEmbedding : Embedding (Extras.Op Pod) (Extras.Ans Pod) (ComponentOp Pod) (ComponentAns Pod) where
  op := .extras
  ans _ a := a

def servicesEmbedding : Embedding (Services.Op Pod) (Services.Ans Pod) (ComponentOp Pod) (ComponentAns Pod) where
  op := .services
  ans _ a := a

/-- A reconciler of `Extras`. -/
def extras (p : Extras.Reconcile Pod α) : Component Pod α := embedded extrasEmbedding p

/-- A reconciler of `Services`. -/
def services (p : Services.Reconcile Pod α) : Component Pod α := embedded servicesEmbedding p

/-- A call. -/
def ask (o : ComponentOp Pod) : Component Pod (ComponentAns Pod o) := ExceptT.lift (Prog.perform o)

/-- `if err != nil { return err }`. -/
def orFail {α : Type} : Except Err α → Component Pod Unit
  | .ok _ => pure ()
  | .error e => throw (.err e)

/-- A pointer that is nil, or a slice that is too short. -/
def panic (message : String) : Component Pod α := ExceptT.lift (.panic message)

/-- What a pointer points to. -/
def deref (what : String) : Option α → Component Pod α
  | some a => pure a
  | none => panic what

/-- Functions of other libraries. -/
structure Library (Pod : Type) where
  machinery : Machinery Pod
  platform : Platform Pod
  /-- `url.URL`, with `url.Parse`, setting `Host`, `String` and `Path`. -/
  URL : Type
  parseURL : Bytes → Except Err URL
  withHost : URL → String → URL
  urlString : URL → Bytes
  path : URL → Bytes
  /-- Is the text JSON with `"durable": true`? -/
  durable : String → Bool
  /-- Is the text a quantity for `resource.ParseQuantity`? -/
  quantity : String → Bool

variable (lib : Library Pod)

/-! ## `MongoDBDeployment` -/

def mongodbPort : Int := 27017

structure MongoDB where
  deploy : Bool := true
  uri : Option Var := none

structure MongoDBDeployment (lib : Library Pod) extends MongoDB where
  /-- The pods of `statefulset`, without their annotations. -/
  pod : lib.URL → (name clusterName : String) → Pod

namespace MongoDBDeployment

variable {lib} (r : MongoDBDeployment lib)

/-- The name of the secret, of the service and of the StatefulSet. -/
def baseName (clusterName : String) : String := clusterName ++ "-mongodb"

/-- `secretData`. A path is taken to start with a slash. -/
def secretData (url : lib.URL) : Component Pod (Fields Bytes) :=
  match lib.path url with
  | [] => panic "URL.Path[1:]"
  | _ :: database => return [("MONGODB_CONNSTRING", lib.urlString url), ("MONGODB_DATABASE", database)]

/-- `reconcileSecret`: the name of the secret, unless it was removed, and whether a restart is required. -/
def reconcileSecret (name : String) (url : lib.URL) : Component Pod (Option String × Bool) := do
  let target ← secretData url
  match ← ask (.extras (.get .secret name)) with
  | .error e =>
      if !e.isNotFound then throw (.err e)
      else if r.deploy then
        orFail (← ask (.extras (.create .secret name target)))
        return (some name, true)
      else return (some name, false)
  | .ok (secret, _) =>
      if !r.deploy then
        orFail (← ask (.extras (.delete .secret name)))
        return (none, false)
      else if target.deepDerivative secret then return (some name, false)
      else
        orFail (← ask (.extras (.patch .secret name target secret)))
        return (some name, true)

/-- The URI, with the host of the service if there is one. -/
def url (cluster : ClusterName) : Component Pod lib.URL := do
  let uri ← deref "URI" r.uri
  let text ← extras (getVar uri cluster.namespace_)
  match lib.parseURL text with
  | .error e => throw (.err e)
  | .ok url =>
      if r.deploy then return lib.withHost url (baseName cluster.name ++ ":" ++ toString mongodbPort) else return url

/-- `Reconcile`. The name of the secret is kept for the event repository. -/
def reconcile (cluster : ClusterName) : Component Pod Unit := do
  let name := baseName cluster.name
  let url ← r.url cluster
  let (secret, restartRequired) ← r.reconcileSecret name url
  let _ ← deref "secret" secret
  extras (reconcileService r.deploy name)
  extras (reconcileStatefulset lib.platform r.deploy name (statefulset (r.pod url name cluster.name)) restartRequired)

end MongoDBDeployment

/-! ## `EventRepositoryDeployment` -/

def graphqlPort : Int := 5000

structure EventRepositoryDeployment (Pod : Type) where
  deploy : Bool := true
  eiffelQueueName : String := ""
  eiffelQueueParams : String := ""
  ingress : IngressConfig := {}
  rabbitmqSecret : String
  mongodbSecret : String
  pod : (name secretName clusterName : String) → Pod

namespace EventRepositoryDeployment

variable (r : EventRepositoryDeployment Pod)

def baseName (clusterName : String) : String := clusterName ++ "-graphql"

/-- `data[key] = value`. -/
def setKey (data : Fields Bytes) (key value : String) : Fields Bytes := Lists.mapsCopy data [(key, bytes value)]

/-- The data of a secret that has to be there. -/
def sourceData (name : String) : Component Pod (Fields Bytes) := do
  match ← ask (.extras (.get .secret name)) with
  | .error e => throw (.err e)
  | .ok (data, _) => return data

/-- `config`. -/
def config : Component Pod (Fields Bytes) := do
  let eiffel ← sourceData r.rabbitmqSecret
  let etos ← sourceData r.mongodbSecret
  let data := Lists.mapsCopy (Lists.mapsCopy [] eiffel) etos
  let data := setKey data "RABBITMQ_QUEUE" r.eiffelQueueName
  let data := setKey data "RABBITMQ_QUEUE_PARAMS" r.eiffelQueueParams
  if lib.durable r.eiffelQueueParams then return setKey data "RABBITMQ_DURABLE_QUEUE" "true" else return data

/-- The data of the secret, which is needed only if the event repository is deployed. -/
def target : Component Pod (Fields Bytes) := if r.deploy then r.config lib else return []

/-- `reconcileConfig`. Does it require a restart? -/
def reconcileConfig (name : String) : Component Pod Bool := do
  let target ← r.target lib
  match ← ask (.extras (.get .secret name)) with
  | .error e =>
      if !e.isNotFound then throw (.err e)
      else if r.deploy then
        orFail (← ask (.extras (.create .secret name target)))
        return true
      else return false
  | .ok (secret, _) =>
      if !r.deploy then
        orFail (← ask (.extras (.delete .secret name)))
        return false
      else if target.deepDerivative secret then return false
      else
        orFail (← ask (.extras (.patch .secret name target secret)))
        return true

/-- `ingress`. -/
def ingressTarget (name : String) : Ingress where
  annotations := []
  spec :=
    { ingressClassName := if r.ingress.ingressClass ≠ "" then some r.ingress.ingressClass else none
      rules := [{ host := r.ingress.host, http := some [IngressConfig.path "/graphql" name graphqlPort] }] }

/-- `reconcileIngress`. -/
def reconcileIngress (name : String) : Component Pod Unit := do
  let target := r.ingressTarget name
  match ← ask (.extras (.get .ingress name)) with
  | .error e =>
      if !e.isNotFound then throw (.err e)
      else if r.ingress.enabled then orFail (← ask (.extras (.create .ingress name target)))
      else pure ()
  | .ok (ingress, _) =>
      if !r.ingress.enabled then orFail (← ask (.extras (.delete .ingress name)))
      else if target.spec.deepDerivative ingress.spec then pure ()
      else orFail (← ask (.extras (.patch .ingress name target ingress)))

/-- `reconcileDeployment`. -/
def reconcileDeployment (name : String) (target : DeploymentSpec Pod) (restartRequired : Bool) :
    Component Pod Unit := do
  match ← ask (.services (.getDeployment name)) with
  | .error e =>
      if !e.isNotFound then throw (.err e)
      else if r.deploy then
        orFail (← ask (.services (.createDeployment name target)))
        throw (.notReady name "deployment just created")
      else pure ()
  | .ok deployment =>
      if !r.deploy then orFail (← ask (.deleteDeployment name))
      else if restartRequired then
        let now ← ask (.services .now)
        orFail (← ask (.services
          (.patchDeployment name (target.annotate (lib.machinery.rfc3339 now)) deployment.spec)))
        throw (.notReady name "deployment just updated")
      else if target.deepDerivative lib.machinery deployment.spec then
        match deploymentReady name deployment with
        | .ok _ => pure ()
        | .error failure => throw failure
      else
        orFail (← ask (.services (.patchDeployment name target deployment.spec)))
        throw (.notReady name "deployment just updated")

/-- `Reconcile`. The secret has the name of the Deployment. -/
def reconcile (cluster : ClusterName) : Component Pod Unit := do
  let name := baseName cluster.name
  let restartRequired ← r.reconcileConfig lib name
  extras (reconcileService r.deploy name)
  r.reconcileIngress name
  r.reconcileDeployment lib name ⟨1, [], r.pod name name cluster.name⟩ restartRequired

end EventRepositoryDeployment

/-! ## `ETCDDeployment` -/

def etcdReplicas : Int := 3

structure EtcdResourceList where
  cpu : String := "300m"
  memory : String := "768Mi"

structure ETCDDeployment (Pod : Type) where
  deploy : Bool := true
  limits : EtcdResourceList := {}
  requests : EtcdResourceList := {}
  pod : (name clusterName : String) → Pod

namespace ETCDDeployment

variable (r : ETCDDeployment Pod)

def baseName (clusterName : String) : String := clusterName ++ "-etcd"

/-- The resources of `container`. `resource.MustParse` panics at a text that is no quantity. -/
def resources : Component Pod Unit :=
  if [r.limits.memory, r.limits.cpu, r.requests.memory, r.requests.cpu].all lib.quantity then pure ()
  else panic "resource.MustParse"

/-- `statefulset`. -/
def statefulset (name clusterName : String) : StatefulSetSpec Pod where
  replicas := some etcdReplicas
  template := ⟨[], r.pod name clusterName⟩

/-- `Reconcile`. Nothing requires a restart. -/
def reconcile (cluster : ClusterName) : Component Pod Unit := do
  let name := baseName cluster.name
  extras (reconcileService r.deploy name)
  extras (reconcileService r.deploy (name ++ "-client"))
  r.resources lib
  extras (reconcileStatefulset lib.platform r.deploy name (r.statefulset name cluster.name) false)

end ETCDDeployment

/-! ## `ETOSLogAreaDeployment` -/

structure ETOSLogAreaDeployment (Pod : Type) where
  pod : ClusterValues → Pod

namespace ETOSLogAreaDeployment

variable (m : Machinery Pod) (r : ETOSLogAreaDeployment Pod)

/-- `Reconcile`. Nothing requires a restart. -/
def reconcile (cluster : ClusterValues) : Services.Reconcile Pod Unit := do
  let name := cluster.name ++ "-etos-logarea"
  reconcileObject .serviceAccount name
  reconcileObject .service name
  reconcileDeployment m name ⟨1, [], r.pod cluster⟩ false

end ETOSLogAreaDeployment

/-! ## Errors of several components -/

/-- The error of a component: one that stops the reconciliation, or the joined errors of what is not ready yet. -/
inductive Trouble where
  | err (e : Err)
  /-- `errors.Join` of `NotReadyError`s. -/
  | notReady (text : String)

/-- `NotReadyError.Error`. -/
def notReadyText (name message : String) : String := name ++ ": " ++ message

/-- `errors.Join(notReadyErr, err)`. -/
def joinText (notReadyErr : Option String) (text : String) : Option String :=
  match notReadyErr with
  | none => some text
  | some before => some (before ++ "\n" ++ text)

/-! ## `ETOSDeployment` -/

structure ETOSDeployment (Pod : Type) where
  rabbitmqSecret : String
  messagebusSecret : String
  ingress : IngressConfig := {}
  encryptionKey : Var := {}
  /-- The data of `config`. -/
  config : ClusterValues → Fields Bytes
  /-- `cfg.IutProvider`, `cfg.LogAreaProvider` and `cfg.ExecutionSpaceProvider`. -/
  iutProvider : Service
  logAreaProvider : Service
  executionSpaceProvider : Service
  /-- The services, but for the names and the data of the secrets, which are found here. -/
  api : ETOSApiDeployment Pod
  sse : ETOSSSEDeployment Pod
  logArea : ETOSLogAreaDeployment Pod
  suiteStarter : ETOSSuiteStarterDeployment Pod

namespace ETOSDeployment

variable (r : ETOSDeployment Pod)

/-- `reconcileConfig`: a secret that is created or patched, and the data it has then. -/
def reconcileSecretData (name : String) (target : Fields Bytes) : Component Pod (Fields Bytes) := do
  match ← ask (.extras (.get .secret name)) with
  | .error e =>
      if !e.isNotFound then throw (.err e)
      else
        orFail (← ask (.extras (.create .secret name target)))
        return target
  | .ok (secret, _) =>
      match ← ask (.extras (.patch .secret name target secret)) with
      | .error e => throw (.err e)
      | .ok (patched, _) => return patched

/-- `reconcileSecret`: the secret with the encryption key, which is left alone unless it has changed. -/
def reconcileSecret (name namespace_ : String) : Component Pod (Fields Bytes) := do
  let value ← extras (getVar r.encryptionKey namespace_)
  let target : Fields Bytes := [("ETOS_ENCRYPTION_KEY", value)]
  match ← ask (.extras (.get .secret name)) with
  | .error e =>
      if !e.isNotFound then throw (.err e)
      else
        orFail (← ask (.extras (.create .secret name target)))
        return target
  | .ok (secret, _) =>
      if target.deepDerivative secret then return secret
      else
        match ← ask (.extras (.patch .secret name target secret)) with
        | .error e => throw (.err e)
        | .ok (patched, _) => return patched

/-- `environmentProviderConfig`. -/
def environmentProviderConfig (encryptionKeyName configmapName : String) : Component Pod (Fields Bytes) := do
  let eiffel ← EventRepositoryDeployment.sourceData r.rabbitmqSecret
  let etos ← EventRepositoryDeployment.sourceData r.messagebusSecret
  let encryption ← EventRepositoryDeployment.sourceData encryptionKeyName
  let cfg ← EventRepositoryDeployment.sourceData configmapName
  return Lists.mapsCopy (Lists.mapsCopy (Lists.mapsCopy (Lists.mapsCopy [] eiffel) etos) encryption) cfg

/-- `reconcileEnvironmentProviderConfig`. -/
def reconcileEnvironmentProviderConfig (name encryptionKeyName configmapName : String) : Component Pod Unit := do
  let target ← r.environmentProviderConfig encryptionKeyName configmapName
  let _ ← reconcileSecretData name target

/-- `provider`, without its environment variables. -/
def provider (providerType image : String) (logAreaProviderConfig : Option String) : ProviderSpec where
  type := providerType
  image := image
  logAreaProviderConfig := logAreaProviderConfig

/-- `reconcileIutProvider`, `reconcileLogAreaProvider` and `reconcileExecutionSpaceProvider`. -/
def reconcileProvider (name : String) (target : ProviderSpec) : Component Pod Unit := do
  match ← ask (.getProvider name) with
  | .error e =>
      if !e.isNotFound then throw (.err e)
      else orFail (← ask (.createProvider name target))
  | .ok _ => orFail (← ask (.patchProvider name target))

def reconcileIutProvider (name : String) : Component Pod Unit :=
  reconcileProvider (name ++ "-iut-provider") (provider "iut" (ImageOrDefault r.iutProvider {}) none)

def reconcileLogAreaProvider (name : String) : Component Pod Unit :=
  reconcileProvider (name ++ "-log-area-provider") (provider "log-area" (ImageOrDefault r.logAreaProvider {})
    (some ("http://" ++ name ++ "-etos-logarea/logarea/v1alpha/$context")))

def reconcileExecutionSpaceProvider (name : String) : Component Pod Unit :=
  reconcileProvider (name ++ "-execution-space-provider")
    (provider "execution-space" (ImageOrDefault r.executionSpaceProvider {}) none)

/-- A service that is not ready is noted, and the next one is reconciled; any other error is returned. -/
def noting (p : Component Pod Unit) (notReadyErr : Option String) : Component Pod (Option String) :=
  ExceptT.mk do
    match ← p.run with
    | .ok _ => return .ok notReadyErr
    | .error (.err e) => return .error (.err e)
    | .error (.notReady name message) => return .ok (joinText notReadyErr (notReadyText name message))

/-- The objects that the services share: the data of the configuration and of the encryption key. -/
def reconcileShared (cluster : ClusterValues) : Component Pod (Fields Bytes × Fields Bytes) := do
  let name := cluster.name
  extras (r.ingress.reconcileIngress name)
  services (reconcileObject .role (name ++ "-provider:sa:environment-provider"))
  services (reconcileObject .serviceAccount (name ++ "-provider"))
  services (reconcileObject .roleBinding (name ++ "-provider"))
  let cfg ← reconcileSecretData (name ++ "-cfg") (r.config cluster)
  let encryption ← r.reconcileSecret (name ++ "-encryption-key") cluster.namespace_
  r.reconcileEnvironmentProviderConfig (name ++ "-environment-provider-cfg") (name ++ "-encryption-key")
    (name ++ "-cfg")
  r.reconcileIutProvider name
  r.reconcileLogAreaProvider name
  r.reconcileExecutionSpaceProvider name
  return (cfg, encryption)

/-- The four services. -/
def reconcileServices (m : Machinery Pod) (cluster : ClusterValues) (cfg encryption : Fields Bytes) :
    Component Pod (Option String) := do
  let api := { r.api with
    rabbitmqSecret := r.rabbitmqSecret
    messagebusSecret := r.messagebusSecret
    etosSecret := cluster.name ++ "-cfg" }
  let suiteStarter := { r.suiteStarter with
    rabbitmqSecret := r.rabbitmqSecret
    messagebusSecret := r.messagebusSecret
    etosSecretName := cluster.name ++ "-cfg"
    etosSecretData := cfg
    encryptionSecretData := encryption }
  let sse := { r.sse with messagebusSecret := r.messagebusSecret }
  let notReadyErr ← noting (services (api.reconcile m cluster)) none
  let notReadyErr ← noting (services (sse.reconcile m cluster)) notReadyErr
  let notReadyErr ← noting (services (r.logArea.reconcile m cluster)) notReadyErr
  noting (services (suiteStarter.reconcile m cluster)) notReadyErr

/-- `Reconcile`: the services that are not ready, unless there is another error. -/
def reconcile (m : Machinery Pod) (cluster : ClusterValues) : Component Pod (Option String) := do
  let (cfg, encryption) ← r.reconcileShared cluster
  r.reconcileServices m cluster cfg encryption

end ETOSDeployment

end Etos.Clusters
