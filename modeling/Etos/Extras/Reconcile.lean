import Etos.Api.Types
import Etos.Extras.Objects
import Etos.Lists.Dict

/-!
# `Extras.Reconcile` — the reconcilers of the message buses and of the ingress

`internal/extras/messagebus.go`, `internal/extras/rabbitmq.go` and `reconcileIngress` of `internal/etos/etos.go`. The
two message buses are deployed, or described to the services by a secret only. Their reconcilers differ in the names, in
the keys of the secret, and in the headless service that only the ETOS message bus has.

A reconciler lives for one attempt; its field `restartRequired` is passed along here. Setting the controller reference
of an object that was just built cannot fail, and is left out, as is the defaulting by the client's scheme, which has no
defaults.
-/

namespace Etos.Extras

open Kube Services

variable {Pod : Type}

/-- What a reconciler does: calls, until it returns a result or an error. -/
abbrev Reconcile (Pod α : Type) := ExceptT Failure (Prog (Op Pod) (Ans Pod)) α

/-- A call. -/
def ask (o : Op Pod) : Reconcile Pod (Ans Pod o) := ExceptT.lift (Prog.perform o)

/-- `if err != nil { return err }`. -/
def orFail {α : Type} : Except Err α → Reconcile Pod Unit
  | .ok _ => pure ()
  | .error e => throw (.err e)

/-- The name and the namespace of the cluster. -/
structure ClusterName where
  name : String
  namespace_ : String

/-! ## `Var` -/

/-- `getFromSecretKeySelector` and `getFromConfigMapKeySelector`, for the answer with the object and what the kind is
    called in the error. -/
def getFromKeySelector (answer : Except Err (Fields Bytes)) (kind : String) (selector : KeySelector)
    (namespace_ : String) : Reconcile Pod Bytes :=
  match answer with
  | .error e => throw (.err e)
  | .ok data =>
      match data.lookup selector.key with
      | none =>
          throw (.err (.new
            (selector.key ++ " does not exist in " ++ kind ++ " " ++ selector.name ++ "/" ++ namespace_)))
      | some d => return d

/-- `getFromSecretKeySelector`. -/
def getFromSecretKeySelector (selector : KeySelector) (namespace_ : String) : Reconcile Pod Bytes := do
  let answer ← ask (.get .secret selector.name)
  getFromKeySelector (answer.map Prod.fst) "secret" selector namespace_

/-- `getFromConfigMapKeySelector`. -/
def getFromConfigMapKeySelector (selector : KeySelector) (namespace_ : String) : Reconcile Pod Bytes := do
  let answer ← ask (.get .configMap selector.name)
  getFromKeySelector (answer.map Prod.fst) "configmap" selector namespace_

/-- `Var.Get`. -/
def getVar (v : Var) (namespace_ : String) : Reconcile Pod Bytes :=
  if v.value ≠ "" then return bytes v.value
  else
    match v.secretKeyRef with
    | some selector => getFromSecretKeySelector selector namespace_
    | none =>
        match v.configMapKeyRef with
        | some selector => getFromConfigMapKeySelector selector namespace_
        | none => throw (.err (.new "found no source for key"))

/-! ## Secrets -/

def rabbitmqPort : Int := 5672
def rabbitmqStreamPort : Int := 5552

/-- The password and the user are added to the data of a secret if they are there. -/
def withCredentials (data : Fields Bytes) (passwordKey usernameKey : String) (r : RabbitMQ) (password : Option Bytes) :
    Fields Bytes :=
  let data := match password with
    | some password => data ++ [(passwordKey, password)]
    | none => data
  if r.username ≠ "" then data ++ [(usernameKey, bytes r.username)] else data

/-- The password of the specification, if it has one. -/
def getPassword (r : RabbitMQ) (namespace_ : String) : Reconcile Pod (Option Bytes) :=
  match r.password with
  | none => return none
  | some v => return some (← getVar v namespace_)

/-- `reconcileSecret` of both message buses. Does it require a restart? -/
def reconcileSecret (secretData : Reconcile Pod (Fields Bytes)) (name : String) : Reconcile Pod Bool := do
  let target ← secretData
  match ← ask (.get .secret name) with
  | .error e =>
      if !e.isNotFound then throw (.err e)
      else
        orFail (← ask (.create .secret name target))
        return true
  | .ok (secret, _) =>
      if target.deepDerivative secret then return false
      else
        orFail (← ask (.patch .secret name target secret))
        return true

/-! ## Services and StatefulSets -/

/-- `reconcileService` and `reconcileHeadlessService`. -/
def reconcileService (deploy : Bool) (name : String) : Reconcile Pod Unit := do
  match ← ask (.get .service name) with
  | .error e =>
      if !e.isNotFound then throw (.err e)
      else if deploy then orFail (← ask (.create .service name ()))
      else pure ()
  | .ok _ =>
      if !deploy then orFail (← ask (.delete .service name))
      else orFail (← ask (.patch .service name () ()))

/-- `target.Spec.Template.Annotations[…] = value`. -/
def StatefulSetSpec.annotate (spec : StatefulSetSpec Pod) (value : String) : StatefulSetSpec Pod :=
  { spec with
    template := { spec.template with annotations := Lists.setItem restartedAt value spec.template.annotations } }

/-- `statefulset`: the number of replicas is left to the API server, and there are no annotations. -/
def statefulset (pod : Pod) : StatefulSetSpec Pod where
  template := ⟨[], pod⟩

/-- The StatefulSet that is patched: one with an annotation that is new, when a restart is required. -/
def restarting (p : Platform Pod) (target : StatefulSetSpec Pod) (restartRequired : Bool) :
    Reconcile Pod (StatefulSetSpec Pod) :=
  if restartRequired then return target.annotate (p.rfc3339 (← ask .now)) else return target

/-- `reconcileStatefulset` of both message buses. -/
def reconcileStatefulset (p : Platform Pod) (deploy : Bool) (name : String) (target : StatefulSetSpec Pod)
    (restartRequired : Bool) : Reconcile Pod Unit := do
  match ← ask (.get .statefulSet name) with
  | .error e =>
      if !e.isNotFound then throw (.err e)
      else if deploy then
        orFail (← ask (.create .statefulSet name target))
        throw (.notReady name "statefulset just created")
      else pure ()
  | .ok (rabbitmq, _) =>
      if !deploy then orFail (← ask (.delete .statefulSet name))
      else
        let target ← restarting p target restartRequired
        match ← ask (.patch .statefulSet name target rabbitmq) with
        | .error e => throw (.err e)
        | .ok (patched, readyReplicas) => ExceptT.mk (pure (statefulSetReady name patched readyReplicas))

/-! ## `MessageBusDeployment` -/

structure MessageBusDeployment (Pod : Type) where
  rabbitmq : Option RabbitMQ
  /-- The pods of `statefulset`, without their annotations. -/
  pod : (name clusterName : String) → Pod

namespace MessageBusDeployment

/-- The data of the secret, for the value of the password. -/
def data (r : RabbitMQ) (password : Option Bytes) : Fields Bytes :=
  withCredentials
    [("ETOS_RABBITMQ_HOST", bytes r.host), ("ETOS_RABBITMQ_EXCHANGE", bytes r.exchange),
      ("ETOS_RABBITMQ_PORT", bytes r.port), ("ETOS_RABBITMQ_STREAM_PORT", bytes r.streamPort),
      ("ETOS_RABBITMQ_STREAM_NAME", bytes r.streamName), ("ETOS_RABBITMQ_SSL", bytes r.ssl),
      ("ETOS_RABBITMQ_VHOST", bytes r.vhost)]
    "ETOS_RABBITMQ_PASSWORD" "ETOS_RABBITMQ_USERNAME" r password

/-- `secretData`. -/
def secretData (r : RabbitMQ) (namespace_ : String) : Reconcile Pod (Fields Bytes) :=
  return data r (← getPassword r namespace_)

/-- `reconcileSecret`. -/
def reconcileSecret (r : RabbitMQ) (cluster : ClusterName) (name : String) : Reconcile Pod Bool :=
  Extras.reconcileSecret (secretData r cluster.namespace_) name

/-- The name of the secret, of the service and of the StatefulSet. -/
def baseName (cluster : ClusterName) : String := cluster.name ++ "-messagebus"

/-- A message bus that is deployed is where its service is. -/
def located (r : RabbitMQ) (name : String) : RabbitMQ :=
  if r.deploy then
    { r with host := name, port := toString rabbitmqPort, streamPort := toString rabbitmqStreamPort }
  else r

/-- `Reconcile`. -/
def reconcile (p : Platform Pod) (r : MessageBusDeployment Pod) (cluster : ClusterName) : Reconcile Pod Unit := do
  match r.rabbitmq with
  | none => throw (.err (.new "ETOSMessageBus configuration is required"))
  | some rabbitmq =>
      let name := baseName cluster
      let restartRequired ← reconcileSecret (located rabbitmq name) cluster name
      reconcileService rabbitmq.deploy (name ++ "-headless")
      reconcileService rabbitmq.deploy name
      reconcileStatefulset p rabbitmq.deploy name (statefulset (r.pod name cluster.name)) restartRequired

end MessageBusDeployment

/-! ## `RabbitMQDeployment` -/

structure RabbitMQDeployment (Pod : Type) where
  rabbitmq : Option RabbitMQ
  /-- The pods of `statefulset`, without their annotations. -/
  pod : (name clusterName : String) → Pod

namespace RabbitMQDeployment

/-- The data of the secret, for the value of the password. -/
def data (r : RabbitMQ) (password : Option Bytes) : Fields Bytes :=
  withCredentials
    [("RABBITMQ_HOST", bytes r.host), ("RABBITMQ_EXCHANGE", bytes r.exchange), ("RABBITMQ_PORT", bytes r.port),
      ("RABBITMQ_SSL", bytes r.ssl), ("RABBITMQ_VHOST", bytes r.vhost)]
    "RABBITMQ_PASSWORD" "RABBITMQ_USERNAME" r password

/-- `secretData`. -/
def secretData (r : RabbitMQ) (namespace_ : String) : Reconcile Pod (Fields Bytes) :=
  return data r (← getPassword r namespace_)

/-- `reconcileSecret`. -/
def reconcileSecret (r : RabbitMQ) (cluster : ClusterName) (name : String) : Reconcile Pod Bool :=
  Extras.reconcileSecret (secretData r cluster.namespace_) name

/-- The name of the secret, of the service and of the StatefulSet. -/
def baseName (cluster : ClusterName) : String := cluster.name ++ "-rabbitmq"

/-- A RabbitMQ that is deployed is where its service is. -/
def located (r : RabbitMQ) (name : String) : RabbitMQ :=
  if r.deploy then { r with host := name, port := toString rabbitmqPort } else r

/-- `Reconcile`. -/
def reconcile (p : Platform Pod) (r : RabbitMQDeployment Pod) (cluster : ClusterName) : Reconcile Pod Unit := do
  match r.rabbitmq with
  | none => throw (.err (.new "EiffelMessageBus configuration is required"))
  | some rabbitmq =>
      let name := baseName cluster
      let restartRequired ← reconcileSecret (located rabbitmq name) cluster name
      reconcileService rabbitmq.deploy name
      reconcileStatefulset p rabbitmq.deploy name (statefulset (r.pod name cluster.name)) restartRequired

end RabbitMQDeployment

/-! ## The ingress of ETOS -/

/-- `v1alpha1.Ingress`, as far as it is read. -/
structure IngressConfig where
  enabled : Bool := false
  ingressClass : String := ""
  host : String := ""
  annotations : Fields String := []

namespace IngressConfig

def apiServicePort : Int := 80
def sseServicePort : Int := 80
def logAreaServicePort : Int := 80

/-- A path, and the service behind it. -/
def path (path service : String) (port : Int) : HTTPIngressPath where
  path := path
  pathType := some "Prefix"
  backend := { service := some { name := service, portNumber := port } }

/-- `ingressRule`. -/
def ingressRule (r : IngressConfig) (name : String) : IngressRule where
  host := r.host
  http := some [path "/api" (name ++ "-etos-api") apiServicePort, path "/sse" (name ++ "-etos-sse") sseServicePort,
    path "/logarea" (name ++ "-etos-logarea") logAreaServicePort]

/-- `ingress`. `maps.Copy` sets one annotation after the other. -/
def ingress (r : IngressConfig) (name : String) : Ingress where
  annotations := r.annotations.foldl (fun annotations f => Lists.setItem f.1 f.2 annotations) []
  spec :=
    { ingressClassName := if r.ingressClass ≠ "" then some r.ingressClass else none
      rules := [ingressRule r name] }

/-- `reconcileIngress`. -/
def reconcileIngress (r : IngressConfig) (name : String) : Reconcile Pod Unit := do
  let target := ingress r name
  match ← ask (.get .ingress name) with
  | .error e =>
      if !e.isNotFound then throw (.err e)
      else if r.enabled then orFail (← ask (.create .ingress name target))
      else pure ()
  | .ok (ingress, _) =>
      if !r.enabled then orFail (← ask (.delete .ingress name))
      else if target.spec.deepDerivative ingress.spec then pure ()
      else orFail (← ask (.patch .ingress name target ingress))

end IngressConfig

end Etos.Extras
