import Etos.Api.Client
import Etos.Clusters.Components

/-!
# `Clusters.Reconcile` — the Cluster controller

`internal/controller/cluster_controller.go`. A pass reconciles the components of a cluster one after the other. One that
is not ready is noted, and the others are reconciled all the same; any other error ends the pass. The condition `Ready`
of the cluster says how it went.
-/

namespace Etos.Clusters

open Kube Services Extras Prog

variable {Pod : Type}

/-- The event repository of a cluster, with its database. -/
structure EventRepository (lib : Library Pod) extends EventRepositoryDeployment Pod where
  database : MongoDBDeployment lib

/-- A cluster, as the reconcilers of its components that are made from its specification. -/
structure Cluster (lib : Library Pod) where
  values : ClusterValues
  eiffelMessageBus : RabbitMQDeployment Pod
  etosMessageBus : MessageBusDeployment Pod
  eventRepository : Option (EventRepository lib)
  database : Option (ETCDDeployment Pod)
  etos : ETOSDeployment Pod
  conditions : List Condition := []

namespace Cluster

variable {lib : Library Pod} (cluster : Cluster lib)

/-- The name, for the reconcilers that read no more. -/
def clusterName : ClusterName := ⟨cluster.values.name, cluster.values.namespace_⟩

/-- `SecretName` of the two message buses, after they have been reconciled. -/
def rabbitmqSecret : String := RabbitMQDeployment.baseName cluster.clusterName
def messagebusSecret : String := MessageBusDeployment.baseName cluster.clusterName

end Cluster

/-! ## Calls -/

/-- The calls of the controller. -/
inductive ClusterOp (lib : Library Pod) where
  | component (o : ComponentOp Pod)
  | getCluster
  /-- `time.Now()`, in nanoseconds. -/
  | timeNow
  | updateStatus (conditions : List Condition)

@[reducible] def ClusterAns (lib : Library Pod) : ClusterOp lib → Type
  | .component o => ComponentAns Pod o
  | .getCluster => Except Err (Cluster lib)
  | .timeNow => Int
  | .updateStatus _ => Except Err Unit

def clusterEmbedding (lib : Library Pod) :
    Embedding (ComponentOp Pod) (ComponentAns Pod) (ClusterOp lib) (ClusterAns lib) where
  op := .component
  ans _ a := a

/-! ## `ClusterReconciler` -/

/-- What `Reconcile` returns. -/
abbrev Outcome := ReconcileResult × Option Err

abbrev Pass (lib : Library Pod) := Prog (ClusterOp lib) (ClusterAns lib)

/-- A call of the controller itself. -/
def call {lib : Library Pod} (o : ClusterOp lib) : Pass lib (ClusterAns lib o) := perform o

/-- `err.Error()`. -/
def Trouble.text : Trouble → String
  | .err e => e.text
  | .notReady text => text

namespace ClusterReconciler

variable {lib : Library Pod}

/-- `update`. -/
def update (cluster : Cluster lib) (status : ConditionStatus) (reason : Reason) (message : String) :
    Pass lib Outcome := do
  let now ← call .timeNow
  let (conditions, changed) :=
    setStatusCondition (unixSeconds now) ⟨.ready, status, reason, message, 0⟩ cluster.conditions
  if changed then
    match ← call (.updateStatus conditions) with
    | .error e => if e.isConflict then return ({ requeueAfter := 1000000000 }, none) else return ({}, some e)
    | .ok _ => return ({}, none)
  else return ({}, none)

/-- `handleReconcileError`. -/
def handleReconcileError (cluster : Cluster lib) (trouble : Trouble) : Pass lib Outcome := do
  let (result, updateErr) ← update cluster .false .pending trouble.text
  match updateErr, trouble with
  | some e, _ => return (result, some e)
  | none, .notReady _ =>
      if result.requeueAfter = 0 then return ({ result with requeueAfter := 5 * 1000000000 }, none)
      else return (result, none)
  | none, .err e => return (result, some e)

/-- One component. A pass ends early with an outcome. -/
def component (cluster : Cluster lib) (p : Component Pod (Option String)) (notReadyErr : Option String) :
    ExceptT Outcome (Pass lib) (Option String) := do
  match ← ExceptT.lift (p.run.embed (clusterEmbedding lib)) with
  | .ok none => return notReadyErr
  | .ok (some text) => return joinText notReadyErr text
  | .error (.notReady name message) => return joinText notReadyErr (notReadyText name message)
  | .error (.err e) =>
      if e.isConflict || e.isNotFound then throw ({ requeue := true }, none)
      else
        let outcome ← ExceptT.lift (handleReconcileError cluster (.err e))
        throw outcome

/-- A component with a single error. -/
def single (p : Component Pod Unit) : Component Pod (Option String) := do
  p
  return none

/-- What a pointer of the specification points to. -/
def required {α : Type} (what : String) : Option α → ExceptT Outcome (Pass lib) α
  | some a => pure a
  | none => ExceptT.lift (.panic what)

/-- MongoDB is only used by a local event repository. -/
def mongodb (repository : EventRepository lib) : MongoDBDeployment lib :=
  { repository.database with deploy := repository.deploy && repository.database.deploy }

/-- The event repository, which reads the secrets of the message bus and of MongoDB. -/
def eventRepository (cluster : Cluster lib) (repository : EventRepository lib) : EventRepositoryDeployment Pod :=
  { repository.toEventRepositoryDeployment with
    rabbitmqSecret := cluster.rabbitmqSecret
    mongodbSecret := MongoDBDeployment.baseName cluster.values.name }

/-- The ETOS services, which read the secrets of the message buses. -/
def etos (cluster : Cluster lib) : ETOSDeployment Pod :=
  { cluster.etos with rabbitmqSecret := cluster.rabbitmqSecret, messagebusSecret := cluster.messagebusSecret }

/-- The components of a cluster: what is not ready, unless the pass ends early. -/
def components (cluster : Cluster lib) : ExceptT Outcome (Pass lib) (Option String) := do
  let name := cluster.clusterName
  let step := component cluster
  let notReadyErr ← step (single (extras (cluster.eiffelMessageBus.reconcile lib.platform name))) none
  let notReadyErr ← step (single (extras (cluster.etosMessageBus.reconcile lib.platform name))) notReadyErr
  let repository ← required "EventRepository" cluster.eventRepository
  let notReadyErr ← step (single ((mongodb repository).reconcile name)) notReadyErr
  let notReadyErr ← step (single ((eventRepository cluster repository).reconcile lib name)) notReadyErr
  let database ← required "Database" cluster.database
  let notReadyErr ← step (single (database.reconcile lib name)) notReadyErr
  step ((etos cluster).reconcile lib.machinery cluster.values) notReadyErr

/-- `Reconcile`. -/
def Reconcile (lib : Library Pod) : Pass lib Outcome := do
  match ← call .getCluster with
  | .error e => if e.isNotFound then return ({}, none) else return ({}, some e)
  | .ok cluster =>
      match ← (components cluster).run with
      | .error outcome => return outcome
      | .ok (some text) => handleReconcileError cluster (.notReady text)
      | .ok none => update cluster .true .completed "Cluster is up and running"

end ClusterReconciler

end Etos.Clusters
