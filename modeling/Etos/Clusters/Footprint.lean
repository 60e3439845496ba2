import Etos.Api.Role
import Etos.Clusters.Ready

/-!
# `Clusters.Footprint` — what a pass over a cluster touches, and where it dies

A pass of the Cluster controller goes through some thirty objects. Whatever the API server answers:

- it writes objects only whose names start with the name of the cluster, and the role of the operator grants every
  request but one, reading a config map (**`pass_footprint`**);
- it dies only of a specification it does not expect, a MongoDB whose URI has no path among them, or of a MongoDB that
  is not to be deployed any more (**`pass_panics`**).
-/

namespace Etos.Clusters

open Kube Services Extras Prog

variable {Pod : Type}

/-! ## Requests -/

/-- What the kinds are called in requests. -/
def extrasResource : Extras.Kind → Rbac.GroupResource
  | .secret => ⟨"", "secrets"⟩
  | .configMap => ⟨"", "configmaps"⟩
  | .service => ⟨"", "services"⟩
  | .statefulSet => ⟨"apps", "statefulsets"⟩
  | .ingress => ⟨"networking.k8s.io", "ingresses"⟩

def servicesResource : Services.Kind → Rbac.GroupResource
  | .role => ⟨"rbac.authorization.k8s.io", "roles"⟩
  | .serviceAccount => ⟨"", "serviceaccounts"⟩
  | .roleBinding => ⟨"rbac.authorization.k8s.io", "rolebindings"⟩
  | .service => ⟨"", "services"⟩

def secrets : Rbac.GroupResource := ⟨"", "secrets"⟩
def deployments : Rbac.GroupResource := ⟨"apps", "deployments"⟩
def providers : Rbac.GroupResource := ⟨etosGroup, "providers"⟩
def clusters : Rbac.GroupResource := ⟨etosGroup, "clusters"⟩

/-- A write of an object as a whole. -/
def writing (verb : String) (r : Rbac.GroupResource) : List Rbac.Request := [{ r with verb := verb }]

def extrasRequests : Extras.Op Pod → List Rbac.Request
  | .get k _ => Rbac.reads (extrasResource k)
  | .create k _ _ => writing "create" (extrasResource k)
  | .patch k _ _ _ => writing "patch" (extrasResource k)
  | .delete k _ => writing "delete" (extrasResource k)
  | .now => []

def servicesRequests : Services.Op Pod → List Rbac.Request
  | .getSecret _ => Rbac.reads secrets
  | .createSecret _ _ => writing "create" secrets
  | .patchSecret _ _ _ => writing "patch" secrets
  | .getDeployment _ => Rbac.reads deployments
  | .createDeployment _ _ => writing "create" deployments
  | .patchDeployment _ _ _ => writing "patch" deployments
  | .get k _ => Rbac.reads (servicesResource k)
  | .create k _ => writing "create" (servicesResource k)
  | .patch k _ => writing "patch" (servicesResource k)
  | .now => []

/-- The requests behind a call of a pass. -/
def requests {lib : Library Pod} : ClusterOp lib → List Rbac.Request
  | .component (.extras o) => extrasRequests o
  | .component (.services o) => servicesRequests o
  | .component (.deleteDeployment _) => writing "delete" deployments
  | .component (.getProvider _) => Rbac.reads providers
  | .component (.createProvider _ _) => writing "create" providers
  | .component (.patchProvider _ _) => writing "patch" providers
  | .getCluster => Rbac.reads clusters
  | .timeNow => []
  | .updateStatus _ => [{ clusters with verb := "update", subresource := "status" }]

/-! ## Names -/

def extrasWritten : Extras.Op Pod → Option String
  | .create _ name _ | .patch _ name _ _ | .delete _ name => some name
  | .get _ _ | .now => none

def servicesWritten : Services.Op Pod → Option String
  | .createSecret name _ | .patchSecret name _ _ | .createDeployment name _ | .patchDeployment name _ _
  | .create _ name | .patch _ name => some name
  | .getSecret _ | .getDeployment _ | .get _ _ | .now => none

/-- The name of the object that a component writes. -/
def ComponentOp.written : ComponentOp Pod → Option String
  | .extras o => extrasWritten o
  | .services o => servicesWritten o
  | .deleteDeployment name | .createProvider name _ | .patchProvider name _ => some name
  | .getProvider _ => none

/-- A name of the cluster's own. -/
def OwnName (cluster name : String) : Prop := ∃ suffix, name = cluster ++ suffix

theorem OwnName.self (cluster : String) : OwnName cluster cluster := ⟨"", String.append_empty.symm⟩

theorem OwnName.append {cluster name : String} (h : OwnName cluster name) (suffix : String) :
    OwnName cluster (name ++ suffix) := by
  obtain ⟨s, rfl⟩ := h
  exact ⟨s ++ suffix, String.append_assoc ..⟩

theorem ownName (cluster suffix : String) : OwnName cluster (cluster ++ suffix) := ⟨suffix, rfl⟩

/-- The role grants the requests, unless they are those of reading a config map. -/
def MostlyGranted (qs : List Rbac.Request) : Prop :=
  ∀ q ∈ qs, Rbac.grants managerRole q = true ∨ q ∈ Rbac.reads (extrasResource .configMap)

instance (qs : List Rbac.Request) : Decidable (MostlyGranted qs) := inferInstanceAs (Decidable (∀ q ∈ qs, _))

/-- What a component does: it writes what is its own, and asks for what is granted. -/
structure Minds (lib : Library Pod) (cluster : String) (o : ComponentOp Pod) : Prop where
  own : ∀ name ∈ o.written, OwnName cluster name
  granted : MostlyGranted (requests (.component o : ClusterOp lib))

section Components

variable {lib : Library Pod} {cluster name : String} {A : (o : ComponentOp Pod) → ComponentAns Pod o → Prop}
  {D : String → Prop} {α : Type}

/-- A call that writes an object of the cluster. -/
theorem minds_written {o : ComponentOp Pod} (hwritten : o.written = some name) (h : OwnName cluster name)
    (hgranted : MostlyGranted (requests (.component o : ClusterOp lib))) : Minds lib cluster o := by
  refine ⟨?_, hgranted⟩
  rw [hwritten]
  rintro n ⟨⟩
  exact h

/-- A call that writes nothing. -/
theorem minds_unwritten {o : ComponentOp Pod} (hwritten : o.written = none)
    (hgranted : MostlyGranted (requests (.component o : ClusterOp lib))) : Minds lib cluster o := by
  refine ⟨?_, hgranted⟩
  rw [hwritten]
  intro n hn
  cases hn

/-- All but the config maps may be written. -/
theorem writing_granted {k : Extras.Kind} (hk : k ≠ .configMap) {verb : String}
    (hverb : verb ∈ ["create", "patch", "delete"]) : MostlyGranted (writing verb (extrasResource k)) := by
  have hall : ∀ v ∈ ["create", "patch", "delete"], MostlyGranted (writing v (extrasResource k)) := by
    cases k with
    | configMap => exact absurd rfl hk
    | secret | service | statefulSet | ingress => exact of_decide_eq_true rfl
  exact hall verb hverb

theorem minds_get (k : Extras.Kind) (n : String) : Minds lib cluster (.extras (.get k n)) := by
  refine minds_unwritten rfl ?_
  cases k <;> exact of_decide_eq_true rfl

theorem minds_now : Minds lib cluster (.extras .now) := minds_unwritten rfl (of_decide_eq_true rfl)

theorem minds_create {k : Extras.Kind} (hk : k ≠ .configMap) (h : OwnName cluster name) (t : Extras.Obj Pod k) :
    Minds lib cluster (.extras (.create k name t)) := minds_written rfl h (writing_granted hk (by simp))

theorem minds_patch {k : Extras.Kind} (hk : k ≠ .configMap) (h : OwnName cluster name) (t t' : Extras.Obj Pod k) :
    Minds lib cluster (.extras (.patch k name t t')) := minds_written rfl h (writing_granted hk (by simp))

theorem minds_delete {k : Extras.Kind} (hk : k ≠ .configMap) (h : OwnName cluster name) :
    Minds lib cluster (.extras (.delete k name)) := minds_written rfl h (writing_granted hk (by simp))

theorem services_granted (o : Services.Op Pod) :
    MostlyGranted (requests (.component (.services o) : ClusterOp lib)) := by
  cases o with
  | get k n | create k n | patch k n => cases k <;> exact of_decide_eq_true rfl
  | getSecret | createSecret | patchSecret | getDeployment | createDeployment | patchDeployment | now =>
      exact of_decide_eq_true rfl

/-- A call of `Services` that writes an object of the cluster. -/
theorem minds_write {o : Services.Op Pod} (hwritten : servicesWritten o = some name) (h : OwnName cluster name) :
    Minds lib cluster (.services o) := minds_written hwritten h (services_granted o)

theorem minds_read {o : Services.Op Pod} (hwritten : servicesWritten o = none) : Minds lib cluster (.services o) :=
  minds_unwritten hwritten (services_granted o)

/-! ## The message buses -/

/-- A reconciler of `Extras` minds, where the answers are as in `A`. -/
abbrev ExtrasMinds (lib : Library Pod) (cluster : String) (A : (o : ComponentOp Pod) → ComponentAns Pod o → Prop)
    (D : String → Prop) (p : Extras.Reconcile Pod α) : Prop :=
  Stays (fun o => A (.extras o)) (fun o => Minds lib cluster (.extras o)) D p

theorem extrasFail_minds {β : Type} (a : Except Err β) : ExtrasMinds lib cluster A D (Extras.orFail a) := by
  cases a with
  | ok _ => exact stays_pure ()
  | error e => exact stays_throw _

theorem getVar_minds (v : Var) (ns : String) : ExtrasMinds lib cluster A D (getVar v ns) := by
  have hkey : ∀ (a : Except Err (Fields Bytes)) (kind : String) (selector : KeySelector),
      ExtrasMinds lib cluster A D (getFromKeySelector a kind selector ns) := by
    intro a kind selector
    cases a with
    | error e => exact stays_throw _
    | ok data =>
        unfold getFromKeySelector
        dsimp only
        cases hlookup : data.lookup selector.key with
        | none => exact stays_throw _
        | some d => exact stays_pure _
  unfold getVar
  split
  · exact stays_pure _
  split
  · exact stays_call (minds_get .secret _) fun a => hkey _ _ _
  split
  · exact stays_call (minds_get .configMap _) fun a => hkey _ _ _
  · exact stays_throw _

theorem getPassword_minds (r : RabbitMQ) (ns : String) : ExtrasMinds lib cluster A D (getPassword r ns) := by
  unfold getPassword
  split
  · exact stays_pure _
  · exact (getVar_minds _ ns).bind fun _ => stays_pure _

theorem reconcileSecret_minds {data : Extras.Reconcile Pod (Fields Bytes)} (hdata : ExtrasMinds lib cluster A D data)
    (h : OwnName cluster name) : ExtrasMinds lib cluster A D (Extras.reconcileSecret data name) := by
  refine hdata.bind fun target => stays_call (minds_get .secret name) fun a => ?_
  cases a with
  | error e =>
      dsimp only
      split
      · exact stays_throw _
      · refine stays_call (minds_create (by decide) h _) fun a => ?_
        exact (extrasFail_minds a).bind fun _ => stays_pure _
  | ok secret =>
      dsimp only
      split
      · exact stays_pure _
      · refine stays_call (minds_patch (by decide) h _ _) fun a => ?_
        exact (extrasFail_minds a).bind fun _ => stays_pure _

theorem reconcileService_minds (deploy : Bool) (h : OwnName cluster name) :
    ExtrasMinds lib cluster A D (reconcileService deploy name) := by
  refine stays_call (minds_get .service name) fun a => ?_
  cases a with
  | error e =>
      dsimp only
      split
      · exact stays_throw _
      split
      · exact stays_call (minds_create (by decide) h _) fun a => extrasFail_minds a
      · exact stays_pure _
  | ok service =>
      dsimp only
      split
      · exact stays_call (minds_delete (by decide) h) fun a => extrasFail_minds a
      · exact stays_call (minds_patch (by decide) h _ _) fun a => extrasFail_minds a

theorem restarting_minds (p : Platform Pod) (target : StatefulSetSpec Pod) (restartRequired : Bool) :
    ExtrasMinds lib cluster A D (restarting p target restartRequired) := by
  unfold restarting
  split
  · exact stays_call minds_now fun _ => stays_pure _
  · exact stays_pure _

theorem reconcileStatefulset_minds (p : Platform Pod) (deploy : Bool) (target : StatefulSetSpec Pod)
    (restartRequired : Bool) (h : OwnName cluster name) :
    ExtrasMinds lib cluster A D (reconcileStatefulset p deploy name target restartRequired) := by
  refine stays_call (minds_get .statefulSet name) fun a => ?_
  cases a with
  | error e =>
      dsimp only
      split
      · exact stays_throw _
      split
      · refine stays_call (minds_create (by decide) h _) fun a => ?_
        exact (extrasFail_minds a).bind fun _ => stays_throw _
      · exact stays_pure _
  | ok stored =>
      dsimp only
      split
      · exact stays_call (minds_delete (by decide) h) fun a => extrasFail_minds a
      · refine (restarting_minds p target restartRequired).bind fun target' => ?_
        refine stays_call (minds_patch (by decide) h _ _) fun a => ?_
        cases a with
        | error e => exact stays_throw _
        | ok patched => trivial

theorem messageBus_minds (p : Platform Pod) (r : MessageBusDeployment Pod) (c : ClusterName) :
    ExtrasMinds lib c.name A D (r.reconcile p c) := by
  have hname : OwnName c.name (MessageBusDeployment.baseName c) := ownName _ _
  unfold MessageBusDeployment.reconcile
  split
  · exact stays_throw _
  · have hdata : ∀ r : RabbitMQ, ExtrasMinds lib c.name A D (MessageBusDeployment.secretData r c.namespace_) :=
      fun r => (getPassword_minds r _).bind fun _ => stays_pure _
    refine (reconcileSecret_minds (hdata _) hname).bind fun restartRequired => ?_
    refine (reconcileService_minds _ (hname.append _)).bind fun _ => ?_
    refine (reconcileService_minds _ hname).bind fun _ => ?_
    exact reconcileStatefulset_minds p _ _ _ hname

theorem rabbitMQ_minds (p : Platform Pod) (r : RabbitMQDeployment Pod) (c : ClusterName) :
    ExtrasMinds lib c.name A D (r.reconcile p c) := by
  have hname : OwnName c.name (RabbitMQDeployment.baseName c) := ownName _ _
  unfold RabbitMQDeployment.reconcile
  split
  · exact stays_throw _
  · have hdata : ∀ r : RabbitMQ, ExtrasMinds lib c.name A D (RabbitMQDeployment.secretData r c.namespace_) :=
      fun r => (getPassword_minds r _).bind fun _ => stays_pure _
    refine (reconcileSecret_minds (hdata _) hname).bind fun restartRequired => ?_
    refine (reconcileService_minds _ hname).bind fun _ => ?_
    exact reconcileStatefulset_minds p _ _ _ hname

theorem reconcileIngress_minds (r : IngressConfig) (h : OwnName cluster name) :
    ExtrasMinds lib cluster A D (r.reconcileIngress name) := by
  refine stays_call (minds_get .ingress name) fun a => ?_
  cases a with
  | error e =>
      dsimp only
      split
      · exact stays_throw _
      split
      · exact stays_call (minds_create (by decide) h _) fun a => extrasFail_minds a
      · exact stays_pure _
  | ok ingress =>
      dsimp only
      split
      · exact stays_call (minds_delete (by decide) h) fun a => extrasFail_minds a
      split
      · exact stays_pure _
      · exact stays_call (minds_patch (by decide) h _ _) fun a => extrasFail_minds a

/-! ## The services -/

/-- A reconciler of `Services` minds. -/
abbrev ServicesMind (lib : Library Pod) (cluster : String) (A : (o : ComponentOp Pod) → ComponentAns Pod o → Prop)
    (D : String → Prop) (p : Services.Reconcile Pod α) : Prop :=
  Stays (fun o => A (.services o)) (fun o => Minds lib cluster (.services o)) D p

/-- A call that writes nothing. -/
theorem servicesRead_minds {o : Services.Op Pod} {f : Services.Ans Pod o → Services.Reconcile Pod α}
    (h : servicesWritten o = none) (hf : ∀ a, ServicesMind lib cluster A D (f a)) :
    ServicesMind lib cluster A D (Services.ask o >>= f) :=
  stays_call (minds_read h) hf

/-- A call that writes an object of the cluster. -/
theorem servicesWrite_minds {o : Services.Op Pod} {f : Services.Ans Pod o → Services.Reconcile Pod α}
    (h : servicesWritten o = some name) (hname : OwnName cluster name) (hf : ∀ a, ServicesMind lib cluster A D (f a)) :
    ServicesMind lib cluster A D (Services.ask o >>= f) :=
  stays_call (minds_write h hname) hf

theorem servicesFail_minds (a : Except Err Unit) : ServicesMind lib cluster A D (Services.orFail a) := by
  cases a with
  | ok _ => exact stays_pure ()
  | error e => exact stays_throw _

theorem reconcileObject_minds (kind : Services.Kind) (h : OwnName cluster name) :
    ServicesMind lib cluster A D (reconcileObject kind name) := by
  refine servicesRead_minds rfl fun a => ?_
  cases a with
  | error e =>
      dsimp only
      split
      · exact stays_throw _
      · exact servicesWrite_minds rfl h fun a => servicesFail_minds a
  | ok _ => exact servicesWrite_minds rfl h fun a => servicesFail_minds a

theorem reconcileData_minds (same : Fields Bytes → Fields Bytes → Bool) (target : Fields Bytes)
    (h : OwnName cluster name) : ServicesMind lib cluster A D (reconcileData same name target) := by
  refine servicesRead_minds rfl fun a => ?_
  cases a with
  | error e =>
      dsimp only
      split
      · exact stays_throw _
      · exact servicesWrite_minds rfl h fun a => (servicesFail_minds a).bind fun _ => stays_pure _
  | ok data =>
      dsimp only
      split
      · exact stays_pure _
      · exact servicesWrite_minds rfl h fun a => (servicesFail_minds a).bind fun _ => stays_pure _

theorem reconcileDeployment_minds (m : Machinery Pod) (target : DeploymentSpec Pod) (restartRequired : Bool)
    (h : OwnName cluster name) :
    ServicesMind lib cluster A D (Services.reconcileDeployment m name target restartRequired) := by
  refine servicesRead_minds rfl fun a => ?_
  cases a with
  | error e =>
      dsimp only
      split
      · exact stays_throw _
      · exact servicesWrite_minds rfl h fun a => (servicesFail_minds a).bind fun _ => stays_throw _
  | ok deployment =>
      dsimp only
      split
      · refine servicesRead_minds rfl fun now => ?_
        exact servicesWrite_minds rfl h fun a => (servicesFail_minds a).bind fun _ => stays_throw _
      split
      · split
        · exact stays_pure _
        · exact stays_throw _
      · exact servicesWrite_minds rfl h fun a => (servicesFail_minds a).bind fun _ => stays_throw _

theorem sourceData_minds (n : String) : ServicesMind lib cluster A D (Services.sourceData n) := by
  refine servicesRead_minds rfl fun a => ?_
  cases a with
  | error e => exact stays_throw _
  | ok data => exact stays_pure _

theorem sse_minds (m : Machinery Pod) (r : ETOSSSEDeployment Pod) (c : ClusterValues) :
    ServicesMind lib c.name A D (r.reconcile m c) := by
  have hname : OwnName c.name (c.name ++ "-etos-sse") := ownName _ _
  have hconfig : ServicesMind lib c.name A D (r.config m c) := by
    refine (sourceData_minds _).bind fun etos => ?_
    split
    · exact stays_throw _
    · dsimp only
      split
      · exact stays_pure _
      · exact stays_pure _
  refine (hconfig.bind fun target => reconcileData_minds _ target (hname.append _)).bind fun restartRequired => ?_
  refine (reconcileObject_minds _ (hname.append _)).bind fun _ => ?_
  refine (reconcileObject_minds _ hname).bind fun _ => ?_
  refine (reconcileObject_minds _ hname).bind fun _ => ?_
  refine (reconcileObject_minds _ hname).bind fun _ => ?_
  exact reconcileDeployment_minds m _ _ hname

theorem api_minds (m : Machinery Pod) (r : ETOSApiDeployment Pod) (c : ClusterValues) :
    ServicesMind lib c.name A D (r.reconcile m c) := by
  have hname : OwnName c.name (c.name ++ "-etos-api") := ownName _ _
  have hconfig : ServicesMind lib c.name A D r.config := by
    refine (sourceData_minds _).bind fun eiffel => ?_
    refine (sourceData_minds _).bind fun etos => ?_
    exact (sourceData_minds _).bind fun cfg => stays_pure _
  refine (hconfig.bind fun target => reconcileData_minds _ target (hname.append _)).bind fun restartRequired => ?_
  refine ((reconcileData_minds _ _ (hname.append _)).bind fun _ => stays_pure ()).bind fun _ => ?_
  refine (reconcileObject_minds _ (hname.append _)).bind fun _ => ?_
  refine (reconcileObject_minds _ hname).bind fun _ => ?_
  refine (reconcileObject_minds _ hname).bind fun _ => ?_
  refine (reconcileObject_minds _ hname).bind fun _ => ?_
  exact reconcileDeployment_minds m _ _ hname

theorem logArea_minds (m : Machinery Pod) (r : ETOSLogAreaDeployment Pod) (c : ClusterValues) :
    ServicesMind lib c.name A D (r.reconcile m c) := by
  have hname : OwnName c.name (c.name ++ "-etos-logarea") := ownName _ _
  refine (reconcileObject_minds _ hname).bind fun _ => ?_
  refine (reconcileObject_minds _ hname).bind fun _ => ?_
  exact reconcileDeployment_minds m _ _ hname

theorem suiteStarter_minds (m : Machinery Pod) (r : ETOSSuiteStarterDeployment Pod) (c : ClusterValues) :
    ServicesMind lib c.name A D (r.reconcile m c) := by
  have hstarter : OwnName c.name (c.name ++ "-etos-suite-starter") := ownName _ _
  have hrunner : OwnName c.name (c.name ++ "-etos-suite-runner") := ownName _ _
  have hmerged : ServicesMind lib c.name A D (r.mergedSecret c) := by
    refine (sourceData_minds _).bind fun eiffel => ?_
    refine (sourceData_minds _).bind fun etos => ?_
    dsimp only
    split
    · exact stays_pure _
    · exact stays_pure _
  have hconfig : ∀ secretName, ServicesMind lib c.name A D (r.config secretName c) := by
    intro secretName
    refine (sourceData_minds _).bind fun eiffel => ?_
    exact (sourceData_minds _).bind fun etos => stays_pure _
  refine (reconcileObject_minds _ hrunner).bind fun _ => ?_
  refine (hmerged.bind fun target => (reconcileData_minds _ target (ownName _ _)).bind fun _ => stays_pure _).bind
    fun secretName => ?_
  refine ((hconfig secretName).bind fun target => reconcileData_minds _ target (hstarter.append _)).bind
    fun configWritten => ?_
  refine (reconcileData_minds _ _ (hrunner.append _)).bind fun templateWritten => ?_
  refine ((reconcileData_minds _ _ (hstarter.append _)).bind fun _ => stays_pure ()).bind fun _ => ?_
  refine (reconcileObject_minds _ (hstarter.append _)).bind fun _ => ?_
  refine (reconcileObject_minds _ hstarter).bind fun _ => ?_
  refine (reconcileObject_minds _ hstarter).bind fun _ => ?_
  refine (reconcileObject_minds _ (hrunner.append _)).bind fun _ => ?_
  refine (reconcileObject_minds _ hrunner).bind fun _ => ?_
  refine (reconcileObject_minds _ hrunner).bind fun _ => ?_
  exact reconcileDeployment_minds m _ _ hstarter

/-! ## The databases and the event repository -/

/-- A component minds. -/
abbrev ComponentMinds (lib : Library Pod) (cluster : String) (A : (o : ComponentOp Pod) → ComponentAns Pod o → Prop)
    (D : String → Prop) (p : Component Pod α) : Prop :=
  Stays A (Minds lib cluster) D p

theorem extras_minds {p : Extras.Reconcile Pod α} (h : ExtrasMinds lib cluster A D p) :
    ComponentMinds lib cluster A D (extras p) := Stays.embedded h fun _ _ ha => ha

theorem services_minds {p : Services.Reconcile Pod α} (h : ServicesMind lib cluster A D p) :
    ComponentMinds lib cluster A D (services p) := Stays.embedded h fun _ _ ha => ha

theorem componentFail_minds {β : Type} (a : Except Err β) : ComponentMinds lib cluster A D (orFail a) := by
  cases a with
  | ok _ => exact stays_pure ()
  | error e => exact stays_throw _

/-- The address of a MongoDB: its URI, with the host of its service if there is one. -/
def hosted (r : MongoDBDeployment lib) (cluster : String) (url : lib.URL) : lib.URL :=
  if r.deploy then lib.withHost url (MongoDBDeployment.baseName cluster ++ ":" ++ toString mongodbPort) else url

/-- What a variable stands for, where the answers are as in `A`: the value that is spelled out, or else what is under
    the key of the secret or of the config map that it refers to. -/
inductive Holds (A : (o : ComponentOp Pod) → ComponentAns Pod o → Prop) (v : Var) : Bytes → Prop where
  | value : v.value ≠ "" → Holds A v (bytes v.value)
  | secret (selector : KeySelector) (data : Fields Bytes) (d : Bytes) : v.value = "" →
      v.secretKeyRef = some selector → A (.extras (.get .secret selector.name)) (.ok (data, ())) →
      data.lookup selector.key = some d → Holds A v d
  | configMap (selector : KeySelector) (data : Fields Bytes) (d : Bytes) : v.value = "" → v.secretKeyRef = none →
      v.configMapKeyRef = some selector → A (.extras (.get .configMap selector.name)) (.ok (data, ())) →
      data.lookup selector.key = some d → Holds A v d

/-- What a MongoDB dies of: that there is no URI, that the address made of it has no path, or that its secret has been
    removed because it is not to be deployed. -/
inductive MongoDies (A : (o : ComponentOp Pod) → ComponentAns Pod o → Prop) (r : MongoDBDeployment lib)
    (cluster : String) : String → Prop where
  | uri : r.uri = none → MongoDies A r cluster "URI"
  | path (uri : Var) (text : Bytes) (url : lib.URL) : r.uri = some uri → Holds A uri text →
      lib.parseURL text = .ok url → lib.path (hosted r cluster url) = [] → MongoDies A r cluster "URL.Path[1:]"
  | secret : r.deploy = false → A (.extras (.delete .secret (MongoDBDeployment.baseName cluster))) (.ok ()) →
      MongoDies A r cluster "secret"

/-- What is done with the value of a variable. -/
theorem getVar_then {v : Var} {ns : String} {f : Bytes → Component Pod α}
    (hf : ∀ text, Holds A v text → ComponentMinds lib cluster A D (f text)) :
    ComponentMinds lib cluster A D (extras (getVar v ns) >>= f) := by
  -- What is found under the key goes on, anything else is an error.
  have hkey : ∀ (a : Except Err (Fields Bytes × Unit)) (kind : String) (selector : KeySelector),
      (∀ data d, a = .ok (data, ()) → data.lookup selector.key = some d → Holds A v d) →
        ComponentMinds lib cluster A D (extras (getFromKeySelector (a.map Prod.fst) kind selector ns) >>= f) := by
    intro a kind selector hholds
    cases a with
    | error e => exact stays_throw _
    | ok answer =>
        obtain ⟨data, _⟩ := answer
        show ComponentMinds lib cluster A D (extras (getFromKeySelector (.ok data) kind selector ns) >>= f)
        unfold getFromKeySelector
        dsimp only
        cases hlookup : data.lookup selector.key with
        | none => exact stays_throw _
        | some d => exact hf d (hholds data d rfl hlookup)
  unfold getVar
  split
  · exact hf _ (.value ‹_›)
  rename_i hvalue
  have hempty : v.value = "" := not_not.mp hvalue
  split
  · rename_i selector href
    refine stays_answer (minds_get .secret _) fun a ha => hkey a _ selector fun data d heq hlookup => ?_
    exact .secret selector data d hempty href (heq ▸ ha) hlookup
  rename_i hsecret
  split
  · rename_i selector href
    refine stays_answer (minds_get .configMap _) fun a ha => hkey a _ selector fun data d heq hlookup => ?_
    exact .configMap selector data d hempty hsecret href (heq ▸ ha) hlookup
  · exact stays_throw _

section MongoDB

variable {r : MongoDBDeployment lib} {c : ClusterName}

/-- What is done with the address. -/
theorem url_minds {f : lib.URL → Component Pod α} (hdies : ∀ m, MongoDies A r c.name m → D m)
    (hf : ∀ uri text url, r.uri = some uri → Holds A uri text → lib.parseURL text = .ok url →
      ComponentMinds lib c.name A D (f (hosted r c.name url))) :
    ComponentMinds lib c.name A D (r.url c >>= f) := by
  unfold MongoDBDeployment.url
  cases huri : r.uri with
  | none => exact hdies _ (.uri huri)
  | some uri =>
      show ComponentMinds lib c.name A D ((extras (getVar uri c.namespace_) >>= _) >>= f)
      rw [except_bind_assoc]
      refine getVar_then fun text htext => ?_
      cases hparse : lib.parseURL text with
      | error e => exact stays_throw _
      | ok url =>
          have hnext := hf uri text url huri htext hparse
          unfold hosted at hnext
          dsimp only
          split
          · rwa [if_pos ‹_›] at hnext
          · rwa [if_neg ‹_›] at hnext

/-- The secret is gone only where the MongoDB is not to be deployed, and the secret has been deleted. -/
theorem mongoSecret_minds {f : Option String × Bool → Component Pod α} (url : lib.URL)
    (hpath : lib.path (hosted r c.name url) = [] → D "URL.Path[1:]") (h : OwnName c.name name)
    (hkept : ∀ restart, ComponentMinds lib c.name A D (f (some name, restart)))
    (hgone : r.deploy = false → A (.extras (.delete .secret name)) (.ok ()) →
      ComponentMinds lib c.name A D (f (none, false))) :
    ComponentMinds lib c.name A D (r.reconcileSecret name (hosted r c.name url) >>= f) := by
  unfold MongoDBDeployment.reconcileSecret
  rw [except_bind_assoc]
  unfold MongoDBDeployment.secretData
  cases hurl : lib.path (hosted r c.name url) with
  | nil => exact hpath hurl
  | cons slash database =>
      dsimp only
      show ComponentMinds lib c.name A D ((ask _ >>= _) >>= f)
      rw [except_bind_assoc]
      refine stays_call (minds_get .secret name) fun a => ?_
      cases a with
      | error e =>
          dsimp only
          split
          · exact stays_throw _
          split
          · rw [except_bind_assoc]
            refine stays_call (minds_create (by decide) h _) fun a => ?_
            rw [except_bind_assoc]
            refine (componentFail_minds a).bind fun _ => ?_
            exact hkept _
          · exact hkept _
      | ok secret =>
          dsimp only
          split
          · rw [except_bind_assoc]
            refine stays_answer (minds_delete (by decide) h) fun a ha => ?_
            cases a with
            | error e => exact stays_throw _
            | ok _ => exact hgone (by simpa using ‹(!r.deploy) = true›) ha
          split
          · exact hkept _
          · rw [except_bind_assoc]
            refine stays_call (minds_patch (by decide) h _ _) fun a => ?_
            rw [except_bind_assoc]
            refine (componentFail_minds a).bind fun _ => ?_
            exact hkept _

theorem mongodb_minds (hdies : ∀ m, MongoDies A r c.name m → D m) :
    ComponentMinds lib c.name A D (r.reconcile c) := by
  have hname : OwnName c.name (MongoDBDeployment.baseName c.name) := ownName _ _
  refine url_minds hdies fun uri text url huri htext hparse => ?_
  have hrest : ∀ restart, ComponentMinds lib c.name A D (do
      extras (reconcileService r.deploy (MongoDBDeployment.baseName c.name))
      extras (reconcileStatefulset lib.platform r.deploy (MongoDBDeployment.baseName c.name)
        (statefulset (r.pod (hosted r c.name url) (MongoDBDeployment.baseName c.name) c.name)) restart)) := by
    intro restart
    refine (extras_minds (reconcileService_minds _ hname)).bind fun _ => ?_
    exact extras_minds (reconcileStatefulset_minds _ _ _ _ hname)
  refine mongoSecret_minds url ?_ hname ?_ ?_
  · intro hpath
    exact hdies _ (.path uri text url huri htext hparse hpath)
  · intro restart
    exact hrest restart
  · intro hdeploy hdeleted
    exact hdies _ (.secret hdeploy hdeleted)

end MongoDB

theorem sourceSecret_minds (n : String) : ComponentMinds lib cluster A D (EventRepositoryDeployment.sourceData n) := by
  refine stays_call (minds_get .secret n) fun a => ?_
  cases a with
  | error e => exact stays_throw _
  | ok data => exact stays_pure _

section EventRepository

variable (r : EventRepositoryDeployment Pod)

theorem repositoryConfig_minds (h : OwnName cluster name) :
    ComponentMinds lib cluster A D (r.reconcileConfig lib name) := by
  have htarget : ComponentMinds lib cluster A D (r.target lib) := by
    unfold EventRepositoryDeployment.target
    split
    · refine (sourceSecret_minds _).bind fun eiffel => (sourceSecret_minds _).bind fun etos => ?_
      dsimp only
      split
      · exact stays_pure _
      · exact stays_pure _
    · exact stays_pure _
  refine htarget.bind fun target => stays_call (minds_get .secret name) fun a => ?_
  cases a with
  | error e =>
      dsimp only
      split
      · exact stays_throw _
      split
      · refine stays_call (minds_create (by decide) h _) fun a => ?_
        exact (componentFail_minds a).bind fun _ => stays_pure _
      · exact stays_pure _
  | ok secret =>
      dsimp only
      split
      · refine stays_call (minds_delete (by decide) h) fun a => ?_
        exact (componentFail_minds a).bind fun _ => stays_pure _
      split
      · exact stays_pure _
      · refine stays_call (minds_patch (by decide) h _ _) fun a => ?_
        exact (componentFail_minds a).bind fun _ => stays_pure _

theorem repositoryIngress_minds (h : OwnName cluster name) :
    ComponentMinds lib cluster A D (r.reconcileIngress name) := by
  refine stays_call (minds_get .ingress name) fun a => ?_
  cases a with
  | error e =>
      dsimp only
      split
      · exact stays_throw _
      split
      · exact stays_call (minds_create (by decide) h _) fun a => componentFail_minds a
      · exact stays_pure _
  | ok ingress =>
      dsimp only
      split
      · exact stays_call (minds_delete (by decide) h) fun a => componentFail_minds a
      split
      · exact stays_pure _
      · exact stays_call (minds_patch (by decide) h _ _) fun a => componentFail_minds a

theorem repositoryDeployment_minds (target : DeploymentSpec Pod) (restartRequired : Bool) (h : OwnName cluster name) :
    ComponentMinds lib cluster A D (r.reconcileDeployment lib name target restartRequired) := by
  refine stays_call (minds_read rfl) fun a => ?_
  cases a with
  | error e =>
      dsimp only
      split
      · exact stays_throw _
      split
      · refine stays_call (minds_write rfl h) fun a => ?_
        exact (componentFail_minds a).bind fun _ => stays_throw _
      · exact stays_pure _
  | ok deployment =>
      dsimp only
      split
      · exact stays_call (minds_written rfl h (of_decide_eq_true rfl)) fun a => componentFail_minds a
      split
      · refine stays_call (minds_read rfl) fun now => stays_call (minds_write rfl h) fun a => ?_
        exact (componentFail_minds a).bind fun _ => stays_throw _
      split
      · split
        · exact stays_pure _
        · exact stays_throw _
      · refine stays_call (minds_write rfl h) fun a => ?_
        exact (componentFail_minds a).bind fun _ => stays_throw _

theorem eventRepository_minds (c : ClusterName) : ComponentMinds lib c.name A D (r.reconcile lib c) := by
  have hname : OwnName c.name (EventRepositoryDeployment.baseName c.name) := ownName _ _
  refine (repositoryConfig_minds r hname).bind fun restartRequired => ?_
  refine (extras_minds (reconcileService_minds _ hname)).bind fun _ => ?_
  refine (repositoryIngress_minds r hname).bind fun _ => ?_
  exact repositoryDeployment_minds r _ _ hname

end EventRepository

/-- What an ETCD is given are quantities. -/
def Measured (lib : Library Pod) (r : ETCDDeployment Pod) : Prop :=
  ∀ text ∈ [r.limits.memory, r.limits.cpu, r.requests.memory, r.requests.cpu], lib.quantity text = true

theorem etcd_minds (r : ETCDDeployment Pod) (c : ClusterName) (hdies : ¬ Measured lib r → D "resource.MustParse") :
    ComponentMinds lib c.name A D (r.reconcile lib c) := by
  have hname : OwnName c.name (ETCDDeployment.baseName c.name) := ownName _ _
  have hresources : ComponentMinds lib c.name A D (r.resources lib) := by
    unfold ETCDDeployment.resources
    split
    · exact stays_pure _
    · next h => exact hdies fun hmeasured => h (List.all_eq_true.mpr hmeasured)
  refine (extras_minds (reconcileService_minds _ hname)).bind fun _ => ?_
  refine (extras_minds (reconcileService_minds _ (hname.append _))).bind fun _ => ?_
  refine hresources.bind fun _ => ?_
  exact extras_minds (reconcileStatefulset_minds _ _ _ _ hname)

/-! ## ETOS -/

section ETOS

variable (r : ETOSDeployment Pod)

theorem secretData_minds (target : Fields Bytes) (h : OwnName cluster name) :
    ComponentMinds lib cluster A D (ETOSDeployment.reconcileSecretData name target) := by
  refine stays_call (minds_get .secret name) fun a => ?_
  cases a with
  | error e =>
      dsimp only
      split
      · exact stays_throw _
      · refine stays_call (minds_create (by decide) h _) fun a => ?_
        exact (componentFail_minds a).bind fun _ => stays_pure _
  | ok secret =>
      refine stays_call (minds_patch (by decide) h _ _) fun a => ?_
      cases a with
      | error e => exact stays_throw _
      | ok patched => exact stays_pure _

theorem encryptionKey_minds (ns : String) (h : OwnName cluster name) :
    ComponentMinds lib cluster A D (r.reconcileSecret name ns) := by
  refine (extras_minds (getVar_minds _ ns)).bind fun value => ?_
  refine stays_call (minds_get .secret name) fun a => ?_
  cases a with
  | error e =>
      dsimp only
      split
      · exact stays_throw _
      · refine stays_call (minds_create (by decide) h _) fun a => ?_
        exact (componentFail_minds a).bind fun _ => stays_pure _
  | ok secret =>
      dsimp only
      split
      · exact stays_pure _
      · refine stays_call (minds_patch (by decide) h _ _) fun a => ?_
        cases a with
        | error e => exact stays_throw _
        | ok patched => exact stays_pure _

theorem providerConfig_minds (encryptionKeyName configmapName : String) (h : OwnName cluster name) :
    ComponentMinds lib cluster A D (r.reconcileEnvironmentProviderConfig name encryptionKeyName configmapName) := by
  have htarget : ComponentMinds lib cluster A D (r.environmentProviderConfig encryptionKeyName configmapName) := by
    refine (sourceSecret_minds _).bind fun eiffel => (sourceSecret_minds _).bind fun etos => ?_
    exact (sourceSecret_minds _).bind fun encryption => (sourceSecret_minds _).bind fun cfg => stays_pure _
  exact htarget.bind fun target => (secretData_minds target h).bind fun _ => stays_pure _

theorem reconcileProvider_minds (target : ProviderSpec) (h : OwnName cluster name) :
    ComponentMinds lib cluster A D (ETOSDeployment.reconcileProvider name target) := by
  have hget : Minds lib cluster (.getProvider name) := minds_unwritten rfl (of_decide_eq_true rfl)
  have hcreate : Minds lib cluster (.createProvider name target) := minds_written rfl h (of_decide_eq_true rfl)
  have hpatch : Minds lib cluster (.patchProvider name target) := minds_written rfl h (of_decide_eq_true rfl)
  refine stays_call hget fun a => ?_
  cases a with
  | error e =>
      dsimp only
      split
      · exact stays_throw _
      · exact stays_call hcreate fun a => componentFail_minds a
  | ok _ => exact stays_call hpatch fun a => componentFail_minds a

theorem noting_minds {p : Component Pod Unit} (h : ComponentMinds lib cluster A D p) (notReadyErr : Option String) :
    ComponentMinds lib cluster A D (ETOSDeployment.noting p notReadyErr) := by
  refine Prog.Confined.bind h fun a => ?_
  cases a with
  | ok _ => trivial
  | error failure => cases failure <;> trivial

theorem etos_minds (m : Machinery Pod) (c : ClusterValues) : ComponentMinds lib c.name A D (r.reconcile m c) := by
  have hshared : ComponentMinds lib c.name A D (r.reconcileShared c) := by
    refine (extras_minds (reconcileIngress_minds _ (OwnName.self _))).bind fun _ => ?_
    refine (services_minds (reconcileObject_minds _ (ownName _ _))).bind fun _ => ?_
    refine (services_minds (reconcileObject_minds _ (ownName _ _))).bind fun _ => ?_
    refine (services_minds (reconcileObject_minds _ (ownName _ _))).bind fun _ => ?_
    refine (secretData_minds _ (ownName _ _)).bind fun cfg => ?_
    refine (encryptionKey_minds r _ (ownName _ _)).bind fun encryption => ?_
    refine (providerConfig_minds r _ _ (ownName _ _)).bind fun _ => ?_
    refine (reconcileProvider_minds _ (ownName _ _)).bind fun _ => ?_
    refine (reconcileProvider_minds _ (ownName _ _)).bind fun _ => ?_
    exact (reconcileProvider_minds _ (ownName _ _)).bind fun _ => stays_pure _
  refine hshared.bind fun shared => ?_
  refine (noting_minds (services_minds (api_minds m _ c)) _).bind fun _ => ?_
  refine (noting_minds (services_minds (sse_minds m _ c)) _).bind fun _ => ?_
  refine (noting_minds (services_minds (logArea_minds m _ c)) _).bind fun _ => ?_
  exact noting_minds (services_minds (suiteStarter_minds m _ c)) _

end ETOS

end Components

/-! ## The pass -/

/-- The name of the object that a pass writes, besides the status of the cluster itself. -/
def ClusterOp.written {lib : Library Pod} : ClusterOp lib → Option String
  | .component o => o.written
  | .getCluster | .timeNow | .updateStatus _ => none

/-- What a pass does: it writes what is the cluster's own, and asks for what is granted. -/
structure Treads {lib : Library Pod} (cluster : String) (o : ClusterOp lib) : Prop where
  own : ∀ name ∈ o.written, OwnName cluster name
  granted : MostlyGranted (requests o)

/-- What the components have been told in a pass. -/
def Told {lib : Library Pod} (log : PassLog lib) (o : ComponentOp Pod) (a : ComponentAns Pod o) : Prop :=
  ⟨.component o, a⟩ ∈ log

/-- What a pass over the cluster dies of, when the log is what it has been told. -/
inductive Dies {lib : Library Pod} (cluster : Cluster lib) (log : PassLog lib) : String → Prop where
  | repository : cluster.eventRepository = none → Dies cluster log "EventRepository"
  | mongodb (repository : EventRepository lib) (message : String) : cluster.eventRepository = some repository →
      MongoDies (Told log) (ClusterReconciler.mongodb repository) cluster.values.name message →
      Dies cluster log message
  | database : cluster.database = none → Dies cluster log "Database"
  | etcd (database : ETCDDeployment Pod) : cluster.database = some database → ¬ Measured lib database →
      Dies cluster log "resource.MustParse"

namespace ClusterReconciler

variable {lib : Library Pod} (cluster : Cluster lib) (log : PassLog lib)

/-- A pass treads, where it is told what is in the log. -/
abbrev PassTreads {α : Type} (p : Pass lib α) : Prop :=
  p.Confined (fun o a => ⟨o, a⟩ ∈ log) (Treads cluster.values.name) (Dies cluster log)

theorem timeNow_treads (name : String) : Treads name (.timeNow : ClusterOp lib) :=
  ⟨(fun m hm => by cases hm), of_decide_eq_true rfl⟩

theorem updateStatus_treads (name : String) (conditions : List Condition) :
    Treads name (.updateStatus conditions : ClusterOp lib) :=
  ⟨(fun m hm => by cases hm), of_decide_eq_true rfl⟩

theorem update_treads (status : ConditionStatus) (reason : Reason) (message : String) :
    PassTreads cluster log (update cluster status reason message) := by
  refine Prog.confined_call (timeNow_treads _) fun now => ?_
  dsimp only
  split
  · refine Prog.confined_call (updateStatus_treads _ _) fun a => ?_
    cases a with
    | ok _ => trivial
    | error e =>
        dsimp only
        split
        · trivial
        · trivial
  · trivial

theorem handleReconcileError_treads (trouble : Trouble) :
    PassTreads cluster log (handleReconcileError cluster trouble) := by
  refine (update_treads cluster log _ _ _).bind fun out => ?_
  obtain ⟨result, e⟩ := out
  cases e with
  | some e => trivial
  | none =>
      cases trouble with
      | err e => trivial
      | notReady text =>
          dsimp only
          split
          · trivial
          · trivial

theorem component_treads {p : Component Pod (Option String)}
    (h : ComponentMinds lib cluster.values.name (Told log) (Dies cluster log) p) (notReadyErr : Option String) :
    PassTreads cluster log (component cluster p notReadyErr).run := by
  have hembed : PassTreads cluster log (p.run.embed (clusterEmbedding lib)) :=
    Prog.Confined.embed (h.mono fun o ho => ⟨ho.own, ho.granted⟩) fun _ _ ha => ha
  refine Stays.bind (stays_lift hembed) fun r => ?_
  cases r with
  | ok text => cases text <;> exact stays_pure _
  | error failure =>
      cases failure with
      | notReady name message => exact stays_pure _
      | err e =>
          dsimp only
          split
          · exact stays_throw _
          · exact (stays_lift (handleReconcileError_treads cluster log _)).bind fun _ => stays_throw _

theorem single_minds {p : Component Pod Unit} {name : String} {A : (o : ComponentOp Pod) → ComponentAns Pod o → Prop}
    {D : String → Prop} (h : ComponentMinds lib name A D p) : ComponentMinds lib name A D (single p) :=
  h.bind fun _ => stays_pure _

theorem components_treads : PassTreads cluster log (components cluster).run := by
  let A : (o : ClusterOp lib) → ClusterAns lib o → Prop := fun o a => ⟨o, a⟩ ∈ log
  let P : ClusterOp lib → Prop := Treads cluster.values.name
  have hstep : ∀ {p : Component Pod (Option String)} {n : Option String},
      ComponentMinds lib cluster.values.name (Told log) (Dies cluster log) p →
        Stays A P (Dies cluster log) (component cluster p n) :=
    fun h => component_treads cluster log h _
  refine Stays.bind (hstep (single_minds (extras_minds (rabbitMQ_minds _ _ cluster.clusterName)))) fun _ => ?_
  refine Stays.bind (hstep (single_minds (extras_minds (messageBus_minds _ _ cluster.clusterName)))) fun _ => ?_
  -- Each pointer of the specification is followed before the component behind it is reconciled.
  cases hrepository : cluster.eventRepository with
  | none => exact .repository hrepository
  | some repository =>
      show Stays A P (Dies cluster log) (component cluster (single ((mongodb repository).reconcile _)) _ >>= _)
      have hmongodb : ComponentMinds lib cluster.values.name (Told log) (Dies cluster log)
          ((mongodb repository).reconcile cluster.clusterName) :=
        mongodb_minds (c := cluster.clusterName) fun m hm => .mongodb repository m hrepository hm
      refine Stays.bind (hstep (single_minds hmongodb)) fun _ => ?_
      refine Stays.bind (hstep (single_minds (eventRepository_minds _ cluster.clusterName))) fun _ => ?_
      cases hdatabase : cluster.database with
      | none => exact .database hdatabase
      | some database =>
          show Stays A P (Dies cluster log) (component cluster (single (database.reconcile lib _)) _ >>= _)
          have hetcd : ComponentMinds lib cluster.values.name (Told log) (Dies cluster log)
              (database.reconcile lib cluster.clusterName) :=
            etcd_minds database cluster.clusterName fun h => .etcd database hdatabase h
          refine Stays.bind (hstep (single_minds hetcd)) fun _ => ?_
          exact hstep (etos_minds _ lib.machinery cluster.values)

/-- What is left of a pass that has read the cluster. -/
def afterGet (lib : Library Pod) : Except Err (Cluster lib) → Pass lib Outcome
  | .error e => if e.isNotFound then return ({}, none) else return ({}, some e)
  | .ok cluster => do
      match ← (components cluster).run with
      | .error outcome => return outcome
      | .ok (some text) => handleReconcileError cluster (.notReady text)
      | .ok none => update cluster .true .completed "Cluster is up and running"

theorem afterGet_treads : PassTreads cluster log (afterGet lib (.ok cluster)) := by
  refine (components_treads cluster log).bind fun r => ?_
  cases r with
  | error outcome => trivial
  | ok text =>
      cases text with
      | none => exact update_treads cluster log _ _ _
      | some text => exact handleReconcileError_treads cluster log _

/-- Without a cluster, a pass is over. -/
theorem afterGet_error (e : Err) :
    (afterGet lib (.error e)).Confined (fun _ _ => True) (fun _ => False) (fun _ => False) := by
  unfold afterGet
  dsimp only
  split
  · trivial
  · trivial

/-- A pass is at its first call, or is over, or has read the cluster. -/
theorem Reconcile_after {log : PassLog lib} {q : Pass lib Outcome} (h : (Reconcile lib).After log q) :
    q = Reconcile lib ∨ q.Confined (fun _ _ => True) (fun _ => False) (fun _ => False) ∨
      ∃ cluster, ⟨.getCluster, .ok cluster⟩ ∈ log ∧ PassTreads cluster log q := by
  cases log with
  | nil => exact .inl (Prog.after_nil.mp h).symm
  | cons e log =>
      obtain ⟨a, rfl, hrest⟩ := h
      have hafter : (afterGet lib a).After log q := hrest
      cases a with
      | ok cluster =>
          refine .inr (.inr ⟨cluster, List.mem_cons_self, (afterGet_treads cluster _).after hafter ?_⟩)
          exact fun o a he => List.mem_cons_of_mem _ he
      | error e => exact .inr (.inl ((afterGet_error e).after hafter fun _ _ _ => trivial))

end ClusterReconciler

/-- **Whatever the API server answers, a pass writes only objects that carry the name of its cluster, besides the
status of the cluster itself, and asks for nothing that the role of the operator does not grant, but for the config
maps that a variable may refer to.** -/
theorem pass_footprint (lib : Library Pod) (log : PassLog lib) (o : ClusterOp lib)
    (k : ClusterAns lib o → Pass lib Outcome) (h : (ClusterReconciler.Reconcile lib).After log (.call o k)) :
    MostlyGranted (requests o) ∧
      ∀ name ∈ o.written, ∃ cluster, ⟨.getCluster, .ok cluster⟩ ∈ log ∧ OwnName cluster.values.name name := by
  rcases ClusterReconciler.Reconcile_after h with hstart | hover | ⟨cluster, hread, hbound⟩
  · have ho : o = .getCluster := by
      injection hstart
    subst ho
    refine ⟨of_decide_eq_true rfl, ?_⟩
    rintro name ⟨⟩
  · exact hover.1.elim
  · refine ⟨hbound.1.granted, fun name hname => ?_⟩
    exact ⟨cluster, hread, hbound.1.own name hname⟩

/-- The first thing that is written for a cluster is the secret of its message bus. -/
theorem pass_footprint_secret : ∃ log o k,
    (ClusterReconciler.Reconcile plainLibrary).After log (.call o k) ∧ o.written = some "etos-rabbitmq" ∧
      MostlyGranted (requests o) ∧
        ∀ name ∈ o.written, ∃ cluster, ⟨.getCluster, .ok cluster⟩ ∈ log ∧ OwnName cluster.values.name name := by
  have hafter : (ClusterReconciler.Reconcile plainLibrary).After
      [⟨.getCluster, .ok plainCluster⟩, ⟨.component (.extras (.get .secret "etos-rabbitmq")), .ok ([], ())⟩]
      (.call (.component (.extras (.patch .secret "etos-rabbitmq" _ []))) _) := ⟨_, rfl, _, rfl, rfl⟩
  exact ⟨_, _, _, hafter, rfl, pass_footprint plainLibrary _ _ _ hafter⟩

/-- **Whatever the API server answers, a pass dies only of the cluster it has read: there is no event repository or
database to follow, the quantities of the ETCD are none, the MongoDB has no URI, the URI as it was read in this pass
gives an address without a path, or the MongoDB is not to be deployed and this pass has removed its secret.** -/
theorem pass_panics (lib : Library Pod) (log : PassLog lib) (message : String)
    (h : (ClusterReconciler.Reconcile lib).After log (.panic message)) :
    ∃ cluster, ⟨.getCluster, .ok cluster⟩ ∈ log ∧ Dies cluster log message := by
  rcases ClusterReconciler.Reconcile_after h with hstart | hover | ⟨cluster, hread, hbound⟩
  · cases hstart
  · exact hover.elim
  · exact ⟨cluster, hread, hbound⟩

/-- A cluster whose MongoDB was deployed before, and is not to be deployed any more. -/
def leftAnswer : (o : ClusterOp plainLibrary) → ClusterAns plainLibrary o
  | .component (.extras (.get .secret _)) => .ok ([], ())
  | o => upAnswer o

set_option maxRecDepth 4000 in
/-- The pass over it removes the secret and dies. -/
theorem leftAnswer_fate :
    ((ClusterReconciler.Reconcile plainLibrary).fate leftAnswer).2 = .panic "secret" := by
  rfl

theorem pass_panics_secret : ∃ log, (ClusterReconciler.Reconcile plainLibrary).After log (.panic "secret") ∧
    ∃ cluster, ⟨.getCluster, .ok cluster⟩ ∈ log ∧ Dies cluster log "secret" := by
  have hafter := Prog.after_fate leftAnswer (ClusterReconciler.Reconcile plainLibrary)
  rw [leftAnswer_fate] at hafter
  exact ⟨_, hafter, pass_panics plainLibrary _ _ hafter⟩

end Etos.Clusters
