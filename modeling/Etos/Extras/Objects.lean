import Etos.Kube.Desired
import Etos.Services.Objects

/-!
# `Extras.Objects` — what the message buses and the ingress of a cluster are made of

Secrets, StatefulSets, services and the ingress, with `DeepDerivative` and the patch of `StrategicMergeFrom` on them.
The pods of a StatefulSet are a parameter, as for the services (`Services.Objects`), and so is what the API server and
the library make of them (`Platform`). Of a service only the presence matters.
-/

namespace Etos.Extras

open Kube Services

/-! ## `DeepDerivative`

Unset parts of the first argument are ignored: an empty text, a nil pointer, and whatever stands beyond the end of a
slice. -/

section Derivative

variable {α : Type}

def textDerivative (a b : String) : Bool := a = "" || a = b

def pointerDerivative (f : α → α → Bool) : Option α → Option α → Bool
  | none, _ => true
  | some _, none => false
  | some a, some b => f a b

def sliceDerivative (f : α → α → Bool) : List α → List α → Bool
  | [], _ => true
  | _ :: _, [] => false
  | a :: as, b :: bs => f a b && sliceDerivative f as bs

end Derivative

/-- A patch of a value as a whole: the target's, unless the original has it already. -/
def keep {α : Type} [DecidableEq α] (original target stored : α) : α := if original = target then stored else target

@[simp] theorem keep_self {α : Type} [DecidableEq α] (original target : α) :
    keep original target original = target := by
  unfold keep
  split <;> simp [*]

/-! ## StatefulSets -/

/-- Of a `StatefulSetSpec`, the number of replicas and the template of the pods. -/
structure StatefulSetSpec (Pod : Type) where
  replicas : Option Int := none
  template : PodTemplate Pod

/-- What the API server and other libraries do. -/
structure Platform (Pod : Type) where
  /-- `StrategicMergeFrom` on what is not annotations in a template. -/
  mergePod : (original target stored : Pod) → Pod
  /-- The defaults of the API server. -/
  defaultPod : Pod → Pod
  /-- `time.Time.Format(time.RFC3339)`, of a time in seconds. -/
  rfc3339 : Int → String

namespace StatefulSetSpec

variable {Pod : Type} (p : Platform Pod)

/-- The defaults of the API server. -/
def defaulted (spec : StatefulSetSpec Pod) : StatefulSetSpec Pod where
  replicas := some (spec.replicas.getD 1)
  template := { spec.template with pod := p.defaultPod spec.template.pod }

/-- `StrategicMergeFrom(original)` of `target`, applied to what is stored. -/
def merge (original target stored : StatefulSetSpec Pod) : StatefulSetSpec Pod where
  replicas := keep original.replicas target.replicas stored.replicas
  template :=
    { annotations := original.template.annotations.merge target.template.annotations stored.template.annotations
      pod := p.mergePod original.template.pod target.template.pod stored.template.pod }

end StatefulSetSpec

/-- `readiness.StatefulSetReady`. -/
def statefulSetReady {Pod : Type} (name : String) (spec : StatefulSetSpec Pod) (readyReplicas : Int) :
    Except Failure Unit :=
  let desired := spec.replicas.getD 1
  if readyReplicas < desired then
    .error (.notReady name (toString readyReplicas ++ "/" ++ toString desired ++ " replicas ready"))
  else .ok ()

/-! ## Ingresses -/

/-- `networkingv1.IngressServiceBackend`, with its port. -/
structure IngressServiceBackend where
  name : String
  portName : String := ""
  portNumber : Int := 0
  deriving DecidableEq, Repr

/-- `corev1.TypedLocalObjectReference`. -/
structure TypedLocalObjectReference where
  apiGroup : Option String := none
  kind : String
  name : String
  deriving DecidableEq, Repr

structure IngressBackend where
  service : Option IngressServiceBackend := none
  resource : Option TypedLocalObjectReference := none
  deriving DecidableEq, Repr

structure HTTPIngressPath where
  path : String := ""
  pathType : Option String := none
  backend : IngressBackend
  deriving DecidableEq, Repr

/-- `networkingv1.IngressRule`; the paths are those of `HTTP`, a pointer. -/
structure IngressRule where
  host : String := ""
  http : Option (List HTTPIngressPath) := none
  deriving DecidableEq, Repr

structure IngressTLS where
  hosts : List String := []
  secretName : String := ""
  deriving DecidableEq, Repr

structure IngressSpec where
  ingressClassName : Option String := none
  defaultBackend : Option IngressBackend := none
  tls : List IngressTLS := []
  rules : List IngressRule := []
  deriving DecidableEq, Repr

/-- An ingress: its annotations and its specification. -/
structure Ingress where
  annotations : Fields String
  spec : IngressSpec

def IngressServiceBackend.deepDerivative (a b : IngressServiceBackend) : Bool :=
  textDerivative a.name b.name && textDerivative a.portName b.portName && a.portNumber = b.portNumber

def TypedLocalObjectReference.deepDerivative (a b : TypedLocalObjectReference) : Bool :=
  pointerDerivative textDerivative a.apiGroup b.apiGroup && textDerivative a.kind b.kind && textDerivative a.name b.name

def IngressBackend.deepDerivative (a b : IngressBackend) : Bool :=
  pointerDerivative IngressServiceBackend.deepDerivative a.service b.service &&
    pointerDerivative TypedLocalObjectReference.deepDerivative a.resource b.resource

def HTTPIngressPath.deepDerivative (a b : HTTPIngressPath) : Bool :=
  textDerivative a.path b.path && pointerDerivative textDerivative a.pathType b.pathType &&
    a.backend.deepDerivative b.backend

def IngressRule.deepDerivative (a b : IngressRule) : Bool :=
  textDerivative a.host b.host && pointerDerivative (sliceDerivative HTTPIngressPath.deepDerivative) a.http b.http

def IngressTLS.deepDerivative (a b : IngressTLS) : Bool :=
  sliceDerivative textDerivative a.hosts b.hosts && textDerivative a.secretName b.secretName

namespace IngressSpec

/-- `equality.Semantic.DeepDerivative` on the specifications. -/
def deepDerivative (a b : IngressSpec) : Bool :=
  pointerDerivative textDerivative a.ingressClassName b.ingressClassName &&
    pointerDerivative IngressBackend.deepDerivative a.defaultBackend b.defaultBackend &&
    sliceDerivative IngressTLS.deepDerivative a.tls b.tls && sliceDerivative IngressRule.deepDerivative a.rules b.rules

/-- `StrategicMergeFrom(original)` of `target`, applied to what is stored. The lists are replaced as a whole; so is the
    default backend here, which no target has. -/
def merge (original target stored : IngressSpec) : IngressSpec where
  ingressClassName := keep original.ingressClassName target.ingressClassName stored.ingressClassName
  defaultBackend := keep original.defaultBackend target.defaultBackend stored.defaultBackend
  tls := keep original.tls target.tls stored.tls
  rules := keep original.rules target.rules stored.rules

theorem merge_self (original target : IngressSpec) : merge original target original = target := by
  simp [merge]

end IngressSpec

/-! ## The store -/

inductive Kind where
  | secret | configMap | service | statefulSet | ingress
  deriving DecidableEq

variable (Pod : Type)

/-- What is stored of an object. The values of a config map are bytes here, as its reader wants them. -/
@[reducible] def Obj : Kind → Type
  | .secret => Fields Bytes
  | .configMap => Fields Bytes
  | .service => Unit
  | .statefulSet => StatefulSetSpec Pod
  | .ingress => Ingress

/-- What is read of a status: the number of `ReadyReplicas`. -/
@[reducible] def Status : Kind → Type
  | .statefulSet => Int
  | _ => Unit

abbrev Op := Desired.Op Kind (Obj Pod)
abbrev Ans := Desired.Ans Kind (Obj Pod) Status
abbrev Store := Desired.Store Kind (Obj Pod)

variable {Pod}

/-- What the API server stores. -/
def Platform.server (p : Platform Pod) : Desired.Server Kind (Obj Pod) where
  created
    | .statefulSet, target => StatefulSetSpec.defaulted p target
    | .secret, target => target
    | .configMap, target => target
    | .service, target => target
    | .ingress, target => target
  patched
    | .secret, original, target, stored => Fields.merge original target stored
    | .configMap, original, target, stored => Fields.merge original target stored
    | .service, _, _, stored => stored
    | .statefulSet, original, target, stored => (StatefulSetSpec.merge p original target stored).defaulted p
    | .ingress, original, target, stored =>
        { annotations := original.annotations.merge target.annotations stored.annotations
          spec := original.spec.merge target.spec stored.spec }

/-- What calls do. -/
def Platform.sem (p : Platform Pod) : Sem (Op Pod) (Ans Pod) (Store Pod) := Desired.Effect p.server

end Etos.Extras
