import Etos.Controller.Resource
import Etos.Kube.Store

/-!
# `Webhook.Defaulter` — admission of EnvironmentRequests and provider resources

`internal/webhook/v1alpha2` (Iut, LogArea, ExecutionSpace) and the EnvironmentRequest defaulter of
`internal/webhook/v1alpha1`. Every create and update of a resource looks up the EnvironmentRequest the resource
names and copies its id, name, identifier and cluster into the labels; if the request cannot be found, the write
is refused.
-/

namespace Etos

open Kube

/-- The `app.kubernetes.io/name` of a resource that has none. -/
def ResourceKind.defaultAppName : ResourceKind → String
  | .iut => "iut-provider"
  | .logArea => "logarea-provider"
  | .executionSpace => "executionspace-provider"

/-- The labels a defaulter leaves on a resource. -/
def defaultLabels (r : ResourceKind) (environmentrequest : EnvironmentRequest) (providerID : String)
    (labels : StrMap) : StrMap :=
  let labels := labels.set requestLabel environmentrequest.spec.name
  let labels := labels.set requestIdLabel environmentrequest.spec.id
  let labels := labels.set providerLabel providerID
  let labels := labels.set "app.kubernetes.io/part-of" "etos"
  let labels :=
    if labels.get "app.kubernetes.io/name" = "" then labels.set "app.kubernetes.io/name" r.defaultAppName
    else labels
  let labels := setUnlessEmpty labels clusterLabel (environmentrequest.metadata.labels.get clusterLabel)
  setUnlessEmpty labels idLabel environmentrequest.spec.identifier

/-- What a defaulter makes of a resource once it has the EnvironmentRequest. -/
def defaulted (r : ResourceKind) (environmentrequest : EnvironmentRequest) (resource : Resource r) :
    Resource r :=
  let providerID := (r.common resource.spec).providerID
  let labels := defaultLabels r environmentrequest providerID resource.metadata.labels
  { resource with metadata := { resource.metadata with labels := labels } }

/-- `IutCustomDefaulter.Default` and its siblings. -/
def ResourceCustomDefaulter.Default (r : ResourceKind) (resource : Resource r) :
    M (Except Err (Resource r)) := do
  match ← M.get .environmentRequest (r.common resource.spec).environmentRequest with
  | .error e => return .error e
  | .ok environmentrequest => return .ok (defaulted r environmentrequest resource)

def IutCustomDefaulter.Default : Iut → M (Except Err Iut) := ResourceCustomDefaulter.Default .iut
def LogAreaCustomDefaulter.Default : LogArea → M (Except Err LogArea) :=
  ResourceCustomDefaulter.Default .logArea
def ExecutionSpaceCustomDefaulter.Default : ExecutionSpace → M (Except Err ExecutionSpace) :=
  ResourceCustomDefaulter.Default .executionSpace

/-- What the defaulter makes of an EnvironmentRequest, given a fresh id and the clock. -/
def EnvironmentRequestSpec.defaulted (spec : EnvironmentRequestSpec) (id : String) (now : Int) :
    EnvironmentRequestSpec :=
  { spec with
    id := if spec.id = "" then id else spec.id
    deadline := if spec.deadline = 0 then now + spec.timeout else spec.deadline }

/-- `EnvironmentRequestCustomDefaulter.Default`. -/
def EnvironmentRequestCustomDefaulter.Default (environmentrequest : EnvironmentRequest) :
    M EnvironmentRequest := do
  let id ← if environmentrequest.spec.id = "" then M.ext .newUUID else pure ""
  let now ← if environmentrequest.spec.deadline = 0 then M.ext .timeNow else pure 0
  return { environmentrequest with spec := environmentrequest.spec.defaulted id (unixSeconds now) }

/-! ## Admission -/

/-- The content of a namespace. -/
abbrev Namespace := Store Kind Spec Status

/-- How a webhook knows the EnvironmentRequests: as they are, or as a cache had them at some time. -/
abbrev Knowledge := Namespace → String → EnvironmentRequest → Prop

def Knowledge.current : Knowledge := fun s n request => s.find .environmentRequest n = some request
def Knowledge.cached : Knowledge := fun s n request =>
  request ∈ s.past .environmentRequest ∧ request.name = n

/-- What the webhooks make of an object. Environments, jobs and pods have no defaulter; what the ones of Clusters and
    Providers do is left open, and so is what `TestRunCustomDefaulter.Default` fills in besides leaving the suites
    alone. -/
def admission (knowledge : Knowledge) : Admission Kind Spec Status
  | s, .resource r, o, o' => ∃ request,
      knowledge s (r.common o.spec).environmentRequest request ∧ o' = defaulted r request o
  | _, .environmentRequest, o, o' => ∃ id now, o' = { o with spec := o.spec.defaulted id now }
  | _, .environment, o, o' => o' = o
  | _, .job, o, o' => o' = o
  | _, .pod, o, o' => o' = o
  | _, .testRun, o, o' => o'.name = o.name ∧ o'.spec.suites = o.spec.suites
  | _, .cluster, o, o' => o'.name = o.name
  | _, .provider, o, o' => o'.name = o.name

/-- Admission does not rename. -/
theorem admission_name {knowledge : Knowledge} {s : Namespace} {k : Kind} {o o' : Obj k}
    (h : admission knowledge s k o o') : o'.name = o.name := by
  cases k with
  | resource r =>
      obtain ⟨request, _, rfl⟩ := h
      rfl
  | environmentRequest =>
      obtain ⟨id, now, rfl⟩ := h
      rfl
  | environment | job | pod => exact congrArg Object.name h
  | testRun => exact h.1
  | cluster | provider => exact h

/-! ## The labels a resource ends up with -/

theorem lookup_setUnlessEmpty_ne {labels : StrMap} {key key' value : String} (h : key' ≠ key) :
    (setUnlessEmpty labels key value).lookup key' = labels.lookup key' := by
  unfold setUnlessEmpty
  split
  · rfl
  · exact StrMap.lookup_set_ne h

theorem lookup_setUnlessEmpty_self {labels : StrMap} {key value : String} (h : value ≠ "") :
    (setUnlessEmpty labels key value).lookup key = some value := by
  unfold setUnlessEmpty
  rw [if_neg h]
  exact StrMap.lookup_set_self labels key value

/-- What a defaulter sets last leaves the other labels alone. -/
theorem defaultLabels_lookup (r : ResourceKind) (er : EnvironmentRequest) (providerID : String) (labels : StrMap)
    {key : String}
    (h : key ∉ ["app.kubernetes.io/part-of", "app.kubernetes.io/name", clusterLabel, idLabel]) :
    (defaultLabels r er providerID labels).lookup key =
      (((labels.set requestLabel er.spec.name).set requestIdLabel er.spec.id).set providerLabel providerID).lookup
        key := by
  simp only [List.mem_cons, List.not_mem_nil, or_false, not_or] at h
  obtain ⟨hpart, happ, hcluster, hid⟩ := h
  unfold defaultLabels
  rw [lookup_setUnlessEmpty_ne hid, lookup_setUnlessEmpty_ne hcluster]
  split
  · rw [StrMap.lookup_set_ne happ, StrMap.lookup_set_ne hpart]
  · rw [StrMap.lookup_set_ne hpart]

/-- An admitted resource carries the id of its EnvironmentRequest. -/
theorem defaultLabels_requestId (r : ResourceKind) (er : EnvironmentRequest) (providerID : String)
    (labels : StrMap) : (defaultLabels r er providerID labels).lookup requestIdLabel = some er.spec.id := by
  rw [defaultLabels_lookup r er providerID labels (by decide), StrMap.lookup_set_ne (by decide),
    StrMap.lookup_set_self]

/-- An admitted resource carries the identifier of its EnvironmentRequest, if that has one. -/
theorem defaultLabels_id (r : ResourceKind) {er : EnvironmentRequest} (providerID : String)
    (labels : StrMap) (h : er.spec.identifier ≠ "") :
    (defaultLabels r er providerID labels).lookup idLabel = some er.spec.identifier := by
  unfold defaultLabels
  exact lookup_setUnlessEmpty_self h

end Etos
