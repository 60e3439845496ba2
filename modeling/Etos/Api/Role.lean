import Etos.Api.Client
import Etos.Kube.Rbac

/-!
# `Api.Role` — the role of the operator

`config/rbac/role.yaml`, which is generated from the markers in the controllers, and the names of the kinds in requests,
from `config/crd/bases`.
-/

namespace Etos

open Kube Rbac

/-- The API group of the kinds of ETOS. -/
def etosGroup : String := "etos.eiffel-community.github.io"

/-- What the kinds are called in requests. The plural of `LogArea` is `logarea`. -/
def Kind.groupResource : Kind → GroupResource
  | .testRun => ⟨etosGroup, "testruns"⟩
  | .environmentRequest => ⟨etosGroup, "environmentrequests"⟩
  | .environment => ⟨etosGroup, "environments"⟩
  | .resource .iut => ⟨etosGroup, "iuts"⟩
  | .resource .logArea => ⟨etosGroup, "logarea"⟩
  | .resource .executionSpace => ⟨etosGroup, "executionspaces"⟩
  | .provider => ⟨etosGroup, "providers"⟩
  | .cluster => ⟨etosGroup, "clusters"⟩
  | .job => ⟨"batch", "jobs"⟩
  | .pod => ⟨"", "pods"⟩

/-- What is read for the value of a variable. -/
def KeySource.groupResource : KeySource → GroupResource
  | .secret => ⟨"", "secrets"⟩
  | .configMap => ⟨"", "configmaps"⟩

/-- Where the value of a variable is read from, unless it is spelled out. -/
def Var.source (v : Var) : Option KeySource :=
  if v.value ≠ "" then none
  else if v.secretKeyRef.isSome then some .secret
  else if v.configMapKeyRef.isSome then some .configMap
  else none

/-- The requests behind the calls that are not API calls: variables are read from secrets and config maps, and a
    publisher is made with the password of its message bus. -/
def Ext.requests : Ext → List Request
  | .readKey source _ => reads source.groupResource
  | .getPublisher parameters => (parameters.password.bind Var.source).toList.flatMap fun source =>
      reads source.groupResource
  | .clockNow | .timeNow | .newUUID | .startSpan | .publish _ _ | .rangeKeys _ | .attempt _ => []

/-- The kinds of ETOS with a status and finalizers that the operator writes. -/
def etosSubresources (subresource : String) : List String :=
  ["clusters", "environmentrequests", "environments", "executionspaces", "iuts", "logarea", "providers",
    "testruns"].map fun resource => resource ++ "/" ++ subresource

/-- `manager-role`. -/
def managerRole : List PolicyRule :=
  [{ apiGroups := [""], resources := ["pods"], verbs := ["get", "list", "watch"] },
    { apiGroups := [""], resources := ["secrets", "services"],
      verbs := ["create", "delete", "get", "list", "patch", "watch"] },
    { apiGroups := [""], resources := ["serviceaccounts"], verbs := ["create", "get", "list", "patch", "watch"] },
    { apiGroups := ["apps"], resources := ["deployments", "statefulsets"],
      verbs := ["create", "delete", "get", "list", "patch", "watch"] },
    { apiGroups := ["batch"], resources := ["jobs"], verbs := ["create", "delete", "get", "list", "watch"] },
    { apiGroups := ["batch"], resources := ["jobs/status"], verbs := ["get"] },
    { apiGroups := [etosGroup], resources := ["clusters"], verbs := ["get", "list", "watch"] },
    { apiGroups := [etosGroup], resources := etosSubresources "finalizers", verbs := ["update"] },
    { apiGroups := [etosGroup], resources := etosSubresources "status", verbs := ["get", "patch", "update"] },
    { apiGroups := [etosGroup],
      resources := ["environmentrequests", "environments", "executionspaces", "iuts", "logarea", "providers"],
      verbs := ["create", "delete", "get", "list", "patch", "update", "watch"] },
    { apiGroups := [etosGroup], resources := ["testruns"],
      verbs := ["create", "delete", "deletecollection", "get", "list", "patch", "update", "watch"] },
    { apiGroups := ["networking.k8s.io"], resources := ["ingresses"],
      verbs := ["create", "delete", "get", "list", "patch", "watch"] },
    { apiGroups := ["rbac.authorization.k8s.io"], resources := ["rolebindings", "roles"],
      verbs := ["create", "get", "list", "patch", "watch"] }]

/-- The role grants the requests of the list, but for those of reading a config map, which it does not grant. -/
def RoleGrants (qs : List Request) : Prop :=
  ∀ q ∈ qs, grants managerRole q = true ↔ q ∉ reads KeySource.configMap.groupResource

instance (qs : List Request) : Decidable (RoleGrants qs) := inferInstanceAs (Decidable (∀ q ∈ qs, _))

end Etos
