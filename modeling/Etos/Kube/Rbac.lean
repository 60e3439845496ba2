import Etos.Kube.Api

/-!
# `Kube.Rbac` — who may ask the API server for what

Role-based access control: a role is a list of rules, and a request is granted if one of them matches its verb, its API
group and its resource. `Op.requests` lists the requests behind a call of a client. Reads may be served by a cache,
which lists and watches what it holds, so a read needs all three.
-/

namespace Etos.Kube.Rbac

/-- What a kind is called in requests: its API group, and the plural of its name. -/
structure GroupResource where
  group : String
  resource : String
  deriving DecidableEq, Repr

/-- A request. The subresource is empty for the object as a whole. -/
structure Request extends GroupResource where
  verb : String
  subresource : String := ""
  deriving DecidableEq, Repr

/-- `rbacv1.PolicyRule`, without the fields for single objects and for URLs. -/
structure PolicyRule where
  apiGroups : List String
  resources : List String
  verbs : List String

/-- Is the name in the list? A star stands for every name. -/
def matchesName (names : List String) (name : String) : Bool := names.contains "*" || names.contains name

/-- `resource/subresource`, as rules name it. -/
def Request.combined (q : Request) : String :=
  if q.subresource = "" then q.resource else q.resource ++ "/" ++ q.subresource

/-- Does the rule name the resource? `*/status` stands for the status of every resource. -/
def PolicyRule.matchesResource (rule : PolicyRule) (q : Request) : Bool :=
  matchesName rule.resources q.combined || (q.subresource ≠ "" && rule.resources.contains ("*/" ++ q.subresource))

def PolicyRule.grants (rule : PolicyRule) (q : Request) : Bool :=
  matchesName rule.verbs q.verb && matchesName rule.apiGroups q.group && rule.matchesResource q

/-- Some rule of the role grants the request. -/
def grants (role : List PolicyRule) (q : Request) : Bool := role.any (·.grants q)

/-- The requests behind a read that may be served by a cache. -/
def reads (r : GroupResource) : List Request := ["get", "list", "watch"].map fun verb => { r with verb := verb }

variable {K : Type} {Spec Status : K → Type} {X : Type}

/-- The requests behind a call. What is behind the calls that are not made by the client itself is given. -/
def requests (named : K → GroupResource) (outside : X → List Request) : Op K Spec Status X → List Request
  | .get k _ | .list k _ => reads (named k)
  | .create k _ => [{ named k with verb := "create" }]
  | .update k _ => [{ named k with verb := "update" }]
  | .updateStatus k _ => [{ named k with verb := "update", subresource := "status" }]
  | .delete k _ => [{ named k with verb := "delete" }]
  | .ext x => outside x

end Etos.Kube.Rbac
