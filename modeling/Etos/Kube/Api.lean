import Etos.Prog.Basic
import Etos.Kube.Meta

/-!
# `Kube.Api` — the calls of a Kubernetes client

The operations `controller-runtime`'s client offers, for object kinds `K` with their specification and
status types, plus calls `X` that go elsewhere (a clock, a message bus). Every list is restricted by one
selector: a label with a value, or the index of the objects controlled by an owner. All objects live in one
namespace; `resourceVersion` implements optimistic concurrency.
-/

namespace Etos.Kube

/-- What a `List` selects. -/
inductive Selector where
  /-- `client.MatchingLabels`: the label is present with exactly this value. -/
  | label (key value : String)
  /-- `client.MatchingFields` on an owner index: the controller reference names this owner. -/
  | controlledBy (apiVersion kind name : String)
  deriving DecidableEq, Repr

/-- Does an object with this metadata match? -/
def Selector.matches (m : ObjectMeta) : Selector → Bool
  | .label key value => m.labels.lookup key = some value
  | .controlledBy apiVersion kind name =>
      match m.controllerOf with
      | none => false
      | some r => decide (r.apiVersion = apiVersion ∧ r.kind = kind ∧ r.name = name)

theorem Selector.matches_controlledBy {m : ObjectMeta} {apiVersion kind name : String} :
    (Selector.controlledBy apiVersion kind name).matches m = true ↔
      ∃ r, m.controllerOf = some r ∧ r.apiVersion = apiVersion ∧ r.kind = kind ∧ r.name = name := by
  unfold Selector.matches
  cases m.controllerOf with
  | none => simp
  | some r => simp

section Op

variable (K : Type) (Spec Status : K → Type) (X : Type) (XAns : X → Type)

/-- The calls of a client. `update` writes metadata and specification, `updateStatus` the status. -/
inductive Op where
  | get (k : K) (name : String)
  | list (k : K) (sel : Selector)
  | create (k : K) (o : Object (Spec k) (Status k))
  | update (k : K) (o : Object (Spec k) (Status k))
  | updateStatus (k : K) (o : Object (Spec k) (Status k))
  | delete (k : K) (name : String)
  | ext (x : X)

/-- The answers. A successful write answers with the object as stored. -/
@[reducible] def Ans : Op K Spec Status X → Type
  | .get k _ => Except Err (Object (Spec k) (Status k))
  | .list k _ => Except Err (List (Object (Spec k) (Status k)))
  | .create k _ => Except Err (Object (Spec k) (Status k))
  | .update k _ => Except Err (Object (Spec k) (Status k))
  | .updateStatus k _ => Except Err (Object (Spec k) (Status k))
  | .delete _ _ => Except Err Unit
  | .ext x => XAns x

end Op

variable {K : Type} {Spec Status : K → Type} {X : Type} {XAns : X → Type}

/-- Did the call succeed? Calls that are not API calls count as successful. -/
def succeeded : (o : Op K Spec Status X) → Ans K Spec Status X XAns o → Bool
  | .get _ _, .ok _ => true
  | .list _ _, .ok _ => true
  | .create _ _, .ok _ => true
  | .update _ _, .ok _ => true
  | .updateStatus _ _, .ok _ => true
  | .delete _ _, .ok _ => true
  | .ext _, _ => true
  | .get _ _, .error _ => false
  | .list _ _, .error _ => false
  | .create _ _, .error _ => false
  | .update _ _, .error _ => false
  | .updateStatus _ _, .error _ => false
  | .delete _ _, .error _ => false

/-- A call that was made: the operation, the answer the program saw, and whether the server applied it. An
    applied call may still have been answered by an error (a lost response). -/
structure Call (K : Type) (Spec Status : K → Type) (X : Type) (XAns : X → Type) where
  op : Op K Spec Status X
  ans : Ans K Spec Status X XAns op
  applied : Bool

end Etos.Kube
