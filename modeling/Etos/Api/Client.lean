import Etos.Api.Types

/-!
# `Api.Client` — the calls a reconciler makes

`M` is the monad the reconcilers, webhooks and provider jobs are written in: programs whose calls are
Kubernetes API calls on the ETOS kinds, or one of the calls `Ext` that leave the cluster (clocks, the
message bus, secrets, fresh identifiers). Go's random iteration order over a map is a call too: its answer is
some permutation of the keys.

A reconciler mutates the object it holds a pointer to, and the client overwrites that object with the
server's answer when a write succeeds. Here the object is passed along instead; `statusUpdate` and `update`
return it as it is after the call.
-/

namespace Etos

open Kube

/-- `events.Shutdown` as handed to `EventPublisher.Publish`. -/
structure Shutdown where
  data : Result
  deriving DecidableEq, Repr

/-- What a started trace span injects into the annotations. -/
structure TraceContext where
  traceparent : String
  tracestate : String
  baggage : String
  deriving DecidableEq, Repr

/-- Calls that are not API calls. Clock readings are in nanoseconds since the epoch. -/
inductive Ext where
  /-- `r.Now()`, the reconciler's injected clock. -/
  | clockNow
  /-- `time.Now()` and `metav1.Now()`. -/
  | timeNow
  /-- `uuid.NewUUID()`. -/
  | newUUID
  /-- `r.Tracer.Start`. -/
  | startSpan
  /-- `EventPublisher.Publish`. -/
  | publish (identifier : String) (event : Shutdown)
  /-- `PublisherPool.GetPublisher`. -/
  | getPublisher (parameters : RabbitMQ)
  /-- Reading a `Var` from the secret or config map it refers to. -/
  | readKey (source : KeySource) (selector : KeySelector)
  /-- `for key := range m`, for a map with these keys. -/
  | rangeKeys (keys : List String)
  /-- A library call of which only success or failure matters: decoding a key, encoding JSON, waiting for a
      test runner. -/
  | attempt (what : String)

@[reducible] def ExtAns : Ext → Type
  | .clockNow => Int
  | .timeNow => Int
  | .newUUID => String
  | .startSpan => TraceContext
  | .publish _ _ => Except Err Unit
  | .getPublisher _ => Except Err Unit
  | .readKey _ _ => Except Err String
  | .rangeKeys keys => { order : List String // order.Perm keys }
  | .attempt _ => Except Err Unit

abbrev Op := Kube.Op Kind Spec Status Ext
abbrev Ans : Op → Type := Kube.Ans Kind Spec Status Ext ExtAns
abbrev Call := Kube.Call Kind Spec Status Ext ExtAns

/-- Programs over the calls above. -/
abbrev M := Prog Op Ans

namespace M

def get (k : Kind) (name : String) : M (Except Err (Obj k)) := Prog.perform (Kube.Op.get k name : Op)
def list (k : Kind) (sel : Selector) : M (Except Err (List (Obj k))) :=
  Prog.perform (Kube.Op.list k sel : Op)
def create (k : Kind) (o : Obj k) : M (Except Err (Obj k)) := Prog.perform (Kube.Op.create k o : Op)
def delete (k : Kind) (name : String) : M (Except Err Unit) := Prog.perform (Kube.Op.delete k name : Op)
def ext (x : Ext) : M (ExtAns x) := Prog.perform (Kube.Op.ext x : Op)

/-- The object a write leaves in memory, with the error it returned. -/
def written {k : Kind} (o : Obj k) : Except Err (Obj k) → Obj k × Option Err
  | .ok o' => (o', none)
  | .error e => (o, some e)

/-- `r.Update(ctx, obj)`. -/
def update (k : Kind) (o : Obj k) : M (Obj k × Option Err) :=
  .call (Kube.Op.update k o : Op) (fun a => .ret (written o a))

/-- `r.Status().Update(ctx, obj)`. -/
def statusUpdate (k : Kind) (o : Obj k) : M (Obj k × Option Err) :=
  .call (Kube.Op.updateStatus k o : Op) (fun a => .ret (written o a))

end M

/-- Nanoseconds to the seconds `metav1.Time` is serialised with. -/
def unixSeconds (ns : Int) : Int := ns / 1000000000

/-- Seconds since the epoch to nanoseconds: `time.Unix(sec, 0)`, without the wrap-around of seconds that no `time.Time`
    can hold. -/
def unixTime (sec : Int) : Int := sec * 1000000000

/-- `metav1.Now()`. -/
def metaNow : M Int := do
  let t ← M.ext .timeNow
  return unixSeconds t

/-- `ctrl.Result`. -/
structure ReconcileResult where
  requeue : Bool := false
  /-- Nanoseconds; zero and negative values do not requeue. -/
  requeueAfter : Int := 0
  deriving DecidableEq, Repr

end Etos
