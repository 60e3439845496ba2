import Etos.Controller.Environment
import Etos.Controller.EnvironmentRequest
import Etos.Controller.TestRun
import Etos.Kube.Cluster
import Etos.Webhook.Defaulter

/-!
# `Operator.System` — the reconcilers at work on one namespace

All TestRun, EnvironmentRequest, Environment, Iut, LogArea and ExecutionSpace reconcilers over one store, starting
from an empty namespace. A controller never reconciles one object twice at a time, so there is one `Worker` per
object; any worker may run its `Reconcile` at any time, cut short at any call. Reads answer from the past, writes are
rejected, carried out, or carried out with their answer lost (`Store.Sem`).

Everybody else (users, the containers of provider and release jobs, the job controller, the garbage collector) is
`others`: they create objects under names that were never used, without status, finalizers or a controller; they edit
labels and annotations; they delete anything at any time; and they report on jobs and pods.
-/

namespace Etos

open Kube

/-- What a worker has heard in its round. -/
abbrev Log := List (Said Op Ans)

/-- A call in a round, with the store it was made in. -/
abbrev Event := Kube.Event Kind Spec Status Ext ExtAns

/-- One reconcile loop per object. -/
inductive Worker where
  | testRun (name : String)
  | environmentRequest (name : String)
  | environment (name : String)
  | resource (r : ResourceKind) (name : String)
  deriving DecidableEq, Repr

/-- The jobs a worker manages: those its object controls. -/
def Worker.selector : Worker → Selector
  | .testRun n => .controlledBy apiGroupVersionString testRunKind n
  | .environmentRequest n =>
      .controlledBy apiGroupVersionString EnvironmentRequestReconciler.environmentRequestKind n
  | .environment n => .controlledBy apiGroupVersionString EnvironmentReconciler.environmentKind n
  | .resource r n => .controlledBy apiV2GroupVersionString r.kindName n

/-- The configuration of the reconcilers. -/
structure Operator where
  testRuns : TestRunReconciler
  environments : EnvironmentReconciler

/-- The program of a worker. -/
def Operator.reconcile (op : Operator) : Worker → M Unit
  | .testRun n => op.testRuns.Reconcile n >>= fun _ => pure ()
  | .environmentRequest n => EnvironmentRequestReconciler.Reconcile n >>= fun _ => pure ()
  | .environment n => op.environments.Reconcile n >>= fun _ => pure ()
  | .resource r n => ResourceReconciler.Reconcile r n >>= fun _ => pure ()

/-! ## Everybody else -/

instance : (k : Kind) → DecidableEq (Spec k)
  | .testRun => inferInstanceAs (DecidableEq TestRunSpec)
  | .environmentRequest => inferInstanceAs (DecidableEq EnvironmentRequestSpec)
  | .environment => inferInstanceAs (DecidableEq EnvironmentSpec)
  | .resource .iut => inferInstanceAs (DecidableEq IutSpec)
  | .resource .logArea => inferInstanceAs (DecidableEq LogAreaSpec)
  | .resource .executionSpace => inferInstanceAs (DecidableEq ExecutionSpaceSpec)
  | .provider => inferInstanceAs (DecidableEq ProviderSpec)
  | .cluster => inferInstanceAs (DecidableEq ClusterSpec)
  | .job => inferInstanceAs (DecidableEq JobSpec)
  | .pod => inferInstanceAs (DecidableEq Unit)

/-- The status of a new object: the kinds with a reconciler start without one. -/
def newStatus : (k : Kind) → Status k → Prop
  | .testRun, st => st = {}
  | .environmentRequest, st => st = {}
  | .environment, st => st = {}
  | .resource _, st => st = {}
  | _, _ => True

instance : (k : Kind) → (st : Status k) → Decidable (newStatus k st)
  | .testRun, st => inferInstanceAs (Decidable (st = ({} : TestRunStatus)))
  | .environmentRequest, st => inferInstanceAs (Decidable (st = ({} : ReleasableStatus)))
  | .environment, st => inferInstanceAs (Decidable (st = ({} : ReleasableStatus)))
  | .resource _, st => inferInstanceAs (Decidable (st = ({} : ReleasableStatus)))
  | .provider, _ | .cluster, _ | .job, _ | .pod, _ => .isTrue trivial

/-- What everybody else may do. -/
def others (s : Namespace) : Op → Prop
  | .create k o => (o.name = "" ∨ o.name ∉ s.names k) ∧ o.metadata.finalizers = [] ∧
      o.metadata.controllerOf = none ∧ ownedByEnvironment o.metadata.ownerReferences = false ∧
      newStatus k o.status
  | .update k o => ∀ cur ∈ s.find k o.name, o.spec = cur.spec ∧
      o.metadata.finalizers = cur.metadata.finalizers ∧
      o.metadata.ownerReferences = cur.metadata.ownerReferences
  | .updateStatus k _ => k ∈ [Kind.provider, .cluster, .job, .pod]
  | .delete _ _ => True
  | .get _ _ => False
  | .list _ _ => False
  | .ext _ => False

instance (s : Namespace) : (o : Op) → Decidable (others s o)
  | .create _ _ => inferInstanceAs (Decidable (_ ∧ _))
  | .update k o => inferInstanceAs (Decidable (∀ cur ∈ s.find k o.name, _))
  | .updateStatus _ _ => inferInstanceAs (Decidable (_ ∈ _))
  | .delete _ _ => .isTrue trivial
  | .get _ _ | .list _ _ | .ext _ => .isFalse nofun

/-! ## Runs -/

/-- The store, and the round of each worker. -/
abbrev OperatorState := Kube.Cluster Kind Spec Status Ext ExtAns Worker

/-- Who does what. -/
def Operator.behaviour (op : Operator) : Cluster.Behaviour Kind Spec Status Ext ExtAns Worker where
  program i _ := some (op.reconcile i)
  others := others

/-- The operator, from an empty namespace on. The webhooks read through a cache, too. -/
def Operator.system (op : Operator) : System Op Ans OperatorState Worker :=
  Cluster.system (admission .cached) (· = Store.empty) op.behaviour

/-- The runs all of whose calls meet `cond`. -/
abbrev Operator.runs (op : Operator) (cond : Worker → OperatorState → (o : Op) → Ans o → Prop) :
    System Op Ans OperatorState Worker := op.system.restrict cond

/-! ## What a worker can be told -/

/-- The answers a call can get: besides what is `possible` on every server, the webhooks leave finalizers and owners
    of a resource alone. -/
def possible (o : Op) (a : Ans o) : Prop :=
  Cluster.possible o a ∧ ∀ r x y, (⟨o, a⟩ : Said Op Ans) = ⟨.update (.resource r) x, .ok y⟩ →
    y.metadata.finalizers = x.metadata.finalizers ∧ y.metadata.ownerReferences = x.metadata.ownerReferences

theorem possible_of_sem {knowledge : Knowledge} {s s' : Namespace} {o : Op} {a : Ans o}
    (h : Store.Sem (admission knowledge) s o a s') : possible o a := by
  refine ⟨Cluster.possible_of_sem (fun _ _ _ _ => admission_name) h, ?_⟩
  rintro r x y ⟨⟩
  cases h with
  | write h =>
      cases h with
      | update ha h =>
          obtain ⟨cur, _, _, _, rfl, _⟩ := Store.updated_eq h
          obtain ⟨request, _, rfl⟩ := ha
          exact ⟨rfl, rfl⟩
  | lost _ ha => cases ha
  | error ha => cases ha

/-- The worker was answered with this object. -/
def Heard (l : Log) (k : Kind) (x : Obj k) : Prop := ∃ e ∈ l, Store.Answered e.op e.ans k x

/-- The worker has read this object under this name. -/
def Got (l : Log) (k : Kind) (n : String) (x : Obj k) : Prop := ⟨.get k n, .ok x⟩ ∈ l

/-- The object in memory is the one read first, or the answer to a status update made from it. -/
def Stems (l : Log) (k : Kind) (x x' : Obj k) : Prop :=
  x' = x ∨ ∃ o : Obj k, ⟨.updateStatus k o, .ok x'⟩ ∈ l ∧ o.metadata = x.metadata

theorem Stems.grown {P : Op → Prop} {l l' : Log} {k : Kind} {x x' : Obj k} (h : Stems l k x x')
    (hg : Grown P l l') : Stems l' k x x' := h.imp_right fun ⟨o, ho, hm⟩ => ⟨o, hg.mem ho, hm⟩

/-- Status updates do not change what they are made from, so what stems from a version differs from it in its
    status and its resource version only. -/
theorem Stems.eq {w : OperatorState} (hk : w.Knowing) {i : Worker} {k : Kind} {n : String} {x x' : Obj k}
    (h : Stems (w.log i) k x x') (hg : Got (w.log i) k n x) :
    x' ∈ w.store.past k ∧ x'.spec = x.spec ∧
      x'.metadata = { x.metadata with resourceVersion := x'.metadata.resourceVersion } := by
  have hx : x ∈ w.store.past k := (hk i _ hg).reads k x .get
  rcases h with rfl | ⟨o, ho, hm⟩
  · exact ⟨hx, rfl, rfl⟩
  · obtain ⟨hx', cur, hcur, hv, hspec, hmeta⟩ := (hk i _ ho).status k o x' rfl
    obtain rfl : cur = x := w.store.unique hcur hx (by rw [hv, hm])
    exact ⟨hx', hspec, hmeta⟩

/-- A create of a job. -/
def CreatesJob (o : Op) : Prop := ∃ job : Job, o = .create .job job

/-- A status update of an object of this kind. -/
def WritesStatus (k : Kind) (o : Op) : Prop := ∃ x : Obj k, o = .updateStatus k x

/-- Some version the worker has heard of is not marked as starting. Only TestRuns and EnvironmentRequests are. -/
def Worker.Unmarked : Worker → Log → Prop
  | .testRun n, l => ∃ x : TestRun, Heard l .testRun x ∧ x.name = n ∧
      isStatusReason x.status.conditions .suiteRunner .starting = false
  | .environmentRequest n, l => ∃ x : EnvironmentRequest, Got l .environmentRequest n x ∧
      isStatusReason x.status.conditions .ready .starting = false
  | .environment _, _ => True
  | .resource _ _, _ => True

/-- The worker has found no jobs of its own, and was not told before that there should be one. -/
def FoundNone (i : Worker) (l : Log) : Prop :=
  ∃ later earlier, l = later ++ ⟨.list .job i.selector, .ok []⟩ :: earlier ∧ i.Unmarked earlier

theorem FoundNone.grown {P : Op → Prop} {i : Worker} {l l' : Log} (h : FoundNone i l) (hg : Grown P l l') :
    FoundNone i l' := by
  obtain ⟨later, earlier, rfl, hu⟩ := h
  obtain ⟨es, rfl, _⟩ := hg
  exact ⟨es ++ later, earlier, (List.append_assoc ..).symm, hu⟩

theorem FoundNone.mem {i : Worker} {l : Log} (h : FoundNone i l) : ⟨.list .job i.selector, .ok []⟩ ∈ l := by
  obtain ⟨later, earlier, rfl, _⟩ := h
  exact List.mem_append_right _ List.mem_cons_self

theorem FoundNone.of_mem {i : Worker} {l : Log} (hu : ∀ l, i.Unmarked l)
    (h : ⟨.list .job i.selector, .ok []⟩ ∈ l) : FoundNone i l := by
  obtain ⟨later, earlier, rfl⟩ := List.append_of_mem h
  exact ⟨later, earlier, rfl, hu earlier⟩

/-- **When a worker may create a job**: it controls the job, it has found no jobs of its own before, and this is the
    only one it creates in the round. -/
structure MayCreateJob (i : Worker) (l : Log) (job : Job) : Prop where
  own : i.selector.matches job.metadata = true
  none : FoundNone i l
  first : Never CreatesJob l

/-- A program of worker `i` makes the calls `ok` permits. -/
abbrev Obeys (ok : Log → Op → Prop) {α : Type} (p : M α) (Q : α → Log → Prop) (l : Log) : Prop :=
  Follows possible ok p Q l

end Etos
