import Etos.Environment.Machine
import Etos.EnvironmentRequest.Machine
import Etos.TestRun.Calls
import Etos.TestRun.Runs

/-!
# `Operator.Runs` — invariants of the whole operator

Every worker makes the calls its `Permits` lists (`Operator.reconcile_obeys`), so an invariant of all runs only has to
be checked against these calls and against what everybody else does (**`Operator.invariant`**). `played` computes
concrete runs, which show what can go wrong and that nothing is proved about runs that do not exist.
-/

namespace Etos

open Kube

/-- The calls of each worker. -/
def Worker.Permits : Worker → Log → Op → Prop
  | .testRun n => TestRunReconciler.Permits n
  | .environmentRequest n => EnvironmentRequestReconciler.Permits n
  | .environment n => EnvironmentReconciler.Permits n
  | .resource r n => ResourceReconciler.Permits r n

/-- What a TestRun worker relies on. -/
theorem answers_of_possible {o : Op} {a : Ans o} (h : possible o a) : TestRunReconciler.answers o a := by
  unfold TestRunReconciler.answers
  split
  · exact h.1
  · exact h.1
  · exact h.1.1
  · trivial

/-- **Every worker** makes permitted calls only. -/
theorem Operator.reconcile_obeys (op : Operator) (i : Worker) :
    Obeys i.Permits (op.reconcile i) (fun _ _ => True) [] := by
  cases i with
  | testRun n =>
      have h := (op.testRuns.Reconcile_follows n).mono_possible fun _ _ => answers_of_possible
      exact h.bind fun _ _ _ => trivial
  | environmentRequest n => exact (EnvironmentRequestReconciler.Reconcile_obeys n).bind fun _ _ _ => trivial
  | environment n => exact (op.environments.Reconcile_obeys n).bind fun _ _ _ => trivial
  | resource r n => exact (ResourceReconciler.Reconcile_obeys r n).bind fun _ _ _ => trivial

/-- The cluster's admission. -/
abbrev admitted : Admission Kind Spec Status := admission .cached

variable {op : Operator} {cond : Worker → OperatorState → (o : Op) → Ans o → Prop}

/-- The reconcilers where the webhooks admit `adm`, and everybody else does what `world` allows. -/
def Operator.within (op : Operator) (adm : Admission Kind Spec Status) (world : Namespace → Op → Prop) :
    System Op Ans OperatorState Worker :=
  Cluster.system adm (· = Store.empty) { op.behaviour with others := world }

/-- **The invariant rule**, with what else is known about the webhooks, the world and the calls of the workers. -/
theorem Operator.invariant_within {adm : Admission Kind Spec Status} {world : Namespace → Op → Prop}
    (hadm : ∀ s k o o', adm s k o o' → admitted s k o o') {also : Worker → Log → Op → Prop}
    (halso : ∀ i, Obeys (also i) (op.reconcile i) (fun _ _ => True) []) {I : OperatorState → Prop}
    (hinit : I ⟨Store.empty, fun _ => []⟩) (hstart : ∀ i (w : OperatorState), w.Knowing → I w → I (w.fresh i))
    (hcall : ∀ i (w : OperatorState) (o : Op) (a : Ans o) s, w.Knowing → I w → i.Permits (w.log i) o →
      also i (w.log i) o → Store.Sem adm w.store o a s → cond i w o a → I (w.record i o a s))
    (henv : ∀ (w : OperatorState) (o : Op) (a : Ans o) s, w.Knowing → I w → world w.store o →
      Store.Write adm w.store o a s → I { w with store := s })
    {c} (h : ((op.within adm world).restrict cond).Reachable c) : c.state.Knowing ∧ I c.state := by
  have hprog : ∀ i s p, op.behaviour.program i s = some p →
      Follows possible (fun l o => i.Permits l o ∧ also i l o) p (fun _ _ => True) [] := by
    rintro i s p ⟨⟩
    exact ((op.reconcile_obeys i).and (halso i)).post fun _ _ _ => trivial
  refine Cluster.invariant (B := { op.behaviour with others := world })
    (fun s o a s' hs => possible_of_sem (hs.mono hadm)) hprog ?_ hstart ?_ henv h
  · rintro s rfl
    exact hinit
  · exact fun i w o a s hk hI hok hs hc => hcall i w o a s hk hI hok.1 hok.2 hs hc

/-- **The invariant rule**, with what else is known about the calls of the workers. -/
theorem Operator.invariant_also {also : Worker → Log → Op → Prop}
    (halso : ∀ i, Obeys (also i) (op.reconcile i) (fun _ _ => True) []) {I : OperatorState → Prop}
    (hinit : I ⟨Store.empty, fun _ => []⟩) (hstart : ∀ i (w : OperatorState), w.Knowing → I w → I (w.fresh i))
    (hcall : ∀ i (w : OperatorState) (o : Op) (a : Ans o) s, w.Knowing → I w → i.Permits (w.log i) o →
      also i (w.log i) o → Store.Sem admitted w.store o a s → cond i w o a → I (w.record i o a s))
    (henv : ∀ (w : OperatorState) (o : Op) (a : Ans o) s, w.Knowing → I w → others w.store o →
      Store.Write admitted w.store o a s → I { w with store := s })
    {c} (h : (op.runs cond).Reachable c) : c.state.Knowing ∧ I c.state :=
  Operator.invariant_within (fun _ _ _ _ ha => ha) halso hinit hstart hcall henv h

/-- **The invariant rule.** -/
theorem Operator.invariant {I : OperatorState → Prop} (hinit : I ⟨Store.empty, fun _ => []⟩)
    (hstart : ∀ i (w : OperatorState), w.Knowing → I w → I (w.fresh i))
    (hcall : ∀ i (w : OperatorState) (o : Op) (a : Ans o) s, w.Knowing → I w → i.Permits (w.log i) o →
      Store.Sem admitted w.store o a s → cond i w o a → I (w.record i o a s))
    (henv : ∀ (w : OperatorState) (o : Op) (a : Ans o) s, w.Knowing → I w → others w.store o →
      Store.Write admitted w.store o a s → I { w with store := s })
    {c} (h : (op.runs cond).Reachable c) : c.state.Knowing ∧ I c.state :=
  Operator.invariant_also op.reconcile_obeys hinit hstart
    (fun i w o a s hk hI hperm _ hs hc => hcall i w o a s hk hI hperm hs hc) henv h

/-- **Every call that is made**, from what is known and what holds when it is made. -/
theorem Operator.events {J : OperatorState → Prop} {P : Worker → Event → Prop}
    (hJ : ∀ c, (op.runs cond).Reachable c → J c.state)
    (hcall : ∀ i (w : OperatorState) (o : Op) (a : Ans o), w.Knowing → J w → i.Permits (w.log i) o → cond i w o a →
      P i ⟨⟨o, a⟩, w.store⟩)
    {c} (h : (op.runs cond).Reachable c) : Cluster.EveryEvent P c.state := by
  have hand := System.Reachable.restrict_and hJ h
  refine (Operator.invariant (I := Cluster.EveryEvent P) ?_ ?_ ?_ ?_ hand).2
  · exact fun _ e he => (nomatch he)
  · exact fun i w _ hP => hP.fresh i
  · rintro i w o a s hk hP hperm _ ⟨hc, hw⟩
    exact hP.record (hcall i w o a hk hw hperm hc)
  · exact fun w o a s _ hP _ _ => hP

/-- **Every call that is made**, from the part of the round before it. -/
theorem Operator.everyCall {also : Worker → Log → Op → Prop}
    (halso : ∀ i, Obeys (also i) (op.reconcile i) (fun _ _ => True) []) {J : OperatorState → Prop}
    {P : Worker → List Event → Event → Prop} (hJ : ∀ c, (op.runs cond).Reachable c → J c.state)
    (hcall : ∀ i (w : OperatorState) (o : Op) (a : Ans o), w.Knowing → J w → i.Permits (w.log i) o →
      also i (w.log i) o → cond i w o a → P i (w.rounds i) ⟨⟨o, a⟩, w.store⟩)
    {c} (h : (op.runs cond).Reachable c) : Cluster.EveryCall P c.state := by
  have hand := System.Reachable.restrict_and hJ h
  refine (Operator.invariant_also halso (I := Cluster.EveryCall P) ?_ ?_ ?_ ?_ hand).2
  · rintro i later e earlier he
    simp at he
  · exact fun i w _ hP => hP.fresh i
  · rintro i w o a s hk hP hperm hal _ ⟨hc, hw⟩
    exact hP.record (hcall i w o a hk hw hperm hal hc)
  · exact fun w o a s _ hP _ _ => hP

/-! ## Concrete runs

Whole rounds of the workers, with the replies of the server written down: what it serves, where a cache lags, and which
calls fail. -/

/-- The webhooks, with a fixed id and clock. -/
def admits : Cluster.Admits Kind Spec Status
  | s, .resource r, o => (s.find .environmentRequest (r.common o.spec).environmentRequest).map (defaulted r · o)
  | _, .environmentRequest, o => some { o with spec := o.spec.defaulted "request-id" 0 }
  | _, _, o => some o

theorem admits_admitted (s : Namespace) (k : Kind) (o o' : Obj k) (h : admits s k o = some o') :
    admitted s k o o' := by
  cases k with
  | resource r =>
      obtain ⟨request, hf, rfl⟩ := Option.map_eq_some_iff.mp h
      exact ⟨request, ⟨s.current hf, s.named hf⟩, rfl⟩
  | environmentRequest =>
      cases h
      exact ⟨_, _, rfl⟩
  | environment | job | pod =>
      cases h
      rfl
  | testRun =>
      cases h
      exact ⟨rfl, rfl⟩
  | provider | cluster =>
      cases h
      rfl

/-- Answers to the calls that leave the cluster: the clocks stand at zero, and nothing fails. -/
def plainExt : (x : Ext) → ExtAns x
  | .clockNow => (0 : Int)
  | .timeNow => (0 : Int)
  | .newUUID => "uuid"
  | .startSpan => ⟨"", "", ""⟩
  | .publish _ _ => .ok ()
  | .getPublisher _ => .ok ()
  | .readKey _ _ => .ok "key"
  | .rangeKeys keys => ⟨keys, .refl keys⟩
  | .attempt _ => .ok ()

abbrev Script := Cluster.Script Kind Spec Status Ext ExtAns
abbrev Turn := Cluster.Turn Kind Spec Status Ext ExtAns Worker

/-- A round in which the server deals with the calls as `reply` says. -/
def round (i : Worker) (reply : Op → Cluster.Reply := fun _ => .serve) : Turn := .round i ⟨plainExt, 0, reply⟩

/-- A write of somebody else. -/
def other (o : Op) : Turn := .other o ⟨plainExt, 0, fun _ => .serve⟩

/-- The status of the object is not written: the write conflicts with another one. -/
def statusConflict : Op → Cluster.Reply
  | .updateStatus _ _ => .fail ⟨some .conflict, "the object has been modified"⟩
  | _ => .serve

/-- The cache of jobs has not caught up. -/
def jobsLag : Op → Cluster.Reply
  | .list .job _ => .lagging
  | _ => .serve

/-- Reconcilers without a tracer. -/
def plainOperator : Operator := ⟨plainReconciler, ⟨fun n => toString n⟩⟩

/-- The operator after some turns. -/
def played (turns : List Turn) : OperatorState :=
  Cluster.play admits plainOperator.behaviour turns ⟨Store.empty, fun _ => []⟩

variable {cond : Worker → OperatorState → (o : Op) → Ans o → Prop} {turns : List Turn}

/-- The turns meet a condition. -/
abbrev Meets (cond : Worker → OperatorState → (o : Op) → Ans o → Prop) (turns : List Turn) : Prop :=
  Cluster.Plays admits plainOperator.behaviour cond turns ⟨Store.empty, fun _ => []⟩

/-- Turns that meet a condition are a run that does. -/
theorem plays_runs (h : Meets cond turns) : (plainOperator.runs cond).Reachable ⟨played turns, fun _ => none⟩ :=
  Cluster.plays_reachable admits_admitted rfl h

/-- Others may do what they do in a scene. -/
instance (s : Namespace) (o : Op) : Decidable (plainOperator.behaviour.others s o) :=
  inferInstanceAs (Decidable (others s o))

/-! ## Some objects -/

/-- The three providers everything refers to. -/
def providersCreated : List Turn :=
  ["iut-provider", "log-area-provider", "execution-space-provider"].map fun n =>
    other (.create .provider (availableProvider n))

/-- A request for an environment. -/
def plainRequest (n : String) : EnvironmentRequest :=
  { metadata := { name := n }
    spec :=
      { id := "request-id", name := "suite", identifier := "testrun-id"
        image := some { image := "environment-provider" }
        providers :=
          { iut := "iut-provider", executionSpace := { id := "execution-space-provider" },
            logArea := "log-area-provider" }
        config :=
          { encryptionKey := { value := "key" }
            etosMessageBus := { password := some { value := "password" } }
            eiffelMessageBus := { password := some { value := "password" } } } }
    status := {} }

/-- An Iut that was provided for a request. -/
def plainIut (n request : String) : Iut :=
  { metadata := { name := n }
    spec := { environmentRequest := request, providerID := "iut-provider" }
    status := {} }

/-- A LogArea and an ExecutionSpace. -/
def plainLogArea (n request : String) : LogArea :=
  { metadata := { name := n }
    spec := { environmentRequest := request, providerID := "log-area-provider" }
    status := {} }
def plainExecutionSpace (n request : String) : ExecutionSpace :=
  { metadata := { name := n }
    spec := { environmentRequest := request, providerID := "execution-space-provider" }
    status := {} }

/-- An Environment that names them. -/
def plainEnvironment (n : String) : Environment :=
  { metadata := { name := n }
    spec := { providers := some { iut := "iut", logArea := "log-area", executionSpace := "execution-space" } }
    status := {} }

/-- A request, and the three resources that were provided for it. -/
def provided : List Turn :=
  providersCreated ++ [other (.create .environmentRequest (plainRequest "request")),
    other (.create (.resource .iut) (plainIut "iut" "request")),
    other (.create (.resource .logArea) (plainLogArea "log-area" "request")),
    other (.create (.resource .executionSpace) (plainExecutionSpace "execution-space" "request"))]

/-- The job controller reports that the job has finished, on top of a version of it. -/
def jobFinished (n : String) (version : Nat) (type : JobConditionType) : Turn :=
  other (.updateStatus .job
    { metadata := { name := n, resourceVersion := version }
      spec := {}
      status := { conditions := [⟨type, .true⟩] } })

end Etos
