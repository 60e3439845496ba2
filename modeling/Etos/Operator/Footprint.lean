import Etos.Api.Role
import Etos.Operator.Runs

/-!
# `Operator.Footprint` — what the operator touches, and what it never does

All reconcilers write to one namespace, and each is given what it needs by the role in `config/rbac/role.yaml`. Over
every run of the operator:

- the status of an object has one writer, the worker of this object (**`status_single_writer`**);
- every request to the API server is granted by the role, but for reading config maps (**`requests_granted`**).
-/

namespace Etos

open Kube

variable {op : Operator} {cond : Worker → OperatorState → (o : Op) → Ans o → Prop}

/-! ## One writer for each status -/

/-- The worker of an object. -/
def Kind.worker : Kind → String → Option Worker
  | .testRun, n => some (.testRun n)
  | .environmentRequest, n => some (.environmentRequest n)
  | .environment, n => some (.environment n)
  | .resource r, n => some (.resource r n)
  | .provider, _ | .cluster, _ | .job, _ | .pod, _ => none

/-- A status is only written by the worker of the object. -/
def WritesOwnStatus (i : Worker) : Op → Prop
  | .updateStatus k o => k.worker o.name = some i
  | _ => True

/-- An object is read under its name. -/
theorem Got.name {w : OperatorState} (hk : w.Knowing) {i : Worker} {k : Kind} {n : String} {x : Obj k}
    (h : Got (w.log i) k n x) : x.name = n := (hk i _ h).named k n x rfl

theorem Worker.Permits.ownStatus {i : Worker} {w : OperatorState} (hk : w.Knowing) {o : Op}
    (h : i.Permits (w.log i) o) : WritesOwnStatus i o := by
  cases o with
  | get | list | create | update | delete | ext => trivial
  | updateStatus k o =>
      -- a worker writes no status of another kind, and keeps the name of what it has read
      cases i with
      | testRun n =>
          cases k with
          | testRun => exact congrArg (fun m => some (Worker.testRun m)) h
          | environmentRequest | environment | resource | provider | cluster | job | pod => exact h.elim
      | environmentRequest n =>
          cases k with
          | environmentRequest =>
              obtain ⟨x, hx, hm, _⟩ := h
              have hname : o.name = n := (congrArg ObjectMeta.name hm).trans (hx.got.name hk)
              exact congrArg (fun m => some (Worker.environmentRequest m)) hname
          | testRun | environment | resource | provider | cluster | job | pod => exact h.elim
      | environment n =>
          cases k with
          | environment =>
              obtain ⟨_, x', _, _, _, hx', hm, _⟩ := h.written
              have hname : o.name = n := (congrArg ObjectMeta.name hm).trans hx'
              exact congrArg (fun m => some (Worker.environment m)) hname
          | testRun | environmentRequest | resource | provider | cluster | job | pod => exact h.elim
      | resource r n =>
          cases k with
          | resource r' =>
              obtain ⟨rfl, h⟩ := h
              have hname : o.name = n := by
                cases h with
                | releases hg hm => exact (congrArg ObjectMeta.name hm).trans (hg.name hk)
                | managed _ hn hm => exact (congrArg ObjectMeta.name hm).trans hn
              exact congrArg (fun m => some (Worker.resource r' m)) hname
          | testRun | environmentRequest | environment | provider | cluster | job | pod => exact h.elim

/-- An object that has been put in its place has changed, or is the new one. -/
theorem find_put_cases {s : Namespace} {k : Kind} {n : String} {o x y : Obj k}
    (hx : s.find k n = some x) (hy : (s.put k o).find k n = some y) : y = x ∨ o.name = n ∧ y.status = o.status := by
  by_cases hn : n = o.name
  · subst hn
    rw [Store.put_find_self] at hy
    cases hy
    exact .inr ⟨rfl, rfl⟩
  · rw [Store.put_find_ne hn, hx] at hy
    cases hy
    exact .inl rfl

/-- A write that leaves an object with another status is an update of this status. -/
theorem updates_status {adm : Admission Kind Spec Status} {s s' : Namespace} {k : Kind} {o : Op}
    (h : Store.Touches adm s k o s') {n : String} {x y : Obj k} (hx : s.find k n = some x)
    (hy : s'.find k n = some y) :
    y.status = x.status ∨ ∃ x' : Obj k, o = .updateStatus k x' ∧ x'.name = n ∧ x'.status = y.status := by
  cases h with
  | create _ _ hf =>
      rcases find_put_cases hx hy with rfl | ⟨rfl, _⟩
      · exact .inl rfl
      · have hnone : some x = none := hx.symm.trans hf
        cases hnone
  | @update _ o' cur _ hf =>
      rcases find_put_cases hx hy with rfl | ⟨rfl, hstatus⟩
      · exact .inl rfl
      · have hcur : some cur = some x := hf.symm.trans hx
        cases hcur
        exact .inl hstatus
  | finish =>
      rw [Store.find_of_erase hy] at hx
      cases hx
      exact .inl rfl
  | @status x' cur hf =>
      rcases find_put_cases hx hy with rfl | ⟨hname, hstatus⟩
      · exact .inl rfl
      · exact .inr ⟨x', rfl, (s.named hf).symm.trans hname, hstatus.symm⟩
  | remove =>
      rw [Store.find_of_erase hy] at hx
      cases hx
      exact .inl rfl
  | @mark m _ cur hf =>
      rcases find_put_cases hx hy with rfl | ⟨rfl, hstatus⟩
      · exact .inl rfl
      · have hcur : some cur = some x := by
          rw [← hx, ← hf]
          exact congrArg _ (s.named hf).symm
        cases hcur
        exact .inl hstatus

/-- The calls of every round, as far as statuses are concerned. -/
theorem Operator.own_statuses {c} (h : (op.runs cond).Reachable c) :
    Cluster.EveryEvent (fun i e => WritesOwnStatus i e.op) c.state :=
  Operator.events (J := fun _ => True) (fun _ _ => trivial) (fun _ _ _ _ hk _ hperm _ => hperm.ownStatus hk) h

/-- **The status of an object has one writer.** Whatever the workers and everybody else do: where a step leaves a
    TestRun, an EnvironmentRequest, an Environment or a resource with another status, it is a status update by the
    worker of this very object. -/
theorem status_single_writer {c c'} (h : op.system.Reachable c) (hstep : op.system.Step c c') {k : Kind} {n : String}
    {i : Worker} (hi : k.worker n = some i) {x y : Obj k} (hx : c.state.store.find k n = some x)
    (hy : c'.state.store.find k n = some y) (hne : y.status ≠ x.status) :
    ∃ (o : Obj k) (a : Ans (.updateStatus k o)),
      c'.state.rounds i = ⟨⟨.updateStatus k o, a⟩, c.state.store⟩ :: c.state.rounds i ∧
        o.name = n ∧ o.status = y.status := by
  have h' : op.system.Reachable c' := by
    obtain ⟨s, hs, hsteps⟩ := h
    exact ⟨s, hs, hsteps.tail hstep⟩
  have hown := Operator.own_statuses (System.Reachable.restrict_true h')
  cases hstep with
  | start _ hstart =>
      obtain ⟨_, rfl⟩ := hstart
      rw [show (Cluster.fresh _ _).store.find k n = _ from hx] at hy
      cases hy
      exact absurd rfl hne
  | stop =>
      rw [show _ = some x from hx] at hy
      cases hy
      exact absurd rfl hne
  | @call w w' pool j o _ a _ hsem =>
      obtain ⟨s, hs, rfl⟩ := hsem
      rcases hs.touches k with ⟨hfind, _⟩ | ht
      · rw [show (w.record j o a s).store.find k = _ from hfind, hx] at hy
        cases hy
        exact absurd rfl hne
      · rcases updates_status ht hx hy with heq | ⟨x', rfl, hname, hstatus⟩
        · exact absurd heq hne
        · have hmem : (⟨⟨.updateStatus k x', a⟩, w.store⟩ : Event) ∈
              (w.record j (.updateStatus k x') a s).rounds j := by
            simp [Cluster.record]
          have hj : k.worker x'.name = some j := hown j _ hmem
          rw [hname, hi] at hj
          cases hj
          exact ⟨x', a, by simp [Cluster.record], hname, hstatus⟩
  | @env w w' pool henv =>
      obtain ⟨o, a, s, ho, hw, rfl⟩ := henv
      rcases hw.touches k with ⟨hfind, _⟩ | ht
      · rw [show (_ : OperatorState).store.find k = _ from hfind, hx] at hy
        cases hy
        exact absurd rfl hne
      · rcases updates_status ht hx hy with heq | ⟨x', rfl, _⟩
        · exact absurd heq hne
        · -- everybody else writes no status that a worker writes
          have hk : k ∈ [Kind.provider, .cluster, .job, .pod] := ho
          simp only [List.mem_cons, List.not_mem_nil, or_false] at hk
          rcases hk with rfl | rfl | rfl | rfl <;> cases hi

/-! ### A new Environment -/

/-- A server that serves. -/
def plainScript : Script := ⟨plainExt, 0, fun _ => .serve⟩

/-- The first calls of a worker's program, and what is left of it. -/
def advance (i : Worker) : Nat → Prog Op Ans Unit → OperatorState → Prog Op Ans Unit × OperatorState
  | n + 1, .call o k, w =>
      advance i n (k (Cluster.respond admits plainScript w.store o).1) (Cluster.step admits plainScript i w o)
  | _, p, w => (p, w)

variable {i : Worker} {pool : Worker → Option (Prog Op Ans Unit)} {w : OperatorState}

theorem start_step (i : Worker) (w : OperatorState) : plainOperator.system.Step ⟨w, fun _ => none⟩
    ⟨w.fresh i, Function.update (fun _ => none) i (some (plainOperator.reconcile i))⟩ := .start rfl ⟨rfl, rfl⟩

/-- A call is a step of the operator. -/
theorem call_step {o : Op} {k : Ans o → Prog Op Ans Unit} (hp : pool i = some (.call o k)) :
    plainOperator.system.Step ⟨w, pool⟩ ⟨Cluster.step admits plainScript i w o,
      Function.update pool i (some (k (Cluster.respond admits plainScript w.store o).1))⟩ := by
  have hsem : Store.Sem admitted w.store o (Cluster.respond admits plainScript w.store o).1
      (Cluster.respond admits plainScript w.store o).2 := Cluster.respond_sem admits_admitted o
  exact .call hp ⟨_, hsem, rfl⟩

/-- So are several. -/
theorem advance_steps (n : Nat) {p : Prog Op Ans Unit} (hp : pool i = some p) :
    ∃ pool', pool' i = some (advance i n p w).1 ∧
      plainOperator.system.Steps ⟨w, pool⟩ ⟨(advance i n p w).2, pool'⟩ := by
  induction n generalizing p w pool with
  | zero => exact ⟨pool, hp, .refl⟩
  | succ n ih =>
      cases p with
      | ret a => exact ⟨pool, hp, .refl⟩
      | panic _ => exact ⟨pool, hp, .refl⟩
      | call o k =>
          obtain ⟨pool', hpool', hrun⟩ := ih (Function.update_self ..)
          exact ⟨pool', hpool', System.Steps.trans (.single (call_step hp)) hrun⟩

/-- The Environment is there, and its worker has read it. -/
def environmentRead : Prog Op Ans Unit × OperatorState :=
  advance (.environment "environment") 2 (plainOperator.reconcile (.environment "environment"))
    ((played [other (.create .environment (plainEnvironment "environment"))]).fresh (.environment "environment"))

/-- The next call writes its status. -/
def environmentWritten : Prog Op Ans Unit × OperatorState :=
  advance (.environment "environment") 1 environmentRead.1 environmentRead.2

theorem environmentRead_reachable : ∃ pool, pool (.environment "environment") = some environmentRead.1 ∧
    plainOperator.system.Reachable ⟨environmentRead.2, pool⟩ := by
  obtain ⟨s, hs, hrun⟩ := (plays_runs (by decide : Meets (fun _ _ _ _ => True)
    [other (.create .environment (plainEnvironment "environment"))])).of_restrict
  have hpool : Function.update (fun _ => none) (Worker.environment "environment")
      (some (plainOperator.reconcile (.environment "environment"))) (.environment "environment") =
        some (plainOperator.reconcile (.environment "environment")) := Function.update_self ..
  obtain ⟨pool, hpool, hsteps⟩ := advance_steps 2 hpool
  exact ⟨pool, hpool, s, hs, (hrun.tail (start_step (.environment "environment") _)).trans hsteps⟩

theorem environmentRead_step {pool : Worker → Option (Prog Op Ans Unit)}
    (hpool : pool (.environment "environment") = some environmentRead.1) :
    ∃ pool', plainOperator.system.Step ⟨environmentRead.2, pool⟩ ⟨environmentWritten.2, pool'⟩ :=
  ⟨_, call_step hpool⟩

/-- A new Environment is marked by its worker. -/
theorem status_single_writer_environment :
    ∃ (c c' : System.Config Op Ans OperatorState Worker) (x y : Environment), plainOperator.system.Reachable c ∧
      plainOperator.system.Step c c' ∧ c.state.store.find .environment "environment" = some x ∧
      c'.state.store.find .environment "environment" = some y ∧ y.status ≠ x.status ∧
      ∃ (o : Environment) (a : Ans (.updateStatus .environment o)),
        c'.state.rounds (.environment "environment") = ⟨⟨.updateStatus .environment o, a⟩, c.state.store⟩ ::
          c.state.rounds (.environment "environment") ∧ o.name = "environment" ∧ o.status = y.status := by
  obtain ⟨pool, hpool, hreachable⟩ := environmentRead_reachable
  obtain ⟨pool', hstep⟩ := environmentRead_step hpool
  have hstatus : ∃ x y : Environment, environmentRead.2.store.find .environment "environment" = some x ∧
      environmentWritten.2.store.find .environment "environment" = some y ∧ y.status ≠ x.status :=
    ⟨_, _, rfl, rfl, by decide⟩
  obtain ⟨x, y, hx, hy, hne⟩ := hstatus
  exact ⟨_, _, x, y, hreachable, hstep, hx, hy, hne, status_single_writer hreachable hstep rfl hx hy hne⟩

/-! ## Access -/

/-- The requests behind a call of a worker. -/
abbrev requests : Op → List Rbac.Request := Rbac.requests Kind.groupResource Ext.requests

/-- The kinds with a worker, and those that workers create. -/
def Kind.managed : Kind → Bool
  | .testRun | .environmentRequest | .environment | .resource _ => true
  | .provider | .cluster | .job | .pod => false

def Kind.made : Kind → Bool
  | .environmentRequest | .job => true
  | .testRun | .environment | .resource _ | .provider | .cluster | .pod => false

/-- The writes of the reconcilers, by kind. Providers, clusters and pods are only read. -/
def WritesManaged : Op → Prop
  | .create k _ => k.made = true
  | .update k _ => k.managed = true
  | .updateStatus k _ => k.managed = true
  | .delete k _ => (k.managed || k.made) = true
  | _ => True

theorem Worker.Permits.managed {i : Worker} {l : Log} {o : Op} (h : i.Permits l o) : WritesManaged o := by
  cases o with
  | get | list | ext => trivial
  | create k o =>
      cases k with
      | job | environmentRequest => rfl
      | testRun | environment | resource | provider | cluster | pod => cases i <;> exact h.elim
  | update k o =>
      cases k with
      | testRun | environmentRequest | environment | resource => rfl
      | provider | cluster | job | pod => cases i <;> exact h.elim
  | updateStatus k o =>
      cases k with
      | testRun | environmentRequest | environment | resource => rfl
      | provider | cluster | job | pod => cases i <;> exact h.elim
  | delete k n =>
      cases i with
      | testRun name =>
          cases k with
          | testRun | environmentRequest | job => rfl
          | environment | resource | provider | cluster | pod =>
              have hk : _ ∈ [Kind.job, .environmentRequest] := h
              simp at hk
      | environmentRequest name =>
          cases h with
          | unused => rfl
          | labelled _ _ _ hk =>
              simp only [requestKinds, List.mem_cons, List.not_mem_nil, or_false] at hk
              rcases hk with rfl | rfl | rfl | rfl <;> rfl
      | environment name =>
          cases k with
          | environment | job => rfl
          | testRun | environmentRequest | resource | provider | cluster | pod => exact h.elim
      | resource r name => exact h.elim

theorem reads_granted (k : Kind) : RoleGrants (Rbac.reads k.groupResource) := by
  cases k with
  | resource r => cases r <;> decide
  | testRun | environmentRequest | environment | provider | cluster | job | pod => decide

theorem source_granted (source : KeySource) : RoleGrants (Rbac.reads source.groupResource) := by
  cases source with
  | secret | configMap => decide

theorem ext_granted (x : Ext) : RoleGrants x.requests := by
  cases x with
  | readKey source selector => exact source_granted source
  | getPublisher parameters =>
      intro q hq
      obtain ⟨source, -, hq⟩ := List.mem_flatMap.mp hq
      exact source_granted source q hq
  | clockNow | timeNow | newUUID | startSpan | publish | rangeKeys | attempt =>
      intro q hq
      cases hq

/-- What the reconcilers do, the role allows. -/
theorem granted_of_managed {o : Op} (h : WritesManaged o) : RoleGrants (requests o) := by
  cases o with
  | get k n => exact reads_granted k
  | list k sel => exact reads_granted k
  | ext x => exact ext_granted x
  | create k o =>
      cases k with
      | job | environmentRequest => exact of_decide_eq_true rfl
      | testRun | environment | resource | provider | cluster | pod => cases h
  | update k o =>
      cases k with
      | resource r => cases r <;> exact of_decide_eq_true rfl
      | testRun | environmentRequest | environment => exact of_decide_eq_true rfl
      | provider | cluster | job | pod => cases h
  | updateStatus k o =>
      cases k with
      | resource r => cases r <;> exact of_decide_eq_true rfl
      | testRun | environmentRequest | environment => exact of_decide_eq_true rfl
      | provider | cluster | job | pod => cases h
  | delete k n =>
      cases k with
      | resource r => cases r <;> exact of_decide_eq_true rfl
      | testRun | environmentRequest | environment | job => exact of_decide_eq_true rfl
      | provider | cluster | pod => cases h

/-- **Every request is granted but one.** In every run, whatever the caches, the webhooks and everybody else do, the
    role of the operator grants every request to the API server that a reconciler makes, except where a variable or a
    password refers to a config map: these may not be read. -/
theorem requests_granted {c} (h : op.system.Reachable c) :
    Cluster.EveryEvent (fun _ e => RoleGrants (requests e.op)) c.state :=
  Operator.events (J := fun _ => True) (fun _ _ => trivial)
    (fun _ _ _ _ _ _ hperm _ => granted_of_managed hperm.managed) (System.Reachable.restrict_true h)

/-- A round of an Iut's worker, which writes its status. -/
theorem requests_granted_iut : ∃ c, plainOperator.system.Reachable c ∧
    ((c.state.rounds (.resource .iut "iut")).any fun e => !(requests e.op).isEmpty) = true ∧
      Cluster.EveryEvent (fun _ e => RoleGrants (requests e.op)) c.state := by
  have hrun : plainOperator.system.Reachable
      ⟨played (provided ++ [round (.resource .iut "iut")]), fun _ => none⟩ :=
    (plays_runs (by decide : Meets (fun _ _ _ _ => True) _)).of_restrict
  exact ⟨_, hrun, by decide, requests_granted hrun⟩

end Etos
