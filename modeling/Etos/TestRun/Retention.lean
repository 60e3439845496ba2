import Etos.Operator.Runs

/-!
# `TestRun.Retention` — when a TestRun is deleted

The operator deletes a TestRun in one place only, the branch of `Reconcile` for TestRuns with a completion time.
Whatever the other reconcilers, the caches and the clocks do, a TestRun that is deleted by the operator is deleted by
its own worker, in a round that has read it as completed and has read a clock past its retention
(**`testrun_deleted_after_retention`**). A TestRun without a retention is never deleted.
-/

namespace Etos

open Kube TestRunReconciler

/-- TestRuns are deleted by their own worker, when they have expired. -/
def DeletesExpired : Worker → Log → Op → Prop
  | .testRun name, l, .delete .testRun n => n = name ∧ ∃ x t d now, Expired name l x t d now
  | _, _, .delete .testRun _ => False
  | _, _, _ => True

/-- No call of a worker deletes a TestRun in another way. -/
theorem Worker.Permits.deletesExpired {i : Worker} {l : Log} {o : Op} (h : i.Permits l o) : DeletesExpired i l o := by
  cases o with
  | get | list | create | update | updateStatus | ext => cases i <;> trivial
  | delete k n =>
      cases k with
      | environmentRequest | environment | resource | provider | cluster | job | pod => cases i <;> trivial
      | testRun =>
          cases i with
          | testRun name => exact h
          | environmentRequest name =>
              cases h with
              | labelled _ _ _ hk => exact absurd hk (by decide)
          | environment name => exact h.elim
          | resource r name => exact h.elim

/-! ## Every run of the operator -/

variable {op : Operator} {cond : Worker → OperatorState → (o : Op) → Ans o → Prop}

/-- **A TestRun is deleted after its retention.** In every run, where a worker deletes a TestRun, it is the TestRun's
    own worker. In this very round it has read a version of the TestRun with a completion time, whose retention (that
    of a successful or of a failed TestRun, as its Active condition says) was over at a clock reading of the round. -/
theorem testrun_deleted_after_retention {c} (h : op.system.Reachable c) {i : Worker} {later earlier : List Event}
    {n : String} {a : Ans (.delete .testRun n)} {before : Namespace}
    (hround : c.state.rounds i = later ++ ⟨⟨.delete .testRun n, a⟩, before⟩ :: earlier) :
    i = .testRun n ∧ ∃ x completionTime duration now, c.state.store.Knows .testRun x ∧
      Expired n (earlier.map Event.toSaid) x completionTime duration now := by
  have h' := System.Reachable.restrict_true h
  have hcalls : Cluster.EveryCall (fun i earlier e => DeletesExpired i (earlier.map Event.toSaid) e.op) c.state :=
    Operator.everyCall op.reconcile_obeys (J := fun _ => True) (fun _ _ => trivial)
      (fun _ _ _ _ _ _ hperm _ _ => hperm.deletesExpired) h'
  have hknowing : c.state.Knowing :=
    (Operator.invariant (I := fun _ => True) trivial (fun _ _ _ _ => trivial) (fun _ _ _ _ _ _ _ _ _ _ => trivial)
      (fun _ _ _ _ _ _ _ _ => trivial) h').1
  have hdelete := hcalls i later _ earlier hround
  cases i with
  | testRun name =>
      obtain ⟨rfl, x, t, d, now, hexpired⟩ := hdelete
      obtain ⟨e, he, hanswered⟩ := hexpired.seen.heard
      have hlog : e ∈ c.state.log (.testRun n) := by
        unfold Cluster.log
        rw [hround, List.map_append]
        exact List.mem_append_right _ (List.mem_cons_of_mem _ he)
      exact ⟨rfl, x, t, d, now, (hknowing _ e hlog).known .testRun x hanswered, hexpired⟩
  | environmentRequest | environment | resource => exact hdelete.elim

/-! ## A TestRun that times out and expires -/

/-- A TestRun with a deadline, which is kept for an hour if it fails. -/
def keptTestRun : TestRun :=
  { someTestRun 100 with spec := { (someTestRun 100).spec with retention := { failure := some 3600000000000 } } }

/-- A round of its worker, at a time in seconds. -/
def roundAt (seconds : Int) : Turn :=
  .round (.testRun "testrun") ⟨fun
    | .clockNow => seconds * 1000000000
    | .timeNow => seconds * 1000000000
    | x => plainExt x, 0, fun _ => .serve⟩

/-- The deadline passes, and much later the retention. -/
def keptTurns : List Turn :=
  ["iut", "log-area", "execution-space"].map (fun n => other (.create .provider (availableProvider n))) ++
    [other (.create .cluster (someCluster "cluster")), other (.create .testRun keptTestRun), roundAt 200, roundAt 4000]

/-- The TestRun is deleted in the second round. -/
theorem keptTurns_deleted : ∃ a before earlier, (played keptTurns).rounds (.testRun "testrun") =
    ⟨⟨.delete .testRun "testrun", a⟩, before⟩ :: earlier := ⟨_, _, _, rfl⟩

/-- An hour after it has timed out. -/
theorem testrun_deleted_after_retention_hour :
    ∃ c a before earlier, plainOperator.system.Reachable c ∧
      c.state.rounds (.testRun "testrun") = ⟨⟨.delete .testRun "testrun", a⟩, before⟩ :: earlier ∧
      ∃ x completionTime duration now, c.state.store.Knows .testRun x ∧
        Expired "testrun" (earlier.map Event.toSaid) x completionTime duration now := by
  have hrun : plainOperator.system.Reachable ⟨played keptTurns, fun _ => none⟩ :=
    (plays_runs (by decide : Meets (fun _ _ _ _ => True) keptTurns)).of_restrict
  obtain ⟨a, before, earlier, hround⟩ := keptTurns_deleted
  refine ⟨⟨played keptTurns, fun _ => none⟩, a, before, earlier, hrun, hround, ?_⟩
  exact (testrun_deleted_after_retention hrun (hround.trans (List.nil_append _).symm)).2

end Etos
