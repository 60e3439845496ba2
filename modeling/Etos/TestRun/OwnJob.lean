import Etos.Operator.Jobs

/-!
# `TestRun.OwnJob` — a TestRun and the suite runner job it has created

The suite runner job has the name of its TestRun. If the write of the Starting marker fails and the cache of jobs lags,
the next `Reconcile` tries to create the job again, is told that it exists, and takes that for a failure: the suite
runner is marked as failed and a shutdown event is published while the job runs (`failed_by_own_job`). It does not
happen as long as the empty answer to a list of jobs that an unmarked TestRun is decided on does not hide a job
(**`never_failed_by_own_job`**).
-/

namespace Etos

open Kube

/-- The call marks the suite runner as failed, or announces the end of the TestRun. -/
def failsSuiteRunner : Op → Bool
  | .updateStatus .testRun o => isStatusReason o.status.conditions .suiteRunner .failed
  | .ext (.publish _ _) => true
  | _ => false

/-- The call creates a job under a name that is taken: by a job that the worker controls and that has not finished. -/
def meetsOwnJob (i : Worker) (e : Event) : Bool :=
  match e.op with
  | .create .job job =>
      match e.before.find .job job.name with
      | some running => decide (i.Owns running) && (isJobFinished running).isNone
      | none => false
  | _ => false

/-- In the calls of a round, newest first, the suite runner is failed after such a create. -/
def failedByOwnJob (i : Worker) : List Event → Bool
  | [] => false
  | e :: earlier => failedByOwnJob i earlier || failsSuiteRunner e.op && earlier.any (meetsOwnJob i)

theorem failedByOwnJob_eq_false {i : Worker} {events : List Event} (h : ∀ e ∈ events, meetsOwnJob i e = false) :
    failedByOwnJob i events = false := by
  induction events with
  | nil => rfl
  | cons e earlier ih =>
      have hearlier : ∀ e ∈ earlier, meetsOwnJob i e = false := fun e' he' => h e' (List.mem_cons_of_mem _ he')
      have hany : earlier.any (meetsOwnJob i) = false := by
        rw [List.any_eq_false]
        intro e' he'
        rw [hearlier e' he']
        exact Bool.false_ne_true
      rw [failedByOwnJob, ih hearlier, hany, Bool.and_false, Bool.or_false]

/-- **A TestRun does not fail because of its own job** in the runs in which no list of its jobs, made by a `Reconcile`
    that was not told that the suite runner is starting, comes back empty although the TestRun controls a job. -/
theorem never_failed_by_own_job {op : Operator} (n : String) {c}
    (h : (op.runs fun i w o a => i = .testRun n → ¬ Misses Present (.testRun n) w o a).Reachable c) :
    failedByOwnJob (.testRun n) (c.state.rounds (.testRun n)) = false := by
  refine failedByOwnJob_eq_false fun e he => ?_
  have hcreated := (guarded presence_present h).created e he
  unfold meetsOwnJob
  split
  · rename_i job hjob
    split
    · rename_i running hfind
      have hnot : ¬ (Worker.testRun n).Owns running :=
        fun hown => hcreated ⟨job, hjob⟩ ⟨job.name, running, hfind, hown⟩
      rw [decide_eq_false hnot, Bool.false_and]
    · rfl
  · rfl

/-- A TestRun whose suite runner job was created, with the marker still to be written. -/
def testRunStarted : List Turn :=
  other (.create .cluster (someCluster "cluster")) ::
    ["iut", "log-area", "execution-space"].map (fun n => other (.create .provider (availableProvider n))) ++
    [other (.create .testRun (someTestRun 100)), round (.testRun "testrun"), round (.testRun "testrun"),
      other (.create .environment someEnvironment), round (.testRun "testrun"),
      round (.testRun "testrun") statusConflict]

/-- The marker is lost, but the next `Reconcile` finds the job running. -/
theorem never_failed_by_own_job_found :
    Present (.testRun "testrun") (played (testRunStarted ++ [round (.testRun "testrun")])).store ∧
      failedByOwnJob (.testRun "testrun")
        ((played (testRunStarted ++ [round (.testRun "testrun")])).rounds (.testRun "testrun")) = false := by
  have hrun : (plainOperator.runs fun i w o a => i = .testRun "testrun" →
      ¬ Misses Present (.testRun "testrun") w o a).Reachable
      ⟨played (testRunStarted ++ [round (.testRun "testrun")]), fun _ => none⟩ := by
    have hmeets : Meets (fun i w o a => listsJobs (.testRun "testrun") i w o a = true)
        (testRunStarted ++ [round (.testRun "testrun")]) := by decide
    exact (plays_runs hmeets).weaken fun i w o a hl hi => not_misses_of_lists hl hi
  exact ⟨⟨"testrun", _, rfl, by decide⟩, never_failed_by_own_job "testrun" hrun⟩

/-- **It can happen.** The write of the marker fails, and the list of jobs that the next `Reconcile` gets does not show
    the job yet. -/
theorem failed_by_own_job :
    ∃ c, plainOperator.system.Reachable c ∧
      failedByOwnJob (.testRun "testrun") (c.state.rounds (.testRun "testrun")) = true := by
  refine ⟨⟨played (testRunStarted ++ [round (.testRun "testrun") jobsLag]), fun _ => none⟩, ?_, by decide⟩
  exact (plays_runs (by decide : Meets (fun _ _ _ _ => True) _)).of_restrict

end Etos
