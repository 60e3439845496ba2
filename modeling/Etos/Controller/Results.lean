import Etos.Controller.Jobs
import Etos.Prog.Paths

/-!
# `Controller.Results` — what `job.Result` makes of the containers

`Result` folds the termination logs of the requested containers, job by job, into one conclusion and one verdict. What
the fold computes, for any jobs, pods and termination messages:

- it concludes Successful exactly if every requested container reported a result and none of them Failed
  (**`concludes_successful_iff`**). Conclusions other than Failed are not told apart: an aborted container counts as a
  successful one (`aborted_concludes_successful`);
- its verdict is the expected one (`aggregated`) unless the first verdict that is not None is empty
  (**`verdict_aggregated_iff`**). An empty verdict replaces None, and hides what comes after it (`verdict_hidden`);
- the conclusion, and whether the verdict is Failed, do not depend on the order of the jobs and containers
  (**`failure_order_free`**).
-/

namespace Etos

open Kube

variable (answer : (o : Op) → Ans o)

/-- What the server answers about the pods of a job. -/
def podsOf (job : Job) : Except Err (List Pod) := answer (.list .pod (.label "job-name" job.name))

/-- The pods of every job can be listed, and there are some. -/
def HasPods (jobs : List Job) : Prop := ∀ job ∈ jobs, ∃ pod pods, podsOf answer job = .ok (pod :: pods)

/-- The termination logs of the requested containers, in the order in which they are read. -/
def containerResults (names : List String) (jobs : List Job) : List Result :=
  jobs.flatMap fun job =>
    match podsOf answer job with
    | .ok (pod :: pods) => names.map fun n => (terminationLog (getLatestPodByCreationTimestamp pod pods) n).1
    | _ => []

/-- The result that a container has reported: it has terminated, and its message can be parsed. -/
def reported (pod : Pod) (containerName : String) : Option Result :=
  let status := match pod.status.containerStatuses.find? (·.name = containerName) with
    | some status => some status
    | none => pod.status.initContainerStatuses.find? (·.name = containerName)
  status.bind fun status => status.terminated.bind fun t => t.result

/-- The two parts of a result that callers look at. -/
def Result.outcome (r : Result) : Conclusion × Verdict := (r.conclusion, r.verdict)

/-- Fold one container into the outcome. -/
def addOutcome (out : Conclusion × Verdict) (r : Result) : Conclusion × Verdict :=
  (if r.conclusion = conclusionFailed ∧ out.1 ≠ conclusionFailed then conclusionFailed else out.1,
    if r.verdict = verdictFailed ∧ out.2 ≠ verdictFailed then r.verdict
    else if out.2 = verdictNone then r.verdict
    else out.2)

/-! ## The fold -/

section

variable {answer} {manager : String} {names : List String} {jobs : List Job} {rs : List Result}
  {out : Conclusion × Verdict} {r : Result}

/-- A container that is not found, has not terminated or cannot be parsed counts as failed. -/
theorem terminationLog_failed_iff (pod : Pod) (n : String) :
    (terminationLog pod n).1.conclusion ≠ conclusionFailed ↔
      ∃ res, reported pod n = some res ∧ res.conclusion ≠ conclusionFailed := by
  have hstatus : ∀ status : ContainerStatus, (terminatedResult status).1.conclusion ≠ conclusionFailed ↔
      ∃ res, (status.terminated.bind fun t => t.result) = some res ∧ res.conclusion ≠ conclusionFailed := by
    intro status
    unfold terminatedResult
    cases status.terminated with
    | none => simp
    | some t => cases ht : t.result <;> simp [ht]
  unfold terminationLog reported
  cases pod.status.containerStatuses.find? (·.name = n) with
  | some status => exact hstatus status
  | none =>
      cases pod.status.initContainerStatuses.find? (·.name = n) with
      | some status => exact hstatus status
      | none => simp

theorem foldl_addContainer_outcome (pod : Pod) (names : List String) (result : Result) :
    (names.foldl (addContainer manager pod) result).outcome =
      (names.map fun n => (terminationLog pod n).1).foldl addOutcome result.outcome := by
  induction names generalizing result with
  | nil => rfl
  | cons n names ih => exact ih _

/-- The loop goes by what is answered about the first job. -/
theorem resultLoop_cons (job : Job) (result : Result) :
    (resultLoop manager names (job :: jobs) result).eval answer =
      match podsOf answer job with
      | .error _ => some (podFailure result job "could not list pods for job ")
      | .ok [] => some (podFailure result job "no pods found for job ")
      | .ok (pod :: pods) => (resultLoop manager names jobs
          (names.foldl (addContainer manager (getLatestPodByCreationTimestamp pod pods)) result)).eval answer := by
  show Prog.eval answer (.call (.list .pod (.label "job-name" job.name)) fun a => _) = _
  unfold podsOf
  rw [Prog.eval]
  generalize answer (.list .pod (.label "job-name" job.name)) = a
  rcases a with e | ⟨⟩ | ⟨pod, pods⟩ <;> rfl

/-- With pods for every job the loop folds all termination logs. -/
theorem resultLoop_eval (h : HasPods answer jobs) (result : Result) :
    ∃ r, (resultLoop manager names jobs result).eval answer = some r ∧
      r.outcome = (containerResults answer names jobs).foldl addOutcome result.outcome := by
  induction jobs generalizing result with
  | nil => exact ⟨result, rfl, rfl⟩
  | cons job jobs ih =>
      obtain ⟨pod, pods, hpods⟩ := h job List.mem_cons_self
      obtain ⟨r, hr, hout⟩ := ih (fun job' hjob => h job' (List.mem_cons_of_mem _ hjob))
        (names.foldl (addContainer manager (getLatestPodByCreationTimestamp pod pods)) result)
      refine ⟨r, ?_, ?_⟩
      · rw [resultLoop_cons, hpods]
        exact hr
      · have hsplit : containerResults answer names (job :: jobs) =
            (names.map fun n => (terminationLog (getLatestPodByCreationTimestamp pod pods) n).1) ++
              containerResults answer names jobs := by
          unfold containerResults
          rw [List.flatMap_cons, hpods]
        rw [hout, foldl_addContainer_outcome, hsplit, List.foldl_append]

/-- Failed stays, and is set by any container that failed. -/
theorem foldl_addOutcome_conclusion :
    (rs.foldl addOutcome out).1 = conclusionFailed ↔
      out.1 = conclusionFailed ∨ ∃ r ∈ rs, r.conclusion = conclusionFailed := by
  induction rs generalizing out with
  | nil => simp
  | cons r rs ih =>
      rw [List.foldl_cons, ih]
      have hstep : (addOutcome out r).1 = conclusionFailed ↔
          out.1 = conclusionFailed ∨ r.conclusion = conclusionFailed := by
        unfold addOutcome
        by_cases hr : r.conclusion = conclusionFailed <;> by_cases ho : out.1 = conclusionFailed <;> simp [hr, ho]
      rw [hstep, List.exists_mem_cons_iff, or_assoc]

/-- Failed stays, and is set by any container whose verdict it is. -/
theorem foldl_addOutcome_failed :
    (rs.foldl addOutcome out).2 = verdictFailed ↔ out.2 = verdictFailed ∨ ∃ r ∈ rs, r.verdict = verdictFailed := by
  have hnone : verdictNone ≠ verdictFailed := by decide
  induction rs generalizing out with
  | nil => simp
  | cons r rs ih =>
      have hstep : (addOutcome out r).2 = verdictFailed ↔ out.2 = verdictFailed ∨ r.verdict = verdictFailed := by
        unfold addOutcome
        by_cases hr : r.verdict = verdictFailed
        · by_cases ho : out.2 = verdictFailed
          · simp [hr, ho]
          · simp [hr, ho]
        · by_cases ho : out.2 = verdictNone
          · simp [hr, ho, hnone]
          · simp [hr, ho]
      rw [List.foldl_cons]
      refine ih.trans ?_
      rw [hstep, List.exists_mem_cons_iff, or_assoc]

/-- Without Failed, the first verdict that is not None is taken, be it empty. -/
theorem foldl_addOutcome_verdict (hr : ∀ r ∈ rs, r.verdict ≠ verdictFailed) (ho : out.2 ≠ verdictFailed) :
    (rs.foldl addOutcome out).2 =
      if out.2 = verdictNone then ((rs.map Result.verdict).find? (· ≠ verdictNone)).getD verdictNone else out.2 := by
  induction rs generalizing out with
  | nil =>
      show out.2 = if out.2 = verdictNone then verdictNone else out.2
      split
      · assumption
      · rfl
  | cons r rs ih =>
      have hfail : r.verdict ≠ verdictFailed := hr r List.mem_cons_self
      have hstep : (addOutcome out r).2 = if out.2 = verdictNone then r.verdict else out.2 := by
        show (if r.verdict = verdictFailed ∧ out.2 ≠ verdictFailed then r.verdict else _) = _
        rw [if_neg fun h => hfail h.1]
      have hnext : (addOutcome out r).2 ≠ verdictFailed := by
        rw [hstep]
        split
        · exact hfail
        · exact ho
      rw [List.foldl_cons, ih (fun r' h => hr r' (List.mem_cons_of_mem _ h)) hnext, hstep, List.map_cons]
      by_cases hnone : out.2 = verdictNone
      · rw [if_pos hnone, if_pos hnone]
        by_cases hv : r.verdict = verdictNone
        · simp [hv]
        · simp [hv]
      · rw [if_neg hnone, if_neg hnone, if_neg hnone]

/-- `Result` is the loop, with a conclusion at the end. -/
theorem result_eval {j : JobManager} {containerName : String} {r : Result}
    (h : (resultLoop j.name (names ++ [containerName]) j.considered { verdict := verdictNone }).eval answer = some r) :
    (j.result containerName names).eval answer = some (concluded r) := by
  show ((resultLoop j.name (names ++ [containerName]) j.considered _ >>= fun r => .ret (concluded r)).eval answer) = _
  rw [Prog.eval_bind, h]
  rfl

theorem concluded_successful (r : Result) :
    (concluded r).conclusion = conclusionSuccessful ↔ r.conclusion ≠ conclusionFailed := by
  have hne : conclusionFailed ≠ conclusionSuccessful := by decide
  unfold concluded
  by_cases h : r.conclusion = conclusionFailed <;> simp [h, hne]

theorem concluded_congr {r r' : Result} (h : r.conclusion = conclusionFailed ↔ r'.conclusion = conclusionFailed) :
    (concluded r).conclusion = (concluded r').conclusion := by
  unfold concluded
  by_cases hr : r.conclusion = conclusionFailed
  · rw [if_pos hr, if_pos (h.mp hr), hr, h.mp hr]
  · rw [if_neg hr, if_neg fun hr' => hr (h.mpr hr')]

theorem concluded_verdict (r : Result) : (concluded r).verdict = r.verdict := by
  unfold concluded
  split <;> rfl

end

/-! ## The conclusion -/

/-- The pods of the job could be listed, there is one, and in the latest one every requested container has terminated
    and reported a result, none of them Failed. -/
def JobSucceeds (names : List String) (job : Job) : Prop :=
  ∃ pod pods, podsOf answer job = .ok (pod :: pods) ∧
    ∀ n ∈ names, ∃ res, reported (getLatestPodByCreationTimestamp pod pods) n = some res ∧
      res.conclusion ≠ conclusionFailed

section

variable {answer} {manager : String} {names : List String} {jobs : List Job}

/-- The loop fails exactly if it started with a failure or one of the jobs does not succeed. -/
theorem resultLoop_conclusion (result : Result) :
    ∃ r, (resultLoop manager names jobs result).eval answer = some r ∧
      (r.conclusion ≠ conclusionFailed ↔
        result.conclusion ≠ conclusionFailed ∧ ∀ job ∈ jobs, JobSucceeds answer names job) := by
  induction jobs generalizing result with
  | nil => exact ⟨result, rfl, by simp⟩
  | cons job jobs ih =>
      rw [resultLoop_cons]
      cases hpods : podsOf answer job with
      | error e =>
          refine ⟨_, rfl, iff_of_false (fun h => h rfl) fun h => ?_⟩
          obtain ⟨pod, pods, hok, _⟩ := h.2 job List.mem_cons_self
          rw [hpods] at hok
          cases hok
      | ok listed =>
          cases listed with
          | nil =>
              refine ⟨_, rfl, iff_of_false (fun h => h rfl) fun h => ?_⟩
              obtain ⟨pod, pods, hok, _⟩ := h.2 job List.mem_cons_self
              rw [hpods] at hok
              cases hok
          | cons pod pods =>
              obtain ⟨r, hr, hiff⟩ := ih
                (names.foldl (addContainer manager (getLatestPodByCreationTimestamp pod pods)) result)
              refine ⟨r, hr, hiff.trans ?_⟩
              have hjob : JobSucceeds answer names job ↔ ∀ n ∈ names,
                  (terminationLog (getLatestPodByCreationTimestamp pod pods) n).1.conclusion ≠ conclusionFailed := by
                constructor
                · rintro ⟨pod', pods', hok, hall⟩ n hn
                  rw [hpods] at hok
                  cases hok
                  exact (terminationLog_failed_iff _ _).mpr (hall n hn)
                · exact fun hall => ⟨pod, pods, hpods, fun n hn => (terminationLog_failed_iff _ _).mp (hall n hn)⟩
              have hfold := not_congr
                (foldl_addContainer_failed_iff manager (getLatestPodByCreationTimestamp pod pods) names result)
              rw [Ne, hfold, not_or, List.forall_mem_cons, hjob, and_assoc]
              simp only [not_exists, not_and, Ne]

end

/-- **When `Result` concludes Successful**: every considered job succeeds. -/
theorem concludes_successful_iff (j : JobManager) (containerName : String) (containerNames : List String) :
    ∃ r, (j.result containerName containerNames).eval answer = some r ∧
      (r.conclusion = conclusionSuccessful ↔
        ∀ job ∈ j.considered, JobSucceeds answer (containerNames ++ [containerName]) job) := by
  obtain ⟨r, hr, hiff⟩ : ∃ r, (resultLoop j.name (containerNames ++ [containerName]) j.considered
      { verdict := verdictNone }).eval answer = some r ∧ (r.conclusion ≠ conclusionFailed ↔ _) :=
    resultLoop_conclusion _
  refine ⟨concluded r, result_eval hr, (concluded_successful r).trans (hiff.trans ?_)⟩
  have hne : ("" : Conclusion) ≠ conclusionFailed := by decide
  exact and_iff_right hne

/-! ### A run -/

/-- A pod whose containers have reported these results, oldest container first. -/
def reportingPod (results : List (String × Result)) : Pod :=
  { metadata := { name := "pod" }
    spec := ()
    status := { containerStatuses := results.map fun (n, res) => { name := n, terminated := some ⟨"", some res⟩ } } }

/-- Every job has this pod. -/
def podAnswers (pod : Pod) : (o : Op) → Ans o
  | .get _ _ => .error (.new "")
  | .list .pod _ => .ok [pod]
  | .list _ _ => .ok []
  | .create _ o => .ok o
  | .update _ o => .ok o
  | .updateStatus _ o => .ok o
  | .delete _ _ => .ok ()
  | .ext .clockNow => (0 : Int)
  | .ext .timeNow => (0 : Int)
  | .ext .newUUID => ""
  | .ext .startSpan => ⟨"", "", ""⟩
  | .ext (.publish _ _) => .ok ()
  | .ext (.getPublisher _) => .ok ()
  | .ext (.readKey _ _) => .ok ""
  | .ext (.rangeKeys keys) => ⟨keys, .refl keys⟩
  | .ext (.attempt _) => .ok ()

/-- A manager with jobs of these names, all of them completed. -/
def completedManager (names : List String) : JobManager :=
  { ownerAPIVersion := "", ownerKind := "", name := "owner"
    successfulJobs := names.map fun n => { metadata := { name := n }, spec := {}, status := {} } }

/-- **Aborted, and successful.** The only container reports that it was aborted. -/
theorem aborted_concludes_successful :
    ∃ r, ((completedManager ["job"]).result "container").eval
        (podAnswers (reportingPod [("container", { conclusion := conclusionAborted })])) = some r ∧
      r.conclusion = conclusionSuccessful ∧
      reported (reportingPod [("container", { conclusion := conclusionAborted })]) "container" =
        some { conclusion := conclusionAborted } :=
  ⟨_, rfl, rfl, rfl⟩

/-! ## The verdict -/

/-- The expected verdict: Failed if there is one, else the first that is neither empty nor None, else None. -/
def aggregated (verdicts : List Verdict) : Verdict :=
  if verdictFailed ∈ verdicts then verdictFailed
  else (verdicts.find? fun v => v ≠ "" ∧ v ≠ verdictNone).getD verdictNone

/-- The verdicts of the requested containers, in the order in which they are read. -/
def verdictsOf (names : List String) (jobs : List Job) : List Verdict :=
  (containerResults answer names jobs).map Result.verdict

/-- What the fold takes is what is expected, unless it takes an empty verdict. -/
theorem find_aggregated_iff (vs : List Verdict) :
    (vs.find? (· ≠ verdictNone)).getD verdictNone =
        (vs.find? fun v => v ≠ "" ∧ v ≠ verdictNone).getD verdictNone ↔
      vs.find? (· ≠ verdictNone) ≠ some "" := by
  have hnone : ("" : Verdict) ≠ verdictNone := by decide
  induction vs with
  | nil => simp
  | cons v vs ih =>
      by_cases hv : v = verdictNone
      · simpa [hv] using ih
      by_cases hempty : v = ""
      · -- an empty verdict is taken, and never expected
        subst hempty
        have hfound : ∀ u, (vs.find? fun v => v ≠ "" ∧ v ≠ verdictNone) = some u → u ≠ "" := by
          intro u hu
          have hp := List.find?_some hu
          simp only [decide_eq_true_eq] at hp
          exact hp.1
        refine iff_of_false ?_ (by simp [hnone])
        rw [List.find?_cons_of_pos (by simp [hnone]), List.find?_cons_of_neg (by simp)]
        cases hf : vs.find? fun v => v ≠ "" ∧ v ≠ verdictNone with
        | none => exact hnone
        | some u => exact (hfound u hf).symm
      · simp [hv, hempty]

section

variable {answer} {j : JobManager}

/-- `Result`, with pods for every considered job. -/
theorem result_outcome (h : HasPods answer j.considered) (containerName : String) (containerNames : List String) :
    ∃ r, (j.result containerName containerNames).eval answer = some (concluded r) ∧
      r.outcome = (containerResults answer (containerNames ++ [containerName]) j.considered).foldl addOutcome
        ("", verdictNone) := by
  obtain ⟨r, hr, hout⟩ : ∃ r, (resultLoop j.name (containerNames ++ [containerName]) j.considered
      { verdict := verdictNone }).eval answer = some r ∧ _ := resultLoop_eval h _
  exact ⟨r, result_eval hr, hout⟩

end

/-- **When the verdict is the expected one**: a container reports Failed, or the first verdict that is not None is not
    empty. -/
theorem verdict_aggregated_iff (j : JobManager) (containerName : String) (containerNames : List String)
    (hpods : HasPods answer j.considered) :
    (∃ r, (j.result containerName containerNames).eval answer = some r ∧
        r.verdict = aggregated (verdictsOf answer (containerNames ++ [containerName]) j.considered)) ↔
      verdictFailed ∈ verdictsOf answer (containerNames ++ [containerName]) j.considered ∨
        (verdictsOf answer (containerNames ++ [containerName]) j.considered).find? (· ≠ verdictNone) ≠ some "" := by
  obtain ⟨r, hr, hout⟩ := result_outcome hpods containerName containerNames
  have hne : verdictNone ≠ verdictFailed := by decide
  unfold verdictsOf aggregated
  generalize containerResults answer (containerNames ++ [containerName]) j.considered = rs at hout ⊢
  have hverdict : r.verdict = (rs.foldl addOutcome ("", verdictNone)).2 := congrArg Prod.snd hout
  have hreturns : (∃ r, (j.result containerName containerNames).eval answer = some r ∧
      r.verdict = if verdictFailed ∈ rs.map Result.verdict then verdictFailed
        else ((rs.map Result.verdict).find? fun v => v ≠ "" ∧ v ≠ verdictNone).getD verdictNone) ↔
      r.verdict = if verdictFailed ∈ rs.map Result.verdict then verdictFailed
        else ((rs.map Result.verdict).find? fun v => v ≠ "" ∧ v ≠ verdictNone).getD verdictNone := by
    constructor
    · rintro ⟨r', hr', hv⟩
      rw [hr] at hr'
      obtain rfl := Option.some.inj hr'
      rw [← concluded_verdict]
      exact hv
    · intro hv
      refine ⟨_, hr, ?_⟩
      rw [concluded_verdict]
      exact hv
  rw [hreturns]
  by_cases hfail : verdictFailed ∈ rs.map Result.verdict
  · obtain ⟨res, hres, hv⟩ := List.mem_map.mp hfail
    have hfailed : r.verdict = verdictFailed := by
      rw [hverdict]
      exact foldl_addOutcome_failed.mpr (.inr ⟨res, hres, hv⟩)
    rw [if_pos hfail]
    exact iff_of_true hfailed (.inl hfail)
  · have hnever : ∀ res ∈ rs, res.verdict ≠ verdictFailed :=
      fun res hres hv => hfail (List.mem_map.mpr ⟨res, hres, hv⟩)
    rw [hverdict, foldl_addOutcome_verdict hnever hne, if_pos rfl, if_neg hfail, find_aggregated_iff,
      or_iff_right hfail]

/-- Two containers: the verdict of the first counts. -/
theorem verdict_aggregated_passed :
    HasPods (podAnswers (reportingPod [("a", { verdict := verdictPassed }), ("b", {})]))
        (completedManager ["job"]).considered ∧
      ∃ r, ((completedManager ["job"]).result "b" ["a"]).eval
          (podAnswers (reportingPod [("a", { verdict := verdictPassed }), ("b", {})])) = some r ∧
        r.verdict = verdictPassed := by
  have hpods : HasPods (podAnswers (reportingPod [("a", { verdict := verdictPassed }), ("b", {})]))
      (completedManager ["job"]).considered := fun job _ => ⟨_, _, rfl⟩
  exact ⟨hpods, (verdict_aggregated_iff _ _ "b" ["a"] hpods).mpr (.inr (by decide))⟩

/-- **Hidden.** The first container has no verdict, and the second has passed. -/
theorem verdict_hidden :
    ∃ r, ((completedManager ["job"]).result "b" ["a"]).eval
        (podAnswers (reportingPod [("a", {}), ("b", { verdict := verdictPassed })])) = some r ∧
      r.verdict = "" ∧ aggregated ["", verdictPassed] = verdictPassed ∧
      verdictsOf (podAnswers (reportingPod [("a", {}), ("b", { verdict := verdictPassed })])) (["a"] ++ ["b"])
        (completedManager ["job"]).considered = ["", verdictPassed] :=
  ⟨_, rfl, rfl, rfl, rfl⟩

/-! ## The order -/

theorem mem_containerResults {names : List String} {jobs : List Job} {res : Result} :
    res ∈ containerResults answer names jobs ↔ ∃ job ∈ jobs, ∃ pod pods, podsOf answer job = .ok (pod :: pods) ∧
      ∃ n ∈ names, (terminationLog (getLatestPodByCreationTimestamp pod pods) n).1 = res := by
  unfold containerResults
  rw [List.mem_flatMap]
  refine exists_congr fun job => and_congr_right fun _ => ?_
  rcases podsOf answer job with e | ⟨⟩ | ⟨pod, pods⟩
  · simp
  · simp
  · constructor
    · exact fun h => ⟨pod, pods, rfl, List.mem_map.mp h⟩
    · rintro ⟨_, _, ⟨⟩, h⟩
      exact List.mem_map.mpr h

/-- The order does not matter to what is read. -/
theorem mem_containerResults_perm {names names' : List String} {jobs jobs' : List Job} (hjobs : jobs.Perm jobs')
    (hnames : names.Perm names') (res : Result) :
    res ∈ containerResults answer names jobs ↔ res ∈ containerResults answer names' jobs' := by
  rw [mem_containerResults, mem_containerResults]
  simp only [hjobs.mem_iff, hnames.mem_iff]

/-- **A failure is not masked by the order** of the jobs and of the containers: the conclusion is the same, and the
    verdict is Failed exactly if some termination log says so. -/
theorem failure_order_free (j j' : JobManager) (containerName containerName' : String)
    (containerNames containerNames' : List String) (hpods : HasPods answer j.considered)
    (hjobs : j.considered.Perm j'.considered)
    (hnames : (containerNames ++ [containerName]).Perm (containerNames' ++ [containerName'])) :
    ∃ r r', (j.result containerName containerNames).eval answer = some r ∧
      (j'.result containerName' containerNames').eval answer = some r' ∧ r.conclusion = r'.conclusion ∧
      (r.verdict = verdictFailed ↔ r'.verdict = verdictFailed) ∧
      (r.verdict = verdictFailed ↔
        ∃ res ∈ containerResults answer (containerNames ++ [containerName]) j.considered,
          res.verdict = verdictFailed) := by
  have hpods' : HasPods answer j'.considered := fun job hjob => hpods job (hjobs.mem_iff.mpr hjob)
  obtain ⟨r, hr, hout⟩ := result_outcome hpods containerName containerNames
  obtain ⟨r', hr', hout'⟩ := result_outcome hpods' containerName' containerNames'
  have hmem := mem_containerResults_perm answer hjobs hnames
  generalize containerResults answer (containerNames ++ [containerName]) j.considered = rs at hout hmem ⊢
  generalize containerResults answer (containerNames' ++ [containerName']) j'.considered = rs' at hout' hmem
  have hconclusion : ∀ {r : Result} {rs : List Result}, r.outcome = rs.foldl addOutcome ("", verdictNone) →
      (r.conclusion = conclusionFailed ↔ ∃ res ∈ rs, res.conclusion = conclusionFailed) := by
    intro r rs hout
    have hfirst : r.conclusion = (rs.foldl addOutcome ("", verdictNone)).1 := congrArg Prod.fst hout
    rw [hfirst, foldl_addOutcome_conclusion]
    exact or_iff_right (by decide)
  have hverdict : ∀ {r : Result} {rs : List Result}, r.outcome = rs.foldl addOutcome ("", verdictNone) →
      ((concluded r).verdict = verdictFailed ↔ ∃ res ∈ rs, res.verdict = verdictFailed) := by
    intro r rs hout
    have hsecond : (concluded r).verdict = (rs.foldl addOutcome ("", verdictNone)).2 :=
      (concluded_verdict r).trans (congrArg Prod.snd hout)
    rw [hsecond]
    exact foldl_addOutcome_failed.trans (or_iff_right (by decide))
  refine ⟨_, _, hr, hr', concluded_congr ?_, ?_, hverdict hout⟩
  · rw [hconclusion hout, hconclusion hout']
    simp only [hmem]
  · rw [hverdict hout, hverdict hout']
    simp only [hmem]

/-- Two jobs with two containers, in both orders. -/
theorem failure_order_free_swapped :
    ∃ r r', ((completedManager ["one", "two"]).result "b" ["a"]).eval
        (podAnswers (reportingPod [("a", { verdict := verdictPassed }), ("b", { verdict := verdictFailed })])) =
          some r ∧
      ((completedManager ["two", "one"]).result "a" ["b"]).eval
        (podAnswers (reportingPod [("a", { verdict := verdictPassed }), ("b", { verdict := verdictFailed })])) =
          some r' ∧
      r.conclusion = r'.conclusion ∧ r.verdict = verdictFailed := by
  obtain ⟨r, r', hr, hr', hsame, _, hfailed⟩ := failure_order_free
    (podAnswers (reportingPod [("a", { verdict := verdictPassed }), ("b", { verdict := verdictFailed })]))
    (completedManager ["one", "two"]) (completedManager ["two", "one"]) "b" "a" ["a"] ["b"]
    (fun job _ => ⟨_, _, rfl⟩) (.swap _ _ _) (.swap _ _ _)
  exact ⟨r, r', hr, hr', hsame, hfailed.mpr ⟨_, .tail _ (.head _), rfl⟩⟩

end Etos
