import Etos.Controller.Utilities

/-!
# `Controller.Jobs` — the job manager

`internal/controller/jobs`: a manager lists the jobs an object controls, sorts them into active, successful
and failed, summarises them as one `JobStatus`, and reads the result of finished jobs from the termination
messages of their pods.
-/

namespace Etos

open Kube

/-- `jobs.Status`. -/
inductive JobStatus where
  | failed | successful | active | none
  deriving DecidableEq, Repr

/-- `jobs.job`: the owner whose jobs are managed, and the jobs found by `status`. -/
structure JobManager where
  ownerAPIVersion : String
  ownerKind : String
  name : String
  activeJobs : List Job := []
  successfulJobs : List Job := []
  failedJobs : List Job := []

/-- `isJobStatusConditionPresentAndEqual`: the first condition of the type decides. -/
def isJobStatusConditionPresentAndEqual (conditions : List JobCondition) (conditionType : JobConditionType)
    (status : ConditionStatus) : Bool :=
  match conditions.find? (·.type = conditionType) with
  | some condition => condition.status = status
  | none => false

/-- `isJobFinished`: the finished type, or `none` for an ongoing job. -/
def isJobFinished (job : Job) : Option JobConditionType :=
  if isJobStatusConditionPresentAndEqual job.status.conditions .complete .true then some .complete
  else if isJobStatusConditionPresentAndEqual job.status.conditions .failed .true then some .failed
  else none

theorem isJobFinished_cases (job : Job) :
    isJobFinished job = none ∨ isJobFinished job = some .failed ∨ isJobFinished job = some .complete := by
  unfold isJobFinished
  split
  · exact .inr (.inr rfl)
  split
  · exact .inr (.inl rfl)
  · exact .inl rfl

namespace JobManager

variable (j : JobManager)

/-- Sort a list of owned jobs into active, failed and successful ones. -/
def populate (joblist : List Job) : JobManager :=
  { j with
    activeJobs := joblist.filter (fun job => isJobFinished job = none)
    failedJobs := joblist.filter (fun job => isJobFinished job = some .failed)
    successfulJobs := joblist.filter (fun job => isJobFinished job = some .complete) }

def active : Bool := j.successfulJobs.isEmpty && j.failedJobs.isEmpty && !j.activeJobs.isEmpty
def failed : Bool := !j.failedJobs.isEmpty && j.activeJobs.isEmpty
def successful : Bool := !j.successfulJobs.isEmpty && j.activeJobs.isEmpty
def empty : Bool := j.successfulJobs.isEmpty && j.failedJobs.isEmpty && j.activeJobs.isEmpty
def all : List Job := j.activeJobs ++ j.failedJobs ++ j.successfulJobs

/-- The status of a populated manager. Unfinished beside finished jobs have no status. -/
def summary : Except Err JobStatus :=
  if j.active then .ok .active
  -- successful beside failed jobs count as success
  else if j.successful then .ok .successful
  else if j.failed then .ok .failed
  else if j.empty then .ok .none
  else .error (.new "found no status on job")

/-- `Status`: list the owned jobs and summarise them. The manager remembers what it found. -/
def status : M (JobManager × Except Err JobStatus) := do
  match ← M.list .job (.controlledBy j.ownerAPIVersion j.ownerKind j.name) with
  | .error e => return (j, .error e)
  | .ok joblist => return (j.populate joblist, (j.populate joblist).summary)

/-- The jobs `Result` reads: the successful ones if the manager counts as successful, else the failed. -/
def considered : List Job :=
  if j.successful then j.successfulJobs
  else if j.failed then j.failedJobs
  else []

/-- What a status says about the manager. -/
theorem summary_cases {j : JobManager} {status : JobStatus} (h : j.summary = .ok status) :
    (status = .active ∧ j.active = true) ∨ (status = .successful ∧ j.successful = true) ∨
      (status = .failed ∧ j.failed = true) ∨ (status = .none ∧ j.empty = true) := by
  unfold summary at h
  split at h
  · rename_i ha
    cases h
    exact .inl ⟨rfl, ha⟩
  split at h
  · rename_i hs
    cases h
    exact .inr (.inl ⟨rfl, hs⟩)
  split at h
  · rename_i hf
    cases h
    exact .inr (.inr (.inl ⟨rfl, hf⟩))
  split at h
  · rename_i he
    cases h
    exact .inr (.inr (.inr ⟨rfl, he⟩))
  · cases h

theorem successful_of_summary {j : JobManager} (h : j.summary = .ok .successful) : j.successful = true := by
  rcases summary_cases h with ⟨h', _⟩ | ⟨_, hs⟩ | ⟨h', _⟩ | ⟨h', _⟩
  · cases h'
  · exact hs
  · cases h'
  · cases h'

theorem considered_ne_nil {j : JobManager} (h : j.summary = .ok .successful) : j.considered ≠ [] := by
  have hs := successful_of_summary h
  unfold considered
  rw [if_pos hs]
  intro hnil
  simp [successful, hnil] at hs

variable {j} {jobs : List Job}

/-- Only without jobs the status is `none`. -/
theorem summary_none (h : (j.populate jobs).summary = .ok .none) : jobs = [] := by
  have hempty : (j.populate jobs).empty = true := by
    rcases summary_cases h with ⟨h', _⟩ | ⟨h', _⟩ | ⟨h', _⟩ | ⟨_, he⟩
    · cases h'
    · cases h'
    · cases h'
    · exact he
  simp only [empty, populate, Bool.and_eq_true, List.isEmpty_iff, List.filter_eq_nil_iff,
    decide_eq_true_eq] at hempty
  obtain ⟨⟨hs, hf⟩, ha⟩ := hempty
  refine List.eq_nil_iff_forall_not_mem.mpr fun job hjob => ?_
  rcases isJobFinished_cases job with hj | hj | hj
  · exact ha job hjob hj
  · exact hf job hjob hj
  · exact hs job hjob hj

/-- A successful status rests on a completed job. -/
theorem summary_successful (h : (j.populate jobs).summary = .ok .successful) :
    ∃ job ∈ jobs, isJobFinished job = some .complete := by
  have hs := successful_of_summary h
  simp only [successful, populate, Bool.and_eq_true, Bool.not_eq_true', List.isEmpty_eq_false_iff] at hs
  obtain ⟨job, hjob⟩ := List.exists_mem_of_ne_nil _ hs.1
  obtain ⟨hmem, hfin⟩ := List.mem_filter.mp hjob
  exact ⟨job, hmem, of_decide_eq_true hfin⟩

/-- A failed status rests on a failed job. -/
theorem summary_failed (h : (j.populate jobs).summary = .ok .failed) :
    ∃ job ∈ jobs, isJobFinished job = some .failed := by
  have hf : (j.populate jobs).failed = true := by
    rcases summary_cases h with ⟨h', _⟩ | ⟨h', _⟩ | ⟨_, hf⟩ | ⟨h', _⟩
    · cases h'
    · cases h'
    · exact hf
    · cases h'
  simp only [failed, populate, Bool.and_eq_true, Bool.not_eq_true', List.isEmpty_eq_false_iff] at hf
  obtain ⟨job, hjob⟩ := List.exists_mem_of_ne_nil _ hf.1
  obtain ⟨hmem, hfin⟩ := List.mem_filter.mp hjob
  exact ⟨job, hmem, of_decide_eq_true hfin⟩

/-- `Result` reads listed jobs only. -/
theorem mem_of_considered {job : Job} (h : job ∈ (j.populate jobs).considered) : job ∈ jobs := by
  unfold considered at h
  split at h
  · exact (List.mem_filter.mp h).1
  split at h
  · exact (List.mem_filter.mp h).1
  · cases h

end JobManager

/-- `getLatestPodByCreationTimestamp` of a non-empty list. -/
def getLatestPodByCreationTimestamp (pod : Pod) (pods : List Pod) : Pod :=
  pods.foldl (fun latest p =>
    if p.metadata.creationTimestamp > latest.metadata.creationTimestamp then p else latest) pod

/-- The latest pod is one of them. -/
theorem getLatestPod_mem (pod : Pod) (pods : List Pod) : getLatestPodByCreationTimestamp pod pods ∈ pod :: pods := by
  unfold getLatestPodByCreationTimestamp
  induction pods generalizing pod with
  | nil => exact List.mem_cons_self
  | cons p pods ih =>
      rw [List.foldl_cons]
      have hstep := ih (if p.metadata.creationTimestamp > pod.metadata.creationTimestamp then p else pod)
      rcases List.mem_cons.mp hstep with hhead | htail
      · rw [hhead]
        split
        · exact List.mem_cons_of_mem _ List.mem_cons_self
        · exact List.mem_cons_self
      · exact List.mem_cons_of_mem _ (List.mem_cons_of_mem _ htail)

/-- The result and error of a container status. -/
def terminatedResult (status : ContainerStatus) : Result × Option Err :=
  match status.terminated with
  | none => ({ conclusion := conclusionFailed }, some (.new "could not read termination log from pod"))
  | some t =>
      match t.result with
      | none => ({ conclusion := conclusionFailed, description := t.message }, none)
      | some r => (r, none)

/-- `terminationLog`: containers first, then init containers. -/
def terminationLog (pod : Pod) (containerName : String) : Result × Option Err :=
  match pod.status.containerStatuses.find? (·.name = containerName) with
  | some status => terminatedResult status
  | none =>
      match pod.status.initContainerStatuses.find? (·.name = containerName) with
      | some status => terminatedResult status
      | none => ({ conclusion := conclusionFailed }, some (.new "found no container status for pod"))

/-- Fold one container into the overarching result: append its description, keep a failed conclusion, and
    take its verdict if it failed or none has been set yet. -/
def addContainer (managerName : String) (pod : Pod) (result : Result) (containerName : String) : Result :=
  let (jobResult, err) := terminationLog pod containerName
  let description := match err with
    | some e => e.text
    | none => jobResult.description
  let description :=
    if description = "" then "No description on pod " ++ managerName ++ " - Unknown error" else description
  { description := result.description ++ "; " ++ containerName ++ ": " ++ description
    conclusion :=
      if jobResult.conclusion = conclusionFailed ∧ result.conclusion ≠ conclusionFailed then conclusionFailed
      else result.conclusion
    verdict :=
      if jobResult.verdict = verdictFailed ∧ result.verdict ≠ verdictFailed then jobResult.verdict
      else if result.verdict = verdictNone then jobResult.verdict
      else result.verdict }

/-- Failed stays, and is set by a container that failed. -/
theorem addContainer_failed_iff (manager : String) (pod : Pod) (result : Result) (n : String) :
    (addContainer manager pod result n).conclusion = conclusionFailed ↔
      result.conclusion = conclusionFailed ∨ (terminationLog pod n).1.conclusion = conclusionFailed := by
  unfold addContainer
  by_cases hr : result.conclusion = conclusionFailed <;>
    by_cases hn : (terminationLog pod n).1.conclusion = conclusionFailed <;> simp [hr, hn]

theorem foldl_addContainer_failed_iff (manager : String) (pod : Pod) (names : List String) (result : Result) :
    (names.foldl (addContainer manager pod) result).conclusion = conclusionFailed ↔
      result.conclusion = conclusionFailed ∨ ∃ n ∈ names, (terminationLog pod n).1.conclusion = conclusionFailed := by
  induction names generalizing result with
  | nil => simp
  | cons n names ih => rw [List.foldl_cons, ih, addContainer_failed_iff, List.exists_mem_cons_iff, or_assoc]

/-- The result after a job whose pods cannot be read: it fails, and the loop over the jobs ends. -/
def podFailure (result : Result) (job : Job) (text : String) : Result :=
  { result with
    description := result.description ++ "; " ++ job.name ++ ": " ++ text ++ job.name
    conclusion := conclusionFailed }

/-- The loop of `Result` over the considered jobs. -/
def resultLoop (managerName : String) (names : List String) : List Job → Result → M Result
  | [], result => return result
  | job :: jobs, result => do
      match ← M.list .pod (.label "job-name" job.name) with
      -- the jobs that follow are not looked at
      | .error _ => return podFailure result job "could not list pods for job "
      | .ok [] => return podFailure result job "no pods found for job "
      | .ok (pod :: pods) =>
          let latest := getLatestPodByCreationTimestamp pod pods
          resultLoop managerName names jobs (names.foldl (addContainer managerName latest) result)

/-- The conclusion is successful unless something failed. -/
def concluded (result : Result) : Result :=
  if result.conclusion = conclusionFailed then result
  else { result with conclusion := conclusionSuccessful }

namespace JobManager

/-- `Result`: read the named containers, `containerName` last. -/
def result (j : JobManager) (containerName : String) (containerNames : List String := []) : M Result := do
  let names := containerNames ++ [containerName]
  let r ← resultLoop j.name names j.considered { verdict := verdictNone }
  return concluded r

/-- `Create`: build the specification and create the job. -/
def create (jobSpec : M (Except Err Job)) : M (Option Err) := do
  match ← jobSpec with
  | .error e => return some (.new ("failed to create job spec: " ++ e.text))
  | .ok job =>
      let a ← M.create .job job
      return errOf a

/-- Delete the jobs that are not being deleted yet; a job that is already gone is no error. -/
def deleteAll : List Job → M (Option Err)
  | [] => return none
  | job :: jobs =>
      if job.deleting then deleteAll jobs
      else do
        let a ← M.delete .job job.name
        let err := match errOf a with
          | some e => if e.isNotFound then none else some e
          | none => none
        -- an error does not keep the others
        let rest ← deleteAll jobs
        return Err.join err rest

theorem deleteAll_calls (jobs : List Job) : (deleteAll jobs).Calls fun o => ∃ n, o = .delete .job n := by
  induction jobs with
  | nil => trivial
  | cons job jobs ih =>
      unfold deleteAll
      split
      · exact ih
      · exact ⟨⟨_, rfl⟩, fun _ => ih.bind fun _ => trivial⟩

/-- `Delete`: delete every job the manager has found. -/
def delete (j : JobManager) : M (Option Err) := deleteAll j.all

end JobManager

end Etos
