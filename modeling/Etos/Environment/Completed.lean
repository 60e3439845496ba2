import Etos.Controller.Results
import Etos.Operator.Reads

/-!
# `Environment.Completed` — what becomes of a successful release

When the release job of an Environment has completed, `reconcile` reads its result from the container named like the
Environment. No container of the job is: `releaseJob` names them `environment-provider` and, for the init containers,
after the three releasers. So a release in which every container succeeded is reported as Failed, unless the Environment
happens to be called like one of the four (**`release_completed_iff`**, `release_reported_failed`).
-/

namespace Etos.EnvironmentReconciler

open Kube

/-- The names of the containers of the release job. -/
def releaseContainerNames : List String :=
  ["environment-provider", ResourceKind.executionSpace.releaserName, ResourceKind.logArea.releaserName,
    ResourceKind.iut.releaserName]

/-- The pod has run the containers of the job, and all of them have terminated with conclusion Successful. -/
structure RanSuccessfully (job : Job) (pod : Pod) : Prop where
  containers : ∀ n, n ∈ pod.status.containerStatuses.map (·.name) ↔ n ∈ job.spec.containers.map (·.name)
  initContainers : ∀ n, n ∈ pod.status.initContainerStatuses.map (·.name) ↔ n ∈ job.spec.initContainers.map (·.name)
  successful : ∀ status ∈ pod.status.containerStatuses ++ pod.status.initContainerStatuses,
    ∃ t r, status.terminated = some t ∧ t.result = some r ∧ r.conclusion = conclusionSuccessful

/-- The answers in a round in which the release job has completed, all its containers were successful, and no call
    fails. That a resource is gone is no failure. -/
def releaseAnswers (job : Job) : (o : Op) → Ans o → Prop
  | .list .job _, .ok jobs => ∃ finished : Job, jobs = [finished] ∧ finished.name = job.name ∧
      finished.spec = job.spec ∧ isJobFinished finished = some .complete
  | .list .pod _, .ok pods => pods ≠ [] ∧ ∀ pod ∈ pods, RanSuccessfully job pod
  | .get (.resource _) _, .error e => e.isNotFound = true
  | o, a => succeeded o a = true

/-- A status with a completion time has Active reason Completed. -/
def CompletesAsCompleted (o : Op) : Prop := ∀ x : Environment, o = .updateStatus .environment x →
  x.status.completionTime ≠ none → isStatusReason x.status.conditions .active .completed = true

/-- The message for a container that is not there. -/
def missingContainer (name : String) : String := "; " ++ name ++ ": " ++ "found no container status for pod"

/-- `reconcile` gets to the release of the Environment, and has something to write if the release failed. -/
def Releases (environment : Environment) : Prop :=
  environment.spec.providers.isSome = true ∧
    (environment.deleting = true ∨ environment.metadata.containsFinalizer releaseFinalizer = true) ∧
    isStatusReason environment.status.conditions .active .pending = false ∧
    ∃ c, findStatusCondition environment.status.conditions .active = some c ∧
      ¬ (c.status = .false ∧ c.reason = .failed ∧ c.message = missingContainer environment.name)

section

variable {environment : Environment} {job : Job} {pod : Pod} {n : String}

/-! ## The result of the job -/

theorem RanSuccessfully.find {l : List ContainerStatus} (h : n ∈ l.map (·.name)) :
    ∃ status ∈ l, l.find? (·.name = n) = some status := by
  obtain ⟨status, hs, hn⟩ := List.mem_map.mp h
  have hsome : (l.find? (·.name = n)).isSome = true := List.find?_isSome.mpr ⟨status, hs, by simpa using hn⟩
  obtain ⟨found, hf⟩ := Option.isSome_iff_exists.mp hsome
  exact ⟨found, List.mem_of_find?_eq_some hf, hf⟩

theorem RanSuccessfully.missing {l : List ContainerStatus} (h : n ∉ l.map (·.name)) :
    l.find? (·.name = n) = none := by
  refine List.find?_eq_none.mpr fun status hs hn => h ?_
  exact List.mem_map.mpr ⟨status, hs, by simpa using hn⟩

/-- A container of the job has reported success. -/
theorem RanSuccessfully.result (h : RanSuccessfully job pod)
    (hn : n ∈ job.spec.containers.map (·.name) ++ job.spec.initContainers.map (·.name)) :
    (terminationLog pod n).1.conclusion = conclusionSuccessful := by
  have hstatus : ∀ status ∈ pod.status.containerStatuses ++ pod.status.initContainerStatuses,
      (terminatedResult status).1.conclusion = conclusionSuccessful := by
    intro status hs
    obtain ⟨t, r, ht, hr, hc⟩ := h.successful status hs
    unfold terminatedResult
    rw [ht]
    dsimp only
    rw [hr]
    exact hc
  unfold terminationLog
  by_cases hmain : n ∈ pod.status.containerStatuses.map (·.name)
  · obtain ⟨status, hs, hf⟩ := find hmain
    rw [hf]
    exact hstatus status (List.mem_append_left _ hs)
  · have hinit : n ∈ pod.status.initContainerStatuses.map (·.name) := by
      rcases List.mem_append.mp hn with hn | hn
      · exact absurd ((h.containers n).mpr hn) hmain
      · exact (h.initContainers n).mpr hn
    obtain ⟨status, hs, hf⟩ := find hinit
    rw [missing hmain, hf]
    exact hstatus status (List.mem_append_right _ hs)

/-- No other container is there. -/
theorem RanSuccessfully.other (h : RanSuccessfully job pod)
    (hn : n ∉ job.spec.containers.map (·.name) ++ job.spec.initContainers.map (·.name)) :
    terminationLog pod n = ({ conclusion := conclusionFailed }, some (.new "found no container status for pod")) := by
  have hmain : n ∉ pod.status.containerStatuses.map (·.name) :=
    fun hm => hn (List.mem_append_left _ ((h.containers n).mp hm))
  have hinit : n ∉ pod.status.initContainerStatuses.map (·.name) :=
    fun hm => hn (List.mem_append_right _ ((h.initContainers n).mp hm))
  unfold terminationLog
  rw [missing hmain, missing hinit]

/-- The manager of a completed job. -/
theorem completed_manager {finished : Job} (h : isJobFinished finished = some .complete) (j : JobManager) :
    (j.populate [finished]).summary = .ok .successful ∧ (j.populate [finished]).considered = [finished] := by
  constructor <;> simp [JobManager.populate, JobManager.summary, JobManager.considered, JobManager.active,
    JobManager.successful, h]

/-- The result is read from one container of the latest pod. -/
theorem result_of_completed {finished : Job} (h : isJobFinished finished = some .complete) (j : JobManager) :
    (j.populate [finished]).result n = .call (.list .pod (.label "job-name" finished.name)) fun a =>
      .ret (concluded (match a with
        | .error _ => podFailure { verdict := verdictNone } finished "could not list pods for job "
        | .ok [] => podFailure { verdict := verdictNone } finished "no pods found for job "
        | .ok (pod :: pods) =>
            addContainer j.name (getLatestPodByCreationTimestamp pod pods) { verdict := verdictNone } n)) := by
  unfold JobManager.result
  rw [(completed_manager h j).2]
  show Prog.call _ _ = Prog.call _ _
  congr 1
  funext a
  rcases a with e | ⟨⟩ | ⟨pod, pods⟩ <;> rfl

/-- The result of the round is what the container of that name has reported. -/
theorem result_keeps {finished : Job} (hfin : isJobFinished finished = some .complete) (j : JobManager)
    {P : Op → Prop} (hP : P (.list .pod (.label "job-name" finished.name))) {Q : Result → Prop}
    (hQ : ∀ pod, RanSuccessfully job pod → Q (concluded (addContainer j.name pod { verdict := verdictNone } n))) :
    ((j.populate [finished]).result n).Keeps (releaseAnswers job) P Q := by
  rw [result_of_completed hfin]
  refine ⟨hP, fun a ha => ?_⟩
  rcases a with e | ⟨⟩ | ⟨pod, pods⟩
  · cases ha
  · exact absurd rfl ha.1
  · exact hQ _ (ha.2 _ (getLatestPod_mem pod pods))

theorem keeps_result {finished : Job} (hfin : isJobFinished finished = some .complete) (j : JobManager)
    {P : Op → Prop} {Q : Result → Prop} (h : ((j.populate [finished]).result n).Keeps (releaseAnswers job) P Q)
    (hpod : RanSuccessfully job pod) : Q (concluded (addContainer j.name pod { verdict := verdictNone } n)) := by
  rw [result_of_completed hfin] at h
  refine h.2 (.ok [pod]) ⟨List.cons_ne_nil _ _, fun p hp => ?_⟩
  rw [List.mem_singleton.mp hp]
  exact hpod

/-- A container of the job makes the round a success. -/
theorem concluded_of_result (hpod : RanSuccessfully job pod) {manager : String}
    (hn : n ∈ job.spec.containers.map (·.name) ++ job.spec.initContainers.map (·.name)) :
    (concluded (addContainer manager pod { verdict := verdictNone } n)).conclusion ≠ conclusionFailed := by
  have hc := hpod.result hn
  have hne : conclusionSuccessful ≠ conclusionFailed := by decide
  have hempty : ("" : Conclusion) ≠ conclusionFailed := by decide
  have hadd : (addContainer manager pod { verdict := verdictNone } n).conclusion ≠ conclusionFailed := by
    unfold addContainer
    simp [hc, hne, hempty]
  rw [(concluded_successful _).mpr hadd]
  exact hne

/-- Any other name makes it a failure. -/
theorem concluded_of_missing (hpod : RanSuccessfully job pod) {manager : String}
    (hn : n ∉ job.spec.containers.map (·.name) ++ job.spec.initContainers.map (·.name)) :
    (concluded (addContainer manager pod { verdict := verdictNone } n)).conclusion = conclusionFailed ∧
      (concluded (addContainer manager pod { verdict := verdictNone } n)).description = missingContainer n := by
  have hlog := hpod.other hn
  have hempty : ("" : Conclusion) ≠ conclusionFailed := by decide
  have hconclusion : (addContainer manager pod { verdict := verdictNone } n).conclusion = conclusionFailed := by
    unfold addContainer
    simp [hlog, hempty]
  unfold concluded
  rw [if_pos hconclusion]
  refine ⟨hconclusion, ?_⟩
  unfold addContainer missingContainer
  simp [hlog, Err.new]

/-! ## The calls of `reconcile` -/

/-- Calls that do not write the status of an Environment. -/
def NoStatus (o : Op) : Prop := ∀ x : Environment, o ≠ .updateStatus .environment x

theorem NoStatus.completes {o : Op} (h : NoStatus o) : CompletesAsCompleted o := fun x ho => absurd ho (h x)

theorem noStatus_of_read {o : Op} (h : IsRead o) : NoStatus o := by
  rintro x rfl
  exact h

theorem releaseProviders_noStatus (environment : Environment) : (releaseProviders environment).Calls NoStatus := by
  have hone : ∀ r n, (releaseResource r n).Calls NoStatus := by
    intro r n
    refine ⟨fun x hx => (nomatch hx), fun a => ?_⟩
    cases a with
    | error e => trivial
    | ok y =>
        show Prog.Calls NoStatus (if _ then _ else _)
        split
        · exact ⟨fun x hx => (nomatch hx), fun _ => trivial⟩
        · trivial
  unfold releaseProviders withProviders
  split
  · trivial
  · refine (hone _ _).bind ?_
    rintro ⟨updated, err⟩
    split
    · refine (hone _ _).bind ?_
      rintro ⟨updated, err⟩
      split
      · exact hone _ _
      · trivial
    · trivial

/-- A status that is not complete. -/
theorem completes_of_open {x : Environment} (h : x.status.completionTime = none) :
    CompletesAsCompleted (.updateStatus .environment x) := by
  intro x' hx' hc
  cases hx'
  exact absurd h hc

theorem setAndPersist_completes (hopen : environment.status.completionTime = none) (c : Condition) :
    (setAndPersist environment c).Calls CompletesAsCompleted := by
  unfold setAndPersist
  rw [setCondition_bind]
  refine ⟨(NoStatus.completes fun _ => nofun), fun t => ?_⟩
  dsimp only
  split
  · exact ⟨completes_of_open hopen, fun _ => trivial⟩
  · trivial

theorem takeResource_noStatus (environment : Environment) (r : ResourceKind) (name : String) :
    (takeResource environment r name).Calls NoStatus := by
  refine ⟨fun _ => nofun, fun a => ?_⟩
  cases a with
  | error e => trivial
  | ok resource =>
      show Prog.Calls NoStatus (takeOwnership environment r resource >>= _)
      refine Prog.Calls.bind ?_ fun out => ?_
      · unfold takeOwnership
        split
        · trivial
        · exact ⟨fun _ => nofun, fun _ => trivial⟩
      · rcases out with ⟨resource, _ | e⟩ <;> trivial

/-- A waiting Environment does not complete. -/
theorem reconcileEnvironment_completes (hopen : environment.status.completionTime = none) :
    (reconcileEnvironment environment).Calls CompletesAsCompleted := by
  have hnext : ∀ {α : Type} {p : M (Except Err α)} {f : Except Err α → M (Environment × Option Err)},
      p.Calls NoStatus → (∀ e, f (.error e) = .ret (environment, some e)) →
      (∀ x, (f (.ok x)).Calls CompletesAsCompleted) → (p >>= f).Calls CompletesAsCompleted := by
    intro α p f hp herr hok
    refine (hp.mono fun _ => NoStatus.completes).bind fun out => ?_
    cases out with
    | error e =>
        rw [herr]
        trivial
    | ok x => exact hok x
  unfold reconcileEnvironment withProviders
  split
  · trivial
  refine hnext (takeResource_noStatus ..) (fun _ => rfl) fun iut => ?_
  refine hnext (takeResource_noStatus ..) (fun _ => rfl) fun logArea => ?_
  refine hnext (takeResource_noStatus ..) (fun _ => rfl) fun executionSpace => ?_
  refine ((checkProviders_reads _).mono fun _ h => (noStatus_of_read h).completes).bind fun err => ?_
  cases err with
  | some e => trivial
  | none => exact setAndPersist_completes hopen _

/-! ## After the release job -/

/-- With the resources gone, there is nothing to release. -/
theorem keeps_releaseProviders {P : Op → Prop} {Q : Bool × Option Err → Prop} {providers : Providers}
    (hp : environment.spec.providers = some providers)
    (h : (releaseProviders environment).Keeps (releaseAnswers job) P Q) : Q (false, none) := by
  unfold releaseProviders withProviders at h
  rw [hp] at h
  have hgone : ∀ {r : ResourceKind} {n : String} {Q : Bool × Option Err → Prop},
      (releaseResource r n).Keeps (releaseAnswers job) P Q → Q (false, none) := by
    intro r n Q h
    exact h.2 (.error ⟨some .notFound, ""⟩) rfl
  exact hgone (hgone (hgone (Prog.keeps_bind.mp h) |> Prog.keeps_bind.mp))

/-- What is left of a release once its result is known. -/
def releasedWith (environment : Environment) (manager : JobManager) (result : Result) :
    M (Environment × Option Err) := do
  let (updated, err) ← releaseProviders environment
  if updated || err.isSome then return (environment, err)
  else
    match findStatusCondition environment.status.conditions .active with
    | none => .panic "Active condition"
    | some _ => do
        let (environment, changed) ← setCondition environment (releasedCondition environment result)
        if changed then do
          let (environment, err) ← M.statusUpdate .environment (completeWithActive environment)
          let deleted ← manager.delete
          return (environment, Err.join err deleted)
        else return (completeWithActive environment, none)

theorem released_eq (environment : Environment) (manager : JobManager) :
    released environment manager = manager.result environment.name >>= releasedWith environment manager := rfl

/-- The status that completes the Environment has the reason of the result. -/
theorem completeWithActive_set {now : Int} {c : Condition} (hc : c.type = .active) :
    (completeWithActive (conditionSet now environment c)).status.completionTime ≠ none ∧
      ∀ reason, isStatusReason (completeWithActive (conditionSet now environment c)).status.conditions .active reason =
        decide (c.reason = reason) := by
  obtain ⟨c', hf, hs, hr, hm⟩ := find_set_self now c environment.status.conditions
  rw [hc] at hf
  have hf' : findStatusCondition (conditionSet now environment c).status.conditions .active = some c' := hf
  unfold completeWithActive
  rw [hf']
  refine ⟨Option.some_ne_none _, fun reason => ?_⟩
  unfold isStatusReason
  rw [hf', ← hr]

theorem releasedCondition_reason (hintime : isStatusReason environment.status.conditions .active .timedOut = false)
    (result : Result) : (releasedCondition environment result).reason =
      if result.conclusion = conclusionFailed then .failed else .completed := by
  show releaseReason environment _ = _
  unfold releaseReason
  rw [hintime]
  rfl

/-- A failure is written unless it is there already. -/
theorem releasedCondition_unchanged_iff {result : Result} {c : Condition} {now : Int}
    (hintime : isStatusReason environment.status.conditions .active .timedOut = false)
    (hf : findStatusCondition environment.status.conditions .active = some c)
    (hfailed : result.conclusion = conclusionFailed) :
    conditionChanged now environment (releasedCondition environment result) = false ↔
      c.status = .false ∧ c.reason = .failed ∧ c.message = result.description := by
  have hreason := releasedCondition_reason hintime result
  rw [if_pos hfailed] at hreason
  constructor
  · intro h
    obtain ⟨-, c', hf', hs, hr, hm⟩ := set_unchanged h
    cases hf.symm.trans hf'
    exact ⟨hs, hr.trans hreason, hm⟩
  · rintro ⟨hs, hr, hm⟩
    show (setStatusCondition now (releasedCondition environment result) environment.status.conditions).2 = false
    exact set_same hf hs (hr.trans hreason.symm) hm

/-- Completing is harmless if the condition that is written says Completed. -/
theorem releasedWith_keeps {manager : JobManager} {result : Result}
    (h : environment.spec.providers.isSome = true → ∀ now,
      conditionChanged now environment (releasedCondition environment result) = true →
        (releasedCondition environment result).reason = .completed) :
    (releasedWith environment manager result).Keeps (releaseAnswers job) CompletesAsCompleted fun _ => True := by
  unfold releasedWith
  cases hp : environment.spec.providers with
  | none =>
      unfold releaseProviders withProviders
      rw [hp]
      trivial
  | some providers =>
      refine ((releaseProviders_noStatus environment).mono fun _ => NoStatus.completes).keeps.bind ?_
      rintro ⟨updated, err⟩ -
      dsimp only
      split
      · trivial
      split
      · trivial
      rw [setCondition_bind]
      refine ⟨NoStatus.completes fun _ => nofun, fun t _ => ?_⟩
      dsimp only
      split
      · rename_i hchanged
        refine ⟨?_, fun a _ => ?_⟩
        · rintro x hx -
          cases hx
          rw [(completeWithActive_set rfl).2, h (by rw [hp]; rfl) _ hchanged]
          rfl
        · show Prog.Keeps _ _ (manager.delete >>= _) _
          refine Prog.Keeps.bind (Prog.Calls.keeps ((JobManager.deleteAll_calls _).mono ?_)) fun _ _ => trivial
          rintro o ⟨n, rfl⟩
          exact NoStatus.completes fun _ => nofun
      · trivial

/-- Completing with another reason is not. -/
theorem not_keeps_releasedWith {manager : JobManager} {result : Result} {c : Condition}
    (hp : environment.spec.providers.isSome = true)
    (hf : findStatusCondition environment.status.conditions .active = some c)
    (hchanged : conditionChanged (unixSeconds 0) environment (releasedCondition environment result) = true)
    (hreason : (releasedCondition environment result).reason ≠ .completed) :
    ¬ (releasedWith environment manager result).Keeps (releaseAnswers job) CompletesAsCompleted fun _ => True := by
  intro h
  obtain ⟨providers, hp⟩ := Option.isSome_iff_exists.mp hp
  have h := keeps_releaseProviders hp (Prog.keeps_bind.mp h)
  dsimp only at h
  rw [if_neg (by decide), hf] at h
  dsimp only at h
  rw [setCondition_bind] at h
  have h := h.2 0 rfl
  dsimp only at h
  rw [if_pos hchanged] at h
  obtain ⟨hcomplete, hreported⟩ :=
    @completeWithActive_set environment (unixSeconds 0) (releasedCondition environment result) rfl
  have hcompleted := h.1 _ rfl hcomplete
  rw [hreported] at hcompleted
  exact hreason (by simpa using hcompleted)

/-! ## The whole of `reconcile` -/

/-- A job that has completed. -/
def completedJob (job : Job) : Job := { job with status := { conditions := [{ type := .complete, status := .true }] } }

/-- A pod that has run all containers of a job. -/
def ranPod (job : Job) : Pod :=
  let succeeded (c : Container) : ContainerStatus :=
    { name := c.name, terminated := some ⟨"", some { conclusion := conclusionSuccessful }⟩ }
  { metadata := { name := job.name, labels := [("job-name", job.name)] }
    spec := ()
    status :=
      { containerStatuses := job.spec.containers.map succeeded
        initContainerStatuses := job.spec.initContainers.map succeeded } }

theorem ranPod_successfully (job : Job) : RanSuccessfully job (ranPod job) := by
  refine ⟨fun n => ?_, fun n => ?_, fun status hs => ?_⟩
  · simp [ranPod]
  · simp [ranPod]
  · rcases List.mem_append.mp hs with hs | hs
    · obtain ⟨c, -, rfl⟩ := List.mem_map.mp hs
      exact ⟨_, _, rfl, rfl, rfl⟩
    · obtain ⟨c, -, rfl⟩ := List.mem_map.mp hs
      exact ⟨_, _, rfl, rfl, rfl⟩

theorem releaseJobOf_names (environment : Environment) (request : EnvironmentRequest) (image : Image)
    (iut : Iut × Provider) (logArea : LogArea × Provider) (executionSpace : ExecutionSpace × Provider) :
    (releaseJobOf environment request image iut logArea executionSpace).spec.containers.map (·.name) ++
      (releaseJobOf environment request image iut logArea executionSpace).spec.initContainers.map (·.name) =
        releaseContainerNames := rfl

/-- The status of the completed job. -/
theorem status_keeps (j : JobManager) {P : Op → Prop} (hP : P (.list .job j.selector)) :
    j.status.Keeps (releaseAnswers job) P fun out => ∃ finished, isJobFinished finished = some .complete ∧
      out = (j.populate [finished], .ok .successful) := by
  refine ⟨hP, fun a ha => ?_⟩
  cases a with
  | error e => cases ha
  | ok jobs =>
      obtain ⟨finished, rfl, -, -, hfin⟩ := ha
      exact ⟨finished, hfin, Prod.ext rfl (completed_manager hfin j).1⟩

/-- What the job of a successful release makes of it. -/
abbrev releaseResult (environment : Environment) (pod : Pod) : Result :=
  concluded (addContainer environment.name pod { verdict := verdictNone } environment.name)

theorem reconcileReleaser_keeps
    (h : ∀ manager pod, RanSuccessfully job pod →
      (releasedWith environment manager (releaseResult environment pod)).Keeps (releaseAnswers job) CompletesAsCompleted
        fun _ => True) :
    (reconcileReleaser environment).Keeps (releaseAnswers job) CompletesAsCompleted fun _ => True := by
  refine (status_keeps (jobManager environment) (NoStatus.completes fun _ => nofun)).bind ?_
  rintro _ ⟨finished, hfin, rfl⟩
  show Prog.Keeps _ _ (released environment _) _
  rw [released_eq]
  exact Prog.keeps_bind.mpr (result_keeps hfin _ (NoStatus.completes fun _ => nofun) fun pod hpod => h _ pod hpod)

theorem keeps_reconcileReleaser {P : Op → Prop}
    (h : (reconcileReleaser environment).Keeps (releaseAnswers job) P fun _ => True) (hpod : RanSuccessfully job pod) :
    ∃ manager, (releasedWith environment manager (releaseResult environment pod)).Keeps (releaseAnswers job) P
      fun _ => True := by
  have hfin : isJobFinished (completedJob job) = some .complete := rfl
  have h := h.2 (.ok [completedJob job]) ⟨_, rfl, rfl, rfl, hfin⟩
  have h : (released environment ((jobManager environment).populate [completedJob job])).Keeps (releaseAnswers job) P
    fun _ => True := h
  rw [released_eq] at h
  exact ⟨_, keeps_result hfin _ (Prog.keeps_bind.mp h) hpod⟩

/-- **A successful release completes the Environment as Completed exactly if the Environment is named like one of the
    containers of the release job**, or it does not get so far. -/
theorem release_completed_iff (environment : Environment) (request : EnvironmentRequest) (image : Image)
    (iut : Iut × Provider) (logArea : LogArea × Provider) (executionSpace : ExecutionSpace × Provider)
    (hopen : environment.status.completionTime = none)
    (hintime : isStatusReason environment.status.conditions .active .timedOut = false) :
    (reconcile environment).Keeps (releaseAnswers (releaseJobOf environment request image iut logArea executionSpace))
        CompletesAsCompleted (fun _ => True) ↔
      environment.name ∈ releaseContainerNames ∨ ¬ Releases environment := by
  have hnames := releaseJobOf_names environment request image iut logArea executionSpace
  generalize releaseJobOf environment request image iut logArea executionSpace = job at hnames ⊢
  have hreason := releasedCondition_reason hintime
  have hmissing : ∀ pod, RanSuccessfully job pod → environment.name ∉ releaseContainerNames →
      (releaseResult environment pod).conclusion = conclusionFailed ∧
        (releaseResult environment pod).description = missingContainer environment.name :=
    fun pod hpod hname => concluded_of_missing hpod (hnames ▸ hname)
  unfold reconcile
  constructor
  · intro h
    by_contra hcon
    obtain ⟨hname, hrel⟩ := not_or.mp hcon
    obtain ⟨hp, hfinal, hpending, c, hf, hc⟩ := not_not.mp hrel
    rw [hf] at h
    dsimp only at h
    rw [if_neg (by rcases hfinal with hd | hd <;> simp [hd]), if_neg (by simp [hpending])] at h
    have hpod := ranPod_successfully job
    obtain ⟨manager, h⟩ := keeps_reconcileReleaser h hpod
    obtain ⟨hfailed, hmessage⟩ := hmissing _ hpod hname
    refine not_keeps_releasedWith hp hf ?_ ?_ h
    · refine Bool.of_not_eq_false fun hsame => ?_
      exact hc (hmessage ▸ (releasedCondition_unchanged_iff hintime hf hfailed).mp hsame)
    · rw [hreason, if_pos hfailed]
      decide
  · intro h
    cases hf : findStatusCondition environment.status.conditions .active with
    | none => exact ⟨NoStatus.completes fun _ => nofun, fun t _ => ⟨completes_of_open hopen, fun _ _ => trivial⟩⟩
    | some c =>
        dsimp only
        split
        · exact ⟨NoStatus.completes fun _ => nofun, fun _ _ => trivial⟩
        rename_i hfinal
        split
        · exact (reconcileEnvironment_completes hopen).keeps
        rename_i hpending
        refine reconcileReleaser_keeps fun manager pod hpod => releasedWith_keeps fun hp now hchanged => ?_
        by_cases hname : environment.name ∈ releaseContainerNames
        · rw [hreason, if_neg (concluded_of_result hpod (hnames ▸ hname))]
        · obtain ⟨hfailed, hmessage⟩ := hmissing _ hpod hname
          refine absurd ⟨hp, ?_, by simpa using hpending, c, hf, fun hc => ?_⟩ (h.resolve_left hname)
          · by_cases hd : environment.deleting = true
            · exact .inl hd
            · exact .inr (by simpa [hd] using hfinal)
          · rw [(releasedCondition_unchanged_iff hintime hf hfailed).mpr (hmessage ▸ hc)] at hchanged
            cases hchanged

/-- An Environment that is being deleted after use. -/
def usedEnvironment (name : String) : Environment :=
  { metadata := { name := name, finalizers := [releaseFinalizer], deletionTimestamp := some 0 }
    spec := { providers := some { iut := "iut", logArea := "log-area", executionSpace := "execution-space" } }
    status := { conditions := [readyForUse] } }

def usedRequest : EnvironmentRequest :=
  ⟨{ name := "request" }, { image := some { image := "environment-provider" } }, {}⟩

/-- The release job of that Environment. -/
def usedReleaseJob (name : String) : Job :=
  releaseJobOf (usedEnvironment name) usedRequest { image := "environment-provider" }
    (⟨{ name := "iut" }, {}, {}⟩, ⟨{ name := "iut-provider" }, {}, {}⟩)
    (⟨{ name := "log-area" }, {}, {}⟩, ⟨{ name := "log-area-provider" }, {}, {}⟩)
    (⟨{ name := "execution-space" }, {}, {}⟩, ⟨{ name := "execution-space-provider" }, {}, {}⟩)

/-- An Environment with the name of a container. -/
theorem release_completed_namesake :
    (reconcile (usedEnvironment "environment-provider")).Keeps (releaseAnswers (usedReleaseJob "environment-provider"))
      CompletesAsCompleted fun _ => True :=
  (release_completed_iff (usedEnvironment "environment-provider") _ _ _ _ _ rfl rfl).mpr (.inl (by decide))

/-- **A successful release is reported as Failed.** -/
theorem release_reported_failed :
    (usedEnvironment "environment").status.completionTime = none ∧
    isStatusReason (usedEnvironment "environment").status.conditions .active .timedOut = false ∧
    ¬ (reconcile (usedEnvironment "environment")).Keeps (releaseAnswers (usedReleaseJob "environment"))
      CompletesAsCompleted fun _ => True := by
  refine ⟨rfl, rfl, fun h => ?_⟩
  have hpod := ranPod_successfully (usedReleaseJob "environment")
  have h : (reconcileReleaser (usedEnvironment "environment")).Keeps (releaseAnswers (usedReleaseJob "environment"))
    CompletesAsCompleted fun _ => True := h
  obtain ⟨manager, h⟩ := keeps_reconcileReleaser h hpod
  have hfailed : (releaseResult (usedEnvironment "environment") (ranPod (usedReleaseJob "environment"))).conclusion =
    conclusionFailed := (concluded_of_missing hpod (by decide)).1
  refine not_keeps_releasedWith rfl rfl (Bool.of_not_eq_false fun hsame => ?_) ?_ h
  · exact absurd ((releasedCondition_unchanged_iff rfl rfl hfailed).mp hsame).1 (by decide)
  · rw [releasedCondition_reason rfl, if_pos hfailed]
    decide

end

end Etos.EnvironmentReconciler
