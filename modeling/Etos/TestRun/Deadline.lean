import Etos.Controller.Quiet
import Etos.TestRun.Runs

/-!
# `TestRun.Deadline` — when a TestRun past its deadline is completed

The deadline check is the last thing `Reconcile` does. Before it come the cluster, the message bus, the providers
and the steps of `reconcile`, each of which can end the `Reconcile` early. `Unblocked s tr` collects what has to
be there for the deadline check to be reached, and `reconcile_completes` shows that it is enough: in a quiet
namespace with the content `s`, every path of one `Reconcile` persists a completion time.

The proof follows the source once more, one lemma per function. What a step hands on is `InStep`: the TestRun in
memory is the stored one up to its status, so the next write is accepted, and it has not timed out yet, so the
deadline check has something to write.
-/

namespace Etos

open Kube TestRunReconciler

/-- After a deadline: the clocks are past it, and the message bus can be reached. -/
def after (deadline : Int) : (x : Ext) → ExtAns x → Prop
  | .clockNow, now => now > unixTime deadline
  | .timeNow, now => now > unixTime deadline
  | .getPublisher _, answer => answer = .ok ()
  | _, _ => True

/-- The call persists a completion time for the TestRun `name`, of which `x` is stored. -/
def Completes (name : String) (x : TestRun) (o : Op) : Prop :=
  ∃ y : TestRun, o = .updateStatus .testRun y ∧ y.name = name ∧
    y.metadata.resourceVersion = x.metadata.resourceVersion ∧ y.status.completionTime ≠ none

/-- Every path of one `Reconcile` after the deadline, in a quiet namespace, persists a completion time. -/
def TimesOut (adm : Admission Kind Spec Status) (s : Store Kind Spec Status) (r : TestRunReconciler)
    (x : TestRun) : Prop :=
  (r.Reconcile x.name).Reaches (Quiet Kind.testRun adm (after x.spec.deadline) s x.name) (Completes x.name)
    (fun _ _ => False) x

/-! ## What can keep a Reconcile from its deadline check -/

section Unblocked

variable (s : Store Kind Spec Status) (tr : TestRun)

/-- The EnvironmentRequests the TestRun controls. -/
def ownedRequests : List EnvironmentRequest := s.list .environmentRequest (owned tr.name)

/-- The jobs the TestRun controls. -/
def ownedJobs : List Job := s.list .job (owned tr.name)

/-- The Environment condition `checkEnvironment` sets is already there. -/
def EnvironmentReady : Prop :=
  ∃ c, findStatusCondition tr.status.conditions .environment = some c ∧
    c.status = .true ∧ c.reason = .completed ∧ c.message = "Environment ready"

/-- The status is written, and the deadline checked, before any job is looked at. -/
def WritesEarly : Prop :=
  findStatusCondition tr.status.conditions .environment = none ∨
  (isStatusReason tr.status.conditions .environment .failed = true ∧
    verdictSet tr.status.verdict = false) ∨
  (isStatusReason tr.status.conditions .environment .failed = false ∧
    ∃ request ∈ ownedRequests s tr, failedReady request ≠ none) ∨
  (s.list .environment (.label idLabel tr.spec.id) ≠ [] ∧ ¬ EnvironmentReady tr)

/-- An EnvironmentRequest is to be created. -/
def RequestMissing : Prop :=
  findStatusCondition tr.status.conditions .environment ≠ none ∧
    isStatusReason tr.status.conditions .environment .failed = false ∧
    ∃ suite ∈ tr.spec.suites, ∃ testrunner ∈ testrunners suite,
      requestFound suite testrunner (ownedRequests s tr) = false

/-- The suite runner job is to be created. -/
def SuiteRunnerMissing : Prop :=
  ownedJobs s tr = [] ∧ tr.deleting = false ∧
    isStatusReason tr.status.conditions .environment .completed = true

/-- **Nothing keeps a Reconcile from its deadline check**: the cluster is there with a message bus and its password, the
    three providers are available, nothing to be created misses a part, and unless the status is written before, the
    jobs have a common status. -/
structure Unblocked : Prop where
  cluster : ∃ cluster bus, s.find .cluster tr.spec.cluster = some cluster ∧
    cluster.spec.etosMessageBus = some bus ∧ bus.password ≠ none ∧
    (RequestMissing s tr → Equipped cluster tr)
  providers : ∀ n ∈ [tr.spec.providers.iut, tr.spec.providers.executionSpace, tr.spec.providers.logArea],
    ∃ p, s.find .provider n = some p ∧ Provider.available p = true
  jobs : WritesEarly s tr ∨
    (∃ status, ((jobManager tr).populate (ownedJobs s tr)).summary = .ok status) ∧
      (SuiteRunnerMissing s tr → ∃ suiteRunner, tr.spec.suiteRunner = some suiteRunner ∧
        suiteRunner.image.isSome = true)

end Unblocked

/-! ## The TestRun in memory -/

/-- The TestRun in memory is the stored one, up to its status, and has not timed out. -/
structure InStep (name : String) (spec : TestRunSpec) (tr x : TestRun) : Prop where
  metadata : tr.metadata = x.metadata
  name : x.name = name
  memory : tr.spec = spec
  stored : x.spec = spec
  active : isStatusReason tr.status.conditions .active .timedOut = false

variable {adm : Admission Kind Spec Status} {s : Store Kind Spec Status} {r : TestRunReconciler}
  {name : String} {spec : TestRunSpec} {tr x : TestRun}

theorem InStep.status {st : TestRunStatus} (h : InStep name spec tr x)
    (ha : isStatusReason st.conditions .active .timedOut = false) :
    InStep name spec { tr with status := st } x :=
  ⟨h.metadata, h.name, h.memory, h.stored, ha⟩

/-- What is set before the deadline check is not the timed out reason. -/
theorem InStep.set {c : Condition} (h : InStep name spec tr x) (hc : c.reason ≠ .timedOut) (now : Int) :
    InStep name spec
      { tr with status :=
        { tr.status with conditions := (setStatusCondition now c tr.status.conditions).1 } } x := by
  refine h.status ?_
  by_cases ht : c.type = .active
  · rw [← ht, isStatusReason_set_self]
    simpa using hc
  · rw [isStatusReason_set_ne (Ne.symm ht)]
    exact h.active

theorem InStep.verdict {u : Verdict} (h : InStep name spec tr x) :
    InStep name spec { tr with status := { tr.status with verdict := u } } x := h.status h.active

theorem InStep.inconclusive (h : InStep name spec tr x) :
    InStep name spec (setInconclusiveVerdictIfUnset tr).1 x := by
  rw [setInconclusiveVerdictIfUnset_eq]
  exact h.verdict

theorem InStep.verdictOrNone (h : InStep name spec tr x) : InStep name spec (verdictOrNone tr) x := by
  unfold TestRunReconciler.verdictOrNone
  split
  · exact h.verdict
  · exact h

/-- The server's answer to a status write is in step with what it stored. -/
theorem InStep.written (h : InStep name spec tr x) :
    InStep name spec (nextStatus x tr) (nextStatus x tr) :=
  ⟨rfl, h.name, h.stored, h.stored, h.active⟩

/-! ## Running without failures -/

/-- Along every path a completion time is persisted, or the program returns in `Q`. -/
abbrev Runs (adm : Admission Kind Spec Status) (s : Store Kind Spec Status) (name : String)
    (spec : TestRunSpec) {α : Type} (p : M α) (Q : α → TestRun → Prop) (x : TestRun) : Prop :=
  p.Reaches (Quiet Kind.testRun adm (after spec.deadline) s name) (Completes name) Q x

/-- A step of `reconcile` returns no error; if it has not written anything, it hands on `P`. -/
def Step (name : String) (spec : TestRunSpec) (P : TestRun → Prop) (out : Outcome) (x : TestRun) : Prop :=
  out.err = none ∧ InStep name spec out.testrun x ∧ (out.updated = false → P out.testrun)

/-- A call on something else, answered from the content. -/
theorem runs_other {α : Type} {o : Op} {k : Ans o → M α} {Q : α → TestRun → Prop}
    (hf : ¬ o.onFocus .testRun name)
    (h : ∀ a, s.answers adm (after spec.deadline) o a → Runs adm s name spec (k a) Q x) :
    Runs adm s name spec (.call o k) Q x := quiet_other hf h

theorem runs_setCondition {α : Type} {c : Condition} {f : TestRun × Bool → M α} {Q : α → TestRun → Prop}
    (h : ∀ now, Runs adm s name spec (f
      ({ tr with status := { tr.status with conditions := (setStatusCondition now c tr.status.conditions).1 } },
        (setStatusCondition now c tr.status.conditions).2)) Q x) :
    Runs adm s name spec (TestRunReconciler.setCondition tr c >>= f) Q x :=
  runs_other (by simp [Op.onFocus]) fun _ _ => h _

theorem runs_statusUpdate {α : Type} {f : TestRun × Option Err → M α} {Q : α → TestRun → Prop}
    (h : InStep name spec tr x) (hf : Runs adm s name spec (f (nextStatus x tr, none)) Q (nextStatus x tr)) :
    Runs adm s name spec (M.statusUpdate .testRun tr >>= f) Q x := by
  refine quiet_status ?_ ?_ hf
  · rw [Object.name, h.metadata]
    exact h.name
  · rw [h.metadata]

theorem runs_updated {P : TestRun → Prop} (h : InStep name spec tr x) :
    Runs adm s name spec (updated tr) (Step name spec P) x :=
  runs_statusUpdate h ⟨rfl, h.written, fun e => by cases e⟩

theorem runs_publish {α : Type} {result : Result} {f : Unit → M α} {Q : α → TestRun → Prop}
    (h : Runs adm s name spec (f ()) Q x) :
    Runs adm s name spec (publish tr result >>= f) Q x :=
  runs_other (by simp [Op.onFocus]) fun _ _ => h

/-- Writing a completion time is what is asked for. -/
theorem runs_complete {α : Type} {f : TestRun × Option Err → M α} {Q : α → TestRun → Prop}
    (h : InStep name spec tr x) (hc : tr.status.completionTime ≠ none) :
    Runs adm s name spec (M.statusUpdate .testRun tr >>= f) Q x := by
  refine .inl ⟨tr, rfl, ?_, ?_, hc⟩
  · rw [Object.name, h.metadata]
    exact h.name
  · rw [h.metadata]

/-! ## Programs that do not touch the TestRun -/

theorem deleteRequests_runs (requests : List EnvironmentRequest) :
    Runs adm s name spec (deleteRequests requests) (fun e x' => e = none ∧ x' = x) x := by
  induction requests with
  | nil => exact ⟨rfl, rfl⟩
  | cons request rest ih =>
      unfold deleteRequests
      split
      · exact ih
      · refine runs_other (by simp [Op.onFocus]) fun a ha => ?_
        cases a with
        | ok _ => exact ih
        | error e =>
            have hnf : e.isNotFound = true := ha
            show Runs adm s name spec (if e.isNotFound = true then _ else _) _ x
            rw [if_pos hnf]
            exact ih

theorem deleteEnvironmentRequests_runs :
    Runs adm s name spec (deleteEnvironmentRequests tr) (fun e x' => e = none ∧ x' = x) x := by
  refine runs_other (by simp [Op.onFocus]) fun a ha => ?_
  cases a with
  | error e => exact ha.elim
  | ok requests => exact deleteRequests_runs requests

theorem deleteAll_runs (jobs : List Job) :
    Runs adm s name spec (JobManager.deleteAll jobs) (fun e x' => e = none ∧ x' = x) x := by
  induction jobs with
  | nil => exact ⟨rfl, rfl⟩
  | cons job jobs ih =>
      unfold JobManager.deleteAll
      split
      · exact ih
      · refine runs_other (by simp [Op.onFocus]) fun a ha => ?_
        refine ih.bind ?_
        rintro _ x' ⟨rfl, rfl⟩
        refine ⟨?_, rfl⟩
        cases a with
        | ok _ => rfl
        | error e =>
            have hnf : e.isNotFound = true := ha
            simp [hnf]

/-- Reading the result of a job reads pods, and always returns. -/
theorem resultLoop_runs (manager : String) (names : List String) (jobs : List Job) (result : Result) :
    Runs adm s name spec (resultLoop manager names jobs result) (fun _ x' => x' = x) x := by
  induction jobs generalizing result with
  | nil => rfl
  | cons job jobs ih =>
      refine runs_other (by simp [Op.onFocus]) fun a ha => ?_
      cases a with
      | error e => rfl
      | ok pods =>
          cases pods with
          | nil => rfl
          | cons pod pods => exact ih _

theorem result_runs (j : JobManager) (containerName : String) :
    Runs adm s name spec (j.result containerName) (fun _ x' => x' = x) x :=
  (resultLoop_runs _ _ _ _).bind fun _ _ h => h

/-! ## The environment requests -/

/-- The fail-safe branch writes a verdict if there was none. -/
theorem failSafe_runs {P : TestRun → Prop} {description : String} {cleanup : M (Option Err)}
    (h : InStep name spec tr x)
    (hclean : ∀ x, Runs adm s name spec cleanup (fun e x' => e = none ∧ x' = x) x)
    (hP : verdictSet tr.status.verdict = true → P tr) :
    Runs adm s name spec (failSafe tr description cleanup) (Step name spec P) x := by
  refine runs_publish ?_
  refine (hclean x).bind ?_
  rintro _ x' ⟨rfl, rfl⟩
  split
  · refine runs_statusUpdate h.inconclusive ⟨rfl, h.inconclusive.written, fun e => by cases e⟩
  · rename_i hch
    rw [setInconclusiveVerdictIfUnset_eq] at hch
    exact ⟨rfl, h, fun _ => hP (by simpa using hch)⟩

/-- A request can be made if the pointers it dereferences are set. -/
theorem environmentRequest_runs {n testrunner : String} {cluster : Cluster} {tests : List Test} {dataset : Option Json}
    (hp : Equipped cluster tr) :
    Runs adm s name spec (environmentRequest n testrunner cluster tr tests dataset)
      (fun _ x' => x' = x) x := by
  obtain ⟨request, -, heq⟩ := environmentRequest_equipped hp n testrunner tests dataset
  rw [heq]
  refine runs_other (by simp [Op.onFocus]) fun _ _ => ?_
  refine runs_other (by simp [Op.onFocus]) fun _ _ => ?_
  exact rfl

theorem createRequests_runs {suite : Suite} {requests : List EnvironmentRequest} {cluster : Cluster}
    (order : List String)
    (hp : (∃ testrunner ∈ order, requestFound suite testrunner requests = false) → Equipped cluster tr) :
    Runs adm s name spec (createRequests suite requests tr cluster order)
      (fun e x' => e = none ∧ x' = x) x := by
  induction order with
  | nil => exact ⟨rfl, rfl⟩
  | cons testrunner rest ih =>
      have hrest := ih fun ⟨t, ht, hf⟩ => hp ⟨t, List.mem_cons_of_mem _ ht, hf⟩
      unfold createRequests
      split
      · exact hrest
      · rename_i hfound
        have hptr := hp ⟨testrunner, List.mem_cons_self, by simpa using hfound⟩
        refine (environmentRequest_runs hptr).bind ?_
        rintro request x' rfl
        refine runs_other (by simp [Op.onFocus]) fun a ha => ?_
        cases a with
        | error e => exact ha.elim
        | ok _ => exact hrest

theorem createForSuites_runs {requests : List EnvironmentRequest} {cluster : Cluster}
    (suites : List Suite)
    (hp : (∃ suite ∈ suites, ∃ testrunner ∈ testrunners suite,
        requestFound suite testrunner requests = false) → Equipped cluster tr) :
    Runs adm s name spec (createForSuites requests tr cluster suites)
      (fun e x' => e = none ∧ x' = x) x := by
  induction suites with
  | nil => exact ⟨rfl, rfl⟩
  | cons suite suites ih =>
      have hrest := ih fun ⟨t, ht, hf⟩ => hp ⟨t, List.mem_cons_of_mem _ ht, hf⟩
      unfold createForSuites createEnvironmentRequests
      rw [Prog.bind_assoc]
      refine runs_other (by simp [Op.onFocus]) fun order _ => ?_
      -- the map yields the test runners in some order
      refine (createRequests_runs order.val ?_).bind ?_
      · rintro ⟨t, ht, hf⟩
        exact hp ⟨suite, List.mem_cons_self, t, order.property.mem_iff.mp ht, hf⟩
      · rintro _ x' ⟨rfl, rfl⟩
        exact hrest

/-- The first failed request fails the environment; without one, nothing changes. -/
theorem failOnRequest_runs (requests : List EnvironmentRequest) {P : TestRun → Prop}
    (h : InStep name spec tr x) (hne : isStatusReason tr.status.conditions .environment .failed = false)
    (hP : (∀ request ∈ requests, failedReady request = none) → P tr) :
    Runs adm s name spec (failOnRequest tr requests) (Step name spec P) x := by
  induction requests with
  | nil => exact ⟨rfl, h, fun _ => hP fun _ hr => nomatch hr⟩
  | cons request rest ih =>
      unfold failOnRequest
      split
      · rename_i hready
        refine ih fun hall => hP fun r hr => ?_
        rcases List.mem_cons.mp hr with rfl | hr
        · exact hready
        · exact hall r hr
      · refine runs_setCondition fun now => ?_
        dsimp only
        split
        · exact runs_updated (h.set (by simp) now).inconclusive
        · -- the environment has not failed before, so the condition is new
          rename_i hch
          obtain ⟨_, c, hc, _, hr, _⟩ := set_unchanged (Bool.eq_false_iff.mpr hch)
          rw [isStatusReason, hc] at hne
          simp [hr] at hne

/-- What is left to do when `reconcileEnvironmentRequest` has not written anything. -/
def RequestsDone (s : Store Kind Spec Status) (tr tr' : TestRun) : Prop :=
  tr'.status.conditions = tr.status.conditions ∧ tr'.deleting = tr.deleting ∧
    findStatusCondition tr.status.conditions .environment ≠ none ∧
    (isStatusReason tr.status.conditions .environment .failed = true →
      verdictSet tr.status.verdict = true) ∧
    (isStatusReason tr.status.conditions .environment .failed = false →
      ∀ request ∈ ownedRequests s tr, failedReady request = none)

theorem reconcileEnvironmentRequest_runs {cluster : Cluster} (h : InStep name spec tr x)
    (hp : RequestMissing s tr → Equipped cluster tr) :
    Runs adm s name spec (reconcileEnvironmentRequest cluster tr)
      (Step name spec (RequestsDone s tr)) x := by
  unfold reconcileEnvironmentRequest
  split
  · exact runs_setCondition fun now => runs_updated (h.set (by simp) now)
  rename_i hsome
  split
  · rename_i hfailed
    refine failSafe_runs h (fun x => deleteEnvironmentRequests_runs) fun hv => ?_
    exact ⟨rfl, rfl, hsome, fun _ => hv, fun hne => absurd (hfailed.symm.trans hne) (by decide)⟩
  · rename_i hne
    have hne : isStatusReason tr.status.conditions .environment .failed = false := by simpa using hne
    refine runs_other (by simp [Op.onFocus]) fun a ha => ?_
    cases a with
    | error e => exact ha.elim
    | ok requests =>
        obtain rfl : requests = ownedRequests s tr := ha
        show Runs adm s name spec (reconcileRequests cluster tr (ownedRequests s tr)) _ x
        unfold reconcileRequests
        extract_lets _ tr'
        have hp' : (∃ suite ∈ tr'.spec.suites, ∃ testrunner ∈ testrunners suite,
            requestFound suite testrunner (ownedRequests s tr) = false) → Equipped cluster tr' :=
          fun hmissing => (hp ⟨hsome, hne, hmissing⟩).of_spec rfl
        refine (createForSuites_runs _ hp').bind ?_
        rintro _ x' ⟨rfl, rfl⟩
        refine failOnRequest_runs _ (h.status h.active) hne fun hall => ?_
        exact ⟨rfl, rfl, hsome, fun hf => absurd (hne.symm.trans hf) (by decide), fun _ => hall⟩

theorem checkEnvironment_runs (h : InStep name spec tr x) :
    Runs adm s name spec (checkEnvironment tr)
      (Step name spec fun tr' => tr'.status.conditions = tr.status.conditions ∧
        tr'.deleting = tr.deleting ∧
        (s.list .environment (.label idLabel tr.spec.id) = [] ∨ EnvironmentReady tr)) x := by
  refine runs_other (by simp [Op.onFocus]) fun a ha => ?_
  cases a with
  | error e => exact ha.elim
  | ok environments =>
      have hlist : environments = s.list .environment (.label idLabel tr.spec.id) := ha
      cases environments with
      | nil => exact ⟨rfl, h, fun _ => ⟨rfl, rfl, .inl hlist.symm⟩⟩
      | cons _ _ =>
        refine runs_setCondition fun now => ?_
        dsimp only
        split
        · exact runs_updated (h.set (by simp) now)
        · rename_i hch
          obtain ⟨hsame, c, hc⟩ := set_unchanged (Bool.eq_false_iff.mpr hch)
          exact ⟨rfl, h.set (by simp) now, fun _ => ⟨hsame, rfl, .inr ⟨c, hc⟩⟩⟩

/-! ## The suite runner -/

theorem suiteRunnerFinished_runs {result : Result} {c : Condition} {P : TestRun → Prop}
    (h : InStep name spec tr x) (hc : c.reason ≠ .timedOut) (hP : ∀ tr, P tr) :
    Runs adm s name spec (suiteRunnerFinished tr result c) (Step name spec P) x := by
  have hv : InStep name spec { tr with status := { tr.status with verdict := result.verdict } } x :=
    h.verdict
  refine runs_setCondition fun now => ?_
  dsimp only
  split
  · exact runs_publish (runs_updated (hv.set hc now))
  · exact ⟨rfl, hv.set hc now, fun _ => hP _⟩

theorem suiteRunnerActive_runs {P : TestRun → Prop} (h : InStep name spec tr x) (hP : ∀ tr, P tr) :
    Runs adm s name spec (suiteRunnerActive tr) (Step name spec P) x := by
  have hc : (suiteRunnerCondition .true .active "Job is running").reason ≠ .timedOut := by
    simp [suiteRunnerCondition]
  refine runs_setCondition fun now => ?_
  dsimp only
  split
  · exact runs_updated (h.verdictOrNone.set hc now)
  · split
    · exact runs_updated (h.verdictOrNone.set hc now)
    · exact ⟨rfl, h.verdictOrNone.set hc now, fun _ => hP _⟩

/-- The job can be made if the cluster exists and the suite runner has an image. -/
theorem suiteRunnerMissing_runs {P : TestRun → Prop} {cluster : Cluster} (h : InStep name spec tr x)
    (hcluster : s.find .cluster tr.spec.cluster = some cluster)
    (himage : tr.deleting = false → ∃ suiteRunner, tr.spec.suiteRunner = some suiteRunner ∧
      suiteRunner.image.isSome = true) (hP : ∀ tr, P tr) :
    Runs adm s name spec (suiteRunnerMissing tr) (Step name spec P) x := by
  unfold suiteRunnerMissing
  split
  · exact ⟨rfl, h, fun _ => hP _⟩
  rename_i hdel
  split
  · exact ⟨rfl, h, fun _ => hP _⟩
  · obtain ⟨suiteRunner, hsr, hi⟩ := himage (by simpa using hdel)
    obtain ⟨image, himg⟩ := Option.isSome_iff_exists.mp hi
    unfold JobManager.create suiteRunnerJob
    simp only [Prog.bind_assoc]
    refine runs_other (by simp [Op.onFocus]) fun a ha => ?_
    cases a with
    | error e =>
        have hnone : s.find .cluster tr.spec.cluster = none := ha.1
        rw [hcluster] at hnone
        cases hnone
    | ok _ =>
        simp only [hsr, himg]
        refine runs_other (by simp [Op.onFocus]) fun a ha => ?_
        cases a with
        | error e => exact ha.elim
        | ok job =>
            have hc : (suiteRunnerCondition .false .starting "Suite runner job created").reason ≠
                .timedOut := by simp [suiteRunnerCondition]
            refine runs_setCondition fun now => ?_
            dsimp only
            split
            · exact runs_updated (h.set hc now)
            · exact ⟨rfl, h.set hc now, fun _ => hP _⟩

theorem reconcileSuiteRunner_runs {P : TestRun → Prop} {cluster : Cluster} {manager : JobManager}
    {jobStatus : JobStatus} (h : InStep name spec tr x)
    (hcluster : s.find .cluster tr.spec.cluster = some cluster)
    (himage : jobStatus = .none → tr.deleting = false →
      isStatusReason tr.status.conditions .environment .completed = true →
      ∃ suiteRunner, tr.spec.suiteRunner = some suiteRunner ∧ suiteRunner.image.isSome = true)
    (hP : ∀ tr, P tr) :
    Runs adm s name spec (reconcileSuiteRunner tr manager jobStatus) (Step name spec P) x := by
  unfold reconcileSuiteRunner
  split
  · refine runs_setCondition fun now => runs_updated (h.set ?_ now)
    simp [suiteRunnerCondition]
  split
  · refine failSafe_runs h (fun x => ?_) fun _ => hP _
    refine (deleteAll_runs _).bind ?_
    rintro _ x' ⟨rfl, rfl⟩
    refine deleteEnvironmentRequests_runs.bind ?_
    rintro _ x'' ⟨rfl, rfl⟩
    exact ⟨rfl, rfl⟩
  split
  · exact ⟨rfl, h, fun _ => hP _⟩
  rename_i henv
  have henv : isStatusReason tr.status.conditions .environment .completed = true := by simpa using henv
  cases jobStatus with
  | failed =>
      refine (result_runs _ _).bind ?_
      rintro result x' rfl
      exact suiteRunnerFinished_runs h (by simp [suiteRunnerCondition]) hP
  | successful =>
      refine (result_runs _ _).bind ?_
      rintro result x' rfl
      split
      · exact suiteRunnerFinished_runs h (by simp [suiteRunnerCondition]) hP
      · exact suiteRunnerFinished_runs h (by simp [suiteRunnerCondition]) hP
  | active => exact suiteRunnerActive_runs h hP
  | none => exact suiteRunnerMissing_runs h hcluster (fun hdel => himage rfl hdel henv) hP

/-! ## `reconcile` and the deadline check -/

/-- The Active condition: a final one completes the TestRun then and there. -/
theorem reconcileActiveStatus_runs {P : TestRun → Prop} (h : InStep name spec tr x) (hP : ∀ tr, P tr) :
    Runs adm s name spec (reconcileActiveStatus tr) (Step name spec P) x := by
  unfold reconcileActiveStatus
  split
  · exact runs_setCondition fun now => runs_updated (h.set (by simp) now).verdictOrNone
  · split
    · exact ⟨rfl, h, fun _ => hP _⟩
    · rename_i condition hcond
      have hc : condition.reason ≠ .timedOut := by
        obtain ⟨_, ⟨_, hr, _⟩ | ⟨_, hr, _⟩ | ⟨_, hr, _⟩⟩ := activeCondition_cases hcond <;> simp [hr]
      refine runs_setCondition fun now => ?_
      dsimp only
      split
      · unfold activeChanged
        split
        · refine runs_other (by simp [Op.onFocus]) fun t _ => ?_
          exact runs_complete ⟨h.metadata, h.name, h.memory, h.stored, (h.set hc now).active⟩ (by simp [complete])
        · exact runs_updated (h.set hc now)
      · unfold activeUnchanged
        split
        · exact runs_updated (h.set hc now).inconclusive
        · exact ⟨rfl, h.set hc now, fun _ => hP _⟩

/-- `if updated || err != nil { return err }`. -/
theorem andThen_runs {P : TestRun → Prop} {step : M Outcome} {rest : TestRun → M (TestRun × Option Err)}
    {Q : TestRun × Option Err → TestRun → Prop}
    (h : Runs adm s name spec step (Step name spec P) x)
    (hdone : ∀ tr x, InStep name spec tr x → Q (tr, none) x)
    (hrest : ∀ tr x, InStep name spec tr x → P tr → Runs adm s name spec (rest tr) Q x) :
    Runs adm s name spec (andThen step rest) Q x := by
  refine h.bind fun out x' hout => ?_
  obtain ⟨herr, hin, hP⟩ := hout
  split
  · rw [herr]
    exact hdone _ _ hin
  · rename_i hu
    refine hrest _ _ hin (hP ?_)
    rw [herr] at hu
    simpa using hu

theorem reconcile_runs {cluster : Cluster} (h : InStep name spec tr x)
    (hcluster : s.find .cluster tr.spec.cluster = some cluster)
    (hp : RequestMissing s tr → Equipped cluster tr) (hu : Unblocked s tr) :
    Runs adm s name spec (reconcile cluster tr)
      (fun out x' => out.2 = none ∧ InStep name spec out.1 x') x := by
  refine (checkProviders_reaches (by decide) hu.providers).bind ?_
  rintro _ x' ⟨rfl, rfl⟩
  have hdone : ∀ (tr x : TestRun), InStep name spec tr x →
      ((tr, none) : TestRun × Option Err).2 = none ∧ InStep name spec (tr, (none : Option Err)).1 x :=
    fun _ _ h => ⟨rfl, h⟩
  refine andThen_runs (reconcileEnvironmentRequest_runs h hp) hdone fun tr₁ x₁ h₁ hreq => ?_
  refine andThen_runs (checkEnvironment_runs h₁) hdone fun tr₂ x₂ h₂ henv => ?_
  obtain ⟨hc₁, hd₁, hsome, hverdict, hready⟩ := hreq
  obtain ⟨hc₂, hd₂, henv⟩ := henv
  have hspec₁ : tr₁.spec = tr.spec := h₁.memory.trans h.memory.symm
  have hspec₂ : tr₂.spec = tr.spec := h₂.memory.trans h.memory.symm
  have hname : tr₂.name = tr.name := by
    rw [Object.name, Object.name, h₂.metadata, h.metadata]
    exact h₂.name.trans h.name.symm
  -- nothing was written, so the jobs are looked at
  have hlate : ¬ WritesEarly s tr := by
    rintro (hnone | ⟨hf, hv⟩ | ⟨hf, request, hmem, hfail⟩ | ⟨hne, hnot⟩)
    · exact hsome hnone
    · rw [hverdict hf] at hv
      cases hv
    · exact hfail (hready hf request hmem)
    · rcases henv with hnil | ⟨c, hc, hrest⟩
      · rw [hspec₁] at hnil
        exact hne hnil
      · exact hnot ⟨c, hc₁ ▸ hc, hrest⟩
  obtain ⟨⟨status, hstatus⟩, himage⟩ := hu.jobs.resolve_left hlate
  refine (status_reaches _).bind ?_
  rintro ⟨manager, jobStatus⟩ x₃ ⟨rfl, _, hsummary⟩
  have hjobs : jobManager tr₂ = jobManager tr := by unfold jobManager; rw [hname]
  rw [hjobs] at hsummary
  obtain rfl : jobStatus = .ok status := hsummary.trans hstatus
  have hcluster₂ : s.find .cluster tr₂.spec.cluster = some cluster := by rw [hspec₂]; exact hcluster
  refine andThen_runs (reconcileSuiteRunner_runs (P := fun _ => True) h₂ hcluster₂ ?_ fun _ => trivial) hdone
    fun tr₄ x₄ h₄ _ => ?_
  · rintro rfl hdel hready
    rw [hspec₂]
    refine himage ⟨JobManager.summary_none hstatus, ?_, ?_⟩
    · rw [← hdel, hd₂, hd₁]
    · rw [← hc₁, ← hc₂]
      exact hready
  · exact andThen_runs (reconcileActiveStatus_runs (P := fun _ => True) h₄ fun _ => trivial) hdone
      fun tr₅ x₅ h₅ _ => ⟨rfl, h₅⟩

/-- The deadline check has something to write: the TestRun has not timed out yet. -/
theorem checkDeadline_runs {Q : ReconcileResult × Option Err → TestRun → Prop} (h : InStep name spec tr x)
    (hd : spec.deadline ≠ 0) : Runs adm s name spec (r.checkDeadline tr) Q x := by
  unfold checkDeadline
  rw [if_neg (by rw [h.memory]; exact hd)]
  refine runs_other (by simp [Op.onFocus]) fun now hnow => ?_
  have hnow : now > unixTime spec.deadline := hnow
  rw [← h.memory] at hnow
  show Runs adm s name spec (if now > unixTime tr.spec.deadline then _ else _) Q x
  rw [if_pos hnow]
  refine runs_setCondition fun t => ?_
  dsimp only
  split
  · refine runs_other (by simp [Op.onFocus]) fun t' _ => ?_
    refine runs_publish ?_
    -- what is in memory now differs from the stored TestRun in its status only
    refine .inl ⟨_, rfl, ?_, ?_, by simp [complete]⟩
    · rw [setInconclusiveVerdictIfUnset_eq]
      show tr.metadata.name = name
      rw [h.metadata]
      exact h.name
    · rw [setInconclusiveVerdictIfUnset_eq]
      show tr.metadata.resourceVersion = _
      rw [h.metadata]
  · rename_i hch
    obtain ⟨_, c, hc, _, hr, _⟩ := set_unchanged (Bool.eq_false_iff.mpr hch)
    have hactive := h.active
    rw [isStatusReason, hc] at hactive
    simp [hr] at hactive

/-! ## `Reconcile` -/

/-- The same TestRun with other annotations. -/
structure Relabelled (x x' : TestRun) : Prop where
  name : x'.name = x.name
  spec : x'.spec = x.spec
  status : x'.status = x.status
  deleting : x'.deleting = x.deleting

theorem maybeAddTraceparentLabel_runs (r : TestRunReconciler) (x : TestRun) :
    Runs adm s x.name spec (r.maybeAddTraceparentLabel x)
      (fun out x' => out = (x', none) ∧ Relabelled x x') x := by
  unfold maybeAddTraceparentLabel
  split
  · exact ⟨rfl, rfl, rfl, rfl, rfl⟩
  split
  · exact ⟨rfl, rfl, rfl, rfl, rfl⟩
  · refine runs_other (by simp [Op.onFocus]) fun span _ => ?_
    exact quiet_update rfl rfl ⟨rfl, rfl, rfl, rfl, rfl⟩

/-- Annotations block nothing. -/
theorem Unblocked.relabelled {x' : TestRun} (h : Unblocked s x) (hr : Relabelled x x') : Unblocked s x' := by
  obtain ⟨hc, hp, hj⟩ := h
  have hreq : ownedRequests s x' = ownedRequests s x := by unfold ownedRequests; rw [hr.name]
  refine ⟨?_, by rw [hr.spec]; exact hp, ?_⟩
  · unfold RequestMissing at hc ⊢
    rw [hr.spec, hr.status, hreq]
    obtain ⟨cluster, bus, hcluster, hbus, hpassword, hequipped⟩ := hc
    exact ⟨cluster, bus, hcluster, hbus, hpassword, fun hmissing => (hequipped hmissing).of_spec hr.spec⟩
  · unfold WritesEarly SuiteRunnerMissing EnvironmentReady ownedJobs jobManager at hj ⊢
    rw [hr.name, hr.spec, hr.status, hr.deleting, hreq]
    exact hj

theorem reconcileRunning_runs {Q : ReconcileResult × Option Err → TestRun → Prop}
    (h : InStep name spec tr x) (hd : spec.deadline ≠ 0) (hu : Unblocked s tr) :
    Runs adm s name spec (r.reconcileRunning tr) Q x := by
  obtain ⟨cluster, bus, hcluster, hbus, hpassword, hp⟩ := hu.cluster
  refine runs_other (by simp [Op.onFocus]) fun a ha => ?_
  cases a with
  | error e =>
      have hnone : s.find .cluster tr.spec.cluster = none := ha.1
      rw [hcluster] at hnone
      cases hnone
  | ok cluster' =>
      have hsome : s.find .cluster tr.spec.cluster = some cluster' := ha
      obtain rfl := Option.some.inj (hcluster.symm.trans hsome)
      obtain ⟨password, hpassword⟩ := Option.ne_none_iff_exists'.mp hpassword
      simp only [Prog.bind, hbus, getPublisher, hpassword]
      refine runs_other (by simp [Op.onFocus]) fun a ha => ?_
      obtain rfl : a = .ok () := ha
      refine (reconcile_runs h hcluster hp hu).bind ?_
      rintro ⟨tr', err⟩ x' ⟨rfl, hin'⟩
      exact checkDeadline_runs hin' hd

/-- **An unblocked TestRun times out**: with a deadline, not completed and not timed out, every path of one
    `Reconcile` after the deadline persists a completion time. -/
theorem unblocked_timesOut (r : TestRunReconciler) (hd : x.spec.deadline ≠ 0)
    (hopen : x.status.completionTime = none)
    (hactive : isStatusReason x.status.conditions .active .timedOut = false) (hu : Unblocked s x) :
    TimesOut adm s r x := by
  refine quiet_get ?_
  refine (maybeAddTraceparentLabel_runs r x).bind ?_
  rintro _ x' ⟨rfl, hr⟩
  have hopen' : x'.status.completionTime = none := by rw [hr.status]; exact hopen
  simp only [hopen']
  refine reconcileRunning_runs ⟨rfl, hr.name, hr.spec, hr.spec, ?_⟩ hd (hu.relabelled hr)
  rw [hr.status]
  exact hactive

/-! ## Reachable TestRuns -/

/-- A TestRun that has not completed has not timed out. -/
def Untimed (v : View) : Prop := v.completion = none → v.reason .active ≠ some .timedOut

theorem Untimed.write {v v' : View} {d : Digest} (h : Untimed v) (hw : Writes name d v v') : Untimed v' := by
  rcases hw with ⟨hc, hw⟩ | ⟨_, hw⟩
  · cases hw with
    | activeFailed | activeCompleted => exact fun hnone => by cases hnone
    | providers | activePending | activeActive => exact fun _ => by simp
    | _ => exact fun _ => by simpa using h hc
  · cases hw with
    | exceeded => exact fun hnone => by cases hnone
    | verdict hto _ _ => exact fun hnone => absurd hto (h hnone)

/-- The deadline check of a reachable TestRun always has something to write. -/
theorem reachable_untimed {c} (h : (r.system name spec).Reachable c) :
    c.state.WF name spec ∧ Untimed c.state.stored.status.view := by
  refine run_invariant (I := fun w => Untimed w.stored.status.view) ?_ ?_ ?_ ?_ h.restrict_true
  · intro o _ hs
    show Untimed o.status.view
    rw [hs]
    exact fun _ => by simp [TestRunStatus.view, View.reason]
  · exact fun w _ hI => hI
  · intro w o a w' hwf hI hall hs _
    obtain ⟨_, _, _, ⟨_, hst⟩ | ⟨_, hw⟩⟩ := step_cases hwf hall hs
    · rw [hst]
      exact hI
    · exact hI.write hw
  · intro w w' _ hI he
    rw [(env_cases he).1]
    exact hI

end Etos
