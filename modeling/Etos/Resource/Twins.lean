import Etos.Controller.Resource
import Etos.Prog.Similar
import Mathlib.Data.List.Forall2

/-!
# `Resource.Twins` — the three resource controllers are one state machine

An Iut, a LogArea and an ExecutionSpace that correspond (`Corresponds`) have the same metadata and conditions of the
same types, with the same status and reason; their messages and completion times may differ. When corresponding
resources are reconciled, and their reconcilers hear the same about owners, deletion, jobs and the outcomes of writes,
they make the same calls up to the kind of the resource (`Reconcile_similar`), and what they store corresponds again. So
the controllers stay in step over any number of rounds (**`resource_reconcilers_in_step`**).

A reconciler writes a condition only if that changes it, which depends on its message, too. That is why messages
correspond where a reconciler compares them (`MessagesAlike`).
-/

namespace Etos

open Kube

namespace ResourceReconciler

/-! ## Corresponding resources -/

variable (r r' : ResourceKind)

/-- The messages of a condition with a reason. A message that may be written again is equal to the one of its kind on
    both sides or on none. -/
def MessagesAlike : Reason → String → String → Prop
  | .pending, m, m' => m = r.releasingMessage ↔ m' = r'.releasingMessage
  | .active, m, m' => m = "In use" ↔ m' = "In use"
  | _, _, _ => True

/-- Conditions that differ in the message and the time only. -/
structure CondAlike (c c' : Condition) : Prop where
  type : c.type = c'.type
  status : c.status = c'.status
  reason : c.reason = c'.reason
  message : MessagesAlike r r' c.reason c.message c'.message

/-- Active says Completed only if there is a completion time. -/
def Finished (status : ReleasableStatus) : Prop :=
  isStatusReason status.conditions .active .completed = true → status.completionTime.isSome = true

/-- Resources in corresponding states. -/
structure Corresponds (x : Resource r) (x' : Resource r') : Prop where
  metadata : x.metadata = x'.metadata
  conditions : List.Forall₂ (CondAlike r r') x.status.conditions x'.status.conditions
  completionTime : x.status.completionTime.isSome = x'.status.completionTime.isSome
  finished : Finished x.status

/-- Both calls fail, for the same reason, or both succeed. -/
inductive AnswersAlike {α β : Type} (R : α → β → Prop) : Except Err α → Except Err β → Prop where
  | error {e e'} (h : e.reason = e'.reason) : AnswersAlike R (.error e) (.error e')
  | ok {a b} (h : R a b) : AnswersAlike R (.ok a) (.ok b)

/-- Jobs that are equally far. -/
structure JobsAlike (job job' : Job) : Prop where
  name : job.name = job'.name
  deleting : job.deleting = job'.deleting
  conditions : job.status.conditions = job'.status.conditions

/-- Pods of which the releaser's container has reported the same. -/
structure PodsAlike (pod pod' : Pod) : Prop where
  created : pod.metadata.creationTimestamp = pod'.metadata.creationTimestamp
  log : terminationLog pod r.releaserName = terminationLog pod' r'.releaserName

/-- The release job of a resource, for this provider and request. -/
def ownReleaseJob (resource : Resource r) (provider : Provider) (request : EnvironmentRequest) : Job :=
  let job := r.releaser resource request provider true
  { job with metadata := job.metadata.setControllerReference apiV2GroupVersionString r.kindName resource.name }

/-! ## Matching calls

The providers and the requests of the two need not be the same. `P` and `E` say how they are related. -/

variable (P : Provider → Provider → Prop) (E : EnvironmentRequest → EnvironmentRequest → Prop)

/-- The calls of the two reconcilers that match, and the answers to them. -/
inductive Matched (name : String) : (o o' : Op) → (Ans o → Ans o' → Prop) → Prop where
  | get : Matched name (.get (.resource r) name) (.get (.resource r') name) (AnswersAlike (Corresponds r r'))
  | provider {n n'} : Matched name (.get .provider n) (.get .provider n') (AnswersAlike P)
  | request {n n'} : Matched name (.get .environmentRequest n) (.get .environmentRequest n') (AnswersAlike E)
  | jobs {n} : Matched name (.list .job (.controlledBy apiV2GroupVersionString r.kindName n))
      (.list .job (.controlledBy apiV2GroupVersionString r'.kindName n)) (AnswersAlike (List.Forall₂ JobsAlike))
  | pods {n} : Matched name (.list .pod (.label "job-name" n)) (.list .pod (.label "job-name" n))
      (AnswersAlike (List.Forall₂ (PodsAlike r r')))
  | create {x x' p p' e e'} (hx : Corresponds r r' x x') (hp : P p p') (he : E e e') :
      Matched name (.create .job (ownReleaseJob r x p e)) (.create .job (ownReleaseJob r' x' p' e'))
        (AnswersAlike fun _ _ => True)
  | delete {n} : Matched name (.delete .job n) (.delete .job n) (AnswersAlike fun _ _ => True)
  | update {x x'} (hx : Corresponds r r' x x') : Matched name (.update (.resource r) x) (.update (.resource r') x')
      (AnswersAlike (Corresponds r r'))
  | status {x x'} (hx : Corresponds r r' x x') :
      Matched name (.updateStatus (.resource r) x) (.updateStatus (.resource r') x') (AnswersAlike (Corresponds r r'))

/-- Readings of the clock are not compared. -/
def ReadsClock (o : Op) : Prop := o = .ext .timeNow

/-- Both have no error, or errors with the same reason. -/
def ErrorsAlike : Option Err → Option Err → Prop
  | none, none => True
  | some e, some e' => e.reason = e'.reason
  | _, _ => False

section

variable {r r' P E} {name : String} {x : Resource r} {x' : Resource r'} {c c' : Condition}

/-! ## Conditions -/

/-- What is found in corresponding conditions corresponds. -/
theorem find_alike {cs cs' : List Condition} (h : List.Forall₂ (CondAlike r r') cs cs') (t : ConditionType) :
    Option.Rel (CondAlike r r') (findStatusCondition cs t) (findStatusCondition cs' t) := by
  induction h with
  | nil => exact .none
  | @cons c c' _ _ hc _ ih =>
      rw [findStatusCondition_cons, findStatusCondition_cons, ← hc.type]
      split
      · exact .some hc
      · exact ih

theorem find_none_iff (h : Corresponds r r' x x') :
    findStatusCondition x.status.conditions .active = none ↔
      findStatusCondition x'.status.conditions .active = none := by
  have halike := find_alike h.conditions .active
  generalize findStatusCondition x.status.conditions .active = found at halike ⊢
  generalize findStatusCondition x'.status.conditions .active = found' at halike ⊢
  cases halike <;> simp

theorem find_alike_some (h : Corresponds r r' x x') (hc : findStatusCondition x.status.conditions .active = some c) :
    ∃ c', findStatusCondition x'.status.conditions .active = some c' ∧ CondAlike r r' c c' := by
  have halike := find_alike h.conditions .active
  rw [hc] at halike
  generalize findStatusCondition x'.status.conditions .active = found' at halike ⊢
  cases halike with
  | some hc => exact ⟨_, rfl, hc⟩

/-- The message of a condition is compared with the one that is found. -/
def SameChange (cs cs' : List Condition) (c c' : Condition) : Prop :=
  ∀ a a', findStatusCondition cs c.type = some a → findStatusCondition cs' c.type = some a' → a.reason = c.reason →
    (a.message = c.message ↔ a'.message = c'.message)

theorem set_alike (now now' : Int) {cs cs' : List Condition} (h : List.Forall₂ (CondAlike r r') cs cs')
    (hc : CondAlike r r' c c') (hsame : SameChange cs cs' c c') :
    List.Forall₂ (CondAlike r r') (setStatusCondition now c cs).1 (setStatusCondition now' c' cs').1 ∧
      (setStatusCondition now c cs).2 = (setStatusCondition now' c' cs').2 := by
  induction h with
  | nil => exact ⟨.cons ⟨hc.type, hc.status, hc.reason, hc.message⟩ .nil, rfl⟩
  | @cons a a' cs cs' ha htail ih =>
      unfold setStatusCondition
      by_cases ht : a.type = c.type
      · have ht' : a'.type = c'.type := by rw [← ha.type, ht, hc.type]
        rw [if_pos ht, if_pos ht']
        refine ⟨.cons ⟨ha.type, hc.status, hc.reason, hc.message⟩ htail, ?_⟩
        -- whether anything changes depends on the message only if the reason stays
        have hmessage : a.reason = c.reason → (a.message = c.message ↔ a'.message = c'.message) := by
          refine hsame a a' ?_ ?_
          · rw [findStatusCondition_cons, if_pos ht]
          · rw [findStatusCondition_cons, if_pos (ha.type ▸ ht)]
        rw [← ha.status, ← ha.reason, ← hc.status, ← hc.reason]
        by_cases hreason : a.reason = c.reason
        · simp [hmessage hreason]
        · simp [hreason]
      · have ht' : a'.type ≠ c'.type := by
          rw [← ha.type, ← hc.type]
          exact ht
        rw [if_neg ht, if_neg ht']
        have hrest : SameChange cs cs' c c' := by
          intro b b' hb hb'
          refine hsame b b' ?_ ?_
          · rwa [findStatusCondition_cons, if_neg ht]
          · rwa [findStatusCondition_cons, if_neg (ha.type ▸ ht)]
        obtain ⟨hlist, hchanged⟩ := ih hrest
        exact ⟨.cons ha hlist, hchanged⟩

/-- Setting Active on corresponding resources. -/
theorem Corresponds.set (now now' : Int) (h : Corresponds r r' x x') (hc : CondAlike r r' c c')
    (htype : c.type = .active) (hdone : c.reason = .completed → x.status.completionTime.isSome = true)
    (hsame : SameChange x.status.conditions x'.status.conditions c c') :
    Corresponds r r' (conditionSet now x c) (conditionSet now' x' c') ∧
      conditionChanged now x c = conditionChanged now' x' c' := by
  obtain ⟨hlist, hchanged⟩ := set_alike now now' h.conditions hc hsame
  refine ⟨⟨h.metadata, hlist, h.completionTime, fun hreason => hdone ?_⟩, hchanged⟩
  have hself : isStatusReason (setStatusCondition now c x.status.conditions).1 c.type .completed =
      decide (c.reason = .completed) := isStatusReason_set_self
  rw [htype] at hself
  exact of_decide_eq_true (hself.symm.trans hreason)

/-! ## Jobs -/

/-- Managers of corresponding owners, with jobs that are equally far. -/
structure ManagersAlike (j j' : JobManager) : Prop where
  name : j.name = j'.name
  active : List.Forall₂ JobsAlike j.activeJobs j'.activeJobs
  failed : List.Forall₂ JobsAlike j.failedJobs j'.failedJobs
  successful : List.Forall₂ JobsAlike j.successfulJobs j'.successfulJobs

theorem isJobFinished_alike {job job' : Job} (h : JobsAlike job job') : isJobFinished job = isJobFinished job' := by
  unfold isJobFinished
  rw [h.conditions]

theorem filter_alike {jobs jobs' : List Job} (h : List.Forall₂ JobsAlike jobs jobs') (t : Option JobConditionType) :
    List.Forall₂ JobsAlike (jobs.filter (fun job => isJobFinished job = t))
      (jobs'.filter (fun job => isJobFinished job = t)) := by
  refine List.rel_filter (fun job job' halike => ?_) h
  show decide (isJobFinished job = t) = true ↔ decide (isJobFinished job' = t) = true
  rw [isJobFinished_alike halike]

theorem populate_alike {j j' : JobManager} (hname : j.name = j'.name) {jobs jobs' : List Job}
    (h : List.Forall₂ JobsAlike jobs jobs') : ManagersAlike (j.populate jobs) (j'.populate jobs') :=
  ⟨hname, filter_alike h _, filter_alike h _, filter_alike h _⟩

theorem isEmpty_alike {α β : Type} {R : α → β → Prop} {as : List α} {bs : List β} (h : List.Forall₂ R as bs) :
    as.isEmpty = bs.isEmpty := by
  cases h <;> rfl

theorem ManagersAlike.summary {j j' : JobManager} (h : ManagersAlike j j') : j.summary = j'.summary := by
  unfold JobManager.summary JobManager.active JobManager.successful JobManager.failed JobManager.empty
  rw [isEmpty_alike h.active, isEmpty_alike h.failed, isEmpty_alike h.successful]

theorem ManagersAlike.considered {j j' : JobManager} (h : ManagersAlike j j') :
    List.Forall₂ JobsAlike j.considered j'.considered := by
  unfold JobManager.considered JobManager.successful JobManager.failed
  rw [isEmpty_alike h.active, isEmpty_alike h.failed, isEmpty_alike h.successful]
  split
  · exact h.successful
  split
  · exact h.failed
  · exact .nil

/-- In step, with related results. -/
abbrev Alike (r r' : ResourceKind) (P : Provider → Provider → Prop) (E : EnvironmentRequest → EnvironmentRequest → Prop)
    (name : String) {α β : Type} (Q : α → β → Prop) (p : M α) (p' : M β) : Prop :=
  Similar (Matched r r' P E name) ReadsClock Q p p'

theorem status_alike {j j' : JobManager} (hj : ManagersAlike j j')
    (hversion : j.ownerAPIVersion = apiV2GroupVersionString ∧ j'.ownerAPIVersion = apiV2GroupVersionString)
    (hkind : j.ownerKind = r.kindName ∧ j'.ownerKind = r'.kindName) :
    Alike r r' P E name (fun out out' => ManagersAlike out.1 out'.1 ∧ AnswersAlike Eq out.2 out'.2) j.status
      j'.status := by
  unfold JobManager.status
  rw [hversion.1, hversion.2, hkind.1, hkind.2, hj.name]
  refine .call .jobs fun a a' ha => ?_
  cases ha with
  | error h => exact .ret ⟨hj, .error h⟩
  | ok h =>
      have hpopulated := populate_alike hj.name h
      refine .ret ⟨hpopulated, ?_⟩
      dsimp only
      rw [hpopulated.summary]
      cases JobManager.summary _ with
      | error e => exact .error rfl
      | ok status => exact .ok rfl

/-- The latest of corresponding pods. -/
theorem latestPod_alike {pod pod' : Pod} {pods pods' : List Pod} (hpod : PodsAlike r r' pod pod')
    (h : List.Forall₂ (PodsAlike r r') pods pods') :
    PodsAlike r r' (getLatestPodByCreationTimestamp pod pods) (getLatestPodByCreationTimestamp pod' pods') := by
  unfold getLatestPodByCreationTimestamp
  induction h generalizing pod pod' with
  | nil => exact hpod
  | @cons p p' _ _ hp _ ih =>
      rw [List.foldl_cons, List.foldl_cons]
      refine ih ?_
      rw [hpod.created, hp.created]
      split
      · exact hp
      · exact hpod

/-- The container of each kind concludes the same. -/
theorem addContainer_alike {pod pod' : Pod} {result result' : Result} {n n' : String} (hpod : PodsAlike r r' pod pod')
    (h : result.conclusion = result'.conclusion) :
    (addContainer n pod result r.releaserName).conclusion =
      (addContainer n' pod' result' r'.releaserName).conclusion := by
  unfold addContainer
  rw [hpod.log, h]

theorem resultLoop_alike {n n' : String} {jobs jobs' : List Job} (hjobs : List.Forall₂ JobsAlike jobs jobs')
    {result result' : Result} (h : result.conclusion = result'.conclusion) :
    Alike r r' P E name (fun out out' => out.conclusion = out'.conclusion)
      (resultLoop n [r.releaserName] jobs result) (resultLoop n' [r'.releaserName] jobs' result') := by
  induction hjobs generalizing result result' with
  | nil => exact .ret h
  | @cons job job' _ _ hjob _ ih =>
      unfold resultLoop
      rw [hjob.name]
      refine .call .pods fun a a' ha => ?_
      cases ha with
      | error h => exact .ret rfl
      | ok hpods =>
          cases hpods with
          | nil => exact .ret rfl
          | cons hpod hpods => exact ih (addContainer_alike (latestPod_alike hpod hpods) h)

theorem result_alike {j j' : JobManager} (hj : ManagersAlike j j') :
    Alike r r' P E name (fun out out' => out.conclusion = out'.conclusion) (j.result r.releaserName)
      (j'.result r'.releaserName) := by
  refine (resultLoop_alike hj.considered rfl).bind fun out out' h => .ret ?_
  unfold concluded
  rw [h]
  split
  · exact h
  · rfl

theorem deleteAll_alike {jobs jobs' : List Job} (h : List.Forall₂ JobsAlike jobs jobs') :
    Alike r r' P E name (fun _ _ => True) (JobManager.deleteAll jobs) (JobManager.deleteAll jobs') := by
  induction h with
  | nil => exact .ret trivial
  | @cons job job' _ _ hjob _ ih =>
      unfold JobManager.deleteAll
      rw [hjob.deleting, hjob.name]
      split
      · exact ih
      · exact .call .delete fun _ _ _ => ih.bind fun _ _ _ => .ret trivial

/-! ## Writing -/

theorem persist_alike (h : Corresponds r r' x x') :
    Alike r r' P E name ErrorsAlike (persist r x) (persist r' x') := by
  refine .call (.status h) fun a a' ha => ?_
  cases ha with
  | error h => exact .ret h
  | ok _ => exact .ret trivial

/-- Setting a condition, each at a time of its own. -/
theorem setCondition_alike {α β : Type} {Q : α → β → Prop} {f : Resource r × Bool → M α} {f' : Resource r' × Bool → M β}
    (h : ∀ now now', Alike r r' P E name Q (f (conditionSet now x c, conditionChanged now x c))
      (f' (conditionSet now' x' c', conditionChanged now' x' c'))) :
    Alike r r' P E name Q (setCondition x c >>= f) (setCondition x' c' >>= f') := by
  rw [setCondition_bind, setCondition_bind]
  exact .left rfl fun t => .right rfl fun t' => h (unixSeconds t) (unixSeconds t')

theorem setAndPersist_alike (h : Corresponds r r' x x') (hc : CondAlike r r' c c') (htype : c.type = .active)
    (hdone : c.reason ≠ .completed) (hsame : SameChange x.status.conditions x'.status.conditions c c') :
    Alike r r' P E name ErrorsAlike (setAndPersist r x c) (setAndPersist r' x' c') := by
  refine setCondition_alike fun now now' => ?_
  obtain ⟨hset, hchanged⟩ := h.set now now' hc htype (fun hr => absurd hr hdone) hsame
  dsimp only
  rw [hchanged]
  split
  · exact persist_alike hset
  · exact .ret trivial

/-! ## Messages -/

/-- Releasing a resource, in the words of its kind. -/
theorem releasing_alike :
    CondAlike r r' (inactive .pending r.releasingMessage) (inactive .pending r'.releasingMessage) :=
  ⟨rfl, rfl, rfl, iff_of_true rfl rfl⟩

/-- The messages that are compared correspond. -/
theorem Corresponds.sameChange (h : Corresponds r r' x x') (htype : c.type = .active)
    (hmessage : ∀ m m', MessagesAlike r r' c.reason m m' → (m = c.message ↔ m' = c'.message)) :
    SameChange x.status.conditions x'.status.conditions c c' := by
  intro a a' ha ha' hreason
  rw [htype] at ha ha'
  have halike := find_alike h.conditions .active
  rw [ha, ha'] at halike
  obtain ⟨-, -, -, halike⟩ := Option.rel_some_some.mp halike
  rw [hreason] at halike
  exact hmessage _ _ halike

/-- A new reason is a change. -/
theorem sameChange_of_reason {cs cs' : List Condition} (h : isStatusReason cs c.type c.reason = false) :
    SameChange cs cs' c c' := by
  intro a a' ha _ hreason
  rw [isStatusReason, ha] at h
  exact absurd hreason (of_decide_eq_false h)

theorem releasing_persisted (h : Corresponds r r' x x') : Alike r r' P E name ErrorsAlike
    (setAndPersist r x (inactive .pending r.releasingMessage))
    (setAndPersist r' x' (inactive .pending r'.releasingMessage)) :=
  setAndPersist_alike h releasing_alike rfl nofun (h.sameChange rfl fun _ _ hm => hm)

/-! ## The release job -/

theorem releaseJob_alike : Alike r r' P E name
    (AnswersAlike fun job job' => ∃ p p' e e', P p p' ∧ E e e' ∧ job = ownReleaseJob r x p e ∧
      job' = ownReleaseJob r' x' p' e') (releaseJob r x) (releaseJob r' x') := by
  refine .call .provider fun a a' ha => ?_
  cases ha with
  | error hreason => exact .ret (.error hreason)
  | ok hp =>
      refine .call .request fun a a' ha => ?_
      cases ha with
      | error hreason => exact .ret (.error hreason)
      | ok he => exact .ret (.ok ⟨_, _, _, _, hp, he, rfl, rfl⟩)

theorem create_alike (h : Corresponds r r' x x') : Alike r r' P E name ErrorsAlike
    (JobManager.create (releaseJob r x)) (JobManager.create (releaseJob r' x')) := by
  refine releaseJob_alike.bind fun out out' hout => ?_
  cases hout with
  | error _ => exact .ret rfl
  | ok hjobs =>
      obtain ⟨p, p', e, e', hp, he, rfl, rfl⟩ := hjobs
      refine .call (.create h hp he) fun a a' ha => ?_
      cases ha with
      | error hreason => exact .ret hreason
      | ok _ => exact .ret trivial

theorem isStatusReason_alike (h : Corresponds r r' x x') (reason : Reason) :
    isStatusReason x.status.conditions .active reason = isStatusReason x'.status.conditions .active reason := by
  have halike := find_alike h.conditions .active
  unfold isStatusReason
  generalize findStatusCondition x.status.conditions .active = found at halike ⊢
  generalize findStatusCondition x'.status.conditions .active = found' at halike ⊢
  cases halike with
  | none => rfl
  | some hc =>
      dsimp only
      rw [hc.reason]

/-- Failing, whatever the messages are. -/
theorem failed_alike {m m' : String} : CondAlike r r' (inactive .failed m) (inactive .failed m') :=
  ⟨rfl, rfl, rfl, trivial⟩

theorem notCreated_alike (h : Corresponds r r' x x') {err err' : Err} (herr : err.reason = err'.reason) :
    Alike r r' P E name ErrorsAlike (notCreated r x err) (notCreated r' x' err') := by
  unfold notCreated
  rw [← isStatusReason_alike h]
  split
  · exact .ret herr
  · rename_i hfailed
    refine setCondition_alike fun now now' => ?_
    have hc : CondAlike r r' (inactive .failed err.text) (inactive .failed err'.text) := failed_alike
    obtain ⟨hset, hchanged⟩ :=
      h.set now now' hc rfl nofun (sameChange_of_reason (Bool.eq_false_iff.mpr hfailed))
    dsimp only
    rw [hchanged]
    split
    · exact persist_alike hset
    · exact .ret herr

/-! ## After the release job -/

/-- Completing a resource: the clock is read, and the resource is written. -/
theorem released_settles {result : Result} (hfound : findStatusCondition x.status.conditions .active ≠ none)
    (hchanged : ∀ now, conditionChanged now x (releasedCondition result) = true) :
    Similar.Settles ReadsClock
      (fun q => ∃ now t, q = persist r (completeAt r (conditionSet now x (releasedCondition result)) t))
      (released r x result) := by
  have hclock : ∀ (s : ResourceKind) (x : Resource s),
      (∀ now, conditionChanged now x (releasedCondition result) = true) → Similar.Settles ReadsClock
        (fun q => ∃ now t, q = persist s (completeAt s (conditionSet now x (releasedCondition result)) t))
        (resourceReleased s x result) := by
    intro s x hchanged
    refine .silent rfl fun t => .silent rfl fun t' => .done ⟨unixSeconds t', unixSeconds t, ?_⟩
    have hc : conditionChanged (unixSeconds t') (completeAt s x (unixSeconds t)) (releasedCondition result) = true :=
      hchanged _
    exact if_pos hc
  cases r with
  | iut =>
      show Similar.Settles _ _ (iutReleased x result)
      unfold iutReleased
      split
      · contradiction
      · rw [setCondition_bind]
        exact .silent rfl fun t => .done ⟨unixSeconds t, _, if_pos (hchanged _)⟩
  | logArea => exact hclock _ x hchanged
  | executionSpace => exact hclock _ x hchanged

/-- A condition with a new reason is written. -/
theorem changed_of_reason (now : Int) (h : isStatusReason x.status.conditions c.type c.reason = false) :
    conditionChanged now x c = true := by
  by_contra hsame
  obtain ⟨-, a, ha, -, hreason, -⟩ := set_unchanged (Bool.eq_false_iff.mpr hsame)
  rw [isStatusReason, ha] at h
  exact of_decide_eq_false h hreason

theorem releasedCondition_alike {result result' : Result} (h : result.conclusion = result'.conclusion) :
    CondAlike r r' (releasedCondition result) (releasedCondition result') := by
  unfold releasedCondition
  rw [h]
  split <;> exact ⟨rfl, rfl, rfl, trivial⟩

/-- A resource under release has neither failed nor completed. -/
theorem releasedCondition_new {result : Result} (hfailed : isStatusReason x.status.conditions .active .failed = false)
    (hdone : Finished x.status) (hopen : x.status.completionTime = none) :
    isStatusReason x.status.conditions .active (releasedCondition result).reason = false := by
  show isStatusReason x.status.conditions .active (if _ then _ else _) = false
  split
  · exact hfailed
  · refine Bool.eq_false_iff.mpr fun hcompleted => ?_
    have hsome := hdone hcompleted
    rw [hopen] at hsome
    cases hsome

theorem Corresponds.complete (h : Corresponds r r' x x') (t t' : Int) :
    Corresponds r r' (completeAt r x t) (completeAt r' x' t') :=
  ⟨h.metadata, h.conditions, rfl, fun _ => rfl⟩

theorem released_alike (h : Corresponds r r' x x') {result result' : Result}
    (hresult : result.conclusion = result'.conclusion)
    (hfound : findStatusCondition x.status.conditions .active ≠ none)
    (hfailed : isStatusReason x.status.conditions .active .failed = false) (hopen : x.status.completionTime = none) :
    Alike r r' P E name ErrorsAlike (released r x result) (released r' x' result') := by
  have hc : CondAlike r r' (releasedCondition result) (releasedCondition result') := releasedCondition_alike hresult
  have hnew : isStatusReason x.status.conditions .active (releasedCondition result).reason = false :=
    releasedCondition_new hfailed h.finished hopen
  have hnew' : isStatusReason x'.status.conditions .active (releasedCondition result').reason = false := by
    rw [← isStatusReason_alike h, ← hc.reason]
    exact hnew
  refine .of_settles (released_settles hfound fun now => changed_of_reason now hnew)
    (released_settles ((find_none_iff h).not.mp hfound) fun now => changed_of_reason now hnew') ?_
  rintro _ _ ⟨now, t, rfl⟩ ⟨now', t', rfl⟩
  obtain ⟨hset, -⟩ := (h.complete t t').set now now' hc rfl (fun _ => rfl) (sameChange_of_reason hnew)
  exact persist_alike hset

/-! ## The reconcilers -/

theorem jobManager_alike (h : Corresponds r r' x x') : ManagersAlike (jobManager r x) (jobManager r' x') :=
  ⟨congrArg ObjectMeta.name h.metadata, .nil, .nil, .nil⟩

theorem Corresponds.deleting (h : Corresponds r r' x x') : x.deleting = x'.deleting := by
  unfold Object.deleting
  rw [h.metadata]

theorem reconcileReleaser_alike (h : Corresponds r r' x x')
    (hfound : findStatusCondition x.status.conditions .active ≠ none)
    (hfailed : isStatusReason x.status.conditions .active .failed = false) (hopen : x.status.completionTime = none) :
    Alike r r' P E name ErrorsAlike (reconcileReleaser r x) (reconcileReleaser r' x') := by
  refine (status_alike (jobManager_alike h) ⟨rfl, rfl⟩ ⟨rfl, rfl⟩).bind ?_
  rintro ⟨j, status⟩ ⟨j', status'⟩ ⟨hj, hstatus⟩
  cases hstatus with
  | error hreason => exact .ret hreason
  | @ok status _ heq =>
      subst heq
      cases status with
      | failed =>
          refine (result_alike hj).bind fun result result' _ => ?_
          exact setAndPersist_alike h failed_alike rfl nofun (sameChange_of_reason hfailed)
      | successful =>
          exact (result_alike hj).bind fun result result' hresult => released_alike h hresult hfound hfailed hopen
      | active => exact releasing_persisted h
      | none =>
          dsimp only
          rw [h.deleting]
          split
          · exact .ret trivial
          refine (create_alike h).bind fun err err' herr => ?_
          cases err with
          | none =>
              cases err' with
              | none => exact releasing_persisted h
              | some e' => exact herr.elim
          | some e =>
              cases err' with
              | none => exact herr.elim
              | some e' => exact notCreated_alike h herr

/-- The first condition of a resource. -/
theorem waiting_alike : CondAlike r r' (inactive .pending "Waiting for environment")
    (inactive .pending "Waiting for environment") := by
  refine ⟨rfl, rfl, rfl, ?_⟩
  show "Waiting for environment" = r.releasingMessage ↔ "Waiting for environment" = r'.releasingMessage
  refine iff_of_false ?_ ?_
  · cases r <;> decide
  · cases r' <;> decide

/-- The same metadata on both. -/
theorem Corresponds.withMeta (h : Corresponds r r' x x') (m : ObjectMeta) :
    Corresponds r r' { x with metadata := m } { x' with metadata := m } :=
  ⟨rfl, h.conditions, h.completionTime, h.finished⟩

theorem reconcile_alike (h : Corresponds r r' x x') (hopen : x.status.completionTime = none) :
    Alike r r' P E name ErrorsAlike (reconcile r x) (reconcile r' x') := by
  unfold reconcile
  cases hfound : findStatusCondition x.status.conditions .active with
  | none =>
      rw [show findStatusCondition x'.status.conditions .active = none from (find_none_iff h).mp hfound]
      refine setCondition_alike fun now now' => ?_
      have hsame : SameChange x.status.conditions x'.status.conditions (inactive .pending "Waiting for environment")
          (inactive .pending "Waiting for environment") := by
        intro a _ ha
        exact absurd (hfound.symm.trans ha) nofun
      exact persist_alike (h.set now now' waiting_alike rfl nofun hsame).1
  | some active =>
      obtain ⟨active', hfound', halike⟩ := find_alike_some h hfound
      rw [hfound']
      dsimp only
      rw [← halike.reason, ← h.deleting, ← h.metadata]
      split
      · exact .ret trivial
      · rename_i hreason
        split
        · split
          · exact .ret trivial
          · refine .call (.update (h.withMeta _)) fun a a' ha => ?_
            cases ha with
            | error hreason => exact .ret hreason
            | ok _ => exact .ret trivial
        · refine reconcileReleaser_alike h (by rw [hfound]; exact Option.some_ne_none _) ?_ hopen
          rw [isStatusReason, hfound]
          exact decide_eq_false hreason

theorem dropFinalizerIf_alike (h : Corresponds r r' x x') (drop : Bool) :
    Alike r r' P E name (fun out out' => Corresponds r r' out.1 out'.1 ∧ ErrorsAlike out.2 out'.2)
      (dropFinalizerIf r drop x) (dropFinalizerIf r' drop x') := by
  unfold dropFinalizerIf
  split
  · rw [← h.metadata]
    refine .call (.update (h.withMeta _)) fun a a' ha => ?_
    cases ha with
    | error hreason => exact .ret ⟨h.withMeta _, hreason⟩
    | ok hy => exact .ret ⟨hy, trivial⟩
  · exact .ret ⟨h, trivial⟩

/-- The results of a round: the same, up to the texts of errors. -/
def ResultsAlike (out out' : ReconcileResult × Option Err) : Prop := out.1 = out'.1 ∧ ErrorsAlike out.2 out'.2

theorem requeueOnConflict_alike {err err' : Option Err} (h : ErrorsAlike err err') :
    ResultsAlike (requeueOnConflict err) (requeueOnConflict err') := by
  cases err with
  | none =>
      cases err' with
      | none => exact ⟨rfl, trivial⟩
      | some e' => exact h.elim
  | some e =>
      cases err' with
      | none => exact h.elim
      | some e' =>
          have hreason : e.reason = e'.reason := h
          unfold requeueOnConflict Err.isConflict
          dsimp only
          rw [hreason]
          split
          · exact ⟨rfl, trivial⟩
          · exact ⟨rfl, hreason⟩

/-- An Environment manages the resources. -/
theorem managedCondition_alike (h : Corresponds r r' x x') :
    CondAlike r r' (managedCondition r x) (managedCondition r' x') ∧
      SameChange x.status.conditions x'.status.conditions (managedCondition r x) (managedCondition r' x') := by
  unfold managedCondition
  rw [← h.deleting]
  split
  · exact ⟨releasing_alike, h.sameChange rfl fun _ _ hm => hm⟩
  · exact ⟨⟨rfl, rfl, rfl, Iff.rfl⟩, h.sameChange rfl fun _ _ hm => hm⟩

theorem managedCondition_active (x : Resource r) :
    (managedCondition r x).type = .active ∧ (managedCondition r x).reason ≠ .completed := by
  unfold managedCondition
  split
  · exact ⟨rfl, nofun⟩
  · exact ⟨rfl, nofun⟩

theorem managed_alike (h : Corresponds r r' x x') :
    Alike r r' P E name ResultsAlike (managed r x) (managed r' x') := by
  unfold managed
  rw [← h.metadata]
  refine (dropFinalizerIf_alike h _).bind ?_
  rintro ⟨y, err⟩ ⟨y', err'⟩ ⟨hy, herr⟩
  cases err with
  | some e =>
      cases err' with
      | none => exact herr.elim
      | some e' => exact .ret (requeueOnConflict_alike herr)
  | none =>
      cases err' with
      | some e' => exact herr.elim
      | none =>
          obtain ⟨hc, hsame⟩ := managedCondition_alike hy
          obtain ⟨htype, hdone⟩ := managedCondition_active y
          exact (setAndPersist_alike hy hc htype hdone hsame).bind fun _ _ herr =>
            .ret (requeueOnConflict_alike herr)

theorem completed_alike (h : Corresponds r r' x x') :
    Alike r r' P E name ResultsAlike (completed r x) (completed r' x') := by
  unfold completed
  rw [← h.metadata, ← h.deleting]
  refine (dropFinalizerIf_alike h _).bind ?_
  rintro ⟨y, err⟩ ⟨y', err'⟩ ⟨hy, herr⟩
  cases err with
  | some e =>
      cases err' with
      | none => exact herr.elim
      | some e' => exact .ret (requeueOnConflict_alike herr)
  | none =>
      cases err' with
      | some e' => exact herr.elim
      | none => exact (deleteAll_alike .nil).bind fun _ _ _ => .ret ⟨rfl, trivial⟩

/-- **One round**: the reconcilers of corresponding resources are in step. -/
theorem Reconcile_similar : Alike r r' P E name ResultsAlike (Reconcile r name) (Reconcile r' name) := by
  refine .call .get fun a a' ha => ?_
  cases ha with
  | @error e e' hreason =>
      refine .ret ⟨rfl, ?_⟩
      unfold ignoreNotFound Err.isNotFound
      rw [hreason]
      split
      · trivial
      · exact hreason
  | @ok x x' h =>
      show Alike _ _ _ _ _ _ (if _ then _ else _) (if _ then _ else _)
      rw [← h.metadata]
      split
      · exact managed_alike h
      · have hcompletion := h.completionTime
        cases hx : x.status.completionTime with
        | some t =>
            rw [hx] at hcompletion
            obtain ⟨t', hx'⟩ := Option.isSome_iff_exists.mp hcompletion.symm
            rw [hx']
            exact completed_alike h
        | none =>
            rw [hx] at hcompletion
            rw [Option.isNone_iff_eq_none.mp (Option.isSome_eq_false_iff.mp hcompletion.symm)]
            exact (reconcile_alike h hx).bind fun _ _ herr => .ret (requeueOnConflict_alike herr)

end

/-! ## Round after round -/

/-- Every version that the two resources have had, newest first. -/
abbrev Versions := List (Resource r × Resource r')

/-- The server stores what was written; the rest of the metadata is up to it. -/
structure Stores (m written : ObjectMeta) : Prop where
  finalizers : m.finalizers = written.finalizers
  ownerReferences : m.ownerReferences = written.ownerReferences

/-- What two calls at once do. The outcomes are the same for both, whatever they are: each read of the resource may fail
    or be answered by an old version, and a write may be refused, or stored without the reconciler hearing of it. -/
inductive Served : Versions r r' → (o o' : Op) → Ans o → Ans o' → Versions r r' → Prop where
  | get {vs n a a'} (h : AnswersAlike (fun x x' => (x, x') ∈ vs) a a') :
      Served vs (.get (.resource r) n) (.get (.resource r') n) a a' vs
  | provider {vs n n' a a'} (h : AnswersAlike P a a') : Served vs (.get .provider n) (.get .provider n') a a' vs
  | request {vs n n' a a'} (h : AnswersAlike E a a') :
      Served vs (.get .environmentRequest n) (.get .environmentRequest n') a a' vs
  | jobs {vs sel sel' a a'} (h : AnswersAlike (List.Forall₂ JobsAlike) a a') :
      Served vs (.list .job sel) (.list .job sel') a a' vs
  | pods {vs sel a a'} (h : AnswersAlike (List.Forall₂ (PodsAlike r r')) a a') :
      Served vs (.list .pod sel) (.list .pod sel) a a' vs
  | create {vs job job' a a'} (h : AnswersAlike (fun _ _ => True) a a') :
      Served vs (.create .job job) (.create .job job') a a' vs
  | delete {vs n n' a a'} (h : AnswersAlike (fun _ _ => True) a a') :
      Served vs (.delete .job n) (.delete .job n') a a' vs
  | updateRefused {vs x x' e e'} (h : e.reason = e'.reason) :
      Served vs (.update (.resource r) x) (.update (.resource r') x') (.error e) (.error e') vs
  | updated {vs x x' a a' cur cur' m} (hm : Stores m x.metadata)
      (h : AnswersAlike (fun y y' => y = { cur with metadata := m } ∧ y' = { cur' with metadata := m }) a a') :
      Served ((cur, cur') :: vs) (.update (.resource r) x) (.update (.resource r') x') a a'
        (({ cur with metadata := m }, { cur' with metadata := m }) :: (cur, cur') :: vs)
  | statusRefused {vs x x' e e'} (h : e.reason = e'.reason) :
      Served vs (.updateStatus (.resource r) x) (.updateStatus (.resource r') x') (.error e) (.error e') vs
  | statusUpdated {vs x x' a a' cur cur' m} (hm : Stores m cur.metadata)
      (h : AnswersAlike (fun y y' => y = { cur with metadata := m, status := x.status } ∧
        y' = { cur' with metadata := m, status := x'.status }) a a') :
      Served ((cur, cur') :: vs) (.updateStatus (.resource r) x) (.updateStatus (.resource r') x') a a'
        (({ cur with metadata := m, status := x.status }, { cur' with metadata := m, status := x'.status }) ::
          (cur, cur') :: vs)

/-- Everybody else may change owners, finalizers and the rest of the metadata, delete the resources, and change their
    specifications. -/
inductive Edited : Versions r r' → Versions r r' → Prop where
  | edit {vs cur cur'} (m : ObjectMeta) (spec) (spec') :
      Edited ((cur, cur') :: vs)
        (({ cur with metadata := m, spec := spec }, { cur' with metadata := m, spec := spec' }) :: (cur, cur') :: vs)

/-- The reconcilers of two kinds of resources, side by side. -/
def twins (name : String) : Twins Op Ans (Versions r r') (ReconcileResult × Option Err) where
  init vs := ∃ x x', vs = [(x, x')] ∧ Corresponds r r' x x'
  left := Reconcile r name
  right := Reconcile r' name
  silent := ReadsClock
  joint := Served r r' P E
  env := Edited r r'

variable {r r' P E}

/-- All versions correspond. -/
def InTouch (vs : Versions r r') : Prop := ∀ v ∈ vs, Corresponds r r' v.1 v.2

theorem InTouch.cons {vs : Versions r r'} {x : Resource r} {x' : Resource r'} (h : InTouch vs)
    (hx : Corresponds r r' x x') : InTouch ((x, x') :: vs) := by
  intro v hv
  rcases List.mem_cons.mp hv with rfl | hv
  · exact hx
  · exact h v hv

theorem AnswersAlike.mono {α β : Type} {R R' : α → β → Prop} {a : Except Err α} {b : Except Err β}
    (h : AnswersAlike R a b) (hR : ∀ a b, R a b → R' a b) : AnswersAlike R' a b := by
  cases h with
  | error h => exact .error h
  | ok h => exact .ok (hR _ _ h)

/-- **One call of both**: the answers match, and the versions stay in touch. -/
theorem served_alike {name : String} {vs vs' : Versions r r'} {o o' : Op} {A : Ans o → Ans o' → Prop} {a : Ans o}
    {a' : Ans o'} (hvs : InTouch vs) (hm : Matched r r' P E name o o' A) (hs : Served r r' P E vs o o' a a' vs') :
    A a a' ∧ InTouch vs' := by
  cases hm with
  | get =>
      cases hs with
      | get h => exact ⟨h.mono fun x x' hx => hvs (x, x') hx, hvs⟩
  | provider =>
      cases hs with
      | provider h => exact ⟨h, hvs⟩
  | request =>
      cases hs with
      | request h => exact ⟨h, hvs⟩
  | jobs =>
      cases hs with
      | jobs h => exact ⟨h, hvs⟩
  | pods =>
      cases hs with
      | pods h => exact ⟨h, hvs⟩
  | create =>
      cases hs with
      | create h => exact ⟨h, hvs⟩
  | delete =>
      cases hs with
      | delete h => exact ⟨h, hvs⟩
  | update =>
      cases hs with
      | updateRefused h => exact ⟨.error h, hvs⟩
      | @updated _ _ _ _ _ cur cur' m _ h =>
          have hstored := (hvs (cur, cur') List.mem_cons_self).withMeta m
          refine ⟨h.mono ?_, hvs.cons hstored⟩
          rintro _ _ ⟨rfl, rfl⟩
          exact hstored
  | @status x x' hx =>
      cases hs with
      | statusRefused h => exact ⟨.error h, hvs⟩
      | @statusUpdated _ _ _ _ _ cur cur' m _ h =>
          have hstored : Corresponds r r' { cur with metadata := m, status := x.status }
              { cur' with metadata := m, status := x'.status } :=
            ⟨rfl, hx.conditions, hx.completionTime, hx.finished⟩
          refine ⟨h.mono ?_, hvs.cons hstored⟩
          rintro _ _ ⟨rfl, rfl⟩
          exact hstored

theorem matched_loud (name : String) : Matching.Loud (Matched r r' P E name) ReadsClock := by
  intro o o' A hm
  cases hm <;> exact ⟨nofun, nofun⟩

end ResourceReconciler

open ResourceReconciler

/-- **The three controllers are one state machine.** Reconcilers of two kinds of resources that start in corresponding
    states and then hear the same, in any order, of owners, deletions and finalizers, of jobs and their results, and of
    failed calls and refused writes: all versions of the resources that are stored correspond, and at every point of
    every round the two make matching calls or return the same result. -/
theorem resource_reconcilers_in_step {r r' : ResourceKind} {P : Provider → Provider → Prop}
    {E : EnvironmentRequest → EnvironmentRequest → Prop} {name : String} {c} (h : (twins r r' P E name).Reachable c) :
    (∀ v ∈ c.state, Corresponds r r' v.1 v.2) ∧
      ∀ p p', c.round = some (p, p') → p.InStep (Matched r r' P E name) ReadsClock ResultsAlike p' := by
  refine Twins.in_step (I := InTouch) (matched_loud name) ?_ Reconcile_similar ?_ ?_ ?_ h
  · rintro _ rfl
    exact ⟨(0 : Int)⟩
  · rintro _ ⟨x, x', rfl, hx⟩ v hv
    rw [List.mem_singleton.mp hv]
    exact hx
  · rintro _ _ hvs ⟨m, spec, spec'⟩
    have hcur := hvs _ List.mem_cons_self
    exact hvs.cons ⟨rfl, hcur.conditions, hcur.completionTime, hcur.finished⟩
  · exact fun _ _ _ _ _ _ _ hvs hm hs => served_alike hvs hm hs

/-- An Iut and a LogArea that have just been created. Both reconcilers write their first condition. -/
theorem resource_reconcilers_in_step_created :
    ∃ c, (twins .iut .logArea Eq Eq "resource").Reachable c ∧
      (∃ x k x' k', c.round = some (.call (.updateStatus (.resource .iut) x) k,
        .call (.updateStatus (.resource .logArea) x') k') ∧ Corresponds .iut .logArea x x') ∧
      ∀ v ∈ c.state, Corresponds .iut .logArea v.1 v.2 := by
  let iut : Iut := { metadata := { name := "resource" }, spec := {}, status := {} }
  let logArea : LogArea := { metadata := { name := "resource" }, spec := {}, status := {} }
  have hcorresponds : Corresponds .iut .logArea iut logArea := ⟨rfl, .nil, rfl, nofun⟩
  have hstart : (twins .iut .logArea Eq Eq "resource").Reachable
      ⟨[(iut, logArea)], some (Reconcile .iut "resource", Reconcile .logArea "resource")⟩ :=
    .step (.init ⟨iut, logArea, rfl, hcorresponds⟩) .start
  have hread := hstart.step (.both nofun nofun (.get (.ok List.mem_cons_self)))
  have hclock := (hread.step (.left rfl (0 : Int))).step (.right rfl (0 : Int))
  obtain ⟨hstate, hround⟩ := resource_reconcilers_in_step hclock
  obtain hs | hs | ⟨A, hm⟩ := hround _ _ rfl
  · cases hs
  · cases hs
  cases hm with
  | status hx => exact ⟨_, hclock, ⟨_, _, _, _, rfl, hx⟩, hstate⟩

end Etos
