import Etos.Kube.Focus
import Etos.Controller.TestRun

/-!
# `TestRun.Machine` — the TestRun as a state machine

What the reconciler is for, in its own terms. A TestRun's status is seen through its `View`: the status and
reason of each condition, the completion time and the verdict. A `Reconcile` learns things on the way (what the
suite runner job did, whether Environments exist, whether the deadline has passed) and announces verdicts;
what matters of the calls made so far is their `Digest`.

`Write d v v'` lists, one constructor per place in the source, the status writes that take view `v` to view
`v'` with digest `d`; `Announce d v u` lists the shutdown events. `Allowed` says that a call of the reconciler
is one of these. Nothing here mentions a program: that `Reconcile` makes only allowed calls is the theorem of
`TestRun.Refine`, and everything proved about runs rests on that theorem and on this file.
-/

namespace Etos

open Kube

/-! ## Views -/

/-- What the controllers look at in a TestRun's status. -/
structure View where
  cond : ConditionType → Option (ConditionStatus × Reason)
  completion : Option Int
  verdict : Verdict

namespace View

def reason (v : View) (t : ConditionType) : Option Reason := (v.cond t).map Prod.snd

/-- Set one condition. -/
def set (v : View) (t : ConditionType) (s : ConditionStatus) (r : Reason) : View :=
  { v with cond := Function.update v.cond t (some (s, r)) }

/-- Set the verdict. -/
def judge (v : View) (u : Verdict) : View := { v with verdict := u }

/-- Set the completion time. -/
def complete (v : View) (t : Int) : View := { v with completion := some t }

/-- The outcome of the TestRun is settled, though perhaps not yet its completion. -/
def decided (v : View) : Prop :=
  v.reason .suiteRunner = some .failed ∨ v.reason .suiteRunner = some .completed ∨
    v.reason .environment = some .failed ∨ v.completion ≠ none

instance (v : View) : Decidable v.decided := inferInstanceAs (Decidable (_ ∨ _ ∨ _ ∨ _))

variable {v : View} {t t' : ConditionType} {s : ConditionStatus} {r : Reason}

@[simp] theorem set_completion : (v.set t s r).completion = v.completion := rfl
@[simp] theorem set_verdict : (v.set t s r).verdict = v.verdict := rfl
@[simp] theorem set_cond_self : (v.set t s r).cond t = some (s, r) := by simp [set]
theorem set_reason_self : (v.set t s r).reason t = some r := by simp [reason]

theorem set_cond_ne (h : t' ≠ t) : (v.set t s r).cond t' = v.cond t' := by simp [set, h]

theorem set_reason_ne (h : t' ≠ t) : (v.set t s r).reason t' = v.reason t' := by
  simp [reason, set_cond_ne h]

@[simp] theorem set_reason : (v.set t s r).reason t' = if t' = t then some r else v.reason t' := by
  split
  · rename_i h; subst h; exact set_reason_self
  · rename_i h; exact set_reason_ne h

@[simp] theorem judge_cond {u : Verdict} : (v.judge u).cond = v.cond := rfl
@[simp] theorem judge_reason {u : Verdict} : (v.judge u).reason t = v.reason t := rfl
@[simp] theorem judge_completion {u : Verdict} : (v.judge u).completion = v.completion := rfl
@[simp] theorem judge_verdict {u : Verdict} : (v.judge u).verdict = u := rfl
@[simp] theorem judge_self : v.judge v.verdict = v := rfl
@[simp] theorem complete_cond {n : Int} : (v.complete n).cond = v.cond := rfl
@[simp] theorem complete_reason {n : Int} : (v.complete n).reason t = v.reason t := rfl
@[simp] theorem complete_completion {n : Int} : (v.complete n).completion = some n := rfl
@[simp] theorem complete_verdict {n : Int} : (v.complete n).verdict = v.verdict := rfl

theorem set_eq_self (h : v.cond t = some (s, r)) : v.set t s r = v := by
  simp [set, ← h]

end View

/-- The view of a status. -/
def TestRunStatus.view (st : TestRunStatus) : View where
  cond t := (findStatusCondition st.conditions t).map (fun c => (c.status, c.reason))
  completion := st.completionTime
  verdict := st.verdict

section

variable {st : TestRunStatus} {t : ConditionType} {r : Reason}

theorem isStatusReason_view : isStatusReason st.conditions t r = true ↔ st.view.reason t = some r := by
  rw [isStatusReason_iff]
  simp [TestRunStatus.view, View.reason]

theorem find_none_view : findStatusCondition st.conditions t = none ↔ st.view.cond t = none := by
  simp [TestRunStatus.view]

/-- `SetStatusCondition` sets one condition of the view. -/
theorem view_setStatusCondition (now : Int) (c : Condition) :
    { st with conditions := (setStatusCondition now c st.conditions).1 }.view =
      st.view.set c.type c.status c.reason := by
  simp only [TestRunStatus.view, View.set, View.mk.injEq, and_true]
  funext t
  by_cases h : t = c.type
  · subst h
    obtain ⟨c', hf, hs, hr, _⟩ := find_set_self now c st.conditions
    simp [hf, hs, hr]
  · simp [find_set_ne h, Function.update_of_ne h]

end

/-! ## Digests -/

/-- The verdict of a shutdown event for the TestRun with identifier `id`. -/
def Kube.Call.shutdown (id : String) (c : Etos.Call) : Option Verdict :=
  match c with
  | ⟨.ext (.publish id' event), _, _⟩ => if id' = id then some event.data.verdict else none
  | _ => none

/-- The status a call has persisted for a TestRun. -/
def Kube.Call.persisted (c : Etos.Call) : Option TestRunStatus :=
  match c with
  | ⟨.updateStatus .testRun o, _, true⟩ => some o.status
  | _ => none

/-- The verdicts of the shutdown events handed to `Publish`, newest first. -/
def shutdowns (id : String) (calls : List Call) : List Verdict := calls.filterMap (Call.shutdown id)

/-- What the calls of one `Reconcile` amount to. -/
structure Digest where
  /-- Verdicts of the shutdown events, newest first. -/
  events : List Verdict := []
  /-- The status of the suite runner jobs when they were last listed. -/
  jobs : Option JobStatus := none
  /-- The pod lists answered since then. -/
  pods : List (Except Err (List Pod)) := []
  /-- Some Environment was listed after a shutdown event. -/
  revived : Bool := false
  /-- A status with a completion time was persisted. -/
  completed : Bool := false
  /-- The deadline check found the deadline exceeded; was the TestRun already `completed` by then? -/
  late : Option Bool := none

/-- Is a clock reading past the deadline? -/
def pastDeadline (spec : TestRunSpec) (now : Int) : Prop := spec.deadline ≠ 0 ∧ now > unixTime spec.deadline

instance (spec : TestRunSpec) (now : Int) : Decidable (pastDeadline spec now) :=
  inferInstanceAs (Decidable (_ ∧ _))

/-- The suite runner jobs' status a job list amounts to. -/
def listedStatus (jobs : List Job) : Option JobStatus :=
  match (JobManager.populate ⟨"", "", "", [], [], []⟩ jobs).summary with
  | .ok status => some status
  | .error _ => none

/-- Take one more call into account. -/
def Digest.add (spec : TestRunSpec) (d : Digest) (c : Call) : Digest :=
  match c with
  | ⟨.ext (.publish id event), _, _⟩ =>
      if id = spec.id then { d with events := event.data.verdict :: d.events } else d
  | ⟨.ext .clockNow, now, _⟩ => if pastDeadline spec now then { d with late := some d.completed } else d
  | ⟨.list .job _, .ok jobs, _⟩ => { d with jobs := listedStatus jobs, pods := [] }
  | ⟨.list .pod _, answer, _⟩ => { d with pods := answer :: d.pods }
  | ⟨.list .environment _, .ok (_ :: _), _⟩ => { d with revived := d.revived || !d.events.isEmpty }
  | ⟨.updateStatus .testRun o, _, true⟩ =>
      { d with completed := d.completed || o.status.completionTime.isSome }
  | _ => d

/-- The digest of the calls of a round, newest first. -/
def digest (spec : TestRunSpec) (calls : List Call) : Digest :=
  calls.foldr (fun c d => d.add spec c) {}

@[simp] theorem digest_nil (spec : TestRunSpec) : digest spec [] = {} := rfl
@[simp] theorem digest_cons (spec : TestRunSpec) (c : Call) (cs : List Call) :
    digest spec (c :: cs) = (digest spec cs).add spec c := rfl

theorem digest_events (spec : TestRunSpec) (calls : List Call) :
    (digest spec calls).events = shutdowns spec.id calls := by
  induction calls with
  | nil => rfl
  | cons c cs ih =>
      rw [digest_cons, shutdowns, List.filterMap_cons, ← shutdowns]
      unfold Digest.add Call.shutdown
      split <;> (try split) <;> simp_all

/-! ## What the suite runner reports -/

/-- The pods of a suite runner job can be read, and the latest one reports the verdict `u`. -/
def reports (name : String) (u : Verdict) : Except Err (List Pod) → Prop
  | .ok (pod :: pods) => (terminationLog (getLatestPodByCreationTimestamp pod pods) name).1.verdict = u
  | _ => False

instance (name : String) (u : Verdict) : DecidablePred (reports name u)
  | .ok (_ :: _) => inferInstanceAs (Decidable (_ = _))
  | .ok [] => inferInstanceAs (Decidable False)
  | .error _ => inferInstanceAs (Decidable False)

/-- The pods of a suite runner job cannot be read, or the latest one reports a failed conclusion. -/
def fails (name : String) : Except Err (List Pod) → Bool
  | .ok (pod :: pods) =>
      (terminationLog (getLatestPodByCreationTimestamp pod pods) name).1.conclusion = conclusionFailed
  | _ => true

/-- The verdict after one more pod list: a failed one wins, and otherwise the first one that is not `None`. -/
def readVerdict (name : String) (answer : Except Err (List Pod)) (before : Verdict) : Verdict :=
  match answer with
  | .ok (pod :: pods) =>
      let u := (terminationLog (getLatestPodByCreationTimestamp pod pods) name).1.verdict
      if u = verdictFailed ∧ before ≠ verdictFailed then u
      else if before = verdictNone then u
      else before
  | _ => before

/-- The verdict of pod lists, newest first. -/
def podsVerdict (name : String) (pods : List (Except Err (List Pod))) : Verdict :=
  pods.foldr (readVerdict name) verdictNone

/-- `Verdict == "" ⇒ VerdictNone`. -/
def noneIfEmpty (u : Verdict) : Verdict := if u = "" then verdictNone else u

/-- `u` is the verdict read from successful jobs. -/
structure Digest.reported (name : String) (d : Digest) (u : Verdict) : Prop where
  jobs : d.jobs = some .successful
  pods : d.pods ≠ []
  verdict : u = noneIfEmpty (podsVerdict name d.pods)

/-- Only the jobs and the pods of a digest matter. -/
theorem Digest.reported.congr {name : String} {d d' : Digest} {u : Verdict} (h : d.reported name u)
    (hj : d'.jobs = d.jobs) (hp : d'.pods = d.pods) : d'.reported name u :=
  ⟨hj.trans h.jobs, hp ▸ h.pods, hp ▸ h.verdict⟩

/-- One more pod list that reports the verdict there is. -/
theorem readVerdict_of_reports {name : String} {u before : Verdict} {a : Except Err (List Pod)} (h : reports name u a)
    (hb : before = verdictNone ∨ before = u) : readVerdict name a before = u := by
  unfold reports at h
  unfold readVerdict
  split at h
  · simp only [h]
    split
    · rfl
    · split
      · rfl
      · rename_i hnone
        exact hb.resolve_left hnone
  · exact h.elim

/-- If all pods report one verdict, it is that one. -/
theorem podsVerdict_of_reports {name : String} {u : Verdict} {pods : List (Except Err (List Pod))} (hne : pods ≠ [])
    (h : ∀ a ∈ pods, reports name u a) : podsVerdict name pods = u := by
  induction pods with
  | nil => exact absurd rfl hne
  | cons a earlier ih =>
      refine readVerdict_of_reports (h a List.mem_cons_self) ?_
      cases earlier with
      | nil => exact .inl rfl
      | cons b earlier => exact .inr (ih (List.cons_ne_nil _ _) fun c hc => h c (List.mem_cons_of_mem _ hc))

theorem noneIfEmpty_of_set {x : Verdict} (h : verdictSet x = true) : noneIfEmpty x = x := by
  unfold noneIfEmpty
  split
  · rename_i he
    subst he
    cases h
  · rfl

theorem Digest.reported.eq_of_reports {name : String} {d : Digest} {x u : Verdict} (h : d.reported name x)
    (hu : verdictSet u = true) (hp : ∀ a ∈ d.pods, reports name u a) : x = u := by
  rw [h.verdict, podsVerdict_of_reports h.pods hp, noneIfEmpty_of_set hu]

/-! ## Status writes and announcements -/

/-- The verdict in memory differs from the stored one only when a completed suite runner was read again. -/
def Silent (name : String) (d : Digest) (v : View) (u : Verdict) : Prop :=
  u = v.verdict ∨ v.reason .suiteRunner = some .completed ∧ d.reported name u

theorem Silent.congr {name : String} {d d' : Digest} {v : View} {u : Verdict} (h : Silent name d v u)
    (hj : d'.jobs = d.jobs) (hp : d'.pods = d.pods) : Silent name d' v u :=
  h.imp_right fun ⟨hc, hr⟩ => ⟨hc, hr.congr hj hp⟩

/-- The status writes of `reconcile`, from view `v` with digest `d`. -/
inductive Write (name : String) (d : Digest) (v : View) : View → Prop where
  /-- A provider is missing or unavailable. -/
  | providers (he : d.events = []) :
      Write name d v ((v.set .active .false .failed).judge (inconclusiveIfUnset v.verdict))
  | environmentPending (h : v.cond .environment = none) :
      Write name d v (v.set .environment .false .pending)
  | environmentVerdict (h : v.reason .environment = some .failed) (hv : verdictSet v.verdict = false)
      (he : d.events ≠ []) : Write name d v (v.judge verdictInconclusive)
  | environmentFailed (h : v.reason .environment ≠ some .failed) (he : d.events = []) :
      Write name d v ((v.set .environment .false .failed).judge (inconclusiveIfUnset v.verdict))
  /-- Environments exist. A failed environment is revived. -/
  | environmentCompleted (h : v.reason .environment = some .failed → d.revived = true) :
      Write name d v (v.set .environment .true .completed)
  | suiteRunnerPending (h : v.cond .suiteRunner = none) :
      Write name d v (v.set .suiteRunner .false .pending)
  | suiteRunnerVerdict (h : v.reason .suiteRunner = some .failed) (hv : verdictSet v.verdict = false)
      (he : d.events ≠ []) : Write name d v (v.judge verdictInconclusive)
  | suiteRunnerFailed {u} (henv : v.reason .environment = some .completed)
      (hsr : v.reason .suiteRunner ≠ some .failed) (hj : d.jobs = some .failed)
      (he : d.events.head? = some u) (hu : verdictSet u = true) :
      Write name d v ((v.set .suiteRunner .false .failed).judge u)
  | suiteRunnerSuccessful {u s r} (henv : v.reason .environment = some .completed)
      (hsr : v.reason .suiteRunner ≠ some .failed) (hu : d.reported name u)
      (he : d.events.head? = some u) (hr : s = .false ∧ r = .failed ∧ d.pods.any (fails name) = true ∨
        s = .true ∧ r = .completed ∧ d.pods.any (fails name) = false) :
      Write name d v ((v.set .suiteRunner s r).judge u)
  | suiteRunnerActive (henv : v.reason .environment = some .completed)
      (hsr : v.reason .suiteRunner ≠ some .failed) (hj : d.jobs = some .active) :
      Write name d v ((v.set .suiteRunner .true .active).judge (noneIfEmpty v.verdict))
  | suiteRunnerNotCreated (henv : v.reason .environment = some .completed)
      (hsr : v.reason .suiteRunner ≠ some .failed) (hj : d.jobs = some .none)
      (he : d.events.head? = some verdictInconclusive) :
      Write name d v ((v.set .suiteRunner .false .failed).judge (inconclusiveIfUnset v.verdict))
  | suiteRunnerStarting (henv : v.reason .environment = some .completed)
      (hsr : v.reason .suiteRunner ≠ some .failed) (hj : d.jobs = some .none) :
      Write name d v (v.set .suiteRunner .false .starting)
  | activePending {u} (h : v.cond .active = none) (hu : Silent name d v u) :
      Write name d v ((v.set .active .false .pending).judge (noneIfEmpty u))
  | activeActive (h : v.reason .suiteRunner = some .active) : Write name d v (v.set .active .true .active)
  | activeFailed {t} (h : v.reason .environment = some .failed ∨ v.reason .suiteRunner = some .failed)
      (hne : v.reason .suiteRunner ≠ some .completed) (hv : verdictSet v.verdict = true)
      (he : d.events ≠ []) :
      Write name d v ((v.set .active .false .failed).complete t)
  | activeCompleted {t u} (h : v.reason .suiteRunner = some .completed) (hu : Silent name d v u) :
      Write name d v (((v.set .active .false .completed).complete t).judge u)

/-- The status writes of the deadline check. -/
inductive DeadlineWrite (name : String) (d : Digest) (v : View) : View → Prop where
  | exceeded {t u} (hu : Silent name d v u) (he : d.events.head? = some verdictInconclusive)
      (hd : v.decided ∨ d.events = [verdictInconclusive] ∨ d.revived = true) :
      DeadlineWrite name d v (((v.set .active .false .timedOut).complete t).judge (inconclusiveIfUnset u))
  | verdict {u} (h : v.reason .active = some .timedOut) (hu : Silent name d v u)
      (hv : verdictSet u = false) : DeadlineWrite name d v (v.judge verdictInconclusive)

/-- The deadline check is reached with an open TestRun, or with one this very round has completed. -/
def Digest.deadlineReached (d : Digest) (v : View) : Prop :=
  ∃ c, d.late = some c ∧ (v.completion = none ∨ c = true)

/-- An open outcome has not been announced in this round, unless a failed environment was revived. -/
def Digest.tidy (d : Digest) (v : View) : Prop := v.decided ∨ d.events = [] ∨ d.revived = true

/-- The shutdown events, by the verdict they carry. -/
inductive Announce (name : String) (d : Digest) (v : View) : Verdict → Prop where
  /-- The fail-safe event of a failed environment or suite runner. -/
  | failed (h : v.reason .environment = some .failed ∨ v.reason .suiteRunner = some .failed) :
      Announce name d v verdictInconclusive
  | suiteRunnerFailed {u} (henv : v.reason .environment = some .completed) (he : d.events = [])
      (hj : d.jobs = some .failed) (hu : verdictSet u = true) : Announce name d v u
  | suiteRunnerSuccessful {u} (henv : v.reason .environment = some .completed) (he : d.events = [])
      (hu : d.reported name u) : Announce name d v u
  | suiteRunnerNotCreated (henv : v.reason .environment = some .completed) (he : d.events = [])
      (hj : d.jobs = some .none) : Announce name d v verdictInconclusive
  | deadline (h : d.tidy v) : Announce name d v verdictInconclusive

/-! ## The allowed calls -/

/-- The world of one TestRun. -/
abbrev World := Focus Spec Status Ext ExtAns .testRun

/-- What one `Reconcile` knows. -/
abbrev Know := Local Spec Status Ext ExtAns .testRun

/-- **The calls of a `Reconcile`** of the TestRun `name` with specification `spec`. -/
def Allowed (name : String) (spec : TestRunSpec) (l : Know) : Op → Prop
  | .update .testRun x => x.spec = spec ∧ x.name = name ∧ ∃ b, l.base = some b ∧
      x.metadata.resourceVersion = b.metadata.resourceVersion
  | .updateStatus .testRun x => ∃ b, l.base = some b ∧
      x.metadata.resourceVersion = b.metadata.resourceVersion ∧ x.name = name ∧
      (b.status.view.completion = none ∧ Write name (digest spec l.round) b.status.view x.status.view ∨
        (digest spec l.round).deadlineReached b.status.view ∧
          DeadlineWrite name (digest spec l.round) b.status.view x.status.view)
  | .ext (.publish id event) => id = spec.id ∧ ∃ b, l.base = some b ∧
      Announce name (digest spec l.round) b.status.view event.data.verdict
  | .list .environment _ => ∃ b, l.base = some b ∧
      ((digest spec l.round).events ≠ [] → b.status.view.reason .environment = some .failed)
  | .create .environmentRequest _ => ∃ b, l.base = some b ∧
      b.status.view.reason .environment ≠ some .failed
  | .create .job _ => ∃ b, l.base = some b ∧ b.status.view.reason .environment = some .completed ∧
      (digest spec l.round).jobs = some .none
  | .create _ _ => False
  | _ => True

theorem Allowed.based {name : String} {spec : TestRunSpec} {l : Know} {o : Op} (h : Allowed name spec l o) :
    l.Based spec o := by
  constructor
  · rintro x rfl
    exact ⟨h.1, h.2.2⟩
  · rintro x rfl
    obtain ⟨b, hb, hrv, _⟩ := h
    exact ⟨b, hb, hrv⟩

end Etos
