import Etos.TestRun.EnvironmentFailure

/-!
# `TestRun.Verdict` — do clients and status agree?

A client following the event stream sees the verdict of the first shutdown event; the TestRun keeps a verdict in
its status. They can differ: a suite runner job that succeeds with a failed conclusion and no verdict is announced
as `None`, while the fail-safe of the next `Reconcile` writes `Inconclusive` (`verdict_rewritten`). The failed
job's branch makes the verdict explicit before it announces it; the successful job's branch does not.

They agree (`verdict_agreed`) in every run in which

* a `Reconcile` reads the stored status as long as nothing has been announced, and starts after an announcement
  only if the status it belongs to has been persisted,
* successful jobs report, whenever they are read, one and the same explicit verdict, and once a completed
  suite runner has been persisted its jobs are still found successful,
* a `Reconcile` that holds a TestRun with a failed environment lists no Environment.
-/

namespace Etos

open Kube TestRunReconciler

variable {r : TestRunReconciler} {name : String} {spec : TestRunSpec} {w w' : World} {v v' : View}
  {d : Digest} {u : Verdict} {events : List Verdict} {held : Prop}

/-- The conditions above, call by call. `u` is the verdict the suite runner reports. -/
def verdictKept (name : String) (spec : TestRunSpec) (u : Verdict) (w : World) (o : Op) (a : Ans o) : Bool :=
  match o, a with
  | .get .testRun _, .ok tr =>
      if shutdowns spec.id w.trace = [] then tr.status = w.stored.status else w.stored.status.view.decided
  | .list .job _, .ok jobs =>
      !decide (w.stored.status.view.reason .suiteRunner = some .completed ∧
        w.stored.status.completionTime = none) || decide (listedStatus jobs = some .successful)
  | .list .pod _, answer =>
      !decide ((digest spec w.round).jobs = some .successful) || decide (reports name u answer)
  | o, a => failedListsNone w o a

/-! ## The invariant on the stored status -/

/-- How the stored status `v` relates to the announcements so far, newest first, and to what this round has
    read. `held` says that the round holds a version of the TestRun. -/
structure Agreement (name : String) (u : Verdict) (held : Prop) (d : Digest) (events : List Verdict)
    (v : View) : Prop where
  /-- An open outcome has no verdict yet. -/
  undecided : ¬ v.decided → inconclusiveIfUnset v.verdict = verdictInconclusive
  /-- Without an announcement, nothing but a failed environment is decided. -/
  silent : events = [] → v.completion = none ∧ v.reason .suiteRunner ≠ some .failed ∧
    v.reason .suiteRunner ≠ some .completed ∧ inconclusiveIfUnset v.verdict = verdictInconclusive
  /-- A decided outcome carries the verdict first announced. -/
  first : v.decided → ∀ e, events.getLast? = some e → inconclusiveIfUnset v.verdict = e
  /-- An announcement ahead of its status was made by this round, and is its only one. -/
  ahead : held → ¬ v.decided → ∀ e, events.getLast? = some e → d.events = [e]
  /-- A completed suite runner has the verdict it reports. -/
  reported : v.reason .suiteRunner = some .completed → v.verdict = u
  /-- A completed TestRun has a verdict. -/
  explicit : v.completion ≠ none → verdictSet v.verdict = true
  /-- The jobs of a completed suite runner are found successful. -/
  jobs : v.reason .suiteRunner = some .completed → v.completion = none →
    ∀ status, d.jobs = some status → status = .successful
  /-- Successful jobs report `u`. -/
  pods : d.jobs = some .successful → ∀ a ∈ d.pods, reports name u a

theorem inconclusiveIfUnset_idem (x : Verdict) :
    inconclusiveIfUnset (inconclusiveIfUnset x) = inconclusiveIfUnset x :=
  inconclusiveIfUnset_of_set (verdictSet_inconclusiveIfUnset x)

theorem inconclusiveIfUnset_noneIfEmpty (x : Verdict) :
    inconclusiveIfUnset (noneIfEmpty x) = inconclusiveIfUnset x := by
  unfold noneIfEmpty
  split
  · rename_i h
    subst h
    decide
  · rfl

/-- A reported verdict is `u`. -/
theorem Agreement.reported_eq (h : Agreement name u held d events v) (hu : verdictSet u = true) {x : Verdict}
    (hx : d.reported name x) : x = u := hx.eq_of_reports hu (h.pods hx.jobs)

/-- So the verdict in memory is the stored one. -/
theorem Agreement.silent_eq (h : Agreement name u held d events v) (hu : verdictSet u = true) {x : Verdict}
    (hx : Silent name d v x) : x = v.verdict := by
  rcases hx with rfl | ⟨hsr, hrep⟩
  · rfl
  · rw [h.reported_eq hu hrep, h.reported hsr]

/-- A write that decides nothing and completes nothing. -/
theorem Agreement.neutral (h : Agreement name u held d events v) (hc : v'.completion = v.completion)
    (hf : v'.reason .suiteRunner = some .failed ↔ v.reason .suiteRunner = some .failed)
    (hs : v'.reason .suiteRunner = some .completed ↔ v.reason .suiteRunner = some .completed)
    (he : v'.reason .environment = some .failed ↔ v.reason .environment = some .failed)
    (hn : inconclusiveIfUnset v'.verdict = inconclusiveIfUnset v.verdict)
    (hset : verdictSet v.verdict = true → v'.verdict = v.verdict) (hu : verdictSet u = true) :
    Agreement name u held d events v' := by
  have hdec : v'.decided ↔ v.decided := by unfold View.decided; rw [hf, hs, he, hc]
  have hexp : v.completion ≠ none → v'.verdict = v.verdict := fun hne => hset (h.explicit hne)
  refine ⟨?_, ?_, ?_, ?_, ?_, ?_, ?_, h.pods⟩
  · exact fun hd => hn ▸ h.undecided (fun e => hd (hdec.mpr e))
  · intro hev
    obtain ⟨h₁, h₂, h₃, h₄⟩ := h.silent hev
    exact ⟨hc ▸ h₁, fun e => h₂ (hf.mp e), fun e => h₃ (hs.mp e), hn ▸ h₄⟩
  · exact fun hd e hl => hn ▸ h.first (hdec.mp hd) e hl
  · exact fun hh hd e hl => h.ahead hh (fun e => hd (hdec.mpr e)) e hl
  · intro hsr
    have hv := h.reported (hs.mp hsr)
    exact (hset (hv ▸ hu)).trans hv
  · intro hne
    have hne' : v.completion ≠ none := hc ▸ hne
    exact hexp hne' ▸ h.explicit hne'
  · exact fun hsr hcn => h.jobs (hs.mp hsr) (hc ▸ hcn)

/-- A write that settles the outcome, of an outcome already announced. -/
theorem Agreement.settle (h : Agreement name u held d events v) (hev : events ≠ []) (hd : v'.decided)
    (hfirst : ∀ e, events.getLast? = some e → inconclusiveIfUnset v'.verdict = e)
    (hrep : v'.reason .suiteRunner = some .completed → v'.verdict = u)
    (hexp : v'.completion ≠ none → verdictSet v'.verdict = true)
    (hjobs : v'.reason .suiteRunner = some .completed → v'.completion = none →
      ∀ status, d.jobs = some status → status = .successful) :
    Agreement name u held d events v' :=
  ⟨fun hn => absurd hd hn, fun he => absurd he hev, fun _ => hfirst, fun _ hn => absurd hd hn, hrep, hexp,
    hjobs, h.pods⟩

/-- While the suite runner is being watched the outcome is open, unless it has completed. -/
theorem not_decided (hc : v.completion = none) (henv : v.reason .environment = some .completed)
    (hf : v.reason .suiteRunner ≠ some .failed) (hs : v.reason .suiteRunner ≠ some .completed) :
    ¬ v.decided := by
  rintro (h | h | h | h)
  · exact hf h
  · exact hs h
  · rw [henv] at h; cases h
  · exact h hc

theorem ne_nil_of_head {α : Type} {l : List α} {a : α} (h : l.head? = some a) : l ≠ [] := by
  rintro rfl
  cases h

/-- While the outcome is open, the first announcement is the one of this round. -/
theorem Agreement.head_eq (h : Agreement name u held d events v) (hh : held) (hopen : ¬ v.decided) {e x : Verdict}
    (hl : events.getLast? = some e) (he : d.events.head? = some x) : x = e := by
  rw [h.ahead hh hopen e hl] at he
  exact (Option.some.inj he).symm

/-- The environment fails. Nothing is announced for that, but the outcome is decided. -/
theorem Agreement.environmentFailed (h : Agreement name u held d events v) (hh : held) (hu : verdictSet u = true)
    (hc : v.completion = none) (he : d.events = []) :
    Agreement name u held d events ((v.set .environment .false .failed).judge (inconclusiveIfUnset v.verdict)) := by
  have hfirst : ∀ e, events.getLast? = some e → inconclusiveIfUnset v.verdict = e := by
    intro e hl
    by_cases hd : v.decided
    · exact h.first hd e hl
    · -- an announcement ahead of its status would be one of this round
      have hone := h.ahead hh hd e hl
      rw [he] at hone
      cases hone
  refine ⟨fun hn => absurd (.inr (.inr (.inl (by simp)))) hn, fun hev => ?_,
    fun _ e hl => (inconclusiveIfUnset_idem _).trans (hfirst e hl),
    fun _ hn => absurd (.inr (.inr (.inl (by simp)))) hn, fun hsr => ?_, fun hne => absurd hc hne,
    fun hsr => h.jobs (by simpa using hsr), h.pods⟩
  · obtain ⟨h₁, h₂, h₃, h₄⟩ := h.silent hev
    exact ⟨h₁, by simpa using h₂, by simpa using h₃, (inconclusiveIfUnset_idem _).trans h₄⟩
  · have hv := h.reported (by simpa using hsr)
    exact (inconclusiveIfUnset_of_set (hv ▸ hu)).trans hv

/-- The deadline is exceeded. -/
theorem Agreement.exceeded {t : Int} (h : Agreement name u held d events v) (hh : held) (hu : verdictSet u = true)
    (hround : d.events ≠ [] → events ≠ []) (he : d.events.head? = some verdictInconclusive) :
    Agreement name u held d events
      (((v.set .active .false .timedOut).complete t).judge (inconclusiveIfUnset v.verdict)) := by
  refine h.settle (hround (ne_nil_of_head he)) (.inr (.inr (.inr nofun))) (fun e hl => ?_) ?_
    (fun _ => verdictSet_inconclusiveIfUnset _) (fun _ => nofun)
  · refine (inconclusiveIfUnset_idem _).trans ?_
    by_cases hdec : v.decided
    · exact h.first hdec e hl
    · exact (h.undecided hdec).trans (h.head_eq hh hdec hl he)
  · intro hsr
    have hv := h.reported (by simpa using hsr)
    exact (inconclusiveIfUnset_of_set (hv ▸ hu)).trans hv

/-- **The agreement is kept** by every write of the machine. -/
theorem Agreement.write (h : Agreement name u held d events v) (hh : held) (hu : verdictSet u = true)
    (hrev : d.revived = false) (hround : d.events ≠ [] → events ≠ []) (hw : Writes name d v v') :
    Agreement name u held d events v' := by
  rcases hw with ⟨hc, hw⟩ | ⟨_, hw⟩
  · -- a suite runner that is not found successful is not a completed one
    have hopen : ∀ status, d.jobs = some status → status ≠ .successful →
        v.reason .suiteRunner ≠ some .completed :=
      fun status hj hne hsr => hne (h.jobs hsr hc status hj)
    cases hw with
    | providers _ =>
        exact h.neutral rfl (by simp) (by simp) (by simp) (inconclusiveIfUnset_idem _)
          (fun hset => inconclusiveIfUnset_of_set hset) hu
    | environmentPending hnone =>
        exact h.neutral rfl (by simp) (by simp) (by simp [View.reason, hnone]) rfl (fun _ => rfl) hu
    | environmentVerdict _ hv _ | suiteRunnerVerdict _ hv _ =>
        exact h.neutral rfl (by simp) (by simp) (by simp) (by simp [inconclusiveIfUnset, hv])
          (fun hset => by simp [hv] at hset) hu
    | environmentFailed _ he => exact h.environmentFailed hh hu hc he
    | environmentCompleted hfail =>
        have hnot : v.reason .environment ≠ some .failed := fun e => by simp [hfail e] at hrev
        exact h.neutral rfl (by simp) (by simp) (by simpa using hnot) rfl (fun _ => rfl) hu
    | suiteRunnerPending hnone =>
        exact h.neutral rfl (by simp [View.reason, hnone]) (by simp [View.reason, hnone]) (by simp) rfl
          (fun _ => rfl) hu
    | @suiteRunnerFailed x henv hsr hj he hx =>
        have hnd := not_decided hc henv hsr (hopen _ hj (by decide))
        refine h.settle (hround (ne_nil_of_head he)) (.inl (by simp)) (fun e hl => ?_) (by simp)
          (fun hne => absurd hc hne) (by simp)
        exact (inconclusiveIfUnset_of_set hx).trans (h.head_eq hh hnd hl he)
    | @suiteRunnerSuccessful x s r henv hsr hx he hr =>
        obtain rfl := h.reported_eq hu hx
        refine h.settle (hround (ne_nil_of_head he)) ?_ (fun e hl => ?_) (fun _ => rfl)
          (fun hne => absurd hc hne) (fun _ _ status hj => Option.some.inj (hj.symm.trans hx.jobs))
        · rcases hr with ⟨rfl, rfl, _⟩ | ⟨rfl, rfl, _⟩
          · exact .inl (by simp)
          · exact .inr (.inl (by simp))
        · by_cases hs : v.reason .suiteRunner = some .completed
          · have hfirst := h.first (.inr (.inl hs)) e hl
            rwa [h.reported hs] at hfirst
          · have hnd := not_decided hc henv hsr hs
            exact (inconclusiveIfUnset_of_set hu).trans (h.head_eq hh hnd hl he)
    | suiteRunnerActive henv hsr hj =>
        have hs := hopen _ hj (by decide)
        exact h.neutral rfl (by simpa using hsr) (by simpa using hs) (by simp)
          (inconclusiveIfUnset_noneIfEmpty _) noneIfEmpty_of_set hu
    | suiteRunnerNotCreated henv hsr hj he =>
        have hnd := not_decided hc henv hsr (hopen _ hj (by decide))
        refine h.settle (hround (ne_nil_of_head he)) (.inl (by simp)) (fun e hl => ?_) (by simp)
          (fun hne => absurd hc hne) (by simp)
        have hinc := h.undecided hnd
        exact ((inconclusiveIfUnset_idem _).trans hinc).trans (h.head_eq hh hnd hl he)
    | suiteRunnerStarting henv hsr hj =>
        have hs := hopen _ hj (by decide)
        exact h.neutral rfl (by simpa using hsr) (by simpa using hs) (by simp) rfl (fun _ => rfl) hu
    | activePending _ hx =>
        obtain rfl := h.silent_eq hu hx
        exact h.neutral rfl (by simp) (by simp) (by simp) (inconclusiveIfUnset_noneIfEmpty _)
          noneIfEmpty_of_set hu
    | activeActive _ => exact h.neutral rfl (by simp) (by simp) (by simp) rfl (fun _ => rfl) hu
    | activeFailed hf hne hv he =>
        have hd : v.decided := hf.elim (fun hf => .inr (.inr (.inl hf))) .inl
        exact h.settle (hround he) (.inr (.inr (.inr (Option.some_ne_none _)))) (h.first hd)
          (fun hsr => absurd (by simpa using hsr) hne) (fun _ => hv) fun _ hc => absurd hc (Option.some_ne_none _)
    | activeCompleted hsr hx =>
        obtain rfl := h.silent_eq hu hx
        have hv := h.reported hsr
        have hev : events ≠ [] := fun he => (h.silent he).2.2.1 hsr
        exact h.settle hev (.inr (.inr (.inr (Option.some_ne_none _)))) (h.first (.inr (.inl hsr))) (fun _ => hv)
          (fun _ => hv ▸ hu) fun _ hc => absurd hc (Option.some_ne_none _)
  · cases hw with
    | exceeded hx he _ =>
        obtain rfl := h.silent_eq hu hx
        exact h.exceeded hh hu hround he
    | verdict _ hx hv =>
        obtain rfl := h.silent_eq hu hx
        exact h.neutral rfl (by simp) (by simp) (by simp) (by simp [inconclusiveIfUnset, hv])
          (fun hset => by simp [hv] at hset) hu

/-! ## The invariant of runs -/

/-- The agreement only looks at the events, jobs and pods of the round. -/
theorem Agreement.congr {d' : Digest} (h : Agreement name u held d events v) (he : d'.events = d.events)
    (hj : d'.jobs = d.jobs) (hp : d'.pods = d.pods) : Agreement name u held d' events v := by
  refine ⟨h.undecided, h.silent, h.first, ?_, h.reported, h.explicit, ?_, ?_⟩
  · rw [he]; exact h.ahead
  · rw [hj]; exact h.jobs
  · rw [hj, hp]; exact h.pods

/-- Taking hold of a version, when nothing is ahead of the status. -/
theorem Agreement.hold {held' : Prop} (h : Agreement name u held d events v)
    (hh : held' → held ∨ events = [] ∨ v.decided) : Agreement name u held' d events v := by
  refine ⟨h.undecided, h.silent, h.first, fun hh' hd e hl => ?_, h.reported, h.explicit, h.jobs, h.pods⟩
  rcases hh hh' with hheld | hnil | hdec
  · exact h.ahead hheld hd e hl
  · rw [hnil] at hl; cases hl
  · exact absurd hdec hd

/-- What holds in every state of a run that keeps its verdict. -/
structure Kept (name : String) (spec : TestRunSpec) (u : Verdict) (w : World) : Prop where
  agreement : Agreement name u (w.base ≠ none) (digest spec w.round) (shutdowns spec.id w.trace)
    w.stored.status.view
  revived : (digest spec w.round).revived = false
  /-- While the outcome is open, or nothing has been announced, the program holds the stored status. -/
  current : ∀ b, w.base = some b → shutdowns spec.id w.trace = [] ∨ ¬ w.stored.status.view.decided →
    b.status = w.stored.status

theorem Agreement.initial : Agreement name u held {} [] (TestRunStatus.view {}) := by
  have hinc : inconclusiveIfUnset "" = verdictInconclusive := by decide
  have hreason : ∀ t, (TestRunStatus.view {}).reason t = none := fun _ => rfl
  refine ⟨fun _ => hinc, fun _ => ⟨rfl, ?_, ?_, hinc⟩, fun _ e he => ?_, fun _ _ e he => ?_, fun h => ?_,
    fun h => absurd rfl h, fun h => ?_, fun h => ?_⟩
  · rw [hreason]; nofun
  · rw [hreason]; nofun
  · cases he
  · cases he
  · rw [hreason] at h; cases h
  · rw [hreason] at h; cases h
  · cases h

/-- A new round holds nothing and has read nothing. -/
theorem Kept.fresh (hk : Kept name spec u w) : Kept name spec u w.fresh := by
  have h := hk.agreement
  refine ⟨⟨h.undecided, h.silent, h.first, fun hh => absurd rfl hh, h.reported, h.explicit, ?_, ?_⟩, rfl,
    fun b hb => by cases hb⟩
  · intro _ _ status hj
    cases hj
  · intro hj
    cases hj

/-- A shutdown event: the first one fits the status, and while the outcome is open there is only one. -/
theorem Agreement.publish (h : Agreement name u held d events v) (hh : held) (hrev : d.revived = false)
    (hround : events = [] → d.events = []) {b : View} {x : Verdict}
    (hcur : events = [] ∨ ¬ v.decided → b = v) (ha : Announce name d b x) :
    Agreement name u held { d with events := x :: d.events } (x :: events) v := by
  have hlast : ∀ e, (x :: events).getLast? = some e → events = [] ∧ x = e ∨
      events ≠ [] ∧ events.getLast? = some e := by
    intro e hl
    cases events with
    | nil => exact .inl ⟨rfl, Option.some.inj hl⟩
    | cons y ys => exact .inr ⟨nofun, by rw [List.getLast?_cons_cons] at hl; exact hl⟩
  refine ⟨h.undecided, nofun, fun hd e hl => ?_, fun _ hd e hl => ?_, h.reported, h.explicit, h.jobs, h.pods⟩
  · rcases hlast e hl with ⟨hnil, rfl⟩ | ⟨_, hl⟩
    · -- the first announcement: only a failed environment can have decided the outcome
      obtain ⟨hc, hf, hs, hinc⟩ := h.silent hnil
      have henv : v.reason .environment = some .failed := by
        rcases hd with hd | hd | hd | hd
        · exact absurd hd hf
        · exact absurd hd hs
        · exact hd
        · exact absurd hc hd
      obtain rfl := hcur (.inl hnil)
      cases ha with
      | failed _ | deadline _ => exact hinc
      | suiteRunnerFailed hcomp _ _ _ | suiteRunnerSuccessful hcomp _ _ | suiteRunnerNotCreated hcomp _ _ =>
          rw [henv] at hcomp; cases hcomp
    · exact h.first hd e hl
  · rcases hlast e hl with ⟨hnil, rfl⟩ | ⟨_, hl⟩
    · exact congrArg (x :: ·) (hround hnil)
    · -- a second announcement while the outcome is open
      have hone := h.ahead hh hd e hl
      obtain rfl := hcur (.inr hd)
      cases ha with
      | failed hf => exact absurd (hf.elim (fun hf => .inr (.inr (.inl hf))) .inl) hd
      | suiteRunnerFailed _ he _ _ | suiteRunnerSuccessful _ he _ | suiteRunnerNotCreated _ he _ =>
          rw [hone] at he; cases he
      | deadline ht =>
          rcases ht with ht | ht | ht
          · exact absurd ht hd
          · rw [hone] at ht; cases ht
          · rw [ht] at hrev; cases hrev

theorem events_nil_of_shutdowns (hwf : w.WF name spec) (h : shutdowns spec.id w.trace = []) :
    (digest spec w.round).events = [] :=
  by_contra fun hne => shutdowns_of_round hwf hne h

/-- Every call keeps the agreement with the status as it was before the call. -/
theorem Kept.call (hk : Kept name spec u w) (hwf : w.WF name spec) {o : Op} {a : Ans o} {applied : Bool}
    (hall : Allowed name spec w.loc o) (hc : verdictKept name spec u w o a = true) :
    Agreement name u (w.base ≠ none) (digest spec (⟨o, a, applied⟩ :: w.round))
      (shutdowns spec.id (⟨o, a, applied⟩ :: w.trace)) w.stored.status.view := by
  have h := hk.agreement
  rw [digest_cons, shutdowns, List.filterMap_cons, ← shutdowns]
  unfold Digest.add
  split
  · rename_i id event _ _ heq
    cases heq
    obtain ⟨rfl, b, hb, ha⟩ := hall
    simp only [Call.shutdown, if_true]
    exact h.publish (by simp [show w.base = some b from hb]) hk.revived (events_nil_of_shutdowns hwf)
      (fun hcur => congrArg TestRunStatus.view (hk.current b hb hcur)) ha
  · rename_i heq
    cases heq
    simp only [Call.shutdown]
    split <;> exact h.congr rfl rfl rfl
  · rename_i jobs _ heq
    cases heq
    simp only [Call.shutdown]
    refine ⟨h.undecided, h.silent, h.first, h.ahead, h.reported, h.explicit, ?_,
      fun _ _ hb => absurd hb List.not_mem_nil⟩
    intro hsr hcn status hst
    have hst : listedStatus jobs = some status := hst
    have hcn : w.stored.status.completionTime = none := hcn
    simpa [verdictKept, hsr, hcn, hst] using hc
  · rename_i heq
    cases heq
    simp only [Call.shutdown]
    refine ⟨h.undecided, h.silent, h.first, h.ahead, h.reported, h.explicit, h.jobs, ?_⟩
    intro hj b hb
    have hj : (digest spec w.round).jobs = some .successful := hj
    rcases List.mem_cons.mp hb with rfl | hold
    · have hrep : ¬ (digest spec w.round).jobs = some .successful ∨ reports name u b := by
        simpa [verdictKept] using hc
      exact hrep.resolve_left (fun hn => hn hj)
    · exact h.pods hj b hold
  · rename_i heq
    cases heq
    exact h.congr rfl rfl rfl
  · rename_i heq
    cases heq
    exact h.congr rfl rfl rfl
  · rename_i hpub _ _ _ _ _
    have hnone : Call.shutdown spec.id ⟨o, a, applied⟩ = none := by
      unfold Call.shutdown
      split
      · rename_i heq
        exact (hpub _ _ _ _ heq).elim
      · rfl
    rw [hnone]
    exact h

/-- The condition on reads: what a `Reconcile` starts from. -/
theorem verdictKept_get {n : String} {tr : TestRun}
    (hc : verdictKept name spec u w (.get .testRun n) (.ok tr) = true)
    (hcur : shutdowns spec.id w.trace = [] ∨ ¬ w.stored.status.view.decided) :
    tr.status = w.stored.status := by
  by_cases hnil : shutdowns spec.id w.trace = []
  · simpa [verdictKept, hnil] using hc
  · have hdec : w.stored.status.view.decided := by simpa [verdictKept, hnil] using hc
    exact absurd hdec (hcur.resolve_left hnil)

/-- The condition on the listed Environments. -/
theorem verdictKept_lists {o : Op} {a : Ans o} (hc : verdictKept name spec u w o a = true) :
    failedListsNone w o a = true := by
  unfold verdictKept at hc
  split at hc
  · rfl
  · rfl
  · rfl
  · exact hc

/-- A version is held only after a read that met the condition. -/
theorem held_of_step {o : Op} {a : Ans o} {applied : Bool} (hall : Allowed name spec w.loc o)
    (hs : Focus.Sem name w o a w') (hc : verdictKept name spec u w o a = true) (h : w'.base ≠ none) :
    w.base ≠ none ∨ shutdowns spec.id (⟨o, a, applied⟩ :: w.trace) = [] ∨ w.stored.status.view.decided := by
  cases hs with
  | get hv =>
      refine .inr ?_
      by_cases hnil : shutdowns spec.id w.trace = []
      · exact .inl hnil
      · exact .inr (by simpa [verdictKept, hnil] using hc)
  | getError | other => exact .inl h
  | update | updateLost | updateError =>
      obtain ⟨_, _, b, hb, _⟩ := hall
      exact .inl fun e => by cases e.symm.trans hb
  | status | statusLost | statusError =>
      obtain ⟨b, hb, _⟩ := hall
      exact .inl fun e => by cases e.symm.trans hb

/-- A persisted status is no announcement, and reads nothing. -/
theorem persisted_quiet (spec : TestRunSpec) {c : Call} {st : TestRunStatus} (h : c.persisted = some st)
    (d : Digest) :
    c.shutdown spec.id = none ∧ (d.add spec c).events = d.events ∧ (d.add spec c).jobs = d.jobs ∧
      (d.add spec c).pods = d.pods := by
  unfold Call.persisted at h
  split at h
  · exact ⟨rfl, rfl, rfl, rfl⟩
  · cases h

theorem Kept.step (hu : verdictSet u = true) (hk : Kept name spec u w) (hwf : w.WF name spec) {o : Op}
    {a : Ans o} (hall : Allowed name spec w.loc o) (hs : Focus.Sem name w o a w')
    (hc : verdictKept name spec u w o a = true) : Kept name spec u w' := by
  obtain ⟨applied, htr, hrd, hcases⟩ := step_cases hwf hall hs
  have hmono : shutdowns spec.id w'.trace = [] → shutdowns spec.id w.trace = [] := by
    intro hnil
    by_contra hne
    rw [htr] at hnil
    exact shutdowns_mono hne hnil
  have hcurrent : ∀ b, w'.base = some b →
      shutdowns spec.id w'.trace = [] ∨ ¬ w'.stored.status.view.decided → b.status = w'.stored.status := by
    cases hs with
    | get hv =>
        rintro b ⟨⟩ hcur
        exact verdictKept_get (w := w) hc (hcur.imp_left hmono)
    | getError | other => exact fun b hb hcur => hk.current b hb (hcur.imp_left hmono)
    | update | status =>
        rintro b ⟨⟩ _
        rfl
    | updateLost | updateError | statusLost | statusError => rintro b ⟨⟩
  refine ⟨?_, ?_, hcurrent⟩
  · rw [htr, hrd]
    rcases hcases with ⟨_, hst⟩ | ⟨hsome, hw⟩
    · rw [hst]
      exact (hk.call hwf hall hc).hold (held_of_step hall hs hc)
    · have hh : w.base ≠ none := by
        unfold Call.persisted at hsome
        split at hsome
        · rename_i heq
          cases heq
          obtain ⟨b, hb, _⟩ := hall
          exact fun e => by cases e.symm.trans hb
        · cases hsome
      have h' := hk.agreement.write hh hu hk.revived (shutdowns_of_round hwf) hw
      obtain ⟨hnone, he, hj, hp⟩ := persisted_quiet spec hsome (digest spec w.round)
      rw [digest_cons, shutdowns, List.filterMap_cons_none hnone]
      exact (h'.congr he hj hp).hold fun _ => .inl hh
  · rw [hrd]
    exact revived_step hall (verdictKept_lists hc) hk.revived

/-- **Clients and status agree on the verdict** in every run that meets `verdictKept`: the first shutdown event
    published for a completed TestRun carries its verdict. -/
theorem verdict_agreed (hu : verdictSet u = true) {c}
    (h : (r.runs name spec (fun w o a => verdictKept name spec u w o a = true)).Reachable c)
    (hcomp : c.state.stored.status.completionTime ≠ none) :
    (shutdowns spec.id c.state.trace).getLast? = some c.state.stored.status.verdict := by
  have hk : Kept name spec u c.state := by
    refine (run_invariant (I := Kept name spec u) ?_ ?_ ?_ ?_ h).2
    · intro o _ hs
      have hview : o.status.view = TestRunStatus.view {} := by rw [hs]
      refine ⟨?_, rfl, fun b hb => by cases hb⟩
      show Agreement name u _ {} [] o.status.view
      rw [hview]
      exact Agreement.initial
    · exact fun w _ hk => hk.fresh
    · exact fun w o a w' hwf hk hall hs hc => hk.step hu hwf hall hs hc
    · intro w w' _ hk he
      obtain ⟨hst, htr, hrd, hb⟩ := env_cases he
      exact ⟨by rw [hst, htr, hrd, hb]; exact hk.agreement, by rw [hrd]; exact hk.revived,
        by rw [hst, htr, hb]; exact hk.current⟩
  have hne : shutdowns spec.id c.state.trace ≠ [] := fun hnil => hcomp (hk.agreement.silent hnil).1
  have hdec : c.state.stored.status.view.decided := .inr (.inr (.inr hcomp))
  have he := List.getLast?_eq_some_getLast hne
  rw [he, ← hk.agreement.first hdec _ he]
  exact congrArg some (inconclusiveIfUnset_of_set (hk.agreement.explicit hcomp))

/-- A suite runner that passed. -/
theorem verdict_agreed_passed :
    (afterScenes 100 passingScenes).stored.status.verdict = "Passed" ∧
      (shutdowns "id" (afterScenes 100 passingScenes).trace).getLast? =
        some (afterScenes 100 passingScenes).stored.status.verdict :=
  ⟨by decide, verdict_agreed (u := "Passed") (by decide) (afterScenes_reachable (by decide)) (by decide)⟩

/-- Every `Publish` of the run succeeded. -/
def published (trace : List Call) : Bool :=
  trace.all fun c =>
    match c with
    | ⟨.ext (.publish _ _), .error _, _⟩ => false
    | _ => true

/-- The suite runner job succeeded, but its container left a failed conclusion without a verdict. -/
def unreadableScene : Scene := finishedScene { conclusion := "Failed", description := "crashed" }

/-- **They may disagree.** Every event is published, the first one says `None`, and the completed TestRun says
    `Inconclusive`. -/
theorem verdict_rewritten :
    ∃ c, (plainReconciler.system "testrun" (someTestRun 100).spec).Reachable c ∧
      c.state.stored.status.completionTime ≠ none ∧ published c.state.trace = true ∧
      (shutdowns "id" c.state.trace).getLast? = some "None" ∧
      c.state.stored.status.verdict = "Inconclusive" := by
  refine ⟨⟨afterScenes 100 ([{}, {}, readyScene, readyScene] ++ List.replicate 4 unreadableScene),
    fun _ => none⟩, ?_, by decide, by decide, by decide, by decide⟩
  exact (afterScenes_reachable (by decide : Focus.AlongRounds _ (fun _ _ _ => True) _ _ _)).of_restrict

end Etos
