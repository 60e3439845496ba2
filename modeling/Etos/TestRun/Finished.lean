import Etos.TestRun.Runs

/-!
# `TestRun.Finished` — does a finished suite runner stay finished?

`reconcileSuiteRunner` returns early for a failed suite runner only. A completed one is looked at again by every
`Reconcile` until Active is written: its jobs are listed, and the result is read once more from their pods. If
Kubernetes has collected the job meanwhile, the status of the jobs is `none`, another suite runner job is created and
the condition goes back to Starting (`suite_runner_restarted`).

A finished suite runner stays finished (`suite_runner_finished`) in every run in which

* successful jobs whose latest pod reports no failed conclusion report a verdict other than the empty one and `None`,
* between the write of Completed and the completion of the TestRun, the jobs that are listed are successful ones, and
  their pods can be read and report the verdict that was persisted and no failed conclusion.
-/

namespace Etos

open Kube TestRunReconciler

variable {r : TestRunReconciler} {name : String} {spec : TestRunSpec} {w w' : World} {v v' : View}
  {d : Digest} {u : Verdict}

/-! ## The property -/

/-- The suite runner has completed, the TestRun has not. -/
def View.finished (v : View) : Prop := v.reason .suiteRunner = some .completed ∧ v.completion = none

instance (v : View) : Decidable v.finished := inferInstanceAs (Decidable (_ ∧ _))

/-- The call creates a job, or persists another SuiteRunner reason or another verdict than `st` has. -/
def Kube.Call.restarts (st : TestRunStatus) (c : Etos.Call) : Bool :=
  match c with
  | ⟨.create .job _, _, _⟩ => true
  | c =>
      match c.persisted with
      | some st' => !isStatusReason st'.conditions .suiteRunner .completed || decide (st'.verdict ≠ st.verdict)
      | none => false

/-- While no completion has been persisted, no call restarts a suite runner that was persisted as Completed. -/
def StaysFinished : List Call → Prop
  | [] => True
  | c :: earlier =>
      ((∀ st ∈ statuses earlier, st.completionTime = none) → ∀ st ∈ statuses earlier,
        isStatusReason st.conditions .suiteRunner .completed = true → c.restarts st = false) ∧ StaysFinished earlier

instance StaysFinished.decidable : (trace : List Call) → Decidable (StaysFinished trace)
  | [] => inferInstanceAs (Decidable True)
  | _ :: earlier =>
      have := StaysFinished.decidable earlier
      inferInstanceAs (Decidable (_ ∧ _))

/-! ## The condition -/

/-- The latest pod reports a verdict other than the empty one and `None`. -/
def reportsVerdict (name : String) : Except Err (List Pod) → Bool
  | .ok (pod :: pods) => verdictSet (terminationLog (getLatestPodByCreationTimestamp pod pods) name).1.verdict
  | _ => false

/-- The conditions above, call by call. -/
def finishKept (name : String) (spec : TestRunSpec) (w : World) (o : Op) (a : Ans o) : Bool :=
  match o, a with
  | .list .job _, .ok jobs =>
      !decide w.stored.status.view.finished || (listedStatus jobs).all fun status => decide (status = .successful)
  | .list .pod _, answer =>
      if (digest spec w.round).jobs ≠ some .successful then true
      else if w.stored.status.view.finished then
        decide (reports name w.stored.status.verdict answer) && !fails name answer
      else fails name answer || reportsVerdict name answer
  | _, _ => true

/-! ## The invariant on the stored status -/

/-- How a stored status relates to what this round has read. -/
structure Finishing (name : String) (d : Digest) (v : View) : Prop where
  /-- A finished suite runner has a verdict. -/
  explicit : v.finished → verdictSet v.verdict = true
  /-- Its jobs are found successful. -/
  jobs : v.finished → ∀ status, d.jobs = some status → status = .successful
  /-- Its pods report that verdict, and no failure. -/
  pods : v.finished → d.jobs = some .successful → d.pods ≠ [] →
    podsVerdict name d.pods = v.verdict ∧ d.pods.any (fails name) = false
  /-- Successful jobs without a failed conclusion report a verdict. -/
  reads : d.jobs = some .successful → ∀ a ∈ d.pods, fails name a = true ∨ reportsVerdict name a = true

/-- One more pod list with a verdict. -/
theorem readVerdict_set {a : Except Err (List Pod)} {before : Verdict} (h : reportsVerdict name a = true)
    (hb : before = verdictNone ∨ verdictSet before = true) : verdictSet (readVerdict name a before) = true := by
  unfold reportsVerdict at h
  unfold readVerdict
  split at h
  · dsimp only
    split
    · exact h
    · split
      · exact h
      · rename_i hnone
        exact hb.resolve_left hnone
  · cases h

/-- Pods that all report a verdict amount to one. -/
theorem podsVerdict_set {pods : List (Except Err (List Pod))} (hne : pods ≠ [])
    (h : ∀ a ∈ pods, reportsVerdict name a = true) : verdictSet (podsVerdict name pods) = true := by
  induction pods with
  | nil => exact absurd rfl hne
  | cons a earlier ih =>
      refine readVerdict_set (h a List.mem_cons_self) ?_
      cases earlier with
      | nil => exact .inl rfl
      | cons b earlier => exact .inr (ih (List.cons_ne_nil _ _) fun c hc => h c (List.mem_cons_of_mem _ hc))

/-- What successful jobs without a failed conclusion report is a verdict, and the one persisted. -/
theorem Finishing.reported (h : Finishing name d v) (hu : d.reported name u)
    (hf : d.pods.any (fails name) = false) : verdictSet u = true ∧ podsVerdict name d.pods = u := by
  have hset : verdictSet (podsVerdict name d.pods) = true := by
    refine podsVerdict_set hu.pods fun a ha => (h.reads hu.jobs a ha).resolve_left fun hfail => ?_
    have hany : d.pods.any (fails name) = true := List.any_eq_true.mpr ⟨a, ha, hfail⟩
    rw [hf] at hany
    cases hany
  rw [hu.verdict, noneIfEmpty_of_set hset]
  exact ⟨hset, rfl⟩

/-- A finished suite runner reports the verdict it has, and no failure. -/
theorem Finishing.reported_eq (h : Finishing name d v) (hv : v.finished) (hu : d.reported name u) :
    u = v.verdict ∧ d.pods.any (fails name) = false := by
  obtain ⟨heq, hf⟩ := h.pods hv hu.jobs hu.pods
  exact ⟨(h.reported hu hf).2.symm.trans heq, hf⟩

/-- So the verdict in memory is the stored one. -/
theorem Finishing.silent_eq (h : Finishing name d v) (hv : v.finished) (hu : Silent name d v u) :
    u = v.verdict := by
  rcases hu with rfl | ⟨_, hrep⟩
  · rfl
  · exact (h.reported_eq hv hrep).1

/-- **A finished suite runner stays finished**: a write of the machine keeps its reason and its verdict. -/
theorem Finishing.stays (h : Finishing name d v) (hv : v.finished) (hw : Writes name d v v') :
    v'.reason .suiteRunner = some .completed ∧ v'.verdict = v.verdict := by
  have hset := h.explicit hv
  have hjobs := h.jobs hv
  have hinc : inconclusiveIfUnset v.verdict = v.verdict := inconclusiveIfUnset_of_set hset
  rcases hw with ⟨_, hw⟩ | ⟨_, hw⟩
  · cases hw with
    | providers _ => exact ⟨by simpa using hv.1, hinc⟩
    | environmentFailed _ _ => exact ⟨by simpa using hv.1, hinc⟩
    | environmentVerdict _ hunset _ => rw [hset] at hunset; cases hunset
    | suiteRunnerVerdict _ hunset _ => rw [hset] at hunset; cases hunset
    | suiteRunnerPending hnone => simp [View.finished, View.reason, hnone] at hv
    | suiteRunnerFailed _ _ hj _ _ => cases hjobs _ hj
    | suiteRunnerActive _ _ hj => cases hjobs _ hj
    | suiteRunnerNotCreated _ _ hj _ => cases hjobs _ hj
    | suiteRunnerStarting _ _ hj => cases hjobs _ hj
    | suiteRunnerSuccessful _ _ hu _ hr =>
        obtain ⟨rfl, hf⟩ := h.reported_eq hv hu
        rcases hr with ⟨_, _, hfail⟩ | ⟨_, rfl, _⟩
        · rw [hf] at hfail; cases hfail
        · exact ⟨by simp, rfl⟩
    | activePending _ hu =>
        obtain rfl := h.silent_eq hv hu
        exact ⟨by simpa using hv.1, noneIfEmpty_of_set hset⟩
    | activeCompleted _ hu => exact ⟨by simpa using hv.1, h.silent_eq hv hu⟩
    | _ => exact ⟨by simpa using hv.1, rfl⟩
  · cases hw with
    | exceeded hu _ _ =>
        obtain rfl := h.silent_eq hv hu
        exact ⟨by simpa using hv.1, hinc⟩
    | verdict _ hu hunset =>
        obtain rfl := h.silent_eq hv hu
        rw [hset] at hunset
        cases hunset

/-- Only successful jobs without a failed conclusion finish the suite runner. -/
theorem Writes.finishes (hw : Writes name d v v') (hv : v'.finished) :
    v.finished ∨ d.reported name v'.verdict ∧ d.pods.any (fails name) = false := by
  obtain ⟨hsr, hc⟩ := hv
  rcases hw with ⟨_, hw⟩ | ⟨_, hw⟩
  · cases hw with
    | suiteRunnerSuccessful _ _ hu _ hr =>
        rcases hr with ⟨_, rfl, _⟩ | ⟨_, _, hf⟩
        · simp at hsr
        · exact .inr ⟨hu, hf⟩
    | suiteRunnerPending _ | suiteRunnerFailed _ _ _ _ _ | suiteRunnerActive _ _ _ => simp at hsr
    | suiteRunnerNotCreated _ _ _ _ | suiteRunnerStarting _ _ _ => simp at hsr
    | activeFailed _ _ _ _ | activeCompleted _ _ => simp at hc
    | _ => exact .inl ⟨by simpa using hsr, by simpa using hc⟩
  · cases hw with
    | exceeded _ _ _ => simp at hc
    | verdict _ _ _ => exact .inl ⟨hsr, hc⟩

/-- The invariant is kept by every write. -/
theorem Finishing.write (h : Finishing name d v) (hw : Writes name d v v') : Finishing name d v' := by
  refine ⟨fun hv' => ?_, fun hv' => ?_, fun hv' => ?_, h.reads⟩
  · rcases hw.finishes hv' with hv | ⟨hu, hf⟩
    · rw [(h.stays hv hw).2]
      exact h.explicit hv
    · exact (h.reported hu hf).1
  · rcases hw.finishes hv' with hv | ⟨hu, hf⟩
    · exact h.jobs hv
    · intro status hs
      exact Option.some.inj (hs.symm.trans hu.jobs)
  · rcases hw.finishes hv' with hv | ⟨hu, hf⟩
    · rw [(h.stays hv hw).2]
      exact h.pods hv
    · exact fun _ _ => ⟨(h.reported hu hf).2, hf⟩

/-! ## Reading -/

/-- The condition on a pod list of successful jobs. -/
theorem finishKept_pods {sel : Selector} {answer : Except Err (List Pod)}
    (hc : finishKept name spec w (.list .pod sel) answer = true)
    (hj : (digest spec w.round).jobs = some .successful) :
    (w.stored.status.view.finished → reports name w.stored.status.verdict answer ∧ fails name answer = false) ∧
      (¬ w.stored.status.view.finished → fails name answer = true ∨ reportsVerdict name answer = true) := by
  simp only [finishKept, hj, ne_eq, not_true_eq_false, if_false] at hc
  split at hc
  · rename_i hv
    exact ⟨fun _ => by simpa using hc, fun hn => absurd hv hn⟩
  · rename_i hv
    exact ⟨fun h => absurd h hv, fun _ => by simpa using hc⟩

theorem reportsVerdict_of_reports {a : Except Err (List Pod)} (h : reports name u a)
    (hu : verdictSet u = true) : reportsVerdict name a = true := by
  unfold reports at h
  unfold reportsVerdict
  split at h
  · simp only [h]
    exact hu
  · exact h.elim

/-- One more pod list of successful jobs. -/
theorem Finishing.pod {sel : Selector} {answer : Except Err (List Pod)}
    (h : Finishing name (digest spec w.round) w.stored.status.view)
    (hc : finishKept name spec w (.list .pod sel) answer = true) :
    Finishing name { digest spec w.round with pods := answer :: (digest spec w.round).pods }
      w.stored.status.view := by
  refine ⟨h.explicit, h.jobs, fun hv hj _ => ?_, fun hj => ?_⟩
  · obtain ⟨hrep, hfail⟩ := (finishKept_pods hc hj).1 hv
    -- the verdict so far is none, or already the persisted one
    by_cases hnil : (digest spec w.round).pods = []
    · refine ⟨readVerdict_of_reports hrep (.inl ?_), ?_⟩
      · rw [hnil]; rfl
      · simp [hnil, hfail]
    · obtain ⟨heq, hf⟩ := h.pods hv hj hnil
      refine ⟨readVerdict_of_reports hrep (.inr heq), ?_⟩
      rw [List.any_cons, hfail, hf]
      rfl
  · intro a ha
    rcases List.mem_cons.mp ha with rfl | hold
    · by_cases hv : w.stored.status.view.finished
      · have hrep := ((finishKept_pods hc hj).1 hv).1
        exact .inr (reportsVerdict_of_reports hrep (h.explicit hv))
      · exact (finishKept_pods hc hj).2 hv
    · exact h.reads hj a hold

/-- Reading more keeps the invariant. -/
theorem Finishing.call {o : Op} {a : Ans o} {applied : Bool}
    (h : Finishing name (digest spec w.round) w.stored.status.view)
    (hc : finishKept name spec w o a = true) :
    Finishing name (digest spec (⟨o, a, applied⟩ :: w.round)) w.stored.status.view := by
  rw [digest_cons]
  unfold Digest.add
  split
  · split <;> exact ⟨h.explicit, h.jobs, h.pods, h.reads⟩
  · split <;> exact ⟨h.explicit, h.jobs, h.pods, h.reads⟩
  · rename_i jobs _ heq
    cases heq
    refine ⟨h.explicit, fun hv status hs => ?_, fun _ _ hne => absurd rfl hne, nofun⟩
    have hs : listedStatus jobs = some status := hs
    simpa [finishKept, hv, hs] using hc
  · rename_i heq
    cases heq
    exact h.pod hc
  all_goals exact ⟨h.explicit, h.jobs, h.pods, h.reads⟩

/-! ## Runs -/

/-- The stored status is open as long as the persisted ones are, and a persisted Completed is still the stored one. -/
structure Finishes (name : String) (spec : TestRunSpec) (w : World) : Prop where
  finishing : Finishing name (digest spec w.round) w.stored.status.view
  opened : (∀ st ∈ statuses w.trace, st.completionTime = none) → w.stored.status.completionTime = none
  kept : (∀ st ∈ statuses w.trace, st.completionTime = none) → ∀ st ∈ statuses w.trace,
    isStatusReason st.conditions .suiteRunner .completed = true →
      w.stored.status.view.reason .suiteRunner = some .completed ∧ w.stored.status.verdict = st.verdict
  stays : StaysFinished w.trace

/-- A finished suite runner is not started again, and what is persisted keeps it as it is. -/
theorem Finishing.not_restarts {o : Op} {a : Ans o} {applied : Bool} {st : TestRunStatus}
    (h : Finishing name (digest spec w.round) w.stored.status.view) (hall : Allowed name spec w.loc o)
    (hv : w.stored.status.view.finished)
    (hp : ∀ st', Call.persisted ⟨o, a, applied⟩ = some st' →
      st'.view.reason .suiteRunner = some .completed ∧ st'.verdict = st.verdict) :
    Call.restarts st ⟨o, a, applied⟩ = false := by
  unfold Call.restarts
  split
  · rename_i heq
    cases heq
    -- jobs are created only when none is listed
    obtain ⟨_, _, _, hj⟩ := hall
    cases h.jobs hv _ hj
  · split
    · rename_i st' heq
      obtain ⟨hsr, hverdict⟩ := hp st' heq
      simp [isStatusReason_view.mpr hsr, hverdict]
    · rfl

theorem Finishes.step (h : Finishes name spec w) (hwf : w.WF name spec) {o : Op} {a : Ans o}
    (hall : Allowed name spec w.loc o) (hs : Focus.Sem name w o a w')
    (hc : finishKept name spec w o a = true) : Finishes name spec w' := by
  obtain ⟨applied, htr, hrd, hcases⟩ := step_cases hwf hall hs
  have hpersisted : w.stored.status.view.finished → ∀ st', Call.persisted ⟨o, a, applied⟩ = some st' →
      st'.view.reason .suiteRunner = some .completed ∧ st'.verdict = w.stored.status.verdict := by
    intro hv st' hst'
    rcases hcases with ⟨hnone, _⟩ | ⟨hsome, hw⟩
    · rw [hnone] at hst'; cases hst'
    · obtain rfl := Option.some.inj (hsome.symm.trans hst')
      exact h.finishing.stays hv hw
  have hstays : StaysFinished (⟨o, a, applied⟩ :: w.trace) := by
    refine ⟨fun hopen st hst hcomp => ?_, h.stays⟩
    obtain ⟨hsr, hverdict⟩ := h.kept hopen st hst hcomp
    have hv : w.stored.status.view.finished := ⟨hsr, h.opened hopen⟩
    refine h.finishing.not_restarts hall hv fun st' hst' => ?_
    rw [← hverdict]
    exact hpersisted hv st' hst'
  refine ⟨?_, ?_, ?_, htr ▸ hstays⟩
  · rw [hrd]
    rcases hcases with ⟨_, hst⟩ | ⟨hsome, hw⟩
    · rw [hst]
      exact h.finishing.call hc
    · have h' := h.finishing.write hw
      unfold Call.persisted at hsome
      split at hsome
      · rename_i heq
        cases heq
        exact ⟨h'.explicit, h'.jobs, h'.pods, h'.reads⟩
      · cases hsome
  · rw [htr]
    rcases hcases with ⟨hnone, hst⟩ | ⟨hsome, _⟩
    · rw [statuses_cons_none hnone, hst]
      exact h.opened
    · rw [statuses_cons_some hsome]
      exact fun hopen => hopen _ List.mem_cons_self
  · rw [htr]
    rcases hcases with ⟨hnone, hst⟩ | ⟨hsome, hw⟩
    · rw [statuses_cons_none hnone, hst]
      exact h.kept
    · rw [statuses_cons_some hsome]
      intro hopen st hst hcomp
      rcases List.mem_cons.mp hst with rfl | hold
      · exact ⟨isStatusReason_view.mp hcomp, rfl⟩
      · have hearlier := fun st' hst' => hopen st' (List.mem_cons_of_mem _ hst')
        obtain ⟨hsr, hverdict⟩ := h.kept hearlier st hold hcomp
        obtain ⟨hsr', hverdict'⟩ := h.finishing.stays ⟨hsr, h.opened hearlier⟩ hw
        exact ⟨hsr', hverdict'.trans hverdict⟩

/-- **A finished suite runner stays finished** in every run that meets `finishKept`: from the write of Completed to
    the completion of the TestRun, no call creates a job, persists another SuiteRunner reason or another verdict. -/
theorem suite_runner_finished {c}
    (h : (r.runs name spec (fun w o a => finishKept name spec w o a = true)).Reachable c) :
    StaysFinished c.state.trace := by
  refine (run_invariant (I := Finishes name spec) ?_ ?_ ?_ ?_ h).2.stays
  · intro o _ hs
    have hnot : ¬ (Focus.initial o : World).stored.status.view.finished := by
      simp [Focus.initial, hs, View.finished, TestRunStatus.view, View.reason]
    refine ⟨⟨fun hv => absurd hv hnot, fun hv => absurd hv hnot, fun hv => absurd hv hnot, fun hj => by cases hj⟩,
      ?_, fun _ _ hst => absurd hst List.not_mem_nil, trivial⟩
    intro _
    simp [Focus.initial, hs]
  · intro w _ hI
    refine ⟨⟨hI.finishing.explicit, ?_, ?_, ?_⟩, hI.opened, hI.kept, hI.stays⟩
    · exact fun _ status hj => by cases hj
    · exact fun _ hj => by cases hj
    · exact fun hj => by cases hj
  · exact fun w o a w' hwf hI hall hs hc => hI.step hwf hall hs hc
  · intro w w' _ hI he
    obtain ⟨hst, htr, hrd, _⟩ := env_cases he
    exact ⟨by rw [hst, hrd]; exact hI.finishing, by rw [hst, htr]; exact hI.opened,
      by rw [hst, htr]; exact hI.kept, by rw [htr]; exact hI.stays⟩

/-- A suite runner that passed, and whose job is there until the TestRun has completed. -/
theorem suite_runner_finished_passed :
    ((statuses (afterScenes 100 passingScenes).trace).any fun st =>
        isStatusReason st.conditions .suiteRunner .completed && st.completionTime.isNone) = true ∧
      (afterScenes 100 passingScenes).stored.status.completionTime ≠ none ∧
      StaysFinished (afterScenes 100 passingScenes).trace :=
  ⟨by decide, by decide, suite_runner_finished (afterScenes_reachable (by decide))⟩

/-- **A finished suite runner is started again.** Its job is collected before Active has been written: the next
    `Reconcile` finds no job and creates another one. -/
theorem suite_runner_restarted :
    ∃ c, (plainReconciler.system "testrun" (someTestRun 100).spec).Reachable c ∧
      ¬ StaysFinished c.state.trace := by
  refine ⟨⟨afterScenes 100 [{}, {}, readyScene, readyScene, passedScene, readyScene], fun _ => none⟩, ?_, by decide⟩
  exact (afterScenes_reachable (by decide : Focus.AlongRounds _ (fun _ _ _ => True) _ _ _)).of_restrict

end Etos
