import Etos.TestRun.Runs

/-!
# `TestRun.Completion` — what a completed TestRun looks like, and whether it stays so

Three properties of every run of the TestRun controller.

* **The completed state** (`completed_sealed`): a status with a completion time has an Active condition that is
  `False` with a final reason, and a failed or timed out TestRun has a verdict. In particular the completion
  branch of `Reconcile` never dereferences a nil condition.
* **No silent completion** (`completion_announced`): before a completion time is persisted, a shutdown event
  has been handed to the publisher.
* **Finality.** A completed TestRun should never change its completion time, Active reason or verdict. It may:
  `reconcile` returns normally after persisting the completion, and the deadline check that follows overwrites
  it if the clock has passed the deadline meanwhile (`completion_overwritten`). In runs where the deadline is
  never found exceeded by a `Reconcile` that has just persisted a completion, it does not
  (`completion_final`).
-/

namespace Etos

open Kube TestRunReconciler

variable {r : TestRunReconciler} {name : String} {spec : TestRunSpec} {w w' : World} {v v' : View}
  {d : Digest}

/-! ## The completed state -/

/-- A view with a completion time has a final Active condition, and a verdict unless it succeeded. -/
def Sealed (v : View) : Prop :=
  v.completion ≠ none → ∃ reason, v.cond .active = some (.false, reason) ∧
    (reason = .failed ∨ reason = .completed ∨ reason = .timedOut) ∧
    (reason ≠ .completed → verdictSet v.verdict = true)

/-- Every write of the machine seals what it completes. -/
theorem Sealed.write (h : Sealed v) (hw : Writes name d v v') : Sealed v' := by
  rcases hw with ⟨hc, hw⟩ | ⟨_, hw⟩
  · cases hw with
    | activeFailed _ _ hv _ => exact fun _ => ⟨.failed, by simp, .inl rfl, fun _ => hv⟩
    | activeCompleted _ _ => exact fun _ => ⟨.completed, by simp, .inr (.inl rfl), fun e => absurd rfl e⟩
    | _ => exact fun hne => absurd hc hne
  · cases hw with
    | exceeded _ _ _ =>
        exact fun _ => ⟨.timedOut, by simp, .inr (.inr rfl), fun _ => verdictSet_inconclusiveIfUnset _⟩
    | verdict _ _ _ =>
        intro hne
        obtain ⟨reason, hcond, hreason, _⟩ := h hne
        exact ⟨reason, hcond, hreason, fun _ => verdictSet_inconclusive⟩

/-- **The completed-state invariant.** Every version of a TestRun that is ever persisted is sealed. -/
theorem completed_sealed {c} (h : (r.system name spec).Reachable c) :
    ∀ tr ∈ c.state.versions, tr.status.completionTime ≠ none →
      ∃ condition, findStatusCondition tr.status.conditions .active = some condition ∧
        condition.status = .false ∧
        (condition.reason = .failed ∨ condition.reason = .completed ∨ condition.reason = .timedOut) ∧
        (condition.reason ≠ .completed → tr.status.verdict ≠ "" ∧ tr.status.verdict ≠ verdictNone) := by
  have hinv : ∀ tr ∈ c.state.versions, Sealed tr.status.view := by
    refine (run_invariant (I := fun w => ∀ tr ∈ w.versions, Sealed tr.status.view)
      ?_ ?_ ?_ ?_ h.restrict_true).2
    · rintro o _ hs tr htr
      rw [List.mem_singleton.mp htr]
      show Sealed o.status.view
      rw [hs]
      exact fun hne => absurd rfl hne
    · exact fun w _ hI => hI
    · intro w o a w' hwf hI hall hs _ tr htr
      rcases hs.versions htr with rfl | hold
      · obtain ⟨_, _, _, ⟨_, hst⟩ | ⟨_, hw⟩⟩ := step_cases hwf hall hs
        · rw [hst]; exact hI _ Focus.stored_mem
        · exact (hI _ Focus.stored_mem).write hw
      · exact hI tr hold
    · rintro w _ _ hI ⟨m, _, _, rfl⟩ tr htr
      rcases List.mem_cons.mp htr with rfl | hold
      · exact hI w.stored Focus.stored_mem
      · exact hI tr hold
  intro tr htr hne
  obtain ⟨reason, hcond, hreason, hv⟩ := hinv tr htr hne
  obtain ⟨condition, hf, he⟩ := Option.map_eq_some_iff.mp hcond
  obtain ⟨hst, hr⟩ := Prod.mk.inj he
  refine ⟨condition, hf, hst, hr ▸ hreason, fun hnc => ?_⟩
  have hset : verdictSet tr.status.verdict = true := hv (hr ▸ hnc)
  simpa [verdictSet] using hset

theorem completed_sealed_passed :
    ∃ tr ∈ (afterScenes 100 passingScenes).versions, tr.status.completionTime ≠ none ∧
      ∃ condition, findStatusCondition tr.status.conditions .active = some condition ∧
        condition.status = .false ∧
        (condition.reason = .failed ∨ condition.reason = .completed ∨ condition.reason = .timedOut) ∧
        (condition.reason ≠ .completed → tr.status.verdict ≠ "" ∧ tr.status.verdict ≠ verdictNone) :=
  ⟨_, Focus.stored_mem, by decide, completed_sealed
    (afterScenes_reachable passingScenes_run).of_restrict _ Focus.stored_mem (by decide)⟩

/-! ## No silent completion -/

/-- Every completion on record was preceded by a shutdown event. -/
def CompletionsAnnounced (id : String) (trace : List Call) : Prop :=
  ∀ c earlier, (c :: earlier) <:+ trace → ∀ st, c.persisted = some st → st.completionTime ≠ none →
    shutdowns id earlier ≠ []

/-- A completed suite runner, or TestRun, has been announced. -/
def Announces (id : String) (w : World) : Prop :=
  w.stored.status.view.completion ≠ none ∨ w.stored.status.view.reason .suiteRunner = some .completed →
    shutdowns id w.trace ≠ []

/-- A write that completes the suite runner or the TestRun is announced before it is made. -/
theorem announced_of_write (hwf : w.WF name spec) (h : Announces spec.id w)
    (hw : Writes name (digest spec w.round) w.stored.status.view v')
    (hnew : v'.completion ≠ none ∨ v'.reason .suiteRunner = some .completed) :
    shutdowns spec.id w.trace ≠ [] := by
  have hround := fun he => shutdowns_of_round hwf he
  have hhead : ∀ u, (digest spec w.round).events.head? = some u → (digest spec w.round).events ≠ [] := by
    rintro u hu hnil
    simp [hnil] at hu
  rcases hw with ⟨hc, hw⟩ | ⟨_, hw⟩
  · cases hw with
    | suiteRunnerSuccessful _ _ _ he _ => exact hround (hhead _ he)
    | activeFailed _ _ _ he => exact hround he
    | activeCompleted hsr _ => exact h (.inr hsr)
    | suiteRunnerFailed _ _ _ he _ => exact hround (hhead _ he)
    | suiteRunnerNotCreated _ _ _ he => exact hround (hhead _ he)
    | environmentVerdict _ _ he => exact hround he
    | suiteRunnerVerdict _ _ he => exact hround he
    | suiteRunnerPending _ | suiteRunnerActive _ _ _ | suiteRunnerStarting _ _ _ =>
        rcases hnew with hne | hsr
        · exact absurd hc hne
        · simp at hsr
    | _ =>
        refine h (hnew.imp_right fun hsr => ?_)
        simpa using hsr
  · cases hw with
    | exceeded _ he _ => exact hround (hhead _ he)
    | verdict _ _ _ => exact h hnew

/-- **No silent completion.** Whenever a status with a completion time is persisted, a shutdown event for the
    TestRun's identifier has been handed to `Publish` earlier in the run. -/
theorem completion_announced {c} (h : (r.system name spec).Reachable c) :
    CompletionsAnnounced spec.id c.state.trace := by
  refine (run_invariant (I := fun w => Announces spec.id w ∧ CompletionsAnnounced spec.id w.trace)
    ?_ ?_ ?_ ?_ h.restrict_true).2.2
  · intro o _ hs
    refine ⟨?_, fun c earlier hsuf => absurd (List.suffix_nil.mp hsuf) (List.cons_ne_nil _ _)⟩
    rintro (hne | hsr)
    · exact absurd (by simp [Focus.initial, hs, TestRunStatus.view]) hne
    · simp [Focus.initial, hs, TestRunStatus.view, View.reason] at hsr
  · exact fun w _ hI => hI
  · rintro w o a w' hwf ⟨hA, hC⟩ hall hs _
    obtain ⟨applied, htr, _, hcases⟩ := step_cases hwf hall hs
    rw [Announces, CompletionsAnnounced, htr]
    rcases hcases with ⟨hnone, hst⟩ | ⟨hsome, hw⟩
    · refine ⟨fun hnew => shutdowns_mono (hA (by rwa [hst] at hnew)), fun c earlier hsuf st hp hne => ?_⟩
      rcases List.suffix_cons_iff.mp hsuf with heq | hold
      · obtain ⟨rfl, rfl⟩ := List.cons.inj heq
        rw [hnone] at hp; cases hp
      · exact hC c earlier hold st hp hne
    · refine ⟨fun hnew => shutdowns_mono (announced_of_write hwf hA hw hnew), ?_⟩
      intro c earlier hsuf st hp hne
      rcases List.suffix_cons_iff.mp hsuf with heq | hold
      · obtain ⟨rfl, rfl⟩ := List.cons.inj heq
        obtain rfl : w'.stored.status = st := Option.some.inj (hsome.symm.trans hp)
        exact announced_of_write hwf hA hw (.inl hne)
      · exact hC c earlier hold st hp hne
  · intro w w' _ hI he
    obtain ⟨hst, htr, _, _⟩ := env_cases he
    rw [Announces, hst, htr]
    exact hI

theorem completion_announced_passed :
    (statuses (afterScenes 100 passingScenes).trace).any (·.completionTime.isSome) = true ∧
      CompletionsAnnounced "id" (afterScenes 100 passingScenes).trace :=
  ⟨by decide, completion_announced (afterScenes_reachable passingScenes_run).of_restrict⟩

/-! ## Finality -/

/-- What must not change after completion. -/
def outcome (st : TestRunStatus) : Option Int × Option Reason × Verdict :=
  (st.completionTime, (findStatusCondition st.conditions .active).map (·.reason), st.verdict)

/-- In a list of statuses, newest first, a completed one keeps its outcome. -/
def Final (sts : List TestRunStatus) : Prop :=
  sts.Pairwise (fun later earlier => earlier.completionTime ≠ none → outcome later = outcome earlier)

instance (sts : List TestRunStatus) : Decidable (Final sts) := inferInstanceAs (Decidable (List.Pairwise _ _))

/-- The deadline is not found exceeded by a `Reconcile` that has persisted a completion time. -/
def deadlineOpen (spec : TestRunSpec) (w : World) (o : Op) (a : Ans o) : Bool :=
  match o, a with
  | .ext .clockNow, now => !decide (pastDeadline spec now) || !(digest spec w.round).completed
  | _, _ => true

theorem late_step {o : Op} {a : Ans o} {applied : Bool} (hc : deadlineOpen spec w o a = true)
    (h : (digest spec w.round).late ≠ some true) :
    (digest spec (⟨o, a, applied⟩ :: w.round)).late ≠ some true := by
  rw [digest_cons]
  unfold Digest.add
  split
  · split <;> exact h
  · rename_i now _ _ heq
    cases heq
    split
    · rename_i hlate
      have : (digest spec w.round).completed = false := by simpa [deadlineOpen, hlate] using hc
      simp [this]
    · exact h
  all_goals exact h

/-- **Finality.** In every run in which no `Reconcile` that has persisted a completion time goes on to find the
    deadline exceeded, a completed TestRun keeps its completion time, its Active reason and its verdict. -/
theorem completion_final {c} (h : (r.runs name spec (fun w o a => deadlineOpen spec w o a = true)).Reachable c) :
    Final (statuses c.state.trace) := by
  refine (run_invariant (I := fun w => (digest spec w.round).late ≠ some true ∧
    (∀ st ∈ statuses w.trace, st.completionTime ≠ none → outcome w.stored.status = outcome st) ∧
    Final (statuses w.trace)) ?_ ?_ ?_ ?_ h).2.2.2
  · exact fun o _ _ => ⟨nofun, nofun, .nil⟩
  · exact fun w _ hI => ⟨nofun, hI.2⟩
  · intro w o a w' hwf ⟨hlate, hsame, hfinal⟩ hall hs hc
    obtain ⟨applied, htr, hrd, hcases⟩ := step_cases hwf hall hs
    rw [htr, hrd]
    refine ⟨late_step hc hlate, ?_⟩
    rcases hcases with ⟨hnone, hst⟩ | ⟨hsome, hw⟩
    · rw [statuses_cons_none hnone, hst]
      exact ⟨hsame, hfinal⟩
    · -- a write is made only while the stored TestRun is open, so no earlier status is completed
      have hopen : w.stored.status.completionTime = none := by
        rcases hw with ⟨hc, _⟩ | ⟨⟨c, hl, hc | rfl⟩, _⟩
        · exact hc
        · exact hc
        · exact absurd hl hlate
      have hno : ∀ st ∈ statuses w.trace, st.completionTime = none := by
        intro st hmem
        by_contra hne
        have heq : w.stored.status.completionTime = st.completionTime :=
          congrArg Prod.fst (hsame st hmem hne)
        exact hne (heq.symm.trans hopen)
      rw [statuses_cons_some hsome]
      refine ⟨?_, List.pairwise_cons.mpr ⟨fun st hmem hne => absurd (hno st hmem) hne, hfinal⟩⟩
      intro st hmem hne
      rcases List.mem_cons.mp hmem with rfl | hold
      · rfl
      · exact absurd (hno st hold) hne
  · intro w w' _ hI he
    obtain ⟨hst, htr, hrd, _⟩ := env_cases he
    rw [hst, htr, hrd]
    exact hI

/-- A suite runner that passes before the deadline. -/
theorem completion_final_passed :
    (afterScenes 100 passingScenes).stored.status.completionTime = some 0 ∧
      Final (statuses (afterScenes 100 passingScenes).trace) :=
  ⟨by decide, completion_final (afterScenes_reachable (by decide))⟩

/-- **Finality fails.** The suite runner has passed. The `Reconcile` that persists the completion finds, a
    moment later, that the deadline has passed, and makes the TestRun a timed out one. -/
theorem completion_overwritten :
    ∃ c, (plainReconciler.system "testrun" (someTestRun 100).spec).Reachable c ∧
      ¬ Final (statuses c.state.trace) := by
  refine ⟨⟨afterScenes 100 lateScenes, fun _ => none⟩, ?_, by decide⟩
  exact (afterScenes_reachable (by decide : Focus.AlongRounds _ (fun _ _ _ => True) _ _ _)).of_restrict

end Etos
