import Etos.TestRun.Runs

/-!
# `TestRun.EnvironmentFailure` — is a failed environment terminal?

When the environment of a TestRun has failed, `reconcileEnvironmentRequest` logs that the reconciliation is
canceled, but it returns `(false, nil)`, and `reconcile` goes on: `checkEnvironment` sets the Environment
condition to Completed as soon as one Environment carries the TestRun's id (that of a sibling suite, say), and the
suite runner starts (`failure_revived`). In runs where a `Reconcile` that holds a failed TestRun lists no
Environment, and where a failure that has been persisted is read back, the failure is terminal
(`failure_terminal`).
-/

namespace Etos

open Kube TestRunReconciler

/-- Has the Environment condition of a TestRun the reason Failed? -/
def environmentFailed (tr : TestRun) : Bool := isStatusReason tr.status.conditions .environment .failed

/-- The call has persisted a failed environment. -/
def Kube.Call.failsEnvironment (c : Etos.Call) : Bool :=
  match c.persisted with
  | some st => isStatusReason st.conditions .environment .failed
  | none => false

/-- The call persists a ready environment, or creates an EnvironmentRequest or a job. -/
def Kube.Call.resumes (c : Etos.Call) : Bool :=
  match c with
  | ⟨.create .environmentRequest _, _, _⟩ => true
  | ⟨.create .job _, _, _⟩ => true
  | c =>
      match c.persisted with
      | some st => isStatusReason st.conditions .environment .completed
      | none => false

/-- No call that resumes the work follows one that failed the environment. -/
def FailureTerminal (trace : List Call) : Prop :=
  trace.Pairwise (fun later earlier => earlier.failsEnvironment = true → later.resumes = false)

instance (trace : List Call) : Decidable (FailureTerminal trace) := inferInstanceAs (Decidable (List.Pairwise _ _))

/-- A `Reconcile` that holds a failed TestRun lists no Environment. -/
def failedListsNone (w : World) (o : Op) (a : Ans o) : Bool :=
  match o, a with
  | .list .environment _, .ok environments => !(w.base.any environmentFailed) || environments.isEmpty
  | _, _ => true

/-- A persisted failure is read back, and a `Reconcile` that holds a failed TestRun lists no Environment. -/
def failureRespected (w : World) (o : Op) (a : Ans o) : Bool :=
  match o, a with
  | .get .testRun _, .ok tr => !environmentFailed w.stored || environmentFailed tr
  | o, a => failedListsNone w o a

variable {r : TestRunReconciler} {name : String} {spec : TestRunSpec} {w w' : World} {v v' : View}
  {d : Digest}

theorem environmentFailed_view {tr : TestRun} :
    environmentFailed tr = true ↔ tr.status.view.reason .environment = some .failed := isStatusReason_view

/-- A failed environment stays failed, unless it is revived. -/
theorem Writes.failed (hw : Writes name d v v') (hr : d.revived = false)
    (h : v.reason .environment = some .failed) : v'.reason .environment = some .failed := by
  rcases hw with ⟨_, hw⟩ | ⟨_, hw⟩
  · cases hw with
    | environmentPending hnone => simp [View.reason, hnone] at h
    | environmentCompleted hrev => rw [hrev h] at hr; cases hr
    | environmentFailed hne _ => exact absurd h hne
    | _ => simpa using h
  · cases hw <;> simpa using h

/-- Environments are listed after a shutdown event only for a failed environment. -/
theorem revived_step {o : Op} {a : Ans o} {applied : Bool} (hall : Allowed name spec w.loc o)
    (hc : failedListsNone w o a = true) (h : (digest spec w.round).revived = false) :
    (digest spec (⟨o, a, applied⟩ :: w.round)).revived = false := by
  rw [digest_cons]
  unfold Digest.add
  split
  · split <;> exact h
  · split <;> exact h
  · exact h
  · exact h
  · rename_i heq
    cases heq
    obtain ⟨b, hb, hfail⟩ := hall
    show ((digest spec w.round).revived || !(digest spec w.round).events.isEmpty) = false
    have hbase : w.base = some b := hb
    by_cases he : (digest spec w.round).events = []
    · simp [h, he]
    · simp [failedListsNone, hbase, environmentFailed_view.mpr (hfail he)] at hc
  · exact h
  · exact h

/-- What the program holds has failed if the stored TestRun has. -/
def HoldsFailure (w : World) : Prop :=
  environmentFailed w.stored = true → ∀ b, w.base = some b → environmentFailed b = true

theorem HoldsFailure.step (h : HoldsFailure w) {o : Op} {a : Ans o} (hs : Focus.Sem name w o a w')
    (hc : failureRespected w o a = true) : HoldsFailure w' := by
  cases hs with
  | get hv =>
      rintro hf b ⟨⟩
      have hf : environmentFailed w.stored = true := hf
      simpa [failureRespected, hf] using hc
  | getError => exact h
  | update | status =>
      rintro hf b ⟨⟩
      exact hf
  | updateLost | updateError | statusLost | statusError =>
      rintro _ b ⟨⟩
  | other => exact h

/-- What the program holds has failed, so it does not resume the work. -/
theorem not_resumes {o : Op} {a : Ans o} {applied : Bool} (hall : Allowed name spec w.loc o)
    (hh : HoldsFailure w) (hf : environmentFailed w.stored = true)
    (hp : ∀ st, Call.persisted ⟨o, a, applied⟩ = some st →
      st.view.reason .environment = some .failed) :
    Call.resumes ⟨o, a, applied⟩ = false := by
  unfold Call.resumes
  split
  · rename_i heq
    cases heq
    obtain ⟨b, hb, hne⟩ := hall
    exact absurd (environmentFailed_view.mp (hh hf b hb)) hne
  · rename_i heq
    cases heq
    obtain ⟨b, hb, hne, _⟩ := hall
    rw [environmentFailed_view.mp (hh hf b hb)] at hne
    cases hne
  · split
    · rename_i st heq
      have hst := hp st heq
      rw [Bool.eq_false_iff, ne_eq, isStatusReason_view, hst]
      decide
    · rfl

/-- **A failed environment is terminal** in every run in which a persisted failure is read back, and a
    `Reconcile` that holds a failed TestRun lists no Environment with the TestRun's id. -/
theorem failure_terminal {c}
    (h : (r.runs name spec (fun w o a => failureRespected w o a = true)).Reachable c) :
    FailureTerminal c.state.trace := by
  refine (run_invariant (I := fun w => (digest spec w.round).revived = false ∧ HoldsFailure w ∧
    ((∃ c ∈ w.trace, c.failsEnvironment = true) → environmentFailed w.stored = true) ∧
    FailureTerminal w.trace) ?_ ?_ ?_ ?_ h).2.2.2.2
  · exact fun o _ _ => ⟨rfl, fun _ b hb => (nomatch hb), fun ⟨c, hc, _⟩ => (nomatch hc), .nil⟩
  · exact fun w _ hI => ⟨rfl, fun _ b hb => (nomatch hb), hI.2.2⟩
  · intro w o a w' hwf ⟨hrev, hh, hmem, hpair⟩ hall hs hc
    obtain ⟨applied, htr, hrd, hcases⟩ := step_cases hwf hall hs
    rw [htr, hrd]
    -- a call persists a failed status once the stored one has failed
    have hp : environmentFailed w.stored = true → ∀ st, Call.persisted ⟨o, a, applied⟩ = some st →
        st.view.reason .environment = some .failed := by
      intro hf st hst
      rcases hcases with ⟨hnone, _⟩ | ⟨hsome, hw⟩
      · rw [hnone] at hst; cases hst
      · obtain rfl := Option.some.inj (hsome.symm.trans hst)
        exact hw.failed hrev (environmentFailed_view.mp hf)
    have hlist : failedListsNone w o a = true := by
      unfold failureRespected at hc
      split at hc
      · rfl
      · exact hc
    refine ⟨revived_step hall hlist hrev, hh.step hs hc, ?_, List.pairwise_cons.mpr ⟨?_, hpair⟩⟩
    · rintro ⟨c, hcmem, hcf⟩
      rcases hcases with ⟨hnone, hst⟩ | ⟨hsome, hw⟩
      · rcases List.mem_cons.mp hcmem with rfl | hold
        · simp [Call.failsEnvironment, hnone] at hcf
        · rw [environmentFailed, hst]
          exact hmem ⟨c, hold, hcf⟩
      · rcases List.mem_cons.mp hcmem with rfl | hold
        · simpa [Call.failsEnvironment, hsome, environmentFailed] using hcf
        · exact environmentFailed_view.mpr
            (hw.failed hrev (environmentFailed_view.mp (hmem ⟨c, hold, hcf⟩)))
    · intro earlier hemem hef
      have hf := hmem ⟨earlier, hemem, hef⟩
      exact not_resumes hall hh hf (hp hf)
  · intro w w' _ hI he
    obtain ⟨hst, htr, hrd, hb⟩ := env_cases he
    rw [HoldsFailure, environmentFailed, hst, htr, hrd, hb]
    exact hI

/-- The request of one suite has failed. -/
def failedRequest : EnvironmentRequest :=
  someRequest "suite-b" [{ type := .ready, status := .false, reason := .failed, message := "no IUT" }]

/-- Nothing is left but the failed request. -/
def failedScene : Scene := { requests := [someRequest "suite-a" [], failedRequest] }

/-- A failed environment ends the TestRun when there is no Environment. -/
theorem failure_terminal_alone :
    (afterScenes 100 [{}, {}, failedScene, failedScene, failedScene]).trace.any Call.failsEnvironment = true ∧
      (afterScenes 100 [{}, {}, failedScene, failedScene, failedScene]).stored.status.verdict = "Inconclusive" ∧
      FailureTerminal (afterScenes 100 [{}, {}, failedScene, failedScene, failedScene]).trace :=
  ⟨by decide, by decide, failure_terminal (afterScenes_reachable (by decide))⟩

/-- **A failed environment is revived.** The request of one suite fails while the other suite already has its
    Environment: the next `Reconcile` publishes the failure, and then sets the condition back to Completed. -/
theorem failure_revived :
    ∃ c, (plainReconciler.system "testrun" (someTestRun 100).spec).Reachable c ∧
      ¬ FailureTerminal c.state.trace := by
  let revived : Scene := { failedScene with environments := [someEnvironment] }
  refine ⟨⟨afterScenes 100 [{}, {}, revived, revived], fun _ => none⟩, ?_, by decide⟩
  exact (afterScenes_reachable (by decide : Focus.AlongRounds _ (fun _ _ _ => True) _ _ _)).of_restrict

end Etos
