import Etos.TestRun.Refine

/-!
# `TestRun.Runs` — runs of the TestRun controller

A run of the TestRun controller starts from a TestRun with an empty status and consists of `Reconcile`s of it,
each of which may be cut short at any call, under arbitrary answers of the rest of the cluster, arbitrary
clocks, stale reads, rejected writes and lost responses (`TestRunReconciler.system`).

By the refinement theorem every call of a run is `Allowed`, so an invariant of runs has to be checked against
the machine only (`run_invariant`), and what a call does to the stored TestRun is said once, in `step_cases`.
-/

namespace Etos

open Kube TestRunReconciler

/-- The TestRun controller working on the TestRun `name`, created with specification `spec`. -/
def TestRunReconciler.system (r : TestRunReconciler) (name : String) (spec : TestRunSpec) :
    System Op Ans World Unit :=
  Focus.system name spec (· = {}) (r.Reconcile name >>= fun _ => pure ())

/-- The runs all of whose calls meet `cond`. -/
abbrev TestRunReconciler.runs (r : TestRunReconciler) (name : String) (spec : TestRunSpec)
    (cond : World → (o : Op) → Ans o → Prop) : System Op Ans World Unit :=
  (r.system name spec).restrict (fun _ => cond)

variable {r : TestRunReconciler} {name : String} {spec : TestRunSpec} {w w' : World}

/-- **The invariant rule for TestRuns.** -/
theorem run_invariant {cond : World → (o : Op) → Ans o → Prop} {I : World → Prop}
    (hinit : ∀ o : TestRun, o.spec = spec → o.status = {} → I (Focus.initial o))
    (hstart : ∀ w, w.WF name spec → I w → I w.fresh)
    (hcall : ∀ w o a w', w.WF name spec → I w → Allowed name spec w.loc o → Focus.Sem name w o a w' →
      cond w o a → I w')
    (henv : ∀ w w', w.WF name spec → I w → Focus.Env w w' → I w')
    {c} (h : (r.runs name spec cond).Reachable c) : c.state.WF name spec ∧ I c.state := by
  refine Focus.invariant (fun _ _ => Allowed.based) ?_ (fun o _ hs hi => hinit o hs hi) hstart hcall henv h
  exact (Reconcile_safe r name spec).bind fun _ _ _ => trivial

/-- What a call does to the stored TestRun: nothing, or a write of the machine, made from the stored version.
    Either way the call is recorded. -/
theorem step_cases (hwf : w.WF name spec) {o : Op} {a : Ans o} (hall : Allowed name spec w.loc o)
    (hs : Focus.Sem name w o a w') :
    ∃ applied, w'.trace = ⟨o, a, applied⟩ :: w.trace ∧ w'.round = ⟨o, a, applied⟩ :: w.round ∧
      (Call.persisted ⟨o, a, applied⟩ = none ∧ w'.stored.status = w.stored.status ∨
        Call.persisted ⟨o, a, applied⟩ = some w'.stored.status ∧
          Writes name (digest spec w.round) w.stored.status.view w'.stored.status.view) := by
  have hwrite : ∀ x : TestRun, o = .updateStatus .testRun x →
      x.metadata.resourceVersion = w.stored.metadata.resourceVersion →
      Writes name (digest spec w.round) w.stored.status.view x.status.view := by
    rintro x rfl hv
    obtain ⟨b, hb, hrv, _, hw⟩ := hall
    obtain rfl := hwf.eq_stored (hwf.base b hb) (hrv ▸ hv)
    exact hw
  cases hs with
  | status hn hv =>
      have hw := hwrite _ rfl hv
      exact ⟨true, rfl, rfl, .inr ⟨rfl, hw⟩⟩
  | statusLost hn hv =>
      have hw := hwrite _ rfl hv
      exact ⟨true, rfl, rfl, .inr ⟨rfl, hw⟩⟩
  | get | getError | statusError => exact ⟨_, rfl, rfl, .inl ⟨rfl, rfl⟩⟩
  | update | updateLost | updateError => exact ⟨_, rfl, rfl, .inl ⟨rfl, rfl⟩⟩
  | @other _ o a applied hf _ =>
      refine ⟨applied, rfl, rfl, .inl ⟨?_, rfl⟩⟩
      unfold Call.persisted
      split
      · rename_i hop
        cases hop
        exact absurd (.inr (.inr ⟨_, rfl, hall.choose_spec.2.2.1⟩)) hf
      · rfl

/-- The environment leaves the status, the trace and the round alone. -/
theorem env_cases (he : Focus.Env w w') :
    w'.stored.status = w.stored.status ∧ w'.trace = w.trace ∧ w'.round = w.round ∧ w'.base = w.base := by
  obtain ⟨m, _, _, rfl⟩ := he
  exact ⟨rfl, rfl, rfl, rfl⟩

/-- What this round has announced, the run has announced. -/
theorem shutdowns_of_round (hwf : w.WF name spec) (h : (digest spec w.round).events ≠ []) :
    shutdowns spec.id w.trace ≠ [] := by
  obtain ⟨earlier, he⟩ := hwf.round
  rw [digest_events] at h
  rw [he, shutdowns, List.filterMap_append]
  intro hnil
  exact h (List.append_eq_nil_iff.mp hnil).1

/-- Announcements are not taken back. -/
theorem shutdowns_mono {id : String} {c : Call} {trace : List Call} (h : shutdowns id trace ≠ []) :
    shutdowns id (c :: trace) ≠ [] := by
  unfold shutdowns at h ⊢
  rw [List.filterMap_cons]
  split
  · exact h
  · exact List.cons_ne_nil _ _

/-- The statuses persisted in a run, newest first. -/
def statuses (trace : List Call) : List TestRunStatus := trace.filterMap Call.persisted

theorem statuses_cons_none {c : Call} {trace : List Call} (h : c.persisted = none) :
    statuses (c :: trace) = statuses trace := List.filterMap_cons_none h

theorem statuses_cons_some {c : Call} {trace : List Call} {st : TestRunStatus} (h : c.persisted = some st) :
    statuses (c :: trace) = st :: statuses trace := List.filterMap_cons_some h

/-! ## A concrete cluster

Answers of a cluster in which the providers are available and nothing fails, for concrete runs. -/

/-- A provider that is available. -/
def availableProvider (name : String) : Provider :=
  { metadata := { name := name }, spec := {},
    status := { conditions := [{ type := .available, status := .true, reason := .active, message := "" }] } }

/-- A cluster of which every part is specified. -/
def someCluster (name : String) : Cluster :=
  { metadata := { name := name },
    spec :=
      { eiffelMessageBus := some {}, etosMessageBus := some { password := some { value := "guest" } }
        eventRepository := some {}, database := some {} },
    status := () }

/-- What a concrete run may vary: the clock in nanoseconds, and the objects there are. -/
structure Scene where
  clock : Int := 0
  requests : List EnvironmentRequest := []
  jobs : List Job := []
  pods : List Pod := []
  environments : List Environment := []

/-- The answers of the cluster. -/
def Scene.script (scene : Scene) : (o : Op) → Ans o
  | .get .provider name => .ok (availableProvider name)
  | .get .cluster name => .ok (someCluster name)
  | .get _ _ => .error ⟨some .notFound, "not found"⟩
  | .list .environmentRequest _ => .ok scene.requests
  | .list .job _ => .ok scene.jobs
  | .list .pod _ => .ok scene.pods
  | .list .environment _ => .ok scene.environments
  | .list _ _ => .ok []
  | .create _ o => .ok o
  | .update _ o => .ok o
  | .updateStatus _ o => .ok o
  | .delete _ _ => .ok ()
  | .ext .clockNow => scene.clock
  | .ext .timeNow => scene.clock
  | .ext .newUUID => "5f0b1c1e"
  | .ext .startSpan => ⟨"", "", ""⟩
  | .ext (.publish _ _) => .ok ()
  | .ext (.getPublisher _) => .ok ()
  | .ext (.readKey _ _) => .ok ""
  | .ext (.rangeKeys keys) => ⟨keys, .refl keys⟩
  | .ext (.attempt _) => .ok ()

/-- A reconciler without a tracer. -/
def plainReconciler : TestRunReconciler := ⟨false, fun n => toString n⟩

/-- A suite with one test. -/
def someSuite (name : String) : Suite :=
  { name := name, tests := [⟨"test", { id := "case" }, { testRunner := "runner" }⟩] }

/-- A TestRun of two suites that has just been created. -/
def someTestRun (deadline : Int) : TestRun :=
  { metadata := { name := "testrun" }
    spec :=
      { cluster := "cluster", id := "id", deadline := deadline
        providers := { iut := "iut", logArea := "log-area", executionSpace := "execution-space" }
        suiteRunner := some ⟨some { image := "suite-runner" }⟩, testRunner := some ⟨"1"⟩
        environmentProvider := some ⟨some { image := "environment-provider" }⟩
        suites := [someSuite "suite-a", someSuite "suite-b"] }
    status := {} }

/-- The request for one of its suites, in some state of readiness. -/
def someRequest (suite : String) (conditions : List Condition) : EnvironmentRequest :=
  { metadata := { name := "testrun-" ++ suite }
    spec := { name := suite, identifier := "id", providers := { executionSpace := { testRunnerImage := "runner" } } }
    status := { conditions := conditions } }

/-- The world after one `Reconcile` per scene. -/
def afterScenes (deadline : Int) (scenes : List Scene) : World :=
  Focus.rounds "testrun" (plainReconciler.Reconcile "testrun" >>= fun _ => pure ()) (scenes.map Scene.script)
    (Focus.initial (someTestRun deadline))

/-- Such a run meets a condition if each of its calls does. -/
theorem afterScenes_reachable {deadline : Int} {scenes : List Scene}
    {cond : World → (o : Op) → Ans o → Prop}
    (h : Focus.AlongRounds "testrun" cond (plainReconciler.Reconcile "testrun" >>= fun _ => pure ())
      (scenes.map Scene.script) (Focus.initial (someTestRun deadline))) :
    (plainReconciler.runs "testrun" (someTestRun deadline).spec cond).Reachable
      ⟨afterScenes deadline scenes, fun _ => none⟩ :=
  Focus.rounds_reachable rfl rfl rfl h

/-- A successful job of the TestRun, and its pod with the result it left. -/
def successfulJob : Job :=
  { metadata := { name := "testrun" }, spec := {}, status := { conditions := [⟨.complete, .true⟩] } }

def podWith (result : Result) : Pod :=
  { metadata := { name := "testrun-pod" }, spec := (),
    status := { containerStatuses := [⟨"testrun", some ⟨"", some result⟩⟩] } }

/-- The Environment of one of its suites. -/
def someEnvironment : Environment :=
  { metadata := { name := "suite-a-environment", labels := [(idLabel, "id")] }, spec := {}, status := {} }

/-- Both requests are being processed. -/
def requestedScene : Scene := { requests := [someRequest "suite-a" [], someRequest "suite-b" []] }

/-- An Environment is there. -/
def readyScene : Scene := { requestedScene with environments := [someEnvironment] }

/-- The suite runner has finished successfully and left this result. -/
def finishedScene (result : Result) : Scene :=
  { readyScene with jobs := [successfulJob], pods := [podWith result] }

/-- A suite runner that passed. -/
def passedScene : Scene := finishedScene { conclusion := "Successful", verdict := "Passed", description := "ok" }

/-- A TestRun from its creation to its completion: pending, environment requested, environment ready, suite
    runner started, suite runner passed, and two more `Reconcile`s until it has completed. -/
def passingScenes : List Scene := [{}, {}, readyScene, readyScene, passedScene, passedScene, passedScene]

/-- The same, with the last `Reconcile` after the deadline of 100 seconds. -/
def lateScenes : List Scene :=
  [{}, {}, readyScene, readyScene, passedScene, passedScene, { passedScene with clock := 101000000000 }]

theorem passingScenes_run :
    Focus.AlongRounds "testrun" (fun (_ : World) (_ : Op) _ => True)
      (plainReconciler.Reconcile "testrun" >>= fun _ => pure ()) (passingScenes.map Scene.script)
      (Focus.initial (someTestRun 100)) := by decide

end Etos
