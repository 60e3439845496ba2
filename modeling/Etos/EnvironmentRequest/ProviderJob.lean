import Etos.Operator.Jobs

/-!
# `EnvironmentRequest.ProviderJob` — one provider job for a request

The provider job of an EnvironmentRequest has a generated name, so nothing but the reconciler keeps it from being
created twice: it creates one only if it lists none and the request is not marked as starting. The marker is written
after the job, though, and the write may fail; if the cache of jobs lags as well, the next `Reconcile` creates a second
job (`provider_job_twice`). As long as the empty answer to a list of jobs that an unmarked request is decided on does
not hide a job, there is one job at a time (**`provider_job_single`**).
-/

namespace Etos

open Kube

/-- **One provider job at a time.** In every run in which no list of the request's jobs, made by a `Reconcile` that was
    not told that the request is starting, comes back empty although the request controls a job: whenever the
    controller creates a provider job there is none, and there are never two. -/
theorem provider_job_single {op : Operator} (n : String) {c}
    (h : (op.runs fun i w o a => i = .environmentRequest n → ¬ Misses Present (.environmentRequest n) w o a).Reachable
      c) :
    (∀ e ∈ c.state.rounds (.environmentRequest n), CreatesJob e.op → ¬ Present (.environmentRequest n) e.before) ∧
      SingleJob (.environmentRequest n) c.state.store :=
  ⟨(guarded presence_present h).created, singleJob h⟩

/-- A request whose first job was created, with the marker still to be written. -/
def requestStarted : List Turn :=
  providersCreated ++ [other (.create .environmentRequest (plainRequest "request")),
    round (.environmentRequest "request"), round (.environmentRequest "request"),
    round (.environmentRequest "request") statusConflict]

/-- The marker is lost, but the next `Reconcile` finds the job. -/
theorem provider_job_single_found :
    (played (requestStarted ++ [round (.environmentRequest "request")])).store.find .job "environment-provider-6" ≠
      none ∧
      SingleJob (.environmentRequest "request")
        (played (requestStarted ++ [round (.environmentRequest "request")])).store := by
  have hrun : (plainOperator.runs fun i w o a => i = .environmentRequest "request" →
      ¬ Misses Present (.environmentRequest "request") w o a).Reachable
      ⟨played (requestStarted ++ [round (.environmentRequest "request")]), fun _ => none⟩ := by
    have hmeets : Meets (fun i w o a => listsJobs (.environmentRequest "request") i w o a = true)
        (requestStarted ++ [round (.environmentRequest "request")]) := by decide
    exact (plays_runs hmeets).weaken fun i w o a hl hi => not_misses_of_lists hl hi
  exact ⟨by decide, (provider_job_single "request" hrun).2⟩

/-- **Two provider jobs.** The write of the marker fails, and the list of jobs that the next `Reconcile` gets does not
    show the job yet. -/
theorem provider_job_twice :
    ∃ c, plainOperator.system.Reachable c ∧ ¬ SingleJob (.environmentRequest "request") c.state.store := by
  refine ⟨⟨played (requestStarted ++ [round (.environmentRequest "request") jobsLag]), fun _ => none⟩, ?_, ?_⟩
  · exact (plays_runs (by decide : Meets (fun _ _ _ _ => True) _)).of_restrict
  · intro h
    have hne : "environment-provider-6" = "environment-provider-7" :=
      h "environment-provider-6" "environment-provider-7" _ _ rfl rfl (by decide) (by decide)
    exact absurd hne (by decide)

end Etos
