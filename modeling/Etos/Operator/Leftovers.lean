import Etos.Operator.Runs
import Etos.Prog.Trace

/-!
# `Operator.Leftovers` — the jobs of completed owners

Once an EnvironmentRequest, an Iut, a LogArea or an ExecutionSpace is completed its `Reconcile` is to delete the jobs it
owns. `Delete` works on the jobs that an earlier `Status` of the same manager has found. The four reconcilers make a new
manager and never ask it for its status, so they delete nothing: the jobs are deleted exactly if there are none left to
delete (**`completed_jobs_deleted_iff`**).
-/

namespace Etos

open Kube

/-- The round has deleted the job. -/
def DeletesJob (log : Log) (job : Job) : Prop := ∃ e ∈ log, e.op = .delete .job job.name

/-! ## The completion branches -/

/-- The calls of a round that deletes no job. -/
def SparesJobs (o : Op) : Prop := ∀ n, o ≠ .delete .job n

/-- The round has read its object, completed and neither waiting for a finalizer nor in other hands. The oldest call
    comes first. -/
inductive FindsCompleted : Worker → Log → Prop where
  | environmentRequest {n x log} (ht : x.status.completionTime ≠ none)
      (hf : x.metadata.containsFinalizer releaseFinalizer = !x.deleting) :
      FindsCompleted (.environmentRequest n) (⟨.get .environmentRequest n, .ok x⟩ :: log)
  | resource {r n x log} (ht : x.status.completionTime ≠ none)
      (howner : ownedByEnvironment x.metadata.ownerReferences = false) :
      FindsCompleted (.resource r n) (⟨.get (.resource r) n, .ok x⟩ :: log)

namespace EnvironmentRequestReconciler

theorem deleteUnowned_spares (r : ResourceKind) (resources : List (Resource r)) :
    (deleteUnowned r resources).Calls SparesJobs := by
  induction resources with
  | nil => trivial
  | cons resource rest ih =>
      unfold deleteUnowned
      split
      · exact ih
      · refine ⟨fun _ h => (by cases h), fun a => ?_⟩
        cases a with
        | error e => trivial
        | ok _ => exact ih

theorem cleanupKind_spares (r : ResourceKind) (x : EnvironmentRequest) : (cleanupKind r x).Calls SparesJobs := by
  refine ⟨nofun, fun a => ?_⟩
  cases a with
  | error e => trivial
  | ok resources => exact deleteUnowned_spares r resources

theorem cleanupUnused_spares (x : EnvironmentRequest) : (cleanupUnused x).Calls SparesJobs := by
  refine (cleanupKind_spares .iut x).bind fun err => ?_
  cases err with
  | some e => trivial
  | none =>
      refine (cleanupKind_spares .executionSpace x).bind fun err => ?_
      cases err with
      | some e => trivial
      | none => exact cleanupKind_spares .logArea x

/-- The manager has found nothing, so there is nothing it could delete. -/
theorem reconcileCompleted_spares (x : EnvironmentRequest) : (reconcileCompleted x).Calls SparesJobs :=
  (cleanupUnused_spares x).bind fun _ => trivial

end EnvironmentRequestReconciler

namespace ResourceReconciler

theorem completed_spares (r : ResourceKind) (x : Resource r) : (completed r x).Calls SparesJobs := by
  have hdrop : ∀ drop, (dropFinalizerIf r drop x).Calls SparesJobs := by
    intro drop
    unfold dropFinalizerIf
    split
    · exact ⟨nofun, fun _ => trivial⟩
    · trivial
  refine (hdrop _).bind fun out => ?_
  obtain ⟨x, err⟩ := out
  cases err with
  | some e => trivial
  | none => trivial

end ResourceReconciler

variable {op : Operator} {i : Worker} {log : Log}

/-- A round that finds its object completed deletes no job. -/
theorem FindsCompleted.spares (h : FindsCompleted i log) (hrun : (op.reconcile i).Returns () log) :
    ∀ e ∈ log, SparesJobs e.op := by
  cases h with
  | @environmentRequest n x rest ht hf =>
      obtain ⟨t, ht⟩ := Option.ne_none_iff_exists'.mp ht
      have hbranch : (EnvironmentRequestReconciler.reconcileFinalized x).Calls SparesJobs := by
        unfold EnvironmentRequestReconciler.reconcileFinalized
        rw [ht]
        exact EnvironmentRequestReconciler.reconcileCompleted_spares x
      -- neither the finalizer of a live request is missing, nor does a deleted one still have it
      have hafter : (EnvironmentRequestReconciler.reconcileFinalized x >>= fun _ => pure ()).Returns () rest := by
        obtain ⟨_, _, hlog, hrun⟩ := hrun
        cases hlog
        have hrun : ((if !x.deleting then
              if x.metadata.containsFinalizer releaseFinalizer then EnvironmentRequestReconciler.reconcileFinalized x
              else _
            else if x.metadata.containsFinalizer releaseFinalizer then _
            else EnvironmentRequestReconciler.reconcileFinalized x) >>= fun _ => pure ()).Returns () rest := hrun
        rw [hf] at hrun
        cases hd : x.deleting with
        | true =>
            rw [hd] at hrun
            exact hrun
        | false =>
            rw [hd] at hrun
            exact hrun
      intro e he
      rcases List.mem_cons.mp he with rfl | he
      · exact fun _ h => by cases h
      · exact hafter.calls (hbranch.bind fun _ => trivial) e he
  | @resource r n x rest ht howner =>
      obtain ⟨t, ht⟩ := Option.ne_none_iff_exists'.mp ht
      have hafter : (ResourceReconciler.completed r x >>= fun _ => pure ()).Returns () rest := by
        obtain ⟨_, _, hlog, hrun⟩ := hrun
        cases hlog
        simp only [Prog.bind, howner, ht] at hrun
        exact hrun
      intro e he
      rcases List.mem_cons.mp he with rfl | he
      · exact fun _ h => by cases h
      · exact hafter.calls ((ResourceReconciler.completed_spares r x).bind fun _ => trivial) e he

/-- **The jobs of a completed owner.** A round that comes to the completion branch deletes every job of its object that
    is not being deleted yet, in whatever state `s` the cluster is, exactly if there is no such job. -/
theorem completed_jobs_deleted_iff (op : Operator) {i : Worker} {log : Log} (hrun : (op.reconcile i).Returns () log)
    (hcompleted : FindsCompleted i log) (s : Namespace) :
    (∀ job ∈ s.list .job i.selector, job.deleting = false → DeletesJob log job) ↔
      ∀ job ∈ s.list .job i.selector, job.deleting = true := by
  constructor
  · intro h job hjob
    by_contra hlive
    obtain ⟨e, he, hop⟩ := h job hjob (by simpa using hlive)
    exact hcompleted.spares hrun e he _ hop
  · intro h job hjob hlive
    rw [h job hjob] at hlive
    cases hlive

/-! ### A job that is left behind -/

/-- An Iut that has been released. -/
def releasedIut : Iut :=
  { plainIut "iut" "request" with
    status :=
      { conditions := [{ ResourceReconciler.releasedCondition {} with lastTransitionTime := 0 }]
        completionTime := some 0 } }

/-- The job that released it. -/
def finishedReleaseJob : Job :=
  { metadata := ({ name := "iut" } : ObjectMeta).setControllerReference apiV2GroupVersionString "Iut" "iut"
    spec := {}
    status := { conditions := [⟨.complete, .true⟩] } }

/-- The calls of a round of the Iut. -/
def releasedRound : Log := [⟨.get (.resource .iut) "iut", .ok releasedIut⟩]

theorem releasedRound_returns : (plainOperator.reconcile (.resource .iut "iut")).Returns () releasedRound :=
  ⟨.ok releasedIut, [], rfl, rfl, rfl⟩

theorem releasedRound_completed : FindsCompleted (.resource .iut "iut") releasedRound :=
  .resource nofun rfl

/-- Only the job is left. -/
def leftoverCluster : Namespace := Store.empty.put .job finishedReleaseJob

/-- **A finished job stays**: the round finds its Iut completed and deletes nothing. -/
theorem release_job_left :
    (plainOperator.reconcile (.resource .iut "iut")).Returns () releasedRound ∧
      FindsCompleted (.resource .iut "iut") releasedRound ∧
      ∃ job ∈ leftoverCluster.list .job (Worker.selector (.resource .iut "iut")),
        job.deleting = false ∧ ¬ DeletesJob releasedRound job := by
  refine ⟨releasedRound_returns, releasedRound_completed, Store.empty.stamp finishedReleaseJob, ?_, rfl, ?_⟩
  · decide
  · rintro ⟨e, he, hop⟩
    rw [List.mem_singleton.mp he] at hop
    cases hop

/-- The job, when somebody has deleted it. -/
def deletedReleaseJob : Job :=
  { finishedReleaseJob with metadata := { finishedReleaseJob.metadata with deletionTimestamp := some 0 } }

/-- A job that is being deleted already needs no deleting. -/
theorem completed_jobs_deleted_already :
    (plainOperator.reconcile (.resource .iut "iut")).Returns () releasedRound ∧
      ∀ job ∈ (Store.empty.put .job deletedReleaseJob : Namespace).list .job (Worker.selector (.resource .iut "iut")),
        job.deleting = false → DeletesJob releasedRound job :=
  ⟨releasedRound_returns,
    (completed_jobs_deleted_iff plainOperator releasedRound_returns releasedRound_completed _).mpr (by decide)⟩

end Etos
