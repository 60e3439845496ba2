import Etos.Controller.Resource
import Etos.Prog.Panic

/-!
# `Controller.Guarded` — the shared parts of the reconcilers do not panic

Checking providers and clusters, setting conditions, and the job manager dereference nothing that may be nil, and create
nothing but jobs.
-/

namespace Etos

open Kube Prog

/-- A call that creates something else than a job. -/
def CreatesObject : Op → Prop
  | .create .job _ => False
  | .create _ _ => True
  | _ => False

variable {allowed : (o : Op) → Ans o → Prop} {P : Op → Prop} {bad : String → Prop}

section

variable (hP : ∀ o, ¬ CreatesObject o → P o)
include hP

theorem checkProvider_guarded (n : String) : (checkProvider n).Guarded allowed P bad fun _ => True := by
  refine ⟨hP _ id, fun a _ => ?_⟩
  cases a with
  | error e => trivial
  | ok provider =>
      show Prog.Guarded _ _ _ (if Provider.available provider = true then _ else _) _
      split <;> trivial

theorem checkProviders_guarded (providers : Providers) :
    (checkProviders providers).Guarded allowed P bad fun _ => True := by
  refine (checkProvider_guarded hP _).bind fun e _ => ?_
  cases e with
  | some e => trivial
  | none =>
      refine (checkProvider_guarded hP _).bind fun e _ => ?_
      cases e with
      | some e => trivial
      | none => exact checkProvider_guarded hP _

theorem checkCluster_guarded (environmentrequest : EnvironmentRequest) :
    (checkCluster environmentrequest).Guarded allowed P bad fun _ => True := by
  unfold checkCluster
  split
  · trivial
  · exact ⟨hP _ id, fun a _ => trivial⟩

theorem setCondition_guarded {S : Type} (o : Object S ReleasableStatus) (c : Condition) :
    (setCondition o c).Guarded allowed P bad fun out => out.1.metadata = o.metadata ∧ out.1.spec = o.spec :=
  ⟨hP _ id, fun _ _ => ⟨rfl, rfl⟩⟩

/-! ## The job manager -/

theorem status_guarded (j : JobManager) : j.status.Guarded allowed P bad fun _ => True := by
  refine ⟨hP _ id, fun a _ => ?_⟩
  cases a <;> trivial

theorem resultLoop_guarded (manager : String) (names : List String) (jobs : List Job) (result : Result) :
    (resultLoop manager names jobs result).Guarded allowed P bad fun _ => True := by
  induction jobs generalizing result with
  | nil => trivial
  | cons job jobs ih =>
      refine ⟨hP _ id, fun a _ => ?_⟩
      match a with
      | .error _ => trivial
      | .ok [] => trivial
      | .ok (_ :: _) => exact ih _

theorem result_guarded (j : JobManager) (containerName : String) (containerNames : List String) :
    (j.result containerName containerNames).Guarded allowed P bad fun _ => True :=
  (resultLoop_guarded hP _ _ _ _).bind fun _ _ => trivial

theorem deleteAll_guarded (jobs : List Job) : (JobManager.deleteAll jobs).Guarded allowed P bad fun _ => True := by
  induction jobs with
  | nil => trivial
  | cons job jobs ih =>
      unfold JobManager.deleteAll
      split
      · exact ih
      · exact ⟨hP _ id, fun a _ => ih.bind fun _ _ => trivial⟩

theorem delete_guarded (j : JobManager) : j.delete.Guarded allowed P bad fun _ => True := deleteAll_guarded hP _

/-- Creating a job is as safe as building its specification. -/
theorem create_guarded {jobSpec : M (Except Err Job)} (h : jobSpec.Guarded allowed P bad fun _ => True) :
    (JobManager.create jobSpec).Guarded allowed P bad fun _ => True := by
  refine h.bind fun job _ => ?_
  cases job with
  | error e => trivial
  | ok job => exact ⟨hP _ id, fun a _ => trivial⟩

end

/-! ## Paths through them -/

/-- Providers that are there and available pass the check. -/
theorem checkProvider_can {n : String} (provider : Provider) (h : Provider.available provider = true)
    (ha : allowed (.get .provider n) (.ok provider)) :
    (checkProvider n).Can (free allowed) (fun e _ => e = none) () := by
  refine ⟨.ok provider, (), ha, ?_⟩
  show Can _ (if Provider.available provider = true then _ else _) _ _
  rw [if_pos h]
  rfl

theorem checkProviders_can (providers : Providers) (provider : Provider) (h : Provider.available provider = true)
    (ha : ∀ n, allowed (.get .provider n) (.ok provider)) :
    (checkProviders providers).Can (free allowed) (fun e _ => e = none) () := by
  refine (checkProvider_can provider h (ha _)).bind ?_
  rintro _ _ rfl
  refine (checkProvider_can provider h (ha _)).bind ?_
  rintro _ _ rfl
  exact checkProvider_can provider h (ha _)

/-- The cluster a request is labelled with may be there. -/
theorem checkCluster_can (environmentrequest : EnvironmentRequest) (cluster : Cluster)
    (ha : ∀ n, allowed (.get .cluster n) (.ok cluster)) :
    (checkCluster environmentrequest).Can (free allowed) (fun e _ => e = none) () := by
  unfold checkCluster
  split
  · rfl
  · exact ⟨.ok cluster, (), ha _, rfl⟩

/-- There may be no jobs. -/
theorem status_can (j : JobManager) (ha : ∀ sel, allowed (.list .job sel) (.ok [])) :
    j.status.Can (free allowed) (fun out _ => out.2 = .ok .none) () :=
  ⟨.ok [], (), ha _, rfl⟩

end Etos
