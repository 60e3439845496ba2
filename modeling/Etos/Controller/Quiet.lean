import Etos.Controller.Resource
import Etos.Kube.Quiet

/-!
# `Controller.Quiet` — the shared parts of the reconcilers in a quiet namespace

All reconcilers check providers, look for the jobs they control and read the pods of those that have finished. In a
quiet namespace each of these answers from the content, and the object under reconciliation stays as it is.
-/

namespace Etos

open Kube

variable {adm : Admission Kind Spec Status} {s : Store Kind Spec Status} {name : String} {k₀ : Kind}
  {ext : (x : Ext) → ExtAns x → Prop} {P : Obj k₀ → Op → Prop} {x : Obj k₀}

theorem checkProvider_reaches (hk : Kind.provider ≠ k₀) {n : String}
    (h : ∃ p, s.find .provider n = some p ∧ Provider.available p = true) :
    (checkProvider n).Reaches (Quiet k₀ adm ext s name) P (fun e x' => e = none ∧ x' = x) x := by
  obtain ⟨p, hp, hav⟩ := h
  refine quiet_other (by simp [Op.onFocus, hk]) fun a ha => ?_
  cases a with
  | error e =>
      have hnone : s.find .provider n = none := ha.1
      rw [hp] at hnone
      cases hnone
  | ok p' =>
      have hsome : s.find .provider n = some p' := ha
      obtain rfl := Option.some.inj (hp.symm.trans hsome)
      show Prog.Reaches _ _ (if Provider.available p = true then _ else _) _ x
      rw [if_pos hav]
      exact ⟨rfl, rfl⟩

theorem checkProviders_reaches (hk : Kind.provider ≠ k₀) {providers : Providers}
    (h : ∀ n ∈ [providers.iut, providers.executionSpace, providers.logArea],
      ∃ p, s.find .provider n = some p ∧ Provider.available p = true) :
    (checkProviders providers).Reaches (Quiet k₀ adm ext s name) P (fun e x' => e = none ∧ x' = x) x := by
  refine (checkProvider_reaches hk (h _ (by simp))).bind ?_
  rintro _ x' ⟨rfl, rfl⟩
  refine (checkProvider_reaches hk (h _ (by simp))).bind ?_
  rintro _ x' ⟨rfl, rfl⟩
  exact checkProvider_reaches hk (h _ (by simp))

/-- The status of the jobs the owner controls. -/
theorem status_reaches (j : JobManager) :
    j.status.Reaches (Quiet k₀ adm ext s name) P (fun out x' => x' = x ∧
      out.1 = j.populate (s.list .job (.controlledBy j.ownerAPIVersion j.ownerKind j.name)) ∧
      out.2 = (j.populate (s.list .job (.controlledBy j.ownerAPIVersion j.ownerKind j.name))).summary) x := by
  refine quiet_other (by simp [Op.onFocus]) fun a ha => ?_
  cases a with
  | error e => exact ha.elim
  | ok jobs =>
      obtain rfl : jobs = s.list .job _ := ha
      exact ⟨rfl, rfl, rfl⟩

/-- The pods of the job can be read, and none of the containers has failed. -/
def PodsSucceeded (s : Store Kind Spec Status) (names : List String) (job : Job) : Prop :=
  ∃ pod pods, s.list .pod (.label "job-name" job.name) = pod :: pods ∧
    ∀ n ∈ names, (terminationLog (getLatestPodByCreationTimestamp pod pods) n).1.conclusion ≠ conclusionFailed

theorem resultLoop_reaches {manager : String} {names : List String} {jobs : List Job}
    {result : Result} (h : result.conclusion ≠ conclusionFailed) (hpods : ∀ job ∈ jobs, PodsSucceeded s names job) :
    (resultLoop manager names jobs result).Reaches (Quiet k₀ adm ext s name) P
      (fun out x' => x' = x ∧ out.conclusion ≠ conclusionFailed) x := by
  induction jobs generalizing result with
  | nil => exact ⟨rfl, h⟩
  | cons job jobs ih =>
      refine quiet_other (by simp [Op.onFocus]) fun a ha => ?_
      obtain ⟨pod, pods, hlist, hnames⟩ := hpods job List.mem_cons_self
      cases a with
      | error e => exact ha.elim
      | ok listed =>
          obtain rfl : listed = pod :: pods := Eq.trans ha hlist
          refine ih (fun hfail => ?_) fun j hj => hpods j (List.mem_cons_of_mem _ hj)
          rcases (foldl_addContainer_failed_iff _ _ _ _).mp hfail with hc | ⟨n, hn, hc⟩
          · exact h hc
          · exact hnames n hn hc

/-- `Result` of jobs whose pods have succeeded. -/
theorem result_reaches {j : JobManager} {n : String}
    (hpods : ∀ job ∈ j.considered, PodsSucceeded s [n] job) :
    (j.result n).Reaches (Quiet k₀ adm ext s name) P
      (fun out x' => x' = x ∧ out.conclusion ≠ conclusionFailed) x := by
  refine (resultLoop_reaches (by decide) hpods).bind ?_
  rintro out x' ⟨rfl, hout⟩
  refine ⟨rfl, ?_⟩
  rw [concluded, if_neg hout]
  have hdiff : conclusionSuccessful ≠ conclusionFailed := by decide
  exact hdiff

end Etos
