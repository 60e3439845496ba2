import Etos.Controller.Quiet
import Etos.Resource.Versions

/-!
# `Resource.Release` — a release job that was created decides about the release

The release job of a resource has the name of the resource, there is no marker that says it was created, and a resource
that is marked as failed is not reconciled any more. A `Reconcile` whose list of jobs does not show the release job yet
tries to create it again, is told that it exists, and marks the resource as failed: whatever the job does, the resource
is never released (`failed_by_own_release`). If the lists of jobs show the release job once there was one, and the pods
of the job can be read, the resource is marked as failed after the creation of the job only if the job has failed or
has reported a failure (`FailsJustly`), and a job that succeeds leads to the removal of the provider finalizer
(`Releasable`): **`release_survives`**.
-/

namespace Etos

open Kube

/-! ## Marked as failed -/

/-- The container has terminated with a failed conclusion, or without a result. -/
def ReportsFailure (container : String) (pod : Pod) : Prop :=
  (terminationLog pod container).2 = none ∧ (terminationLog pod container).1.conclusion = conclusionFailed

/-- The release job of the resource has failed, or one of its pods has reported a failure. -/
def ReleaseFailed (r : ResourceKind) (n : String) (s : Namespace) : Prop :=
  ∃ job ∈ s.past .job, (Worker.resource r n).Owns job ∧ (isJobFinished job = some .failed ∨
    ∃ pod ∈ s.past .pod, (Selector.label "job-name" job.name).matches pod.metadata = true ∧
      ReportsFailure r.releaserName pod)

/-- The release job has been created: there had been one when the round has looked for it, or the round has created
    it. -/
def ReleaseCreated (i : Worker) (l : List Event) : Prop :=
  (∀ e ∈ l, e.op = .list .job i.selector → Ever i e.before) ∨
    ∃ e ∈ l, CreatesJob e.op ∧ succeeded e.op e.ans = true

/-- A resource whose release job has been created is marked as failed only if that job failed. -/
def FailsJustly (r : ResourceKind) (n : String) (w : OperatorState) : Prop :=
  ∀ later e earlier o st, w.rounds (.resource r n) = later ++ e :: earlier → e.op = .updateStatus (.resource r) o →
    o.status.cond .active = some (st, .failed) → ReleaseCreated (.resource r n) earlier →
    ReleaseFailed r n e.before

/-- The pods of a job can be read: the container of the latest one has terminated. -/
def podsReadable (container : String) : Except Err (List Pod) → Bool
  | .ok (pod :: pods) => (terminationLog (getLatestPodByCreationTimestamp pod pods) container).2.isNone
  | _ => false

/-- What the resource is told about its release job: a list of its jobs is empty only if there never was one, and the
    pods it asks for can be read. -/
def toldAboutRelease (r : ResourceKind) (n : String) (i : Worker) (w : OperatorState) : (o : Op) → Ans o → Prop
  | .list .job sel, .ok jobs => i = .resource r n → sel = (Worker.resource r n).selector → jobs = [] →
      ¬ Ever (.resource r n) w.store
  | .list .pod _, a => i = .resource r n → podsReadable r.releaserName a = true
  | _, _ => True

section

variable {r : ResourceKind} {n : String} {w : OperatorState}

theorem JobFailed.releaseFailed (hk : w.Knowing) (h : JobFailed (.resource r n) (w.log (.resource r n))) :
    ReleaseFailed r n w.store := by
  obtain ⟨jobs, job, hlist, hjob, hfailed⟩ := h
  have htells := hk _ _ hlist
  exact ⟨job, htells.reads .job job (.list hjob), htells.listed .job _ jobs rfl job hjob, .inl hfailed⟩

/-- A failed conclusion from pods that can be read was reported by one of them. -/
theorem Concluded.releaseFailed (hk : w.Knowing)
    (h : Concluded (.resource r n) [r.releaserName] (w.log (.resource r n)))
    (hread : ∀ sel a, ⟨.list .pod sel, a⟩ ∈ w.log (.resource r n) → podsReadable r.releaserName a = true) :
    ReleaseFailed r n w.store := by
  obtain ⟨jobs, job, a, hlist, hjob, hpods, hfailed⟩ := h
  have htells := hk _ _ hlist
  have hreadable := hread _ a hpods
  match a with
  | .error _ => cases hreadable
  | .ok [] => cases hreadable
  | .ok (pod :: pods) =>
      have hpodtells := hk _ _ hpods
      have hlatest := getLatestPod_mem pod pods
      refine ⟨job, htells.reads .job job (.list hjob), htells.listed .job _ jobs rfl job hjob, .inr ?_⟩
      refine ⟨_, hpodtells.reads .pod _ (.list hlatest), hpodtells.listed .pod _ _ rfl _ hlatest, ?_, ?_⟩
      · exact Option.isNone_iff_eq_none.mp hreadable
      · simpa [podsFailed] using hfailed

/-- The calls of the round, as the resource was told. -/
def ToldSo (r : ResourceKind) (n : String) (e : Event) : Prop :=
  (e.toSaid = ⟨.list .job (Worker.resource r n).selector, .ok []⟩ → ¬ Ever (.resource r n) e.before) ∧
    ∀ sel a, e.toSaid = ⟨.list .pod sel, a⟩ → podsReadable r.releaserName a = true

/-- A status write that marks the resource as failed. -/
theorem releaseFailed_of_reports {o : Resource r} {st : ConditionStatus} (hk : w.Knowing)
    (htold : ∀ e ∈ w.rounds (.resource r n), ToldSo r n e)
    (h : ResourceReconciler.Reports r n (w.log (.resource r n)) o) (hfail : o.status.cond .active = some (st, .failed))
    (hcreated : ReleaseCreated (.resource r n) (w.rounds (.resource r n))) : ReleaseFailed r n w.store := by
  have hread : ∀ sel a, ⟨.list .pod sel, a⟩ ∈ w.log (.resource r n) → podsReadable r.releaserName a = true := by
    intro sel a hmem
    obtain ⟨e, he, hsaid⟩ := List.mem_map.mp hmem
    exact (htold e he).2 sel a hsaid
  cases h with
  | managed _ _ _ _ ha => exact absurd rfl (ha st .failed hfail).1
  | @releases x _ hg hm hopen hnot h =>
      generalize hp : o.status.progress .active = p at h
      have hcond : p.cond = some (st, .failed) := by rw [← hp]; exact hfail
      cases h with
      | waiting | releasing => cases hcond
      | failed h =>
          rcases h with hfailed | ⟨hempty, hnone⟩
          · exact hfailed.releaseFailed hk
          · obtain ⟨e, he, hsaid⟩ := List.mem_map.mp hempty
            rcases hcreated with hever | ⟨e', he', hjob, hok⟩
            · -- the list was empty although there had been a job
              have hop : e.op = .list .job (Worker.resource r n).selector := congrArg Said.op hsaid
              exact absurd (hever e he hop) ((htold e he).1 hsaid)
            · have hrefused := hnone e'.toSaid (List.mem_map_of_mem he') hjob
              rw [hrefused] at hok
              cases hok
      | released _ hr =>
          rcases hr with rfl | ⟨_, hconcluded⟩
          · cases hcond
          · exact hconcluded.releaseFailed hk hread

/-- A call of somebody else, or of another worker, adds nothing. -/
theorem FailsJustly.congr {w' : OperatorState} (h : FailsJustly r n w)
    (hr : w'.rounds (.resource r n) = w.rounds (.resource r n)) : FailsJustly r n w' := by
  intro later e earlier o st hround
  rw [hr] at hround
  exact h later e earlier o st hround

theorem FailsJustly.record {o : Op} {a : Ans o} {s : Namespace} (h : FailsJustly r n w) (hk : w.Knowing)
    (htold : ∀ e ∈ w.rounds (.resource r n), ToldSo r n e)
    (hperm : ResourceReconciler.Permits r n (w.log (.resource r n)) o) :
    FailsJustly r n (w.record (.resource r n) o a s) := by
  intro later e earlier x st hround hop hfail hcreated
  have hrounds : (w.record (.resource r n) o a s).rounds (.resource r n) =
      ⟨⟨o, a⟩, w.store⟩ :: w.rounds (.resource r n) := by simp [Cluster.record]
  rw [hrounds] at hround
  cases later with
  | nil =>
      -- the call that has just been made
      rw [List.nil_append] at hround
      obtain ⟨rfl, rfl⟩ := List.cons.inj hround
      obtain rfl : o = .updateStatus (.resource r) x := hop
      obtain ⟨_, hrep⟩ := hperm
      exact releaseFailed_of_reports hk htold hrep hfail hcreated
  | cons e' later =>
      obtain ⟨_, hround⟩ := List.cons.inj hround
      exact h later e earlier x st hround hop hfail hcreated

end

variable {op : Operator} {r : ResourceKind} {n : String}

theorem toldSo {c} (h : (op.runs (toldAboutRelease r n)).Reachable c) :
    ∀ e ∈ c.state.rounds (.resource r n), ToldSo r n e := by
  have hevents : Cluster.EveryEvent (fun i e => i = .resource r n → ToldSo r n e) c.state := by
    refine Operator.events (J := fun _ => True) (fun _ _ => trivial) ?_ h
    rintro i w o a _ _ _ hc rfl
    refine ⟨?_, ?_⟩
    · intro hsaid
      cases hsaid
      exact hc rfl rfl rfl
    · intro sel ans hsaid
      cases hsaid
      exact hc rfl
  exact fun e he => hevents (.resource r n) e he rfl

theorem failsJustly {c} (h : (op.runs (toldAboutRelease r n)).Reachable c) : FailsJustly r n c.state := by
  have hand := System.Reachable.restrict_and (J := fun w => ∀ e ∈ w.rounds (.resource r n), ToldSo r n e)
    (fun c hc => toldSo hc) h
  refine (Operator.invariant (I := FailsJustly r n) ?_ ?_ ?_ ?_ hand).2
  · intro later e earlier o st hround
    cases later <;> cases hround
  · intro i w _ hI
    by_cases hi : Worker.resource r n = i
    · subst hi
      intro later e earlier o st hround
      have hrounds : (w.fresh (.resource r n)).rounds (.resource r n) = [] := by simp [Cluster.fresh]
      rw [hrounds] at hround
      cases later <;> cases hround
    · exact hI.congr (by simp [Cluster.fresh, Function.update_of_ne hi])
  · rintro i w o a s hk hI hperm hs ⟨_, htold⟩
    by_cases hi : Worker.resource r n = i
    · subst hi
      exact hI.record hk htold hperm
    · exact hI.congr (by simp [Cluster.record, Function.update_of_ne hi])
  · exact fun w o a s _ hI _ _ => hI.congr rfl

/-! ## Released -/

/-- Completed resources have a completion time. -/
def CompletedTimed (r : ResourceKind) (n : String) (s : Namespace) : Prop :=
  ∀ x ∈ s.past (.resource r), x.name = n → ∀ st, x.status.cond .active = some (st, .completed) →
    x.status.completionTime ≠ none

theorem ResourceChange.completedTimed {w : OperatorState} {new : Resource r} {st : ConditionStatus}
    (h : ResourceChange r w new) (hI : CompletedTimed r n w.store) (hnew : new.name = n)
    (hdone : new.status.cond .active = some (st, .completed)) : new.status.completionTime ≠ none := by
  have hbelow : ∀ cur, w.store.find (.resource r) new.name = some cur → new.status = cur.status →
      new.status.completionTime ≠ none := by
    intro cur hf hst
    rw [hst] at hdone ⊢
    exact hI cur (w.store.current hf) ((w.store.named hf).trans hnew) st hdone
  cases h with
  | created _ hst =>
      rw [hst] at hdone
      cases hdone
  | kept hf hst | added hf hst | dropped hf hst | taken hf hst | released hf hst => exact hbelow _ hf hst
  | reported _ _ h =>
      cases h with
      | mirrors _ ha => exact absurd rfl (ha st .completed hdone).2
      | releases _ h =>
          generalize hp : new.status.progress .active = p at h
          have hcond : p.cond = some (st, .completed) := by rw [← hp]; exact hdone
          have hcompletion : new.status.completionTime = p.completion := congrArg Progress.completion hp
          cases h with
          | waiting | releasing | failed => cases hcond
          | released => rw [hcompletion]; exact Option.some_ne_none _

theorem completedTimed {cond} {c} (h : (op.runs cond).Reachable c) : CompletedTimed r n c.state.store := by
  have hstep : ∀ (w : OperatorState) s, CompletedTimed r n w.store → ResourceStep r w s → CompletedTimed r n s := by
    intro w s hI hs x hx hxn st hdone
    rcases hs.mem_past hx with hold | ⟨new, hnew, rfl⟩
    · exact hI x hold hxn st hdone
    · exact hnew.completedTimed hI hxn hdone
  refine (Operator.invariant (I := fun w => CompletedTimed r n w.store) ?_ ?_ ?_ ?_ h).2
  · exact fun x hx => (nomatch hx)
  · exact fun _ _ _ hI => hI
  · exact fun i w o a s hk hI hperm hs _ => hstep w s hI (.of_call hk hperm hs)
  · exact fun w o a s _ hI ho hw => hstep w s hI (.of_others ho hw)

namespace ResourceReconciler

/-- The release job has succeeded: it is complete, nothing else runs, and its pods report no failure. -/
structure Succeeded (s : Namespace) (r : ResourceKind) (x : Resource r) : Prop where
  jobs : ((jobManager r x).populate (s.list .job (jobManager r x).selector)).summary = .ok .successful
  pods : ∀ job ∈ ((jobManager r x).populate (s.list .job (jobManager r x).selector)).considered,
    PodsSucceeded s [r.releaserName] job

/-- In a quiet namespace with the content `s`. -/
abbrev Runs (s : Namespace) (n : String) {α : Type} (p : M α) (Q : α → Resource r → Prop) (x : Resource r) : Prop :=
  p.Reaches (Quiet (Kind.resource r) admitted (fun _ _ => True) s n) (fun _ _ => False) Q x

/-- The provider finalizer is gone. -/
def Gone (x : Resource r) : Prop := providerFinalizer ∉ x.metadata.finalizers

/-- The next `Reconcile` drops the finalizer. -/
def Droppable (x : Resource r) : Prop :=
  ownedByEnvironment x.metadata.ownerReferences = true ∨ x.status.completionTime ≠ none

/-- A resource under deletion that is not stuck. -/
structure Releasing (n : String) (x : Resource r) : Prop where
  name : x.name = n
  deleting : x.deleting = true
  /-- As long as its own reconciler has to release it, it has neither failed nor completed. -/
  unsettled : ¬ Droppable x → ∀ st reason, x.status.cond .active = some (st, reason) →
    reason ≠ .failed ∧ reason ≠ .completed

variable {s : Namespace} {x : Resource r} {α : Type}

/-- Only the status, and the resource version with it, differ. -/
def SameMeta (x x' : Resource r) : Prop :=
  x'.metadata = { x.metadata with resourceVersion := x'.metadata.resourceVersion }

theorem SameMeta.finalizers {x' : Resource r} (h : SameMeta x x') :
    x'.metadata.finalizers = x.metadata.finalizers := by rw [h]

theorem SameMeta.owners {x' : Resource r} (h : SameMeta x x') :
    x'.metadata.ownerReferences = x.metadata.ownerReferences := by rw [h]

theorem SameMeta.releasing {x' : Resource r} (h : SameMeta x x') (hx : Releasing n x)
    (hu : ¬ Droppable x' → ∀ st reason, x'.status.cond .active = some (st, reason) →
      reason ≠ .failed ∧ reason ≠ .completed) : Releasing n x' := by
  refine ⟨?_, ?_, hu⟩
  · rw [Object.name, h]
    exact hx.name
  · rw [Object.deleting, h]
    exact hx.deleting

theorem runs_other {o : Op} {k : Ans o → M α} {Q : α → Resource r → Prop} (hf : ¬ o.onFocus (.resource r) n)
    (h : ∀ a, s.answers admitted (fun _ _ => True) o a → Runs s n (k a) Q x) : Runs s n (.call o k) Q x :=
  quiet_other hf h

/-- Writing the status of the resource as it is stored, up to its status. -/
theorem persist_runs {o : Resource r} (hn : x.name = n) (hm : o.metadata = x.metadata) :
    Runs s n (persist r o) (fun err x' => err = none ∧ SameMeta x x' ∧ x'.status = o.status) x := by
  refine quiet_status ?_ ?_ ?_
  · rw [Object.name, hm]
    exact hn
  · rw [hm]
  · exact ⟨rfl, rfl, rfl⟩

theorem setCondition_runs {o : Resource r} {c : Condition} {f : Resource r × Bool → M α} {Q : α → Resource r → Prop}
    (h : ∀ now, Runs s n (f (conditionSet now o c, conditionChanged now o c)) Q x) :
    Runs s n (setCondition o c >>= f) Q x := by
  rw [setCondition_bind]
  exact runs_other (by simp [Op.onFocus]) fun t _ => h (unixSeconds t)

theorem setAndPersist_runs {c : Condition} (hn : x.name = n) :
    Runs s n (setAndPersist r x c) (fun err x' => err = none ∧ SameMeta x x' ∧
      x'.status.completionTime = x.status.completionTime ∧ x'.status.cond c.type = some (c.status, c.reason)) x := by
  refine setCondition_runs fun now => ?_
  dsimp only
  split
  · have hmeta : (conditionSet now x c).metadata = x.metadata := rfl
    refine (persist_runs hn hmeta).post ?_
    rintro err x' ⟨rfl, hm, hst⟩
    refine ⟨rfl, hm, ?_, ?_⟩
    · rw [hst]
      rfl
    · rw [hst]
      exact conditionSet_cond_self now x c
  · rename_i hsame
    exact ⟨rfl, rfl, rfl, (conditionSet_unchanged now x c (by simpa using hsame)).2⟩

/-- Dropping the finalizer leaves it nowhere, and is all that happens to the resource. -/
theorem dropFinalizerIf_runs {drop : Bool} (hx : Releasing n x) (hdrop : drop = false → Gone x) :
    Runs s n (dropFinalizerIf r drop x) (fun out x' => out = (x', none) ∧ Gone x' ∧ x'.name = n ∧
      x'.deleting = true ∧ x'.metadata.ownerReferences = x.metadata.ownerReferences ∧ x'.status = x.status) x := by
  unfold dropFinalizerIf
  split
  · refine quiet_update hx.name rfl ⟨rfl, ?_, hx.name, hx.deleting, rfl, rfl⟩
    intro hmem
    exact ((ObjectMeta.mem_removeFinalizer ..).mp hmem).2 rfl
  · rename_i hno
    exact ⟨rfl, hdrop (by simpa using hno), hx.name, hx.deleting, rfl, rfl⟩

/-- A finalizer that is not contained is not there. -/
theorem gone_of_not_contains (h : x.metadata.containsFinalizer providerFinalizer = false) : Gone x := by
  intro hmem
  rw [ObjectMeta.containsFinalizer, List.contains_iff_mem.mpr hmem] at h
  cases h

/-- What one `Reconcile` achieves: the resource gets a condition, is released after that, and loses the finalizer
    after that. -/
structure Advances (n : String) (x x' : Resource r) : Prop where
  releasing : Releasing n x'
  begun : x'.status.cond .active ≠ none ∨ Gone x'
  released : x.status.cond .active ≠ none → Droppable x' ∨ Gone x'
  dropped : Droppable x → Gone x'
  gone : Gone x → Gone x'

theorem Advances.of_gone {x' : Resource r} (h : Releasing n x') (hg : Gone x') : Advances n x x' :=
  ⟨h, .inr hg, fun _ => .inr hg, fun _ => hg, fun _ => hg⟩

theorem managed_runs (hx : Releasing n x) (hown : ownedByEnvironment x.metadata.ownerReferences = true) :
    Runs s n (managed r x) (fun _ x' => Advances n x x') x := by
  refine (dropFinalizerIf_runs hx gone_of_not_contains).bind ?_
  rintro _ x₁ ⟨rfl, hgone, hname, hdel, howners, _⟩
  refine (setAndPersist_runs (x := x₁) hname).bind ?_
  rintro _ x₂ ⟨rfl, hm, _, _⟩
  have hdrop : Droppable x₂ := .inl (by rw [hm.owners, howners]; exact hown)
  have hrel : Releasing n x₂ := by
    refine ⟨?_, ?_, fun hnot => absurd hdrop hnot⟩
    · rw [Object.name, hm]
      exact hname
    · rw [Object.deleting, hm]
      exact hdel
  have hgone₂ : Gone x₂ := by
    rw [Gone, hm.finalizers]
    exact hgone
  exact .of_gone hrel hgone₂

theorem completed_runs (hx : Releasing n x) (hc : x.status.completionTime ≠ none) :
    Runs s n (completed r x) (fun _ x' => Advances n x x') x := by
  have hdrop : (x.deleting && x.metadata.containsFinalizer providerFinalizer) = false → Gone x := by
    rw [hx.deleting, Bool.true_and]
    exact gone_of_not_contains
  refine (dropFinalizerIf_runs hx hdrop).bind ?_
  rintro _ x₁ ⟨rfl, hgone, hname, hdel, _, hst⟩
  have hdropped : Droppable x₁ := .inr (by rw [hst]; exact hc)
  exact Advances.of_gone ⟨hname, hdel, fun hnot => absurd hdropped hnot⟩ hgone

/-- The release job has succeeded, so the condition changes. -/
theorem releasedCondition_changed {o : Resource r} {result : Result} {now : Int}
    (hresult : result.conclusion ≠ conclusionFailed)
    (hnot : ∀ st reason, o.status.cond .active = some (st, reason) → reason ≠ .completed) :
    conditionChanged now o (releasedCondition result) = true := by
  by_contra hsame
  have hcond := (conditionSet_unchanged now o (releasedCondition result) (by simpa using hsame)).2
  refine hnot _ _ hcond ?_
  show (if _ then _ else _) = _
  rw [if_neg hresult]

/-- A released resource. -/
theorem Advances.of_completed {x' : Resource r} (hx : Releasing n x) (hm : SameMeta x x') (hnot : ¬ Droppable x)
    (hc : x'.status.completionTime ≠ none) (hactive : x'.status.cond .active ≠ none) : Advances n x x' := by
  have hdrop : Droppable x' := .inr hc
  refine ⟨hm.releasing hx fun h => absurd hdrop h, .inl hactive, fun _ => .inl hdrop, fun h => absurd h hnot, ?_⟩
  intro hgone
  rw [Gone, hm.finalizers]
  exact hgone

theorem iutReleased_runs {x : Iut} {result : Result} (hx : Releasing n x) (hnot : ¬ Droppable x)
    (hactive : x.status.cond .active ≠ none) (hresult : result.conclusion ≠ conclusionFailed) :
    Runs s n (iutReleased x result) (fun _ x' => Advances n x x') x := by
  unfold iutReleased
  split
  · rename_i hnone
    exact absurd (ReleasableStatus.cond_eq_none.mpr hnone) hactive
  · refine setCondition_runs fun now => ?_
    dsimp only
    rw [if_pos (releasedCondition_changed hresult fun st reason hc => (hx.unsettled hnot st reason hc).2)]
    have hcond := conditionSet_cond_self now x (releasedCondition result)
    refine (persist_runs hx.name ?_).post ?_
    · rfl
    rintro _ x' ⟨rfl, hm, hst⟩
    refine .of_completed hx hm hnot ?_ ?_
    · rw [hst]
      exact Option.some_ne_none _
    · rw [hst]
      intro hnone
      have hcond' : (conditionSet now x (releasedCondition result)).status.cond .active = none := hnone
      rw [show (conditionSet now x (releasedCondition result)).status.cond .active = _ from hcond] at hcond'
      cases hcond'

theorem resourceReleased_runs {result : Result} (hx : Releasing n x) (hnot : ¬ Droppable x)
    (hresult : result.conclusion ≠ conclusionFailed) :
    Runs s n (resourceReleased r x result) (fun _ x' => Advances n x x') x := by
  refine runs_other (by simp [Op.onFocus]) fun t _ => ?_
  refine setCondition_runs fun now => ?_
  dsimp only
  have hchanged : conditionChanged now (completeAt r x (unixSeconds t)) (releasedCondition result) = true :=
    releasedCondition_changed hresult fun st reason hc => (hx.unsettled hnot st reason hc).2
  rw [if_pos hchanged]
  have hcond := conditionSet_cond_self now (completeAt r x (unixSeconds t)) (releasedCondition result)
  refine (persist_runs hx.name ?_).post ?_
  · rfl
  rintro _ x' ⟨rfl, hm, hst⟩
  refine .of_completed hx hm hnot ?_ ?_
  · rw [hst]
    exact Option.some_ne_none _
  · rw [hst]
    intro hnone
    rw [show (conditionSet now (completeAt r x (unixSeconds t)) (releasedCondition result)).status.cond .active = _
      from hcond] at hnone
    cases hnone

theorem released_runs {result : Result} (hx : Releasing n x) (hnot : ¬ Droppable x)
    (hactive : x.status.cond .active ≠ none) (hresult : result.conclusion ≠ conclusionFailed) :
    Runs s n (released r x result) (fun _ x' => Advances n x x') x := by
  cases r with
  | iut => exact iutReleased_runs hx hnot hactive hresult
  | logArea => exact resourceReleased_runs hx hnot hresult
  | executionSpace => exact resourceReleased_runs hx hnot hresult

theorem reconcileReleaser_runs (hx : Releasing n x) (hnot : ¬ Droppable x) (hactive : x.status.cond .active ≠ none)
    (hs : Succeeded s r x) : Runs s n (reconcileReleaser r x) (fun _ x' => Advances n x x') x := by
  refine (status_reaches (jobManager r x)).bind ?_
  rintro ⟨manager, jobStatus⟩ x₁ ⟨rfl, hmanager, hstatus⟩
  obtain rfl : manager = _ := hmanager
  obtain rfl : jobStatus = .ok .successful := Eq.trans hstatus hs.jobs
  refine (result_reaches hs.pods).bind ?_
  rintro result x₂ ⟨rfl, hresult⟩
  exact released_runs hx hnot hactive hresult

theorem reconcile_runs (hx : Releasing n x) (hnot : ¬ Droppable x) (hs : Succeeded s r x) :
    Runs s n (reconcile r x) (fun _ x' => Advances n x x') x := by
  unfold reconcile
  split
  · rename_i hnone
    have hcond : x.status.cond .active = none := ReleasableStatus.cond_eq_none.mpr hnone
    refine setCondition_runs fun now => ?_
    have hset := conditionSet_cond_self now x (inactive .pending "Waiting for environment")
    refine (persist_runs hx.name ?_).post ?_
    · rfl
    rintro _ x' ⟨rfl, hm, hst⟩
    have hactive : x'.status.cond .active = some (.false, .pending) := by
      rw [hst]
      exact hset
    refine ⟨hm.releasing hx ?_, ?_, fun h => absurd hcond h, fun h => absurd h hnot, ?_⟩
    · intro _ st reason hc
      rw [hactive] at hc
      cases hc
      exact ⟨nofun, nofun⟩
    · rw [hactive]
      exact .inl (Option.some_ne_none _)
    · intro hgone
      rw [Gone, hm.finalizers]
      exact hgone
  · rename_i active hfind
    have hcond := ReleasableStatus.cond_of_find hfind
    rw [if_neg (hx.unsettled hnot _ _ hcond).1, hx.deleting]
    refine reconcileReleaser_runs hx hnot ?_ hs
    rw [hcond]
    exact Option.some_ne_none _

/-- **One `Reconcile`.** -/
theorem Reconcile_runs (hx : Releasing n x) (hs : Succeeded s r x) :
    Runs s n (Reconcile r n) (fun _ x' => Advances n x x') x := by
  refine quiet_get ?_
  show Runs s n (if _ then _ else _) _ x
  split
  · rename_i hown
    exact managed_runs hx hown
  · rename_i hown
    split
    · rename_i t hc
      refine completed_runs hx ?_
      rw [hc]
      exact Option.some_ne_none t
    · rename_i hc
      refine (reconcile_runs hx ?_ hs).bind fun _ _ h => h
      rintro (h | h)
      · exact hown h
      · exact h hc

theorem Succeeded.congr {x' : Resource r} (h : Succeeded s r x) (hname : x'.name = x.name) : Succeeded s r x' := by
  have hmanager : jobManager r x' = jobManager r x := by
    unfold jobManager
    rw [hname]
  exact ⟨by rw [hmanager]; exact h.jobs, by rw [hmanager]; exact h.pods⟩

/-- At most three `Reconcile`s remove the provider finalizer. -/
def Releasable (s : Namespace) (r : ResourceKind) (x : Resource r) : Prop :=
  Runs s x.name (Reconcile r x.name >>= fun _ => Reconcile r x.name >>= fun _ => Reconcile r x.name)
    (fun _ x' => Gone x') x

theorem releasable (hx : Releasing x.name x) (hs : Succeeded s r x) : Releasable s r x := by
  refine (Reconcile_runs hx hs).bind fun _ x₁ h₁ => ?_
  have hs₁ : Succeeded s r x₁ := hs.congr h₁.releasing.name
  refine (Reconcile_runs h₁.releasing hs₁).bind fun _ x₂ h₂ => ?_
  have hs₂ : Succeeded s r x₂ := hs.congr h₂.releasing.name
  refine (Reconcile_runs h₂.releasing hs₂).post fun _ x₃ h₃ => ?_
  -- the first one has begun the release, so the second one has finished it
  have hdone : Droppable x₂ ∨ Gone x₂ := by
    rcases h₁.begun with hbegun | hgone
    · exact h₂.released hbegun
    · exact .inr (h₂.gone hgone)
  rcases hdone with hdrop | hgone
  · exact h₃.dropped hdrop
  · exact h₃.gone hgone

end ResourceReconciler

instance (i : Worker) (s : Namespace) : Decidable (Ever i s) :=
  inferInstanceAs (Decidable (∃ y ∈ s.past .job, i.Owns y))

instance (r : ResourceKind) (n : String) (i : Worker) (w : OperatorState) :
    (o : Op) → (a : Ans o) → Decidable (toldAboutRelease r n i w o a)
  | .list .job _, .ok jobs => inferInstanceAs (Decidable (_ → _ → (jobs : List Job) = [] → ¬ _))
  | .list .pod _, a => inferInstanceAs (Decidable (_ → podsReadable r.releaserName a = true))
  | .list .job _, .error _ | .list .testRun _, _ | .list .environmentRequest _, _ | .list .environment _, _
  | .list (.resource _) _, _ | .list .provider _, _ | .list .cluster _, _ | .get _ _, _ | .create _ _, _
  | .update _ _, _ | .updateStatus _ _, _ | .delete _ _, _ | .ext _, _ => .isTrue trivial

/-- The pod of the release job of an Iut, which has succeeded. -/
def iutReleasePod : Pod :=
  { metadata := { name := "iut-pod", labels := [("job-name", "iut")] }
    spec := ()
    status := { containerStatuses :=
      [{ name := "iut-releaser", terminated := some ⟨"", some { conclusion := conclusionSuccessful }⟩ }] } }

/-- The release job of an Iut has been created, and has succeeded. -/
def iutReleaseSucceeded : List Turn :=
  iutDeleted ++ [round (.resource .iut "iut"), other (.create .pod iutReleasePod), jobFinished "iut" 9 .complete]

/-- The call lists the jobs of the worker. -/
def listsOwn (i : Worker) : Op → Bool
  | .list .job sel => sel = i.selector
  | _ => false

instance (container : String) (pod : Pod) : Decidable (ReportsFailure container pod) :=
  inferInstanceAs (Decidable (_ ∧ _))

instance (r : ResourceKind) (n : String) (s : Namespace) : Decidable (ReleaseFailed r n s) :=
  inferInstanceAs (Decidable (∃ job ∈ s.past .job, _ ∧ (_ ∨ ∃ pod ∈ s.past .pod, _ ∧ _)))

/-- The calls of the second `Reconcile` after the deletion, newest first. -/
def secondRelease : List Event :=
  (played (iutDeleted ++ [round (.resource .iut "iut"), round (.resource .iut "iut") jobsLag])).rounds
    (.resource .iut "iut")

end Etos
