import Etos.Operator.Reads

/-!
# `Resource.Machine` — Iuts, LogAreas and ExecutionSpaces as state machines

The progress of a resource is its Active condition and its completion time. As long as no Environment owns it, its own
reconciler releases it (`Releases`); once one does, the reconciler hands its finalizer over and mirrors the state of
the Environment. `Permits` lists the calls of a `Reconcile` in terms of what the round has heard, and
**`Reconcile_obeys`** says that it makes no others.
-/

namespace Etos

open Kube

/-! ## What the jobs of a round say -/

/-- A job of the worker has failed. -/
def JobFailed (i : Worker) (l : Log) : Prop :=
  ∃ jobs job, ⟨.list .job i.selector, .ok jobs⟩ ∈ l ∧ job ∈ jobs ∧ isJobFinished job = some .failed

/-- A job of the worker has completed. -/
def JobComplete (i : Worker) (l : Log) : Prop :=
  ∃ jobs job, ⟨.list .job i.selector, .ok jobs⟩ ∈ l ∧ job ∈ jobs ∧ isJobFinished job = some .complete

/-- What the pods of a job are taken to conclude: those that cannot be read have failed. -/
def podsFailed (names : List String) : Except Err (List Pod) → Bool
  | .error _ => true
  | .ok [] => true
  | .ok (pod :: pods) => names.any fun n =>
      (terminationLog (getLatestPodByCreationTimestamp pod pods) n).1.conclusion = conclusionFailed

/-- Some job of the worker was concluded to have failed. -/
def Concluded (i : Worker) (names : List String) (l : Log) : Prop :=
  ∃ jobs job a, ⟨.list .job i.selector, .ok jobs⟩ ∈ l ∧ job ∈ jobs ∧
    ⟨.list .pod (.label "job-name" job.name), a⟩ ∈ l ∧ podsFailed names a = true

variable {ok : Log → Op → Prop} {l l' : Log}

theorem JobComplete.grown {P : Op → Prop} {i : Worker} (h : JobComplete i l) (hg : Grown P l l') :
    JobComplete i l' := by
  obtain ⟨jobs, job, hlist, hrest⟩ := h
  exact ⟨jobs, job, hg.mem hlist, hrest⟩

theorem Concluded.grown {P : Op → Prop} {i : Worker} {names : List String} (h : Concluded i names l)
    (hg : Grown P l l') : Concluded i names l' := by
  obtain ⟨jobs, job, a, hjobs, hjob, hlist, hf⟩ := h
  exact ⟨jobs, job, a, hg.mem hjobs, hjob, hg.mem hlist, hf⟩

/-- The loop over the jobs fails the result only because of some pods. -/
theorem resultLoop_obeys {manager : String} {names : List String} {i : Worker} {listed : List Job}
    (hok : ∀ l o, IsRead o → ok l o) (hlisted : ⟨.list .job i.selector, .ok listed⟩ ∈ l) (jobs : List Job)
    (hsub : ∀ job ∈ jobs, job ∈ listed) (result : Result) :
    Obeys ok (resultLoop manager names jobs result) (fun out l' => Grown IsRead l l' ∧
      (out.conclusion = conclusionFailed → result.conclusion = conclusionFailed ∨ Concluded i names l')) l := by
  induction jobs generalizing result l with
  | nil => exact ⟨.refl, .inl⟩
  | cons job jobs ih =>
      refine Follows.call (hok _ _ trivial) fun a _ => ?_
      have hg : Grown IsRead l (⟨.list .pod (.label "job-name" job.name), a⟩ :: l) := Grown.refl.cons trivial
      have hjob : job ∈ listed := hsub job List.mem_cons_self
      match a with
      | .error e =>
          exact ⟨hg, fun _ => .inr ⟨listed, job, .error e, hg.mem hlisted, hjob, List.mem_cons_self, rfl⟩⟩
      | .ok [] => exact ⟨hg, fun _ => .inr ⟨listed, job, .ok [], hg.mem hlisted, hjob, List.mem_cons_self, rfl⟩⟩
      | .ok (pod :: pods) =>
          have hrest : ∀ job ∈ jobs, job ∈ listed := fun j hj => hsub j (List.mem_cons_of_mem _ hj)
          refine (ih (hg.mem hlisted) hrest _).post fun out l₁ ⟨hg₁, hc⟩ => ⟨hg.trans hg₁, fun hfail => ?_⟩
          rcases hc hfail with hfold | hlater
          · refine ((foldl_addContainer_failed_iff _ _ _ _).mp hfold).imp_right fun ⟨n, hn, hc⟩ => ?_
            exact ⟨listed, job, .ok (pod :: pods), hg₁.mem (hg.mem hlisted), hjob, hg₁.mem List.mem_cons_self,
              List.any_eq_true.mpr ⟨n, hn, decide_eq_true hc⟩⟩
          · exact .inr hlater

/-- So a failed conclusion rests on some pods. -/
theorem result_obeys {j : JobManager} {n : String} {i : Worker} {listed : List Job} (hok : ∀ l o, IsRead o → ok l o)
    (hlisted : ⟨.list .job i.selector, .ok listed⟩ ∈ l) :
    Obeys ok ((j.populate listed).result n) (fun out l' => Grown IsRead l l' ∧
      (out.conclusion = conclusionFailed → Concluded i [n] l')) l := by
  have hsub : ∀ job ∈ (j.populate listed).considered, job ∈ listed := fun _ => JobManager.mem_of_considered
  refine (resultLoop_obeys hok hlisted _ hsub _).bind fun out l₁ ⟨hg, hc⟩ => ⟨hg, fun hfail => ?_⟩
  have hout : out.conclusion = conclusionFailed := by
    by_contra hne
    rw [concluded, if_neg hne] at hfail
    have hdiff : conclusionSuccessful = conclusionFailed := hfail
    exact absurd hdiff (by decide)
  exact (hc hout).resolve_left (by decide)

/-- No create of a job in the round has succeeded. -/
def NoneCreated (l : Log) : Prop := ∀ e ∈ l, CreatesJob e.op → succeeded e.op e.ans = false

theorem NoneCreated.of_never (h : Never CreatesJob l) : NoneCreated l := fun e he hjob => absurd hjob (h e he)

theorem NoneCreated.cons {e : Said Op Ans} (h : NoneCreated l)
    (he : CreatesJob e.op → succeeded e.op e.ans = false) : NoneCreated (e :: l) := by
  intro e' he' hjob
  rcases List.mem_cons.mp he' with rfl | he'
  · exact he hjob
  · exact h e' he' hjob

theorem NoneCreated.grown (h : NoneCreated l) (hg : Grown IsRead l l') : NoneCreated l' := by
  obtain ⟨es, rfl, hes⟩ := hg
  intro e he hjob
  rcases List.mem_append.mp he with he | he
  · exact absurd hjob (hes e he).not_createsJob
  · exact h e he hjob

/-! ## The machine -/

/-- The status writes of a resource that no Environment owns. -/
inductive Releases (i : Worker) (names : List String) (l : Log) (p : Progress) : Progress → Prop where
  | waiting (h : p.cond = none) : Releases i names l p ⟨some (.false, .pending), p.completion⟩
  | releasing : Releases i names l p ⟨some (.false, .pending), p.completion⟩
  /-- The release job has failed, or could not be created: no completion time is set. -/
  | failed (h : JobFailed i l ∨ ⟨.list .job i.selector, .ok []⟩ ∈ l ∧ NoneCreated l) :
      Releases i names l p ⟨some (.false, .failed), p.completion⟩
  /-- The release job has completed. -/
  | released {r t} (hj : JobComplete i l) (hr : r = .completed ∨ r = .failed ∧ Concluded i names l) :
      Releases i names l p ⟨some (.false, r), some t⟩

namespace ResourceReconciler

variable (r : ResourceKind)

/-- The updates of a resource: its own finalizer is added, or removed when an Environment owns the resource or when
    the resource has been released. -/
inductive Finalizes (name : String) (l : Log) : Resource r → Prop where
  | add {x} (hg : Got l (.resource r) name x) (hlive : x.deleting = false) :
      Finalizes name l { x with metadata := x.metadata.addFinalizer providerFinalizer }
  | handOver {x} (hg : Got l (.resource r) name x)
      (hown : ownedByEnvironment x.metadata.ownerReferences = true) :
      Finalizes name l { x with metadata := x.metadata.removeFinalizer providerFinalizer }
  | release {x} (hg : Got l (.resource r) name x) (hc : x.status.completionTime ≠ none) :
      Finalizes name l { x with metadata := x.metadata.removeFinalizer providerFinalizer }

/-- The status writes: of a resource that is being released by its own reconciler, or of one that an Environment
    manages. -/
inductive Reports (name : String) (l : Log) : Resource r → Prop where
  | releases {x o} (hg : Got l (.resource r) name x) (hm : o.metadata = x.metadata)
      (hopen : x.status.completionTime = none) (hnot : ∀ s, x.status.cond .active ≠ some (s, .failed))
      (h : Releases (.resource r name) [r.releaserName] l (x.status.progress .active) (o.status.progress .active)) :
      Reports name l o
  | managed {x o} (hx : Heard l (.resource r) x) (hn : x.name = name) (hm : o.metadata = x.metadata)
      (hc : o.status.completionTime = x.status.completionTime)
      (ha : ∀ s reason, o.status.cond .active = some (s, reason) → reason ≠ .failed ∧ reason ≠ .completed) :
      Reports name l o

/-- **The calls of a `Reconcile`** of the resource `name`. -/
def Permits (name : String) (l : Log) : Op → Prop
  | .get _ _ => True
  | .list _ _ => True
  | .ext _ => True
  | .create .job job => MayCreateJob (.resource r name) l job ∧ ∃ x, Got l (.resource r) name x ∧
      x.deleting = true ∧ x.status.completionTime = none ∧ ∀ s, x.status.cond .active ≠ some (s, .failed)
  | .create _ _ => False
  | .update (.resource r') o => ∃ h : r' = r, Finalizes r name l (h ▸ o)
  | .update _ _ => False
  | .updateStatus (.resource r') o => ∃ h : r' = r, Reports r name l (h ▸ o)
  | .updateStatus _ _ => False
  | .delete _ _ => False

/-! ## `Reconcile` makes only these calls -/

variable {r} {name : String} {x : Resource r}

theorem Permits.read {o : Op} (h : IsRead o) : Permits r name l o := by
  cases o with
  | get | list | ext => trivial
  | create | update | updateStatus | delete => exact h.elim

/-- A resource that is being released: read in this round, open, and not failed. -/
structure Opened (r : ResourceKind) (name : String) (l : Log) (x : Resource r) : Prop where
  got : Got l (.resource r) name x
  completion : x.status.completionTime = none
  unfailed : ∀ s, x.status.cond .active ≠ some (s, .failed)

theorem Opened.grown {P : Op → Prop} (h : Opened r name l x) (hg : Grown P l l') : Opened r name l' x :=
  ⟨hg.mem h.got, h.completion, h.unfailed⟩

theorem persist_obeys {o : Resource r} (h : Reports r name l o) :
    Obeys (Permits r name) (persist r o) (fun _ _ => True) l :=
  Follows.call ⟨rfl, h⟩ fun _ _ => trivial

/-- Setting a condition and going on with the result. -/
theorem setCondition_obeys {α : Type} {o : Resource r} {c : Condition} {f : Resource r × Bool → M α}
    {Q : α → Log → Prop}
    (h : ∀ now l', Grown IsRead l l' →
      Obeys (Permits r name) (f (conditionSet now o c, conditionChanged now o c)) Q l') :
    Obeys (Permits r name) (setCondition o c >>= f) Q l := by
  rw [setCondition_bind]
  exact Follows.call trivial fun t _ => h (unixSeconds t) _ (Grown.refl.cons trivial)

/-- A write of a resource that is being released. -/
theorem Opened.reports {o : Resource r} (h : Opened r name l x) (hm : o.metadata = x.metadata)
    (hr : Releases (.resource r name) [r.releaserName] l (x.status.progress .active) (o.status.progress .active)) :
    Reports r name l o := .releases h.got hm h.completion h.unfailed hr

/-- Setting Active to False with a reason, and writing the resource if that changed anything. -/
theorem setInactive_obeys {reason : Reason} {m : String} {rest : M (Option Err)} (h : Opened r name l x)
    (hr : ∀ l', Grown IsRead l l' → Releases (.resource r name) [r.releaserName] l' (x.status.progress .active)
      ⟨some (.false, reason), x.status.completionTime⟩)
    (hrest : ∀ l', Obeys (Permits r name) rest (fun _ _ => True) l') :
    Obeys (Permits r name)
      (setCondition x (inactive reason m) >>= fun out => if out.2 then persist r out.1 else rest)
      (fun _ _ => True) l := by
  refine setCondition_obeys fun now l' hg => ?_
  dsimp only
  split
  · have hprogress := conditionSet_progress now x (inactive reason m)
    refine persist_obeys ((h.grown hg).reports rfl ?_)
    rw [show (conditionSet now x (inactive reason m)).status.progress .active = _ from hprogress]
    exact hr l' hg
  · exact hrest l'

theorem setAndPersist_obeys {reason : Reason} {m : String} (h : Opened r name l x)
    (hr : ∀ l', Grown IsRead l l' → Releases (.resource r name) [r.releaserName] l' (x.status.progress .active)
      ⟨some (.false, reason), x.status.completionTime⟩) :
    Obeys (Permits r name) (setAndPersist r x (inactive reason m)) (fun _ _ => True) l :=
  setInactive_obeys h hr fun _ => trivial

/-! ### The release job -/

theorem releaseJob_own (job : Job) (x : Resource r) (h : job.metadata.ownerReferences = []) :
    (Worker.resource r x.name).selector.matches
      (job.metadata.setControllerReference apiV2GroupVersionString r.kindName x.name) = true := by
  simp [Worker.selector, Selector.matches, ObjectMeta.setControllerReference, ObjectMeta.controllerOf, h]

theorem releaseJob_obeys : Obeys (Permits r name) (releaseJob r x) (fun out l' => Grown IsRead l l' ∧
    ∀ job, out = .ok job → (Worker.resource r x.name).selector.matches job.metadata = true) l := by
  refine Follows.call trivial fun a _ => ?_
  have hg : Grown IsRead l (⟨.get .provider (r.common x.spec).providerID, a⟩ :: l) := Grown.refl.cons trivial
  cases a with
  | error e =>
      refine ⟨hg, fun job h => ?_⟩
      cases h
  | ok provider =>
      refine Follows.call trivial fun a _ => ?_
      cases a with
      | error e =>
          refine ⟨hg.cons trivial, fun job h => ?_⟩
          cases h
      | ok request =>
          refine ⟨hg.cons trivial, fun job h => ?_⟩
          cases h
          exact releaseJob_own (r.releaser x request provider true) x rfl

/-- Creating the job failed, after no jobs were found. -/
theorem notCreated_obeys {err : Err} (h : Opened r name l x)
    (hnone : ⟨.list .job (Worker.resource r name).selector, .ok []⟩ ∈ l) (hfailed : NoneCreated l) :
    Obeys (Permits r name) (notCreated r x err) (fun _ _ => True) l := by
  unfold notCreated
  split
  · trivial
  · refine setInactive_obeys h (fun l' hg => ?_) fun _ => trivial
    exact .failed (.inr ⟨hg.mem hnone, hfailed.grown hg⟩)

/-- Without jobs the release job of a deleted resource is created. -/
theorem createReleaseJob_obeys (hname : x.name = name) (h : Opened r name l x) (hdel : x.deleting = true)
    (hnone : ⟨.list .job (Worker.resource r name).selector, .ok []⟩ ∈ l) (hjobs : Never CreatesJob l) :
    Obeys (Permits r name) (JobManager.create (releaseJob r x))
      (fun err l' => Grown AnyCall l l' ∧ (err.isSome = true → NoneCreated l')) l := by
  refine create_obeys releaseJob_obeys ?_ ?_
  · rintro e l₁ err ⟨hg₁, _⟩
    exact ⟨hg₁.mono fun _ _ => trivial, fun _ => (NoneCreated.of_never hjobs).grown hg₁⟩
  · rintro job l₁ ⟨hg₁, hjob⟩
    have hown := hjob job rfl
    rw [hname] at hown
    have h₁ := h.grown hg₁
    have hmay : MayCreateJob (.resource r name) l₁ job :=
      ⟨hown, .of_mem (fun _ => trivial) (hg₁.mem hnone), hg₁.never (fun _ => IsRead.not_createsJob) hjobs⟩
    refine ⟨⟨hmay, x, h₁.got, hdel, h₁.completion, h₁.unfailed⟩, fun a => ⟨?_, fun herr => ?_⟩⟩
    · exact (hg₁.mono fun _ _ => trivial).cons trivial
    · refine ((NoneCreated.of_never hjobs).grown hg₁).cons fun _ => ?_
      cases a with
      | error e => rfl
      | ok _ => cases herr

/-! ### `reconcileReleaser` -/

/-- `case jobs.StatusSuccessful` of an Iut. -/
theorem iutReleased_obeys {x : Iut} {result : Result} (h : Opened .iut name l x)
    (hj : JobComplete (.resource .iut name) l)
    (hc : result.conclusion = conclusionFailed → Concluded (.resource .iut name) [ResourceKind.iut.releaserName] l) :
    Obeys (Permits .iut name) (iutReleased x result) (fun _ _ => True) l := by
  unfold iutReleased
  split
  · trivial
  · refine setCondition_obeys fun now l' hg => ?_
    dsimp only
    split
    · refine persist_obeys ((h.grown hg).reports rfl ?_)
      have hactive := conditionSet_cond_self now x (releasedCondition result)
      have hprogress : ∀ t, (completeAt .iut (conditionSet now x (releasedCondition result)) t).status.progress
          .active = ⟨some (.false, (releasedCondition result).reason), some t⟩ :=
        fun t => congrArg (Progress.mk · (some t)) hactive
      rw [hprogress]
      refine .released (hj.grown hg) ?_
      show (if _ then _ else _) = _ ∨ (if _ then _ else _) = _ ∧ _
      split
      · rename_i hfail
        exact .inr ⟨rfl, (hc hfail).grown hg⟩
      · exact .inl rfl
    · trivial

/-- `case jobs.StatusSuccessful` of a LogArea or an ExecutionSpace. -/
theorem resourceReleased_obeys {result : Result} (h : Opened r name l x) (hj : JobComplete (.resource r name) l)
    (hc : result.conclusion = conclusionFailed → Concluded (.resource r name) [r.releaserName] l) :
    Obeys (Permits r name) (resourceReleased r x result) (fun _ _ => True) l := by
  refine (obeys_reads metaNow_reads fun _ _ => Permits.read).bind fun t l₁ hg₁ => ?_
  refine setCondition_obeys fun now l₂ hg₂ => ?_
  have hg := hg₁.trans hg₂
  dsimp only
  split
  · refine persist_obeys ((h.grown hg).reports rfl ?_)
    have hprogress := conditionSet_progress now (completeAt r x t) (releasedCondition result)
    rw [show (conditionSet now (completeAt r x t) (releasedCondition result)).status.progress .active = _
      from hprogress]
    refine .released (hj.grown hg) ?_
    show (if _ then _ else _) = _ ∨ (if _ then _ else _) = _ ∧ _
    split
    · rename_i hfail
      exact .inr ⟨rfl, (hc hfail).grown hg⟩
    · exact .inl rfl
  · trivial

theorem released_obeys {result : Result} (h : Opened r name l x) (hj : JobComplete (.resource r name) l)
    (hc : result.conclusion = conclusionFailed → Concluded (.resource r name) [r.releaserName] l) :
    Obeys (Permits r name) (released r x result) (fun _ _ => True) l := by
  cases r with
  | iut => exact iutReleased_obeys h hj hc
  | logArea => exact resourceReleased_obeys h hj hc
  | executionSpace => exact resourceReleased_obeys h hj hc

theorem reconcileReleaser_obeys (hname : x.name = name) (h : Opened r name l x) (hjobs : Never CreatesJob l) :
    Obeys (Permits r name) (reconcileReleaser r x) (fun _ _ => True) l := by
  refine (status_obeys (jobManager r x) trivial).bind ?_
  rintro ⟨manager, jobStatus⟩ l₁ ⟨hg₁, hstatus⟩
  have h₁ := h.grown hg₁
  cases jobStatus with
  | error e => trivial
  | ok status =>
      obtain ⟨jobs, hlist, hmanager, hsum⟩ := hstatus status rfl
      have hlist' : ⟨.list .job (Worker.resource r name).selector, .ok jobs⟩ ∈ l₁ := by
        rw [← hname, hlist]
        exact List.mem_cons_self
      cases status with
      | failed =>
          refine (obeys_reads (result_reads _ _ _) fun _ _ => Permits.read).bind fun result l₂ hg₂ => ?_
          obtain ⟨job, hjob, hfin⟩ := JobManager.summary_failed hsum
          refine setAndPersist_obeys (h₁.grown hg₂) fun l₃ hg₃ => .failed (.inl ?_)
          exact ⟨jobs, job, hg₃.mem (hg₂.mem hlist'), hjob, hfin⟩
      | successful =>
          obtain ⟨job, hjob, hfin⟩ := JobManager.summary_successful hsum
          obtain rfl := hmanager
          refine (result_obeys (fun _ _ => Permits.read) hlist').bind fun result l₂ ⟨hg₂, hc⟩ => ?_
          exact released_obeys (h₁.grown hg₂) ⟨jobs, job, hg₂.mem hlist', hjob, hfin⟩ hc
      | active => exact setAndPersist_obeys h₁ fun _ _ => .releasing
      | none =>
          obtain rfl := JobManager.summary_none hsum
          dsimp only
          split
          · trivial
          · rename_i hdel
            refine (createReleaseJob_obeys hname h₁ (by simpa using hdel) hlist'
              (hg₁.never (fun _ => IsRead.not_createsJob) hjobs)).bind fun err l₂ ⟨hg₂, hfailed⟩ => ?_
            cases err with
            | some err => exact notCreated_obeys (h₁.grown hg₂) (hg₂.mem hlist') (hfailed rfl)
            | none => exact setAndPersist_obeys (h₁.grown hg₂) fun _ _ => .releasing

/-! ### `Reconcile` -/

theorem reconcile_obeys (hname : x.name = name) (hg : Got l (.resource r) name x)
    (hc : x.status.completionTime = none) (hjobs : Never CreatesJob l) :
    Obeys (Permits r name) (reconcile r x) (fun _ _ => True) l := by
  unfold reconcile
  split
  · rename_i hnone
    have hcond : x.status.cond .active = none := ReleasableStatus.cond_eq_none.mpr hnone
    have h : Opened r name l x := by
      refine ⟨hg, hc, fun s hs => ?_⟩
      rw [hcond] at hs
      cases hs
    refine setCondition_obeys fun now l' hg' => ?_
    have hprogress := conditionSet_progress now x (inactive .pending "Waiting for environment")
    refine persist_obeys ((h.grown hg').reports rfl ?_)
    rw [show (conditionSet now x (inactive .pending "Waiting for environment")).status.progress .active = _
      from hprogress]
    exact .waiting hcond
  · rename_i active hactive
    split
    · trivial
    · rename_i hfailed
      have h : Opened r name l x := by
        refine ⟨hg, hc, fun s hs => hfailed ?_⟩
        rw [ReleasableStatus.cond_of_find hactive] at hs
        exact congrArg Prod.snd (Option.some.inj hs)
      split
      · rename_i hlive
        split
        · trivial
        · exact Follows.call ⟨rfl, .add hg (by simpa using hlive)⟩ fun _ _ => trivial
      · exact reconcileReleaser_obeys hname h hjobs

/-- Dropping the finalizer: the resource in memory is the one read, or the answer of the update. -/
theorem dropFinalizerIf_obeys {drop : Bool} (hname : x.name = name) (hg : Got l (.resource r) name x)
    (hfin : drop = true →
      Finalizes r name l { x with metadata := x.metadata.removeFinalizer providerFinalizer }) :
    Obeys (Permits r name) (dropFinalizerIf r drop x) (fun out l' => Grown AnyCall l l' ∧
      (out.2 = none → Heard l' (.resource r) out.1 ∧ out.1.name = name)) l := by
  unfold dropFinalizerIf
  split
  · rename_i hdrop
    refine Follows.call ⟨rfl, hfin hdrop⟩ fun a ha => ⟨Grown.refl.cons trivial, fun herr => ?_⟩
    cases a with
    | error e => cases herr
    | ok x' =>
        have hx' : x'.name = x.name := ha.1
        exact ⟨⟨_, List.mem_cons_self, .update⟩, hx'.trans hname⟩
  · exact ⟨.refl, fun _ => ⟨⟨_, hg, .get⟩, hname⟩⟩

theorem managed_obeys (hname : x.name = name) (hg : Got l (.resource r) name x)
    (hown : ownedByEnvironment x.metadata.ownerReferences = true) :
    Obeys (Permits r name) (managed r x) (fun _ _ => True) l := by
  refine (dropFinalizerIf_obeys hname hg fun _ => .handOver hg hown).bind ?_
  rintro ⟨x', err⟩ l₁ ⟨_, hx'⟩
  cases err with
  | some e => trivial
  | none =>
      obtain ⟨hheard, hname'⟩ := hx' rfl
      refine Follows.bind (Q := fun _ _ => True) ?_ fun _ _ _ => trivial
      refine setCondition_obeys fun now l₂ hg₂ => ?_
      dsimp only
      split
      · have hheard₂ : Heard l₂ (.resource r) x' := by
          obtain ⟨e, he, hans⟩ := hheard
          exact ⟨e, hg₂.mem he, hans⟩
        refine persist_obeys (.managed hheard₂ hname' rfl rfl fun s reason hs => ?_)
        have htype : (managedCondition r x').type = .active := by
          unfold managedCondition
          split <;> rfl
        have hset := conditionSet_cond_self now x' (managedCondition r x')
        rw [htype, hs] at hset
        have hreason : reason = (managedCondition r x').reason := congrArg Prod.snd (Option.some.inj hset)
        rw [hreason]
        unfold managedCondition
        split
        · exact ⟨nofun, nofun⟩
        · exact ⟨nofun, nofun⟩
      · trivial

theorem completed_obeys (hname : x.name = name) (hg : Got l (.resource r) name x)
    (hc : x.status.completionTime ≠ none) : Obeys (Permits r name) (completed r x) (fun _ _ => True) l := by
  refine (dropFinalizerIf_obeys hname hg fun _ => .release hg hc).bind ?_
  rintro ⟨x', err⟩ l₁ _
  cases err with
  | some e => trivial
  | none => trivial

/-- **`Reconcile` of a resource** makes only the calls listed above. -/
theorem Reconcile_obeys (r : ResourceKind) (name : String) :
    Obeys (Permits r name) (Reconcile r name) (fun _ _ => True) [] := by
  refine Follows.call trivial fun a ha => ?_
  cases a with
  | error e => trivial
  | ok x =>
      have hname : x.name = name := ha.1
      have hg : Got [⟨.get (.resource r) name, .ok x⟩] (.resource r) name x := List.mem_cons_self
      have hjobs : Never CreatesJob [(⟨.get (.resource r) name, .ok x⟩ : Said Op Ans)] := by
        refine Never.nil.cons ?_
        rintro ⟨_, hw⟩
        cases hw
      show Obeys _ (if _ then _ else _) _ _
      split
      · rename_i hown
        exact managed_obeys hname hg hown
      · split
        · rename_i t hc
          refine completed_obeys hname hg ?_
          rw [hc]
          exact Option.some_ne_none t
        · rename_i hc
          exact (reconcile_obeys hname hg hc hjobs).bind fun _ _ _ => trivial

end ResourceReconciler

end Etos
