import Etos.Operator.Reads

/-!
# `EnvironmentRequest.Machine` — the EnvironmentRequest as a state machine

The *progress* of an EnvironmentRequest is its Ready condition and its completion time. `Advance` lists, one
constructor per place in the source, how a status write moves it; `Permits` lists the calls of a `Reconcile`, in terms
of what the round has heard so far. That `Reconcile` makes only these calls is **`Reconcile_obeys`**; everything proved
about runs of the controller rests on it.
-/

namespace Etos

open Kube

/-! ## The machine -/

namespace Progress

/-- Reconciled before, and neither failed nor completed. -/
def underway (p : Progress) : Prop := p.completion = none ∧ ∃ s r, p.cond = some (s, r) ∧ r ≠ .failed

/-- Ready has reason Failed or Completed. -/
def terminal (p : Progress) : Prop := ∃ s r, p.cond = some (s, r) ∧ (r = .failed ∨ r = .completed)

/-- What is completed has a completion time. -/
def timed (p : Progress) : Prop := ∀ s, p.cond = some (s, .completed) → p.completion ≠ none

end Progress

/-- The status writes. `wrong` says that something went wrong before: a provider, a cluster, a key or the job itself
    could not be had. -/
inductive Advance (wrong : Prop) (p : Progress) : Progress → Prop where
  | pending (hready : p.cond = none) : Advance wrong p ⟨some (.false, .pending), p.completion⟩
  /-- The provider check or the creation of the job failed: no completion time is set. -/
  | failed (h : p.underway) (hm : wrong) : Advance wrong p ⟨some (.false, .failed), p.completion⟩
  | starting (h : p.underway) : Advance wrong p ⟨some (.false, .starting), p.completion⟩
  | active (h : p.underway) : Advance wrong p ⟨some (.false, .active), p.completion⟩
  /-- The provider job has finished. -/
  | finished {s r t} (h : p.underway) (hr : s = .false ∧ r = .failed ∨ s = .true ∧ r = .completed) :
      Advance wrong p ⟨some (s, r), some t⟩
  /-- A deleted request keeps its condition, with a new message. -/
  | releasing (h : ∀ s, p.cond ≠ some (s, .failed)) :
      Advance wrong p ⟨some (p.cond.getD (.false, .unknown)), p.completion⟩

variable {wrong wrong' : Prop} {p p' : Progress}

theorem Advance.mono (h : Advance wrong p p') (hw : wrong → wrong') : Advance wrong' p p' := by
  cases h with
  | pending hr => exact .pending hr
  | failed hu hm => exact .failed hu (hw hm)
  | starting hu => exact .starting hu
  | active hu => exact .active hu
  | finished hu hr => exact .finished hu hr
  | releasing hn => exact .releasing hn

/-- What is underway is not terminal. -/
theorem Progress.underway.not_terminal (h : p.underway) (ht : p.timed) : ¬ p.terminal := by
  obtain ⟨hc, s, r, hr, hne⟩ := h
  rintro ⟨s', r', hr', hfin⟩
  obtain ⟨rfl, rfl⟩ : s = s' ∧ r = r' := by simpa [hr] using hr'
  rcases hfin with rfl | rfl
  · exact hne rfl
  · exact ht s hr hc

/-- **A terminal condition keeps its status and reason.** -/
theorem Advance.ready_eq (h : Advance wrong p p') (ht : p.timed) (hterm : p.terminal) : p'.cond = p.cond := by
  cases h with
  | pending hready =>
      obtain ⟨s, r, hr, _⟩ := hterm
      rw [hready] at hr
      cases hr
  | failed h | starting h | active h | finished h => exact absurd hterm (h.not_terminal ht)
  | releasing =>
      obtain ⟨s, r, hr, _⟩ := hterm
      simp [hr]

/-- Completed requests stay timed. -/
theorem Advance.timed (h : Advance wrong p p') (ht : p.timed) : p'.timed := by
  intro s hs
  cases h with
  | pending | failed | starting | active => cases hs
  | finished => exact Option.some_ne_none _
  | releasing =>
      cases hp : p.cond with
      | none =>
          rw [hp] at hs
          cases hs
      | some c =>
          rw [hp] at hs
          exact ht s (by rw [hp]; exact hs)

/-- A completion time comes with every terminal condition, unless something went wrong. -/
theorem Advance.completion (h : Advance wrong p p') (hm : ¬ wrong)
    (hc : p.terminal → p.completion ≠ none) : p'.terminal → p'.completion ≠ none := by
  rintro ⟨s, r, hr, hfin⟩
  cases h with
  | pending | starting | active =>
      simp only [Option.some.injEq, Prod.mk.injEq] at hr
      obtain ⟨_, rfl⟩ := hr
      rcases hfin with hfin | hfin <;> cases hfin
  | failed _ h => exact absurd h hm
  | finished => exact Option.some_ne_none _
  | releasing =>
      cases hp : p.cond with
      | none =>
          rw [hp] at hr
          simp only [Option.getD_none, Option.some.injEq, Prod.mk.injEq] at hr
          obtain ⟨_, rfl⟩ := hr
          rcases hfin with hfin | hfin <;> cases hfin
      | some c =>
          rw [hp] at hr
          exact hc ⟨s, r, by rw [hp]; exact hr, hfin⟩

/-! ## The calls of a `Reconcile` -/

/-- A call that keeps the provider job from being created. -/
def mishap : (o : Op) → Ans o → Bool
  | .get .provider _, .ok provider => !Provider.available provider
  | .get .provider _, .error _ => true
  | .get .cluster _, .error _ => true
  | .ext (.readKey _ _), .error _ => true
  | .create .job _, .error _ => true
  | _, _ => false

/-- A variable that cannot be read from anywhere. -/
def Var.sourceless (v : Var) : Bool := v.value = "" && v.secretKeyRef.isNone && v.configMapKeyRef.isNone

/-- A key or a password of the request cannot be read from anywhere. -/
def EnvironmentRequestSpec.sourceless (spec : EnvironmentRequestSpec) : Bool :=
  spec.config.encryptionKey.sourceless || spec.config.etosMessageBus.password.any Var.sourceless ||
    spec.config.eiffelMessageBus.password.any Var.sourceless

/-- Something has gone wrong in the round. -/
def Mishap (request : EnvironmentRequest) (l : Log) : Prop :=
  request.spec.sourceless = true ∨ ∃ e ∈ l, mishap e.op e.ans = true

theorem Mishap.grown {x : EnvironmentRequest} {l l' : Log} {P : Op → Prop} (h : Mishap x l) (hg : Grown P l l') :
    Mishap x l' := by
  rcases h with h | ⟨e, he, hm⟩
  · exact .inl h
  · exact .inr ⟨e, hg.mem he, hm⟩

/-- A read that went wrong. -/
theorem Mishap.head {x : EnvironmentRequest} {l : Log} {e : Said Op Ans} (h : mishap e.op e.ans = true) :
    Mishap x (e :: l) :=
  .inr ⟨e, List.mem_cons_self, h⟩

namespace EnvironmentRequestReconciler

/-- The request as it was read, with no status written since. Unless it is being deleted it has its finalizer. -/
structure Opened (name : String) (l : Log) (x : EnvironmentRequest) : Prop where
  got : Got l .environmentRequest name x
  unwritten : Never (WritesStatus .environmentRequest) l
  held : x.deleting = false → x.metadata.containsFinalizer releaseFinalizer = true

/-- The updates of the request: its finalizer is added, or, when everything that carries the identifier is gone,
    removed. -/
inductive Finalizes (name : String) (l : Log) : EnvironmentRequest → Prop where
  | add {x} (hg : Got l .environmentRequest name x) (hlive : x.deleting = false) :
      Finalizes name l { x with metadata := x.metadata.addFinalizer releaseFinalizer }
  | remove {x x'} (hg : Got l .environmentRequest name x) (hdel : x.deleting = true)
      (hs : Stems l .environmentRequest x x')
      (hnone : ∀ k ∈ requestKinds, ⟨.list k (.label idLabel x'.spec.identifier), .ok []⟩ ∈ l) :
      Finalizes name l { x' with metadata := x'.metadata.removeFinalizer releaseFinalizer }

/-- The deletes: unused resources of a completed request, and everything that carries the identifier of a deleted
    one. -/
inductive Deletes (name : String) (l : Log) : Kind → String → Prop where
  | unused {x r ys y} (hg : Got l .environmentRequest name x) (hc : x.status.completionTime ≠ none)
      (hlist : ⟨.list (.resource r) (.label requestIdLabel x.spec.id), .ok ys⟩ ∈ l) (hy : y ∈ ys)
      (hu : ownedByEnvironment y.metadata.ownerReferences = false) : Deletes name l (.resource r) y.name
  | labelled {x x' k ys y} (hg : Got l .environmentRequest name x) (hdel : x.deleting = true)
      (hs : Stems l .environmentRequest x x') (hk : k ∈ requestKinds)
      (hlist : ⟨.list k (.label idLabel x'.spec.identifier), .ok ys⟩ ∈ l) (hy : y ∈ ys) :
      Deletes name l k y.name

/-- **The calls of a `Reconcile`** of the EnvironmentRequest `name`. -/
def Permits (name : String) (l : Log) : Op → Prop
  | .get _ _ => True
  | .list _ _ => True
  | .ext _ => True
  | .create .job job => MayCreateJob (.environmentRequest name) l job ∧
      ∃ x, Opened name l x ∧ x.deleting = false ∧ (x.status.progress .ready).underway
  | .create _ _ => False
  | .update .environmentRequest o => Finalizes name l o
  | .update _ _ => False
  | .updateStatus .environmentRequest o => ∃ x, Opened name l x ∧ o.metadata = x.metadata ∧
      Advance (Mishap x l) (x.status.progress .ready) (o.status.progress .ready)
  | .updateStatus _ _ => False
  | .delete k n => Deletes name l k n

/-! ## `Reconcile` makes only these calls -/

variable {name : String} {l l' : Log} {x : EnvironmentRequest}

theorem Permits.read {o : Op} (h : IsRead o) : Permits name l o := by
  cases o with
  | get | list | ext => trivial
  | create | update | updateStatus | delete => exact h.elim

theorem Opened.grown (h : Opened name l x) (hg : Grown IsRead l l') : Opened name l' x :=
  ⟨hg.mem h.got, hg.never (fun _ => IsRead.not_writesStatus) h.unwritten, h.held⟩

/-- Writing the status of the request as it was read. -/
theorem persist_obeys {o : EnvironmentRequest} (h : Opened name l x) (hm : o.metadata = x.metadata)
    (ha : Advance (Mishap x l) (x.status.progress .ready) (o.status.progress .ready)) :
    Obeys (Permits name) (persist o) (fun _ _ => True) l :=
  Follows.call ⟨x, h, hm, ha⟩ fun _ _ => trivial

/-- The progress of a request with another Ready condition. -/
theorem progress_set (now : Int) (x : EnvironmentRequest) (s : ConditionStatus) (r : Reason) (m : String) :
    (conditionSet now x (readyCondition s r m)).status.progress .ready = ⟨some (s, r), x.status.completionTime⟩ :=
  conditionSet_progress now x (readyCondition s r m)

/-- Setting a condition and going on with the result. -/
theorem setCondition_obeys {α : Type} {c : Condition} {f : EnvironmentRequest × Bool → M α} {Q : α → Log → Prop}
    (h : ∀ now l', Grown IsRead l l' →
      Obeys (Permits name) (f (conditionSet now x c, conditionChanged now x c)) Q l') :
    Obeys (Permits name) (setCondition x c >>= f) Q l := by
  rw [setCondition_bind]
  exact Follows.call trivial fun t _ => h (unixSeconds t) _ (Grown.refl.cons trivial)

/-- Setting Ready and writing the request if that changed anything. -/
theorem setReady_obeys {s : ConditionStatus} {r : Reason} {m : String} {rest : M (Option Err)} (h : Opened name l x)
    (ha : Advance (Mishap x l) (x.status.progress .ready) ⟨some (s, r), x.status.completionTime⟩)
    (hrest : ∀ l', Obeys (Permits name) rest (fun _ _ => True) l') :
    Obeys (Permits name)
      (setCondition x (readyCondition s r m) >>= fun out => if out.2 then persist out.1 else rest)
      (fun _ _ => True) l := by
  refine setCondition_obeys fun now l' hg => ?_
  dsimp only
  split
  · refine persist_obeys (h.grown hg) rfl ?_
    rw [progress_set]
    exact ha.mono fun hm => hm.grown hg
  · exact hrest l'

/-! ### Checking the providers -/

theorem checkProvider_obeys (n : String) :
    Obeys (Permits name) (checkProvider n)
      (fun err l' => Grown IsRead l l' ∧ (err.isSome = true → Mishap x l')) l := by
  refine Follows.call trivial fun a _ => ?_
  cases a with
  | error e => exact ⟨Grown.refl.cons trivial, fun _ => .head rfl⟩
  | ok p =>
      show Obeys _ (if _ then _ else _) _ _
      split
      · refine ⟨Grown.refl.cons trivial, fun h => ?_⟩
        cases h
      · rename_i hp
        refine ⟨Grown.refl.cons trivial, fun _ => .head ?_⟩
        simpa [mishap] using hp

theorem checkProviders_obeys (providers : Providers) :
    Obeys (Permits name) (checkProviders providers)
      (fun err l' => Grown IsRead l l' ∧ (err.isSome = true → Mishap x l')) l := by
  refine (checkProvider_obeys (x := x) _).bind fun err l₁ ⟨hg₁, hm₁⟩ => ?_
  cases err with
  | some e => exact ⟨hg₁, hm₁⟩
  | none =>
      refine (checkProvider_obeys (x := x) _).bind fun err l₂ ⟨hg₂, hm₂⟩ => ?_
      cases err with
      | some e => exact ⟨hg₁.trans hg₂, hm₂⟩
      | none =>
          refine (checkProvider_obeys (x := x) _).post fun err l₃ ⟨hg₃, hm₃⟩ => ?_
          exact ⟨(hg₁.trans hg₂).trans hg₃, hm₃⟩

/-! ### Creating the provider job -/

/-- A step on the way to the job: it reads, and if it fails something has gone wrong. -/
def Fetches (name : String) (x : EnvironmentRequest) {α : Type} (p : M α) (failed : α → Prop) : Prop :=
  ∀ l, Obeys (Permits name) p (fun a l' => Grown IsRead l l' ∧ (failed a → Mishap x l')) l

theorem checkCluster_fetches : Fetches name x (checkCluster x) (fun err => err.isSome = true) := by
  intro l
  unfold checkCluster
  split
  · refine ⟨.refl, fun h => ?_⟩
    cases h
  · refine Follows.call trivial fun a _ => ?_
    cases a with
    | error e => exact ⟨Grown.refl.cons trivial, fun _ => .head rfl⟩
    | ok c =>
        refine ⟨Grown.refl.cons trivial, fun h => ?_⟩
        cases h

theorem Var.get_fetches {v : Var} (h : v.sourceless = true → x.spec.sourceless = true) :
    Fetches name x v.get (fun a => (errOf a).isSome = true) := by
  intro l
  have hread : ∀ source selector, Obeys (Permits name) (M.ext (.readKey source selector))
      (fun a l' => Grown IsRead l l' ∧ ((errOf a).isSome = true → Mishap x l')) l := by
    intro source selector
    refine Follows.call trivial fun a _ => ⟨Grown.refl.cons trivial, fun hf => .head ?_⟩
    cases a with
    | error e => rfl
    | ok _ => cases hf
  unfold Var.get
  split
  · refine ⟨.refl, fun hf => ?_⟩
    cases hf
  · rename_i hvalue
    split
    · exact hread _ _
    · exact hread _ _
    · rename_i hs hc
      refine ⟨.refl, fun _ => .inl (h ?_)⟩
      simp only [ne_eq, not_not] at hvalue
      simp [Var.sourceless, hvalue, hs, hc]

theorem Var.getPointer_fetches {v : Option Var} (h : v.any Var.sourceless = true → x.spec.sourceless = true) :
    Fetches name x (Var.getPointer v) (fun a => (errOf a).isSome = true) := by
  intro l
  cases v with
  | none => trivial
  | some v => exact Var.get_fetches h l

theorem envVarListFrom_fetches : Fetches name x (envVarListFrom x) (fun err => err.isSome = true) := by
  intro l
  have hkey : x.spec.config.encryptionKey.sourceless = true → x.spec.sourceless = true := by
    intro h
    simp [EnvironmentRequestSpec.sourceless, h]
  have hetos : x.spec.config.etosMessageBus.password.any Var.sourceless = true → x.spec.sourceless = true := by
    intro h
    simp [EnvironmentRequestSpec.sourceless, h]
  have heiffel :
      x.spec.config.eiffelMessageBus.password.any Var.sourceless = true → x.spec.sourceless = true := by
    intro h
    simp [EnvironmentRequestSpec.sourceless, h]
  refine (Var.get_fetches hkey l).bind fun a l₁ ⟨hg₁, hm₁⟩ => ?_
  cases a with
  | error e => exact ⟨hg₁, fun _ => hm₁ rfl⟩
  | ok _ =>
      refine (Var.getPointer_fetches hetos l₁).bind fun a l₂ ⟨hg₂, hm₂⟩ => ?_
      cases a with
      | error e => exact ⟨hg₁.trans hg₂, fun _ => hm₂ rfl⟩
      | ok _ =>
          refine (Var.getPointer_fetches heiffel l₂).bind fun a l₃ ⟨hg₃, hm₃⟩ => ?_
          have hg := (hg₁.trans hg₂).trans hg₃
          cases a with
          | error e => exact ⟨hg, fun _ => hm₃ rfl⟩
          | ok _ =>
              refine ⟨hg, fun h => ?_⟩
              cases h

theorem getProvider_fetches (n : String) : Fetches name x (getProvider n) (fun a => (errOf a).isSome = true) := by
  intro l
  refine Follows.call trivial fun a _ => ⟨Grown.refl.cons trivial, fun hf => ?_⟩
  cases a with
  | error e => exact .head rfl
  | ok _ => cases hf

/-- The provider job is controlled by the request it is made for. -/
theorem providerJob_own (x : EnvironmentRequest) (image : Image) (iut logArea executionSpace : Provider) :
    (Worker.environmentRequest x.name).selector.matches
      (providerJob x image iut logArea executionSpace).metadata = true := by
  simp [Worker.selector, Selector.matches, providerJob, ObjectMeta.setControllerReference, ObjectMeta.controllerOf]

theorem providerJobFrom_fetches : ∀ l, Obeys (Permits name) (providerJobFrom x) (fun out l' => Grown IsRead l l' ∧
    ((errOf out).isSome = true → Mishap x l') ∧
    ∀ job, out = .ok job → (Worker.environmentRequest x.name).selector.matches job.metadata = true) l := by
  intro l
  refine (getProvider_fetches (x := x) _ l).bind fun a l₁ ⟨hg₁, hm₁⟩ => ?_
  cases a with
  | error e =>
      refine ⟨hg₁, fun _ => hm₁ rfl, fun job h => ?_⟩
      cases h
  | ok iut =>
      refine (getProvider_fetches (x := x) _ l₁).bind fun a l₂ ⟨hg₂, hm₂⟩ => ?_
      cases a with
      | error e =>
          refine ⟨hg₁.trans hg₂, fun _ => hm₂ rfl, fun job h => ?_⟩
          cases h
      | ok logArea =>
          refine (getProvider_fetches (x := x) _ l₂).bind fun a l₃ ⟨hg₃, hm₃⟩ => ?_
          have hg := (hg₁.trans hg₂).trans hg₃
          cases a with
          | error e =>
              refine ⟨hg, fun _ => hm₃ rfl, fun job h => ?_⟩
              cases h
          | ok executionSpace =>
              dsimp only
              split
              · trivial
              · refine ⟨hg, fun h => ?_, fun job h => ?_⟩
                · cases h
                · cases h
                  exact providerJob_own ..

theorem environmentProviderJob_fetches : ∀ l, Obeys (Permits name) (environmentProviderJob x)
    (fun out l' => Grown IsRead l l' ∧ ((errOf out).isSome = true → Mishap x l') ∧
      ∀ job, out = .ok job → (Worker.environmentRequest x.name).selector.matches job.metadata = true) l := by
  intro l
  refine (checkCluster_fetches l).bind fun err l₁ ⟨hg₁, hm₁⟩ => ?_
  cases err with
  | some e =>
      refine ⟨hg₁, fun _ => hm₁ rfl, fun job h => ?_⟩
      cases h
  | none =>
      refine (envVarListFrom_fetches l₁).bind fun err l₂ ⟨hg₂, hm₂⟩ => ?_
      cases err with
      | some e =>
          refine ⟨hg₁.trans hg₂, fun _ => hm₂ rfl, fun job h => ?_⟩
          cases h
      | none =>
          refine (providerJobFrom_fetches l₂).post fun out l₃ ⟨hg₃, hm₃, hjob⟩ => ?_
          exact ⟨(hg₁.trans hg₂).trans hg₃, hm₃, hjob⟩

theorem providerNotCreated_obeys {err : Err} (h : Opened name l x) (hu : (x.status.progress .ready).underway)
    (hm : Mishap x l) : Obeys (Permits name) (providerNotCreated x err) (fun _ _ => True) l := by
  unfold providerNotCreated
  split
  · trivial
  · exact setReady_obeys h (.failed hu hm) fun _ => trivial

/-- No jobs were found: the provider job is created, unless the request is deleted or has been started. -/
theorem providerMissing_obeys (hname : x.name = name) (h : Opened name l x) (hu : (x.status.progress .ready).underway)
    {l₀ : Log} (hlist : l = ⟨.list .job (Worker.environmentRequest name).selector, .ok []⟩ :: l₀)
    (hg₀ : Got l₀ .environmentRequest name x) (hjobs : Never CreatesJob l) :
    Obeys (Permits name) (providerMissing x) (fun _ _ => True) l := by
  unfold providerMissing
  split
  · trivial
  rename_i hlive
  split
  · trivial
  rename_i hstarting
  have hnone : FoundNone (.environmentRequest name) l := ⟨[], l₀, hlist, x, hg₀, by simpa using hstarting⟩
  -- either the job was not created and something went wrong, or it was
  have hcreate : Obeys (Permits name) (JobManager.create (environmentProviderJob x))
      (fun err l' => Opened name l' x ∧ (err.isSome = true → Mishap x l')) l := by
    refine create_obeys (environmentProviderJob_fetches (x := x) l) ?_ ?_
    · rintro e l₁ err ⟨hg₁, hm₁, _⟩
      exact ⟨h.grown hg₁, fun _ => hm₁ rfl⟩
    · rintro job l₁ ⟨hg₁, _, hjob⟩
      have h₁ : Opened name l₁ x := h.grown hg₁
      have hown := hjob job rfl
      rw [hname] at hown
      have hmay : MayCreateJob (.environmentRequest name) l₁ job :=
        ⟨hown, hnone.grown hg₁, hg₁.never (fun _ => IsRead.not_createsJob) hjobs⟩
      refine ⟨⟨hmay, x, h₁, by simpa using hlive, hu⟩, fun a =>
        ⟨⟨List.mem_cons_of_mem _ h₁.got, ?_, h.held⟩, fun hf => ?_⟩⟩
      · refine h₁.unwritten.cons ?_
        rintro ⟨_, hw⟩
        cases hw
      · cases a with
        | error e => exact .head rfl
        | ok _ => cases hf
  refine hcreate.bind fun err l₁ ⟨h₁, hm₁⟩ => ?_
  cases err with
  | some err => exact providerNotCreated_obeys h₁ hu (hm₁ rfl)
  | none => exact setReady_obeys h₁ (.starting hu) fun _ => trivial

/-! ### `reconcile` -/

/-- Completing a request that has a Ready condition. -/
theorem completeWithReady_progress {s : ConditionStatus} {r : Reason} (h : x.status.cond .ready = some (s, r)) :
    (completeWithReady x).metadata = x.metadata ∧
      ∃ t, (completeWithReady x).status.progress .ready = ⟨some (s, r), some t⟩ := by
  unfold completeWithReady
  split
  · rename_i hnone
    rw [ReleasableStatus.cond_eq_none.mpr hnone] at h
    cases h
  · rename_i c _
    exact ⟨rfl, c.lastTransitionTime, congrArg (Progress.mk · _) h⟩

/-- A finished job completes the request. -/
theorem providerFinished_obeys {s : ConditionStatus} {r : Reason} {m : String} (h : Opened name l x)
    (hu : (x.status.progress .ready).underway) (hr : s = .false ∧ r = .failed ∨ s = .true ∧ r = .completed) :
    Obeys (Permits name) (providerFinished x (readyCondition s r m)) (fun _ _ => True) l := by
  refine setCondition_obeys fun now l' hg => ?_
  dsimp only
  split
  · obtain ⟨hmeta, t, hprogress⟩ :=
      completeWithReady_progress (conditionSet_cond_self now x (readyCondition s r m))
    refine persist_obeys (h.grown hg) (by rw [hmeta]; rfl) ?_
    rw [hprogress]
    exact .finished hu hr
  · trivial

theorem reconcileEnvironmentProvider_obeys (hname : x.name = name) (h : Opened name l x)
    (hu : (x.status.progress .ready).underway) (hjobs : Never CreatesJob l) :
    Obeys (Permits name) (reconcileEnvironmentProvider x) (fun _ _ => True) l := by
  refine (status_obeys (jobManager x) trivial).bind ?_
  rintro ⟨manager, jobStatus⟩ l₁ ⟨hg₁, hstatus⟩
  have h₁ : Opened name l₁ x := h.grown hg₁
  cases jobStatus with
  | error e => trivial
  | ok status =>
      obtain ⟨jobs, hlist, _, hsum⟩ := hstatus status rfl
      cases status with
      | failed =>
          refine (obeys_reads (result_reads _ _ _) fun _ _ => Permits.read).bind fun result l₂ hg₂ => ?_
          exact providerFinished_obeys (h₁.grown hg₂) hu (.inl ⟨rfl, rfl⟩)
      | successful =>
          refine (obeys_reads (result_reads _ _ _) fun _ _ => Permits.read).bind fun result l₂ hg₂ => ?_
          show Obeys _ (providerFinished x (if _ then _ else _)) _ _
          split
          · exact providerFinished_obeys (h₁.grown hg₂) hu (.inl ⟨rfl, rfl⟩)
          · exact providerFinished_obeys (h₁.grown hg₂) hu (.inr ⟨rfl, rfl⟩)
      | active => exact setReady_obeys h₁ (.active hu) fun _ => trivial
      | none =>
          obtain rfl := JobManager.summary_none hsum
          refine providerMissing_obeys hname h₁ hu ?_ h.got (hg₁.never (fun _ => IsRead.not_createsJob) hjobs)
          rw [← hname]
          exact hlist

theorem reconcile_obeys (hname : x.name = name) (h : Opened name l x) (hc : x.status.completionTime = none)
    (hjobs : Never CreatesJob l) : Obeys (Permits name) (reconcile x) (fun _ _ => True) l := by
  unfold reconcile
  split
  · rename_i hnone
    refine setCondition_obeys fun now l' hg => ?_
    refine persist_obeys (h.grown hg) rfl ?_
    rw [progress_set]
    exact .pending (ReleasableStatus.cond_eq_none.mpr hnone)
  · rename_i ready hready
    split
    · trivial
    · rename_i hfailed
      have hu : (x.status.progress .ready).underway :=
        ⟨hc, ready.status, ready.reason, ReleasableStatus.cond_of_find hready, hfailed⟩
      refine (checkProviders_obeys (x := x) _).bind fun err l₁ ⟨hg₁, hm₁⟩ => ?_
      have h₁ : Opened name l₁ x := h.grown hg₁
      cases err with
      | some e =>
          refine setCondition_obeys fun now l₂ hg₂ => ?_
          refine persist_obeys (h₁.grown hg₂) rfl ?_
          rw [progress_set]
          exact .failed hu ((hm₁ rfl).grown hg₂)
      | none =>
          exact reconcileEnvironmentProvider_obeys hname h₁ hu (hg₁.never (fun _ => IsRead.not_createsJob) hjobs)

/-! ### Collecting and deleting -/

theorem deleteUnowned_obeys {r : ResourceKind} {ys resources : List (Resource r)}
    (hg : Got l .environmentRequest name x) (hc : x.status.completionTime ≠ none)
    (hlist : ⟨.list (.resource r) (.label requestIdLabel x.spec.id), .ok ys⟩ ∈ l)
    (hsub : ∀ y ∈ resources, y ∈ ys) :
    Obeys (Permits name) (deleteUnowned r resources) (fun _ => Grown AnyCall l) l := by
  induction resources generalizing l with
  | nil => exact Grown.refl
  | cons y rest ih =>
      have hrest : ∀ y ∈ rest, y ∈ ys := fun z hz => hsub z (List.mem_cons_of_mem _ hz)
      unfold deleteUnowned
      split
      · exact ih hg hlist hrest
      · rename_i hu
        have hdel : Deletes name l (.resource r) y.name :=
          .unused hg hc hlist (hsub y List.mem_cons_self) (by simpa using hu)
        refine Follows.call hdel fun a _ => ?_
        cases a with
        | error e => exact Grown.refl.cons trivial
        | ok _ =>
            refine (ih (List.mem_cons_of_mem _ hg) (List.mem_cons_of_mem _ hlist) hrest).post fun _ l' hl' => ?_
            exact (Grown.refl.cons trivial).trans hl'

theorem cleanupKind_obeys (r : ResourceKind) (hg : Got l .environmentRequest name x)
    (hc : x.status.completionTime ≠ none) :
    Obeys (Permits name) (cleanupKind r x) (fun _ => Grown AnyCall l) l := by
  refine Follows.call trivial fun a _ => ?_
  cases a with
  | error e => exact Grown.refl.cons trivial
  | ok ys =>
      refine (deleteUnowned_obeys (List.mem_cons_of_mem _ hg) hc List.mem_cons_self fun _ h => h).post ?_
      exact fun _ l' hl' => (Grown.refl.cons trivial).trans hl'

theorem cleanupUnused_obeys (hg : Got l .environmentRequest name x) (hc : x.status.completionTime ≠ none) :
    Obeys (Permits name) (cleanupUnused x) (fun _ _ => True) l := by
  refine (cleanupKind_obeys .iut hg hc).bind fun err l₁ h₁ => ?_
  cases err with
  | some e => trivial
  | none =>
      refine (cleanupKind_obeys .executionSpace (h₁.mem hg) hc).bind fun err l₂ h₂ => ?_
      cases err with
      | some e => trivial
      | none => exact (cleanupKind_obeys .logArea (h₂.mem (h₁.mem hg)) hc).post fun _ _ _ => trivial

theorem deleteEach_obeys {k : Kind} {x' : EnvironmentRequest} {ys items : List (Obj k)} (hk : k ∈ requestKinds)
    (hg : Got l .environmentRequest name x) (hdel : x.deleting = true) (hs : Stems l .environmentRequest x x')
    (hlist : ⟨.list k (.label idLabel x'.spec.identifier), .ok ys⟩ ∈ l) (hsub : ∀ y ∈ items, y ∈ ys) :
    Obeys (Permits name) (deleteEach k items) (fun _ => Grown AnyCall l) l := by
  induction items generalizing l with
  | nil => exact Grown.refl
  | cons y rest ih =>
      have hrest : ∀ y ∈ rest, y ∈ ys := fun z hz => hsub z (List.mem_cons_of_mem _ hz)
      unfold deleteEach
      split
      · exact ih hg hs hlist hrest
      · have hok : Deletes name l k y.name := .labelled hg hdel hs hk hlist (hsub y List.mem_cons_self)
        refine Follows.call hok fun a _ => ?_
        have hs' : Stems (⟨.delete k y.name, a⟩ :: l) .environmentRequest x x' :=
          hs.imp_right fun ⟨o, ho, hm⟩ => ⟨o, List.mem_cons_of_mem _ ho, hm⟩
        refine (ih (List.mem_cons_of_mem _ hg) hs' (List.mem_cons_of_mem _ hlist) hrest).bind fun _ l' hl' => ?_
        exact (Grown.refl.cons trivial).trans hl'

/-- Deleting what is labelled: with no error and a count of zero, the list was empty. -/
theorem deleteLabelled_obeys {k : Kind} {x' : EnvironmentRequest} (hk : k ∈ requestKinds)
    (hg : Got l .environmentRequest name x) (hdel : x.deleting = true) (hs : Stems l .environmentRequest x x') :
    Obeys (Permits name) (deleteLabelled k x') (fun out l' => Grown AnyCall l l' ∧ (out.2 = none → 0 ≤ out.1 ∧
      (out.1 = 0 → ⟨.list k (.label idLabel x'.spec.identifier), .ok []⟩ ∈ l'))) l := by
  refine Follows.call trivial fun a _ => ?_
  cases a with
  | error e =>
      refine ⟨Grown.refl.cons trivial, fun h => ?_⟩
      cases h
  | ok ys =>
      have hgrow : Grown AnyCall l (⟨.list k (.label idLabel x'.spec.identifier), .ok ys⟩ :: l) :=
        Grown.refl.cons trivial
      refine (deleteEach_obeys hk (hgrow.mem hg) hdel (hs.grown hgrow) List.mem_cons_self fun _ h => h).bind ?_
      intro err l₁ h₁
      refine ⟨hgrow.trans h₁, fun _ => ⟨Int.natCast_nonneg _, fun hzero => ?_⟩⟩
      have hnil : ys = [] := List.length_eq_zero_iff.mp (Int.natCast_eq_zero.mp hzero)
      subst hnil
      exact h₁.mem List.mem_cons_self

theorem deleteResources_obeys {x' : EnvironmentRequest} (hg : Got l .environmentRequest name x)
    (hdel : x.deleting = true) (hs : Stems l .environmentRequest x x') :
    Obeys (Permits name) (deleteResources x') (fun out l' => Grown AnyCall l l' ∧ (out.2 = none → out.1 = 0 →
      ∀ k ∈ requestKinds, ⟨.list k (.label idLabel x'.spec.identifier), .ok []⟩ ∈ l')) l := by
  refine (deleteLabelled_obeys (by decide) hg hdel hs).bind ?_
  rintro ⟨n₁, e₁⟩ l₁ ⟨h₁, hn₁⟩
  refine (deleteLabelled_obeys (by decide) (h₁.mem hg) hdel (hs.grown h₁)).bind ?_
  rintro ⟨n₂, e₂⟩ l₂ ⟨h₂, hn₂⟩
  have h₁₂ := h₁.trans h₂
  refine (deleteLabelled_obeys (by decide) (h₁₂.mem hg) hdel (hs.grown h₁₂)).bind ?_
  rintro ⟨n₃, e₃⟩ l₃ ⟨h₃, hn₃⟩
  have h₁₃ := h₁₂.trans h₃
  refine (deleteLabelled_obeys (by decide) (h₁₃.mem hg) hdel (hs.grown h₁₃)).bind ?_
  rintro ⟨n₄, e₄⟩ l₄ ⟨h₄, hn₄⟩
  refine ⟨h₁₃.trans h₄, fun herr hcount => ?_⟩
  -- no error, so every count is that of a list, and all of them are zero
  obtain ⟨he₁₃, he₄⟩ := Err.join_eq_none.mp herr
  obtain ⟨he₁₂, he₃⟩ := Err.join_eq_none.mp he₁₃
  obtain ⟨he₁, he₂⟩ := Err.join_eq_none.mp he₁₂
  obtain ⟨hp₁, hz₁⟩ := hn₁ he₁
  obtain ⟨hp₂, hz₂⟩ := hn₂ he₂
  obtain ⟨hp₃, hz₃⟩ := hn₃ he₃
  obtain ⟨hp₄, hz₄⟩ := hn₄ he₄
  simp only at hp₁ hp₂ hp₃ hp₄ hz₁ hz₂ hz₃ hz₄ hcount
  intro k hk
  simp only [requestKinds, List.mem_cons, List.not_mem_nil, or_false] at hk
  rcases hk with rfl | rfl | rfl | rfl
  · exact h₄.mem (h₃.mem (h₂.mem (hz₁ (by omega))))
  · exact h₄.mem (h₃.mem (hz₂ (by omega)))
  · exact h₄.mem (hz₃ (by omega))
  · exact hz₄ (by omega)

/-- Announcing the release keeps the condition as it is. -/
theorem announceRelease_obeys (h : Opened name l x) :
    Obeys (Permits name) (announceRelease x) (fun out l' => Grown AnyCall l l' ∧
      (out.2 = none → Stems l' .environmentRequest x out.1)) l := by
  unfold announceRelease
  split
  · exact ⟨.refl, fun _ => .inl rfl⟩
  · rename_i hfailed
    have hnot : ∀ s, (x.status.progress .ready).cond ≠ some (s, .failed) :=
      fun s hs => hfailed (isStatusReason_cond.mpr ⟨s, hs⟩)
    refine setCondition_obeys fun now l₁ hg₁ => ?_
    have hany : Grown AnyCall l l₁ := hg₁.mono fun _ _ => trivial
    dsimp only
    split
    · have hprogress : (conditionSet now x (releasingCondition x)).status.progress .ready =
          ⟨some ((x.status.progress .ready).cond.getD (.false, .unknown)), x.status.completionTime⟩ := by
        unfold releasingCondition
        split
        · rename_i hnone
          rw [progress_set, show (x.status.progress .ready).cond = none from ReleasableStatus.cond_eq_none.mpr hnone]
          rfl
        · rename_i c hc
          rw [progress_set, show (x.status.progress .ready).cond = _ from ReleasableStatus.cond_of_find hc]
          rfl
      have hadvance : Advance (Mishap x l₁) (x.status.progress .ready)
          ((conditionSet now x (releasingCondition x)).status.progress .ready) := by
        rw [hprogress]
        exact .releasing hnot
      refine Follows.call ⟨x, h.grown hg₁, rfl, hadvance⟩ fun a _ => ⟨hany.cons trivial, fun herr => ?_⟩
      cases a with
      | error e => cases herr
      | ok x' => exact .inr ⟨_, List.mem_cons_self, rfl⟩
    · rename_i hsame
      refine ⟨hany, fun _ => .inl ?_⟩
      exact (conditionSet_unchanged now x (releasingCondition x) (by simpa using hsame)).1

theorem reconcileDeletion_obeys (h : Opened name l x) (hdel : x.deleting = true) :
    Obeys (Permits name) (reconcileDeletion x) (fun _ _ => True) l := by
  refine (announceRelease_obeys h).bind ?_
  rintro ⟨x', err⟩ l₁ ⟨h₁, hs₁⟩
  cases err with
  | some e => trivial
  | none =>
      have hs : Stems l₁ .environmentRequest x x' := hs₁ rfl
      refine (deleteResources_obeys (h₁.mem h.got) hdel hs).bind ?_
      rintro ⟨count, allErr⟩ l₂ ⟨h₂, hnone⟩
      dsimp only
      split
      · trivial
      · rename_i herr
        split
        · trivial
        · rename_i hcount
          unfold removeFinalizer
          split
          · refine Follows.call ?_ fun a _ => trivial
            exact .remove (h₂.mem (h₁.mem h.got)) hdel (hs.grown h₂)
              (hnone (by simpa using herr) (by simpa using hcount))
          · trivial

/-- **`Reconcile` of an EnvironmentRequest** makes only the calls listed above. -/
theorem Reconcile_obeys (name : String) :
    Obeys (Permits name) (Reconcile name) (fun _ _ => True) [] := by
  refine Follows.call trivial fun a ha => ?_
  cases a with
  | error e => trivial
  | ok x =>
      have hname : x.name = name := ha.1
      have hopen : (x.deleting = false → x.metadata.containsFinalizer releaseFinalizer = true) →
          Opened name [⟨.get .environmentRequest name, .ok x⟩] x := by
        refine fun hheld => ⟨List.mem_cons_self, Never.nil.cons ?_, hheld⟩
        rintro ⟨_, hw⟩
        cases hw
      have hjobs : Never CreatesJob [(⟨.get .environmentRequest name, .ok x⟩ : Said Op Ans)] := by
        refine Never.nil.cons ?_
        rintro ⟨_, hw⟩
        cases hw
      have hfinalized : (x.deleting = false → x.metadata.containsFinalizer releaseFinalizer = true) →
          Obeys (Permits name) (reconcileFinalized x) (fun _ _ => True) [⟨.get .environmentRequest name, .ok x⟩] := by
        intro hheld
        have h := hopen hheld
        unfold reconcileFinalized
        split
        · rename_i t hc
          refine (cleanupUnused_obeys h.got ?_).bind fun _ _ _ => trivial
          rw [hc]
          exact Option.some_ne_none t
        · rename_i hc
          exact (reconcile_obeys hname h hc hjobs).bind fun _ _ _ => trivial
      show Obeys _ (if _ then _ else _) _ _
      split
      · rename_i hlive
        have hlive : x.deleting = false := by simpa using hlive
        split
        · rename_i hfin
          exact hfinalized fun _ => hfin
        · exact Follows.call (.add List.mem_cons_self hlive) fun _ _ => trivial
      · rename_i hdel
        have hdel : x.deleting = true := by simpa using hdel
        have hheld : x.deleting = false → x.metadata.containsFinalizer releaseFinalizer = true := by
          intro hlive
          rw [hdel] at hlive
          cases hlive
        split
        · exact reconcileDeletion_obeys (hopen hheld) hdel
        · exact hfinalized hheld

end EnvironmentRequestReconciler

end Etos
