import Etos.Resource.Machine

/-!
# `Environment.Machine` — the Environment as a state machine

An Environment waits (Active is Pending), becomes ready for use once it has taken the three resources it names, and is
inactive from then on when its deadline passes or it is released. `Permits` lists the calls of a `Reconcile` in terms of
what the round has heard: which resources it takes and releases, and on what grounds it changes its Active condition.
**`Reconcile_obeys`** says that it makes no others.
-/

namespace Etos

open Kube

namespace EnvironmentReconciler

/-- The reference that makes an Environment the controller of an object. -/
def reference (name : String) : OwnerReference := ⟨apiGroupVersionString, environmentKind, name, true⟩

/-- The Environment controls the object and keeps it from being removed. -/
def Holds (name : String) (m : ObjectMeta) : Prop :=
  m.controllerOf = some (reference name) ∧ releaseFinalizer ∈ m.finalizers

/-- In this round the Environment has found the resource with a controller, or has become its controller. -/
def Taken (name : String) (l : Log) (r : ResourceKind) (n : String) : Prop :=
  (∃ y, Got l (.resource r) n y ∧ y.metadata.hasControllerReference = true) ∨
    ∃ o y, ⟨.update (.resource r) o, .ok y⟩ ∈ l ∧ y.name = n ∧ Holds name y.metadata

/-- The writes of the Active condition. -/
inductive Activates (name : String) (l : Log) (x : Environment) :
    Option (ConditionStatus × Reason) → ConditionStatus × Reason → Prop where
  | waiting : Activates name l x none (.false, .pending)
  /-- A waiting Environment that has all its resources is ready for use. -/
  | ready {s providers} (hp : x.spec.providers = some providers)
      (ht : ∀ r, Taken name l r (named providers r)) : Activates name l x (some (s, .pending)) (.true, .completed)
  | inactive {c reason} (h : reason ≠ .pending) : Activates name l x c (.false, reason)

/-- The updates of the Environment itself. -/
inductive Finalizes (name : String) (l : Log) : Environment → Prop where
  | add {x} (hg : Got l .environment name x) (hlive : x.deleting = false) :
      Finalizes name l { x with metadata := x.metadata.addFinalizer releaseFinalizer }
  | remove {x} (hg : Got l .environment name x) (hdel : x.deleting = true)
      (hc : x.status.completionTime ≠ none) :
      Finalizes name l { x with metadata := x.metadata.removeFinalizer releaseFinalizer }

/-- The updates of resources: a waiting Environment takes them, one whose release job has completed gives them up. -/
inductive Handles (name : String) (l : Log) (r : ResourceKind) : Resource r → Prop where
  | take {x s providers y} (hg : Got l .environment name x) (ha : x.status.cond .active = some (s, .pending))
      (hp : x.spec.providers = some providers) (hy : Got l (.resource r) (named providers r) y)
      (hfree : y.metadata.hasControllerReference = false) :
      Handles name l r { y with metadata := ownedMeta x y.metadata }
  | release {x s reason providers y} (hg : Got l .environment name x)
      (ha : x.status.cond .active = some (s, reason)) (hr : reason ≠ .pending)
      (hj : JobComplete (.environment name) l) (hp : x.spec.providers = some providers)
      (hy : Got l (.resource r) (named providers r) y) (hf : releaseFinalizer ∈ y.metadata.finalizers) :
      Handles name l r { y with metadata := y.metadata.removeFinalizer releaseFinalizer }

/-- The status writes: from a version the round has heard of, with the Active condition changed. -/
structure Reports (name : String) (l : Log) (o : Environment) : Prop where
  written : ∃ x x' c, Got l .environment name x ∧ Heard l .environment x' ∧ x'.name = name ∧
    o.metadata = x'.metadata ∧ o.status.cond .active = some c ∧ Activates name l x (x'.status.cond .active) c

/-- **The calls of a `Reconcile`** of the Environment `name`. -/
def Permits (name : String) (l : Log) : Op → Prop
  | .get _ _ => True
  | .list _ _ => True
  | .ext _ => True
  | .create .job job => MayCreateJob (.environment name) l job ∧
      ∃ x, Got l .environment name x ∧ x.deleting = true
  | .create _ _ => False
  | .update .environment o => Finalizes name l o
  | .update (.resource r) o => Handles name l r o
  | .update _ _ => False
  | .updateStatus .environment o => Reports name l o
  | .updateStatus _ _ => False
  | .delete .environment n => n = name
  | .delete .job _ => True
  | .delete _ _ => False

/-! ## `Reconcile` makes only these calls -/

variable {name : String} {l l' : Log} {x env : Environment}

theorem Permits.read {o : Op} (h : IsRead o) : Permits name l o := by
  cases o with
  | get | list | ext => trivial
  | create | update | updateStatus | delete => exact h.elim

/-- The Environment in memory: its metadata and its Active condition are those of a version the round has heard of. -/
structure Memory (name : String) (l : Log) (env : Environment) : Prop where
  heard : ∃ x', Heard l .environment x' ∧ x'.name = name ∧ env.metadata = x'.metadata ∧
    env.status.cond .active = x'.status.cond .active
  name : env.name = name

theorem Memory.grown {P : Op → Prop} (h : Memory name l env) (hg : Grown P l l') : Memory name l' env := by
  obtain ⟨⟨x', ⟨e, he, ha⟩, hrest⟩, hname⟩ := h
  exact ⟨⟨x', ⟨e, hg.mem he, ha⟩, hrest⟩, hname⟩

theorem Memory.of_got (hg : Got l .environment name x) (hname : x.name = name) : Memory name l x :=
  ⟨⟨x, ⟨_, hg, .get⟩, hname, rfl, rfl⟩, hname⟩

theorem Taken.grown {P : Op → Prop} {r : ResourceKind} {n : String} (h : Taken name l r n) (hg : Grown P l l') :
    Taken name l' r n := by
  rcases h with ⟨y, hy, hc⟩ | ⟨o, y, ho, hy⟩
  · exact .inl ⟨y, hg.mem hy, hc⟩
  · exact .inr ⟨o, y, hg.mem ho, hy⟩

/-- What a step hands on: the Environment in memory, unless it failed. -/
abbrev Handed (name : String) (l : Log) (out : Environment × Option Err) (l' : Log) : Prop :=
  Grown AnyCall l l' ∧ (out.2 = none → Memory name l' out.1)

/-- Writing the status of the Environment in memory. -/
theorem statusUpdate_obeys {o : Environment} {c : ConditionStatus × Reason} (hg : Got l .environment name x)
    (h : Memory name l env) (hm : o.metadata = env.metadata) (hc : o.status.cond .active = some c)
    (ha : Activates name l x (env.status.cond .active) c) :
    Obeys (Permits name) (M.statusUpdate .environment o) (Handed name l) l := by
  obtain ⟨⟨x', hx', hn', hmeta, hcond⟩, hname⟩ := h
  rw [hcond] at ha
  have hreports : Reports name l o := ⟨x, x', c, hg, hx', hn', hm.trans hmeta, hc, ha⟩
  refine Follows.call hreports fun a ha => ⟨Grown.refl.cons trivial, fun herr => ?_⟩
  cases a with
  | error e => cases herr
  | ok y =>
      have hy : y.name = o.name := ha.1.1
      have honame : o.name = name := (congrArg ObjectMeta.name hm).trans hname
      exact ⟨⟨y, ⟨_, List.mem_cons_self, .updateStatus⟩, hy.trans honame, rfl, rfl⟩, hy.trans honame⟩

/-- Setting a condition and going on with the result. -/
theorem setCondition_obeys {α : Type} {c : Condition} {f : Environment × Bool → M α} {Q : α → Log → Prop}
    (h : ∀ now l', Grown IsRead l l' →
      Obeys (Permits name) (f (conditionSet now env c, conditionChanged now env c)) Q l') :
    Obeys (Permits name) (setCondition env c >>= f) Q l := by
  rw [setCondition_bind]
  exact Follows.call trivial fun t _ => h (unixSeconds t) _ (Grown.refl.cons trivial)

/-- An unchanged condition leaves the Environment in memory as it is. -/
theorem Memory.unchanged {now : Int} {c : Condition} (h : Memory name l env)
    (hc : conditionChanged now env c = false) : Memory name l (conditionSet now env c) := by
  rw [(conditionSet_unchanged now env c hc).1]
  exact h

/-- Setting Active, and writing the Environment if that changed anything. -/
theorem setAndPersist_obeys {c : Condition} (htype : c.type = .active) (hg : Got l .environment name x)
    (h : Memory name l env)
    (ha : ∀ l', Grown IsRead l l' → Activates name l' x (env.status.cond .active) (c.status, c.reason)) :
    Obeys (Permits name) (setAndPersist env c) (Handed name l) l := by
  refine setCondition_obeys fun now l₁ hg₁ => ?_
  have hany : Grown AnyCall l l₁ := hg₁.mono fun _ _ => trivial
  dsimp only
  split
  · have hcond := conditionSet_cond_self now env c
    rw [htype] at hcond
    refine (statusUpdate_obeys (o := conditionSet now env c) (hg₁.mem hg) (h.grown hg₁) rfl hcond (ha l₁ hg₁)).post ?_
    exact fun out l₂ ⟨hg₂, hout⟩ => ⟨hany.trans hg₂, hout⟩
  · rename_i hsame
    exact ⟨hany, fun _ => (h.grown hg₁).unchanged (by simpa using hsame)⟩

/-! ### A waiting Environment -/

theorem ownedMeta_holds (env : Environment) {m : ObjectMeta} (h : m.hasControllerReference = false) :
    Holds env.name (ownedMeta env m) := by
  unfold ownedMeta
  refine ⟨?_, (ObjectMeta.mem_addFinalizer ..).mpr (.inl rfl)⟩
  rw [ObjectMeta.controllerOf, ObjectMeta.addFinalizer_ownerReferences]
  exact ObjectMeta.controllerOf_setControllerReference h _ _ _

theorem takeResource_obeys {s : ConditionStatus} {providers : Providers} (r : ResourceKind)
    (hname : x.name = name) (hg : Got l .environment name x) (ha : x.status.cond .active = some (s, .pending))
    (hp : x.spec.providers = some providers) :
    Obeys (Permits name) (takeResource x r (named providers r)) (fun out l' => Grown AnyCall l l' ∧
      ∀ y, out = .ok y → Taken name l' r (named providers r)) l := by
  refine Follows.call trivial fun a hans => ?_
  have hg₁ : Grown AnyCall l (⟨.get (.resource r) (named providers r), a⟩ :: l) := Grown.refl.cons trivial
  cases a with
  | error e =>
      refine ⟨hg₁, fun y h => ?_⟩
      cases h
  | ok y =>
      have hy : Got (⟨.get (.resource r) (named providers r), .ok y⟩ :: l) (.resource r) (named providers r) y :=
        List.mem_cons_self
      show Obeys _ (takeOwnership x r y >>= _) _ _
      unfold takeOwnership
      split
      · rename_i hctrl
        exact ⟨hg₁, fun _ _ => .inl ⟨y, hy, hctrl⟩⟩
      · rename_i hfree
        have hfree : y.metadata.hasControllerReference = false := by simpa using hfree
        have hhandles : Handles name _ r { y with metadata := ownedMeta x y.metadata } :=
          .take (hg₁.mem hg) ha hp hy hfree
        refine Follows.call hhandles fun a hans' => ?_
        cases a with
        | error e =>
            refine ⟨hg₁.cons trivial, fun y' h => ?_⟩
            cases h
        | ok y' =>
            refine ⟨hg₁.cons trivial, fun _ _ => .inr ⟨_, y', List.mem_cons_self, ?_, ?_⟩⟩
            · have hn : y'.name = (ownedMeta x y.metadata).name := hans'.1
              have hyname : y.name = named providers r := hans.1
              rw [hn, ← hyname]
              unfold ownedMeta
              rw [ObjectMeta.addFinalizer_name]
              rfl
            · obtain ⟨hfin, hown⟩ := hans'.2 r _ y' rfl
              obtain ⟨hctrl, hmem⟩ := ownedMeta_holds x hfree
              rw [hname] at hctrl
              refine ⟨?_, ?_⟩
              · rw [ObjectMeta.controllerOf, hown]
                exact hctrl
              · rw [hfin]
                exact hmem

theorem reconcileEnvironment_obeys {s : ConditionStatus} (hname : x.name = name) (hg : Got l .environment name x)
    (ha : x.status.cond .active = some (s, .pending)) :
    Obeys (Permits name) (reconcileEnvironment x) (Handed name l) l := by
  unfold reconcileEnvironment withProviders
  cases hp : x.spec.providers with
  | none => trivial
  | some providers =>
      refine (takeResource_obeys .iut hname hg ha hp).bind fun out l₁ ⟨hg₁, ht₁⟩ => ?_
      cases out with
      | error e =>
          refine ⟨hg₁, fun h => ?_⟩
          cases h
      | ok iut =>
          refine (takeResource_obeys .logArea hname (hg₁.mem hg) ha hp).bind fun out l₂ ⟨hg₂, ht₂⟩ => ?_
          have hg₁₂ := hg₁.trans hg₂
          cases out with
          | error e =>
              refine ⟨hg₁₂, fun h => ?_⟩
              cases h
          | ok logArea =>
              refine (takeResource_obeys .executionSpace hname (hg₁₂.mem hg) ha hp).bind
                fun out l₃ ⟨hg₃, ht₃⟩ => ?_
              have hg₁₃ := hg₁₂.trans hg₃
              cases out with
              | error e =>
                  refine ⟨hg₁₃, fun h => ?_⟩
                  cases h
              | ok executionSpace =>
                  refine (obeys_reads (checkProviders_reads _) fun _ _ => Permits.read).bind
                    fun err l₄ hg₄ => ?_
                  have hg₁₄ : Grown AnyCall l l₄ := hg₁₃.trans (hg₄.mono fun _ _ => trivial)
                  cases err with
                  | some e =>
                      refine ⟨hg₁₄, fun h => ?_⟩
                      cases h
                  | none =>
                      refine (setAndPersist_obeys rfl (hg₁₄.mem hg) (Memory.of_got (hg₁₄.mem hg) hname) ?_).post
                        fun out l₅ ⟨hg₅, hout⟩ => ⟨hg₁₄.trans hg₅, hout⟩
                      intro l₅ hg₅
                      rw [ha]
                      refine .ready hp fun r => ?_
                      cases r with
                      | iut => exact (((ht₁ _ rfl).grown hg₂).grown hg₃).grown hg₄ |>.grown hg₅
                      | logArea => exact (((ht₂ _ rfl).grown hg₃).grown hg₄).grown hg₅
                      | executionSpace => exact ((ht₃ _ rfl).grown hg₄).grown hg₅

/-! ### Releasing -/

theorem releaseResource_obeys {s : ConditionStatus} {reason : Reason} {providers : Providers} (r : ResourceKind)
    (hg : Got l .environment name x) (ha : x.status.cond .active = some (s, reason)) (hr : reason ≠ .pending)
    (hj : JobComplete (.environment name) l) (hp : x.spec.providers = some providers) :
    Obeys (Permits name) (releaseResource r (named providers r)) (fun _ => Grown AnyCall l) l := by
  refine Follows.call trivial fun a _ => ?_
  have hg₁ : Grown AnyCall l (⟨.get (.resource r) (named providers r), a⟩ :: l) := Grown.refl.cons trivial
  cases a with
  | error e => exact hg₁
  | ok y =>
      show Obeys _ (if _ then _ else _) _ _
      split
      · rename_i hf
        have hmem : releaseFinalizer ∈ y.metadata.finalizers := by
          simpa [ObjectMeta.containsFinalizer] using hf
        have hhandles : Handles name _ r { y with metadata := y.metadata.removeFinalizer releaseFinalizer } :=
          .release (hg₁.mem hg) ha hr (hj.grown hg₁) hp List.mem_cons_self hmem
        exact Follows.call hhandles fun a _ => hg₁.cons trivial
      · exact hg₁

theorem releaseProviders_obeys {s : ConditionStatus} {reason : Reason} (hg : Got l .environment name x)
    (ha : x.status.cond .active = some (s, reason)) (hr : reason ≠ .pending)
    (hj : JobComplete (.environment name) l) :
    Obeys (Permits name) (releaseProviders x) (fun _ => Grown AnyCall l) l := by
  unfold releaseProviders withProviders
  cases hp : x.spec.providers with
  | none => trivial
  | some providers =>
      refine (releaseResource_obeys .executionSpace hg ha hr hj hp).bind fun out l₁ hg₁ => ?_
      split
      · refine (releaseResource_obeys .logArea (hg₁.mem hg) ha hr (hj.grown hg₁) hp).bind fun out l₂ hg₂ => ?_
        have hg₁₂ := hg₁.trans hg₂
        split
        · refine (releaseResource_obeys .iut (hg₁₂.mem hg) ha hr (hj.grown hg₁₂) hp).post fun out l₃ hg₃ => ?_
          exact hg₁₂.trans hg₃
        · exact hg₁₂
      · exact hg₁

/-- A release never makes an Environment wait again. -/
theorem releaseReason_ne_pending {reason : Reason} (h : reason ≠ .pending) :
    releaseReason env reason ≠ .pending := by
  unfold releaseReason
  split
  · decide
  · exact h

/-- Completing an Environment leaves its metadata and its conditions alone. -/
theorem completeWithActive_eq (env : Environment) : (completeWithActive env).metadata = env.metadata ∧
    (completeWithActive env).status.cond .active = env.status.cond .active := by
  unfold completeWithActive
  split
  · exact ⟨rfl, rfl⟩
  · exact ⟨rfl, rfl⟩

theorem deleteAll_obeys (jobs : List Job) :
    Obeys (Permits name) (JobManager.deleteAll jobs) (fun _ => Grown AnyCall l) l := by
  refine (Follows.grows (JobManager.deleteAll_calls jobs) ?_).post fun _ _ hg => hg.mono fun _ _ => trivial
  rintro l o ⟨n, rfl⟩
  trivial

theorem released_obeys {s : ConditionStatus} {reason : Reason} {manager : JobManager} (hname : x.name = name)
    (hg : Got l .environment name x) (ha : x.status.cond .active = some (s, reason)) (hr : reason ≠ .pending)
    (hj : JobComplete (.environment name) l) :
    Obeys (Permits name) (released x manager) (Handed name l) l := by
  refine (obeys_reads (result_reads _ _ _) fun _ _ => Permits.read).bind fun result l₁ hread => ?_
  have hg₁ : Grown AnyCall l l₁ := hread.mono fun _ _ => trivial
  refine (releaseProviders_obeys (hg₁.mem hg) ha hr (hj.grown hg₁)).bind ?_
  rintro ⟨updated, err⟩ l₂ hg₂
  have hg₁₂ := hg₁.trans hg₂
  have hmem : Memory name l₂ x := Memory.of_got (hg₁₂.mem hg) hname
  dsimp only
  split
  · exact ⟨hg₁₂, fun _ => hmem⟩
  split
  · trivial
  refine setCondition_obeys fun now l₃ hread₃ => ?_
  have hg₃ : Grown AnyCall l l₃ := hg₁₂.trans (hread₃.mono fun _ _ => trivial)
  dsimp only
  split
  · obtain ⟨hmeta, hcond⟩ := completeWithActive_eq (conditionSet now x (releasedCondition x result))
    have hset := conditionSet_cond_self now x (releasedCondition x result)
    have hreason : (releasedCondition x result).reason ≠ .pending := by
      refine releaseReason_ne_pending ?_
      split <;> decide
    refine (statusUpdate_obeys (hg₃.mem hg) (hmem.grown hread₃) hmeta (hcond.trans hset) (.inactive hreason)).bind ?_
    rintro ⟨env', err'⟩ l₄ ⟨hg₄, hout⟩
    refine (deleteAll_obeys _).bind fun deleted l₅ hg₅ => ?_
    refine ⟨(hg₃.trans hg₄).trans hg₅, fun herr => ?_⟩
    exact (hout (Err.join_eq_none.mp herr).1).grown hg₅
  · rename_i hsame
    refine ⟨hg₃, fun _ => ?_⟩
    have hkept := (hmem.grown hread₃).unchanged (by simpa using hsame)
    obtain ⟨hmeta, hcond⟩ := completeWithActive_eq (conditionSet now x (releasedCondition x result))
    obtain ⟨⟨x', hx', hn', hm', hc'⟩, hname'⟩ := hkept
    refine ⟨⟨x', hx', hn', hmeta.trans hm', hcond.trans hc'⟩, ?_⟩
    rw [Object.name, hmeta]
    exact hname'

/-! ### The release job -/

theorem environmentRequest_reads (env : Environment) : (environmentRequest env).Calls IsRead := by
  unfold environmentRequest
  split
  · trivial
  · exact ⟨trivial, fun _ => trivial⟩

theorem getReleasable_reads (r : ResourceKind) (n : String) : (getReleasable r n).Calls IsRead := by
  refine ⟨trivial, fun a => ?_⟩
  cases a with
  | error e => trivial
  | ok resource =>
      refine ⟨trivial, fun a => ?_⟩
      cases a with
      | error e => trivial
      | ok provider => trivial

theorem releaseJobOf_own (env : Environment) (request : EnvironmentRequest) (image : Image) (iut : Iut × Provider)
    (logArea : LogArea × Provider) (executionSpace : ExecutionSpace × Provider) :
    (Worker.environment env.name).selector.matches
      (releaseJobOf env request image iut logArea executionSpace).metadata = true := by
  simp [Worker.selector, Selector.matches, releaseJobOf, ObjectMeta.setControllerReference, ObjectMeta.controllerOf]

theorem releaseJobFrom_obeys {request : EnvironmentRequest} {iut : Iut × Provider} {logArea : LogArea × Provider}
    {executionSpace : ExecutionSpace × Provider} :
    Obeys (Permits name) (releaseJobFrom x request iut logArea executionSpace) (fun out l' => Grown IsRead l l' ∧
      ∀ job, out = .ok job → (Worker.environment x.name).selector.matches job.metadata = true) l := by
  refine (obeys_reads (checkCluster_reads _) fun _ _ => Permits.read).bind fun err l₁ hg₁ => ?_
  cases err with
  | some e =>
      refine ⟨hg₁, fun job h => ?_⟩
      cases h
  | none =>
      dsimp only
      split
      · trivial
      · refine ⟨hg₁, fun job h => ?_⟩
        cases h
        exact releaseJobOf_own ..

/-- The release job is controlled by the Environment it is made for. -/
theorem releaseJob_obeys : Obeys (Permits name) (releaseJob x) (fun out l' => Grown IsRead l l' ∧
    ∀ job, out = .ok job → (Worker.environment x.name).selector.matches job.metadata = true) l := by
  refine (obeys_reads (environmentRequest_reads x) fun _ _ => Permits.read).bind fun out l₁ hg₁ => ?_
  cases out with
  | error e =>
      refine ⟨hg₁, fun job h => ?_⟩
      cases h
  | ok request =>
      show Obeys _ (withProviders x _) _ _
      unfold withProviders
      split
      · trivial
      rename_i providers _
      refine (obeys_reads (getReleasable_reads _ _) fun _ _ => Permits.read).bind fun out l₂ hg₂ => ?_
      cases out with
      | error e =>
          refine ⟨hg₁.trans hg₂, fun job h => ?_⟩
          cases h
      | ok iut =>
          refine (obeys_reads (getReleasable_reads _ _) fun _ _ => Permits.read).bind fun out l₃ hg₃ => ?_
          have hg₁₃ := (hg₁.trans hg₂).trans hg₃
          cases out with
          | error e =>
              refine ⟨hg₁₃, fun job h => ?_⟩
              cases h
          | ok logArea =>
              refine (obeys_reads (getReleasable_reads _ _) fun _ _ => Permits.read).bind fun out l₄ hg₄ => ?_
              have hg₁₄ := hg₁₃.trans hg₄
              cases out with
              | error e =>
                  refine ⟨hg₁₄, fun job h => ?_⟩
                  cases h
              | ok executionSpace =>
                  exact releaseJobFrom_obeys.post fun out l₅ ⟨hg₅, hjob⟩ => ⟨hg₁₄.trans hg₅, hjob⟩

theorem notCreated_obeys {err : Err} (hname : x.name = name) (hg : Got l .environment name x) :
    Obeys (Permits name) (notCreated x err) (Handed name l) l := by
  have hmem : Memory name l x := Memory.of_got hg hname
  unfold notCreated
  split
  · exact ⟨.refl, fun _ => hmem⟩
  · refine setCondition_obeys fun now l₁ hread => ?_
    have hg₁ : Grown AnyCall l l₁ := hread.mono fun _ _ => trivial
    dsimp only
    split
    · have hset := conditionSet_cond_self now x (inactive (releaseReason x .failed) err.text)
      have hreason : releaseReason x .failed ≠ .pending := releaseReason_ne_pending (by decide)
      refine (statusUpdate_obeys (o := conditionSet now x (inactive (releaseReason x .failed) err.text))
        (hg₁.mem hg) (hmem.grown hread) rfl hset (.inactive hreason)).post ?_
      exact fun out l₂ ⟨hg₂, hout⟩ => ⟨hg₁.trans hg₂, hout⟩
    · refine ⟨hg₁, fun h => ?_⟩
      cases h

theorem reconcileReleaser_obeys {s : ConditionStatus} {reason : Reason} (hname : x.name = name)
    (hg : Got l .environment name x) (ha : x.status.cond .active = some (s, reason)) (hr : reason ≠ .pending)
    (hjobs : Never CreatesJob l) : Obeys (Permits name) (reconcileReleaser x) (Handed name l) l := by
  refine (status_obeys (jobManager x) trivial).bind ?_
  rintro ⟨manager, jobStatus⟩ l₁ ⟨hread, hstatus⟩
  have hg₁ : Grown AnyCall l l₁ := hread.mono fun _ _ => trivial
  have hmem : Memory name l₁ x := Memory.of_got (hg₁.mem hg) hname
  have hpost : ∀ (out : Environment × Option Err) l', Handed name l₁ out l' → Handed name l out l' :=
    fun out l' ⟨hg', hout⟩ => ⟨hg₁.trans hg', hout⟩
  cases jobStatus with
  | error e =>
      refine ⟨hg₁, fun h => ?_⟩
      cases h
  | ok status =>
      obtain ⟨jobs, hlist, _, hsum⟩ := hstatus status rfl
      have hlist' : ⟨.list .job (Worker.environment name).selector, .ok jobs⟩ ∈ l₁ := by
        rw [← hname, hlist]
        exact List.mem_cons_self
      cases status with
      | failed =>
          refine (obeys_reads (result_reads _ _ _) fun _ _ => Permits.read).bind fun result l₂ hread₂ => ?_
          have hg₂ : Grown AnyCall l₁ l₂ := hread₂.mono fun _ _ => trivial
          refine (setAndPersist_obeys rfl (hg₂.mem (hg₁.mem hg)) (hmem.grown hg₂) fun l₃ _ => ?_).post
            fun out l' ⟨hg', hout⟩ => hpost out l' ⟨hg₂.trans hg', hout⟩
          exact .inactive (releaseReason_ne_pending (by decide))
      | successful =>
          obtain ⟨job, hjob, hfin⟩ := JobManager.summary_successful hsum
          exact (released_obeys hname (hg₁.mem hg) ha hr ⟨jobs, job, hlist', hjob, hfin⟩).post hpost
      | active =>
          refine (setAndPersist_obeys rfl (hg₁.mem hg) hmem fun l₂ _ => ?_).post hpost
          exact .inactive (releaseReason_ne_pending (by decide))
      | none =>
          obtain rfl := JobManager.summary_none hsum
          dsimp only
          split
          · exact ⟨hg₁, fun _ => hmem⟩
          · rename_i hdel
            have hcreate : Obeys (Permits name) (JobManager.create (releaseJob x)) (fun _ => Grown AnyCall l₁) l₁ := by
              refine create_obeys releaseJob_obeys ?_ ?_
              · rintro e l₂ err ⟨hg₂, _⟩
                exact hg₂.mono fun _ _ => trivial
              · rintro job l₂ ⟨hg₂, hjob⟩
                have hown := hjob job rfl
                rw [hname] at hown
                have hmay : MayCreateJob (.environment name) l₂ job :=
                  ⟨hown, .of_mem (fun _ => trivial) (hg₂.mem hlist'),
                    (hread.trans hg₂).never (fun _ => IsRead.not_createsJob) hjobs⟩
                refine ⟨⟨hmay, x, hg₂.mem (hg₁.mem hg), by simpa using hdel⟩, fun a => ?_⟩
                exact (hg₂.mono fun _ _ => trivial).cons trivial
            refine hcreate.bind fun err l₂ hg₂ => ?_
            cases err with
            | some err =>
                refine (notCreated_obeys hname (hg₂.mem (hg₁.mem hg))).post fun out l' ⟨hg', hout⟩ => ?_
                exact hpost out l' ⟨hg₂.trans hg', hout⟩
            | none => exact ⟨hg₁.trans hg₂, fun _ => hmem.grown hg₂⟩

/-! ### `Reconcile` -/

theorem reconcile_obeys (hname : x.name = name) (hg : Got l .environment name x) (hjobs : Never CreatesJob l) :
    Obeys (Permits name) (reconcile x) (Handed name l) l := by
  have hmem : Memory name l x := Memory.of_got hg hname
  unfold reconcile
  split
  · rename_i hnone
    refine setCondition_obeys fun now l₁ hread => ?_
    have hg₁ : Grown AnyCall l l₁ := hread.mono fun _ _ => trivial
    have hset := conditionSet_cond_self now x (inactive .pending "Waiting for environment to become ready")
    refine (statusUpdate_obeys
      (o := conditionSet now x (inactive .pending "Waiting for environment to become ready"))
      (hg₁.mem hg) (hmem.grown hread) rfl hset ?_).post fun out l₂ ⟨hg₂, hout⟩ => ⟨hg₁.trans hg₂, hout⟩
    rw [ReleasableStatus.cond_eq_none.mpr hnone]
    exact .waiting
  · rename_i active hactive
    have ha : x.status.cond .active = some (active.status, active.reason) := ReleasableStatus.cond_of_find hactive
    split
    · rename_i hadd
      have hlive : x.deleting = false := by
        rw [Bool.and_eq_true] at hadd
        simpa using hadd.1
      refine Follows.call (.add hg hlive) fun a hans => ⟨Grown.refl.cons trivial, fun herr => ?_⟩
      cases a with
      | error e => cases herr
      | ok y =>
          have hy : y.name = (x.metadata.addFinalizer releaseFinalizer).name := hans.1
          rw [ObjectMeta.addFinalizer_name] at hy
          exact ⟨⟨y, ⟨_, List.mem_cons_self, .update⟩, hy.trans hname, rfl, rfl⟩, hy.trans hname⟩
    · split
      · rename_i hpending
        obtain ⟨s, hs⟩ := isStatusReason_cond.mp hpending
        exact reconcileEnvironment_obeys hname hg hs
      · rename_i hpending
        refine reconcileReleaser_obeys hname hg ha ?_ hjobs
        intro hr
        exact hpending (isStatusReason_cond.mpr ⟨active.status, by rw [ha, hr]⟩)

theorem checkDeadline_obeys (r : EnvironmentReconciler) (hg : Got l .environment name x)
    (h : Memory name l env) : Obeys (Permits name) (r.checkDeadline env) (fun _ _ => True) l := by
  unfold checkDeadline
  split
  · refine Follows.call trivial fun now _ => ?_
    have hread : Grown IsRead l (⟨.ext .timeNow, now⟩ :: l) := Grown.refl.cons trivial
    show Obeys _ (if _ then _ else _) _ _
    split
    · refine setCondition_obeys fun t l₂ hread₂ => ?_
      have hg₂ := hread.trans hread₂
      dsimp only
      split
      · have hset := conditionSet_cond_self t env (inactive .timedOut (r.deadlineMessage env.spec.deadline))
        have hreason : (inactive .timedOut (r.deadlineMessage env.spec.deadline)).reason ≠ .pending := by
          show Reason.timedOut ≠ .pending
          decide
        refine (statusUpdate_obeys (o := conditionSet t env (inactive .timedOut
          (r.deadlineMessage env.spec.deadline))) (hg₂.mem hg) (h.grown hg₂) rfl hset
          (.inactive hreason)).bind fun _ _ _ => trivial
      · refine Follows.call ?_ fun _ _ => trivial
        exact h.name
    · exact Follows.call trivial fun _ _ => trivial
  · trivial

/-- **`Reconcile` of an Environment** makes only the calls listed above. -/
theorem Reconcile_obeys (r : EnvironmentReconciler) (name : String) :
    Obeys (Permits name) (r.Reconcile name) (fun _ _ => True) [] := by
  refine Follows.call trivial fun a ha => ?_
  cases a with
  | error e => trivial
  | ok x =>
      have hname : x.name = name := ha.1
      have hg : Got [⟨.get .environment name, .ok x⟩] .environment name x := List.mem_cons_self
      have hjobs : Never CreatesJob [(⟨.get .environment name, .ok x⟩ : Said Op Ans)] := by
        refine Never.nil.cons ?_
        rintro ⟨_, hw⟩
        cases hw
      simp only [Prog.bind]
      split
      · rename_i t hc
        unfold reconcileCompleted
        split
        · rename_i hdel
          have hdel : x.deleting = true := by
            rw [Bool.and_eq_true] at hdel
            exact hdel.1
          refine Follows.call (.remove hg hdel (by rw [hc]; exact Option.some_ne_none t)) fun a _ => ?_
          cases a with
          | error e =>
              show Obeys _ (if _ then _ else _) _ _
              split <;> trivial
          | ok _ => trivial
        · trivial
      · refine (reconcile_obeys hname hg hjobs).bind ?_
        rintro ⟨env, err⟩ l₁ ⟨hg₁, hout⟩
        cases err with
        | some e => trivial
        | none => exact checkDeadline_obeys r (hg₁.mem hg) (hout rfl)

end EnvironmentReconciler

end Etos
