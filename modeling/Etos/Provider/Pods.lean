import Etos.EnvironmentRequest.Outlive
import Etos.Prog.Embed
import Etos.Provider.Provision

/-!
# `Provider.Pods` — the job pods keep to what is assumed of everybody else

The operator shares its namespace with the pods of its jobs. The runs of the operator leave them open: everybody else
writes whatever `others` and `provides` allow. Here the pods are looked at as programs, one `JobPod` for each kind of
job. What their calls are is said in terms of the pod's own log (`JobPod.Permits`), part by part as the programs under
`cmd/` are put together, and from that follows **`pod_write_allowed`**: every write of a pod is one that everybody else
may make, and what a pod deletes it has created itself or was started to release.
-/

namespace Etos

open Kube

/-! ## Pods -/

/-- A pod of a job of the operator, by the arguments of its containers. -/
inductive JobPod where
  | provider (environmentRequest : String)
  | release (environmentRequest environment : String) (providers : Providers)
  | resourceRelease (environmentRequest : String) (r : ResourceKind) (name : String)

/-- What the containers of the pod run. -/
def JobPod.program (marshal : Marshal) : JobPod → M Unit
  | .provider n => providerPod marshal n
  | .release n environment providers => releasePod n environment providers
  | .resourceRelease n r name => resourceReleasePod n r name

/-- The resource of each kind that an Environment names. -/
def Providers.of (providers : Providers) : ResourceKind → String
  | .iut => providers.iut
  | .logArea => providers.logArea
  | .executionSpace => providers.executionSpace

/-- Nobody has a claim on the object yet, and no status is set. -/
structure Unclaimed (k : Kind) (o : Obj k) : Prop where
  finalizers : o.metadata.finalizers = []
  controller : o.metadata.controllerOf = none
  environment : ownedByEnvironment o.metadata.ownerReferences = false
  status : newStatus k o.status

/-- The pod has created the ExecutionSpace with this name. -/
def MadeSpace (l : Log) (name : String) : Prop :=
  ∃ x y : ExecutionSpace, ⟨.create (.resource .executionSpace) x, .ok y⟩ ∈ l ∧ y.name = name

/-- The calls of the pod of a provider job. -/
def ProviderPermits (n : String) (l : Log) : Op → Prop
  | .get _ _ => True
  | .list _ _ => True
  | .ext _ => True
  | .create (.resource r) y => Unclaimed (.resource r) y ∧ ∃ x, Got l .environmentRequest n x ∧
      (r.common y.spec).environmentRequest = x.name
  | .create .environment y => Unclaimed .environment y ∧ ∃ x, Got l .environmentRequest n x ∧
      LabelledFor x y.metadata.labels
  | .create .job y => Unclaimed .job y
  | .create _ _ => False
  | .update _ _ => False
  | .updateStatus _ _ => False
  | .delete k name => k = .resource .executionSpace ∧ MadeSpace l name

/-- The calls of the pod that releases what an Environment names. -/
def ReleasePermits (providers : Providers) (l : Log) : Op → Prop
  | .get _ _ => True
  | .list _ _ => True
  | .ext _ => True
  | .create _ _ => False
  | .update _ _ => False
  | .updateStatus _ _ => False
  | .delete k name => ∃ r, k = .resource r ∧ ∃ y, Got l (.resource r) (providers.of r) y ∧ y.name = name

/-- **The calls of a pod**, after the calls of its log. The pod that releases a resource which no Environment uses
    leaves the deletion to the garbage collector. -/
def JobPod.Permits : JobPod → Log → Op → Prop
  | .provider n => ProviderPermits n
  | .release _ _ providers => ReleasePermits providers
  | .resourceRelease _ _ _ => fun _ => IsRead

/-- A part of a pod, after the calls of the log `l`. -/
abbrev PodRuns (ok : Log → Op → Prop) {α : Type} (p : M α) (Q : α → Log → Prop) (l : Log) : Prop :=
  Follows (fun _ _ => True) ok p Q l

theorem ProviderPermits.read {n : String} {l : Log} {o : Op} (h : IsRead o) : ProviderPermits n l o := by
  cases o with
  | get | list | ext => trivial
  | create | update | updateStatus | delete => exact h.elim

theorem ReleasePermits.read {providers : Providers} {l : Log} {o : Op} (h : IsRead o) :
    ReleasePermits providers l o := by
  cases o with
  | get | list | ext => trivial
  | create | update | updateStatus | delete => exact h.elim

/-! ## Containers -/

section Containers

variable {ok : Log → Op → Prop} {l : Log}

theorem getPublisher_reads (parameters : RabbitMQ) : (getPublisher parameters).Calls IsRead := by
  unfold getPublisher
  split
  · trivial
  · exact ⟨trivial, fun _ => trivial⟩

/-- A container that has read the request and has got a publisher does its work. -/
theorem runProvider_runs {n : String} {work : EnvironmentRequest → M (Option Err)} (hread : ∀ l o, IsRead o → ok l o)
    (hwork : ∀ x l', Got l' .environmentRequest n x → PodRuns ok (work x) (fun _ _ => True) l') :
    PodRuns ok (runProvider n work) (fun _ _ => True) l := by
  refine Follows.call (hread _ _ trivial) fun a _ => ?_
  cases a with
  | error e => trivial
  | ok x =>
      apply (obeys_reads (getPublisher_reads _) hread).bind
      intro out l' hgrown
      cases out with
      | error e => trivial
      | ok _ => exact hwork x l' (hgrown.mem List.mem_cons_self)

theorem runContainers_runs {containers : List (M (Option Err))}
    (h : ∀ container ∈ containers, ∀ l, PodRuns ok container (fun _ _ => True) l) :
    PodRuns ok (runContainers containers) (fun _ _ => True) l := by
  induction containers generalizing l with
  | nil => trivial
  | cons container containers ih =>
      apply (h container List.mem_cons_self l).bind
      intro err l' _
      cases err with
      | some e => trivial
      | none => exact ih fun c hc => h c (List.mem_cons_of_mem _ hc)

end Containers

/-! ## The providers -/

section Providers

variable {n : String} {l : Log} {x : EnvironmentRequest} {cfg : ProvisionConfig}

/-- What a provider makes for a request. -/
structure NewFor (x : EnvironmentRequest) {r : ResourceKind} (y : Resource r) : Prop where
  unclaimed : Unclaimed (.resource r) y
  request : (r.common y.spec).environmentRequest = x.name

theorem newResource_unclaimed (r : ResourceKind) (x : EnvironmentRequest) (appName : String) (spec : r.Spec) :
    Unclaimed (.resource r) (newResource r x appName spec) where
  finalizers := rfl
  controller := rfl
  environment := rfl
  status := rfl

/-- Creating what was made for the request that was read. -/
theorem NewFor.permits (hx : Got l .environmentRequest n x) {r : ResourceKind} {y : Resource r} (hy : NewFor x y) :
    ProviderPermits n l (.create (.resource r) y) := ⟨hy.unclaimed, x, hx, hy.request⟩

/-- One round of a generic provider: a resource is made with a new id, and created. -/
theorem createNew_runs (hx : Got l .environmentRequest n x) {r : ResourceKind} {make : String → Resource r}
    (hmake : ∀ id, NewFor x (make id)) :
    PodRuns (ProviderPermits n) (M.ext .newUUID >>= fun id => createResource r (make id))
      (fun _ => Grown AnyCall l) l := by
  apply Follows.call trivial
  intro id _
  apply Follows.call ((hmake id).permits (List.mem_cons_of_mem _ hx))
  intro a _
  exact (Grown.refl.cons trivial).cons trivial

theorem repeatUntilError_runs {step : M (Option Err)} (hx : Got l .environmentRequest n x)
    (hstep : ∀ l', Got l' .environmentRequest n x → PodRuns (ProviderPermits n) step (fun _ => Grown AnyCall l') l')
    (amount : Nat) : PodRuns (ProviderPermits n) (repeatUntilError step amount) (fun _ _ => True) l := by
  induction amount generalizing l with
  | zero => trivial
  | succ amount ih =>
      apply (hstep l hx).bind
      intro err l' hgrown
      cases err with
      | some e => trivial
      | none => exact ih (hgrown.mem hx)

theorem iutProvision_runs (hx : Got l .environmentRequest n cfg.environmentRequest) :
    PodRuns (ProviderPermits n) (iutProvision cfg) (fun _ _ => True) l := by
  unfold iutProvision
  split
  · trivial
  · apply repeatUntilError_runs hx
    intro l' hx'
    apply createNew_runs hx'
    intro id
    exact ⟨newResource_unclaimed .iut _ _ _, rfl⟩

theorem logAreaProvision_runs (hx : Got l .environmentRequest n cfg.environmentRequest) :
    PodRuns (ProviderPermits n) (logAreaProvision cfg) (fun _ _ => True) l := by
  unfold logAreaProvision
  split
  · trivial
  · apply Follows.call trivial
    intro a _
    cases a with
    | error e => trivial
    | ok provider =>
        dsimp only [Prog.bind]
        split
        · trivial
        · apply repeatUntilError_runs (List.mem_cons_of_mem _ hx)
          intro l' hx'
          apply createNew_runs hx'
          intro id
          exact ⟨newResource_unclaimed .logArea _ _ _, rfl⟩

/-! ### ExecutionSpaces -/

theorem Var.get_reads (v : Var) : v.get.Calls IsRead := by
  unfold Var.get
  split
  · trivial
  · split
    · exact ⟨trivial, fun _ => trivial⟩
    · exact ⟨trivial, fun _ => trivial⟩
    · trivial

theorem getAndEncrypt_reads (password : Option Var) : (getAndEncrypt password).Calls IsRead := by
  cases password with
  | none => trivial
  | some v =>
      apply (Var.get_reads v).bind
      intro out
      cases out with
      | error e => trivial
      | ok _ => exact ⟨trivial, fun _ => trivial⟩

theorem environmentVariables_reads (x : EnvironmentRequest) : (environmentVariables x).Calls IsRead := by
  apply (Var.get_reads _).bind
  intro out
  cases out with
  | error e => trivial
  | ok _ =>
      refine ⟨trivial, fun a => ?_⟩
      dsimp only [Prog.bind]
      split
      · trivial
      · refine ⟨trivial, fun a => ?_⟩
        dsimp only [Prog.bind]
        split
        · trivial
        · apply (getAndEncrypt_reads _).bind
          intro err
          cases err with
          | some e => trivial
          | none =>
              apply (getAndEncrypt_reads _).bind
              intro err
              cases err <;> trivial

theorem NewExecutionSpace_runs (spec : ExecutionSpaceSpec) : PodRuns (ProviderPermits n) (NewExecutionSpace x spec)
    (fun out l' => Grown IsRead l l' ∧ ∀ y, out = .ok y → NewFor x y) l := by
  apply Follows.call trivial
  intro id _
  apply (obeys_reads (environmentVariables_reads x) fun _ _ => ProviderPermits.read).bind
  intro err l' hgrown
  have hgrown' := (Grown.refl.cons trivial).trans hgrown
  cases err with
  | some e =>
      refine ⟨hgrown', ?_⟩
      rintro _ ⟨⟩
  | none =>
      refine ⟨hgrown', ?_⟩
      rintro _ ⟨⟩
      exact ⟨newResource_unclaimed .executionSpace _ _ _, rfl⟩

theorem MadeSpace.grown {P : Op → Prop} {l' : Log} {name : String} (h : MadeSpace l name) (hgrown : Grown P l l') :
    MadeSpace l' name := by
  obtain ⟨y, y', hmem, hname⟩ := h
  exact ⟨y, y', hgrown.mem hmem, hname⟩

theorem madeSpace_lasting (name : String) : Lasting fun l => MadeSpace l name := by
  rintro l e ⟨y, y', hmem, hname⟩
  exact ⟨y, y', List.mem_cons_of_mem _ hmem, hname⟩

/-- The job of a test runner is nobody's concern: its execution space owns it, but does not control it. -/
theorem startTestRunner_runs (executionSpace : ExecutionSpace) :
    PodRuns (ProviderPermits n) (startTestRunner x executionSpace) (fun _ => Grown AnyCall l) l :=
  Follows.call ⟨rfl, rfl, rfl, trivial⟩ fun _ _ => Grown.refl.cons trivial

/-- The name that is waited for is that of a new ExecutionSpace. -/
theorem createExecutionSpace_runs (hx : Got l .environmentRequest n cfg.environmentRequest) :
    PodRuns (ProviderPermits n) (createExecutionSpace cfg)
      (fun out l' => Grown AnyCall l l' ∧ ∀ name, out = .ok name → MadeSpace l' name) l := by
  refine (NewExecutionSpace_runs _).bind fun out l₁ ⟨hread, hnew⟩ => ?_
  have hgrown₁ : Grown AnyCall l l₁ := hread.mono fun _ _ => trivial
  cases out with
  | error e =>
      refine ⟨hgrown₁, ?_⟩
      rintro _ ⟨⟩
  | ok y =>
      apply Follows.call ((hnew y rfl).permits (hread.mem hx))
      intro a _
      cases a with
      | error e =>
          refine ⟨hgrown₁.cons trivial, ?_⟩
          rintro _ ⟨⟩
      | ok y' =>
          have hmade : MadeSpace (⟨.create (.resource .executionSpace) y, .ok y'⟩ :: l₁) y'.name :=
            ⟨y, y', List.mem_cons_self, rfl⟩
          apply (startTestRunner_runs y').bind
          intro err l₂ hgrown₂
          have hgrown := (hgrown₁.cons trivial).trans hgrown₂
          cases err with
          | some e =>
              refine ⟨hgrown, ?_⟩
              rintro _ ⟨⟩
          | none =>
              refine ⟨hgrown, ?_⟩
              rintro _ ⟨⟩
              exact hmade.grown hgrown₂

theorem createExecutionSpaceLoop_runs (hx : Got l .environmentRequest n cfg.environmentRequest) (amount : Nat) :
    PodRuns (ProviderPermits n) (createExecutionSpaceLoop cfg amount)
      (fun out l' => ∀ names, out = .ok names → ∀ name ∈ names, MadeSpace l' name) l := by
  induction amount generalizing l with
  | zero =>
      rintro _ ⟨⟩ _ ⟨⟩
  | succ amount ih =>
      refine (createExecutionSpace_runs hx).bind fun out l₁ ⟨hgrown₁, hname⟩ => ?_
      cases out with
      | error e =>
          rintro _ ⟨⟩
      | ok name =>
          -- what was made before is still in the log when the loop ends
          have hkept := (madeSpace_lasting name).follows (createExecutionSpaceLoop cfg amount) (hname name rfl)
          refine ((hkept.and (ih (hgrown₁.mem hx))).mono fun _ _ h => h.2).bind fun out l₂ ⟨hmade, hrest⟩ => ?_
          cases out with
          | error e =>
              rintro _ ⟨⟩
          | ok names =>
              rintro _ ⟨⟩ m hm
              rcases List.mem_cons.mp hm with rfl | hm
              · exact hmade
              · exact hrest names rfl m hm

/-- Only execution spaces that this pod has created are deleted. -/
theorem waitForTestRunners_runs {names : List String} (h : ∀ name ∈ names, MadeSpace l name) :
    PodRuns (ProviderPermits n) (waitForTestRunners names) (fun _ _ => True) l := by
  induction names generalizing l with
  | nil => trivial
  | cons name names ih =>
      have hwait : PodRuns (ProviderPermits n) (waitForTestRunner name) (fun _ => Grown AnyCall l) l := by
        apply Follows.call trivial
        intro a _
        dsimp only [Prog.bind]
        split
        · exact Grown.refl.cons trivial
        · -- the test runner has not come up
          refine Follows.call ⟨rfl, ?_⟩ fun _ _ => (Grown.refl.cons trivial).cons trivial
          exact madeSpace_lasting name _ _ (h name List.mem_cons_self)
      apply hwait.bind
      intro err l' hgrown
      exact (ih fun m hm => (h m (List.mem_cons_of_mem _ hm)).grown hgrown).bind fun _ _ _ => trivial

theorem datasetEnvironment_reads (dataset : Option Json) : (datasetEnvironment dataset).Calls IsRead := by
  cases dataset with
  | none => trivial
  | some dataset => exact ⟨trivial, fun _ => trivial⟩

theorem executionSpaceProvision_runs (hx : Got l .environmentRequest n cfg.environmentRequest) :
    PodRuns (ProviderPermits n) (executionSpaceProvision cfg) (fun _ _ => True) l := by
  unfold executionSpaceProvision
  split
  · trivial
  · apply (obeys_reads (datasetEnvironment_reads _) fun _ _ => ProviderPermits.read).bind
    intro err l₁ hread
    cases err with
    | some e => trivial
    | none =>
        apply (createExecutionSpaceLoop_runs (hread.mem hx) _).bind
        intro out l₂ hnames
        cases out with
        | error e => trivial
        | ok names =>
            -- the waits end in any order, but they are those of the loop
            refine Follows.call trivial fun order _ => waitForTestRunners_runs fun m hm => ?_
            exact madeSpace_lasting m _ _ (hnames names rfl m (order.2.mem_iff.mp hm))

/-! ### Environments -/

/-- The labels that `CreateEnvironment` sets. -/
theorem environmentLabels_labelled (x : EnvironmentRequest) (executionSpace : ExecutionSpace) :
    LabelledFor x (environmentLabels x executionSpace) := by
  unfold environmentLabels
  refine ⟨?_, fun h => lookup_setUnlessEmpty_self h⟩
  rw [lookup_setUnlessEmpty_ne (by decide), lookup_setUnlessEmpty_ne (by decide)]
  rfl

theorem CreateEnvironment_runs {marshal : Marshal} {index : Nat} {tests : List Test} {iut : Iut}
    {executionSpace : ExecutionSpace} {logArea : LogArea} (hx : Got l .environmentRequest n x) :
    PodRuns (ProviderPermits n) (CreateEnvironment marshal index tests x iut executionSpace logArea)
      (fun _ => Grown AnyCall l) l := by
  unfold CreateEnvironment
  split
  · exact .refl
  · exact .refl
  · exact .refl
  · refine Follows.call ⟨⟨rfl, rfl, rfl, rfl⟩, x, hx, ?_⟩ fun _ _ => Grown.refl.cons trivial
    exact environmentLabels_labelled x executionSpace

theorem createEnvironments_runs {marshal : Marshal} {index : Nat} {split : List (List Test)} {iuts : List Iut}
    {logAreas : List LogArea} {executionSpaces : List ExecutionSpace} (hx : Got l .environmentRequest n x) :
    PodRuns (ProviderPermits n) (createEnvironments marshal x index split iuts logAreas executionSpaces)
      (fun _ _ => True) l := by
  induction split generalizing l index iuts logAreas executionSpaces with
  | nil => trivial
  | cons tests split ih =>
      cases iuts with
      | nil => trivial
      | cons iut iuts =>
          cases logAreas with
          | nil => trivial
          | cons logArea logAreas =>
              cases executionSpaces with
              | nil => trivial
              | cons executionSpace executionSpaces =>
                  apply (CreateEnvironment_runs hx).bind
                  intro err l' hgrown
                  cases err with
                  | some e => trivial
                  | none => exact ih (hgrown.mem hx)

theorem environmentProvision_runs {marshal : Marshal} (hx : Got l .environmentRequest n cfg.environmentRequest) :
    PodRuns (ProviderPermits n) (environmentProvision marshal cfg) (fun _ _ => True) l := by
  apply Follows.call trivial
  intro a _
  cases a with
  | error e => trivial
  | ok iuts =>
      apply Follows.call trivial
      intro a _
      cases a with
      | error e => trivial
      | ok logAreas =>
          apply Follows.call trivial
          intro a _
          cases a with
          | error e => trivial
          | ok executionSpaces =>
              show PodRuns _ (provisionFrom _ _ _ _ _) _ _
              unfold provisionFrom
              dsimp only
              split
              · trivial
              · split
                · trivial
                · apply createEnvironments_runs
                  exact List.mem_cons_of_mem _ (List.mem_cons_of_mem _ (List.mem_cons_of_mem _ hx))

theorem runProvision_runs {amount : EnvironmentRequest → M (Except Err Int)}
    {provision : ProvisionConfig → M (Option Err)} (hamount : ∀ x, (amount x).Calls IsRead)
    (hprovision : ∀ cfg l, Got l .environmentRequest n cfg.environmentRequest →
      PodRuns (ProviderPermits n) (provision cfg) (fun _ _ => True) l) :
    PodRuns (ProviderPermits n) (runProvision n amount provision) (fun _ _ => True) l := by
  apply runProvider_runs (fun _ _ => ProviderPermits.read)
  intro x l' hx
  apply (obeys_reads (hamount x) fun _ _ => ProviderPermits.read).bind
  intro out l'' hgrown
  cases out with
  | error e => trivial
  | ok minimumAmount => exact hprovision ⟨minimumAmount, x⟩ l'' (hgrown.mem hx)

theorem GetIUTCount_reads (x : EnvironmentRequest) : (GetIUTCount x).Calls IsRead := by
  refine ⟨trivial, fun a => ?_⟩
  cases a <;> trivial

theorem providerPod_runs (marshal : Marshal) :
    PodRuns (ProviderPermits n) (providerPod marshal n) (fun _ _ => True) l := by
  apply runContainers_runs
  intro container hmem l
  simp only [List.mem_cons, List.not_mem_nil, or_false] at hmem
  rcases hmem with rfl | rfl | rfl | rfl
  · exact runProvision_runs (fun _ => trivial) fun _ _ => iutProvision_runs
  · exact runProvision_runs GetIUTCount_reads fun _ _ => logAreaProvision_runs
  · exact runProvision_runs GetIUTCount_reads fun _ _ => executionSpaceProvision_runs
  · exact runProvision_runs (fun _ => trivial) fun _ _ => environmentProvision_runs

end Providers

/-! ## The releasers -/

theorem runReleaser_runs {ok : Log → Op → Prop} {n name : String} {release : M (Option Err)} {l : Log}
    (hread : ∀ l o, IsRead o → ok l o) (hrelease : ∀ l, PodRuns ok release (fun _ _ => True) l) :
    PodRuns ok (runReleaser n name release) (fun _ _ => True) l := by
  apply runProvider_runs hread
  intro x l' _
  split
  · trivial
  · exact hrelease l'

theorem runRelease_runs {ok : Log → Op → Prop} {n : String} {r : ResourceKind} {name : String} {noDelete : Bool}
    {l : Log} (hread : ∀ l o, IsRead o → ok l o)
    (hdelete : noDelete = false → ∀ l y, Got l (.resource r) name y → ok l (.delete (.resource r) y.name)) :
    PodRuns ok (runRelease n r name noDelete) (fun _ _ => True) l := by
  apply runReleaser_runs hread
  intro l'
  refine Follows.call (hread _ _ trivial) fun a _ => ?_
  cases a with
  | error e => trivial
  | ok y =>
      cases noDelete with
      | true => trivial
      | false => exact Follows.call (hdelete rfl _ y List.mem_cons_self) fun _ _ => trivial

theorem releasePod_runs {n environment : String} {providers : Providers} {l : Log} :
    PodRuns (ReleasePermits providers) (releasePod n environment providers) (fun _ _ => True) l := by
  have hrelease : ∀ r l,
      PodRuns (ReleasePermits providers) (runRelease n r (providers.of r) false) (fun _ _ => True) l := by
    intro r l
    apply runRelease_runs (fun _ _ => ReleasePermits.read)
    intro _ l' y hy
    exact ⟨r, rfl, y, hy, rfl⟩
  apply runContainers_runs
  intro container hmem l
  simp only [List.mem_cons, List.not_mem_nil, or_false] at hmem
  rcases hmem with rfl | rfl | rfl | rfl
  · exact hrelease .executionSpace l
  · exact hrelease .logArea l
  · exact hrelease .iut l
  · exact runReleaser_runs (fun _ _ => ReleasePermits.read) fun _ => trivial

theorem resourceReleasePod_runs {n : String} {r : ResourceKind} {name : String} {l : Log} :
    PodRuns (fun _ => IsRead) (resourceReleasePod n r name) (fun _ _ => True) l := by
  apply runContainers_runs
  intro container hmem l
  obtain rfl := List.mem_singleton.mp hmem
  exact runRelease_runs (fun _ _ h => h) nofun

/-- **Every call of a pod is permitted** by what the pod has heard. -/
theorem JobPod.runs (marshal : Marshal) (pod : JobPod) (l : Log) :
    PodRuns pod.Permits (pod.program marshal) (fun _ _ => True) l := by
  cases pod with
  | provider n => exact providerPod_runs marshal
  | release n environment providers => exact releasePod_runs
  | resourceRelease n r name => exact resourceReleasePod_runs

/-! ## Writes -/

/-- The pod of the job of a request runs while the job does, and is told stored versions of the request. -/
structure JobPod.Informed (pod : JobPod) (s : Namespace) (l : Log) : Prop where
  running : ∀ n, pod = .provider n → Providing n s
  reads : ∀ n x, Got l .environmentRequest n x → x ∈ s.past .environmentRequest ∧ x.name = n

/-- What the pod may delete. -/
def JobPod.MayDelete (l : Log) (name : String) : JobPod → ResourceKind → Prop
  | .provider _, r => r = .executionSpace ∧ MadeSpace l name
  | .release _ _ providers, r => ∃ y, Got l (.resource r) (providers.of r) y ∧ y.name = name
  | .resourceRelease _ _ _, _ => False

/-- The name of what is created was not used before, if it has a name already. -/
def Unused (s : Namespace) (o : Op) : Prop :=
  ∀ (k : Kind) (y : Obj k), o = .create k y → y.name = "" ∨ y.name ∉ s.names k

theorem ProviderPermits.allowed {n : String} {l : Log} {s : Namespace} {o : Op} (h : ProviderPermits n l o)
    (hwrites : ¬ IsRead o) (hrunning : Providing n s)
    (hreads : ∀ x, Got l .environmentRequest n x → x ∈ s.past .environmentRequest ∧ x.name = n)
    (hunused : Unused s o) : others s o ∧ provides s o := by
  have hother : ∀ (k : Kind) (y : Obj k), o = .create k y → Unclaimed k y → others s (.create k y) := by
    intro k y ho hy
    exact ⟨hunused k y ho, hy.finalizers, hy.controller, hy.environment, hy.status⟩
  cases o with
  | get | list | ext => exact absurd trivial hwrites
  | update | updateStatus => exact h.elim
  | delete k name => exact ⟨trivial, trivial⟩
  | create k y =>
      cases k with
      | resource r =>
          obtain ⟨hy, x, hx, hrequest⟩ := h
          refine ⟨hother (.resource r) y rfl hy, ?_⟩
          show Providing (r.common y.spec).environmentRequest s
          rw [hrequest, (hreads x hx).2]
          exact hrunning
      | environment =>
          obtain ⟨hy, x, hx, hlabels⟩ := h
          obtain ⟨hpast, hname⟩ := hreads x hx
          exact ⟨hother .environment y rfl hy, .inr ⟨x, hpast, hname ▸ hrunning, hlabels⟩⟩
      | job => exact ⟨hother .job y rfl h, trivial⟩
      | testRun | environmentRequest | provider | cluster | pod => exact h.elim

/-- The releasers only delete. -/
theorem ReleasePermits.allowed {providers : Providers} {l : Log} {s : Namespace} {o : Op}
    (h : ReleasePermits providers l o) (hwrites : ¬ IsRead o) : others s o ∧ provides s o := by
  cases o with
  | get | list | ext => exact absurd trivial hwrites
  | create | update | updateStatus => exact h.elim
  | delete k name => exact ⟨trivial, trivial⟩

theorem JobPod.Permits.allowed {pod : JobPod} {l : Log} {s : Namespace} {o : Op} (h : pod.Permits l o)
    (hwrites : ¬ IsRead o) (hinformed : pod.Informed s l) (hunused : Unused s o) : others s o ∧ provides s o := by
  cases pod with
  | provider n =>
      exact ProviderPermits.allowed h hwrites (hinformed.running n rfl) (fun x hx => hinformed.reads n x hx) hunused
  | release n environment providers => exact ReleasePermits.allowed h hwrites
  | resourceRelease n r name => exact absurd h hwrites

theorem JobPod.Permits.mayDelete {pod : JobPod} {l : Log} {k : Kind} {name : String}
    (h : pod.Permits l (.delete k name)) : ∃ r, k = .resource r ∧ pod.MayDelete l name r := by
  cases pod with
  | provider n => exact ⟨.executionSpace, h.1, rfl, h.2⟩
  | release n environment providers => exact h
  | resourceRelease n r name => exact h.elim

/-- A write is not a read. -/
theorem not_isRead_of_write {adm : Admission Kind Spec Status} {s s' : Namespace} {o : Op} {a : Ans o}
    (h : Store.Write adm s o a s') : ¬ IsRead o := by
  cases h <;> exact id

/-- **Every write of a pod is one that everybody else may make**, wherever the pod has got to: a step of the world in
    the runs of the operator among provider jobs. What the pod deletes it has created itself or was started to
    release. -/
theorem pod_write_allowed (op : Operator) (marshal : Marshal) (pod : JobPod) {w : OperatorState} {log : Log} {o : Op}
    {k : Ans o → M Unit} (hafter : (pod.program marshal).After log (.call o k)) (hinformed : pod.Informed w.store log)
    (hunused : Unused w.store o) {a : Ans o} {s : Namespace} (hwrite : Store.Write issued w.store o a s) :
    op.provisioned.env w { w with store := s } ∧
      ∀ kind name, o = .delete kind name → ∃ r, kind = .resource r ∧ pod.MayDelete log name r := by
  have hpermits : pod.Permits log.reverse o := by
    have h := (pod.runs marshal []).after hafter a
    rwa [List.append_nil] at h
  have hmem : ∀ e, e ∈ log.reverse ↔ e ∈ log := fun _ => List.mem_reverse
  constructor
  · have hinformed' : pod.Informed w.store log.reverse :=
      ⟨hinformed.running, fun n x hx => hinformed.reads n x ((hmem _).mp hx)⟩
    exact ⟨o, a, s, hpermits.allowed (not_isRead_of_write hwrite) hinformed' hunused, hwrite, rfl⟩
  · rintro kind name rfl
    obtain ⟨r, rfl, h⟩ := hpermits.mayDelete
    refine ⟨r, rfl, ?_⟩
    cases pod with
    | provider n =>
        obtain ⟨hr, y, y', hmade, hname⟩ := h
        exact ⟨hr, y, y', (hmem _).mp hmade, hname⟩
    | release n environment providers =>
        obtain ⟨y, hgot, hname⟩ := h
        exact ⟨y, (hmem _).mp hgot, hname⟩
    | resourceRelease n r name => exact h.elim

/-- A request for one Environment, with its provider job. -/
def oneRequested : List Turn :=
  let request := plainRequest "request"
  providersCreated ++
    [other (.create .environmentRequest
      { request with spec := { request.spec with minimumAmount := 1, maximumAmount := 1 } }),
    round (.environmentRequest "request"), round (.environmentRequest "request"),
    round (.environmentRequest "request")]

/-- The request as the pod of its provider job reads it. -/
def requestedOne : EnvironmentRequest :=
  ((provisionedPlayed oneRequested).store.find .environmentRequest "request").getD (plainRequest "")

/-- The Iut that the pod creates. -/
def requestedIut : Iut :=
  newResource .iut requestedOne "iut-provider"
    { id := "iut-id"
      providerID := requestedOne.spec.providers.iut
      identity := requestedOne.spec.identity
      environmentRequest := requestedOne.name }

/-- What the pod has been told when it creates the Iut. -/
def requestedLog : Log :=
  [⟨.get .environmentRequest "request", .ok requestedOne⟩,
    ⟨.ext (.getPublisher requestedOne.spec.config.etosMessageBus), .ok ()⟩, ⟨.ext .newUUID, "iut-id"⟩]

theorem requestedIut_next (marshal : Marshal) : ∃ k, ((JobPod.provider "request").program marshal).After requestedLog
    (.call (.create (.resource .iut) requestedIut) k) := by
  have hpassword : requestedOne.spec.config.etosMessageBus.password = some { value := "password" } := by decide +kernel
  have hmin : requestedOne.spec.minimumAmount = 1 := by decide +kernel
  have hmax : requestedOne.spec.maximumAmount = 1 := by decide +kernel
  have hrun : ((JobPod.provider "request").program marshal).After
      (requestedLog ++ [⟨.create (.resource .iut) requestedIut, .error (.new "denied")⟩]) (.ret ()) := by
    refine ⟨_, rfl, ?_⟩
    show Prog.After (Prog.bind (Prog.bind (getPublisher _) _) _) _ _
    unfold getPublisher
    rw [hpassword]
    refine ⟨_, rfl, ?_⟩
    simp only [Prog.bind, requestedAmount, hmin, hmax]
    exact ⟨_, rfl, _, rfl, rfl⟩
  exact hrun.call

/-- The pod of the provider job creates an Iut for the request. -/
theorem pod_creates_iut : ∃ (a : Ans (.create (.resource .iut) requestedIut)) (s : Namespace),
    Store.Write issued (provisionedPlayed oneRequested).store _ a s ∧
      plainOperator.provisioned.env (provisionedPlayed oneRequested)
        { provisionedPlayed oneRequested with store := s } := by
  obtain ⟨k, hafter⟩ := requestedIut_next ⟨fun _ => .ok "{}", fun _ => .ok "{}", fun _ => .ok "{}"⟩
  have hname : requestedOne.name = "request" := by decide +kernel
  have hpast : requestedOne ∈ (provisionedPlayed oneRequested).store.past .environmentRequest := by decide +kernel
  have hnew : (provisionedPlayed oneRequested).store.find (.resource .iut) "suite-8" = none := by decide +kernel
  obtain ⟨y, s, hcreated⟩ : ∃ y s, (provisionedPlayed oneRequested).store.created (.resource .iut)
      (defaulted .iut requestedOne requestedIut) "suite-8" 0 = some (y, s) := by
    unfold Store.created
    rw [hnew]
    exact ⟨_, _, rfl⟩
  have hwrite : Store.Write issued (provisionedPlayed oneRequested).store _
      (show Ans (.create (.resource .iut) requestedIut) from .ok y) s := by
    refine .create ⟨⟨requestedOne, ⟨hpast, rfl⟩, rfl⟩, trivial⟩ ?_ hcreated
    exact .inr ⟨rfl, ⟨"8", by decide +kernel⟩, by decide +kernel⟩
  have hinformed : (JobPod.provider "request").Informed (provisionedPlayed oneRequested).store requestedLog := by
    constructor
    · rintro n ⟨⟩
      decide +kernel
    · intro n x hx
      simp only [Got, requestedLog, List.mem_cons, List.not_mem_nil, or_false] at hx
      rcases hx with hx | hx | hx <;> cases hx
      exact ⟨hpast, hname⟩
  have hunused : Unused (provisionedPlayed oneRequested).store (.create (.resource .iut) requestedIut) := by
    rintro k y ⟨⟩
    exact .inl rfl
  exact ⟨_, s, hwrite, (pod_write_allowed plainOperator _ _ hafter hinformed hunused hwrite).1⟩

end Etos
