import Etos.Operator.System

/-!
# `Operator.Reads` — the parts of the reconcilers that only read

Most of a `Reconcile` looks at things: providers, clusters, secrets, jobs and their pods. Such calls leave every object
alone and are permitted to every worker, so all that has to be known about these parts is that the log has grown by
reads (`obeys_reads`). What is found out on the way is said for `JobManager.status`, on which every decision about jobs
rests.
-/

namespace Etos

open Kube

/-- A call that leaves every object alone. -/
def IsRead : Op → Prop
  | .get _ _ => True
  | .list _ _ => True
  | .ext _ => True
  | .create _ _ => False
  | .update _ _ => False
  | .updateStatus _ _ => False
  | .delete _ _ => False

theorem IsRead.not_createsJob {o : Op} (h : IsRead o) : ¬ CreatesJob o := by
  rintro ⟨job, rfl⟩
  exact h

theorem IsRead.not_writesStatus {k : Kind} {o : Op} (h : IsRead o) : ¬ WritesStatus k o := by
  rintro ⟨x, rfl⟩
  exact h

/-- Any call. -/
abbrev AnyCall : Op → Prop := fun _ => True

variable {allowed : (o : Op) → Ans o → Prop} {ok : Log → Op → Prop} {l : Log}

/-- A program that only reads. -/
theorem obeys_reads {α : Type} {p : M α} (hp : p.Calls IsRead) (hok : ∀ l o, IsRead o → ok l o) :
    Follows allowed ok p (fun _ => Grown IsRead l) l := Follows.grows hp hok

/-- A read that looks at neither requests nor lists of what was provided for them. -/
def IsLook : Op → Prop
  | .get k _ => k ≠ .environmentRequest
  | .list k _ => k = .job ∨ k = .pod
  | .ext _ => True
  | .create _ _ => False
  | .update _ _ => False
  | .updateStatus _ _ => False
  | .delete _ _ => False

theorem IsLook.read {o : Op} (h : IsLook o) : IsRead o := by
  cases o with
  | get | list | ext => trivial
  | create | update | updateStatus | delete => exact h.elim

/-! ## Clocks, providers and secrets -/

theorem metaNow_reads : metaNow.Calls IsRead := ⟨trivial, fun _ => trivial⟩

/-- A call that reads one object. -/
def IsGet (o : Op) : Prop := ∃ k n, o = .get k n

theorem IsGet.read {o : Op} (h : IsGet o) : IsRead o := by
  obtain ⟨k, n, rfl⟩ := h
  trivial

/-- A call that reads a provider. -/
def GetsProvider (o : Op) : Prop := ∃ n, o = .get .provider n

theorem GetsProvider.isGet {o : Op} (h : GetsProvider o) : IsGet o := by
  obtain ⟨n, rfl⟩ := h
  exact ⟨.provider, n, rfl⟩

theorem GetsProvider.isLook {o : Op} (h : GetsProvider o) : IsLook o := by
  obtain ⟨n, rfl⟩ := h
  exact nofun

theorem checkProvider_asks (n : String) : (checkProvider n).Calls GetsProvider := by
  refine ⟨⟨n, rfl⟩, fun a => ?_⟩
  cases a with
  | error e => trivial
  | ok p =>
      show Prog.Calls GetsProvider (if _ then _ else _)
      split <;> trivial

theorem checkProviders_asks (p : Providers) : (checkProviders p).Calls GetsProvider := by
  refine (checkProvider_asks _).bind fun e => ?_
  cases e with
  | some e => trivial
  | none =>
      refine (checkProvider_asks _).bind fun e => ?_
      cases e with
      | some e => trivial
      | none => exact checkProvider_asks _

theorem checkProviders_gets (p : Providers) : (checkProviders p).Calls IsGet :=
  (checkProviders_asks p).mono fun _ => GetsProvider.isGet

theorem checkProviders_looks (p : Providers) : (checkProviders p).Calls IsLook :=
  (checkProviders_asks p).mono fun _ => GetsProvider.isLook

theorem checkProviders_reads (p : Providers) : (checkProviders p).Calls IsRead :=
  (checkProviders_looks p).mono fun _ => IsLook.read

theorem checkCluster_looks (er : EnvironmentRequest) : (checkCluster er).Calls IsLook := by
  unfold checkCluster
  split
  · trivial
  · exact ⟨nofun, fun _ => trivial⟩

theorem checkCluster_reads (er : EnvironmentRequest) : (checkCluster er).Calls IsRead :=
  (checkCluster_looks er).mono fun _ => IsLook.read

/-! ## Jobs and their results -/

theorem resultLoop_looks (managerName : String) (names : List String) (jobs : List Job) (result : Result) :
    (resultLoop managerName names jobs result).Calls IsLook := by
  induction jobs generalizing result with
  | nil => trivial
  | cons job jobs ih =>
      refine ⟨.inr rfl, fun a => ?_⟩
      cases a with
      | error e => trivial
      | ok pods =>
          cases pods with
          | nil => trivial
          | cons pod pods => exact ih _

theorem result_looks (j : JobManager) (containerName : String) (containerNames : List String) :
    (j.result containerName containerNames).Calls IsLook :=
  (resultLoop_looks _ _ _ _).bind fun _ => trivial

theorem result_reads (j : JobManager) (containerName : String) (containerNames : List String) :
    (j.result containerName containerNames).Calls IsRead :=
  (result_looks j containerName containerNames).mono fun _ => IsLook.read

theorem status_looks (j : JobManager) : j.status.Calls IsLook := by
  refine ⟨.inl rfl, fun a => ?_⟩
  cases a with
  | error e => trivial
  | ok jobs => trivial

/-- The jobs an owner controls. -/
def JobManager.selector (j : JobManager) : Selector := .controlledBy j.ownerAPIVersion j.ownerKind j.name

/-- What `Status` tells: the summary of the jobs it has listed. -/
theorem status_obeys (j : JobManager) (hok : ok l (.list .job j.selector)) :
    Follows allowed ok j.status (fun out l' => Grown IsRead l l' ∧
      ∀ status, out.2 = .ok status → ∃ jobs, l' = ⟨.list .job j.selector, .ok jobs⟩ :: l ∧
        out.1 = j.populate jobs ∧ (j.populate jobs).summary = .ok status) l := by
  refine Follows.call hok fun a _ => ?_
  have hgrown : Grown IsRead l (⟨.list .job j.selector, a⟩ :: l) := Grown.refl.cons trivial
  cases a with
  | error e =>
      refine ⟨hgrown, fun status h => ?_⟩
      cases h
  | ok jobs => exact ⟨hgrown, fun status h => ⟨jobs, rfl, rfl, h⟩⟩

/-- `Create`: make the specification, then create the job. -/
theorem create_obeys {jobSpec : M (Except Err Job)} {R : Except Err Job → Log → Prop} {Q : Option Err → Log → Prop}
    (hspec : Follows allowed ok jobSpec R l) (herror : ∀ e l₁ err, R (.error e) l₁ → Q (some err) l₁)
    (hjob : ∀ job l₁, R (.ok job) l₁ → ok l₁ (.create .job job) ∧
      ∀ a, Q (errOf a) (⟨.create .job job, a⟩ :: l₁)) :
    Follows allowed ok (JobManager.create jobSpec) Q l := by
  refine hspec.bind fun out l₁ h => ?_
  cases out with
  | error e => exact herror e l₁ _ h
  | ok job => exact Follows.call (hjob job l₁ h).1 fun a _ => (hjob job l₁ h).2 a

end Etos
