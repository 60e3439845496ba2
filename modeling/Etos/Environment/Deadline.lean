import Etos.Controller.Environment
import Etos.TestRun.Deadline
import Etos.Webhook.Defaulter

/-!
# `Environment.Deadline` — when an Environment past its deadline is deleted

The deadline check of an Environment comes after `reconcile`, and takes two rounds: the first writes the reason
DeadlineExceeded, the second issues the Delete. A *pending* Environment gets stuck before it as long as one of the
resources it names is missing, or the Provider of one is missing or unavailable; otherwise two `Reconcile`s are
enough (`unblocked_deleted`). Together with the TestRuns this is **`deadlines_enforced`**.
-/

namespace Etos

open Kube

namespace EnvironmentReconciler

/-- Reconcile a number of times. -/
def reconciles (r : EnvironmentReconciler) (name : String) : Nat → M Unit
  | 0 => return ()
  | n + 1 => do
      let _ ← r.Reconcile name
      r.reconciles name n

/-- Every path of `n` `Reconcile`s after the deadline, in a quiet namespace, issues the Delete. -/
def Deletes (s : Namespace) (r : EnvironmentReconciler) (n : Nat) (x : Environment) : Prop :=
  (r.reconciles x.name n).Reaches
    (Quiet Kind.environment (admission .current) (after x.spec.deadline) s x.name)
    (fun _ o => o = .delete .environment x.name) (fun _ _ => False) x

/-- The Environment waits for its resources: it is pending, and its finalizer is set. -/
def Waiting (x : Environment) : Prop :=
  isStatusReason x.status.conditions .active .pending = true ∧
    x.metadata.containsFinalizer releaseFinalizer = true

/-- The resource exists, and so does its Provider, which is available. -/
def Provided (s : Namespace) (r : ResourceKind) (n : String) : Prop :=
  ∃ resource, s.find (.resource r) n = some resource ∧
    ∃ p, s.find .provider (r.common resource.spec).providerID = some p ∧ Provider.available p = true

/-- **Nothing keeps a Reconcile from its deadline check.** -/
structure Unblocked (s : Namespace) (x : Environment) : Prop where
  /-- An Environment that waits for resources finds them. -/
  resources : Waiting x → ∃ providers, x.spec.providers = some providers ∧
    ∀ r, Provided s r (named providers r)
  /-- Release jobs are created under deletion only. -/
  jobs : s.list .job (.controlledBy apiGroupVersionString environmentKind x.name) = []

/-! ## The Environment in memory -/

/-- The Environment in memory is the stored one, up to its status; it is live and open. -/
structure InStep (name : String) (spec : EnvironmentSpec) (env x : Environment) : Prop where
  metadata : env.metadata = x.metadata
  name : x.name = name
  memory : env.spec = spec
  stored : x.spec = spec
  live : x.deleting = false
  opened : env.status.completionTime = none

/-- The deadline has been recorded in the status. -/
def Expired (r : EnvironmentReconciler) (spec : EnvironmentSpec) (x : Environment) : Prop :=
  ∃ c, findStatusCondition x.status.conditions .active = some c ∧ c.status = .false ∧
    c.reason = .timedOut ∧ c.message = r.deadlineMessage spec.deadline

variable {s : Namespace} {r : EnvironmentReconciler} {name : String} {spec : EnvironmentSpec}
  {env x : Environment} {α : Type}

theorem InStep.set {c : Condition} (h : InStep name spec env x) (now : Int) :
    InStep name spec (conditionSet now env c) x :=
  ⟨h.metadata, h.name, h.memory, h.stored, h.live, h.opened⟩

theorem InStep.written (h : InStep name spec env x) :
    InStep name spec (nextStatus x env) (nextStatus x env) :=
  ⟨rfl, h.name, h.stored, h.stored, h.live, h.opened⟩

theorem InStep.deleting (h : InStep name spec env x) : env.deleting = false := by
  rw [Object.deleting, h.metadata]
  exact h.live

theorem InStep.name_eq (h : InStep name spec env x) : env.name = name := by
  rw [Object.name, h.metadata]
  exact h.name

/-- Along every path the Delete is issued, or the program returns in `Q`. -/
abbrev Runs (s : Namespace) (name : String) (spec : EnvironmentSpec) (p : M α)
    (Q : α → Environment → Prop) (x : Environment) : Prop :=
  p.Reaches (Quiet Kind.environment (admission .current) (after spec.deadline) s name)
    (fun _ o => o = .delete .environment name) Q x

theorem runs_other {o : Op} {k : Ans o → M α} {Q : α → Environment → Prop}
    (hf : ¬ o.onFocus .environment name)
    (h : ∀ a, s.answers (admission .current) (after spec.deadline) o a → Runs s name spec (k a) Q x) :
    Runs s name spec (.call o k) Q x := quiet_other hf h

theorem runs_setCondition {c : Condition} {f : Environment × Bool → M α} {Q : α → Environment → Prop}
    (h : ∀ now, Runs s name spec (f (conditionSet now env c, conditionChanged now env c)) Q x) :
    Runs s name spec (setCondition env c >>= f) Q x :=
  runs_other (by simp [Op.onFocus]) fun _ _ => h _

theorem runs_statusUpdate {f : Environment × Option Err → M α} {Q : α → Environment → Prop}
    (h : InStep name spec env x)
    (hf : Runs s name spec (f (nextStatus x env, none)) Q (nextStatus x env)) :
    Runs s name spec (M.statusUpdate .environment env >>= f) Q x := by
  refine quiet_status h.name_eq ?_ hf
  rw [h.metadata]

/-! ## `reconcileEnvironment` -/

/-- An admitted resource keeps its specification. -/
theorem admission_spec {k : Knowledge} {rk : ResourceKind} {o o' : Resource rk}
    (h : admission k s (.resource rk) o o') : o'.spec = o.spec := by
  obtain ⟨request, _, rfl⟩ := h
  rfl

theorem takeResource_runs {rk : ResourceKind} {n : String} {resource : Resource rk}
    (hr : s.find (.resource rk) n = some resource) :
    Runs s name spec (takeResource env rk n)
      (fun a x' => x' = x ∧ ∃ taken : Resource rk, a = .ok taken ∧ taken.spec = resource.spec) x := by
  refine runs_other (by simp [Op.onFocus]) fun a ha => ?_
  cases a with
  | error e =>
      have hnone : s.find (.resource rk) n = none := ha.1
      rw [hr] at hnone
      cases hnone
  | ok resource' =>
      have hsome : s.find (.resource rk) n = some resource' := ha
      obtain rfl := Option.some.inj (hr.symm.trans hsome)
      show Runs s name spec (takeOwnership env rk resource >>= _) _ x
      unfold takeOwnership
      split
      · exact ⟨rfl, resource, rfl, rfl⟩
      · refine runs_other (by simp [Op.onFocus]) fun a ha => ?_
        cases a with
        | error e => exact ha.elim
        | ok taken =>
            obtain ⟨o', s', hadm, hup⟩ := ha
            refine ⟨rfl, taken, rfl, ?_⟩
            obtain ⟨_, _, _, _, rfl, _⟩ := Store.updated_eq hup
            have hspec := admission_spec hadm
            exact hspec

/-- A waiting Environment that finds its resources becomes active. -/
theorem reconcileEnvironment_runs {providers : Providers} (h : InStep name spec env x)
    (hp : env.spec.providers = some providers) (hres : ∀ rk, Provided s rk (named providers rk)) :
    Runs s name spec (reconcileEnvironment env)
      (fun out x' => out.2 = none ∧ InStep name spec out.1 x') x := by
  unfold reconcileEnvironment withProviders
  rw [hp]
  obtain ⟨iut, hiut, piut⟩ := hres .iut
  obtain ⟨logArea, hlog, plog⟩ := hres .logArea
  obtain ⟨executionSpace, hexec, pexec⟩ := hres .executionSpace
  refine (takeResource_runs hiut).bind ?_
  rintro _ x' ⟨rfl, iut', rfl, hiut'⟩
  refine (takeResource_runs hlog).bind ?_
  rintro _ x' ⟨rfl, logArea', rfl, hlog'⟩
  refine (takeResource_runs hexec).bind ?_
  rintro _ x' ⟨rfl, executionSpace', rfl, hexec'⟩
  refine (checkProviders_reaches (by decide) ?_).bind ?_
  · intro n hn
    simp only [List.mem_cons, List.not_mem_nil, or_false] at hn
    rcases hn with rfl | rfl | rfl
    · rw [hiut']
      exact piut
    · rw [hexec']
      exact pexec
    · rw [hlog']
      exact plog
  · rintro _ x' ⟨rfl, rfl⟩
    refine runs_setCondition fun now => ?_
    dsimp only
    split
    · exact runs_statusUpdate (h.set now) ⟨rfl, (h.set now).written⟩
    · exact ⟨rfl, h.set now⟩

/-! ## `Reconcile` -/

/-- Without jobs there is nothing to release. -/
theorem reconcileReleaser_runs (h : InStep name spec env x)
    (hjobs : s.list .job (.controlledBy apiGroupVersionString environmentKind name) = []) :
    Runs s name spec (reconcileReleaser env) (fun out x' => x' = x ∧ out = (env, none)) x := by
  refine (status_reaches (jobManager env)).bind ?_
  rintro ⟨manager, jobStatus⟩ x' ⟨rfl, _, hsummary⟩
  have hnone : jobStatus = .ok .none := by
    rw [show jobStatus = _ from hsummary]
    simp only [jobManager, h.name_eq, hjobs]
    rfl
  subst hnone
  simp only [h.deleting]
  exact ⟨rfl, rfl⟩

/-- The deadline check writes the timed out condition if that is news, and issues the Delete otherwise. -/
theorem checkDeadline_runs {Q : ReconcileResult × Option Err → Environment → Prop}
    (h : InStep name spec env x) (hd : spec.deadline ≠ 0)
    (hnew : ∀ t out, conditionChanged t env (inactive .timedOut (r.deadlineMessage spec.deadline)) = true →
      Q out (nextStatus x (conditionSet t env (inactive .timedOut (r.deadlineMessage spec.deadline))))) :
    Runs s name spec (r.checkDeadline env) Q x := by
  have hguard : env.spec.deadline ≠ 0 ∧ (!env.deleting) = true := by
    rw [h.memory, h.deleting]
    exact ⟨hd, rfl⟩
  unfold checkDeadline
  rw [if_pos hguard, h.memory]
  refine runs_other (by simp [Op.onFocus]) fun now hnow => ?_
  have hnow : now > unixTime spec.deadline := hnow
  show Runs s name spec (if now > unixTime spec.deadline then _ else _) _ x
  rw [if_pos hnow]
  refine runs_setCondition fun t => ?_
  dsimp only
  split
  · rename_i hch
    exact runs_statusUpdate (h.set t) (hnew t _ hch)
  · exact .inl (congrArg (Kube.Op.delete Kind.environment) h.name_eq)

/-- After the deadline check the deadline is on record. -/
theorem checkDeadline_expires (h : InStep name spec env x) (hd : spec.deadline ≠ 0) :
    Runs s name spec (r.checkDeadline env) (fun _ x' => InStep name spec x' x' ∧ Expired r spec x') x := by
  refine checkDeadline_runs h hd fun t out _ => ⟨(h.set t).written, ?_⟩
  exact find_set_self t (inactive .timedOut (r.deadlineMessage spec.deadline)) env.status.conditions

/-- With the deadline on record the deadline check issues the Delete. -/
theorem checkDeadline_deletes {Q : ReconcileResult × Option Err → Environment → Prop}
    (h : InStep name spec env x) (hd : spec.deadline ≠ 0) (he : Expired r spec env) :
    Runs s name spec (r.checkDeadline env) Q x := by
  refine checkDeadline_runs h hd fun t out hch => ?_
  obtain ⟨c, hc, hs, hr, hm⟩ := he
  have hsame : conditionChanged t env (inactive .timedOut (r.deadlineMessage spec.deadline)) = false :=
    set_same hc hs hr hm
  rw [hsame] at hch
  cases hch

/-- `reconcile` gets through, and does not touch the conditions of an Environment that does not wait. -/
theorem reconcile_runs (h : InStep name spec x x) (hu : Unblocked s x) :
    Runs s name spec (reconcile x) (fun out x' => out.2 = none ∧ InStep name spec out.1 x' ∧
      (findStatusCondition x.status.conditions .active ≠ none → ¬ Waiting x →
        out.1.status = x.status)) x := by
  unfold reconcile
  split
  · rename_i hnone
    refine runs_setCondition fun now => ?_
    refine runs_statusUpdate (h.set now) ⟨rfl, (h.set now).written, fun hsome _ => absurd hnone hsome⟩
  split
  · have hname : (x.metadata.addFinalizer releaseFinalizer).name = name := by simpa using h.name
    refine quiet_update hname (by simp) ⟨rfl, ⟨rfl, hname, h.memory, h.memory, ?_, h.opened⟩, fun _ _ => rfl⟩
    simpa [M.written, nextMeta, Object.deleting] using h.live
  rename_i hfin
  have hfin : x.metadata.containsFinalizer releaseFinalizer = true := by simpa [h.live] using hfin
  split
  · rename_i hpending
    obtain ⟨providers, hp, hres⟩ := hu.resources ⟨hpending, hfin⟩
    refine (reconcileEnvironment_runs h hp hres).post fun out x' hout => ?_
    exact ⟨hout.1, hout.2, fun _ hw => absurd ⟨hpending, hfin⟩ hw⟩
  · refine (reconcileReleaser_runs h (h.name ▸ hu.jobs)).post ?_
    rintro _ x' ⟨rfl, rfl⟩
    exact ⟨rfl, h, fun _ _ => rfl⟩

/-- One `Reconcile`: the deadline is put on record, or the Delete issued. -/
theorem Reconcile_expires (h : InStep name spec x x) (hd : spec.deadline ≠ 0) (hu : Unblocked s x) :
    Runs s name spec (r.Reconcile name)
      (fun _ x' => InStep name spec x' x' ∧ Expired r spec x') x := by
  refine quiet_get ?_
  simp only [h.opened, Prog.bind]
  refine (reconcile_runs h hu).bind ?_
  rintro ⟨env, err⟩ x' ⟨rfl, hin, _⟩
  exact checkDeadline_expires hin hd

/-- Another `Reconcile`: the Delete is issued. -/
theorem Reconcile_deletes {Q : ReconcileResult × Option Err → Environment → Prop} (h : InStep name spec x x)
    (hd : spec.deadline ≠ 0) (he : Expired r spec x)
    (hjobs : s.list .job (.controlledBy apiGroupVersionString environmentKind name) = []) :
    Runs s name spec (r.Reconcile name) Q x := by
  obtain ⟨c, hc, hs, hr, hm⟩ := he
  have hwait : ¬ Waiting x := by
    rintro ⟨hpending, _⟩
    rw [isStatusReason, hc] at hpending
    simp [hr] at hpending
  have hu : Unblocked s x := ⟨fun hw => absurd hw hwait, h.name.symm ▸ hjobs⟩
  refine quiet_get ?_
  simp only [h.opened, Prog.bind]
  refine (reconcile_runs h hu).bind ?_
  rintro ⟨env, err⟩ x' ⟨rfl, hin, hst⟩
  refine checkDeadline_deletes hin hd ⟨c, ?_, hs, hr, hm⟩
  rw [show env.status = x.status from hst (by simp [hc]) hwait]
  exact hc

/-- **An unblocked Environment is deleted**: with a deadline, neither deleted nor completed, two `Reconcile`s
    after the deadline issue its Delete on every path. -/
theorem unblocked_deleted (r : EnvironmentReconciler) (hd : x.spec.deadline ≠ 0) (hlive : x.deleting = false)
    (hopen : x.status.completionTime = none) (hu : Unblocked s x) : Deletes s r 2 x := by
  have h : InStep x.name x.spec x x := ⟨rfl, rfl, rfl, rfl, hlive, hopen⟩
  refine (Reconcile_expires h hd hu).bind ?_
  rintro _ x' ⟨hin, he⟩
  exact (Reconcile_deletes hin hd he hu.jobs).bind fun _ _ hfalse => hfalse

end EnvironmentReconciler

/-! ## Deadlines -/

/-- The content of a namespace: the cluster, and these providers. -/
def clusterNamespace (providers : List String) : Namespace :=
  providers.foldl (fun s n => s.put .provider (availableProvider n))
    (Store.empty.put .cluster (someCluster "cluster"))

/-- An Environment that waits for its resources. -/
def waitingEnvironment : Environment :=
  { metadata := { name := "environment", finalizers := [releaseFinalizer] }
    spec := { providers := some { iut := "iut", logArea := "log-area", executionSpace := "execution-space" },
              deadline := 100 }
    status := { conditions := [inactive .pending "Waiting for environment to become ready"] } }

/-- The three resources it waits for. -/
def resourceNamespace : Namespace :=
  (((clusterNamespace ["iut", "log-area", "execution-space"]).put (.resource .iut)
      { metadata := { name := "iut" }, spec := { providerID := "iut" }, status := {} }).put
      (.resource .logArea)
      { metadata := { name := "log-area" }, spec := { providerID := "log-area" }, status := {} }).put
      (.resource .executionSpace)
      { metadata := { name := "execution-space" }, spec := { providerID := "execution-space" }, status := {} }

/-- A provider is missing: `Reconcile` returns before it looks at the deadline. -/
theorem testrun_missed :
    ¬ TimesOut (admission .current) (clusterNamespace []) plainReconciler (someTestRun 100) := by
  intro h
  let e : Err := ⟨some .notFound, "provider not found"⟩
  have hget := h.resolve_left (by rintro ⟨_, h, _⟩; cases h) (.ok (someTestRun 100)) _ .get
  have hcluster := hget.resolve_left (by rintro ⟨_, h, _⟩; cases h) (.ok _) _
    (.other (by simp [Op.onFocus]) (show (clusterNamespace []).find .cluster "cluster" = some _ from rfl))
  have hpublisher := hcluster.resolve_left (by rintro ⟨_, h, _⟩; cases h) (.ok ()) _
    (.other (by simp [Op.onFocus]) rfl)
  have hprovider := hpublisher.resolve_left (by rintro ⟨_, h, _⟩; cases h) (.error e) _
    (.other (by simp [Op.onFocus]) ⟨rfl, rfl⟩)
  have hclock := hprovider.resolve_left (by rintro ⟨_, h, _⟩; cases h) (101000000000 : Int) _
    (.other (by simp [Op.onFocus]) (by decide : (101000000000 : Int) > unixTime 100))
  exact hclock.resolve_left (by rintro ⟨y, hy, _, _, hc⟩; cases hy; exact hc rfl) (.ok _) _ (.status rfl rfl)

/-- The Iut is missing: however often a waiting Environment is reconciled, it is not deleted. -/
theorem environment_missed (n : Nat) : ¬ EnvironmentReconciler.Deletes
    (clusterNamespace ["iut", "log-area", "execution-space"]) ⟨fun n => toString n⟩ n waitingEnvironment := by
  induction n with
  | zero => exact fun h => h
  | succ n ih =>
      intro h
      have hget := h.resolve_left (by intro h; cases h) (.ok waitingEnvironment) _ .get
      exact ih (hget.resolve_left (by intro h; cases h) (.error ⟨some .notFound, "iut not found"⟩) _
        (.other (by simp [Op.onFocus]) ⟨rfl, rfl⟩))

end Etos
