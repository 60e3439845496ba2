import Etos.Environment.TimedOut
import Etos.Provider.Split

/-!
# `Provider.Environments` — the Environments that are created for a request

The environment provider makes an Environment of an Iut, a LogArea and an ExecutionSpace.

- **Its deadline** is the smallest of the three deadlines. Zero means that there is none, but it is a number like any
  other to the minimum: the deadline of a resource is forgotten when another one has none (**`deadline_earliest_iff`**).
- **Their number** is the number of resources there are of each kind. It is compared with the minimum of the request,
  but neither with its maximum nor with the number of its tests, and it may be zero, by which the tests cannot be
  divided (**`provision_bounds_iff`**).
-/

namespace Etos

open Kube Prog Etos.Lists

/-! ## Deadlines -/

/-- The earliest of some deadlines, zero if there is none. -/
def earliest (deadlines : List Int) : Int := ((deadlines.filter (· ≠ 0)).min?).getD 0

/-- No deadline comes before the earliest. -/
theorem earliest_le {deadlines : List Int} {d : Int} (hd : d ∈ deadlines) (hne : d ≠ 0) :
    earliest deadlines ≠ 0 ∧ earliest deadlines ≤ d := by
  have hmem : d ∈ deadlines.filter (· ≠ 0) := List.mem_filter.mpr ⟨hd, decide_eq_true hne⟩
  unfold earliest
  cases hmin : (deadlines.filter (· ≠ 0)).min? with
  | none =>
      rw [List.min?_eq_none_iff.mp hmin] at hmem
      cases hmem
  | some m =>
      obtain ⟨hm, hle⟩ := List.min?_eq_some_iff.mp hmin
      exact ⟨of_decide_eq_true (List.mem_filter.mp hm).2, hle d hmem⟩

/-- The minimum of the deadlines is the earliest. -/
theorem min_eq_earliest_iff (a b c : Int) : min (min a b) c = earliest [a, b, c] ↔
    (∀ d ∈ [a, b, c], d ≠ 0) ∨ (∀ d ∈ [a, b, c], d = 0) ∨ ∃ d ∈ [a, b, c], d < 0 := by
  unfold earliest
  by_cases ha : a = 0 <;> by_cases hb : b = 0 <;> by_cases hc : c = 0 <;>
    simp [ha, hb, hc] <;> omega

/-- The call deletes the Environment, or says that it has timed out. -/
def Ends (x : Environment) (e : Said Op Ans) : Prop :=
  e.op = .delete .environment x.name ∨ ∃ y, e.op = .updateStatus .environment y ∧ TimedOut y

/-- The Environment controller does not keep an Environment past `d`: whenever it checks the deadline, it ends the
    Environment or finds that the clock is not past `d`. -/
def EndedBy (r : EnvironmentReconciler) (environment : Environment) (d : Int) : Prop :=
  ∀ x out log, x.spec = environment.spec → x.deleting = false → (r.checkDeadline x).Returns out log →
    (∃ e ∈ log, Ends x e) ∨ ∃ (now : Int) (rest : _), log = ⟨.ext .timeNow, now⟩ :: rest ∧ now ≤ unixTime d

theorem endedBy_of_le {r : EnvironmentReconciler} {environment : Environment} {d : Int}
    (hne : environment.spec.deadline ≠ 0) (hle : environment.spec.deadline ≤ d) : EndedBy r environment d := by
  intro x out log hspec hlive h
  rw [← hspec] at hne hle
  unfold EnvironmentReconciler.checkDeadline at h
  rw [if_pos ⟨hne, by rw [hlive]; rfl⟩] at h
  obtain ⟨now, rest, rfl, h⟩ := h
  replace h : Prog.Returns (if now > unixTime x.spec.deadline then _ else _) out rest := h
  split at h
  · -- past the deadline: the condition is written, or it has been and the Environment is deleted
    refine .inl ?_
    rw [setCondition_bind] at h
    obtain ⟨t, rest, rfl, h⟩ := h
    dsimp only at h
    split at h
    · obtain ⟨a, rest, rfl, -⟩ := h
      refine ⟨_, .tail _ (.tail _ (.head _)), .inr ⟨_, rfl, ?_⟩⟩
      exact EnvironmentReconciler.timedOut_iff.mpr ⟨_, conditionSet_cond_self ..⟩
    · obtain ⟨a, rest, rfl, -⟩ := h
      exact ⟨_, .tail _ (.tail _ (.head _)), .inl rfl⟩
  · rename_i hpast
    have hle' : unixTime x.spec.deadline ≤ unixTime d := Int.mul_le_mul_of_nonneg_right hle (by decide)
    exact .inr ⟨now, rest, rfl, Int.le_trans (Int.not_lt.mp hpast) hle'⟩

/-- The deadlines of the resources of an Environment. -/
def resourceDeadlines (iut : Iut) (executionSpace : ExecutionSpace) (logArea : LogArea) : List Int :=
  [executionSpace.spec.deadline, logArea.spec.deadline, iut.spec.deadline]

/-- **The deadline of an Environment** is the earliest of its resources, and the Environment controller does not keep it
    past the deadline of any of them, if and only if all resources have a deadline, or none has, or one has a deadline
    before the epoch. -/
theorem deadline_earliest_iff {r : EnvironmentReconciler} {marshal : Marshal} {index : Nat} {tests : List Test}
    {request : EnvironmentRequest} {iut : Iut} {executionSpace : ExecutionSpace} {logArea : LogArea} {out : Option Err}
    {log : List (Said Op Ans)} {e : Environment}
    (h : (CreateEnvironment marshal index tests request iut executionSpace logArea).Returns out log)
    (he : e ∈ createdEnvironments log) :
    (e.spec.deadline = earliest (resourceDeadlines iut executionSpace logArea) ∧
        ∀ d ∈ resourceDeadlines iut executionSpace logArea, d ≠ 0 → EndedBy r e d) ↔
      (∀ d ∈ resourceDeadlines iut executionSpace logArea, d ≠ 0) ∨
        (∀ d ∈ resourceDeadlines iut executionSpace logArea, d = 0) ∨
        ∃ d ∈ resourceDeadlines iut executionSpace logArea, d < 0 := by
  obtain ⟨_, _, _, -, -, -, rfl⟩ := CreateEnvironment_created h he
  unfold resourceDeadlines
  rw [← min_eq_earliest_iff]
  refine ⟨fun ⟨hmin, _⟩ => hmin, fun hmin => ⟨hmin, fun d hd hne => ?_⟩⟩
  obtain ⟨hne', hle⟩ := earliest_le hd hne
  rw [← hmin] at hne' hle
  exact endedBy_of_le hne' hle

/-- Everything can be marshalled. -/
def marshalled : Marshal := ⟨fun _ => .ok "executor", fun _ => .ok "logarea", fun _ => .ok "iut"⟩

/-- Resources with deadlines. -/
def iutUntil (d : Int) : Iut :=
  { plainIut "iut" "request" with spec := { (plainIut "iut" "request").spec with deadline := d } }
def logAreaUntil (d : Int) : LogArea :=
  { plainLogArea "log-area" "request" with spec := { (plainLogArea "log-area" "request").spec with deadline := d } }
def executionSpaceUntil (d : Int) : ExecutionSpace :=
  { plainExecutionSpace "execution-space" "request" with
    spec := { (plainExecutionSpace "execution-space" "request").spec with deadline := d } }

/-- An Environment is created for them. -/
theorem environment_created (iut : Iut) (executionSpace : ExecutionSpace) (logArea : LogArea) :
    ∃ log e, (CreateEnvironment marshalled 0 [] (plainRequest "request") iut executionSpace logArea).Returns none log ∧
      e ∈ createdEnvironments log ∧ e.spec.deadline =
        min (min executionSpace.spec.deadline logArea.spec.deadline) iut.spec.deadline :=
  ⟨[⟨.create .environment (newEnvironment 0 [] (plainRequest "request") iut executionSpace logArea "executor" "logarea"
    "iut"), .ok (plainEnvironment "environment")⟩], _, ⟨_, _, rfl, rfl, rfl⟩, List.mem_cons_self, rfl⟩

/-- All have deadlines. -/
theorem deadline_earliest_all :
    ∃ log e, (CreateEnvironment marshalled 0 [] (plainRequest "request") (iutUntil 100) (executionSpaceUntil 200)
        (logAreaUntil 300)).Returns none log ∧ e ∈ createdEnvironments log ∧
      (e.spec.deadline = earliest [200, 300, 100] ∧ ∀ d ∈ [200, 300, 100], d ≠ 0 → EndedBy ⟨toString⟩ e d) := by
  obtain ⟨log, e, h, he, -⟩ := environment_created (iutUntil 100) (executionSpaceUntil 200) (logAreaUntil 300)
  exact ⟨log, e, h, he, (deadline_earliest_iff h he).mpr (.inl (by decide))⟩

/-- Only the Iut has one, and the Environment has none. -/
theorem deadline_forgotten :
    ∃ log e, (CreateEnvironment marshalled 0 [] (plainRequest "request") (iutUntil 100) (executionSpaceUntil 0)
        (logAreaUntil 0)).Returns none log ∧ e ∈ createdEnvironments log ∧
      e.spec.deadline = 0 ∧
      earliest (resourceDeadlines (iutUntil 100) (executionSpaceUntil 0) (logAreaUntil 0)) = 100 := by
  obtain ⟨log, e, h, he, hdeadline⟩ := environment_created (iutUntil 100) (executionSpaceUntil 0) (logAreaUntil 0)
  exact ⟨log, e, h, he, hdeadline.trans (by decide), by decide⟩

/-! ## Amounts -/

section Amounts

variable {marshal : Marshal} {request : EnvironmentRequest} {iuts : List Iut} {logAreas : List LogArea}
  {executionSpaces : List ExecutionSpace}

/-- The specifications of the resources of an Environment can be marshalled. -/
def Marshals (marshal : Marshal) (iut : Iut) (logArea : LogArea) (executionSpace : ExecutionSpace) : Prop :=
  (∃ json, marshal.executionSpace executionSpace.spec = .ok json) ∧ (∃ json, marshal.logArea logArea.spec = .ok json) ∧
    ∃ json, marshal.iut iut.spec = .ok json

theorem CreateEnvironment_succeeds_iff {index : Nat} {tests : List Test} {iut : Iut} {executionSpace : ExecutionSpace}
    {logArea : LogArea} :
    (∃ log, (CreateEnvironment marshal index tests request iut executionSpace logArea).Returns none log) ↔
      Marshals marshal iut logArea executionSpace := by
  constructor
  · rintro ⟨log, h⟩
    obtain ⟨e, hcreated, -⟩ := CreateEnvironment_returns h
    obtain ⟨_, _, _, hexecutor, hlogArea, hiut, -⟩ :=
      CreateEnvironment_created h (hcreated ▸ List.mem_singleton_self e)
    exact ⟨⟨_, hexecutor⟩, ⟨_, hlogArea⟩, ⟨_, hiut⟩⟩
  · rintro ⟨⟨executorJson, hexecutor⟩, ⟨logAreaJson, hlogArea⟩, ⟨iutJson, hiut⟩⟩
    unfold CreateEnvironment
    rw [hexecutor, hlogArea, hiut]
    exact ⟨_, .ok (newEnvironment index tests request iut executionSpace logArea executorJson logAreaJson iutJson), _,
      rfl, rfl, rfl⟩

/-- How many Environments there are resources for. -/
def maxPossible (iuts : List Iut) (logAreas : List LogArea) (executionSpaces : List ExecutionSpace) : Nat :=
  min (min iuts.length logAreas.length) executionSpaces.length

/-- The resources of all these Environments can be marshalled. -/
def AllMarshal (marshal : Marshal) (iuts : List Iut) (logAreas : List LogArea)
    (executionSpaces : List ExecutionSpace) : Prop :=
  ∀ t ∈ iuts.zip (logAreas.zip executionSpaces), Marshals marshal t.1 t.2.1 t.2.2

theorem allMarshal_of_none (h : maxPossible iuts logAreas executionSpaces = 0) :
    AllMarshal marshal iuts logAreas executionSpaces := by
  have hnone : iuts.zip (logAreas.zip executionSpaces) = [] := by
    unfold maxPossible at h
    rw [← List.length_eq_zero_iff, List.length_zip, List.length_zip]
    omega
  unfold AllMarshal
  rw [hnone]
  exact List.forall_mem_nil _

theorem createEnvironments_succeeds_iff {index : Nat} {split : List (List Test)}
    (hlen : split.length = maxPossible iuts logAreas executionSpaces) :
    (∃ log, (createEnvironments marshal request index split iuts logAreas executionSpaces).Returns none log) ↔
      AllMarshal marshal iuts logAreas executionSpaces := by
  induction split generalizing index iuts logAreas executionSpaces with
  | nil =>
      refine iff_of_true ⟨[], ?_⟩ (allMarshal_of_none hlen.symm)
      unfold createEnvironments
      exact ⟨rfl, rfl⟩
  | cons tests split ih =>
      unfold maxPossible at hlen
      rcases iuts with - | ⟨iut, iuts⟩
      · simp at hlen
      rcases logAreas with - | ⟨logArea, logAreas⟩
      · simp at hlen
      rcases executionSpaces with - | ⟨executionSpace, executionSpaces⟩
      · simp at hlen
      · have hrest : split.length = maxPossible iuts logAreas executionSpaces := by
          unfold maxPossible
          simp only [List.length_cons] at hlen
          omega
        unfold AllMarshal at ih ⊢
        rw [List.zip_cons_cons, List.zip_cons_cons, List.forall_mem_cons]
        constructor
        · rintro ⟨log, h⟩
          obtain ⟨a, l₁, l₂, rfl, ha, hb⟩ := returns_bind.mp h
          cases a with
          | some e => cases hb.1
          | none => exact ⟨CreateEnvironment_succeeds_iff.mp ⟨l₁, ha⟩, (ih hrest).mp ⟨l₂, hb⟩⟩
        · rintro ⟨hfirst, hothers⟩
          obtain ⟨l₁, ha⟩ := CreateEnvironment_succeeds_iff.mpr hfirst
          obtain ⟨l₂, hb⟩ := (ih hrest).mpr hothers
          exact ⟨l₁ ++ l₂, returns_bind.mpr ⟨none, l₁, l₂, rfl, ha, hb⟩⟩

/-- Creating Environments does not panic. -/
theorem CreateEnvironment_guarded (index : Nat) (tests : List Test) (iut : Iut) (executionSpace : ExecutionSpace)
    (logArea : LogArea) : (CreateEnvironment marshal index tests request iut executionSpace logArea).Guarded
      (fun _ _ => True) (fun _ => True) (fun _ => True) fun _ => True := by
  unfold CreateEnvironment
  split
  · trivial
  · trivial
  · trivial
  · exact ⟨trivial, fun _ _ => trivial⟩

theorem createEnvironments_guarded (index : Nat) (split : List (List Test)) (iuts : List Iut) (logAreas : List LogArea)
    (executionSpaces : List ExecutionSpace) :
    (createEnvironments marshal request index split iuts logAreas executionSpaces).Guarded (fun _ _ => True)
      (fun _ => True) (fun _ => True) fun _ => True := by
  induction split generalizing index iuts logAreas executionSpaces with
  | nil =>
      unfold createEnvironments
      trivial
  | cons tests split ih =>
      rcases iuts with - | ⟨iut, iuts⟩
      · unfold createEnvironments
        trivial
      rcases logAreas with - | ⟨logArea, logAreas⟩
      · unfold createEnvironments
        trivial
      rcases executionSpaces with - | ⟨executionSpace, executionSpaces⟩
      · unfold createEnvironments
        trivial
      · refine (CreateEnvironment_guarded index tests iut executionSpace logArea).bind fun a _ => ?_
        cases a with
        | some e => trivial
        | none => exact ih ..

/-- What `Provision` finds. -/
def foundResources (cfg : ProvisionConfig) (iuts : List Iut) (logAreas : List LogArea)
    (executionSpaces : List ExecutionSpace) : List (Said Op Ans) :=
  let sel := Selector.label requestIdLabel cfg.environmentRequest.spec.id
  [⟨.list (.resource .iut) sel, .ok iuts⟩, ⟨.list (.resource .logArea) sel, .ok logAreas⟩,
    ⟨.list (.resource .executionSpace) sel, .ok executionSpaces⟩]

theorem environmentProvision_found (marshal : Marshal) (cfg : ProvisionConfig) (iuts : List Iut)
    (logAreas : List LogArea) (executionSpaces : List ExecutionSpace) :
    (environmentProvision marshal cfg).After (foundResources cfg iuts logAreas executionSpaces)
      (provisionFrom marshal cfg.environmentRequest iuts logAreas executionSpaces) :=
  ⟨_, rfl, _, rfl, _, rfl, after_nil.mpr rfl⟩

/-- The number of the Environments of a request, and of their tests. -/
structure WithinBounds (request : EnvironmentRequest) (created : List Environment) : Prop where
  minimum : min request.spec.minimumAmount request.spec.maximumAmount ≤ created.length
  maximum : created.length ≤ request.spec.maximumAmount
  tests : created.length ≤ request.spec.tests.length → ∀ e ∈ created, e.spec.tests ≠ []
  atMostTests : request.spec.tests ≠ [] → created.length ≤ request.spec.tests.length

/-- `Provision` does not panic, and what it has created when it succeeds is within the bounds. -/
structure RespectsBounds (marshal : Marshal) (cfg : ProvisionConfig) (iuts : List Iut) (logAreas : List LogArea)
    (executionSpaces : List ExecutionSpace) : Prop where
  noPanic : ∀ log message, ¬ (environmentProvision marshal cfg).After
    (foundResources cfg iuts logAreas executionSpaces ++ log) (.panic message)
  bounds : ∀ log, (environmentProvision marshal cfg).Returns none
    (foundResources cfg iuts logAreas executionSpaces ++ log) → WithinBounds cfg.environmentRequest
      (createdEnvironments (foundResources cfg iuts logAreas executionSpaces ++ log))

/-- With enough resources, and Environments for the tests, the Environments are created. -/
theorem provisionFrom_eq (marshal : Marshal)
    (henough : min request.spec.maximumAmount request.spec.minimumAmount ≤ maxPossible iuts logAreas executionSpaces)
    (hpos : request.spec.tests ≠ [] → 0 < maxPossible iuts logAreas executionSpaces) :
    ∃ split, split.length = maxPossible iuts logAreas executionSpaces ∧
      provisionFrom marshal request iuts logAreas executionSpaces =
        createEnvironments marshal request 0 split iuts logAreas executionSpaces := by
  unfold maxPossible at *
  unfold provisionFrom
  dsimp only
  rw [if_neg (Int.not_lt.mpr henough)]
  generalize min (min iuts.length logAreas.length) executionSpaces.length = n at *
  rcases Nat.eq_zero_or_pos n with rfl | hn
  · cases htests : request.spec.tests with
    | nil => exact ⟨[], rfl, rfl⟩
    | cons test tests => exact absurd (hpos (by rw [htests]; exact List.cons_ne_nil _ _)) (Nat.lt_irrefl 0)
  · obtain ⟨s', hadd, hs'⟩ := RoundRobin.addTests_ofSize hn request.spec.tests
    rw [hadd]
    exact ⟨s'.suites, by rw [hs', List.length_map, List.length_range], rfl⟩

theorem provisionFrom_succeeds
    (henough : min request.spec.maximumAmount request.spec.minimumAmount ≤ maxPossible iuts logAreas executionSpaces)
    (hpos : request.spec.tests ≠ [] → 0 < maxPossible iuts logAreas executionSpaces)
    (hall : AllMarshal marshal iuts logAreas executionSpaces) :
    ∃ log, (provisionFrom marshal request iuts logAreas executionSpaces).Returns none log := by
  obtain ⟨split, hlen, heq⟩ := provisionFrom_eq marshal henough hpos
  rw [heq]
  exact (createEnvironments_succeeds_iff hlen).mpr hall

/-- Too few resources are an error. -/
theorem provisionFrom_short (marshal : Marshal)
    (h : maxPossible iuts logAreas executionSpaces < min request.spec.maximumAmount request.spec.minimumAmount) :
    ∃ e, provisionFrom marshal request iuts logAreas executionSpaces = .ret (some e) :=
  ⟨_, if_pos h⟩

/-- There is nothing to divide the tests by. -/
theorem provisionFrom_panics
    (henough : min request.spec.maximumAmount request.spec.minimumAmount ≤ maxPossible iuts logAreas executionSpaces)
    (hzero : maxPossible iuts logAreas executionSpaces = 0) (htests : request.spec.tests ≠ []) :
    provisionFrom marshal request iuts logAreas executionSpaces = .panic "integer divide by zero" := by
  obtain ⟨test, tests, htests⟩ := List.exists_cons_of_ne_nil htests
  unfold maxPossible at hzero henough
  unfold provisionFrom
  dsimp only
  rw [if_neg (Int.not_lt.mpr henough), hzero, htests]
  rfl

/-- What is created. -/
theorem provisionFrom_within {log : List (Said Op Ans)}
    (h : (provisionFrom marshal request iuts logAreas executionSpaces).Returns none log) :
    (createdEnvironments log).length = maxPossible iuts logAreas executionSpaces ∧
      min request.spec.maximumAmount request.spec.minimumAmount ≤ maxPossible iuts logAreas executionSpaces ∧
      (maxPossible iuts logAreas executionSpaces ≤ request.spec.tests.length →
        ∀ e ∈ createdEnvironments log, e.spec.tests ≠ []) := by
  obtain ⟨hdealt, -, henough⟩ := provisionFrom_returns rfl h
  change _ = (List.range (maxPossible iuts logAreas executionSpaces)).map _ at hdealt
  change _ ≤ (maxPossible iuts logAreas executionSpaces : Int) at henough
  have hlen := congrArg List.length hdealt
  rw [List.length_map, List.length_map, List.length_range] at hlen
  refine ⟨hlen, henough, fun hle e he => ?_⟩
  have hmem : e.spec.tests ∈ (createdEnvironments log).map (·.spec.tests) := List.mem_map_of_mem he
  rw [hdealt] at hmem
  obtain ⟨j, hj, heq⟩ := List.mem_map.mp hmem
  have hj := List.mem_range.mp hj
  rw [← heq]
  exact dealt_ne_nil hj (Nat.lt_of_lt_of_le hj hle)

theorem respectsBounds_iff {cfg : ProvisionConfig} : RespectsBounds marshal cfg iuts logAreas executionSpaces ↔
    (∀ log message, ¬ (provisionFrom marshal cfg.environmentRequest iuts logAreas executionSpaces).After log
      (.panic message)) ∧
    ∀ log, (provisionFrom marshal cfg.environmentRequest iuts logAreas executionSpaces).Returns none log →
      WithinBounds cfg.environmentRequest (createdEnvironments log) := by
  have hfound := environmentProvision_found marshal cfg iuts logAreas executionSpaces
  constructor
  · intro h
    refine ⟨fun log message hpanic => ?_, fun log hlog => ?_⟩
    · exact h.noPanic log message (hfound.append_iff.mpr hpanic)
    · exact h.bounds log (hfound.returns_iff.mpr hlog)
  · rintro ⟨hpanic, hbounds⟩
    refine ⟨fun log message h => ?_, fun log h => ?_⟩
    · exact hpanic log message (hfound.append_iff.mp h)
    · exact hbounds log (hfound.returns_iff.mp h)

/-- **Provisioning respects its bounds** if and only if there are too few resources to begin with, or the Environments
    there are resources for are at most as many as the request allows and, if it has tests, at least one and at most as
    many as tests; or if the resources of one of them cannot be marshalled, so that it fails. -/
theorem provision_bounds_iff (marshal : Marshal) (cfg : ProvisionConfig) (iuts : List Iut) (logAreas : List LogArea)
    (executionSpaces : List ExecutionSpace) : RespectsBounds marshal cfg iuts logAreas executionSpaces ↔
      (maxPossible iuts logAreas executionSpaces : Int) <
          min cfg.environmentRequest.spec.maximumAmount cfg.environmentRequest.spec.minimumAmount ∨
        (maxPossible iuts logAreas executionSpaces ≤ cfg.environmentRequest.spec.maximumAmount ∧
          (cfg.environmentRequest.spec.tests ≠ [] → 0 < maxPossible iuts logAreas executionSpaces ∧
            maxPossible iuts logAreas executionSpaces ≤ cfg.environmentRequest.spec.tests.length)) ∨
        ¬ AllMarshal marshal iuts logAreas executionSpaces := by
  rw [respectsBounds_iff]
  generalize cfg.environmentRequest = request
  by_cases hshort : (maxPossible iuts logAreas executionSpaces : Int) <
      min request.spec.maximumAmount request.spec.minimumAmount
  · -- too few resources: an error, whatever the other numbers are
    obtain ⟨e, heq⟩ := provisionFrom_short marshal hshort
    rw [heq]
    refine iff_of_true ⟨fun log message hpanic => ?_, fun log h => nomatch h.1⟩ (.inl hshort)
    cases log with
    | nil => cases hpanic
    | cons => exact hpanic
  have henough := Int.not_lt.mp hshort
  by_cases hpos : request.spec.tests ≠ [] → 0 < maxPossible iuts logAreas executionSpaces
  · obtain ⟨split, hlen, heq⟩ := provisionFrom_eq marshal henough hpos
    constructor
    · -- if all can be marshalled there is a run that succeeds
      rintro ⟨-, hbounds⟩
      refine .inr (Classical.or_iff_not_imp_right.mpr fun hall => ?_)
      obtain ⟨log, hlog⟩ := provisionFrom_succeeds henough hpos (Classical.not_not.mp hall)
      have hwithin := hbounds log hlog
      obtain ⟨hlength, -, -⟩ := provisionFrom_within hlog
      rw [← hlength]
      exact ⟨hwithin.maximum, fun hne => ⟨hlength ▸ hpos hne, hwithin.atMostTests hne⟩⟩
    · intro hcond
      refine ⟨fun log message => ?_, fun log hlog => ?_⟩
      · rw [heq]
        exact (createEnvironments_guarded ..).not_after_panic log message
      obtain ⟨hlength, -, htests⟩ := provisionFrom_within hlog
      rw [← hlength] at hcond henough htests
      rcases hcond with h | ⟨hmax, hle⟩ | hfails
      · exact absurd henough (Int.not_le.mpr h)
      · exact ⟨by rw [min_comm]; exact henough, hmax, htests, fun hne => (hle hne).2⟩
      · rw [heq] at hlog
        exact absurd ((createEnvironments_succeeds_iff hlen).mp ⟨log, hlog⟩) hfails
  · -- tests, but no Environment: the splitter panics
    obtain ⟨htests, hzero⟩ := Classical.not_imp.mp hpos
    have hzero : maxPossible iuts logAreas executionSpaces = 0 := by omega
    refine iff_of_false (fun h => ?_) ?_
    · exact h.1 [] _ (after_nil.mpr (provisionFrom_panics henough hzero htests))
    · rintro (h | ⟨-, hle⟩ | hfails)
      · exact hshort h
      · exact hpos fun hne => (hle hne).1
      · exact hfails (allMarshal_of_none hzero)

end Amounts

/-- A request with one test, for a number of Environments. -/
def boundedRequest (minimumAmount maximumAmount : Int) : ProvisionConfig :=
  { minimumAmount := minimumAmount
    environmentRequest :=
      { plainRequest "request" with
        spec :=
          { (plainRequest "request").spec with
            minimumAmount := minimumAmount
            maximumAmount := maximumAmount
            tests := [{ id := "test", testCase := { id := "case" }, execution := { testRunner := "runner" } }] } } }

/-- `Provision` panics on a request for no Environments at least, if there are no resources for it; and where there are
    resources for two Environments, both are created for a request for one at most. -/
theorem provision_bounds_broken :
    (∃ message, (environmentProvision marshalled (boundedRequest 0 1)).After
      (foundResources (boundedRequest 0 1) [] [] []) (.panic message)) ∧
    ∃ log, (environmentProvision marshalled (boundedRequest 1 1)).Returns none
        (foundResources (boundedRequest 1 1) [iutUntil 0, iutUntil 0] [logAreaUntil 0, logAreaUntil 0]
          [executionSpaceUntil 0, executionSpaceUntil 0] ++ log) ∧
      (createdEnvironments log).length = 2 ∧ (boundedRequest 1 1).environmentRequest.spec.maximumAmount = 1 := by
  constructor
  · have hfound := environmentProvision_found marshalled (boundedRequest 0 1) [] [] []
    rw [provisionFrom_panics (by decide) rfl (by decide)] at hfound
    exact ⟨_, hfound⟩
  · have hfound := environmentProvision_found marshalled (boundedRequest 1 1) [iutUntil 0, iutUntil 0]
      [logAreaUntil 0, logAreaUntil 0] [executionSpaceUntil 0, executionSpaceUntil 0]
    have hall : AllMarshal marshalled [iutUntil 0, iutUntil 0] [logAreaUntil 0, logAreaUntil 0]
        [executionSpaceUntil 0, executionSpaceUntil 0] := fun t _ => ⟨⟨_, rfl⟩, ⟨_, rfl⟩, ⟨_, rfl⟩⟩
    obtain ⟨log, hlog⟩ : ∃ log, (provisionFrom marshalled (boundedRequest 1 1).environmentRequest
        [iutUntil 0, iutUntil 0] [logAreaUntil 0, logAreaUntil 0]
        [executionSpaceUntil 0, executionSpaceUntil 0]).Returns none log :=
      provisionFrom_succeeds (by decide) (by decide) hall
    exact ⟨log, hfound.returns_iff.mpr hlog, (provisionFrom_within hlog).1, rfl⟩

end Etos
