import Etos.Lists.Deal
import Etos.Prog.Trace
import Etos.Provider.Provision
import Etos.TestRun.Suites

/-!
# `Provider.Split` — every test runs exactly once

The tests of a suite take two steps to the Environments they run in: `createEnvironmentRequests` groups them by test
runner, one EnvironmentRequest each, and the environment provider deals the tests of a request to as many Environments
as there are resources for. `every_test_once` composes the two: whatever order the map of test runners is iterated in,
and however many Environments are provisioned for each request, every position of the suite ends up in exactly one
Environment of a request with its test runner.
-/

namespace Etos

open Kube Prog Etos.Lists

/-- The EnvironmentRequests a run has created. -/
def createdRequests (log : List (Said Op Ans)) : List EnvironmentRequest :=
  log.filterMap fun e => match e.op with
    | .create .environmentRequest request => some request
    | _ => none

theorem createdRequests_append (l₁ l₂ : List (Said Op Ans)) :
    createdRequests (l₁ ++ l₂) = createdRequests l₁ ++ createdRequests l₂ := List.filterMap_append

/-- The Environments a run has created. -/
def createdEnvironments (log : List (Said Op Ans)) : List Environment :=
  log.filterMap fun e => match e.op with
    | .create .environment environment => some environment
    | _ => none

/-! ## The splitter -/

/-- The splitter deals. -/
theorem RoundRobin.addTests_eq (s : RoundRobin) (hs : 0 < s.suites.length) (tests : List Test) :
    ∃ s', s.addTests tests = some s' ∧
      s'.suites = s.suites.mapIdx fun j hand => hand ++ dealt s.suites.length j s.current tests := by
  induction tests generalizing s with
  | nil =>
      refine ⟨s, rfl, ?_⟩
      refine List.ext_getElem? fun j => ?_
      simp [dealt]
  | cons test tests ih =>
      have hne : s.suites.isEmpty = false := List.isEmpty_eq_false_iff.mpr (List.ne_nil_of_length_pos hs)
      obtain ⟨s', hadd, hs'⟩ := ih
        ⟨s.suites.modify (s.current % s.suites.length) (· ++ [test]), s.current + 1⟩
        (by rw [List.length_modify]; exact hs)
      refine ⟨s', ?_, ?_⟩
      · rw [addTests, addTest, hne]
        exact hadd
      · rw [hs', List.length_modify]
        refine List.ext_getElem? fun j => ?_
        rw [List.getElem?_mapIdx, List.getElem?_mapIdx, List.getElem?_modify, dealt]
        cases hj : s.suites[j]? with
        | none => simp
        | some hand =>
            by_cases hturn : s.current % s.suites.length = j
            · simp [hturn]
            · simp [hturn]

theorem RoundRobin.addTests_ofSize {n : Nat} (hn : 0 < n) (tests : List Test) :
    ∃ s', (ofSize n).addTests tests = some s' ∧ s'.suites = (List.range n).map fun j => dealt n j 0 tests := by
  have hlen : (ofSize n).suites.length = n := List.length_replicate
  obtain ⟨s', hadd, hs'⟩ := (ofSize n).addTests_eq (by rw [hlen]; exact hn) tests
  refine ⟨s', hadd, ?_⟩
  rw [hs', hlen]
  refine List.ext_getElem (by simp [ofSize]) fun j hj hj' => ?_
  simp [ofSize]

/-! ## Provisioning -/

variable {marshal : Marshal} {request : EnvironmentRequest}

theorem CreateEnvironment_returns {index : Nat} {tests : List Test} {iut : Iut} {executionSpace : ExecutionSpace}
    {logArea : LogArea} {log : List (Said Op Ans)}
    (h : (CreateEnvironment marshal index tests request iut executionSpace logArea).Returns none log) :
    ∃ e : Environment, createdEnvironments log = [e] ∧ e.spec.tests = tests := by
  unfold CreateEnvironment at h
  split at h
  · cases h.1
  · cases h.1
  · cases h.1
  · obtain ⟨a, rest, rfl, _, rfl⟩ := h
    exact ⟨_, rfl, rfl⟩

/-- The Environment that `CreateEnvironment` creates. -/
theorem CreateEnvironment_created {index : Nat} {tests : List Test} {iut : Iut} {executionSpace : ExecutionSpace}
    {logArea : LogArea} {out : Option Err} {log : List (Said Op Ans)} {e : Environment}
    (h : (CreateEnvironment marshal index tests request iut executionSpace logArea).Returns out log)
    (he : e ∈ createdEnvironments log) : ∃ executorJson logAreaJson iutJson,
      marshal.executionSpace executionSpace.spec = .ok executorJson ∧ marshal.logArea logArea.spec = .ok logAreaJson ∧
      marshal.iut iut.spec = .ok iutJson ∧
      e = newEnvironment index tests request iut executionSpace logArea executorJson logAreaJson iutJson := by
  unfold CreateEnvironment at h
  split at h
  · obtain ⟨-, rfl⟩ := h
    cases he
  · obtain ⟨-, rfl⟩ := h
    cases he
  · obtain ⟨-, rfl⟩ := h
    cases he
  · rename_i executorJson logAreaJson iutJson hexecutor hlogArea hiut
    obtain ⟨a, rest, rfl, -, rfl⟩ := h
    exact ⟨_, _, _, hexecutor, hlogArea, hiut, List.mem_singleton.mp he⟩

/-- The Environments get the tests of the split, in its order. -/
theorem createEnvironments_returns {index : Nat} {split : List (List Test)} {iuts : List Iut}
    {logAreas : List LogArea} {executionSpaces : List ExecutionSpace} {log : List (Said Op Ans)}
    (hlen : split.length = min (min iuts.length logAreas.length) executionSpaces.length)
    (h : (createEnvironments marshal request index split iuts logAreas executionSpaces).Returns none log) :
    (createdEnvironments log).map (·.spec.tests) = split := by
  induction split generalizing index iuts logAreas executionSpaces log with
  | nil =>
      have hret : log = [] := by
        unfold createEnvironments at h
        exact h.2
      rw [hret]
      rfl
  | cons tests split ih =>
      match iuts, logAreas, executionSpaces with
      | [], _, _ => simp at hlen
      | _ :: _, [], _ => simp at hlen
      | _ :: _, _ :: _, [] => simp at hlen
      | iut :: iuts, logArea :: logAreas, executionSpace :: executionSpaces =>
          obtain ⟨a, l₁, l₂, rfl, ha, hb⟩ := returns_bind.mp h
          cases a with
          | some e => cases hb.1
          | none =>
              obtain ⟨e, hcreated, htests⟩ := CreateEnvironment_returns ha
              have hrest := ih (by simp only [List.length_cons] at hlen; omega) hb
              rw [createdEnvironments, List.filterMap_append, List.map_append]
              change (createdEnvironments l₁).map _ ++ (createdEnvironments l₂).map _ = _
              rw [hcreated, hrest, List.map_singleton, htests]
              rfl

theorem provisionFrom_returns {iuts : List Iut} {logAreas : List LogArea} {executionSpaces : List ExecutionSpace}
    {log : List (Said Op Ans)} {n : Nat} (hn : min (min iuts.length logAreas.length) executionSpaces.length = n)
    (h : (provisionFrom marshal request iuts logAreas executionSpaces).Returns none log) :
    (createdEnvironments log).map (·.spec.tests) =
        (List.range n).map (fun j => dealt n j 0 request.spec.tests) ∧ (request.spec.tests ≠ [] → 0 < n) ∧
      min request.spec.maximumAmount request.spec.minimumAmount ≤ n := by
  simp only [provisionFrom, hn] at h
  split at h
  · cases h.1
  rename_i henough
  refine ⟨?_, ?_, Int.not_lt.mp henough⟩
  all_goals rcases Nat.eq_zero_or_pos n with rfl | hpos
  · -- without Environments there must not be tests
    cases htests : request.spec.tests with
    | cons test tests =>
        rw [htests] at h
        exact h.elim
    | nil =>
        rw [htests] at h
        exact createEnvironments_returns (by rw [hn]; rfl) h
  · obtain ⟨s', hadd, hs'⟩ := RoundRobin.addTests_ofSize hpos request.spec.tests
    rw [hadd] at h
    rw [createEnvironments_returns ?_ h, hs']
    rw [hs', hn, List.length_map, List.length_range]
  · intro hne
    obtain ⟨test, tests, htests⟩ := List.exists_cons_of_ne_nil hne
    rw [htests] at h
    exact h.elim
  · exact fun _ => hpos

/-- A finished provisioning has dealt the tests of the request. -/
theorem environmentProvision_returns {cfg : ProvisionConfig} {log : List (Said Op Ans)}
    (h : (environmentProvision marshal cfg).Returns none log) :
    ∃ n, (createdEnvironments log).map (·.spec.tests) =
        (List.range n).map (fun j => dealt n j 0 cfg.environmentRequest.spec.tests) ∧
      (cfg.environmentRequest.spec.tests ≠ [] → 0 < n) := by
  obtain ⟨iuts, log, rfl, h⟩ := h
  cases iuts with
  | error e => cases h.1
  | ok iuts =>
      obtain ⟨logAreas, log, rfl, h⟩ := h
      cases logAreas with
      | error e => cases h.1
      | ok logAreas =>
          obtain ⟨executionSpaces, log, rfl, h⟩ := h
          cases executionSpaces with
          | error e => cases h.1
          | ok executionSpaces =>
              have hfrom :
                  (provisionFrom marshal cfg.environmentRequest iuts logAreas executionSpaces).Returns none log := h
              obtain ⟨hdealt, hpos, -⟩ := provisionFrom_returns rfl hfrom
              exact ⟨_, hdealt, hpos⟩

/-! ## Grouping -/

namespace TestRunReconciler

variable {suite : Suite} {requests : List EnvironmentRequest} {testrun : TestRun} {cluster : Cluster}

/-- The test runner a request is for. -/
def runnerOf (request : EnvironmentRequest) : String := request.spec.providers.executionSpace.testRunnerImage

/-- The request is made for a TestRun, with this key and for one Environment at least. -/
structure MadeFor (testrun : TestRun) (key : Key) (request : EnvironmentRequest) : Prop where
  key : requestKey request = key
  minimumAmount : request.spec.minimumAmount = 1
  labels : request.metadata.labels = testRunLabels testrun
  identifier : request.spec.identifier = testrun.spec.id
  iut : request.spec.providers.iut = testrun.spec.providers.iut
  logArea : request.spec.providers.logArea = testrun.spec.providers.logArea
  executionSpace : request.spec.providers.executionSpace.id = testrun.spec.providers.executionSpace

theorem MadeFor.controlled {key : Key} {request : EnvironmentRequest} (h : MadeFor testrun key request) :
    MadeFor testrun key { request with metadata :=
      request.metadata.setControllerReference apiGroupVersionString testRunKind testrun.name } :=
  ⟨h.key, h.minimumAmount, h.labels, h.identifier, h.iut, h.logArea, h.executionSpace⟩

theorem environmentRequest_after {n t : String} {tests : List Test} {dataset : Option Json}
    {left : M EnvironmentRequest} {log : List (Said Op Ans)}
    (h : (environmentRequest n t cluster testrun tests dataset).After log left) :
    createdRequests log = [] ∧ ∀ made, left = .ret made → MadeFor testrun ⟨n, t, tests⟩ made := by
  match log with
  | [] =>
      obtain rfl := after_nil.mp h
      exact ⟨rfl, fun _ hmade => absurd hmade call_ne_ret⟩
  | [_] =>
      obtain ⟨now, rfl, h⟩ := h
      obtain rfl := after_nil.mp h
      exact ⟨rfl, fun _ hmade => absurd hmade call_ne_ret⟩
  | _ :: _ :: rest =>
      obtain ⟨now, rfl, id, rfl, h⟩ := h
      simp only [Prog.bind] at h
      split at h
      · cases rest with
        | cons e rest => exact h.elim
        | nil =>
            obtain rfl := after_nil.mp h
            refine ⟨rfl, fun made hmade => ?_⟩
            cases hmade
            exact ⟨rfl, rfl, rfl, rfl, rfl, rfl, rfl⟩
      all_goals
        cases rest with
        | cons e rest => exact h.elim
        | nil =>
            obtain rfl := after_nil.mp h
            exact ⟨rfl, fun _ hmade => absurd hmade panic_ne_ret⟩

/-- At any point the loop has created the requests of some of the test runners that have none, the first ones of its
    order, and those of all when it is done. -/
theorem createRequests_after {order : List String} {log : List (Said Op Ans)} {left : M (Option Err)}
    (h : (createRequests suite requests testrun cluster order).After log left) :
    ∃ runners, runners <+: (order.filter fun r => !requestFound suite r requests) ∧
      List.Forall₂ (fun r R => MadeFor testrun (slotKey suite r) R) runners (createdRequests log) ∧
      (left = .ret none → runners = order.filter fun r => !requestFound suite r requests) := by
  induction order generalizing log with
  | nil =>
      cases log with
      | nil => exact ⟨[], List.nil_prefix, .nil, fun _ => rfl⟩
      | cons e log => exact h.elim
  | cons r rest ih =>
      unfold createRequests at h
      split at h
      · rename_i hfound
        rw [List.filter_cons_of_neg (by rw [hfound]; exact Bool.false_ne_true)]
        exact ih h
      · rename_i hfound
        rw [List.filter_cons_of_pos (by simpa using hfound)]
        rcases after_bind h with ⟨left', hleft, hne⟩ | ⟨made, l₁, l₂, rfl, hmade, hcreate⟩
        · -- interrupted while the request was made
          obtain ⟨hnone, -⟩ := environmentRequest_after hleft
          rw [hnone]
          exact ⟨[], List.nil_prefix, .nil, fun hret => absurd hret (hne _)⟩
        obtain ⟨hnone, hfor⟩ := environmentRequest_after hmade.after
        rw [createdRequests_append, hnone, List.nil_append]
        cases l₂ with
        | nil =>
            -- before it was sent
            obtain rfl := after_nil.mp hcreate
            exact ⟨[], List.nil_prefix, .nil, fun hret => by cases hret⟩
        | cons e l₃ =>
            obtain ⟨a, rfl, hrest⟩ := hcreate
            cases a with
            | error e =>
                cases l₃ with
                | cons e l₃ => exact hrest.elim
                | nil =>
                    -- refused: the loop ends
                    obtain rfl := after_nil.mp hrest
                    exact ⟨[r], List.prefix_append [r] _, .cons (hfor made rfl).controlled .nil,
                      fun hret => by cases hret⟩
            | ok _ =>
                obtain ⟨runners, hbegins, hmadeFor, hdone⟩ := ih hrest
                refine ⟨r :: runners, List.cons_prefix_cons.mpr ⟨rfl, hbegins⟩,
                  .cons (hfor made rfl).controlled hmadeFor, fun hret => ?_⟩
                rw [hdone hret]

theorem createEnvironmentRequests_after {log : List (Said Op Ans)} {left : M (Option Err)}
    (h : (createEnvironmentRequests suite requests testrun cluster).After log left) :
    ∃ order runners, List.Perm order (testrunners suite) ∧
      runners <+: (order.filter fun r => !requestFound suite r requests) ∧
      List.Forall₂ (fun r R => MadeFor testrun (slotKey suite r) R) runners (createdRequests log) ∧
      (left = .ret none → runners = order.filter fun r => !requestFound suite r requests) := by
  cases log with
  | nil =>
      obtain rfl := after_nil.mp h
      exact ⟨_, [], .refl _, List.nil_prefix, .nil, nofun⟩
  | cons e log =>
      obtain ⟨order, rfl, h⟩ := h
      replace h : (createRequests suite requests testrun cluster order.val).After log left := h
      obtain ⟨runners, hbegins, hmade, hdone⟩ := createRequests_after h
      exact ⟨order.val, runners, order.property, hbegins, hmade, hdone⟩

/-- Each request is for a test runner that has none. -/
theorem createEnvironmentRequests_madeFor {log : List (Said Op Ans)} {left : M (Option Err)} {R : EnvironmentRequest}
    (h : (createEnvironmentRequests suite requests testrun cluster).After log left) (hR : R ∈ createdRequests log) :
    ∃ r ∈ testrunners suite, requestFound suite r requests = false ∧ MadeFor testrun (slotKey suite r) R := by
  obtain ⟨order, runners, hperm, hbegins, hmade, -⟩ := createEnvironmentRequests_after h
  obtain ⟨i, hi, hiR⟩ := List.getElem_of_mem hR
  have hlen := hmade.length_eq
  have hr : runners[i] ∈ runners := List.getElem_mem _
  obtain ⟨hmem, hfound⟩ := List.mem_filter.mp (hbegins.subset hr)
  refine ⟨_, hperm.mem_iff.mp hmem, by simpa using hfound, ?_⟩
  rw [← hiR]
  exact hmade.get (hlen ▸ hi) hi

theorem map_requestKey {runners : List String} {made : List EnvironmentRequest}
    (h : List.Forall₂ (fun r R => MadeFor testrun (slotKey suite r) R) runners made) :
    made.map requestKey = runners.map (slotKey suite) := by
  induction h with
  | nil => rfl
  | cons hfor _ ih => rw [List.map_cons, List.map_cons, hfor.key, ih]

theorem createEnvironmentRequests_returns {log : List (Said Op Ans)}
    (h : (createEnvironmentRequests suite requests testrun cluster).Returns none log) :
    (∃ order : List String, order.Perm (testrunners suite) ∧ (createdRequests log).map requestKey =
      (order.filter fun r => !requestFound suite r requests).map (slotKey suite)) ∧
      ∀ R ∈ createdRequests log, R.spec.minimumAmount = 1 := by
  constructor
  · obtain ⟨order, runners, hperm, -, hmade, hdone⟩ := createEnvironmentRequests_after (Returns.after h)
    refine ⟨order, hperm, ?_⟩
    rw [map_requestKey hmade, hdone rfl]
  · intro R hR
    obtain ⟨r, -, -, hfor⟩ := createEnvironmentRequests_madeFor (Returns.after h) hR
    exact hfor.minimumAmount

/-- The requests there are for a suite: each is for one of its test runners, and no two for the same. -/
structure Grouped (suite : Suite) (requests : List EnvironmentRequest) : Prop where
  slots : ∀ R ∈ requests, requestKey R ∈ suiteSlots suite
  runners : (requests.map runnerOf).Nodup

theorem Grouped.nil : Grouped suite [] := ⟨fun _ hR => absurd hR List.not_mem_nil, List.nodup_nil⟩

theorem Grouped.key {R : EnvironmentRequest} (h : Grouped suite requests) (hR : R ∈ requests) :
    requestKey R = slotKey suite (runnerOf R) := by
  obtain ⟨r, _, hr⟩ := mem_suiteSlots.mp (h.slots R hR)
  have hrunner : runnerOf R = r := congrArg Key.testRunner hr.symm
  rw [hrunner, hr]

/-- Among such requests one is found exactly if it is there. -/
theorem Grouped.found {r : String} (h : Grouped suite requests) :
    requestFound suite r requests = true ↔ r ∈ requests.map runnerOf := by
  rw [requestFound_iff, List.mem_map]
  constructor
  · rintro ⟨R, hR, _, hr⟩
    exact ⟨R, hR, hr⟩
  · rintro ⟨R, hR, rfl⟩
    refine ⟨R, hR, ?_⟩
    rw [h.key hR]
    exact claims_slotKey suite _

/-- Afterwards there is one for every test runner. -/
theorem Grouped.created {log : List (Said Op Ans)} (h : Grouped suite requests)
    (hrun : (createEnvironmentRequests suite requests testrun cluster).Returns none log) :
    Grouped suite (requests ++ createdRequests log) ∧
      ∀ r ∈ testrunners suite, r ∈ (requests ++ createdRequests log).map runnerOf := by
  obtain ⟨⟨order, hperm, hkeys⟩, -⟩ := createEnvironmentRequests_returns hrun
  have hrunners : (createdRequests log).map runnerOf =
      order.filter fun r => !requestFound suite r requests := by
    have hmap := congrArg (List.map Key.testRunner) hkeys
    rw [List.map_map, List.map_map] at hmap
    exact hmap.trans (List.map_id _)
  have hmem : ∀ r, r ∈ (createdRequests log).map runnerOf ↔ r ∈ testrunners suite ∧ r ∉ requests.map runnerOf := by
    intro r
    rw [hrunners, List.mem_filter, hperm.mem_iff, ← h.found]
    simp
  refine ⟨⟨?_, ?_⟩, ?_⟩
  · intro R hR
    rcases List.mem_append.mp hR with hR | hR
    · exact h.slots R hR
    · have hkey : requestKey R ∈ (createdRequests log).map requestKey := List.mem_map_of_mem hR
      rw [hkeys] at hkey
      obtain ⟨r, hr, hkey⟩ := List.mem_map.mp hkey
      exact mem_suiteSlots.mpr ⟨r, hperm.mem_iff.mp (List.mem_of_mem_filter hr), hkey⟩
  · rw [List.map_append, List.nodup_append']
    refine ⟨h.runners, ?_, fun r hr hr' => ((hmem r).mp hr').2 hr⟩
    rw [hrunners]
    exact ((hperm.nodup_iff.mpr (testrunners_nodup suite)).filter _)
  · intro r hr
    rw [List.map_append, List.mem_append, hmem r]
    by_cases hold : r ∈ requests.map runnerOf
    · exact .inl hold
    · exact .inr ⟨hr, hold⟩

end TestRunReconciler

/-! ## Every test exactly once -/

open TestRunReconciler

/-- Every position of the suite has its place: a test runner and the index of an Environment of the request for it. The
    Environment holds the tests at the positions that are placed there, in the order of the suite, and the
    Environments of a request are of about the same size. -/
def Placed (suite : Suite) (requests : List EnvironmentRequest)
    (environments : EnvironmentRequest → List Environment) : Prop :=
  (requests.map runnerOf).Nodup ∧
    (∃ place : Nat → String × Nat,
      (∀ i t, suite.tests[i]? = some t → (place i).1 = t.execution.testRunner ∧
        ∃ R ∈ requests, runnerOf R = (place i).1 ∧ (place i).2 < (environments R).length) ∧
      ∀ R ∈ requests, ∀ j e, (environments R)[j]? = some e →
        e.spec.tests = atPositions (fun i => place i = (runnerOf R, j)) suite.tests) ∧
    ∀ R ∈ requests, ∀ e ∈ environments R, ∀ e' ∈ environments R, e.spec.tests.length ≤ e'.spec.tests.length + 1

/-- Where a position goes: to the request for its test runner, dealt in turn. -/
def placeOf (suite : Suite) (amount : String → Nat) (i : Nat) : String × Nat :=
  match suite.tests[i]? with
  | none => ("", 0)
  | some t =>
      (t.execution.testRunner,
        rank (fun t' => t'.execution.testRunner = t.execution.testRunner) suite.tests i % amount t.execution.testRunner)

/-- The hand of an Environment, by positions. -/
theorem dealt_slot (suite : Suite) (amount : String → Nat) (r : String) (j : Nat) :
    dealt (amount r) j 0 (slotKey suite r).tests =
      atPositions (fun i => placeOf suite amount i = (r, j)) suite.tests := by
  show dealt (amount r) j 0 (suite.tests.filter fun t => t.execution.testRunner = r) = _
  rw [dealt_filter]
  refine atPositions_congr fun i hi => ?_
  unfold placeOf
  rw [List.getElem?_eq_getElem hi]
  simp only [Option.any_some, decide_eq_true_eq, Prod.mk.injEq]
  constructor
  · rintro ⟨rfl, h⟩
    exact ⟨rfl, h⟩
  · rintro ⟨rfl, h⟩
    exact ⟨rfl, h⟩

theorem getElem?_hands {environments : List Environment} {n : Nat} {tests : List Test}
    (h : environments.map (·.spec.tests) = (List.range n).map fun j => dealt n j 0 tests) {j : Nat} {e : Environment}
    (he : environments[j]? = some e) : j < n ∧ e.spec.tests = dealt n j 0 tests := by
  have hj := congrArg (·[j]?) h
  simp only [List.getElem?_map, he, Option.map_some] at hj
  by_cases hlt : j < n
  · rw [List.getElem?_range hlt, Option.map_some, Option.some.injEq] at hj
    exact ⟨hlt, hj⟩
  · rw [List.getElem?_eq_none (by simpa using hlt)] at hj
    cases hj

/-- What the two steps place. -/
theorem placed_of_runs {suite : Suite} {requests : List EnvironmentRequest}
    {environments : EnvironmentRequest → List Environment} (h : Grouped suite requests)
    (hall : ∀ r ∈ testrunners suite, r ∈ requests.map runnerOf)
    (hands : ∀ R ∈ requests, ∃ n, (environments R).map (·.spec.tests) =
      (List.range n).map (fun j => dealt n j 0 R.spec.tests) ∧ (R.spec.tests ≠ [] → 0 < n)) :
    Placed suite requests environments := by
  have hands : ∀ R ∈ requests, (environments R).map (·.spec.tests) =
      (List.range (environments R).length).map (fun j => dealt (environments R).length j 0 R.spec.tests) ∧
        (R.spec.tests ≠ [] → 0 < (environments R).length) := by
    intro R hR
    obtain ⟨n, hn, hpos⟩ := hands R hR
    have hlen := congrArg List.length hn
    rw [List.length_map, List.length_map, List.length_range] at hlen
    rw [hlen]
    exact ⟨hn, hpos⟩
  have htests : ∀ R ∈ requests, R.spec.tests = (slotKey suite (runnerOf R)).tests :=
    fun R hR => congrArg Key.tests (h.key hR)
  -- the number of Environments of the request for a test runner
  let amount (r : String) : Nat :=
    match requests.find? (runnerOf · = r) with
    | some R => (environments R).length
    | none => 0
  have hamount : ∀ R ∈ requests, amount (runnerOf R) = (environments R).length := by
    intro R hR
    have hfind : requests.find? (runnerOf · = runnerOf R) = some R := by
      obtain ⟨R', hR'⟩ := Option.isSome_iff_exists.mp
        (List.find?_isSome (p := fun x => decide (runnerOf x = runnerOf R)) |>.mpr ⟨R, hR, decide_eq_true rfl⟩)
      have hrunner : runnerOf R' = runnerOf R := by simpa using List.find?_some hR'
      rw [hR', List.inj_on_of_nodup_map h.runners (List.mem_of_find?_eq_some hR') hR hrunner]
    simp only [amount, hfind]
  refine ⟨h.runners, ⟨placeOf suite amount, ?_, ?_⟩, ?_⟩
  · intro i t ht
    have hmem : t ∈ suite.tests := List.mem_of_getElem? ht
    obtain ⟨R, hR, hrunner⟩ := List.mem_map.mp (hall _ (mem_testrunners.mpr ⟨t, hmem, rfl⟩))
    have hne : R.spec.tests ≠ [] := by
      rw [htests R hR]
      refine List.ne_nil_of_mem (a := t) (List.mem_filter.mpr ⟨hmem, ?_⟩)
      exact decide_eq_true hrunner.symm
    have hpos : 0 < amount t.execution.testRunner := by
      rw [← hrunner, hamount R hR]
      exact (hands R hR).2 hne
    have hplace : placeOf suite amount i = (t.execution.testRunner,
        rank (fun t' => t'.execution.testRunner = t.execution.testRunner) suite.tests i %
          amount t.execution.testRunner) := by
      rw [placeOf, ht]
    rw [hplace]
    refine ⟨rfl, R, hR, hrunner, ?_⟩
    rw [← hamount R hR, hrunner]
    exact Nat.mod_lt _ hpos
  · intro R hR j e he
    obtain ⟨_, hhand⟩ := getElem?_hands (hands R hR).1 he
    rw [hhand, htests R hR, ← hamount R hR]
    exact dealt_slot suite amount (runnerOf R) j
  · intro R hR e he e' he'
    obtain ⟨j, hj⟩ := List.getElem?_of_mem he
    obtain ⟨j', hj'⟩ := List.getElem?_of_mem he'
    obtain ⟨hlt, hhand⟩ := getElem?_hands (hands R hR).1 hj
    obtain ⟨hlt', hhand'⟩ := getElem?_hands (hands R hR).1 hj'
    rw [hhand, hhand']
    exact dealt_balanced hlt hlt' _

/-! ## The steps succeed -/

/-- Every create is granted. -/
def Granted : (o : Op) → Ans o → Prop
  | .create _ _, .error _ => False
  | _, _ => True

theorem createRequests_granted {suite : Suite} {requests : List EnvironmentRequest} {testrun : TestRun}
    {cluster : Cluster} (h : Equipped cluster testrun) (order : List String) :
    (createRequests suite requests testrun cluster order).Guarded Granted (fun _ => True) (fun _ => True)
      (· = none) := by
  induction order with
  | nil => rfl
  | cons r rest ih =>
      unfold createRequests
      split
      · exact ih
      have hrequest : ∀ n tests dataset, (environmentRequest n r cluster testrun tests dataset).Guarded Granted
          (fun _ => True) (fun _ => True) fun _ => True := by
        intro n tests dataset
        obtain ⟨request, -, heq⟩ := environmentRequest_equipped h n r tests dataset
        rw [heq]
        exact ⟨trivial, fun _ _ => ⟨trivial, fun _ _ => trivial⟩⟩
      refine (hrequest _ _ _).bind fun request _ => ⟨trivial, fun a ha => ?_⟩
      cases a with
      | error e => exact ha.elim
      | ok _ => exact ih

/-- Resources of every kind are listed, and every create is granted. -/
def Provided : (o : Op) → Ans o → Prop
  | .list (.resource _) _, .error _ => False
  | .list (.resource _) _, .ok resources => resources ≠ []
  | .create _ _, .error _ => False
  | _, _ => True

/-- Everything can be encoded. -/
structure Marshal.Total (marshal : Marshal) : Prop where
  executionSpace : ∀ spec, ∃ json, marshal.executionSpace spec = .ok json
  logArea : ∀ spec, ∃ json, marshal.logArea spec = .ok json
  iut : ∀ spec, ∃ json, marshal.iut spec = .ok json

theorem createEnvironments_provided {marshal : Marshal} {request : EnvironmentRequest} (h : marshal.Total)
    {index : Nat} {split : List (List Test)} {iuts : List Iut} {logAreas : List LogArea}
    {executionSpaces : List ExecutionSpace} :
    (createEnvironments marshal request index split iuts logAreas executionSpaces).Guarded Provided (fun _ => True)
      (fun _ => True) (· = none) := by
  induction split generalizing index iuts logAreas executionSpaces with
  | nil => rfl
  | cons tests split ih =>
      match iuts, logAreas, executionSpaces with
      | [], _, _ => rfl
      | _ :: _, [], _ => rfl
      | _ :: _, _ :: _, [] => rfl
      | iut :: iuts, logArea :: logAreas, executionSpace :: executionSpaces =>
          obtain ⟨executorJson, hexecutor⟩ := h.executionSpace executionSpace.spec
          obtain ⟨logAreaJson, hlogArea⟩ := h.logArea logArea.spec
          obtain ⟨iutJson, hiut⟩ := h.iut iut.spec
          simp only [createEnvironments, CreateEnvironment, hexecutor, hlogArea, hiut]
          refine ⟨trivial, fun a ha => ?_⟩
          cases a with
          | error e => exact ha.elim
          | ok _ => exact ih

theorem provisionFrom_provided {marshal : Marshal} {request : EnvironmentRequest} (h : marshal.Total)
    (hmin : request.spec.minimumAmount ≤ 1) {iuts : List Iut} {logAreas : List LogArea}
    {executionSpaces : List ExecutionSpace} (hiuts : iuts ≠ []) (hlogAreas : logAreas ≠ [])
    (hexecutionSpaces : executionSpaces ≠ []) :
    (provisionFrom marshal request iuts logAreas executionSpaces).Guarded Provided (fun _ => True) (fun _ => True)
      (· = none) := by
  have hpos : 0 < min (min iuts.length logAreas.length) executionSpaces.length := by
    have := List.length_pos_of_ne_nil hiuts
    have := List.length_pos_of_ne_nil hlogAreas
    have := List.length_pos_of_ne_nil hexecutionSpaces
    omega
  unfold provisionFrom
  dsimp only
  rw [if_neg (by omega)]
  obtain ⟨s', hadd, -⟩ := RoundRobin.addTests_ofSize hpos request.spec.tests
  rw [hadd]
  exact createEnvironments_provided h

theorem environmentProvision_provided {marshal : Marshal} {cfg : ProvisionConfig} (h : marshal.Total)
    (hmin : cfg.environmentRequest.spec.minimumAmount ≤ 1) :
    (environmentProvision marshal cfg).Guarded Provided (fun _ => True) (fun _ => True) (· = none) := by
  refine ⟨trivial, fun iuts hiuts => ?_⟩
  cases iuts with
  | error e => exact hiuts.elim
  | ok iuts =>
      refine ⟨trivial, fun logAreas hlogAreas => ?_⟩
      cases logAreas with
      | error e => exact hlogAreas.elim
      | ok logAreas =>
          refine ⟨trivial, fun executionSpaces hexecutionSpaces => ?_⟩
          cases executionSpaces with
          | error e => exact hexecutionSpaces.elim
          | ok executionSpaces => exact provisionFrom_provided h hmin hiuts hlogAreas hexecutionSpaces

/-- **Every test runs exactly once.** Grouping a suite and provisioning its requests succeed when their creates are
    granted and there is at least one resource of each kind. When they have, every test of the suite is in exactly one
    Environment, of a request with its test runner; an Environment has its tests in the order of the suite, and the
    Environments of a request differ by at most one test. -/
theorem every_test_once {suite : Suite} {requests : List EnvironmentRequest} (h : Grouped suite requests)
    (testrun : TestRun) (cluster : Cluster) (marshal : Marshal) :
    (Equipped cluster testrun → (createEnvironmentRequests suite requests testrun cluster).Guarded Granted
      (fun _ => True) (fun _ => True) (· = none)) ∧
    (marshal.Total → ∀ cfg, cfg.environmentRequest.spec.minimumAmount ≤ 1 →
      (environmentProvision marshal cfg).Guarded Provided (fun _ => True) (fun _ => True) (· = none)) ∧
    ∀ log, (createEnvironmentRequests suite requests testrun cluster).Returns none log →
      (∀ R ∈ createdRequests log, R.spec.minimumAmount = 1) ∧
      ∀ (cfg : EnvironmentRequest → ProvisionConfig) (runs : EnvironmentRequest → List (Said Op Ans)),
        (∀ R ∈ requests ++ createdRequests log, (cfg R).environmentRequest.spec.tests = R.spec.tests ∧
          (environmentProvision marshal (cfg R)).Returns none (runs R)) →
        Placed suite (requests ++ createdRequests log) fun R => createdEnvironments (runs R) := by
  refine ⟨fun heq => ⟨trivial, fun order _ => createRequests_granted heq _⟩,
    fun hm cfg hmin => environmentProvision_provided hm hmin,
    fun log hrun => ⟨(createEnvironmentRequests_returns hrun).2, fun cfg runs hruns => ?_⟩⟩
  obtain ⟨hgrouped, hall⟩ := h.created hrun
  refine placed_of_runs hgrouped hall fun R hR => ?_
  obtain ⟨htests, hret⟩ := hruns R hR
  rw [← htests]
  exact environmentProvision_returns hret

section

/-- Answers of a namespace with two resources of each kind. -/
def twoOfEach : (o : Op) → Ans o
  | .get _ _ => .error (.new "")
  | .list (.resource .iut) _ => .ok (["iut-0", "iut-1"].map fun n => ⟨{ name := n }, {}, {}⟩)
  | .list (.resource .logArea) _ => .ok (["log-0", "log-1"].map fun n => ⟨{ name := n }, {}, {}⟩)
  | .list (.resource .executionSpace) _ => .ok (["es-0", "es-1"].map fun n => ⟨{ name := n }, {}, {}⟩)
  | .list _ _ => .ok []
  | .create _ o => .ok o
  | .update _ o => .ok o
  | .updateStatus _ o => .ok o
  | .delete _ _ => .ok ()
  | .ext .clockNow => (0 : Int)
  | .ext .timeNow => (0 : Int)
  | .ext .newUUID => "id"
  | .ext .startSpan => ⟨"", "", ""⟩
  | .ext (.publish _ _) => .ok ()
  | .ext (.getPublisher _) => .ok ()
  | .ext (.readKey _ _) => .ok ""
  | .ext (.rangeKeys keys) => ⟨keys, .refl _⟩
  | .ext (.attempt _) => .ok ()

/-- Three tests for two test runners. -/
def threeTests : Suite :=
  { name := "suite"
    tests := [("1", "python"), ("2", "go"), ("3", "python")].map fun t =>
      { id := t.1, testCase := { id := t.1 }, execution := { testRunner := t.2 } } }

def equippedTestRun : TestRun :=
  { metadata := { name := "testrun" }
    spec := { testRunner := some ⟨"1"⟩, environmentProvider := some {} }
    status := {} }

def equippedCluster : Cluster :=
  { metadata := { name := "cluster" }
    spec :=
      { eiffelMessageBus := some {}, etosMessageBus := some { password := some { value := "guest" } }
        eventRepository := some {}, database := some {} }
    status := () }

def emptyJson : Marshal := ⟨fun _ => .ok "", fun _ => .ok "", fun _ => .ok ""⟩

/-- What a program does on these answers. -/
theorem twoOfEach_returns {allowed : (o : Op) → Ans o → Prop} {p : M (Option Err)}
    (h : p.Guarded allowed (fun _ => True) (fun _ => True) (· = none)) (ha : ∀ o, allowed o (twoOfEach o)) :
    ∃ log, p.Returns none log := by
  obtain ⟨⟨err, log⟩, htrace, rfl⟩ := trace_of_guarded h ha
  exact ⟨log, returns_of_trace htrace⟩

theorem twoOfEach_granted (o : Op) : Granted o (twoOfEach o) := by
  unfold twoOfEach
  split <;> trivial

theorem equipped : Equipped equippedCluster equippedTestRun := ⟨nofun, nofun, nofun, nofun, nofun, nofun⟩

/-- Three tests for two test runners, with two Environments each. -/
theorem three_tests_once :
    ∃ (log : List (Said Op Ans)) (runs : EnvironmentRequest → List (Said Op Ans)),
      (createEnvironmentRequests threeTests [] equippedTestRun equippedCluster).Returns none log ∧
      Placed threeTests ([] ++ createdRequests log) fun R => createdEnvironments (runs R) := by
  obtain ⟨hgroup, hprovision, hplaced⟩ :=
    every_test_once (@Grouped.nil threeTests) equippedTestRun equippedCluster emptyJson
  have hprovided : ∀ o, Provided o (twoOfEach o) := by
    intro o
    unfold twoOfEach
    split
    case h_2 | h_3 | h_4 => exact List.cons_ne_nil _ _
    case h_5 k _ hiut hlogArea hexecutionSpace =>
      cases k with
      | resource r =>
          cases r with
          | iut => exact (hiut rfl).elim
          | logArea => exact (hlogArea rfl).elim
          | executionSpace => exact (hexecutionSpace rfl).elim
      | _ => trivial
    all_goals trivial
  obtain ⟨log, hlog⟩ := twoOfEach_returns (hgroup equipped) twoOfEach_granted
  have hruns : ∀ R ∈ createdRequests log, ∃ run, (environmentProvision emptyJson ⟨1, R⟩).Returns none run := by
    intro R hR
    refine twoOfEach_returns (hprovision ?_ _ ?_) hprovided
    · exact ⟨fun _ => ⟨_, rfl⟩, fun _ => ⟨_, rfl⟩, fun _ => ⟨_, rfl⟩⟩
    · exact (hplaced log hlog).1 R hR |>.le
  choose runs hruns using hruns
  classical
  refine ⟨log, fun R => if hR : R ∈ createdRequests log then runs R hR else [], hlog, ?_⟩
  refine (hplaced log hlog).2 (fun R => ⟨1, R⟩) _ fun R hR => ⟨rfl, ?_⟩
  rw [List.nil_append] at hR
  rw [dif_pos hR]
  exact hruns R hR

end

end Etos
