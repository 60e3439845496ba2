import Mathlib.Data.List.Nodup
import Etos.Controller.TestRun

/-!
# `TestRun.Slots` — the EnvironmentRequests a TestRun needs

A TestRun needs one EnvironmentRequest for each suite and each distinct test runner of the tests in it: these are its
*slots*. A request is for a slot if it has the name, the test runner and the tests of the slot (`Key`).

The controller does not compare keys when it looks for a request: it asks whether the name of the suite is a prefix of
the name of a request with the test runner (`requestFound`). It thus finds the request for a slot if there is one
(`requestFound_of_key`), but it may take the request of another suite for it.
-/

namespace Etos

open Kube

namespace TestRunReconciler

/-- What tells EnvironmentRequests of a TestRun apart: the name, the test runner and the tests they are for. -/
structure Key where
  name : String
  testRunner : String
  tests : List Test
  deriving DecidableEq

/-- The name of the request for a test runner of a suite. -/
def requestName (suite : Suite) (testrunner : String) : String :=
  if (testrunners suite).length > 1 then
    suite.name ++ "-" ++ toString ((testrunners suite).idxOf testrunner)
  else suite.name

/-- The key of a slot. -/
def slotKey (suite : Suite) (testrunner : String) : Key :=
  ⟨requestName suite testrunner, testrunner, suite.tests.filter (·.execution.testRunner = testrunner)⟩

/-- The keys of the requests a suite needs. -/
def suiteSlots (suite : Suite) : List Key := (testrunners suite).map (slotKey suite)

/-- The keys of all requests a TestRun needs. -/
def slots (spec : TestRunSpec) : List Key := spec.suites.flatMap suiteSlots

/-- The key of a request. -/
def requestKey (request : EnvironmentRequest) : Key :=
  ⟨request.spec.name, request.spec.providers.executionSpace.testRunnerImage, request.spec.tests⟩

/-! ## Finding requests -/

variable {suite : Suite} {testrunner : String} {requests : List EnvironmentRequest}

/-- A suite takes a request with this key for the one of its test runner. -/
def Claims (suite : Suite) (testrunner : String) (key : Key) : Prop :=
  suite.name.toList <+: key.name.toList ∧ key.testRunner = testrunner

/-- Whether a request is found depends on the keys only. -/
theorem requestFound_iff :
    requestFound suite testrunner requests = true ↔ ∃ y ∈ requests, Claims suite testrunner (requestKey y) := by
  unfold requestFound Claims
  rw [List.any_eq_true]
  simp only [Bool.and_eq_true, decide_eq_true_eq, List.isPrefixOf_iff_prefix]
  rfl

/-- The name of a request starts with the name of its suite. -/
theorem claims_slotKey (suite : Suite) (testrunner : String) : Claims suite testrunner (slotKey suite testrunner) := by
  refine ⟨?_, rfl⟩
  show suite.name.toList <+: (requestName suite testrunner).toList
  unfold requestName
  split
  · rw [String.toList_append, String.toList_append, List.append_assoc]
    exact List.prefix_append _ _
  · exact List.prefix_refl _

/-- A suite finds a request with the key of one of its slots. -/
theorem requestFound_of_key {request : EnvironmentRequest} (hmem : request ∈ requests)
    (hkey : requestKey request = slotKey suite testrunner) : requestFound suite testrunner requests = true := by
  rw [requestFound_iff]
  refine ⟨request, hmem, ?_⟩
  rw [hkey]
  exact claims_slotKey suite testrunner

/-! ## Suites that can be told apart -/

/-- The test runners of a suite are distinct. -/
theorem testrunners_nodup (suite : Suite) : (testrunners suite).Nodup := by
  have hfold : ∀ (tests : List Test) (seen : List String), seen.Nodup →
      (tests.foldl (fun seen test => if test.execution.testRunner ∈ seen then seen
        else seen ++ [test.execution.testRunner]) seen).Nodup := by
    intro tests
    induction tests with
    | nil => exact fun seen hseen => hseen
    | cons test tests ih =>
        intro seen hseen
        rw [List.foldl_cons]
        apply ih
        split
        · exact hseen
        · rename_i hnew
          refine hseen.append (List.nodup_singleton _) ?_
          rwa [List.disjoint_singleton]
  exact hfold suite.tests [] List.nodup_nil

/-- They are the test runners of its tests. -/
theorem mem_testrunners {r : String} : r ∈ testrunners suite ↔ ∃ t ∈ suite.tests, t.execution.testRunner = r := by
  have hfold : ∀ (tests : List Test) (seen : List String),
      r ∈ tests.foldl (fun seen test => if test.execution.testRunner ∈ seen then seen
        else seen ++ [test.execution.testRunner]) seen ↔ r ∈ seen ∨ ∃ t ∈ tests, t.execution.testRunner = r := by
    intro tests
    induction tests with
    | nil => simp
    | cons test tests ih =>
        intro seen
        rw [List.foldl_cons, ih]
        split
        · rename_i hold
          constructor
          · rintro (h | ⟨t, ht, h⟩)
            · exact .inl h
            · exact .inr ⟨t, List.mem_cons_of_mem _ ht, h⟩
          · rintro (h | ⟨t, ht, h⟩)
            · exact .inl h
            · rcases List.mem_cons.mp ht with rfl | ht
              · exact .inl (h ▸ hold)
              · exact .inr ⟨t, ht, h⟩
        · rw [List.mem_append, List.mem_singleton, or_assoc]
          simp only [List.exists_mem_cons_iff, @eq_comm _ r]
  refine (hfold suite.tests []).trans ?_
  simp

theorem testrunners_eq_nil : testrunners suite = [] ↔ suite.tests = [] := by
  simp only [List.eq_nil_iff_forall_not_mem, mem_testrunners]
  constructor
  · exact fun h t ht => h _ ⟨t, ht, rfl⟩
  · rintro h r ⟨t, ht, _⟩
    exact h t ht

theorem mem_suiteSlots {key : Key} : key ∈ suiteSlots suite ↔ ∃ r ∈ testrunners suite, slotKey suite r = key :=
  List.mem_map

/-- The slots of a suite have different test runners. -/
theorem suiteSlots_nodup (suite : Suite) : (suiteSlots suite).Nodup := by
  refine (testrunners_nodup suite).map ?_
  intro r r' h
  exact congrArg Key.testRunner h

/-- The number goes after the name. -/
theorem requestName_toList (testrunner : String) (h : ¬ (testrunners suite).length ≤ 1) :
    (requestName suite testrunner).toList =
      suite.name.toList ++ '-' :: (toString ((testrunners suite).idxOf testrunner)).toList := by
  unfold requestName
  rw [if_pos (Nat.lt_of_not_le h), String.toList_append, String.toList_append, List.append_assoc]
  rfl

theorem requestName_single (testrunner : String) (h : (testrunners suite).length ≤ 1) :
    requestName suite testrunner = suite.name := by
  unfold requestName
  rw [if_neg (Nat.not_lt.mpr h)]

/-- Different test runners of a suite have requests of different names. -/
theorem requestName_inj {r r' : String} (hr : r ∈ testrunners suite) (hr' : r' ∈ testrunners suite)
    (h : requestName suite r = requestName suite r') : r = r' := by
  by_cases hsingle : (testrunners suite).length ≤ 1
  · have hpos := List.length_pos_of_mem hr
    obtain ⟨x, hx⟩ := List.length_eq_one_iff.mp (Nat.le_antisymm hsingle hpos)
    rw [hx, List.mem_singleton] at hr hr'
    rw [hr, hr']
  · have hlist := congrArg String.toList h
    rw [requestName_toList r hsingle, requestName_toList r' hsingle, List.append_cancel_left_eq,
      List.cons.injEq] at hlist
    have hdigits : Nat.toDigits 10 ((testrunners suite).idxOf r) = Nat.toDigits 10 ((testrunners suite).idxOf r') := by
      rw [← Nat.toList_repr, ← Nat.toList_repr]
      exact hlist.2
    have hidx := congrArg (fun digits => Nat.ofDigitChars 10 digits 0) hdigits
    simp only [Nat.ofDigitChars_ten_toDigits] at hidx
    exact (List.idxOf_inj hr).mp hidx

/-- **Suites that can be told apart**: where two suites have a test runner in common, the name of the later one is not
    a prefix of the name of the request for the earlier one. -/
def Distinguishable (suites : List Suite) : Prop :=
  suites.Pairwise fun earlier later => ∀ r ∈ testrunners earlier, r ∈ testrunners later →
    ¬ Claims later r (slotKey earlier r)

instance (suite : Suite) (testrunner : String) (key : Key) : Decidable (Claims suite testrunner key) :=
  inferInstanceAs (Decidable (_ ∧ _))

instance (suites : List Suite) : Decidable (Distinguishable suites) := inferInstanceAs (Decidable (List.Pairwise _ _))

/-- Then no two slots have the same key. -/
theorem Distinguishable.nodup {suites : List Suite} (h : Distinguishable suites) :
    (suites.flatMap suiteSlots).Nodup := by
  rw [List.nodup_flatMap]
  refine ⟨fun suite _ => suiteSlots_nodup suite, h.imp ?_⟩
  intro earlier later htell key hkey hkey'
  obtain ⟨r, hr, rfl⟩ := mem_suiteSlots.mp hkey
  obtain ⟨r', hr', hsame⟩ := mem_suiteSlots.mp hkey'
  have hrunner : r' = r := congrArg Key.testRunner hsame
  subst hrunner
  refine htell r' hr hr' ?_
  rw [← hsame]
  exact claims_slotKey later r'

end TestRunReconciler

end Etos
