import Etos.Conversion.Convert

/-!
# `Conversion.RoundTrip` — what survives a conversion and back

Two round trips. An object written through v1beta1 is stored as a hub object and read back (`TestRun.stored`,
`Environment.stored`); a stored hub TestRun that a v1beta1 client reads and writes goes the other way round
(`normalised`).

* **Storing loses** the name of a TestRun's suite definition unless it is the name of the object, the
  dependencies and additional resources of every test execution, and the dataset of an Environment; nothing else
  (`stored_lossless_iff`).
* **Normalising rewrites** the names of the suites, drops the log listener, the start time and the suite runner
  references, and makes a nil test runner an empty one, besides folding the parameters into the command
  (`normalised_folded_iff`).
* Normalising is idempotent and keeps what the tests mean (`normalised_idempotent`).
-/

namespace Etos

open Kube

theorem map_mapIdx {α β γ : Type} (l : List α) (f : Nat → α → β) (g : β → γ) :
    (l.mapIdx f).map g = l.mapIdx fun i a => g (f i a) := by
  refine List.ext_getElem? fun i => ?_
  simp [Function.comp_def]

theorem mapIdx_const {α β : Type} (l : List α) (f : α → β) : (l.mapIdx fun _ a => f a) = l.map f := by
  refine List.ext_getElem? fun i => ?_
  simp

namespace V1beta1

variable {order order' order'' : RangeOrder}

/-! ## Storing a v1beta1 object -/

/-- A TestRun after it has been stored and read back. -/
def TestRun.stored (order : RangeOrder) (x : TestRun) : TestRun := .ConvertFrom order x.ConvertTo

/-- An Environment after it has been stored and read back. -/
def Environment.stored (order : RangeOrder) (x : Environment) : Environment := .ConvertFrom order x.ConvertTo

/-- A nil image or test runner taken for an empty one. -/
def TestRunSpec.filled (spec : TestRunSpec) : TestRunSpec :=
  { spec with
    suiteRunner := some (spec.suiteRunner.getD {})
    environmentProvider := some (spec.environmentProvider.getD {})
    testRunner := some (spec.testRunner.getD ⟨""⟩) }

/-- A test execution without dependencies and additional resources. -/
def TestExecution.Plain (t : TestExecution) : Prop :=
  t.dependencies = [] ∧ t.environment.additionalResources = []

/-- What is left of a test execution. -/
def TestExecution.stripped (t : TestExecution) : TestExecution :=
  { t with dependencies := [], environment := { t.environment with additionalResources := [] } }

theorem TestExecution.stripped_eq_self {t : TestExecution} : t.stripped = t ↔ t.Plain := by
  obtain ⟨id, dependencies, testCase, execution, environment⟩ := t
  obtain ⟨testRunner, environment, resources⟩ := environment
  simp only [stripped, Plain, TestExecution.mk.injEq, TestEnvironment.mk.injEq, true_and]
  exact and_congr eq_comm eq_comm

theorem TestExecution.convertFrom_convertTo (t : TestExecution) : convertFrom order t.convertTo = t.stripped := by
  have hcommand : foldParameters order t.execution.command [] = t.execution.command := foldParameters_nil _ _
  simp [convertFrom, convertTo, stripped, TestCase.convertFrom, TestCase.convertTo, Execution.convertFrom,
    Execution.convertTo, TestEnvironment.convertFrom, TestEnvironment.convertTo, Lists.mapsCopy, hcommand]

/-- The test executions of a list come back stripped. -/
theorem stripped_executions (order : RangeOrder) (ts : List TestExecution) :
    (ts.map TestExecution.convertTo).map (TestExecution.convertFrom order) = ts ↔ ∀ t ∈ ts, t.Plain := by
  rw [List.map_map]
  conv_lhs => rhs; rw [← List.map_id ts]
  rw [List.map_inj_left]
  refine forall₂_congr fun t _ => ?_
  rw [Function.comp_apply, TestExecution.convertFrom_convertTo]
  exact TestExecution.stripped_eq_self

theorem Suite.convertFrom_convertTo {name : String} (s : Suite) :
    convertFrom order (s.convertTo name) = s ↔ ∀ t ∈ s.testExecutions, t.Plain := by
  rw [← stripped_executions order]
  obtain ⟨priority, testExecutions, dataset⟩ := s
  simp [convertFrom, convertTo]

/-- The suites come back if their test executions do. -/
theorem suites_stored (order : RangeOrder) (x : TestRun) :
    (TestRun.stored order x).spec.suites = x.spec.suites ↔
      ∀ suite ∈ x.spec.suites, ∀ t ∈ suite.testExecutions, t.Plain := by
  have hstored : (TestRun.stored order x).spec.suites =
      x.spec.suites.map fun suite => Suite.convertFrom order (suite.convertTo "") := by
    show (x.spec.suites.mapIdx _).map _ = _
    rw [map_mapIdx]
    exact mapIdx_const _ fun suite : Suite => Suite.convertFrom order (suite.convertTo "")
  rw [hstored]
  conv_lhs => rhs; rw [← List.map_id x.spec.suites]
  rw [List.map_inj_left]
  exact forall₂_congr fun suite _ => suite.convertFrom_convertTo

theorem imageOf_embed (image : Option Image) : imageOf (embed image) = image.getD {} := by
  cases image <;> rfl

/-- Everything but the name and the suites comes back, with nil images and test runners filled in. -/
theorem TestRun.stored_spec (x : TestRun) :
    (stored order x).spec.filled = { x.spec.filled with
      name := nameOf x.metadata, suites := (stored order x).spec.suites } := by
  have hsr : imageOf (embed x.spec.suiteRunner) = x.spec.suiteRunner.getD {} := imageOf_embed _
  have hep : imageOf (embed x.spec.environmentProvider) = x.spec.environmentProvider.getD {} := imageOf_embed _
  simp [stored, ConvertFrom, ConvertTo, TestRunSpec.filled, hsr, hep]

theorem TestRun.stored_eq_iff (x : TestRun) :
    (stored order x).spec.filled = x.spec.filled ∧ (stored order x).status = x.status ↔
      x.spec.name = nameOf x.metadata ∧ ∀ suite ∈ x.spec.suites, ∀ t ∈ suite.testExecutions, t.Plain := by
  rw [← suites_stored order, stored_spec]
  constructor
  · rintro ⟨hspec, -⟩
    have hname : nameOf x.metadata = x.spec.name := congrArg (·.name) hspec
    have hsuites : (stored order x).spec.suites = x.spec.suites := congrArg (·.suites) hspec
    exact ⟨hname.symm, hsuites⟩
  · rintro ⟨hname, hsuites⟩
    refine ⟨?_, rfl⟩
    rw [hsuites, ← hname]
    rfl

theorem Environment.stored_eq_iff (e : Environment) :
    (stored order e).spec = e.spec ∧ (stored order e).status = e.status ↔
      e.spec.dataset = none ∧ ∀ t ∈ e.spec.testExecutions, t.Plain := by
  rw [← stripped_executions order]
  obtain ⟨metadata, ⟨⟨priority, testExecutions, dataset⟩, _⟩, status⟩ := e
  simp only [stored, ConvertFrom, ConvertTo, EnvironmentSpec.mk.injEq, Suite.mk.injEq, Option.getD_some, and_true,
    true_and]
  rw [and_comm]
  exact and_congr_left fun _ => eq_comm

/-- **When storing loses nothing.** A v1beta1 TestRun comes back with its specification and status exactly if its
    suite definition is named after the object and no test execution has dependencies or additional resources; an
    Environment exactly if it has no dataset and no such test execution. -/
theorem stored_lossless_iff (order : RangeOrder) (x : TestRun) (e : Environment) :
    ((x.stored order).spec.filled = x.spec.filled ∧ (x.stored order).status = x.status ↔
      x.spec.name = nameOf x.metadata ∧ ∀ suite ∈ x.spec.suites, ∀ t ∈ suite.testExecutions, t.Plain) ∧
    ((e.stored order).spec = e.spec ∧ (e.stored order).status = e.status ↔
      e.spec.dataset = none ∧ ∀ t ∈ e.spec.testExecutions, t.Plain) :=
  ⟨TestRun.stored_eq_iff x, Environment.stored_eq_iff e⟩

/-- The keys of a map, as the model lists them. -/
def someOrder : RangeOrder := ⟨StrMap.keys, fun _ => .refl _⟩

/-- A TestRun with two test executions, the second of which depends on the first. -/
def dependentTestRun : TestRun :=
  let execution (id : String) (dependencies : List String) : TestExecution :=
    { id := id, dependencies := dependencies, testCase := { id := "case" }, execution := {}, environment := {} }
  { metadata := { name := "testrun" }
    spec :=
      { name := "testrun", suites := [{ testExecutions := [execution "first" [], execution "second" ["first"]] }] }
    status := {} }

/-- **Storing loses something**: the second test execution no longer depends on the first. -/
theorem dependencies_lost :
    ¬ ((dependentTestRun.stored someOrder).spec.filled = dependentTestRun.spec.filled ∧
      (dependentTestRun.stored someOrder).status = dependentTestRun.status) := by
  decide

/-! ## Normalising a hub TestRun -/

/-- A hub TestRun that has been read and written through v1beta1. -/
def normalised (order : RangeOrder) (h : Etos.TestRun) : Etos.TestRun := (TestRun.ConvertFrom order h).ConvertTo

/-- A test with its parameters folded into its command. -/
def foldTest (order : RangeOrder) (t : Test) : Test :=
  { t with execution :=
      { t.execution with
        command := foldParameters order t.execution.command t.execution.parameters, parameters := [] } }

/-- A suite with the parameters of its tests folded. -/
def foldSuite (order : RangeOrder) (s : Etos.Suite) : Etos.Suite := { s with tests := s.tests.map (foldTest order) }

/-- A suite runner, environment provider or log listener is kept, or a nil image has become an empty one. -/
def ImageKept (old new : Option EmbeddedImage) : Prop :=
  new = old ∨ old.bind (·.image) = none ∧ new = some ⟨some {}⟩

/-- `h'` is `h` with the parameters folded, and perhaps nil images made empty. -/
structure OnlyFolded (order : RangeOrder) (h h' : Etos.TestRun) : Prop where
  metadata : h'.metadata = h.metadata
  suiteRunner : ImageKept h.spec.suiteRunner h'.spec.suiteRunner
  environmentProvider : ImageKept h.spec.environmentProvider h'.spec.environmentProvider
  logListener : ImageKept h.spec.logListener h'.spec.logListener
  spec : h'.spec = { h.spec with
    suites := h.spec.suites.map (foldSuite order)
    suiteRunner := h'.spec.suiteRunner
    environmentProvider := h'.spec.environmentProvider
    logListener := h'.spec.logListener }
  status : h'.status = h.status

theorem convertTo_convertFrom (t : Test) : (TestExecution.convertFrom order t).convertTo = foldTest order t := by
  obtain ⟨id, testCase, execution⟩ := t
  simp [TestExecution.convertFrom, TestExecution.convertTo, foldTest, TestCase.convertFrom, TestCase.convertTo,
    Execution.convertFrom, Execution.convertTo, TestEnvironment.convertFrom, TestEnvironment.convertTo, Lists.mapsCopy]

theorem Suite.convertTo_convertFrom {name : String} (s : Etos.Suite) :
    (convertFrom order s).convertTo name = { foldSuite order s with name := name } := by
  have htests : (s.tests.map (TestExecution.convertFrom order)).map TestExecution.convertTo =
      s.tests.map (foldTest order) := by
    rw [List.map_map]
    exact List.map_congr_left fun t _ => V1beta1.convertTo_convertFrom t
  simp [convertFrom, convertTo, foldSuite, htests]

/-- **What normalising does**, field by field. -/
theorem normalised_eq (order : RangeOrder) (h : Etos.TestRun) :
    normalised order h =
      { metadata := h.metadata
        spec :=
          { h.spec with
            suites := h.spec.suites.mapIdx fun i s => { foldSuite order s with name := suiteName h.metadata i }
            suiteRunner := some ⟨some (imageOf h.spec.suiteRunner)⟩
            environmentProvider := some ⟨some (imageOf h.spec.environmentProvider)⟩
            testRunner := some (h.spec.testRunner.getD ⟨""⟩)
            logListener := none }
        status := { h.status with suiteRunners := [], startTime := none } } := by
  have hsuites : ((h.spec.suites.map (Suite.convertFrom order)).mapIdx
      fun i s => s.convertTo (suiteName h.metadata i)) =
      h.spec.suites.mapIdx fun i s => { foldSuite order s with name := suiteName h.metadata i } := by
    refine List.ext_getElem? fun i => ?_
    rw [List.getElem?_mapIdx, List.getElem?_mapIdx, List.getElem?_map, Option.map_map]
    exact congrArg (Option.map · _) (funext fun s => Suite.convertTo_convertFrom s)
  simp only [normalised, TestRun.ConvertTo, TestRun.ConvertFrom, embed, hsuites, Option.map_some]

theorem imageKept_normalised (old : Option EmbeddedImage) : ImageKept old (some ⟨some (imageOf old)⟩) := by
  match old with
  | none => exact .inr ⟨rfl, rfl⟩
  | some ⟨none⟩ => exact .inr ⟨rfl, rfl⟩
  | some ⟨some i⟩ => exact .inl rfl

theorem imageKept_none {old : Option EmbeddedImage} : ImageKept old none ↔ old = none := by
  constructor
  · rintro (h | ⟨_, h⟩)
    · exact h.symm
    · cases h
  · rintro rfl
    exact .inl rfl

/-- Renaming the suites changes nothing if they have these names. -/
theorem renamed_suites (order : RangeOrder) (h : Etos.TestRun) :
    (h.spec.suites.mapIdx fun i s => { foldSuite order s with name := suiteName h.metadata i }) =
        h.spec.suites.map (foldSuite order) ↔
      ∀ i s, h.spec.suites[i]? = some s → s.name = suiteName h.metadata i := by
  constructor
  · intro heq i s hs
    have hi := congrArg (·[i]?) heq
    simp only [List.getElem?_mapIdx, List.getElem?_map, hs, Option.map_some, Option.some.injEq] at hi
    exact (congrArg Suite.name hi).symm
  · intro hnames
    refine List.ext_getElem? fun i => ?_
    rw [List.getElem?_mapIdx, List.getElem?_map]
    cases hs : h.spec.suites[i]? with
    | none => rfl
    | some s =>
        rw [Option.map_some, Option.map_some, ← hnames i s hs]
        rfl

/-- **When normalising only folds.** Reading and writing a stored TestRun through v1beta1 changes nothing but the
    folding exactly if its suites are named after the object and numbered, it has a test runner and no log listener,
    and its status has no start time and refers to no suite runner. -/
theorem normalised_folded_iff (order : RangeOrder) (h : Etos.TestRun) :
    OnlyFolded order h (normalised order h) ↔
      (∀ i s, h.spec.suites[i]? = some s → s.name = suiteName h.metadata i) ∧ h.spec.logListener = none ∧
        h.spec.testRunner ≠ none ∧ h.status.suiteRunners = [] ∧ h.status.startTime = none := by
  rw [← renamed_suites order, normalised_eq]
  constructor
  · rintro ⟨_, _, _, hlog, hspec, hstatus⟩
    refine ⟨congrArg Etos.TestRunSpec.suites hspec, imageKept_none.mp hlog, fun hnone => ?_, ?_, ?_⟩
    · have hrunner := congrArg Etos.TestRunSpec.testRunner hspec
      rw [hnone] at hrunner
      cases hrunner
    · exact (congrArg Etos.TestRunStatus.suiteRunners hstatus).symm
    · exact (congrArg Etos.TestRunStatus.startTime hstatus).symm
  · rintro ⟨hsuites, hlog, hrunner, hrefs, hstart⟩
    obtain ⟨runner, hrunner⟩ := Option.ne_none_iff_exists'.mp hrunner
    refine ⟨rfl, imageKept_normalised _, imageKept_normalised _, imageKept_none.mpr hlog, ?_, ?_⟩
    · have hget : some (h.spec.testRunner.getD ⟨""⟩) = h.spec.testRunner := by rw [hrunner]; rfl
      rw [hsuites, hget]
    · rw [← hrefs, ← hstart]

/-- A stored TestRun whose suite was given a name. -/
def namedTestRun : Etos.TestRun :=
  { metadata := { name := "testrun" }
    spec := { suites := [{ name := "nightly" }], testRunner := some ⟨"1"⟩ }
    status := {} }

/-- **The name of a suite is rewritten**, which the controller goes by when it looks for the suite's requests. -/
theorem suite_renamed :
    ¬ OnlyFolded someOrder namedTestRun (normalised someOrder namedTestRun) ∧
      (normalised someOrder namedTestRun).spec.suites.map (·.name) = ["testrun-suite-0"] := by
  refine ⟨fun hfolded => ?_, by decide⟩
  have hsuites := congrArg (·.suites.map (·.name)) hfolded.spec
  exact absurd hsuites (by decide)

/-! ## Normalising twice -/

/-- The command with parameters written behind it: ` key` for an empty value, and ` key=value` otherwise. -/
def commandWith (command : String) : List (String × String) → String
  | [] => command
  | (key, value) :: parameters =>
      if value = "" then commandWith (command ++ " " ++ key) parameters
      else commandWith (command ++ " " ++ key ++ "=" ++ value) parameters

/-- How a test comes out of a normalisation: nothing has changed but its command, which has the parameters written
    behind it in ascending order of their keys. -/
def TestKept (t t' : Test) : Prop :=
  t'.id = t.id ∧ t'.testCase = t.testCase ∧ t'.execution.environment = t.execution.environment ∧
    t'.execution.testRunner = t.execution.testRunner ∧ t'.execution.checkout = t.execution.checkout ∧
    t'.execution.execute = t.execution.execute ∧
    ∃ parameters : List (String × String), (parameters.map Prod.fst).Pairwise (· < ·) ∧
      (∀ key value, (key, value) ∈ parameters ↔ t.execution.parameters.lookup key = some value) ∧
      t'.execution.command = commandWith t.execution.command parameters

/-- How a suite comes out of a normalisation: its tests are kept, in their order. -/
def SuiteKept (s s' : Etos.Suite) : Prop :=
  s'.priority = s.priority ∧ s'.dataset = s.dataset ∧ List.Forall₂ TestKept s.tests s'.tests

theorem foldTest_order (t : Test) : foldTest order t = foldTest order' t := by
  rw [foldTest, foldTest, foldParameters_order order order']

theorem foldTest_foldTest (t : Test) : foldTest order' (foldTest order t) = foldTest order t := by
  simp only [foldTest, foldParameters_nil]

theorem foldSuite_foldSuite (order order' order'' : RangeOrder) (s : Etos.Suite) :
    foldSuite order' (foldSuite order s) = foldSuite order'' s := by
  have htests : (s.tests.map (foldTest order)).map (foldTest order') = s.tests.map (foldTest order'') := by
    rw [List.map_map]
    refine List.map_congr_left fun t _ => ?_
    rw [Function.comp_apply, foldTest_foldTest, foldTest_order]
  simp only [foldSuite, htests]

/-- The parameters in ascending order of their keys. -/
def sortedParameters (order : RangeOrder) (m : StrMap) : List (String × String) :=
  (sortedKeys order m).map fun key => (key, m.get key)

theorem mem_sortedParameters {m : StrMap} {key value : String} :
    (key, value) ∈ sortedParameters order m ↔ m.lookup key = some value := by
  have hmem : (key, value) ∈ sortedParameters order m ↔ key ∈ sortedKeys order m ∧ m.get key = value := by
    simp [sortedParameters]
  rw [hmem, mem_sortedKeys, StrMap.has, StrMap.get]
  cases m.lookup key with
  | none => simp
  | some value' => simp

/-- The command as it is written, parameter by parameter. -/
theorem foldParameters_commandWith (order : RangeOrder) (command : String) (m : StrMap) :
    foldParameters order command m = commandWith command (sortedParameters order m) := by
  unfold foldParameters sortedParameters
  generalize sortedKeys order m = keys
  induction keys generalizing command with
  | nil => rfl
  | cons key keys ih =>
      rw [List.foldl_cons, List.map_cons, ih, commandWith, parameterText]
      split
      · rw [String.append_assoc]
      · simp only [String.append_assoc]

theorem testKept_foldTest (t : Test) : TestKept t (foldTest order t) := by
  refine ⟨rfl, rfl, rfl, rfl, rfl, rfl, sortedParameters order t.execution.parameters, ?_, ?_, ?_⟩
  · rw [sortedParameters, List.map_map]
    exact (List.map_id _).symm ▸ sortedKeys_ascending _ _
  · intro key value
    exact mem_sortedParameters
  · exact foldParameters_commandWith _ _ _

/-- Nothing is left to normalise. -/
theorem normalised_normalised (h : Etos.TestRun) :
    normalised order' (normalised order h) = normalised order'' h := by
  have hsuites : ((normalised order h).spec.suites.mapIdx fun i s =>
      ({ foldSuite order' s with name := suiteName h.metadata i } : Etos.Suite)) =
      h.spec.suites.mapIdx fun i s => { foldSuite order'' s with name := suiteName h.metadata i } := by
    rw [normalised_eq, List.mapIdx_mapIdx]
    refine List.mapIdx_eq_mapIdx_iff.mpr fun i hi => ?_
    have hfold := foldSuite_foldSuite order order' order'' h.spec.suites[i]
    rw [← hfold]
    rfl
  rw [normalised_eq order', normalised_eq order'']
  rw [show (normalised order h).metadata = h.metadata from rfl, hsuites, normalised_eq]
  rfl

/-- The suites and tests are kept. -/
theorem suitesKept_normalised (h : Etos.TestRun) :
    List.Forall₂ SuiteKept h.spec.suites (normalised order h).spec.suites := by
  rw [normalised_eq, List.forall₂_iff_get]
  refine ⟨by simp, fun i hi hi' => ?_⟩
  simp only [List.get_eq_getElem, List.getElem_mapIdx]
  refine ⟨rfl, rfl, ?_⟩
  show List.Forall₂ TestKept _ ((h.spec.suites[i]).tests.map (foldTest order))
  rw [List.forall₂_map_right_iff]
  exact List.forall₂_same.mpr fun t _ => testKept_foldTest t

/-- **Normalising is idempotent and keeps the meaning**, in whatever order the maps are ranged over. -/
theorem normalised_idempotent (order order' order'' : RangeOrder) (h : Etos.TestRun) :
    normalised order' (normalised order h) = normalised order'' h ∧
      List.Forall₂ SuiteKept h.spec.suites (normalised order h).spec.suites :=
  ⟨normalised_normalised h, suitesKept_normalised h⟩

/-- A stored TestRun with one test, which has two parameters. -/
def flaggedTestRun : Etos.TestRun :=
  let test : Test :=
    { id := "test", testCase := { id := "case" },
      execution := { command := "run", parameters := [("level", "2"), ("fast", "")], testRunner := "runner" } }
  { metadata := { name := "testrun" }
    spec := { suites := [{ name := "testrun-suite-0", tests := [test] }], testRunner := some ⟨"1"⟩ }
    status := {} }

theorem normalised_idempotent_flagged :
    (normalised someOrder flaggedTestRun).spec.suites.flatMap (·.tests.map (·.execution.command)) =
        ["run fast level=2"] ∧
      normalised someOrder (normalised someOrder flaggedTestRun) = normalised someOrder flaggedTestRun ∧
      List.Forall₂ SuiteKept flaggedTestRun.spec.suites (normalised someOrder flaggedTestRun).spec.suites :=
  ⟨by decide +kernel, normalised_idempotent someOrder someOrder someOrder flaggedTestRun⟩

end V1beta1

end Etos
