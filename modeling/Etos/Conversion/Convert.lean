import Etos.Api.V1beta1
import Etos.Lists.Dict
import Mathlib.Data.List.Sort
import Mathlib.Data.List.Dedup
import Mathlib.Data.String.Basic

/-!
# `Conversion.Convert` — between v1beta1 and the hub

`api/v1beta1/{common,testrun,environment}_conversion.go`, function by function. A `convertTo` fills a fresh hub value
from a v1beta1 one, a `convertFrom` the other way round. None of them can fail: the errors of the Go functions are
always nil.

`Execution.convertFrom` ranges over a map, whose order Go leaves open. The order is a parameter here
(`RangeOrder`), and since the keys are sorted before they are used it does not matter (`foldParameters_order`).
-/

namespace Etos

open Kube

/-! ## Maps -/

/-- The keys of a map. -/
def Kube.StrMap.keys (m : StrMap) : List String := (m.map Prod.fst).dedup

theorem Kube.StrMap.mem_keys {m : StrMap} {k : String} : k ∈ m.keys ↔ m.has k = true := by
  unfold StrMap.keys StrMap.has
  rw [List.mem_dedup]
  induction m with
  | nil => simp
  | cons p rest ih =>
      obtain ⟨k', v⟩ := p
      by_cases h : k = k'
      · subst h
        simp
      · have hk : (k == k') = false := by simpa using h
        simp only [List.map_cons, List.mem_cons, h, false_or, List.lookup_cons, hk]
        exact ih

/-- An order in which `maps.Keys` yields the keys of a map. -/
structure RangeOrder where
  keys : StrMap → List String
  perm : ∀ m, (keys m).Perm m.keys

namespace V1beta1

/-! ## Test cases, executions and environments -/

/-- `TestCase.convertFrom`. -/
def TestCase.convertFrom (src : Etos.TestCase) : TestCase :=
  { id := src.id, version := src.version, repository := src.tracker, uri := src.uri }

/-- `TestCase.convertTo`. -/
def TestCase.convertTo (src : TestCase) : Etos.TestCase :=
  { id := src.id, version := src.version, tracker := src.repository, uri := src.uri }

/-- `slices.Sorted(maps.Keys(m))`. -/
def sortedKeys (order : RangeOrder) (m : StrMap) : List String := (order.keys m).insertionSort (· ≤ ·)

/-- What one parameter adds to the command. -/
def parameterText (parameters : StrMap) (key : String) : String :=
  " " ++ if parameters.get key = "" then key else key ++ "=" ++ parameters.get key

/-- The command with the parameters written behind it, in the order of their sorted keys. -/
def foldParameters (order : RangeOrder) (command : String) (parameters : StrMap) : String :=
  (sortedKeys order parameters).foldl (fun command key => command ++ parameterText parameters key) command

/-- `Execution.convertFrom`. -/
def Execution.convertFrom (order : RangeOrder) (src : Etos.Execution) : Execution :=
  { command := foldParameters order src.command src.parameters
    checkout := src.checkout
    preExecution := src.execute }

/-- `Execution.convertTo`, on a fresh hub execution. The parameters have become part of the command. -/
def Execution.convertTo (src : Execution) : Etos.Execution :=
  { checkout := src.checkout
    execute := src.preExecution
    parameters := []
    command := src.command
    testRunner := "" }

/-- `TestEnvironment.convertFrom`. -/
def TestEnvironment.convertFrom (src : Etos.Execution) : TestEnvironment :=
  { environmentVariables := src.environment, testRunner := src.testRunner }

/-- `TestEnvironment.convertTo`, into the hub execution `dst`. -/
def TestEnvironment.convertTo (src : TestEnvironment) (dst : Etos.Execution) : Etos.Execution :=
  { dst with environment := Lists.mapsCopy dst.environment src.environmentVariables, testRunner := src.testRunner }

/-- `TestExecution.convertFrom`. -/
def TestExecution.convertFrom (order : RangeOrder) (src : Test) : TestExecution :=
  { id := src.id
    testCase := .convertFrom src.testCase
    execution := .convertFrom order src.execution
    environment := .convertFrom src.execution }

/-- `TestExecution.convertTo`. -/
def TestExecution.convertTo (src : TestExecution) : Test :=
  { id := src.id
    testCase := src.testCase.convertTo
    execution := src.environment.convertTo src.execution.convertTo }

/-- `Suite.convertFrom`. -/
def Suite.convertFrom (order : RangeOrder) (src : Etos.Suite) : Suite :=
  { priority := src.priority
    testExecutions := src.tests.map (.convertFrom order)
    dataset := src.dataset }

/-- `Suite.convertTo`, into a suite of the given name. -/
def Suite.convertTo (name : String) (src : Suite) : Etos.Suite :=
  { name := name
    priority := src.priority
    tests := src.testExecutions.map TestExecution.convertTo
    dataset := src.dataset }

/-! ## `TestRun` -/

/-- The name of an object, or the prefix of one that is yet to be generated. -/
def nameOf (m : ObjectMeta) : String := if m.name = "" then m.generateName else m.name

/-- `fmt.Sprintf("%s-suite-%d", name, i)`. -/
def suiteName (m : ObjectMeta) (i : Nat) : String := nameOf m ++ "-suite-" ++ toString i

/-- An image as a `SuiteRunner` or `EnvironmentProvider`. -/
def embed (image : Option Image) : Option EmbeddedImage := image.map fun i => ⟨some i⟩

/-- The image of a `SuiteRunner` or `EnvironmentProvider`; a missing one is empty. -/
def imageOf (src : Option EmbeddedImage) : Image := (src.bind (·.image)).getD {}

/-- `TestRun.ConvertTo`. -/
def TestRun.ConvertTo (src : TestRun) : Etos.TestRun :=
  { metadata := src.metadata
    spec :=
      { id := src.spec.id
        artifact := src.spec.artifact
        schemaVersion := src.spec.schemaVersion
        identity := src.spec.identity
        cluster := src.spec.cluster
        suiteSource := src.spec.suiteSource
        timeout := src.spec.timeout
        deadline := src.spec.deadline
        providers := src.spec.providers
        retention := src.spec.retention
        suites := src.spec.suites.mapIdx fun i suite => suite.convertTo (suiteName src.metadata i)
        suiteRunner := embed src.spec.suiteRunner
        environmentProvider := embed src.spec.environmentProvider
        testRunner := src.spec.testRunner }
    status :=
      { conditions := src.status.conditions
        environmentRequests := src.status.environmentRequests
        completionTime := src.status.completionTime
        verdict := src.status.verdict } }

/-- `TestRun.ConvertFrom`. -/
def TestRun.ConvertFrom (order : RangeOrder) (src : Etos.TestRun) : TestRun :=
  { metadata := src.metadata
    spec :=
      { id := src.spec.id
        name := nameOf src.metadata
        schemaVersion := src.spec.schemaVersion
        artifact := src.spec.artifact
        identity := src.spec.identity
        cluster := src.spec.cluster
        suiteSource := src.spec.suiteSource
        timeout := src.spec.timeout
        deadline := src.spec.deadline
        providers := src.spec.providers
        retention := src.spec.retention
        suites := src.spec.suites.map (.convertFrom order)
        suiteRunner := some (imageOf src.spec.suiteRunner)
        environmentProvider := some (imageOf src.spec.environmentProvider)
        testRunner := some (src.spec.testRunner.getD ⟨""⟩) }
    status :=
      { conditions := src.status.conditions
        environmentRequests := src.status.environmentRequests
        completionTime := src.status.completionTime
        verdict := src.status.verdict } }

/-! ## `Environment` -/

/-- `Environment.ConvertTo`. -/
def Environment.ConvertTo (src : Environment) : Etos.Environment :=
  { metadata := src.metadata
    spec :=
      { name := src.spec.name
        suiteID := src.spec.testrunID
        subSuiteID := src.spec.id
        mainSuiteID := src.spec.mainSuiteID
        artifact := src.spec.artifact
        context := src.spec.context
        testRunner := src.spec.testRunner
        deadline := src.spec.deadline
        priority := src.spec.priority
        iut := src.spec.iut
        executor := src.spec.executor
        logArea := src.spec.logArea
        providers := some src.spec.providers
        tests := src.spec.testExecutions.map TestExecution.convertTo }
    status := { conditions := src.status.conditions, completionTime := src.status.completionTime } }

/-- `Environment.ConvertFrom`. -/
def Environment.ConvertFrom (order : RangeOrder) (src : Etos.Environment) : Environment :=
  { metadata := src.metadata
    spec :=
      { name := src.spec.name
        id := src.spec.subSuiteID
        mainSuiteID := src.spec.mainSuiteID
        testrunID := src.spec.suiteID
        artifact := src.spec.artifact
        context := src.spec.context
        testRunner := src.spec.testRunner
        deadline := src.spec.deadline
        providers := src.spec.providers.getD {}
        priority := src.spec.priority
        iut := src.spec.iut
        executor := src.spec.executor
        logArea := src.spec.logArea
        testExecutions := src.spec.tests.map (.convertFrom order) }
    status := { conditions := src.status.conditions, completionTime := src.status.completionTime } }

/-! ## Folding parameters -/

/-- The sorted keys are the keys of the map, each once and in ascending order. -/
theorem mem_sortedKeys {order : RangeOrder} {m : StrMap} {k : String} :
    k ∈ sortedKeys order m ↔ m.has k = true := by
  rw [sortedKeys, List.mem_insertionSort, (order.perm m).mem_iff, StrMap.mem_keys]

theorem sortedKeys_ascending (order : RangeOrder) (m : StrMap) : (sortedKeys order m).Pairwise (· < ·) := by
  have hle : (sortedKeys order m).Pairwise (· ≤ ·) := List.pairwise_insertionSort _ _
  have hnodup : (sortedKeys order m).Nodup := by
    refine ((List.perm_insertionSort _ _).trans (order.perm m)).nodup_iff.mpr ?_
    exact List.nodup_dedup _
  exact (hle.and hnodup).imp fun ⟨hle, hne⟩ => lt_of_le_of_ne hle hne

/-- They do not depend on the order in which the map yields them. -/
theorem sortedKeys_eq (order order' : RangeOrder) (m : StrMap) : sortedKeys order m = sortedKeys order' m := by
  have hperm : (order.keys m).Perm (order'.keys m) := (order.perm m).trans (order'.perm m).symm
  refine List.Perm.eq_of_sortedLE List.sortedLE_insertionSort List.sortedLE_insertionSort ?_
  exact (List.perm_insertionSort _ _).trans (hperm.trans (List.perm_insertionSort _ _).symm)

theorem foldParameters_order (order order' : RangeOrder) (command : String) (m : StrMap) :
    foldParameters order command m = foldParameters order' command m := by
  rw [foldParameters, foldParameters, sortedKeys_eq order order']

/-- Without parameters the command stays as it is. -/
theorem foldParameters_nil (order : RangeOrder) (command : String) : foldParameters order command [] = command := by
  have hnil : sortedKeys order [] = [] := by
    refine List.eq_nil_iff_forall_not_mem.mpr fun k hk => ?_
    exact absurd (mem_sortedKeys.mp hk) (by simp [StrMap.has])
  rw [foldParameters, hnil]
  rfl

end V1beta1

end Etos
