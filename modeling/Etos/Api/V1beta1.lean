import Etos.Api.Types

/-!
# `Api.V1beta1` — the second version of TestRun and Environment

The types of `api/v1beta1`. An object of this version is never stored: the API server converts it to the *hub*,
`api/v1alpha1` (`Api.Types`), on every write, and back on every read. What the two versions have in common keeps its
hub type; a nil list or map is the empty one.
-/

namespace Etos.V1beta1

open Kube

/-! ## Suites -/

structure TestCase where
  id : String
  version : String := ""
  repository : String := ""
  uri : String := ""
  deriving DecidableEq, Repr

structure Execution where
  command : String := ""
  checkout : List String := []
  preExecution : List String := []
  deriving DecidableEq, Repr

/-- A provider-defined resource: its type, and the rest of it as JSON. -/
structure AdditionalResource where
  type : String
  json : Option Json := none
  deriving DecidableEq, Repr

structure TestEnvironment where
  testRunner : String := ""
  environmentVariables : StrMap := []
  additionalResources : List AdditionalResource := []
  deriving DecidableEq, Repr

structure TestExecution where
  id : String
  /-- The test executions that must complete before this one. -/
  dependencies : List String := []
  testCase : TestCase
  execution : Execution
  environment : TestEnvironment
  deriving DecidableEq, Repr

structure Suite where
  priority : Int := 1
  testExecutions : List TestExecution := []
  dataset : Option Json := none
  deriving DecidableEq, Repr

/-! ## `TestRun` -/

structure TestSuite where
  name : String := ""
  schemaVersion : String := "v1beta1"
  suites : List Suite := []
  deriving DecidableEq, Repr

structure TestRunSpec extends TestSuite where
  id : String := ""
  artifact : String := ""
  identity : String := ""
  cluster : String := ""
  providers : Providers := {}
  suiteRunner : Option Image := none
  environmentProvider : Option Image := none
  testRunner : Option TestRunner := none
  suiteSource : String := ""
  timeout : Int := 86400
  deadline : Int := 0
  retention : Retention := {}
  deriving DecidableEq, Repr

structure TestRunStatus where
  conditions : List Condition := []
  environmentRequests : List ObjectReference := []
  completionTime : Option Int := none
  verdict : Verdict := ""
  deriving DecidableEq, Repr

abbrev TestRun := Object TestRunSpec TestRunStatus

/-! ## `Environment` -/

structure EnvironmentSpec extends Suite where
  name : String := ""
  id : String := ""
  testrunID : String := ""
  mainSuiteID : String := ""
  artifact : String := ""
  context : String := ""
  testRunner : String := ""
  providers : Providers := {}
  iut : Option Json := none
  executor : Option Json := none
  logArea : Option Json := none
  deadline : Int := 0
  deriving DecidableEq, Repr

abbrev Environment := Object EnvironmentSpec ReleasableStatus

end Etos.V1beta1
