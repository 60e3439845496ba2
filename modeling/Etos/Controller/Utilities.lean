import Etos.Api.Client

/-!
# `Controller.Utilities` — helpers shared by the controllers

`internal/controller/utilities.go` and `internal/controller/providers.go`: finalizer names, ownership by an
Environment, reasons of conditions, the verdict fallback, and the check that the three providers of a
TestRun, EnvironmentRequest or Environment exist and are available.
-/

namespace Etos

open Kube

/-! ## `utilities.go` -/

/-- The finalizer of the Environment and EnvironmentRequest controllers. -/
def releaseFinalizer : String := "etos.eiffel-community.github.io/release"

/-- The finalizer of the Iut, LogArea and ExecutionSpace controllers. -/
def providerFinalizer : String := "etos.eiffel-community.github.io/managed-by-provider"

/-- The label of everything that belongs to one `Spec.Identifier`, the id of a TestRun. -/
def idLabel : String := "etos.eiffel-community.github.io/id"
def clusterLabel : String := "etos.eiffel-community.github.io/cluster"
/-- The label of everything that belongs to one EnvironmentRequest. -/
def requestIdLabel : String := "etos.eiffel-community.github.io/environment-request-id"
def requestLabel : String := "etos.eiffel-community.github.io/environment-request"
def providerLabel : String := "etos.eiffel-community.github.io/provider"

/-- Is one of the owners an Environment? -/
def ownedByEnvironment (ownerReferences : List OwnerReference) : Bool :=
  ownerReferences.any (·.kind = "Environment")

/-- `isStatusReason`. -/
def isStatusReason (conditions : List Condition) (conditionType : ConditionType) (reason : Reason) : Bool :=
  match findStatusCondition conditions conditionType with
  | none => false
  | some condition => condition.reason = reason

theorem isStatusReason_iff {cs : List Condition} {t : ConditionType} {r : Reason} :
    isStatusReason cs t r = true ↔ ∃ c, findStatusCondition cs t = some c ∧ c.reason = r := by
  unfold isStatusReason
  cases findStatusCondition cs t <;> simp

/-- Reasons of other types survive a `SetStatusCondition`. -/
theorem isStatusReason_set_ne {now : Int} {new : Condition} {cs : List Condition} {t : ConditionType}
    {r : Reason} (h : t ≠ new.type) :
    isStatusReason (setStatusCondition now new cs).1 t r = isStatusReason cs t r := by
  unfold isStatusReason
  rw [find_set_ne h]

/-- The reason just set is the reason found. -/
theorem isStatusReason_set_self {now : Int} {new : Condition} {cs : List Condition} {r : Reason} :
    isStatusReason (setStatusCondition now new cs).1 new.type r = decide (new.reason = r) := by
  obtain ⟨c, hf, _, hr, _⟩ := find_set_self now new cs
  unfold isStatusReason
  rw [hf]
  simp [hr]

/-- Is there a verdict to report? -/
def verdictSet (v : Verdict) : Bool := v ≠ "" ∧ v ≠ verdictNone

/-- `setInconclusiveVerdictIfUnset`: the new verdict. -/
def inconclusiveIfUnset (v : Verdict) : Verdict := if verdictSet v then v else verdictInconclusive

/-- `setInconclusiveVerdictIfUnset`, with whether it changed the verdict. -/
def setInconclusiveVerdictIfUnset (testrun : TestRun) : TestRun × Bool :=
  if testrun.status.verdict = "" ∨ testrun.status.verdict = verdictNone then
    ({ testrun with status := { testrun.status with verdict := verdictInconclusive } }, true)
  else (testrun, false)

@[simp] theorem verdictSet_inconclusive : verdictSet verdictInconclusive = true := by decide

theorem verdictSet_inconclusiveIfUnset (v : Verdict) : verdictSet (inconclusiveIfUnset v) = true := by
  unfold inconclusiveIfUnset
  split
  · assumption
  · exact verdictSet_inconclusive

theorem inconclusiveIfUnset_of_set {v : Verdict} (h : verdictSet v = true) : inconclusiveIfUnset v = v := by
  simp [inconclusiveIfUnset, h]

/-- Either way the verdict ends up as `inconclusiveIfUnset`, and a change means it was unset. -/
theorem setInconclusiveVerdictIfUnset_eq (tr : TestRun) :
    setInconclusiveVerdictIfUnset tr =
      ({ tr with status := { tr.status with verdict := inconclusiveIfUnset tr.status.verdict } },
        !verdictSet tr.status.verdict) := by
  unfold setInconclusiveVerdictIfUnset inconclusiveIfUnset verdictSet
  by_cases h₁ : tr.status.verdict = ""
  · simp [h₁]
  · by_cases h₂ : tr.status.verdict = verdictNone <;> simp [h₁, h₂]

/-! ## `Var` -/

/-- `Var.Get`. -/
def Var.get (v : Var) : M (Except Err String) :=
  if v.value ≠ "" then return .ok v.value
  else
    match v.secretKeyRef, v.configMapKeyRef with
    | some selector, _ => M.ext (.readKey .secret selector)
    | none, some selector => M.ext (.readKey .configMap selector)
    | none, none => return .error (.new "found no source for key")

/-- `Password.Get` through a pointer that may be nil. -/
def Var.getPointer : Option Var → M (Except Err String)
  | none => .panic "Password"
  | some v => v.get

/-- `GetPublisher` and `NewPublisher`. A publisher is made with the password of the message bus, a pointer. -/
def getPublisher (parameters : RabbitMQ) : M (Except Err Unit) :=
  match parameters.password with
  | none => .panic "config.Password"
  | some _ => M.ext (.getPublisher parameters)

/-! ## `providers.go` -/

/-- Does a provider have the condition `Available=True`? -/
def Provider.available (p : Provider) : Bool :=
  isStatusConditionPresentAndEqual p.status.conditions .available .true

def checkProvider (name : String) : M (Option Err) := do
  match ← M.get .provider name with
  | .error e => return some e
  | .ok provider =>
      if Provider.available provider then return none
      else return some (.new ("provider '" ++ name ++ "' does not have a status field"))

def checkProviders (providers : Providers) : M (Option Err) := do
  match ← checkProvider providers.iut with
  | some e => return some e
  | none =>
      match ← checkProvider providers.executionSpace with
      | some e => return some e
      | none => checkProvider providers.logArea

end Etos
