import Etos.Controller.Environment
import Etos.Controller.TestRun
import Etos.Prog.Trace

/-!
# `Operator.WakeUp` — when a reconciler comes back

A TestRun that is kept for a while after it has completed, and a TestRun or Environment before its deadline, have to be
reconciled again when their time is over. `Reconcile` reads the clock to find that there is time left (`FindsTimeLeft`),
and reads it once more to compute how much. If the time runs out in between, or right at the first reading, the
difference is not positive and the reconciler does not come back (**`wakes_up_iff`**, `wake_up_lost`).
-/

namespace Etos

open Kube

namespace TestRunReconciler

/-- How long a completed TestRun is kept: the retention for its reason. -/
def retentionOf (testrun : TestRun) : Option Int :=
  (findStatusCondition testrun.status.conditions .active).bind (retention testrun)

/-- A completed TestRun that is not deleted. The last two calls read the clock. -/
theorem reconcileCompleted_reads {x : TestRun} {completed d : Int} {out : ReconcileResult × Option Err} {log}
    (h : (reconcileCompleted x completed).Returns out log) (hd : retentionOf x = some d) (hok : out.2 = none)
    (hkept : ∀ e ∈ log, e.op ≠ .delete .testRun x.name) :
    ∃ l, ∃ now₁ now₂ : Int, log = l ++ [⟨.ext .timeNow, now₁⟩, ⟨.ext .clockNow, now₂⟩] ∧
      now₁ ≤ unixTime completed + d ∧ out.1.requeueAfter = unixTime completed + d - now₂ := by
  obtain ⟨⟨manager, status⟩, l₁, l₂, rfl, -, h₁⟩ := Prog.returns_bind.mp h
  cases status with
  | error e =>
      obtain ⟨rfl, -⟩ := h₁
      cases hok
  | ok status =>
      obtain ⟨_, l₃, l₄, rfl, -, h₂⟩ := Prog.returns_bind.mp h₁
      obtain ⟨_, l₅, l₆, rfl, -, h₃⟩ := Prog.returns_bind.mp h₂
      obtain ⟨condition, hfound, hretention⟩ := Option.bind_eq_some_iff.mp hd
      rw [hfound] at h₃
      dsimp only at h₃
      rw [hretention] at h₃
      -- the clock is read twice, once for the comparison and once for the delay
      obtain ⟨now₁, l₇, rfl, h₄⟩ := h₃
      replace h₄ : Prog.Returns (if unixTime completed + d < now₁ then _ else _) out l₇ := h₄
      split at h₄
      · obtain ⟨a, l₈, rfl, -⟩ := h₄
        exact absurd rfl (hkept ⟨.delete .testRun x.name, a⟩ (by simp))
      · obtain ⟨now₂, l₈, rfl, rfl, rfl⟩ := h₄
        exact ⟨l₁ ++ (l₃ ++ l₅), now₁, now₂, by simp, by omega, rfl⟩

/-- A TestRun before its deadline. -/
theorem checkDeadline_reads {r : TestRunReconciler} {x : TestRun} {now₁ : Int}
    {out : ReconcileResult × Option Err} {log} (h : (r.checkDeadline x).Returns out (⟨.ext .clockNow, now₁⟩ :: log))
    (hd : x.spec.deadline ≠ 0) (hleft : now₁ ≤ unixTime x.spec.deadline) :
    ∃ now₂ : Int, log = [⟨.ext .timeNow, now₂⟩] ∧ out.1.requeueAfter = unixTime x.spec.deadline - now₂ := by
  unfold checkDeadline at h
  rw [if_neg hd] at h
  obtain ⟨_, _, heq, h⟩ := h
  cases heq
  replace h : Prog.Returns (if now₁ > unixTime x.spec.deadline then _ else _) out log := h
  rw [if_neg (by omega)] at h
  obtain ⟨now₂, _, rfl, rfl, rfl⟩ := h
  exact ⟨now₂, rfl, rfl⟩

end TestRunReconciler

/-- An Environment before its deadline. -/
theorem EnvironmentReconciler.checkDeadline_reads {r : EnvironmentReconciler} {x : Environment} {now₁ : Int}
    {out : ReconcileResult × Option Err} {log} (h : (r.checkDeadline x).Returns out (⟨.ext .timeNow, now₁⟩ :: log))
    (hd : x.spec.deadline ≠ 0) (hlive : x.deleting = false) (hleft : now₁ ≤ unixTime x.spec.deadline) :
    ∃ now₂ : Int, log = [⟨.ext .timeNow, now₂⟩] ∧ out.1.requeueAfter = unixTime x.spec.deadline - now₂ := by
  unfold checkDeadline at h
  rw [if_pos ⟨hd, by rw [hlive]; rfl⟩] at h
  obtain ⟨_, _, heq, h⟩ := h
  cases heq
  replace h : Prog.Returns (if now₁ > unixTime x.spec.deadline then _ else _) out log := h
  rw [if_neg (by omega)] at h
  obtain ⟨now₂, _, rfl, rfl, rfl⟩ := h
  exact ⟨now₂, rfl, rfl⟩

/-- `FindsTimeLeft tr er name p log t`: the calls of a `Reconcile` that finds that there is time left until `t`. -/
inductive FindsTimeLeft (tr : TestRunReconciler) (er : EnvironmentReconciler) (name : String) :
    M (ReconcileResult × Option Err) → List (Said Op Ans) → Int → Prop where
  /-- A completed TestRun has a retention, and is not deleted. -/
  | retained {before log x completed d}
      (hbefore : (tr.Reconcile name).After before (TestRunReconciler.reconcileCompleted x completed))
      (hd : TestRunReconciler.retentionOf x = some d) (hkept : ∀ e ∈ log, e.op ≠ .delete .testRun x.name) :
      FindsTimeLeft tr er name (tr.Reconcile name) (before ++ log) (unixTime completed + d)
  /-- The deadline of a TestRun that has not completed has not passed. -/
  | running {before log x} {now : Int} (hbefore : (tr.Reconcile name).After before (tr.checkDeadline x))
      (hd : x.spec.deadline ≠ 0) (hleft : now ≤ unixTime x.spec.deadline) :
      FindsTimeLeft tr er name (tr.Reconcile name) (before ++ ⟨.ext .clockNow, now⟩ :: log) (unixTime x.spec.deadline)
  /-- The deadline of an Environment that is not being deleted has not passed. -/
  | environment {before log x} {now : Int} (hbefore : (er.Reconcile name).After before (er.checkDeadline x))
      (hd : x.spec.deadline ≠ 0) (hlive : x.deleting = false) (hleft : now ≤ unixTime x.spec.deadline) :
      FindsTimeLeft tr er name (er.Reconcile name) (before ++ ⟨.ext .timeNow, now⟩ :: log) (unixTime x.spec.deadline)

/-- The call read the clock. -/
inductive ReadsNow : Said Op Ans → Int → Prop where
  | timeNow (now : Int) : ReadsNow ⟨.ext .timeNow, now⟩ now
  | clockNow (now : Int) : ReadsNow ⟨.ext .clockNow, now⟩ now

/-- **When a reconciler comes back.** A `Reconcile` that finds that there is time left, and returns no error, has read
    the clock in its last two calls, and it is queued again if and only if there was time left at the second reading,
    too. -/
theorem wakes_up_iff {tr : TestRunReconciler} {er : EnvironmentReconciler} {name : String}
    {p : M (ReconcileResult × Option Err)} {out : ReconcileResult × Option Err} {log : List (Said Op Ans)} {t : Int}
    (h : p.Returns out log) (hleft : FindsTimeLeft tr er name p log t) (hok : out.2 = none) :
    ∃ l e₁ e₂ now₁ now₂, log = l ++ [e₁, e₂] ∧ ReadsNow e₁ now₁ ∧ ReadsNow e₂ now₂ ∧ now₁ ≤ t ∧
      (0 < out.1.requeueAfter ↔ now₂ < t) := by
  cases hleft with
  | @retained before log x completed d hbefore hd hkept =>
      obtain ⟨l, now₁, now₂, rfl, hle, hafter⟩ :=
        TestRunReconciler.reconcileCompleted_reads (hbefore.returns_iff.mp h) hd hok hkept
      refine ⟨before ++ l, _, _, now₁, now₂, (List.append_assoc ..).symm, .timeNow now₁, .clockNow now₂, hle, ?_⟩
      omega
  | @running before log x now hbefore hd hle =>
      obtain ⟨now₂, rfl, hafter⟩ := TestRunReconciler.checkDeadline_reads (hbefore.returns_iff.mp h) hd hle
      refine ⟨before, _, _, now, now₂, rfl, .clockNow now, .timeNow now₂, hle, ?_⟩
      omega
  | @environment before log x now hbefore hd hlive hle =>
      obtain ⟨now₂, rfl, hafter⟩ := EnvironmentReconciler.checkDeadline_reads (hbefore.returns_iff.mp h) hd hlive hle
      refine ⟨before, _, _, now, now₂, rfl, .timeNow now, .timeNow now₂, hle, ?_⟩
      omega

/-- An Environment that is in use until 100 seconds after the epoch. -/
def usedUntil : Environment :=
  { metadata := { name := "environment", finalizers := [releaseFinalizer] }
    spec := { deadline := 100 }
    status := { conditions := [EnvironmentReconciler.readyForUse] } }

/-- Reconcilers that print times as numbers. -/
def untracedTestRuns : TestRunReconciler := { tracer := false, timeString := fun n => toString n }
def plainEnvironments : EnvironmentReconciler := ⟨fun n => toString n⟩

/-- The calls of its `Reconcile`, with two readings of the clock. -/
def usedUntilCalls (now₁ now₂ : Int) : List (Said Op Ans) :=
  [⟨.get .environment "environment", .ok usedUntil⟩,
    ⟨.list .job (.controlledBy apiGroupVersionString EnvironmentReconciler.environmentKind "environment"), .ok []⟩,
    ⟨.ext .timeNow, now₁⟩, ⟨.ext .timeNow, now₂⟩]

theorem usedUntil_returns {now₁ now₂ : Int} (h : now₁ ≤ unixTime 100) :
    (plainEnvironments.Reconcile "environment").Returns ({ requeueAfter := unixTime 100 - now₂ }, none)
      (usedUntilCalls now₁ now₂) := by
  refine ⟨_, _, rfl, _, _, rfl, _, _, rfl, ?_⟩
  show Prog.Returns (if now₁ > unixTime 100 then _ else _) _ _
  rw [if_neg (by omega)]
  exact ⟨_, _, rfl, rfl, rfl⟩

theorem usedUntil_timeLeft {now₁ now₂ : Int} (h : now₁ ≤ unixTime 100) :
    FindsTimeLeft untracedTestRuns plainEnvironments "environment" (plainEnvironments.Reconcile "environment")
      (usedUntilCalls now₁ now₂) (unixTime 100) := by
  have hbefore : (plainEnvironments.Reconcile "environment").After ((usedUntilCalls now₁ now₂).take 2)
      (plainEnvironments.checkDeadline usedUntil) := ⟨_, rfl, _, rfl, rfl⟩
  exact .environment hbefore (by decide) rfl h

/-- A second later it is still in time. -/
theorem wakes_up_iff_used :
    ∃ out, (plainEnvironments.Reconcile "environment").Returns out (usedUntilCalls (unixTime 98) (unixTime 99)) ∧
      ∃ l e₁ e₂ now₁ now₂, usedUntilCalls (unixTime 98) (unixTime 99) = l ++ [e₁, e₂] ∧ ReadsNow e₁ now₁ ∧
        ReadsNow e₂ now₂ ∧ now₁ ≤ unixTime 100 ∧ (0 < out.1.requeueAfter ↔ now₂ < unixTime 100) := by
  have hle : unixTime 98 ≤ unixTime 100 := by decide
  exact ⟨_, usedUntil_returns hle, wakes_up_iff (usedUntil_returns hle) (usedUntil_timeLeft hle) rfl⟩

/-- The clock stands at the deadline: it has not passed, but nothing is queued. -/
theorem wake_up_lost :
    ∃ out log l e₁ e₂ now₁ now₂, (plainEnvironments.Reconcile "environment").Returns out log ∧
      FindsTimeLeft untracedTestRuns plainEnvironments "environment" (plainEnvironments.Reconcile "environment") log
        (unixTime 100) ∧ out.2 = none ∧ log = l ++ [e₁, e₂] ∧ ReadsNow e₁ now₁ ∧ ReadsNow e₂ now₂ ∧ now₁ ≤ now₂ ∧
        ¬ 0 < out.1.requeueAfter := by
  have hle : unixTime 100 ≤ unixTime 100 := Int.le_refl _
  exact ⟨_, usedUntilCalls (unixTime 100) (unixTime 100), (usedUntilCalls (unixTime 100) (unixTime 100)).take 2, _, _,
    unixTime 100, unixTime 100, usedUntil_returns hle, usedUntil_timeLeft hle, rfl, rfl, .timeNow _, .timeNow _, hle,
    by decide⟩

end Etos
