import Etos.Environment.Completed
import Etos.Environment.Versions

/-!
# `Environment.TimedOut` — a timed out Environment stays timed out

An Environment past its deadline gets Active with reason DeadlineExceeded, and is deleted in a later round. The release
that follows writes Active in five more places. Each of them takes over the reason of the Environment that the round has
read, if that has timed out (`CarriesOver`), and a status made from an older version is refused by the server. So all
later versions of the Environment have timed out, too (**`timed_out_stays`**), the completed one included.
-/

namespace Etos

open Kube

/-- Active has reason DeadlineExceeded. -/
def TimedOut (x : Environment) : Prop := isStatusReason x.status.conditions .active .timedOut = true

instance (x : Environment) : Decidable (TimedOut x) := inferInstanceAs (Decidable (_ = true))

namespace EnvironmentReconciler

/-- A status that is written after `x` has been read has timed out, or is made from `x`, which has not. -/
def CarriesOver (x : Environment) (o : Op) : Prop :=
  ∀ y, o = .updateStatus .environment y → TimedOut y ∨ y.metadata = x.metadata ∧ ¬ TimedOut x

/-- The same, in terms of what the round has heard. -/
def CarriesFrom (name : String) (l : Log) (o : Op) : Prop :=
  ∀ y, o = .updateStatus .environment y →
    TimedOut y ∨ ∃ x, Got l .environment name x ∧ y.metadata = x.metadata ∧ ¬ TimedOut x

variable {x y : Environment} {c : Condition} {t : Int}

theorem timedOut_iff : TimedOut x ↔ ∃ s, x.status.cond .active = some (s, .timedOut) := isStatusReason_cond

/-- Calls that write no status of an Environment. -/
theorem NoStatus.carries {o : Op} (h : NoStatus o) : CarriesOver x o := fun y ho => absurd ho (h y)

theorem carries_of_ext {e : Ext} : CarriesOver x (.ext e) := NoStatus.carries fun _ => nofun
theorem carries_of_delete {k : Kind} {n : String} : CarriesOver x (.delete k n) := NoStatus.carries fun _ => nofun

theorem NoStatus.carriesFrom {name : String} {l : Log} {o : Op} (h : NoStatus o) : CarriesFrom name l o :=
  fun y ho => absurd ho (h y)

theorem carries_of_noStatus {α : Type} {p : M α} (h : p.Calls NoStatus) : p.Calls (CarriesOver x) :=
  h.mono fun _ => NoStatus.carries

theorem carries_of_reads {α : Type} {p : M α} (h : p.Calls IsRead) : p.Calls (CarriesOver x) :=
  carries_of_noStatus (h.mono fun _ => noStatus_of_read)

/-- The reason of a release is the one of a timed out Environment, if it has timed out. -/
theorem releaseReason_timedOut {reason : Reason} (h : TimedOut x) : releaseReason x reason = .timedOut := if_pos h

/-! ## The writes of a round -/

/-- Setting Active. -/
theorem CarriesOver.set (htype : c.type = .active) (hc : TimedOut x → c.reason = .timedOut)
    (hmeta : y.metadata = x.metadata) (hcond : y.status.cond .active = (conditionSet t x c).status.cond .active) :
    CarriesOver x (.updateStatus .environment y) := by
  rintro _ ⟨⟩
  by_cases hx : TimedOut x
  · have hset := conditionSet_cond_self t x c
    rw [htype, hc hx, ← hcond] at hset
    exact .inl (timedOut_iff.mpr ⟨_, hset⟩)
  · exact .inr ⟨hmeta, hx⟩

/-- Setting Active, and going on. -/
theorem setCondition_carries {α : Type} {f : Environment × Bool → M α}
    (h : ∀ now, (f (conditionSet now x c, conditionChanged now x c)).Calls (CarriesOver x)) :
    (setCondition x c >>= f).Calls (CarriesOver x) := by
  rw [setCondition_bind]
  exact ⟨NoStatus.carries fun _ => nofun, fun t => h (unixSeconds t)⟩

theorem setAndPersist_carries (htype : c.type = .active) (hc : TimedOut x → c.reason = .timedOut) :
    (setAndPersist x c).Calls (CarriesOver x) := by
  refine setCondition_carries fun now => ?_
  dsimp only
  split
  · exact ⟨.set htype hc rfl rfl, fun _ => trivial⟩
  · trivial

/-- A waiting Environment has not timed out. -/
theorem not_timedOut_of_pending (h : isStatusReason x.status.conditions .active .pending = true) : ¬ TimedOut x := by
  rw [timedOut_iff]
  rintro ⟨s, hs⟩
  obtain ⟨s', hs'⟩ := isStatusReason_cond.mp h
  rw [hs] at hs'
  cases hs'

theorem reconcileEnvironment_carries (h : ¬ TimedOut x) : (reconcileEnvironment x).Calls (CarriesOver x) := by
  unfold reconcileEnvironment withProviders
  split
  · trivial
  refine (carries_of_noStatus (takeResource_noStatus ..)).bind fun out => ?_
  cases out with
  | error e => trivial
  | ok iut =>
      refine (carries_of_noStatus (takeResource_noStatus ..)).bind fun out => ?_
      cases out with
      | error e => trivial
      | ok logArea =>
          refine (carries_of_noStatus (takeResource_noStatus ..)).bind fun out => ?_
          cases out with
          | error e => trivial
          | ok executionSpace =>
              refine (carries_of_reads (checkProviders_reads _)).bind fun err => ?_
              cases err with
              | some e => trivial
              | none => exact setAndPersist_carries rfl fun ht => absurd ht h

/-- Completing the Environment: the completion time changes nothing about Active. -/
theorem released_carries (manager : JobManager) : (released x manager).Calls (CarriesOver x) := by
  refine (carries_of_reads (result_reads _ _ _)).bind fun result => ?_
  refine (carries_of_noStatus (releaseProviders_noStatus x)).bind ?_
  rintro ⟨updated, err⟩
  dsimp only
  split
  · trivial
  split
  · trivial
  refine setCondition_carries fun now => ?_
  dsimp only
  split
  · obtain ⟨hmeta, hcond⟩ := completeWithActive_eq (conditionSet now x (releasedCondition x result))
    refine ⟨.set (c := releasedCondition x result) (t := now) rfl (fun ht => releaseReason_timedOut ht) hmeta hcond,
      fun a => ?_⟩
    refine ((JobManager.deleteAll_calls _).mono ?_).bind fun _ => trivial
    rintro o ⟨n, rfl⟩
    exact carries_of_delete
  · trivial

theorem releaseJob_reads (x : Environment) : (releaseJob x).Calls IsRead := by
  refine (environmentRequest_reads x).bind fun out => ?_
  cases out with
  | error e => trivial
  | ok request =>
      show Prog.Calls _ (withProviders x _)
      unfold withProviders
      split
      · trivial
      refine (getReleasable_reads _ _).bind fun out => ?_
      cases out with
      | error e => trivial
      | ok iut =>
          refine (getReleasable_reads _ _).bind fun out => ?_
          cases out with
          | error e => trivial
          | ok logArea =>
              refine (getReleasable_reads _ _).bind fun out => ?_
              cases out with
              | error e => trivial
              | ok executionSpace =>
                  refine (checkCluster_reads _).bind fun err => ?_
                  cases err with
                  | some e => trivial
                  | none =>
                      dsimp only
                      split <;> trivial

theorem create_carries : (JobManager.create (releaseJob x)).Calls (CarriesOver x) := by
  refine (carries_of_reads (releaseJob_reads x)).bind fun out => ?_
  cases out with
  | error e => trivial
  | ok job => exact ⟨NoStatus.carries fun _ => nofun, fun _ => trivial⟩

theorem notCreated_carries (err : Err) : (notCreated x err).Calls (CarriesOver x) := by
  unfold notCreated
  split
  · trivial
  refine setCondition_carries fun now => ?_
  dsimp only
  split
  · exact ⟨.set (c := inactive (releaseReason x .failed) err.text) (t := now) rfl
      (fun ht => releaseReason_timedOut ht) rfl rfl, fun _ => trivial⟩
  · trivial

theorem reconcileReleaser_carries : (reconcileReleaser x).Calls (CarriesOver x) := by
  refine (carries_of_reads ((status_looks _).mono fun _ => IsLook.read)).bind ?_
  rintro ⟨manager, jobStatus⟩
  cases jobStatus with
  | error e => trivial
  | ok status =>
      cases status with
      | failed =>
          refine (carries_of_reads (result_reads _ _ _)).bind fun result => ?_
          exact setAndPersist_carries rfl fun ht => releaseReason_timedOut ht
      | successful => exact released_carries manager
      | active => exact setAndPersist_carries rfl fun ht => releaseReason_timedOut ht
      | none =>
          dsimp only
          split
          · trivial
          refine create_carries.bind fun err => ?_
          cases err with
          | some err => exact notCreated_carries err
          | none => trivial

/-- **`reconcile`** carries the reason over. -/
theorem reconcile_carries : (reconcile x).Calls (CarriesOver x) := by
  unfold reconcile
  split
  · rename_i hnone
    refine setCondition_carries fun now => ?_
    refine ⟨.set (t := now) (c := inactive .pending _) rfl ?_ rfl rfl, fun _ => trivial⟩
    intro ht
    obtain ⟨s, hs⟩ := timedOut_iff.mp ht
    rw [ReleasableStatus.cond_eq_none.mpr hnone] at hs
    cases hs
  · split
    · exact ⟨NoStatus.carries fun _ => nofun, fun _ => trivial⟩
    split
    · rename_i hpending
      exact reconcileEnvironment_carries (not_timedOut_of_pending hpending)
    · exact reconcileReleaser_carries

/-- Setting the reason itself. -/
theorem CarriesOver.timedOut (env : Environment) (message : String) :
    CarriesOver x (.updateStatus .environment (conditionSet t env (inactive .timedOut message))) := by
  rintro _ ⟨⟩
  exact .inl (timedOut_iff.mpr ⟨_, conditionSet_cond_self t env (inactive .timedOut message)⟩)

/-- The check of the deadline writes no other reason. -/
theorem checkDeadline_carries (r : EnvironmentReconciler) (env : Environment) :
    (r.checkDeadline env).Calls (CarriesOver x) := by
  unfold checkDeadline
  split
  · refine ⟨carries_of_ext, fun now => ?_⟩
    show Prog.Calls _ (if _ then _ else _)
    split
    · rw [setCondition_bind]
      refine ⟨carries_of_ext, fun t => ?_⟩
      dsimp only
      split
      · exact ⟨.timedOut env _, fun _ => trivial⟩
      · exact ⟨carries_of_delete, fun _ => trivial⟩
    · exact ⟨carries_of_ext, fun _ => trivial⟩
  · trivial

theorem reconcileCompleted_carries : (reconcileCompleted x).Calls (CarriesOver x) := by
  unfold reconcileCompleted
  split
  · refine ⟨NoStatus.carries fun _ => nofun, fun a => ?_⟩
    cases a with
    | error e =>
        show Prog.Calls _ (if _ then _ else _)
        split <;> trivial
    | ok _ => trivial
  · trivial

/-- **Every round** carries the reason over. -/
theorem Reconcile_carries (r : EnvironmentReconciler) (name : String) :
    Obeys (CarriesFrom name) (r.Reconcile name) (fun _ _ => True) [] := by
  refine Follows.call (NoStatus.carriesFrom fun _ h => by cases h) fun a _ => ?_
  cases a with
  | error e => trivial
  | ok x =>
      simp only [Prog.bind]
      refine (Follows.calls (P := CarriesOver x) (J := fun l => Got l .environment name x) ?_ ?_
        List.mem_cons_self).post fun _ _ _ => trivial
      · split
        · exact reconcileCompleted_carries
        · refine reconcile_carries.bind ?_
          rintro ⟨env, err⟩
          cases err with
          | some e => trivial
          | none => exact checkDeadline_carries r env
      · intro l o ho hg
        refine ⟨fun y hy => ?_, fun a _ => List.mem_cons_of_mem _ hg⟩
        exact (ho y hy).imp_right fun hsame => ⟨x, hg, hsame.1, hsame.2⟩

end EnvironmentReconciler

/-! ## All runs -/

open EnvironmentReconciler

/-- The Environments' workers carry the reason over. -/
def Worker.Carries : Worker → Log → Op → Prop
  | .environment n => CarriesFrom n
  | _ => fun _ _ => True

theorem Operator.reconcile_carries (op : Operator) (i : Worker) :
    Obeys i.Carries (op.reconcile i) (fun _ _ => True) [] := by
  cases i with
  | environment n => exact (op.environments.Reconcile_carries n).bind fun _ _ _ => trivial
  | testRun | environmentRequest | resource =>
      exact (Follows.mono (op.reconcile_obeys _) fun _ _ _ => trivial)

/-- No version follows a timed out one that has not timed out. -/
def StaysTimedOut (s : Namespace) : Prop :=
  ∀ x ∈ s.past .environment, ∀ y ∈ s.past .environment, x.name = y.name →
    x.metadata.resourceVersion ≤ y.metadata.resourceVersion → TimedOut x → TimedOut y

section

variable {w : OperatorState} {s : Namespace} {o cur new x : Obj .environment} {m : String}

/-- A new version on top of one that it carries over. -/
theorem StaysTimedOut.put (h : StaysTimedOut w.store) (new : Obj .environment)
    (hf : w.store.find .environment new.name = some cur) (hnew : TimedOut cur → TimedOut new) :
    StaysTimedOut (w.store.put .environment new) := by
  intro x hx y hy hname hle ht
  rw [Store.put_past] at hx hy
  rcases List.mem_cons.mp hx with rfl | hx' <;> rcases List.mem_cons.mp hy with rfl | hy'
  · exact ht
  · -- no earlier version is as new as this one
    have hdated := w.store.dated hy'
    have hstamp : (w.store.stamp new).metadata.resourceVersion = w.store.version + 1 := rfl
    omega
  · -- the version it replaces has timed out by induction
    have hxn : x.name = new.name := hname
    have hcn : cur.name = new.name := w.store.named hf
    rw [← hxn] at hf
    exact hnew (h x hx' cur (w.store.current hf) (hxn.trans hcn.symm) (w.store.latest hx' hf) ht)
  · exact h x hx' y hy' hname hle ht

/-- The first version of an Environment. -/
theorem StaysTimedOut.created (h : StaysTimedOut w.store)
    (hnew : ∀ y ∈ w.store.past .environment, y.name ≠ new.name) :
    StaysTimedOut (w.store.put .environment new) := by
  intro x hx y hy hname hle ht
  rw [Store.put_past] at hx hy
  rcases List.mem_cons.mp hx with rfl | hx' <;> rcases List.mem_cons.mp hy with rfl | hy'
  · exact ht
  · exact absurd hname.symm (hnew y hy')
  · exact absurd hname (hnew x hx')
  · exact h x hx' y hy' hname hle ht

/-- A status that a round has written: it lands on a version that the round has read. -/
theorem StaysTimedOut.status (h : StaysTimedOut w.store) (hk : w.Knowing)
    (hf : w.store.find .environment o.name = some cur)
    (hv : cur.metadata.resourceVersion = o.metadata.resourceVersion)
    (hcarries : CarriesFrom m (w.log (.environment m)) (.updateStatus .environment o)) :
    StaysTimedOut (w.store.put .environment { cur with status := o.status }) := by
  have hcn : cur.name = o.name := w.store.named hf
  rw [← hcn] at hf
  refine h.put _ hf fun ht => ?_
  rcases hcarries o rfl with hto | ⟨x, hg, hmeta, hx⟩
  · exact hto
  · -- the write was not refused, so what the round has read is what it replaces
    obtain rfl : x = cur := Store.Knows.eq ((hk _ _ hg).known .environment x .get) hf (hv.trans (by rw [hmeta]))
    exact absurd ht hx

theorem StaysTimedOut.marked {t : Int} (h : StaysTimedOut w.store) (hf : w.store.find .environment m = some cur) :
    StaysTimedOut (w.store.put .environment (Store.marked cur t)) := by
  have hcn : cur.name = m := w.store.named hf
  rw [← hcn] at hf
  exact h.put (Store.marked cur t) hf id

/-- **The calls of the workers.** -/
theorem StaysTimedOut.call (h : StaysTimedOut w.store) (hk : w.Knowing) {i : Worker} {op : Op} {a : Ans op}
    (hperm : i.Permits (w.log i) op) (hcarries : i.Carries (w.log i) op)
    (hs : Store.Sem admitted w.store op a s) : StaysTimedOut s := by
  rcases hs.touches .environment with ⟨_, hpast⟩ | ht
  · unfold StaysTimedOut
    rw [hpast]
    exact h
  cases ht with
  | create => cases i <;> exact hperm.elim
  | @update o o' cur ha hf => exact h.put (Store.merged cur o') hf id
  | finish => exact h
  | @status o cur hf hv =>
      cases i with
      | testRun | environmentRequest | resource => exact hperm.elim
      | environment m => exact h.status hk hf hv hcarries
  | remove => exact h
  | mark hf => exact h.marked hf

/-- **What everybody else does.** -/
theorem StaysTimedOut.others (h : StaysTimedOut w.store) {op : Op} {a : Ans op} (ho : others w.store op)
    (hw : Store.Write admitted w.store op a s) : StaysTimedOut s := by
  rcases hw.touches .environment with ⟨_, hpast⟩ | ht
  · unfold StaysTimedOut
    rw [hpast]
    exact h
  cases ht with
  | @create o o' n t ha hn hnone =>
      obtain rfl : o' = o := ha
      obtain ⟨hname, _⟩ := ho
      have hfresh : n ∉ w.store.names .environment := by
        rcases hn with ⟨hne, rfl⟩ | ⟨_, _, hfresh⟩
        · exact hname.resolve_left hne
        · exact hfresh
      refine h.created fun y hy hyn => ?_
      have hyn : y.name = n := hyn
      exact hfresh (hyn ▸ w.store.filed hy)
  | @update o o' cur ha hf => exact h.put (Store.merged cur o') hf id
  | finish => exact h
  | status =>
      have hkinds : Kind.environment ∉ [Kind.provider, .cluster, .job, .pod] := by decide
      exact absurd ho hkinds
  | remove => exact h
  | mark hf => exact h.marked hf

end

/-- **A timed out Environment stays timed out**, in every run: once a version of it has been stored in which Active has
    reason DeadlineExceeded, it has that reason in all later versions, also in those with a completion time. -/
theorem timed_out_stays {op : Operator} {c} (h : op.system.Reachable c) (x y : Environment)
    (hx : x ∈ c.state.store.past .environment) (hy : y ∈ c.state.store.past .environment) (hname : x.name = y.name)
    (hle : x.metadata.resourceVersion ≤ y.metadata.resourceVersion) (ht : TimedOut x) : TimedOut y := by
  refine (Operator.invariant_also (I := fun w => StaysTimedOut w.store) op.reconcile_carries ?_ ?_ ?_ ?_
    h.restrict_true).2 x hx y hy hname hle ht
  · exact fun _ hx => (nomatch hx)
  · exact fun _ _ _ hI => hI
  · exact fun i w o a s hk hI hperm hcarries hs _ => hI.call hk hperm hcarries hs
  · exact fun w o a s _ hI ho hw => hI.others ho hw

/-- A round two seconds after the epoch. -/
def lateRound (i : Worker) : Turn :=
  let ext : (x : Ext) → ExtAns x
    | .timeNow => (2000000000 : Int)
    | x => plainExt x
  .round i ⟨ext, 0, fun _ => .serve⟩

/-- An Environment that had one second. It times out and is deleted, and then its release job cannot be created. -/
def environmentExpired : List Turn :=
  other (.create .environment
    { plainEnvironment "environment" with spec := { (plainEnvironment "environment").spec with deadline := 1 } }) ::
  List.replicate 3 (lateRound (.environment "environment"))

/-- The failure does not hide that the Environment has timed out. -/
theorem timed_out_stays_expired :
    ∃ x ∈ (played environmentExpired).store.past .environment,
      ∃ y ∈ (played environmentExpired).store.past .environment,
        (TimedOut x ∧ x.deleting = false) ∧ y.deleting = true ∧ TimedOut y ∧
          y.status.conditions.map (·.message) =
            ["failed to create job spec: failed to find EnvironmentRequest owner"] := by
  have hrun : plainOperator.system.Reachable ⟨played environmentExpired, fun _ => none⟩ :=
    (plays_runs (by decide : Meets (fun _ _ _ _ => True) environmentExpired)).of_restrict
  have hversions : ∃ x ∈ (played environmentExpired).store.past .environment,
      ∃ y ∈ (played environmentExpired).store.past .environment, x.name = y.name ∧
        x.metadata.resourceVersion ≤ y.metadata.resourceVersion ∧ (TimedOut x ∧ x.deleting = false) ∧
        y.deleting = true ∧ y.status.conditions.map (·.message) =
          ["failed to create job spec: failed to find EnvironmentRequest owner"] := by
    decide +kernel
  obtain ⟨x, hx, y, hy, hname, hle, htimedOut, hdeleting, hmessages⟩ := hversions
  exact ⟨x, hx, y, hy, htimedOut, hdeleting, timed_out_stays hrun x y hx hy hname hle htimedOut.1, hmessages⟩

end Etos
