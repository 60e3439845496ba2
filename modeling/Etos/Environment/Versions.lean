import Etos.Operator.Runs

/-!
# `Environment.Versions` — how the stored Environments change

Every version of an Environment that is ever stored is a new Environment, has the specification and the status of the
version before it, or was written by the Environment's own reconciler on top of a version it has heard of
(`EnvironmentChange`). Two facts follow for all runs: the specification of an Environment never changes, and an
Environment that has stopped waiting never waits again (`EnvironmentHistory`).
-/

namespace Etos

open Kube EnvironmentReconciler

/-- The next version of an Environment. -/
inductive EnvironmentChange (w : OperatorState) (new : Environment) : Prop where
  | created (hnew : ∀ y ∈ w.store.past .environment, y.name ≠ new.name) (hst : new.status = {})
  | kept {cur} (hf : w.store.find .environment new.name = some cur) (hst : new.status = cur.status)
      (hspec : new.spec = cur.spec)
  /-- The reconciler changes the Active condition. -/
  | written {cur x c} (hf : w.store.find .environment new.name = some cur) (hspec : new.spec = cur.spec)
      (hg : Got (w.log (.environment new.name)) .environment new.name x) (hc : new.status.cond .active = some c)
      (ha : Activates new.name (w.log (.environment new.name)) x (cur.status.cond .active) c)

/-- A step adds at most one version of an Environment. -/
def EnvironmentStep (w : OperatorState) (s : Namespace) : Prop :=
  s.past .environment = w.store.past .environment ∨
    ∃ new, s.past .environment = new :: w.store.past .environment ∧
      new.metadata.resourceVersion = w.store.version + 1 ∧ EnvironmentChange w new

section

variable {w : OperatorState} {s : Namespace} {o cur x new : Obj .environment} {m : String}

/-- What is put into the store is a new version. -/
theorem EnvironmentStep.put (h : EnvironmentChange w (w.store.stamp x)) :
    EnvironmentStep w (w.store.put .environment x) := .inr ⟨_, Store.put_past x, rfl, h⟩

theorem EnvironmentStep.marked {t : Int} (hf : w.store.find .environment m = some cur) :
    EnvironmentStep w (w.store.put .environment (Store.marked cur t)) := by
  have hcn : cur.name = m := w.store.named hf
  rw [← hcn] at hf
  have hstored : w.store.find .environment (w.store.stamp (Store.marked cur t)).name = some cur := hf
  exact .put (.kept hstored rfl rfl)

/-- A status write lands on a version that the writer has heard of. -/
theorem EnvironmentStep.of_reports (hk : w.Knowing) (hf : w.store.find .environment o.name = some cur)
    (hv : cur.metadata.resourceVersion = o.metadata.resourceVersion) (h : Reports m (w.log (.environment m)) o) :
    EnvironmentStep w (w.store.put .environment { cur with status := o.status }) := by
  obtain ⟨x, x', c, hg, ⟨e, he, hans⟩, hn, hm, hc, ha⟩ := h.written
  have hcn : cur.name = o.name := w.store.named hf
  rw [← hcn] at hf
  obtain rfl : x' = cur := Store.Knows.eq ((hk _ e he).known .environment x' hans) hf (hv.trans (by rw [hm]))
  subst hn
  exact .put (.written hf rfl hg hc ha)

/-- **The calls of the workers.** -/
theorem EnvironmentStep.of_call (hk : w.Knowing) {i : Worker} {op : Op} {a : Ans op}
    (hperm : i.Permits (w.log i) op) (hs : Store.Sem admitted w.store op a s) : EnvironmentStep w s := by
  rcases hs.touches .environment with ⟨_, hpast⟩ | ht
  · exact .inl hpast
  cases ht with
  | create => cases i <;> exact hperm.elim
  | @update o o' cur ha hf hv hok =>
      obtain rfl : o' = o := ha
      cases i with
      | testRun | environmentRequest | resource => exact hperm.elim
      | environment m =>
          have hfin : Finalizes m _ o' := hperm
          cases hfin with
          | @add x hg hlive =>
              obtain rfl : x = cur := Store.Knows.eq ((hk _ _ hg).known .environment x .get) hf
                (hv.trans (ObjectMeta.addFinalizer_resourceVersion ..))
              exact .put (.kept hf rfl rfl)
          | @remove x hg =>
              obtain rfl : x = cur := Store.Knows.eq ((hk _ _ hg).known .environment x .get) hf hv
              exact .put (.kept hf rfl rfl)
  | finish => exact .inl rfl
  | @status o cur hf hv =>
      cases i with
      | testRun | environmentRequest | resource => exact hperm.elim
      | environment m => exact .of_reports hk hf hv hperm
  | remove => exact .inl rfl
  | mark hf => exact .marked hf

/-- **What everybody else does.** -/
theorem EnvironmentStep.of_others {op : Op} {a : Ans op} (ho : others w.store op)
    (hw : Store.Write admitted w.store op a s) : EnvironmentStep w s := by
  rcases hw.touches .environment with ⟨_, hpast⟩ | ht
  · exact .inl hpast
  cases ht with
  | @create o o' n t ha hn hnone =>
      obtain rfl : o' = o := ha
      obtain ⟨hname, _, _, _, hst⟩ := ho
      have hfresh : n ∉ w.store.names .environment := by
        rcases hn with ⟨hne, rfl⟩ | ⟨_, _, hfresh⟩
        · exact hname.resolve_left hne
        · exact hfresh
      refine .put (.created (fun y hy hyn => ?_) hst)
      have hyn : y.name = n := hyn
      exact hfresh (hyn ▸ w.store.filed hy)
  | @update o o' cur ha hf hv hok =>
      obtain rfl : o' = o := ha
      exact .put (.kept hf rfl (ho cur hf).1)
  | finish => exact .inl rfl
  | status =>
      have hkinds : Kind.environment ∉ [Kind.provider, .cluster, .job, .pod] := by decide
      exact absurd ho hkinds
  | remove => exact .inl rfl
  | mark hf => exact .marked hf

/-! ## The history of an Environment -/

/-- The Environment has not taken its resources yet. -/
def Waits (x : Environment) : Prop := ∀ s reason, x.status.cond .active = some (s, reason) → reason = .pending

/-- What the versions of an Environment have in common. -/
structure EnvironmentHistory (s : Namespace) : Prop where
  spec : ∀ x ∈ s.past .environment, ∀ y ∈ s.past .environment, x.name = y.name → x.spec = y.spec
  waits : ∀ x ∈ s.past .environment, ∀ y ∈ s.past .environment, x.name = y.name →
    x.metadata.resourceVersion ≤ y.metadata.resourceVersion → Waits y → Waits x

theorem EnvironmentChange.spec (h : EnvironmentChange w new) (hh : EnvironmentHistory w.store)
    (hx : x ∈ w.store.past .environment) (hxn : x.name = new.name) : x.spec = new.spec := by
  cases h with
  | created hfresh => exact absurd hxn (hfresh x hx)
  | kept hf _ hspec | written hf hspec =>
      rw [hspec]
      exact hh.spec x hx _ (w.store.current hf) (hxn.trans (w.store.named hf).symm)

theorem EnvironmentChange.waits (h : EnvironmentChange w new) (hh : EnvironmentHistory w.store)
    (hx : x ∈ w.store.past .environment) (hxn : x.name = new.name) (hw : Waits new) : Waits x := by
  -- the version below waits, too
  have hbelow : ∀ cur, w.store.find .environment new.name = some cur → Waits cur → Waits x := by
    intro cur hf hcur
    have hcn : cur.name = new.name := w.store.named hf
    refine hh.waits x hx cur (w.store.current hf) (hxn.trans hcn.symm) ?_ hcur
    refine w.store.latest hx ?_
    rw [hxn]
    exact hf
  cases h with
  | created hfresh => exact absurd hxn (hfresh x hx)
  | kept hf hst =>
      refine hbelow _ hf ?_
      rw [Waits, ← hst]
      exact hw
  | @written cur _ c hf _ _ hc ha =>
      refine hbelow _ hf fun st reason hcond => ?_
      generalize cur.status.cond .active = before at ha hcond
      cases ha with
      | waiting => cases hcond
      | ready => cases hw _ _ hc
      | inactive hne => exact absurd (hw _ _ hc) hne

theorem EnvironmentHistory.step (hh : EnvironmentHistory w.store) (h : EnvironmentStep w s) :
    EnvironmentHistory s := by
  rcases h with hsame | ⟨new, hpast, hversion, hnew⟩
  · exact ⟨by rw [hsame]; exact hh.spec, by rw [hsame]; exact hh.waits⟩
  refine ⟨fun x hx y hy hname => ?_, fun x hx y hy hname hle hw => ?_⟩
  · rw [hpast] at hx hy
    rcases List.mem_cons.mp hx with rfl | hx' <;> rcases List.mem_cons.mp hy with rfl | hy'
    · rfl
    · exact (hnew.spec hh hy' hname.symm).symm
    · exact hnew.spec hh hx' hname
    · exact hh.spec x hx' y hy' hname
  · rw [hpast] at hx hy
    rcases List.mem_cons.mp hx with rfl | hx' <;> rcases List.mem_cons.mp hy with rfl | hy'
    · exact hw
    · have hdated := w.store.dated hy'
      omega
    · exact hnew.waits hh hx' hname hw
    · exact hh.waits x hx' y hy' hname hle hw

end

end Etos
