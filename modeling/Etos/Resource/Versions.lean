import Etos.Operator.Jobs

/-!
# `Resource.Versions` — how Iuts, LogAreas and ExecutionSpaces change

Two kinds of workers and everybody else write a resource: its own reconciler adds and drops the provider finalizer and
reports on it, an Environment takes it over and gives it up again, and others label it and mark it for deletion.
`ResourceChange` lists what the next version of a resource can be, in terms of the stored version and of what the writer
has heard. `ResourceStep` says what a step does to the resources of one kind: nothing, a new version, or the end of one
of them. That every call and every write of somebody else is such a step is **`ResourceStep.of_call`** and
`ResourceStep.of_others`.
-/

namespace Etos

open Kube EnvironmentReconciler

/-- What is reported in the status of a resource, on top of the stored version. -/
inductive Reported (r : ResourceKind) (n : String) (l : Log) (cur new : ReleasableStatus) : Prop where
  /-- Its own reconciler releases it. -/
  | releases (hopen : cur.completionTime = none)
      (h : Releases (.resource r n) [r.releaserName] l (cur.progress .active) (new.progress .active))
  /-- An Environment owns it. -/
  | mirrors (hc : new.completionTime = cur.completionTime)
      (ha : ∀ s reason, new.cond .active = some (s, reason) → reason ≠ .failed ∧ reason ≠ .completed)

/-- The next version of a resource. -/
inductive ResourceChange (r : ResourceKind) (w : OperatorState) (new : Resource r) : Prop where
  /-- A new resource, under a name that was never used. -/
  | created (hnew : ∀ y ∈ w.store.past (.resource r), y.name ≠ new.name) (hst : new.status = {})
      (hfin : new.metadata.finalizers = []) (hctrl : new.metadata.controllerOf = none)
      (hfree : ownedByEnvironment new.metadata.ownerReferences = false)
  /-- Other labels, or the deletion mark. -/
  | kept {cur} (hf : w.store.find (.resource r) new.name = some cur) (hst : new.status = cur.status)
      (hfin : new.metadata.finalizers = cur.metadata.finalizers)
      (hown : new.metadata.ownerReferences = cur.metadata.ownerReferences)
  /-- The provider finalizer is added. -/
  | added {cur} (hf : w.store.find (.resource r) new.name = some cur) (hst : new.status = cur.status)
      (hfin : new.metadata.finalizers = (cur.metadata.addFinalizer providerFinalizer).finalizers)
      (hown : new.metadata.ownerReferences = cur.metadata.ownerReferences)
  /-- It is dropped: an Environment owns the resource, or the resource has been released. -/
  | dropped {cur} (hf : w.store.find (.resource r) new.name = some cur) (hst : new.status = cur.status)
      (hfin : new.metadata.finalizers = (cur.metadata.removeFinalizer providerFinalizer).finalizers)
      (hown : new.metadata.ownerReferences = cur.metadata.ownerReferences)
      (hwhy : ownedByEnvironment cur.metadata.ownerReferences = true ∨ cur.status.completionTime ≠ none)
  /-- The Environment `m` takes the resource. -/
  | taken {cur m s providers env} (hf : w.store.find (.resource r) new.name = some cur)
      (hst : new.status = cur.status) (hg : Got (w.log (.environment m)) .environment m env)
      (ha : env.status.cond .active = some (s, .pending)) (hp : env.spec.providers = some providers)
      (hname : new.name = named providers r) (hfree : cur.metadata.hasControllerReference = false)
      (hfin : new.metadata.finalizers = (ownedMeta env cur.metadata).finalizers)
      (hown : new.metadata.ownerReferences = (ownedMeta env cur.metadata).ownerReferences)
  /-- The Environment `m`, whose release job has completed, gives it up. -/
  | released {cur m s reason providers env} (hf : w.store.find (.resource r) new.name = some cur)
      (hst : new.status = cur.status) (hg : Got (w.log (.environment m)) .environment m env)
      (ha : env.status.cond .active = some (s, reason)) (hr : reason ≠ .pending)
      (hj : JobComplete (.environment m) (w.log (.environment m))) (hp : env.spec.providers = some providers)
      (hname : new.name = named providers r) (hy : Got (w.log (.environment m)) (.resource r) new.name cur)
      (hfin : new.metadata.finalizers = (cur.metadata.removeFinalizer releaseFinalizer).finalizers)
      (hown : new.metadata.ownerReferences = cur.metadata.ownerReferences)
  /-- Its reconciler writes the status. -/
  | reported {cur} (hf : w.store.find (.resource r) new.name = some cur) (hm : new.metadata = cur.metadata)
      (h : Reported r new.name (w.log (.resource r new.name)) cur.status new.status)

/-- What a step does to the resources of a kind. -/
inductive ResourceStep (r : ResourceKind) (w : OperatorState) : Namespace → Prop where
  | same {s : Namespace} (hfind : s.find (.resource r) = w.store.find (.resource r))
      (hpast : s.past (.resource r) = w.store.past (.resource r)) : ResourceStep r w s
  | next {new} (h : ResourceChange r w new) : ResourceStep r w (w.store.put (.resource r) new)
  /-- The last finalizer of a resource under deletion goes. -/
  | last {new} (h : ResourceChange r w new) (hlast : new.metadata.finalizers = []) :
      ResourceStep r w (w.store.erase (.resource r) new.name)
  /-- A resource without finalizers is deleted. -/
  | removed {n cur} (hf : w.store.find (.resource r) n = some cur) (hfree : cur.metadata.finalizers = []) :
      ResourceStep r w (w.store.erase (.resource r) n)

section

variable {r : ResourceKind} {w : OperatorState} {s : Namespace} {o o' cur : Obj (.resource r)}

/-- An update of the own reconciler. -/
theorem ResourceChange.of_finalizes {n : String} (hk : w.Knowing) (ha : admitted w.store (.resource r) o o')
    (hf : w.store.find (.resource r) o'.name = some cur)
    (hv : cur.metadata.resourceVersion = o'.metadata.resourceVersion)
    (h : ResourceReconciler.Finalizes r n (w.log (.resource r n)) o) :
    ResourceChange r w (Store.merged cur o') := by
  obtain ⟨request, _, rfl⟩ := ha
  cases h with
  | @add x hg hlive =>
      obtain rfl : x = cur :=
        Store.Knows.eq ((hk _ _ hg).known (.resource r) x .get) hf
          (hv.trans (ObjectMeta.addFinalizer_resourceVersion ..))
      exact .added hf rfl rfl (ObjectMeta.addFinalizer_ownerReferences ..)
  | @handOver x hg hown =>
      obtain rfl : x = cur := Store.Knows.eq ((hk _ _ hg).known (.resource r) x .get) hf hv
      exact .dropped hf rfl rfl rfl (.inl hown)
  | @release x hg hc =>
      obtain rfl : x = cur := Store.Knows.eq ((hk _ _ hg).known (.resource r) x .get) hf hv
      exact .dropped hf rfl rfl rfl (.inr hc)

/-- An update of an Environment. -/
theorem ResourceChange.of_handles {m : String} (hk : w.Knowing) (ha : admitted w.store (.resource r) o o')
    (hf : w.store.find (.resource r) o'.name = some cur)
    (hv : cur.metadata.resourceVersion = o'.metadata.resourceVersion)
    (h : Handles m (w.log (.environment m)) r o) : ResourceChange r w (Store.merged cur o') := by
  obtain ⟨request, _, rfl⟩ := ha
  cases h with
  | @take env st providers y hg ha hp hy hfree =>
      have hyn : y.name = named providers r := (hk _ _ hy).named (.resource r) _ y rfl
      have hv' : (ownedMeta env y.metadata).resourceVersion = y.metadata.resourceVersion :=
        ObjectMeta.addFinalizer_resourceVersion ..
      have hname : (ownedMeta env y.metadata).name = y.name := ObjectMeta.addFinalizer_name ..
      obtain rfl : y = cur := Store.Knows.eq ((hk _ _ hy).known (.resource r) y .get) hf (hv.trans hv')
      exact .taken hf rfl hg ha hp (hname.trans hyn) hfree rfl rfl
  | @release env st reason providers y hg ha hr hj hp hy hfin =>
      have hyn : y.name = named providers r := (hk _ _ hy).named (.resource r) _ y rfl
      obtain rfl : y = cur := Store.Knows.eq ((hk _ _ hy).known (.resource r) y .get) hf hv
      refine .released hf rfl hg ha hr hj hp hyn ?_ rfl rfl
      rw [← hyn] at hy
      exact hy

/-- A status write of the own reconciler. -/
theorem ResourceChange.of_reports {n : String} (hk : w.Knowing) (hf : w.store.find (.resource r) o.name = some cur)
    (hv : cur.metadata.resourceVersion = o.metadata.resourceVersion)
    (h : ResourceReconciler.Reports r n (w.log (.resource r n)) o) :
    ResourceChange r w { cur with status := o.status } := by
  have hcn : cur.name = o.name := w.store.named hf
  rw [← hcn] at hf
  cases h with
  | @releases x _ hg hm hopen hnot h =>
      obtain rfl : x = cur := Store.Knows.eq ((hk _ _ hg).known (.resource r) x .get) hf (hv.trans (by rw [hm]))
      obtain rfl : x.name = n := (hk _ _ hg).named (.resource r) n x rfl
      exact .reported hf rfl (.releases hopen h)
  | @managed x _ hx hn hm hc ha =>
      obtain ⟨e, he, hans⟩ := hx
      obtain rfl : x = cur := Store.Knows.eq ((hk _ e he).known (.resource r) x hans) hf (hv.trans (by rw [hm]))
      exact .reported hf rfl (.mirrors hc ha)

/-- The deletion mark. -/
theorem ResourceChange.marked {n : String} {t : Int} (hf : w.store.find (.resource r) n = some cur) :
    ResourceChange r w (Store.marked cur t) := by
  have hcn : cur.name = n := w.store.named hf
  rw [← hcn] at hf
  have hstored : w.store.find (.resource r) (Store.marked cur t).name = some cur := hf
  exact .kept hstored rfl rfl rfl

/-- Every version after a step is an old one or the new one. -/
theorem ResourceStep.mem_past (h : ResourceStep r w s) {x : Obj (.resource r)} (hx : x ∈ s.past (.resource r)) :
    x ∈ w.store.past (.resource r) ∨ ∃ new : Obj (.resource r), ResourceChange r w new ∧ x = w.store.stamp new := by
  cases h with
  | same _ hpast =>
      rw [hpast] at hx
      exact .inl hx
  | @next new h =>
      have hpast := Store.put_past (s := w.store) (k := Kind.resource r) new
      rw [hpast] at hx
      rcases List.mem_cons.mp hx with rfl | hx
      · exact .inr ⟨new, h, rfl⟩
      · exact .inl hx
  | last => exact .inl hx
  | removed => exact .inl hx

/-- **The calls of the workers.** -/
theorem ResourceStep.of_call (hk : w.Knowing) {i : Worker} {op : Op} {a : Ans op} (hperm : i.Permits (w.log i) op)
    (hs : Store.Sem admitted w.store op a s) : ResourceStep r w s := by
  rcases hs.touches (.resource r) with ⟨hfind, hpast⟩ | ht
  · exact .same hfind hpast
  -- what an update makes of the stored version
  have hupdate : ∀ {o o' cur : Obj (.resource r)}, i.Permits (w.log i) (.update (.resource r) o) →
      admitted w.store (.resource r) o o' → w.store.find (.resource r) o'.name = some cur →
      cur.metadata.resourceVersion = o'.metadata.resourceVersion → ResourceChange r w (Store.merged cur o') := by
    intro o o' cur hperm ha hf hv
    cases i with
    | testRun | environmentRequest => exact hperm.elim
    | environment m => exact .of_handles hk ha hf hv hperm
    | resource r' n =>
        obtain ⟨rfl, hfin⟩ := hperm
        exact .of_finalizes hk ha hf hv hfin
  cases ht with
  | create =>
      cases i <;> exact hperm.elim
  | update ha hf hv => exact .next (hupdate hperm ha hf hv)
  | @finish o o' cur ha hf hv _ hlast =>
      exact @ResourceStep.last r w (Store.merged cur o') (hupdate hperm ha hf hv) hlast
  | @status o cur hf hv =>
      cases i with
      | testRun | environmentRequest | environment => exact hperm.elim
      | resource r' n =>
          obtain ⟨rfl, hrep⟩ := hperm
          exact .next (.of_reports hk hf hv hrep)
  | remove hf hfree => exact .removed hf hfree
  | mark hf => exact .next (.marked hf)

/-- **What everybody else does.** -/
theorem ResourceStep.of_others {op : Op} {a : Ans op} (ho : others w.store op)
    (hw : Store.Write admitted w.store op a s) : ResourceStep r w s := by
  rcases hw.touches (.resource r) with ⟨hfind, hpast⟩ | ht
  · exact .same hfind hpast
  have hupdate : ∀ {o o' cur : Obj (.resource r)}, others w.store (.update (.resource r) o) →
      admitted w.store (.resource r) o o' → w.store.find (.resource r) o'.name = some cur →
      ResourceChange r w (Store.merged cur o') := by
    rintro o o' cur ho ⟨request, _, rfl⟩ hf
    obtain ⟨_, hfin, hown⟩ := ho cur hf
    exact .kept hf rfl hfin hown
  cases ht with
  | @create o o' n t ha hn hnone =>
      obtain ⟨request, _, rfl⟩ := ha
      obtain ⟨hname, hfin, hctrl, hfree, hst⟩ := ho
      have hfresh : n ∉ w.store.names (.resource r) := by
        rcases hn with ⟨hne, rfl⟩ | ⟨_, _, hfresh⟩
        · exact hname.resolve_left hne
        · exact hfresh
      refine .next (.created (fun y hy hyn => ?_) hst hfin hctrl hfree)
      have hyn : y.name = n := hyn
      exact hfresh (hyn ▸ w.store.filed hy)
  | update ha hf => exact .next (hupdate ho ha hf)
  | @finish o o' cur ha hf _ _ hlast =>
      exact @ResourceStep.last r w (Store.merged cur o') (hupdate ho ha hf) hlast
  | status =>
      have hkinds : Kind.resource r ∉ [Kind.provider, .cluster, .job, .pod] := by
        cases r <;> decide
      exact absurd ho hkinds
  | remove hf hfree => exact .removed hf hfree
  | mark hf => exact .next (.marked hf)

end

/-- An Iut that has got the provider finalizer and is deleted then. -/
def iutDeleted : List Turn :=
  providersCreated ++ [other (.create .environmentRequest (plainRequest "request")),
    other (.create (.resource .iut) (plainIut "iut" "request")), round (.resource .iut "iut"),
    round (.resource .iut "iut"), other (.delete (.resource .iut) "iut")]

end Etos
