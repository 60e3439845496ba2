import Etos.Operator.Runs

/-!
# `EnvironmentRequest.Versions` — how the stored requests change

Every version of an EnvironmentRequest that is ever stored was created new, carries the status of the version before
it, or was written by the request's own worker from the version it has read (`NewVersion`). That a call and a write of
somebody else add at most such a version is **`RequestStep.of_call`** and `RequestStep.of_others`; the invariants of the
requests follow from these two.
-/

namespace Etos

open Kube EnvironmentRequestReconciler

/-- The same owners, and the same purpose. -/
def Alike (x y : EnvironmentRequest) : Prop :=
  x.metadata.ownerReferences = y.metadata.ownerReferences ∧
    TestRunReconciler.requestKey x = TestRunReconciler.requestKey y

/-- How a new version comes about; `wrote` says that the step is a status write of the worker, `made` that it creates
    the request. -/
inductive NewVersion (w : OperatorState) (wrote : String → Prop) (made : EnvironmentRequest → Prop)
    (new : EnvironmentRequest) : Prop where
  /-- A request with a name that was never used. -/
  | created (hnew : ∀ y ∈ w.store.past .environmentRequest, y.name ≠ new.name) (hst : new.status = {})
      (hmade : ∃ o, made o ∧ Alike new o)
  /-- An update: the status stays, and so do the finalizers as long as the request is not being deleted. -/
  | kept {cur} (hf : w.store.find .environmentRequest new.name = some cur) (hst : new.status = cur.status)
      (hfin : new.deleting = false → cur.deleting = false ∧
        ∀ f ∈ cur.metadata.finalizers, f ∈ new.metadata.finalizers)
      (hsame : Alike new cur)
  /-- A status write of the worker, from the version it has read. -/
  | written {cur} (hwrote : wrote new.name) (hf : w.store.find .environmentRequest new.name = some cur)
      (hopen : Opened new.name (w.log (.environmentRequest new.name)) cur)
      (hm : new.metadata = { cur.metadata with resourceVersion := new.metadata.resourceVersion })
      (ha : Advance (Mishap cur (w.log (.environmentRequest new.name))) (cur.status.progress .ready)
        (new.status.progress .ready))
      (hsame : Alike new cur)

/-- A step adds at most one version of a request. -/
def RequestStep (w : OperatorState) (wrote : String → Prop) (made : EnvironmentRequest → Prop) (s : Namespace) :
    Prop :=
  s.past .environmentRequest = w.store.past .environmentRequest ∨
    ∃ new, s.past .environmentRequest = new :: w.store.past .environmentRequest ∧
      new.metadata.resourceVersion = w.store.version + 1 ∧ NewVersion w wrote made new

section

variable {w : OperatorState} {wrote : String → Prop} {made : EnvironmentRequest → Prop} {s : Namespace}
  {o x cur : EnvironmentRequest}

/-- What is put into the store is a new version. -/
theorem RequestStep.put (h : NewVersion w wrote made (w.store.stamp (k := Kind.environmentRequest) x)) :
    RequestStep w wrote made (w.store.put .environmentRequest x) := by
  have hpast : (w.store.put .environmentRequest x).past .environmentRequest =
      w.store.stamp (k := Kind.environmentRequest) x :: w.store.past .environmentRequest :=
    Store.put_past (s := w.store) (k := Kind.environmentRequest) x
  exact .inr ⟨_, hpast, rfl, h⟩

/-- A create under a name that was never used. -/
theorem RequestStep.created {n : String} {t : Int} (hn : n ∉ w.store.names .environmentRequest) (hst : o.status = {})
    (hmade : ∃ o', made o' ∧ Alike o o') :
    RequestStep w wrote made
      (w.store.put .environmentRequest (Store.renamed (k := Kind.environmentRequest) o n t)) := by
  refine .put (.created (fun y hy hname => ?_) hst hmade)
  have hnamed : y.name = n := hname
  exact hn (hnamed ▸ w.store.filed hy)

/-- An update that keeps the finalizers, or is made of a request that is being deleted. -/
theorem RequestStep.updated (hf : w.store.find .environmentRequest o.name = some cur)
    (hfin : cur.deleting = false → ∀ f ∈ cur.metadata.finalizers, f ∈ o.metadata.finalizers) (hsame : Alike o cur) :
    RequestStep w wrote made (w.store.put .environmentRequest (Store.merged (k := Kind.environmentRequest) cur o)) := by
  refine .put (.kept hf rfl (fun hlive => ?_) hsame)
  have hlive' : cur.deleting = false := hlive
  exact ⟨hlive', hfin hlive'⟩

/-- The deletion mark. -/
theorem RequestStep.marked {t : Int} (hf : w.store.find .environmentRequest cur.name = some cur) :
    RequestStep w wrote made (w.store.put .environmentRequest (Store.marked (k := Kind.environmentRequest) cur t)) := by
  refine .put (.kept hf rfl (fun hlive => ?_) ⟨rfl, rfl⟩)
  cases hlive

/-- What a worker has read and still has the stored resource version is the stored request. -/
theorem Knowing.got_eq (hk : w.Knowing) {i : Worker} {k : Kind} {n m : String} {x cur : Obj k}
    (hg : Got (w.log i) k n x) (hf : w.store.find k m = some cur)
    (hv : cur.metadata.resourceVersion = x.metadata.resourceVersion) : x = cur :=
  Store.Knows.eq ((hk i _ hg).known k x .get) hf hv

/-- **The calls of the workers.** -/
theorem RequestStep.of_call (hk : w.Knowing) {i : Worker} {op : Op} {a : Ans op} (hperm : i.Permits (w.log i) op)
    (hs : Store.Sem admitted w.store op a s) :
    RequestStep w (fun n => i = .environmentRequest n ∧ WritesStatus .environmentRequest op)
      (fun o => op = .create .environmentRequest o) s := by
  rcases hs.touches .environmentRequest with ⟨_, hpast⟩ | ht
  · exact .inl hpast
  cases ht with
  | @create o o' n t ha hn hnone =>
      -- only TestRun workers create requests, and they leave the name to the server
      obtain ⟨id, now, rfl⟩ := ha
      cases i with
      | testRun m =>
          have hmay : TestRunReconciler.MayRequest m _ o := hperm
          refine .created ?_ hmay.new.2.2 ⟨o, rfl, rfl, rfl⟩
          rcases hn with ⟨hname, _⟩ | ⟨_, _, hfresh⟩
          · exact absurd hmay.new.1 hname
          · exact hfresh
      | environmentRequest | environment | resource => exact hperm.elim
  | @update o o' cur ha hf hv hok =>
      obtain ⟨id, now, rfl⟩ := ha
      cases i with
      | testRun | environment | resource => exact hperm.elim
      | environmentRequest n =>
          have hfinal : Finalizes n _ o := hperm
          cases hfinal with
          | @add x hg hlive' =>
              have hv' : cur.metadata.resourceVersion = x.metadata.resourceVersion :=
                hv.trans (ObjectMeta.addFinalizer_resourceVersion ..)
              obtain rfl := Knowing.got_eq hk hg hf hv'
              refine .updated hf (fun _ f hmem => ?_) ⟨ObjectMeta.addFinalizer_ownerReferences .., rfl⟩
              exact (ObjectMeta.mem_addFinalizer ..).mpr (.inr hmem)
          | @remove x x' hg hdel hs' hnone =>
              -- the request in memory is the stored one, which is being deleted
              obtain ⟨hpast, _, hmeta⟩ := hs'.eq hk hg
              have hsame : x' = cur := w.store.unique hpast (w.store.current hf) hv.symm
              have hdel' : x'.deleting = true := by
                rw [Object.deleting, hmeta]
                exact hdel
              refine .updated hf (fun hlive => ?_) ?_
              · rw [hsame, hlive] at hdel'
                cases hdel'
              · rw [← hsame]
                exact ⟨rfl, rfl⟩
  | finish => exact .inl rfl
  | @status o cur hf hv =>
      cases i with
      | testRun | environment | resource => exact hperm.elim
      | environmentRequest n =>
          obtain ⟨x, hopen, hm, ha⟩ := hperm
          have hv' : cur.metadata.resourceVersion = x.metadata.resourceVersion := by rw [hv, hm]
          obtain rfl := Knowing.got_eq hk hopen.got hf hv'
          have hx : x.name = o.name := w.store.named hf
          have hn : x.name = n := (hk _ _ hopen.got).named _ _ _ rfl
          subst hn
          refine .put (.written ⟨rfl, o, rfl⟩ ?_ hopen rfl ha ⟨rfl, rfl⟩)
          rw [← hx] at hf
          exact hf
  | remove => exact .inl rfl
  | @mark n t cur hf =>
      refine .marked ?_
      rw [w.store.named hf]
      exact hf

/-- **What everybody else does.** -/
theorem RequestStep.of_others {op : Op} {a : Ans op} (ho : others w.store op)
    (hw : Store.Write admitted w.store op a s) :
    RequestStep w (fun _ => False) (fun o => o.metadata.controllerOf = none) s := by
  rcases hw.touches .environmentRequest with ⟨_, hpast⟩ | ht
  · exact .inl hpast
  cases ht with
  | @create o o' n t ha hn hnone =>
      obtain ⟨id, now, rfl⟩ := ha
      obtain ⟨hname, _, hnone', _, hst⟩ := ho
      refine .created ?_ hst ⟨o, hnone', rfl, rfl⟩
      rcases hn with ⟨hne, rfl⟩ | ⟨_, _, hfresh⟩
      · exact hname.resolve_left hne
      · exact hfresh
  | @update o o' cur ha hf hv hok =>
      obtain ⟨id, now, rfl⟩ := ha
      obtain ⟨hspec, hfin, hown⟩ := ho cur hf
      refine .updated hf (fun _ f hmem => ?_) ⟨hown, ?_⟩
      · rw [hfin]
        exact hmem
      · show TestRunReconciler.requestKey o = _
        unfold TestRunReconciler.requestKey
        rw [hspec]
  | finish => exact .inl rfl
  | status =>
      have hkinds : Kind.environmentRequest ∉ [Kind.provider, .cluster, .job, .pod] := by decide
      exact absurd ho hkinds
  | remove => exact .inl rfl
  | @mark n t cur hf =>
      refine .marked ?_
      rw [w.store.named hf]
      exact hf

end

end Etos
