import Etos.EnvironmentRequest.Isolation
import Etos.EnvironmentRequest.Versions
import Etos.Operator.Jobs

/-!
# `EnvironmentRequest.Provisioned` — what is provided for a request, and by whom

The Environments and resources of a request are made by its provider job, under labels that name the request: the
environment provider sets them on the Environments it creates (`environmentLabels`), the webhooks on every resource that
is created or updated (`defaultLabels`). `provides` restricts everybody else to that: only a *running* provider job adds
something that belongs to its request, nobody edits these labels of an Environment, and a finished job stays finished.
`issued` adds that ids are given out once.

In these runs the labels of an object say which request it belongs to and which identifier that request has
(`Provisioned`), and only a running provider job adds to what belongs to its request (**`BelongsTo.step`**).
-/

namespace Etos

open Kube

/-- The provider job of the request is running: it exists and has not finished. -/
def Providing (n : String) (s : Namespace) : Prop :=
  ∃ job ∈ s.list .job (Worker.environmentRequest n).selector, isJobFinished job = none

instance (n : String) (s : Namespace) : Decidable (Providing n s) :=
  inferInstanceAs (Decidable (∃ job ∈ s.list .job (Worker.environmentRequest n).selector, _))

/-- The labels of what is provided for a request. -/
def LabelledFor (x : EnvironmentRequest) (labels : StrMap) : Prop :=
  labels.lookup requestIdLabel = some x.spec.id ∧
    (x.spec.identifier ≠ "" → labels.lookup idLabel = some x.spec.identifier)

instance (x : EnvironmentRequest) (labels : StrMap) : Decidable (LabelledFor x labels) :=
  inferInstanceAs (Decidable (_ ∧ (_ → _)))

/-- The labels that a webhook sets. -/
theorem defaulted_labelled (r : ResourceKind) (x : EnvironmentRequest) (y : Resource r) :
    LabelledFor x (defaulted r x y).metadata.labels :=
  ⟨defaultLabels_requestId r x _ _, fun h => defaultLabels_id r _ _ h⟩

/-! ## The world around a request -/

/-- What everybody else does to what belongs to requests. -/
def provides (s : Namespace) : Op → Prop
  | .create .environment y => y.metadata.labels.lookup requestIdLabel = none ∨
      ∃ x ∈ s.past .environmentRequest, Providing x.name s ∧ LabelledFor x y.metadata.labels
  | .create (.resource r) y => Providing (r.common y.spec).environmentRequest s
  | .update .environment y => ∀ cur ∈ s.find .environment y.name, ∀ key ∈ [requestIdLabel, idLabel],
      y.metadata.labels.lookup key = cur.metadata.labels.lookup key
  | .updateStatus .job job => ∀ cur ∈ s.find .job job.name, isJobFinished job = none → isJobFinished cur = none
  | _ => True

instance (s : Namespace) (o : Op) : Decidable (provides s o) := by
  unfold provides
  split <;> infer_instance

/-- A stored request has an id, and an id that was used before is used by the same request. -/
def Issues (s : Namespace) : (k : Kind) → Obj k → Prop
  | .environmentRequest, o => o.spec.id ≠ "" ∧ ∀ x ∈ s.past .environmentRequest, x.spec.id = o.spec.id →
      o.name ≠ "" ∧ x.name = o.name ∧ (s.find .environmentRequest o.name).isSome = true
  | _, _ => True

/-- The webhooks, where ids are given out once. -/
def issued : Admission Kind Spec Status := fun s k o o' => admitted s k o o' ∧ Issues s k o'

theorem admitted_of_issued (s : Namespace) (k : Kind) (o o' : Obj k) (h : issued s k o o') : admitted s k o o' := h.1

/-- The operator among provider jobs that provide for their requests. -/
def Operator.provisioned (op : Operator) : System Op Ans OperatorState Worker :=
  op.within issued fun s o => others s o ∧ provides s o

/-- What the calls of the workers and the writes of everybody else have in common. -/
structure Fair (s : Namespace) (o : Op) : Prop where
  /-- Updates leave the specifications alone, -/
  spec : ∀ k ∈ Kind.environmentRequest :: requestKinds, ∀ x : Obj k, o = .update k x → ∀ cur,
    s.find k x.name = some cur → cur.metadata.resourceVersion = x.metadata.resourceVersion → x.spec = cur.spec
  /-- and the labels of Environments. -/
  labels : ∀ y : Environment, o = .update .environment y → ∀ cur, s.find .environment y.name = some cur →
    cur.metadata.resourceVersion = y.metadata.resourceVersion → ∀ key ∈ [requestIdLabel, idLabel],
    y.metadata.labels.lookup key = cur.metadata.labels.lookup key
  fresh : ∀ (x x' : EnvironmentRequest) (n : String), o = .create .environmentRequest x →
    issued s .environmentRequest x x' → s.Names .environmentRequest x'.metadata n → n ∉ s.names .environmentRequest
  environment : ∀ y : Environment, o = .create .environment y → y.metadata.labels.lookup requestIdLabel = none ∨
    ∃ x ∈ s.past .environmentRequest, Providing x.name s ∧ LabelledFor x y.metadata.labels
  resource : ∀ r (y : Resource r), o = .create (.resource r) y → Providing (r.common y.spec).environmentRequest s
  finished : ∀ job : Job, o = .updateStatus .job job → ∀ cur, s.find .job job.name = some cur →
    isJobFinished job = none → isJobFinished cur = none
  owners : KeepsJobOwners s o

/-- **Everybody else.** -/
theorem Fair.of_provides {s : Namespace} {o : Op} (ho : others s o) (hp : provides s o) : Fair s o where
  spec := by
    rintro k _ x rfl cur hf _
    exact (ho cur hf).1
  labels := by
    rintro y rfl cur hf _ key hkey
    exact hp cur hf key hkey
  fresh := by
    rintro x x' n rfl ⟨⟨id, now, rfl⟩, _⟩ hn
    rcases hn with ⟨hne, rfl⟩ | ⟨_, _, hfresh⟩
    · exact ho.1.resolve_left hne
    · exact hfresh
  environment := by
    rintro y rfl
    exact hp
  resource := by
    rintro r y rfl
    exact hp
  finished := by
    rintro job rfl cur hf
    exact hp cur hf
  owners := ho.keepsJobOwners

section

variable {w : OperatorState} {i : Worker} {o : Op}

/-- The updates of the workers are made from the stored version, and leave specification and labels alone. -/
theorem Worker.Permits.content (hk : w.Knowing) {k : Kind} (hkind : k ∈ Kind.environmentRequest :: requestKinds)
    {x cur : Obj k} (h : i.Permits (w.log i) (.update k x)) (hf : w.store.find k x.name = some cur)
    (hv : cur.metadata.resourceVersion = x.metadata.resourceVersion) :
    x.spec = cur.spec ∧ x.metadata.labels = cur.metadata.labels := by
  -- the object that was read is the stored one
  have hread : ∀ {i : Worker} {k : Kind} {n : String} {x y cur : Obj k}, Got (w.log i) k n y →
      w.store.find k x.name = some cur → cur.metadata.resourceVersion = x.metadata.resourceVersion →
      x.metadata.resourceVersion = y.metadata.resourceVersion → x.spec = y.spec →
      x.metadata.labels = y.metadata.labels → x.spec = cur.spec ∧ x.metadata.labels = cur.metadata.labels := by
    intro i k n x y cur hg hf hv hxy hspec hlabels
    obtain rfl := Knowing.got_eq hk hg hf (hv.trans hxy)
    exact ⟨hspec, hlabels⟩
  cases k with
  | environmentRequest =>
      cases i with
      | testRun | environment | resource => exact h.elim
      | environmentRequest n =>
          have hfin : EnvironmentRequestReconciler.Finalizes n _ x := h
          cases hfin with
          | @add y hg =>
              exact hread hg hf hv (ObjectMeta.addFinalizer_resourceVersion ..) rfl (ObjectMeta.addFinalizer_labels ..)
          | @remove y y' hg _ hs =>
              obtain ⟨hpast, _, _⟩ := hs.eq hk hg
              obtain rfl : y' = cur := w.store.unique hpast (w.store.current hf) hv.symm
              exact ⟨rfl, rfl⟩
  | environment =>
      cases i with
      | testRun | environmentRequest | resource => exact h.elim
      | environment n =>
          have hfin : EnvironmentReconciler.Finalizes n _ x := h
          cases hfin with
          | add hg =>
              exact hread hg hf hv (ObjectMeta.addFinalizer_resourceVersion ..) rfl (ObjectMeta.addFinalizer_labels ..)
          | remove hg => exact hread hg hf hv rfl rfl rfl
  | resource r =>
      cases i with
      | testRun | environmentRequest => exact h.elim
      | environment n =>
          have hhandles : EnvironmentReconciler.Handles n _ r x := h
          cases hhandles with
          | take _ _ _ hy =>
              refine hread hy hf hv ?_ rfl ?_
              · exact ObjectMeta.addFinalizer_resourceVersion ..
              · exact ObjectMeta.addFinalizer_labels ..
          | release _ _ _ _ _ hy => exact hread hy hf hv rfl rfl rfl
      | resource r' n =>
          obtain ⟨rfl, hfin⟩ := h
          cases hfin with
          | add hg =>
              exact hread hg hf hv (ObjectMeta.addFinalizer_resourceVersion ..) rfl (ObjectMeta.addFinalizer_labels ..)
          | handOver hg => exact hread hg hf hv rfl rfl rfl
          | release hg => exact hread hg hf hv rfl rfl rfl
  | testRun | provider | cluster | job | pod => simp [requestKinds] at hkind

/-- **The workers.** -/
theorem Fair.of_permits (hk : w.Knowing) (h : i.Permits (w.log i) o) : Fair w.store o where
  spec := by
    rintro k hkind x rfl cur hf hv
    exact (h.content hk hkind hf hv).1
  labels := by
    rintro y rfl cur hf hv key _
    rw [(h.content hk (by simp [requestKinds]) hf hv).2]
  fresh := by
    rintro x x' n rfl ⟨⟨id, now, rfl⟩, _⟩ hn
    cases i with
    | testRun m =>
        have hmay : TestRunReconciler.MayRequest m _ x := h
        rcases hn with ⟨hname, _⟩ | ⟨_, _, hfresh⟩
        · exact absurd hmay.new.1 hname
        · exact hfresh
    | environmentRequest | environment | resource => exact h.elim
  environment := by
    rintro y rfl
    cases i <;> exact h.elim
  resource := by
    rintro r y rfl
    cases i <;> exact h.elim
  finished := by
    rintro job rfl
    cases i <;> exact h.elim
  owners := h.keepsJobOwners

end

/-! ## What the labels say -/

/-- The requests keep their ids, their identifiers and their deletion marks, and the labels of what is provided name the
    request. -/
structure Provisioned (s : Namespace) : Prop where
  identified : ∀ x ∈ s.past .environmentRequest, x.spec.id ≠ ""
  same : ∀ x ∈ s.past .environmentRequest, ∀ y ∈ s.past .environmentRequest, x.name = y.name →
    x.spec.id = y.spec.id ∧ x.spec.identifier = y.spec.identifier
  unique : ∀ x ∈ s.past .environmentRequest, ∀ y ∈ s.past .environmentRequest, x.spec.id = y.spec.id →
    x.name = y.name
  resources : ∀ r, ∀ y ∈ s.past (.resource r), ∃ x ∈ s.past .environmentRequest,
    x.name = (r.common y.spec).environmentRequest ∧ LabelledFor x y.metadata.labels
  environments : ∀ y ∈ s.past .environment, y.metadata.labels.lookup requestIdLabel = none ∨
    ∃ x ∈ s.past .environmentRequest, LabelledFor x y.metadata.labels
  marked : s.MarkStays .environmentRequest

theorem Provisioned.empty : Provisioned Store.empty where
  identified := fun _ hx => (nomatch hx)
  same := fun _ hx => (nomatch hx)
  unique := fun _ hx => (nomatch hx)
  resources := fun _ _ hy => (nomatch hy)
  environments := fun _ hy => (nomatch hy)
  marked := fun _ hx => (nomatch hx)

section

variable {s s' : Namespace} {o : Op}

/-- The next version of a request: it is new, or has the id and the identifier of the version below it. -/
theorem request_of_touches (hI : Provisioned s) (ho : Fair s o) (h : Store.Touches issued s .environmentRequest o s')
    {x : EnvironmentRequest} (hx : x ∈ s'.past .environmentRequest) :
    x ∈ s.past .environmentRequest ∨
      (x.spec.id ≠ "" ∧ ∀ y ∈ s.past .environmentRequest, y.name ≠ x.name ∧ y.spec.id ≠ x.spec.id) ∨
      ∃ cur ∈ s.past .environmentRequest, cur.name = x.name ∧ x.spec.id = cur.spec.id ∧
        x.spec.identifier = cur.spec.identifier := by
  cases h with
  | @create o₁ o₂ n t ha hn hnone =>
      rw [Store.put_past] at hx
      rcases List.mem_cons.mp hx with rfl | hx
      · refine .inr (.inl ⟨ha.2.1, fun y hy => ⟨fun hyn => ?_, fun hid => ?_⟩⟩)
        · have hyn : y.name = n := hyn
          exact ho.fresh o₁ o₂ n rfl ha hn (hyn ▸ s.filed hy)
        · -- the id would be that of a stored request, under whose name nothing can be created
          obtain ⟨hne, _, hthere⟩ := ha.2.2 y hy hid
          rcases hn with ⟨_, rfl⟩ | ⟨hempty, _⟩
          · have hthere' : (s.find .environmentRequest o₂.metadata.name).isSome = true := hthere
            rw [hnone] at hthere'
            cases hthere'
          · exact hne hempty
      · exact .inl hx
  | @update o₁ o₂ cur ha hf hv =>
      rw [Store.put_past] at hx
      rcases List.mem_cons.mp hx with rfl | hx
      · obtain ⟨⟨id, now, rfl⟩, _⟩ := ha
        have hspec := ho.spec .environmentRequest List.mem_cons_self o₁ rfl cur hf hv
        have hcur := s.current hf
        refine .inr (.inr ⟨cur, hcur, s.named hf, ?_, ?_⟩)
        · show (o₁.spec.defaulted id now).id = _
          rw [hspec]
          exact if_neg (hI.identified cur hcur)
        · show o₁.spec.identifier = _
          rw [hspec]
      · exact .inl hx
  | finish => exact .inl hx
  | @status o₁ cur hf =>
      rw [Store.put_past] at hx
      rcases List.mem_cons.mp hx with rfl | hx
      · exact .inr (.inr ⟨cur, s.current hf, rfl, rfl, rfl⟩)
      · exact .inl hx
  | remove => exact .inl hx
  | @mark n t cur hf =>
      rw [Store.put_past] at hx
      rcases List.mem_cons.mp hx with rfl | hx
      · exact .inr (.inr ⟨cur, s.current hf, rfl, rfl, rfl⟩)
      · exact .inl hx

/-- The next version of a resource: the webhooks have labelled it when it was provided or updated, or it is as the
    version below it. -/
theorem resource_of_touches (ho : Fair s o) {r : ResourceKind} (h : Store.Touches issued s (.resource r) o s')
    {y : Resource r} (hy : y ∈ s'.past (.resource r)) :
    y ∈ s.past (.resource r) ∨
      (∃ x ∈ s.past .environmentRequest, x.name = (r.common y.spec).environmentRequest ∧
        LabelledFor x y.metadata.labels ∧
        (Providing x.name s ∨ ∃ cur, s.find (.resource r) y.name = some cur ∧ y.spec = cur.spec)) ∨
      ∃ cur, s.find (.resource r) y.name = some cur ∧ y.spec = cur.spec ∧
        y.metadata.labels = cur.metadata.labels := by
  have hput : ∀ z : Resource r, y ∈ (s.put (.resource r) z).past (.resource r) →
      y ∈ s.past (.resource r) ∨ y = s.stamp (k := Kind.resource r) z := by
    intro z hz
    have hpast := Store.put_past (s := s) (k := Kind.resource r) z
    rw [hpast] at hz
    rcases List.mem_cons.mp hz with rfl | hz
    · exact .inr rfl
    · exact .inl hz
  cases h with
  | @create o₁ o₂ n t ha hn hnone =>
      obtain ⟨⟨request, ⟨hpast, hname⟩, rfl⟩, _⟩ := ha
      refine (hput _ hy).imp_right ?_
      rintro rfl
      refine .inl ⟨request, hpast, hname, defaulted_labelled r request o₁, .inl ?_⟩
      rw [hname]
      exact ho.resource r o₁ rfl
  | @update o₁ o₂ cur ha hf hv =>
      obtain ⟨⟨request, ⟨hpast, hname⟩, rfl⟩, _⟩ := ha
      refine (hput _ hy).imp_right ?_
      rintro rfl
      have hkind : Kind.resource r ∈ Kind.environmentRequest :: requestKinds := by
        cases r <;> decide
      have hspec := ho.spec (.resource r) hkind o₁ rfl cur hf hv
      exact .inl ⟨request, hpast, hname, defaulted_labelled r request o₁, .inr ⟨cur, hf, hspec⟩⟩
  | finish => exact .inl hy
  | @status o₁ cur hf =>
      refine (hput _ hy).imp_right ?_
      rintro rfl
      have hname : cur.name = o₁.name := s.named hf
      exact .inr ⟨cur, hname ▸ hf, rfl, rfl⟩
  | remove => exact .inl hy
  | @mark n t cur hf =>
      refine (hput _ hy).imp_right ?_
      rintro rfl
      have hname : cur.name = n := s.named hf
      exact .inr ⟨cur, hname ▸ hf, rfl, rfl⟩

/-- The next version of an Environment: it was provided, or has the labels of the version below it. -/
theorem environment_of_touches (ho : Fair s o) (h : Store.Touches issued s .environment o s') {y : Environment}
    (hy : y ∈ s'.past .environment) :
    y ∈ s.past .environment ∨
      (y.metadata.labels.lookup requestIdLabel = none ∨
        ∃ x ∈ s.past .environmentRequest, Providing x.name s ∧ LabelledFor x y.metadata.labels) ∨
      ∃ cur, s.find .environment y.name = some cur ∧ ∀ key ∈ [requestIdLabel, idLabel],
        y.metadata.labels.lookup key = cur.metadata.labels.lookup key := by
  cases h with
  | @create o₁ o₂ n t ha hn hnone =>
      obtain ⟨rfl, _⟩ : o₂ = o₁ ∧ True := ha
      rw [Store.put_past] at hy
      rcases List.mem_cons.mp hy with rfl | hy
      · exact .inr (.inl (ho.environment o₂ rfl))
      · exact .inl hy
  | @update o₁ o₂ cur ha hf hv =>
      obtain ⟨rfl, _⟩ : o₂ = o₁ ∧ True := ha
      rw [Store.put_past] at hy
      rcases List.mem_cons.mp hy with rfl | hy
      · exact .inr (.inr ⟨cur, hf, ho.labels o₂ rfl cur hf hv⟩)
      · exact .inl hy
  | finish => exact .inl hy
  | @status o₁ cur hf =>
      rw [Store.put_past] at hy
      rcases List.mem_cons.mp hy with rfl | hy
      · have hname : cur.name = o₁.name := s.named hf
        exact .inr (.inr ⟨cur, hname ▸ hf, fun _ _ => rfl⟩)
      · exact .inl hy
  | remove => exact .inl hy
  | @mark n t cur hf =>
      rw [Store.put_past] at hy
      rcases List.mem_cons.mp hy with rfl | hy
      · have hname : cur.name = n := s.named hf
        exact .inr (.inr ⟨cur, hname ▸ hf, fun _ _ => rfl⟩)
      · exact .inl hy

theorem LabelledFor.congr {x : EnvironmentRequest} {labels labels' : StrMap} (h : LabelledFor x labels)
    (hsame : ∀ key ∈ [requestIdLabel, idLabel], labels'.lookup key = labels.lookup key) : LabelledFor x labels' := by
  refine ⟨?_, fun hid => ?_⟩
  · rw [hsame requestIdLabel (by simp)]
    exact h.1
  · rw [hsame idLabel (by simp)]
    exact h.2 hid

section

variable (hI : Provisioned s) (ho : Fair s o)
  (h : ∀ k, (s'.find k = s.find k ∧ s'.past k = s.past k) ∨ Store.Touches issued s k o s')

include hI ho h

/-- A version of a request that was not there before is of a fresh request, or carries on one that was. -/
theorem Provisioned.request {x : EnvironmentRequest} (hx : x ∈ s'.past .environmentRequest)
    (hnew : x ∉ s.past .environmentRequest) :
    (x.spec.id ≠ "" ∧ ∀ y ∈ s.past .environmentRequest, y.name ≠ x.name ∧ y.spec.id ≠ x.spec.id) ∨
      ∃ cur ∈ s.past .environmentRequest, cur.name = x.name ∧ x.spec.id = cur.spec.id ∧
        x.spec.identifier = cur.spec.identifier := by
  rcases h .environmentRequest with ⟨_, hsame⟩ | ht
  · rw [hsame] at hx
    exact absurd hx hnew
  · exact (request_of_touches hI ho ht hx).resolve_left hnew

/-- What relates a version to one that was there before. -/
theorem Provisioned.request_old {x y : EnvironmentRequest} (hx : x ∈ s.past .environmentRequest)
    (hy : y ∈ s'.past .environmentRequest) :
    (x.name = y.name → x.spec.id = y.spec.id ∧ x.spec.identifier = y.spec.identifier) ∧
      (x.spec.id = y.spec.id → x.name = y.name) := by
  by_cases hynew : y ∈ s.past .environmentRequest
  · exact ⟨hI.same x hx y hynew, hI.unique x hx y hynew⟩
  · rcases hI.request ho h hy hynew with ⟨_, hfresh⟩ | ⟨cur, hcur, hname, hid, hidentifier⟩
    · exact ⟨fun hn => absurd hn (hfresh x hx).1, fun hi => absurd hi (hfresh x hx).2⟩
    · rw [hid, hidentifier, ← hname]
      exact ⟨hI.same x hx cur hcur, hI.unique x hx cur hcur⟩

/-- What relates any two versions: a step makes at most one that was not there before. -/
theorem Provisioned.request_pair {x y : EnvironmentRequest} (hx : x ∈ s'.past .environmentRequest)
    (hy : y ∈ s'.past .environmentRequest) :
    (x.name = y.name → x.spec.id = y.spec.id ∧ x.spec.identifier = y.spec.identifier) ∧
      (x.spec.id = y.spec.id → x.name = y.name) := by
  by_cases hxold : x ∈ s.past .environmentRequest
  · exact hI.request_old ho h hxold hy
  · by_cases hyold : y ∈ s.past .environmentRequest
    · obtain ⟨hsame, hunique⟩ := hI.request_old ho h hyold hx
      refine ⟨fun hname => ?_, fun hid => (hunique hid.symm).symm⟩
      obtain ⟨hid, hidentifier⟩ := hsame hname.symm
      exact ⟨hid.symm, hidentifier.symm⟩
    · obtain rfl : x = y := by
        rcases h .environmentRequest with ⟨_, hsame⟩ | ht
        · rw [hsame] at hx
          exact absurd hx hxold
        · obtain ⟨hxv, _⟩ := (ht.keeps_mark hx).resolve_left hxold
          obtain ⟨hyv, _⟩ := (ht.keeps_mark hy).resolve_left hyold
          exact s'.unique hx hy (hxv.trans hyv.symm)
      exact ⟨fun _ => ⟨rfl, rfl⟩, fun _ => rfl⟩

/-- The labels of a resource are those of its request. -/
theorem Provisioned.resource (hpast : ∀ {k} {x : Obj k}, x ∈ s.past k → x ∈ s'.past k) {r : ResourceKind}
    {y : Resource r} (hy : y ∈ s'.past (.resource r)) :
    ∃ x ∈ s'.past .environmentRequest, x.name = (r.common y.spec).environmentRequest ∧
      LabelledFor x y.metadata.labels := by
  have hbelow : ∀ cur ∈ s.past (.resource r), y.spec = cur.spec → y.metadata.labels = cur.metadata.labels →
      ∃ x ∈ s'.past .environmentRequest, x.name = (r.common y.spec).environmentRequest ∧
        LabelledFor x y.metadata.labels := by
    intro cur hcur hspec hlabels
    obtain ⟨x, hx, hname, hl⟩ := hI.resources r cur hcur
    rw [hspec, hlabels]
    exact ⟨x, hpast hx, hname, hl⟩
  rcases h (.resource r) with ⟨_, hsame⟩ | ht
  · rw [hsame] at hy
    exact hbelow y hy rfl rfl
  · rcases resource_of_touches ho ht hy with hy | ⟨x, hx, hname, hl, _⟩ | ⟨cur, hcur, hspec, hlabels⟩
    · exact hbelow y hy rfl rfl
    · exact ⟨x, hpast hx, hname, hl⟩
    · exact hbelow cur (s.current hcur) hspec hlabels

/-- An Environment has no request in its labels, or those of one. -/
theorem Provisioned.environment (hpast : ∀ {k} {x : Obj k}, x ∈ s.past k → x ∈ s'.past k) {y : Environment}
    (hy : y ∈ s'.past .environment) : y.metadata.labels.lookup requestIdLabel = none ∨
      ∃ x ∈ s'.past .environmentRequest, LabelledFor x y.metadata.labels := by
  have hbelow : ∀ cur ∈ s.past .environment, (∀ key ∈ [requestIdLabel, idLabel],
      y.metadata.labels.lookup key = cur.metadata.labels.lookup key) →
      y.metadata.labels.lookup requestIdLabel = none ∨
        ∃ x ∈ s'.past .environmentRequest, LabelledFor x y.metadata.labels := by
    intro cur hcur hkeys
    rcases hI.environments cur hcur with hnone | ⟨x, hx, hl⟩
    · refine .inl ?_
      rw [hkeys requestIdLabel (by simp)]
      exact hnone
    · exact .inr ⟨x, hpast hx, hl.congr hkeys⟩
  rcases h .environment with ⟨_, hsame⟩ | ht
  · rw [hsame] at hy
    exact hbelow y hy fun _ _ => rfl
  · rcases environment_of_touches ho ht hy with hy | (hnone | ⟨x, hx, _, hl⟩) | ⟨cur, hcur, hkeys⟩
    · exact hbelow y hy fun _ _ => rfl
    · exact .inl hnone
    · exact .inr ⟨x, hpast hx, hl⟩
    · exact hbelow cur (s.current hcur) hkeys

/-- **One step** keeps what the labels say. -/
theorem Provisioned.step (hpast : ∀ {k} {x : Obj k}, x ∈ s.past k → x ∈ s'.past k) : Provisioned s' := by
  refine ⟨fun x hx => ?_, fun x hx y hy => (hI.request_pair ho h hx hy).1,
    fun x hx y hy => (hI.request_pair ho h hx hy).2, fun r y hy => hI.resource ho h hpast hy,
    fun y hy => hI.environment ho h hpast hy, hI.marked.step (h .environmentRequest) ho.fresh⟩
  by_cases hxold : x ∈ s.past .environmentRequest
  · exact hI.identified x hxold
  · rcases hI.request ho h hx hxold with ⟨hid, _⟩ | ⟨cur, hcur, _, hid, _⟩
    · exact hid
    · rw [hid]
      exact hI.identified cur hcur

end

/-- A stored object that was there before was stored before. -/
theorem find_of_past {k : Kind} (h : (s'.find k = s.find k ∧ s'.past k = s.past k) ∨ Store.Touches issued s k o s')
    {m : String} {y : Obj k} (hf : s'.find k m = some y) (hy : y ∈ s.past k) : s.find k m = some y := by
  have hput : ∀ z : Obj k, (s.put k z).find k m = some y → s.find k m = some y := by
    intro z hz
    rcases Store.find_of_put hz with hold | ⟨_, _, rfl⟩
    · exact hold
    · have hdated := s.dated hy
      have hnew : (s.stamp z).metadata.resourceVersion = s.version + 1 := rfl
      omega
  rcases h with ⟨hfind, _⟩ | h
  · rw [← hfind]
    exact hf
  cases h with
  | create | update | status | mark => exact hput _ hf
  | finish | remove => exact Store.find_of_erase hf

/-- **Only a running provider job** adds to what belongs to its request. -/
theorem BelongsTo.step (hI : Provisioned s) (ho : Fair s o) {k : Kind} (hk : k ∈ requestKinds)
    (h : (s'.find k = s.find k ∧ s'.past k = s.past k) ∨ Store.Touches issued s k o s') {x : EnvironmentRequest}
    (hx : x ∈ s.past .environmentRequest) {m : String} (hb : BelongsTo s' x k m) :
    BelongsTo s x k m ∨ Providing x.name s := by
  obtain ⟨y, hf, hlabel⟩ := hb
  have hname : y.name = m := s'.named hf
  have hold : y ∈ s.past k → BelongsTo s x k m := fun hy => ⟨y, find_of_past h hf hy, hlabel⟩
  -- the labels name the request
  have hsame : ∀ x' ∈ s.past .environmentRequest, LabelledFor x' y.metadata.labels → x'.name = x.name := by
    intro x' hx' hl
    exact hI.unique x' hx' x hx (Option.some.inj (hl.1.symm.trans hlabel))
  rcases h with ⟨_, hpast⟩ | ht
  · have hy : y ∈ s'.past k := s'.current hf
    rw [hpast] at hy
    exact .inl (hold hy)
  have hbelow : ∀ cur, s.find k y.name = some cur →
      cur.metadata.labels.lookup requestIdLabel = some x.spec.id → BelongsTo s x k m := by
    intro cur hcur hl
    rw [hname] at hcur
    exact ⟨cur, hcur, hl⟩
  cases k with
  | environment =>
      rcases environment_of_touches ho ht (s'.current hf) with hy | (hnone | ⟨x', hx', hrun, hl⟩) | ⟨cur, hcur, hkeys⟩
      · exact .inl (hold hy)
      · rw [hlabel] at hnone
        cases hnone
      · rw [← hsame x' hx' hl]
        exact .inr hrun
      · refine .inl (hbelow cur hcur ?_)
        rw [← hkeys requestIdLabel (by simp)]
        exact hlabel
  | resource r =>
      rcases resource_of_touches ho ht (s'.current hf) with hy | ⟨x', hx', hname', hl, hfrom⟩ | ⟨cur, hcur, _, hlabels⟩
      · exact .inl (hold hy)
      · rcases hfrom with hrun | ⟨cur, hcur, hspec⟩
        · rw [← hsame x' hx' hl]
          exact .inr hrun
        · -- an updated resource names the same request as before
          obtain ⟨x₀, hx₀, hname₀, hl₀⟩ := hI.resources r cur (s.current hcur)
          have hnames : x₀.name = x'.name := by rw [hname₀, hname', hspec]
          refine .inl (hbelow cur hcur ?_)
          rw [hl₀.1, (hI.same x₀ hx₀ x hx (hnames.trans (hsame x' hx' hl))).1]
      · refine .inl (hbelow cur hcur ?_)
        rw [← hlabels]
        exact hlabel
  | testRun | environmentRequest | provider | cluster | job | pod => simp [requestKinds] at hk

/-! ## Running provider jobs -/

theorem providing_iff {n : String} : Providing n s ↔
    ∃ m job, s.find .job m = some job ∧ (Worker.environmentRequest n).Owns job ∧ isJobFinished job = none := by
  constructor
  · rintro ⟨job, hjob, hrun⟩
    obtain ⟨hf, hown⟩ := Store.mem_list.mp hjob
    exact ⟨job.name, job, hf, hown, hrun⟩
  · rintro ⟨m, job, hf, hown, hrun⟩
    refine ⟨job, Store.mem_list.mpr ⟨?_, hown⟩, hrun⟩
    rw [s.named hf]
    exact hf

/-- A job that runs has run before, or is new. -/
theorem Providing.step {n : String} (h : Providing n s') (ho : Fair s o)
    (hs : (s'.find .job = s.find .job ∧ s'.past .job = s.past .job) ∨ Store.Touches issued s .job o s') :
    Providing n s ∨ ∃ job : Job, o = .create .job job ∧ (Worker.environmentRequest n).Owns job := by
  obtain ⟨m, job, hf, hown, hrun⟩ := providing_iff.mp h
  have hold : s.find .job m = some job → Providing n s := fun hf' => providing_iff.mpr ⟨m, job, hf', hown, hrun⟩
  -- what is put on top of a stored job
  have hput : ∀ y cur : Job, s.find .job y.name = some cur →
      y.metadata.ownerReferences = cur.metadata.ownerReferences →
      (isJobFinished y = none → isJobFinished cur = none) → (s.put .job y).find .job m = some job →
      Providing n s := by
    intro y cur hcur howners hfinished hf
    rcases Store.find_of_put hf with hf' | ⟨_, _, rfl⟩
    · exact hold hf'
    · refine providing_iff.mpr ⟨_, cur, hcur, ?_, hfinished hrun⟩
      exact hown.congr howners.symm
  rcases hs with ⟨hfind, _⟩ | hs
  · rw [hfind] at hf
    exact .inl (hold hf)
  cases hs with
  | @create o₁ o₂ k t ha =>
      obtain ⟨rfl, _⟩ : o₂ = o₁ ∧ True := ha
      rcases Store.find_of_put hf with hf' | ⟨_, _, rfl⟩
      · exact .inl (hold hf')
      · exact .inr ⟨o₂, rfl, hown.congr rfl⟩
  | @update o₁ o₂ cur ha hcur =>
      obtain ⟨rfl, _⟩ : o₂ = o₁ ∧ True := ha
      exact .inl (hput (Store.merged cur o₂) cur hcur (ho.owners o₂ rfl cur hcur) id hf)
  | finish => exact .inl (hold (Store.find_of_erase hf))
  | @status o₁ cur hcur =>
      have hname : cur.name = o₁.name := s.named hcur
      exact .inl (hput { cur with status := o₁.status } cur (hname ▸ hcur) rfl (ho.finished o₁ rfl cur hcur) hf)
  | remove => exact .inl (hold (Store.find_of_erase hf))
  | @mark k t cur hcur =>
      have hname : cur.name = k := s.named hcur
      exact .inl (hput (Store.marked cur t) cur (hname ▸ hcur) rfl id hf)

end

end Etos
