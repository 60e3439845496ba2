import Etos.Environment.Versions
import Etos.Resource.Versions

/-!
# `Environment.Exclusive` — who uses a resource

An Environment that becomes active has gone through the three resources it names and has become the controller of each
that had none. One that has a controller already is passed over, whoever that controller is: two Environments that name
one resource both become active (`shared_iut`), and when one of them is released it takes its finalizer off a resource
that the other one uses.

In the runs in which an Environment that finds a resource with a controller always finds itself there, a resource keeps
the Environment that has taken it (`ControllerStays`), and that Environment keeps the resource as long as it waits
(`ResourcesKept`). So when Active is written as True the Environment holds what it names, and no resource is named by
two Environments that have been active: **`exclusive_use`**.
-/

namespace Etos

open Kube EnvironmentReconciler

/-- An Environment that finds a resource with a controller finds itself there. -/
def findsItself (i : Worker) : (o : Op) → Ans o → Prop
  | .get (.resource _) _, .ok y => ∀ m, i = .environment m → y.metadata.hasControllerReference = true →
      y.metadata.controllerOf = some (reference m)
  | _, _ => True

/-- So far an Environment has found itself. -/
def FoundItself (m : String) (l : Log) : Prop :=
  ∀ r n y, Got l (.resource r) n y → y.metadata.hasControllerReference = true →
    y.metadata.controllerOf = some (reference m)

/-- The Environment has stopped waiting at some time. -/
def Left (m : String) (s : Namespace) : Prop := ∃ x ∈ s.past .environment, x.name = m ∧ ¬ Waits x

/-- A resource keeps its controller. -/
def ControllerStays (r : ResourceKind) (s : Namespace) : Prop :=
  ∀ x ∈ s.past (.resource r), ∀ y ∈ s.past (.resource r), x.name = y.name →
    x.metadata.resourceVersion ≤ y.metadata.resourceVersion → ∀ ref, x.metadata.controllerOf = some ref →
    y.metadata.controllerOf = some ref

/-- An Environment that waits holds every resource that it has taken. -/
def ResourcesKept (r : ResourceKind) (s : Namespace) : Prop :=
  ∀ y ∈ s.past (.resource r), ∀ m, y.metadata.controllerOf = some (reference m) →
    Left m s ∨ ∃ cur, s.find (.resource r) y.name = some cur ∧ Holds m cur.metadata

theorem reference_injective {m m' : String} (h : reference m = reference m') : m = m' :=
  congrArg OwnerReference.name h

section

variable {r : ResourceKind} {w : OperatorState} {s : Namespace} {new : Obj (.resource r)} {m : String}

/-! ## One step -/

/-- The new version has the controller of the one below it. -/
theorem ResourceChange.controller (h : ResourceChange r w new) {cur : Obj (.resource r)} {ref : OwnerReference}
    (hf : w.store.find (.resource r) new.name = some cur) (hc : cur.metadata.controllerOf = some ref) :
    new.metadata.controllerOf = some ref := by
  have hsame : ∀ cur', w.store.find (.resource r) new.name = some cur' →
      new.metadata.ownerReferences = cur'.metadata.ownerReferences → new.metadata.controllerOf = some ref := by
    intro cur' hf' hown
    obtain rfl := Option.some.inj (hf.symm.trans hf')
    rw [ObjectMeta.controllerOf_congr hown]
    exact hc
  cases h with
  | created hfresh => exact absurd (w.store.named hf) (hfresh cur (w.store.current hf))
  | kept hf' _ _ hown | added hf' _ _ hown | dropped hf' _ _ hown => exact hsame _ hf' hown
  | taken hf' _ _ _ _ _ hfree =>
      obtain rfl := Option.some.inj (hf.symm.trans hf')
      rw [ObjectMeta.hasControllerReference_eq_false.mp hfree] at hc
      cases hc
  | released hf' _ _ _ _ _ _ _ _ _ hown => exact hsame _ hf' hown
  | reported hf' hm => exact hsame _ hf' (by rw [hm])

/-- An Environment that is the controller of the new version holds it, or has stopped waiting. -/
theorem ResourceChange.holds (h : ResourceChange r w new) (hk : w.Knowing)
    (hfound : ∀ m, FoundItself m (w.log (.environment m))) (hI : ResourcesKept r w.store)
    (hc : new.metadata.controllerOf = some (reference m)) : Left m w.store ∨ Holds m new.metadata := by
  -- the version below has the same controller, and what it carries is carried on
  have hbelow : ∀ cur, w.store.find (.resource r) new.name = some cur →
      new.metadata.ownerReferences = cur.metadata.ownerReferences →
      (releaseFinalizer ∈ cur.metadata.finalizers → releaseFinalizer ∈ new.metadata.finalizers) →
      Left m w.store ∨ Holds m new.metadata := by
    intro cur hf hown hfin
    have hctrl : cur.metadata.controllerOf = some (reference m) := by
      rw [← ObjectMeta.controllerOf_congr hown]
      exact hc
    have hcn : cur.name = new.name := w.store.named hf
    refine (hI cur (w.store.current hf) m hctrl).imp_right fun ⟨cur', hf', hholds⟩ => ⟨hc, hfin ?_⟩
    rw [hcn, hf] at hf'
    obtain rfl := Option.some.inj hf'
    exact hholds.2
  have hne : releaseFinalizer ≠ providerFinalizer := by decide
  cases h with
  | created _ _ _ hnone =>
      rw [hnone] at hc
      cases hc
  | kept hf _ hfin hown =>
      refine hbelow _ hf hown fun hmem => ?_
      rw [hfin]
      exact hmem
  | added hf _ hfin hown =>
      refine hbelow _ hf hown fun hmem => ?_
      rw [hfin]
      exact (ObjectMeta.mem_addFinalizer ..).mpr (.inr hmem)
  | dropped hf _ hfin hown =>
      refine hbelow _ hf hown fun hmem => ?_
      rw [hfin]
      exact (ObjectMeta.mem_removeFinalizer ..).mpr ⟨hmem, hne⟩
  | taken _ _ _ _ _ _ _ hfin =>
      refine .inr ⟨hc, ?_⟩
      rw [hfin]
      exact (ObjectMeta.mem_addFinalizer ..).mpr (.inl rfl)
  | @released cur m' st reason _ env hf _ hg ha hr _ _ _ hy _ hown =>
      -- the one that gives it up is the controller, and waits no more
      have hctrl : cur.metadata.controllerOf = some (reference m) := by
        rw [← ObjectMeta.controllerOf_congr hown]
        exact hc
      have hhas : cur.metadata.hasControllerReference = true := by
        by_contra hno
        rw [ObjectMeta.hasControllerReference_eq_false.mp (by simpa using hno)] at hctrl
        cases hctrl
      have hself := hfound m' r _ cur hy hhas
      obtain rfl : m = m' := reference_injective (Option.some.inj (hctrl.symm.trans hself))
      have htells := hk _ _ hg
      refine .inl ⟨env, htells.reads .environment env .get, htells.named .environment m env rfl, fun hw => ?_⟩
      exact hr (hw st reason ha)
  | reported hf hm =>
      refine hbelow _ hf (by rw [hm]) fun hmem => ?_
      rw [hm]
      exact hmem

theorem ControllerStays.step (hI : ControllerStays r w.store) (h : ResourceStep r w s) : ControllerStays r s := by
  cases h with
  | same _ hpast =>
      unfold ControllerStays
      rw [hpast]
      exact hI
  | @next new hnew =>
      have hpast := Store.put_past (s := w.store) (k := Kind.resource r) new
      intro x hx y hy hname hle ref hc
      rw [hpast] at hx hy
      rcases List.mem_cons.mp hx with rfl | hx' <;> rcases List.mem_cons.mp hy with rfl | hy'
      · exact hc
      · have hdated := w.store.dated hy'
        have hnewer : w.store.version + 1 ≤ y.metadata.resourceVersion := hle
        omega
      · -- the stored version is not older than `x`
        have hcurrent : ∃ cur, w.store.find (.resource r) new.name = some cur := by
          cases hnew with
          | created hfresh => exact absurd hname (hfresh x hx')
          | kept hf | added hf | dropped hf | taken hf | released hf | reported hf => exact ⟨_, hf⟩
        obtain ⟨cur, hf⟩ := hcurrent
        have hcn : x.name = cur.name := hname.trans (w.store.named hf).symm
        have hlatest : x.metadata.resourceVersion ≤ cur.metadata.resourceVersion := by
          refine w.store.latest hx' ?_
          rw [hname]
          exact hf
        exact hnew.controller hf (hI x hx' cur (w.store.current hf) hcn hlatest ref hc)
      · exact hI x hx' y hy' hname hle ref hc
  | last => exact hI
  | removed => exact hI

theorem Left.mono (h : Left m w.store) (hpast : ∀ {k} {x : Obj k}, x ∈ w.store.past k → x ∈ s.past k) : Left m s := by
  obtain ⟨x, hx, hrest⟩ := h
  exact ⟨x, hpast hx, hrest⟩

/-- The end of a resource that no waiting Environment holds. -/
theorem ResourcesKept.erased {n : String} (hI : ResourcesKept r w.store)
    (hfree : ∀ cur m, w.store.find (.resource r) n = some cur → Holds m cur.metadata → Left m w.store) :
    ResourcesKept r (w.store.erase (.resource r) n) := by
  intro y hy m hc
  rcases hI y hy m hc with hleft | ⟨cur, hf, hholds⟩
  · exact .inl hleft
  · by_cases hn : y.name = n
    · rw [hn] at hf
      exact .inl (hfree cur m hf hholds)
    · refine .inr ⟨cur, ?_, hholds⟩
      rw [Store.erase_find_ne hn]
      exact hf

/-- What a waiting Environment holds it still holds in the new version. -/
theorem ResourceChange.still_holds (h : ResourceChange r w new) (hk : w.Knowing)
    (hfound : ∀ m, FoundItself m (w.log (.environment m))) (hI : ResourcesKept r w.store) {cur : Obj (.resource r)}
    (hf : w.store.find (.resource r) new.name = some cur) (hholds : Holds m cur.metadata) :
    Left m w.store ∨ Holds m new.metadata := h.holds hk hfound hI (h.controller hf hholds.1)

theorem ResourcesKept.put (hI : ResourcesKept r w.store) (hk : w.Knowing)
    (hfound : ∀ m, FoundItself m (w.log (.environment m))) (h : ResourceChange r w new) :
    ResourcesKept r (w.store.put (.resource r) new) := by
  have hleft : ∀ m, Left m w.store → Left m (w.store.put (.resource r) new) := fun m hl => hl.mono Store.put_past_mono
  have hself : (w.store.put (.resource r) new).find (.resource r) new.name = some (w.store.stamp new) :=
    Store.put_find_self new
  intro y hy m hc
  rw [Store.put_past] at hy
  rcases List.mem_cons.mp hy with rfl | hy
  · exact (h.holds hk hfound hI hc).imp (hleft m) fun hholds => ⟨_, hself, hholds⟩
  · rcases hI y hy m hc with hl | ⟨cur, hf, hholds⟩
    · exact .inl (hleft m hl)
    · by_cases hn : y.name = new.name
      · rw [hn] at hf
        rw [hn]
        exact (h.still_holds hk hfound hI hf hholds).imp (hleft m) fun hholds => ⟨_, hself, hholds⟩
      · refine .inr ⟨cur, ?_, hholds⟩
        rw [Store.put_find_ne hn]
        exact hf

theorem ResourcesKept.step (hI : ResourcesKept r w.store) (hk : w.Knowing)
    (hfound : ∀ m, FoundItself m (w.log (.environment m))) (h : ResourceStep r w s)
    (hpast : ∀ {k} {x : Obj k}, x ∈ w.store.past k → x ∈ s.past k) : ResourcesKept r s := by
  cases h with
  | same hfind hsame =>
      intro y hy m hc
      rw [hsame] at hy
      rw [hfind]
      exact (hI y hy m hc).imp_left fun hl => hl.mono hpast
  | next hnew => exact hI.put hk hfound hnew
  | last hnew hlast =>
      refine hI.erased fun cur m hf hholds => ?_
      refine (hnew.still_holds hk hfound hI hf hholds).resolve_right fun hstill => ?_
      rw [Holds, hlast] at hstill
      cases hstill.2
  | removed hf' hfree =>
      refine hI.erased fun cur m hf hholds => ?_
      obtain rfl := Option.some.inj (hf'.symm.trans hf)
      rw [Holds, hfree] at hholds
      cases hholds.2

/-! ## Becoming active -/

/-- A resource that was taken in the round has been stored with the Environment as its controller. -/
theorem past_of_taken {n : String} (hk : w.Knowing) (hfound : FoundItself m (w.log (.environment m)))
    (h : Taken m (w.log (.environment m)) r n) :
    ∃ y ∈ w.store.past (.resource r), y.name = n ∧ y.metadata.controllerOf = some (reference m) := by
  rcases h with ⟨y, hy, hhas⟩ | ⟨o, y, ho, hyn, hholds⟩
  · have htells := hk _ _ hy
    exact ⟨y, htells.reads (.resource r) y .get, htells.named (.resource r) n y rfl, hfound r n y hy hhas⟩
  · have hne : y.metadata.finalizers ≠ [] := List.ne_nil_of_mem hholds.2
    exact ⟨y, (hk _ _ ho).update (.resource r) o y rfl hne, hyn, hholds.1⟩

/-- Active is True. -/
def IsActive (x : Environment) : Prop := ∃ reason, x.status.cond .active = some (.true, reason)

/-- The resources that an active Environment names have been taken by it. -/
def ActiveTook (s : Namespace) : Prop :=
  ∀ x ∈ s.past .environment, IsActive x → ∀ providers, x.spec.providers = some providers → ∀ r,
    ∃ y ∈ s.past (.resource r), y.name = named providers r ∧ y.metadata.controllerOf = some (reference x.name)

/-- What an Environment has in hand when Active becomes True: it has waited until then, and has taken the resources. -/
theorem EnvironmentChange.took {new : Environment} (h : EnvironmentChange w new) (hk : w.Knowing)
    (hfound : ∀ m, FoundItself m (w.log (.environment m))) (hh : EnvironmentHistory w.store) (hI : ActiveTook w.store)
    (ha : IsActive new) {providers : Providers} (hp : new.spec.providers = some providers) (r : ResourceKind) :
    ∃ y ∈ w.store.past (.resource r), y.name = named providers r ∧
      y.metadata.controllerOf = some (reference new.name) := by
  obtain ⟨reason, ha⟩ := ha
  cases h with
  | created _ hst =>
      rw [hst] at ha
      cases ha
  | @kept cur hf hst hspec =>
      rw [hst] at ha
      rw [hspec] at hp
      have hcn : cur.name = new.name := w.store.named hf
      rw [← hcn]
      exact hI cur (w.store.current hf) ⟨reason, ha⟩ providers hp r
  | @written cur x c hf hspec hg hc hact =>
      have htells := hk _ _ hg
      have hxn : x.name = new.name := htells.named .environment _ x rfl
      have hcn : cur.name = new.name := w.store.named hf
      have hsame : x.spec = new.spec := by
        rw [hspec]
        exact hh.spec x (htells.reads .environment x .get) cur (w.store.current hf) (hxn.trans hcn.symm)
      rw [hc] at ha
      generalize cur.status.cond .active = before at hact
      cases hact with
      | waiting | inactive => cases ha
      | ready hp' ht =>
          rw [hsame, hp] at hp'
          obtain rfl := Option.some.inj hp'
          exact past_of_taken hk (hfound new.name) (ht r)

theorem ActiveTook.step (hI : ActiveTook w.store) (hk : w.Knowing)
    (hfound : ∀ m, FoundItself m (w.log (.environment m))) (hh : EnvironmentHistory w.store) (h : EnvironmentStep w s)
    (hpast : ∀ {k} {x : Obj k}, x ∈ w.store.past k → x ∈ s.past k) : ActiveTook s := by
  intro x hx ha providers hp r
  have hold : x ∈ w.store.past .environment ∨ EnvironmentChange w x := by
    rcases h with hsame | ⟨new, hnews, _, hnew⟩
    · rw [hsame] at hx
      exact .inl hx
    · rw [hnews] at hx
      rcases List.mem_cons.mp hx with rfl | hx
      · exact .inr hnew
      · exact .inl hx
  rcases hold with hold | hnew
  · obtain ⟨y, hy, hrest⟩ := hI x hold ha providers hp r
    exact ⟨y, hpast hy, hrest⟩
  · obtain ⟨y, hy, hrest⟩ := hnew.took hk hfound hh hI ha hp r
    exact ⟨y, hpast hy, hrest⟩

/-- **Active is written as True** by an Environment that waits and has taken its resources: it still holds them. -/
theorem holds_of_reports {o cur : Environment} {reason : Reason} {providers : Providers} (hk : w.Knowing)
    (hfound : ∀ m, FoundItself m (w.log (.environment m))) (hh : EnvironmentHistory w.store)
    (hkept : ∀ r, ResourcesKept r w.store) (h : Reports m (w.log (.environment m)) o)
    (ha : o.status.cond .active = some (.true, reason)) (hf : w.store.find .environment o.name = some cur)
    (hv : cur.metadata.resourceVersion = o.metadata.resourceVersion) (hp : cur.spec.providers = some providers)
    (r : ResourceKind) : ∃ y, w.store.find (.resource r) (named providers r) = some y ∧ Holds o.name y.metadata := by
  obtain ⟨x, x', c, hg, ⟨e, he, hans⟩, hn, hm, hc, hact⟩ := h.written
  have hcn : cur.name = o.name := w.store.named hf
  obtain rfl : x' = cur := Store.Knows.eq ((hk _ e he).known .environment x' hans) hf (hv.trans (by rw [hm]))
  have hom : o.name = m := hcn.symm.trans hn
  have htells := hk _ _ hg
  have hxn : x.name = m := htells.named .environment m x rfl
  have hsame : x.spec = x'.spec :=
    hh.spec x (htells.reads .environment x .get) x' (w.store.current hf) (hxn.trans hn.symm)
  rw [hc] at ha
  -- the stored version waits, and so has every one before it
  have hwaits : ¬ Left m w.store := by
    rintro ⟨z, hz, hzn, hnot⟩
    refine hnot (hh.waits z hz x' (w.store.current hf) (hzn.trans hn.symm) ?_ ?_)
    · refine w.store.latest hz ?_
      rw [hzn, ← hom]
      exact hf
    · intro st reason' hcond
      generalize x'.status.cond .active = before at hact hcond
      cases hact with
      | waiting | inactive => cases ha
      | ready =>
          cases hcond
          rfl
  have htaken : Taken m (w.log (.environment m)) r (named providers r) := by
    generalize x'.status.cond .active = before at hact
    cases hact with
    | waiting | inactive => cases ha
    | ready hp' ht =>
        rw [hsame, hp] at hp'
        obtain rfl := Option.some.inj hp'
        exact ht r
  obtain ⟨y, hy, hyn, hctrl⟩ := past_of_taken hk (hfound m) htaken
  obtain ⟨cur', hf', hholds⟩ := (hkept r y hy m hctrl).resolve_left hwaits
  rw [hyn] at hf'
  rw [hom]
  exact ⟨cur', hf', hholds⟩

end

/-! ## Runs -/

variable {op : Operator}

/-- What is known of the resources and the Environments in such a run. -/
structure Exclusive (w : OperatorState) : Prop where
  found : ∀ m, FoundItself m (w.log (.environment m))
  history : EnvironmentHistory w.store
  stays : ∀ r, ControllerStays r w.store
  kept : ∀ r, ResourcesKept r w.store
  took : ActiveTook w.store

theorem FoundItself.fresh {w : OperatorState} {m : String} (h : FoundItself m (w.log (.environment m))) (i : Worker) :
    FoundItself m ((w.fresh i).log (.environment m)) := by
  by_cases hi : Worker.environment m = i
  · subst hi
    rw [Cluster.log_fresh_self]
    intro r n y hg
    cases hg
  · rw [Cluster.log_fresh_ne hi]
    exact h

theorem FoundItself.record {w : OperatorState} {m : String} {i : Worker} {o : Op} {a : Ans o} {s : Namespace}
    (h : FoundItself m (w.log (.environment m))) (hc : findsItself i o a) :
    FoundItself m ((w.record i o a s).log (.environment m)) := by
  by_cases hi : Worker.environment m = i
  · subst hi
    rw [Cluster.log_record_self]
    intro r n y hg hhas
    rcases List.mem_cons.mp hg with hsaid | hg
    · cases hsaid
      exact hc m rfl hhas
    · exact h r n y hg hhas
  · rw [Cluster.log_record_ne hi]
    exact h

/-- A step keeps what is known. -/
theorem Exclusive.step {w : OperatorState} {s : Namespace} (h : Exclusive w) (hk : w.Knowing)
    (hr : ∀ r, ResourceStep r w s) (he : EnvironmentStep w s)
    (hpast : ∀ {k} {x : Obj k}, x ∈ w.store.past k → x ∈ s.past k) :
    EnvironmentHistory s ∧ (∀ r, ControllerStays r s) ∧ (∀ r, ResourcesKept r s) ∧ ActiveTook s :=
  ⟨h.history.step he, fun r => (h.stays r).step (hr r), fun r => (h.kept r).step hk h.found (hr r) hpast,
    h.took.step hk h.found h.history he hpast⟩

theorem exclusive {c} (h : (op.runs fun i _ o a => findsItself i o a).Reachable c) :
    c.state.Knowing ∧ Exclusive c.state := by
  refine Operator.invariant (I := Exclusive) ?_ ?_ ?_ ?_ h
  · refine ⟨fun m r n y hg => (nomatch hg), ⟨fun x hx => (nomatch hx), fun x hx => (nomatch hx)⟩, ?_, ?_, ?_⟩
    · exact fun r x hx => (nomatch hx)
    · exact fun r y hy => (nomatch hy)
    · exact fun x hx => (nomatch hx)
  · exact fun i w _ hI => ⟨fun m => (hI.found m).fresh i, hI.history, hI.stays, hI.kept, hI.took⟩
  · intro i w o a s hk hI hperm hs hc
    obtain ⟨hh, hstays, hkept, htook⟩ :=
      hI.step hk (fun r => .of_call hk hperm hs) (.of_call hk hperm hs) hs.past_mono
    exact ⟨fun m => (hI.found m).record hc, hh, hstays, hkept, htook⟩
  · intro w o a s hk hI ho hw
    obtain ⟨hh, hstays, hkept, htook⟩ := hI.step hk (fun r => .of_others ho hw) (.of_others ho hw) hw.past_mono
    exact ⟨hI.found, hh, hstays, hkept, htook⟩

/-- **Exclusive use**, in every run in which an Environment that finds a resource with a controller finds itself there:
    when a write of Active as True is accepted, the Environment controls the three resources it names and they carry the
    release finalizer; and no two Environments that have ever been active name one resource. -/
theorem exclusive_use {c} (h : (op.runs fun i _ o a => findsItself i o a).Reachable c) :
    (∀ i, ∀ e ∈ c.state.rounds i, ∀ o reason, e.op = .updateStatus .environment o →
      o.status.cond .active = some (.true, reason) → ∀ cur, e.before.find .environment o.name = some cur →
      cur.metadata.resourceVersion = o.metadata.resourceVersion → ∀ providers, cur.spec.providers = some providers →
      ∀ r, ∃ y, e.before.find (.resource r) (named providers r) = some y ∧ Holds o.name y.metadata) ∧
    ∀ x ∈ c.state.store.past .environment, ∀ x' ∈ c.state.store.past .environment, IsActive x → IsActive x' →
      ∀ providers providers', x.spec.providers = some providers → x'.spec.providers = some providers' →
      ∀ r, named providers r = named providers' r → x.name = x'.name := by
  refine ⟨?_, fun x hx x' hx' ha ha' providers providers' hp hp' r hsame => ?_⟩
  · refine Operator.events (J := Exclusive) (P := fun i e => ∀ o reason, e.op = .updateStatus .environment o →
      o.status.cond .active = some (.true, reason) → ∀ cur, e.before.find .environment o.name = some cur →
      cur.metadata.resourceVersion = o.metadata.resourceVersion → ∀ providers, cur.spec.providers = some providers →
      ∀ r, ∃ y, e.before.find (.resource r) (named providers r) = some y ∧ Holds o.name y.metadata)
      (fun c hc => (exclusive hc).2) ?_ h
    rintro i w op a hk hI hperm _ o reason rfl ha cur hf hv providers hp r
    cases i with
    | testRun | environmentRequest | resource => exact hperm.elim
    | environment m => exact holds_of_reports hk hI.found hI.history hI.kept hperm ha hf hv hp r
  · obtain ⟨_, hI⟩ := exclusive h
    obtain ⟨y, hy, hyn, hc⟩ := hI.took x hx ha providers hp r
    obtain ⟨y', hy', hyn', hc'⟩ := hI.took x' hx' ha' providers' hp' r
    have hname : y.name = y'.name := hyn.trans (hsame.trans hyn'.symm)
    -- the two versions of the resource have one controller
    rcases Nat.le_total y.metadata.resourceVersion y'.metadata.resourceVersion with hle | hle
    · have hctrl := hI.stays r y hy y' hy' hname hle _ hc
      exact reference_injective (Option.some.inj (hctrl.symm.trans hc'))
    · have hctrl := hI.stays r y' hy' y hy hname.symm hle _ hc'
      exact reference_injective (Option.some.inj (hc.symm.trans hctrl))

/-! ### Runs -/

/-- An Environment is created and reconciled until it is active. -/
def environmentActivated (n : String) : List Turn :=
  [other (.create .environment (plainEnvironment n)), round (.environment n), round (.environment n),
    round (.environment n)]

/-- The runs the theorem is about can be recognised. -/
instance (i : Worker) : (o : Op) → (a : Ans o) → Decidable (findsItself i o a)
  | .get (.resource _) _, .ok y =>
      match i with
      | .environment m =>
          decidable_of_iff (y.metadata.hasControllerReference = true → y.metadata.controllerOf = some (reference m))
            ⟨fun h _ hm => Worker.environment.inj hm ▸ h, fun h => h m rfl⟩
      | .testRun _ | .environmentRequest _ | .resource _ _ => .isTrue fun _ hm => by cases hm
  | .get (.resource _) _, .error _ | .get .testRun _, _ | .get .environmentRequest _, _ | .get .environment _, _
  | .get .provider _, _ | .get .cluster _, _ | .get .job _, _ | .get .pod _, _ => .isTrue trivial
  | .list _ _, _ | .create _ _, _ | .update _ _, _ | .updateStatus _ _, _ | .delete _ _, _ | .ext _, _ =>
      .isTrue trivial

/-- An Environment has become active, and holds its Iut. -/
theorem exclusive_use_activated :
    (∃ x ∈ (played (provided ++ environmentActivated "environment")).store.past .environment, IsActive x) ∧
      ∀ x ∈ (played (provided ++ environmentActivated "environment")).store.past .environment,
        ∀ x' ∈ (played (provided ++ environmentActivated "environment")).store.past .environment,
        IsActive x → IsActive x' → ∀ providers providers', x.spec.providers = some providers →
        x'.spec.providers = some providers' → ∀ r, named providers r = named providers' r → x.name = x'.name := by
  have hmeets : Meets (fun i _ o a => findsItself i o a) (provided ++ environmentActivated "environment") := by decide
  exact ⟨⟨_, List.mem_cons_self, _, rfl⟩, (exclusive_use (plays_runs hmeets)).2⟩

/-- **One Iut for two.** The second Environment finds the resources with a controller, and is active, too. -/
theorem shared_iut :
    ∃ c, plainOperator.system.Reachable c ∧ ∃ x x' : Environment,
      c.state.store.find .environment "environment-1" = some x ∧
      c.state.store.find .environment "environment-2" = some x' ∧ IsActive x ∧ IsActive x' ∧
      ∃ providers, x.spec.providers = some providers ∧ x'.spec.providers = some providers ∧
        ∃ y, c.state.store.find (.resource .iut) (named providers .iut) = some y ∧
          ¬ Holds "environment-2" y.metadata := by
  refine ⟨⟨played (provided ++ environmentActivated "environment-1" ++ environmentActivated "environment-2"),
    fun _ => none⟩, ?_, _, _, rfl, rfl, ⟨_, rfl⟩, ⟨_, rfl⟩, _, rfl, rfl, _, rfl, ?_⟩
  · exact (plays_runs (by decide : Meets (fun _ _ _ _ => True) _)).of_restrict
  · rintro ⟨hc, _⟩
    exact absurd hc (by decide)

end Etos
