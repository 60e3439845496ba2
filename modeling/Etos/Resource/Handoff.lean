import Etos.Resource.Versions

/-!
# `Resource.Handoff` — the finalizers of a resource are never all gone

The provider finalizer of a resource is dropped by its own reconciler, the release finalizer by the Environment that has
taken the resource, and neither looks at what the other does at the same time. Still a resource that has carried one of
them carries one until it has been released: the reconciler drops its finalizer only from a version that an Environment
owns, and such a version carries the release finalizer, or from one with a completion time, which is the trace of a
completed release job; and the Environment gives the resource up only after a release job of its own has completed. The
three facts are the invariant `Handoff`; **`finalizer_handoff`** is the result.
-/

namespace Etos

open Kube EnvironmentReconciler

/-- The object carries one of the two finalizers. -/
def Carries (m : ObjectMeta) : Prop := providerFinalizer ∈ m.finalizers ∨ releaseFinalizer ∈ m.finalizers

/-- A release job has completed: the resource's own, or one of an Environment that names the resource. -/
def Released (r : ResourceKind) (n : String) (s : Namespace) : Prop :=
  ∃ job ∈ s.past .job, isJobFinished job = some .complete ∧
    ((Worker.resource r n).Owns job ∨ ∃ env ∈ s.past .environment, (Worker.environment env.name).Owns job ∧
      ∃ providers, env.spec.providers = some providers ∧ named providers r = n)

section

variable {r : ResourceKind} {n : String} {w : OperatorState} {s : Namespace} {new : Resource r}

theorem Released.mono (h : Released r n w.store) (hpast : ∀ {k} {x : Obj k}, x ∈ w.store.past k → x ∈ s.past k) :
    Released r n s := by
  obtain ⟨job, hjob, hdone, hown | ⟨env, henv, hrest⟩⟩ := h
  · exact ⟨job, hpast hjob, hdone, .inl hown⟩
  · exact ⟨job, hpast hjob, hdone, .inr ⟨env, hpast henv, hrest⟩⟩

/-- A completed job that a worker was told about. -/
theorem JobComplete.past {i : Worker} (hk : w.Knowing) (h : JobComplete i (w.log i)) :
    ∃ job ∈ w.store.past .job, isJobFinished job = some .complete ∧ i.Owns job := by
  obtain ⟨jobs, job, hlist, hjob, hdone⟩ := h
  have htells := hk i _ hlist
  exact ⟨job, htells.reads .job job (.list hjob), hdone, htells.listed .job _ jobs rfl job hjob⟩

theorem Released.of_own (hk : w.Knowing) (h : JobComplete (.resource r n) (w.log (.resource r n))) :
    Released r n w.store := by
  obtain ⟨job, hjob, hdone, hown⟩ := h.past hk
  exact ⟨job, hjob, hdone, .inl hown⟩

theorem Released.of_environment {m : String} {env : Environment} {providers : Providers} (hk : w.Knowing)
    (h : JobComplete (.environment m) (w.log (.environment m)))
    (hg : Got (w.log (.environment m)) .environment m env) (hp : env.spec.providers = some providers)
    (hn : named providers r = n) : Released r n w.store := by
  obtain ⟨job, hjob, hdone, hown⟩ := h.past hk
  have htells := hk _ _ hg
  have hname : env.name = m := htells.named .environment m env rfl
  refine ⟨job, hjob, hdone, .inr ⟨env, htells.reads .environment env .get, ?_, providers, hp, hn⟩⟩
  rw [hname]
  exact hown

/-- The invariant of one resource. -/
structure Handoff (r : ResourceKind) (n : String) (s : Namespace) : Prop where
  /-- An Environment that owns the resource keeps it. -/
  owned : ∀ x ∈ s.past (.resource r), x.name = n → ownedByEnvironment x.metadata.ownerReferences = true →
    releaseFinalizer ∈ x.metadata.finalizers ∨ Released r n s
  completed : ∀ x ∈ s.past (.resource r), x.name = n → x.status.completionTime ≠ none → Released r n s
  carried : (∃ x ∈ s.past (.resource r), x.name = n ∧ Carries x.metadata) →
    Released r n s ∨ ∃ x, s.find (.resource r) n = some x ∧ Carries x.metadata

/-! ## One step -/

theorem ResourceChange.owned (h : ResourceChange r w new) (hk : w.Knowing) (hh : Handoff r n w.store)
    (hnew : new.name = n) (hown : ownedByEnvironment new.metadata.ownerReferences = true) :
    releaseFinalizer ∈ new.metadata.finalizers ∨ Released r n w.store := by
  -- the version below, if it has the same owners
  have hbelow : ∀ cur, w.store.find (.resource r) new.name = some cur →
      new.metadata.ownerReferences = cur.metadata.ownerReferences →
      releaseFinalizer ∈ cur.metadata.finalizers ∨ Released r n w.store := by
    intro cur hf hsame
    rw [hsame] at hown
    exact hh.owned cur (w.store.current hf) ((w.store.named hf).trans hnew) hown
  have hne : releaseFinalizer ≠ providerFinalizer := by decide
  cases h with
  | created _ _ _ _ hfree =>
      rw [hfree] at hown
      cases hown
  | kept hf _ hfin hsame =>
      rw [hfin]
      exact hbelow _ hf hsame
  | added hf _ hfin hsame =>
      rw [hfin]
      exact (hbelow _ hf hsame).imp_left fun hmem => (ObjectMeta.mem_addFinalizer ..).mpr (.inr hmem)
  | dropped hf _ hfin hsame =>
      rw [hfin]
      exact (hbelow _ hf hsame).imp_left fun hmem => (ObjectMeta.mem_removeFinalizer ..).mpr ⟨hmem, hne⟩
  | taken _ _ _ _ _ _ _ hfin =>
      rw [hfin]
      exact .inl ((ObjectMeta.mem_addFinalizer ..).mpr (.inl rfl))
  | released _ _ hg _ _ hj hp hname => exact .inr (.of_environment hk hj hg hp (hname.symm.trans hnew))
  | reported hf hm =>
      rw [hm]
      exact hbelow _ hf (by rw [hm])

theorem ResourceChange.completed (h : ResourceChange r w new) (hk : w.Knowing) (hh : Handoff r n w.store)
    (hnew : new.name = n) (hc : new.status.completionTime ≠ none) : Released r n w.store := by
  have hbelow : ∀ cur, w.store.find (.resource r) new.name = some cur →
      new.status.completionTime = cur.status.completionTime → Released r n w.store := by
    intro cur hf hsame
    rw [hsame] at hc
    exact hh.completed cur (w.store.current hf) ((w.store.named hf).trans hnew) hc
  cases h with
  | created _ hst =>
      rw [hst] at hc
      exact absurd rfl hc
  | kept hf hst | added hf hst | dropped hf hst | taken hf hst | released hf hst => exact hbelow _ hf (by rw [hst])
  | @reported cur hf _ h =>
      cases h with
      | mirrors hsame => exact hbelow _ hf hsame
      | releases hopen hrel =>
          rw [hnew] at hrel
          generalize hp : new.status.progress .active = p at hrel
          have hcompletion : new.status.completionTime = p.completion := congrArg Progress.completion hp
          cases hrel with
          | waiting | releasing | failed =>
              rw [hcompletion] at hc
              exact absurd hopen hc
          | released hj => exact .of_own hk hj

theorem ResourceChange.carried (h : ResourceChange r w new) (hk : w.Knowing) (hh : Handoff r n w.store)
    (hnew : new.name = n) (honce : ∃ x ∈ w.store.past (.resource r), x.name = n ∧ Carries x.metadata) :
    Released r n w.store ∨ Carries new.metadata := by
  -- the version below carries one of the finalizers
  have hbelow : ∀ cur, w.store.find (.resource r) new.name = some cur →
      Released r n w.store ∨ Carries cur.metadata := by
    intro cur hf
    refine (hh.carried honce).imp_right fun ⟨x, hx, hcarries⟩ => ?_
    rw [hnew, hx] at hf
    exact Option.some.inj hf ▸ hcarries
  have hne : releaseFinalizer ≠ providerFinalizer := by decide
  cases h with
  | created hfresh =>
      obtain ⟨x, hx, hxn, _⟩ := honce
      exact absurd (hxn.trans hnew.symm) (hfresh x hx)
  | kept hf _ hfin =>
      rw [Carries, hfin]
      exact hbelow _ hf
  | added _ _ hfin =>
      rw [Carries, hfin]
      exact .inr (.inl ((ObjectMeta.mem_addFinalizer ..).mpr (.inl rfl)))
  | @dropped cur hf _ hfin _ hwhy =>
      have hcur := w.store.current hf
      have hcn : cur.name = n := (w.store.named hf).trans hnew
      rcases hwhy with hown | hc
      · rcases hh.owned cur hcur hcn hown with hmem | hdone
        · rw [Carries, hfin]
          exact .inr (.inr ((ObjectMeta.mem_removeFinalizer ..).mpr ⟨hmem, hne⟩))
        · exact .inl hdone
      · exact .inl (hh.completed cur hcur hcn hc)
  | taken _ _ _ _ _ _ _ hfin =>
      rw [Carries, hfin]
      exact .inr (.inr ((ObjectMeta.mem_addFinalizer ..).mpr (.inl rfl)))
  | released _ _ hg _ _ hj hp hname => exact .inl (.of_environment hk hj hg hp (hname.symm.trans hnew))
  | reported hf hm =>
      rw [hm]
      exact hbelow _ hf

theorem Carries.ne_nil {m : ObjectMeta} (h : Carries m) : m.finalizers ≠ [] := by
  intro hnil
  rw [Carries, hnil] at h
  rcases h with h | h <;> cases h

/-- The end of a resource. -/
theorem Handoff.erased {m : String} (hh : Handoff r n w.store)
    (hdone : m = n → (∃ x ∈ w.store.past (.resource r), x.name = n ∧ Carries x.metadata) → Released r n w.store) :
    Handoff r n (w.store.erase (.resource r) m) := by
  refine ⟨hh.owned, hh.completed, fun honce => ?_⟩
  by_cases hm : m = n
  · exact .inl (hdone hm honce)
  · refine (hh.carried honce).imp_right fun ⟨x, hf, hcarries⟩ => ⟨x, ?_, hcarries⟩
    rw [Store.erase_find_ne (Ne.symm hm)]
    exact hf

/-- A new version of a resource. -/
theorem Handoff.put (hh : Handoff r n w.store) (hk : w.Knowing) (h : ResourceChange r w new) :
    Handoff r n (w.store.put (.resource r) new) := by
  have hdone : Released r n w.store → Released r n (w.store.put (.resource r) new) :=
    fun hdone => hdone.mono Store.put_past_mono
  have hpast : (w.store.put (.resource r) new).past (.resource r) =
      w.store.stamp (k := Kind.resource r) new :: w.store.past (.resource r) :=
    Store.put_past (s := w.store) (k := Kind.resource r) new
  refine ⟨fun x hx hxn hown => ?_, fun x hx hxn hc => ?_, fun ⟨x, hx, hxn, hcarries⟩ => ?_⟩
  · rw [hpast] at hx
    rcases List.mem_cons.mp hx with rfl | hx
    · exact (h.owned hk hh hxn hown).imp_right hdone
    · exact (hh.owned x hx hxn hown).imp_right hdone
  · rw [hpast] at hx
    rcases List.mem_cons.mp hx with rfl | hx
    · exact hdone (h.completed hk hh hxn hc)
    · exact hdone (hh.completed x hx hxn hc)
  · by_cases hnew : new.name = n
    · have hfind : (w.store.put (.resource r) new).find (.resource r) n =
          some (w.store.stamp (k := Kind.resource r) new) := by
        rw [← hnew]
        exact Store.put_find_self (s := w.store) (k := Kind.resource r) new
      rw [hpast] at hx
      rcases List.mem_cons.mp hx with rfl | hx
      · exact .inr ⟨_, hfind, hcarries⟩
      · exact (h.carried hk hh hnew ⟨x, hx, hxn, hcarries⟩).imp hdone fun hcarries => ⟨_, hfind, hcarries⟩
    · rw [hpast] at hx
      rcases List.mem_cons.mp hx with rfl | hx
      · exact absurd hxn hnew
      · refine (hh.carried ⟨x, hx, hxn, hcarries⟩).imp hdone fun ⟨y, hf, hy⟩ => ⟨y, ?_, hy⟩
        rw [Store.put_find_ne (Ne.symm hnew)]
        exact hf

theorem Handoff.step (hh : Handoff r n w.store) (hk : w.Knowing) (h : ResourceStep r w s)
    (hpast : ∀ {k} {x : Obj k}, x ∈ w.store.past k → x ∈ s.past k) : Handoff r n s := by
  cases h with
  | same hfind hsame =>
      have hdone : Released r n w.store → Released r n s := fun hdone => hdone.mono hpast
      refine ⟨?_, ?_, ?_⟩
      · rw [hsame]
        exact fun x hx hxn hown => (hh.owned x hx hxn hown).imp_right hdone
      · rw [hsame]
        exact fun x hx hxn hc => hdone (hh.completed x hx hxn hc)
      · rw [hsame, hfind]
        exact fun honce => (hh.carried honce).imp_left hdone
  | next h => exact hh.put hk h
  | last h hlast =>
      refine hh.erased fun hname honce => ?_
      exact (h.carried hk hh hname honce).resolve_right fun hcarries => hcarries.ne_nil hlast
  | @removed m cur hf hfree =>
      refine hh.erased fun hname honce => (hh.carried honce).resolve_right ?_
      rintro ⟨x, hx, hcarries⟩
      rw [← hname, hf] at hx
      obtain rfl := Option.some.inj hx
      exact hcarries.ne_nil hfree

end

/-- **The handoff.** In every run of the operator, whatever is deleted when and whichever reads are stale or writes
    refused: a resource that has carried the provider or the release finalizer is there and carries one of them, until a
    release job for it has completed. -/
theorem finalizer_handoff {op : Operator} (r : ResourceKind) (n : String) {c} (h : op.system.Reachable c)
    (honce : ∃ x ∈ c.state.store.past (.resource r), x.name = n ∧ Carries x.metadata) :
    Released r n c.state.store ∨ ∃ x, c.state.store.find (.resource r) n = some x ∧ Carries x.metadata := by
  have hinv : Handoff r n c.state.store := by
    refine (Operator.invariant (I := fun w => Handoff r n w.store) ?_ ?_ ?_ ?_ h.restrict_true).2
    · exact ⟨fun x hx => (nomatch hx), fun x hx => (nomatch hx), fun ⟨x, hx, _⟩ => (nomatch hx)⟩
    · exact fun _ _ _ hh => hh
    · exact fun i w o a s hk hh hperm hs _ => hh.step hk (.of_call hk hperm hs) hs.past_mono
    · exact fun w o a s hk hh ho hw => hh.step hk (.of_others ho hw) hw.past_mono
  exact hinv.carried honce

/-- It is still there, waiting for its release. -/
theorem finalizer_handoff_deleted :
    (∃ x ∈ (played iutDeleted).store.past (.resource .iut), x.name = "iut" ∧ Carries x.metadata) ∧
      (Released .iut "iut" (played iutDeleted).store ∨
        ∃ x, (played iutDeleted).store.find (.resource .iut) "iut" = some x ∧ Carries x.metadata) := by
  have honce : ∃ x ∈ (played iutDeleted).store.past (.resource .iut), x.name = "iut" ∧ Carries x.metadata :=
    ⟨_, List.mem_cons_self, rfl, .inl (by decide)⟩
  have hrun : plainOperator.system.Reachable ⟨played iutDeleted, fun _ => none⟩ :=
    (plays_runs (by decide : Meets (fun _ _ _ _ => True) iutDeleted)).of_restrict
  exact ⟨honce, finalizer_handoff .iut "iut" hrun honce⟩

end Etos
