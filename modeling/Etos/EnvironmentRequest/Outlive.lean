import Etos.EnvironmentRequest.Provisioned
import Etos.EnvironmentRequest.Rounds

/-!
# `EnvironmentRequest.Outlive` — what outlives a request

`reconcileDeletion` takes the finalizer off a request when nothing is listed any more that carries its
`Spec.Identifier`. That is not the label that tells what belongs to the request: without an identifier nothing is
listed, whatever has been provided. Nor does it look at the provider job, which may go on providing. Both leave
something behind (`outlived`).

In the runs in which the request has an identifier, its provider job has finished when the lists are made, the lists are
up to date, and a request that is being deleted is not taken for one that is not, nothing that belongs to the request
exists once its finalizer is gone, then or at any later time: **`nothing_outlives`**.
-/

namespace Etos

open Kube EnvironmentRequestReconciler

/-- The request has had the release finalizer, and has it no more. -/
def Finalized (n : String) (s : Namespace) : Prop :=
  (∃ x ∈ s.past .environmentRequest, x.name = n ∧ releaseFinalizer ∈ x.metadata.finalizers) ∧
    ∀ cur, s.find .environmentRequest n = some cur → releaseFinalizer ∉ cur.metadata.finalizers

/-- The update takes the finalizer off the stored request. -/
structure TakesOff (n : String) (s : Namespace) (o : Op) (new cur : EnvironmentRequest) : Prop where
  update : o = .update .environmentRequest new
  name : new.name = n
  found : s.find .environmentRequest n = some cur
  version : cur.metadata.resourceVersion = new.metadata.resourceVersion
  had : releaseFinalizer ∈ cur.metadata.finalizers
  lacks : releaseFinalizer ∉ new.metadata.finalizers

section

variable {n : String} {s s' : Namespace} {o : Op}

/-- Only an update takes the finalizer off. -/
theorem Finalized.step (h : Finalized n s')
    (hs : (s'.find .environmentRequest = s.find .environmentRequest ∧
      s'.past .environmentRequest = s.past .environmentRequest) ∨ Store.Touches issued s .environmentRequest o s') :
    Finalized n s ∨ ∃ new cur, TakesOff n s o new cur := by
  obtain ⟨⟨x, hx, hxn, hxfin⟩, hcur'⟩ := h
  rcases hs with ⟨hfind, hpast⟩ | hs
  · rw [hpast] at hx
    rw [hfind] at hcur'
    exact .inl ⟨⟨x, hx, hxn, hxfin⟩, hcur'⟩
  -- a new version with the finalizer would be the stored one
  have hold : x ∈ s.past .environmentRequest := by
    rcases hs.stored hx with hold | hf
    · exact hold
    · rw [hxn] at hf
      exact absurd hxfin (hcur' x hf)
  by_cases hcur : ∃ cur, s.find .environmentRequest n = some cur ∧ releaseFinalizer ∈ cur.metadata.finalizers
  · obtain ⟨cur, hf, hfin⟩ := hcur
    -- the stored request has it, so what is stored in its place has not
    have hkept : s'.find .environmentRequest n ≠ some cur := fun hsame => hcur' cur hsame hfin
    have hput : ∀ y : EnvironmentRequest, s'.find = (s.put .environmentRequest y).find →
        y.name = n ∧ releaseFinalizer ∉ y.metadata.finalizers := by
      intro y hfind
      by_cases hy : y.name = n
      · refine ⟨hy, fun hyfin => hcur' (s.stamp (k := Kind.environmentRequest) y) ?_ hyfin⟩
        rw [hfind, ← hy]
        exact Store.put_find_self (s := s) (k := Kind.environmentRequest) y
      · refine absurd ?_ hkept
        rw [hfind, Store.put_find_ne (Ne.symm hy)]
        exact hf
    cases hs with
    | @create o₁ o₂ m t _ _ hnone =>
        obtain ⟨hm, _⟩ := hput _ rfl
        have hm : m = n := hm
        rw [hm, hf] at hnone
        cases hnone
    | @update o₁ o₂ cur' ha hf' hv =>
        obtain ⟨⟨id, now, rfl⟩, _⟩ := ha
        obtain ⟨hname, hlacks⟩ := hput _ rfl
        have hname : o₁.name = n := hname
        have hf' : s.find .environmentRequest o₁.name = some cur' := hf'
        rw [hname, hf] at hf'
        obtain rfl := Option.some.inj hf'
        exact .inr ⟨o₁, cur, rfl, hname, hf, hv, hfin, hlacks⟩
    | @finish o₁ o₂ cur' ha hf' hv _ hlast =>
        obtain ⟨⟨id, now, rfl⟩, _⟩ := ha
        have hname : o₁.name = n := by
          by_contra hne
          refine hkept ?_
          rw [Store.erase_find_ne (Ne.symm hne)]
          exact hf
        have hf' : s.find .environmentRequest o₁.name = some cur' := hf'
        rw [hname, hf] at hf'
        obtain rfl := Option.some.inj hf'
        have hlast : o₁.metadata.finalizers = [] := hlast
        refine .inr ⟨o₁, cur, rfl, hname, hf, hv, hfin, ?_⟩
        rw [hlast]
        exact List.not_mem_nil
    | @status o₁ cur' hf' =>
        obtain ⟨hname, hlacks⟩ := hput _ rfl
        have hname : cur'.name = n := hname
        have hcn : cur'.name = o₁.name := s.named hf'
        rw [← hcn, hname, hf] at hf'
        obtain rfl := Option.some.inj hf'
        exact absurd hfin hlacks
    | @remove m cur' hf' hfree =>
        have hm : m = n := by
          by_contra hne
          refine hkept ?_
          rw [Store.erase_find_ne (Ne.symm hne)]
          exact hf
        rw [hm, hf] at hf'
        obtain rfl := Option.some.inj hf'
        rw [hfree] at hfin
        cases hfin
    | @mark m t cur' hf' =>
        obtain ⟨hname, hlacks⟩ := hput _ rfl
        have hname : cur'.name = n := hname
        have hcn : cur'.name = m := s.named hf'
        rw [← hcn, hname, hf] at hf'
        obtain rfl := Option.some.inj hf'
        exact absurd hfin hlacks
  · exact .inl ⟨⟨x, hold, hxn, hxfin⟩, fun cur hf hfin => hcur ⟨cur, hf, hfin⟩⟩

/-- What belongs to a request with an identifier carries the identifier. -/
theorem BelongsTo.listed (hI : Provisioned s) {x : EnvironmentRequest} (hx : x ∈ s.past .environmentRequest)
    (hid : x.spec.identifier ≠ "") {k : Kind} (hk : k ∈ requestKinds) {m : String} (h : BelongsTo s x k m) :
    s.list k (.label idLabel x.spec.identifier) ≠ [] := by
  obtain ⟨y, hf, hlabel⟩ := h
  have hy : y ∈ s.past k := s.current hf
  -- the labels are those of a version of the request, which has the same identifier
  have hof : ∀ x' ∈ s.past .environmentRequest, LabelledFor x' y.metadata.labels →
      s.list k (.label idLabel x.spec.identifier) ≠ [] := by
    intro x' hx' hl
    have hname := hI.unique x' hx' x hx (Option.some.inj (hl.1.symm.trans hlabel))
    obtain ⟨_, hsame⟩ := hI.same x' hx' x hx hname
    rw [← hsame] at hid ⊢
    refine List.ne_nil_of_mem (a := y) (mem_list_label.mpr ⟨?_, hl.2 hid⟩)
    rw [s.named hf]
    exact hf
  cases k with
  | environment =>
      rcases hI.environments y hy with hnone | ⟨x', hx', hl⟩
      · rw [hlabel] at hnone
        cases hnone
      · exact hof x' hx' hl
  | resource r =>
      obtain ⟨x', hx', _, hl⟩ := hI.resources r y hy
      exact hof x' hx' hl
  | testRun | environmentRequest | provider | cluster | job | pod => simp [requestKinds] at hk

theorem BelongsTo.congr {x x' : EnvironmentRequest} {k : Kind} {m : String} (h : BelongsTo s x k m)
    (hid : x.spec.id = x'.spec.id) : BelongsTo s x' k m := by
  obtain ⟨y, hf, hlabel⟩ := h
  rw [hid] at hlabel
  exact ⟨y, hf, hlabel⟩

end

/-! ## The round of a deleted request -/

/-- What the worker of the request has heard in its round. -/
abbrev heard (n : String) (w : OperatorState) : Log := w.log (.environmentRequest n)

/-- **The invariant**: what has been listed as gone stays gone, and so does everything when the finalizer is gone. -/
structure Clearing (n : String) (w : OperatorState) : Prop where
  once : ∀ x y, Got (heard n w) .environmentRequest n x → Got (heard n w) .environmentRequest n y → x = y
  identified : ∀ x, Got (heard n w) .environmentRequest n x → x.spec.identifier ≠ ""
  deleting : ∀ k ∈ requestKinds, ∀ v a, ⟨.list k (.label idLabel v), a⟩ ∈ heard n w →
    ∃ x, Got (heard n w) .environmentRequest n x ∧ x.deleting = true
  cleared : ∀ k ∈ requestKinds, ∀ v, ⟨.list k (.label idLabel v), .ok []⟩ ∈ heard n w →
    ¬ Providing n w.store ∧ ∀ x, Got (heard n w) .environmentRequest n x → ∀ m, ¬ BelongsTo w.store x k m
  /-- A round that works towards the provider job is over before the finalizer is gone. -/
  live : ∀ x, Got (heard n w) .environmentRequest n x → x.deleting = false → ¬ Finalized n w.store
  gone : Finalized n w.store → ¬ Providing n w.store ∧
    (∃ x ∈ w.store.past .environmentRequest, x.name = n ∧ x.deleting = true) ∧
    ∀ x ∈ w.store.past .environmentRequest, x.name = n → ∀ k ∈ requestKinds, ∀ m, ¬ BelongsTo w.store x k m

section

variable {n : String} {w : OperatorState} {s : Namespace} {o : Op}

/-- A step that is not of the worker, or before it is recorded in its round. -/
theorem Clearing.store (hI : Clearing n w) (hk : w.Knowing) (hP : Provisioned w.store) (hP' : Provisioned s)
    (ho : Fair w.store o)
    (hs : ∀ k, (s.find k = w.store.find k ∧ s.past k = w.store.past k) ∨ Store.Touches issued w.store k o s)
    (hpast : ∀ {k} {x : Obj k}, x ∈ w.store.past k → x ∈ s.past k)
    (hjob : ∀ job, o = .create .job job → (Worker.environmentRequest n).Owns job →
      ∃ x, Got (heard n w) .environmentRequest n x ∧ x.deleting = false)
    (hoff : ∀ new cur, TakesOff n w.store o new cur → ∃ x, Got (heard n w) .environmentRequest n x ∧
      x.deleting = true ∧ ∀ k ∈ requestKinds, ∃ v, ⟨.list k (.label idLabel v), .ok []⟩ ∈ heard n w) :
    Clearing n { w with store := s } := by
  have hgot : ∀ x, Got (heard n w) .environmentRequest n x →
      x ∈ w.store.past .environmentRequest ∧ x.name = n := by
    intro x hg
    have htells := hk _ _ hg
    exact ⟨htells.reads _ x .get, htells.named _ _ x rfl⟩
  have hbusy : ∀ x y, Got (heard n w) .environmentRequest n x → Got (heard n w) .environmentRequest n y →
      x.deleting = true → y.deleting = false → False := by
    intro x y hx hy hdel hlive
    rw [hI.once x y hx hy, hlive] at hdel
    cases hdel
  -- the provider job does not start again
  have hidle : (∀ x, Got (heard n w) .environmentRequest n x → x.deleting = false → False) →
      ¬ Providing n w.store → ¬ Providing n s := by
    intro hno hnot hrun
    rcases hrun.step ho (hs .job) with hrun | ⟨job, hjob', hown⟩
    · exact hnot hrun
    · obtain ⟨x, hx, hlive⟩ := hjob job hjob' hown
      exact hno x hx hlive
  -- and without it nothing is added
  have hnothing : ∀ x ∈ w.store.past .environmentRequest, x.name = n → ¬ Providing n w.store →
      ∀ k ∈ requestKinds, ∀ m, ¬ BelongsTo w.store x k m → ¬ BelongsTo s x k m := by
    intro x hx hname hnot k hkind m hno hb
    rcases hb.step hP ho hkind (hs k) hx with hb | hrun
    · exact hno hb
    · rw [hname] at hrun
      exact hnot hrun
  refine ⟨hI.once, hI.identified, hI.deleting, ?_, ?_, ?_⟩
  · intro k hkind v hlisted
    obtain ⟨x, hx, hdel⟩ := hI.deleting k hkind v _ hlisted
    obtain ⟨hnot, hclear⟩ := hI.cleared k hkind v hlisted
    refine ⟨hidle (fun y hy hlive => hbusy x y hx hy hdel hlive) hnot, fun y hy m => ?_⟩
    obtain ⟨hypast, hyname⟩ := hgot y hy
    exact hnothing y hypast hyname hnot k hkind m (hclear y hy m)
  · intro x hx hlive hfin
    rcases hfin.step (hs .environmentRequest) with hfin | ⟨new, cur, htakes⟩
    · exact hI.live x hx hlive hfin
    · obtain ⟨y, hy, hdel, _⟩ := hoff new cur htakes
      exact hbusy y x hy hx hdel hlive
  · intro hfin
    -- one version tells about all of them
    have hall : ∀ x ∈ w.store.past .environmentRequest, x.name = n →
        (∀ k ∈ requestKinds, ∀ m, ¬ BelongsTo s x k m) →
        ∀ y ∈ s.past .environmentRequest, y.name = n → ∀ k ∈ requestKinds, ∀ m, ¬ BelongsTo s y k m := by
      intro x hx hname hno y hy hyname k hkind m hb
      refine hno k hkind m (hb.congr ?_)
      exact (hP'.same y hy x (hpast hx) (hyname.trans hname.symm)).1
    rcases hfin.step (hs .environmentRequest) with hold | ⟨new, cur, htakes⟩
    · obtain ⟨hnot, ⟨x, hx, hname, hdel⟩, hno⟩ := hI.gone hold
      refine ⟨hidle (fun y hy hlive => hI.live y hy hlive hold) hnot, ⟨x, hpast hx, hname, hdel⟩, ?_⟩
      refine hall x hx hname fun k hkind m => ?_
      exact hnothing x hx hname hnot k hkind m (hno x hx hname k hkind m)
    · obtain ⟨x, hg, hdel, hlisted⟩ := hoff new cur htakes
      obtain ⟨hx, hname⟩ := hgot x hg
      have hnot : ¬ Providing n w.store := by
        obtain ⟨v, hv⟩ := hlisted .environment (by decide)
        exact (hI.cleared .environment (by decide) v hv).1
      refine ⟨hidle (fun y hy hlive => hbusy x y hg hy hdel hlive) hnot, ⟨x, hpast hx, hname, hdel⟩, ?_⟩
      refine hall x hx hname fun k hkind m => ?_
      obtain ⟨v, hv⟩ := hlisted k hkind
      exact hnothing x hx hname hnot k hkind m ((hI.cleared k hkind v hv).2 x hg m)

/-- The rounds of others. -/
theorem Clearing.heard_congr {w' : OperatorState} (hI : Clearing n w) (hstore : w'.store = w.store)
    (hlog : heard n w' = heard n w) : Clearing n w' := by
  refine ⟨?_, ?_, ?_, ?_, ?_, ?_⟩
  · rw [hlog]
    exact hI.once
  · rw [hlog]
    exact hI.identified
  · rw [hlog]
    exact hI.deleting
  · rw [hlog, hstore]
    exact hI.cleared
  · rw [hlog, hstore]
    exact hI.live
  · rw [hstore]
    exact hI.gone

/-- A new round. -/
theorem Clearing.fresh (hI : Clearing n w) (i : Worker) : Clearing n (w.fresh i) := by
  by_cases hi : i = .environmentRequest n
  · subst hi
    have hlog : heard n (w.fresh (.environmentRequest n)) = [] := Cluster.log_fresh_self
    refine ⟨?_, ?_, ?_, ?_, ?_, hI.gone⟩ <;> rw [hlog]
    · exact fun x y hx => (nomatch hx)
    · exact fun x hx => (nomatch hx)
    · exact fun k _ v a hl => (nomatch hl)
    · exact fun k _ v hl => (nomatch hl)
    · exact fun x hx => (nomatch hx)
  · exact hI.heard_congr rfl (Cluster.log_fresh_ne (Ne.symm hi))

/-- A call of the worker is recorded. -/
theorem Clearing.record {a : Ans o} (hI : Clearing n { w with store := s })
    (hget : ∀ x, (⟨o, a⟩ : Said Op Ans) = ⟨.get .environmentRequest n, .ok x⟩ →
      heard n w = [] ∧ x.spec.identifier ≠ "" ∧ (x.deleting = false → ¬ Finalized n s))
    (hlist : ∀ k ∈ requestKinds, ∀ v, o = .list k (.label idLabel v) →
      ∃ x, Got (heard n w) .environmentRequest n x ∧ x.deleting = true)
    (hnone : ∀ k ∈ requestKinds, ∀ v, (⟨o, a⟩ : Said Op Ans) = ⟨.list k (.label idLabel v), .ok []⟩ →
      ¬ Providing n s ∧ ∀ x, Got (heard n w) .environmentRequest n x → ∀ m, ¬ BelongsTo s x k m) :
    Clearing n (w.record (.environmentRequest n) o a s) := by
  have hlog : heard n (w.record (.environmentRequest n) o a s) = ⟨o, a⟩ :: heard n w := Cluster.log_record_self
  -- the request is read at the beginning of the round or not at all
  have hgot : ∀ x, Got (heard n (w.record (.environmentRequest n) o a s)) .environmentRequest n x →
      Got (heard n w) .environmentRequest n x ∨
        (⟨o, a⟩ : Said Op Ans) = ⟨.get .environmentRequest n, .ok x⟩ ∧ heard n w = [] := by
    intro x hx
    rw [hlog] at hx
    rcases List.mem_cons.mp hx with heq | hx
    · exact .inr ⟨heq.symm, (hget x heq.symm).1⟩
    · exact .inl hx
  have hmem : ∀ k ∈ requestKinds, ∀ v b,
      ⟨.list k (.label idLabel v), b⟩ ∈ heard n (w.record (.environmentRequest n) o a s) →
      (⟨o, a⟩ : Said Op Ans) = ⟨.list k (.label idLabel v), b⟩ ∨ ⟨.list k (.label idLabel v), b⟩ ∈ heard n w := by
    intro k _ v b hb
    rw [hlog] at hb
    rcases List.mem_cons.mp hb with heq | hb
    · exact .inl heq.symm
    · exact .inr hb
  refine ⟨?_, ?_, ?_, ?_, ?_, hI.gone⟩
  · intro x y hx hy
    rcases hgot x hx with hx | ⟨heq, hempty⟩ <;> rcases hgot y hy with hy | ⟨heq', hempty'⟩
    · exact hI.once x y hx hy
    · rw [hempty'] at hx
      cases hx
    · rw [hempty] at hy
      cases hy
    · rw [heq] at heq'
      cases heq'
      rfl
  · intro x hx
    rcases hgot x hx with hx | ⟨heq, _⟩
    · exact hI.identified x hx
    · exact (hget x heq).2.1
  · intro k hk v b hb
    have hold : ∃ x, Got (heard n w) .environmentRequest n x ∧ x.deleting = true := by
      rcases hmem k hk v b hb with heq | hb
      · exact hlist k hk v (congrArg Said.op heq)
      · exact hI.deleting k hk v b hb
    obtain ⟨x, hx, hdel⟩ := hold
    refine ⟨x, ?_, hdel⟩
    rw [hlog]
    exact List.mem_cons_of_mem _ hx
  · intro k hk v hb
    rcases hmem k hk v _ hb with heq | hb
    · obtain ⟨hnot, hno⟩ := hnone k hk v heq
      refine ⟨hnot, fun x hx m => ?_⟩
      rcases hgot x hx with hx | ⟨heq', _⟩
      · exact hno x hx m
      · rw [heq] at heq'
        cases heq'
    · obtain ⟨hnot, hno⟩ := hI.cleared k hk v hb
      refine ⟨hnot, fun x hx m => ?_⟩
      rcases hgot x hx with hx | ⟨_, hempty⟩
      · exact hno x hx m
      · have hb : ⟨.list k (.label idLabel v), .ok []⟩ ∈ heard n w := hb
        rw [hempty] at hb
        cases hb
  · intro x hx hlive
    rcases hgot x hx with hx | ⟨heq, _⟩
    · exact hI.live x hx hlive
    · exact (hget x heq).2.2 hlive

end

/-! ## Runs -/

variable {op : Operator}

/-- The rounds of the request `n` find an identifier; they find the request not being deleted only if it is not; and
    when they find nothing left that carries the identifier there is nothing left, and the provider job has finished. -/
def deletesLast (n : String) (i : Worker) (w : OperatorState) : (o : Op) → Ans o → Prop
  | .get .environmentRequest _, .ok x => i = .environmentRequest n → x.spec.identifier ≠ "" ∧
      (x.deleting = false → ∃ cur ∈ w.store.find .environmentRequest n, cur.deleting = false)
  | .list k (.label key v), .ok [] => i = .environmentRequest n → key = idLabel → k ∈ requestKinds →
      w.store.list k (.label key v) = [] ∧ ¬ Providing n w.store
  | _, _ => True

/-- What is known of the rounds of requests. -/
def Worker.InRound : Worker → Log → Op → Prop
  | .environmentRequest n => Etos.InRound n
  | _ => fun _ _ => True

theorem Operator.reconcile_rounds (op : Operator) (i : Worker) :
    Obeys i.InRound (op.reconcile i) (fun _ _ => True) [] := by
  cases i with
  | environmentRequest n => exact (EnvironmentRequestReconciler.Reconcile_rounds n).bind fun _ _ _ => trivial
  | testRun | environment | resource => exact Follows.mono (op.reconcile_obeys _) fun _ _ _ => trivial

section

variable {n : String} {w : OperatorState} {s : Namespace} {o : Op} {i : Worker}

/-- Who creates a provider job has read the request before its deletion. -/
theorem Worker.Permits.provider (h : i.Permits (w.log i) o) {job : Job} (ho : o = .create .job job)
    (hown : (Worker.environmentRequest n).Owns job) :
    ∃ x, Got (heard n w) .environmentRequest n x ∧ x.deleting = false := by
  subst ho
  obtain rfl : i = .environmentRequest n := Worker.Owns.unique h.mayCreateJob.own hown
  obtain ⟨_, x, hopen, hlive, _⟩ := h
  exact ⟨x, hopen.got, hlive⟩

/-- Who takes the finalizer off has found nothing left that carries the identifier. -/
theorem Worker.Permits.takesOff (hk : w.Knowing) (h : i.Permits (w.log i) o) {new cur : EnvironmentRequest}
    (ht : TakesOff n w.store o new cur) : ∃ x, Got (heard n w) .environmentRequest n x ∧ x.deleting = true ∧
      ∀ k ∈ requestKinds, ∃ v, ⟨.list k (.label idLabel v), .ok []⟩ ∈ heard n w := by
  obtain ⟨rfl, hname, _, _, _, hlacks⟩ := ht
  cases i with
  | testRun | environment | resource => exact h.elim
  | environmentRequest m =>
      have hfin : Finalizes m _ new := h
      cases hfin with
      | @add x hg =>
          have hmem := (ObjectMeta.mem_addFinalizer (m := x.metadata) (f := releaseFinalizer)).mpr (.inl rfl)
          exact absurd hmem hlacks
      | @remove x x' hg hdel hs hnone =>
          obtain ⟨_, _, hmeta⟩ := hs.eq hk hg
          have hxm : x.name = m := (hk _ _ hg).named _ _ _ rfl
          have hx' : x'.name = x.name := by
            show x'.metadata.name = _
            rw [hmeta]
          have hname : x'.name = n := hname
          obtain rfl : m = n := by rw [← hxm, ← hx', hname]
          exact ⟨x, hg, hdel, fun k hkind => ⟨_, hnone k hkind⟩⟩

/-- Others leave the finalizers alone. -/
theorem others.not_takesOff {new cur : EnvironmentRequest} (h : others w.store o) : ¬ TakesOff n w.store o new cur := by
  rintro ⟨rfl, rfl, hf, _, hhad, hlacks⟩
  rw [(h cur hf).2.1] at hlacks
  exact hlacks hhad

end

/-- **The invariant holds** in these runs. -/
theorem clearing {n : String} {c} (h : (op.provisioned.restrict (deletesLast n)).Reachable c) : Clearing n c.state := by
  refine (Operator.invariant_within admitted_of_issued op.reconcile_rounds
    (I := fun w => Provisioned w.store ∧ Clearing n w) ?_ ?_ ?_ ?_ h).2.2
  · refine ⟨.empty, ⟨?_, ?_, ?_, ?_, ?_, ?_⟩⟩
    · exact fun x y hx => (nomatch hx)
    · exact fun x hx => (nomatch hx)
    · exact fun k _ v a hl => (nomatch hl)
    · exact fun k _ v hl => (nomatch hl)
    · exact fun x hx => (nomatch hx)
    · rintro ⟨⟨x, hx, _⟩, _⟩
      cases hx
  · exact fun i w _ ⟨hP, hI⟩ => ⟨hP, hI.fresh i⟩
  · rintro i w o a s hk ⟨hP, hI⟩ hperm hround hs hc
    have hfair := Fair.of_permits hk hperm
    have hP' := hP.step hfair hs.touches hs.past_mono
    have hstore : Clearing n { w with store := s } := by
      refine hI.store hk hP hP' hfair hs.touches hs.past_mono ?_ ?_
      · exact fun job ho hown => hperm.provider ho hown
      · exact fun new cur ht => hperm.takesOff hk ht
    refine ⟨hP', ?_⟩
    by_cases hi : i = .environmentRequest n
    · subst hi
      have hround : InRound n (heard n w) o := hround
      refine hstore.record ?_ ?_ ?_
      · rintro x ⟨⟩
        obtain rfl : s = w.store := hs.get_eq
        obtain ⟨hid, hcurrent⟩ := hc rfl
        refine ⟨hround.2, hid, fun hlive hfin => ?_⟩
        -- the request has not been deleted, but its finalizer is taken off after that
        obtain ⟨cur, hf, hcur⟩ := hcurrent hlive
        obtain ⟨_, ⟨y, hy, hname, hdel⟩, _⟩ := hI.gone hfin
        have hle : y.metadata.resourceVersion ≤ cur.metadata.resourceVersion := by
          refine w.store.latest hy ?_
          rw [hname]
          exact hf
        have hnames : y.name = cur.name := hname.trans (w.store.named hf).symm
        have hmark := hP.marked y hy cur (w.store.current hf) hnames hle hdel
        rw [hcur] at hmark
        cases hmark
      · rintro k hkind v rfl
        obtain ⟨x, x', hg, hdel, _⟩ := hround rfl hkind
        exact ⟨x, hg, hdel⟩
      · rintro k hkind v ⟨⟩
        obtain rfl : s = w.store := hs.list_eq
        obtain ⟨hempty, hnot⟩ := hc rfl rfl hkind
        refine ⟨hnot, fun x hg m hb => ?_⟩
        obtain ⟨y, y', hg', _, hstems, rfl⟩ := hround rfl hkind
        obtain rfl := hI.once x y hg hg'
        obtain ⟨_, hspec, _⟩ := hstems.eq hk hg'
        rw [hspec] at hempty
        exact hb.listed hP ((hk _ _ hg).reads _ x .get) (hI.identified x hg) hkind hempty
    · exact hstore.heard_congr rfl (Cluster.log_record_ne (Ne.symm hi))
  · rintro w o a s hk ⟨hP, hI⟩ ⟨ho, hp⟩ hw
    have hfair := Fair.of_provides ho hp
    have hP' := hP.step hfair hw.touches hw.past_mono
    refine ⟨hP', hI.store hk hP hP' hfair hw.touches hw.past_mono ?_ ?_⟩
    · rintro job rfl hown
      exact absurd hown (ho.not_owns _)
    · exact fun new cur ht => absurd ht ho.not_takesOff

/-- **Nothing outlives a request** that has an identifier, in every run among provider jobs that provide for their
    requests, as long as the rounds of the request see its deletion and its finalizer is taken off after its provider
    job has finished and all it has provided is gone: from then on nothing exists that belongs to the request. -/
theorem nothing_outlives (n : String) {c} (h : (op.provisioned.restrict (deletesLast n)).Reachable c) :
    ∀ x ∈ c.state.store.past .environmentRequest, x.name = n → Finalized n c.state.store →
      ¬ Providing n c.state.store ∧ ∀ k ∈ requestKinds, ∀ m, ¬ BelongsTo c.state.store x k m := by
  intro x hx hname hfin
  obtain ⟨hnot, _, hno⟩ := (clearing h).gone hfin
  exact ⟨hnot, hno x hx hname⟩

/-! ### Runs -/

instance (s : Namespace) (k : Kind) (o : Obj k) : Decidable (Issues s k o) := by
  unfold Issues
  split
  · exact inferInstanceAs (Decidable (_ ∧ ∀ x ∈ s.past .environmentRequest, _ → _))
  · exact .isTrue trivial

instance (n : String) (i : Worker) (w : OperatorState) :
    (o : Op) → (a : Ans o) → Decidable (deletesLast n i w o a)
  | .get .environmentRequest _, .ok _ =>
      inferInstanceAs (Decidable (_ → _ ∧ (_ → ∃ cur ∈ w.store.find .environmentRequest n, _)))
  | .list k (.label key v), .ok [] =>
      inferInstanceAs (Decidable (_ → _ → _ → w.store.list k (.label key v) = [] ∧ ¬ _))
  | .get .environmentRequest _, .error _ | .get .testRun _, _ | .get .environment _, _ | .get (.resource _) _, _
  | .get .provider _, _ | .get .cluster _, _ | .get .job _, _ | .get .pod _, _ | .list _ (.label _ _), .ok (_ :: _)
  | .list _ (.label _ _), .error _ | .list _ (.controlledBy ..), _ | .create _ _, _ | .update _ _, _
  | .updateStatus _ _, _ | .delete _ _, _ | .ext _, _ => .isTrue trivial

/-- The webhooks, which deny a request with an id that is in use. -/
def issues : Cluster.Admits Kind Spec Status := fun s k o => (admits s k o).filter fun o' => decide (Issues s k o')

theorem issues_issued (s : Namespace) (k : Kind) (o o' : Obj k) (h : issues s k o = some o') : issued s k o o' := by
  obtain ⟨ha, hi⟩ := Option.filter_eq_some_iff.mp h
  exact ⟨admits_admitted s k o o' ha, of_decide_eq_true hi⟩

/-- The operator among provider jobs that provide for their requests. -/
def providingBehaviour : Cluster.Behaviour Kind Spec Status Ext ExtAns Worker :=
  { plainOperator.behaviour with others := fun s o => others s o ∧ provides s o }

instance (s : Namespace) (o : Op) : Decidable (providingBehaviour.others s o) :=
  inferInstanceAs (Decidable (others s o ∧ provides s o))

/-- The state after some turns. -/
def provisionedPlayed (turns : List Turn) : OperatorState :=
  Cluster.play issues providingBehaviour turns ⟨Store.empty, fun _ => []⟩

/-- The turns meet a condition. -/
abbrev ProvisionedMeets (cond : Worker → OperatorState → (o : Op) → Ans o → Prop) (turns : List Turn) : Prop :=
  Cluster.Plays issues providingBehaviour cond turns ⟨Store.empty, fun _ => []⟩

/-- Turns that meet a condition are a run that does. -/
theorem plays_provisioned {cond : Worker → OperatorState → (o : Op) → Ans o → Prop} {turns : List Turn}
    (h : ProvisionedMeets cond turns) :
    (plainOperator.provisioned.restrict cond).Reachable ⟨provisionedPlayed turns, fun _ => none⟩ :=
  Cluster.plays_reachable issues_issued rfl h

/-- The request, with this identifier, has its provider job. -/
def jobRunning (identifier : String) : List Turn :=
  let request := plainRequest "request"
  providersCreated ++ [other (.create .environmentRequest { request with spec := { request.spec with identifier } }),
    round (.environmentRequest "request"), round (.environmentRequest "request"),
    round (.environmentRequest "request")]

/-- An Environment of the request. -/
def environmentOfRequest : Environment :=
  let labels := environmentLabels (plainRequest "request") (plainExecutionSpace "execution-space" "request")
  { plainEnvironment "environment" with metadata := { name := "environment", labels } }

/-- The request is deleted, and reconciled twice. -/
def requestDeleted : List Turn :=
  [other (.delete .environmentRequest "request"), round (.environmentRequest "request"),
    round (.environmentRequest "request")]

/-- The provider job provides an Iut and an Environment, and has finished when the request is deleted. -/
def providedAndDeleted : List Turn :=
  jobRunning "testrun-id" ++ [other (.create (.resource .iut) (plainIut "iut" "request")),
    other (.create .environment environmentOfRequest), jobFinished "environment-provider-6" 7 .complete] ++
    requestDeleted

/-- The request has no identifier, and its provider job has provided an Iut when it is deleted. -/
def unidentified : List Turn :=
  jobRunning "" ++ [other (.create (.resource .iut) (plainIut "iut" "request"))] ++ requestDeleted

/-- The provider job of a deleted request goes on. -/
def stillProviding : List Turn :=
  jobRunning "testrun-id" ++ requestDeleted ++ [other (.create .environment environmentOfRequest)]

/-- What was provided is deleted in the first round, the finalizer taken off in the second. -/
theorem nothing_outlives_provided :
    (∃ k ∈ requestKinds, ∃ m,
      BelongsTo (provisionedPlayed (providedAndDeleted.take 10)).store (plainRequest "request") k m) ∧
      ∃ x ∈ (provisionedPlayed providedAndDeleted).store.past .environmentRequest, x.name = "request" ∧
        Finalized "request" (provisionedPlayed providedAndDeleted).store ∧
        ∀ k ∈ requestKinds, ∀ m, ¬ BelongsTo (provisionedPlayed providedAndDeleted).store x k m := by
  have hmeets : ProvisionedMeets (deletesLast "request") providedAndDeleted := by decide
  have hfin : Finalized "request" (provisionedPlayed providedAndDeleted).store :=
    ⟨⟨_, .head _, rfl, by decide⟩, fun cur hf => (nomatch hf)⟩
  refine ⟨⟨.environment, by decide, "environment", _, rfl, by decide⟩, _, .head _, rfl, hfin, ?_⟩
  exact (nothing_outlives "request" (plays_provisioned hmeets) _ (.head _) rfl hfin).2

/-- **Outlived.** A request without an identifier finds nothing that carries it, and its Iut is still there when its
    finalizer is gone; and where the provider job is still running it provides an Environment after that. -/
theorem outlived :
    (∃ c, plainOperator.provisioned.Reachable c ∧ ∃ x ∈ c.state.store.past .environmentRequest, x.name = "request" ∧
      x.spec.identifier = "" ∧ Finalized "request" c.state.store ∧ BelongsTo c.state.store x (.resource .iut) "iut") ∧
    ∃ c, plainOperator.provisioned.Reachable c ∧ ∃ x ∈ c.state.store.past .environmentRequest, x.name = "request" ∧
      x.spec.identifier ≠ "" ∧ Finalized "request" c.state.store ∧
      BelongsTo c.state.store x .environment "environment" := by
  constructor
  · refine ⟨⟨provisionedPlayed unidentified, fun _ => none⟩, ?_, ?_⟩
    · exact (plays_provisioned (by decide : ProvisionedMeets (fun _ _ _ _ => True) _)).of_restrict
    · exact ⟨_, .head _, rfl, rfl, ⟨⟨_, .head _, rfl, by decide⟩, fun cur hf => (nomatch hf)⟩, _, rfl, by decide⟩
  · refine ⟨⟨provisionedPlayed stillProviding, fun _ => none⟩, ?_, ?_⟩
    · exact (plays_provisioned (by decide : ProvisionedMeets (fun _ _ _ _ => True) _)).of_restrict
    · exact ⟨_, .head _, rfl, by decide, ⟨⟨_, .head _, rfl, by decide⟩, fun cur hf => (nomatch hf)⟩, _, rfl, by decide⟩

end Etos
