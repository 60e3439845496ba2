import Etos.Operator.Runs

/-!
# `EnvironmentRequest.Rounds` — the three kinds of rounds of an EnvironmentRequest

A `Reconcile` reads its request once, and what it reads decides what kind of round it is: it works towards the provider
job of the request, it collects the unused resources of a completed request, or it deletes what a request under deletion
has left behind. `Permits` says what each call rests on but not which calls occur in one round. Two facts about that are
needed: a round that lists resources by the id of the request deletes only resources it was shown without an owner
(**`Reconcile_collects`**), and one that lists by the identifier has read the request as being deleted, and reads it
only once (**`Reconcile_rounds`**).
-/

namespace Etos

open Kube

/-- The list of resources that `cleanupUnused` makes. -/
def ListsUnused (o : Op) : Prop := ∃ r id, o = .list (.resource r) (.label requestIdLabel id)

/-- In a round that collects unused resources, a resource is deleted if it was listed without an owner. -/
def Collects (l : Log) : Op → Prop
  | .delete (.resource r) n => (∃ e ∈ l, ListsUnused e.op) →
      ∃ id ys y, ⟨.list (.resource r) (.label requestIdLabel id), .ok ys⟩ ∈ l ∧ y ∈ ys ∧ y.name = n ∧
        ownedByEnvironment y.metadata.ownerReferences = false
  | _ => True

/-- The request is read once, and what carries its identifier is listed when it was read as being deleted. -/
def InRound (name : String) (l : Log) : Op → Prop
  | .get .environmentRequest n => n = name ∧ l = []
  | .list k (.label key v) => key = idLabel → k ∈ requestKinds → ∃ x x', Got l .environmentRequest name x ∧
      x.deleting = true ∧ Stems l .environmentRequest x x' ∧ v = x'.spec.identifier
  | _ => True

namespace EnvironmentRequestReconciler

variable {name : String} {x x' : EnvironmentRequest} {l : Log}

/-! ## On the way to the provider job -/

/-- The calls of a round that neither collects nor deletes anything. -/
def Aside : Op → Prop
  | .create .job _ => True
  | .updateStatus .environmentRequest _ => True
  | o => IsLook o

theorem aside_of_looks {α : Type} {p : M α} (h : p.Calls IsLook) : p.Calls Aside := by
  refine h.mono fun o ho => ?_
  unfold Aside
  split
  · trivial
  · trivial
  · exact ho

theorem Aside.collects {o : Op} (h : Aside o) : Collects l o := by
  unfold Collects
  split
  · exact h.elim
  · trivial

theorem Aside.inRound {o : Op} (h : Aside o) : InRound name l o := by
  unfold InRound
  split
  · exact absurd rfl h
  · intro _ hk
    rcases h with rfl | rfl <;> cases hk <;> contradiction
  · trivial

theorem persist_aside (x : EnvironmentRequest) : (persist x).Calls Aside := ⟨trivial, fun _ => trivial⟩

/-- Setting Ready, and writing the request if that changed anything. -/
theorem setReady_aside {c : Condition} (f : EnvironmentRequest → EnvironmentRequest) {rest : M (Option Err)}
    (h : rest.Calls Aside) :
    (setCondition x c >>= fun out => if out.2 then persist (f out.1) else rest).Calls Aside := by
  rw [setCondition_bind]
  refine ⟨trivial, fun t => ?_⟩
  dsimp only
  split
  · exact persist_aside _
  · exact h

theorem envVarListFrom_looks (x : EnvironmentRequest) : (envVarListFrom x).Calls IsLook := by
  have hvar : ∀ v : Var, v.get.Calls IsLook := by
    intro v
    unfold Var.get
    split
    · trivial
    · split <;> first | trivial | exact ⟨trivial, fun _ => trivial⟩
  have hpointer : ∀ v : Option Var, (Var.getPointer v).Calls IsLook := by
    intro v
    cases v with
    | none => trivial
    | some v => exact hvar v
  refine (hvar _).bind fun a => ?_
  cases a with
  | error e => trivial
  | ok _ =>
      refine (hpointer _).bind fun a => ?_
      cases a with
      | error e => trivial
      | ok _ =>
          refine (hpointer _).bind fun a => ?_
          cases a with
          | error e => trivial
          | ok _ => trivial

theorem providerJobFrom_looks (x : EnvironmentRequest) : (providerJobFrom x).Calls IsLook := by
  have hget : ∀ n, (getProvider n).Calls IsLook := fun n => ⟨nofun, fun _ => trivial⟩
  refine (hget _).bind fun a => ?_
  cases a with
  | error e => trivial
  | ok iut =>
      refine (hget _).bind fun a => ?_
      cases a with
      | error e => trivial
      | ok logArea =>
          refine (hget _).bind fun a => ?_
          cases a with
          | error e => trivial
          | ok executionSpace =>
              dsimp only
              split <;> trivial

theorem environmentProviderJob_looks (x : EnvironmentRequest) : (environmentProviderJob x).Calls IsLook := by
  refine (checkCluster_looks x).bind fun err => ?_
  cases err with
  | some e => trivial
  | none =>
      refine (envVarListFrom_looks x).bind fun err => ?_
      cases err with
      | some e => trivial
      | none => exact providerJobFrom_looks x

theorem providerMissing_aside (x : EnvironmentRequest) : (providerMissing x).Calls Aside := by
  unfold providerMissing
  split
  · trivial
  split
  · trivial
  have hcreate : (JobManager.create (environmentProviderJob x)).Calls Aside := by
    refine (aside_of_looks (environmentProviderJob_looks x)).bind fun out => ?_
    cases out with
    | error e => trivial
    | ok job => exact ⟨trivial, fun _ => trivial⟩
  refine hcreate.bind fun err => ?_
  cases err with
  | some err =>
      show (providerNotCreated x err).Calls _
      unfold providerNotCreated
      split
      · trivial
      · exact setReady_aside id trivial
  | none => exact setReady_aside id trivial

theorem reconcileEnvironmentProvider_aside (x : EnvironmentRequest) :
    (reconcileEnvironmentProvider x).Calls Aside := by
  refine (aside_of_looks (status_looks _)).bind ?_
  rintro ⟨manager, status⟩
  cases status with
  | error e => trivial
  | ok status =>
      cases status with
      | failed | successful =>
          exact (aside_of_looks (result_looks _ _ _)).bind fun _ => setReady_aside completeWithReady trivial
      | active => exact setReady_aside id trivial
      | none => exact providerMissing_aside x

/-- A request that is not completed. -/
theorem reconcile_aside (x : EnvironmentRequest) : (reconcile x).Calls Aside := by
  have hset : ∀ c, (setCondition x c >>= fun out => persist out.1).Calls Aside := by
    intro c
    rw [setCondition_bind]
    exact ⟨trivial, fun _ => persist_aside _⟩
  unfold reconcile
  split
  · exact hset _
  split
  · trivial
  · refine (aside_of_looks (checkProviders_looks _)).bind fun err => ?_
    cases err with
    | some e => exact hset _
    | none => exact reconcileEnvironmentProvider_aside x

/-! ## A completed request -/

/-- Resources are listed by the id of the request, and deleted. -/
theorem deleteUnowned_collects {r : ResourceKind} {id : String} {ys resources : List (Resource r)}
    (hlist : ⟨.list (.resource r) (.label requestIdLabel id), .ok ys⟩ ∈ l) (hsub : ∀ y ∈ resources, y ∈ ys) :
    Obeys Collects (deleteUnowned r resources) (fun _ _ => True) l := by
  induction resources generalizing l with
  | nil => trivial
  | cons y rest ih =>
      have hrest : ∀ y ∈ rest, y ∈ ys := fun z hz => hsub z (List.mem_cons_of_mem _ hz)
      unfold deleteUnowned
      split
      · exact ih hlist hrest
      · rename_i hfree
        have hcollects : Collects l (.delete (.resource r) y.name) := fun _ =>
          ⟨id, ys, y, hlist, hsub y List.mem_cons_self, rfl, by simpa using hfree⟩
        refine Follows.call hcollects fun a _ => ?_
        cases a with
        | error e => trivial
        | ok _ => exact ih (List.mem_cons_of_mem _ hlist) hrest

theorem cleanupKind_collects (r : ResourceKind) : Obeys Collects (cleanupKind r x) (fun _ _ => True) l := by
  refine Follows.call trivial fun a _ => ?_
  cases a with
  | error e => trivial
  | ok ys => exact deleteUnowned_collects List.mem_cons_self fun _ h => h

theorem cleanupUnused_collects : Obeys Collects (cleanupUnused x) (fun _ _ => True) l := by
  refine (cleanupKind_collects .iut).bind fun err l₁ _ => ?_
  cases err with
  | some e => trivial
  | none =>
      refine (cleanupKind_collects .executionSpace).bind fun err l₂ _ => ?_
      cases err with
      | some e => trivial
      | none => exact cleanupKind_collects .logArea

/-- A call that collects unused resources. -/
def Sweeps (o : Op) : Prop := ListsUnused o ∨ ∃ r n, o = .delete (.resource r) n

theorem idLabel_ne : idLabel ≠ requestIdLabel := by decide

theorem Sweeps.inRound {o : Op} (h : Sweeps o) : InRound name l o := by
  rcases h with ⟨r, id, rfl⟩ | ⟨r, n, rfl⟩
  · exact fun hkey => absurd hkey.symm idLabel_ne
  · trivial

theorem cleanupUnused_sweeps (x : EnvironmentRequest) : (cleanupUnused x).Calls Sweeps := by
  have hdelete : ∀ r (ys : List (Resource r)), (deleteUnowned r ys).Calls Sweeps := by
    intro r ys
    induction ys with
    | nil => trivial
    | cons y rest ih =>
        unfold deleteUnowned
        split
        · exact ih
        · refine ⟨.inr ⟨r, y.name, rfl⟩, fun a => ?_⟩
          cases a with
          | error e => trivial
          | ok _ => exact ih
  have hkind : ∀ r, (cleanupKind r x).Calls Sweeps := by
    intro r
    refine ⟨.inl ⟨r, x.spec.id, rfl⟩, fun a => ?_⟩
    cases a with
    | error e => trivial
    | ok ys => exact hdelete r ys
  refine (hkind .iut).bind fun err => ?_
  cases err with
  | some e => trivial
  | none =>
      refine (hkind .executionSpace).bind fun err => ?_
      cases err with
      | some e => trivial
      | none => exact hkind .logArea

/-! ## A request under deletion -/

/-- A call in the deletion of what carries the identifier `v`. -/
def Clears (v : String) (o : Op) : Prop :=
  (∃ k ∈ requestKinds, o = .list k (.label idLabel v)) ∨ ∃ k n, o = .delete k n

theorem Clears.not_lists {v : String} {o : Op} (h : Clears v o) : ¬ ListsUnused o := by
  rintro ⟨r, id, rfl⟩
  rcases h with ⟨k, _, hlist⟩ | ⟨k, n, hdelete⟩
  · exact idLabel_ne (Selector.label.inj (Op.list.inj hlist).2).1.symm
  · cases hdelete

theorem deleteResources_clears (x : EnvironmentRequest) :
    (deleteResources x).Calls (Clears x.spec.identifier) := by
  have heach : ∀ k (items : List (Obj k)), (deleteEach k items).Calls (Clears x.spec.identifier) := by
    intro k items
    induction items with
    | nil => trivial
    | cons y rest ih =>
        unfold deleteEach
        split
        · exact ih
        · exact ⟨.inr ⟨k, y.name, rfl⟩, fun a => ih.bind fun _ => trivial⟩
  have hkind : ∀ k ∈ requestKinds, (deleteLabelled k x).Calls (Clears x.spec.identifier) := by
    intro k hk
    refine ⟨.inl ⟨k, hk, rfl⟩, fun a => ?_⟩
    cases a with
    | error e => trivial
    | ok items => exact (heach k items).bind fun _ => trivial
  refine (hkind .environment (by decide)).bind fun _ => ?_
  refine (hkind (.resource .iut) (by decide)).bind fun _ => ?_
  refine (hkind (.resource .logArea) (by decide)).bind fun _ => ?_
  exact (hkind (.resource .executionSpace) (by decide)).bind fun _ => trivial

theorem announceRelease_aside (x : EnvironmentRequest) : (announceRelease x).Calls Aside := by
  unfold announceRelease
  split
  · trivial
  · rw [setCondition_bind]
    refine ⟨trivial, fun t => ?_⟩
    dsimp only
    split
    · exact ⟨trivial, fun _ => trivial⟩
    · trivial

theorem Aside.not_lists {o : Op} (h : Aside o) : ¬ ListsUnused o := by
  rintro ⟨r, id, rfl⟩
  rcases h with h | h <;> cases h

/-- Nothing is listed by the id of the request. -/
theorem reconcileDeletion_lists (x : EnvironmentRequest) :
    (reconcileDeletion x).Calls fun o => ¬ ListsUnused o := by
  refine ((announceRelease_aside x).mono fun _ => Aside.not_lists).bind ?_
  rintro ⟨x', err⟩
  cases err with
  | some e => trivial
  | none =>
      refine ((deleteResources_clears x').mono fun _ => Clears.not_lists).bind ?_
      rintro ⟨count, allErr⟩
      dsimp only
      split
      · trivial
      split
      · trivial
      unfold removeFinalizer
      split
      · refine ⟨?_, fun _ => trivial⟩
        rintro ⟨r, id, h⟩
        cases h
      · trivial

/-- What carries the identifier is listed for the request in memory, which stems from the one that was read. -/
theorem reconcileDeletion_rounds (h : Opened name l x) (hdel : x.deleting = true) :
    Obeys (InRound name) (reconcileDeletion x) (fun _ _ => True) l := by
  have hannounce : Obeys (InRound name) (announceRelease x) (fun out l' => Grown AnyCall l l' ∧
      (out.2 = none → Stems l' .environmentRequest x out.1)) l := by
    have haside : Obeys (InRound name) (announceRelease x) (fun _ _ => True) l :=
      (Follows.grows (announceRelease_aside x) fun _ _ => Aside.inRound).post fun _ _ _ => trivial
    refine Follows.mono (Follows.post ((announceRelease_obeys h).and haside) ?_) ?_
    · exact fun _ _ hout => hout.1
    · exact fun _ _ hok => hok.2
  refine hannounce.bind ?_
  rintro ⟨x', err⟩ l₁ ⟨h₁, hs₁⟩
  cases err with
  | some e => trivial
  | none =>
      have hstart : Got l₁ .environmentRequest name x ∧ Stems l₁ .environmentRequest x x' := ⟨h₁.mem h.got, hs₁ rfl⟩
      refine (Follows.calls (J := fun l => Got l .environmentRequest name x ∧ Stems l .environmentRequest x x')
        (deleteResources_clears x') ?_ hstart).bind ?_
      · rintro l o ho ⟨hg, hs⟩
        refine ⟨?_, fun a _ => ⟨List.mem_cons_of_mem _ hg, hs.grown (P := AnyCall) (Grown.refl.cons trivial)⟩⟩
        rcases ho with ⟨k, _, rfl⟩ | ⟨k, n, rfl⟩
        · exact fun _ _ => ⟨x, x', hg, hdel, hs, rfl⟩
        · trivial
      · rintro ⟨count, allErr⟩ l₂ _
        dsimp only
        split
        · trivial
        split
        · trivial
        unfold removeFinalizer
        split
        · exact Follows.call trivial fun _ _ => trivial
        · trivial

/-! ## `Reconcile` -/

/-- **The deletes of a round that collects unused resources.** -/
theorem Reconcile_collects (name : String) : Obeys Collects (Reconcile name) (fun _ _ => True) [] := by
  refine Follows.call trivial fun a _ => ?_
  cases a with
  | error e => trivial
  | ok x =>
      have hfinalized : Obeys Collects (reconcileFinalized x) (fun _ _ => True)
          [⟨.get .environmentRequest name, .ok x⟩] := by
        unfold reconcileFinalized
        split
        · exact cleanupUnused_collects.bind fun _ _ _ => trivial
        · refine (Follows.grows (reconcile_aside x) fun _ _ => Aside.collects).bind ?_
          exact fun _ _ _ => trivial
      show Obeys _ (if _ then _ else _) _ _
      split
      · split
        · exact hfinalized
        · exact Follows.call trivial fun _ _ => trivial
      · split
        · -- nothing is listed by the id of the request before or in this branch
          have hnever : Never ListsUnused [(⟨.get .environmentRequest name, .ok x⟩ : Said Op Ans)] := by
            refine Never.nil.cons ?_
            rintro ⟨r, id, h⟩
            cases h
          refine (Follows.calls (J := Never ListsUnused) (reconcileDeletion_lists x) ?_ hnever).post
            fun _ _ _ => trivial
          intro l o ho hl
          refine ⟨?_, fun a _ => hl.cons ho⟩
          unfold Collects
          split
          · rintro ⟨e, he, hlists⟩
            exact absurd hlists (hl e he)
          · trivial
        · exact hfinalized

/-- **One read of the request in a round**, which decides what is listed. -/
theorem Reconcile_rounds (name : String) : Obeys (InRound name) (Reconcile name) (fun _ _ => True) [] := by
  refine Follows.call ⟨rfl, rfl⟩ fun a _ => ?_
  cases a with
  | error e => trivial
  | ok x =>
      have hfinalized : Obeys (InRound name) (reconcileFinalized x) (fun _ _ => True)
          [⟨.get .environmentRequest name, .ok x⟩] := by
        unfold reconcileFinalized
        split
        · refine (Follows.grows (cleanupUnused_sweeps x) fun _ _ => Sweeps.inRound).bind ?_
          exact fun _ _ _ => trivial
        · refine (Follows.grows (reconcile_aside x) fun _ _ => Aside.inRound).bind ?_
          exact fun _ _ _ => trivial
      show Obeys _ (if _ then _ else _) _ _
      split
      · split
        · exact hfinalized
        · exact Follows.call trivial fun _ _ => trivial
      · rename_i hdel
        have hdel : x.deleting = true := by simpa using hdel
        split
        · refine reconcileDeletion_rounds ⟨List.mem_cons_self, Never.nil.cons ?_, fun hlive => ?_⟩ hdel
          · rintro ⟨_, hw⟩
            cases hw
          · rw [hdel] at hlive
            cases hlive
        · exact hfinalized

end EnvironmentRequestReconciler

end Etos
