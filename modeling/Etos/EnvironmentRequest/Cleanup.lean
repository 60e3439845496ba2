import Etos.EnvironmentRequest.Finality
import Etos.Kube.Smooth

/-!
# `EnvironmentRequest.Cleanup` — a request that has failed or completed is cleaned up

The resources of a request that no Environment has taken over are deleted by the `Reconcile`s that find a completion
time. A finished provider job sets it together with Failed or Completed. A failed check of the providers and a failed
creation of the job set Failed alone, and nothing is cleaned up ever after (`failed_without_completion`). In the runs in
which these two do not happen, every terminal version has a completion time, and the next `Reconcile` that meets no
error deletes everything that is unused (**`terminal_cleaned_up`**).
-/

namespace Etos

open Kube EnvironmentRequestReconciler

/-- Nothing goes wrong on the way to the provider job of the request `n`. -/
def unhindered (n : String) (i : Worker) : (o : Op) → Ans o → Bool
  | .get .environmentRequest _, .ok x => i ≠ .environmentRequest n || !x.spec.sourceless
  | o, a => i ≠ .environmentRequest n || !mishap o a

theorem unhindered_not_mishap {n : String} {o : Op} {a : Ans o}
    (h : unhindered n (.environmentRequest n) o a = true) : mishap o a = false := by
  unfold unhindered at h
  split at h
  · rfl
  · simpa using h

theorem unhindered_not_sourceless {n m : String} {x : EnvironmentRequest}
    (h : unhindered n (.environmentRequest n) (.get .environmentRequest m) (.ok x) = true) :
    x.spec.sourceless = false := by
  simpa [unhindered] using h

/-- What the versions of the request have if nothing went wrong. -/
structure RequestTidy (n : String) (s : Namespace) : Prop where
  completed : ∀ x ∈ s.past .environmentRequest, x.name = n → Terminal x → x.status.completionTime ≠ none
  /-- The finalizer is there before the first condition. -/
  held : ∀ x ∈ s.past .environmentRequest, x.name = n → x.status.cond .ready ≠ none → x.deleting = false →
    x.metadata.containsFinalizer releaseFinalizer = true

section

variable {n : String} {w : OperatorState} {wrote : String → Prop} {made : EnvironmentRequest → Prop} {s : Namespace}
  {new : EnvironmentRequest}

theorem containsFinalizer_mono {m m' : ObjectMeta} {f : String} (h : m.containsFinalizer f = true)
    (hsub : ∀ g ∈ m.finalizers, g ∈ m'.finalizers) : m'.containsFinalizer f = true := by
  simp only [ObjectMeta.containsFinalizer, List.contains_iff_mem] at h ⊢
  exact hsub f h

theorem NewVersion.completed (h : NewVersion w wrote made new) (ht : RequestTidy n w.store) (hnew : new.name = n)
    (hclear : wrote n → ∀ x, Opened n (w.log (.environmentRequest n)) x →
      ¬ Mishap x (w.log (.environmentRequest n)))
    (hterm : Terminal new) : new.status.completionTime ≠ none := by
  cases h with
  | created _ hst =>
      obtain ⟨st, r, hr, _⟩ := hterm
      rw [hst] at hr
      cases hr
  | kept hf hst =>
      rw [Terminal, hst] at hterm
      rw [hst]
      exact ht.completed _ (w.store.current hf) ((w.store.named hf).trans hnew) hterm
  | @written cur hwrote hf hopen _ ha =>
      rw [hnew] at hwrote hopen ha
      have hcur : (cur.status.progress .ready).terminal → (cur.status.progress .ready).completion ≠ none :=
        ht.completed cur (w.store.current hf) ((w.store.named hf).trans hnew)
      exact ha.completion (hclear hwrote cur hopen) hcur hterm

theorem NewVersion.held (h : NewVersion w wrote made new) (ht : RequestTidy n w.store) (hnew : new.name = n)
    (hready : new.status.cond .ready ≠ none) (hlive : new.deleting = false) :
    new.metadata.containsFinalizer releaseFinalizer = true := by
  cases h with
  | created _ hst =>
      rw [hst] at hready
      exact absurd rfl hready
  | kept hf hst hfin =>
      obtain ⟨hlive', hsub⟩ := hfin hlive
      rw [hst] at hready
      refine containsFinalizer_mono ?_ hsub
      exact ht.held _ (w.store.current hf) ((w.store.named hf).trans hnew) hready hlive'
  | written _ hf hopen hm =>
      rw [Object.deleting, hm] at hlive
      rw [hm]
      exact hopen.held hlive

theorem RequestTidy.step (ht : RequestTidy n w.store) (h : RequestStep w wrote made s)
    (hclear : wrote n → ∀ x, Opened n (w.log (.environmentRequest n)) x →
      ¬ Mishap x (w.log (.environmentRequest n))) : RequestTidy n s := by
  rcases h with hsame | ⟨new, hpast, _, hnew⟩
  · exact ⟨by rw [hsame]; exact ht.completed, by rw [hsame]; exact ht.held⟩
  refine ⟨fun x hx hxn => ?_, fun x hx hxn => ?_⟩
  · rw [hpast] at hx
    rcases List.mem_cons.mp hx with rfl | hx
    · exact hnew.completed ht hxn hclear
    · exact ht.completed x hx hxn
  · rw [hpast] at hx
    rcases List.mem_cons.mp hx with rfl | hx
    · exact hnew.held ht hxn
    · exact ht.held x hx hxn

end

variable {op : Operator} {n : String}

/-- A worker whose calls go well has met no mishap. -/
theorem not_mishap_of_events {w : OperatorState} {x : EnvironmentRequest}
    (he : Cluster.EveryEvent (fun i e => unhindered n i e.op e.ans = true) w)
    (hg : Got (w.log (.environmentRequest n)) .environmentRequest n x) :
    ¬ Mishap x (w.log (.environmentRequest n)) := by
  have hlog : ∀ said ∈ w.log (.environmentRequest n), unhindered n (.environmentRequest n) said.op said.ans = true := by
    intro said hsaid
    obtain ⟨e, hmem, rfl⟩ := List.mem_map.mp hsaid
    exact he (.environmentRequest n) e hmem
  rintro (hsource | ⟨said, hsaid, hm⟩)
  · rw [unhindered_not_sourceless (hlog _ hg)] at hsource
    cases hsource
  · rw [unhindered_not_mishap (hlog said hsaid)] at hm
    cases hm

theorem requestTidy {c} (h : (op.runs fun i _ o a => unhindered n i o a = true).Reachable c) :
    RequestTidy n c.state.store := by
  have hevents : ∀ c, (op.runs fun i _ o a => unhindered n i o a = true).Reachable c →
      Cluster.EveryEvent (fun i e => unhindered n i e.op e.ans = true) c.state :=
    fun c hc => Operator.events (J := fun _ => True) (fun _ _ => trivial) (fun _ _ _ _ _ _ _ hc => hc) hc
  refine (Operator.invariant (I := fun w => RequestTidy n w.store) ?_ ?_ ?_ ?_
    (System.Reachable.restrict_and hevents h)).2
  · exact ⟨fun _ hx => (nomatch hx), fun _ hx => (nomatch hx)⟩
  · exact fun _ _ _ ht => ht
  · rintro i w o a s hk ht hperm hs ⟨_, he⟩
    exact ht.step (.of_call hk hperm hs) fun _ x hopen => not_mishap_of_events he hopen.got
  · exact fun w o a s _ ht ho hw => ht.step (.of_others ho hw) False.elim

/-! ## The next `Reconcile` -/

/-- In the round the resources of one kind were listed, and the unused ones deleted. -/
def KindCleanedUp (r : ResourceKind) (x : EnvironmentRequest) (l : List Event) : Prop :=
  ∃ e ∈ l, e.op = .list (.resource r) (.label requestIdLabel x.spec.id) ∧
    ∀ y ∈ e.before.list (.resource r) (.label requestIdLabel x.spec.id),
      ownedByEnvironment y.metadata.ownerReferences = false → ∃ e' ∈ l, e'.op = .delete (.resource r) y.name

/-- Everything that is unused was deleted. -/
def CleanedUp (x : EnvironmentRequest) (l : List Event) : Prop := ∀ r, KindCleanedUp r x l

theorem KindCleanedUp.mono {r : ResourceKind} {x : EnvironmentRequest} {l l' : List Event} (h : KindCleanedUp r x l)
    (hl : l <:+ l') : KindCleanedUp r x l' := by
  obtain ⟨e, he, hop, hdeleted⟩ := h
  refine ⟨e, hl.subset he, hop, fun y hy hfree => ?_⟩
  obtain ⟨e', he', hop'⟩ := hdeleted y hy hfree
  exact ⟨e', hl.subset he', hop'⟩

section

variable {s₀ : Namespace} {l : List Event} {x : EnvironmentRequest}

/-- Every listed resource that no Environment owns is deleted. -/
theorem deleteUnowned_achieves {r : ResourceKind} (resources : List (Resource r)) :
    Achieves s₀ (deleteUnowned r resources) (fun err l' => err = none ∧
      ∀ y ∈ resources, ownedByEnvironment y.metadata.ownerReferences = false →
        ∃ e ∈ l', e.op = .delete (.resource r) y.name) l := by
  induction resources generalizing l with
  | nil => exact Achieves.ret ⟨rfl, fun y hy => absurd hy List.not_mem_nil⟩
  | cons y rest ih =>
      unfold deleteUnowned
      split
      · rename_i hown
        refine ih.post ?_
        rintro err l' ⟨hnone, hrest⟩
        refine ⟨hnone, fun z hz hfree => ?_⟩
        rcases List.mem_cons.mp hz with rfl | hz
        · rw [hown] at hfree
          cases hfree
        · exact hrest z hz hfree
      · refine Achieves.call fun a s _ hok _ => ?_
        cases a with
        | error e => cases hok
        | ok _ =>
            refine ih.grows.post ?_
            rintro err l' ⟨⟨hnone, hrest⟩, hsuffix⟩
            refine ⟨hnone, fun z hz hfree => ?_⟩
            rcases List.mem_cons.mp hz with rfl | hz
            · exact ⟨_, hsuffix.subset List.mem_cons_self, rfl⟩
            · exact hrest z hz hfree

theorem cleanupKind_achieves (r : ResourceKind) :
    Achieves s₀ (cleanupKind r x) (fun err l' => err = none ∧ KindCleanedUp r x l') l := by
  refine Achieves.call fun a s _ hok hshows => ?_
  cases a with
  | error e => cases hok
  | ok ys =>
      have hys : ys = s.list (.resource r) (.label requestIdLabel x.spec.id) := hshows
      refine (deleteUnowned_achieves ys).grows.post fun err l' ⟨⟨hnone, hdeleted⟩, hsuffix⟩ => ⟨hnone, ?_⟩
      refine ⟨_, hsuffix.subset List.mem_cons_self, rfl, fun y hy hfree => ?_⟩
      rw [← hys] at hy
      exact hdeleted y hy hfree

theorem cleanupUnused_achieves : Achieves s₀ (cleanupUnused x) (fun _ l' => CleanedUp x l') l := by
  refine (cleanupKind_achieves .iut).bind ?_
  rintro _ l₁ ⟨rfl, hiut⟩
  refine (cleanupKind_achieves .executionSpace).grows.bind ?_
  rintro _ l₂ ⟨⟨rfl, hspace⟩, h₂⟩
  refine (cleanupKind_achieves .logArea).grows.post ?_
  rintro _ l₃ ⟨⟨_, harea⟩, h₃⟩ r
  cases r with
  | iut => exact (hiut.mono h₂).mono h₃
  | executionSpace => exact hspace.mono h₃
  | logArea => exact harea

/-- **A `Reconcile` of a completed request** that is not being deleted cleans up. -/
theorem Reconcile_achieves (hf : s₀.find .environmentRequest n = some x) (hc : x.status.completionTime ≠ none)
    (hlive : x.deleting = false) (hheld : x.metadata.containsFinalizer releaseFinalizer = true) :
    Achieves s₀ (Reconcile n) (fun _ l => CleanedUp x l) [] := by
  refine Achieves.call fun a s hfirst hok hshows => ?_
  cases a with
  | error e => cases hok
  | ok x' =>
      obtain rfl : s = s₀ := hfirst rfl
      obtain rfl : x = x' := Option.some.inj (hf.symm.trans hshows)
      show Achieves _ (if _ then _ else _) _ _
      rw [hlive, hheld]
      show Achieves _ (reconcileFinalized x) _ _
      unfold reconcileFinalized
      split
      · exact cleanupUnused_achieves.bind fun _ l' hclean => hclean
      · rename_i hnone
        exact absurd hnone hc

end

/-- **A terminal request is cleaned up** in every run in which the `Reconcile`s of the request find its providers, its
    cluster, its keys and its passwords and can create its job: whenever Ready has reason Failed or Completed there is a
    completion time, and unless the request is being deleted, the next `Reconcile` that meets no error deletes every
    resource of the request that no Environment owns. -/
theorem terminal_cleaned_up (n : String) {c} (h : (op.runs fun i _ o a => unhindered n i o a = true).Reachable c) :
    (∀ x ∈ c.state.store.past .environmentRequest, x.name = n → Terminal x → x.status.completionTime ≠ none) ∧
      ∀ x, c.state.store.find .environmentRequest n = some x → Terminal x → x.deleting = false →
        Achieves c.state.store (Reconcile n) (fun _ l => CleanedUp x l) [] := by
  have ht := requestTidy h
  refine ⟨ht.completed, fun x hf hterm hlive => ?_⟩
  have hpast := c.state.store.current hf
  have hname := c.state.store.named hf
  refine Reconcile_achieves hf (ht.completed x hpast hname hterm) hlive (ht.held x hpast hname ?_ hlive)
  obtain ⟨st, r, hr, _⟩ := hterm
  intro hnone
  have hsome : x.status.cond .ready = some (st, r) := hr
  rw [hsome] at hnone
  cases hnone

/-- A request whose provider job has provided an Iut and failed then. -/
def requestFinished : List Turn :=
  providersCreated ++ [other (.create .environmentRequest (plainRequest "request")),
    round (.environmentRequest "request"), round (.environmentRequest "request"),
    round (.environmentRequest "request"), other (.create (.resource .iut) (plainIut "iut" "request")),
    jobFinished "environment-provider-6" 7 .failed, round (.environmentRequest "request")]

/-- The Iut is there, and the next `Reconcile` deletes it. -/
theorem terminal_cleaned_up_finished :
    ((played requestFinished).store.find (.resource .iut) "iut").isSome = true ∧
      ∃ x, (played requestFinished).store.find .environmentRequest "request" = some x ∧ Terminal x ∧
        Achieves (played requestFinished).store (Reconcile "request") (fun _ l => CleanedUp x l) [] := by
  have hmeets : Meets (fun i _ o a => unhindered "request" i o a = true) requestFinished := by decide
  have hterm : ∃ x, (played requestFinished).store.find .environmentRequest "request" = some x ∧ Terminal x ∧
      x.deleting = false := ⟨_, rfl, ⟨.false, .failed, rfl, .inl rfl⟩, rfl⟩
  obtain ⟨x, hf, ht, hlive⟩ := hterm
  exact ⟨by decide, x, hf, ht, (terminal_cleaned_up "request" (plays_runs hmeets)).2 x hf ht hlive⟩

/-- **Failed for good.** Nobody has created the providers: the request fails without a completion time. -/
theorem failed_without_completion :
    ∃ c, plainOperator.system.Reachable c ∧ ∃ x, c.state.store.find .environmentRequest "request" = some x ∧
      Terminal x ∧ x.status.completionTime = none := by
  refine ⟨⟨played (requestFailed.take 4), fun _ => none⟩, ?_, ?_⟩
  · exact (plays_runs (by decide : Meets (fun _ _ _ _ => True) _)).of_restrict
  · exact ⟨_, rfl, ⟨.false, .failed, rfl, .inl rfl⟩, rfl⟩

end Etos
