import Etos.Environment.Exclusive
import Etos.EnvironmentRequest.Rounds

/-!
# `EnvironmentRequest.InUse` — the collection of unused resources and the resources in use

A resource is in use as soon as an Environment names it, but `cleanupUnused` goes by the owner reference that the
Environment's reconciler adds later, and reads it from a list. Between the two a resource in use looks unused, and is
deleted: the Environments are created before the provider job succeeds, the request completes, and its next `Reconcile`
collects what no Environment has got round to taking (`in_use_collected`).

In the runs in which the list comes after the take-over this does not happen (**`in_use_kept`**): every Environment that
names a listed resource has been ready for use by then, the list is not older than the owner reference, and no
Environment is created for the resource between the list and the delete.
-/

namespace Etos

open Kube EnvironmentReconciler

/-! ## Resources in use -/

/-- The Environment names the resource. -/
def Uses (x : Environment) (r : ResourceKind) (n : String) : Prop :=
  ∃ providers, x.spec.providers = some providers ∧ named providers r = n

/-- The Environment exists, is not being deleted, and names the resource. -/
structure InUse (s : Namespace) (r : ResourceKind) (n : String) (x : Environment) : Prop where
  there : s.find .environment x.name = some x
  live : x.deleting = false
  uses : Uses x r n

/-- An Environment has taken the resource at some time. -/
def Owned (s : Namespace) (r : ResourceKind) (n : String) : Prop :=
  ∃ y ∈ s.past (.resource r), y.name = n ∧ ownedByEnvironment y.metadata.ownerReferences = true

/-- What is known of the resources in use, in any run. -/
structure TakenOver (s : Namespace) : Prop where
  /-- Only Environments become controllers of resources. -/
  controlled : ∀ r, ∀ y ∈ s.past (.resource r), y.metadata.hasControllerReference = true →
    ownedByEnvironment y.metadata.ownerReferences = true
  /-- An Environment that has been ready for use has had its resources taken. -/
  active : ∀ x ∈ s.past .environment, IsActive x → ∀ r n, Uses x r n → Owned s r n
  history : EnvironmentHistory s
  marked : s.MarkStays .environment

section

variable {r : ResourceKind} {n : String} {w : OperatorState} {s : Namespace}

theorem Owned.mono (h : Owned w.store r n) (hpast : ∀ {k} {x : Obj k}, x ∈ w.store.past k → x ∈ s.past k) :
    Owned s r n := by
  obtain ⟨y, hy, hrest⟩ := h
  exact ⟨y, hpast hy, hrest⟩

/-- A resource that an Environment controls is owned by an Environment. -/
theorem owned_of_reference {data : ObjectMeta} {m : String} (h : data.controllerOf = some (reference m)) :
    ownedByEnvironment data.ownerReferences = true := by
  have hmem : reference m ∈ data.ownerReferences := List.mem_of_find?_eq_some h
  exact List.any_eq_true.mpr ⟨_, hmem, by simp [reference, environmentKind]⟩

theorem ResourceChange.controlled {new : Resource r} (h : ResourceChange r w new) (hI : TakenOver w.store)
    (hc : new.metadata.hasControllerReference = true) :
    ownedByEnvironment new.metadata.ownerReferences = true := by
  have hbelow : ∀ cur, w.store.find (.resource r) new.name = some cur →
      new.metadata.ownerReferences = cur.metadata.ownerReferences →
      ownedByEnvironment new.metadata.ownerReferences = true := by
    intro cur hf hown
    rw [ObjectMeta.hasControllerReference, hown] at hc
    rw [hown]
    exact hI.controlled r cur (w.store.current hf) hc
  cases h with
  | created _ _ _ hnone =>
      rw [ObjectMeta.hasControllerReference_eq_false.mpr hnone] at hc
      cases hc
  | kept hf _ _ hown | added hf _ _ hown | dropped hf _ _ hown => exact hbelow _ hf hown
  | @taken _ _ _ _ env _ _ _ _ _ _ hfree _ hown =>
      have hctrl := (ownedMeta_holds env hfree).1
      rw [← ObjectMeta.controllerOf_congr hown] at hctrl
      exact owned_of_reference hctrl
  | released hf _ _ _ _ _ _ _ _ _ hown => exact hbelow _ hf hown
  | reported hf hm => exact hbelow _ hf (by rw [hm])

/-- A resource that an Environment has gone through in its round is owned by an Environment. -/
theorem owned_of_taken {m : String} (hk : w.Knowing) (hI : TakenOver w.store)
    (h : Taken m (w.log (.environment m)) r n) : Owned w.store r n := by
  rcases h with ⟨y, hy, hhas⟩ | ⟨o, y, ho, hyn, hholds⟩
  · have htells := hk _ _ hy
    have hpast := htells.reads (.resource r) y .get
    exact ⟨y, hpast, htells.named (.resource r) n y rfl, hI.controlled r y hpast hhas⟩
  · have hne : y.metadata.finalizers ≠ [] := List.ne_nil_of_mem hholds.2
    have hpast := (hk _ _ ho).update (.resource r) o y rfl hne
    exact ⟨y, hpast, hyn, owned_of_reference hholds.1⟩

theorem EnvironmentChange.owned {new : Environment} (h : EnvironmentChange w new) (hk : w.Knowing)
    (hI : TakenOver w.store) (ha : IsActive new) (hu : Uses new r n) : Owned w.store r n := by
  obtain ⟨reason, ha⟩ := ha
  obtain ⟨providers, hp, rfl⟩ := hu
  cases h with
  | created _ hst =>
      rw [hst] at ha
      cases ha
  | @kept cur hf hst hspec =>
      rw [hst] at ha
      rw [hspec] at hp
      exact hI.active cur (w.store.current hf) ⟨reason, ha⟩ r _ ⟨providers, hp, rfl⟩
  | @written cur x c hf hspec hg hc hact =>
      have htells := hk _ _ hg
      have hname : x.name = cur.name := (htells.named .environment _ x rfl).trans (w.store.named hf).symm
      have hsame : x.spec = new.spec := by
        rw [hspec]
        exact hI.history.spec x (htells.reads .environment x .get) cur (w.store.current hf) hname
      rw [hc] at ha
      generalize cur.status.cond .active = before at hact
      cases hact with
      | waiting | inactive => cases ha
      | ready hp' ht =>
          rw [hsame, hp] at hp'
          obtain rfl := Option.some.inj hp'
          exact owned_of_taken hk hI (ht r)

/-- One step. -/
theorem TakenOver.step (hI : TakenOver w.store) (hk : w.Knowing) (hr : ∀ r, ResourceStep r w s)
    (he : EnvironmentStep w s) (hm : s.MarkStays .environment)
    (hpast : ∀ {k} {x : Obj k}, x ∈ w.store.past k → x ∈ s.past k) : TakenOver s := by
  refine ⟨fun r y hy hc => ?_, fun x hx ha r n hu => ?_, hI.history.step he, hm⟩
  · rcases (hr r).mem_past hy with hold | ⟨new, hnew, rfl⟩
    · exact hI.controlled r y hold hc
    · exact hnew.controlled hI hc
  · have hold : x ∈ w.store.past .environment ∨ EnvironmentChange w x := by
      rcases he with hsame | ⟨new, hnews, _, hnew⟩
      · rw [hsame] at hx
        exact .inl hx
      · rw [hnews] at hx
        rcases List.mem_cons.mp hx with rfl | hx
        · exact .inr hnew
        · exact .inl hx
    rcases hold with hold | hnew
    · exact (hI.active x hold ha r n hu).mono hpast
    · exact (hnew.owned hk hI ha hu).mono hpast

end

/-! ## Runs -/

/-- The list comes after the take-over: every Environment that uses a listed resource has been ready for use at some
    time, and an Environment that has become the owner of the resource shows. -/
def ShowsOwners (s : Namespace) (r : ResourceKind) (ys : List (Resource r)) : Prop :=
  ∀ y ∈ ys, ∀ x ∈ s.past .environment, InUse s r y.name x →
    (∃ x' ∈ s.past .environment, x'.name = x.name ∧ IsActive x') ∧
      (Owned s r y.name → ownedByEnvironment y.metadata.ownerReferences = true)

/-- Unused resources are listed after they have been taken over, and no Environment is created for a resource between
    the list and the delete. -/
def collectsLate (i : Worker) (w : OperatorState) : (o : Op) → Ans o → Prop
  | .list (.resource r) (.label key _), .ok ys => key = requestIdLabel → ShowsOwners w.store r ys
  | .delete (.resource r) n, _ => ∀ e ∈ w.rounds i, ListsUnused e.op →
      ∀ x ∈ w.store.past .environment, InUse w.store r n x → (e.before.find .environment x.name).isSome = true
  | _, _ => True

/-- What was seen by a call, and what has become of it. -/
structure CallSeen (s : Namespace) (e : Event) : Prop where
  /-- Versions are never forgotten. -/
  past : ∀ x ∈ e.before.past .environment, x ∈ s.past .environment
  taken : TakenOver e.before
  shows : ∀ r id ys, e.toSaid = ⟨.list (.resource r) (.label requestIdLabel id), .ok ys⟩ → ShowsOwners e.before r ys

/-- The invariant of these runs. -/
structure Overseen (w : OperatorState) : Prop where
  taken : TakenOver w.store
  seen : Cluster.EveryEvent (fun _ e => CallSeen w.store e) w

variable {op : Operator}

/-- No Environment is ever created by a worker, and others use fresh names. -/
theorem fresh_environment {w : OperatorState} {o : Op} (h : others w.store o) {x x' : Environment} {n : String}
    (ho : o = .create .environment x) (ha : admitted w.store .environment x x')
    (hn : w.store.Names .environment x'.metadata n) : n ∉ w.store.names .environment := by
  subst ho
  obtain rfl : x' = x := ha
  rcases hn with ⟨hne, rfl⟩ | ⟨_, _, hfresh⟩
  · exact h.1.resolve_left hne
  · exact hfresh

theorem takenOver {cond} {c} (h : (op.runs cond).Reachable c) : TakenOver c.state.store := by
  refine (Operator.invariant (I := fun w => TakenOver w.store) ?_ ?_ ?_ ?_ h).2
  · refine ⟨fun r y hy => (nomatch hy), fun x hx => (nomatch hx), ?_, fun x hx => (nomatch hx)⟩
    exact ⟨fun _ hx => (nomatch hx), fun _ hx => (nomatch hx)⟩
  · exact fun _ _ _ hI => hI
  · intro i w o a s hk hI hperm hs _
    refine hI.step hk (fun r => .of_call hk hperm hs) (.of_call hk hperm hs) ?_ hs.past_mono
    refine hI.marked.step (hs.touches .environment) ?_
    rintro x x' n rfl
    cases i <;> exact hperm.elim
  · intro w o a s hk hI ho hw
    refine hI.step hk (fun r => .of_others ho hw) (.of_others ho hw) ?_ hw.past_mono
    exact hI.marked.step (hw.touches .environment) fun x x' n hop ha hn => fresh_environment ho hop ha hn

theorem overseen {c} (h : (op.runs collectsLate).Reachable c) : Overseen c.state := by
  have hand := System.Reachable.restrict_and (J := fun w => TakenOver w.store) (fun c hc => takenOver hc) h
  refine ⟨takenOver h, ?_⟩
  refine (Operator.invariant (I := fun w => Cluster.EveryEvent (fun _ e => CallSeen w.store e) w) ?_ ?_ ?_ ?_ hand).2
  · exact fun i e he => (nomatch he)
  · exact fun i w _ hI => hI.fresh i
  · rintro i w o a s hk hI hperm hs ⟨hc, htaken⟩
    have hold : Cluster.EveryEvent (fun _ e => CallSeen s e) w := fun j e he =>
      ⟨fun x hx => hs.past_mono ((hI j e he).past x hx), (hI j e he).taken, (hI j e he).shows⟩
    refine hold.record ⟨fun x hx => hs.past_mono hx, htaken, ?_⟩
    rintro r id ys ⟨⟩
    exact hc rfl
  · intro w o a s _ hI _ hw i e he
    have hseen := hI i e he
    exact ⟨fun x hx => hw.past_mono (hseen.past x hx), hseen.taken, hseen.shows⟩

/-- An Environment that uses a resource now has used it when the resource was listed, if it existed then. -/
theorem InUse.earlier {w : OperatorState} {e : Event} {r : ResourceKind} {n : String} {x : Environment}
    (h : InUse w.store r n x) (ht : TakenOver w.store) (hseen : CallSeen w.store e)
    (hthere : (e.before.find .environment x.name).isSome = true) :
    ∃ x₀ ∈ e.before.past .environment, x₀.name = x.name ∧ InUse e.before r n x₀ := by
  obtain ⟨x₀, hf⟩ := Option.isSome_iff_exists.mp hthere
  have hname : x₀.name = x.name := e.before.named hf
  have hpast : x₀ ∈ e.before.past .environment := e.before.current hf
  have hx : x ∈ w.store.past .environment := w.store.current h.there
  refine ⟨x₀, hpast, hname, ⟨?_, ?_, ?_⟩⟩
  · rw [hname]
    exact hf
  · -- a mark would have stayed
    by_contra hdel
    have hle : x₀.metadata.resourceVersion ≤ x.metadata.resourceVersion := by
      refine w.store.latest (hseen.past x₀ hpast) ?_
      rw [hname]
      exact h.there
    have hmark := ht.marked x₀ (hseen.past x₀ hpast) x hx hname hle (by simpa using hdel)
    rw [h.live] at hmark
    cases hmark
  · obtain ⟨providers, hp, hn⟩ := h.uses
    refine ⟨providers, ?_, hn⟩
    rw [ht.history.spec x₀ (hseen.past x₀ hpast) x hx hname]
    exact hp

/-- What the rounds of the workers are known to do. -/
def Worker.Collects : Worker → Log → Op → Prop
  | .environmentRequest _ => Etos.Collects
  | _ => fun _ _ => True

theorem Operator.reconcile_collects (op : Operator) (i : Worker) :
    Obeys i.Collects (op.reconcile i) (fun _ _ => True) [] := by
  cases i with
  | environmentRequest n => exact (EnvironmentRequestReconciler.Reconcile_collects n).bind fun _ _ _ => trivial
  | testRun | environment | resource =>
      exact (Follows.mono (op.reconcile_obeys _) fun _ _ _ => trivial)

/-- **What is in use is not collected**, in every run in which the unused resources of a request are listed after they
    have been taken over: whenever a round that collects unused resources deletes a resource, no Environment that exists
    and is not being deleted names it. -/
theorem in_use_kept (n : String) {c} (h : (op.runs collectsLate).Reachable c) :
    ∀ later e earlier, c.state.rounds (.environmentRequest n) = later ++ e :: earlier →
      (∃ e' ∈ earlier, ListsUnused e'.op) → ∀ r m, e.op = .delete (.resource r) m → ∀ x, ¬ InUse e.before r m x := by
  have hcalls := Operator.everyCall op.reconcile_collects (J := Overseen)
    (P := fun i earlier e => i = .environmentRequest n → (∃ e' ∈ earlier, ListsUnused e'.op) →
      ∀ r m, e.op = .delete (.resource r) m → ∀ x, ¬ InUse e.before r m x) (fun c hc => overseen hc) ?_ h
  · exact fun later e earlier he => hcalls _ later e earlier he rfl
  rintro _ w o a hk ⟨ht, hseen⟩ _ hcollects hc rfl ⟨e', he', hlists⟩ r m rfl x huse
  -- the resource was listed in this round, without an owner
  obtain ⟨id, ys, y, hlisted, hy, rfl, hfree⟩ := hcollects ⟨e'.toSaid, List.mem_map_of_mem he', hlists⟩
  obtain ⟨e₀, he₀, hsaid⟩ := List.mem_map.mp hlisted
  have hseen₀ := hseen _ e₀ he₀
  have hlists₀ : ListsUnused e₀.op := ⟨r, id, congrArg Said.op hsaid⟩
  have hthere := hc e₀ he₀ hlists₀ x (w.store.current huse.there) huse
  obtain ⟨x₀, hx₀, hname₀, huse₀⟩ := huse.earlier ht hseen₀ hthere
  -- the Environment had been ready for use, so the resource had an owner, and the list shows it
  obtain ⟨⟨x', hx', hname', ha⟩, hshows⟩ := hseen₀.shows r id ys hsaid y hy x₀ hx₀ huse₀
  have huses' : Uses x' r y.name := by
    obtain ⟨providers, hp, hn⟩ := huse₀.uses
    refine ⟨providers, ?_, hn⟩
    rw [hseen₀.taken.history.spec x' hx' x₀ hx₀ hname']
    exact hp
  have howned := hshows (hseen₀.taken.active x' hx' ha r y.name huses')
  rw [hfree] at howned
  cases howned

/-! ### Runs -/

instance (x : Environment) (r : ResourceKind) (n : String) : Decidable (Uses x r n) :=
  match h : x.spec.providers with
  | none => .isFalse fun ⟨_, hp, _⟩ => by
      rw [h] at hp
      cases hp
  | some providers => decidable_of_iff (named providers r = n)
      ⟨fun hn => ⟨providers, h, hn⟩, fun ⟨_, hp, hn⟩ => by
        obtain rfl := Option.some.inj (h.symm.trans hp)
        exact hn⟩

instance (s : Namespace) (r : ResourceKind) (n : String) (x : Environment) : Decidable (InUse s r n x) :=
  decidable_of_iff (s.find .environment x.name = some x ∧ x.deleting = false ∧ Uses x r n)
    ⟨fun h => ⟨h.1, h.2.1, h.2.2⟩, fun h => ⟨h.there, h.live, h.uses⟩⟩

instance (x : Environment) : Decidable (IsActive x) :=
  decidable_of_iff ((x.status.cond .active).map Prod.fst = some .true) <| by
    unfold IsActive
    rw [Option.map_eq_some_iff]
    constructor
    · rintro ⟨⟨s, reason⟩, hc, rfl⟩
      exact ⟨reason, hc⟩
    · rintro ⟨reason, hc⟩
      exact ⟨_, hc, rfl⟩

instance (s : Namespace) (r : ResourceKind) (n : String) : Decidable (Owned s r n) :=
  inferInstanceAs (Decidable (∃ y ∈ s.past (.resource r), _))

instance (s : Namespace) (r : ResourceKind) (ys : List (Resource r)) : Decidable (ShowsOwners s r ys) :=
  inferInstanceAs (Decidable (∀ y ∈ ys, ∀ x ∈ s.past .environment, _ → _))

instance : (o : Op) → Decidable (ListsUnused o)
  | .list (.resource r) (.label key value) =>
      decidable_of_iff (key = requestIdLabel)
        ⟨fun h => ⟨r, value, by rw [h]⟩, fun h => by
          obtain ⟨r', id, h⟩ := h
          exact (Selector.label.inj (Op.list.inj h).2).1⟩
  | .list (.resource _) (.controlledBy ..) | .list .testRun _ | .list .environmentRequest _ | .list .environment _
  | .list .provider _ | .list .cluster _ | .list .job _ | .list .pod _ | .get _ _ | .create _ _ | .update _ _
  | .updateStatus _ _ | .delete _ _ | .ext _ => .isFalse fun h => by
      obtain ⟨_, _, h⟩ := h
      cases h

instance (i : Worker) (w : OperatorState) : (o : Op) → (a : Ans o) → Decidable (collectsLate i w o a)
  | .list (.resource r) (.label _ _), .ok ys => inferInstanceAs (Decidable (_ → ShowsOwners w.store r ys))
  | .delete (.resource _) _, _ =>
      inferInstanceAs (Decidable (∀ e ∈ w.rounds i, _ → ∀ x ∈ w.store.past .environment, _ → _))
  | .list (.resource _) (.label _ _), .error _ | .list (.resource _) (.controlledBy ..), _ | .list .testRun _, _
  | .list .environmentRequest _, _ | .list .environment _, _ | .list .provider _, _ | .list .cluster _, _
  | .list .job _, _ | .list .pod _, _ | .delete .testRun _, _ | .delete .environmentRequest _, _
  | .delete .environment _, _ | .delete .provider _, _ | .delete .cluster _, _ | .delete .job _, _ | .delete .pod _, _
  | .get _ _, _ | .create _ _, _ | .update _ _, _ | .updateStatus _ _, _ | .ext _, _ => .isTrue trivial

/-- The pod of a provider job that has succeeded. -/
def succeededPod (job : String) : Pod :=
  let succeeded (n : String) : ContainerStatus :=
    { name := n, terminated := some ⟨"", some { conclusion := conclusionSuccessful }⟩ }
  { metadata := { name := job, labels := [("job-name", job)] }
    spec := ()
    status :=
      { containerStatuses := [succeeded "environment-provider"]
        initContainerStatuses :=
          [succeeded "iut-provider", succeeded "execution-space-provider", succeeded "log-area-provider"] } }

/-- The provider job of a request is created, and provides the resources and the Environment. -/
def environmentProvided : List Turn :=
  providersCreated ++ [other (.create .environmentRequest (plainRequest "request")),
    round (.environmentRequest "request"), round (.environmentRequest "request"),
    round (.environmentRequest "request"),
    other (.create (.resource .iut) (plainIut "iut" "request")),
    other (.create (.resource .logArea) (plainLogArea "log-area" "request")),
    other (.create (.resource .executionSpace) (plainExecutionSpace "execution-space" "request")),
    other (.create .environment (plainEnvironment "environment"))]

/-- It succeeds, and the request is reconciled twice: it is completed, and its unused resources are collected. -/
def providerSucceeded : List Turn :=
  [other (.create .pod (succeededPod "environment-provider-6")), jobFinished "environment-provider-6" 7 .complete,
    round (.environmentRequest "request"), round (.environmentRequest "request")]

/-- The Environment has been ready for use by then, and there is an Iut that nobody uses. -/
def spareCollected : List Turn :=
  environmentProvided ++ [other (.create (.resource .iut) (plainIut "spare" "request")),
    round (.environment "environment"), round (.environment "environment"), round (.environment "environment")] ++
    providerSucceeded

/-- The Iut that nobody uses is deleted, and no other. -/
theorem in_use_kept_spare :
    (∃ e ∈ (played spareCollected).rounds (.environmentRequest "request"), e.op = .delete (.resource .iut) "spare") ∧
      ∀ later e earlier, (played spareCollected).rounds (.environmentRequest "request") = later ++ e :: earlier →
        (∃ e' ∈ earlier, ListsUnused e'.op) → ∀ r m, e.op = .delete (.resource r) m → ∀ x, ¬ InUse e.before r m x := by
  have hmeets : Meets collectsLate spareCollected := by decide
  exact ⟨⟨_, .tail _ (.tail _ (.head _)), rfl⟩, in_use_kept "request" (plays_runs hmeets)⟩

/-- **Collected in use.** The Environment exists before the provider job succeeds, but its reconciler has not got round
    to it: the request completes, and all that the Environment names is deleted. -/
theorem in_use_collected :
    ∃ c, plainOperator.system.Reachable c ∧
      ∃ later e earlier, c.state.rounds (.environmentRequest "request") = later ++ e :: earlier ∧
        (∃ e' ∈ earlier, ListsUnused e'.op) ∧ e.op = .delete (.resource .iut) "iut" ∧
        ∃ x, InUse e.before .iut "iut" x := by
  refine ⟨⟨played (environmentProvided ++ providerSucceeded), fun _ => none⟩, ?_, ?_⟩
  · exact (plays_runs (by decide : Meets (fun _ _ _ _ => True) _)).of_restrict
  · refine ⟨[_, _, _, _], _, [_, _], rfl, ⟨_, .head _, .iut, "request-id", rfl⟩, rfl, ?_⟩
    refine ⟨{ plainEnvironment "environment" with metadata := { name := "environment", resourceVersion := 12 } }, ?_⟩
    exact ⟨rfl, rfl, _, rfl, rfl⟩

end Etos
