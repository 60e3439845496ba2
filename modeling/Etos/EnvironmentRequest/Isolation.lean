import Etos.Controller.TestRun
import Etos.Controller.EnvironmentRequest
import Etos.Kube.Store
import Etos.Prog.Paths
import Etos.Provider.Provision
import Etos.Webhook.Defaulter

/-!
# `EnvironmentRequest.Isolation` — what a deleted request deletes

`reconcileDeletion` is meant to delete what belongs to one EnvironmentRequest. It selects by the label `id`,
whose value is the `Spec.Identifier` of the request, the id of a TestRun; what belongs to one request is labelled
`environment-request-id`. The TestRun controller gives the requests of all suites of a TestRun the same
identifier, so deleting one of them deletes the Environments and resources of the others.

**`deletes_own_iff`**: over any namespace content, `reconcileDeletion` issues Deletes for objects of its own
request only, exactly when every object that carries the request's identifier and is not being deleted yet
carries its `environment-request-id` too. `deletes_sibling` is a namespace with two requests of one TestRun in
which it does not.
-/

namespace Etos

open Kube EnvironmentRequestReconciler

/-- Answers over a namespace of which nothing changes but the status of the request: reads and status updates
    answer from it or fail, everything else answers anything. -/
def answersFrom (s : Namespace) : (o : Op) → Ans o → Prop
  | .get k n, .ok x => s.find k n = some x
  | .list k sel, .ok xs => xs = s.list k sel
  | .updateStatus k o, .ok x => ∃ s', s.statusUpdated k o = some (x, s')
  | _, _ => True

/-- Does the object `n` of kind `k` belong to the request? -/
def BelongsTo (s : Namespace) (request : EnvironmentRequest) (k : Kind) (n : String) : Prop :=
  ∃ o, s.find k n = some o ∧ o.metadata.labels.lookup requestIdLabel = some request.spec.id

/-- If the operation is a Delete, it is one of an object of the request. -/
def OwnDelete (s : Namespace) (request : EnvironmentRequest) (o : Op) : Prop :=
  ∀ k n, o = .delete k n → k ∈ requestKinds ∧ BelongsTo s request k n

/-- Every Delete that `reconcileDeletion` issues over this namespace is for an object of the request. -/
def DeletesOwn (s : Namespace) (request : EnvironmentRequest) : Prop :=
  (reconcileDeletion request).Keeps (answersFrom s) (OwnDelete s request) fun _ => True

/-- The objects that the request selects for deletion belong to it. -/
def SelectsOwn (s : Namespace) (request : EnvironmentRequest) : Prop :=
  ∀ k ∈ requestKinds, ∀ n o, s.find k n = some o → o.deleting = false →
    o.metadata.labels.lookup idLabel = some request.spec.identifier →
    o.metadata.labels.lookup requestIdLabel = some request.spec.id

variable {s : Namespace} {request : EnvironmentRequest}

theorem ownDelete_other {o : Op} (h : ∀ k n, o ≠ .delete k n) : OwnDelete s request o :=
  fun k n e => absurd e (h k n)

/-! ## The loops -/

theorem mem_list_label {k : Kind} {key value : String} {o : Obj k} :
    o ∈ s.list k (.label key value) ↔
      s.find k o.name = some o ∧ o.metadata.labels.lookup key = some value := by
  rw [Store.mem_list]
  simp [Selector.matches]

theorem deleteEach_keeps {k : Kind} (hk : k ∈ requestKinds) {items : List (Obj k)}
    (h : ∀ o ∈ items, o.deleting = false → BelongsTo s request k o.name) :
    (deleteEach k items).Keeps (answersFrom s) (OwnDelete s request) fun _ => True := by
  induction items with
  | nil => trivial
  | cons o rest ih =>
      have hrest := ih fun o' ho' => h o' (List.mem_cons_of_mem _ ho')
      unfold deleteEach
      split
      · exact hrest
      · rename_i hdel
        refine ⟨?_, fun a _ => hrest.bind fun _ _ => trivial⟩
        rintro k' n ⟨⟩
        exact ⟨hk, h o List.mem_cons_self (by simpa using hdel)⟩

/-- Whatever is in the list and not being deleted gets a Delete. -/
theorem deleteEach_issues {k : Kind} {items : List (Obj k)} {Q : Option Err → Prop}
    (h : (deleteEach k items).Keeps (answersFrom s) (OwnDelete s request) Q) {o : Obj k} (ho : o ∈ items)
    (hdel : o.deleting = false) : OwnDelete s request (.delete k o.name) := by
  induction items generalizing Q with
  | nil => cases ho
  | cons o' rest ih =>
      unfold deleteEach at h
      rcases List.mem_cons.mp ho with rfl | ho
      · rw [if_neg (by simp [hdel])] at h
        exact h.1
      · split at h
        · exact ih h ho
        · -- the Delete of the first object succeeds, and the loop goes on
          have hrest := h.2 (.ok ()) trivial
          exact ih (Prog.keeps_bind.mp hrest) ho

theorem deleteLabelled_keeps {k : Kind} (hk : k ∈ requestKinds) (hsel : SelectsOwn s request)
    {request' : EnvironmentRequest} (hspec : request'.spec = request.spec) :
    (deleteLabelled k request').Keeps (answersFrom s) (OwnDelete s request) fun _ => True := by
  refine ⟨ownDelete_other (by simp), ?_⟩
  rintro (e | items) ha
  · trivial
  · refine (deleteEach_keeps hk ?_).bind fun _ _ => trivial
    intro o ho hdel
    obtain rfl : items = s.list k _ := ha
    obtain ⟨hf, hid⟩ := mem_list_label.mp ho
    rw [hspec] at hid
    exact ⟨o, hf, hsel k hk o.name o hf hdel hid⟩

/-- A pass deletes every selected object of the kind, and goes on even if the list fails. -/
theorem deleteLabelled_issues {α : Type} {k : Kind} {request' : EnvironmentRequest}
    {f : Int × Option Err → M α} {Q : α → Prop}
    (h : (deleteLabelled k request' >>= f).Keeps (answersFrom s) (OwnDelete s request) Q) :
    (∀ o ∈ s.list k (.label idLabel request'.spec.identifier), o.deleting = false →
        OwnDelete s request (.delete k o.name)) ∧
      (f (-1, some (.new ""))).Keeps (answersFrom s) (OwnDelete s request) Q := by
  refine ⟨fun o ho hdel => ?_, h.2 (.error (.new "")) trivial⟩
  have hok := h.2 (.ok (s.list k (.label idLabel request'.spec.identifier))) rfl
  exact deleteEach_issues (Prog.keeps_bind.mp (Prog.keeps_bind.mp hok)) ho hdel

/-! ## The pass -/

theorem deleteResources_keeps (hsel : SelectsOwn s request) {request' : EnvironmentRequest}
    (hspec : request'.spec = request.spec) :
    (deleteResources request').Keeps (answersFrom s) (OwnDelete s request) fun _ => True := by
  refine (deleteLabelled_keeps (by decide) hsel hspec).bind fun _ _ => ?_
  refine (deleteLabelled_keeps (by decide) hsel hspec).bind fun _ _ => ?_
  refine (deleteLabelled_keeps (by decide) hsel hspec).bind fun _ _ => ?_
  exact (deleteLabelled_keeps (by decide) hsel hspec).bind fun _ _ => trivial

theorem deleteResources_issues {α : Type} {request' : EnvironmentRequest} {f : Int × Option Err → M α}
    {Q : α → Prop}
    (h : (deleteResources request' >>= f).Keeps (answersFrom s) (OwnDelete s request) Q) {k : Kind}
    (hk : k ∈ requestKinds) {o : Obj k}
    (ho : o ∈ s.list k (.label idLabel request'.spec.identifier)) (hdel : o.deleting = false) :
    OwnDelete s request (.delete k o.name) := by
  unfold deleteResources at h
  simp only [Prog.bind_assoc] at h
  obtain ⟨henv, h⟩ := deleteLabelled_issues h
  obtain ⟨hiut, h⟩ := deleteLabelled_issues h
  obtain ⟨hlog, h⟩ := deleteLabelled_issues h
  obtain ⟨hexec, _⟩ := deleteLabelled_issues h
  simp only [requestKinds, List.mem_cons, List.not_mem_nil, or_false] at hk
  rcases hk with rfl | rfl | rfl | rfl
  · exact henv o ho hdel
  · exact hiut o ho hdel
  · exact hlog o ho hdel
  · exact hexec o ho hdel

/-- Announcing the release deletes nothing and keeps the specification. -/
theorem announceRelease_keeps (hf : s.find .environmentRequest request.name = some request) :
    (announceRelease request).Keeps (answersFrom s) (OwnDelete s request)
      fun r => r.1.spec = request.spec := by
  unfold announceRelease
  split
  · rfl
  · rw [setCondition_bind]
    refine ⟨ownDelete_other (by simp), fun now _ => ?_⟩
    dsimp only
    split
    · refine ⟨ownDelete_other (by simp), ?_⟩
      rintro (e | x) ha
      · rfl
      · obtain ⟨s', hs'⟩ := ha
        obtain ⟨cur, hcur, _, rfl, _⟩ := Store.statusUpdated_eq hs'
        obtain rfl : request = cur := Option.some.inj (hf.symm.trans hcur)
        rfl
    · rfl

/-- There is a path on which the release is announced and the pass goes on. -/
theorem announceRelease_returns {α : Type} {f : EnvironmentRequest × Option Err → M α} {Q : α → Prop}
    (hf : s.find .environmentRequest request.name = some request)
    (h : (announceRelease request >>= f).Keeps (answersFrom s) (OwnDelete s request) Q) :
    ∃ request' : EnvironmentRequest, request'.spec = request.spec ∧
      (f (request', none)).Keeps (answersFrom s) (OwnDelete s request) Q := by
  unfold announceRelease at h
  split at h
  · exact ⟨request, rfl, h⟩
  · rw [setCondition_bind] at h
    have hnow := h.2 (0 : Int) trivial
    dsimp only at hnow
    split at hnow
    · -- the status update is accepted: the request is in the namespace with this resource version
      have hnamed : s.find .environmentRequest
          (conditionSet (unixSeconds 0) request (releasingCondition request)).name = some request := hf
      refine ⟨_, ?_, hnow.2 (.ok _) ⟨_, Store.statusUpdated_of_find hnamed rfl⟩⟩
      rfl
    · exact ⟨conditionSet (unixSeconds 0) request (releasingCondition request), rfl, hnow⟩

theorem deletesOwn_of_selects (hf : s.find .environmentRequest request.name = some request)
    (hsel : SelectsOwn s request) : DeletesOwn s request := by
  refine (announceRelease_keeps hf).bind ?_
  rintro ⟨request', err⟩ hspec
  cases err with
  | some e => trivial
  | none =>
      refine (deleteResources_keeps hsel hspec).bind ?_
      rintro ⟨count, allErr⟩ -
      simp only
      split
      · trivial
      split
      · trivial
      · unfold removeFinalizer
        split
        · exact ⟨ownDelete_other (by simp), fun a _ => trivial⟩
        · trivial

theorem selects_of_deletesOwn (hf : s.find .environmentRequest request.name = some request)
    (h : DeletesOwn s request) : SelectsOwn s request := by
  intro k hk n o ho hdel hid
  obtain ⟨request', hspec, hrest⟩ := announceRelease_returns hf h
  have hname : o.name = n := s.named ho
  have hmem : o ∈ s.list k (.label idLabel request'.spec.identifier) := by
    rw [mem_list_label, hspec, hname]
    exact ⟨ho, hid⟩
  obtain ⟨_, o', ho', hown⟩ := deleteResources_issues hrest hk hmem hdel k o.name rfl
  rw [hname] at ho'
  rw [Option.some.inj (ho.symm.trans ho')]
  exact hown

/-- **A deleted request deletes what is its own** exactly when everything it selects is its own: the label it
    selects by does not tell the requests of one TestRun apart. -/
theorem deletes_own_iff (s : Namespace) (request : EnvironmentRequest)
    (hf : s.find .environmentRequest request.name = some request) :
    DeletesOwn s request ↔ SelectsOwn s request :=
  ⟨selects_of_deletesOwn hf, deletesOwn_of_selects hf⟩

/-! ## Two requests of one TestRun -/

/-- Answers to what `environmentRequest` asks for: the clock and a fresh id. -/
def siblingAnswers (id : String) : (o : Op) → Ans o
  | .get _ _ => .error (.new "")
  | .list _ _ => .ok []
  | .create _ o => .ok o
  | .update _ o => .ok o
  | .updateStatus _ o => .ok o
  | .delete _ _ => .ok ()
  | .ext .clockNow => (0 : Int)
  | .ext .timeNow => (0 : Int)
  | .ext .newUUID => id
  | .ext .startSpan => ⟨"", "", ""⟩
  | .ext (.publish _ _) => .ok ()
  | .ext (.getPublisher _) => .ok ()
  | .ext (.readKey _ _) => .ok ""
  | .ext (.rangeKeys keys) => ⟨keys, .refl keys⟩
  | .ext (.attempt _) => .ok ()

/-- The TestRun both requests are for. -/
def siblingTestRun : TestRun :=
  { metadata := { name := "testrun" }
    spec := { id := "testrun-id", testRunner := some ⟨"1"⟩, environmentProvider := some ⟨none⟩ }
    status := {} }

/-- A cluster of which every part is specified. -/
def siblingCluster : Cluster :=
  { metadata := { name := "cluster" }
    spec :=
      { eiffelMessageBus := some {}, etosMessageBus := some { password := some { value := "guest" } }
        eventRepository := some {}, database := some {} }
    status := () }

/-- The request the TestRun controller makes for a suite, as the server stores it under a name. -/
def siblingRequest (suite id name : String) (m : ObjectMeta → ObjectMeta) : Option EnvironmentRequest :=
  ((TestRunReconciler.environmentRequest suite "runner" siblingCluster siblingTestRun [] none).eval
    (siblingAnswers id)).map fun request =>
      { request with metadata := m { request.metadata with name := name } }

/-- The request of the first suite; it has been deleted. -/
def deletedSibling : Option EnvironmentRequest :=
  siblingRequest "suite-1" "id-1" "testrun-1" fun m =>
    { m with finalizers := [releaseFinalizer], deletionTimestamp := some 1, resourceVersion := 1 }

/-- The request of the second suite; it is in use. -/
def liveSibling : Option EnvironmentRequest :=
  siblingRequest "suite-2" "id-2" "testrun-2" fun m => { m with finalizers := [releaseFinalizer] }

/-- An Iut of a request, as the provider makes it and admission labels it. -/
def siblingIut (request : EnvironmentRequest) : Iut :=
  let iut := defaulted .iut request (newResource .iut request "iut-provider" {})
  { iut with metadata := { iut.metadata with name := "iut-2" } }

/-- A namespace with both requests and an Iut of the second. -/
def siblingNamespace (deleted live : EnvironmentRequest) : Namespace :=
  ((Store.empty.put .environmentRequest deleted).put .environmentRequest live).put (.resource .iut)
    (siblingIut live)

/-- In a namespace with one request and its Iut everything selected is its own. -/
theorem deletes_own_alone : ∃ deleted, deletedSibling = some deleted ∧
    DeletesOwn ((Store.empty.put .environmentRequest deleted).put (.resource .iut) (siblingIut deleted))
      deleted := by
  refine ⟨_, rfl, (deletes_own_iff _ _ (by decide)).mpr fun k hk n o ho _ _ => ?_⟩
  rcases Store.find_of_put ho with ho | ⟨rfl, _, ho⟩
  · rcases Store.find_of_put ho with ho | ⟨rfl, _, _⟩
    · cases ho
    · exact absurd hk (by decide)
  · obtain rfl := ho
    decide

/-- Deleting the request of one suite deletes an Iut of the other. -/
theorem deletes_sibling : ∃ deleted live, deletedSibling = some deleted ∧ liveSibling = some live ∧
    (siblingNamespace deleted live).find .environmentRequest deleted.name = some deleted ∧
    deleted.deleting = true ∧ deleted.metadata.containsFinalizer releaseFinalizer = true ∧
    ¬ DeletesOwn (siblingNamespace deleted live) deleted := by
  refine ⟨_, _, rfl, rfl, by decide, by decide, by decide, fun h => ?_⟩
  have hsel := selects_of_deletesOwn (by decide) h
  have hiut := hsel (.resource .iut) (by decide) "iut-2" _ rfl (by decide) (by decide)
  exact absurd hiut (by decide)

end Etos
