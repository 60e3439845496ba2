import Etos.Controller.EnvironmentRequest
import Etos.Controller.Guarded
import Etos.TestRun.Slots
import Etos.Webhook.Defaulter
import Etos.Webhook.TestRun

/-!
# `TestRun.Pointers` — nil images of admitted TestRuns

`validate` makes sure that a TestRun has a suite runner, an environment provider and a test runner. The reconcilers go
one step further and dereference the images *inside* the first two: `suiteRunnerJob` that of the suite runner, and
`environmentProviderJob` the image an EnvironmentRequest was given from the environment provider. A user who supplies
one of them without an image and a pull policy gets past the webhooks with a nil pointer inside.

`admitted_deref_iff` says that this is the only way to a nil image or test runner.
-/

namespace Etos

open Kube Prog

/-- The pointers to an image or a test runner. -/
def ImagePointer (message : String) : Prop :=
  message ∈ ["testrun.Spec.TestRunner", "testrun.Spec.EnvironmentProvider", "testrun.Spec.SuiteRunner",
    "testrun.Spec.SuiteRunner.Image", "environmentrequest.Spec.Image"]

instance (message : String) : Decidable (ImagePointer message) := inferInstanceAs (Decidable (_ ∈ _))

/-- The specification of a TestRun as it is stored: as it was admitted, or as a reconciler with a tracer has written it
    back together with the trace annotations. -/
def Intact (tracer : Bool) (spec stored : TestRunSpec) : Prop :=
  stored = spec ∨ (tracer = true ∧ stored = spec.marshalled)

/-- What a reconcile of an admitted TestRun reads. Clusters have been defaulted; everything else may be anything, and
    every call may fail. -/
def TestRunReads (tracer : Bool) (spec : TestRunSpec) : (o : Op) → Ans o → Prop
  | .get .testRun _, .ok testrun => Intact tracer spec testrun.spec
  | .update .testRun _, .ok testrun => Intact tracer spec testrun.spec
  | .updateStatus .testRun _, .ok testrun => Intact tracer spec testrun.spec
  | .get .cluster _, .ok cluster => ∃ namespace_ c, cluster = ClusterCustomDefaulter.Default namespace_ c
  | _, _ => True

/-- What a reconcile of an EnvironmentRequest reads that was created with this specification. -/
def RequestReads (spec : EnvironmentRequestSpec) : (o : Op) → Ans o → Prop
  | .get .environmentRequest _, .ok request => ∃ id now, request.spec = spec.marshalled.defaulted id now
  | .update .environmentRequest _, .ok request => ∃ id now, request.spec = spec.marshalled.defaulted id now
  | .updateStatus .environmentRequest _, .ok request => ∃ id now, request.spec = spec.marshalled.defaulted id now
  | _, _ => True

/-- No reconcile of the EnvironmentRequest dereferences a nil image. -/
def RequestProcessed (request : EnvironmentRequest) : Prop :=
  ∀ name, (EnvironmentRequestReconciler.Reconcile name).Guarded (RequestReads request.spec) (fun _ => True)
    ImagePointer fun _ => True

/-- An EnvironmentRequest is created only if no reconcile of it dereferences a nil image. -/
def CreatesProcessed : Op → Prop
  | .create .environmentRequest request => RequestProcessed request
  | _ => True

/-- No reconcile of the TestRun, and none of an EnvironmentRequest it creates, dereferences a nil image or test
    runner. -/
def Processed (spec : TestRunSpec) : Prop :=
  ∀ (r : TestRunReconciler) (name : String),
    (r.Reconcile name).Guarded (TestRunReads r.tracer spec) CreatesProcessed ImagePointer fun _ => True

/-- A service that was supplied comes with an image or a pull policy. -/
def ImageGiven (service : Option EmbeddedImage) : Prop := ∀ e, service = some e → e.marshalled.image ≠ none

theorem createsProcessed_of_not {o : Op} (h : ¬ CreatesObject o) : CreatesProcessed o := by
  unfold CreatesProcessed
  split
  · exact absurd trivial h
  · trivial

/-! ## EnvironmentRequests -/

namespace EnvironmentRequestReconciler

variable {allowed : (o : Op) → Ans o → Prop}

/-- Nothing is asked of the calls, and no nil image is dereferenced. -/
abbrev NoNilImage {α : Type} (allowed : (o : Op) → Ans o → Prop) (p : M α) : Prop :=
  p.Guarded allowed (fun _ => True) ImagePointer fun _ => True

theorem persist_noNilImage (e : EnvironmentRequest) : NoNilImage allowed (persist e) := ⟨trivial, fun _ _ => trivial⟩

theorem var_get_noNilImage (v : Var) : NoNilImage allowed v.get := by
  unfold Var.get
  split
  · trivial
  · split
    · exact ⟨trivial, fun _ _ => trivial⟩
    · exact ⟨trivial, fun _ _ => trivial⟩
    · trivial

/-- A missing password kills the reconciler too, but it is no image. -/
theorem getPointer_noNilImage (v : Option Var) : NoNilImage allowed (Var.getPointer v) := by
  cases v with
  | none =>
      show ¬ ImagePointer _
      decide
  | some v => exact var_get_noNilImage v

theorem envVarListFrom_noNilImage (e : EnvironmentRequest) : NoNilImage allowed (envVarListFrom e) := by
  refine (var_get_noNilImage _).bind fun a _ => ?_
  cases a with
  | error err => trivial
  | ok _ =>
      refine (getPointer_noNilImage _).bind fun a _ => ?_
      cases a with
      | error err => trivial
      | ok _ =>
          refine (getPointer_noNilImage _).bind fun a _ => ?_
          cases a <;> trivial

theorem environmentProviderJob_noNilImage {e : EnvironmentRequest} (h : e.spec.image ≠ none) :
    NoNilImage allowed (environmentProviderJob e) := by
  refine (checkCluster_guarded (fun _ _ => trivial) e).bind fun err _ => ?_
  cases err with
  | some err => trivial
  | none =>
      refine (envVarListFrom_noNilImage e).bind fun err _ => ?_
      cases err with
      | some err => trivial
      | none =>
          refine ⟨trivial, fun a _ => ?_⟩
          cases a with
          | error err => trivial
          | ok iutProvider =>
              refine ⟨trivial, fun a _ => ?_⟩
              cases a with
              | error err => trivial
              | ok logAreaProvider =>
                  refine ⟨trivial, fun a _ => ?_⟩
                  cases a with
                  | error err => trivial
                  | ok executionSpaceProvider =>
                      simp only [Prog.bind]
                      cases hi : e.spec.image with
                      | none => exact absurd hi h
                      | some image => trivial

theorem setCondition_persist_noNilImage (e : EnvironmentRequest) (c : Condition) (otherwise : Option Err) :
    NoNilImage allowed (do
      let (e, changed) ← setCondition e c
      if changed then persist e else return otherwise) := by
  refine (setCondition_guarded (fun _ _ => trivial) e c).bind fun out _ => ?_
  dsimp only
  split
  · exact persist_noNilImage _
  · trivial

theorem providerFinished_noNilImage (e : EnvironmentRequest) (c : Condition) :
    NoNilImage allowed (providerFinished e c) := by
  refine (setCondition_guarded (fun _ _ => trivial) e c).bind fun out _ => ?_
  dsimp only
  split
  · exact persist_noNilImage _
  · trivial

theorem providerMissing_noNilImage {e : EnvironmentRequest} (h : e.spec.image ≠ none) :
    NoNilImage allowed (providerMissing e) := by
  unfold providerMissing
  split
  · trivial
  split
  · trivial
  refine (create_guarded (fun _ _ => trivial) (environmentProviderJob_noNilImage h)).bind fun err _ => ?_
  cases err with
  | none => exact setCondition_persist_noNilImage _ _ _
  | some err =>
      show Prog.Guarded _ _ _ (providerNotCreated e err) _
      unfold providerNotCreated
      split
      · trivial
      · exact setCondition_persist_noNilImage _ _ _

theorem reconcileEnvironmentProvider_noNilImage {e : EnvironmentRequest} (h : e.spec.image ≠ none) :
    NoNilImage allowed (reconcileEnvironmentProvider e) := by
  refine (status_guarded (fun _ _ => trivial) _).bind fun out _ => ?_
  match out with
  | (_, .error err) => trivial
  | (manager, .ok .failed) =>
      exact (result_guarded (fun _ _ => trivial) _ _ _).bind fun _ _ => providerFinished_noNilImage _ _
  | (manager, .ok .successful) =>
      exact (result_guarded (fun _ _ => trivial) _ _ _).bind fun _ _ => providerFinished_noNilImage _ _
  | (manager, .ok .active) => exact setCondition_persist_noNilImage _ _ _
  | (manager, .ok .none) => exact providerMissing_noNilImage h

theorem reconcile_noNilImage {e : EnvironmentRequest} (h : e.spec.image ≠ none) :
    NoNilImage allowed (reconcile e) := by
  unfold reconcile
  split
  · exact (setCondition_guarded (fun _ _ => trivial) e _).bind fun _ _ => persist_noNilImage _
  · split
    · trivial
    · refine (checkProviders_guarded (fun _ _ => trivial) _).bind fun err _ => ?_
      cases err with
      | some err => exact (setCondition_guarded (fun _ _ => trivial) e _).bind fun _ _ => persist_noNilImage _
      | none => exact reconcileEnvironmentProvider_noNilImage h

theorem deleteUnowned_noNilImage (r : ResourceKind) (resources : List (Resource r)) :
    NoNilImage allowed (deleteUnowned r resources) := by
  induction resources with
  | nil => trivial
  | cons resource rest ih =>
      unfold deleteUnowned
      split
      · exact ih
      · refine ⟨trivial, fun a _ => ?_⟩
        cases a with
        | error err => trivial
        | ok _ => exact ih

theorem cleanupKind_noNilImage (r : ResourceKind) (e : EnvironmentRequest) : NoNilImage allowed (cleanupKind r e) := by
  refine ⟨trivial, fun a _ => ?_⟩
  cases a with
  | error err => trivial
  | ok resources => exact deleteUnowned_noNilImage r resources

theorem cleanupUnused_noNilImage (e : EnvironmentRequest) : NoNilImage allowed (cleanupUnused e) := by
  refine (cleanupKind_noNilImage _ e).bind fun err _ => ?_
  cases err with
  | some err => trivial
  | none =>
      refine (cleanupKind_noNilImage _ e).bind fun err _ => ?_
      cases err with
      | some err => trivial
      | none => exact cleanupKind_noNilImage _ e

theorem deleteEach_noNilImage (k : Kind) (items : List (Obj k)) : NoNilImage allowed (deleteEach k items) := by
  induction items with
  | nil => trivial
  | cons o rest ih =>
      unfold deleteEach
      split
      · exact ih
      · exact ⟨trivial, fun a _ => ih.bind fun _ _ => trivial⟩

theorem deleteLabelled_noNilImage (k : Kind) (e : EnvironmentRequest) : NoNilImage allowed (deleteLabelled k e) := by
  refine ⟨trivial, fun a _ => ?_⟩
  cases a with
  | error err => trivial
  | ok items => exact (deleteEach_noNilImage k items).bind fun _ _ => trivial

theorem reconcileDeletion_noNilImage (e : EnvironmentRequest) : NoNilImage allowed (reconcileDeletion e) := by
  have hannounce : NoNilImage allowed (announceRelease e) := by
    unfold announceRelease
    split
    · trivial
    · refine (setCondition_guarded (fun _ _ => trivial) e _).bind fun out _ => ?_
      dsimp only
      split
      · exact ⟨trivial, fun _ _ => trivial⟩
      · trivial
  refine hannounce.bind fun out _ => ?_
  obtain ⟨e, err⟩ := out
  cases err with
  | some err => trivial
  | none =>
      have hdelete : NoNilImage allowed (deleteResources e) := by
        refine (deleteLabelled_noNilImage _ e).bind fun _ _ => (deleteLabelled_noNilImage _ e).bind fun _ _ => ?_
        exact (deleteLabelled_noNilImage _ e).bind fun _ _ => (deleteLabelled_noNilImage _ e).bind fun _ _ => trivial
      refine hdelete.bind fun out _ => ?_
      dsimp only
      split
      · trivial
      split
      · trivial
      unfold removeFinalizer
      split
      · exact ⟨trivial, fun _ _ => trivial⟩
      · trivial

theorem reconcileFinalized_noNilImage {e : EnvironmentRequest} (h : e.spec.image ≠ none) :
    NoNilImage allowed (reconcileFinalized e) := by
  unfold reconcileFinalized
  split
  · refine (delete_guarded (fun _ _ => trivial) _).bind fun _ _ => ?_
    exact (cleanupUnused_noNilImage e).bind fun _ _ => trivial
  · exact (reconcile_noNilImage h).bind fun _ _ => trivial

/-- A request with an image is processed. -/
theorem processed_of_image {request : EnvironmentRequest} (h : Image.marshalled request.spec.image ≠ none) :
    RequestProcessed request := by
  intro name
  refine ⟨trivial, fun a ha => ?_⟩
  cases a with
  | error err => trivial
  | ok e =>
      obtain ⟨id, now, hspec⟩ := ha
      have himage : e.spec.image ≠ none := by
        rw [hspec]
        exact h
      show Prog.Guarded _ _ _ (if _ then _ else _) _
      split
      · split
        · exact reconcileFinalized_noNilImage himage
        · exact ⟨trivial, fun _ _ => trivial⟩
      split
      · exact reconcileDeletion_noNilImage e
      · exact reconcileFinalized_noNilImage himage

end EnvironmentRequestReconciler

/-! ## TestRuns -/

theorem EmbeddedImage.marshalled_marshalled (e : EmbeddedImage) : e.marshalled.marshalled = e.marshalled := by
  obtain ⟨image⟩ := e
  cases image with
  | none => rfl
  | some image =>
      by_cases h : image.image = "" ∧ image.imagePullPolicy = ""
      · simp only [marshalled, Image.marshalled, if_pos h]
      · simp only [marshalled, Image.marshalled, if_neg h]

theorem EmbeddedImage.image_ne_none {e : EmbeddedImage} (h : e.marshalled.image ≠ none) : e.image ≠ none := by
  intro hnone
  rw [marshalled, hnone] at h
  exact h rfl

/-- What the reconcilers dereference of a TestRun is there. -/
structure Usable (spec : TestRunSpec) : Prop where
  testRunner : spec.testRunner ≠ none
  environmentProvider : spec.environmentProvider ≠ none
  suiteRunner : spec.suiteRunner ≠ none
  suiteRunnerImage : ImageGiven spec.suiteRunner
  environmentProviderImage : (∃ suite ∈ spec.suites, suite.tests ≠ []) → ImageGiven spec.environmentProvider

theorem ImageGiven.map_marshalled {service : Option EmbeddedImage} (h : ImageGiven service) :
    ImageGiven (service.map EmbeddedImage.marshalled) := by
  intro e he
  obtain ⟨e₀, he₀, rfl⟩ := Option.map_eq_some_iff.mp he
  rw [EmbeddedImage.marshalled_marshalled]
  exact h e₀ he₀

theorem Usable.intact {tracer : Bool} {spec stored : TestRunSpec} (h : Usable spec) (hs : Intact tracer spec stored) :
    Usable stored := by
  rcases hs with rfl | ⟨_, rfl⟩
  · exact h
  · exact
      { testRunner := h.testRunner
        environmentProvider := fun hn => h.environmentProvider (Option.map_eq_none_iff.mp hn)
        suiteRunner := fun hn => h.suiteRunner (Option.map_eq_none_iff.mp hn)
        suiteRunnerImage := h.suiteRunnerImage.map_marshalled
        environmentProviderImage := fun hs => (h.environmentProviderImage hs).map_marshalled }

namespace TestRunReconciler

/-- No nil image or test runner is dereferenced. -/
abbrev NoNilImage {α : Type} (tracer : Bool) (spec : TestRunSpec) (p : M α) (Q : α → Prop) : Prop :=
  p.Guarded (TestRunReads tracer spec) CreatesProcessed ImagePointer Q

/-- A step hands back a usable TestRun. -/
abbrev StepNoNilImage (tracer : Bool) (spec : TestRunSpec) (p : M Outcome) : Prop :=
  NoNilImage tracer spec p fun out => Usable out.testrun.spec

section

variable {tracer : Bool} {spec : TestRunSpec} (hspec : Usable spec) {testrun : TestRun} (h : Usable testrun.spec)

theorem setCondition_noNilImage {testrun : TestRun} (c : Condition) :
    NoNilImage tracer spec (setCondition testrun c) fun out => out.1.spec = testrun.spec :=
  ⟨trivial, fun _ _ => rfl⟩

include h in
theorem inconclusive_usable : Usable (setInconclusiveVerdictIfUnset testrun).1.spec := by
  rw [setInconclusiveVerdictIfUnset_eq]
  exact h

include hspec h

theorem statusUpdate_noNilImage :
    NoNilImage tracer spec (M.statusUpdate .testRun testrun) fun out => Usable out.1.spec := by
  refine ⟨trivial, fun a ha => ?_⟩
  cases a with
  | error err => exact h
  | ok t => exact hspec.intact ha

theorem updated_noNilImage : StepNoNilImage tracer spec (updated testrun) :=
  (statusUpdate_noNilImage hspec h).bind fun _ hout => hout

theorem failSafe_noNilImage {description : String} {cleanup : M (Option Err)}
    (hc : NoNilImage tracer spec cleanup fun _ => True) :
    StepNoNilImage tracer spec (failSafe testrun description cleanup) := by
  refine ⟨trivial, fun _ _ => hc.bind fun _ _ => ?_⟩
  split
  · exact (statusUpdate_noNilImage hspec (inconclusive_usable h)).bind fun _ hout => hout
  · exact h

/-- Set a condition and write the TestRun if that changed anything. -/
theorem setCondition_updated_noNilImage (c : Condition) :
    StepNoNilImage tracer spec (do
      let (testrun, changed) ← setCondition testrun c
      if changed then updated testrun else return ⟨testrun, false, none⟩) := by
  refine (setCondition_noNilImage c).bind fun out hout => ?_
  have hu : Usable out.1.spec := hout ▸ h
  dsimp only
  split
  · exact updated_noNilImage hspec hu
  · exact hu

omit hspec h

/-! ### Environment requests -/

theorem deleteRequests_noNilImage (requests : List EnvironmentRequest) :
    NoNilImage tracer spec (deleteRequests requests) fun _ => True := by
  induction requests with
  | nil => trivial
  | cons request rest ih =>
      unfold deleteRequests
      split
      · exact ih
      · refine ⟨trivial, fun a _ => ?_⟩
        cases a with
        | ok _ => exact ih
        | error err =>
            show Prog.Guarded _ _ _ (if _ then _ else _) _
            split
            · exact ih
            · trivial

theorem deleteEnvironmentRequests_noNilImage (testrun : TestRun) :
    NoNilImage tracer spec (deleteEnvironmentRequests testrun) fun _ => True := by
  refine ⟨trivial, fun a _ => ?_⟩
  cases a with
  | ok requests => exact deleteRequests_noNilImage requests
  | error err =>
      show Prog.Guarded _ _ _ (if _ then _ else _) _
      split <;> trivial

include h in
/-- The request carries the image of the environment provider. -/
theorem environmentRequest_noNilImage (n t : String) (cluster : Cluster) (tests : List Test) (dataset : Option Json) :
    NoNilImage tracer spec (environmentRequest n t cluster testrun tests dataset) fun request =>
      ∃ e, testrun.spec.environmentProvider = some e ∧ request.spec.image = e.image := by
  refine ⟨trivial, fun now _ => ⟨trivial, fun id _ => ?_⟩⟩
  simp only [Prog.bind]
  split
  · exact ⟨_, by assumption, rfl⟩
  · exact absurd (by assumption) h.testRunner
  · exact absurd (by assumption) h.environmentProvider
  -- What is dereferenced of the Cluster is no image.
  · show ¬ ImagePointer _
    decide
  · show ¬ ImagePointer _
    decide
  · show ¬ ImagePointer _
    decide
  · show ¬ ImagePointer _
    decide

include h in
theorem createRequests_noNilImage {suite : Suite} {requests : List EnvironmentRequest} {cluster : Cluster}
    {order : List String} (himage : order ≠ [] → ImageGiven testrun.spec.environmentProvider) :
    NoNilImage tracer spec (createRequests suite requests testrun cluster order) fun _ => True := by
  induction order with
  | nil => trivial
  | cons testrunner rest ih =>
      have hgiven := himage (List.cons_ne_nil _ _)
      have ih := ih fun _ => hgiven
      unfold createRequests
      split
      · exact ih
      · refine (environmentRequest_noNilImage h _ _ _ _ _).bind fun request hrequest => ?_
        obtain ⟨e, he, hri⟩ := hrequest
        refine ⟨EnvironmentRequestReconciler.processed_of_image ?_, fun a _ => ?_⟩
        · show Image.marshalled request.spec.image ≠ none
          rw [hri]
          exact hgiven e he
        · cases a with
          | error err => trivial
          | ok _ => exact ih

include h in
theorem createForSuites_noNilImage {requests : List EnvironmentRequest} {cluster : Cluster} {suites : List Suite}
    (hsub : ∀ suite ∈ suites, suite ∈ testrun.spec.suites) :
    NoNilImage tracer spec (createForSuites requests testrun cluster suites) fun _ => True := by
  induction suites with
  | nil => trivial
  | cons suite suites ih =>
      have hcreate : NoNilImage tracer spec (createEnvironmentRequests suite requests testrun cluster)
          fun _ => True := by
        refine ⟨trivial, fun order _ => createRequests_noNilImage h fun hne => ?_⟩
        refine h.environmentProviderImage ⟨suite, hsub suite List.mem_cons_self, fun hnil => hne ?_⟩
        exact (order.property.trans (.of_eq (testrunners_eq_nil.mpr hnil))).eq_nil
      refine hcreate.bind fun err _ => ?_
      cases err with
      | some err => trivial
      | none => exact ih fun suite hs => hsub suite (List.mem_cons_of_mem _ hs)

include hspec h

theorem failOnRequest_noNilImage (requests : List EnvironmentRequest) :
    StepNoNilImage tracer spec (failOnRequest testrun requests) := by
  induction requests with
  | nil => exact h
  | cons request rest ih =>
      unfold failOnRequest
      split
      · exact ih
      · refine (setCondition_noNilImage _).bind fun out hout => ?_
        have hu : Usable out.1.spec := hout ▸ h
        dsimp only
        split
        · exact updated_noNilImage hspec (inconclusive_usable hu)
        split
        · exact hu
        · exact ⟨trivial, fun _ _ => hu⟩

theorem reconcileRequests_noNilImage (cluster : Cluster) (requests : List EnvironmentRequest) :
    StepNoNilImage tracer spec (reconcileRequests cluster testrun requests) := by
  unfold reconcileRequests
  refine (createForSuites_noNilImage ?_ fun _ hs => hs).bind fun err _ => ?_
  · exact h
  cases err with
  | some err => exact h
  | none =>
      refine failOnRequest_noNilImage hspec ?_ requests
      exact h

theorem reconcileEnvironmentRequest_noNilImage (cluster : Cluster) :
    StepNoNilImage tracer spec (reconcileEnvironmentRequest cluster testrun) := by
  unfold reconcileEnvironmentRequest
  split
  · refine (setCondition_noNilImage _).bind fun out hout => updated_noNilImage hspec (hout ▸ h)
  split
  · exact failSafe_noNilImage hspec h (deleteEnvironmentRequests_noNilImage _)
  · refine ⟨trivial, fun a _ => ?_⟩
    cases a with
    | ok requests => exact reconcileRequests_noNilImage hspec h cluster requests
    | error err =>
        show Prog.Guarded _ _ _ (if _ then _ else _) _
        split
        · exact reconcileRequests_noNilImage hspec h cluster []
        · exact h

theorem checkEnvironment_noNilImage : StepNoNilImage tracer spec (checkEnvironment testrun) := by
  refine ⟨trivial, fun a _ => ?_⟩
  match a with
  | .error err => exact h
  | .ok [] => exact h
  | .ok (_ :: _) => exact setCondition_updated_noNilImage hspec h _

/-! ### The suite runner -/

omit hspec in
theorem suiteRunnerJob_noNilImage : NoNilImage tracer spec (suiteRunnerJob testrun) fun _ => True := by
  refine ⟨trivial, fun a _ => ?_⟩
  cases a with
  | error err => trivial
  | ok _ =>
      simp only [Prog.bind]
      cases hs : testrun.spec.suiteRunner with
      | none => exact absurd hs h.suiteRunner
      | some e =>
          cases hi : e.image with
          | none => exact absurd hi (EmbeddedImage.image_ne_none (h.suiteRunnerImage e hs))
          | some image =>
              simp only [hi]
              trivial

theorem suiteRunnerFinished_noNilImage (result : Result) (c : Condition) :
    StepNoNilImage tracer spec (suiteRunnerFinished testrun result c) := by
  unfold suiteRunnerFinished
  refine (setCondition_noNilImage _).bind fun out hout => ?_
  have hu : Usable out.1.spec := hout ▸ h
  dsimp only
  split
  · exact ⟨trivial, fun _ _ => updated_noNilImage hspec hu⟩
  · exact hu

theorem suiteRunnerActive_noNilImage : StepNoNilImage tracer spec (suiteRunnerActive testrun) := by
  have hv : (verdictOrNone testrun).spec = testrun.spec := by
    unfold verdictOrNone
    split <;> rfl
  refine (setCondition_noNilImage _).bind fun out hout => ?_
  have hu : Usable out.1.spec := by rw [hout, hv]; exact h
  dsimp only
  split
  · exact updated_noNilImage hspec hu
  split
  · exact updated_noNilImage hspec hu
  · exact hu

theorem suiteRunnerNotCreated_noNilImage (err : Err) :
    StepNoNilImage tracer spec (suiteRunnerNotCreated testrun err) := by
  have hset : NoNilImage tracer spec (setUnlessFailed testrun (suiteRunnerCondition .false .failed err.text))
      fun out => out.1.spec = testrun.spec := by
    unfold setUnlessFailed
    split
    · rfl
    · exact setCondition_noNilImage _
  refine hset.bind fun out hout => ?_
  have hu : Usable out.1.spec := hout ▸ h
  dsimp only
  split
  · exact ⟨trivial, fun _ _ => updated_noNilImage hspec (inconclusive_usable hu)⟩
  split
  · exact updated_noNilImage hspec (inconclusive_usable hu)
  · exact hu

theorem suiteRunnerMissing_noNilImage : StepNoNilImage tracer spec (suiteRunnerMissing testrun) := by
  unfold suiteRunnerMissing
  split
  · exact h
  split
  · exact h
  · refine (create_guarded (fun _ ho => createsProcessed_of_not ho) (suiteRunnerJob_noNilImage h)).bind fun err _ => ?_
    cases err with
    | some err => exact suiteRunnerNotCreated_noNilImage hspec h err
    | none => exact setCondition_updated_noNilImage hspec h _

theorem reconcileSuiteRunner_noNilImage (manager : JobManager) (jobStatus : JobStatus) :
    StepNoNilImage tracer spec (reconcileSuiteRunner testrun manager jobStatus) := by
  unfold reconcileSuiteRunner
  split
  · exact (setCondition_noNilImage _).bind fun out hout => updated_noNilImage hspec (hout ▸ h)
  split
  · refine failSafe_noNilImage hspec h ?_
    refine (delete_guarded (fun _ ho => createsProcessed_of_not ho) _).bind fun _ _ => ?_
    exact (deleteEnvironmentRequests_noNilImage _).bind fun _ _ => trivial
  split
  · exact h
  cases jobStatus with
  | failed =>
      refine (result_guarded (fun _ ho => createsProcessed_of_not ho) _ _ _).bind fun result _ => ?_
      exact suiteRunnerFinished_noNilImage hspec h _ _
  | successful =>
      refine (result_guarded (fun _ ho => createsProcessed_of_not ho) _ _ _).bind fun result _ => ?_
      split
      · exact suiteRunnerFinished_noNilImage hspec h _ _
      · exact suiteRunnerFinished_noNilImage hspec h _ _
  | active => exact suiteRunnerActive_noNilImage hspec h
  | none => exact suiteRunnerMissing_noNilImage hspec h

/-! ### `Reconcile` -/

theorem reconcileActiveStatus_noNilImage : StepNoNilImage tracer spec (reconcileActiveStatus testrun) := by
  unfold reconcileActiveStatus
  split
  · refine (setCondition_noNilImage _).bind fun out hout => updated_noNilImage hspec ?_
    unfold verdictOrNone
    split <;> exact hout ▸ h
  · split
    · exact h
    · refine (setCondition_noNilImage _).bind fun out hout => ?_
      have hu : Usable out.1.spec := hout ▸ h
      dsimp only
      split
      · unfold activeChanged
        split
        · exact ⟨trivial, fun _ _ => updated_noNilImage hspec hu⟩
        · exact updated_noNilImage hspec hu
      · unfold activeUnchanged
        split
        · exact updated_noNilImage hspec (inconclusive_usable hu)
        · exact hu

theorem providersFailed_noNilImage (err : Err) :
    NoNilImage tracer spec (providersFailed testrun err) fun _ => True := by
  refine (setCondition_noNilImage _).bind fun out hout => ?_
  have hu : Usable out.1.spec := hout ▸ h
  dsimp only
  split
  · exact (statusUpdate_noNilImage hspec (inconclusive_usable hu)).bind fun _ _ => trivial
  · trivial

omit hspec h in
theorem andThen_noNilImage {step : M Outcome} {rest : TestRun → M (TestRun × Option Err)}
    (hstep : StepNoNilImage tracer spec step)
    (hrest : ∀ t : TestRun, Usable t.spec → NoNilImage tracer spec (rest t) fun _ => True) :
    NoNilImage tracer spec (andThen step rest) fun _ => True := by
  refine hstep.bind fun out hout => ?_
  split
  · trivial
  · exact hrest _ hout

theorem reconcile_noNilImage (cluster : Cluster) :
    NoNilImage tracer spec (reconcile cluster testrun) fun _ => True := by
  refine (checkProviders_guarded (fun _ ho => createsProcessed_of_not ho) _).bind fun err _ => ?_
  cases err with
  | some err => exact providersFailed_noNilImage hspec h err
  | none =>
      refine andThen_noNilImage (reconcileEnvironmentRequest_noNilImage hspec h cluster) fun t ht => ?_
      refine andThen_noNilImage (checkEnvironment_noNilImage hspec ht) fun t ht => ?_
      refine (status_guarded (fun _ ho => createsProcessed_of_not ho) _).bind fun out _ => ?_
      obtain ⟨manager, jobStatus⟩ := out
      cases jobStatus with
      | error err => trivial
      | ok jobStatus =>
          refine andThen_noNilImage (reconcileSuiteRunner_noNilImage hspec ht manager jobStatus) fun t ht => ?_
          exact andThen_noNilImage (reconcileActiveStatus_noNilImage hspec ht) fun t _ => trivial

omit hspec h in
/-- The Active condition may be missing, but that is no image. -/
theorem reconcileCompleted_noNilImage (testrun : TestRun) (completionTime : Int) :
    NoNilImage tracer spec (reconcileCompleted testrun completionTime) fun _ => True := by
  refine (status_guarded (fun _ ho => createsProcessed_of_not ho) _).bind fun out _ => ?_
  obtain ⟨manager, jobStatus⟩ := out
  cases jobStatus with
  | error err => trivial
  | ok _ =>
      refine (delete_guarded (fun _ ho => createsProcessed_of_not ho) _).bind fun _ _ => ?_
      refine (deleteEnvironmentRequests_noNilImage _).bind fun _ _ => ?_
      split
      · show ¬ ImagePointer _
        decide
      · rename_i condition _
        cases retention testrun condition with
        | none => trivial
        | some duration =>
            refine ⟨trivial, fun now _ => ?_⟩
            simp only [Prog.bind]
            split
            · exact ⟨trivial, fun _ _ => trivial⟩
            · exact ⟨trivial, fun _ _ => trivial⟩

omit hspec h in
theorem checkDeadline_noNilImage (r : TestRunReconciler) (testrun : TestRun) :
    NoNilImage tracer spec (r.checkDeadline testrun) fun _ => True := by
  unfold checkDeadline
  split
  · trivial
  refine ⟨trivial, fun now _ => ?_⟩
  simp only [Prog.bind]
  split
  · refine (setCondition_noNilImage _).bind fun out hout => ?_
    dsimp only
    split
    · exact ⟨trivial, fun _ _ => ⟨trivial, fun _ _ => ⟨trivial, fun _ _ => trivial⟩⟩⟩
    split
    · exact ⟨trivial, fun _ _ => trivial⟩
    · trivial
  · exact ⟨trivial, fun _ _ => trivial⟩

theorem reconcileRunning_noNilImage (r : TestRunReconciler) :
    NoNilImage tracer spec (r.reconcileRunning testrun) fun _ => True := by
  refine ⟨trivial, fun a _ => ?_⟩
  cases a with
  | error err => trivial
  | ok cluster =>
      simp only [Prog.bind]
      split
      · show ¬ ImagePointer _
        decide
      unfold getPublisher
      split
      · show ¬ ImagePointer _
        decide
      · refine ⟨trivial, fun a _ => ?_⟩
        cases a with
        | error err => trivial
        | ok _ =>
            refine (reconcile_noNilImage hspec h cluster).bind fun out _ => ?_
            obtain ⟨t, err⟩ := out
            cases err with
            | none => exact checkDeadline_noNilImage r t
            | some err =>
                show Prog.Guarded _ _ _ (if _ then _ else _) _
                split <;> trivial

omit h in
theorem maybeAddTraceparentLabel_noNilImage (r : TestRunReconciler) (h : Usable testrun.spec) :
    NoNilImage tracer spec (r.maybeAddTraceparentLabel testrun) fun out => Usable out.1.spec := by
  unfold maybeAddTraceparentLabel
  split
  · exact h
  split
  · exact h
  · refine ⟨trivial, fun _ _ => ⟨trivial, fun a ha => ?_⟩⟩
    cases a with
    | error err => exact h
    | ok t => exact hspec.intact ha

omit h in
/-- A TestRun whose pointers are usable is processed. -/
theorem processed_of_usable : Processed spec := by
  intro r name
  refine ⟨trivial, fun a ha => ?_⟩
  cases a with
  | error err =>
      show Prog.Guarded _ _ _ (if _ then _ else _) _
      split <;> trivial
  | ok testrun =>
      refine (maybeAddTraceparentLabel_noNilImage hspec r (hspec.intact ha)).bind fun out hout => ?_
      obtain ⟨t, err⟩ := out
      cases err with
      | some err => trivial
      | none =>
          dsimp only
          split
          · exact reconcileCompleted_noNilImage t _
          · exact reconcileRunning_noNilImage hspec hout r

end

end TestRunReconciler

/-! ## Paths to a nil image -/

/-- A provider that passes every check. -/
def readyProvider : Provider :=
  { metadata := { name := "provider" }
    spec := {}
    status := { conditions := [{ type := .available, status := .true, reason := .active, message := "" }] } }

/-- A defaulted Cluster whose secrets can be read. -/
def readableCluster : Cluster :=
  ClusterCustomDefaulter.Default ""
    { metadata := { name := "cluster" }
      spec :=
        { eiffelMessageBus := some { password := some { value := "secret" } }
          etosMessageBus := some { password := some { value := "secret" } }
          config := { encryptionKey := { value := "secret" } } }
      status := () }

section

open EnvironmentRequestReconciler

/-- A request as the reconciler finds it when its provider job is missing. -/
def pendingRequest (spec : EnvironmentRequestSpec) : EnvironmentRequest :=
  { metadata := { name := "request", finalizers := [releaseFinalizer] }
    spec := spec.marshalled.defaulted "" 0
    status := { conditions := [readyCondition .false .pending "Reconciliation started"] } }

/-- A password that is spelled out can be read. -/
theorem getPointer_value {allowed : (o : Op) → Ans o → Prop} {v : Option Var} {w : Var} (h : v = some w)
    (hvalue : w.value ≠ "") : (Var.getPointer v).Can (free allowed) (fun a _ => ∃ x, a = .ok x) () := by
  subst h
  show Can _ (Var.get w) _ _
  unfold Var.get
  rw [if_pos hvalue]
  exact ⟨_, rfl⟩

/-- Without an image, the provider job cannot be built. -/
theorem not_requestProcessed {request : EnvironmentRequest} {etos eiffel : Var}
    (himage : Image.marshalled request.spec.image = none)
    (hkey : request.spec.config.encryptionKey.value ≠ "")
    (hetos : request.spec.config.etosMessageBus.password = some etos) (hetos' : etos.value ≠ "")
    (heiffel : request.spec.config.eiffelMessageBus.password = some eiffel) (heiffel' : eiffel.value ≠ "") :
    ¬ RequestProcessed request := by
  intro h
  have hpath : ¬ NoNilImage (RequestReads request.spec) (Reconcile "request") := by
    refine not_guarded_call (.ok (pendingRequest request.spec)) ⟨"", 0, rfl⟩ ?_
    refine not_guarded_bind_left (p := reconcile (pendingRequest request.spec)) ?_
    refine not_guarded_bind (checkProviders_can _ readyProvider (by decide) fun _ => trivial) ?_
    rintro _ rfl
    refine not_guarded_bind (status_can _ fun _ => trivial) ?_
    rintro ⟨manager, _⟩ rfl
    refine not_guarded_bind_left (p := JobManager.create (environmentProviderJob (pendingRequest request.spec))) ?_
    refine not_guarded_bind_left ?_
    refine not_guarded_bind (checkCluster_can _ readableCluster fun _ => trivial) ?_
    rintro _ rfl
    have hsecrets : (envVarListFrom (pendingRequest request.spec)).Can (free (RequestReads request.spec))
        (fun e _ => e = none) () := by
      refine Can.bind (getPointer_value (v := some request.spec.config.encryptionKey) rfl hkey) ?_
      rintro _ _ ⟨_, rfl⟩
      refine Can.bind (getPointer_value hetos hetos') ?_
      rintro _ _ ⟨_, rfl⟩
      refine Can.bind (getPointer_value heiffel heiffel') ?_
      rintro _ _ ⟨_, rfl⟩
      rfl
    refine not_guarded_bind hsecrets ?_
    rintro _ rfl
    refine not_guarded_call (.ok readyProvider) trivial ?_
    refine not_guarded_call (.ok readyProvider) trivial ?_
    refine not_guarded_call (.ok readyProvider) trivial ?_
    have hnone : (pendingRequest request.spec).spec.image = none := himage
    simp only [Prog.bind, hnone]
    exact fun hg => hg (by decide)
  exact hpath (h "request")

end

namespace TestRunReconciler

/-- A TestRun as a reconciler with a tracer finds it when its suite runner job is missing. -/
def waitingTestRun (spec : TestRunSpec) : TestRun :=
  { metadata := { name := "testrun", annotations := [(traceparentKey, "")] }
    spec := spec.marshalled
    status :=
      { conditions :=
          [{ type := .environment, status := .true, reason := .completed, message := "Environment ready" },
            suiteRunnerCondition .false .pending "Reconciliation started"] } }

/-- The way of a reconcile to the environment requests. -/
theorem not_processed_of_reconcile {spec : TestRunSpec}
    (h : ¬ NoNilImage true spec (reconcile readableCluster (waitingTestRun spec)) fun _ => True) :
    ¬ Processed spec := by
  intro hp
  have hpath : ¬ NoNilImage true spec ((⟨true, fun _ => ""⟩ : TestRunReconciler).Reconcile "testrun")
      fun _ => True := by
    refine not_guarded_call (.ok (waitingTestRun spec)) (.inr ⟨rfl, rfl⟩) ?_
    refine not_guarded_call (o := (Kube.Op.get .cluster spec.cluster : Op)) (.ok readableCluster) ⟨_, _, rfl⟩ ?_
    refine not_guarded_call (.ok ()) trivial ?_
    exact not_guarded_bind_left (p := reconcile readableCluster (waitingTestRun spec)) h
  exact hpath (hp ⟨true, fun _ => ""⟩ _)

/-- Requests that are there for every suite and test runner. -/
def allRequests (suites : List Suite) : List EnvironmentRequest :=
  suites.flatMap fun suite => (testrunners suite).map fun testrunner =>
    { metadata := { name := "request" }
      spec := { name := suite.name, providers := { executionSpace := { testRunnerImage := testrunner } } }
      status := {} }

theorem requestFound_all {suites : List Suite} {suite : Suite} {testrunner : String} (hsuite : suite ∈ suites)
    (ht : testrunner ∈ testrunners suite) : requestFound suite testrunner (allRequests suites) = true := by
  refine List.any_eq_true.mpr ⟨_, List.mem_flatMap.mpr ⟨suite, hsuite, List.mem_map.mpr ⟨testrunner, ht, rfl⟩⟩, ?_⟩
  simp

theorem createRequests_found {suite : Suite} {requests : List EnvironmentRequest} {testrun : TestRun}
    {cluster : Cluster} {order : List String} (h : ∀ t ∈ order, requestFound suite t requests = true) :
    createRequests suite requests testrun cluster order = .ret none := by
  induction order with
  | nil => rfl
  | cons t rest ih =>
      unfold createRequests
      rw [if_pos (h t List.mem_cons_self)]
      exact ih fun t ht => h t (List.mem_cons_of_mem _ ht)

/-- With these requests nothing is created. -/
theorem createForSuites_found {allowed : (o : Op) → Ans o → Prop} {requests : List EnvironmentRequest}
    {testrun : TestRun} {cluster : Cluster} {suites : List Suite}
    (hext : ∀ keys order, allowed (.ext (.rangeKeys keys)) order)
    (h : ∀ suite ∈ suites, ∀ t ∈ testrunners suite, requestFound suite t requests = true) :
    (createForSuites requests testrun cluster suites).Can (free allowed) (fun err _ => err = none) () := by
  induction suites with
  | nil => rfl
  | cons suite suites ih =>
      refine ⟨⟨testrunners suite, .refl _⟩, (), hext _ _, ?_⟩
      simp only [Prog.bind]
      rw [createRequests_found (h suite List.mem_cons_self)]
      exact ih fun s hs => h s (List.mem_cons_of_mem _ hs)

/-- A step that changes nothing leads to the next one. -/
theorem not_andThen {tracer : Bool} {spec : TestRunSpec} {step : M Outcome} {t : TestRun}
    {rest : TestRun → M (TestRun × Option Err)}
    (h : step.Can (free (TestRunReads tracer spec)) (fun out _ => out = ⟨t, false, none⟩) ())
    (hrest : ¬ NoNilImage tracer spec (rest t) fun _ => True) :
    ¬ NoNilImage tracer spec (andThen step rest) fun _ => True := by
  refine not_guarded_bind h ?_
  rintro _ rfl
  exact hrest

/-- A suite runner without an image takes the reconciler down. -/
theorem not_processed_of_suiteRunner {spec : TestRunSpec} {e : EmbeddedImage} (hs : spec.suiteRunner = some e)
    (hi : e.marshalled.image = none) : ¬ Processed spec := by
  refine not_processed_of_reconcile ?_
  refine not_guarded_bind (checkProviders_can _ readyProvider (by decide) fun _ => trivial) ?_
  rintro _ rfl
  have hrequests : (reconcileEnvironmentRequest readableCluster (waitingTestRun spec)).Can
      (free (TestRunReads true spec)) (fun out _ => out = ⟨{ waitingTestRun spec with status :=
        { (waitingTestRun spec).status with
          environmentRequests := (allRequests spec.suites).map requestReference } }, false, none⟩) () := by
    refine ⟨.ok (allRequests spec.suites), (), trivial, ?_⟩
    refine (createForSuites_found (fun _ _ => trivial) fun suite hsuite t ht => requestFound_all hsuite ht).bind ?_
    rintro _ _ rfl
    simp only
    rw [failOnRequest_eq]
    · rfl
    · intro r hr
      obtain ⟨_, _, hr⟩ := List.mem_flatMap.mp hr
      obtain ⟨_, _, rfl⟩ := List.mem_map.mp hr
      rfl
  refine not_andThen hrequests (not_andThen ⟨.ok [], (), trivial, rfl⟩ ?_)
  refine not_guarded_bind (status_can _ fun _ => trivial) ?_
  rintro ⟨manager, _⟩ rfl
  refine not_guarded_bind_left (p := reconcileSuiteRunner _ manager .none) ?_
  refine not_guarded_bind_left (p := JobManager.create (suiteRunnerJob _)) (not_guarded_bind_left ?_)
  refine not_guarded_call (o := (Kube.Op.get .cluster spec.cluster : Op)) (.ok readableCluster) ⟨_, _, rfl⟩ ?_
  have hrunner : (waitingTestRun spec).spec.suiteRunner = some e.marshalled :=
    congrArg (Option.map EmbeddedImage.marshalled) hs
  simp only [Prog.bind, hrunner, hi]
  exact fun hg => hg (by decide)

/-- What is asked for is made from the environment provider and the cluster. -/
theorem environmentRequest_path {allowed : (o : Op) → Ans o → Prop} {testrun : TestRun} {e : EmbeddedImage}
    (hr : testrun.spec.testRunner ≠ none) (he : testrun.spec.environmentProvider = some e)
    (hext : ∀ x a, allowed (.ext x) a) (n t : String) (tests : List Test) (dataset : Option Json) :
    (environmentRequest n t readableCluster testrun tests dataset).Can (free allowed) (fun request _ =>
      request.spec.image = e.image ∧ request.spec.config.encryptionKey = { value := "secret" } ∧
        request.spec.config.etosMessageBus.password = some { value := "secret" } ∧
        request.spec.config.eiffelMessageBus.password = some { value := "secret" }) () := by
  refine ⟨(0 : Int), (), hext _ _, "", (), hext _ _, ?_⟩
  obtain ⟨testRunner, hr⟩ := Option.ne_none_iff_exists'.mp hr
  simp only [Prog.bind, hr, he]
  exact ⟨rfl, rfl, rfl, rfl⟩

/-- Requests for a suite with tests ask for the image of the environment provider. -/
theorem createRequests_unprocessed {spec : TestRunSpec} {testrun : TestRun} {e : EmbeddedImage} {suite : Suite}
    (hr : testrun.spec.testRunner ≠ none) (he : testrun.spec.environmentProvider = some e)
    (hi : Image.marshalled e.image = none) {order : List String} (hne : order ≠ []) :
    ¬ NoNilImage true spec (createRequests suite [] testrun readableCluster order) fun _ => True := by
  obtain ⟨testrunner, rest, rfl⟩ := List.exists_cons_of_ne_nil hne
  unfold createRequests
  rw [if_neg (by simp [requestFound])]
  refine not_guarded_bind (environmentRequest_path hr he (fun _ _ => trivial) _ _ _ _) ?_
  rintro request ⟨himage, hkey, hetos, heiffel⟩ hg
  refine not_requestProcessed ?_ ?_ hetos (by decide) heiffel (by decide) hg.1
  · show Image.marshalled request.spec.image = none
    rw [himage]
    exact hi
  · show request.spec.config.encryptionKey.value ≠ ""
    rw [hkey]
    decide

theorem createForSuites_unprocessed {spec : TestRunSpec} {testrun : TestRun} {e : EmbeddedImage}
    (hr : testrun.spec.testRunner ≠ none) (he : testrun.spec.environmentProvider = some e)
    (hi : Image.marshalled e.image = none) {suites : List Suite} (hs : ∃ suite ∈ suites, suite.tests ≠ []) :
    ¬ NoNilImage true spec (createForSuites [] testrun readableCluster suites) fun _ => True := by
  induction suites with
  | nil =>
      obtain ⟨suite, hmem, _⟩ := hs
      cases hmem
  | cons suite suites ih =>
      by_cases htests : suite.tests = []
      · have hnone : (createEnvironmentRequests suite [] testrun readableCluster).Can
            (free (TestRunReads true spec)) (fun err _ => err = none) () := by
          refine ⟨⟨testrunners suite, .refl _⟩, (), trivial, ?_⟩
          simp only [Prog.bind, testrunners_eq_nil.mpr htests]
          rfl
        refine not_guarded_bind hnone ?_
        rintro _ rfl
        refine ih ?_
        obtain ⟨s, hmem, hs⟩ := hs
        rcases List.mem_cons.mp hmem with rfl | hmem
        · exact absurd htests hs
        · exact ⟨s, hmem, hs⟩
      · refine not_guarded_bind_left (p := createEnvironmentRequests suite [] testrun readableCluster) ?_
        refine not_guarded_call ⟨testrunners suite, .refl _⟩ trivial ?_
        exact createRequests_unprocessed hr he hi (mt testrunners_eq_nil.mp htests)

/-- So does an environment provider without an image, if there is a test to run. -/
theorem not_processed_of_environmentProvider {spec : TestRunSpec} {e : EmbeddedImage}
    (hr : spec.testRunner ≠ none) (he : spec.environmentProvider = some e) (hi : e.marshalled.image = none)
    (hs : ∃ suite ∈ spec.suites, suite.tests ≠ []) : ¬ Processed spec := by
  refine not_processed_of_reconcile ?_
  refine not_guarded_bind (checkProviders_can _ readyProvider (by decide) fun _ => trivial) ?_
  rintro _ rfl
  refine not_guarded_bind_left (p := reconcileEnvironmentRequest readableCluster (waitingTestRun spec))
    fun hg => ?_
  have hg := hg.2 (.ok []) trivial
  refine not_guarded_bind_left (p := createForSuites [] _ readableCluster spec.suites) ?_ hg
  refine createForSuites_unprocessed hr (e := e.marshalled) ?_ ?_ hs
  · show spec.environmentProvider.map EmbeddedImage.marshalled = _
    rw [he]
    rfl
  · show e.marshalled.marshalled.image = none
    rw [EmbeddedImage.marshalled_marshalled]
    exact hi

end TestRunReconciler

/-! ## Admission -/

/-- What comes from the cluster has an image. -/
theorem imageGiven_fromCluster {cluster : Option Cluster} {field : Option EmbeddedImage} {service : Service}
    {image : ClusterSpec → Image} :
    ImageGiven (fromCluster cluster field fun c => serviceImage service (image c)) ↔ ImageGiven field := by
  unfold fromCluster
  split
  · refine iff_of_true ?_ nofun
    rintro e he
    obtain rfl := Option.some.inj he
    rw [serviceImage_marshalled]
    nofun
  · exact Iff.rfl

/-- **When an admitted TestRun is processed without a nil image.** Exactly if the user supplied no suite runner without
    an image and a pull policy and, if there is a test to run, no such environment provider. -/
theorem admitted_deref_iff {cfg : Config} {reads : DefaultReads} {testrun admitted : TestRun}
    (h : Admits cfg reads testrun admitted) :
    Processed admitted.spec ↔ ImageGiven testrun.spec.suiteRunner ∧
      ((∃ suite ∈ testrun.spec.suites, suite.tests ≠ []) → ImageGiven testrun.spec.environmentProvider) := by
  obtain ⟨rfl, hvalid⟩ := h
  obtain ⟨hsr, hep, htr⟩ := pointers_of_valid hvalid
  have hsuite : ImageGiven testrun.spec.suiteRunner ↔
      ImageGiven (TestRunCustomDefaulter.Default cfg reads testrun).spec.suiteRunner := imageGiven_fromCluster.symm
  have hprovider : ImageGiven testrun.spec.environmentProvider ↔
      ImageGiven (TestRunCustomDefaulter.Default cfg reads testrun).spec.environmentProvider :=
    imageGiven_fromCluster.symm
  rw [hsuite, hprovider]
  constructor
  · intro hp
    constructor
    · intro e he hi
      exact TestRunReconciler.not_processed_of_suiteRunner he hi hp
    · intro hs e he hi
      exact TestRunReconciler.not_processed_of_environmentProvider htr he hi hs hp
  · rintro ⟨hs, hp⟩
    exact TestRunReconciler.processed_of_usable ⟨htr, hep, hsr, hs, hp⟩

/-- The services ETOS comes with. -/
def someConfig : Config :=
  { suiteRunner := ⟨"suite-runner", "1"⟩
    logListener := ⟨"log-listener", "1"⟩
    testRunner := ⟨"test-runner", "1"⟩
    environmentProvider := ⟨"environment-provider", "1"⟩ }

/-- A namespace with one cluster. -/
def someReads : DefaultReads :=
  { namespace_ := "default"
    listClusters := .ok [readableCluster]
    getCluster := fun _ => .ok readableCluster
    listProviders := fun _ _ => .ok []
    newUUID := "8a3bd8b6-5c5b-4b5f-9c1d-0f0f5f9b2f10"
    now := 0 }

/-- A TestRun that names its providers. -/
def submitted (suiteRunner : Option EmbeddedImage) : TestRun :=
  { metadata := { name := "testrun" }
    spec := { suiteRunner := suiteRunner, providers := ⟨"iut", "log-area", "execution-space"⟩ }
    status := {} }

theorem admits_submitted (suiteRunner : Option EmbeddedImage) :
    Admits someConfig someReads (submitted suiteRunner)
      (TestRunCustomDefaulter.Default someConfig someReads (submitted suiteRunner)) := by
  refine ⟨rfl, ?_⟩
  cases suiteRunner <;> rfl

/-- A TestRun that leaves its services to the cluster is processed. -/
theorem submitted_processed :
    Processed (TestRunCustomDefaulter.Default someConfig someReads (submitted none)).spec :=
  (admitted_deref_iff (admits_submitted none)).mpr ⟨nofun, fun ⟨_, h, _⟩ => nomatch h⟩

/-- **An empty suite runner is admitted, and takes the controller down.** -/
theorem empty_suiteRunner_deref :
    ∃ admitted, Admits someConfig someReads (submitted (some {})) admitted ∧ ¬ Processed admitted.spec :=
  ⟨_, admits_submitted _, TestRunReconciler.not_processed_of_suiteRunner rfl rfl⟩

end Etos
