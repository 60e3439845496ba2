import Etos.Controller.Resource
import Etos.Operator.System
import Etos.Prog.Trace
import Etos.Webhook.Defaulter
import Etos.Webhook.Provider

/-!
# `Webhook.TestRun` — admission of TestRuns

`internal/webhook/v1alpha1/testrun_webhook.go`, with what it uses of `internal/config`, and the message buses of
`cluster_webhook.go`. `Default` fills in what a TestRun leaves out from the cluster it runs in; `validate` refuses a
TestRun that still lacks something afterwards.

The objects are decoded from JSON before the webhook sees them. `SuiteRunner`, `LogListener` and `EnvironmentProvider`
embed an `*Image` inline: the pointer stays nil when none of the fields of the image is present, and since both are
`omitempty`, a Go client that writes an empty image leaves none of them (`Image.marshalled`).

The store leaves open how the webhooks know what they read. **`webhooks_admit`** compares what it admits with what the
defaulters return.
-/

namespace Etos

open Kube

/-! ## Embedded images in JSON -/

/-- What is left of an embedded image that a Go client writes. -/
def Image.marshalled : Option Image → Option Image
  | none => none
  | some image => if image.image = "" ∧ image.imagePullPolicy = "" then none else some image

def EmbeddedImage.marshalled (e : EmbeddedImage) : EmbeddedImage := ⟨Image.marshalled e.image⟩

def TestRunSpec.marshalled (spec : TestRunSpec) : TestRunSpec :=
  { spec with
    suiteRunner := spec.suiteRunner.map EmbeddedImage.marshalled
    logListener := spec.logListener.map EmbeddedImage.marshalled
    environmentProvider := spec.environmentProvider.map EmbeddedImage.marshalled }

def EnvironmentRequestSpec.marshalled (spec : EnvironmentRequestSpec) : EnvironmentRequestSpec :=
  { spec with image := Image.marshalled spec.image }

/-! ## `internal/config` -/

/-- The services of `config.Config` that TestRuns are defaulted from. -/
structure Config where
  suiteRunner : Service
  logListener : Service
  testRunner : Service
  environmentProvider : Service

/-- The image of a service, as a cluster configures it. -/
def serviceImage (service : Service) (image : Image) : EmbeddedImage :=
  ⟨some { image := ImageOrDefault service image, imagePullPolicy := PullPolicyOrDefault image }⟩

/-! ## `TestRunCustomDefaulter` -/

/-- What `Default` reads. -/
structure DefaultReads where
  namespace_ : String
  listClusters : Except Err (List Cluster)
  getCluster : String → Except Err Cluster
  listProviders : String → String → Except Err (List NamespacedProvider)
  newUUID : String
  now : Int

/-- The cluster of a TestRun: its name, and the object. A cluster that is named but cannot be read is an empty one. -/
def findCluster (reads : DefaultReads) (name : String) : String × Option Cluster :=
  if name = "" then
    match reads.listClusters with
    | .ok [cluster] => (cluster.name, some cluster)
    | _ => ("", none)
  else
    match reads.getCluster name with
    | .ok cluster => (name, some cluster)
    | .error _ => (name, some { metadata := { name := "" }, spec := {}, status := () })

/-- A field that is nil is taken from the cluster, if there is one. -/
def fromCluster {α : Type} (cluster : Option Cluster) (field : Option α) (default : ClusterSpec → α) : Option α :=
  match field, cluster with
  | none, some cluster => some (default cluster.spec)
  | field, _ => field

/-- A provider that is not named is the default of its type, if there is one. -/
def providerOrDefault (reads : DefaultReads) (name providerType : String) : String :=
  if name = "" then
    match findDefaultProvider reads.listProviders reads.namespace_ providerType with
    | .ok name => name
    | .error _ => name
  else name

/-- The id label, unless there is one. -/
def withIdLabel (labels : StrMap) (id : String) : StrMap := if labels.has idLabel then labels else labels.set idLabel id

/-- `TestRunCustomDefaulter.Default`. -/
def TestRunCustomDefaulter.Default (cfg : Config) (reads : DefaultReads) (testrun : TestRun) : TestRun :=
  let spec := testrun.spec
  let id := if spec.id = "" then reads.newUUID else spec.id
  let (clusterName, cluster) := findCluster reads spec.cluster
  { testrun with
    metadata := { testrun.metadata with labels := withIdLabel testrun.metadata.labels id }
    spec :=
      { spec with
        id := id
        cluster := clusterName
        suiteRunner := fromCluster cluster spec.suiteRunner fun c => serviceImage cfg.suiteRunner c.suiteRunner
        logListener := fromCluster cluster spec.logListener fun c => serviceImage cfg.logListener c.logListener
        environmentProvider := fromCluster cluster spec.environmentProvider fun c =>
          serviceImage cfg.environmentProvider c.environmentProvider
        testRunner := fromCluster cluster spec.testRunner fun c =>
          ⟨VersionOrDefault cfg.testRunner c.testRunnerVersion⟩
        providers :=
          { iut := providerOrDefault reads spec.providers.iut "iut"
            executionSpace := providerOrDefault reads spec.providers.executionSpace "execution-space"
            logArea := providerOrDefault reads spec.providers.logArea "log-area" }
        deadline := if spec.deadline = 0 then unixSeconds reads.now + spec.timeout else spec.deadline } }

/-! ## `TestRunCustomValidator` -/

/-- `field.Invalid`: the path, the value as it is printed, and the detail. -/
structure FieldError where
  field : String
  value : String
  detail : String

/-- `field.Error.Error()`. -/
def FieldError.text (e : FieldError) : String :=
  e.field ++ ": Invalid value: \"" ++ e.value ++ "\": " ++ e.detail

/-- The error for a string that must not be empty. -/
def requireValue (field value detail : String) : List FieldError :=
  if value = "" then [⟨field, value, detail⟩] else []

/-- The error for a pointer that must not be nil. -/
def requirePointer {α : Type} (field : String) (value : Option α) (detail : String) : List FieldError :=
  match value with
  | none => [⟨field, "null", detail⟩]
  | some _ => []

/-- The detail for a provider that is missing. -/
def providerMissing (name providerType : String) : String :=
  name ++ " provider is missing, either specify it explicitly or ensure a default provider (labeled " ++
    defaultLabel ++ "=true) of type '" ++ providerType ++ "' exists in the namespace"

/-- What `validate` finds wrong. -/
def invalidFields (testrun : TestRun) : List FieldError :=
  requireValue "spec.cluster" testrun.spec.cluster
      "Cluster is missing, either no cluster exists in namespace or too many to choose from" ++
    requirePointer "spec.suiteRunner" testrun.spec.suiteRunner
      "SuiteRunner image information is missing, maybe because cluster is missing?" ++
    requirePointer "spec.environmentProvider" testrun.spec.environmentProvider
      "EnvironmentProvider image information is missing, maybe because cluster is missing?" ++
    requirePointer "spec.testRunner" testrun.spec.testRunner
      "TestRunner version information is missing, maybe because cluster is missing?" ++
    requireValue "spec.providers.iut" testrun.spec.providers.iut (providerMissing "IUT" "iut") ++
    requireValue "spec.providers.executionSpace" testrun.spec.providers.executionSpace
      (providerMissing "Execution space" "execution-space") ++
    requireValue "spec.providers.logArea" testrun.spec.providers.logArea (providerMissing "Log area" "log-area")

/-- The texts of several errors, as `errors.Aggregate` prints them. -/
def aggregateText : List String → String
  | [text] => text
  | texts => "[" ++ String.intercalate ", " texts ++ "]"

/-- `TestRunCustomValidator.validate`. -/
def TestRunCustomValidator.validate (testrun : TestRun) : Option Err :=
  if (invalidFields testrun).isEmpty then none
  else some
    { reason := some .invalid
      text := "TestRun.etos.eiffel-community.github.io \"" ++ testrun.name ++ "\" is invalid: " ++
        aggregateText ((invalidFields testrun).map FieldError.text) }

/-- The TestRun is admitted, as `admitted`. -/
def Admits (cfg : Config) (reads : DefaultReads) (testrun admitted : TestRun) : Prop :=
  admitted = TestRunCustomDefaulter.Default cfg reads testrun ∧ TestRunCustomValidator.validate admitted = none

/-! ## `ClusterCustomDefaulter` -/

namespace ClusterCustomDefaulter

/-- The address of a service of the Cluster. -/
def serviceHost (namespace_ : String) (cluster : Cluster) (service : String) : String :=
  cluster.name ++ "-" ++ service ++ "." ++ namespace_ ++ ".svc.cluster.local"

/-- A URL of the configuration: that of the ingress if there is one, else that of the service unless it is set. -/
def serviceURL (namespace_ : String) (cluster : Cluster) (service path url : String) : String :=
  let ingress := cluster.spec.ingress
  let scheme := if ingress.ssl then "https" else "http"
  if ingress.enabled then scheme ++ "://" ++ ingress.host ++ path
  else if url = "" then "http://" ++ serviceHost namespace_ cluster service ++ path
  else url

/-- `Default`. -/
def Default (namespace_ : String) (cluster : Cluster) : Cluster :=
  let host := serviceHost namespace_ cluster
  let etcd := (cluster.spec.database.getD {}).etcd
  let eventRepository := { host := "http://" ++ host "graphql" ++ ":5000/graphql" }
  let config := cluster.spec.config
  { cluster with spec :=
      { cluster.spec with
        etosMessageBus := some (cluster.spec.etosMessageBus.getD { host := host "messagebus" })
        eiffelMessageBus := some (cluster.spec.eiffelMessageBus.getD { host := host "rabbitmq" })
        database := some
          { etcd :=
              { host := if etcd.host = "" then host "etcd-client" else etcd.host
                port := if etcd.port = "" then "2379" else etcd.port } }
        eventRepository := some (cluster.spec.eventRepository.getD eventRepository)
        config :=
          { config with
            etosApiURL := serviceURL namespace_ cluster "etos-api" "/api" config.etosApiURL
            etosSseURL := serviceURL namespace_ cluster "etos-sse" "/sse" config.etosSseURL } } }

end ClusterCustomDefaulter

/-! ## What admission guarantees -/

theorem requirePointer_nil {α : Type} {field detail : String} {value : Option α}
    (h : requirePointer field value detail = []) : value ≠ none := by
  cases value with
  | none => cases h
  | some _ => nofun

/-- The pointers `validate` checks are not nil. -/
theorem pointers_of_valid {testrun : TestRun} (h : TestRunCustomValidator.validate testrun = none) :
    testrun.spec.suiteRunner ≠ none ∧ testrun.spec.environmentProvider ≠ none ∧ testrun.spec.testRunner ≠ none := by
  unfold TestRunCustomValidator.validate at h
  split at h
  · rename_i hempty
    simp only [invalidFields, List.isEmpty_iff, List.append_eq_nil_iff] at hempty
    obtain ⟨⟨⟨⟨⟨⟨_, hsr⟩, hep⟩, htr⟩, _⟩, _⟩, _⟩ := hempty
    exact ⟨requirePointer_nil hsr, requirePointer_nil hep, requirePointer_nil htr⟩
  · cases h

theorem serviceImage_marshalled (service : Service) (image : Image) :
    (serviceImage service image).marshalled = serviceImage service image := by
  have hne : ImageOrDefault service image ≠ "" := by
    unfold ImageOrDefault
    split
    · assumption
    · intro h
      have := congrArg String.length h
      simp only [String.length_append, String.length_empty] at this
      have hcolon : (":" : String).length = 1 := by decide
      omega
  simp [serviceImage, EmbeddedImage.marshalled, Image.marshalled, hne]

/-! ## The webhooks and the store

The store admits what `admission` allows. Here that is compared with what the defaulters do. -/

/-- What the defaulters make of an object that is created or updated. Environments, Providers, jobs and pods have
    none. -/
def webhook (cfg : Config) (reads : DefaultReads) : (k : Kind) → Obj k → M (Except Err (Obj k))
  | .resource r, o => ResourceCustomDefaulter.Default r o
  | .environmentRequest, o => do return .ok (← EnvironmentRequestCustomDefaulter.Default o)
  | .testRun, o => return .ok (TestRunCustomDefaulter.Default cfg reads o)
  | .cluster, o => return .ok (ClusterCustomDefaulter.Default reads.namespace_ o)
  | .environment, o => return .ok o
  | .provider, o => return .ok o
  | .job, o => return .ok o
  | .pod, o => return .ok o

/-- The requests that were read are known. -/
def Knowledge.Covers (knowledge : Knowledge) (s : Namespace) (log : Log) : Prop :=
  ∀ n x, Got log .environmentRequest n x → knowledge s n x

section

variable {knowledge : Knowledge} {s : Namespace} {log : Log}

/-- A resource is admitted exactly as its defaulter leaves it. -/
theorem admission_resource_iff {r : ResourceKind} {o o' : Resource r} : admission knowledge s (.resource r) o o' ↔
    ∃ log, (ResourceCustomDefaulter.Default r o).Returns (.ok o') log ∧ knowledge.Covers s log := by
  constructor
  · rintro ⟨request, hknown, rfl⟩
    refine ⟨[⟨.get .environmentRequest (r.common o.spec).environmentRequest, .ok request⟩],
      ⟨_, _, rfl, rfl, rfl⟩, ?_⟩
    intro n x hx
    cases List.mem_singleton.mp hx
    exact hknown
  · rintro ⟨_, ⟨a, rest, rfl, hrest⟩, hknown⟩
    cases a with
    | error e => cases hrest.1
    | ok request =>
        obtain ⟨heq, _⟩ := hrest
        exact ⟨request, hknown _ _ List.mem_cons_self, (Except.ok.inj heq).symm⟩

/-- What is asked for is asked for only where it is missing. -/
theorem EnvironmentRequestSpec.defaulted_congr {spec : EnvironmentRequestSpec} {id id' : String} {now now' : Int}
    (hid : spec.id = "" → id = id') (hnow : spec.deadline = 0 → now = now') :
    spec.defaulted id now = spec.defaulted id' now' := by
  unfold EnvironmentRequestSpec.defaulted
  congr 1
  · split
    · rename_i h
      exact hid h
    · rfl
  · split
    · rename_i h
      rw [hnow h]
    · rfl

theorem unixSeconds_mul (now : Int) : unixSeconds (now * 1000000000) = now :=
  Int.mul_ediv_cancel now (by decide)

/-- So is a request, with an id and a deadline that it is given where it has none. -/
theorem admission_request_iff {o o' : EnvironmentRequest} : admission knowledge s .environmentRequest o o' ↔
    ∃ log, (EnvironmentRequestCustomDefaulter.Default o).Returns o' log ∧ knowledge.Covers s log := by
  unfold EnvironmentRequestCustomDefaulter.Default
  constructor
  · rintro ⟨id, now, rfl⟩
    by_cases hid : o.spec.id = "" <;> by_cases hdeadline : o.spec.deadline = 0
    · refine ⟨[⟨.ext .newUUID, id⟩, ⟨.ext .timeNow, now * 1000000000⟩], ?_, by simp [Knowledge.Covers, Got]⟩
      simp only [if_pos hid, if_pos hdeadline]
      refine ⟨_, _, rfl, _, _, rfl, ?_, rfl⟩
      rw [unixSeconds_mul]
    · refine ⟨[⟨.ext .newUUID, id⟩], ?_, by simp [Knowledge.Covers, Got]⟩
      simp only [if_pos hid, if_neg hdeadline]
      refine ⟨_, _, rfl, ?_, rfl⟩
      rw [EnvironmentRequestSpec.defaulted_congr (fun _ => rfl) fun h => absurd h hdeadline]
    · refine ⟨[⟨.ext .timeNow, now * 1000000000⟩], ?_, by simp [Knowledge.Covers, Got]⟩
      simp only [if_neg hid, if_pos hdeadline]
      refine ⟨_, _, rfl, ?_, rfl⟩
      rw [unixSeconds_mul, EnvironmentRequestSpec.defaulted_congr (fun h => absurd h hid) fun _ => rfl]
    · refine ⟨[], ?_, by simp [Knowledge.Covers, Got]⟩
      simp only [if_neg hid, if_neg hdeadline]
      refine ⟨?_, rfl⟩
      rw [EnvironmentRequestSpec.defaulted_congr (fun h => absurd h hid) fun h => absurd h hdeadline]
  · rintro ⟨log, hreturns, -⟩
    have hlast : ∀ id log, Prog.Returns (if o.spec.deadline = 0 then M.ext .timeNow >>= fun now =>
        pure { o with spec := o.spec.defaulted id (unixSeconds now) }
        else pure { o with spec := o.spec.defaulted id (unixSeconds 0) }) o' log →
        ∃ id now, o' = { o with spec := o.spec.defaulted id now } := by
      intro id log h
      split at h
      · obtain ⟨now, rest, -, heq, -⟩ := h
        exact ⟨id, unixSeconds now, heq.symm⟩
      · exact ⟨id, unixSeconds 0, h.1.symm⟩
    dsimp only at hreturns
    split at hreturns
    · obtain ⟨id, rest, -, hrest⟩ := hreturns
      exact hlast id rest hrest
    · exact hlast "" log hreturns

end

end Etos
