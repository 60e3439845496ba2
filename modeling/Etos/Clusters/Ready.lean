import Etos.Clusters.Reconcile

/-!
# `Clusters.Ready` — what it means that a cluster is ready

- **`ready_means_as_specified`**: where a pass writes `Ready=True`, it has seen in this very pass that every StatefulSet
  and every Deployment of the cluster is as specified: those that are to be deployed have all their replicas, or have
  rolled out, and the others are gone.
- **`rests_only_when_ready`**: a pass that does not ask for another one has found no cluster, or it has seen the same
  and `Ready=True` is stored.

The answers of the API server are arbitrary. What a component has seen when it returns without an error is a property of
its log (`Shows`), and is stated once for StatefulSets and once for Deployments.
-/

namespace Etos.Clusters

open Kube Services Extras Prog

variable {Pod : Type}

/-! ## Workloads -/

/-- What runs the pods of a cluster. -/
inductive Workload where
  | statefulSet (name : String)
  | deployment (name : String)
  deriving DecidableEq

/-- The workloads of a cluster, and whether they are to be deployed. -/
def Cluster.workloads {lib : Library Pod} (cluster : Cluster lib) : List (Workload × Bool) :=
  let name := cluster.values.name
  (cluster.eiffelMessageBus.rabbitmq.toList.map fun r => (.statefulSet (name ++ "-rabbitmq"), r.deploy)) ++
    (cluster.etosMessageBus.rabbitmq.toList.map fun r => (.statefulSet (name ++ "-messagebus"), r.deploy)) ++
    (cluster.eventRepository.toList.flatMap fun r =>
      [(.statefulSet (name ++ "-mongodb"), r.deploy && r.database.deploy),
        (.deployment (name ++ "-graphql"), r.deploy)]) ++
    (cluster.database.toList.map fun r => (.statefulSet (name ++ "-etcd"), r.deploy)) ++
    [(.deployment (name ++ "-etos-api"), true), (.deployment (name ++ "-etos-sse"), true),
      (.deployment (name ++ "-etos-logarea"), true), (.deployment (name ++ "-etos-suite-starter"), true)]

/-- What the components have said. -/
abbrev ComponentLog (Pod : Type) := List (Said (ComponentOp Pod) (ComponentAns Pod))

/-- The latest pods have been rolled out. -/
def rolledOut (deployment : Deployment Pod) : Prop :=
  ∃ c, deployment.conditions.find? (fun c => c.type = "Progressing") = some c ∧ c.reason = "NewReplicaSetAvailable"

/-- The API server has answered that the workload is up. -/
def Up (l : ComponentLog Pod) : Workload → Prop
  | .statefulSet name => ∃ target original spec readyReplicas,
      ⟨.extras (.patch .statefulSet name target original), .ok (spec, readyReplicas)⟩ ∈ l ∧
        spec.replicas.getD 1 ≤ readyReplicas
  | .deployment name => ∃ deployment, ⟨.services (.getDeployment name), .ok deployment⟩ ∈ l ∧ rolledOut deployment

/-- The API server has answered that there is no such workload, or that it has been deleted. -/
def Gone (l : ComponentLog Pod) : Workload → Prop
  | .statefulSet name => (∃ e, ⟨.extras (.get .statefulSet name), .error e⟩ ∈ l ∧ e.isNotFound = true) ∨
      ⟨.extras (.delete .statefulSet name), .ok ()⟩ ∈ l
  | .deployment name => (∃ e, ⟨.services (.getDeployment name), .error e⟩ ∈ l ∧ e.isNotFound = true) ∨
      ⟨.deleteDeployment name, .ok ()⟩ ∈ l

/-- The workload is as specified. -/
def AsSpecified (l : ComponentLog Pod) (w : Workload × Bool) : Prop := if w.2 then Up l w.1 else Gone l w.1

section Evidence

variable {l l' : ComponentLog Pod} {w : Workload × Bool}

/-- What was seen stays seen. -/
theorem AsSpecified.mono (h : AsSpecified l w) (hsub : ∀ e ∈ l, e ∈ l') : AsSpecified l' w := by
  unfold AsSpecified at h ⊢
  obtain ⟨w, deploy⟩ := w
  cases deploy with
  | true =>
      cases w with
      | statefulSet name =>
          obtain ⟨target, original, spec, readyReplicas, hsaid, hready⟩ := h
          exact ⟨target, original, spec, readyReplicas, hsub _ hsaid, hready⟩
      | deployment name =>
          obtain ⟨deployment, hsaid, hready⟩ := h
          exact ⟨deployment, hsub _ hsaid, hready⟩
  | false =>
      cases w with
      | statefulSet name | deployment name =>
          rcases h with ⟨e, hsaid, he⟩ | hsaid
          · exact .inl ⟨e, hsub _ hsaid, he⟩
          · exact .inr (hsub _ hsaid)

theorem lasting_asSpecified (w : Workload × Bool) : Lasting fun l : ComponentLog Pod => AsSpecified l w :=
  fun _ _ h => h.mono fun _ he => List.mem_cons_of_mem _ he

end Evidence

/-! ## StatefulSets and Deployments -/

theorem said_extras {l : List (Said (Extras.Op Pod) (Extras.Ans Pod))} {l' : ComponentLog Pod}
    (h : Embeds extrasEmbedding l l') {o : Extras.Op Pod} {a : Extras.Ans Pod o} (hsaid : ⟨o, a⟩ ∈ l) :
    (⟨.extras o, a⟩ : Said (ComponentOp Pod) (ComponentAns Pod)) ∈ l' := by
  obtain ⟨a', ha', rfl⟩ := h.mem hsaid
  exact ha'

theorem said_services {l : List (Said (Services.Op Pod) (Services.Ans Pod))} {l' : ComponentLog Pod}
    (h : Embeds servicesEmbedding l l') {o : Services.Op Pod} {a : Services.Ans Pod o} (hsaid : ⟨o, a⟩ ∈ l) :
    (⟨.services o, a⟩ : Said (ComponentOp Pod) (ComponentAns Pod)) ∈ l' := by
  obtain ⟨a', ha', rfl⟩ := h.mem hsaid
  exact ha'

section Shown

variable {name : String} {deploy restartRequired : Bool}

/-- What `reconcileStatefulset` has seen, wherever it is run. -/
theorem reconcileStatefulset_shows (p : Platform Pod) (target : StatefulSetSpec Pod) :
    Shows (reconcileStatefulset p deploy name target restartRequired) fun _ l =>
      ∀ l' : ComponentLog Pod, Embeds extrasEmbedding l l' → AsSpecified l' (.statefulSet name, deploy) := by
  unfold reconcileStatefulset
  refine shows_call ?_
  rintro (e | ⟨rabbitmq, ready⟩)
  · dsimp only
    split
    · exact shows_throw _
    rename_i hfound
    split
    · exact shows_bind_right fun _ => shows_bind_right fun _ => shows_throw _
    · rename_i hdeploy
      refine shows_pure ?_
      intro l hget l' hembeds
      rw [AsSpecified, if_neg hdeploy]
      exact .inl ⟨e, said_extras hembeds hget, by simpa using hfound⟩
  · dsimp only
    split
    · rename_i hdeploy
      refine shows_call ?_
      rintro (e | ⟨⟩)
      · exact shows_throw _
      · refine shows_pure ?_
        intro l hdelete hget l' hembeds
        rw [AsSpecified, if_neg (by simpa using hdeploy)]
        exact .inr (said_extras hembeds hdelete)
    · rename_i hdeploy
      refine shows_bind_right fun target' => shows_call ?_
      rintro (e | ⟨patched, readyReplicas⟩)
      · exact shows_throw _
      · -- what is returned is whether the answer says that it is ready
        intro l r hr hpatch hget l' hembeds
        unfold statefulSetReady at hr
        dsimp only at hr
        split at hr
        · cases hr
        rename_i hready
        rw [AsSpecified, if_pos (by simpa using hdeploy)]
        exact ⟨target', rabbitmq, patched, readyReplicas, said_extras hembeds hpatch, Int.not_lt.mp hready⟩

theorem rolledOut_of_ready {deployment : Deployment Pod} (h : deploymentReady name deployment = .ok ()) :
    rolledOut deployment := by
  unfold deploymentReady at h
  split at h
  · cases h
  rename_i condition hfind
  split at h
  · rename_i hreason
    exact ⟨condition, hfind, hreason⟩
  · cases h

/-- What `reconcileDeployment` of a service has seen, wherever it is run. -/
theorem reconcileDeployment_shows (m : Machinery Pod) (target : DeploymentSpec Pod) :
    Shows (reconcileDeployment m name target restartRequired) fun _ l =>
      ∀ l' : ComponentLog Pod, Embeds servicesEmbedding l l' → AsSpecified l' (.deployment name, true) := by
  unfold reconcileDeployment
  refine shows_call ?_
  rintro (e | deployment)
  · dsimp only
    split
    · exact shows_throw _
    · exact shows_bind_right fun _ => shows_bind_right fun _ => shows_throw _
  · dsimp only
    split
    · exact shows_bind_right fun _ => shows_bind_right fun _ => shows_bind_right fun _ => shows_throw _
    split
    · split
      · rename_i hready
        refine shows_pure ?_
        intro l hget l' hembeds
        exact ⟨deployment, said_services hembeds hget, rolledOut_of_ready hready⟩
      · exact shows_throw _
    · exact shows_bind_right fun _ => shows_bind_right fun _ => shows_throw _

/-- What `reconcileDeployment` of the event repository has seen. -/
theorem eventRepository_shows (lib : Library Pod) (r : EventRepositoryDeployment Pod) (target : DeploymentSpec Pod) :
    Shows (r.reconcileDeployment lib name target restartRequired) fun _ l =>
      AsSpecified l (.deployment name, r.deploy) := by
  unfold EventRepositoryDeployment.reconcileDeployment
  refine shows_call ?_
  rintro (e | deployment)
  · dsimp only
    split
    · exact shows_throw _
    rename_i hfound
    split
    · exact shows_bind_right fun _ => shows_bind_right fun _ => shows_throw _
    · rename_i hdeploy
      refine shows_pure ?_
      intro l hget
      rw [AsSpecified, if_neg hdeploy]
      exact .inl ⟨e, hget, by simpa using hfound⟩
  · dsimp only
    split
    · rename_i hdeploy
      refine shows_call ?_
      rintro (e | ⟨⟩)
      · exact shows_throw _
      · refine shows_pure ?_
        intro l hdelete hget
        rw [AsSpecified, if_neg (by simpa using hdeploy)]
        exact .inr hdelete
    rename_i hdeploy
    split
    · exact shows_bind_right fun _ => shows_bind_right fun _ => shows_bind_right fun _ => shows_throw _
    split
    · split
      · rename_i hready
        refine shows_pure ?_
        intro l hget
        rw [AsSpecified, if_pos (by simpa using hdeploy)]
        exact ⟨deployment, hget, rolledOut_of_ready hready⟩
      · exact shows_throw _
    · exact shows_bind_right fun _ => shows_bind_right fun _ => shows_throw _

end Shown

/-! ## Components -/

section Components

variable {lib : Library Pod} (cluster : ClusterName)

theorem rabbitmq_shows (p : Platform Pod) (r : RabbitMQDeployment Pod) :
    Shows (extras (r.reconcile p cluster)) fun _ l => ∀ rabbitmq ∈ r.rabbitmq,
      AsSpecified l (.statefulSet (RabbitMQDeployment.baseName cluster), rabbitmq.deploy) := by
  refine Shows.embedded ?_
  unfold RabbitMQDeployment.reconcile
  split
  · exact shows_throw _
  · rename_i rabbitmq heq
    refine (shows_bind_right fun _ => shows_bind_right fun _ => reconcileStatefulset_shows p _).post ?_
    intro _ l hl l' hembeds rabbitmq' hmem
    obtain rfl : rabbitmq = rabbitmq' := Option.some.inj (heq.symm.trans hmem)
    exact hl l' hembeds

theorem messagebus_shows (p : Platform Pod) (r : MessageBusDeployment Pod) :
    Shows (extras (r.reconcile p cluster)) fun _ l => ∀ rabbitmq ∈ r.rabbitmq,
      AsSpecified l (.statefulSet (MessageBusDeployment.baseName cluster), rabbitmq.deploy) := by
  refine Shows.embedded ?_
  unfold MessageBusDeployment.reconcile
  split
  · exact shows_throw _
  · rename_i rabbitmq heq
    refine (shows_bind_right fun _ => shows_bind_right fun _ => shows_bind_right fun _ =>
      reconcileStatefulset_shows p _).post ?_
    intro _ l hl l' hembeds rabbitmq' hmem
    obtain rfl : rabbitmq = rabbitmq' := Option.some.inj (heq.symm.trans hmem)
    exact hl l' hembeds

theorem mongodb_shows (r : MongoDBDeployment lib) :
    Shows (r.reconcile cluster) fun _ l =>
      AsSpecified l (.statefulSet (MongoDBDeployment.baseName cluster.name), r.deploy) := by
  unfold MongoDBDeployment.reconcile
  refine shows_bind_right fun url => shows_bind_right ?_
  rintro ⟨secret, restartRequired⟩
  exact shows_bind_right fun _ => shows_bind_right fun _ => (reconcileStatefulset_shows lib.platform _).embedded

theorem repository_shows (r : EventRepositoryDeployment Pod) :
    Shows (r.reconcile lib cluster) fun _ l =>
      AsSpecified l (.deployment (EventRepositoryDeployment.baseName cluster.name), r.deploy) := by
  unfold EventRepositoryDeployment.reconcile
  exact shows_bind_right fun _ => shows_bind_right fun _ => shows_bind_right fun _ => eventRepository_shows lib r _

theorem etcd_shows (r : ETCDDeployment Pod) :
    Shows (r.reconcile lib cluster) fun _ l =>
      AsSpecified l (.statefulSet (ETCDDeployment.baseName cluster.name), r.deploy) := by
  unfold ETCDDeployment.reconcile
  refine shows_bind_right fun _ => shows_bind_right fun _ => shows_bind_right fun _ => ?_
  exact (reconcileStatefulset_shows lib.platform _).embedded

theorem api_shows (m : Machinery Pod) (r : ETOSApiDeployment Pod) (values : ClusterValues) :
    Shows (services (r.reconcile m values))
      fun _ l => AsSpecified l (.deployment (values.name ++ "-etos-api"), true) := by
  refine Shows.embedded ?_
  unfold ETOSApiDeployment.reconcile
  exact shows_bind_right fun _ => shows_bind_right fun _ => shows_bind_right fun _ => shows_bind_right fun _ =>
    shows_bind_right fun _ => shows_bind_right fun _ => reconcileDeployment_shows m _

theorem sse_shows (m : Machinery Pod) (r : ETOSSSEDeployment Pod) (values : ClusterValues) :
    Shows (services (r.reconcile m values))
      fun _ l => AsSpecified l (.deployment (values.name ++ "-etos-sse"), true) := by
  refine Shows.embedded ?_
  unfold ETOSSSEDeployment.reconcile
  exact shows_bind_right fun _ => shows_bind_right fun _ => shows_bind_right fun _ => shows_bind_right fun _ =>
    shows_bind_right fun _ => reconcileDeployment_shows m _

theorem logarea_shows (m : Machinery Pod) (r : ETOSLogAreaDeployment Pod) (values : ClusterValues) :
    Shows (services (r.reconcile m values))
      fun _ l => AsSpecified l (.deployment (values.name ++ "-etos-logarea"), true) := by
  refine Shows.embedded ?_
  unfold ETOSLogAreaDeployment.reconcile
  exact shows_bind_right fun _ => shows_bind_right fun _ => reconcileDeployment_shows m _

theorem suitestarter_shows (m : Machinery Pod) (r : ETOSSuiteStarterDeployment Pod) (values : ClusterValues) :
    Shows (services (r.reconcile m values))
      fun _ l => AsSpecified l (.deployment (values.name ++ "-etos-suite-starter"), true) := by
  refine Shows.embedded ?_
  unfold ETOSSuiteStarterDeployment.reconcile
  exact shows_bind_right fun _ => shows_bind_right fun _ => shows_bind_right fun _ => shows_bind_right fun _ =>
    shows_bind_right fun _ => shows_bind_right fun _ => shows_bind_right fun _ => shows_bind_right fun _ =>
    shows_bind_right fun _ => shows_bind_right fun _ => shows_bind_right fun _ => reconcileDeployment_shows m _

end Components

/-! ## What is noted -/

section Notes

variable {Op ε : Type} {Ans : Op → Type}

/-- If nothing is noted in the end, nothing was before, and `E` has been seen. -/
def Notes (notReadyErr : Option String) (p : ExceptT ε (Prog Op Ans) (Option String))
    (E : List (Said Op Ans) → Prop) : Prop :=
  Shows p fun notReadyErr' l => notReadyErr' = none → notReadyErr = none ∧ E l

variable {p : ExceptT ε (Prog Op Ans) (Option String)} {f : Option String → ExceptT ε (Prog Op Ans) (Option String)}
  {E F : List (Said Op Ans) → Prop} {notReadyErr : Option String}

theorem Notes.bind (h : Notes notReadyErr p E) (hE : Lasting E) (hf : ∀ n, Notes n (f n) F) :
    Notes notReadyErr (p >>= f) fun l => E l ∧ F l := by
  have hlasting : ∀ n : Option String, Lasting fun l => n = none → notReadyErr = none ∧ E l :=
    fun _ l e hl hn => ⟨(hl hn).1, hE l e (hl hn).2⟩
  refine (Shows.bind h hlasting hf).post ?_
  rintro n' l ⟨n, hn, hn'⟩ hnone
  obtain ⟨hn', hF⟩ := hn' hnone
  obtain ⟨hnone', hE⟩ := hn hn'
  exact ⟨hnone', hE, hF⟩

theorem Notes.post (h : Notes notReadyErr p E) (hE : ∀ l, E l → F l) : Notes notReadyErr p F :=
  Shows.post h fun _ l hl hnone => ⟨(hl hnone).1, hE l (hl hnone).2⟩

theorem joinText_ne_none (notReadyErr : Option String) (text : String) : joinText notReadyErr text ≠ none := by
  unfold joinText
  split <;> exact Option.some_ne_none _

end Notes

section Etos

variable {notReadyErr : Option String} {p : Component Pod Unit} {E : ComponentLog Pod → Prop}

theorem noting_notes (h : Shows p fun _ => E) : Notes notReadyErr (ETOSDeployment.noting p notReadyErr) E := by
  intro l
  refine (h l).bind ?_
  intro r l' hr
  cases r with
  | ok _ =>
      rintro _ ⟨⟩ hnone
      exact ⟨hnone, hr () rfl⟩
  | error failure =>
      cases failure with
      | err e =>
          rintro _ ⟨⟩
      | notReady name message =>
          rintro _ ⟨⟩ hnone
          exact absurd hnone (joinText_ne_none _ _)

/-- The services of ETOS. -/
theorem etos_notes (m : Machinery Pod) (r : ETOSDeployment Pod) (values : ClusterValues) :
    Notes none (r.reconcile m values) fun l => AsSpecified l (.deployment (values.name ++ "-etos-api"), true) ∧
      AsSpecified l (.deployment (values.name ++ "-etos-sse"), true) ∧
      AsSpecified l (.deployment (values.name ++ "-etos-logarea"), true) ∧
      AsSpecified l (.deployment (values.name ++ "-etos-suite-starter"), true) := by
  unfold ETOSDeployment.reconcile
  refine shows_bind_right ?_
  rintro ⟨cfg, encryption⟩
  unfold ETOSDeployment.reconcileServices
  refine (noting_notes (api_shows m _ values)).bind (lasting_asSpecified _) fun _ => ?_
  refine (noting_notes (sse_shows m _ values)).bind (lasting_asSpecified _) fun _ => ?_
  refine (noting_notes (logarea_shows m _ values)).bind (lasting_asSpecified _) fun _ => ?_
  exact noting_notes (suitestarter_shows m _ values)

end Etos

/-! ## A pass -/

section Pass

open ClusterReconciler

variable {lib : Library Pod}

/-- What has been said in a pass. -/
abbrev PassLog (lib : Library Pod) := List (Said (ClusterOp lib) (ClusterAns lib))

/-- A call of a component. -/
def componentSaid : Said (ClusterOp lib) (ClusterAns lib) → Option (Said (ComponentOp Pod) (ComponentAns Pod))
  | ⟨.component o, a⟩ => some ⟨o, a⟩
  | ⟨.getCluster, _⟩ | ⟨.timeNow, _⟩ | ⟨.updateStatus _, _⟩ => none

/-- What its components have said. -/
def componentLog (l : PassLog lib) : ComponentLog Pod := l.filterMap componentSaid

theorem mem_componentLog {l : PassLog lib} {o : ComponentOp Pod} {a : ComponentAns Pod o}
    (h : (⟨.component o, a⟩ : Said (ClusterOp lib) (ClusterAns lib)) ∈ l) : ⟨o, a⟩ ∈ componentLog l :=
  List.mem_filterMap.mpr ⟨_, h, rfl⟩

theorem embeds_componentLog {l : ComponentLog Pod} {l' : PassLog lib} (h : Embeds (clusterEmbedding lib) l l') :
    ∀ e ∈ l, e ∈ componentLog l' := by
  rintro ⟨o, a⟩ he
  obtain ⟨a', ha', rfl⟩ := h.mem he
  exact mem_componentLog ha'

/-- The workload is as specified, as far as the components have seen. -/
abbrev Seen (w : Workload × Bool) (l : PassLog lib) : Prop := AsSpecified (componentLog l) w

theorem lasting_seen (w : Workload × Bool) : Lasting fun l : PassLog lib => Seen w l := by
  intro l e h
  refine h.mono ?_
  intro e' he'
  obtain ⟨x, hx, heq⟩ := List.mem_filterMap.mp he'
  exact List.mem_filterMap.mpr ⟨x, List.mem_cons_of_mem _ hx, heq⟩

variable {cluster : Cluster lib} {notReadyErr : Option String}

/-- One component that has several errors joined. -/
theorem component_notes {p : Component Pod (Option String)} {E : ComponentLog Pod → Prop} (h : Notes none p E)
    (hE : ∀ l l', (∀ e ∈ l, e ∈ l') → E l → E l') :
    Notes notReadyErr (component cluster p notReadyErr) fun l => E (componentLog l) := by
  unfold Notes component
  have hlift : Shows (ExceptT.lift (p.run.embed (clusterEmbedding lib)) : ExceptT Outcome (Pass lib) _)
      fun r l => r = .ok none → E (componentLog l) := by
    refine shows_lift fun l => ?_
    have hnil : Embeds (clusterEmbedding lib) [] l := fun e he => absurd he List.not_mem_nil
    refine ((h []).embed hnil).post ?_
    rintro r l₂ ⟨l₁, hr, hembeds⟩ rfl
    exact hE l₁ _ (embeds_componentLog hembeds) (hr none rfl rfl).2
  have hlasting : ∀ r : Except Failure (Option String),
      Lasting fun l : PassLog lib => r = .ok none → E (componentLog l) := by
    intro r l e hl hr
    refine hE _ _ ?_ (hl hr)
    intro e' he'
    obtain ⟨x, hx, heq⟩ := List.mem_filterMap.mp he'
    exact List.mem_filterMap.mpr ⟨x, List.mem_cons_of_mem _ hx, heq⟩
  refine (hlift.bind hlasting (G := fun r n _ => n = none → r = .ok none ∧ notReadyErr = none) ?_).post ?_
  · rintro (failure | (_ | text))
    · cases failure with
      | err e =>
          dsimp only
          split
          · exact shows_throw _
          · exact shows_bind_right fun _ => shows_throw _
      | notReady name message => exact shows_pure fun l hnone => absurd hnone (joinText_ne_none _ _)
    · exact shows_pure fun l hnone => ⟨rfl, hnone⟩
    · exact shows_pure fun l hnone => absurd hnone (joinText_ne_none _ _)
  · rintro n l ⟨r, hr, hn⟩ hnone
    obtain ⟨rfl, hnone'⟩ := hn hnone
    exact ⟨hnone', hr rfl⟩

theorem single_notes {p : Component Pod Unit} {E : ComponentLog Pod → Prop} (h : Shows p fun _ => E)
    (hE : Lasting E) : Notes none (single p) E := by
  refine (h.bind (fun _ => hE) (G := fun _ _ _ => True) fun _ => shows_pure fun _ => trivial).post ?_
  rintro n l ⟨_, hl, _⟩ _
  exact ⟨rfl, hl⟩

/-- One component with a single workload. -/
theorem workload_notes {p : Component Pod Unit} {w : Workload × Bool} (h : Shows p fun _ l => AsSpecified l w)
    (notReadyErr : Option String) : Notes notReadyErr (component cluster (single p) notReadyErr) (Seen w) :=
  component_notes (single_notes h (lasting_asSpecified w)) fun _ _ hsub hl => hl.mono hsub

/-- What follows a pointer that is not nil. -/
theorem required_notes {α : Type} {what : String} {x : Option α}
    {f : α → ExceptT Outcome (Pass lib) (Option String)} {E : PassLog lib → Prop}
    (h : ∀ a, x = some a → Notes notReadyErr (f a) E) : Notes notReadyErr (required what x >>= f) E := by
  cases x with
  | none => exact fun _ => trivial
  | some a => exact h a rfl

/-- A message bus: its specification may be missing. -/
theorem bus_notes {p : Component Pod Unit} {bus : Option RabbitMQ} {w : Workload}
    (h : Shows p fun _ l => ∀ r ∈ bus, AsSpecified l (w, r.deploy)) (notReadyErr : Option String) :
    Notes notReadyErr (component cluster (single p) notReadyErr) fun l => ∀ r ∈ bus, Seen (w, r.deploy) l := by
  have hlasting : Lasting fun l : ComponentLog Pod => ∀ r ∈ bus, AsSpecified l (w, r.deploy) :=
    fun l e hl r hr => lasting_asSpecified _ l e (hl r hr)
  exact component_notes (single_notes h hlasting) fun _ _ hsub hl r hr => (hl r hr).mono hsub

/-- The services of ETOS are up. -/
def EtosSeen (cluster : Cluster lib) (l : ComponentLog Pod) : Prop :=
  AsSpecified l (.deployment (cluster.values.name ++ "-etos-api"), true) ∧
    AsSpecified l (.deployment (cluster.values.name ++ "-etos-sse"), true) ∧
    AsSpecified l (.deployment (cluster.values.name ++ "-etos-logarea"), true) ∧
    AsSpecified l (.deployment (cluster.values.name ++ "-etos-suite-starter"), true)

theorem EtosSeen.mono {l l' : ComponentLog Pod} (h : EtosSeen cluster l) (hsub : ∀ e ∈ l, e ∈ l') :
    EtosSeen cluster l' := by
  obtain ⟨hapi, hsse, hlogarea, hsuitestarter⟩ := h
  exact ⟨hapi.mono hsub, hsse.mono hsub, hlogarea.mono hsub, hsuitestarter.mono hsub⟩

def DatabaseSeen (cluster : Cluster lib) (l : PassLog lib) : Prop :=
  ∀ r ∈ cluster.database, Seen (.statefulSet (cluster.values.name ++ "-etcd"), r.deploy) l

def RepositorySeen (cluster : Cluster lib) (l : PassLog lib) : Prop :=
  ∀ r ∈ cluster.eventRepository,
    Seen (.statefulSet (cluster.values.name ++ "-mongodb"), r.deploy && r.database.deploy) l ∧
      Seen (.deployment (cluster.values.name ++ "-graphql"), r.deploy) l

def BusesSeen (cluster : Cluster lib) (l : PassLog lib) : Prop :=
  (∀ r ∈ cluster.eiffelMessageBus.rabbitmq, Seen (.statefulSet (cluster.values.name ++ "-rabbitmq"), r.deploy) l) ∧
    ∀ r ∈ cluster.etosMessageBus.rabbitmq, Seen (.statefulSet (cluster.values.name ++ "-messagebus"), r.deploy) l

/-- These are all workloads. -/
theorem workloads_seen {l : PassLog lib} (hbuses : BusesSeen cluster l) (hrepository : RepositorySeen cluster l)
    (hdatabase : DatabaseSeen cluster l) (hetos : EtosSeen cluster (componentLog l)) :
    ∀ w ∈ cluster.workloads, Seen w l := by
  obtain ⟨hapi, hsse, hlogarea, hsuitestarter⟩ := hetos
  intro w hw
  simp only [Cluster.workloads, List.mem_append, List.mem_map, List.mem_flatMap, Option.mem_toList, List.mem_cons,
    List.not_mem_nil, or_false] at hw
  rcases hw with (((⟨r, hr, rfl⟩ | ⟨r, hr, rfl⟩) | ⟨r, hr, rfl | rfl⟩) | ⟨r, hr, rfl⟩) | rfl | rfl | rfl | rfl
  · exact hbuses.1 r hr
  · exact hbuses.2 r hr
  · exact (hrepository r hr).1
  · exact (hrepository r hr).2
  · exact hdatabase r hr
  · exact hapi
  · exact hsse
  · exact hlogarea
  · exact hsuitestarter

/-- **The components** have seen that every workload is as specified, if nothing is noted. -/
theorem components_notes (cluster : Cluster lib) :
    Notes none (components cluster) fun l => ∀ w ∈ cluster.workloads, Seen w l := by
  have hbus : ∀ {bus : Option RabbitMQ} {w : Workload},
      Lasting fun l : PassLog lib => ∀ r ∈ bus, Seen (w, r.deploy) l :=
    fun l e hl r hr => lasting_seen _ l e (hl r hr)
  have hnotes : Notes none (components cluster) fun l =>
      (∀ r ∈ cluster.eiffelMessageBus.rabbitmq, Seen (.statefulSet (cluster.values.name ++ "-rabbitmq"), r.deploy) l) ∧
      (∀ r ∈ cluster.etosMessageBus.rabbitmq, Seen (.statefulSet (cluster.values.name ++ "-messagebus"), r.deploy) l) ∧
      RepositorySeen cluster l ∧ DatabaseSeen cluster l ∧ EtosSeen cluster (componentLog l) := by
    unfold components
    refine (bus_notes (rabbitmq_shows cluster.clusterName lib.platform _) none).bind hbus fun _ => ?_
    refine (bus_notes (messagebus_shows cluster.clusterName lib.platform _) _).bind hbus fun _ => ?_
    refine required_notes ?_
    intro repository hrepository
    refine Notes.post ((workload_notes (mongodb_shows cluster.clusterName (mongodb repository)) _).bind
      (lasting_seen _) fun _ =>
        (workload_notes (repository_shows cluster.clusterName (eventRepository cluster repository)) _).bind
          (lasting_seen _) fun _ =>
            required_notes (E := fun l => DatabaseSeen cluster l ∧ EtosSeen cluster (componentLog l)) ?_) ?_
    · intro database hdatabase
      refine Notes.post ((workload_notes (etcd_shows cluster.clusterName database) _).bind (lasting_seen _) fun _ =>
        component_notes (etos_notes lib.machinery (etos cluster) cluster.values)
          fun _ _ hsub hseen => EtosSeen.mono hseen hsub) ?_
      rintro l ⟨hetcd, hetos⟩
      refine ⟨?_, hetos⟩
      intro r hr
      obtain rfl : database = r := Option.some.inj (hdatabase.symm.trans hr)
      exact hetcd
    · rintro l ⟨hmongodb, hgraphql, hrest⟩
      refine ⟨?_, hrest⟩
      intro r hr
      obtain rfl : repository = r := Option.some.inj (hrepository.symm.trans hr)
      exact ⟨hmongodb, hgraphql⟩
  refine hnotes.post ?_
  rintro l ⟨hrabbitmq, hmessagebus, hrepository, hdatabase, hetos⟩
  exact workloads_seen ⟨hrabbitmq, hmessagebus⟩ hrepository hdatabase hetos

/-! ## Calls and outcomes -/

/-- The conditions say `Ready=True`. -/
def SaysReady (conditions : List Condition) : Prop := isStatusConditionPresentAndEqual conditions .ready .true = true

/-- The call writes `Ready=True`. -/
def WritesReady (o : ClusterOp lib) : Prop := ∃ conditions, o = .updateStatus conditions ∧ SaysReady conditions

/-- The manager calls `Reconcile` again: at once, later, or because of an error. -/
def CallsAgain (outcome : Outcome) : Prop :=
  outcome.1.requeue = true ∨ 0 < outcome.1.requeueAfter ∨ outcome.2 ≠ none

/-- Setting the condition. -/
theorem saysReady_set {now : Int} {status : ConditionStatus} {reason : Reason} {message : String}
    {conditions : List Condition} :
    SaysReady (setStatusCondition now ⟨.ready, status, reason, message, 0⟩ conditions).1 ↔ status = .true := by
  obtain ⟨c, hfind, hstatus, _, _⟩ := find_set_self now ⟨.ready, status, reason, message, 0⟩ conditions
  dsimp only at hfind hstatus
  unfold SaysReady isStatusConditionPresentAndEqual
  rw [hfind]
  simp [hstatus]

/-- `update` with another status does not write `Ready=True`. -/
theorem update_keeps {status : ConditionStatus} (hstatus : status ≠ .true) (reason : Reason) (message : String) :
    (update cluster status reason message).Keeps (fun _ _ => True) (fun o => ¬ WritesReady o)
      fun outcome => 0 ≤ outcome.1.requeueAfter := by
  have hnow : ¬ WritesReady (.timeNow : ClusterOp lib) := by
    rintro ⟨_, heq, _⟩
    cases heq
  refine ⟨hnow, fun now _ => ?_⟩
  simp only [Prog.bind]
  split
  · refine ⟨?_, ?_⟩
    · rintro ⟨conditions, heq, hready⟩
      cases heq
      exact hstatus (saysReady_set.mp hready)
    · rintro (e | _) _
      · simp only [Prog.bind]
        split
        · show (0 : Int) ≤ 1000000000
          decide
        · exact Int.le_refl 0
      · exact Int.le_refl 0
  · exact Int.le_refl 0

theorem handleReconcileError_keeps (trouble : Trouble) :
    (handleReconcileError cluster trouble).Keeps (fun _ _ => True) (fun o => ¬ WritesReady o) CallsAgain := by
  unfold handleReconcileError
  refine (update_keeps (by decide) _ _).bind ?_
  rintro ⟨result, updateErr⟩ hafter
  dsimp only
  split
  · exact .inr (.inr (Option.some_ne_none _))
  · split
    · refine .inr (.inl ?_)
      show (0 : Int) < 5 * 1000000000
      decide
    · rename_i hzero
      dsimp only at hafter
      refine .inr (.inl ?_)
      show 0 < result.requeueAfter
      omega
  · exact .inr (.inr (Option.some_ne_none _))

theorem component_throws (p : Component Pod (Option String)) (notReadyErr : Option String) :
    Throws (fun o => ¬ WritesReady o) CallsAgain (component cluster p notReadyErr) := by
  unfold component
  have hembed : (p.run.embed (clusterEmbedding lib)).Keeps (fun _ _ => True) (fun o => ¬ WritesReady o)
      fun _ => True := by
    refine ((p.run.embed_calls (i := clusterEmbedding lib)).mono ?_).keeps
    rintro _ ⟨o, rfl⟩ ⟨_, heq, _⟩
    cases heq
  refine throws_lift_bind hembed ?_
  rintro (failure | (_ | text)) _
  · cases failure with
    | err e =>
        dsimp only
        split
        · exact throws_throw (.inl rfl)
        · exact throws_lift_bind (handleReconcileError_keeps _) fun outcome houtcome => throws_throw houtcome
    | notReady name message => exact throws_pure _
  · exact throws_pure _
  · exact throws_pure _

theorem required_throws {α : Type} (what : String) (x : Option α) :
    Throws (fun o => ¬ WritesReady o) CallsAgain (required what x : ExceptT Outcome (Pass lib) α) := by
  cases x with
  | none => exact throws_panic _
  | some a => exact throws_pure a

theorem components_throws (cluster : Cluster lib) :
    Throws (fun o => ¬ WritesReady o) CallsAgain (components cluster) := by
  unfold components
  refine (component_throws _ _).bind fun _ => ?_
  refine (component_throws _ _).bind fun _ => ?_
  refine (required_throws _ _).bind fun repository => ?_
  refine (component_throws _ _).bind fun _ => ?_
  refine (component_throws _ _).bind fun _ => ?_
  refine (required_throws _ _).bind fun database => ?_
  refine (component_throws _ _).bind fun _ => ?_
  exact component_throws _ _

/-! ## The whole pass -/

/-- The pass has read the cluster, and has seen that every workload is as specified. -/
def SeenAll (cluster : Cluster lib) (l : PassLog lib) : Prop :=
  ⟨.getCluster, .ok cluster⟩ ∈ l ∧ ∀ w ∈ cluster.workloads, AsSpecified (componentLog l) w

theorem lasting_seenAll (cluster : Cluster lib) : Lasting (SeenAll cluster) :=
  fun l e h => ⟨List.mem_cons_of_mem _ h.1, fun w hw => lasting_seen w l e (h.2 w hw)⟩

/-- The stored status says that the cluster is ready: it was written, or read. -/
def ReadyStored (cluster : Cluster lib) (l : PassLog lib) : Prop :=
  (∃ conditions, ⟨.updateStatus conditions, .ok ()⟩ ∈ l ∧ SaysReady conditions) ∨ SaysReady cluster.conditions

/-- There is no such cluster. -/
def NoCluster (l : PassLog lib) : Prop := ∃ e, ⟨.getCluster, .error e⟩ ∈ l ∧ e.isNotFound = true

/-- What an outcome that does not call again means. -/
def Rests (outcome : Outcome) (l : PassLog lib) : Prop :=
  CallsAgain outcome ∨ NoCluster l ∨ ∃ cluster, SeenAll cluster l ∧ ReadyStored cluster l

/-- `Ready=True` is written only where everything has been seen. -/
def Permitted (l : PassLog lib) (o : ClusterOp lib) : Prop := WritesReady o → ∃ cluster, SeenAll cluster l

/-- The last step of a pass. -/
theorem update_follows {l : PassLog lib} (h : SeenAll cluster l) (reason : Reason) (message : String) :
    Follows (fun _ _ => True) Permitted (update cluster .true reason message) Rests l := by
  refine .call ?_ fun now _ => ?_
  · rintro ⟨_, heq, _⟩
    cases heq
  have hseen := lasting_seenAll cluster _ ⟨.timeNow, now⟩ h
  simp only [Prog.bind]
  split
  · refine .call (fun _ => ⟨cluster, hseen⟩) ?_
    intro a _
    have hseen' := lasting_seenAll cluster _ ⟨.updateStatus _, a⟩ hseen
    rcases a with e | _
    · simp only [Prog.bind]
      split
      · exact .inl (.inr (.inl (by decide)))
      · exact .inl (.inr (.inr (Option.some_ne_none _)))
    · exact .inr (.inr ⟨cluster, hseen', .inl ⟨_, List.mem_cons_self, saysReady_set.mpr rfl⟩⟩)
  · -- nothing to write: this is what was read
    rename_i hchanged
    obtain ⟨hsame, -⟩ := set_unchanged (by simpa using hchanged)
    refine .inr (.inr ⟨cluster, hseen, .inr ?_⟩)
    rw [← hsame]
    exact saysReady_set.mpr rfl

/-- **A pass**: what it writes, and when it rests. -/
theorem Reconcile_follows (lib : Library Pod) :
    Follows (fun _ _ => True) Permitted (ClusterReconciler.Reconcile lib) Rests [] := by
  unfold ClusterReconciler.Reconcile
  refine .call ?_ ?_
  · rintro ⟨_, heq, _⟩
    cases heq
  rintro (e | cluster) _
  · simp only [Prog.bind]
    split
    · exact .inr (.inl ⟨e, List.mem_cons_self, ‹_›⟩)
    · exact .inl (.inr (.inr (Option.some_ne_none _)))
  · have hread : Lasting fun l : PassLog lib => ⟨.getCluster, .ok cluster⟩ ∈ l :=
      fun _ _ h => List.mem_cons_of_mem _ h
    have hquiet : ∀ (l : PassLog lib) (o : ClusterOp lib), ¬ WritesReady o → Permitted l o :=
      fun _ _ ho hwrites => absurd hwrites ho
    have hthrows := components_throws cluster
    have hkept := hread.follows (components cluster).run (List.mem_cons_self (l := []))
    have hrun := (hthrows.follows hquiet _).and (hkept.and (components_notes cluster _))
    have hpermitted : Follows (fun _ _ => True) Permitted (components cluster).run _ _ :=
      hrun.mono fun _ _ ho => ho.1
    refine hpermitted.bind ?_
    rintro r l ⟨herror, hcluster, hnotes⟩
    cases r with
    | error outcome => exact .inl (herror outcome rfl)
    | ok notReadyErr =>
        cases notReadyErr with
        | none => exact update_follows ⟨hcluster, (hnotes none rfl rfl).2⟩ _ _
        | some text =>
            exact ((handleReconcileError_keeps _).follows hquiet l).post fun outcome _ houtcome => .inl houtcome

theorem SeenAll.of_reverse {log : PassLog lib} (h : SeenAll cluster (log.reverse ++ [])) : SeenAll cluster log := by
  rw [List.append_nil] at h
  refine ⟨List.mem_reverse.mp h.1, fun w hw => (h.2 w hw).mono ?_⟩
  intro e he
  obtain ⟨x, hx, heq⟩ := List.mem_filterMap.mp he
  exact List.mem_filterMap.mpr ⟨x, List.mem_reverse.mp hx, heq⟩

/-- **A cluster that is called ready is as specified.** Whatever has been answered so far: where a pass goes on to write
    `Ready=True`, it has read the cluster and seen that each of its workloads is as specified. -/
theorem ready_means_as_specified (lib : Library Pod) (log : PassLog lib) (conditions : List Condition)
    (k : Except Err Unit → Pass lib Outcome)
    (hcall : (ClusterReconciler.Reconcile lib).After log (.call (.updateStatus conditions) k))
    (hready : SaysReady conditions) : ∃ cluster, SeenAll cluster log := by
  obtain ⟨cluster, hseen⟩ := (Reconcile_follows lib).after hcall (.ok ()) ⟨conditions, rfl, hready⟩
  exact ⟨cluster, hseen.of_reverse⟩

/-- **A pass rests only when the cluster is ready**, or is not there. Otherwise there will be another pass. -/
theorem rests_only_when_ready (lib : Library Pod) (log : PassLog lib) (outcome : Outcome)
    (hreturns : (ClusterReconciler.Reconcile lib).Returns outcome log) (hrests : ¬ CallsAgain outcome) :
    (∃ e, ⟨.getCluster, .error e⟩ ∈ log ∧ e.isNotFound = true) ∨
      ∃ cluster, SeenAll cluster log ∧ ReadyStored cluster log := by
  rcases (Reconcile_follows lib).returns hreturns with hagain | ⟨e, hsaid, he⟩ | ⟨cluster, hseen, hstored⟩
  · exact absurd hagain hrests
  · rw [List.append_nil] at hsaid
    exact .inl ⟨e, List.mem_reverse.mp hsaid, he⟩
  · refine .inr ⟨cluster, hseen.of_reverse, ?_⟩
    rw [List.append_nil] at hstored
    rcases hstored with ⟨conditions, hsaid, hready⟩ | hready
    · exact .inl ⟨conditions, List.mem_reverse.mp hsaid, hready⟩
    · exact .inr hready

end Pass

/-! ## A cluster that is up

MongoDB and the event repository are not to be deployed, and are not there. Everything else is there and has been
reconciled before. -/

/-- Pods without contents. -/
def plainLibrary : Library Unit where
  machinery :=
    { podDerivative := fun _ _ => true, mergePod := fun _ _ _ => (), rfc3339 := toString, urlString := fun _ => [] }
  platform := { mergePod := fun _ _ _ => (), defaultPod := id, rfc3339 := toString }
  URL := Unit
  parseURL _ := .ok ()
  withHost url _ := url
  urlString _ := []
  path _ := bytes "/admin"
  durable _ := true
  quantity text := text ≠ ""

/-- A message bus that is deployed. -/
def plainBus : RabbitMQ := {}

def plainService : Service := ⟨"image", "1"⟩

def plainSuiteStarter : ETOSSuiteStarterDeployment Unit where
  rabbitmqSecret := "etos-rabbitmq"
  messagebusSecret := "etos-messagebus"
  etosSecretName := "etos-cfg"
  etosSecretData := []
  encryptionSecretData := []
  suiteRunner := plainService
  logListener := plainService
  suiteRunnerTemplate _ := []
  pod _ _ _ := ()

def plainSse : ETOSSSEDeployment Unit := ⟨"etos-messagebus", fun _ _ => ()⟩

/-- A cluster of which everything is to be deployed, but the event repository. -/
def plainCluster : Cluster plainLibrary where
  values := { name := "etos" }
  eiffelMessageBus := ⟨some plainBus, fun _ _ => ()⟩
  etosMessageBus := ⟨some plainBus, fun _ _ => ()⟩
  eventRepository := some
    { deploy := false, rabbitmqSecret := "", mongodbSecret := "", pod := fun _ _ _ => ()
      database := { uri := some { value := "mongodb://mongodb/admin" }, pod := fun _ _ _ => () } }
  database := some { pod := fun _ _ => () }
  etos :=
    { rabbitmqSecret := "", messagebusSecret := "", encryptionKey := { value := "key" }, config := fun _ => []
      iutProvider := plainService, logAreaProvider := plainService, executionSpaceProvider := plainService
      api := { rabbitmqSecret := "", messagebusSecret := "", etosSecret := "", pod := fun _ _ => () }
      sse := plainSse
      logArea := ⟨fun _ => ()⟩
      suiteStarter := plainSuiteStarter }

/-- The secret of the message bus; the others are empty. -/
def sourceSecret (name : String) : Fields Bytes :=
  if name = "etos-messagebus" then
    [("ETOS_RABBITMQ_HOST", []), ("ETOS_RABBITMQ_STREAM_PORT", []), ("ETOS_RABBITMQ_VHOST", [])]
  else []

def sourceAnswer : (o : Services.Op Unit) → Services.Ans Unit o
  | .getSecret name => .ok (sourceSecret name)
  | .getDeployment _ => .error (.new "")
  | .now => (0 : Int)
  | .createSecret _ _ | .patchSecret _ _ _ | .createDeployment _ _ | .patchDeployment _ _ _ | .get _ _ | .create _ _
  | .patch _ _ => .ok ()

/-- What a program comes to, with these secrets. -/
def valueOf (p : Services.Reconcile Unit (Fields Bytes)) : Fields Bytes :=
  match p.run.eval sourceAnswer with
  | some (.ok data) => data
  | _ => []

/-- The secrets, once everything has been reconciled. -/
def storedSecret (name : String) : Fields Bytes :=
  if name = "etos-etos-sse-cfg" then valueOf (plainSse.config plainLibrary.machinery plainCluster.values)
  else if name = "etos-etos-suite-starter-cfg" then
    valueOf (plainSuiteStarter.config "etos-etos-suite-runner-cfg" plainCluster.values)
  else if name = "etos-etos-api-cfg" then sourceSecret "etos-messagebus"
  else if name = "etos-etos-suite-runner-template" then [("suite_runner_template.yaml", [])]
  else sourceSecret name

def upServices : (o : Services.Op Unit) → Services.Ans Unit o
  | .getSecret name => .ok (storedSecret name)
  | .getDeployment _ => .ok ⟨⟨1, [], ()⟩, [⟨"Progressing", "NewReplicaSetAvailable", ""⟩]⟩
  | .now => (0 : Int)
  | .createSecret _ _ | .patchSecret _ _ _ | .createDeployment _ _ | .patchDeployment _ _ _ | .get _ _ | .create _ _
  | .patch _ _ => .ok ()

/-- MongoDB and the event repository are not there; of what is there, everything is up. -/
def upExtras : (o : Extras.Op Unit) → Extras.Ans Unit o
  | .get .secret name => if name = "etos-mongodb" then .error ⟨some .notFound, ""⟩ else .ok ([], ())
  | .get .configMap _ => .ok ([], ())
  | .get .service _ => .ok ((), ())
  | .get .statefulSet name =>
      if name = "etos-mongodb" then .error ⟨some .notFound, ""⟩ else .ok (⟨none, [], ()⟩, 3)
  | .get .ingress _ => .error ⟨some .notFound, ""⟩
  | .create _ _ _ => .ok ()
  | .patch .secret _ target _ => .ok (target, ())
  | .patch .configMap _ target _ => .ok (target, ())
  | .patch .service _ _ _ => .ok ((), ())
  | .patch .statefulSet _ target _ => .ok (target, (3 : Int))
  | .patch .ingress _ target _ => .ok (target, ())
  | .delete _ _ => .ok ()
  | .now => (0 : Int)

def upAnswer : (o : ClusterOp plainLibrary) → ClusterAns plainLibrary o
  | .component (.extras o) => upExtras o
  | .component (.services o) => upServices o
  | .component (.deleteDeployment _) => .ok ()
  | .component (.getProvider _) => .ok ()
  | .component (.createProvider _ _) => .ok ()
  | .component (.patchProvider _ _) => .ok ()
  | .getCluster => .ok plainCluster
  | .timeNow => (0 : Int)
  | .updateStatus _ => .ok ()

/-- The last call writes `Ready=True`. -/
def endsReady (l : PassLog plainLibrary) : Bool :=
  match l.getLast? with
  | some ⟨.updateStatus conditions, _⟩ => isStatusConditionPresentAndEqual conditions .ready .true
  | _ => false

theorem endsReady_cases {l : PassLog plainLibrary} (h : endsReady l = true) :
    ∃ earlier conditions a, l = earlier ++ [⟨.updateStatus conditions, a⟩] ∧ SaysReady conditions := by
  rcases List.eq_nil_or_concat l with rfl | ⟨earlier, ⟨o, a⟩, rfl⟩
  · cases h
  · simp only [endsReady, List.concat_eq_append, List.getLast?_append, List.getLast?_singleton, Option.some_or] at h
    cases o with
    | updateStatus conditions => exact ⟨earlier, conditions, a, List.concat_eq_append, h⟩
    | component | getCluster | timeNow => cases h

set_option maxRecDepth 4000 in
/-- The pass over it ends with writing that it is ready. -/
theorem plainCluster_trace : ((trace upAnswer (ClusterReconciler.Reconcile plainLibrary)).map fun out =>
    (out.1, endsReady out.2)) = some (({}, none), true) := by
  rfl

/-- It is as specified when that is written. -/
theorem ready_means_as_specified_plain : ∃ log conditions k,
    (ClusterReconciler.Reconcile plainLibrary).After log (.call (.updateStatus conditions) k) ∧ SaysReady conditions ∧
      ∃ cluster, SeenAll cluster log := by
  obtain ⟨out, hout, heq⟩ := Option.map_eq_some_iff.mp plainCluster_trace
  obtain ⟨earlier, conditions, a, hlog, hready⟩ := endsReady_cases (congrArg Prod.snd heq)
  have hafter := (returns_of_trace hout).after
  rw [hlog] at hafter
  obtain ⟨k, hcall⟩ := hafter.call
  exact ⟨earlier, conditions, k, hcall, hready,
    ready_means_as_specified plainLibrary earlier conditions k hcall hready⟩

/-- The pass rests, and it has seen that everything is as specified. -/
theorem rests_only_when_ready_plain : ∃ log, (ClusterReconciler.Reconcile plainLibrary).Returns ({}, none) log ∧
    ((∃ e, ⟨.getCluster, .error e⟩ ∈ log ∧ e.isNotFound = true) ∨
      ∃ cluster, SeenAll cluster log ∧ ReadyStored cluster log) := by
  obtain ⟨out, hout, heq⟩ := Option.map_eq_some_iff.mp plainCluster_trace
  have hreturns := returns_of_trace hout
  rw [show out.1 = ({}, none) from congrArg Prod.fst heq] at hreturns
  have hrests : ¬ CallsAgain ({}, none) := by
    rintro (h | h | h)
    · cases h
    · exact absurd h (by decide)
    · exact h rfl
  exact ⟨out.2, hreturns, rests_only_when_ready plainLibrary out.2 _ hreturns hrests⟩

end Etos.Clusters
