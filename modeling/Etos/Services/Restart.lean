import Etos.Prog.Paths
import Etos.Services.Reconcile

/-!
# `Services.Restart` — does a changed configuration reach the pods?

The pods of a service read the config secret when they start, so after the secret has changed they have to be started
again, which Kubernetes does when the pod template changes. The config of a service is *stale* from the moment its
stored secret changes until the template does. A service is up to date if no attempt returns without an error while the
config is stale.

It need not be. The secret is durable, but that a restart is required is only known to the reconciler that wrote it. If
a call fails between the two (`interrupted_stale`), the next attempt finds the secret as it should be, and returns
without an error. `config_reaches_pods` says what is enough for the service to be up to date: that nothing comes between
the change of the secret and that of the template.
-/

namespace Etos.Services

open Kube

/-! ## The stored objects -/

/-- What is stored of the config secret and the Deployment of a service. -/
structure Stored (Pod : Type) where
  config : Option (Fields Bytes)
  deployment : Option (Deployment Pod)
  /-- The config has changed since the pod template last did. -/
  stale : Prop

namespace Stored

variable {Pod : Type}

/-- The secret gets new data. -/
def writeConfig (s : Stored Pod) (data : Fields Bytes) : Stored Pod :=
  { s with
    config := some data
    stale := s.stale ∨ match s.config with
      | none => True
      | some old => old.Differ data }

/-- The Deployment gets a new specification. -/
def writeSpec (s : Stored Pod) (spec : DeploymentSpec Pod) : Stored Pod :=
  match s.deployment with
  | none => { s with deployment := some ⟨spec, []⟩, stale := False }
  | some d =>
      { s with
        deployment := some { d with spec := spec }
        stale := s.stale ∧ ¬ d.spec.template.Differ spec.template }

/-- The Deployment controller reports on the rollout. -/
def Moved (s s' : Stored Pod) : Prop :=
  s' = s ∨ ∃ d conditions, s.deployment = some d ∧
    s' = { s with deployment := some { d with conditions := conditions } }

end Stored

variable {Pod : Type}

/-- The answer of a `Get`: the object as stored; `NotFound` only if there is none. -/
def Reads {α : Type} (stored : Option α) : Except Err α → Prop
  | .ok x => stored = some x
  | .error e => e.isNotFound = true → stored = none

section Semantics

variable (m : Machinery Pod) (cfg dep : String)

/-- What a call makes of the config secret `cfg` and the Deployment `dep`, if it can be applied. -/
def applied (s : Stored Pod) : Op Pod → Option (Stored Pod)
  | .createSecret name data =>
      if name = cfg then if s.config.isNone then some (s.writeConfig data) else none else some s
  | .patchSecret name target original =>
      if name = cfg then s.config.map fun stored => s.writeConfig (original.merge target stored) else some s
  | .createDeployment name spec =>
      if name = dep then if s.deployment.isNone then some (s.writeSpec spec) else none else some s
  | .patchDeployment name target original =>
      if name = dep then s.deployment.map fun d => s.writeSpec (original.merge m target d.spec) else some s
  | _ => some s

/-- Did the call fail? To find nothing is not to fail. -/
def failed : (o : Op Pod) → Ans Pod o → Bool
  | .getSecret _, .error e | .getDeployment _, .error e | .get _ _, .error e => !e.isNotFound
  | .createSecret _ _, .error _ | .patchSecret _ _ _, .error _ => true
  | .createDeployment _ _, .error _ | .patchDeployment _ _ _, .error _ => true
  | .create _ _, .error _ | .patch _ _, .error _ => true
  | _, _ => false

/-- A call: it is applied, or fails. A call that fails may have been applied all the same. -/
structure Effect (s : Stored Pod) (o : Op Pod) (a : Ans Pod o) (s' : Stored Pod) : Prop where
  reads : match o, a with
    | .getSecret name, a => name = cfg → Reads s.config a
    | .getDeployment name, a => name = dep → Reads s.deployment a
    | _, _ => True
  writes : applied m cfg dep s o = some s' ∨ (failed o a = true ∧ s' = s)

/-- The calls of an attempt that meet a condition. Before each, the Deployment controller may move. -/
def sem (cond : Sem (Op Pod) (Ans Pod) (Stored Pod)) : Sem (Op Pod) (Ans Pod) (Stored Pod) :=
  fun s o a s' => ∃ s₁, s.Moved s₁ ∧ Effect m cfg dep s₁ o a s' ∧ cond s₁ o a s'

/-! ## Runs -/

/-- The services. -/
inductive ETOSService where
  | sse | api | suiteStarter

/-- The name of the Deployment in a cluster. -/
def ETOSService.deploymentName (cluster : String) : ETOSService → String
  | .sse => cluster ++ "-etos-sse"
  | .api => cluster ++ "-etos-api"
  | .suiteStarter => cluster ++ "-etos-suite-starter"

/-- The name of the config secret. -/
def ETOSService.configName (cluster : String) (service : ETOSService) : String :=
  service.deploymentName cluster ++ "-cfg"

/-- The reconcilers of a service in a cluster, with whatever the cluster and the operator are configured to. -/
inductive Reconciles (cluster : String) : ETOSService → Reconcile Pod Unit → Prop where
  | sse (r : ETOSSSEDeployment Pod) (values : ClusterValues) (h : values.name = cluster) :
      Reconciles cluster .sse (r.reconcile m values)
  | api (r : ETOSApiDeployment Pod) (values : ClusterValues) (h : values.name = cluster) :
      Reconciles cluster .api (r.reconcile m values)
  | suiteStarter (r : ETOSSuiteStarterDeployment Pod) (values : ClusterValues) (h : values.name = cluster) :
      Reconciles cluster .suiteStarter (r.reconcile m values)

variable (service : ETOSService) (cluster : String) (cond : Sem (Op Pod) (Ans Pod) (Stored Pod))

/-- An attempt can take the stored objects from `s` to `s'` and return `result`. -/
def Attempt (p : Reconcile Pod Unit) (s : Stored Pod) (result : Except Failure Unit) (s' : Stored Pod) : Prop :=
  Prog.Can (sem m (service.configName cluster) (service.deploymentName cluster) cond) p.run
    (fun r t => r = result ∧ t = s') s

/-- Where attempts of a service get to whose calls all meet the condition, from a state in which the config is not
    stale. Between attempts anything but the config secret and the Deployment may change. -/
inductive Reached : Stored Pod → Prop where
  | start {s : Stored Pod} (h : ¬ s.stale) : Reached s
  | attempt {s s' : Stored Pod} {p : Reconcile Pod Unit} {result : Except Failure Unit} (h : Reached s)
      (hp : Reconciles m cluster service p) (hattempt : Attempt m service cluster cond p s result s') : Reached s'

/-! ## The condition -/

/-- The config has changed under running pods. -/
def Pending (s : Stored Pod) : Prop := s.stale ∧ s.deployment ≠ none

/-- Is this a write of the config secret? -/
def writesConfig (cfg : String) : Op Pod → Bool
  | .createSecret name _ | .patchSecret name _ _ => name = cfg
  | _ => false

/-- Is this a patch of the Deployment? -/
def patchesDeployment (dep : String) : Op Pod → Bool
  | .patchDeployment name _ _ => name = dep
  | _ => false

/-- Nothing comes between a change of the config and the change of the template. -/
structure Undisturbed (s : Stored Pod) (o : Op Pod) (a : Ans Pod o) (s' : Stored Pod) : Prop where
  /-- While the config is stale under running pods no call fails, or it is the patch of the Deployment, and was
      applied. -/
  calls : failed o a = true → Pending s →
    patchesDeployment (service.deploymentName cluster) o = true ∧
      applied m (service.configName cluster) (service.deploymentName cluster) s o = some s'
  /-- A write of the config that fails under running pods was not applied. -/
  config : failed o a = true → writesConfig (service.configName cluster) o = true → s.deployment ≠ none → s' = s
  /-- The clock has moved on since the last restart, by the second. -/
  clock : match o, a with
    | .now, (now : Int) => Pending s → ∀ d, s.deployment = some d →
        d.spec.template.annotations.lookup restartedAt ≠ some (m.rfc3339 now)
    | _, _ => True

end Semantics

/-! ## Rules -/

section Rules

variable {α β : Type} {S : Sem (Op Pod) (Ans Pod) (Stored Pod)}

/-- Running pods have the config as it is stored. -/
def Calm (s : Stored Pod) : Prop := s.stale → s.deployment = none

/-- From `P`, the reconciler returns a result in `Q`, or an error with the config of running pods as it is stored. -/
def Keeps (S : Sem (Op Pod) (Ans Pod) (Stored Pod)) (P : Stored Pod → Prop) (p : Reconcile Pod α)
    (Q : α → Stored Pod → Prop) : Prop :=
  ∀ s, P s → Safe Eq S (fun _ _ _ _ => True) p.run
    (fun r s' => match r with
      | .ok a => Q a s'
      | .error _ => Calm s') s

theorem keeps_pure {P : Stored Pod → Prop} {Q : α → Stored Pod → Prop} {a : α} (h : ∀ s, P s → Q a s) :
    Keeps S P (pure a) Q := h

theorem keeps_throw {P : Stored Pod → Prop} {Q : α → Stored Pod → Prop} {failure : Failure} (h : ∀ s, P s → Calm s) :
    Keeps S P (throw failure : Reconcile Pod α) Q := h

theorem keeps_bind {P : Stored Pod → Prop} {R : α → Stored Pod → Prop} {Q : β → Stored Pod → Prop}
    {p : Reconcile Pod α} {f : α → Reconcile Pod β} (h : Keeps S P p R) (hf : ∀ a, Keeps S (R a) (f a) Q) :
    Keeps S P (p >>= f) Q := by
  intro s hs
  rw [ExceptT.run_bind]
  refine Safe.bind (h s hs) fun r s' hr => ?_
  cases r with
  | ok a => exact hf a s' hr
  | error failure => exact hr

theorem keeps_ask {P : Stored Pod → Prop} {o : Op Pod} {Q : Ans Pod o → Stored Pod → Prop}
    (h : ∀ s a s', P s → S s o a s' → Q a s') : Keeps S P (ask o) Q := by
  intro s hs
  rintro _ rfl a s' hsem
  exact ⟨trivial, h s a s' hs hsem⟩

theorem keeps_orFail {P : Stored Pod → Prop} {Q : Unit → Stored Pod → Prop} {a : Except Err Unit}
    (hok : a = .ok () → ∀ s, P s → Q () s) (herr : ∀ e, a = .error e → ∀ s, P s → Calm s) :
    Keeps S P (orFail a) Q := by
  cases a with
  | ok _ => exact keeps_pure (hok rfl)
  | error e => exact keeps_throw (herr e rfl)

/-- A write after which the reconciler reports that the Deployment is not ready. -/
theorem keeps_orFail_throw {Q : α → Stored Pod → Prop} {a : Except Err Unit} {failure : Failure} :
    Keeps S Calm (do orFail a; throw failure : Reconcile Pod α) Q := by
  refine keeps_bind (R := fun _ => Calm) ?_ fun _ => keeps_throw fun s hs => hs
  exact keeps_orFail (fun _ s hs => hs) fun e _ s hs => hs

end Rules

/-! ## One attempt -/

section Attempts

variable (m : Machinery Pod) (service : ETOSService) (cluster : String)

/-- The calls of undisturbed attempts. -/
abbrev calm : Sem (Op Pod) (Ans Pod) (Stored Pod) :=
  sem m (service.configName cluster) (service.deploymentName cluster) (Undisturbed m service cluster)

/-- What holds while the reconciler goes on: running pods have the config as it is stored, or a restart is known to be
    required. -/
def Known (restartRequired : Bool) (s : Stored Pod) : Prop := restartRequired = false → Calm s

theorem not_pending {s : Stored Pod} (h : ¬ Pending s) : Calm s := by
  intro hstale
  by_contra hne
  exact h ⟨hstale, hne⟩

theorem Calm.moved {s s' : Stored Pod} (h : Calm s) (hm : s.Moved s') : Calm s' := by
  rcases hm with rfl | ⟨d, conditions, hd, rfl⟩
  · exact h
  · intro hstale
    rw [h hstale] at hd
    cases hd

theorem Known.moved {s s' : Stored Pod} {restartRequired : Bool} (h : Known restartRequired s) (hm : s.Moved s') :
    Known restartRequired s' := fun hr => (h hr).moved hm

variable {m service cluster}

/-- A call that has no effect on the two objects. -/
theorem Effect.unchanged {cfg dep : String} {s s' : Stored Pod} {o : Op Pod} {a : Ans Pod o}
    (h : Effect m cfg dep s o a s') (ho : applied m cfg dep s o = some s) : s' = s := by
  rcases h.writes with happ | ⟨_, rfl⟩
  · rw [ho] at happ
    exact (Option.some.inj happ).symm
  · rfl

/-- A call that writes neither the config nor the Deployment. -/
theorem aside {s s' : Stored Pod} {o : Op Pod} {a : Ans Pod o} {restartRequired : Bool} (h : Known restartRequired s)
    (ho : ∀ s, applied m (service.configName cluster) (service.deploymentName cluster) s o = some s)
    (hne : patchesDeployment (service.deploymentName cluster) o = false) (hsem : calm m service cluster s o a s') :
    Known restartRequired s' ∧ (failed o a = true → Calm s') := by
  obtain ⟨s₁, hmoved, heffect, hcond⟩ := hsem
  obtain rfl := heffect.unchanged (ho s₁)
  refine ⟨h.moved hmoved, fun hfailed => not_pending fun hpending => ?_⟩
  have hpatch := (hcond.calls hfailed hpending).1
  rw [hne] at hpatch
  cases hpatch

theorem ask_keeps {o : Op Pod} (restartRequired : Bool)
    (ho : ∀ s, applied m (service.configName cluster) (service.deploymentName cluster) s o = some s)
    (hne : patchesDeployment (service.deploymentName cluster) o = false) :
    Keeps (calm m service cluster) (Known restartRequired) (ask o)
      (fun a s => Known restartRequired s ∧ (failed o a = true → Calm s)) :=
  keeps_ask fun _ _ _ hs hsem => aside hs ho hne hsem

theorem reconcileObject_keeps (kind : Kind) (name : String) (restartRequired : Bool) :
    Keeps (calm m service cluster) (Known restartRequired) (reconcileObject kind name)
      (fun _ => Known restartRequired) := by
  unfold reconcileObject
  refine keeps_bind (ask_keeps restartRequired (fun _ => rfl) rfl) fun a => ?_
  cases a with
  | error e =>
      dsimp only
      split
      · rename_i hfailed
        exact keeps_throw fun s hs => hs.2 hfailed
      · refine keeps_bind (P := fun s => Known restartRequired s ∧ _)
          (fun s hs => ask_keeps restartRequired (fun _ => rfl) rfl s hs.1) fun a => ?_
        exact keeps_orFail (fun _ s hs => hs.1) fun e heq s hs => hs.2 (heq ▸ rfl)
  | ok _ =>
      refine keeps_bind (P := fun s => Known restartRequired s ∧ _)
        (fun s hs => ask_keeps restartRequired (fun _ => rfl) rfl s hs.1) fun a => ?_
      exact keeps_orFail (fun _ s hs => hs.1) fun e heq s hs => hs.2 (heq ▸ rfl)

theorem sourceData_keeps (name : String) :
    Keeps (calm m service cluster) Calm (sourceData name) (fun _ => Calm) := by
  unfold sourceData
  refine keeps_bind (fun s hs => ask_keeps false (fun _ => rfl) rfl s fun _ => hs) fun a => ?_
  cases a with
  | error e => exact keeps_throw fun s hs => hs.1 rfl
  | ok data => exact keeps_pure fun s hs => hs.1 rfl

/-- Another secret than the config. -/
theorem reconcileData_keeps (same : Fields Bytes → Fields Bytes → Bool) {name : String} (target : Fields Bytes)
    (hname : name ≠ service.configName cluster) (restartRequired : Bool) :
    Keeps (calm m service cluster) (Known restartRequired) (reconcileData same name target)
      (fun _ => Known restartRequired) := by
  unfold reconcileData
  refine keeps_bind (ask_keeps restartRequired (fun _ => rfl) rfl) fun a => ?_
  cases a with
  | error e =>
      dsimp only
      split
      · rename_i hfailed
        exact keeps_throw fun s hs => hs.2 hfailed
      · refine keeps_bind (P := fun s => Known restartRequired s ∧ _)
          (fun s hs => ask_keeps restartRequired (fun _ => by exact if_neg hname) rfl s hs.1) fun a => ?_
        refine keeps_bind (R := fun _ => Known restartRequired) ?_ fun _ => keeps_pure fun s hs => hs
        exact keeps_orFail (fun _ s hs => hs.1) fun e heq s hs => hs.2 (heq ▸ rfl)
  | ok data =>
      dsimp only
      split
      · exact keeps_pure fun s hs => hs.1
      · refine keeps_bind (P := fun s => Known restartRequired s ∧ _)
          (fun s hs => ask_keeps restartRequired (fun _ => by exact if_neg hname) rfl s hs.1) fun a => ?_
        refine keeps_bind (R := fun _ => Known restartRequired) ?_ fun _ => keeps_pure fun s hs => hs
        exact keeps_orFail (fun _ s hs => hs.1) fun e heq s hs => hs.2 (heq ▸ rfl)

/-- A write of the config that fails leaves running pods with the config as it is stored. -/
theorem writeConfig_calm {s s' : Stored Pod} {o : Op Pod} {a : Ans Pod o} (h : Calm s)
    (ho : writesConfig (service.configName cluster) o = true) (hsem : calm m service cluster s o a s')
    (hdep : ∀ s t, applied m (service.configName cluster) (service.deploymentName cluster) s o = some t →
      t.deployment = s.deployment) (hfailed : failed o a = true) : Calm s' := by
  obtain ⟨s₁, hmoved, heffect, hcond⟩ := hsem
  by_cases hne : s₁.deployment = none
  · rcases heffect.writes with happ | ⟨_, rfl⟩
    · exact fun _ => (hdep s₁ s' happ).trans hne
    · exact fun _ => hne
  · rw [hcond.config hfailed ho hne]
    exact h.moved hmoved

/-- The config: when it has been written, a restart is known to be required. -/
theorem reconcileConfig_keeps (same : Fields Bytes → Fields Bytes → Bool) (target : Fields Bytes) :
    Keeps (calm m service cluster) Calm (reconcileData same (service.configName cluster) target)
      (fun written => Known written) := by
  unfold reconcileData
  refine keeps_bind (fun s hs => ask_keeps false (fun _ => rfl) rfl s fun _ => hs) fun a => ?_
  cases a with
  | error e =>
      dsimp only
      split
      · exact keeps_throw fun s hs => hs.1 rfl
      · refine keeps_bind
          (R := fun a s => failed (.createSecret (service.configName cluster) target : Op Pod) a = true →
          Calm s) (keeps_ask fun s a s' hs hsem => ?_) fun a => ?_
        · refine writeConfig_calm (hs.1 rfl) (decide_eq_true rfl) hsem fun s t happ => ?_
          simp only [applied, if_true] at happ
          split at happ
          · cases happ
            rfl
          · cases happ
        · refine keeps_bind (R := fun _ => Known true) ?_ fun _ => keeps_pure fun s hs => hs
          exact keeps_orFail (fun _ s _ hfalse => by cases hfalse) fun e heq s hs => hs (heq ▸ rfl)
  | ok data =>
      dsimp only
      split
      · exact keeps_pure fun s hs => hs.1
      · refine keeps_bind (R := fun a s =>
          failed (.patchSecret (service.configName cluster) target data : Op Pod) a = true → Calm s)
          (keeps_ask fun s a s' hs hsem => ?_) fun a => ?_
        · refine writeConfig_calm (hs.1 rfl) (decide_eq_true rfl) hsem fun s t happ => ?_
          simp only [applied, if_true] at happ
          obtain ⟨_, _, rfl⟩ := Option.map_eq_some_iff.mp happ
          rfl
        · refine keeps_bind (R := fun _ => Known true) ?_ fun _ => keeps_pure fun s hs => hs
          exact keeps_orFail (fun _ s _ hfalse => by cases hfalse) fun e heq s hs => hs (heq ▸ rfl)

/-- The Deployment is stored, with this specification. -/
def Found (d : Deployment Pod) (s : Stored Pod) : Prop := ∃ d', s.deployment = some d' ∧ d'.spec = d.spec

theorem Found.moved {d : Deployment Pod} {s s' : Stored Pod} (h : Found d s) (hm : s.Moved s') : Found d s' := by
  rcases hm with rfl | ⟨d₁, conditions, hd₁, rfl⟩
  · exact h
  · obtain ⟨d', hd', hspec⟩ := h
    rw [hd₁] at hd'
    cases hd'
    exact ⟨_, rfl, hspec⟩

theorem Found.fresh {d : Deployment Pod} {s : Stored Pod} (h : Found d s) (hcalm : Calm s) : ¬ s.stale := by
  intro hstale
  obtain ⟨d', hd', _⟩ := h
  rw [hcalm hstale] at hd'
  cases hd'

theorem calm_of_fresh {s : Stored Pod} (h : ¬ s.stale) : Calm s := fun hstale => absurd hstale h

/-- Annotating the template with another text changes it. -/
theorem annotate_differs (original target : DeploymentSpec Pod) {value : String}
    (h : original.template.annotations.lookup restartedAt ≠ some value) :
    original.template.Differ (original.merge m (target.annotate value) original).template := by
  refine .inl ⟨restartedAt, ?_⟩
  have htarget : (target.annotate value).template.annotations.lookup restartedAt = some value := by
    show (List.filter _ _ ++ [(restartedAt, value)]).lookup restartedAt = some value
    rw [List.lookup_append, List.lookup_eq_none_iff.mpr]
    · rfl
    · intro f hf
      rw [bne_iff_ne]
      rintro heq
      have hnone := (List.mem_filter.mp hf).2
      rw [← heq] at hnone
      simp at hnone
  have hmerged : (original.merge m (target.annotate value) original).template.annotations.lookup restartedAt =
      some value := Fields.lookup_merge htarget h
  rw [hmerged]
  exact h

/-- A patch of the Deployment, computed from what is stored, that changes the template of a stale service. -/
theorem patched {s s' : Stored Pod} {d : Deployment Pod} {target : DeploymentSpec Pod}
    {a : Except Err Unit} (hfound : Found d s)
    (hdiffer : s.stale → d.spec.template.Differ (d.spec.merge m target d.spec).template)
    (hsem : calm m service cluster s (.patchDeployment (service.deploymentName cluster) target d.spec) a s') :
    Calm s' := by
  obtain ⟨s₁, hmoved, heffect, hcond⟩ := hsem
  have hstale : s₁.stale = s.stale := by
    rcases hmoved with rfl | ⟨_, _, _, rfl⟩ <;> rfl
  have happlied : applied m (service.configName cluster) (service.deploymentName cluster) s₁
      (.patchDeployment (service.deploymentName cluster) target d.spec) = some s' → Calm s' := by
    intro happ
    obtain ⟨d', hd', hspec⟩ := hfound.moved hmoved
    simp only [applied, if_true, hd', Option.map_some, hspec] at happ
    obtain rfl := Option.some.inj happ
    refine calm_of_fresh ?_
    unfold Stored.writeSpec
    rw [hd']
    rintro ⟨hs, hsame⟩
    rw [hspec] at hsame
    exact hsame (hdiffer (hstale ▸ hs))
  rcases heffect.writes with happ | ⟨hfailed, rfl⟩
  · exact happlied happ
  · refine not_pending fun hpending => ?_
    have hcalm := happlied (hcond.calls hfailed hpending).2
    exact hpending.2 (hcalm hpending.1)

/-- The Deployment: a restart that is required is made, and the attempt returns without an error only if there is
    nothing to do. -/
theorem reconcileDeployment_keeps (target : DeploymentSpec Pod) (restartRequired : Bool) :
    Keeps (calm m service cluster) (Known restartRequired)
      (reconcileDeployment m (service.deploymentName cluster) target restartRequired) (fun _ s => ¬ s.stale) := by
  unfold reconcileDeployment
  refine keeps_bind (R := fun a s => Known restartRequired s ∧ (match a with
    | .ok d => Found d s
    | .error e => (e.isNotFound = true → s.deployment = none) ∧ (e.isNotFound = false → Calm s)))
    (keeps_ask fun s a s' hs hsem => ?_) fun a => ?_
  · obtain ⟨hknown, hfailed⟩ := aside hs (fun _ => rfl) rfl hsem
    obtain ⟨s₁, hmoved, heffect, hcond⟩ := hsem
    obtain rfl := heffect.unchanged rfl
    have hreads : Reads s'.deployment a := heffect.reads rfl
    refine ⟨hknown, ?_⟩
    cases a with
    | ok d => exact ⟨d, hreads, rfl⟩
    | error e => exact ⟨hreads, fun hother => hfailed (by show (!e.isNotFound) = true; rw [hother]; rfl)⟩
  cases a with
  | error e =>
      dsimp only
      split
      · rename_i hother
        exact keeps_throw fun s hs => hs.2.2 (by simpa using hother)
      · rename_i hnotFound
        have hnotFound : e.isNotFound = true := by simpa using hnotFound
        refine keeps_bind (R := fun _ => Calm) (keeps_ask fun s a s' hs hsem => ?_) fun a => ?_
        · obtain ⟨s₁, hmoved, heffect, _⟩ := hsem
          have hnone : s₁.deployment = none := by
            have hnone := hs.2.1 hnotFound
            rcases hmoved with rfl | ⟨d, conditions, hd, rfl⟩
            · exact hnone
            · rw [hnone] at hd
              cases hd
          rcases heffect.writes with happ | ⟨_, rfl⟩
          · simp only [applied, if_true, hnone, Option.isNone_none] at happ
            obtain rfl := Option.some.inj happ
            refine calm_of_fresh ?_
            unfold Stored.writeSpec
            rw [hnone]
            exact id
          · exact fun _ => hnone
        · exact keeps_orFail_throw
  | ok d =>
      dsimp only
      split
      · refine keeps_bind (R := fun now s => Found d s ∧
          (s.stale → d.spec.template.annotations.lookup restartedAt ≠ some (m.rfc3339 now)))
          (keeps_ask fun s now s' hs hsem => ?_) fun now => ?_
        · obtain ⟨s₁, hmoved, heffect, hcond⟩ := hsem
          obtain rfl := heffect.unchanged rfl
          have hfound := hs.2.moved hmoved
          refine ⟨hfound, fun hstale => ?_⟩
          obtain ⟨d', hd', hspec⟩ := hfound
          rw [← hspec]
          exact hcond.clock ⟨hstale, by rw [hd']; exact Option.some_ne_none _⟩ d' hd'
        · refine keeps_bind (R := fun _ => Calm) (keeps_ask fun s a s' hs hsem => ?_) fun a => ?_
          · exact patched hs.1 (fun hstale => annotate_differs d.spec target (hs.2 hstale)) hsem
          · exact keeps_orFail_throw
      · rename_i hrestart
        have hfresh : ∀ s : Stored Pod, Known restartRequired s ∧ Found d s → ¬ s.stale := fun s hs =>
          hs.2.fresh (hs.1 (by simpa using hrestart))
        split
        · split
          · exact keeps_pure fun s hs => hfresh s hs
          · exact keeps_throw fun s hs => calm_of_fresh (hfresh s hs)
        · refine keeps_bind (R := fun _ => Calm) (keeps_ask fun s a s' hs hsem => ?_) fun a => ?_
          · exact patched hs.2 (fun hstale => absurd hstale (hfresh s hs)) hsem
          · exact keeps_orFail_throw

/-- Two names that differ behind a common part. -/
theorem append_ne (common : String) {a b : String} (h : a ≠ b) : common ++ a ≠ common ++ b :=
  fun heq => h (String.append_right_inj common |>.mp heq)

theorem sse_keeps (r : ETOSSSEDeployment Pod) (values : ClusterValues) :
    Keeps (calm m .sse values.name) Calm (r.reconcile m values) (fun _ s => ¬ s.stale) := by
  have hconfig : Keeps (calm m .sse values.name) Calm (r.config m values) (fun _ => Calm) := by
    unfold ETOSSSEDeployment.config
    refine keeps_bind (sourceData_keeps _) fun etos => ?_
    dsimp only
    split
    · exact keeps_throw fun s hs => hs
    · split
      · exact keeps_pure fun s hs => hs
      · exact keeps_pure fun s hs => hs
  unfold ETOSSSEDeployment.reconcile
  refine keeps_bind (keeps_bind hconfig fun target => reconcileConfig_keeps Fields.deepEqual target)
    fun restartRequired => ?_
  refine keeps_bind (reconcileObject_keeps _ _ restartRequired) fun _ => ?_
  refine keeps_bind (reconcileObject_keeps _ _ restartRequired) fun _ => ?_
  refine keeps_bind (reconcileObject_keeps _ _ restartRequired) fun _ => ?_
  refine keeps_bind (reconcileObject_keeps _ _ restartRequired) fun _ => ?_
  exact reconcileDeployment_keeps _ restartRequired

theorem api_keeps (r : ETOSApiDeployment Pod) (values : ClusterValues) :
    Keeps (calm m .api values.name) Calm (r.reconcile m values) (fun _ s => ¬ s.stale) := by
  have hconfig : Keeps (calm m .api values.name) Calm r.config (fun _ => Calm) := by
    unfold ETOSApiDeployment.config
    refine keeps_bind (sourceData_keeps _) fun eiffel => ?_
    refine keeps_bind (sourceData_keeps _) fun etos => ?_
    refine keeps_bind (sourceData_keeps _) fun cfg => ?_
    exact keeps_pure fun s hs => hs
  unfold ETOSApiDeployment.reconcile
  refine keeps_bind (keeps_bind hconfig fun target => reconcileConfig_keeps Fields.deepDerivative target)
    fun restartRequired => ?_
  have htoken : values.name ++ "-etos-api" ++ "-token" ≠ ETOSService.api.configName values.name :=
    append_ne _ (by decide)
  refine keeps_bind (R := fun _ => Known restartRequired)
    (keeps_bind (reconcileData_keeps _ _ htoken restartRequired) fun _ => keeps_pure fun s hs => hs) fun _ => ?_
  refine keeps_bind (reconcileObject_keeps _ _ restartRequired) fun _ => ?_
  refine keeps_bind (reconcileObject_keeps _ _ restartRequired) fun _ => ?_
  refine keeps_bind (reconcileObject_keeps _ _ restartRequired) fun _ => ?_
  refine keeps_bind (reconcileObject_keeps _ _ restartRequired) fun _ => ?_
  exact reconcileDeployment_keeps _ restartRequired

theorem suiteStarter_keeps (r : ETOSSuiteStarterDeployment Pod) (values : ClusterValues) :
    Keeps (calm m .suiteStarter values.name) Calm (r.reconcile m values) (fun _ s => ¬ s.stale) := by
  have hcfg : ETOSService.suiteStarter.configName values.name = values.name ++ "-etos-suite-starter-cfg" :=
    String.append_assoc
  have hmerged : Keeps (calm m .suiteStarter values.name) Calm (r.mergedSecret values) (fun _ => Calm) := by
    unfold ETOSSuiteStarterDeployment.mergedSecret
    refine keeps_bind (sourceData_keeps _) fun eiffel => ?_
    refine keeps_bind (sourceData_keeps _) fun etos => ?_
    dsimp only
    split
    · exact keeps_pure fun s hs => hs
    · exact keeps_pure fun s hs => hs
  have hconfig : ∀ secretName, Keeps (calm m .suiteStarter values.name) Calm (r.config secretName values)
      (fun _ => Calm) := by
    intro secretName
    unfold ETOSSuiteStarterDeployment.config
    refine keeps_bind (sourceData_keeps _) fun eiffel => ?_
    refine keeps_bind (sourceData_keeps _) fun etos => ?_
    exact keeps_pure fun s hs => hs
  have hrunner : values.name ++ "-etos-suite-runner-cfg" ≠ ETOSService.suiteStarter.configName values.name := by
    rw [hcfg]
    exact append_ne _ (by decide)
  have htemplate : values.name ++ "-etos-suite-runner" ++ "-template" ≠
      ETOSService.suiteStarter.configName values.name := by
    rw [hcfg, String.append_assoc]
    exact append_ne _ (by decide)
  have htoken : values.name ++ "-etos-suite-starter" ++ "-token" ≠ ETOSService.suiteStarter.configName values.name :=
    append_ne _ (by decide)
  unfold ETOSSuiteStarterDeployment.reconcile
  refine keeps_bind (R := fun _ => Calm) ?_ fun _ => ?_
  · exact fun s hs => (reconcileObject_keeps _ _ false s fun _ => hs).post fun r s' hr => by
      cases r with
      | ok _ => exact hr rfl
      | error _ => exact hr
  refine keeps_bind (R := fun _ => Calm) ?_ fun secretName => ?_
  · refine keeps_bind hmerged fun target => ?_
    refine keeps_bind (R := fun _ => Known false) (fun s hs => reconcileData_keeps _ _ hrunner false s fun _ => hs)
      fun _ => ?_
    exact keeps_pure fun s hs => hs rfl
  refine keeps_bind (keeps_bind (hconfig secretName) fun target => reconcileConfig_keeps Fields.deepDerivative target)
    fun configWritten => ?_
  refine keeps_bind (reconcileData_keeps _ _ htemplate configWritten) fun templateWritten => ?_
  refine keeps_bind (R := fun _ => Known configWritten)
    (keeps_bind (reconcileData_keeps _ _ htoken configWritten) fun _ => keeps_pure fun s hs => hs) fun _ => ?_
  refine keeps_bind (reconcileObject_keeps _ _ configWritten) fun _ => ?_
  refine keeps_bind (reconcileObject_keeps _ _ configWritten) fun _ => ?_
  refine keeps_bind (reconcileObject_keeps _ _ configWritten) fun _ => ?_
  refine keeps_bind (reconcileObject_keeps _ _ configWritten) fun _ => ?_
  refine keeps_bind (reconcileObject_keeps _ _ configWritten) fun _ => ?_
  refine keeps_bind (reconcileObject_keeps _ _ configWritten) fun _ => ?_
  intro s hs
  refine reconcileDeployment_keeps _ _ s fun hneither => hs ?_
  exact (Bool.or_eq_false_iff.mp hneither).1

theorem Reconciles.keeps {p : Reconcile Pod Unit} (h : Reconciles m cluster service p) :
    Keeps (calm m service cluster) Calm p (fun _ s => ¬ s.stale) := by
  cases h with
  | sse r values h =>
      subst h
      exact sse_keeps r values
  | api r values h =>
      subst h
      exact api_keeps r values
  | suiteStarter r values h =>
      subst h
      exact suiteStarter_keeps r values

/-- Between undisturbed attempts running pods have the config as it is stored. -/
theorem Reached.calm {s : Stored Pod} (h : Reached m service cluster (Undisturbed m service cluster) s) : Calm s := by
  induction h with
  | start h => exact calm_of_fresh h
  | attempt _ hp hattempt ih =>
      obtain ⟨r, _, ⟨rfl, rfl⟩, hpost⟩ := Prog.Can.meets hattempt (hp.keeps _ ih)
      cases r with
      | ok _ => exact calm_of_fresh hpost
      | error _ => exact hpost

end Attempts

/-! ## Attempts of the API -/

section Examples

/-- A successful call, in a run that is not disturbed by it. -/
theorem smooth {m : Machinery Pod} {service : ETOSService} {cluster : String} {s s' : Stored Pod} {o : Op Pod}
    {a : Ans Pod o} (hok : failed o a = false) (hnow : o ≠ .now) : Undisturbed m service cluster s o a s' where
  calls hfailed := by
    rw [hok] at hfailed
    cases hfailed
  config hfailed := by
    rw [hok] at hfailed
    cases hfailed
  clock := by
    cases o with
    | now => exact absurd rfl hnow
    | _ => trivial

/-- Pods that are all the same, a clock whose text is the number of seconds, and URLs that are their hosts. -/
def plain : Machinery Unit := ⟨fun _ _ => true, fun _ target _ => target, fun now => toString now, Url.URL.host⟩

def apiDeployment : ETOSApiDeployment Unit :=
  { rabbitmqSecret := "rabbitmq", messagebusSecret := "messagebus", etosSecret := "etos-cfg", pod := fun _ _ => () }

def reconcileApi : Reconcile Unit Unit := apiDeployment.reconcile plain { name := "etos" }

theorem reconcileApi_reconciles : Reconciles plain "etos" .api reconcileApi := .api apiDeployment _ rfl

/-- The config with this value for the host. -/
def hostConfig (host : UInt8) : Fields Bytes := [("ETOS_RABBITMQ_HOST", [host])]

/-- The API is up, with the annotations on its template. -/
def apiStored (host : UInt8) (annotations : Fields String) (stale : Prop) : Stored Unit where
  config := some (hostConfig host)
  deployment := some ⟨⟨1, annotations, ()⟩, [⟨"Progressing", "NewReplicaSetAvailable", ""⟩]⟩
  stale := stale

/-- The host in the config has changed. -/
def hostChanged : Prop := False ∨ (hostConfig 1).Differ (hostConfig 2)

theorem hostChanged_holds : hostChanged := .inr ⟨"ETOS_RABBITMQ_HOST", by decide⟩

theorem rabbitmq_ne : "rabbitmq" ≠ ETOSService.api.configName "etos" := by decide

theorem messagebus_ne : "messagebus" ≠ ETOSService.api.configName "etos" := by decide

theorem etosCfg_ne : "etos-cfg" ≠ ETOSService.api.configName "etos" := by decide

theorem token_ne : "etos" ++ "-etos-api" ++ "-token" ≠ ETOSService.api.configName "etos" := by decide

variable {cond : Sem (Op Unit) (Ans Unit) (Stored Unit)}
  (hcond : ∀ s o a s', failed o a = false → o ≠ .now → cond s o a s')
include hcond

/-- A call, before which the Deployment controller does nothing. -/
theorem called {s s' : Stored Unit} {o : Op Unit} {a : Ans Unit o}
    (heffect : Effect plain (ETOSService.api.configName "etos") (ETOSService.api.deploymentName "etos") s o a s')
    (hok : failed o a = false) (hnow : o ≠ .now) :
    sem plain (ETOSService.api.configName "etos") (ETOSService.api.deploymentName "etos") cond s o a s' :=
  ⟨s, .inl rfl, heffect, hcond s o a s' hok hnow⟩

/-- An attempt that finds everything as it should be. -/
theorem reconcileApi_clean (annotations : Fields String) (stale : Prop) :
    Attempt plain .api "etos" cond reconcileApi (apiStored 2 annotations stale) (.ok ())
      (apiStored 2 annotations stale) :=
  ⟨.ok (hostConfig 2), _, called hcond ⟨fun h => absurd h rabbitmq_ne, .inl rfl⟩ rfl nofun,
    .ok [], _, called hcond ⟨fun h => absurd h messagebus_ne, .inl rfl⟩ rfl nofun,
    .ok [], _, called hcond ⟨fun h => absurd h etosCfg_ne, .inl rfl⟩ rfl nofun,
    .ok (hostConfig 2), _, called hcond ⟨fun _ => rfl, .inl rfl⟩ rfl nofun,
    .ok [], _, called hcond ⟨fun h => absurd h token_ne, .inl rfl⟩ rfl nofun,
    .ok (), _, called hcond ⟨trivial, .inl rfl⟩ rfl nofun, .ok (), _, called hcond ⟨trivial, .inl rfl⟩ rfl nofun,
    .ok (), _, called hcond ⟨trivial, .inl rfl⟩ rfl nofun, .ok (), _, called hcond ⟨trivial, .inl rfl⟩ rfl nofun,
    .ok (), _, called hcond ⟨trivial, .inl rfl⟩ rfl nofun, .ok (), _, called hcond ⟨trivial, .inl rfl⟩ rfl nofun,
    .ok (), _, called hcond ⟨trivial, .inl rfl⟩ rfl nofun, .ok (), _, called hcond ⟨trivial, .inl rfl⟩ rfl nofun,
    .ok _, _, called hcond ⟨fun _ => rfl, .inl rfl⟩ rfl nofun, rfl, rfl⟩

/-- An attempt that writes the config, and then fails to read the secret of the token. -/
theorem reconcileApi_interrupted
    (hfails : ∀ s, cond s (.getSecret ("etos" ++ "-etos-api" ++ "-token")) (.error (.new "timeout")) s) :
    Attempt plain .api "etos" cond reconcileApi (apiStored 1 [] False) (.error (.err (.new "timeout")))
      (apiStored 2 [] hostChanged) :=
  ⟨.ok (hostConfig 2), _, called hcond ⟨fun h => absurd h rabbitmq_ne, .inl rfl⟩ rfl nofun,
    .ok [], _, called hcond ⟨fun h => absurd h messagebus_ne, .inl rfl⟩ rfl nofun,
    .ok [], _, called hcond ⟨fun h => absurd h etosCfg_ne, .inl rfl⟩ rfl nofun,
    .ok (hostConfig 1), _, called hcond ⟨fun _ => rfl, .inl rfl⟩ rfl nofun,
    .ok (), _, called hcond ⟨trivial, .inl rfl⟩ rfl nofun,
    .error (.new "timeout"), _, ⟨_, .inl rfl, ⟨fun h => absurd h token_ne, .inl rfl⟩, hfails _⟩, rfl, rfl⟩

/-- An attempt that writes the config, and then restarts the pods. -/
theorem reconcileApi_restarting
    (hclock : cond (apiStored 2 [] hostChanged) .now (7 : Int) (apiStored 2 [] hostChanged)) :
    ∃ stale, Attempt plain .api "etos" cond reconcileApi (apiStored 1 [] False)
      (.error (.notReady "etos-etos-api" "deployment just updated"))
      (apiStored 2 [(restartedAt, toString (7 : Int))] stale) :=
  ⟨_, .ok (hostConfig 2), _, called hcond ⟨fun h => absurd h rabbitmq_ne, .inl rfl⟩ rfl nofun,
    .ok [], _, called hcond ⟨fun h => absurd h messagebus_ne, .inl rfl⟩ rfl nofun,
    .ok [], _, called hcond ⟨fun h => absurd h etosCfg_ne, .inl rfl⟩ rfl nofun,
    .ok (hostConfig 1), _, called hcond ⟨fun _ => rfl, .inl rfl⟩ rfl nofun,
    .ok (), _, called hcond ⟨trivial, .inl rfl⟩ rfl nofun,
    .ok [], _, called hcond ⟨fun h => absurd h token_ne, .inl rfl⟩ rfl nofun,
    .ok (), _, called hcond ⟨trivial, .inl rfl⟩ rfl nofun, .ok (), _, called hcond ⟨trivial, .inl rfl⟩ rfl nofun,
    .ok (), _, called hcond ⟨trivial, .inl rfl⟩ rfl nofun, .ok (), _, called hcond ⟨trivial, .inl rfl⟩ rfl nofun,
    .ok (), _, called hcond ⟨trivial, .inl rfl⟩ rfl nofun, .ok (), _, called hcond ⟨trivial, .inl rfl⟩ rfl nofun,
    .ok (), _, called hcond ⟨trivial, .inl rfl⟩ rfl nofun, .ok (), _, called hcond ⟨trivial, .inl rfl⟩ rfl nofun,
    .ok _, _, called hcond ⟨fun _ => rfl, .inl rfl⟩ rfl nofun,
    (7 : Int), _, ⟨_, .inl rfl, ⟨trivial, .inl rfl⟩, hclock⟩,
    .ok (), _, called hcond ⟨trivial, .inl rfl⟩ rfl nofun, rfl, rfl⟩

omit hcond

/-- **An interrupted attempt is forgotten.** The API is up; its config changes, and the attempt that writes it fails
    right after. The next attempt returns without an error, and the pods run on with the old config. -/
theorem interrupted_stale :
    ¬ ∀ (s s' : Stored Unit) (p : Reconcile Unit Unit),
      Reached plain .api "etos" (fun _ _ _ _ => True) s → Reconciles plain "etos" .api p →
      Attempt plain .api "etos" (fun _ _ _ _ => True) p s (.ok ()) s' → ¬ s'.stale := by
  intro h
  have hreached : Reached plain .api "etos" (fun _ _ _ _ => True) (apiStored 2 [] hostChanged) :=
    .attempt (.start (s := apiStored 1 [] False) id) reconcileApi_reconciles
      (reconcileApi_interrupted (fun _ _ _ _ _ _ => trivial) fun _ => trivial)
  exact h _ _ _ hreached reconcileApi_reconciles (reconcileApi_clean (fun _ _ _ _ _ _ => trivial) [] hostChanged)
    hostChanged_holds

end Examples

/-- **A changed configuration reaches the pods, if nothing comes between.** In every sequence of attempts, of the SSE,
    the API or the suite starter, in which no call fails between a change of the stored config and the change of the pod
    template, and the clock is not read twice in the same second, no attempt returns without an error unless the
    template has changed since the config last did. -/
theorem config_reaches_pods {m : Machinery Pod} {service : ETOSService} {cluster : String} {s s' : Stored Pod}
    {p : Reconcile Pod Unit}
    (h : Reached m service cluster (Undisturbed m service cluster) s) (hp : Reconciles m cluster service p)
    (hattempt : Attempt m service cluster (Undisturbed m service cluster) p s (.ok ()) s') : ¬ s'.stale := by
  obtain ⟨_, _, ⟨rfl, rfl⟩, hpost⟩ := Prog.Can.meets hattempt (hp.keeps _ h.calm)
  exact hpost

/-- The same change, and nothing fails. -/
theorem reconcileApi_restarts :
    ∃ stale, Reached plain .api "etos" (Undisturbed plain .api "etos")
        (apiStored 2 [(restartedAt, toString (7 : Int))] stale) ∧ ¬ stale := by
  have hclock : Undisturbed plain .api "etos" (apiStored 2 [] hostChanged) .now (7 : Int)
      (apiStored 2 [] hostChanged) := by
    refine ⟨nofun, nofun, ?_⟩
    rintro _ d hd
    cases hd
    exact nofun
  have hsmooth : ∀ s o a s', failed o a = false → o ≠ .now → Undisturbed plain .api "etos" s o a s' :=
    fun _ _ _ _ => smooth
  obtain ⟨stale, hattempt⟩ := reconcileApi_restarting hsmooth hclock
  have hreached := Reached.attempt (.start (s := apiStored 1 [] False) id) reconcileApi_reconciles hattempt
  exact ⟨stale, hreached, config_reaches_pods hreached reconcileApi_reconciles (reconcileApi_clean hsmooth _ stale)⟩

end Etos.Services
