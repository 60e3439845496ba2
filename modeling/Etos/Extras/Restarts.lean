import Etos.Extras.Converged
import Mathlib.Logic.Relation

/-!
# `Extras.Restarts` — how often is the message bus restarted?

Kubernetes restarts the pods of a StatefulSet when their template changes. A reconciler that has written the secret of
the message bus annotates the template with the time, and so restarts the pods. The next one has nothing to write, so
what it expects has no annotation; and, unlike the reconcilers of the services (`Services.Reconcile`), it patches the
StatefulSet in any case. The patch removes the annotation, and the pods are restarted again.

A store is *settled* if a reconciler finds the secret as it should be and the template as it would create it. Whatever a
reconciler does in a settled store, the template stays as it is (`Settled.outcome`), and the store is settled after the
first if and only if that one had no running StatefulSet to annotate (`one_restart_iff`).
-/

namespace Etos.Extras

open Kube Services Prog

variable {Pod : Type} {p : Platform Pod} {s s' : Store Pod}

/-! ## The parts of an attempt -/

/-- Did all calls of an attempt succeed? The StatefulSet need not be ready. -/
def Completed : Except Failure Unit → Prop
  | .ok _ => True
  | .error (.notReady _ _) => True
  | .error (.err _) => False

/-- A service: nothing but services is written, and an error is that of a call. -/
theorem reconcileService_outcome {deploy : Bool} {name : String} {r : Except Failure Unit}
    (h : EndsIn p.sem (reconcileService deploy name) s r s') :
    (∀ k name', k ≠ .service → s' k name' = s k name') ∧ (r = .ok () ∨ ∃ e, r = .error (.err e)) := by
  -- every path that writes ends with the answer of its one call
  have hcall : ∀ {α : Type} {a : Except Err α} {t : Store Pod}, (∀ k name', k ≠ .service → t k name' = s k name') →
      EndsIn p.sem (orFail a : Reconcile Pod Unit) t r s' →
      (∀ k name', k ≠ .service → s' k name' = s k name') ∧ (r = .ok () ∨ ∃ e, r = .error (.err e)) := by
    intro α a t hframe hout
    obtain ⟨rfl, hr⟩ := orFail_outcome.mp hout
    exact ⟨hframe, hr.imp And.right fun ⟨e, _, he⟩ => ⟨e, he⟩⟩
  obtain ⟨a, _, hout⟩ := outcome_get.mp h
  cases a with
  | error e =>
      dsimp only at hout
      split at hout
      · obtain ⟨rfl, rfl⟩ := outcome_throw.mp hout
        exact ⟨fun _ _ _ => rfl, .inr ⟨e, rfl⟩⟩
      · split at hout
        · obtain ⟨a, t, heffect, hout⟩ := outcome_ask.mp hout
          exact hcall (fun k name' hk => heffect.frame fun hw => hk hw.1) hout
        · obtain ⟨rfl, rfl⟩ := outcome_pure.mp hout
          exact ⟨fun _ _ _ => rfl, .inl rfl⟩
  | ok x =>
      dsimp only at hout
      split at hout
      · obtain ⟨a, t, heffect, hout⟩ := outcome_ask.mp hout
        exact hcall (fun k name' hk => heffect.frame fun hw => hk hw.1) hout
      · obtain ⟨a, t, heffect, hout⟩ := outcome_ask.mp hout
        exact hcall (fun k name' hk => heffect.frame fun hw => hk hw.1) hout

/-- A service can be reconciled. -/
theorem reconcileService_can (deploy : Bool) (name : String) :
    ∃ s', EndsIn p.sem (reconcileService deploy name) s (.ok ()) s' := by
  cases hservice : s .service name with
  | none =>
      have hreads : Desired.Reads s s (.get .service name)
          (.error { reason := some .notFound, text := "" } : Ans Pod (.get .service name)) := fun _ => hservice
      cases deploy with
      | false => exact ⟨s, outcome_get.mpr ⟨_, hreads, outcome_pure.mpr ⟨rfl, rfl⟩⟩⟩
      | true =>
          refine ⟨s.set .service name (some ()), outcome_get.mpr ⟨_, hreads, ?_⟩⟩
          refine outcome_ask.mpr ⟨.ok (), _, Desired.effect_create.mpr (.inl ⟨hservice, rfl⟩), ?_⟩
          exact orFail_outcome.mpr ⟨rfl, .inl ⟨⟨_, rfl⟩, rfl⟩⟩
  | some x =>
      cases deploy with
      | false =>
          refine ⟨s.set .service name none, outcome_get.mpr ⟨.ok (x, ()), hservice, ?_⟩⟩
          refine outcome_ask.mpr ⟨.ok (), _, Desired.effect_delete.mpr (.inl ⟨?_, rfl⟩), ?_⟩
          · rw [hservice]
            exact Option.some_ne_none x
          · exact orFail_outcome.mpr ⟨rfl, .inl ⟨⟨_, rfl⟩, rfl⟩⟩
      | true =>
          refine ⟨s.set .service name (some x), outcome_get.mpr ⟨.ok (x, ()), hservice, ?_⟩⟩
          refine outcome_ask.mpr ⟨.ok (x, ()), _, Desired.effect_patch.mpr (.inl ⟨x, hservice, rfl, ?_⟩), ?_⟩
          · exact fun _ _ => rfl
          · exact orFail_outcome.mpr ⟨rfl, .inl ⟨⟨_, rfl⟩, rfl⟩⟩

/-- The StatefulSet that is patched is the target, with an annotation when a restart is required. -/
def Restarted (p : Platform Pod) (target : StatefulSetSpec Pod) (restartRequired : Bool)
    (target' : StatefulSetSpec Pod) : Prop :=
  if restartRequired then ∃ now, target' = target.annotate (p.rfc3339 now) else target' = target

theorem restarting_outcome {target : StatefulSetSpec Pod} {restartRequired : Bool}
    {r : Except Failure (StatefulSetSpec Pod)} (h : EndsIn p.sem (restarting p target restartRequired) s r s') :
    s = s' ∧ ∃ target', r = .ok target' ∧ Restarted p target restartRequired target' := by
  cases restartRequired with
  | false =>
      obtain ⟨rfl, rfl⟩ := outcome_pure.mp h
      exact ⟨rfl, target, rfl, rfl⟩
  | true =>
      obtain ⟨now, t, heffect, hout⟩ := outcome_ask.mp h
      obtain rfl := Desired.effect_now.mp heffect
      obtain ⟨rfl, rfl⟩ := outcome_pure.mp hout
      exact ⟨rfl, _, rfl, now, rfl⟩

/-- What an attempt can do to a StatefulSet, from what is stored of it before to what is stored afterwards. -/
inductive Touched (p : Platform Pod) (deploy : Bool) (target : StatefulSetSpec Pod) (restartRequired : Bool)
    (r : Except Failure Unit) : Option (StatefulSetSpec Pod) → Option (StatefulSetSpec Pod) → Prop where
  /-- There is none, and there should be none. -/
  | absent (h : deploy = false) : Touched p deploy target restartRequired r none none
  /-- A call failed. -/
  | failed {stored : Option (StatefulSetSpec Pod)} (h : ¬ Completed r) :
      Touched p deploy target restartRequired r stored stored
  | created (h : deploy = true) : Touched p deploy target restartRequired r none (some (target.defaulted p))
  | deleted {live : StatefulSetSpec Pod} (h : deploy = false) :
      Touched p deploy target restartRequired r (some live) none
  | patched {live target' : StatefulSetSpec Pod} (h : deploy = true) (ht : Restarted p target restartRequired target') :
      Touched p deploy target restartRequired r (some live) (some ((live.merge p target' live).defaulted p))

/-- Nothing but StatefulSets is touched, and the one with the name in one of these ways. -/
def TouchedOnly (p : Platform Pod) (deploy : Bool) (name : String) (target : StatefulSetSpec Pod)
    (restartRequired : Bool) (r : Except Failure Unit) (s s' : Store Pod) : Prop :=
  (∀ k name', k ≠ .statefulSet → s' k name' = s k name') ∧
    Touched p deploy target restartRequired r (s .statefulSet name) (s' .statefulSet name)

section Statefulset

variable {deploy restartRequired : Bool} {name : String} {target : StatefulSetSpec Pod} {r : Except Failure Unit}

/-- After a call that went through the attempt ends with an error of its own. -/
theorem orFail_throw_outcome {α : Type} {a : Except Err α} {e : Failure}
    (h : EndsIn p.sem (do orFail a; throw e : Reconcile Pod Unit) s r s') :
    s = s' ∧ ((∃ x, a = .ok x) ∨ ∃ e', a = .error e' ∧ r = .error (.err e')) := by
  rcases outcome_bind.mp h with ⟨e', hfail, rfl⟩ | ⟨_, t, hfail, hthrow⟩
  · obtain ⟨rfl, ⟨_, hr⟩ | ⟨e'', ha, hr⟩⟩ := orFail_outcome.mp hfail
    · cases hr
    · exact ⟨rfl, .inr ⟨e'', ha, hr⟩⟩
  · obtain ⟨rfl, ⟨ha, _⟩ | ⟨e'', _, hr⟩⟩ := orFail_outcome.mp hfail
    · exact ⟨(outcome_throw.mp hthrow).2, .inl ha⟩
    · cases hr

theorem createStatefulset_outcome {e : Failure} (hnone : s .statefulSet name = none) (hdeploy : deploy = true)
    (h : EndsIn p.sem
      (do
        orFail (← ask (.create .statefulSet name target))
        throw e : Reconcile Pod Unit) s r s') :
    TouchedOnly p deploy name target restartRequired r s s' := by
  obtain ⟨a, t, heffect, hout⟩ := outcome_ask.mp h
  obtain ⟨rfl, hr⟩ := orFail_throw_outcome hout
  refine ⟨fun k name' hk => heffect.frame fun hw => hk hw.1, ?_⟩
  rw [hnone]
  rcases Desired.effect_create.mp heffect with ⟨_, rfl⟩ | ⟨hfailed, rfl⟩
  · rw [Desired.Store.set_same]
    exact .created hdeploy
  · rw [hnone]
    refine .failed ?_
    rcases hr with ⟨x, rfl⟩ | ⟨e', _, rfl⟩
    · cases hfailed
    · exact id

theorem deleteStatefulset_outcome {live : StatefulSetSpec Pod} (hlive : s .statefulSet name = some live)
    (hdeploy : deploy = false)
    (h : EndsIn p.sem (do orFail (← ask (.delete .statefulSet name)) : Reconcile Pod Unit) s r s') :
    TouchedOnly p deploy name target restartRequired r s s' := by
  obtain ⟨a, t, heffect, hout⟩ := outcome_ask.mp h
  obtain ⟨rfl, hr⟩ := orFail_outcome.mp hout
  refine ⟨fun k name' hk => heffect.frame fun hw => hk hw.1, ?_⟩
  rw [hlive]
  rcases Desired.effect_delete.mp heffect with ⟨_, rfl⟩ | ⟨hfailed, rfl⟩
  · rw [Desired.Store.set_same]
    exact .deleted hdeploy
  · rw [hlive]
    refine .failed ?_
    rcases hr with ⟨⟨x, rfl⟩, _⟩ | ⟨e, _, rfl⟩
    · cases hfailed
    · exact id

theorem patchStatefulset_outcome {live : StatefulSetSpec Pod} (hlive : s .statefulSet name = some live)
    (hdeploy : deploy = true)
    (h : EndsIn p.sem
      (do
        let target ← restarting p target restartRequired
        match ← ask (.patch .statefulSet name target live) with
        | .error e => throw (.err e)
        | .ok (patched, readyReplicas) => ExceptT.mk (pure (statefulSetReady name patched readyReplicas)) :
          Reconcile Pod Unit) s r s') :
    TouchedOnly p deploy name target restartRequired r s s' := by
  rcases outcome_bind.mp h with ⟨e, hrestart, _⟩ | ⟨target', t, hrestart, hout⟩
  · obtain ⟨_, _, hr, _⟩ := restarting_outcome hrestart
    cases hr
  obtain ⟨rfl, _, hr, htarget⟩ := restarting_outcome hrestart
  cases hr
  obtain ⟨a, t, heffect, hout⟩ := outcome_ask.mp hout
  -- whether the StatefulSet is ready does not change what is stored
  have hs' : s' = t := by
    cases a with
    | error e => exact (outcome_throw.mp hout).2.symm
    | ok y => exact hout.2.symm
  subst hs'
  refine ⟨fun k name' hk => heffect.frame fun hw => hk hw.1, ?_⟩
  rw [hlive]
  rcases Desired.effect_patch.mp heffect with ⟨stored, hstored, rfl, _⟩ | ⟨⟨e, rfl⟩, rfl⟩
  · rw [hlive] at hstored
    cases hstored
    rw [Desired.Store.set_same]
    exact .patched hdeploy htarget
  · rw [hlive]
    obtain ⟨rfl, _⟩ := outcome_throw.mp hout
    exact .failed id

theorem reconcileStatefulset_outcome
    (h : EndsIn p.sem (reconcileStatefulset p deploy name target restartRequired) s r s') :
    TouchedOnly p deploy name target restartRequired r s s' := by
  obtain ⟨a, hreads, hout⟩ := outcome_get.mp h
  cases a with
  | error e =>
      dsimp only at hout
      split at hout
      · obtain ⟨rfl, rfl⟩ := outcome_throw.mp hout
        exact ⟨fun _ _ _ => rfl, .failed id⟩
      · rename_i hnotFound
        have hnone : s .statefulSet name = none := hreads (by simpa using hnotFound)
        split at hout
        · rename_i hdeploy
          exact createStatefulset_outcome hnone hdeploy hout
        · rename_i hdeploy
          obtain ⟨rfl, rfl⟩ := outcome_pure.mp hout
          refine ⟨fun _ _ _ => rfl, ?_⟩
          rw [hnone]
          exact .absent (by simpa using hdeploy)
  | ok x =>
      have hlive : s .statefulSet name = some x.1 := hreads
      dsimp only at hout
      split at hout
      · rename_i hdeploy
        exact deleteStatefulset_outcome hlive (by simpa using hdeploy) hout
      · rename_i hdeploy
        exact patchStatefulset_outcome hlive (by simpa using hdeploy) hout

end Statefulset

/-- A StatefulSet can be reconciled. -/
theorem reconcileStatefulset_can (deploy : Bool) (name : String) (target : StatefulSetSpec Pod)
    (restartRequired : Bool) :
    ∃ result s', EndsIn p.sem (reconcileStatefulset p deploy name target restartRequired) s result s' ∧
      Completed result := by
  cases hstored : s .statefulSet name with
  | none =>
      have hreads : Desired.Reads s s (.get .statefulSet name)
          (.error { reason := some .notFound, text := "" } : Ans Pod (.get .statefulSet name)) := fun _ => hstored
      cases deploy with
      | false => exact ⟨.ok (), s, outcome_get.mpr ⟨_, hreads, outcome_pure.mpr ⟨rfl, rfl⟩⟩, trivial⟩
      | true =>
          refine ⟨.error (.notReady name "statefulset just created"),
            s.set .statefulSet name (some (target.defaulted p)), outcome_get.mpr ⟨_, hreads, ?_⟩, trivial⟩
          refine outcome_ask.mpr ⟨.ok (), _, Desired.effect_create.mpr (.inl ⟨hstored, rfl⟩), ?_⟩
          refine outcome_bind.mpr (.inr ⟨(), _, orFail_outcome.mpr ⟨rfl, .inl ⟨⟨_, rfl⟩, rfl⟩⟩, ?_⟩)
          exact outcome_throw.mpr ⟨rfl, rfl⟩
  | some live =>
      cases deploy with
      | false =>
          refine ⟨.ok (), s.set .statefulSet name none, outcome_get.mpr ⟨.ok (live, 0), hstored, ?_⟩, trivial⟩
          refine outcome_ask.mpr ⟨.ok (), _, Desired.effect_delete.mpr (.inl ⟨?_, rfl⟩), ?_⟩
          · rw [hstored]
            exact Option.some_ne_none live
          · exact orFail_outcome.mpr ⟨rfl, .inl ⟨⟨_, rfl⟩, rfl⟩⟩
      | true =>
          obtain ⟨target', htarget⟩ :
              ∃ target', EndsIn p.sem (restarting p target restartRequired) s (.ok target') s := by
            cases restartRequired with
            | false => exact ⟨_, outcome_pure.mpr ⟨rfl, rfl⟩⟩
            | true => exact ⟨_, outcome_ask.mpr ⟨(0 : Int), s, Desired.effect_now.mpr rfl, outcome_pure.mpr ⟨rfl, rfl⟩⟩⟩
          let patched := (live.merge p target' live).defaulted p
          refine ⟨statefulSetReady name patched 0, s.set .statefulSet name (some patched),
            outcome_get.mpr ⟨.ok (live, 0), hstored, ?_⟩, ?_⟩
          · refine outcome_bind.mpr (.inr ⟨target', s, htarget, ?_⟩)
            refine outcome_ask.mpr ⟨.ok (patched, 0), _, Desired.effect_patch.mpr (.inl ⟨live, hstored, rfl, ?_⟩), ?_⟩
            · rintro x ⟨⟩
              rfl
            · exact ⟨rfl, rfl⟩
          · unfold statefulSetReady
            dsimp only
            split <;> trivial

/-- Once the secret is done, an attempt writes services and the StatefulSet. -/
theorem deployed_outcome {deploy restartRequired : Bool} {name : String} {target : StatefulSetSpec Pod}
    {r : Except Failure Unit}
    (h : EndsIn p.sem
      (do
        reconcileService deploy (name ++ "-headless")
        reconcileService deploy name
        reconcileStatefulset p deploy name target restartRequired) s r s') :
    (∀ k name', k ≠ .service → k ≠ .statefulSet → s' k name' = s k name') ∧
      Touched p deploy target restartRequired r (s .statefulSet name) (s' .statefulSet name) := by
  have hfailed : ∀ {e : Failure}, (Except.error e : Except Failure Unit) = .ok () ∨ (∃ e', Except.error e =
      (.error (.err e') : Except Failure Unit)) → ¬ Completed (.error e) := by
    rintro e (he | ⟨e', he⟩)
    · cases he
    · cases he
      exact id
  rcases outcome_bind.mp h with ⟨e, hheadless, rfl⟩ | ⟨_, t₁, hheadless, h⟩
  · obtain ⟨hframe, hr⟩ := reconcileService_outcome hheadless
    refine ⟨fun k name' hk _ => hframe k name' hk, ?_⟩
    rw [hframe .statefulSet name nofun]
    exact .failed (hfailed hr)
  obtain ⟨hframe₁, _⟩ := reconcileService_outcome hheadless
  rcases outcome_bind.mp h with ⟨e, hservice, rfl⟩ | ⟨_, t₂, hservice, h⟩
  · obtain ⟨hframe, hr⟩ := reconcileService_outcome hservice
    refine ⟨fun k name' hk _ => (hframe k name' hk).trans (hframe₁ k name' hk), ?_⟩
    rw [hframe .statefulSet name nofun, hframe₁ .statefulSet name nofun]
    exact .failed (hfailed hr)
  obtain ⟨hframe₂, _⟩ := reconcileService_outcome hservice
  obtain ⟨hframe₃, htouched⟩ := reconcileStatefulset_outcome h
  refine ⟨fun k name' hk hk' => ?_, ?_⟩
  · rw [hframe₃ k name' hk', hframe₂ k name' hk, hframe₁ k name' hk]
  · rw [← hframe₁ .statefulSet name nofun, ← hframe₂ .statefulSet name nofun]
    exact htouched

/-- What is read of a password depends on secrets and config maps only. -/
theorem storedPassword_congr (hsecret : ∀ name, s' .secret name = s .secret name)
    (hconfigMap : ∀ name, s' .configMap name = s .configMap name) (r : RabbitMQ) :
    storedPassword s' r = storedPassword s r := by
  unfold storedPassword storedVar
  simp only [hsecret, hconfigMap]

/-! ## Settled stores -/

/-- The template is as a reconciler creates it: without annotations. -/
structure Fresh (p : Platform Pod) (pod : Pod) (live : StatefulSetSpec Pod) : Prop where
  annotations : ∀ key, live.template.annotations.lookup key = none
  pod : live.template.pod = p.defaultPod pod

theorem fresh_created (pod : Pod) : Fresh p pod ((statefulset pod).defaulted p) := ⟨fun _ => rfl, rfl⟩

/-- A patch with what is expected, without an annotation, makes the template fresh. -/
theorem fresh_patched (hmerge : ∀ original target, p.mergePod original target original = target) (pod : Pod)
    (live : StatefulSetSpec Pod) : Fresh p pod ((live.merge p (statefulset pod) live).defaulted p) := by
  have hnodup : (([] : Fields String).map Prod.fst).Nodup := List.nodup_nil
  exact ⟨Fields.lookup_merge_self hnodup _, congrArg p.defaultPod (hmerge _ _)⟩

/-- A patch with an annotation sets it. -/
theorem lookup_annotated (pod : Pod) (live : StatefulSetSpec Pod) (value : String) :
    ((live.merge p ((statefulset pod).annotate value) live).defaulted p).template.annotations.lookup restartedAt =
      some value := by
  have hnodup : (((statefulset pod).annotate value).template.annotations.map Prod.fst).Nodup := List.nodup_singleton _
  exact (Fields.lookup_merge_self hnodup _ restartedAt).trans List.lookup_cons_self

theorem Fresh.not_differ {pod : Pod} {a b : StatefulSetSpec Pod} (ha : Fresh p pod a) (hb : Fresh p pod b) :
    ¬ a.template.Differ b.template := by
  rintro (⟨key, hkey⟩ | hpod)
  · exact hkey ((ha.annotations key).trans (hb.annotations key).symm)
  · exact hpod (ha.pod.trans hb.pod.symm)

/-- The two have the same pod template, or there is none. -/
def SameTemplate : Option (StatefulSetSpec Pod) → Option (StatefulSetSpec Pod) → Prop
  | none, none => True
  | some a, some b => ¬ a.template.Differ b.template
  | _, _ => False

namespace MessageBusDeployment

variable {r : MessageBusDeployment Pod} {cluster : ClusterName} {rabbitmq : RabbitMQ}

/-- The secret of the specification `rabbitmq`, as stored, has what a reconciler expects. -/
def SecretSettled (rabbitmq : RabbitMQ) (cluster : ClusterName) (s : Store Pod) : Prop :=
  ∃ password live, storedPassword s (located rabbitmq (baseName cluster)) = some password ∧
    s .secret (baseName cluster) = some live ∧
      (data (located rabbitmq (baseName cluster)) password).deepDerivative live = true

/-- The StatefulSet is as a reconciler creates it, or there is none because none is deployed. -/
def TemplateSettled (p : Platform Pod) (r : MessageBusDeployment Pod) (rabbitmq : RabbitMQ) (cluster : ClusterName) :
    Option (StatefulSetSpec Pod) → Prop
  | none => rabbitmq.deploy = false
  | some live => rabbitmq.deploy = true ∧ Fresh p (r.pod (baseName cluster) cluster.name) live

/-- A reconciler has nothing left to do. -/
structure Settled (p : Platform Pod) (r : MessageBusDeployment Pod) (rabbitmq : RabbitMQ) (cluster : ClusterName)
    (s : Store Pod) : Prop where
  secret : SecretSettled rabbitmq cluster s
  template : TemplateSettled p r rabbitmq cluster (s .statefulSet (baseName cluster))

theorem secretData_gives (rabbitmq : RabbitMQ) (namespace_ : String) :
    Gives p s (secretData rabbitmq namespace_) ((storedPassword s rabbitmq).map (data rabbitmq)) :=
  (getPassword_gives rabbitmq namespace_).map (data rabbitmq)

theorem SecretSettled.congr (h : SecretSettled rabbitmq cluster s) (hsecret : ∀ name, s' .secret name = s .secret name)
    (hconfigMap : ∀ name, s' .configMap name = s .configMap name) : SecretSettled rabbitmq cluster s' := by
  obtain ⟨password, live, hpassword, hlive, hderivative⟩ := h
  refine ⟨password, live, ?_, ?_, hderivative⟩
  · rw [storedPassword_congr hsecret hconfigMap]
    exact hpassword
  · rw [hsecret]
    exact hlive

/-- A settled secret is left alone, whatever happens. -/
theorem SecretSettled.outcome {result : Except Failure Bool} (h : SecretSettled rabbitmq cluster s)
    (hout : EndsIn p.sem
      (reconcileSecret (located rabbitmq (baseName cluster)) cluster (baseName cluster)) s result s') :
    s' = s ∧ ∀ written, result = .ok written → written = false := by
  obtain ⟨password, live, hpassword, hlive, hderivative⟩ := h
  have hgives := secretData_gives (p := p) (s := s) (located rabbitmq (baseName cluster)) cluster.namespace_
  rw [hpassword] at hgives
  rcases outcome_bind.mp hout with ⟨e, hprog, rfl⟩ | ⟨target, t, hprog, hout⟩
  · exact ⟨hgives.unchanged hprog, nofun⟩
  obtain rfl := hgives.unchanged hprog
  obtain rfl : data (located rabbitmq (baseName cluster)) password = target := Option.some.inj (hgives.value.mp hprog)
  obtain ⟨a, hreads, hout⟩ := outcome_get.mp hout
  cases a with
  | error e =>
      have hother : (!e.isNotFound) = true := by
        cases hnotFound : e.isNotFound with
        | false => rfl
        | true =>
            have hnone := hreads hnotFound
            rw [hlive] at hnone
            cases hnone
      dsimp only at hout
      rw [if_pos hother] at hout
      obtain ⟨rfl, rfl⟩ := outcome_throw.mp hout
      exact ⟨rfl, nofun⟩
  | ok x =>
      have hx : t .secret (baseName cluster) = some x.1 := hreads
      rw [hlive] at hx
      cases hx
      dsimp only at hout
      rw [if_pos hderivative] at hout
      obtain ⟨rfl, rfl⟩ := outcome_pure.mp hout
      refine ⟨rfl, ?_⟩
      rintro written ⟨⟩
      rfl

/-- An attempt: the secret, and then the rest. -/
theorem reconcile_outcome (hr : r.rabbitmq = some rabbitmq) {result : Except Failure Unit}
    (h : EndsIn p.sem (r.reconcile p cluster) s result s') :
    (∃ e, EndsIn p.sem (reconcileSecret (located rabbitmq (baseName cluster)) cluster (baseName cluster)) s (.error e)
      s' ∧ .error e = result) ∨
    ∃ written t,
      EndsIn p.sem (reconcileSecret (located rabbitmq (baseName cluster)) cluster (baseName cluster)) s (.ok written)
        t ∧
        (∀ k name', k ≠ .service → k ≠ .statefulSet → s' k name' = t k name') ∧
          Touched p rabbitmq.deploy (statefulset (r.pod (baseName cluster) cluster.name)) written result
            (t .statefulSet (baseName cluster)) (s' .statefulSet (baseName cluster)) := by
  unfold reconcile at h
  rw [hr] at h
  rcases outcome_bind.mp h with hfail | ⟨written, t, hsecret, hout⟩
  · exact .inl hfail
  · exact .inr ⟨written, t, hsecret, deployed_outcome hout⟩

section Runs

variable (hmerge : ∀ original target, p.mergePod original target original = target) (hr : r.rabbitmq = some rabbitmq)
include hmerge hr

/-- **A settled store stays settled**, whatever a reconciler does, also if it fails. -/
theorem Settled.outcome {result : Except Failure Unit} (h : Settled p r rabbitmq cluster s)
    (hout : EndsIn p.sem (r.reconcile p cluster) s result s') : Settled p r rabbitmq cluster s' := by
  rcases reconcile_outcome hr hout with ⟨e, hsecret, _⟩ | ⟨written, t, hsecret, hframe, htouched⟩
  · obtain ⟨rfl, _⟩ := h.secret.outcome hsecret
    exact h
  obtain ⟨rfl, hwritten⟩ := h.secret.outcome hsecret
  obtain rfl := hwritten written rfl
  refine ⟨h.secret.congr (fun name => hframe .secret name nofun nofun)
    fun name => hframe .configMap name nofun nofun, ?_⟩
  have htemplate := h.template
  generalize t .statefulSet (baseName cluster) = before at htemplate htouched
  generalize s' .statefulSet (baseName cluster) = after at htouched
  cases htouched with
  | absent hdeploy => exact hdeploy
  | failed _ => exact htemplate
  | created hdeploy => exact ⟨hdeploy, fresh_created _⟩
  | deleted hdeploy => exact hdeploy
  | patched hdeploy htarget =>
      obtain rfl : _ = statefulset _ := htarget
      exact ⟨hdeploy, fresh_patched hmerge _ _⟩

omit hmerge hr in
theorem Settled.same {t : Store Pod} (hs : Settled p r rabbitmq cluster s) (ht : Settled p r rabbitmq cluster t) :
    SameTemplate (s .statefulSet (baseName cluster)) (t .statefulSet (baseName cluster)) := by
  have hs := hs.template
  have ht := ht.template
  generalize s .statefulSet (baseName cluster) = a at hs
  generalize t .statefulSet (baseName cluster) = b at ht
  match a, b with
  | none, none => trivial
  | some a, some b => exact hs.2.not_differ ht.2
  | none, some b => exact absurd (hs.symm.trans ht.1) Bool.false_ne_true
  | some a, none => exact absurd (ht.symm.trans hs.1) Bool.false_ne_true

omit hmerge in
/-- What the first attempt does when it completes: the secret is settled, and the StatefulSet touched. If the attempt
    changed the secret, a restart was required. -/
theorem completed_outcome {result : Except Failure Unit} (h : EndsIn p.sem (r.reconcile p cluster) s result s')
    (hcompleted : Completed result)
    (hsame : storedPassword s' (located rabbitmq (baseName cluster)) =
      storedPassword s (located rabbitmq (baseName cluster))) :
    SecretSettled rabbitmq cluster s' ∧ ∃ written,
      (s' .secret (baseName cluster) ≠ s .secret (baseName cluster) → written = true) ∧
        Touched p rabbitmq.deploy (statefulset (r.pod (baseName cluster) cluster.name)) written result
          (s .statefulSet (baseName cluster)) (s' .statefulSet (baseName cluster)) := by
  have hgives := secretData_gives (p := p) (s := s) (located rabbitmq (baseName cluster)) cluster.namespace_
  rcases reconcile_outcome hr h with ⟨e, hsecret, rfl⟩ | ⟨written, t, hsecret, hframe, htouched⟩
  · obtain ⟨e', rfl⟩ := reconcileSecret_fails hgives hsecret
    exact hcompleted.elim
  obtain ⟨target, hstored, hcases⟩ := reconcileSecret_ok hgives hsecret
  obtain ⟨password, hpassword, rfl⟩ := Option.map_eq_some_iff.mp hstored
  have hsecret' := hframe .secret (baseName cluster) nofun nofun
  have hnodup := nodup_data (located rabbitmq (baseName cluster)) password
  have hsettled : ∀ live, t .secret (baseName cluster) = some live →
      (data (located rabbitmq (baseName cluster)) password).deepDerivative live = true →
      SecretSettled rabbitmq cluster s' := fun live hlive hderivative =>
    ⟨password, live, hsame.trans hpassword, hsecret'.trans hlive, hderivative⟩
  have hkind : Kind.statefulSet ≠ Kind.secret := nofun
  rcases hcases with ⟨_, rfl, rfl⟩ | ⟨live, hlive, ⟨hderivative, rfl, rfl⟩ | ⟨_, rfl, rfl⟩⟩
  · rw [Desired.Store.set_kind hkind] at htouched
    refine ⟨hsettled _ (Desired.Store.set_same _ _ _ _) ?_, true, fun _ => rfl, htouched⟩
    exact Fields.deepDerivative_of_lookup hnodup fun _ => rfl
  · exact ⟨hsettled live hlive hderivative, false, fun hchanged => absurd hsecret' hchanged, htouched⟩
  · rw [Desired.Store.set_kind hkind] at htouched
    refine ⟨hsettled _ (Desired.Store.set_same _ _ _ _) ?_, true, fun _ => rfl, htouched⟩
    exact Fields.deepDerivative_of_lookup hnodup (Fields.lookup_merge_self hnodup live)

omit hmerge in
/-- An attempt whose password can be found can complete. -/
theorem reconcile_can {password : Option Bytes}
    (hpassword : storedPassword s (located rabbitmq (baseName cluster)) = some password) :
    ∃ result s', EndsIn p.sem (r.reconcile p cluster) s result s' ∧ Completed result := by
  have hgives := secretData_gives (p := p) (s := s) (located rabbitmq (baseName cluster)) cluster.namespace_
  rw [hpassword] at hgives
  obtain ⟨written, t₁, ht₁⟩ := reconcileSecret_can hgives (baseName cluster)
  obtain ⟨t₂, ht₂⟩ := reconcileService_can (p := p) (s := t₁) rabbitmq.deploy (baseName cluster ++ "-headless")
  obtain ⟨t₃, ht₃⟩ := reconcileService_can (p := p) (s := t₂) rabbitmq.deploy (baseName cluster)
  obtain ⟨result, s', hs', hcompleted⟩ := reconcileStatefulset_can (p := p) (s := t₃) rabbitmq.deploy (baseName cluster)
    (statefulset (r.pod (baseName cluster) cluster.name)) written
  refine ⟨result, s', ?_, hcompleted⟩
  unfold reconcile
  rw [hr]
  refine outcome_bind.mpr (.inr ⟨written, t₁, ht₁, ?_⟩)
  refine outcome_bind.mpr (.inr ⟨(), t₂, ht₂, ?_⟩)
  exact outcome_bind.mpr (.inr ⟨(), t₃, ht₃, hs'⟩)

/-- With the secret settled and a StatefulSet deployed, an attempt can make the template fresh. -/
theorem can_refresh {live : StatefulSetSpec Pod} (hdeploy : rabbitmq.deploy = true)
    (hsecret : SecretSettled rabbitmq cluster s) (hlive : s .statefulSet (baseName cluster) = some live) :
    ∃ result t fresh, EndsIn p.sem (r.reconcile p cluster) s result t ∧
      t .statefulSet (baseName cluster) = some fresh ∧ Fresh p (r.pod (baseName cluster) cluster.name) fresh := by
  obtain ⟨password, _, hpassword, _⟩ := id hsecret
  obtain ⟨result, t, hout, hcompleted⟩ := reconcile_can (p := p) hr hpassword
  refine ⟨result, t, ?_⟩
  rcases reconcile_outcome hr hout with ⟨e, hfail, rfl⟩ | ⟨written, t₁, hok, _, htouched⟩
  · obtain ⟨e', rfl⟩ := reconcileSecret_fails (secretData_gives _ _) hfail
    exact hcompleted.elim
  obtain ⟨rfl, hwritten⟩ := hsecret.outcome hok
  obtain rfl := hwritten written rfl
  rw [hlive] at htouched
  generalize t .statefulSet (baseName cluster) = after at htouched
  cases htouched with
  | failed hfailed => exact absurd hcompleted hfailed
  | deleted hnot => exact absurd (hnot.symm.trans hdeploy) Bool.false_ne_true
  | patched _ htarget =>
      obtain rfl : _ = statefulset _ := htarget
      exact ⟨_, hout, rfl, fresh_patched hmerge _ _⟩

end Runs

/-- Where further attempts with the same specification can get to. -/
def Further (p : Platform Pod) (r : MessageBusDeployment Pod) (cluster : ClusterName) : Store Pod → Store Pod → Prop :=
  Relation.ReflTransGen fun s s' => ∃ result, EndsIn p.sem (r.reconcile p cluster) s result s'

/-- The annotation of an attempt that restarted the pods can be removed by the next one. -/
theorem can_restart_again (hmerge : ∀ original target, p.mergePod original target original = target)
    (hr : r.rabbitmq = some rabbitmq) (hdeploy : rabbitmq.deploy = true) (hsecret : SecretSettled rabbitmq cluster s)
    {live : StatefulSetSpec Pod} {pod : Pod} {value : String}
    (hlive : s .statefulSet (baseName cluster) =
      some ((live.merge p ((statefulset pod).annotate value) live).defaulted p)) :
    ∃ t, Further p r cluster s t ∧
      ¬ SameTemplate (s .statefulSet (baseName cluster)) (t .statefulSet (baseName cluster)) := by
  obtain ⟨result, t, fresh, hout, ht, hfresh⟩ := can_refresh hmerge hr hdeploy hsecret hlive
  refine ⟨t, .single ⟨result, hout⟩, ?_⟩
  rw [hlive, ht]
  refine not_not_intro (.inl ⟨restartedAt, ?_⟩)
  rw [hfresh.annotations, lookup_annotated]
  exact Option.some_ne_none _

/-- **One change, two restarts.** After an attempt that changed the secret and whose calls succeeded, any number of
    further attempts, of which any call may fail, leave the template of the pods as it is if and only if the message bus
    is not deployed, or the attempt found no StatefulSet. The specification is the same in all of them, and so is the
    password it refers to. -/
theorem one_restart_iff (hmerge : ∀ original target, p.mergePod original target original = target)
    (hr : r.rabbitmq = some rabbitmq) {result : Except Failure Unit}
    (hfirst : EndsIn p.sem (r.reconcile p cluster) s result s') (hcompleted : Completed result)
    (hchanged : s' .secret (baseName cluster) ≠ s .secret (baseName cluster))
    (hsame : storedPassword s' (located rabbitmq (baseName cluster)) =
      storedPassword s (located rabbitmq (baseName cluster))) :
    (∀ t, Further p r cluster s' t →
        SameTemplate (s' .statefulSet (baseName cluster)) (t .statefulSet (baseName cluster))) ↔
      rabbitmq.deploy = false ∨ s .statefulSet (baseName cluster) = none := by
  obtain ⟨hsecret, written, hwritten, htouched⟩ := completed_outcome hr hfirst hcompleted hsame
  have hstay : TemplateSettled p r rabbitmq cluster (s' .statefulSet (baseName cluster)) →
      ∀ t, Further p r cluster s' t →
        SameTemplate (s' .statefulSet (baseName cluster)) (t .statefulSet (baseName cluster)) := by
    intro htemplate t hfurther
    have hsettled : Settled p r rabbitmq cluster s' := ⟨hsecret, htemplate⟩
    refine hsettled.same ?_
    induction hfurther with
    | refl => exact hsettled
    | tail _ hstep ih =>
        obtain ⟨_, hout⟩ := hstep
        exact ih.outcome hmerge hr hout
  cases hbefore : s .statefulSet (baseName cluster) with
  | none =>
      refine iff_of_true (hstay ?_) (.inr rfl)
      rw [hbefore] at htouched
      generalize s' .statefulSet (baseName cluster) = after at htouched
      cases htouched with
      | absent hdeploy => exact hdeploy
      | failed hfailed => exact absurd hcompleted hfailed
      | created hdeploy => exact ⟨hdeploy, fresh_created _⟩
  | some live =>
      rw [hbefore] at htouched
      generalize hafter : s' .statefulSet (baseName cluster) = after at htouched
      cases htouched with
      | failed hfailed => exact absurd hcompleted hfailed
      | deleted hdeploy =>
          refine iff_of_true ?_ (.inl hdeploy)
          rw [← hafter]
          refine hstay ?_
          rw [hafter]
          exact hdeploy
      | patched hdeploy htarget =>
          refine iff_of_false ?_ ?_
          · intro hunchanged
            rw [hwritten hchanged] at htarget
            obtain ⟨now, rfl⟩ : ∃ now, _ = _ := htarget
            obtain ⟨t, hfurther, hdiffers⟩ := can_restart_again hmerge hr hdeploy hsecret hafter
            exact hdiffers (hafter ▸ hunchanged t hfurther)
          · rintro (hnot | hnone)
            · exact absurd (hnot.symm.trans hdeploy) Bool.false_ne_true
            · cases hnone

section Examples

/-- A message bus with an exchange. -/
def withExchange (exchange : String) : RabbitMQ := { exchange := exchange }

/-- A message bus that is deployed, with nothing to say about its pods. -/
def aBus : MessageBusDeployment Unit where
  rabbitmq := some (withExchange "amq.topic")
  pod _ _ := ()

def etos : ClusterName := ⟨"etos", "default"⟩

/-- What is stored of the message bus. -/
def busStore (secret : Option (Fields Bytes)) (statefulSet : Option (StatefulSetSpec Unit)) : Store Unit
  | .secret, name => if name = baseName etos then secret else none
  | .statefulSet, name => if name = baseName etos then statefulSet else none
  | _, _ => none

/-- The data that a message bus with the exchange is expected to have. -/
def exchangeData (exchange : String) : Fields Bytes := data (located (withExchange exchange) (baseName etos)) none

/-- **A second restart.** The message bus is up, and its exchange changes. The first attempt writes the secret and
    restarts the pods. The next has nothing to write, and restarts them again. -/
theorem restarted_twice :
    ¬ ∀ (s s' t : Store Unit) (result : Except Failure Unit),
      EndsIn plain.sem (aBus.reconcile plain etos) s result s' → Completed result →
      s' .secret (baseName etos) ≠ s .secret (baseName etos) →
      storedPassword s' (located (withExchange "amq.topic") (baseName etos)) =
        storedPassword s (located (withExchange "amq.topic") (baseName etos)) →
      Further plain aBus etos s' t →
      SameTemplate (s' .statefulSet (baseName etos)) (t .statefulSet (baseName etos)) := by
  intro h
  let s := busStore (some (exchangeData "old")) (some ⟨some 1, ⟨[], ()⟩⟩)
  have hcan : ∃ result s', EndsIn plain.sem (aBus.reconcile plain etos) s result s' ∧ Completed result :=
    reconcile_can rfl rfl
  obtain ⟨result, s', hout, hcompleted⟩ := hcan
  obtain ⟨hsecret, written, hwritten, htouched⟩ := completed_outcome rfl hout hcompleted rfl
  have hchanged : s' .secret (baseName etos) ≠ s .secret (baseName etos) := by
    intro hunchanged
    obtain ⟨password, live, hpassword, hlive, hderivative⟩ := hsecret
    rw [hunchanged] at hlive
    cases hpassword
    cases hlive
    exact absurd hderivative (by decide +kernel)
  obtain rfl := hwritten hchanged
  generalize hafter : s' .statefulSet (baseName etos) = after at htouched
  cases htouched with
  | failed hfailed => exact hfailed hcompleted
  | deleted hnot => cases hnot
  | patched _ htarget =>
      obtain ⟨now, rfl⟩ : ∃ now, _ = _ := htarget
      obtain ⟨t, hfurther, hdiffers⟩ := can_restart_again (r := aBus) (fun _ _ => rfl) rfl rfl hsecret hafter
      exact hdiffers (h s s' t result hout hcompleted hchanged rfl hfurther)

/-- The message bus is created, and not restarted. -/
theorem aBus_created :
    ∃ (result : Except Failure Unit) (s' : Store Unit),
      EndsIn plain.sem (aBus.reconcile plain etos) (busStore none none) result s' ∧ Completed result ∧
        ∀ t, Further plain aBus etos s' t →
          SameTemplate (s' .statefulSet (baseName etos)) (t .statefulSet (baseName etos)) := by
  have hcan : ∃ result s', EndsIn plain.sem (aBus.reconcile plain etos) (busStore none none) result s' ∧
      Completed result := reconcile_can rfl rfl
  obtain ⟨result, s', hout, hcompleted⟩ := hcan
  obtain ⟨⟨_, live, _, hlive, _⟩, _⟩ := completed_outcome rfl hout hcompleted rfl
  have hchanged : s' .secret (baseName etos) ≠ busStore none none .secret (baseName etos) := by
    rw [hlive]
    exact Option.some_ne_none live
  exact ⟨result, s', hout, hcompleted,
    (one_restart_iff (fun _ _ => rfl) rfl hout hcompleted hchanged rfl).mpr (.inr rfl)⟩

end Examples

end MessageBusDeployment

end Etos.Extras
