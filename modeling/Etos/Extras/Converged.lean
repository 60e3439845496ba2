import Etos.Extras.Reconcile

/-!
# `Extras.Converged` — do the secrets and the ingress become what they should be?

A reconciler that returns without an error has created the object, or patched it, or left it alone. After the first two
it is as expected. It is left alone when `DeepDerivative` holds, which does not say that the two are equal: a user that
is removed from the specification stays in the secret, and an annotation that is changed stays as it was on the ingress.
`converges_iff` says that these are the only cases: the object is as expected afterwards if and only if it was so
before, whenever what is expected is derived from it.
-/

namespace Etos.Extras

open Kube Services Prog

variable {Pod : Type} {p : Platform Pod} {s s' : Store Pod}

/-! ## Calls -/

theorem outcome_ask {α : Type} {o : Op Pod} {f : Ans Pod o → Reconcile Pod α} {r : Except Failure α} :
    EndsIn p.sem (ask o >>= f) s r s' ↔
      ∃ a t, Desired.Effect p.server s o a t ∧ EndsIn p.sem (f a) t r s' := outcome_call

theorem outcome_get {α : Type} {k : Kind} {name : String}
    {f : Except Err (Obj Pod k × Status k) → Reconcile Pod α} {r : Except Failure α} :
    EndsIn p.sem (ask (.get k name) >>= f) s r s' ↔
      ∃ a : Except Err (Obj Pod k × Status k), Desired.Reads s s (.get k name) a ∧ EndsIn p.sem (f a) s r s' := by
  refine outcome_ask.trans ?_
  constructor
  · rintro ⟨a, t, heffect, hout⟩
    obtain ⟨hreads, rfl⟩ := Desired.effect_get.mp heffect
    exact ⟨a, hreads, hout⟩
  · rintro ⟨a, hreads, hout⟩
    exact ⟨a, s, Desired.effect_get.mpr ⟨hreads, rfl⟩, hout⟩

/-- `orFail` changes nothing, and passes an answer on if it is no error. -/
theorem orFail_outcome {α : Type} {a : Except Err α} {r : Except Failure Unit} :
    EndsIn p.sem (orFail a : Reconcile Pod Unit) s r s' ↔
      s = s' ∧ ((∃ x, a = .ok x) ∧ r = .ok () ∨ ∃ e, a = .error e ∧ r = .error (.err e)) := by
  cases a with
  | ok x =>
      refine outcome_pure.trans ?_
      simp [eq_comm, and_comm]
  | error e =>
      refine outcome_throw.trans ?_
      simp [eq_comm, and_comm]

/-- A call that goes through, or fails the reconciler. -/
theorem orFail_return_outcome {α β : Type} {a : Except Err α} {b : β} {r : Except Failure β} :
    EndsIn p.sem (do orFail a; return b : Reconcile Pod β) s r s' ↔
      s = s' ∧ ((∃ x, a = .ok x) ∧ r = .ok b ∨ ∃ e, a = .error e ∧ r = .error (.err e)) := by
  cases a with
  | ok x =>
      refine outcome_pure.trans ?_
      simp [eq_comm, and_comm]
  | error e =>
      refine outcome_throw.trans ?_
      simp [eq_comm, and_comm]

/-! ## Passwords -/

/-- The value of a variable, as stored. -/
def storedVar (s : Store Pod) (v : Var) : Option Bytes :=
  if v.value ≠ "" then some (bytes v.value)
  else
    match v.secretKeyRef with
    | some selector => (s .secret selector.name).bind fun data => data.lookup selector.key
    | none =>
        match v.configMapKeyRef with
        | some selector => (s .configMap selector.name).bind fun data => data.lookup selector.key
        | none => none

/-- The password of a specification, as stored: there may be none, or none that can be read. -/
def storedPassword (s : Store Pod) (r : RabbitMQ) : Option (Option Bytes) :=
  match r.password with
  | none => some none
  | some v => (storedVar s v).map some

/-- What a program that only reads comes to: it changes nothing, it can return `b` if and only if that is stored, and
    its errors are not about readiness. -/
structure Gives {α : Type} (p : Platform Pod) (s : Store Pod) (prog : Reconcile Pod α) (stored : Option α) : Prop where
  unchanged : ∀ {r : Except Failure α} {s' : Store Pod}, EndsIn p.sem prog s r s' → s' = s
  fails : ∀ {failure : Failure} {s' : Store Pod}, EndsIn p.sem prog s (.error failure) s' → ∃ e, failure = .err e
  value : ∀ {b : α}, EndsIn p.sem prog s (.ok b) s ↔ stored = some b

theorem gives_pure {α : Type} (b : α) : Gives p s (pure b : Reconcile Pod α) (some b) where
  unchanged h := (outcome_pure.mp h).2.symm
  fails h := nomatch (outcome_pure.mp h).1
  value := by
    refine outcome_pure.trans ?_
    simp

theorem gives_throw {α : Type} (e : Err) : Gives p s (throw (.err e) : Reconcile Pod α) none where
  unchanged h := (outcome_throw.mp h).2.symm
  fails h := ⟨e, Except.error.inj (outcome_throw.mp h).1.symm⟩
  value := by
    refine outcome_throw.trans ?_
    simp

theorem Gives.map {α β : Type} {prog : Reconcile Pod α} {stored : Option α} (h : Gives p s prog stored) (f : α → β) :
    Gives p s (do return f (← prog) : Reconcile Pod β) (stored.map f) where
  unchanged hout := by
    rcases outcome_bind.mp hout with ⟨e, hprog, _⟩ | ⟨a, t, hprog, hret⟩
    · exact h.unchanged hprog
    · obtain ⟨_, rfl⟩ := outcome_pure.mp hret
      exact h.unchanged hprog
  fails hout := by
    rcases outcome_bind.mp hout with ⟨e, hprog, hr⟩ | ⟨a, t, hprog, hret⟩
    · cases hr
      exact h.fails hprog
    · cases (outcome_pure.mp hret).1
  value := by
    intro b
    constructor
    · intro hout
      rcases outcome_bind.mp hout with ⟨e, _, hr⟩ | ⟨a, t, hprog, hret⟩
      · cases hr
      · obtain ⟨hb, rfl⟩ := outcome_pure.mp hret
        cases hb
        rw [h.value.mp hprog]
        rfl
    · intro hstored
      obtain ⟨a, ha, rfl⟩ := Option.map_eq_some_iff.mp hstored
      exact outcome_bind.mpr (.inr ⟨a, s, h.value.mpr ha, outcome_pure.mpr ⟨rfl, rfl⟩⟩)

/-- A key of an object with data. -/
theorem getFromKeySelector_gives {k : Kind} (data : Obj Pod k × Status k → Fields Bytes) (kind : String)
    (selector : KeySelector) (namespace_ : String) {stored : Option (Fields Bytes)}
    (hstored : ∀ o status, s k selector.name = some o → stored = some (data (o, status)))
    (hnone : s k selector.name = none → stored = none) (status : Status k) :
    Gives p s
      (do
        let answer ← ask (.get k selector.name)
        getFromKeySelector (answer.map data) kind selector namespace_ : Reconcile Pod Bytes)
      (stored.bind fun data => data.lookup selector.key) := by
  have hrest : ∀ {r : Except Failure Bytes} {s' : Store Pod}, EndsIn p.sem
      (do
        let answer ← ask (.get k selector.name)
        getFromKeySelector (answer.map data) kind selector namespace_ : Reconcile Pod Bytes) s r s' →
      s' = s ∧ (∀ b, r = .ok b → (stored.bind fun data => data.lookup selector.key) = some b) ∧
        ∀ failure, r = .error failure → ∃ e, failure = .err e := by
    intro r s' hout
    obtain ⟨a, hreads, hout⟩ := outcome_get.mp hout
    cases a with
    | error e =>
        obtain ⟨rfl, rfl⟩ := outcome_throw.mp hout
        exact ⟨rfl, nofun, fun _ h => ⟨_, (Except.error.inj h).symm⟩⟩
    | ok x =>
        unfold getFromKeySelector at hout
        dsimp only [Except.map] at hout
        cases hlookup : (data x).lookup selector.key with
        | none =>
            rw [hlookup] at hout
            obtain ⟨rfl, rfl⟩ := outcome_throw.mp hout
            exact ⟨rfl, nofun, fun _ h => ⟨_, (Except.error.inj h).symm⟩⟩
        | some d =>
            rw [hlookup] at hout
            obtain ⟨rfl, rfl⟩ := outcome_pure.mp hout
            refine ⟨rfl, ?_, nofun⟩
            rintro b ⟨⟩
            rw [hstored x.1 x.2 hreads]
            exact hlookup
  refine ⟨fun hout => (hrest hout).1, fun hout => (hrest hout).2.2 _ rfl,
    fun {b} => ⟨fun hout => (hrest hout).2.1 b rfl, fun hsome => ?_⟩⟩
  obtain ⟨d, hd, hlookup⟩ := Option.bind_eq_some_iff.mp hsome
  cases ho : s k selector.name with
  | none =>
      rw [hnone ho] at hd
      cases hd
  | some o =>
      rw [hstored o status ho] at hd
      cases hd
      refine outcome_get.mpr ⟨.ok (o, status), ho, ?_⟩
      unfold getFromKeySelector
      dsimp only [Except.map]
      rw [hlookup]
      exact outcome_pure.mpr ⟨rfl, rfl⟩

theorem getVar_gives (v : Var) (namespace_ : String) : Gives p s (getVar v namespace_) (storedVar s v) := by
  unfold getVar storedVar
  split
  · exact gives_pure _
  · cases v.secretKeyRef with
    | some selector =>
        refine getFromKeySelector_gives (k := .secret) Prod.fst "secret" selector namespace_ ?_ id ()
        exact fun o status h => h
    | none =>
        cases v.configMapKeyRef with
        | some selector =>
            refine getFromKeySelector_gives (k := .configMap) Prod.fst "configmap" selector namespace_ ?_ id ()
            exact fun o status h => h
        | none => exact gives_throw _

theorem getPassword_gives (r : RabbitMQ) (namespace_ : String) :
    Gives p s (getPassword r namespace_) (storedPassword s r) := by
  unfold getPassword storedPassword
  cases r.password with
  | none => exact gives_pure none
  | some v => exact (getVar_gives v namespace_).map some

/-! ## Secrets -/

/-- The two have the same keys with the same values. -/
def Same {α : Type} (a b : Fields α) : Prop := ∀ key, a.lookup key = b.lookup key

/-- What is stored is as expected. -/
def Holds {α : Type} (stored : Option α) (expected : α → Prop) : Prop := ∃ o, stored = some o ∧ expected o

/-- An object is created as expected, left alone because the target is derived from it, or patched to be as expected:
    then the stored object decides whether it is as expected afterwards. -/
theorem holds_iff {α : Type} {stored stored' : Option α} {expected derived : α → Prop}
    (h : (stored = none ∧ Holds stored' expected) ∨ ∃ live, stored = some live ∧
      ((derived live ∧ stored' = some live) ∨ (¬ derived live ∧ Holds stored' expected))) :
    Holds stored' expected ↔ ∀ live, stored = some live → derived live → expected live := by
  rcases h with ⟨rfl, hholds⟩ | ⟨live, rfl, ⟨hderived, rfl⟩ | ⟨hno, hholds⟩⟩
  · exact iff_of_true hholds nofun
  · constructor
    · rintro ⟨o, ho, hexpected⟩ live' hlive' _
      cases ho
      cases hlive'
      exact hexpected
    · exact fun hall => ⟨live, rfl, hall live rfl hderived⟩
  · refine iff_of_true hholds fun live' hlive' hderived => ?_
    cases hlive'
    exact absurd hderived hno

section Secrets

variable {secretData : Reconcile Pod (Fields Bytes)} {name : String}

/-- The ways in which `reconcileSecret` returns without an error: the secret was created, or left alone, or patched. -/
theorem reconcileSecret_ok {stored : Option (Fields Bytes)} {written : Bool} (hdata : Gives p s secretData stored)
    (h : EndsIn p.sem (reconcileSecret secretData name) s (.ok written) s') :
    ∃ target, stored = some target ∧
      ((s .secret name = none ∧ written = true ∧ s' = s.set .secret name (some target)) ∨
        ∃ live, s .secret name = some live ∧
          ((target.deepDerivative live = true ∧ written = false ∧ s' = s) ∨
            (target.deepDerivative live = false ∧ written = true ∧
              s' = s.set .secret name (some (live.merge target live))))) := by
  rcases outcome_bind.mp h with ⟨e, _, hr⟩ | ⟨target, t, hprog, hout⟩
  · cases hr
  obtain rfl := hdata.unchanged hprog
  refine ⟨target, hdata.value.mp hprog, ?_⟩
  obtain ⟨a, hreads, hout⟩ := outcome_get.mp hout
  cases a with
  | error e =>
      dsimp only at hout
      split at hout
      · cases (outcome_throw.mp hout).1
      · rename_i hnotFound
        have hnone : t .secret name = none := hreads (by simpa using hnotFound)
        obtain ⟨a, t₁, heffect, hout⟩ := outcome_ask.mp hout
        obtain ⟨rfl, ⟨⟨_, rfl⟩, hr⟩ | ⟨e, _, hr⟩⟩ := orFail_return_outcome.mp hout
        · cases hr
          rcases Desired.effect_create.mp heffect with ⟨_, rfl⟩ | ⟨hfailed, _⟩
          · exact .inl ⟨hnone, rfl, rfl⟩
          · cases hfailed
        · cases hr
  | ok x =>
      dsimp only at hout
      refine .inr ⟨x.1, hreads, ?_⟩
      split at hout
      · rename_i hderivative
        obtain ⟨hr, rfl⟩ := outcome_pure.mp hout
        cases hr
        exact .inl ⟨hderivative, rfl, rfl⟩
      · rename_i hderivative
        obtain ⟨a, t₁, heffect, hout⟩ := outcome_ask.mp hout
        obtain ⟨rfl, ⟨⟨_, rfl⟩, hr⟩ | ⟨e, _, hr⟩⟩ := orFail_return_outcome.mp hout
        · cases hr
          rcases Desired.effect_patch.mp heffect with ⟨stored', hstored', rfl, _⟩ | ⟨⟨e, he⟩, _⟩
          · -- the patch is applied to what was read
            have hlive : t .secret name = some x.1 := hreads
            rw [hlive] at hstored'
            cases hstored'
            exact .inr ⟨Bool.eq_false_iff.mpr hderivative, rfl, rfl⟩
          · cases he
        · cases hr

/-- The errors of `reconcileSecret` are not about readiness. -/
theorem reconcileSecret_fails {stored : Option (Fields Bytes)} {failure : Failure} (hdata : Gives p s secretData stored)
    (h : EndsIn p.sem (reconcileSecret secretData name) s (.error failure) s') : ∃ e, failure = .err e := by
  rcases outcome_bind.mp h with ⟨e, hprog, hr⟩ | ⟨target, t, hprog, hout⟩
  · cases hr
    exact hdata.fails hprog
  obtain ⟨a, _, hout⟩ := outcome_get.mp hout
  have hwrite : ∀ {α : Type} {a : Except Err α} {t : Store Pod},
      EndsIn p.sem (do orFail a; return true : Reconcile Pod Bool) t (.error failure) s' → ∃ e, failure = .err e := by
    intro α a t hout
    obtain ⟨_, ⟨_, hr⟩ | ⟨e, _, hr⟩⟩ := orFail_return_outcome.mp hout
    · cases hr
    · exact ⟨e, Except.error.inj hr⟩
  cases a with
  | error e =>
      dsimp only at hout
      split at hout
      · exact ⟨e, (Except.error.inj (outcome_throw.mp hout).1).symm⟩
      · obtain ⟨a, t, _, hout⟩ := outcome_ask.mp hout
        exact hwrite hout
  | ok x =>
      dsimp only at hout
      split at hout
      · cases (outcome_pure.mp hout).1
      · obtain ⟨a, t, _, hout⟩ := outcome_ask.mp hout
        exact hwrite hout

/-- A secret from which the target is derived is left alone. -/
theorem reconcileSecret_alone {target live : Fields Bytes} (hdata : Gives p s secretData (some target))
    (hlive : s .secret name = some live) (hderivative : target.deepDerivative live = true) :
    EndsIn p.sem (reconcileSecret secretData name) s (.ok false) s := by
  refine outcome_bind.mpr (.inr ⟨target, s, hdata.value.mpr rfl, ?_⟩)
  refine outcome_get.mpr ⟨.ok (live, ()), hlive, ?_⟩
  dsimp only
  rw [if_pos hderivative]
  exact outcome_pure.mpr ⟨rfl, rfl⟩

/-- A secret whose data can be found can be reconciled. -/
theorem reconcileSecret_can {target : Fields Bytes} (hdata : Gives p s secretData (some target)) (name : String) :
    ∃ written s', EndsIn p.sem (reconcileSecret secretData name) s (.ok written) s' := by
  have hreturn : ∀ {α : Type} {x : α} {t : Store Pod},
      EndsIn p.sem (do orFail (.ok x : Except Err α); return true : Reconcile Pod Bool) t (.ok true) t :=
    fun {α x t} => orFail_return_outcome.mpr ⟨rfl, .inl ⟨⟨x, rfl⟩, rfl⟩⟩
  cases hsecret : s .secret name with
  | none =>
      have hreads : Desired.Reads s s (.get .secret name)
          (.error { reason := some .notFound, text := "" } : Ans Pod (.get .secret name)) := fun _ => hsecret
      refine ⟨true, s.set .secret name (some target), outcome_bind.mpr (.inr ⟨target, s, hdata.value.mpr rfl, ?_⟩)⟩
      refine outcome_get.mpr ⟨_, hreads, ?_⟩
      exact outcome_ask.mpr ⟨.ok (), _, Desired.effect_create.mpr (.inl ⟨hsecret, rfl⟩), hreturn⟩
  | some live =>
      cases hderivative : target.deepDerivative live with
      | true => exact ⟨false, s, reconcileSecret_alone hdata hsecret hderivative⟩
      | false =>
          refine ⟨true, s.set .secret name (some (live.merge target live)), ?_⟩
          refine outcome_bind.mpr (.inr ⟨target, s, hdata.value.mpr rfl, ?_⟩)
          refine outcome_get.mpr ⟨.ok (live, ()), hsecret, ?_⟩
          dsimp only
          rw [hderivative]
          exact outcome_ask.mpr ⟨.ok (live.merge target live, ()), _,
            Desired.effect_patch.mpr (.inl ⟨live, hsecret, rfl, fun x hx => by cases hx; rfl⟩), hreturn⟩

/-- The secret is as expected afterwards, except where it differed and was left alone. -/
theorem reconcileSecret_holds_iff {target : Fields Bytes} {written : Bool} (hdata : Gives p s secretData (some target))
    (hnodup : (target.map Prod.fst).Nodup) (h : EndsIn p.sem (reconcileSecret secretData name) s (.ok written) s') :
    Holds (s' .secret name) (fun data => Same data target) ↔
      ∀ live, s .secret name = some live → target.deepDerivative live = true → Same live target := by
  refine holds_iff ?_
  obtain ⟨_, ht, ⟨hnone, _, rfl⟩ | ⟨live, hlive, ⟨hderivative, _, rfl⟩ | ⟨hderivative, _, rfl⟩⟩⟩ :=
    reconcileSecret_ok hdata h
  · cases ht
    exact .inl ⟨hnone, target, Desired.Store.set_same _ _ _ _, fun _ => rfl⟩
  · cases ht
    exact .inr ⟨live, hlive, .inl ⟨hderivative, hlive⟩⟩
  · cases ht
    refine .inr ⟨live, hlive, .inr ⟨Bool.eq_false_iff.mp hderivative, ?_⟩⟩
    exact ⟨_, Desired.Store.set_same _ _ _ _, Fields.lookup_merge_self hnodup live⟩

end Secrets

theorem nodup_withCredentials {data : Fields Bytes} {passwordKey usernameKey : String} (r : RabbitMQ)
    (password : Option Bytes) (h : (data.map Prod.fst ++ [passwordKey, usernameKey]).Nodup) :
    ((withCredentials data passwordKey usernameKey r password).map Prod.fst).Nodup := by
  refine List.Nodup.sublist ?_ h
  unfold withCredentials
  cases password <;> dsimp only <;> split <;> simp

theorem MessageBusDeployment.nodup_data (r : RabbitMQ) (password : Option Bytes) :
    ((data r password).map Prod.fst).Nodup := nodup_withCredentials r password (by simp)

theorem RabbitMQDeployment.nodup_data (r : RabbitMQ) (password : Option Bytes) :
    ((data r password).map Prod.fst).Nodup := nodup_withCredentials r password (by simp)

/-! ## The ingress -/

namespace IngressConfig

/-- The specification is that of the target, and so are the annotations that are configured. -/
def Matches (target stored : Ingress) : Prop :=
  stored.spec = target.spec ∧
    ∀ key value, target.annotations.lookup key = some value → stored.annotations.lookup key = some value

theorem nodup_annotations (r : IngressConfig) (name : String) : ((ingress r name).annotations.map Prod.fst).Nodup :=
  (Lists.keys_foldl_setItem r.annotations [] List.nodup_nil).1

/-- The ways in which `reconcileIngress` returns without an error when the ingress is enabled. -/
theorem reconcileIngress_ok {r : IngressConfig} {name : String} (henabled : r.enabled = true)
    (h : EndsIn p.sem (reconcileIngress r name) s (.ok ()) s') :
    (s .ingress name = none ∧ s' .ingress name = some (ingress r name)) ∨
      ∃ live, s .ingress name = some live ∧
        (((ingress r name).spec.deepDerivative live.spec = true ∧ s' .ingress name = some live) ∨
          ((ingress r name).spec.deepDerivative live.spec = false ∧
            s' .ingress name = some (p.server.patched .ingress live (ingress r name) live))) := by
  obtain ⟨a, hreads, hout⟩ := outcome_get.mp h
  cases a with
  | error e =>
      dsimp only at hout
      split at hout
      · cases (outcome_throw.mp hout).1
      · rename_i hnotFound
        have hnone : s .ingress name = none := hreads (by simpa using hnotFound)
        obtain ⟨a, t₁, heffect, hout⟩ := outcome_ask.mp hout
        obtain ⟨rfl, ⟨⟨_, rfl⟩, _⟩ | ⟨e, _, hr⟩⟩ := orFail_outcome.mp hout
        · rcases Desired.effect_create.mp heffect with ⟨_, rfl⟩ | ⟨hfailed, _⟩
          · exact .inl ⟨hnone, Desired.Store.set_same _ _ _ _⟩
          · cases hfailed
        · cases hr
  | ok x =>
      have hlive : s .ingress name = some x.1 := hreads
      dsimp only at hout
      rw [henabled, Bool.not_true, if_neg Bool.false_ne_true] at hout
      refine .inr ⟨x.1, hlive, ?_⟩
      split at hout
      · rename_i hderivative
        obtain ⟨_, rfl⟩ := outcome_pure.mp hout
        exact .inl ⟨hderivative, hlive⟩
      · rename_i hderivative
        obtain ⟨a, t₁, heffect, hout⟩ := outcome_ask.mp hout
        obtain ⟨rfl, ⟨⟨_, rfl⟩, _⟩ | ⟨e, _, hr⟩⟩ := orFail_outcome.mp hout
        · rcases Desired.effect_patch.mp heffect with ⟨stored, hstored, rfl, _⟩ | ⟨⟨e, he⟩, _⟩
          · rw [hlive] at hstored
            cases hstored
            exact .inr ⟨Bool.eq_false_iff.mpr hderivative, Desired.Store.set_same _ _ _ _⟩
          · cases he
        · cases hr

theorem matches_patched (r : IngressConfig) (name : String) (live : Ingress) :
    Matches (ingress r name) (p.server.patched .ingress live (ingress r name) live) := by
  refine ⟨IngressSpec.merge_self _ _, fun key value hvalue => ?_⟩
  rw [← hvalue]
  exact Fields.lookup_merge_self (nodup_annotations r name) _ _

/-- The ingress is as expected afterwards, except where it differed and was left alone. -/
theorem reconcileIngress_holds_iff {r : IngressConfig} {name : String} (henabled : r.enabled = true)
    (h : EndsIn p.sem (reconcileIngress r name) s (.ok ()) s') :
    Holds (s' .ingress name) (Matches (ingress r name)) ↔
      ∀ live, s .ingress name = some live → (ingress r name).spec.deepDerivative live.spec = true →
        Matches (ingress r name) live := by
  refine holds_iff ?_
  rcases reconcileIngress_ok henabled h with ⟨hnone, hs'⟩ | ⟨live, hlive, ⟨hderivative, hs'⟩ | ⟨hderivative, hs'⟩⟩
  · exact .inl ⟨hnone, _, hs', rfl, fun _ _ h => h⟩
  · exact .inr ⟨live, hlive, .inl ⟨hderivative, hs'⟩⟩
  · exact .inr ⟨live, hlive, .inr ⟨Bool.eq_false_iff.mp hderivative, _, hs', matches_patched r name live⟩⟩

end IngressConfig

/-! ## Convergence -/

/-- **Reconciling converges, except where what is expected is derived from something else.** After `reconcileSecret` of
    the message bus or of RabbitMQ has returned without an error the stored data is what is expected, and after
    `reconcileIngress` has, with the ingress enabled, the stored specification and the configured annotations are, if
    and only if what was stored before, when `DeepDerivative` held, was as expected already. -/
theorem converges_iff (p : Platform Pod) :
    (∀ (r : RabbitMQ) (cluster : ClusterName) (name : String) (s s' : Store Pod) (password : Option Bytes)
        (written : Bool), storedPassword s r = some password →
        EndsIn p.sem (MessageBusDeployment.reconcileSecret r cluster name) s (.ok written) s' →
        (Holds (s' .secret name) (fun data => Same data (MessageBusDeployment.data r password)) ↔
          ∀ live, s .secret name = some live →
            (MessageBusDeployment.data r password).deepDerivative live = true →
            Same live (MessageBusDeployment.data r password))) ∧
      (∀ (r : RabbitMQ) (cluster : ClusterName) (name : String) (s s' : Store Pod) (password : Option Bytes)
        (written : Bool), storedPassword s r = some password →
        EndsIn p.sem (RabbitMQDeployment.reconcileSecret r cluster name) s (.ok written) s' →
        (Holds (s' .secret name) (fun data => Same data (RabbitMQDeployment.data r password)) ↔
          ∀ live, s .secret name = some live →
            (RabbitMQDeployment.data r password).deepDerivative live = true →
            Same live (RabbitMQDeployment.data r password))) ∧
      ∀ (r : IngressConfig) (name : String) (s s' : Store Pod), r.enabled = true →
        EndsIn p.sem (r.reconcileIngress name) s (.ok ()) s' →
        (Holds (s' .ingress name) (IngressConfig.Matches (r.ingress name)) ↔
          ∀ live, s .ingress name = some live → (r.ingress name).spec.deepDerivative live.spec = true →
            IngressConfig.Matches (r.ingress name) live) := by
  refine ⟨?_, ?_, fun r name s s' henabled h => IngressConfig.reconcileIngress_holds_iff henabled h⟩
  · intro r cluster name s s' password written hpassword h
    have hgives := (getPassword_gives (p := p) (s := s) r cluster.namespace_).map (MessageBusDeployment.data r)
    rw [hpassword] at hgives
    exact reconcileSecret_holds_iff hgives (MessageBusDeployment.nodup_data r password) h
  · intro r cluster name s s' password written hpassword h
    have hgives := (getPassword_gives (p := p) (s := s) r cluster.namespace_).map (RabbitMQDeployment.data r)
    rw [hpassword] at hgives
    exact reconcileSecret_holds_iff hgives (RabbitMQDeployment.nodup_data r password) h

section Examples

/-- A platform on which the rest of a template is nothing. -/
def plain : Platform Unit := ⟨fun _ _ _ => (), id, toString⟩

/-- RabbitMQ somewhere else, without a user. -/
def noUser : RabbitMQ := { deploy := false, host := "rabbit" }

/-- A store with a secret and an ingress. -/
def storeOf (secret : Option (Fields Bytes)) (ingress : Option Ingress) : Store Unit
  | .secret, name => if name = "etos-messagebus" then secret else none
  | .ingress, name => if name = "etos" then ingress else none
  | _, _ => none

/-- An ingress with a timeout. -/
def withTimeout (timeout : String) : IngressConfig := { enabled := true, annotations := [("timeout", timeout)] }

/-- **The user and the timeout of before.** The user is removed from the specification, and the timeout of the ingress
    is changed. Both reconcilers return without an error, and the secret still has the user, the ingress the old
    timeout. -/
theorem removedUser_stays :
    (¬ ∀ (s s' : Store Unit) (written : Bool),
      EndsIn plain.sem (MessageBusDeployment.reconcileSecret noUser ⟨"etos", "default"⟩ "etos-messagebus") s
        (.ok written) s' →
      Holds (s' .secret "etos-messagebus") (fun data => Same data (MessageBusDeployment.data noUser none))) ∧
    ¬ ∀ s s' : Store Unit, EndsIn plain.sem ((withTimeout "60").reconcileIngress "etos") s (.ok ()) s' →
      Holds (s' .ingress "etos") (IngressConfig.Matches ((withTimeout "60").ingress "etos")) := by
  constructor
  · intro h
    have hgives : Gives plain (storeOf (some (MessageBusDeployment.data { noUser with username := "guest" } none)) none)
        (MessageBusDeployment.secretData noUser "default") (some (MessageBusDeployment.data noUser none)) :=
      (getPassword_gives noUser "default").map _
    obtain ⟨data, hdata, hsame⟩ := h _ _ false (reconcileSecret_alone hgives rfl (by decide +kernel))
    cases hdata
    exact absurd (hsame "ETOS_RABBITMQ_USERNAME") (by decide +kernel)
  · intro h
    have hout : EndsIn plain.sem ((withTimeout "60").reconcileIngress "etos")
        (storeOf none (some ((withTimeout "30").ingress "etos"))) (.ok ())
        (storeOf none (some ((withTimeout "30").ingress "etos"))) :=
      outcome_get.mpr ⟨.ok ((withTimeout "30").ingress "etos", ()), rfl, outcome_pure.mpr ⟨rfl, rfl⟩⟩
    obtain ⟨o, ho, hmatches⟩ := h _ _ hout
    cases ho
    exact absurd (hmatches.2 "timeout" "60" (by decide +kernel)) (by decide +kernel)

/-- The secret that is there has all that is expected, and nothing else. -/
theorem noUser_converged :
    Holds (storeOf (some (MessageBusDeployment.data noUser none)) none .secret "etos-messagebus")
      (fun data => Same data (MessageBusDeployment.data noUser none)) := by
  have hgives : Gives plain (storeOf (some (MessageBusDeployment.data noUser none)) none)
      (MessageBusDeployment.secretData noUser "default") (some (MessageBusDeployment.data noUser none)) :=
    (getPassword_gives noUser "default").map _
  refine ((converges_iff plain).1 noUser ⟨"etos", "default"⟩ "etos-messagebus" _ _ none false rfl
    (reconcileSecret_alone hgives rfl (by decide +kernel))).mpr ?_
  rintro live hlive - key
  cases hlive
  rfl

end Examples

end Etos.Extras
