import Etos.Prog.Basic
import Etos.Kube.Meta
import Etos.Lists.Dict
import Etos.Url.Parse
import Mathlib.Data.List.Perm.Subperm

/-!
# `Services.Objects` — secrets and Deployments of the ETOS services

What the reconcilers of the ETOS services read and write: secrets, Deployments, and roles, service accounts and the
like, of which only the presence matters. `DeepEqual`, `DeepDerivative` and `StrategicMergeFrom` are modelled on the
maps of a secret and of annotations. On the rest of a pod template, and where text is formatted, they are parameters
(`Machinery`).
-/

namespace Etos.Services

open Kube

/-- The bytes of a text. -/
def bytes (s : String) : Bytes := s.toUTF8.data.toList

/-- The annotation that makes the pods restart. -/
def restartedAt : String := "etos.eiffel-community.github.io/restartedAt"

/-- A Go map with string keys: no key occurs twice. -/
abbrev Fields (α : Type) := List (String × α)

namespace Fields

variable {α : Type}

/-- `equality.Semantic.DeepEqual` on `map[string][]byte`. -/
def deepEqual (a b : Fields Bytes) : Bool := a.length = b.length && a.all fun f => b.lookup f.1 = some f.2

/-- `equality.Semantic.DeepDerivative` on `map[string][]byte`: what `a` leaves open is ignored. That goes for keys, but
    also for the end of a value. -/
def deepDerivative (a b : Fields Bytes) : Bool :=
  a.isEmpty || (a.length ≤ b.length && a.all fun f => match b.lookup f.1 with
    | some value => f.2.isPrefixOf value
    | none => false)

/-- `equality.Semantic.DeepDerivative` on `map[string]string`. -/
def textDerivative (a b : Fields String) : Bool :=
  a.isEmpty || (a.length ≤ b.length && a.all fun f => match b.lookup f.1 with
    | some value => f.2 = "" || f.2 = value
    | none => false)

/-- The patch `StrategicMergeFrom(original)` of `target`, applied to what is stored: what the two have in common is left
    as it is. -/
def merge [DecidableEq α] (original target stored : Fields α) : Fields α :=
  let set := target.filter fun f => original.lookup f.1 ≠ some f.2
  let removed := fun key => (original.lookup key).isSome && (target.lookup key).isNone
  stored.filter (fun f => (set.lookup f.1).isNone && !removed f.1) ++ set

/-- The two maps differ. -/
def Differ (a b : Fields α) : Prop := ∃ key, a.lookup key ≠ b.lookup key

theorem lookup_filter_of_pos {p : String × α → Bool} {l : Fields α} {key : String} {value : α}
    (h : l.lookup key = some value) (hp : p (key, value) = true) : (l.filter p).lookup key = some value := by
  induction l with
  | nil => cases h
  | cons f l ih =>
      obtain ⟨k, v⟩ := f
      by_cases hk : key = k
      · subst hk
        rw [List.lookup_cons_self] at h
        cases h
        rw [List.filter_cons_of_pos hp, List.lookup_cons_self]
      · have hne : (key == k) = false := beq_false_of_ne hk
        rw [List.lookup_cons, hne] at h
        by_cases hpk : p (k, v) = true
        · rw [List.filter_cons_of_pos hpk, List.lookup_cons, hne]
          exact ih h
        · rw [List.filter_cons_of_neg hpk]
          exact ih h

/-- A value that the target sets is stored. -/
theorem lookup_merge [DecidableEq α] {original target stored : Fields α} {key : String} {value : α}
    (htarget : target.lookup key = some value) (horiginal : original.lookup key ≠ some value) :
    (merge original target stored).lookup key = some value := by
  have hset : (target.filter fun f => original.lookup f.1 ≠ some f.2).lookup key = some value :=
    lookup_filter_of_pos htarget (decide_eq_true horiginal)
  unfold merge
  rw [List.lookup_append]
  have hnone : (stored.filter fun f =>
      ((target.filter fun f => original.lookup f.1 ≠ some f.2).lookup f.1).isNone &&
        !((original.lookup f.1).isSome && (target.lookup f.1).isNone)).lookup key = none := by
    refine List.lookup_eq_none_iff.mpr fun f hf => ?_
    rw [bne_iff_ne]
    rintro rfl
    have hkept := (List.mem_filter.mp hf).2
    rw [hset] at hkept
    cases hkept
  rw [hnone]
  exact hset

/-- A patch computed from what is stored makes it the target. -/
theorem lookup_merge_self [DecidableEq α] {target : Fields α} (h : (target.map Prod.fst).Nodup) (original : Fields α)
    (key : String) : (merge original target original).lookup key = target.lookup key := by
  by_cases hset : ∃ value, target.lookup key = some value ∧ original.lookup key ≠ some value
  · obtain ⟨value, htarget, horiginal⟩ := hset
    rw [htarget]
    exact lookup_merge htarget horiginal
  · -- the patch has nothing to set, so the key is as in the original, or removed
    have hunset : (target.filter fun f => original.lookup f.1 ≠ some f.2).lookup key = none := by
      refine List.lookup_eq_none_iff.mpr fun f hf => ?_
      obtain ⟨hmem, hne⟩ := List.mem_filter.mp hf
      rw [bne_iff_ne]
      rintro rfl
      exact hset ⟨f.2, Lists.lookup_of_mem h hmem, of_decide_eq_true hne⟩
    unfold merge
    rw [List.lookup_append, hunset, Option.or_none,
      Lists.lookup_filter_key (fun key => ((target.filter fun f => original.lookup f.1 ≠ some f.2).lookup key).isNone &&
        !((original.lookup key).isSome && (target.lookup key).isNone)), hunset]
    cases htarget : target.lookup key with
    | none => cases horiginal : original.lookup key <;> simp
    | some value =>
        have horiginal : original.lookup key = some value := by
          by_contra hne
          exact hset ⟨value, htarget, hne⟩
        simp [horiginal]

/-- A map is derived from itself. -/
theorem deepDerivative_of_lookup {a b : Fields Bytes} (ha : (a.map Prod.fst).Nodup)
    (h : ∀ key, b.lookup key = a.lookup key) : a.deepDerivative b = true := by
  have hlookup : ∀ f ∈ a, b.lookup f.1 = some f.2 := fun f hf => (h f.1).trans (Lists.lookup_of_mem ha hf)
  have hlength : a.length ≤ b.length := by
    have hsubset : a.map Prod.fst ⊆ b.map Prod.fst := by
      intro key hkey
      obtain ⟨f, hf, rfl⟩ := List.mem_map.mp hkey
      by_contra hnot
      have hnone : b.lookup f.1 = none := List.lookup_eq_none_iff.mpr fun g hg => by
        rw [bne_iff_ne]
        rintro heq
        exact hnot (heq ▸ List.mem_map_of_mem hg)
      rw [hlookup f hf] at hnone
      cases hnone
    have hle := (List.subperm_of_subset ha hsubset).length_le
    simpa using hle
  unfold deepDerivative
  refine Bool.or_eq_true_iff.mpr (.inr (Bool.and_eq_true_iff.mpr ⟨decide_eq_true hlength, ?_⟩))
  refine List.all_eq_true.mpr fun f hf => ?_
  rw [hlookup f hf]
  exact List.isPrefixOf_iff_prefix.mpr (List.prefix_refl f.2)

end Fields

/-! ## Deployments -/

/-- The template of the pods: its annotations, and the rest of it. -/
structure PodTemplate (Pod : Type) where
  annotations : Fields String
  pod : Pod

structure DeploymentSpec (Pod : Type) where
  replicas : Int
  template : PodTemplate Pod

/-- `appsv1.DeploymentCondition`. -/
structure DeploymentCondition where
  type : String
  reason : String
  message : String

structure Deployment (Pod : Type) where
  spec : DeploymentSpec Pod
  conditions : List DeploymentCondition

/-- The two templates differ. -/
def PodTemplate.Differ {Pod : Type} (a b : PodTemplate Pod) : Prop :=
  Fields.Differ a.annotations b.annotations ∨ a.pod ≠ b.pod

/-- Functions of other libraries. -/
structure Machinery (Pod : Type) where
  /-- `DeepDerivative` and `StrategicMergeFrom` on what is not annotations in a template. -/
  podDerivative : Pod → Pod → Bool
  mergePod : Pod → Pod → Pod → Pod
  /-- `time.Time.Format(time.RFC3339)`, of a time in seconds. -/
  rfc3339 : Int → String
  /-- `url.URL.String`. -/
  urlString : Url.URL → Bytes

namespace DeploymentSpec

variable {Pod : Type} (m : Machinery Pod)

/-- `equality.Semantic.DeepDerivative` on the specifications. -/
def deepDerivative (a b : DeploymentSpec Pod) : Bool :=
  a.replicas = b.replicas && a.template.annotations.textDerivative b.template.annotations &&
    m.podDerivative a.template.pod b.template.pod

/-- `StrategicMergeFrom(original)` of `target`, applied to what is stored. -/
def merge (original target stored : DeploymentSpec Pod) : DeploymentSpec Pod where
  replicas := if original.replicas = target.replicas then stored.replicas else target.replicas
  template :=
    { annotations := original.template.annotations.merge target.template.annotations stored.template.annotations
      pod := m.mergePod original.template.pod target.template.pod stored.template.pod }

end DeploymentSpec

/-! ## Readiness -/

/-- Why a reconciliation returns an error. -/
inductive Failure where
  | err (e : Err)
  /-- `readiness.NotReady`. -/
  | notReady (name message : String)

/-- `readiness.DeploymentReady`. -/
def deploymentReady {Pod : Type} (name : String) (deployment : Deployment Pod) : Except Failure Unit :=
  match deployment.conditions.find? fun c => c.type = "Progressing" with
  | none => .error (.notReady name "deployment has no Progressing condition yet")
  | some condition =>
      if condition.reason = "NewReplicaSetAvailable" then .ok ()
      else .error (.notReady name ("progressing: " ++ condition.message))

/-! ## Calls -/

/-- The kinds of which only the presence matters. -/
inductive Kind where
  | role | serviceAccount | roleBinding | service
  deriving DecidableEq

/-- The calls of the client, and the clock. A patch carries the object it was computed from. -/
inductive Op (Pod : Type) where
  | getSecret (name : String)
  | createSecret (name : String) (data : Fields Bytes)
  | patchSecret (name : String) (target original : Fields Bytes)
  | getDeployment (name : String)
  | createDeployment (name : String) (spec : DeploymentSpec Pod)
  | patchDeployment (name : String) (target original : DeploymentSpec Pod)
  | get (kind : Kind) (name : String)
  | create (kind : Kind) (name : String)
  | patch (kind : Kind) (name : String)
  /-- `time.Now()`, in seconds. -/
  | now

@[reducible] def Ans (Pod : Type) : Op Pod → Type
  | .getSecret _ => Except Err (Fields Bytes)
  | .getDeployment _ => Except Err (Deployment Pod)
  | .now => Int
  | _ => Except Err Unit

end Etos.Services
