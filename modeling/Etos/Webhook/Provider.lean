import Etos.Api.Types
import Mathlib.Data.List.Nodup
import Mathlib.Logic.Relation

/-!
# `Webhook.Provider` — default providers

`internal/webhook/v1alpha1/provider_webhook.go` and `findDefaultProvider` of `testrun_webhook.go`. A Provider
labelled as the default of its type is used by the TestRuns that name none. The validator refuses a second default of
a type, whatever kind of write would bring it about; so after any history of admitted writes there is at most one in a
namespace, and `findDefaultProvider` finds it (`default_unambiguous`).

Unlike in the rest of the model there are several namespaces here.
-/

namespace Etos

open Kube

def defaultLabel : String := "etos.eiffel-community.github.io/default"

/-- A Provider in its namespace. -/
structure NamespacedProvider where
  namespace_ : String
  provider : Provider
  deriving DecidableEq

namespace NamespacedProvider

/-- `types.NamespacedName`. -/
def key (p : NamespacedProvider) : String × String := (p.namespace_, p.provider.name)

/-- `Labels["etos.eiffel-community.github.io/default"] == "true"`. -/
def isDefault (p : NamespacedProvider) : Bool := p.provider.metadata.labels.get defaultLabel = "true"

/-- Is it a default of this type in this namespace? -/
def IsDefaultOf (p : NamespacedProvider) (namespace_ type : String) : Prop :=
  p.namespace_ = namespace_ ∧ p.isDefault = true ∧ p.provider.spec.type = type

instance (p : NamespacedProvider) (namespace_ type : String) : Decidable (p.IsDefaultOf namespace_ type) :=
  inferInstanceAs (Decidable (_ ∧ _))

end NamespacedProvider

/-- All Providers, in the order in which a `List` returns them. -/
abbrev ProviderStore := List NamespacedProvider

/-- `cli.List` by namespace, default label and `.spec.type`. -/
def ProviderStore.defaults (store : ProviderStore) (namespace_ type : String) : List NamespacedProvider :=
  store.filter (fun p => p.IsDefaultOf namespace_ type)

/-- The error for a second default. -/
def secondDefault (provider other : NamespacedProvider) : Err :=
  { reason := some .invalid
    text := "metadata.labels[" ++ defaultLabel ++ "]: Invalid value: \"true\": a default provider of type \"" ++
      provider.provider.spec.type ++ "\" already exists in this namespace: \"" ++ other.provider.name ++ "\"" }

/-- `ProviderCustomValidator.validateDefaultLabel`, with the answer of its `List`. -/
def validateDefaultLabel (list : String → String → Except Err (List NamespacedProvider))
    (provider : NamespacedProvider) : Option Err :=
  if !provider.isDefault then none
  else
    match list provider.namespace_ provider.provider.spec.type with
    | .error e => some { e with text := "failed to list providers: " ++ e.text }
    | .ok providers =>
        -- the Provider itself is skipped, for updates
        match providers.find? (fun p => p.key ≠ provider.key) with
        | none => none
        | some other => some (secondDefault provider other)

/-- The validator against a store. -/
def validate (store : ProviderStore) (provider : NamespacedProvider) : Option Err :=
  validateDefaultLabel (fun namespace_ type => .ok (store.defaults namespace_ type)) provider

/-- `findDefaultProvider`, with the answer of its `List`. -/
def findDefaultProvider (list : String → String → Except Err (List NamespacedProvider))
    (namespace_ providerType : String) : Except Err String :=
  match list namespace_ providerType with
  | .error e => .error { e with text := "failed to list providers: " ++ e.text }
  | .ok [] =>
      .error (.new ("no default provider of type \"" ++ providerType ++ "\" found in namespace \"" ++
        namespace_ ++ "\""))
  | .ok (p :: _) => .ok p.provider.name

/-! ## Histories -/

/-- One admitted write. The order of the store is arbitrary. -/
inductive ProviderStep (store : ProviderStore) : ProviderStore → Prop where
  | create {p : NamespacedProvider} {store' : ProviderStore} (hnew : ∀ q ∈ store, q.key ≠ p.key)
      (hvalid : validate store p = none) (h : store'.Perm (p :: store)) : ProviderStep store store'
  | update {p q : NamespacedProvider} {store' : ProviderStore} (hmem : q ∈ store) (hkey : q.key = p.key)
      (hvalid : validate store p = none) (h : store'.Perm (p :: store.filter (fun q => q.key ≠ p.key))) :
      ProviderStep store store'
  | delete {key : String × String} {store' : ProviderStore} (h : store'.Perm (store.filter (fun q => q.key ≠ key))) :
      ProviderStep store store'

/-- The stores that admitted writes lead to. -/
def ProviderHistory (store : ProviderStore) : Prop := Relation.ReflTransGen ProviderStep [] store

/-- At most one default of each type in each namespace, and no name twice. -/
structure Unambiguous (store : ProviderStore) : Prop where
  keys : (store.map (·.key)).Nodup
  defaults : ∀ namespace_ type, ∀ p ∈ store, p.IsDefaultOf namespace_ type →
    ∀ q ∈ store, q.IsDefaultOf namespace_ type → p.key = q.key

variable {store store' : ProviderStore} {p q : NamespacedProvider}

theorem Unambiguous.eq_of_key (h : Unambiguous store) (hp : p ∈ store) (hq : q ∈ store) (hk : p.key = q.key) : p = q :=
  List.inj_on_of_nodup_map h.keys hp hq hk

theorem Unambiguous.perm (h : Unambiguous store) (hperm : store'.Perm store) : Unambiguous store' where
  keys := (hperm.map _).nodup_iff.mpr h.keys
  defaults := fun namespace_ type p hp hpd q hq hqd =>
    h.defaults namespace_ type p (hperm.mem_iff.mp hp) hpd q (hperm.mem_iff.mp hq) hqd

/-- Fewer Providers are no more ambiguous. -/
theorem Unambiguous.filter (h : Unambiguous store) (keep : NamespacedProvider → Bool) :
    Unambiguous (store.filter keep) where
  keys := h.keys.sublist (List.filter_sublist.map _)
  defaults := fun namespace_ type p hp hpd q hq hqd =>
    h.defaults namespace_ type p (List.mem_of_mem_filter hp) hpd q (List.mem_of_mem_filter hq) hqd

/-- An admitted default finds no other default of its type. -/
theorem key_of_valid (hvalid : validate store p = none) {namespace_ type : String} (hp : p.IsDefaultOf namespace_ type)
    (hq : q ∈ store) (hqd : q.IsDefaultOf namespace_ type) : q.key = p.key := by
  obtain ⟨rfl, hdefault, rfl⟩ := hp
  have hmem : q ∈ store.defaults p.namespace_ p.provider.spec.type :=
    List.mem_filter.mpr ⟨hq, decide_eq_true hqd⟩
  simp only [validate, validateDefaultLabel, hdefault, Bool.not_true, Bool.false_eq_true, if_false] at hvalid
  split at hvalid
  · rename_i hnone
    by_contra hne
    exact List.find?_eq_none.mp hnone q hmem (decide_eq_true hne)
  · cases hvalid

/-- Adding an admitted Provider under a free name. -/
theorem Unambiguous.cons (h : Unambiguous store) (hnew : ∀ q ∈ store, q.key ≠ p.key)
    (hvalid : ∀ namespace_ type, p.IsDefaultOf namespace_ type → ∀ q ∈ store, q.IsDefaultOf namespace_ type →
      q.key = p.key) : Unambiguous (p :: store) where
  keys := by
    refine List.nodup_cons.mpr ⟨fun hmem => ?_, h.keys⟩
    obtain ⟨q, hq, hk⟩ := List.mem_map.mp hmem
    exact hnew q hq hk
  defaults := by
    intro namespace_ type a ha had b hb hbd
    rcases List.mem_cons.mp ha with rfl | ha'
    · rcases List.mem_cons.mp hb with rfl | hb'
      · rfl
      · exact (hvalid namespace_ type had b hb' hbd).symm
    · rcases List.mem_cons.mp hb with rfl | hb'
      · exact hvalid namespace_ type hbd a ha' had
      · exact h.defaults namespace_ type a ha' had b hb' hbd

/-- Every admitted write keeps the store unambiguous. -/
theorem Unambiguous.step (h : Unambiguous store) (hs : ProviderStep store store') : Unambiguous store' := by
  cases hs with
  | create hnew hvalid hperm =>
      exact (h.cons hnew fun _ _ hp q hq hqd => key_of_valid hvalid hp hq hqd).perm hperm
  | @update p _ _ _ _ hvalid hperm =>
      -- the old version is gone, so the new one is added under a free name
      have hfree : ∀ q ∈ store.filter (fun q => q.key ≠ p.key), q.key ≠ p.key :=
        fun q hq => of_decide_eq_true (List.mem_filter.mp hq).2
      refine ((h.filter _).cons hfree fun _ _ hp q hq hqd => ?_).perm hperm
      exact key_of_valid hvalid hp (List.mem_of_mem_filter hq) hqd
  | delete hperm => exact (h.filter _).perm hperm

theorem unambiguous_of_history (h : ProviderHistory store) : Unambiguous store := by
  induction h with
  | refl => exact ⟨List.nodup_nil, nofun⟩
  | tail _ hs ih => exact ih.step hs

/-- **Default providers are unambiguous.** After any history of admitted creates, updates and deletes, a namespace has
    at most one default Provider of a type, and `findDefaultProvider` returns its name. -/
theorem default_unambiguous (h : ProviderHistory store) (namespace_ type : String) :
    (store.defaults namespace_ type).length ≤ 1 ∧
      ∀ p ∈ store, p.IsDefaultOf namespace_ type →
        findDefaultProvider (fun namespace_ type => .ok (store.defaults namespace_ type)) namespace_ type =
          .ok p.provider.name := by
  have hu := unambiguous_of_history h
  have heq : ∀ p ∈ store.defaults namespace_ type, ∀ q ∈ store.defaults namespace_ type, p = q := by
    intro p hp q hq
    obtain ⟨hp, hpd⟩ := List.mem_filter.mp hp
    obtain ⟨hq, hqd⟩ := List.mem_filter.mp hq
    exact hu.eq_of_key hp hq
      (hu.defaults _ _ p hp (of_decide_eq_true hpd) q hq (of_decide_eq_true hqd))
  have hnodup : (store.defaults namespace_ type).Nodup := (List.Nodup.of_map _ hu.keys).filter _
  constructor
  · match hl : store.defaults namespace_ type with
    | [] => simp
    | [_] => simp
    | a :: b :: _ =>
        rw [hl] at heq hnodup
        have hab : a = b := heq a List.mem_cons_self b (List.mem_cons_of_mem _ List.mem_cons_self)
        exact absurd (hab ▸ List.mem_cons_self) (List.nodup_cons.mp hnodup).1
  · intro p hp hpd
    have hmem : p ∈ store.defaults namespace_ type := List.mem_filter.mpr ⟨hp, decide_eq_true hpd⟩
    match hl : store.defaults namespace_ type with
    | [] => rw [hl] at hmem; cases hmem
    | a :: _ =>
        rw [hl] at heq hmem
        simp only [findDefaultProvider, hl]
        rw [heq a List.mem_cons_self p hmem]

/-- Two Iut providers, of which the second takes over as the default once the first has lost the label. -/
theorem default_unambiguous_handover :
    let provider := fun (name default : String) => NamespacedProvider.mk "etos"
      { metadata := { name := name, labels := [(defaultLabel, default)] }, spec := { type := "iut" }, status := {} }
    let store := [provider "b" "true", provider "a" "false"]
    ProviderHistory store ∧ validate store (provider "a" "true") ≠ none ∧
      findDefaultProvider (fun namespace_ type => .ok (ProviderStore.defaults store namespace_ type)) "etos" "iut" =
        .ok "b" := by
  intro provider store
  have history : ProviderHistory store :=
    ((Relation.ReflTransGen.refl.tail
      (.create (p := provider "a" "true") (by decide) (by decide) (.refl _))).tail
      (.update (p := provider "a" "false") (q := provider "a" "true") (by decide) (by decide) (by decide)
        (.refl _))).tail
      (.create (p := provider "b" "true") (by decide) (by decide) (.refl _))
  exact ⟨history, by decide,
    (default_unambiguous history "etos" "iut").2 (provider "b" "true") (by decide) (by decide)⟩

end Etos
