import Mathlib.Data.List.Basic

/-!
# `Kube.Meta` — object metadata, conditions, finalizers and owner references

The parts of a Kubernetes object that every controller handles the same way, following the behaviour of
`k8s.io/apimachinery` and of `controller-runtime`'s `controllerutil`: status conditions are a list with at
most one meaningful entry per type (`FindStatusCondition` takes the first), `SetStatusCondition` reports
whether it changed anything, finalizers are a list of strings, and an owner reference may be a
*controller* reference.

Condition types and reasons are parameters. Times are Unix seconds, the resolution at which
`metav1.Time` is serialised.
-/

namespace Etos.Kube

/-! ## Errors -/

/-- The reason an API status error carries, as far as clients look at it. -/
inductive StatusReason where
  | notFound | conflict | alreadyExists | invalid | unknown
  deriving DecidableEq, Repr

/-- A Go `error`: the reason of the first API status error in its chain, if any, and its text. -/
structure Err where
  reason : Option StatusReason := none
  text : String
  deriving DecidableEq, Repr

namespace Err

def isNotFound (e : Err) : Bool := e.reason = some .notFound
def isConflict (e : Err) : Bool := e.reason = some .conflict

/-- `errors.New`, and `fmt.Errorf` without a wrapped error. -/
def new (text : String) : Err := { text := text }

/-- `errors.Join` of two errors that may be nil. Looking for an API status error descends left first. -/
def join : Option Err → Option Err → Option Err
  | none, e => e
  | e, none => e
  | some a, some b => some { reason := a.reason <|> b.reason, text := a.text ++ "\n" ++ b.text }

@[simp] theorem join_none_left (e : Option Err) : join none e = e := by cases e <;> rfl
@[simp] theorem join_none_right (e : Option Err) : join e none = e := by cases e <;> rfl

theorem join_eq_none {a b : Option Err} : join a b = none ↔ a = none ∧ b = none := by
  cases a <;> cases b <;> simp [join]

end Err

/-- The error of an answer, if it is one (Go's `err != nil`). -/
def errOf {α : Type} : Except Err α → Option Err
  | .ok _ => none
  | .error e => some e

@[simp] theorem errOf_ok {α : Type} (a : α) : errOf (.ok a : Except Err α) = none := rfl
@[simp] theorem errOf_error {α : Type} (e : Err) : errOf (.error e : Except Err α) = some e := rfl

/-! ## Conditions -/

inductive ConditionStatus where
  | true | false | unknown
  deriving DecidableEq, Repr

/-- `metav1.Condition` over condition types `T` and reasons `R`. -/
structure Condition (T R : Type) where
  type : T
  status : ConditionStatus
  reason : R
  message : String
  lastTransitionTime : Int := 0
  deriving DecidableEq, Repr

section Conditions

variable {T R : Type} [DecidableEq T] [DecidableEq R]

/-- `meta.FindStatusCondition`. -/
def findStatusCondition (cs : List (Condition T R)) (t : T) : Option (Condition T R) :=
  cs.find? (fun c => c.type = t)

/-- `meta.IsStatusConditionPresentAndEqual`. -/
def isStatusConditionPresentAndEqual (cs : List (Condition T R)) (t : T) (s : ConditionStatus) : Bool :=
  match findStatusCondition cs t with
  | none => false
  | some c => c.status = s

/-- `meta.SetStatusCondition`, returning the new list and whether anything changed. The transition time
    moves only with the status; a new condition is appended. -/
def setStatusCondition (now : Int) (new : Condition T R) :
    List (Condition T R) → List (Condition T R) × Bool
  | [] => ([{ new with lastTransitionTime := now }], true)
  | c :: cs =>
      if c.type = new.type then
        ({ c with
            status := new.status
            reason := new.reason
            message := new.message
            lastTransitionTime := if c.status = new.status then c.lastTransitionTime else now } :: cs,
          !decide (c.status = new.status ∧ c.reason = new.reason ∧ c.message = new.message))
      else
        let (cs', changed) := setStatusCondition now new cs
        (c :: cs', changed)

variable {now : Int} {new : Condition T R} {cs : List (Condition T R)} {t : T}

omit [DecidableEq R] in
@[simp] theorem findStatusCondition_nil : findStatusCondition ([] : List (Condition T R)) t = none := rfl

omit [DecidableEq R] in
theorem findStatusCondition_cons {c : Condition T R} :
    findStatusCondition (c :: cs) t = if c.type = t then some c else findStatusCondition cs t := by
  unfold findStatusCondition
  rw [List.find?_cons]
  by_cases h : c.type = t <;> simp [h]

/-- Setting a condition leaves the conditions of other types alone. -/
theorem find_set_ne (h : t ≠ new.type) :
    findStatusCondition (setStatusCondition now new cs).1 t = findStatusCondition cs t := by
  induction cs with
  | nil => simp [setStatusCondition, findStatusCondition_cons, Ne.symm h]
  | cons c cs ih =>
      unfold setStatusCondition
      by_cases hc : c.type = new.type
      · simp [hc, findStatusCondition_cons, Ne.symm h]
      · simp only [hc, if_false, findStatusCondition_cons, ih]

/-- After setting a condition it is found with the new status, reason and message. -/
theorem find_set_self (now : Int) (new : Condition T R) (cs : List (Condition T R)) :
    ∃ c, findStatusCondition (setStatusCondition now new cs).1 new.type = some c ∧
      c.status = new.status ∧ c.reason = new.reason ∧ c.message = new.message := by
  induction cs with
  | nil =>
      refine ⟨{ new with lastTransitionTime := now }, ?_, rfl, rfl, rfl⟩
      simp [setStatusCondition, findStatusCondition_cons]
  | cons c cs ih =>
      unfold setStatusCondition
      by_cases hc : c.type = new.type
      · rw [if_pos hc, findStatusCondition_cons, if_pos hc]
        exact ⟨_, rfl, rfl, rfl, rfl⟩
      · simpa only [hc, if_false, findStatusCondition_cons] using ih

/-- A set that reports no change found the very condition it was to write, and left the list alone. -/
theorem set_unchanged (h : (setStatusCondition now new cs).2 = false) :
    (setStatusCondition now new cs).1 = cs ∧ ∃ c, findStatusCondition cs new.type = some c ∧
      c.status = new.status ∧ c.reason = new.reason ∧ c.message = new.message := by
  induction cs with
  | nil => simp [setStatusCondition] at h
  | cons c cs ih =>
      unfold setStatusCondition at h ⊢
      by_cases hc : c.type = new.type
      · simp only [hc, if_true, Bool.not_eq_false', decide_eq_true_eq] at h
        obtain ⟨h₁, h₂, h₃⟩ := h
        refine ⟨?_, c, by simp [findStatusCondition_cons, hc], h₁, h₂, h₃⟩
        cases c
        simp only at h₁ h₂ h₃ hc
        simp [hc, h₁, h₂, h₃]
      · simp only [hc, if_false] at h ⊢
        obtain ⟨h₁, c', hf, hc'⟩ := ih h
        exact ⟨by rw [h₁], c', by simpa [findStatusCondition_cons, hc] using hf, hc'⟩

/-- Setting the very condition that is found changes nothing. -/
theorem set_same {c : Condition T R} (hf : findStatusCondition cs new.type = some c)
    (hs : c.status = new.status) (hr : c.reason = new.reason) (hm : c.message = new.message) :
    (setStatusCondition now new cs).2 = false := by
  induction cs with
  | nil => cases hf
  | cons c' cs ih =>
      rw [findStatusCondition_cons] at hf
      unfold setStatusCondition
      by_cases hc : c'.type = new.type
      · rw [if_pos hc] at hf ⊢
        obtain rfl := Option.some.inj hf
        simp [hs, hr, hm]
      · rw [if_neg hc] at hf ⊢
        exact ih hf

end Conditions

/-! ## Labels and annotations -/

/-- A `map[string]string`. -/
abbrev StrMap := List (String × String)

namespace StrMap

/-- Go's `m[k]`: the empty string when absent. -/
def get (m : StrMap) (k : String) : String := (m.lookup k).getD ""

/-- `_, ok := m[k]`. -/
def has (m : StrMap) (k : String) : Bool := (m.lookup k).isSome

/-- `m[k] = v`. -/
def set (m : StrMap) (k v : String) : StrMap :=
  match m with
  | [] => [(k, v)]
  | (k', v') :: rest => if k' = k then (k, v) :: rest else (k', v') :: StrMap.set rest k v

@[simp] theorem lookup_set_self (m : StrMap) (k v : String) : (m.set k v).lookup k = some v := by
  induction m with
  | nil => simp [set]
  | cons p rest ih =>
      obtain ⟨k', v'⟩ := p
      unfold set
      by_cases h : k' = k
      · simp [h]
      · have hk : (k == k') = false := by simpa using Ne.symm h
        simp [h, List.lookup_cons, hk, ih]

theorem lookup_set_ne {m : StrMap} {k k' v : String} (h : k' ≠ k) :
    (m.set k v).lookup k' = m.lookup k' := by
  induction m with
  | nil =>
      have hk : (k' == k) = false := by simpa using h
      simp [set, List.lookup_cons, hk]
  | cons p rest ih =>
      obtain ⟨k₁, v₁⟩ := p
      unfold set
      by_cases h₁ : k₁ = k
      · subst h₁
        have hk : (k' == k₁) = false := by simpa using h
        simp [List.lookup_cons, hk]
      · by_cases h₂ : k' = k₁
        · subst h₂; simp [h₁]
        · have : (k' == k₁) = false := by simpa using h₂
          simp [h₁, List.lookup_cons, this, ih]

end StrMap

/-! ## Metadata -/

/-- `metav1.OwnerReference`; a nil `Controller` pointer reads as false. -/
structure OwnerReference where
  apiVersion : String
  kind : String
  name : String
  controller : Bool
  deriving DecidableEq, Repr

/-- `metav1.ObjectMeta` inside one namespace. A zero deletion timestamp is `none`. -/
structure ObjectMeta where
  name : String := ""
  generateName : String := ""
  resourceVersion : Nat := 0
  labels : StrMap := []
  annotations : StrMap := []
  finalizers : List String := []
  ownerReferences : List OwnerReference := []
  creationTimestamp : Int := 0
  deletionTimestamp : Option Int := none
  deriving DecidableEq, Repr

namespace ObjectMeta

/-- `controllerutil.ContainsFinalizer`. -/
def containsFinalizer (m : ObjectMeta) (f : String) : Bool := m.finalizers.contains f

/-- `controllerutil.AddFinalizer`. -/
def addFinalizer (m : ObjectMeta) (f : String) : ObjectMeta :=
  if m.finalizers.contains f then m else { m with finalizers := m.finalizers ++ [f] }

/-- `controllerutil.RemoveFinalizer`; it reports a change exactly when `containsFinalizer` held. -/
def removeFinalizer (m : ObjectMeta) (f : String) : ObjectMeta :=
  { m with finalizers := m.finalizers.filter (· ≠ f) }

/-- `metav1.GetControllerOf`. -/
def controllerOf (m : ObjectMeta) : Option OwnerReference := m.ownerReferences.find? (·.controller)

/-- `controllerutil.HasControllerReference`. -/
def hasControllerReference (m : ObjectMeta) : Bool := m.ownerReferences.any (·.controller)

/-- `controllerutil.SetControllerReference` on an object without a controller: the reference replaces one
    of the same owner, or is appended. -/
def setControllerReference (m : ObjectMeta) (apiVersion kind name : String) : ObjectMeta :=
  let ref : OwnerReference := { apiVersion, kind, name, controller := true }
  let same := fun (r : OwnerReference) => decide (r.apiVersion = apiVersion ∧ r.kind = kind ∧ r.name = name)
  { m with ownerReferences :=
      if m.ownerReferences.any same then m.ownerReferences.map (fun r => if same r then ref else r)
      else m.ownerReferences ++ [ref] }

theorem controllerOf_congr {m m' : ObjectMeta} (h : m'.ownerReferences = m.ownerReferences) :
    m'.controllerOf = m.controllerOf := by rw [controllerOf, h]; rfl

theorem hasControllerReference_eq_false {m : ObjectMeta} :
    m.hasControllerReference = false ↔ m.controllerOf = none := by
  unfold hasControllerReference controllerOf
  rw [List.any_eq_false, List.find?_eq_none]

/-- An object without a controller gets the one that is set. -/
theorem controllerOf_setControllerReference {m : ObjectMeta} (h : m.hasControllerReference = false)
    (apiVersion kind name : String) :
    (m.setControllerReference apiVersion kind name).controllerOf = some ⟨apiVersion, kind, name, true⟩ := by
  have hnone : ∀ r ∈ m.ownerReferences, ¬ r.controller = true := List.any_eq_false.mp h
  unfold setControllerReference controllerOf
  dsimp only
  split
  · -- every reference to the owner is replaced by the new one, and no other is a controller
    rename_i hany
    have hfind : ∀ refs : List OwnerReference, (∀ r ∈ refs, ¬ r.controller = true) →
        refs.any (fun r => decide (r.apiVersion = apiVersion ∧ r.kind = kind ∧ r.name = name)) = true →
        (refs.map fun r => if decide (r.apiVersion = apiVersion ∧ r.kind = kind ∧ r.name = name) = true then
          (⟨apiVersion, kind, name, true⟩ : OwnerReference) else r).find? (·.controller) =
            some ⟨apiVersion, kind, name, true⟩ := by
      intro refs hrefs hany
      induction refs with
      | nil => cases hany
      | cons r refs ih =>
          rw [List.map_cons]
          by_cases hr : decide (r.apiVersion = apiVersion ∧ r.kind = kind ∧ r.name = name) = true
          · rw [if_pos hr]
            rfl
          · rw [if_neg hr, List.find?_cons_of_neg (hrefs r List.mem_cons_self)]
            refine ih (fun r' hr' => hrefs r' (List.mem_cons_of_mem _ hr')) ?_
            rw [List.any_cons, Bool.or_eq_true] at hany
            exact hany.resolve_left hr
    exact hfind _ hnone hany
  · rw [List.find?_append, List.find?_eq_none.mpr hnone]
    rfl

section Finalizers

variable (m : ObjectMeta) (f : String)

/-- Adding a finalizer changes the finalizers only. -/
theorem addFinalizer_eq : ∃ finalizers, m.addFinalizer f = { m with finalizers := finalizers } ∧
    f ∈ finalizers ∧ ∀ g, g ∈ finalizers ↔ g = f ∨ g ∈ m.finalizers := by
  unfold addFinalizer
  split
  · rename_i h
    have hmem : f ∈ m.finalizers := by simpa using h
    refine ⟨m.finalizers, rfl, hmem, fun g => ⟨.inr, ?_⟩⟩
    rintro (rfl | hg)
    · exact hmem
    · exact hg
  · refine ⟨m.finalizers ++ [f], rfl, by simp, fun g => ?_⟩
    rw [List.mem_append, List.mem_singleton]
    exact or_comm

@[simp] theorem addFinalizer_name : (m.addFinalizer f).name = m.name := by
  obtain ⟨_, h, _⟩ := m.addFinalizer_eq f
  rw [h]
@[simp] theorem addFinalizer_resourceVersion : (m.addFinalizer f).resourceVersion = m.resourceVersion := by
  obtain ⟨_, h, _⟩ := m.addFinalizer_eq f
  rw [h]
@[simp] theorem addFinalizer_labels : (m.addFinalizer f).labels = m.labels := by
  obtain ⟨_, h, _⟩ := m.addFinalizer_eq f
  rw [h]
@[simp] theorem addFinalizer_ownerReferences : (m.addFinalizer f).ownerReferences = m.ownerReferences := by
  obtain ⟨_, h, _⟩ := m.addFinalizer_eq f
  rw [h]
@[simp] theorem addFinalizer_deletionTimestamp :
    (m.addFinalizer f).deletionTimestamp = m.deletionTimestamp := by
  obtain ⟨_, h, _⟩ := m.addFinalizer_eq f
  rw [h]

theorem mem_addFinalizer {g : String} : g ∈ (m.addFinalizer f).finalizers ↔ g = f ∨ g ∈ m.finalizers := by
  obtain ⟨_, h, _, hg⟩ := m.addFinalizer_eq f
  rw [h]
  exact hg g

theorem mem_removeFinalizer {g : String} : g ∈ (m.removeFinalizer f).finalizers ↔ g ∈ m.finalizers ∧ g ≠ f := by
  unfold removeFinalizer
  rw [List.mem_filter, decide_eq_true_eq]

end Finalizers

end ObjectMeta

/-- An API object: metadata, specification and status. -/
structure Object (S T : Type) where
  metadata : ObjectMeta
  spec : S
  status : T
  deriving DecidableEq, Repr

namespace Object

variable {S T : Type}

abbrev name (o : Object S T) : String := o.metadata.name

/-- `!obj.GetDeletionTimestamp().IsZero()`. -/
def deleting (o : Object S T) : Bool := o.metadata.deletionTimestamp.isSome

end Object

end Etos.Kube
