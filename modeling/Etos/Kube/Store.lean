import Etos.Kube.Api
import Mathlib.Data.List.Nodup
import Mathlib.Logic.Function.Basic

/-!
# `Kube.Store` — the objects of a namespace, as the API server keeps them

A `Store` holds the objects of every kind by name, and every version that was ever stored, since a client that
reads through a cache may be answered by an old one. It cannot be built with an object filed under a wrong name
or with two versions that carry one resource version, and what is stored under a name is the newest version of
that name: the invariants are fields.

## Contents
- **Storing.** `put` files an object under the next resource version; `erase` removes one.
- **The four writes.** `created`, `updated`, `statusUpdated` and `deleted` are the server's rules: optimistic
  concurrency, the status subresource, no new finalizer on an object that is being deleted, and removal of
  such an object once its last finalizer is gone. An admission webhook may change an object before it is
  created or updated (`Admission`).
- **The meaning of a call.** `Store.Sem` is what a call may do under lagging caches, rejected writes and lost
  responses; `Sem.write_cases` says that a call either leaves the store alone or is one of the four writes.
-/

namespace Etos.Kube

variable {K : Type} [DecidableEq K] {Spec Status : K → Type} {X : Type} {XAns : X → Type}

/-- The objects of a namespace. -/
structure Store (K : Type) (Spec Status : K → Type) where
  /-- Every name that was ever used, oldest first. -/
  names : K → List String
  find : (k : K) → String → Option (Object (Spec k) (Status k))
  /-- Every version that was ever stored. -/
  past : (k : K) → List (Object (Spec k) (Status k))
  /-- The last resource version given out. -/
  version : Nat
  distinct : ∀ k, (names k).Nodup
  named : ∀ {k n o}, find k n = some o → o.name = n
  listed : ∀ {k n o}, find k n = some o → n ∈ names k
  current : ∀ {k n o}, find k n = some o → o ∈ past k
  dated : ∀ {k o}, o ∈ past k → o.metadata.resourceVersion ≤ version
  unique : ∀ {k o o'}, o ∈ past k → o' ∈ past k →
    o.metadata.resourceVersion = o'.metadata.resourceVersion → o = o'
  filed : ∀ {k o}, o ∈ past k → o.name ∈ names k
  latest : ∀ {k o cur}, o ∈ past k → find k o.name = some cur →
    o.metadata.resourceVersion ≤ cur.metadata.resourceVersion

namespace Store

/-- Nothing was ever stored. -/
def empty : Store K Spec Status where
  names := fun _ => []
  find := fun _ _ => none
  past := fun _ => []
  version := 0
  distinct := by simp
  named := by simp
  listed := by simp
  current := by simp
  dated := by simp
  unique := by simp
  filed := by simp
  latest := by simp

variable (s : Store K Spec Status) {k k' : K} {n n' : String}

/-! ## Storing -/

/-- The object with the next resource version. -/
def stamp (o : Object (Spec k) (Status k)) : Object (Spec k) (Status k) :=
  { o with metadata := { o.metadata with resourceVersion := s.version + 1 } }

omit [DecidableEq K] in
@[simp] theorem stamp_name (o : Object (Spec k) (Status k)) : (s.stamp o).name = o.name := rfl
omit [DecidableEq K] in
@[simp] theorem stamp_spec (o : Object (Spec k) (Status k)) : (s.stamp o).spec = o.spec := rfl
omit [DecidableEq K] in
@[simp] theorem stamp_status (o : Object (Spec k) (Status k)) : (s.stamp o).status = o.status := rfl

/-- File an object under the next resource version. -/
def put (k : K) (o : Object (Spec k) (Status k)) : Store K Spec Status where
  names := Function.update s.names k (if o.name ∈ s.names k then s.names k else s.names k ++ [o.name])
  find := Function.update s.find k (Function.update (s.find k) o.name (some (s.stamp o)))
  past := Function.update s.past k (s.stamp o :: s.past k)
  version := s.version + 1
  distinct := by
    intro k'
    by_cases h : k' = k
    · subst h
      rw [Function.update_self]
      split
      · exact s.distinct k'
      · rename_i hn
        refine List.nodup_append.mpr ⟨s.distinct k', List.nodup_singleton _, ?_⟩
        intro a ha b hb e
        rw [List.mem_singleton.mp hb] at e
        exact hn (e ▸ ha)
    · rw [Function.update_of_ne h]
      exact s.distinct k'
  named := by
    intro k' n o' h
    by_cases hk : k' = k
    · subst hk
      rw [Function.update_self] at h
      by_cases hn : n = o.name
      · subst hn
        rw [Function.update_self] at h
        cases h
        rfl
      · rw [Function.update_of_ne hn] at h
        exact s.named h
    · rw [Function.update_of_ne hk] at h
      exact s.named h
  listed := by
    intro k' n o' h
    by_cases hk : k' = k
    · subst hk
      rw [Function.update_self] at h ⊢
      by_cases hn : n = o.name
      · subst hn
        split
        · assumption
        · simp
      · rw [Function.update_of_ne hn] at h
        have := s.listed h
        split
        · exact this
        · exact List.mem_append_left _ this
    · rw [Function.update_of_ne hk] at h ⊢
      exact s.listed h
  current := by
    intro k' n o' h
    by_cases hk : k' = k
    · subst hk
      rw [Function.update_self] at h ⊢
      by_cases hn : n = o.name
      · subst hn
        rw [Function.update_self] at h
        cases h
        exact List.mem_cons_self
      · rw [Function.update_of_ne hn] at h
        exact List.mem_cons_of_mem _ (s.current h)
    · rw [Function.update_of_ne hk] at h ⊢
      exact s.current h
  dated := by
    intro k' o' h
    by_cases hk : k' = k
    · subst hk
      rw [Function.update_self] at h
      rcases List.mem_cons.mp h with rfl | h
      · exact Nat.le_refl _
      · exact Nat.le_succ_of_le (s.dated h)
    · rw [Function.update_of_ne hk] at h
      exact Nat.le_succ_of_le (s.dated h)
  unique := by
    intro k' o₁ o₂ h₁ h₂ hv
    by_cases hk : k' = k
    · subst hk
      rw [Function.update_self] at h₁ h₂
      -- only the new version carries the new number
      rcases List.mem_cons.mp h₁ with rfl | h₁ <;> rcases List.mem_cons.mp h₂ with rfl | h₂
      · rfl
      · have := s.dated h₂
        simp only [stamp] at hv
        omega
      · have := s.dated h₁
        simp only [stamp] at hv
        omega
      · exact s.unique h₁ h₂ hv
    · rw [Function.update_of_ne hk] at h₁ h₂
      exact s.unique h₁ h₂ hv
  filed := by
    intro k' o' h
    by_cases hk : k' = k
    · subst hk
      rw [Function.update_self] at h ⊢
      rcases List.mem_cons.mp h with rfl | h
      · split
        · assumption
        · exact List.mem_append_right _ (List.mem_singleton.mpr rfl)
      · have hold := s.filed h
        split
        · exact hold
        · exact List.mem_append_left _ hold
    · rw [Function.update_of_ne hk] at h ⊢
      exact s.filed h
  latest := by
    intro k' o' cur h hf
    by_cases hk : k' = k
    · subst hk
      rw [Function.update_self] at h hf
      by_cases hn : o'.name = o.name
      · -- the new object is the newest of its name, whatever `o'` is
        rw [hn, Function.update_self] at hf
        cases hf
        rcases List.mem_cons.mp h with rfl | h
        · exact Nat.le_refl _
        · exact Nat.le_succ_of_le (s.dated h)
      · rw [Function.update_of_ne hn] at hf
        rcases List.mem_cons.mp h with rfl | h
        · exact absurd rfl hn
        · exact s.latest h hf
    · rw [Function.update_of_ne hk] at h hf
      exact s.latest h hf

/-- Remove an object, which takes a resource version too. Its versions stay in the past. -/
def erase (k : K) (n : String) : Store K Spec Status :=
  { s with
    find := Function.update s.find k (Function.update (s.find k) n none)
    version := s.version + 1
    dated := fun h => Nat.le_succ_of_le (s.dated h)
    named := by
      intro k' n' o h
      by_cases hk : k' = k
      · subst hk
        rw [Function.update_self] at h
        by_cases hn : n' = n
        · subst hn
          simp at h
        · rw [Function.update_of_ne hn] at h
          exact s.named h
      · rw [Function.update_of_ne hk] at h
        exact s.named h
    listed := by
      intro k' n' o h
      by_cases hk : k' = k
      · subst hk
        rw [Function.update_self] at h
        by_cases hn : n' = n
        · subst hn
          simp at h
        · rw [Function.update_of_ne hn] at h
          exact s.listed h
      · rw [Function.update_of_ne hk] at h
        exact s.listed h
    current := by
      intro k' n' o h
      by_cases hk : k' = k
      · subst hk
        rw [Function.update_self] at h
        by_cases hn : n' = n
        · subst hn
          simp at h
        · rw [Function.update_of_ne hn] at h
          exact s.current h
      · rw [Function.update_of_ne hk] at h
        exact s.current h
    latest := by
      intro k' o cur h hf
      by_cases hk : k' = k
      · subst hk
        rw [Function.update_self] at hf
        by_cases hn : o.name = n
        · rw [hn, Function.update_self] at hf
          cases hf
        · rw [Function.update_of_ne hn] at hf
          exact s.latest h hf
      · rw [Function.update_of_ne hk] at hf
        exact s.latest h hf }

variable {s}

@[simp] theorem put_find_self (o : Object (Spec k) (Status k)) :
    (s.put k o).find k o.name = some (s.stamp o) := by
  simp [put]

theorem put_find_ne {o : Object (Spec k) (Status k)} (h : n ≠ o.name) :
    (s.put k o).find k n = s.find k n := by
  simp [put, h]

theorem put_find_kind {o : Object (Spec k) (Status k)} (h : k' ≠ k) :
    (s.put k o).find k' = s.find k' := by
  simp [put, h]

@[simp] theorem put_past (o : Object (Spec k) (Status k)) :
    (s.put k o).past k = s.stamp o :: s.past k := by
  simp [put]

theorem put_past_kind {o : Object (Spec k) (Status k)} (h : k' ≠ k) :
    (s.put k o).past k' = s.past k' := by
  simp [put, h]

theorem put_past_mono {o : Object (Spec k) (Status k)} {x : Object (Spec k') (Status k')}
    (h : x ∈ s.past k') : x ∈ (s.put k o).past k' := by
  by_cases hk : k' = k
  · subst hk
    rw [put_past]
    exact List.mem_cons_of_mem _ h
  · rwa [put_past_kind hk]

@[simp] theorem erase_find_self : (s.erase k n).find k n = none := by simp [erase]

theorem erase_find_ne (h : n' ≠ n) : (s.erase k n).find k n' = s.find k n' := by simp [erase, h]

theorem erase_find_kind (h : k' ≠ k) : (s.erase k n).find k' = s.find k' := by simp [erase, h]

/-- What is stored after a `put` was stored before, or is the new object. -/
theorem find_of_put {o : Object (Spec k) (Status k)} {x : Object (Spec k') (Status k')}
    (h : (s.put k o).find k' n = some x) :
    s.find k' n = some x ∨ ∃ hk : k' = k, n = o.name ∧ hk ▸ x = s.stamp o := by
  by_cases hk : k' = k
  · subst hk
    by_cases hn : n = o.name
    · subst hn
      rw [put_find_self] at h
      exact .inr ⟨rfl, rfl, (Option.some.inj h).symm⟩
    · rw [put_find_ne hn] at h
      exact .inl h
  · rw [put_find_kind hk] at h
    exact .inl h

theorem find_of_erase {x : Object (Spec k') (Status k')} (h : (s.erase k n).find k' n' = some x) :
    s.find k' n' = some x := by
  by_cases hk : k' = k
  · subst hk
    by_cases hn : n' = n
    · subst hn
      simp at h
    · rwa [erase_find_ne hn] at h
  · rwa [erase_find_kind hk] at h

/-! ## Reading -/

variable (s)

/-- The objects of a kind that match a selector, now. -/
def list (k : K) (sel : Selector) : List (Object (Spec k) (Status k)) :=
  ((s.names k).filterMap (s.find k)).filter (fun o => sel.matches o.metadata)

variable {s}

omit [DecidableEq K] in
theorem mem_list {sel : Selector} {o : Object (Spec k) (Status k)} :
    o ∈ s.list k sel ↔ s.find k o.name = some o ∧ sel.matches o.metadata = true := by
  unfold list
  rw [List.mem_filter, List.mem_filterMap]
  constructor
  · rintro ⟨⟨n, _, hf⟩, hm⟩
    rw [← s.named hf] at hf
    exact ⟨hf, hm⟩
  · rintro ⟨hf, hm⟩
    exact ⟨⟨o.name, s.listed hf, hf⟩, hm⟩

/-! ## The four writes -/

variable (s)

/-- Create an object under the name `n`, at time `t`. -/
def created (k : K) (o : Object (Spec k) (Status k)) (n : String) (t : Int) :
    Option (Object (Spec k) (Status k) × Store K Spec Status) :=
  if (s.find k n).isSome then none
  else
    let new := { o with metadata :=
      { o.metadata with name := n, creationTimestamp := t, deletionTimestamp := none } }
    some (s.stamp new, s.put k new)

/-- May these finalizers be written over the stored object? Under deletion none may be added. -/
def finalizersOk (cur : Object (Spec k) (Status k)) (finalizers : List String) : Bool :=
  !cur.deleting || finalizers.all (cur.metadata.finalizers.contains ·)

/-- What an update stores: the timestamps and the status are not the client's to write. -/
def merged (cur o : Object (Spec k) (Status k)) : Object (Spec k) (Status k) :=
  { o with
    metadata :=
      { o.metadata with
        creationTimestamp := cur.metadata.creationTimestamp
        deletionTimestamp := cur.metadata.deletionTimestamp }
    status := cur.status }

/-- Update metadata and specification. An object under deletion disappears with its last finalizer. -/
def updated (k : K) (o : Object (Spec k) (Status k)) :
    Option (Object (Spec k) (Status k) × Store K Spec Status) :=
  match s.find k o.name with
  | none => none
  | some cur =>
      if cur.metadata.resourceVersion = o.metadata.resourceVersion ∧
          finalizersOk cur o.metadata.finalizers = true then
        if cur.deleting ∧ o.metadata.finalizers = [] then
          some (s.stamp (merged cur o), s.erase k o.name)
        else some (s.stamp (merged cur o), s.put k (merged cur o))
      else none

/-- Update the status, and nothing else. -/
def statusUpdated (k : K) (o : Object (Spec k) (Status k)) :
    Option (Object (Spec k) (Status k) × Store K Spec Status) :=
  match s.find k o.name with
  | none => none
  | some cur =>
      if cur.metadata.resourceVersion = o.metadata.resourceVersion then
        some (s.stamp { cur with status := o.status }, s.put k { cur with status := o.status })
      else none

/-- Delete at time `t`: an object with finalizers is only marked. -/
def deleted (k : K) (n : String) (t : Int) : Option (Store K Spec Status) :=
  match s.find k n with
  | none => none
  | some cur =>
      if cur.metadata.finalizers = [] then some (s.erase k n)
      else if cur.deleting then some s
      else some (s.put k { cur with metadata := { cur.metadata with deletionTimestamp := some t } })

/-- The object under a new name, as `created` makes it. -/
def renamed (o : Object (Spec k) (Status k)) (n : String) (t : Int) : Object (Spec k) (Status k) :=
  { o with metadata :=
    { o.metadata with name := n, creationTimestamp := t, deletionTimestamp := none } }

/-- The object marked for deletion. -/
def marked (o : Object (Spec k) (Status k)) (t : Int) : Object (Spec k) (Status k) :=
  { o with metadata := { o.metadata with deletionTimestamp := some t } }

end Store

/-- What admission may make of an object that is about to be stored. -/
abbrev Admission (K : Type) (Spec Status : K → Type) : Type :=
  Store K Spec Status → (k : K) → Object (Spec k) (Status k) → Object (Spec k) (Status k) → Prop

namespace Store

/-- A name the server may give: the client's, or a fresh one that starts with `generateName`. -/
def Names (s : Store K Spec Status) (k : K) (m : ObjectMeta) (n : String) : Prop :=
  (m.name ≠ "" ∧ n = m.name) ∨ (m.name = "" ∧ (∃ suffix, n = m.generateName ++ suffix) ∧ n ∉ s.names k)

variable (adm : Admission K Spec Status)

/-- The writes the server carries out, with its answers. -/
inductive Write (s : Store K Spec Status) :
    (o : Op K Spec Status X) → Ans K Spec Status X XAns o → Store K Spec Status → Prop where
  | create {k o o' n t x s'} (ha : adm s k o o') (hn : s.Names k o'.metadata n)
      (h : s.created k o' n t = some (x, s')) : Write s (.create k o) (.ok x) s'
  | update {k o o' x s'} (ha : adm s k o o') (h : s.updated k o' = some (x, s')) :
      Write s (.update k o) (.ok x) s'
  | updateStatus {k o x s'} (h : s.statusUpdated k o = some (x, s')) :
      Write s (.updateStatus k o) (.ok x) s'
  | delete {k n t s'} (h : s.deleted k n t = some s') : Write s (.delete k n) (.ok ()) s'

/-- **What a call may do.** Reads answer from the past; a write is carried out, carried out with its answer
    lost, or rejected. Calls that go elsewhere answer anything. -/
inductive Sem : Etos.Sem (Op K Spec Status X) (Ans K Spec Status X XAns) (Store K Spec Status) where
  | get {s k n x} (h : x ∈ s.past k) (hn : x.name = n) : Sem s (.get k n) (.ok x) s
  | list {s k sel xs} (h : ∀ x ∈ xs, x ∈ s.past k ∧ sel.matches x.metadata = true) :
      Sem s (.list k sel) (.ok xs) s
  | write {s o a s'} (h : Write adm s o a s') : Sem s o a s'
  | lost {s o s'} {a a' : Ans K Spec Status X XAns o} (h : Write adm s o a' s')
      (ha : succeeded o a = false) : Sem s o a s'
  | error {s o a} (ha : succeeded o a = false) : Sem s o a s
  | ext {s x a} : Sem s (.ext x) a s

variable {adm} {s s' : Store K Spec Status}

/-- A server that admits less does less. -/
theorem Write.mono {adm' : Admission K Spec Status} (hadm : ∀ s k o o', adm s k o o' → adm' s k o o')
    {o : Op K Spec Status X} {a : Ans K Spec Status X XAns o} (h : Write adm s o a s') : Write adm' s o a s' := by
  cases h with
  | create ha hn h => exact .create (hadm _ _ _ _ ha) hn h
  | update ha h => exact .update (hadm _ _ _ _ ha) h
  | updateStatus h => exact .updateStatus h
  | delete h => exact .delete h

theorem Sem.mono {adm' : Admission K Spec Status} (hadm : ∀ s k o o', adm s k o o' → adm' s k o o')
    {o : Op K Spec Status X} {a : Ans K Spec Status X XAns o} (h : Sem adm s o a s') : Sem adm' s o a s' := by
  cases h with
  | get h hn => exact .get h hn
  | list h => exact .list h
  | write h => exact .write (h.mono hadm)
  | lost h ha => exact .lost (h.mono hadm) ha
  | error ha => exact .error ha
  | ext => exact .ext

/-- A call leaves the store alone, or is one of the four writes. -/
theorem Sem.write_cases {o : Op K Spec Status X} {a : Ans K Spec Status X XAns o}
    (h : Sem adm s o a s') : s' = s ∨ ∃ a' : Ans K Spec Status X XAns o, Write adm s o a' s' := by
  cases h with
  | get => exact .inl rfl
  | list => exact .inl rfl
  | write h => exact .inr ⟨_, h⟩
  | lost h => exact .inr ⟨_, h⟩
  | error => exact .inl rfl
  | ext => exact .inl rfl

/-- Reads leave the store alone. -/
theorem Sem.get_eq {k : K} {n : String} {a : Ans K Spec Status X XAns (.get k n)} (h : Sem adm s (.get k n) a s') :
    s' = s := by
  rcases h.write_cases with rfl | ⟨_, hw⟩
  · rfl
  · cases hw

theorem Sem.list_eq {k : K} {sel : Selector} {a : Ans K Spec Status X XAns (.list k sel)}
    (h : Sem adm s (.list k sel) a s') : s' = s := by
  rcases h.write_cases with rfl | ⟨_, hw⟩
  · rfl
  · cases hw

/-- What a `created` did. -/
theorem created_eq {k : K} {o x : Object (Spec k) (Status k)} {n : String} {t : Int}
    (h : s.created k o n t = some (x, s')) :
    s.find k n = none ∧ x = s.stamp (renamed o n t) ∧ s' = s.put k (renamed o n t) := by
  unfold created at h
  split at h
  · cases h
  · rename_i hnone
    cases h
    exact ⟨by simpa using hnone, rfl, rfl⟩

/-- What an `updated` did. -/
theorem updated_eq {k : K} {o x : Object (Spec k) (Status k)} (h : s.updated k o = some (x, s')) :
    ∃ cur, s.find k o.name = some cur ∧ cur.metadata.resourceVersion = o.metadata.resourceVersion ∧
      finalizersOk cur o.metadata.finalizers = true ∧ x = s.stamp (merged cur o) ∧
      ((cur.deleting = true ∧ o.metadata.finalizers = [] ∧ s' = s.erase k o.name) ∨
        s' = s.put k (merged cur o)) := by
  unfold updated at h
  split at h
  · cases h
  · rename_i cur hf
    split at h
    · rename_i hok
      split at h
      · rename_i hlast
        cases h
        exact ⟨cur, hf, hok.1, hok.2, rfl, .inl ⟨hlast.1, hlast.2, rfl⟩⟩
      · cases h
        exact ⟨cur, hf, hok.1, hok.2, rfl, .inr rfl⟩
    · cases h

/-- What a `statusUpdated` did. -/
theorem statusUpdated_eq {k : K} {o x : Object (Spec k) (Status k)}
    (h : s.statusUpdated k o = some (x, s')) :
    ∃ cur, s.find k o.name = some cur ∧ cur.metadata.resourceVersion = o.metadata.resourceVersion ∧
      x = s.stamp { cur with status := o.status } ∧ s' = s.put k { cur with status := o.status } := by
  unfold statusUpdated at h
  split at h
  · cases h
  · rename_i cur hf
    split at h
    · rename_i hv
      cases h
      exact ⟨cur, hf, hv, rfl, rfl⟩
    · cases h

/-- A status update of the stored version is carried out. -/
theorem statusUpdated_of_find {k : K} {o cur : Object (Spec k) (Status k)}
    (hf : s.find k o.name = some cur) (hv : cur.metadata.resourceVersion = o.metadata.resourceVersion) :
    s.statusUpdated k o =
      some (s.stamp { cur with status := o.status }, s.put k { cur with status := o.status }) := by
  unfold statusUpdated
  rw [hf]
  exact if_pos hv

/-- What a `deleted` did. -/
theorem deleted_eq {k : K} {n : String} {t : Int} (h : s.deleted k n t = some s') :
    ∃ cur, s.find k n = some cur ∧
      ((cur.metadata.finalizers = [] ∧ s' = s.erase k n) ∨
        (cur.metadata.finalizers ≠ [] ∧ cur.deleting = true ∧ s' = s) ∨
        (cur.metadata.finalizers ≠ [] ∧ cur.deleting = false ∧ s' = s.put k (marked cur t))) := by
  unfold deleted at h
  split at h
  · cases h
  · rename_i cur hf
    split at h
    · rename_i hfin
      cases h
      exact ⟨cur, hf, .inl ⟨hfin, rfl⟩⟩
    · rename_i hfin
      split at h
      · rename_i hdel
        cases h
        exact ⟨cur, hf, .inr (.inl ⟨hfin, hdel, rfl⟩)⟩
      · rename_i hdel
        cases h
        exact ⟨cur, hf, .inr (.inr ⟨hfin, by simpa using hdel, rfl⟩)⟩

/-- How a write changes the objects of one kind. -/
inductive Touches (adm : Admission K Spec Status) (s : Store K Spec Status) (k : K) :
    Op K Spec Status X → Store K Spec Status → Prop where
  | create {o o' n t} (ha : adm s k o o') (hn : s.Names k o'.metadata n) (hf : s.find k n = none) :
      Touches adm s k (.create k o) (s.put k (renamed o' n t))
  | update {o o' cur} (ha : adm s k o o') (hf : s.find k o'.name = some cur)
      (hv : cur.metadata.resourceVersion = o'.metadata.resourceVersion)
      (hok : finalizersOk cur o'.metadata.finalizers = true) :
      Touches adm s k (.update k o) (s.put k (merged cur o'))
  /-- The last finalizer of an object under deletion goes, and the object with it. -/
  | finish {o o' cur} (ha : adm s k o o') (hf : s.find k o'.name = some cur)
      (hv : cur.metadata.resourceVersion = o'.metadata.resourceVersion) (hdel : cur.deleting = true)
      (hlast : o'.metadata.finalizers = []) : Touches adm s k (.update k o) (s.erase k o'.name)
  | status {o cur} (hf : s.find k o.name = some cur)
      (hv : cur.metadata.resourceVersion = o.metadata.resourceVersion) :
      Touches adm s k (.updateStatus k o) (s.put k { cur with status := o.status })
  | remove {n cur} (hf : s.find k n = some cur) (hfree : cur.metadata.finalizers = []) :
      Touches adm s k (.delete k n) (s.erase k n)
  | mark {n t cur} (hf : s.find k n = some cur) (hfin : cur.metadata.finalizers ≠ [])
      (hlive : cur.deleting = false) : Touches adm s k (.delete k n) (s.put k (marked cur t))

/-- Only one name is touched. -/
theorem Touches.elsewhere {o : Op K Spec Status X} {k : K} (h : Touches adm s k o s') :
    ∃ n, ∀ m, m ≠ n → s'.find k m = s.find k m := by
  cases h with
  | create => exact ⟨_, fun m hm => put_find_ne hm⟩
  | update => exact ⟨_, fun m hm => put_find_ne hm⟩
  | finish => exact ⟨_, fun m hm => erase_find_ne hm⟩
  | status => exact ⟨_, fun m hm => put_find_ne hm⟩
  | remove => exact ⟨_, fun m hm => erase_find_ne hm⟩
  | mark => exact ⟨_, fun m hm => put_find_ne hm⟩

/-- A version that was not there before is the stored one now. -/
theorem Touches.stored {o : Op K Spec Status X} {k : K} (h : Touches adm s k o s') {x : Object (Spec k) (Status k)}
    (hx : x ∈ s'.past k) : x ∈ s.past k ∨ s'.find k x.name = some x := by
  have hput : ∀ y : Object (Spec k) (Status k), x ∈ (s.put k y).past k →
      x ∈ s.past k ∨ (s.put k y).find k x.name = some x := by
    intro y hx
    rw [put_past] at hx
    rcases List.mem_cons.mp hx with rfl | hx
    · exact .inr (put_find_self y)
    · exact .inl hx
  cases h with
  | create | update | status | mark => exact hput _ hx
  | finish | remove => exact .inl hx

/-- A write leaves the objects of a kind alone, or touches one of them. -/
theorem Write.touches {o : Op K Spec Status X} {a : Ans K Spec Status X XAns o} (h : Write adm s o a s') (k : K) :
    (s'.find k = s.find k ∧ s'.past k = s.past k) ∨ Touches adm s k o s' := by
  cases h with
  | @create k' o o' n t x s' ha hn h =>
      obtain ⟨hnone, _, rfl⟩ := created_eq h
      by_cases hk : k = k'
      · subst hk
        exact .inr (.create ha hn hnone)
      · exact .inl ⟨put_find_kind hk, put_past_kind hk⟩
  | @update k' o o' x s' ha h =>
      obtain ⟨cur, hf, hv, hok, _, hcase⟩ := updated_eq h
      by_cases hk : k = k'
      · subst hk
        rcases hcase with ⟨hdel, hlast, rfl⟩ | rfl
        · exact .inr (.finish ha hf hv hdel hlast)
        · exact .inr (.update ha hf hv hok)
      · rcases hcase with ⟨_, _, rfl⟩ | rfl
        · exact .inl ⟨erase_find_kind hk, rfl⟩
        · exact .inl ⟨put_find_kind hk, put_past_kind hk⟩
  | @updateStatus k' o x s' h =>
      obtain ⟨cur, hf, hv, _, rfl⟩ := statusUpdated_eq h
      by_cases hk : k = k'
      · subst hk
        exact .inr (.status hf hv)
      · exact .inl ⟨put_find_kind hk, put_past_kind hk⟩
  | @delete k' n t s' h =>
      obtain ⟨cur, hf, hcase⟩ := deleted_eq h
      by_cases hk : k = k'
      · subst hk
        rcases hcase with ⟨hfree, rfl⟩ | ⟨_, _, rfl⟩ | ⟨hfin, hlive, rfl⟩
        · exact .inr (.remove hf hfree)
        · exact .inl ⟨rfl, rfl⟩
        · exact .inr (.mark hf hfin hlive)
      · rcases hcase with ⟨_, rfl⟩ | ⟨_, _, rfl⟩ | ⟨_, _, rfl⟩
        · exact .inl ⟨erase_find_kind hk, rfl⟩
        · exact .inl ⟨rfl, rfl⟩
        · exact .inl ⟨put_find_kind hk, put_past_kind hk⟩

/-- So does a call. -/
theorem Sem.touches {o : Op K Spec Status X} {a : Ans K Spec Status X XAns o} (h : Sem adm s o a s') (k : K) :
    (s'.find k = s.find k ∧ s'.past k = s.past k) ∨ Touches adm s k o s' := by
  rcases h.write_cases with rfl | ⟨_, hw⟩
  · exact .inl ⟨rfl, rfl⟩
  · exact hw.touches k

/-- Versions are never forgotten. -/
theorem Write.past_mono {o : Op K Spec Status X} {a : Ans K Spec Status X XAns o}
    (h : Write adm s o a s') {k : K} {x : Object (Spec k) (Status k)} (hx : x ∈ s.past k) :
    x ∈ s'.past k := by
  cases h with
  | create _ _ h =>
      obtain ⟨_, _, rfl⟩ := created_eq h
      exact put_past_mono hx
  | update _ h =>
      obtain ⟨cur, _, _, _, _, ⟨_, _, rfl⟩ | rfl⟩ := updated_eq h
      · exact hx
      · exact put_past_mono hx
  | updateStatus h =>
      obtain ⟨cur, _, _, _, rfl⟩ := statusUpdated_eq h
      exact put_past_mono hx
  | delete h =>
      obtain ⟨cur, _, ⟨_, rfl⟩ | ⟨_, _, rfl⟩ | ⟨_, _, rfl⟩⟩ := deleted_eq h
      · exact hx
      · exact hx
      · exact put_past_mono hx

theorem Sem.past_mono {o : Op K Spec Status X} {a : Ans K Spec Status X XAns o}
    (h : Sem adm s o a s') {k : K} {x : Object (Spec k) (Status k)} (hx : x ∈ s.past k) :
    x ∈ s'.past k := by
  rcases h.write_cases with rfl | ⟨_, hw⟩
  · exact hx
  · exact hw.past_mono hx

/-! ## What a client knows -/

/-- The client was answered with this object: it is a version that was stored, or the last state of an object
    that was removed with it. -/
def Knows (s : Store K Spec Status) (k : K) (x : Object (Spec k) (Status k)) : Prop :=
  x ∈ s.past k ∨
    (x.metadata.resourceVersion ≤ s.version ∧
      ∀ y ∈ s.past k, y.metadata.resourceVersion ≠ x.metadata.resourceVersion)

omit [DecidableEq K] in
/-- A known object with the resource version of the stored one is the stored one. -/
theorem Knows.eq {k : K} {x cur : Object (Spec k) (Status k)} {n : String} (h : s.Knows k x)
    (hf : s.find k n = some cur) (hv : cur.metadata.resourceVersion = x.metadata.resourceVersion) :
    x = cur := by
  rcases h with hx | ⟨_, hno⟩
  · exact s.unique hx (s.current hf) hv.symm
  · exact absurd hv (hno cur (s.current hf))

theorem Knows.put {k k' : K} {x : Object (Spec k) (Status k)} (h : s.Knows k x)
    (o : Object (Spec k') (Status k')) : (s.put k' o).Knows k x := by
  rcases h with hx | ⟨hle, hno⟩
  · exact .inl (put_past_mono hx)
  · refine .inr ⟨Nat.le_succ_of_le hle, fun y hy => ?_⟩
    by_cases hk : k = k'
    · subst hk
      rw [put_past] at hy
      rcases List.mem_cons.mp hy with rfl | hy
      · simp only [stamp]
        omega
      · exact hno y hy
    · rw [put_past_kind hk] at hy
      exact hno y hy

theorem Knows.erase {k k' : K} {x : Object (Spec k) (Status k)} (h : s.Knows k x) (n : String) :
    (s.erase k' n).Knows k x := by
  rcases h with hx | ⟨hle, hno⟩
  · exact .inl hx
  · exact .inr ⟨Nat.le_succ_of_le hle, hno⟩

/-- What is known stays known. -/
theorem Write.knows {o : Op K Spec Status X} {a : Ans K Spec Status X XAns o} (h : Write adm s o a s')
    {k : K} {x : Object (Spec k) (Status k)} (hx : s.Knows k x) : s'.Knows k x := by
  cases h with
  | create _ _ h =>
      obtain ⟨_, _, rfl⟩ := created_eq h
      exact hx.put _
  | update _ h =>
      obtain ⟨cur, _, _, _, _, ⟨_, _, rfl⟩ | rfl⟩ := updated_eq h
      · exact hx.erase _
      · exact hx.put _
  | updateStatus h =>
      obtain ⟨cur, _, _, _, rfl⟩ := statusUpdated_eq h
      exact hx.put _
  | delete h =>
      obtain ⟨cur, _, ⟨_, rfl⟩ | ⟨_, _, rfl⟩ | ⟨_, _, rfl⟩⟩ := deleted_eq h
      · exact hx.erase _
      · exact hx
      · exact hx.put _

theorem Sem.knows {o : Op K Spec Status X} {a : Ans K Spec Status X XAns o} (h : Sem adm s o a s')
    {k : K} {x : Object (Spec k) (Status k)} (hx : s.Knows k x) : s'.Knows k x := by
  rcases h.write_cases with rfl | ⟨_, hw⟩
  · exact hx
  · exact hw.knows hx

/-- A call was answered with this object, alone or in a list. -/
inductive Answered : (o : Op K Spec Status X) → Ans K Spec Status X XAns o → (k : K) →
    Object (Spec k) (Status k) → Prop where
  | get {k n x} : Answered (.get k n) (.ok x) k x
  | list {k sel xs x} (h : x ∈ xs) : Answered (.list k sel) (.ok xs) k x
  | create {k y x} : Answered (.create k y) (.ok x) k x
  | update {k y x} : Answered (.update k y) (.ok x) k x
  | updateStatus {k y x} : Answered (.updateStatus k y) (.ok x) k x

/-- The object a write answers with is known from then on. -/
theorem Write.answered {o : Op K Spec Status X} {a : Ans K Spec Status X XAns o} (h : Write adm s o a s')
    {k : K} {x : Object (Spec k) (Status k)} (hx : Answered o a k x) : s'.Knows k x := by
  cases h with
  | create _ _ h =>
      cases hx
      obtain ⟨_, rfl, rfl⟩ := created_eq h
      exact .inl (by rw [put_past]; exact List.mem_cons_self)
  | update _ h =>
      cases hx
      obtain ⟨cur, _, _, _, rfl, ⟨_, _, rfl⟩ | rfl⟩ := updated_eq h
      · -- the object is gone, but nothing will carry this version again
        refine .inr ⟨Nat.le_refl _, fun y hy => ?_⟩
        have := s.dated (show y ∈ s.past k from hy)
        simp only [stamp]
        omega
      · exact .inl (by rw [put_past]; exact List.mem_cons_self)
  | updateStatus h =>
      cases hx
      obtain ⟨cur, _, _, rfl, rfl⟩ := statusUpdated_eq h
      exact .inl (by rw [put_past]; exact List.mem_cons_self)
  | delete h => cases hx

/-- Whatever a call answers with is known from then on. -/
theorem Sem.answered {o : Op K Spec Status X} {a : Ans K Spec Status X XAns o} (h : Sem adm s o a s')
    {k : K} {x : Object (Spec k) (Status k)} (hx : Answered o a k x) : s'.Knows k x := by
  cases h with
  | get h =>
      cases hx
      exact .inl h
  | list h =>
      cases hx with
      | list hmem => exact .inl (h x hmem).1
  | write h => exact h.answered hx
  | lost _ ha => cases hx <;> cases ha
  | error ha => cases hx <;> cases ha
  | ext => cases hx

/-- A call read this object. -/
inductive Reads : (o : Op K Spec Status X) → Ans K Spec Status X XAns o → (k : K) →
    Object (Spec k) (Status k) → Prop where
  | get {k n x} : Reads (.get k n) (.ok x) k x
  | list {k sel xs x} (h : x ∈ xs) : Reads (.list k sel) (.ok xs) k x

/-- What is read was stored at some time. -/
theorem Sem.read_past {o : Op K Spec Status X} {a : Ans K Spec Status X XAns o} (h : Sem adm s o a s')
    {k : K} {x : Object (Spec k) (Status k)} (hx : Reads o a k x) : x ∈ s'.past k := by
  cases hx with
  | get =>
      cases h with
      | get h => exact h
      | write h => cases h
      | lost h => cases h
      | error ha => cases ha
  | list hmem =>
      cases h with
      | list h => exact (h x hmem).1
      | write h => cases h
      | lost h => cases h
      | error ha => cases ha

/-! ## The deletion mark -/

/-- A new version has a version below it, whose deletion mark it keeps, or is a create. -/
theorem Touches.keeps_mark {o : Op K Spec Status X} {k : K} (h : Touches adm s k o s') {x : Object (Spec k) (Status k)}
    (hx : x ∈ s'.past k) :
    x ∈ s.past k ∨ x.metadata.resourceVersion = s.version + 1 ∧
      ((∃ o₁ o₂, o = .create k o₁ ∧ adm s k o₁ o₂ ∧ s.Names k o₂.metadata x.name) ∨
        ∃ cur, s.find k x.name = some cur ∧ (cur.deleting = true → x.deleting = true)) := by
  -- what is put on top of a stored version
  have hput : ∀ (y cur : Object (Spec k) (Status k)), s.find k y.name = some cur →
      (cur.deleting = true → y.deleting = true) → x ∈ (s.put k y).past k →
      x ∈ s.past k ∨ x.metadata.resourceVersion = s.version + 1 ∧
        ((∃ o₁ o₂, o = .create k o₁ ∧ adm s k o₁ o₂ ∧ s.Names k o₂.metadata x.name) ∨
          ∃ cur, s.find k x.name = some cur ∧ (cur.deleting = true → x.deleting = true)) := by
    intro y cur hf hdel hx
    rw [put_past] at hx
    rcases List.mem_cons.mp hx with rfl | hx
    · exact .inr ⟨rfl, .inr ⟨cur, hf, hdel⟩⟩
    · exact .inl hx
  cases h with
  | @create o₁ o₂ n t ha hn _ =>
      rw [put_past] at hx
      rcases List.mem_cons.mp hx with rfl | hx
      · exact .inr ⟨rfl, .inl ⟨o₁, o₂, rfl, ha, hn⟩⟩
      · exact .inl hx
  | @update o₁ o₂ cur ha hf => exact hput (merged cur o₂) cur hf id hx
  | finish => exact .inl hx
  | @status o₁ cur hf =>
      have hname : cur.name = o₁.name := s.named hf
      exact hput { cur with status := o₁.status } cur (hname ▸ hf) id hx
  | remove => exact .inl hx
  | @mark n t cur hf =>
      have hname : cur.name = n := s.named hf
      exact hput (marked cur t) cur (hname ▸ hf) (fun _ => rfl) hx

/-- What has been marked for deletion stays marked. -/
def MarkStays (s : Store K Spec Status) (k : K) : Prop :=
  ∀ x ∈ s.past k, ∀ y ∈ s.past k, x.name = y.name → x.metadata.resourceVersion ≤ y.metadata.resourceVersion →
    x.deleting = true → y.deleting = true

/-- The mark stays, as long as no name is used twice. -/
theorem MarkStays.step {o : Op K Spec Status X} {k : K} (hI : s.MarkStays k)
    (h : (s'.find k = s.find k ∧ s'.past k = s.past k) ∨ Touches adm s k o s')
    (hnew : ∀ o₁ o₂ n, o = .create k o₁ → adm s k o₁ o₂ → s.Names k o₂.metadata n → n ∉ s.names k) :
    s'.MarkStays k := by
  rcases h with ⟨_, hpast⟩ | h
  · unfold MarkStays
    rw [hpast]
    exact hI
  intro x hx y hy hname hle hdel
  rcases h.keeps_mark hx with hx' | ⟨hv, _⟩ <;> rcases h.keeps_mark hy with hy' | ⟨hv', hfrom⟩
  · exact hI x hx' y hy' hname hle hdel
  · rcases hfrom with ⟨o₁, o₂, ho, ha, hn⟩ | ⟨cur, hf, hkept⟩
    · -- the name of the new object was never used
      exact absurd (hname ▸ s.filed hx') (hnew o₁ o₂ _ ho ha hn)
    · refine hkept (hI x hx' cur (s.current hf) (hname.trans (s.named hf).symm) ?_ hdel)
      refine s.latest hx' ?_
      rw [hname]
      exact hf
  · have hdated := s.dated hy'
    omega
  · -- both are the new version
    obtain rfl : x = y := s'.unique hx hy (hv.trans hv'.symm)
    exact hdel

end Store

end Etos.Kube
