import Etos.Kube.Meta
import Etos.Prog.Outcome
import Mathlib.Logic.Function.Basic

/-!
# `Kube.Desired` — objects that are brought to a desired state

A store of objects of several kinds, and a client that gets, creates, patches and deletes them. A patch is the
difference between an original and a target, and carries both; a `Server` says what becomes of an object that is created
or patched. The status of an object, which controllers report all the time, is not stored: every answer comes with one.

Nobody else writes the objects. A call may fail, and one that fails may have been applied all the same.
-/

namespace Etos.Kube.Desired

variable (K : Type) (Obj Status : K → Type)

/-- The calls of a client, and the clock. -/
inductive Op where
  | get (k : K) (name : String)
  | create (k : K) (name : String) (target : Obj k)
  | patch (k : K) (name : String) (target original : Obj k)
  | delete (k : K) (name : String)
  /-- `time.Now()`, in seconds. -/
  | now

/-- The answers. A patch is answered with the object as stored. -/
@[reducible] def Ans : Op K Obj → Type
  | .get k _ => Except Err (Obj k × Status k)
  | .create _ _ _ => Except Err Unit
  | .patch k _ _ _ => Except Err (Obj k × Status k)
  | .delete _ _ => Except Err Unit
  | .now => Int

/-- What is stored under each name. -/
abbrev Store := (k : K) → String → Option (Obj k)

/-- What the server stores. -/
structure Server where
  created : (k : K) → (target : Obj k) → Obj k
  patched : (k : K) → (original target stored : Obj k) → Obj k

variable {K Obj Status} [DecidableEq K]

/-! ## The store -/

namespace Store

/-- Put an object in its place, or remove it. -/
def set (s : Store K Obj) (k : K) (name : String) (o : Option (Obj k)) : Store K Obj :=
  Function.update s k (Function.update (s k) name o)

variable {s : Store K Obj} {k k' : K} {name name' : String}

@[simp] theorem set_same (s : Store K Obj) (k : K) (name : String) (o : Option (Obj k)) :
    s.set k name o k name = o := by
  unfold set
  rw [Function.update_self, Function.update_self]

theorem set_kind (h : k' ≠ k) (o : Option (Obj k)) (name' : String) : s.set k name o k' name' = s k' name' := by
  unfold set
  rw [Function.update_of_ne h]

theorem set_name (h : name' ≠ name) (o : Option (Obj k)) : s.set k name o k name' = s k name' := by
  unfold set
  rw [Function.update_self, Function.update_of_ne h]

theorem set_other (h : ¬ (k' = k ∧ name' = name)) (o : Option (Obj k)) : s.set k name o k' name' = s k' name' := by
  by_cases hk : k' = k
  · subst hk
    exact set_name (fun hname => h ⟨rfl, hname⟩) o
  · exact set_kind hk o name'

end Store

/-! ## Calls -/

/-- What a call makes of the store, if it can be applied. -/
def applied (srv : Server K Obj) (s : Store K Obj) : Op K Obj → Option (Store K Obj)
  | .create k name target => if (s k name).isNone then some (s.set k name (some (srv.created k target))) else none
  | .patch k name target original =>
      (s k name).map fun stored => s.set k name (some (srv.patched k original target stored))
  | .delete k name => (s k name).map fun _ => s.set k name none
  | _ => some s

/-- Did the call fail? To find nothing is not to fail. -/
def failed : (o : Op K Obj) → Ans K Obj Status o → Bool
  | .get _ _, .error e => !e.isNotFound
  | .create _ _ _, .error _ | .patch _ _ _ _, .error _ | .delete _ _, .error _ => true
  | _, _ => false

/-- The objects that are answered are those stored; nothing is found only if there is none. -/
def Reads (s s' : Store K Obj) : (o : Op K Obj) → Ans K Obj Status o → Prop
  | .get k name, .ok x => s k name = some x.1
  | .get k name, .error e => e.isNotFound = true → s k name = none
  | .patch k name _ _, .ok x => s' k name = some x.1
  | _, _ => True

/-- A call. -/
structure Effect (srv : Server K Obj) (s : Store K Obj) (o : Op K Obj) (a : Ans K Obj Status o) (s' : Store K Obj) :
    Prop where
  reads : Reads s s' o a
  writes : applied srv s o = some s' ∨ (failed o a = true ∧ s' = s)

section Effects

variable {srv : Server K Obj} {s s' : Store K Obj} {k : K} {name : String}

theorem effect_get {a : Except Err (Obj k × Status k)} :
    Effect srv s (.get k name) a s' ↔ Reads s s (.get k name) a ∧ s = s' := by
  constructor
  · rintro ⟨hreads, happ | ⟨_, rfl⟩⟩
    · obtain rfl := Option.some.inj happ
      exact ⟨hreads, rfl⟩
    · exact ⟨hreads, rfl⟩
  · rintro ⟨hreads, rfl⟩
    exact ⟨hreads, .inl rfl⟩

theorem effect_now {now : Ans K Obj Status .now} : Effect srv s .now now s' ↔ s = s' := by
  constructor
  · rintro ⟨_, happ | ⟨hfailed, _⟩⟩
    · exact Option.some.inj happ
    · cases hfailed
  · rintro rfl
    exact ⟨trivial, .inl rfl⟩

theorem effect_create {target : Obj k} {a : Ans K Obj Status (.create k name target)} :
    Effect srv s (.create k name target) a s' ↔
      (s k name = none ∧ s.set k name (some (srv.created k target)) = s') ∨
        (failed (.create k name target) a = true ∧ s = s') := by
  constructor
  · rintro ⟨_, happ | ⟨hfailed, rfl⟩⟩
    · simp only [applied] at happ
      split at happ
      · rename_i hnone
        exact .inl ⟨Option.isNone_iff_eq_none.mp hnone, Option.some.inj happ⟩
      · cases happ
    · exact .inr ⟨hfailed, rfl⟩
  · rintro (⟨hnone, rfl⟩ | ⟨hfailed, rfl⟩)
    · refine ⟨trivial, .inl ?_⟩
      simp only [applied, hnone, Option.isNone_none, if_true]
    · exact ⟨trivial, .inr ⟨hfailed, rfl⟩⟩

theorem effect_patch {target original : Obj k} {a : Except Err (Obj k × Status k)} :
    Effect srv s (.patch k name target original) a s' ↔
      (∃ stored, s k name = some stored ∧ s.set k name (some (srv.patched k original target stored)) = s' ∧
        ∀ x, a = .ok x → x.1 = srv.patched k original target stored) ∨
        ((∃ e, a = .error e) ∧ s = s') := by
  constructor
  · rintro ⟨hreads, happ | ⟨hfailed, rfl⟩⟩
    · obtain ⟨stored, hstored, rfl⟩ := Option.map_eq_some_iff.mp happ
      refine .inl ⟨stored, hstored, rfl, ?_⟩
      rintro x rfl
      have hread : s.set k name (some (srv.patched k original target stored)) k name = some x.1 := hreads
      rw [Store.set_same] at hread
      exact (Option.some.inj hread).symm
    · cases a with
      | error e => exact .inr ⟨⟨e, rfl⟩, rfl⟩
      | ok _ => cases hfailed
  · rintro (⟨stored, hstored, rfl, hx⟩ | ⟨⟨e, rfl⟩, rfl⟩)
    · refine ⟨?_, .inl ?_⟩
      · cases a with
        | error e => trivial
        | ok x =>
            show s.set k name (some (srv.patched k original target stored)) k name = some x.1
            rw [Store.set_same, hx x rfl]
      · simp only [applied, hstored, Option.map_some]
    · exact ⟨trivial, .inr ⟨rfl, rfl⟩⟩

theorem effect_delete {a : Ans K Obj Status (.delete k name)} :
    Effect srv s (.delete k name) a s' ↔
      (s k name ≠ none ∧ s.set k name none = s') ∨ (failed (.delete k name) a = true ∧ s = s') := by
  constructor
  · rintro ⟨_, happ | ⟨hfailed, rfl⟩⟩
    · obtain ⟨stored, hstored, rfl⟩ := Option.map_eq_some_iff.mp happ
      exact .inl ⟨by rw [hstored]; exact Option.some_ne_none _, rfl⟩
    · exact .inr ⟨hfailed, rfl⟩
  · rintro (⟨hsome, rfl⟩ | ⟨hfailed, rfl⟩)
    · obtain ⟨stored, hstored⟩ := Option.ne_none_iff_exists'.mp hsome
      refine ⟨trivial, .inl ?_⟩
      simp only [applied, hstored, Option.map_some]
    · exact ⟨trivial, .inr ⟨hfailed, rfl⟩⟩

/-- Is this a write of the object? -/
def Writes (k : K) (name : String) : Op K Obj → Prop
  | .create k' name' _ | .patch k' name' _ _ | .delete k' name' => k = k' ∧ name = name'
  | _ => False

/-- A call leaves alone what it does not write. -/
theorem Effect.frame {o : Op K Obj} {a : Ans K Obj Status o} (h : Effect srv s o a s') (ho : ¬ Writes k name o) :
    s' k name = s k name := by
  cases o with
  | get k' name' => rw [(effect_get.mp h).2]
  | now => rw [effect_now.mp h]
  | create k' name' target =>
      rcases effect_create.mp h with ⟨_, rfl⟩ | ⟨_, rfl⟩
      · exact Store.set_other ho _
      · rfl
  | patch k' name' target original =>
      rcases effect_patch.mp h with ⟨_, _, rfl, _⟩ | ⟨_, rfl⟩
      · exact Store.set_other ho _
      · rfl
  | delete k' name' =>
      rcases effect_delete.mp h with ⟨_, rfl⟩ | ⟨_, rfl⟩
      · exact Store.set_other ho _
      · rfl

end Effects

end Etos.Kube.Desired
