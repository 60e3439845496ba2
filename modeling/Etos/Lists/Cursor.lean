import Mathlib.Data.List.Infix
import Mathlib.Order.Lattice

/-!
# `Lists.Cursor` — reading a log by a cursor

A log is a list of entries with strictly increasing keys. A reader that remembers one key, the *cursor*, has read the
entries up to it. These are a prefix of the log (`upTo_prefix`); the cursor may move to an entry that has nothing
unread before it (`upTo_read`), or over a stretch with nothing unread (`upTo_skip`). A reader that stops at the first
entry of some kind has read the log `through` it.
-/

namespace Etos.Lists

variable {α κ : Type} [LinearOrder κ] {key : α → κ} {log : List α}

/-- The entries up to the cursor. -/
def upTo (key : α → κ) (log : List α) (cursor : κ) : List α := log.filter fun e => key e ≤ cursor

/-- The keys are strictly increasing. -/
def Increasing (key : α → κ) (log : List α) : Prop := log.Pairwise fun e e' => key e < key e'

theorem upTo_prefix (h : Increasing key log) (cursor : κ) : upTo key log cursor <+: log := by
  induction log with
  | nil => exact List.prefix_refl _
  | cons e log ih =>
      obtain ⟨hlt, h⟩ := List.pairwise_cons.mp h
      by_cases he : key e ≤ cursor
      · rw [upTo, List.filter_cons_of_pos (by simpa using he)]
        exact List.cons_prefix_cons.mpr ⟨rfl, ih h⟩
      · -- everything behind `e` is behind the cursor too
        have hnil : upTo key (e :: log) cursor = [] := by
          refine List.filter_eq_nil_iff.mpr fun e' he' hle => he ?_
          have hle := of_decide_eq_true hle
          rcases List.mem_cons.mp he' with rfl | he'
          · exact hle
          · exact (hlt e' he').le.trans hle
        rw [hnil]
        exact List.nil_prefix

/-- Nothing unread up to the new cursor. -/
theorem upTo_skip {cursor cursor' : κ} (hle : cursor ≤ cursor')
    (h : ∀ e ∈ log, key e ≤ cursor' → key e ≤ cursor) : upTo key log cursor' = upTo key log cursor := by
  refine List.filter_congr fun e he => ?_
  exact decide_eq_decide.mpr ⟨h e he, fun hc => hc.trans hle⟩

/-- The cursor moves to the next entry. -/
theorem upTo_read (h : Increasing key log) {cursor : κ} {e : α} (he : e ∈ log) (hlt : cursor < key e)
    (hprev : ∀ e' ∈ log, key e' < key e → key e' ≤ cursor) :
    upTo key log (key e) = upTo key log cursor ++ [e] := by
  obtain ⟨before, after, rfl⟩ := List.append_of_mem he
  obtain ⟨_, hafter, hbefore⟩ := List.pairwise_append.mp h
  have hread : ∀ e' ∈ before, key e' ≤ cursor := fun e' he' =>
    hprev e' (List.mem_append_left _ he') (hbefore e' he' e List.mem_cons_self)
  have hahead : ∀ e' ∈ after, key e < key e' := (List.pairwise_cons.mp hafter).1
  have hold : upTo key (before ++ e :: after) cursor = before := by
    rw [upTo, List.filter_append, List.filter_eq_self.mpr fun e' he' => decide_eq_true (hread e' he'),
      List.filter_eq_nil_iff.mpr, List.append_nil]
    intro e' he' hle
    have hle := of_decide_eq_true hle
    rcases List.mem_cons.mp he' with rfl | he'
    · exact absurd hlt (not_lt.mpr hle)
    · exact absurd (hlt.trans (hahead e' he')) (not_lt.mpr hle)
  rw [hold, upTo, List.filter_append, List.filter_cons_of_pos (by simp)]
  rw [List.filter_eq_self.mpr fun e' he' => decide_eq_true ((hread e' he').trans hlt.le)]
  rw [List.filter_eq_nil_iff.mpr fun e' he' hle => absurd (hahead e' he') (not_lt.mpr (of_decide_eq_true hle))]

/-! ## Reading to an entry -/

/-- The entries up to the first with the property, and that one too. -/
def through (p : α → Bool) : List α → List α
  | [] => []
  | e :: log => if p e then [e] else e :: through p log

theorem through_append {p : α → Bool} {l : List α} (h : ∀ e ∈ l, p e = false) (log : List α) :
    through p (l ++ log) = l ++ through p log := by
  induction l with
  | nil => rfl
  | cons e l ih =>
      have he : ¬ p e = true := by simp [h e List.mem_cons_self]
      rw [List.cons_append, through, if_neg he, ih fun e' he' => h e' (List.mem_cons_of_mem _ he')]
      rfl

theorem through_cons {p : α → Bool} {e : α} (h : p e = true) (log : List α) : through p (e :: log) = [e] := if_pos h

theorem through_eq_self {p : α → Bool} {log : List α} (h : ∀ e ∈ log, p e = false) : through p log = log := by
  have happend := through_append h []
  rw [List.append_nil, through, List.append_nil] at happend
  exact happend

end Etos.Lists
