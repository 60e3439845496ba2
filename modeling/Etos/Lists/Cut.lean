import Mathlib.Data.List.Basic

/-!
# `Lists.Cut` — a list before and after an element

The first and the last occurrence of an element cut a list in two. Both cuts are determined by where the element does
not occur (`cut_eq_some`, `cutLast_eq_some`), and go through a translation that leaves the element alone and does not
produce it (`cutLast_flatMap`).
-/

namespace Etos.Lists

variable {α : Type} [DecidableEq α] {a b : α} {l x y : List α}

/-- Cut at the first occurrence. -/
def cut (a : α) : List α → Option (List α × List α)
  | [] => none
  | b :: l => if b = a then some ([], l) else (cut a l).map fun (x, y) => (b :: x, y)

/-- Cut at the last occurrence. -/
def cutLast (a : α) : List α → Option (List α × List α)
  | [] => none
  | b :: l =>
      match cutLast a l with
      | some (x, y) => some (b :: x, y)
      | none => if b = a then some ([], l) else none

theorem cut_eq_none : cut a l = none ↔ a ∉ l := by
  induction l with
  | nil => simp [cut]
  | cons b l ih =>
      unfold cut
      split
      · rename_i h
        simp [h]
      · rename_i h
        simp [ih, Ne.symm h]

theorem cutLast_eq_none : cutLast a l = none ↔ a ∉ l := by
  induction l with
  | nil => simp [cutLast]
  | cons b l ih =>
      unfold cutLast
      cases hc : cutLast a l with
      | some p =>
          have hl : ¬ a ∉ l := fun hl => by simp [ih.mpr hl] at hc
          simp [not_not.mp hl]
      | none =>
          have hl := ih.mp hc
          by_cases hb : b = a
          · simp [hb]
          · simp [hb, hl, Ne.symm hb]

theorem cut_append_cons (h : a ∉ x) : cut a (x ++ a :: y) = some (x, y) := by
  induction x with
  | nil => simp [cut]
  | cons b x ih =>
      have hb : b ≠ a := fun hb => h (hb ▸ List.mem_cons_self)
      rw [List.cons_append, cut, if_neg hb, ih fun hx => h (List.mem_cons_of_mem _ hx)]
      rfl

theorem cutLast_append_cons (h : a ∉ y) : cutLast a (x ++ a :: y) = some (x, y) := by
  induction x with
  | nil => simp [cutLast, cutLast_eq_none.mpr h]
  | cons b x ih => rw [List.cons_append, cutLast, ih]

/-- **The first cut**: the element does not occur before it. -/
theorem cut_eq_some : cut a l = some (x, y) ↔ l = x ++ a :: y ∧ a ∉ x := by
  constructor
  · intro h
    have hmem : a ∈ l := by
      by_contra hl
      rw [cut_eq_none.mpr hl] at h
      cases h
    obtain ⟨x', y', rfl, hx'⟩ := List.eq_append_cons_of_mem hmem
    rw [cut_append_cons hx'] at h
    cases h
    exact ⟨rfl, hx'⟩
  · rintro ⟨rfl, hx⟩
    exact cut_append_cons hx

/-- **The last cut**: the element does not occur after it. -/
theorem cutLast_eq_some : cutLast a l = some (x, y) ↔ l = x ++ a :: y ∧ a ∉ y := by
  constructor
  · intro h
    induction l generalizing x with
    | nil => cases h
    | cons b l ih =>
        unfold cutLast at h
        cases hc : cutLast a l with
        | some p =>
            rw [hc] at h
            cases h
            obtain ⟨hl, hy⟩ := ih hc
            exact ⟨by rw [hl]; rfl, hy⟩
        | none =>
            rw [hc] at h
            dsimp only at h
            split at h
            · rename_i hb
              cases h
              exact ⟨by rw [hb]; rfl, cutLast_eq_none.mp hc⟩
            · cases h
  · rintro ⟨rfl, hy⟩
    exact cutLast_append_cons hy

section FlatMap

variable {f : α → List α} (hself : f a = [a]) (hother : ∀ b, b ≠ a → a ∉ f b)

include hself hother

theorem mem_flatMap_iff : a ∈ l.flatMap f ↔ a ∈ l := by
  rw [List.mem_flatMap]
  constructor
  · rintro ⟨b, hb, ha⟩
    by_cases h : b = a
    · exact h ▸ hb
    · exact absurd ha (hother b h)
  · intro h
    exact ⟨a, h, by rw [hself]; exact List.mem_cons_self⟩

theorem cutLast_flatMap :
    cutLast a (l.flatMap f) = (cutLast a l).map fun (x, y) => (x.flatMap f, y.flatMap f) := by
  cases hc : cutLast a l with
  | none => exact cutLast_eq_none.mpr fun h => cutLast_eq_none.mp hc ((mem_flatMap_iff hself hother).mp h)
  | some p =>
      obtain ⟨x, y⟩ := p
      obtain ⟨rfl, hy⟩ := cutLast_eq_some.mp hc
      refine cutLast_eq_some.mpr ⟨?_, fun h => hy ((mem_flatMap_iff hself hother).mp h)⟩
      rw [List.flatMap_append, List.flatMap_cons, hself]
      rfl

end FlatMap

end Etos.Lists
