import Mathlib.Data.List.Infix

/-!
# `Lists.Row` — equal elements in a row

Whether an element occurs `n` times in a row is found out by counting: `k` of them have just been seen, and the count
goes up with one more and starts again with another element.
-/

namespace Etos.Lists

variable {α : Type} {a x : α} {n k : Nat} {l : List α}

theorem replicate_not_first (hk : k < n) (hx : x ≠ a) : ¬ List.replicate n a <+: List.replicate k a ++ x :: l := by
  rintro ⟨rest, heq⟩
  have hget := congrArg (·[k]?) heq
  rw [List.getElem?_append_left (by simpa using hk), List.getElem?_append_right (by simp)] at hget
  simp [hk] at hget
  exact hx hget.symm

/-- One more in a row. -/
theorem replicate_infix_same :
    List.replicate n a <:+: List.replicate k a ++ a :: l ↔ List.replicate n a <:+: List.replicate (k + 1) a ++ l := by
  rw [List.replicate_succ', List.append_assoc]
  rfl

/-- Too few in a row. -/
theorem replicate_infix_other (hk : k < n) (hx : x ≠ a) :
    List.replicate n a <:+: List.replicate k a ++ x :: l ↔ List.replicate n a <:+: List.replicate 0 a ++ l := by
  rw [List.replicate_zero, List.nil_append]
  constructor
  · induction k with
    | zero => exact fun h => (List.infix_cons_iff.mp h).resolve_left (replicate_not_first hk hx)
    | succ k ih =>
        intro h
        rw [List.replicate_succ, List.cons_append] at h
        exact ih (by omega) ((List.infix_cons_iff.mp h).resolve_left (replicate_not_first hk hx))
  · exact fun h => h.trans ((List.suffix_cons x l).trans (List.suffix_append _ _)).isInfix

theorem replicate_infix_replicate : List.replicate n a <:+: List.replicate k a ++ [] ↔ n ≤ k := by
  rw [List.append_nil]
  constructor
  · intro h
    simpa using h.length_le
  · intro h
    obtain ⟨m, rfl⟩ := Nat.exists_eq_add_of_le h
    rw [← List.replicate_append_replicate]
    exact (List.prefix_append _ _).isInfix

theorem lt_of_not_replicate_infix (h : ¬ List.replicate n a <:+: List.replicate k a ++ l) : k < n := by
  by_contra hge
  have hrow : List.replicate n a <:+: List.replicate k a ++ [] := replicate_infix_replicate.mpr (Nat.not_lt.mp hge)
  rw [List.append_nil] at hrow
  exact h (hrow.trans (List.prefix_append _ _).isInfix)

end Etos.Lists
