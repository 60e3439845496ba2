import Mathlib.Data.Int.CardIntervalMod
import Mathlib.Data.List.Basic

/-!
# `Lists.Deal` — dealing a list round robin

`dealt n j c l` is what player `j` of `n` gets when the elements of `l` are dealt in turn, starting with player
`c % n`. The hands differ by at most one (`dealt_balanced`). When only the elements of a list that satisfy a predicate
are dealt, a hand is the sublist at the positions that belong to the player (`dealt_filter`): since a position belongs
to one player, every element is dealt once, and a hand keeps the order of the list.
-/

namespace Etos.Lists

variable {α : Type}

/-- The hand of player `j` of `n`, from player `c % n` on. -/
def dealt (n j : Nat) : Nat → List α → List α
  | _, [] => []
  | c, x :: l => if c % n = j then x :: dealt n j (c + 1) l else dealt n j (c + 1) l

theorem dealt_append {n j c : Nat} {l l' : List α} :
    dealt n j c (l ++ l') = dealt n j c l ++ dealt n j (c + l.length) l' := by
  induction l generalizing c with
  | nil => rfl
  | cons x l ih =>
      have hlen : c + (x :: l).length = c + 1 + l.length := by rw [List.length_cons]; omega
      rw [List.cons_append, dealt, dealt, ih, hlen]
      split <;> rfl

/-! ## Balance -/

theorem length_dealt (n j : Nat) (l : List α) :
    (dealt n j 0 l).length = l.length.count fun k => k % n = j := by
  induction l using List.reverseRecOn with
  | nil => rfl
  | append_singleton l x ih =>
      rw [dealt_append, List.length_append, ih, List.length_append, List.length_singleton, Nat.count_succ, Nat.zero_add,
        dealt]
      split <;> rfl

/-- With enough elements, every player gets some. -/
theorem dealt_ne_nil {n j : Nat} {l : List α} (hj : j < n) (hl : j < l.length) : dealt n j 0 l ≠ [] := by
  rw [← List.length_pos_iff, length_dealt]
  exact Nat.zero_lt_of_lt (Nat.count_strict_mono (Nat.mod_eq_of_lt hj) hl)

/-- **The hands differ by at most one.** -/
theorem dealt_balanced {n j j' : Nat} (hj : j < n) (hj' : j' < n) (l : List α) :
    (dealt n j 0 l).length ≤ (dealt n j' 0 l).length + 1 := by
  have hcount : ∀ i < n, (dealt n i 0 l).length = l.length / n + if i % n < l.length % n then 1 else 0 := by
    intro i hi
    rw [length_dealt, ← Nat.count_modEq_card _ (by omega) i]
    simp only [Nat.ModEq, Nat.mod_eq_of_lt hi]
  rw [hcount j hj, hcount j' hj']
  split <;> split <;> omega

/-! ## Positions -/

/-- The sublist at the positions that satisfy a predicate. -/
def atPositions (p : Nat → Prop) [DecidablePred p] (l : List α) : List α :=
  (l.zipIdx.filter fun x => p x.2).map Prod.fst

theorem atPositions_congr {p q : Nat → Prop} [DecidablePred p] [DecidablePred q] {l : List α}
    (h : ∀ i < l.length, (p i ↔ q i)) : atPositions p l = atPositions q l := by
  unfold atPositions
  congr 1
  refine List.filter_congr fun x hx => ?_
  have hlt : x.2 < l.length := List.snd_lt_of_mem_zipIdx hx
  simp only [h x.2 hlt]

theorem atPositions_append_singleton {p : Nat → Prop} [DecidablePred p] {l : List α} {x : α} :
    atPositions p (l ++ [x]) = atPositions p l ++ if p l.length then [x] else [] := by
  unfold atPositions
  rw [List.zipIdx_append, List.filter_append, List.map_append, Nat.zero_add, List.zipIdx_cons, List.zipIdx_nil]
  congr 1
  by_cases hp : p l.length
  · simp [hp]
  · simp [hp]

/-- The number of earlier elements that satisfy a predicate. -/
def rank (q : α → Bool) (l : List α) (i : Nat) : Nat := (l.take i).countP q

/-- **Dealing the elements that satisfy a predicate.** A hand is the sublist at the positions of the elements whose rank
    among them is the player's. -/
theorem dealt_filter (q : α → Bool) (n j : Nat) (l : List α) :
    dealt n j 0 (l.filter q) = atPositions (fun i => (l[i]?.any q) = true ∧ rank q l i % n = j) l := by
  induction l using List.reverseRecOn with
  | nil => rfl
  | append_singleton l x ih =>
      have hearlier : atPositions (fun i => ((l ++ [x])[i]?.any q) = true ∧ rank q (l ++ [x]) i % n = j) l =
          atPositions (fun i => (l[i]?.any q) = true ∧ rank q l i % n = j) l := by
        refine atPositions_congr fun i hi => ?_
        rw [List.getElem?_append_left hi, rank, rank, List.take_append_of_le_length (by omega)]
      have hlast : rank q (l ++ [x]) l.length = (l.filter q).length := by
        rw [rank, List.take_left', List.countP_eq_length_filter]
        rfl
      rw [List.filter_append, dealt_append, atPositions_append_singleton, hearlier, ih, hlast, Nat.zero_add]
      congr 1
      rw [List.getElem?_append_right (le_refl _), Nat.sub_self]
      by_cases hx : q x = true
      · rw [List.filter_cons_of_pos hx, List.filter_nil, dealt, dealt]
        simp [hx]
      · rw [List.filter_cons_of_neg hx, List.filter_nil, dealt]
        simp [hx]

end Etos.Lists
