import Mathlib.Algebra.GroupWithZero.Nat
import Mathlib.Data.List.Basic

/-!
# `Text.Lines` — the lines of a text

A text over any alphabet is split into lines: at every break, where a carriage return with a line feed right after it is
one break. The lines with their ends make up the text (`flatten_lines`). More text at the end of a text changes only the
last line (`lines_append`), and not even that if it ended with a line feed (`lines_append_of_lf`). So of a text that is
still growing all lines are *complete* but the last, and the last one too if it ends with a line feed.
-/

namespace Etos.Text

/-- The breaks of an alphabet. -/
structure Breaks (α : Type) where
  cr : α
  lf : α
  isBreak : α → Bool
  cr_ne_lf : cr ≠ lf
  cr_isBreak : isBreak cr = true
  lf_isBreak : isBreak lf = true

variable {α : Type} [DecidableEq α] (B : Breaks α)

/-- Put a character in front of the first line. -/
def grow (c : α) : List (List α) → List (List α)
  | [] => [[c]]
  | l :: ls => (c :: l) :: ls

/-- The lines of a text, with their ends. -/
def lines : List α → List (List α)
  | [] => []
  | [c] => [[c]]
  | c :: d :: s =>
      if c = B.cr ∧ d = B.lf then [c, d] :: lines s
      else if B.isBreak c then [c] :: lines (d :: s)
      else grow c (lines (d :: s))

/-- The lines that no further text changes. -/
def complete (ls : List (List α)) : List (List α) :=
  if ls.getLast?.bind List.getLast? = some B.lf then ls else ls.dropLast

/-- The lines of a text, without their ends. -/
def splitlines (s : List α) : List (List α) := (lines B s).map (List.takeWhile fun c => !B.isBreak c)

variable {B} {c : α} {s l x y : List α} {ls : List (List α)}

@[simp] theorem lines_nil : lines B [] = [] := by rw [lines]

theorem lines_crlf : lines B (B.cr :: B.lf :: s) = [B.cr, B.lf] :: lines B s := by
  rw [lines, if_pos ⟨rfl, rfl⟩]

theorem lines_of_break (hc : B.isBreak c = true) (hs : c = B.cr → s.head? ≠ some B.lf) :
    lines B (c :: s) = [c] :: lines B s := by
  cases s with
  | nil => rw [lines, lines]
  | cons d s =>
      rw [lines, if_neg, if_pos hc]
      rintro ⟨hcr, rfl⟩
      exact hs hcr rfl

theorem lines_of_lf : lines B (B.lf :: s) = [B.lf] :: lines B s :=
  lines_of_break B.lf_isBreak fun h => absurd h.symm B.cr_ne_lf

theorem lines_of_other (hc : B.isBreak c = false) : lines B (c :: s) = grow c (lines B s) := by
  cases s with
  | nil =>
      rw [lines, lines]
      rfl
  | cons d s =>
      rw [lines, if_neg, if_neg]
      · rw [hc]
        exact Bool.false_ne_true
      · rintro ⟨rfl, -⟩
        rw [B.cr_isBreak] at hc
        cases hc

omit [DecidableEq α] in
theorem flatten_grow : (grow c ls).flatten = c :: ls.flatten := by
  cases ls <;> rfl

theorem flatten_lines (s : List α) : (lines B s).flatten = s := by
  fun_induction lines B s with
  | case1 => rfl
  | case2 => rfl
  | case3 c d s h ih =>
      rw [List.flatten_cons, ih]
      rfl
  | case4 c d s _ _ ih =>
      rw [List.flatten_cons, ih]
      rfl
  | case5 c d s _ _ ih => rw [flatten_grow, ih]

theorem lines_eq_nil : lines B s = [] ↔ s = [] := by
  constructor
  · intro h
    rw [← flatten_lines (B := B) s, h]
    rfl
  · rintro rfl
    exact lines_nil

/-! ## A text that grows -/

omit [DecidableEq α] in
theorem grow_append (h : ls ≠ []) (ls' : List (List α)) : grow c (ls ++ ls') = grow c ls ++ ls' := by
  cases ls with
  | nil => exact absurd rfl h
  | cons l ls => rfl

/-- What follows a line feed is split for itself. -/
theorem lines_append_of_lf (h : x.getLast? = some B.lf) (y : List α) : lines B (x ++ y) = lines B x ++ lines B y := by
  induction x using lines.induct B with
  | case1 => cases h
  | case2 c =>
      cases h
      exact lines_of_lf
  | case3 c d s hcrlf ih =>
      obtain ⟨rfl, rfl⟩ := hcrlf
      rw [List.cons_append, List.cons_append, lines_crlf, lines_crlf, List.cons_append]
      cases s with
      | nil => rw [lines_nil]; rfl
      | cons e s =>
          rw [ih (by simpa [List.getLast?_cons_cons] using h)]
  | case4 c d s hcrlf hbreak ih =>
      have hhead : ∀ s', c = B.cr → (d :: s').head? ≠ some B.lf := by
        rintro s' rfl hd
        cases hd
        exact hcrlf ⟨rfl, rfl⟩
      rw [lines_of_break hbreak (hhead s), List.cons_append, lines_of_break hbreak (s := d :: s ++ y) (hhead _),
        ih (by simpa [List.getLast?_cons_cons] using h)]
      rfl
  | case5 c d s hcrlf hbreak ih =>
      have hother : B.isBreak c = false := Bool.eq_false_iff.mpr hbreak
      rw [List.cons_append, lines_of_other hother, lines_of_other hother,
        ih (by simpa [List.getLast?_cons_cons] using h), grow_append]
      exact fun hnil => List.cons_ne_nil _ _ (lines_eq_nil.mp hnil)

/-- What is added to a text is added to its last line. -/
theorem lines_append (h : lines B x = ls ++ [l]) (y : List α) : lines B (x ++ y) = ls ++ lines B (l ++ y) := by
  induction x using lines.induct B generalizing ls l with
  | case1 =>
      rw [lines_nil] at h
      exact absurd h.symm (by simp)
  | case2 c =>
      rw [lines] at h
      obtain ⟨rfl, rfl⟩ : ls = [] ∧ l = [c] := by
        cases ls with
        | nil => exact ⟨rfl, by simpa using h.symm⟩
        | cons a ls => simp at h
      rfl
  | case3 c d s hcrlf ih =>
      obtain ⟨rfl, rfl⟩ := hcrlf
      rw [lines_crlf] at h
      rw [List.cons_append, List.cons_append, lines_crlf]
      cases ls with
      | nil =>
          obtain ⟨rfl, hs⟩ : [B.cr, B.lf] = l ∧ lines B s = [] := by simpa using h
          rw [lines_eq_nil.mp hs]
          exact lines_crlf.symm
      | cons a ls =>
          obtain ⟨rfl, hs⟩ : [B.cr, B.lf] = a ∧ lines B s = ls ++ [l] := by simpa using h
          rw [ih hs]
          rfl
  | case4 c d s hcrlf hbreak ih =>
      have hhead : ∀ s', c = B.cr → (d :: s').head? ≠ some B.lf := by
        rintro s' rfl hd
        cases hd
        exact hcrlf ⟨rfl, rfl⟩
      rw [lines_of_break hbreak (hhead s)] at h
      rw [List.cons_append, lines_of_break hbreak (s := d :: s ++ y) (hhead _)]
      cases ls with
      | nil =>
          obtain ⟨-, hs⟩ : [c] = l ∧ lines B (d :: s) = [] := by simpa using h
          exact absurd (lines_eq_nil.mp hs) (List.cons_ne_nil _ _)
      | cons a ls =>
          obtain ⟨rfl, hs⟩ : [c] = a ∧ lines B (d :: s) = ls ++ [l] := by simpa using h
          rw [ih hs]
          rfl
  | case5 c d s hcrlf hbreak ih =>
      have hother : B.isBreak c = false := Bool.eq_false_iff.mpr hbreak
      rw [lines_of_other hother] at h
      rw [List.cons_append, lines_of_other hother]
      cases hds : lines B (d :: s) with
      | nil => exact absurd (lines_eq_nil.mp hds) (List.cons_ne_nil _ _)
      | cons a rest =>
          rw [hds] at h
          cases ls with
          | nil =>
              -- one line so far, which begins with `c`
              obtain ⟨rfl, rfl⟩ : c :: a = l ∧ rest = [] := by simpa [grow] using h
              have hone : lines B (d :: s) = [] ++ [a] := hds
              rw [ih hone, List.nil_append, List.nil_append, List.cons_append, lines_of_other hother]
          | cons b ls =>
              obtain ⟨rfl, rfl⟩ : c :: a = b ∧ rest = ls ++ [l] := by simpa [grow] using h
              have hmore : lines B (d :: s) = (a :: ls) ++ [l] := hds
              rw [ih hmore]
              rfl

/-- The last line is a text of one line. -/
theorem lines_last (h : lines B x = ls ++ [l]) : lines B l = [l] := by
  have happend := lines_append h []
  rw [List.append_nil, List.append_nil, h] at happend
  exact (List.append_cancel_left happend).symm

theorem getLast?_of_lines (h : lines B x = ls ++ [l]) : x.getLast? = l.getLast? := by
  have hflatten := flatten_lines (B := B) x
  have hl : l ≠ [] := by
    rintro rfl
    have hlast := lines_last h
    rw [lines_nil] at hlast
    cases hlast
  rw [h, List.flatten_append, List.flatten_singleton] at hflatten
  rw [← hflatten, List.getLast?_append_of_ne_nil _ hl]

@[simp] theorem complete_nil : complete B [] = [] := by
  unfold complete
  split <;> rfl

theorem complete_append {ls' : List (List α)} (h : ls' ≠ []) : complete B (ls ++ ls') = ls ++ complete B ls' := by
  unfold complete
  rw [List.getLast?_append_of_ne_nil _ h, List.dropLast_append_of_ne_nil h]
  split <;> rfl

theorem complete_concat : complete B (ls ++ [l]) = ls ++ if l.getLast? = some B.lf then [l] else [] := by
  rw [complete_append (List.cons_ne_nil _ _)]
  rfl

theorem complete_of_lf (h : ∀ l ∈ ls, l.getLast? = some B.lf) : complete B ls = ls := by
  rcases List.eq_nil_or_concat ls with rfl | ⟨ls', l, rfl⟩
  · exact complete_nil
  · rw [List.concat_eq_append] at h ⊢
    rw [complete_concat, if_pos (h l (by simp))]

/-- Text without a break is put in front of the first line. -/
theorem lines_append_break (hx : ∀ c ∈ x, B.isBreak c = false) {ls : List (List α)} (h : lines B y = l :: ls) :
    lines B (x ++ y) = (x ++ l) :: ls := by
  induction x with
  | nil => exact h
  | cons c x ih =>
      obtain ⟨hc, hx⟩ := List.forall_mem_cons.mp hx
      rw [List.cons_append, lines_of_other hc, ih hx]
      rfl

/-! ## Lines without their ends -/

@[simp] theorem splitlines_nil : splitlines B [] = [] := by
  rw [splitlines, lines_nil, List.map_nil]

/-- A text up to a line feed, in which no break takes two characters. -/
theorem splitlines_append_lf (hx : ∀ c ∈ x, c ≠ B.cr ∧ c ≠ B.lf) (y : List α) :
    splitlines B (x ++ B.lf :: y) = x.splitOnP B.isBreak ++ splitlines B y := by
  induction x with
  | nil =>
      rw [List.nil_append, List.splitOnP_nil]
      unfold splitlines
      rw [lines_of_lf, List.map_cons, List.takeWhile_cons_of_neg (by simpa using B.lf_isBreak)]
      rfl
  | cons c x ih =>
      obtain ⟨⟨hcr, -⟩, hx⟩ := List.forall_mem_cons.mp hx
      have ih := ih hx
      rw [List.cons_append, List.splitOnP_cons_eq_if_modifyHead]
      unfold splitlines at ih ⊢
      cases hc : B.isBreak c with
      | true =>
          rw [lines_of_break hc fun h => absurd h hcr, List.map_cons, ih,
            List.takeWhile_cons_of_neg (by simpa using hc), if_pos rfl]
          rfl
      | false =>
          rw [lines_of_other hc, if_neg Bool.false_ne_true]
          cases hls : lines B (x ++ B.lf :: y) with
          | nil => exact absurd (lines_eq_nil.mp hls) (by simp)
          | cons l ls =>
              rw [hls] at ih
              obtain ⟨a, rest, hsplit⟩ := List.exists_cons_of_ne_nil (List.splitOnP_ne_nil B.isBreak x)
              rw [hsplit] at ih ⊢
              obtain ⟨rfl, hrest⟩ : List.takeWhile (fun c => !B.isBreak c) l = a ∧
                  ls.map (List.takeWhile fun c => !B.isBreak c) = rest ++ (lines B y).map _ := by simpa using ih
              rw [grow, List.map_cons, List.takeWhile_cons_of_pos (by simpa using hc), hrest]
              rfl

end Etos.Text
