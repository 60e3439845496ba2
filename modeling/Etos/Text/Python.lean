import Mathlib.Data.List.DropRight
import Etos.Text.Lines

/-!
# `Text.Python` — texts as Python takes them apart

The methods of `str` that parsers use, over lists of characters. `str.splitlines` breaks lines at more characters than
CR and LF, all of them whitespace. Stripping and splitting take away whitespace and separators, and nothing else: what
is left is counted by the characters that are not whitespace (`ink`).
-/

namespace Etos.Text

/-- `str.isspace`, of one character. -/
def isSpace (c : Char) : Bool :=
  let n := c.toNat
  (9 ≤ n && n ≤ 13) || (28 ≤ n && n ≤ 32) || n = 0x85 || n = 0xA0 || n = 0x1680 || (0x2000 ≤ n && n ≤ 0x200A) ||
    n = 0x2028 || n = 0x2029 || n = 0x202F || n = 0x205F || n = 0x3000

/-- The characters at which `str.splitlines` breaks lines. -/
def isLineBoundary (c : Char) : Bool :=
  let n := c.toNat
  (10 ≤ n && n ≤ 13) || (28 ≤ n && n ≤ 30) || n = 0x85 || n = 0x2028 || n = 0x2029

def strBreaks : Breaks Char where
  cr := '\r'
  lf := '\n'
  isBreak := isLineBoundary
  cr_ne_lf := by decide
  cr_isBreak := by decide
  lf_isBreak := by decide

/-- Take away what is at both ends. -/
def stripBy {α : Type} (p : α → Bool) (s : List α) : List α := (s.dropWhile p).rdropWhile p

/-- `s.strip()`. -/
def strip (s : List Char) : List Char := stripBy isSpace s

/-- `s.split(sep, 1)`, if there is a separator. -/
def splitOnce {α : Type} [DecidableEq α] (sep : α) (s : List α) : Option (List α × List α) :=
  match s.dropWhile (· ≠ sep) with
  | [] => none
  | _ :: value => some (s.takeWhile (· ≠ sep), value)

theorem isSpace_of_isLineBoundary {c : Char} (h : isLineBoundary c = true) : isSpace c = true := by
  unfold isLineBoundary at h
  unfold isSpace
  simp only [Bool.or_eq_true, Bool.and_eq_true, decide_eq_true_eq] at h ⊢
  omega

/-! ## Ink -/

/-- How many characters are not whitespace. -/
def ink (s : List Char) : Nat := s.countP (!isSpace ·)

@[simp] theorem ink_nil : ink [] = 0 := rfl

theorem ink_append (s t : List Char) : ink (s ++ t) = ink s + ink t := List.countP_append

theorem ink_cons (c : Char) (s : List Char) : ink (c :: s) = ink s + if isSpace c then 0 else 1 := by
  unfold ink
  rw [List.countP_cons]
  cases isSpace c <;> rfl

theorem ink_dropWhile (s : List Char) : ink (s.dropWhile isSpace) = ink s := by
  induction s with
  | nil => rfl
  | cons c s ih =>
      cases hc : isSpace c with
      | true => rw [List.dropWhile_cons_of_pos hc, ih, ink_cons, hc, if_pos rfl, Nat.add_zero]
      | false => rw [List.dropWhile_cons_of_neg (by simp [hc])]

theorem ink_reverse (s : List Char) : ink s.reverse = ink s := List.countP_reverse

@[simp] theorem ink_strip (s : List Char) : ink (strip s) = ink s := by
  unfold strip stripBy List.rdropWhile
  rw [ink_reverse, ink_dropWhile, ink_reverse, ink_dropWhile]

/-- Whitespace in front is stripped. -/
theorem strip_space (s : List Char) : strip (' ' :: s) = strip s := by
  unfold strip stripBy
  rw [List.dropWhile_cons_of_pos (by decide)]

/-- The pieces between breaks have all the ink. -/
theorem ink_splitOnP (s : List Char) : ((s.splitOnP isLineBoundary).map ink).sum = ink s := by
  induction s with
  | nil => rfl
  | cons c s ih =>
      rw [List.splitOnP_cons_eq_if_modifyHead, ink_cons]
      split
      · rename_i hc
        rw [List.map_cons, List.sum_cons, ih, isSpace_of_isLineBoundary hc, if_pos rfl, ink_nil, Nat.zero_add,
          Nat.add_zero]
      · obtain ⟨a, rest, hsplit⟩ := List.exists_cons_of_ne_nil (List.splitOnP_ne_nil isLineBoundary s)
        rw [hsplit] at ih ⊢
        simp only [List.modifyHead_cons, List.map_cons, List.sum_cons, ink_cons] at ih ⊢
        omega

/-- A text without breaks is its only piece. -/
theorem length_splitOnP_eq_one {s : List Char} (h : (s.splitOnP isLineBoundary).length = 1) :
    ∀ c ∈ s, isLineBoundary c = false := by
  induction s with
  | nil => exact fun c hc => nomatch hc
  | cons c s ih =>
      rw [List.splitOnP_cons_eq_if_modifyHead] at h
      split at h
      · have hne := List.length_pos_of_ne_nil (List.splitOnP_ne_nil isLineBoundary s)
        rw [List.length_cons] at h
        omega
      · rename_i hc
        rw [List.length_modifyHead] at h
        exact List.forall_mem_cons.mpr ⟨Bool.eq_false_iff.mpr hc, ih h⟩

/-- Text without breaks is put in front of the first piece. -/
theorem splitOnP_append {s t : List Char} (h : ∀ c ∈ s, isLineBoundary c = false) :
    (s ++ t).splitOnP isLineBoundary = (t.splitOnP isLineBoundary).modifyHead (s ++ ·) := by
  induction s with
  | nil => exact (congrFun List.modifyHead_id _).symm
  | cons c s ih =>
      obtain ⟨hc, hs⟩ := List.forall_mem_cons.mp h
      rw [List.cons_append, List.splitOnP_cons_eq_if_modifyHead, ih hs, hc, if_neg Bool.false_ne_true,
        List.modifyHead_modifyHead]
      rfl

/-! ## Stripping and splitting -/

section

variable {α : Type} {p : α → Bool} {s : List α} {c : α}

theorem stripBy_isPrefix (p : α → Bool) (s : List α) : stripBy p s <+: s.dropWhile p := List.rdropWhile_prefix p _

theorem stripBy_isInfix (p : α → Bool) (s : List α) : stripBy p s <:+: s :=
  (stripBy_isPrefix p s).isInfix.trans (List.dropWhile_suffix p).isInfix

theorem head?_stripBy (h : (stripBy p s).head? = some c) : p c = false := by
  obtain ⟨rest, hrest⟩ := List.head?_eq_some_iff.mp h
  obtain ⟨tail, htail⟩ := stripBy_isPrefix p s
  have hfirst := List.head?_dropWhile_not p s
  rw [← htail, hrest] at hfirst
  simpa using hfirst

theorem getLast?_stripBy (h : (stripBy p s).getLast? = some c) : p c = false := by
  have hne : stripBy p s ≠ [] := by
    intro hnil
    rw [hnil] at h
    cases h
  rw [List.getLast?_eq_some_getLast hne] at h
  cases h
  exact Bool.eq_false_iff.mpr (List.rdropWhile_last_not p _ hne)

/-- There is nothing to strip. -/
theorem stripBy_eq_self (hfirst : ∀ c, s.head? = some c → p c = false)
    (hlast : ∀ c, s.getLast? = some c → p c = false) : stripBy p s = s := by
  have hdrop : s.dropWhile p = s := by
    cases s with
    | nil => rfl
    | cons c s => exact List.dropWhile_cons_of_neg (by simp [hfirst c rfl])
  unfold stripBy
  rw [hdrop, List.rdropWhile_eq_self_iff]
  intro hne
  simp [hlast _ (List.getLast?_eq_some_getLast hne)]

theorem stripBy_idem (p : α → Bool) (s : List α) : stripBy p (stripBy p s) = stripBy p s :=
  stripBy_eq_self (fun _ => head?_stripBy) fun _ => getLast?_stripBy

/-- What is not to be stripped stays. -/
theorem mem_stripBy (hc : p c = false) (hmem : c ∈ s) : c ∈ stripBy p s := by
  have hdrop : ∀ {t : List α}, c ∈ t → c ∈ t.dropWhile p := by
    intro t ht
    rw [← List.takeWhile_append_dropWhile (p := p) (l := t)] at ht
    refine (List.mem_append.mp ht).resolve_left fun htake => ?_
    exact absurd (List.mem_takeWhile_imp htake) (by simp [hc])
  unfold stripBy List.rdropWhile
  exact List.mem_reverse.mpr (hdrop (List.mem_reverse.mpr (hdrop hmem)))

theorem mem_intercalate {sep : α} {pieces : List (List α)} (h : c ∈ [sep].intercalate pieces) :
    c = sep ∨ ∃ piece ∈ pieces, c ∈ piece := by
  induction pieces with
  | nil => cases h
  | cons piece pieces ih =>
      cases pieces with
      | nil =>
          refine .inr ⟨piece, List.mem_cons_self, ?_⟩
          simpa [List.intercalate] using h
      | cons next pieces =>
          rw [List.intercalate_cons_cons, List.mem_append, List.mem_append, List.mem_singleton] at h
          rcases h with (h | h) | h
          · exact .inr ⟨piece, List.mem_cons_self, h⟩
          · exact .inl h
          · exact (ih h).imp_right fun ⟨piece, hpiece, hc⟩ => ⟨piece, List.mem_cons_of_mem _ hpiece, hc⟩

variable [DecidableEq α] {sep : α} {key : List α}

theorem splitOnce_eq_some {value : List α} (h : splitOnce sep s = some (key, value)) :
    s = key ++ sep :: value ∧ sep ∉ key := by
  unfold splitOnce at h
  split at h
  · cases h
  · rename_i c value' hdrop
    cases h
    have hc : c = sep := by
      have hhead := List.head?_dropWhile_not (p := (· ≠ sep)) s
      rw [hdrop] at hhead
      simpa using hhead
    have happend := List.takeWhile_append_dropWhile (p := (· ≠ sep)) (l := s)
    rw [hdrop, hc] at happend
    refine ⟨happend.symm, fun hmem => ?_⟩
    simpa using List.mem_takeWhile_imp hmem

/-- The first separator counts. -/
theorem splitOnce_append (h : sep ∉ key) (value : List α) :
    splitOnce sep (key ++ sep :: value) = some (key, value) := by
  have hkey : ∀ c ∈ key, (decide (c ≠ sep)) = true := fun c hc => decide_eq_true fun heq => h (heq ▸ hc)
  unfold splitOnce
  rw [List.dropWhile_append_of_pos hkey, List.takeWhile_append_of_pos hkey,
    List.dropWhile_cons_of_neg (by simp), List.takeWhile_cons_of_neg (by simp), List.append_nil]

/-- The pieces between separators. -/
theorem mem_splitOn {piece : List α} (h : piece ∈ s.splitOn sep) : sep ∉ piece ∧ piece ⊆ s := by
  induction s generalizing piece with
  | nil =>
      rw [List.splitOn_nil, List.mem_singleton] at h
      rw [h]
      exact ⟨List.not_mem_nil, List.Subset.refl _⟩
  | cons c s ih =>
      obtain ⟨first, rest, hsplit⟩ := List.exists_cons_of_ne_nil (List.splitOn_ne_nil sep s)
      have hfirst := ih (hsplit ▸ List.mem_cons_self)
      have hrest : ∀ piece ∈ rest, sep ∉ piece ∧ piece ⊆ s := fun piece hpiece =>
        ih (hsplit ▸ List.mem_cons_of_mem _ hpiece)
      rw [List.splitOn_cons_eq_if_modifyHead, hsplit] at h
      split at h
      · rcases List.mem_cons.mp h with rfl | h
        · exact ⟨List.not_mem_nil, List.nil_subset _⟩
        · have hpiece := ih (hsplit ▸ h)
          exact ⟨hpiece.1, List.subset_cons_of_subset _ hpiece.2⟩
      · rename_i hc
        rcases List.mem_cons.mp h with rfl | h
        · refine ⟨fun hmem => ?_, List.cons_subset_cons _ hfirst.2⟩
          rcases List.mem_cons.mp hmem with rfl | hmem
          · exact hc (beq_self_eq_true _)
          · exact hfirst.1 hmem
        · exact ⟨(hrest _ h).1, List.subset_cons_of_subset _ (hrest _ h).2⟩

end

end Etos.Text
