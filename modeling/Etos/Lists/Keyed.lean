import Mathlib.Order.Lattice
import Etos.Lists.Dict

/-!
# `Lists.Keyed` — lists ordered by key

A map as a list of pairs whose keys increase. `insertKey` replaces the value of a key or puts a new pair in its place,
`collect` inserts one pair after the other, so the last value of a key counts (`lookup_collect`), and what is collected
from an ordered list is the list (`collect_of_keyed`). A map is known by its lookups (`Keyed.eq_of_lookup`).
-/

namespace Etos.Lists

variable {κ α : Type} [LinearOrder κ] {k k' : κ} {a : α} {m ms : List (κ × α)}

/-- The keys increase. -/
def Keyed (m : List (κ × α)) : Prop := m.Pairwise fun p q => p.1 < q.1

/-- Set the value of a key. -/
def insertKey (k : κ) (a : α) : List (κ × α) → List (κ × α)
  | [] => [(k, a)]
  | p :: m => if k < p.1 then (k, a) :: p :: m else if k = p.1 then (k, a) :: m else p :: insertKey k a m

/-- Remove a key. -/
def eraseKey (k : κ) (m : List (κ × α)) : List (κ × α) := m.filter fun p => p.1 ≠ k

/-- Set the values of several keys. -/
def collect (ms m : List (κ × α)) : List (κ × α) := ms.foldl (fun m p => insertKey p.1 p.2 m) m

theorem lookup_insertKey : (insertKey k a m).lookup k' = if k' = k then some a else m.lookup k' := by
  induction m with
  | nil => exact lookup_pair _
  | cons p m ih =>
      unfold insertKey
      split
      · exact lookup_pair _
      · split
        · rename_i hkey
          rw [lookup_pair, lookup_pair, ← hkey]
          split <;> simp [*]
        · rename_i hkey
          rw [lookup_pair, lookup_pair, ih]
          by_cases h : k' = p.1
          · rw [if_pos h, if_pos h, if_neg]
            exact fun h' => hkey (h'.symm.trans h)
          · rw [if_neg h, if_neg h]

theorem mem_insertKey {p : κ × α} (h : p ∈ insertKey k a m) : p = (k, a) ∨ p ∈ m := by
  induction m with
  | nil => exact .inl (List.mem_singleton.mp h)
  | cons q m ih =>
      unfold insertKey at h
      split at h
      · exact List.mem_cons.mp h
      · split at h
        · rcases List.mem_cons.mp h with h | h
          · exact .inl h
          · exact .inr (List.mem_cons_of_mem _ h)
        · rcases List.mem_cons.mp h with rfl | h
          · exact .inr List.mem_cons_self
          · exact (ih h).imp id (List.mem_cons_of_mem _)

theorem Keyed.insertKey (h : Keyed m) : Keyed (insertKey k a m) := by
  induction m with
  | nil => exact List.pairwise_singleton _ _
  | cons p m ih =>
      obtain ⟨hp, hm⟩ := List.pairwise_cons.mp h
      unfold Lists.insertKey
      split
      · rename_i hlt
        refine List.pairwise_cons.mpr ⟨fun q hq => ?_, h⟩
        rcases List.mem_cons.mp hq with rfl | hq
        · exact hlt
        · exact lt_trans hlt (hp q hq)
      · rename_i hlt
        split
        · rename_i hkey
          refine List.pairwise_cons.mpr ⟨fun q hq => ?_, hm⟩
          rw [hkey]
          exact hp q hq
        · rename_i hkey
          refine List.pairwise_cons.mpr ⟨fun q hq => ?_, ih hm⟩
          rcases mem_insertKey hq with rfl | hq
          · exact lt_of_le_of_ne (not_lt.mp hlt) (Ne.symm hkey)
          · exact hp q hq

theorem lookup_eraseKey : (eraseKey k m).lookup k' = if k' = k then none else m.lookup k' := by
  induction m with
  | nil => simp [eraseKey]
  | cons p m ih =>
      unfold eraseKey at ih ⊢
      rw [List.filter_cons, lookup_pair]
      split
      · rename_i hp
        rw [lookup_pair, ih]
        by_cases h : k' = p.1
        · rw [if_pos h, if_pos h, if_neg]
          exact fun h' => of_decide_eq_true hp (h.symm.trans h')
        · rw [if_neg h, if_neg h]
      · rename_i hp
        have hp : p.1 = k := by simpa using hp
        rw [ih, hp]
        split <;> simp [*]

theorem Keyed.eraseKey (h : Keyed m) (k : κ) : Keyed (eraseKey k m) := h.filter _

theorem collect_cons (p : κ × α) (ms m : List (κ × α)) :
    collect (p :: ms) m = collect ms (insertKey p.1 p.2 m) := rfl

theorem Keyed.collect (h : Keyed m) (ms : List (κ × α)) : Keyed (collect ms m) := by
  induction ms generalizing m with
  | nil => exact h
  | cons p ms ih => exact ih h.insertKey

/-- The last value of a key counts. -/
theorem lookup_collect (ms m : List (κ × α)) (k : κ) :
    (collect ms m).lookup k = ((collect ms []).lookup k).or (m.lookup k) := by
  -- from the other end, the first value that is found
  have hlast : ∀ (ms m : List (κ × α)), (collect ms m).lookup k = (ms.reverse.lookup k).or (m.lookup k) := by
    intro ms
    induction ms with
    | nil => exact fun m => rfl
    | cons p ms ih =>
        intro m
        rw [collect_cons, ih, lookup_insertKey, List.reverse_cons, List.lookup_append, Option.or_assoc, lookup_pair]
        by_cases h : k = p.1
        · rw [if_pos h, if_pos h]
          rfl
        · rw [if_neg h, if_neg h]
          rfl
  rw [hlast ms m, hlast ms []]
  simp

theorem collect_append (ms ms' m : List (κ × α)) : collect (ms ++ ms') m = collect ms' (collect ms m) :=
  List.foldl_append

/-- The keys are those that were set. -/
theorem lookup_collect_eq_none : (collect ms []).lookup k = none ↔ k ∉ ms.map Prod.fst := by
  induction ms with
  | nil => simp [collect]
  | cons p ms ih =>
      rw [collect_cons, lookup_collect, Option.or_eq_none_iff, ih, lookup_insertKey, List.map_cons, List.mem_cons,
        not_or, and_comm]
      refine and_congr ?_ Iff.rfl
      split <;> simp [*]

theorem mem_collect {p : κ × α} (h : p ∈ collect ms m) : p ∈ ms ∨ p ∈ m := by
  induction ms generalizing m with
  | nil => exact .inr h
  | cons q ms ih =>
      rcases ih h with h | h
      · exact .inl (List.mem_cons_of_mem _ h)
      · rcases mem_insertKey h with rfl | h
        · exact .inl List.mem_cons_self
        · exact .inr h

theorem insertKey_last (h : ∀ p ∈ m, p.1 < k) : insertKey k a m = m ++ [(k, a)] := by
  induction m with
  | nil => rfl
  | cons p m ih =>
      have hp := h p List.mem_cons_self
      rw [insertKey, if_neg (not_lt_of_gt hp), if_neg (ne_of_gt hp), ih fun q hq => h q (List.mem_cons_of_mem _ hq)]
      rfl

/-- An ordered list is collected as it is. -/
theorem collect_of_keyed (h : Keyed (m ++ ms)) : collect ms m = m ++ ms := by
  induction ms generalizing m with
  | nil => exact (List.append_nil m).symm
  | cons p ms ih =>
      rw [List.append_cons] at h ⊢
      have hlast : ∀ q ∈ m, q.1 < p.1 := fun q hq =>
        (List.pairwise_append.mp (List.pairwise_append.mp h).1).2.2 q hq p (List.mem_singleton_self p)
      rw [← ih h, ← insertKey_last hlast]
      rfl

theorem Keyed.collect_nil (h : Keyed ms) : Lists.collect ms [] = ms := collect_of_keyed (m := []) h

/-- Where a pair is put. -/
theorem insertKey_eq (h : Keyed m) :
    insertKey k a m = (m.filter fun p => p.1 < k) ++ (k, a) :: m.filter fun p => k < p.1 := by
  induction m with
  | nil => rfl
  | cons p m ih =>
      obtain ⟨hp, hm⟩ := List.pairwise_cons.mp h
      have hafter : ∀ {x : κ}, x ≤ p.1 → (m.filter fun q => q.1 < x) = [] ∧ (m.filter fun q => x < q.1) = m := by
        intro x hx
        refine ⟨List.filter_eq_nil_iff.mpr fun q hq => ?_, List.filter_eq_self.mpr fun q hq => ?_⟩
        · simpa using le_of_lt (lt_of_le_of_lt hx (hp q hq))
        · simpa using lt_of_le_of_lt hx (hp q hq)
      unfold insertKey
      rcases lt_trichotomy k p.1 with hlt | heq | hgt
      · rw [if_pos hlt, List.filter_cons_of_neg (by simpa using le_of_lt hlt),
          List.filter_cons_of_pos (by simpa using hlt), (hafter (le_of_lt hlt)).1, (hafter (le_of_lt hlt)).2]
        rfl
      · subst heq
        rw [if_neg (lt_irrefl _), if_pos rfl, List.filter_cons_of_neg (by simp), List.filter_cons_of_neg (by simp),
          (hafter le_rfl).1, (hafter le_rfl).2]
        rfl
      · rw [if_neg (not_lt_of_gt hgt), if_neg (ne_of_gt hgt), ih hm, List.filter_cons_of_pos (by simpa using hgt),
          List.filter_cons_of_neg (by simpa using le_of_lt hgt)]
        rfl

/-- Pairs with other keys are not touched. -/
theorem filter_insertKey {P : κ → Bool} (hk : P k = false) :
    ((insertKey k a m).filter fun p => P p.1) = m.filter fun p => P p.1 := by
  induction m with
  | nil => exact List.filter_cons_of_neg (by simp [hk])
  | cons p m ih =>
      unfold insertKey
      split
      · exact List.filter_cons_of_neg (by simp [hk])
      · split
        · rename_i hkey
          rw [List.filter_cons_of_neg (by simp [hk]), List.filter_cons_of_neg (by simp [← hkey, hk])]
        · rw [List.filter_cons, List.filter_cons, ih]

theorem filter_insertKey_congr {m' : List (κ × α)} {P : κ × α → Bool} (h : Keyed m) (h' : Keyed m')
    (heq : m.filter P = m'.filter P) : (insertKey k a m).filter P = (insertKey k a m').filter P := by
  have hswap : ∀ (m : List (κ × α)) (Q : κ × α → Bool), (m.filter Q).filter P = (m.filter P).filter Q := by
    intro m Q
    rw [List.filter_filter, List.filter_filter]
    exact List.filter_congr fun p _ => Bool.and_comm _ _
  rw [insertKey_eq h, insertKey_eq h', List.filter_append, List.filter_append, List.filter_cons, List.filter_cons]
  simp only [hswap, heq]

theorem filter_collect {P : κ → Bool} (h : ∀ p ∈ ms, P p.1 = false) (m : List (κ × α)) :
    ((collect ms m).filter fun p => P p.1) = m.filter fun p => P p.1 := by
  induction ms generalizing m with
  | nil => rfl
  | cons p ms ih =>
      obtain ⟨hp, hms⟩ := List.forall_mem_cons.mp h
      rw [collect_cons, ih hms, filter_insertKey hp]

theorem mem_of_lookup (h : m.lookup k = some a) : (k, a) ∈ m := by
  induction m with
  | nil => cases h
  | cons p m ih =>
      rw [lookup_pair] at h
      split at h
      · rename_i hkey
        cases h
        rw [hkey]
        exact List.mem_cons_self
      · exact List.mem_cons_of_mem _ (ih h)

/-- In an ordered list a pair is the value of its key. -/
theorem Keyed.lookup_iff (h : Keyed m) : m.lookup k = some a ↔ (k, a) ∈ m := by
  refine ⟨mem_of_lookup, fun hmem => ?_⟩
  induction m with
  | nil => cases hmem
  | cons p m ih =>
      obtain ⟨hp, hm⟩ := List.pairwise_cons.mp h
      rw [lookup_pair]
      rcases List.mem_cons.mp hmem with rfl | hmem
      · exact if_pos rfl
      · rw [if_neg (ne_of_gt (hp _ hmem))]
        exact ih hm hmem

/-- Ordered lists with the same pairs are the same. -/
theorem Keyed.eq_of_lookup (h : Keyed m) (h' : Keyed ms) (heq : ∀ k, m.lookup k = ms.lookup k) : m = ms := by
  have hirrefl : ∀ p q : κ × α, p.1 < q.1 → q.1 < p.1 → p = q := fun p q hpq hqp => absurd hqp (not_lt_of_gt hpq)
  have hnodup : ∀ {m : List (κ × α)}, Keyed m → m.Nodup :=
    fun hm => List.Pairwise.imp (fun hlt heq => absurd (heq ▸ hlt) (lt_irrefl _)) hm
  refine List.Perm.eq_of_pairwise (fun p q _ _ => hirrefl p q) h h' ?_
  refine (List.perm_ext_iff_of_nodup (hnodup h) (hnodup h')).mpr fun p => ?_
  rw [← h.lookup_iff (k := p.1) (a := p.2), ← h'.lookup_iff (k := p.1) (a := p.2), heq p.1]

end Etos.Lists
