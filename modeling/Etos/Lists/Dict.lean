import Mathlib.Algebra.GroupWithZero.Nat
import Mathlib.Data.List.Nodup

/-!
# `Lists.Dict` — dictionaries in the order of insertion

A dictionary as a list of pairs: a key that is new is put at the end, and one that is there keeps its place and gets
the new value. No key is there twice, and the keys are those that were set (`keys_foldl_setItem`).
-/

namespace Etos.Lists

/-- Go's `maps.Copy(dst, src)`: where both have a key, the value is that of `src`. -/
def mapsCopy {κ α : Type} [BEq κ] (dst src : List (κ × α)) : List (κ × α) :=
  dst.filter (fun p => (src.lookup p.1).isNone) ++ src

variable {κ α : Type} [DecidableEq κ]

/-- `dict[k] = a`. -/
def setItem (k : κ) (a : α) : List (κ × α) → List (κ × α)
  | [] => [(k, a)]
  | p :: m => if p.1 = k then (k, a) :: m else p :: setItem k a m

theorem lookup_pair [BEq κ] [LawfulBEq κ] {k : κ} {m : List (κ × α)} (p : κ × α) :
    (p :: m).lookup k = if k = p.1 then some p.2 else m.lookup k := by
  rw [List.lookup_cons]
  by_cases h : k = p.1
  · rw [h, beq_self_eq_true, if_pos rfl]
  · rw [beq_false_of_ne h, if_neg h]

/-- Where no key is there twice, a pair is the value of its key. -/
theorem lookup_of_mem [BEq κ] [LawfulBEq κ] {m : List (κ × α)} (h : (m.map Prod.fst).Nodup) {p : κ × α} (hp : p ∈ m) :
    m.lookup p.1 = some p.2 := by
  induction m with
  | nil => cases hp
  | cons q m ih =>
      obtain ⟨hq, hm⟩ := List.nodup_cons.mp h
      rw [lookup_pair]
      rcases List.mem_cons.mp hp with rfl | hp
      · exact if_pos rfl
      · rw [if_neg, ih hm hp]
        rintro hkey
        exact hq (hkey ▸ List.mem_map_of_mem hp)

/-- Pairs are selected by their keys. -/
theorem lookup_filter_key [BEq κ] [LawfulBEq κ] (q : κ → Bool) (m : List (κ × α)) (k : κ) :
    (m.filter fun p => q p.1).lookup k = if q k then m.lookup k else none := by
  induction m with
  | nil => simp
  | cons p m ih =>
      rw [List.filter_cons, lookup_pair p]
      by_cases hk : k = p.1
      · rw [if_pos hk, ← hk]
        by_cases hq : q k = true
        · rw [if_pos hq, if_pos hq, lookup_pair, if_pos hk]
        · rw [if_neg hq, if_neg hq, ih, if_neg hq]
      · rw [if_neg hk]
        split
        · rw [lookup_pair, if_neg hk, ih]
        · exact ih

theorem lookup_setItem [BEq κ] [LawfulBEq κ] (k k' : κ) (a : α) (m : List (κ × α)) :
    (setItem k a m).lookup k' = if k' = k then some a else m.lookup k' := by
  induction m with
  | nil => exact lookup_pair (k, a)
  | cons p m ih =>
      unfold setItem
      by_cases hp : p.1 = k
      · rw [if_pos hp, lookup_pair, lookup_pair, hp]
        split <;> rfl
      · rw [if_neg hp, lookup_pair, lookup_pair, ih]
        by_cases hk : k' = p.1
        · rw [if_pos hk, if_pos hk, if_neg fun h => hp (hk.symm.trans h)]
        · rw [if_neg hk, if_neg hk]

theorem keys_setItem (k : κ) (a : α) (m : List (κ × α)) :
    (setItem k a m).map Prod.fst = if k ∈ m.map Prod.fst then m.map Prod.fst else m.map Prod.fst ++ [k] := by
  induction m with
  | nil => rfl
  | cons p m ih =>
      unfold setItem
      rw [List.map_cons]
      by_cases hp : p.1 = k
      · rw [if_pos hp, if_pos (hp ▸ List.mem_cons_self), hp, List.map_cons]
      · rw [if_neg hp, List.map_cons, ih]
        by_cases hk : k ∈ m.map Prod.fst
        · rw [if_pos hk, if_pos (List.mem_cons_of_mem _ hk)]
        · rw [if_neg hk, if_neg fun h => hk ((List.mem_cons.mp h).resolve_left (Ne.symm hp)), List.cons_append]

theorem nodup_keys_setItem {m : List (κ × α)} (h : (m.map Prod.fst).Nodup) (k : κ) (a : α) :
    ((setItem k a m).map Prod.fst).Nodup := by
  rw [keys_setItem]
  split
  · exact h
  · rename_i hk
    refine List.nodup_append.mpr ⟨h, List.nodup_singleton k, ?_⟩
    rintro x hx y hy rfl
    exact hk (List.mem_singleton.mp hy ▸ hx)

theorem mem_setItem {k : κ} {a : α} {m : List (κ × α)} {p : κ × α} (h : p ∈ setItem k a m) : p = (k, a) ∨ p ∈ m := by
  induction m with
  | nil => exact .inl (List.mem_singleton.mp h)
  | cons q m ih =>
      unfold setItem at h
      split at h
      · exact (List.mem_cons.mp h).imp_right (List.mem_cons_of_mem q)
      · rcases List.mem_cons.mp h with rfl | h
        · exact .inr List.mem_cons_self
        · exact (ih h).imp_right (List.mem_cons_of_mem q)

/-- A new key is put at the end. -/
theorem setItem_of_not_mem {k : κ} {m : List (κ × α)} (h : k ∉ m.map Prod.fst) (a : α) :
    setItem k a m = m ++ [(k, a)] := by
  induction m with
  | nil => rfl
  | cons p m ih =>
      rw [List.map_cons, List.mem_cons, not_or] at h
      rw [setItem, if_neg (Ne.symm h.1), ih h.2, List.cons_append]

theorem mem_keys_setItem {k k' : κ} {a : α} {m : List (κ × α)} :
    k' ∈ (setItem k a m).map Prod.fst ↔ k' = k ∨ k' ∈ m.map Prod.fst := by
  rw [keys_setItem]
  split
  · rename_i hk
    exact ⟨.inr, fun h => h.elim (fun h => h ▸ hk) id⟩
  · rw [List.mem_append, List.mem_singleton, or_comm]

/-- Set one key after the other. -/
theorem keys_foldl_setItem (ps m : List (κ × α)) (h : (m.map Prod.fst).Nodup) :
    ((ps.foldl (fun m p => setItem p.1 p.2 m) m).map Prod.fst).Nodup ∧
      ∀ k, k ∈ (ps.foldl (fun m p => setItem p.1 p.2 m) m).map Prod.fst ↔
        k ∈ m.map Prod.fst ∨ k ∈ ps.map Prod.fst := by
  induction ps generalizing m with
  | nil => exact ⟨h, fun k => by simp⟩
  | cons p ps ih =>
      obtain ⟨hnodup, hmem⟩ := ih (setItem p.1 p.2 m) (nodup_keys_setItem h p.1 p.2)
      refine ⟨hnodup, fun k => ?_⟩
      rw [List.foldl_cons, hmem k, mem_keys_setItem, List.map_cons, List.mem_cons]
      tauto

theorem mem_foldl_setItem {ps m : List (κ × α)} {p : κ × α} (h : p ∈ ps.foldl (fun m p => setItem p.1 p.2 m) m) :
    p ∈ ps ∨ p ∈ m := by
  induction ps generalizing m with
  | nil => exact .inr h
  | cons q ps ih =>
      rcases ih h with h | h
      · exact .inl (List.mem_cons_of_mem q h)
      · rcases mem_setItem h with rfl | h
        · exact .inl List.mem_cons_self
        · exact .inr h

/-- Pairs whose keys are all different are what is set. -/
theorem foldl_setItem_of_nodup {ps m : List (κ × α)} (h : ((m ++ ps).map Prod.fst).Nodup) :
    ps.foldl (fun m p => setItem p.1 p.2 m) m = m ++ ps := by
  induction ps generalizing m with
  | nil => exact (List.append_nil m).symm
  | cons p ps ih =>
      have hnew : p.1 ∉ m.map Prod.fst := by
        rw [List.map_append] at h
        exact fun hmem => (List.nodup_append.mp h).2.2 p.1 hmem p.1 List.mem_cons_self rfl
      rw [List.foldl_cons, setItem_of_not_mem hnew, ih, List.append_assoc, List.singleton_append]
      rwa [List.append_assoc, List.singleton_append]

/-! ## Sums of values -/

/-- A value counts instead of the one it replaces. -/
theorem sum_setItem [BEq κ] [LawfulBEq κ] (f : α → Nat) (k : κ) (a : α) (m : List (κ × α)) :
    ((setItem k a m).map fun p => f p.2).sum + ((m.lookup k).map f).getD 0 = (m.map fun p => f p.2).sum + f a := by
  induction m with
  | nil => simp [setItem]
  | cons p m ih =>
      unfold setItem
      rw [lookup_pair]
      by_cases hp : p.1 = k
      · rw [if_pos hp, if_pos hp.symm]
        simp only [List.map_cons, List.sum_cons, Option.map_some, Option.getD_some]
        omega
      · rw [if_neg hp, if_neg (Ne.symm hp)]
        simp only [List.map_cons, List.sum_cons]
        omega

/-- Values that are made of the old ones by adding to them: whatever the keys, the sum grows by what is added. -/
theorem sum_foldl_setItem [BEq κ] [LawfulBEq κ] {β : Type} {f : α → Nat} {new : β → Option α → α} {add : β → Nat}
    (hnew : ∀ b old, f (new b old) = (old.map f).getD 0 + add b) (key : β → κ) (bs : List β) (m : List (κ × α)) :
    ((bs.foldl (fun m b => setItem (key b) (new b (m.lookup (key b))) m) m).map fun p => f p.2).sum =
      (m.map fun p => f p.2).sum + (bs.map add).sum := by
  induction bs generalizing m with
  | nil => simp
  | cons b bs ih =>
      have hset := sum_setItem f (key b) (new b (m.lookup (key b))) m
      rw [hnew] at hset
      rw [List.foldl_cons, ih, List.map_cons, List.sum_cons]
      omega

end Etos.Lists
