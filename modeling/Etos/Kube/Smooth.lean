import Etos.Kube.Cluster
import Etos.Prog.Paths

/-!
# `Kube.Smooth` — rounds in which nothing fails

What a program must achieve is said about rounds without errors: every call succeeds and every read shows what is stored
when it is made. Others may write between two calls, so each call has a store of its own; only the first one is made in
a given store. `Achieves s₀ p Q l` says that `p`, with the calls `l` behind it, runs to its end in every such round and
ends with calls in `Q`.
-/

namespace Etos.Kube

variable {K : Type} {Spec Status : K → Type} {X : Type} {XAns : X → Type} {α β : Type}

/-- The answer shows what is stored. -/
def Shows (s : Store K Spec Status) : (o : Op K Spec Status X) → Ans K Spec Status X XAns o → Prop
  | .get k n, .ok x => s.find k n = some x
  | .list k sel, .ok xs => xs = s.list k sel
  | _, _ => True

/-- A call in a round that starts in the store `s₀`. The state is the round so far. -/
def Smooth (s₀ : Store K Spec Status) : Etos.Sem (Op K Spec Status X) (Ans K Spec Status X XAns)
    (List (Event K Spec Status X XAns)) :=
  fun l o a l' => ∃ s, (l = [] → s = s₀) ∧ succeeded o a = true ∧ Shows s o a ∧ l' = ⟨⟨o, a⟩, s⟩ :: l

/-- In every round without errors the program ends with `Q`. -/
def Achieves (s₀ : Store K Spec Status) (p : Prog (Op K Spec Status X) (Ans K Spec Status X XAns) α)
    (Q : α → List (Event K Spec Status X XAns) → Prop) (l : List (Event K Spec Status X XAns)) : Prop :=
  p.Reaches (Smooth s₀) (fun _ _ => False) Q l

variable {s₀ : Store K Spec Status} {p : Prog (Op K Spec Status X) (Ans K Spec Status X XAns) α}
  {Q : α → List (Event K Spec Status X XAns) → Prop} {l : List (Event K Spec Status X XAns)}

theorem Achieves.ret {a : α} (h : Q a l) : Achieves s₀ (.ret a) Q l := h

/-- The rule for a call. -/
theorem Achieves.call {o : Op K Spec Status X}
    {k : Ans K Spec Status X XAns o → Prog (Op K Spec Status X) (Ans K Spec Status X XAns) α}
    (h : ∀ a s, (l = [] → s = s₀) → succeeded o a = true → Shows s o a → Achieves s₀ (k a) Q (⟨⟨o, a⟩, s⟩ :: l)) :
    Achieves s₀ (.call o k) Q l := by
  refine .inr fun a l' hs => ?_
  obtain ⟨s, hfirst, hok, hshows, rfl⟩ := hs
  exact h a s hfirst hok hshows

theorem Achieves.post {Q' : α → List (Event K Spec Status X XAns) → Prop} (h : Achieves s₀ p Q l)
    (hQ : ∀ a l', Q a l' → Q' a l') : Achieves s₀ p Q' l := Prog.Reaches.post h hQ

theorem Achieves.bind {f : α → Prog (Op K Spec Status X) (Ans K Spec Status X XAns) β}
    {R : β → List (Event K Spec Status X XAns) → Prop} (h : Achieves s₀ p Q l)
    (hf : ∀ a l', Q a l' → Achieves s₀ (f a) R l') : Achieves s₀ (p >>= f) R l := Prog.Reaches.bind h hf

/-- Calls are only added. -/
theorem Achieves.grows (h : Achieves s₀ p Q l) : Achieves s₀ p (fun a l' => Q a l' ∧ l <:+ l') l := by
  induction p generalizing l with
  | ret a => exact ⟨h, List.suffix_rfl⟩
  | panic _ => exact h
  | call o k ih =>
      rcases h with h | h
      · exact h.elim
      · refine .call fun a s hfirst hok hshows => ?_
        have hk := ih a (h a _ ⟨s, hfirst, hok, hshows, rfl⟩)
        exact hk.post fun b l' ⟨hQ, hsuffix⟩ => ⟨hQ, (List.suffix_cons _ l).trans hsuffix⟩

end Etos.Kube
