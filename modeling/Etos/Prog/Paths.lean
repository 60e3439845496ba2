import Etos.Prog.Basic

/-!
# `Prog.Paths` — what happens along the paths of a program

`Safe` speaks about programs that share a state with others. When a program is looked at alone, against answers
that are fixed by a predicate or by a state of its own, three simpler judgements are enough:

- `Keeps allowed P p Q`: along every path of allowed answers each call is a `P`, and what is returned is a `Q`;
- `Reaches sem P p Q s`: along every path from state `s` some call is a `P`, or the program returns in `Q`: with
  `Q` false, the program cannot avoid making a `P`;
- `Can sem p Q s`: along *some* path from state `s` the program returns in `Q`.

`Keeps` and `Reaches` quantify over the answers demonically, `Can` angelically. `Reaches` and `Can` are total:
a panicking program satisfies neither.
-/

namespace Etos.Prog

variable {Op : Type} {Ans : Op → Type} {α β σ : Type}

/-! ## Every call -/

section Keeps

variable {allowed : (o : Op) → Ans o → Prop} {P : Op → Prop}

/-- Along every path each call is a `P`, and the result is a `Q`. -/
def Keeps (allowed : (o : Op) → Ans o → Prop) (P : Op → Prop) : Prog Op Ans α → (α → Prop) → Prop
  | .ret a, Q => Q a
  | .call o k, Q => P o ∧ ∀ a, allowed o a → Keeps allowed P (k a) Q
  | .panic _, _ => True

theorem keeps_bind {p : Prog Op Ans α} {f : α → Prog Op Ans β} {Q : β → Prop} :
    Keeps allowed P (p >>= f) Q ↔ Keeps allowed P p (fun a => Keeps allowed P (f a) Q) := by
  induction p with
  | ret a => exact Iff.rfl
  | call o k ih =>
      constructor
      · exact fun h => ⟨h.1, fun a ha => (ih a).mp (h.2 a ha)⟩
      · exact fun h => ⟨h.1, fun a ha => (ih a).mpr (h.2 a ha)⟩
  | panic _ => exact Iff.rfl

theorem Keeps.post {p : Prog Op Ans α} {Q Q' : α → Prop} (h : Keeps allowed P p Q)
    (hQ : ∀ a, Q a → Q' a) : Keeps allowed P p Q' := by
  induction p with
  | ret a => exact hQ a h
  | call o k ih => exact ⟨h.1, fun a ha => ih a (h.2 a ha)⟩
  | panic _ => trivial

theorem Keeps.bind {p : Prog Op Ans α} {f : α → Prog Op Ans β} {R : α → Prop} {Q : β → Prop}
    (h : Keeps allowed P p R) (hf : ∀ a, R a → Keeps allowed P (f a) Q) : Keeps allowed P (p >>= f) Q :=
  keeps_bind.mpr (h.post hf)

/-- A program all of whose calls are `P`s keeps `P`. -/
theorem Calls.keeps {p : Prog Op Ans α} (h : Calls P p) : Keeps allowed P p (fun _ => True) := by
  induction p with
  | ret a => trivial
  | call o k ih => exact ⟨h.1, fun a _ => ih a (h.2 a)⟩
  | panic _ => trivial

end Keeps

/-! ## Some call -/

section Reaches

variable {sem : Sem Op Ans σ} {P : σ → Op → Prop}

/-- Along every path from `s` some call is a `P`, or the program returns in `Q`. -/
def Reaches (sem : Sem Op Ans σ) (P : σ → Op → Prop) : Prog Op Ans α → (α → σ → Prop) → σ → Prop
  | .ret a, Q, s => Q a s
  | .call o k, Q, s => P s o ∨ ∀ a s', sem s o a s' → Reaches sem P (k a) Q s'
  | .panic _, _, _ => False

theorem reaches_bind {p : Prog Op Ans α} {f : α → Prog Op Ans β} {Q : β → σ → Prop} {s : σ} :
    Reaches sem P (p >>= f) Q s ↔ Reaches sem P p (fun a s' => Reaches sem P (f a) Q s') s := by
  induction p generalizing s with
  | ret a => exact Iff.rfl
  | call o k ih =>
      constructor
      · rintro (h | h)
        · exact .inl h
        · exact .inr fun a s' hs => (ih a).mp (h a s' hs)
      · rintro (h | h)
        · exact .inl h
        · exact .inr fun a s' hs => (ih a).mpr (h a s' hs)
  | panic _ => exact Iff.rfl

theorem Reaches.post {p : Prog Op Ans α} {Q Q' : α → σ → Prop} {s : σ} (h : Reaches sem P p Q s)
    (hQ : ∀ a s, Q a s → Q' a s) : Reaches sem P p Q' s := by
  induction p generalizing s with
  | ret a => exact hQ a s h
  | call o k ih =>
      rcases h with h | h
      · exact .inl h
      · exact .inr fun a s' hs => ih a (h a s' hs)
  | panic _ => exact h

theorem Reaches.bind {p : Prog Op Ans α} {f : α → Prog Op Ans β} {R : α → σ → Prop} {Q : β → σ → Prop}
    {s : σ} (h : Reaches sem P p R s) (hf : ∀ a s', R a s' → Reaches sem P (f a) Q s') :
    Reaches sem P (p >>= f) Q s :=
  reaches_bind.mpr (h.post hf)

end Reaches

/-! ## Some path -/

section Can

variable {sem : Sem Op Ans σ}

/-- Along some path from `s` the program returns in `Q`. -/
def Can (sem : Sem Op Ans σ) : Prog Op Ans α → (α → σ → Prop) → σ → Prop
  | .ret a, Q, s => Q a s
  | .call o k, Q, s => ∃ a s', sem s o a s' ∧ Can sem (k a) Q s'
  | .panic _, _, _ => False

theorem can_bind {p : Prog Op Ans α} {f : α → Prog Op Ans β} {Q : β → σ → Prop} {s : σ} :
    Can sem (p >>= f) Q s ↔ Can sem p (fun a s' => Can sem (f a) Q s') s := by
  induction p generalizing s with
  | ret a => exact Iff.rfl
  | call o k ih =>
      constructor
      · rintro ⟨a, s', hs, h⟩
        exact ⟨a, s', hs, (ih a).mp h⟩
      · rintro ⟨a, s', hs, h⟩
        exact ⟨a, s', hs, (ih a).mpr h⟩
  | panic _ => exact Iff.rfl

theorem Can.post {p : Prog Op Ans α} {Q Q' : α → σ → Prop} {s : σ} (h : Can sem p Q s)
    (hQ : ∀ a s, Q a s → Q' a s) : Can sem p Q' s := by
  induction p generalizing s with
  | ret a => exact hQ a s h
  | call o k ih =>
      obtain ⟨a, s', hs, h⟩ := h
      exact ⟨a, s', hs, ih a h⟩
  | panic _ => exact h

theorem Can.bind {p : Prog Op Ans α} {f : α → Prog Op Ans β} {R : α → σ → Prop} {Q : β → σ → Prop} {s : σ}
    (h : Can sem p R s) (hf : ∀ a s', R a s' → Can sem (f a) Q s') : Can sem (p >>= f) Q s :=
  can_bind.mpr (h.post hf)

/-- A program that can return somewhere returns in some state. -/
theorem Can.pick {p : Prog Op Ans α} {Q : α → σ → Prop} {s : σ} (h : Can sem p Q s) :
    ∃ a s', Q a s' ∧ Can sem p (fun _ s'' => s'' = s') s := by
  induction p generalizing s with
  | ret a => exact ⟨a, s, h, rfl⟩
  | call o k ih =>
      obtain ⟨a, s₁, hs, h⟩ := h
      obtain ⟨b, s', hQ, hcan⟩ := ih a h
      exact ⟨b, s', hQ, a, s₁, hs, hcan⟩
  | panic _ => exact h.elim

/-- Where a safe program returns, its postcondition holds. -/
theorem Can.meets {guar : Sem Op Ans σ} {p : Prog Op Ans α} {Q R : α → σ → Prop} {s : σ} (h : Can sem p R s)
    (hs : Safe Eq sem guar p Q s) : ∃ a s', R a s' ∧ Q a s' := by
  induction p generalizing s with
  | ret a => exact ⟨a, s, h, hs⟩
  | call o k ih =>
      obtain ⟨a, s₁, hsem, h⟩ := h
      exact ih a h (hs s rfl a s₁ hsem).2
  | panic _ => exact h.elim

theorem Can.safe {guar : Sem Op Ans σ} {p : Prog Op Ans α} {Q : α → σ → Prop} {s s' : σ}
    (h : Can sem p (fun _ s'' => s'' = s') s) (hs : Safe Eq sem guar p Q s) : ∃ a, Q a s' := by
  obtain ⟨a, _, rfl, hq⟩ := h.meets hs
  exact ⟨a, hq⟩

end Can

/-! ## Evaluation -/

/-- The result of a program whose calls are answered by a function, if it returns. -/
def eval (answer : (o : Op) → Ans o) : Prog Op Ans α → Option α
  | .ret a => some a
  | .call o k => eval answer (k (answer o))
  | .panic _ => none

theorem eval_bind {answer : (o : Op) → Ans o} {p : Prog Op Ans α} {f : α → Prog Op Ans β} :
    (p >>= f).eval answer = (p.eval answer).bind fun a => (f a).eval answer := by
  induction p with
  | ret a => rfl
  | call o k ih => exact ih (answer o)
  | panic _ => rfl

end Etos.Prog
