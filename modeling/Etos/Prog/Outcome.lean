import Etos.Prog.Paths

/-!
# `Prog.Outcome` — what a program that may fail comes to

`EndsIn sem p s r s'` says that `p`, started in `s`, can end in `s'` with the result or the error `r`. It is `Can` for
a single result, and it is given by one equivalence for each way to build a program, so it serves in both directions: an
outcome is taken apart along the program, and one is put together the same way.
-/

namespace Etos.Prog

variable {Op : Type} {Ans : Op → Type} {α β ε σ : Type} {sem : Sem Op Ans σ}

/-- A path ends with one result in one state. -/
theorem can_iff {p : Prog Op Ans α} {Q : α → σ → Prop} {s : σ} :
    Can sem p Q s ↔ ∃ a t, Can sem p (fun b u => b = a ∧ u = t) s ∧ Q a t := by
  constructor
  · intro h
    induction p generalizing s with
    | ret a => exact ⟨a, s, ⟨rfl, rfl⟩, h⟩
    | call o k ih =>
        obtain ⟨x, s₁, hs, h⟩ := h
        obtain ⟨a, t, hcan, hQ⟩ := ih x h
        exact ⟨a, t, ⟨x, s₁, hs, hcan⟩, hQ⟩
    | panic _ => exact h.elim
  · rintro ⟨a, t, hcan, hQ⟩
    refine hcan.post ?_
    rintro b u ⟨rfl, rfl⟩
    exact hQ

/-- From `s`, the program can end in `s'` with `r`. -/
def EndsIn (sem : Sem Op Ans σ) (p : ExceptT ε (Prog Op Ans) α) (s : σ) (r : Except ε α) (s' : σ) : Prop :=
  Can sem p.run (fun r' t => r' = r ∧ t = s') s

variable {s s' : σ} {p : ExceptT ε (Prog Op Ans) α} {f : α → ExceptT ε (Prog Op Ans) β}

theorem outcome_pure {a : α} {r : Except ε α} :
    EndsIn sem (pure a : ExceptT ε (Prog Op Ans) α) s r s' ↔ .ok a = r ∧ s = s' := Iff.rfl

theorem outcome_throw {e : ε} {r : Except ε α} :
    EndsIn sem (throw e : ExceptT ε (Prog Op Ans) α) s r s' ↔ .error e = r ∧ s = s' := Iff.rfl

/-- A sequence fails in its first part, or gets to its second. -/
theorem outcome_bind {r : Except ε β} :
    EndsIn sem (p >>= f) s r s' ↔
      (∃ e, EndsIn sem p s (.error e) s' ∧ .error e = r) ∨
        ∃ a t, EndsIn sem p s (.ok a) t ∧ EndsIn sem (f a) t r s' := by
  unfold EndsIn
  rw [ExceptT.run_bind, can_bind, can_iff]
  constructor
  · rintro ⟨r₁, t, hp, h⟩
    cases r₁ with
    | error e =>
        obtain ⟨hr, rfl⟩ := h
        exact .inl ⟨e, hp, hr⟩
    | ok a => exact .inr ⟨a, t, hp, h⟩
  · rintro (⟨e, hp, hr⟩ | ⟨a, t, hp, h⟩)
    · exact ⟨.error e, s', hp, hr, rfl⟩
    · exact ⟨.ok a, t, hp, h⟩

/-- A call does not fail as a program; what it answers may be an error. -/
theorem outcome_call {o : Op} {f : Ans o → ExceptT ε (Prog Op Ans) β} {r : Except ε β} :
    EndsIn sem (ExceptT.lift (perform o) >>= f) s r s' ↔ ∃ a t, sem s o a t ∧ EndsIn sem (f a) t r s' := by
  unfold EndsIn
  rw [ExceptT.run_bind]
  exact Iff.rfl

end Etos.Prog
