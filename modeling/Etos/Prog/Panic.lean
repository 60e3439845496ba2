import Etos.Prog.Paths

/-!
# `Prog.Panic` — where a program dies

A program may end in a panic, whose message names the reason. `Guarded` says that no path of allowed answers ends in
a *bad* one, that every call is one of a kind, and what the result is. It is closed under sequencing, and so is its
refutation, which exhibits a path: a condition for `Guarded` is exact if such a path exists whenever it fails.
-/

namespace Etos.Prog

variable {Op : Type} {Ans : Op → Type} {α β : Type}

/-- Answers that do not depend on a state. -/
def free (allowed : (o : Op) → Ans o → Prop) : Sem Op Ans Unit := fun _ o a _ => allowed o a

variable {allowed : (o : Op) → Ans o → Prop} {P : Op → Prop} {bad : String → Prop}

/-! ## No bad panic -/

/-- Along every path of allowed answers each call is a `P`, no panic is bad, and the result is a `Q`. -/
def Guarded (allowed : (o : Op) → Ans o → Prop) (P : Op → Prop) (bad : String → Prop) :
    Prog Op Ans α → (α → Prop) → Prop
  | .ret a, Q => Q a
  | .call o k, Q => P o ∧ ∀ a, allowed o a → Guarded allowed P bad (k a) Q
  | .panic message, _ => ¬ bad message

theorem guarded_bind {p : Prog Op Ans α} {f : α → Prog Op Ans β} {Q : β → Prop} :
    Guarded allowed P bad (p >>= f) Q ↔ Guarded allowed P bad p (fun a => Guarded allowed P bad (f a) Q) := by
  induction p with
  | ret a => exact Iff.rfl
  | call o k ih =>
      constructor
      · exact fun h => ⟨h.1, fun a ha => (ih a).mp (h.2 a ha)⟩
      · exact fun h => ⟨h.1, fun a ha => (ih a).mpr (h.2 a ha)⟩
  | panic _ => exact Iff.rfl

theorem Guarded.post {p : Prog Op Ans α} {Q Q' : α → Prop} (h : Guarded allowed P bad p Q)
    (hQ : ∀ a, Q a → Q' a) : Guarded allowed P bad p Q' := by
  induction p with
  | ret a => exact hQ a h
  | call o k ih => exact ⟨h.1, fun a ha => ih a (h.2 a ha)⟩
  | panic _ => exact h

theorem Guarded.bind {p : Prog Op Ans α} {f : α → Prog Op Ans β} {R : α → Prop} {Q : β → Prop}
    (h : Guarded allowed P bad p R) (hf : ∀ a, R a → Guarded allowed P bad (f a) Q) :
    Guarded allowed P bad (p >>= f) Q :=
  guarded_bind.mpr (h.post hf)

/-! ## A bad panic

To refute `Guarded` is to exhibit a path. -/

variable {Q : β → Prop}

theorem not_guarded_call {o : Op} {k : Ans o → Prog Op Ans β} (a : Ans o) (ha : allowed o a)
    (h : ¬ Guarded allowed P bad (k a) Q) : ¬ Guarded allowed P bad (.call o k) Q :=
  fun hg => h (hg.2 a ha)

/-- The first part of a sequence goes wrong. -/
theorem not_guarded_bind_left {p : Prog Op Ans α} {f : α → Prog Op Ans β}
    (h : ¬ Guarded allowed P bad p (fun _ => True)) : ¬ Guarded allowed P bad (p >>= f) Q :=
  fun hg => h ((guarded_bind.mp hg).post fun _ _ => trivial)

/-- The first part can return, and the rest goes wrong. -/
theorem not_guarded_bind {p : Prog Op Ans α} {f : α → Prog Op Ans β} {R : α → Prop}
    (h : Can (free allowed) p (fun a _ => R a) ()) (hf : ∀ a, R a → ¬ Guarded allowed P bad (f a) Q) :
    ¬ Guarded allowed P bad (p >>= f) Q := by
  intro hg
  induction p with
  | ret a => exact hf a h hg
  | call o k ih =>
      obtain ⟨a, _, ha, h⟩ := h
      exact ih a h (hg.2 a ha)
  | panic _ => exact h.elim

end Etos.Prog
