import Mathlib.Logic.Basic

/-!
# `Prog.Basic` — programs that talk to their environment by calls

A controller, a webhook or a batch job is a sequential program whose only effects are calls: it hands an
operation to its environment and goes on with the answer. `Prog Op Ans α` is that shape and nothing else:
a tree whose nodes are calls, branching over the answers. What a call *does* is not part of the program;
it is supplied later, as a relation on an arbitrary state (`Sem`), so that one program can be run against
a single object under demonic answers as well as against a whole store shared with other programs.

## Contents
- **Programs.** The free monad `Prog`, with a `panic` leaf for a dereferenced nil pointer. `Prog.Calls P` says
  that every call a program can make is a `P`.
- **The logic.** `Safe rely sem guar p Q s`: from state `s`, under interference `rely` before every call,
  each call of `p` satisfies the guarantee `guar`, and `p` returns only in states satisfying `Q`. The
  rules follow the program's syntax (`safe_bind`, `Safe.bind`, `Safe.call`), plus the consequence rules
  (`Safe.mono`, `Safe.mono_sem`) and stability under interference (`Safe.stable`).

Nothing here mentions an API, an object or a controller.
-/

namespace Etos

/-- A program over the operations `Op`, where the answer to `o` has type `Ans o`. -/
inductive Prog (Op : Type) (Ans : Op → Type) (α : Type) : Type where
  | ret (a : α)
  | call (o : Op) (k : Ans o → Prog Op Ans α)
  /-- The program died on a runtime panic; for a nil pointer the message names it. -/
  | panic (message : String)

namespace Prog

variable {Op : Type} {Ans : Op → Type} {α β γ σ : Type}

/-- Sequencing: graft `f` onto the leaves of a program. -/
def bind : Prog Op Ans α → (α → Prog Op Ans β) → Prog Op Ans β
  | ret a, f => f a
  | call o k, f => call o (fun a => (k a).bind f)
  | panic message, _ => panic message

instance : Monad (Prog Op Ans) where
  pure := ret
  bind := bind

/-- The program that makes one call and returns the answer. -/
def perform (o : Op) : Prog Op Ans (Ans o) := call o ret

@[simp] theorem pure_eq (a : α) : (pure a : Prog Op Ans α) = ret a := rfl
@[simp] theorem ret_bind (a : α) (f : α → Prog Op Ans β) : ((ret a : Prog Op Ans α) >>= f) = f a := rfl
@[simp] theorem call_bind (o : Op) (k : Ans o → Prog Op Ans α) (f : α → Prog Op Ans β) :
    (call o k >>= f) = call o (fun a => k a >>= f) := rfl
@[simp] theorem perform_bind (o : Op) (f : Ans o → Prog Op Ans β) :
    (perform o >>= f) = call o f := rfl
@[simp] theorem panic_bind (message : String) (f : α → Prog Op Ans β) :
    ((panic message : Prog Op Ans α) >>= f) = panic message := rfl

@[simp] theorem bind_assoc (p : Prog Op Ans α) (f : α → Prog Op Ans β) (g : β → Prog Op Ans γ) :
    ((p >>= f) >>= g) = p >>= fun a => f a >>= g := by
  induction p with
  | ret a => rfl
  | call o k ih => exact congrArg (call o) (funext ih)
  | panic _ => rfl

/-- Every call the program can make is a `P`. -/
def Calls (P : Op → Prop) : Prog Op Ans α → Prop
  | ret _ => True
  | call o k => P o ∧ ∀ a, Calls P (k a)
  | panic _ => True

theorem Calls.bind {P : Op → Prop} {p : Prog Op Ans α} {f : α → Prog Op Ans β} (h : Calls P p)
    (hf : ∀ a, Calls P (f a)) : Calls P (p >>= f) := by
  induction p with
  | ret a => exact hf a
  | call o k ih => exact ⟨h.1, fun a => ih a (h.2 a)⟩
  | panic _ => trivial

theorem Calls.mono {P P' : Op → Prop} {p : Prog Op Ans α} (h : Calls P p) (hP : ∀ o, P o → P' o) :
    Calls P' p := by
  induction p with
  | ret a => trivial
  | call o k ih => exact ⟨hP o h.1, fun a => ih a (h.2 a)⟩
  | panic _ => trivial

end Prog

/-- What calls do: `sem s o a s'` says that in state `s` the operation `o` may be answered by `a`, leaving
    the state `s'`. Failures, stale answers and clock readings are all choices of `a` and `s'`. -/
abbrev Sem (Op : Type) (Ans : Op → Type) (σ : Type) : Type := σ → (o : Op) → Ans o → σ → Prop

/-! ## The logic -/

section Safe

variable {Op : Type} {Ans : Op → Type} {α β σ : Type}

/-- **Partial correctness under interference.** Before each call the state may move along `rely`; the call
    itself must then satisfy `guar`, for every answer `sem` allows, and the postcondition `Q` holds
    wherever the program returns. A panicking program satisfies every `Q`. -/
def Safe (rely : σ → σ → Prop) (sem guar : Sem Op Ans σ) :
    Prog Op Ans α → (α → σ → Prop) → σ → Prop
  | .ret a, Q, s => Q a s
  | .call o k, Q, s => ∀ s₁, rely s s₁ → ∀ a s₂, sem s₁ o a s₂ →
      guar s₁ o a s₂ ∧ Safe rely sem guar (k a) Q s₂
  | .panic _, _, _ => True

variable {rely : σ → σ → Prop} {sem sem' guar guar' : Sem Op Ans σ}

/-- Sequencing: prove the first part against the precondition of the rest. -/
theorem safe_bind {p : Prog Op Ans α} {f : α → Prog Op Ans β} {Q : β → σ → Prop} {s : σ} :
    Safe rely sem guar (p >>= f) Q s ↔
      Safe rely sem guar p (fun a s' => Safe rely sem guar (f a) Q s') s := by
  induction p generalizing s with
  | ret a => exact Iff.rfl
  | call o k ih =>
      constructor
      · intro h s₁ hr a s₂ hs
        exact ⟨(h s₁ hr a s₂ hs).1, (ih a).mp (h s₁ hr a s₂ hs).2⟩
      · intro h s₁ hr a s₂ hs
        exact ⟨(h s₁ hr a s₂ hs).1, (ih a).mpr (h s₁ hr a s₂ hs).2⟩
  | panic _ => exact Iff.rfl

/-- Consequence: weaken the postcondition and the guarantee. -/
theorem Safe.mono {p : Prog Op Ans α} {Q Q' : α → σ → Prop} {s : σ}
    (h : Safe rely sem guar p Q s) (hg : ∀ s o a s', guar s o a s' → guar' s o a s')
    (hQ : ∀ a s, Q a s → Q' a s) : Safe rely sem guar' p Q' s := by
  induction p generalizing s with
  | ret a => exact hQ a s h
  | call o k ih =>
      intro s₁ hr a s₂ hs
      exact ⟨hg s₁ o a s₂ (h s₁ hr a s₂ hs).1, ih a (h s₁ hr a s₂ hs).2⟩
  | panic _ => trivial

/-- Weaken the postcondition only. -/
theorem Safe.post {p : Prog Op Ans α} {Q Q' : α → σ → Prop} {s : σ}
    (h : Safe rely sem guar p Q s) (hQ : ∀ a s, Q a s → Q' a s) : Safe rely sem guar p Q' s :=
  h.mono (fun _ _ _ _ hg => hg) hQ

/-- Sequencing through an intermediate assertion. -/
theorem Safe.bind {p : Prog Op Ans α} {f : α → Prog Op Ans β} {R : α → σ → Prop} {Q : β → σ → Prop} {s : σ}
    (h : Safe rely sem guar p R s) (hf : ∀ a s', R a s' → Safe rely sem guar (f a) Q s') :
    Safe rely sem guar (p >>= f) Q s :=
  safe_bind.mpr (h.post hf)

/-- A program that is safe for every answer is safe when fewer answers are possible. -/
theorem Safe.mono_sem {p : Prog Op Ans α} {Q : α → σ → Prop} {s : σ}
    (h : Safe rely sem guar p Q s) (hs : ∀ s o a s', sem' s o a s' → sem s o a s') :
    Safe rely sem' guar p Q s := by
  induction p generalizing s with
  | ret a => exact h
  | call o k ih =>
      intro s₁ hr a s₂ hsem
      have hk := h s₁ hr a s₂ (hs s₁ o a s₂ hsem)
      exact ⟨hk.1, ih a hk.2⟩
  | panic _ => trivial

/-- With a transitive interference, being safe with no obligation at the end is stable under it. -/
theorem Safe.stable {p : Prog Op Ans α} {s s' : σ}
    (htrans : ∀ {a b c}, rely a b → rely b c → rely a c)
    (h : Safe rely sem guar p (fun _ _ => True) s) (hr : rely s s') :
    Safe rely sem guar p (fun _ _ => True) s' := by
  cases p with
  | ret a => trivial
  | call o k => exact fun s₁ hr₁ a s₂ hs => h s₁ (htrans hr hr₁) a s₂ hs
  | panic _ => trivial

end Safe

end Etos
