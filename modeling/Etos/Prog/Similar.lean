import Etos.Prog.Basic

/-!
# `Prog.Similar` — two programs in step

Two programs are `Similar` if they make matching calls as long as they hear matching answers, and return related
results. A `Matching` says which calls match, and which answers to them do; *silent* calls, such as readings of a clock,
are made by each program on its own. The rules follow the syntax of the programs (`Similar.bind`).

`Twins` runs two programs side by side, round after round, over a state that their calls change together. In every
reachable configuration the two are in step (**`Twins.in_step`**): neither makes a call that the other does not match.
-/

namespace Etos

variable {Op : Type} {Ans : Op → Type} {α α' β β' σ : Type}

/-- Which calls match, and which answers to them. -/
abbrev Matching (Op : Type) (Ans : Op → Type) : Type := (o o' : Op) → (Ans o → Ans o' → Prop) → Prop

/-- Matching calls are not silent. -/
def Matching.Loud (m : Matching Op Ans) (silent : Op → Prop) : Prop := ∀ o o' A, m o o' A → ¬ silent o ∧ ¬ silent o'

/-- The programs make matching calls, and return `Q`-related results. -/
inductive Similar (m : Matching Op Ans) (silent : Op → Prop) (Q : α → α' → Prop) :
    Prog Op Ans α → Prog Op Ans α' → Prop where
  | ret {a a'} (h : Q a a') : Similar m silent Q (.ret a) (.ret a')
  | call {o o' A k k'} (hm : m o o' A) (h : ∀ a a', A a a' → Similar m silent Q (k a) (k' a')) :
      Similar m silent Q (.call o k) (.call o' k')
  | left {o k p'} (hs : silent o) (h : ∀ a, Similar m silent Q (k a) p') : Similar m silent Q (.call o k) p'
  | right {p o' k'} (hs : silent o') (h : ∀ a, Similar m silent Q p (k' a)) : Similar m silent Q p (.call o' k')

/-- What the programs do next: matching calls, or the end. Neither panics. -/
def Prog.InStep (m : Matching Op Ans) (silent : Op → Prop) (Q : α → α' → Prop) :
    Prog Op Ans α → Prog Op Ans α' → Prop
  | .call o _, .call o' _ => silent o ∨ silent o' ∨ ∃ A, m o o' A
  | .call o _, .ret _ => silent o
  | .ret _, .call o' _ => silent o'
  | .ret a, .ret a' => Q a a'
  | .panic _, _ => False
  | _, .panic _ => False

theorem Prog.not_inStep_panic {m : Matching Op Ans} {silent : Op → Prop} {Q : α → α' → Prop} (p : Prog Op Ans α)
    (message : String) : ¬ p.InStep m silent Q (.panic message) := by
  cases p <;> exact id

namespace Similar

variable {m : Matching Op Ans} {silent : Op → Prop} {Q : α → α' → Prop}

/-- Sequencing. -/
theorem bind {R : β → β' → Prop} {p : Prog Op Ans α} {p' : Prog Op Ans α'} {f : α → Prog Op Ans β}
    {f' : α' → Prog Op Ans β'} (h : Similar m silent Q p p')
    (hf : ∀ a a', Q a a' → Similar m silent R (f a) (f' a')) : Similar m silent R (p >>= f) (p' >>= f') := by
  induction h with
  | ret h => exact hf _ _ h
  | call hm _ ih => exact .call hm ih
  | left hs _ ih => exact .left hs ih
  | right hs _ ih => exact .right hs ih

theorem inStep (hans : ∀ o, silent o → Nonempty (Ans o)) {p : Prog Op Ans α} {p' : Prog Op Ans α'}
    (h : Similar m silent Q p p') : p.InStep m silent Q p' := by
  induction h with
  | ret h => exact h
  | call hm => exact .inr (.inr ⟨_, hm⟩)
  | @left o k p' hs _ ih =>
      cases p' with
      | ret => exact hs
      | call => exact .inl hs
      | panic message =>
          -- the panic would have to match what follows the silent call
          obtain ⟨a⟩ := hans o hs
          exact (Prog.not_inStep_panic (k a) message (ih a)).elim
  | @right p o' k' hs _ ih =>
      cases p with
      | ret => exact hs
      | call => exact .inr (.inl hs)
      | panic =>
          obtain ⟨a⟩ := hans o' hs
          exact (ih a).elim

/-- After silent calls only, the program is an `R`. -/
inductive Settles (silent : Op → Prop) (R : Prog Op Ans α → Prop) : Prog Op Ans α → Prop where
  | done {p} (h : R p) : Settles silent R p
  | silent {o k} (hs : silent o) (h : ∀ a, Settles silent R (k a)) : Settles silent R (.call o k)

/-- Programs are similar if they settle on similar programs. -/
theorem of_settles {R : Prog Op Ans α → Prop} {R' : Prog Op Ans α' → Prop} {p : Prog Op Ans α} {p' : Prog Op Ans α'}
    (hp : Settles silent R p) (hp' : Settles silent R' p') (h : ∀ q q', R q → R' q' → Similar m silent Q q q') :
    Similar m silent Q p p' := by
  induction hp with
  | silent hs _ ih => exact .left hs ih
  | done hq =>
      induction hp' with
      | silent hs _ ih => exact .right hs ih
      | done hq' => exact h _ _ hq hq'

/-! ## One step of the programs -/

/-- Similar programs stay similar after a silent call of the left one. -/
theorem next_left (hloud : m.Loud silent) {o : Op} {k : Ans o → Prog Op Ans α} {p' : Prog Op Ans α'} (hs : silent o)
    (h : Similar m silent Q (.call o k) p') (a : Ans o) : Similar m silent Q (k a) p' := by
  generalize hp : Prog.call o k = p at h
  induction h with
  | ret => cases hp
  | call hm =>
      cases hp
      exact absurd hs (hloud _ _ _ hm).1
  | left _ h =>
      cases hp
      exact h a
  | right hs' _ ih => exact .right hs' fun a' => ih a' hp

theorem next_right (hloud : m.Loud silent) {o : Op} {k : Ans o → Prog Op Ans α'} {p : Prog Op Ans α} (hs : silent o)
    (h : Similar m silent Q p (.call o k)) (a : Ans o) : Similar m silent Q p (k a) := by
  generalize hp : Prog.call o k = p' at h
  induction h with
  | ret => cases hp
  | call hm =>
      cases hp
      exact absurd hs (hloud _ _ _ hm).2
  | left hs' _ ih => exact .left hs' fun a' => ih a' hp
  | right _ h =>
      cases hp
      exact h a

/-- Two calls that are not silent match. -/
theorem next_both {o o' : Op} {k : Ans o → Prog Op Ans α} {k' : Ans o' → Prog Op Ans α'} (hs : ¬ silent o)
    (hs' : ¬ silent o') (h : Similar m silent Q (.call o k) (.call o' k')) :
    ∃ A, m o o' A ∧ ∀ a a', A a a' → Similar m silent Q (k a) (k' a') := by
  cases h with
  | call hm h => exact ⟨_, hm, h⟩
  | left hs₁ => exact absurd hs₁ hs
  | right hs₁ => exact absurd hs₁ hs'

end Similar

/-! ## Side by side -/

/-- Two programs over a common state. -/
structure Twins (Op : Type) (Ans : Op → Type) (σ α : Type) where
  /-- Initial states. -/
  init : σ → Prop
  /-- The programs that a round runs. -/
  left : Prog Op Ans α
  right : Prog Op Ans α
  silent : Op → Prop
  /-- `joint s o o' a a' s'`: in state `s` the calls are answered by `a` and `a'`, leaving the state `s'`. -/
  joint : σ → (o o' : Op) → Ans o → Ans o' → σ → Prop
  /-- What happens without the programs. -/
  env : σ → σ → Prop

namespace Twins

/-- The common state, and what the two programs still have to run. -/
structure Config (Op : Type) (Ans : Op → Type) (σ α : Type) where
  state : σ
  round : Option (Prog Op Ans α × Prog Op Ans α)

variable (T : Twins Op Ans σ α)

/-- One step. Silent calls are made one by one, all others by both programs at once. -/
inductive Step : Config Op Ans σ α → Config Op Ans σ α → Prop where
  | start {s} : Step ⟨s, none⟩ ⟨s, some (T.left, T.right)⟩
  | left {s o k p'} (hs : T.silent o) (a : Ans o) : Step ⟨s, some (.call o k, p')⟩ ⟨s, some (k a, p')⟩
  | right {s p o k} (hs : T.silent o) (a : Ans o) : Step ⟨s, some (p, .call o k)⟩ ⟨s, some (p, k a)⟩
  | both {s s' o o' k k' a a'} (hs : ¬ T.silent o) (hs' : ¬ T.silent o') (h : T.joint s o o' a a' s') :
      Step ⟨s, some (.call o k, .call o' k')⟩ ⟨s', some (k a, k' a')⟩
  /-- Both have returned, or were killed. -/
  | stop {s round} : Step ⟨s, round⟩ ⟨s, none⟩
  | env {s s' round} (h : T.env s s') : Step ⟨s, round⟩ ⟨s', round⟩

/-- The configurations of all runs. -/
inductive Reachable : Config Op Ans σ α → Prop where
  | init {s} (h : T.init s) : Reachable ⟨s, none⟩
  | step {c c'} (h : Reachable c) (hstep : T.Step c c') : Reachable c'

variable {T}

/-- **The two are in step.** If the programs of a round are similar, and the answers that the state gives to matching
    calls match and keep an invariant of it, the invariant holds throughout, and in no configuration one of the programs
    does what the other does not match. -/
theorem in_step {m : Matching Op Ans} (hloud : m.Loud T.silent) (hans : ∀ o, T.silent o → Nonempty (Ans o))
    {Q : α → α → Prop} {I : σ → Prop} (hsim : Similar m T.silent Q T.left T.right) (hinit : ∀ s, T.init s → I s)
    (henv : ∀ s s', I s → T.env s s' → I s')
    (hjoint : ∀ s o o' A a a' s', I s → m o o' A → T.joint s o o' a a' s' → A a a' ∧ I s')
    {c : Config Op Ans σ α} (h : T.Reachable c) :
    I c.state ∧ ∀ p p', c.round = some (p, p') → p.InStep m T.silent Q p' := by
  -- the programs in flight stay similar
  suffices hinv : I c.state ∧ ∀ p p', c.round = some (p, p') → Similar m T.silent Q p p' from
    ⟨hinv.1, fun p p' hp => (hinv.2 p p' hp).inStep hans⟩
  induction h with
  | init h => exact ⟨hinit _ h, nofun⟩
  | step _ hstep ih =>
      obtain ⟨hI, hround⟩ := ih
      cases hstep with
      | start =>
          refine ⟨hI, ?_⟩
          rintro _ _ ⟨⟩
          exact hsim
      | left hs a =>
          refine ⟨hI, ?_⟩
          rintro _ _ ⟨⟩
          exact (hround _ _ rfl).next_left hloud hs a
      | right hs a =>
          refine ⟨hI, ?_⟩
          rintro _ _ ⟨⟩
          exact (hround _ _ rfl).next_right hloud hs a
      | both hs hs' hj =>
          obtain ⟨A, hm, hnext⟩ := (hround _ _ rfl).next_both hs hs'
          obtain ⟨hA, hI'⟩ := hjoint _ _ _ _ _ _ _ hI hm hj
          refine ⟨hI', ?_⟩
          rintro _ _ ⟨⟩
          exact hnext _ _ hA
      | stop => exact ⟨hI, nofun⟩
      | env h => exact ⟨henv _ _ hI h, hround⟩

end Twins

end Etos
