import Etos.Prog.Basic
import Mathlib.Logic.Function.Basic

/-!
# `Prog.System` — programs interleaved over a shared state

A `System` runs one program per process `i : ι` over a shared state `σ`. A step is one call of one process,
the start of a program, its end (it returned, panicked or was killed: nothing distinguishes the three for
the others), or a move of the environment. Between two calls of a process all others may move, so every
interleaving at the granularity of single calls is a run.

The one theorem, `Sound.reachable`, is the soundness of rely–guarantee reasoning: if every program is `Safe`
when it starts, and every guaranteed call keeps the invariant and is interference the *other* processes
accept, then in every reachable configuration the invariant holds and every program in flight is still
`Safe`. An invariant of the system is thus proved from the guarantees of the calls alone, without opening a
program again.
-/

namespace Etos

variable {Op : Type} {Ans : Op → Type} {σ ι : Type}

/-- Processes `ι` over the shared state `σ`. -/
structure System (Op : Type) (Ans : Op → Type) (σ ι : Type) where
  /-- Initial states. -/
  init : σ → Prop
  /-- `start i s p s'`: in state `s` the idle process `i` may start the program `p`. -/
  start : ι → σ → Prog Op Ans Unit → σ → Prop
  /-- What a call of process `i` does. -/
  sem : ι → Sem Op Ans σ
  /-- What happens without any of the processes. -/
  env : σ → σ → Prop

namespace System

/-- A shared state with the program each process still has to run. -/
structure Config (Op : Type) (Ans : Op → Type) (σ ι : Type) where
  state : σ
  pool : ι → Option (Prog Op Ans Unit)

variable [DecidableEq ι] (S : System Op Ans σ ι)

/-- One step of the system. -/
inductive Step : Config Op Ans σ ι → Config Op Ans σ ι → Prop where
  | start {s s' : σ} {pool} {i : ι} {p} (hidle : pool i = none) (h : S.start i s p s') :
      Step ⟨s, pool⟩ ⟨s', Function.update pool i (some p)⟩
  | call {s s' : σ} {pool} {i : ι} {o : Op} {k} {a : Ans o} (hi : pool i = some (.call o k))
      (h : S.sem i s o a s') : Step ⟨s, pool⟩ ⟨s', Function.update pool i (some (k a))⟩
  | stop {s : σ} {pool} {i : ι} : Step ⟨s, pool⟩ ⟨s, Function.update pool i none⟩
  | env {s s' : σ} {pool} (h : S.env s s') : Step ⟨s, pool⟩ ⟨s', pool⟩

/-- Finite runs. -/
inductive Steps : Config Op Ans σ ι → Config Op Ans σ ι → Prop where
  | refl {c} : Steps c c
  | tail {a b c} : Steps a b → S.Step b c → Steps a c

/-- Configurations reached from an initial state in which no process runs. -/
def Reachable (c : Config Op Ans σ ι) : Prop :=
  ∃ s, S.init s ∧ S.Steps ⟨s, fun _ => none⟩ c

/-- The same processes, where a call of `i` in state `s` is answered by `a` only if `cond` allows it: the
    runs all of whose steps meet `cond`. -/
def restrict (cond : ι → σ → (o : Op) → Ans o → Prop) : System Op Ans σ ι :=
  { S with sem := fun i s o a s' => S.sem i s o a s' ∧ cond i s o a }

variable {S}

theorem Steps.trans {a b c : Config Op Ans σ ι} (h₁ : S.Steps a b) (h₂ : S.Steps b c) :
    S.Steps a c := by
  induction h₂ with
  | refl => exact h₁
  | tail _ hs ih => exact .tail ih hs

theorem Steps.single {a b : Config Op Ans σ ι} (h : S.Step a b) : S.Steps a b := .tail .refl h

section Single

/-! ### A single process -/

variable {S : System Op Ans σ Unit} {s s' : σ}

theorem update_unit {α : Type} (f : Unit → α) (a : α) : Function.update f () a = fun _ => a :=
  funext fun _ => Function.update_self ..

theorem Step.single_start {p : Prog Op Ans Unit} (h : S.start () s p s') :
    S.Step ⟨s, fun _ => none⟩ ⟨s', fun _ => some p⟩ := by
  rw [← update_unit (fun _ => none) (some p)]
  exact .start rfl h

theorem Step.single_call {o : Op} {k : Ans o → Prog Op Ans Unit} {a : Ans o} (h : S.sem () s o a s') :
    S.Step ⟨s, fun _ => some (.call o k)⟩ ⟨s', fun _ => some (k a)⟩ := by
  rw [← update_unit (fun _ => some (.call o k)) (some (k a))]
  exact .call rfl h

theorem Step.single_stop {q : Option (Prog Op Ans Unit)} : S.Step ⟨s, fun _ => q⟩ ⟨s, fun _ => none⟩ := by
  rw [← update_unit (fun _ => q) none]
  exact .stop

end Single

/-- Fewer answers, fewer runs. -/
theorem Reachable.mono {S S' : System Op Ans σ ι} (hinit : ∀ s, S.init s → S'.init s)
    (hstart : ∀ i s p s', S.start i s p s' → S'.start i s p s')
    (hsem : ∀ i s o a s', S.sem i s o a s' → S'.sem i s o a s') (henv : ∀ s s', S.env s s' → S'.env s s')
    {c : Config Op Ans σ ι} (h : S.Reachable c) : S'.Reachable c := by
  obtain ⟨s, hs, hrun⟩ := h
  refine ⟨s, hinit s hs, ?_⟩
  induction hrun with
  | refl => exact .refl
  | tail _ hstep ih =>
      refine .tail ih ?_
      cases hstep with
      | start hidle h => exact .start hidle (hstart _ _ _ _ h)
      | call hi h => exact .call hi (hsem _ _ _ _ _ h)
      | stop => exact .stop
      | env h => exact .env (henv _ _ h)

/-- A run of the restricted system is a run. -/
theorem Reachable.of_restrict {cond : ι → σ → (o : Op) → Ans o → Prop} {c : Config Op Ans σ ι}
    (h : (S.restrict cond).Reachable c) : S.Reachable c := by
  refine Reachable.mono ?_ ?_ ?_ ?_ h
  · exact fun _ h => h
  · exact fun _ _ _ _ h => h
  · exact fun _ _ _ _ _ h => h.1
  · exact fun _ _ h => h

/-- A weaker condition leaves more runs. -/
theorem Reachable.weaken {cond cond' : ι → σ → (o : Op) → Ans o → Prop} {c : Config Op Ans σ ι}
    (h : (S.restrict cond).Reachable c) (hc : ∀ i s o a, cond i s o a → cond' i s o a) :
    (S.restrict cond').Reachable c := by
  refine Reachable.mono ?_ ?_ ?_ ?_ h
  · exact fun _ h => h
  · exact fun _ _ _ _ h => h
  · exact fun i s o a _ h => ⟨h.1, hc i s o a h.2⟩
  · exact fun _ _ h => h

/-- Every run meets the trivial condition. -/
theorem Reachable.restrict_true {c : Config Op Ans σ ι} (h : S.Reachable c) :
    (S.restrict (fun _ _ _ _ => True)).Reachable c := by
  refine Reachable.mono ?_ ?_ ?_ ?_ h
  · exact fun _ h => h
  · exact fun _ _ _ _ h => h
  · exact fun _ _ _ _ _ h => ⟨h, trivial⟩
  · exact fun _ _ h => h

/-- What holds in every state of the runs that meet `cond` may be used as a condition, too. -/
theorem Reachable.restrict_and {cond : ι → σ → (o : Op) → Ans o → Prop} {J : σ → Prop}
    (hJ : ∀ c, (S.restrict cond).Reachable c → J c.state) {c : Config Op Ans σ ι}
    (h : (S.restrict cond).Reachable c) :
    (S.restrict (fun i s o a => cond i s o a ∧ J s)).Reachable c := by
  obtain ⟨s, hs, hrun⟩ := h
  refine ⟨s, hs, ?_⟩
  induction hrun with
  | refl => exact .refl
  | @tail b c hprev hstep ih =>
      refine .tail ih ?_
      have hb : J b.state := hJ b ⟨s, hs, hprev⟩
      cases hstep with
      | start hidle h => exact .start hidle h
      | call hi h => exact .call hi ⟨h.1, h.2, hb⟩
      | stop => exact .stop
      | env h => exact .env h

/-- The obligations of rely–guarantee reasoning over `S`. -/
structure Sound (S : System Op Ans σ ι) (inv : σ → Prop) (rely : ι → σ → σ → Prop)
    (guar : ι → Sem Op Ans σ) : Prop where
  refl : ∀ {i s}, inv s → rely i s s
  trans : ∀ {i a b c}, rely i a b → rely i b c → rely i a c
  init : ∀ {s}, S.init s → inv s
  start : ∀ {i s p s'}, inv s → S.start i s p s' →
    inv s' ∧ Safe (rely i) (S.sem i) (guar i) p (fun _ _ => True) s' ∧ ∀ j, j ≠ i → rely j s s'
  call : ∀ {i s o a s'}, inv s → S.sem i s o a s' → guar i s o a s' →
    inv s' ∧ ∀ j, j ≠ i → rely j s s'
  env : ∀ {s s'}, inv s → S.env s s' → inv s' ∧ ∀ j, rely j s s'

variable {inv : σ → Prop} {rely : ι → σ → σ → Prop} {guar : ι → Sem Op Ans σ}

/-- Every program in flight is still safe. -/
def PoolSafe (S : System Op Ans σ ι) (rely : ι → σ → σ → Prop) (guar : ι → Sem Op Ans σ)
    (c : Config Op Ans σ ι) : Prop :=
  ∀ i p, c.pool i = some p → Safe (rely i) (S.sem i) (guar i) p (fun _ _ => True) c.state

/-- Interference the rest of the pool accepts keeps the rest of the pool safe; process `i` gets `q`. -/
theorem PoolSafe.update (hS : S.Sound inv rely guar) {s s' : σ} {pool} {i : ι} {q}
    (h : PoolSafe S rely guar ⟨s, pool⟩) (hr : ∀ j, j ≠ i → rely j s s')
    (hq : ∀ p, q = some p → Safe (rely i) (S.sem i) (guar i) p (fun _ _ => True) s') :
    PoolSafe S rely guar ⟨s', Function.update pool i q⟩ := by
  intro j p hp
  by_cases hj : j = i
  · subst hj
    exact hq p (by simpa using hp)
  · have hp' : pool j = some p := by simpa [Function.update_of_ne hj] using hp
    exact (h j p hp').stable hS.trans (hr j hj)

theorem Sound.step (hS : S.Sound inv rely guar) {c c' : Config Op Ans σ ι}
    (hinv : inv c.state) (hp : PoolSafe S rely guar c) (h : S.Step c c') :
    inv c'.state ∧ PoolSafe S rely guar c' := by
  cases h with
  | start hidle h =>
      obtain ⟨hi, hsafe, hr⟩ := hS.start hinv h
      refine ⟨hi, hp.update hS hr ?_⟩
      rintro p ⟨⟩
      exact hsafe
  | call hi h =>
      obtain ⟨hg, hk⟩ := hp _ _ hi _ (hS.refl hinv) _ _ h
      obtain ⟨hinv', hr⟩ := hS.call hinv h hg
      refine ⟨hinv', hp.update hS hr ?_⟩
      rintro p ⟨⟩
      exact hk
  | stop =>
      refine ⟨hinv, hp.update hS (fun j _ => hS.refl hinv) ?_⟩
      rintro p ⟨⟩
  | env h =>
      obtain ⟨hinv', hr⟩ := hS.env hinv h
      exact ⟨hinv', fun i p hi => (hp i p hi).stable hS.trans (hr i)⟩

/-- **Soundness.** In every reachable configuration the invariant holds and the pool is safe. -/
theorem Sound.reachable (hS : S.Sound inv rely guar) {c : Config Op Ans σ ι}
    (h : S.Reachable c) : inv c.state ∧ PoolSafe S rely guar c := by
  obtain ⟨s, hs, hrun⟩ := h
  induction hrun with
  | refl => exact ⟨hS.init hs, fun i p hp => by simp at hp⟩
  | tail _ hstep ih => exact hS.step ih.1 ih.2 hstep

end System

end Etos
