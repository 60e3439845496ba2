import Etos.Prog.System

/-!
# `Prog.Log` — programs whose next call depends on what they have heard

A program that keeps its state in local variables knows exactly the calls it has made and their answers: its
*log*. `Follows possible ok p Q l` says that with the log `l` behind it, every call of `p` is one that `ok` permits
after the log at that point, whatever possible answers it gets, and that `p` returns with a log in `Q`. The
judgement is about the program alone: no shared state occurs in it.

When the processes of a system keep such logs (`Logged`), an invariant of the system only has to be checked
against permitted calls (`Logged.invariant`). What one process does is thus described once, in terms of its own
log, and every property of the whole is proved from these descriptions.
-/

namespace Etos

/-- A call that was made, and its answer. -/
structure Said (Op : Type) (Ans : Op → Type) where
  op : Op
  ans : Ans op

variable {Op : Type} {Ans : Op → Type} {α β σ ι : Type}

/-- Every call is permitted by the log so far; newest first. -/
def Follows (possible : (o : Op) → Ans o → Prop) (ok : List (Said Op Ans) → Op → Prop) (p : Prog Op Ans α)
    (Q : α → List (Said Op Ans) → Prop) (l : List (Said Op Ans)) : Prop :=
  Safe Eq (fun l o a l' => possible o a ∧ l' = ⟨o, a⟩ :: l) (fun l o _ _ => ok l o) p Q l

section Rules

variable {possible : (o : Op) → Ans o → Prop} {ok ok' : List (Said Op Ans) → Op → Prop}
  {Q Q' : α → List (Said Op Ans) → Prop} {l : List (Said Op Ans)}

/-- The rule for a call. -/
theorem Follows.call {o : Op} {k : Ans o → Prog Op Ans α} (hok : ok l o)
    (h : ∀ a, possible o a → Follows possible ok (k a) Q (⟨o, a⟩ :: l)) :
    Follows possible ok (.call o k) Q l := by
  rintro _ rfl a _ ⟨hp, rfl⟩
  exact ⟨hok, h a hp⟩

/-- Sequencing through an assertion on the result and the log. -/
theorem Follows.bind {p : Prog Op Ans α} {f : α → Prog Op Ans β} {R : β → List (Said Op Ans) → Prop}
    (h : Follows possible ok p Q l) (hf : ∀ a l', Q a l' → Follows possible ok (f a) R l') :
    Follows possible ok (p >>= f) R l := Safe.bind h hf

theorem Follows.post {p : Prog Op Ans α} (h : Follows possible ok p Q l)
    (hQ : ∀ a l', Q a l' → Q' a l') : Follows possible ok p Q' l := Safe.post h hQ

/-- Fewer answers, fewer calls. -/
theorem Follows.mono_possible {possible' : (o : Op) → Ans o → Prop} {p : Prog Op Ans α}
    (h : Follows possible ok p Q l) (hp : ∀ o a, possible' o a → possible o a) : Follows possible' ok p Q l :=
  Safe.mono_sem h fun _ o a _ hs => ⟨hp o a hs.1, hs.2⟩

/-- Weaken what is permitted. -/
theorem Follows.mono {p : Prog Op Ans α} (h : Follows possible ok p Q l) (hok : ∀ l o, ok l o → ok' l o) :
    Follows possible ok' p Q l :=
  Safe.mono h (fun l o _ _ ho => hok l o ho) (fun _ _ hQ => hQ)

/-- What two judgements say about a program, together. -/
theorem Follows.and {p : Prog Op Ans α} (h : Follows possible ok p Q l) (h' : Follows possible ok' p Q' l) :
    Follows possible (fun l o => ok l o ∧ ok' l o) p (fun a l => Q a l ∧ Q' a l) l := by
  induction p generalizing l with
  | ret a => exact ⟨h, h'⟩
  | panic _ => trivial
  | call o k ih =>
      rintro _ rfl a _ ⟨hp, rfl⟩
      obtain ⟨hok, hk⟩ := h l rfl a (⟨o, a⟩ :: l) ⟨hp, rfl⟩
      obtain ⟨hok', hk'⟩ := h' l rfl a (⟨o, a⟩ :: l) ⟨hp, rfl⟩
      exact ⟨⟨hok, hok'⟩, ih a hk hk'⟩

/-- A program all of whose calls are permitted and keep an assertion. -/
theorem Follows.calls {p : Prog Op Ans α} {P : Op → Prop} {J : List (Said Op Ans) → Prop} (hp : p.Calls P)
    (hJ : ∀ l o, P o → J l → ok l o ∧ ∀ a, possible o a → J (⟨o, a⟩ :: l)) (h : J l) :
    Follows possible ok p (fun _ => J) l := by
  induction p generalizing l with
  | ret a => exact h
  | panic _ => trivial
  | call o k ih =>
      obtain ⟨hok, hnext⟩ := hJ l o hp.1 h
      exact .call hok fun a ha => ih a (hp.2 a) (hnext a ha)

end Rules

/-! ## Logs that grow -/

/-- No call in the log is a `P`. -/
def Never (P : Op → Prop) (l : List (Said Op Ans)) : Prop := ∀ e ∈ l, ¬ P e.op

/-- The log has grown from `l` to `l'` by calls that are all `P`. -/
def Grown (P : Op → Prop) (l l' : List (Said Op Ans)) : Prop := ∃ es, l' = es ++ l ∧ ∀ e ∈ es, P e.op

section Grown

variable {P P' : Op → Prop} {l l₁ l₂ : List (Said Op Ans)}

theorem Never.nil : Never P ([] : List (Said Op Ans)) := fun _ he => (nomatch he)

theorem Never.cons {e : Said Op Ans} (h : Never P l) (he : ¬ P e.op) : Never P (e :: l) := by
  intro e' he'
  rcases List.mem_cons.mp he' with rfl | he'
  · exact he
  · exact h e' he'

theorem Grown.refl : Grown P l l := ⟨[], rfl, fun _ he => (nomatch he)⟩

theorem Grown.cons {e : Said Op Ans} (h : Grown P l l₁) (he : P e.op) : Grown P l (e :: l₁) := by
  obtain ⟨es, rfl, hes⟩ := h
  refine ⟨e :: es, rfl, fun e' he' => ?_⟩
  rcases List.mem_cons.mp he' with rfl | he'
  · exact he
  · exact hes e' he'

theorem Grown.trans (h₁ : Grown P l l₁) (h₂ : Grown P l₁ l₂) : Grown P l l₂ := by
  obtain ⟨es, rfl, hes⟩ := h₁
  obtain ⟨es', rfl, hes'⟩ := h₂
  refine ⟨es' ++ es, (List.append_assoc ..).symm, fun e he => ?_⟩
  rcases List.mem_append.mp he with he | he
  · exact hes' e he
  · exact hes e he

theorem Grown.mono (h : Grown P l l₁) (hP : ∀ o, P o → P' o) : Grown P' l l₁ := by
  obtain ⟨es, rfl, hes⟩ := h
  exact ⟨es, rfl, fun e he => hP e.op (hes e he)⟩

/-- Nothing is forgotten. -/
theorem Grown.mem (h : Grown P l l₁) {e : Said Op Ans} (he : e ∈ l) : e ∈ l₁ := by
  obtain ⟨es, rfl, _⟩ := h
  exact List.mem_append_right _ he

theorem Grown.never (h : Grown P l l₁) (hP : ∀ o, P o → ¬ P' o) (hn : Never P' l) : Never P' l₁ := by
  obtain ⟨es, rfl, hes⟩ := h
  intro e he
  rcases List.mem_append.mp he with he | he
  · exact hP e.op (hes e he)
  · exact hn e he

/-- A program all of whose calls are permitted whatever the log. -/
theorem Follows.grows {possible : (o : Op) → Ans o → Prop} {ok : List (Said Op Ans) → Op → Prop}
    {p : Prog Op Ans α} (hp : p.Calls P) (hok : ∀ l o, P o → ok l o) :
    Follows possible ok p (fun _ => Grown P l) l :=
  Follows.calls hp (fun l' o ho hl => ⟨hok l' o ho, fun _ _ => hl.cons ho⟩) .refl

end Grown

/-! ## Systems of processes with logs -/

/-- Each process of the system keeps a log: a call is added to the log of its process, a start empties it. -/
structure Logged (S : System Op Ans σ ι) (log : ι → σ → List (Said Op Ans))
    (possible : (o : Op) → Ans o → Prop) : Prop where
  call : ∀ {i s o a s'}, S.sem i s o a s' →
    possible o a ∧ log i s' = ⟨o, a⟩ :: log i s ∧ ∀ j, j ≠ i → log j s' = log j s
  start : ∀ {i s p s'}, S.start i s p s' → log i s' = [] ∧ ∀ j, j ≠ i → log j s' = log j s
  env : ∀ {s s'}, S.env s s' → ∀ j, log j s' = log j s

variable [DecidableEq ι] {S : System Op Ans σ ι} {log : ι → σ → List (Said Op Ans)}
  {possible : (o : Op) → Ans o → Prop} {ok : ι → List (Said Op Ans) → Op → Prop}

omit [DecidableEq ι] in
/-- A program that follows its log is safe among processes that leave its log alone. -/
theorem Follows.lift (hL : Logged S log possible) {i : ι} {p : Prog Op Ans α}
    {Q : α → List (Said Op Ans) → Prop} {s : σ} (h : Follows possible (ok i) p Q (log i s)) :
    Safe (fun s s' => log i s' = log i s) (S.sem i) (fun s o _ _ => ok i (log i s) o) p
      (fun _ _ => True) s := by
  induction p generalizing s with
  | ret a => trivial
  | panic _ => trivial
  | call o k ih =>
      intro s₁ hr a s₂ hs
      obtain ⟨hp, hlog, _⟩ := hL.call hs
      obtain ⟨hok, hk⟩ := h (log i s) rfl a (⟨o, a⟩ :: log i s) ⟨hp, rfl⟩
      rw [← hr] at hok hk
      refine ⟨hok, ih a ?_⟩
      rw [hlog]
      exact hk

/-- **The invariant rule for logged processes.** -/
theorem Logged.invariant {I : σ → Prop} (hL : Logged S log possible)
    (hprog : ∀ i s p s', S.start i s p s' → Follows possible (ok i) p (fun _ _ => True) [])
    (hinit : ∀ s, S.init s → I s)
    (hstart : ∀ i s p s', I s → S.start i s p s' → I s')
    (hcall : ∀ i s o a s', I s → ok i (log i s) o → S.sem i s o a s' → I s')
    (henv : ∀ s s', I s → S.env s s' → I s')
    {c : System.Config Op Ans σ ι} (h : S.Reachable c) : I c.state := by
  have hS : S.Sound I (fun i s s' => log i s' = log i s) (fun i s o _ _ => ok i (log i s) o) := by
    refine ⟨fun _ => rfl, fun h₁ h₂ => h₂.trans h₁, hinit _, ?_, ?_, ?_⟩
    · intro i s p s' hI hs
      obtain ⟨hnil, hothers⟩ := hL.start hs
      refine ⟨hstart i s p s' hI hs, ?_, hothers⟩
      have hp := hprog i s p s' hs
      rw [← hnil] at hp
      exact hp.lift hL
    · intro i s o a s' hI hs hok
      exact ⟨hcall i s o a s' hI hok hs, (hL.call hs).2.2⟩
    · intro s s' hI hs
      exact ⟨henv s s' hI hs, hL.env hs⟩
  exact (hS.reachable h).1

end Etos
