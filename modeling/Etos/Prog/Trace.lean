import Etos.Prog.Log
import Etos.Prog.Panic

/-!
# `Prog.Trace` — the calls of a finished run

`Returns p b log` says that `p` can return `b` after the calls of `log`, oldest first. It is closed under sequencing
(`returns_bind`), so the calls of a run are found part by part. `trace` runs a program against a function that answers
every call; what it finds is a run (`returns_of_trace`), and it finds one if the program does not panic on these
answers (`trace_of_guarded`). `After p log q` says that `q` is what is left of `p` after the calls of `log`.
-/

namespace Etos.Prog

variable {Op : Type} {Ans : Op → Type} {α β : Type}

/-- The program can return `b` after these calls. -/
def Returns : Prog Op Ans α → α → List (Said Op Ans) → Prop
  | .ret a, b, log => a = b ∧ log = []
  | .call o k, b, log => ∃ x rest, log = ⟨o, x⟩ :: rest ∧ Returns (k x) b rest
  | .panic _, _, _ => False

theorem returns_bind {p : Prog Op Ans α} {f : α → Prog Op Ans β} {b : β} {log : List (Said Op Ans)} :
    (p >>= f).Returns b log ↔ ∃ a l₁ l₂, log = l₁ ++ l₂ ∧ p.Returns a l₁ ∧ (f a).Returns b l₂ := by
  induction p generalizing log with
  | ret a =>
      constructor
      · exact fun h => ⟨a, [], log, rfl, ⟨rfl, rfl⟩, h⟩
      · rintro ⟨_, l₁, l₂, rfl, ⟨rfl, rfl⟩, h⟩
        exact h
  | call o k ih =>
      constructor
      · rintro ⟨x, rest, rfl, h⟩
        obtain ⟨a, l₁, l₂, rfl, ha, hb⟩ := (ih x).mp h
        exact ⟨a, ⟨o, x⟩ :: l₁, l₂, rfl, ⟨x, l₁, rfl, ha⟩, hb⟩
      · rintro ⟨a, _, l₂, rfl, ⟨x, l₁, rfl, ha⟩, hb⟩
        exact ⟨x, l₁ ++ l₂, rfl, (ih x).mpr ⟨a, l₁, l₂, rfl, ha, hb⟩⟩
  | panic _ =>
      constructor
      · exact fun h => h.elim
      · rintro ⟨_, _, _, _, h, _⟩
        exact h.elim

/-- The calls of a run are calls of the program. -/
theorem Returns.calls {P : Op → Prop} {p : Prog Op Ans α} {b : α} {log : List (Said Op Ans)} (h : p.Returns b log)
    (hp : p.Calls P) : ∀ e ∈ log, P e.op := by
  induction p generalizing log with
  | ret a =>
      obtain ⟨-, rfl⟩ := h
      exact nofun
  | call o k ih =>
      obtain ⟨x, rest, rfl, h⟩ := h
      intro e he
      rcases List.mem_cons.mp he with rfl | he
      · exact hp.1
      · exact ih x h (hp.2 x) e he
  | panic _ => exact h.elim

/-- The run in which every call is answered by a function, if it returns. -/
def trace (answer : (o : Op) → Ans o) : Prog Op Ans α → Option (α × List (Said Op Ans))
  | .ret a => some (a, [])
  | .call o k => (trace answer (k (answer o))).map fun out => (out.1, ⟨o, answer o⟩ :: out.2)
  | .panic _ => none

theorem returns_of_trace {answer : (o : Op) → Ans o} {p : Prog Op Ans α} {out : α × List (Said Op Ans)}
    (h : trace answer p = some out) : p.Returns out.1 out.2 := by
  induction p generalizing out with
  | ret a =>
      obtain rfl := Option.some.inj h
      exact ⟨rfl, rfl⟩
  | call o k ih =>
      obtain ⟨out', hout', rfl⟩ := Option.map_eq_some_iff.mp h
      exact ⟨answer o, out'.2, rfl, ih _ hout'⟩
  | panic _ => cases h

theorem trace_of_guarded {allowed : (o : Op) → Ans o → Prop} {P : Op → Prop} {answer : (o : Op) → Ans o}
    {p : Prog Op Ans α} {Q : α → Prop} (h : p.Guarded allowed P (fun _ => True) Q) (ha : ∀ o, allowed o (answer o)) :
    ∃ out, trace answer p = some out ∧ Q out.1 := by
  induction p with
  | ret a => exact ⟨(a, []), rfl, h⟩
  | call o k ih =>
      obtain ⟨out, hout, hq⟩ := ih (answer o) (h.2 _ (ha o))
      exact ⟨(out.1, ⟨o, answer o⟩ :: out.2), by rw [trace, hout]; rfl, hq⟩
  | panic _ => exact (h trivial).elim

theorem call_ne_ret {o : Op} {k : Ans o → Prog Op Ans α} {a : α} : Prog.call o k ≠ .ret a := nofun

theorem panic_ne_ret {message : String} {a : α} : (Prog.panic message : Prog Op Ans α) ≠ .ret a := nofun

/-- What is left of the program after these calls. -/
def After : Prog Op Ans α → List (Said Op Ans) → Prog Op Ans α → Prop
  | p, [], q => p = q
  | .call o k, e :: log, q => ∃ x, e = ⟨o, x⟩ ∧ After (k x) log q
  | _, _ :: _, _ => False

theorem after_nil {p q : Prog Op Ans α} : p.After [] q ↔ p = q := by
  cases p <;> exact Iff.rfl

/-- A run goes on with what is left. -/
theorem After.returns_iff {p q : Prog Op Ans α} {b : α} {l₁ l₂ : List (Said Op Ans)} (h : p.After l₁ q) :
    p.Returns b (l₁ ++ l₂) ↔ q.Returns b l₂ := by
  induction l₁ generalizing p with
  | nil =>
      rw [after_nil.mp h]
      rfl
  | cons e l₁ ih =>
      cases p with
      | ret | panic => exact h.elim
      | call o k =>
          obtain ⟨x, rfl, h⟩ := h
          rw [← ih h]
          constructor
          · rintro ⟨x', rest, heq, hrest⟩
            cases heq
            exact hrest
          · exact fun hrest => ⟨x, _, rfl, hrest⟩

/-- What is left of what is left. -/
theorem After.append_iff {p q r : Prog Op Ans α} {l₁ l₂ : List (Said Op Ans)} (h : p.After l₁ q) :
    p.After (l₁ ++ l₂) r ↔ q.After l₂ r := by
  induction l₁ generalizing p with
  | nil =>
      rw [after_nil.mp h]
      rfl
  | cons e l₁ ih =>
      cases p with
      | ret | panic => exact h.elim
      | call o k =>
          obtain ⟨x, rfl, h⟩ := h
          rw [← ih h]
          constructor
          · rintro ⟨x', heq, hrest⟩
            cases heq
            exact hrest
          · exact fun hrest => ⟨x, rfl, hrest⟩

/-- After a finished run the result is left. -/
theorem Returns.after {p : Prog Op Ans α} {b : α} {log : List (Said Op Ans)} (h : p.Returns b log) :
    p.After log (.ret b) := by
  induction p generalizing log with
  | ret a =>
      obtain ⟨rfl, rfl⟩ := h
      exact after_nil.mpr rfl
  | call o k ih =>
      obtain ⟨x, rest, rfl, h⟩ := h
      exact ⟨x, rfl, ih x h⟩
  | panic _ => exact h.elim

/-- A sequence has got into its first part, or past it. -/
theorem after_bind {p : Prog Op Ans α} {f : α → Prog Op Ans β} {q : Prog Op Ans β} {log : List (Said Op Ans)}
    (h : (p >>= f).After log q) :
    (∃ q', p.After log q' ∧ ∀ b, q ≠ .ret b) ∨ ∃ a l₁ l₂, log = l₁ ++ l₂ ∧ p.Returns a l₁ ∧ (f a).After l₂ q := by
  induction p generalizing log with
  | ret a => exact .inr ⟨a, [], log, rfl, ⟨rfl, rfl⟩, h⟩
  | call o k ih =>
      cases log with
      | nil =>
          obtain rfl := after_nil.mp h
          exact .inl ⟨_, after_nil.mpr rfl, nofun⟩
      | cons e log =>
          obtain ⟨x, rfl, h⟩ := h
          rcases ih x h with ⟨q', hq, hne⟩ | ⟨a, l₁, l₂, rfl, ha, hrest⟩
          · exact .inl ⟨q', ⟨x, rfl, hq⟩, hne⟩
          · exact .inr ⟨a, ⟨o, x⟩ :: l₁, l₂, rfl, ⟨x, l₁, rfl, ha⟩, hrest⟩
  | panic message =>
      cases log with
      | nil =>
          obtain rfl := after_nil.mp h
          exact .inl ⟨_, after_nil.mpr rfl, nofun⟩
      | cons e log => exact h.elim

/-- A program without panics does not end in one. -/
theorem Guarded.not_after_panic {P : Op → Prop} {Q : α → Prop} {p : Prog Op Ans α}
    (h : p.Guarded (fun _ _ => True) P (fun _ => True) Q) (log : List (Said Op Ans)) (message : String) :
    ¬ p.After log (.panic message) := by
  induction log generalizing p with
  | nil =>
      rw [after_nil]
      rintro rfl
      exact h trivial
  | cons e log ih =>
      cases p with
      | ret | panic => exact id
      | call o k =>
          rintro ⟨x, rfl, hafter⟩
          exact ih (h.2 x trivial) hafter

end Etos.Prog
