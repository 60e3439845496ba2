import Etos.Prog.Trace

/-!
# `Prog.Embed` — programs as parts of larger ones

A program over a small set of calls is run where more calls are possible: `embed` renames its calls. What a program has
*shown* when it returns is a property of its log (`Shows`): if it does not end in an error, its result and the calls
that were made say so. `Shows` speaks about a part alone, and survives embedding and whatever is done before and after
the part, provided that the property lasts (`Lasting`): more calls do not take it back.
-/

namespace Etos

variable {Op Op' : Type} {Ans : Op → Type} {Ans' : Op' → Type} {α β ε : Type}

/-! ## Embedding -/

/-- The calls of a small set, as calls of a large one. -/
structure Embedding (Op : Type) (Ans : Op → Type) (Op' : Type) (Ans' : Op' → Type) where
  op : Op → Op'
  ans : (o : Op) → Ans' (op o) → Ans o

/-- The program with its calls renamed. -/
def Prog.embed (i : Embedding Op Ans Op' Ans') : Prog Op Ans α → Prog Op' Ans' α
  | .ret a => .ret a
  | .call o k => .call (i.op o) fun a => (k (i.ans o a)).embed i
  | .panic message => .panic message

variable {i : Embedding Op Ans Op' Ans'}

/-- Every call is a renamed one. -/
theorem Prog.embed_calls (p : Prog Op Ans α) : (p.embed i).Calls fun o' => ∃ o, o' = i.op o := by
  induction p with
  | ret _ => trivial
  | call o k ih => exact ⟨⟨o, rfl⟩, fun a => ih (i.ans o a)⟩
  | panic _ => trivial

/-- What was said in the small is to be found in the large. -/
def Embeds (i : Embedding Op Ans Op' Ans') (l : List (Said Op Ans)) (l' : List (Said Op' Ans')) : Prop :=
  ∀ e ∈ l, ∃ a, ⟨i.op e.op, a⟩ ∈ l' ∧ i.ans e.op a = e.ans

theorem Embeds.mem {l : List (Said Op Ans)} {l' : List (Said Op' Ans')} (h : Embeds i l l') {o : Op} {a : Ans o}
    (hsaid : ⟨o, a⟩ ∈ l) : ∃ a', ⟨i.op o, a'⟩ ∈ l' ∧ i.ans o a' = a := h _ hsaid

/-! ## What a program has shown -/

/-- More calls do not take it back. -/
def Lasting (J : List (Said Op Ans) → Prop) : Prop := ∀ l e, J l → J (e :: l)

theorem Prog.calls_any (p : Prog Op Ans α) : p.Calls fun _ => True := by
  induction p with
  | ret _ => trivial
  | call o k ih => exact ⟨trivial, ih⟩
  | panic _ => trivial

/-- What lasts holds after any program, if it holds before. -/
theorem Lasting.follows {J : List (Said Op Ans) → Prop} (hJ : Lasting J) (p : Prog Op Ans α)
    {l : List (Said Op Ans)} (h : J l) : Follows (fun _ _ => True) (fun _ _ => True) p (fun _ => J) l :=
  Follows.calls p.calls_any (fun l o _ hl => ⟨trivial, fun a _ => hJ l ⟨o, a⟩ hl⟩) h

/-- If the program returns a result, the result and the calls that were made are as in `E`. -/
def Shows (p : ExceptT ε (Prog Op Ans) α) (E : α → List (Said Op Ans) → Prop) : Prop :=
  ∀ l, Follows (fun _ _ => True) (fun _ _ => True) p.run (fun r l' => ∀ a, r = .ok a → E a l') l

section Rules

variable {p : ExceptT ε (Prog Op Ans) α} {f : α → ExceptT ε (Prog Op Ans) β} {E : α → List (Said Op Ans) → Prop}
  {F : β → List (Said Op Ans) → Prop}

theorem shows_pure {a : α} (h : ∀ l, E a l) : Shows (pure a : ExceptT ε (Prog Op Ans) α) E := by
  rintro l _ ⟨⟩
  exact h l

theorem shows_throw (e : ε) : Shows (throw e : ExceptT ε (Prog Op Ans) α) E := by
  rintro l _ ⟨⟩

theorem shows_lift {q : Prog Op Ans α} (h : ∀ l, Follows (fun _ _ => True) (fun _ _ => True) q E l) :
    Shows (ExceptT.lift q : ExceptT ε (Prog Op Ans) α) E := by
  intro l
  refine (h l).bind ?_
  rintro a l' hE b ⟨⟩
  exact hE

/-- The first part shows something that lasts, the second something about its result. -/
theorem Shows.bind (h : Shows p E) (hE : ∀ a, Lasting (E a)) {G : α → β → List (Said Op Ans) → Prop}
    (hf : ∀ a, Shows (f a) (G a)) : Shows (p >>= f) fun b l => ∃ a, E a l ∧ G a b l := by
  intro l
  rw [ExceptT.run_bind]
  refine (h l).bind ?_
  intro r l' hr
  cases r with
  | error e =>
      rintro _ ⟨⟩
  | ok a =>
      have hkept := (hE a).follows (f a).run (hr a rfl)
      refine ((hkept.and (hf a l')).post ?_).mono fun _ _ _ => trivial
      rintro r' l'' ⟨hEa, hG⟩ b rfl
      exact ⟨a, hEa, hG b rfl⟩

/-- Whatever comes before, the last part shows the same. -/
theorem shows_bind_right (hf : ∀ a, Shows (f a) F) : Shows (p >>= f) F := by
  intro l
  rw [ExceptT.run_bind]
  have hany : Follows (fun _ _ => True) (fun _ _ => True) p.run (fun _ _ => True) l :=
    Follows.calls p.run.calls_any (J := fun _ => True) (fun _ _ _ _ => ⟨trivial, fun _ _ => trivial⟩) trivial
  refine hany.bind ?_
  intro r l' _
  cases r with
  | error e =>
      rintro _ ⟨⟩
  | ok a => exact hf a l'

theorem Shows.post (h : Shows p E) {E' : α → List (Said Op Ans) → Prop} (hE : ∀ a l, E a l → E' a l) : Shows p E' :=
  fun l => (h l).post fun _ l' hr a ha => hE a l' (hr a ha)

/-- After a call, what follows may rely on it. -/
theorem shows_call {o : Op} {g : Ans o → ExceptT ε (Prog Op Ans) β}
    (hg : ∀ a, Shows (g a) fun b l => ⟨o, a⟩ ∈ l → F b l) : Shows (ExceptT.lift (Prog.perform o) >>= g) F := by
  intro l
  refine Follows.call trivial ?_
  intro a _
  have hlasting : Lasting fun l => (⟨o, a⟩ : Said Op Ans) ∈ l := fun _ _ h => List.mem_cons_of_mem _ h
  have hkept := hlasting.follows (g a).run (List.mem_cons_self (a := (⟨o, a⟩ : Said Op Ans)) (l := l))
  refine ((hkept.and (hg a _)).post ?_).mono fun _ _ _ => trivial
  rintro r l' ⟨hsaid, hF⟩ b rfl
  exact hF b rfl hsaid

end Rules

/-- The part as it is run in the large. -/
def embedded (i : Embedding Op Ans Op' Ans') (p : ExceptT ε (Prog Op Ans) α) : ExceptT ε (Prog Op' Ans') α :=
  ExceptT.mk (p.run.embed i)

theorem Follows.embed {p : Prog Op Ans α} {Q : α → List (Said Op Ans) → Prop} {l : List (Said Op Ans)}
    {l' : List (Said Op' Ans')} (h : Follows (fun _ _ => True) (fun _ _ => True) p Q l) (hl : Embeds i l l') :
    Follows (fun _ _ => True) (fun _ _ => True) (p.embed i) (fun a l₂ => ∃ l₁, Q a l₁ ∧ Embeds i l₁ l₂) l' := by
  induction p generalizing l l' with
  | ret a => exact ⟨l, h, hl⟩
  | panic _ => trivial
  | call o k ih =>
      refine Follows.call trivial ?_
      intro a _
      have hnext := (h l rfl (i.ans o a) (⟨o, i.ans o a⟩ :: l) ⟨trivial, rfl⟩).2
      refine ih (i.ans o a) hnext ?_
      intro e he
      rcases List.mem_cons.mp he with rfl | he
      · exact ⟨a, List.mem_cons_self, rfl⟩
      · obtain ⟨a', ha', heq⟩ := hl e he
        exact ⟨a', List.mem_cons_of_mem _ ha', heq⟩

/-- What is shown in the small is shown in the large. -/
theorem Shows.embedded {p : ExceptT ε (Prog Op Ans) α} {E : α → List (Said Op' Ans') → Prop}
    (h : Shows p fun a l => ∀ l', Embeds i l l' → E a l') : Shows (embedded i p) E := by
  intro l'
  have hnil : Embeds i [] l' := fun e he => absurd he List.not_mem_nil
  refine ((h []).embed hnil).post ?_
  rintro r l₂ ⟨l₁, hr, hembeds⟩ a rfl
  exact hr a rfl l₂ hembeds

/-- What every path keeps, the program follows. -/
theorem Prog.Keeps.follows {P : Op → Prop} {p : Prog Op Ans α} {Q : α → Prop}
    (h : p.Keeps (fun _ _ => True) P Q) {ok : List (Said Op Ans) → Op → Prop} (hok : ∀ l o, P o → ok l o)
    (l : List (Said Op Ans)) : Follows (fun _ _ => True) ok p (fun a _ => Q a) l := by
  induction p generalizing l with
  | ret a => exact h
  | panic _ => trivial
  | call o k ih => exact Follows.call (hok l o h.1) fun a _ => ih a (h.2 a trivial) (⟨o, a⟩ :: l)

/-! ## What a program throws -/

/-- Every call is a `P`, and every error a `T`. -/
def Throws (P : Op → Prop) (T : ε → Prop) (p : ExceptT ε (Prog Op Ans) α) : Prop :=
  p.run.Keeps (fun _ _ => True) P fun r => ∀ e, r = .error e → T e

section Throws

variable {P : Op → Prop} {T : ε → Prop} {p : ExceptT ε (Prog Op Ans) α} {f : α → ExceptT ε (Prog Op Ans) β}

theorem throws_pure (a : α) : Throws P T (pure a : ExceptT ε (Prog Op Ans) α) := by
  rintro e ⟨⟩

theorem throws_throw {e : ε} (h : T e) : Throws P T (throw e : ExceptT ε (Prog Op Ans) α) := by
  rintro _ ⟨⟩
  exact h

theorem throws_panic (message : String) : Throws P T (ExceptT.lift (.panic message) : ExceptT ε (Prog Op Ans) α) :=
  trivial

theorem Throws.bind (h : Throws P T p) (hf : ∀ a, Throws P T (f a)) : Throws P T (p >>= f) := by
  unfold Throws
  rw [ExceptT.run_bind]
  refine Prog.Keeps.bind h ?_
  intro r hr
  cases r with
  | error e =>
      rintro _ ⟨⟩
      exact hr e rfl
  | ok a => exact hf a

/-- A program that cannot fail, and then one that may rely on its result. -/
theorem throws_lift_bind {q : Prog Op Ans α} {Q : α → Prop} (h : q.Keeps (fun _ _ => True) P Q)
    (hf : ∀ a, Q a → Throws P T (f a)) : Throws P T (ExceptT.lift q >>= f) := by
  unfold Throws
  rw [ExceptT.run_bind]
  refine Prog.Keeps.bind (R := fun r => ∃ a, r = .ok a ∧ Q a) ?_ ?_
  · refine Prog.Keeps.bind h ?_
    intro a ha
    exact ⟨a, rfl, ha⟩
  · rintro _ ⟨a, rfl, ha⟩
    exact hf a ha

end Throws

/-! ## Bounds on a program -/

/-- Programs that may fail, put together in another order. -/
theorem except_bind_assoc {γ : Type} (p : ExceptT ε (Prog Op Ans) α) (f : α → ExceptT ε (Prog Op Ans) β)
    (g : β → ExceptT ε (Prog Op Ans) γ) : p >>= f >>= g = p >>= fun a => f a >>= g := by
  apply ExceptT.ext
  simp only [ExceptT.run_bind]
  refine (Prog.bind_assoc ..).trans ?_
  congr 1
  funext r
  cases r with
  | error e => rfl
  | ok a => rfl

/-- Where all answers are as in `A`, every call is a `P`, and every panic a `D`. -/
def Prog.Confined (A : (o : Op) → Ans o → Prop) (P : Op → Prop) (D : String → Prop) : Prog Op Ans α → Prop
  | .ret _ => True
  | .call o k => P o ∧ ∀ a, A o a → (k a).Confined A P D
  | .panic message => D message

section Confined

variable {A : (o : Op) → Ans o → Prop} {P : Op → Prop} {D : String → Prop}

theorem Prog.Confined.bind {p : Prog Op Ans α} {f : α → Prog Op Ans β} (h : p.Confined A P D)
    (hf : ∀ a, (f a).Confined A P D) : (p >>= f).Confined A P D := by
  induction p with
  | ret a => exact hf a
  | call o k ih => exact ⟨h.1, fun a ha => ih a (h.2 a ha)⟩
  | panic _ => exact h

theorem Prog.Confined.mono {p : Prog Op Ans α} {P' : Op → Prop} (h : p.Confined A P D) (hP : ∀ o, P o → P' o) :
    p.Confined A P' D := by
  induction p with
  | ret a => trivial
  | call o k ih => exact ⟨hP o h.1, fun a ha => ih a (h.2 a ha)⟩
  | panic _ => exact h

theorem Prog.Confined.embed {A' : (o : Op') → Ans' o → Prop} {P : Op' → Prop} {p : Prog Op Ans α}
    (h : p.Confined A (fun o => P (i.op o)) D) (hA : ∀ o a, A' (i.op o) a → A o (i.ans o a)) :
    (p.embed i).Confined A' P D := by
  induction p with
  | ret a => trivial
  | call o k ih => exact ⟨h.1, fun a ha => ih (i.ans o a) (h.2 (i.ans o a) (hA o a ha))⟩
  | panic _ => exact h

theorem Prog.confined_call {o : Op} {f : Ans o → Prog Op Ans β} (h : P o) (hf : ∀ a, (f a).Confined A P D) :
    (Prog.perform o >>= f).Confined A P D := ⟨h, fun a _ => hf a⟩

/-- What is left of the program is bounded, too. -/
theorem Prog.Confined.after {p q : Prog Op Ans α} {log : List (Said Op Ans)} (h : p.Confined A P D)
    (hafter : p.After log q) (hlog : ∀ o a, ⟨o, a⟩ ∈ log → A o a) : q.Confined A P D := by
  induction log generalizing p with
  | nil =>
      obtain rfl := Prog.after_nil.mp hafter
      exact h
  | cons e log ih =>
      cases p with
      | ret | panic => exact hafter.elim
      | call o k =>
          obtain ⟨x, rfl, hrest⟩ := hafter
          have hx : A o x := hlog o x List.mem_cons_self
          exact ih (h.2 x hx) hrest fun o a he => hlog o a (List.mem_cons_of_mem _ he)

/-- A program that may fail is bounded. -/
def Stays (A : (o : Op) → Ans o → Prop) (P : Op → Prop) (D : String → Prop) (p : ExceptT ε (Prog Op Ans) α) : Prop :=
  p.run.Confined A P D

theorem stays_pure (a : α) : Stays A P D (pure a : ExceptT ε (Prog Op Ans) α) := trivial

theorem stays_throw (e : ε) : Stays A P D (throw e : ExceptT ε (Prog Op Ans) α) := trivial

theorem Stays.bind {p : ExceptT ε (Prog Op Ans) α} {f : α → ExceptT ε (Prog Op Ans) β} (h : Stays A P D p)
    (hf : ∀ a, Stays A P D (f a)) : Stays A P D (p >>= f) := by
  unfold Stays
  rw [ExceptT.run_bind]
  refine Prog.Confined.bind h ?_
  intro r
  cases r with
  | error e => trivial
  | ok a => exact hf a

theorem stays_lift {p : Prog Op Ans α} (h : p.Confined A P D) :
    Stays A P D (ExceptT.lift p : ExceptT ε (Prog Op Ans) α) :=
  Prog.Confined.bind h fun _ => trivial

/-- What follows a call may depend on its answer. -/
theorem stays_answer {o : Op} {f : Ans o → ExceptT ε (Prog Op Ans) β} (h : P o) (hf : ∀ a, A o a → Stays A P D (f a)) :
    Stays A P D (ExceptT.lift (Prog.perform o) >>= f) := ⟨h, hf⟩

theorem stays_call {o : Op} {f : Ans o → ExceptT ε (Prog Op Ans) β} (h : P o) (hf : ∀ a, Stays A P D (f a)) :
    Stays A P D (ExceptT.lift (Prog.perform o) >>= f) := stays_answer h fun a _ => hf a

theorem Stays.embedded {A' : (o : Op') → Ans' o → Prop} {P : Op' → Prop} {p : ExceptT ε (Prog Op Ans) α}
    (h : Stays A (fun o => P (i.op o)) D p) (hA : ∀ o a, A' (i.op o) a → A o (i.ans o a)) :
    Stays A' P D (embedded i p) := Prog.Confined.embed h hA

end Confined

/-! ## Finished and unfinished runs -/

/-- The run in which every call is answered by a function, and the result or panic it ends with. -/
def Prog.fate (answer : (o : Op) → Ans o) : Prog Op Ans α → List (Said Op Ans) × Prog Op Ans α
  | .ret a => ([], .ret a)
  | .call o k =>
      let out := (k (answer o)).fate answer
      (⟨o, answer o⟩ :: out.1, out.2)
  | .panic message => ([], .panic message)

theorem Prog.after_fate (answer : (o : Op) → Ans o) (p : Prog Op Ans α) :
    p.After (p.fate answer).1 (p.fate answer).2 := by
  induction p with
  | ret a => exact Prog.after_nil.mpr rfl
  | call o k ih => exact ⟨answer o, rfl, ih (answer o)⟩
  | panic message => exact Prog.after_nil.mpr rfl

section Runs

variable {possible : (o : Op) → Ans o → Prop} {ok : List (Said Op Ans) → Op → Prop} {p : Prog Op Ans α}
  {Q : α → List (Said Op Ans) → Prop} {log l : List (Said Op Ans)}

/-- A call that is made after some others is permitted by them. -/
theorem Follows.after {o : Op} {k : Ans o → Prog Op Ans α} (h : Follows (fun _ _ => True) ok p Q l)
    (hafter : p.After log (.call o k)) (a : Ans o) : ok (log.reverse ++ l) o := by
  induction log generalizing p l with
  | nil =>
      obtain rfl := Prog.after_nil.mp hafter
      exact (h l rfl a (⟨o, a⟩ :: l) ⟨trivial, rfl⟩).1
  | cons e log ih =>
      cases p with
      | ret | panic => exact hafter.elim
      | call o' k' =>
          obtain ⟨x, rfl, hrest⟩ := hafter
          have hnext := (h l rfl x (⟨o', x⟩ :: l) ⟨trivial, rfl⟩).2
          rw [List.reverse_cons, List.append_assoc]
          exact ih hnext hrest

/-- Before a call was made, it was the next one. -/
theorem Prog.After.call {q : Prog Op Ans α} {earlier later : List (Said Op Ans)} {e : Said Op Ans}
    (h : p.After (earlier ++ e :: later) q) : ∃ k, p.After earlier (.call e.op k) := by
  induction earlier generalizing p with
  | nil =>
      cases p with
      | ret | panic => exact h.elim
      | call o k =>
          obtain ⟨x, rfl, _⟩ := h
          exact ⟨k, Prog.after_nil.mpr rfl⟩
  | cons e' earlier ih =>
      cases p with
      | ret | panic => exact h.elim
      | call o k =>
          obtain ⟨x, rfl, hrest⟩ := h
          obtain ⟨k', hk'⟩ := ih hrest
          exact ⟨k', x, rfl, hk'⟩

/-- What holds when the program returns, of the calls of the run. -/
theorem Follows.returns {a : α} (h : Follows (fun _ _ => True) ok p Q l) (hreturns : p.Returns a log) :
    Q a (log.reverse ++ l) := by
  induction p generalizing l log with
  | ret b =>
      obtain ⟨rfl, rfl⟩ := hreturns
      exact h
  | panic _ => exact hreturns.elim
  | call o k ih =>
      obtain ⟨x, rest, rfl, hrest⟩ := hreturns
      have hnext := (h l rfl x (⟨o, x⟩ :: l) ⟨trivial, rfl⟩).2
      rw [List.reverse_cons, List.append_assoc]
      exact ih x hnext hrest

end Runs

end Etos
