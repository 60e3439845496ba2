import Etos.Prog.System
import Etos.Kube.Api

/-!
# `Kube.Focus` — one object, one controller, a hostile rest of the world

The state of one API object of kind `k₀` while a controller reconciles it over and over. Everything else is
demonic: a `Get` of the object may answer any version that was ever persisted (the informer cache lags), every
call on other objects and every clock may answer anything, and every write may be rejected, applied, or applied
with its response lost. What the API server does guarantee is **optimistic concurrency**: a write is applied
only if it carries the `resourceVersion` of the stored object, and the answer to a successful write carries
the new one.

A world records every version ever persisted, and every call made: in the whole run (`trace`) and by the
program running now (`round`), newest first.

Proofs about the program need none of this. What a program knows is its *base* (the version its in-memory
object stems from) and the calls of its own round: `Local`. A program proved `Safe` over `Local`, where no one
interferes, is safe in the world (`Local.Safe.lift`), and `Focus.invariant` turns the guarantees of its
calls into invariants of every run.
-/

namespace Etos.Kube

variable {K : Type} {Spec Status : K → Type} {X : Type} {XAns : X → Type} {k₀ : K}

/-- The world of one object. -/
structure Focus (Spec Status : K → Type) (X : Type) (XAns : X → Type) (k₀ : K) where
  /-- The object as persisted now. -/
  stored : Object (Spec k₀) (Status k₀)
  /-- Every earlier version. -/
  past : List (Object (Spec k₀) (Status k₀))
  /-- The version the running program's object stems from: its last successful read or write. -/
  base : Option (Object (Spec k₀) (Status k₀))
  trace : List (Call K Spec Status X XAns)
  round : List (Call K Spec Status X XAns)

/-- What the running program knows. -/
structure Local (Spec Status : K → Type) (X : Type) (XAns : X → Type) (k₀ : K) where
  base : Option (Object (Spec k₀) (Status k₀))
  round : List (Call K Spec Status X XAns)

namespace Focus

variable (w : Focus Spec Status X XAns k₀)

/-- Every version persisted so far, the stored one included. -/
def versions : List (Object (Spec k₀) (Status k₀)) := w.stored :: w.past

def loc : Local Spec Status X XAns k₀ := ⟨w.base, w.round⟩

/-- A call was made, and the program's object now stems from `base`. -/
def record (o : Op K Spec Status X) (a : Ans K Spec Status X XAns o) (applied : Bool)
    (base : Option (Object (Spec k₀) (Status k₀))) : Focus Spec Status X XAns k₀ :=
  { w with base := base, trace := ⟨o, a, applied⟩ :: w.trace, round := ⟨o, a, applied⟩ :: w.round }

/-- A new version becomes the stored one. -/
def persist (new : Object (Spec k₀) (Status k₀)) : Focus Spec Status X XAns k₀ :=
  { w with stored := new, past := w.versions }

/-- The version a status update makes: everything but the status stays. -/
def withStatus (o : Object (Spec k₀) (Status k₀)) : Object (Spec k₀) (Status k₀) :=
  { w.stored with
    metadata := { w.stored.metadata with resourceVersion := w.stored.metadata.resourceVersion + 1 }
    status := o.status }

/-- The version an update makes: the status stays. -/
def withMeta (o : Object (Spec k₀) (Status k₀)) : Object (Spec k₀) (Status k₀) :=
  { o with
    metadata := { o.metadata with resourceVersion := w.stored.metadata.resourceVersion + 1 }
    status := w.stored.status }

/-- A new program starts: it knows nothing. -/
def fresh : Focus Spec Status X XAns k₀ := { w with base := none, round := [] }

/-- The object was just created. -/
def initial (o : Object (Spec k₀) (Status k₀)) : Focus Spec Status X XAns k₀ := ⟨o, [], none, [], []⟩

end Focus

/-- Is the operation a read or a write of the object? -/
def Op.onFocus (k₀ : K) (name : String) (o : Op K Spec Status X) : Prop :=
  o = .get k₀ name ∨ (∃ x, o = .update k₀ x ∧ x.name = name) ∨ ∃ x, o = .updateStatus k₀ x ∧ x.name = name

namespace Focus

/-- What a call does. -/
inductive Sem (name : String) :
    Etos.Sem (Op K Spec Status X) (Ans K Spec Status X XAns) (Focus Spec Status X XAns k₀) where
  | get {w v} (h : v ∈ w.versions) : Sem name w (.get k₀ name) (.ok v) (w.record (.get k₀ name) (.ok v) true (some v))
  | getError {w e} : Sem name w (.get k₀ name) (.error e) (w.record (.get k₀ name) (.error e) false w.base)
  | update {w o} (hn : o.name = name)
      (hv : o.metadata.resourceVersion = w.stored.metadata.resourceVersion) :
      Sem name w (.update k₀ o) (.ok (w.withMeta o))
        ((w.persist (w.withMeta o)).record (.update k₀ o) (.ok (w.withMeta o)) true (some (w.withMeta o)))
  | updateLost {w o e} (hn : o.name = name)
      (hv : o.metadata.resourceVersion = w.stored.metadata.resourceVersion) :
      Sem name w (.update k₀ o) (.error e) ((w.persist (w.withMeta o)).record (.update k₀ o) (.error e) true none)
  | updateError {w o e} (hn : o.name = name) :
      Sem name w (.update k₀ o) (.error e) (w.record (.update k₀ o) (.error e) false none)
  | status {w o} (hn : o.name = name)
      (hv : o.metadata.resourceVersion = w.stored.metadata.resourceVersion) :
      Sem name w (.updateStatus k₀ o) (.ok (w.withStatus o))
        ((w.persist (w.withStatus o)).record (.updateStatus k₀ o) (.ok (w.withStatus o)) true (some (w.withStatus o)))
  | statusLost {w o e} (hn : o.name = name)
      (hv : o.metadata.resourceVersion = w.stored.metadata.resourceVersion) :
      Sem name w (.updateStatus k₀ o) (.error e)
        ((w.persist (w.withStatus o)).record (.updateStatus k₀ o) (.error e) true none)
  | statusError {w o e} (hn : o.name = name) :
      Sem name w (.updateStatus k₀ o) (.error e) (w.record (.updateStatus k₀ o) (.error e) false none)
  | other {w o a applied} (h : ¬ o.onFocus k₀ name) (happ : succeeded o a = true → applied = true) :
      Sem name w o a (w.record o a applied w.base)

/-- Somebody else edits the metadata of the object (an annotation, a finalizer, a deletion timestamp), which
    makes writes that are under way conflict. The specification and the status are not theirs to write. -/
def Env (w w' : Focus Spec Status X XAns k₀) : Prop :=
  ∃ m : ObjectMeta, m.name = w.stored.name ∧
    m.resourceVersion = w.stored.metadata.resourceVersion + 1 ∧
    w' = w.persist { w.stored with metadata := m }

/-- Well-formed worlds: one name, one specification, and a `resourceVersion` identifies a version. -/
structure WF (name : String) (spec : Spec k₀) (w : Focus Spec Status X XAns k₀) : Prop where
  name : ∀ v ∈ w.versions, v.name = name
  spec : ∀ v ∈ w.versions, v.spec = spec
  bound : ∀ v ∈ w.past, v.metadata.resourceVersion < w.stored.metadata.resourceVersion
  base : ∀ b, w.base = some b → b ∈ w.versions
  round : ∃ earlier, w.trace = w.round ++ earlier

variable {name : String} {spec : Spec k₀} {w w' : Focus Spec Status X XAns k₀}

theorem stored_mem : w.stored ∈ w.versions := List.mem_cons_self

/-- **Optimistic concurrency.** The version with the stored `resourceVersion` is the stored one. -/
theorem WF.eq_stored (h : WF name spec w) {v : Object (Spec k₀) (Status k₀)} (hv : v ∈ w.versions)
    (hrv : v.metadata.resourceVersion = w.stored.metadata.resourceVersion) : v = w.stored := by
  rcases List.mem_cons.mp hv with rfl | hpast
  · rfl
  · exact absurd hrv (Nat.ne_of_lt (h.bound v hpast))

/-- A new version with the next `resourceVersion` keeps the world well-formed. -/
theorem WF.persist (h : WF name spec w) {new : Object (Spec k₀) (Status k₀)} (hn : new.name = name)
    (hs : new.spec = spec)
    (hrv : new.metadata.resourceVersion = w.stored.metadata.resourceVersion + 1) :
    WF name spec (w.persist new) where
  name := fun v hv => (List.mem_cons.mp hv).elim (fun e => e ▸ hn) (h.name v)
  spec := fun v hv => (List.mem_cons.mp hv).elim (fun e => e ▸ hs) (h.spec v)
  bound := by
    intro v hv
    show v.metadata.resourceVersion < new.metadata.resourceVersion
    rcases List.mem_cons.mp hv with rfl | hpast
    · omega
    · have := h.bound v hpast
      omega
  base := fun b hb => List.mem_cons_of_mem _ (h.base b hb)
  round := h.round

theorem WF.withStatus (h : WF name spec w) (o : Object (Spec k₀) (Status k₀)) :
    WF name spec (w.persist (w.withStatus o)) :=
  h.persist (h.name w.stored stored_mem) (h.spec w.stored stored_mem) rfl

theorem WF.withMeta (h : WF name spec w) {o : Object (Spec k₀) (Status k₀)} (hn : o.name = name)
    (hs : o.spec = spec) : WF name spec (w.persist (w.withMeta o)) :=
  WF.persist h hn hs rfl

/-- Recording a call keeps the world well-formed if the new base is a version. -/
theorem WF.record (h : WF name spec w) {o : Op K Spec Status X} {a : Ans K Spec Status X XAns o}
    {applied : Bool} {base : Option (Object (Spec k₀) (Status k₀))}
    (hb : ∀ b, base = some b → b ∈ w.versions) : WF name spec (w.record o a applied base) where
  name := h.name
  spec := h.spec
  bound := h.bound
  base := hb
  round := h.round.imp (fun _ he => congrArg (_ :: ·) he)

theorem WF.fresh (h : WF name spec w) : WF name spec w.fresh where
  name := h.name
  spec := h.spec
  bound := h.bound
  base := by intro b hb; cases hb
  round := ⟨w.trace, rfl⟩

theorem WF.initial {o : Object (Spec k₀) (Status k₀)} (hn : o.name = name) (hs : o.spec = spec) :
    WF name spec (initial o : Focus Spec Status X XAns k₀) where
  name := fun v hv => (List.mem_singleton.mp hv) ▸ hn
  spec := fun v hv => (List.mem_singleton.mp hv) ▸ hs
  bound := fun v hv => by cases hv
  base := fun b hb => by cases hb
  round := ⟨[], rfl⟩

theorem WF.env (h : WF name spec w) (he : Env w w') : WF name spec w' ∧ w'.loc = w.loc := by
  obtain ⟨m, hn, hrv, rfl⟩ := he
  exact ⟨h.persist (hn.trans (h.name w.stored stored_mem)) (h.spec w.stored stored_mem) hrv, rfl⟩

end Focus

/-! ## The program's view -/

namespace Local

/-- What a program can count on when it makes a call. A write that succeeds leaves it with a new base of the
    same name and specification; a write that fails leaves it without one. -/
inductive Sem (name : String) (spec : Spec k₀) :
    Etos.Sem (Op K Spec Status X) (Ans K Spec Status X XAns) (Local Spec Status X XAns k₀) where
  | get {l v c} (hn : v.name = name) (hs : v.spec = spec) :
      Sem name spec l (.get k₀ name) (.ok v) ⟨some v, ⟨.get k₀ name, .ok v, c⟩ :: l.round⟩
  | getError {l e c} :
      Sem name spec l (.get k₀ name) (.error e) ⟨l.base, ⟨.get k₀ name, .error e, c⟩ :: l.round⟩
  | update {l o new c} (hn : o.name = name) (hn' : new.name = name) (hs : new.spec = spec)
      (ht : ∀ b, l.base = some b → new.status = b.status) :
      Sem name spec l (.update k₀ o) (.ok new) ⟨some new, ⟨.update k₀ o, .ok new, c⟩ :: l.round⟩
  | updateError {l o e c} (hn : o.name = name) :
      Sem name spec l (.update k₀ o) (.error e) ⟨none, ⟨.update k₀ o, .error e, c⟩ :: l.round⟩
  | status {l o new} (hn : o.name = name) (hn' : new.name = name) (hs : new.spec = spec)
      (ht : new.status = o.status) :
      Sem name spec l (.updateStatus k₀ o) (.ok new) ⟨some new, ⟨.updateStatus k₀ o, .ok new, true⟩ :: l.round⟩
  | statusError {l o e c} (hn : o.name = name) :
      Sem name spec l (.updateStatus k₀ o) (.error e) ⟨none, ⟨.updateStatus k₀ o, .error e, c⟩ :: l.round⟩
  | other {l o a c} (h : ¬ o.onFocus k₀ name) : Sem name spec l o a ⟨l.base, ⟨o, a, c⟩ :: l.round⟩

/-- The discipline of optimistic concurrency: an object is written with the `resourceVersion` of the base,
    and an update does not touch the specification. -/
def Based (spec : Spec k₀) (l : Local Spec Status X XAns k₀) (o : Op K Spec Status X) : Prop :=
  (∀ x, o = .update k₀ x → x.spec = spec ∧ ∃ b, l.base = some b ∧
    x.metadata.resourceVersion = b.metadata.resourceVersion) ∧
  (∀ x, o = .updateStatus k₀ x → ∃ b, l.base = some b ∧
    x.metadata.resourceVersion = b.metadata.resourceVersion)

variable {name : String} {spec : Spec k₀} {w w' : Focus Spec Status X XAns k₀}

/-- A call of the world is a call of the program's view, and keeps the world well-formed. -/
theorem Sem.ofFocus (hwf : w.WF name spec) {o : Op K Spec Status X} {a : Ans K Spec Status X XAns o}
    (hb : w.loc.Based spec o) (h : Focus.Sem name w o a w') :
    Sem name spec w.loc o a w'.loc ∧ w'.WF name spec := by
  cases h with
  | get hv => exact ⟨.get (hwf.name _ hv) (hwf.spec _ hv), hwf.record (by rintro b ⟨⟩; exact hv)⟩
  | getError => exact ⟨.getError, hwf.record hwf.base⟩
  | update hn hv =>
      obtain ⟨hspec, b, hbase, hrv⟩ := hb.1 _ rfl
      have hst : b = w.stored := hwf.eq_stored (hwf.base b hbase) (hrv ▸ hv)
      refine ⟨.update hn hn hspec ?_, (hwf.withMeta hn hspec).record ?_⟩
      · intro b' hb'
        obtain rfl : b = b' := Option.some.inj (hbase.symm.trans hb')
        show w.stored.status = b.status
        rw [hst]
      · rintro b ⟨⟩
        exact List.mem_cons_self
  | updateLost hn hv =>
      exact ⟨.updateError hn, (hwf.withMeta hn (hb.1 _ rfl).1).record (by rintro b ⟨⟩)⟩
  | updateError hn => exact ⟨.updateError hn, hwf.record (by rintro b ⟨⟩)⟩
  | status hn hv =>
      have hn' := hwf.name w.stored Focus.stored_mem
      have hs' := hwf.spec w.stored Focus.stored_mem
      refine ⟨.status hn hn' hs' rfl, (hwf.withStatus _).record ?_⟩
      rintro b ⟨⟩
      exact List.mem_cons_self
  | statusLost hn hv => exact ⟨.statusError hn, (hwf.withStatus _).record (by rintro b ⟨⟩)⟩
  | statusError hn => exact ⟨.statusError hn, hwf.record (by rintro b ⟨⟩)⟩
  | other h happ => exact ⟨.other h, hwf.record hwf.base⟩

/-- An error is always a possible answer to a write, so a guarantee that does not depend on the answer can
    be read off before the answer is known. -/
theorem Sem.possible {o : Op K Spec Status X} {a : Ans K Spec Status X XAns o}
    (h : Focus.Sem name w o a w') (hwf : w.WF name spec) :
    ∃ a' l', Sem name spec w.loc o a' l' := by
  cases h with
  | get hv => exact ⟨_, _, .get (c := true) (hwf.name _ hv) (hwf.spec _ hv)⟩
  | getError => exact ⟨.error ⟨none, ""⟩, _, .getError (c := false)⟩
  | update hn _ => exact ⟨.error ⟨none, ""⟩, _, .updateError (c := false) hn⟩
  | updateLost hn _ => exact ⟨.error ⟨none, ""⟩, _, .updateError (c := false) hn⟩
  | updateError hn => exact ⟨.error ⟨none, ""⟩, _, .updateError (c := false) hn⟩
  | status hn _ => exact ⟨.error ⟨none, ""⟩, _, .statusError (c := false) hn⟩
  | statusLost hn _ => exact ⟨.error ⟨none, ""⟩, _, .statusError (c := false) hn⟩
  | statusError hn => exact ⟨.error ⟨none, ""⟩, _, .statusError (c := false) hn⟩
  | other h _ => exact ⟨a, _, .other (c := true) h⟩

/-- Safety over the program's own view: nobody interferes, and the guarantee is about the call alone. -/
abbrev Safe (name : String) (spec : Spec k₀)
    (allowed : Local Spec Status X XAns k₀ → Op K Spec Status X → Prop) {α : Type}
    (p : Prog (Op K Spec Status X) (Ans K Spec Status X XAns) α)
    (Q : α → Local Spec Status X XAns k₀ → Prop) (l : Local Spec Status X XAns k₀) : Prop :=
  Etos.Safe Eq (Sem name spec) (fun l o _ _ => allowed l o) p Q l

/-- What the other processes may do between two calls: anything the program does not know about. -/
def Rely (name : String) (spec : Spec k₀) (w w' : Focus Spec Status X XAns k₀) : Prop :=
  w'.WF name spec ∧ w'.loc = w.loc

variable {allowed : Local Spec Status X XAns k₀ → Op K Spec Status X → Prop}

/-- **Lifting.** A program safe over its own view is safe in the world. -/
theorem Safe.lift {α : Type} {p : Prog (Op K Spec Status X) (Ans K Spec Status X XAns) α}
    {Q : α → Local Spec Status X XAns k₀ → Prop} (hb : ∀ l o, allowed l o → l.Based spec o)
    (h : Safe name spec allowed p Q w.loc) :
    Etos.Safe (Rely name spec) (Focus.Sem name) (fun w o _ _ => allowed w.loc o) p
      (fun _ _ => True) w := by
  induction p generalizing w with
  | ret a => trivial
  | panic _ => trivial
  | call o k ih =>
      rintro w₁ ⟨hwf, hloc⟩ a w₂ hs
      obtain ⟨a', l', hs'⟩ := Sem.possible hs hwf
      have hall : allowed w₁.loc o := hloc ▸ (h _ rfl _ _ (hloc ▸ hs')).1
      obtain ⟨hl, hwf₂⟩ := Sem.ofFocus hwf (hb _ _ hall) hs
      exact ⟨hall, ih a (h _ rfl _ _ (hloc ▸ hl)).2⟩

/-- The rule for a call on something else: the base stays, and the call is remembered. -/
theorem Safe.other {α : Type} {o : Op K Spec Status X}
    {k : Ans K Spec Status X XAns o → Prog (Op K Spec Status X) (Ans K Spec Status X XAns) α}
    {Q : α → Local Spec Status X XAns k₀ → Prop} {l : Local Spec Status X XAns k₀}
    (hf : ¬ o.onFocus k₀ name) (hall : allowed l o)
    (h : ∀ a c, Safe name spec allowed (k a) Q ⟨l.base, ⟨o, a, c⟩ :: l.round⟩) :
    Safe name spec allowed (.call o k) Q l := by
  rintro _ rfl a l₂ hs
  refine ⟨hall, ?_⟩
  cases hs with
  | other _ => exact h _ _
  | get => exact absurd (.inl rfl) hf
  | getError => exact absurd (.inl rfl) hf
  | update hn => exact absurd (.inr (.inl ⟨_, rfl, hn⟩)) hf
  | updateError hn => exact absurd (.inr (.inl ⟨_, rfl, hn⟩)) hf
  | status hn => exact absurd (.inr (.inr ⟨_, rfl, hn⟩)) hf
  | statusError hn => exact absurd (.inr (.inr ⟨_, rfl, hn⟩)) hf

/-- The rule for a program all of whose calls are on something else and keep an assertion `J`. -/
theorem Safe.calls {α : Type} {p : Prog (Op K Spec Status X) (Ans K Spec Status X XAns) α}
    {P : Op K Spec Status X → Prop} {J : Local Spec Status X XAns k₀ → Prop}
    {l : Local Spec Status X XAns k₀} (hp : p.Calls P) (hf : ∀ o, P o → ¬ o.onFocus k₀ name)
    (hJ : ∀ l o, P o → J l → allowed l o ∧ ∀ a c, J ⟨l.base, ⟨o, a, c⟩ :: l.round⟩) (h : J l) :
    Safe name spec allowed p (fun _ => J) l := by
  induction p generalizing l with
  | ret a => exact h
  | panic _ => trivial
  | call o k ih =>
      obtain ⟨hall, hnext⟩ := hJ l o hp.1 h
      exact .other (hf o hp.1) hall (fun a c => ih a (hp.2 a) (hnext a c))

end Local

/-! ## Runs -/

namespace Focus

variable {name : String} {spec : Spec k₀} {w w' : Focus Spec Status X XAns k₀}
variable {allowed : Local Spec Status X XAns k₀ → Op K Spec Status X → Prop}

/-- One worker that runs `prog` on the object again and again, from an object with a status in `init`. -/
def system (name : String) (spec : Spec k₀) (init : Status k₀ → Prop)
    (prog : Prog (Op K Spec Status X) (Ans K Spec Status X XAns) Unit) :
    System (Op K Spec Status X) (Ans K Spec Status X XAns) (Focus Spec Status X XAns k₀) Unit where
  init w := ∃ o, o.name = name ∧ o.spec = spec ∧ init o.status ∧ w = initial o
  start _ w p w' := p = prog ∧ w' = w.fresh
  sem _ := Sem name
  env := Env

/-- **The invariant rule.** If every call of the program is `allowed`, an invariant of all runs whose calls
    meet `cond` need only be preserved by allowed calls that meet `cond`. -/
theorem invariant {init : Status k₀ → Prop}
    {prog : Prog (Op K Spec Status X) (Ans K Spec Status X XAns) Unit}
    {cond : Focus Spec Status X XAns k₀ → (o : Op K Spec Status X) → Ans K Spec Status X XAns o → Prop}
    {I : Focus Spec Status X XAns k₀ → Prop}
    (hb : ∀ l o, allowed l o → l.Based spec o)
    (hsafe : Local.Safe name spec allowed prog (fun _ _ => True) ⟨none, []⟩)
    (hinit : ∀ o, o.name = name → o.spec = spec → init o.status → I (initial o))
    (hstart : ∀ w, w.WF name spec → I w → I w.fresh)
    (hcall : ∀ w o a w', w.WF name spec → I w → allowed w.loc o → Sem name w o a w' → cond w o a → I w')
    (henv : ∀ w w', w.WF name spec → I w → Env w w' → I w')
    {c} (h : ((system name spec init prog).restrict (fun _ => cond)).Reachable c) :
    c.state.WF name spec ∧ I c.state := by
  have hS : System.Sound ((system name spec init prog).restrict (fun _ => cond))
      (fun w => w.WF name spec ∧ I w) (fun _ => Local.Rely name spec)
      (fun _ w o _ _ => allowed w.loc o) := by
    refine ⟨fun hinv => ⟨hinv.1, rfl⟩, fun h₁ h₂ => ⟨h₂.1, h₂.2.trans h₁.2⟩, ?_, ?_, ?_, ?_⟩
    · rintro _ ⟨o, hn, hs, hi, rfl⟩
      exact ⟨.initial hn hs, hinit o hn hs hi⟩
    · rintro _ w p _ ⟨hwf, hI⟩ ⟨rfl, rfl⟩
      refine ⟨⟨hwf.fresh, hstart w hwf hI⟩, ?_, fun j hj => absurd rfl hj⟩
      exact (Local.Safe.lift (w := w.fresh) hb hsafe).mono_sem (fun _ _ _ _ h => h.1)
    · rintro _ w o a w' ⟨hwf, hI⟩ ⟨hsem, hc⟩ hall
      exact ⟨⟨(Local.Sem.ofFocus hwf (hb _ _ hall) hsem).2, hcall w o a w' hwf hI hall hsem hc⟩,
        fun j hj => absurd rfl hj⟩
    · rintro w w' ⟨hwf, hI⟩ he
      exact ⟨⟨(hwf.env he).1, henv w w' hwf hI he⟩, fun _ => hwf.env he⟩
  exact (hS.reachable h).1

/-- No version but the stored one has a status of its own. -/
theorem Sem.versions {o : Op K Spec Status X} {a : Ans K Spec Status X XAns o} (h : Sem name w o a w')
    {v : Object (Spec k₀) (Status k₀)} (hv : v ∈ w'.versions) : v = w'.stored ∨ v ∈ w.versions := by
  cases h with
  | update => exact List.mem_cons.mp hv
  | updateLost => exact List.mem_cons.mp hv
  | status => exact List.mem_cons.mp hv
  | statusLost => exact List.mem_cons.mp hv
  | _ => exact .inr hv

/-! ### Scripted runs

Concrete runs in which the object is read fresh, writes fail only on a conflict, and all other calls are
answered by a script. -/

section Script

variable [DecidableEq K] (name)

/-- The stored object, as an object of kind `k`. -/
def storedAs (w : Focus Spec Status X XAns k₀) {k : K} (h : k = k₀) : Object (Spec k) (Status k) :=
  h ▸ w.stored

/-- Answer a call from the world and the script. -/
def respond (script : (o : Op K Spec Status X) → Ans K Spec Status X XAns o)
    (w : Focus Spec Status X XAns k₀) :
    (o : Op K Spec Status X) → Ans K Spec Status X XAns o × Focus Spec Status X XAns k₀
  | .get k n =>
      if h : k = k₀ ∧ n = name then
        (.ok (w.storedAs h.1), w.record (.get k n) (.ok (w.storedAs h.1)) true (some w.stored))
      else (script (.get k n), w.record (.get k n) (script (.get k n)) true w.base)
  | .update k o =>
      if h : k = k₀ ∧ o.name = name then
        let x : Object (Spec k₀) (Status k₀) := h.1 ▸ o
        if x.metadata.resourceVersion = w.stored.metadata.resourceVersion then
          let w' := w.persist (w.withMeta x)
          (.ok (w'.storedAs h.1), w'.record (.update k o) (.ok (w'.storedAs h.1)) true (some w'.stored))
        else (.error ⟨some .conflict, ""⟩, w.record (.update k o) (.error ⟨some .conflict, ""⟩) false none)
      else (script (.update k o), w.record (.update k o) (script (.update k o)) true w.base)
  | .updateStatus k o =>
      if h : k = k₀ ∧ o.name = name then
        let x : Object (Spec k₀) (Status k₀) := h.1 ▸ o
        if x.metadata.resourceVersion = w.stored.metadata.resourceVersion then
          let w' := w.persist (w.withStatus x)
          (.ok (w'.storedAs h.1), w'.record (.updateStatus k o) (.ok (w'.storedAs h.1)) true (some w'.stored))
        else (.error ⟨some .conflict, ""⟩,
          w.record (.updateStatus k o) (.error ⟨some .conflict, ""⟩) false none)
      else (script (.updateStatus k o), w.record (.updateStatus k o) (script (.updateStatus k o)) true w.base)
  | o => (script o, w.record o (script o) true w.base)

theorem respond_sem (script : (o : Op K Spec Status X) → Ans K Spec Status X XAns o)
    (w : Focus Spec Status X XAns k₀) (o : Op K Spec Status X) :
    Sem name w o (respond name script w o).1 (respond name script w o).2 := by
  have hother : ¬ o.onFocus k₀ name → respond name script w o = (script o, w.record o (script o) true w.base) →
      Sem name w o (respond name script w o).1 (respond name script w o).2 := by
    intro h e
    rw [e]
    exact .other h (fun _ => rfl)
  cases o with
  | get k n =>
      by_cases h : k = k₀ ∧ n = name
      · obtain ⟨rfl, rfl⟩ := h
        simp only [respond, and_self, dite_true]
        exact .get stored_mem
      · refine hother ?_ (dif_neg h)
        rintro (e | ⟨x, e, _⟩ | ⟨x, e, _⟩) <;> cases e
        exact h ⟨rfl, rfl⟩
  | update k o =>
      by_cases h : k = k₀ ∧ o.name = name
      · obtain ⟨rfl, hn⟩ := h
        by_cases hv : o.metadata.resourceVersion = w.stored.metadata.resourceVersion
        · simp only [respond, hn, and_self, dite_true, hv, if_true]
          exact .update hn hv
        · simp only [respond, hn, and_self, dite_true, hv, if_false]
          exact .updateError hn
      · refine hother ?_ (dif_neg h)
        rintro (e | ⟨x, e, hn⟩ | ⟨x, e, _⟩) <;> cases e
        exact h ⟨rfl, hn⟩
  | updateStatus k o =>
      by_cases h : k = k₀ ∧ o.name = name
      · obtain ⟨rfl, hn⟩ := h
        by_cases hv : o.metadata.resourceVersion = w.stored.metadata.resourceVersion
        · simp only [respond, hn, and_self, dite_true, hv, if_true]
          exact .status hn hv
        · simp only [respond, hn, and_self, dite_true, hv, if_false]
          exact .statusError hn
      · refine hother ?_ (dif_neg h)
        rintro (e | ⟨x, e, _⟩ | ⟨x, e, hn⟩) <;> cases e
        exact h ⟨rfl, hn⟩
  | list => exact hother (by rintro (e | ⟨x, e, _⟩ | ⟨x, e, _⟩) <;> cases e) rfl
  | create => exact hother (by rintro (e | ⟨x, e, _⟩ | ⟨x, e, _⟩) <;> cases e) rfl
  | delete => exact hother (by rintro (e | ⟨x, e, _⟩ | ⟨x, e, _⟩) <;> cases e) rfl
  | ext => exact hother (by rintro (e | ⟨x, e, _⟩ | ⟨x, e, _⟩) <;> cases e) rfl

variable (script : (o : Op K Spec Status X) → Ans K Spec Status X XAns o)

/-- Run a program to its end. -/
def exec : Prog (Op K Spec Status X) (Ans K Spec Status X XAns) Unit → Focus Spec Status X XAns k₀ →
    Focus Spec Status X XAns k₀
  | .ret _, w => w
  | .panic _, w => w
  | .call o k, w => exec (k (respond name script w o).1) (respond name script w o).2

/-- Every call of the run meets `cond`. -/
def Along (cond : Focus Spec Status X XAns k₀ → (o : Op K Spec Status X) → Ans K Spec Status X XAns o → Prop) :
    Prog (Op K Spec Status X) (Ans K Spec Status X XAns) Unit → Focus Spec Status X XAns k₀ → Prop
  | .ret _, _ => True
  | .panic _, _ => True
  | .call o k, w => cond w o (respond name script w o).1 ∧
      Along cond (k (respond name script w o).1) (respond name script w o).2

variable {name}

instance decidableAlong
    {cond : Focus Spec Status X XAns k₀ → (o : Op K Spec Status X) → Ans K Spec Status X XAns o → Prop}
    [∀ w o a, Decidable (cond w o a)] :
    (p : Prog (Op K Spec Status X) (Ans K Spec Status X XAns) Unit) → (w : Focus Spec Status X XAns k₀) →
      Decidable (Along name script cond p w)
  | .ret _, _ => .isTrue trivial
  | .panic _, _ => .isTrue trivial
  | .call o k, w => @instDecidableAnd _ _ inferInstance
      (decidableAlong (k (respond name script w o).1) (respond name script w o).2)

/-- Run the program once per script. -/
def rounds (name : String) (prog : Prog (Op K Spec Status X) (Ans K Spec Status X XAns) Unit) :
    List ((o : Op K Spec Status X) → Ans K Spec Status X XAns o) → Focus Spec Status X XAns k₀ →
      Focus Spec Status X XAns k₀
  | [], w => w
  | script :: scripts, w => rounds name prog scripts (exec name script prog w.fresh)

/-- Every call of every round meets `cond`. -/
def AlongRounds (name : String)
    (cond : Focus Spec Status X XAns k₀ → (o : Op K Spec Status X) → Ans K Spec Status X XAns o → Prop)
    (prog : Prog (Op K Spec Status X) (Ans K Spec Status X XAns) Unit) :
    List ((o : Op K Spec Status X) → Ans K Spec Status X XAns o) → Focus Spec Status X XAns k₀ → Prop
  | [], _ => True
  | script :: scripts, w => Along name script cond prog w.fresh ∧
      AlongRounds name cond prog scripts (exec name script prog w.fresh)

instance decidableAlongRounds
    {cond : Focus Spec Status X XAns k₀ → (o : Op K Spec Status X) → Ans K Spec Status X XAns o → Prop}
    [∀ w o a, Decidable (cond w o a)] {prog : Prog (Op K Spec Status X) (Ans K Spec Status X XAns) Unit} :
    (scripts : List ((o : Op K Spec Status X) → Ans K Spec Status X XAns o)) →
      (w : Focus Spec Status X XAns k₀) → Decidable (AlongRounds name cond prog scripts w)
  | [], _ => .isTrue trivial
  | script :: scripts, w => @instDecidableAnd _ _ inferInstance
      (decidableAlongRounds scripts (exec name script prog w.fresh))

variable {cond : Focus Spec Status X XAns k₀ → (o : Op K Spec Status X) → Ans K Spec Status X XAns o → Prop}
variable {init : Status k₀ → Prop} {prog : Prog (Op K Spec Status X) (Ans K Spec Status X XAns) Unit}

theorem exec_steps {p : Prog (Op K Spec Status X) (Ans K Spec Status X XAns) Unit}
    (h : Along name script cond p w) : ∃ leaf,
    ((system name spec init prog).restrict (fun _ => cond)).Steps ⟨w, fun _ => some p⟩
      ⟨exec name script p w, fun _ => some leaf⟩ := by
  induction p generalizing w with
  | ret a => exact ⟨_, .refl⟩
  | panic _ => exact ⟨_, .refl⟩
  | call o k ih =>
      obtain ⟨leaf, hrun⟩ := ih _ h.2
      exact ⟨leaf, System.Steps.trans (.single (.single_call ⟨respond_sem name script w o, h.1⟩)) hrun⟩

/-- **Scripted runs are runs.** -/
theorem rounds_reachable {scripts : List ((o : Op K Spec Status X) → Ans K Spec Status X XAns o)}
    {o : Object (Spec k₀) (Status k₀)} (hn : o.name = name) (hs : o.spec = spec) (hi : init o.status)
    (h : AlongRounds name cond prog scripts (initial o)) :
    ((system name spec init prog).restrict (fun _ => cond)).Reachable
      ⟨rounds name prog scripts (initial o), fun _ => none⟩ := by
  refine ⟨initial o, ⟨o, hn, hs, hi, rfl⟩, ?_⟩
  generalize initial o = w at h
  induction scripts generalizing w with
  | nil => exact .refl
  | cons script scripts ih =>
      obtain ⟨leaf, hrun⟩ := exec_steps script h.1
      have hstart : ((system name spec init prog).restrict (fun _ => cond)).Step ⟨w, fun _ => none⟩
          ⟨w.fresh, fun _ => some prog⟩ := .single_start ⟨rfl, rfl⟩
      exact ((System.Steps.single hstart).trans hrun).trans
        (System.Steps.trans (.single .single_stop) (ih _ h.2))

end Script

end Focus

end Etos.Kube
