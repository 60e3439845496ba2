import Etos.Kube.Focus
import Etos.Kube.Store
import Etos.Prog.Paths

/-!
# `Kube.Quiet` — one program at work in a quiet namespace

The failures of `Store.Sem` and `Focus.Sem` (stale reads, rejected writes, lost responses) say what a program must
survive. To say what it must *achieve*, it is run in a namespace in which nothing fails and nobody else writes:
the state is the one object the program works on, everything else is answered from a fixed content `s`. A missing
object is still not found, and the program can still get into its own way: a write of its object with an old
resource version conflicts.

The rules `quiet_get`, `quiet_status`, `quiet_update` and `quiet_other` run a program along all its paths.
-/

namespace Etos.Kube

variable {K : Type} [DecidableEq K] {Spec Status : K → Type} {X : Type} {XAns : X → Type} {k₀ : K}

/-- The answers of a server that works, about the objects of `s`; `ext` restricts the calls that go elsewhere. -/
def Store.answers (adm : Admission K Spec Status) (ext : (x : X) → XAns x → Prop)
    (s : Store K Spec Status) : (o : Op K Spec Status X) → Ans K Spec Status X XAns o → Prop
  | .get k n, .ok x => s.find k n = some x
  | .get k n, .error e => s.find k n = none ∧ e.isNotFound = true
  | .list k sel, .ok xs => xs = s.list k sel
  | .list _ _, .error _ => False
  | .create _ _, .ok _ => True
  | .create _ _, .error _ => False
  | .update k o, .ok x => ∃ o' s', adm s k o o' ∧ s.updated k o' = some (x, s')
  | .update _ _, .error _ => False
  | .updateStatus k o, .ok x => ∃ s', s.statusUpdated k o = some (x, s')
  | .updateStatus _ _, .error _ => False
  | .delete _ _, .ok _ => True
  | .delete _ _, .error e => e.isNotFound = true
  | .ext x, a => ext x a

/-- The next version of the object, with the metadata and specification of `o`. -/
def nextMeta {S T : Type} (x o : Object S T) : Object S T :=
  { o with
    metadata := { o.metadata with resourceVersion := x.metadata.resourceVersion + 1 }
    status := x.status }

/-- The next version of the object, with the status of `o`. -/
def nextStatus {S T : Type} (x o : Object S T) : Object S T :=
  { x with
    metadata := { x.metadata with resourceVersion := x.metadata.resourceVersion + 1 }
    status := o.status }

/-- **A call in a quiet namespace.** The state is the stored version of the object `name`. -/
inductive Quiet (k₀ : K) (adm : Admission K Spec Status) (ext : (x : X) → XAns x → Prop)
    (s : Store K Spec Status) (name : String) :
    Etos.Sem (Op K Spec Status X) (Ans K Spec Status X XAns) (Object (Spec k₀) (Status k₀)) where
  | get {x} : Quiet k₀ adm ext s name x (.get k₀ name) (.ok x) x
  | update {x o} (hn : o.name = name) (hv : o.metadata.resourceVersion = x.metadata.resourceVersion) :
      Quiet k₀ adm ext s name x (.update k₀ o) (.ok (nextMeta x o)) (nextMeta x o)
  | updateConflict {x o e} (hn : o.name = name)
      (hv : o.metadata.resourceVersion ≠ x.metadata.resourceVersion) (he : e.isConflict = true) :
      Quiet k₀ adm ext s name x (.update k₀ o) (.error e) x
  | status {x o} (hn : o.name = name) (hv : o.metadata.resourceVersion = x.metadata.resourceVersion) :
      Quiet k₀ adm ext s name x (.updateStatus k₀ o) (.ok (nextStatus x o)) (nextStatus x o)
  | statusConflict {x o e} (hn : o.name = name)
      (hv : o.metadata.resourceVersion ≠ x.metadata.resourceVersion) (he : e.isConflict = true) :
      Quiet k₀ adm ext s name x (.updateStatus k₀ o) (.error e) x
  | other {x o a} (h : ¬ o.onFocus k₀ name) (ha : s.answers adm ext o a) : Quiet k₀ adm ext s name x o a x

section Rules

variable {adm : Admission K Spec Status} {ext : (x : X) → XAns x → Prop} {s : Store K Spec Status}
  {name : String} {P : Object (Spec k₀) (Status k₀) → Op K Spec Status X → Prop} {α : Type}
  {Q : α → Object (Spec k₀) (Status k₀) → Prop} {x o : Object (Spec k₀) (Status k₀)}

/-- Reading the object answers with what is stored. -/
theorem quiet_get
    {k : Except Err (Object (Spec k₀) (Status k₀)) → Prog (Op K Spec Status X) (Ans K Spec Status X XAns) α}
    (h : (k (.ok x)).Reaches (Quiet k₀ adm ext s name) P Q x) :
    (Prog.call (.get k₀ name) k).Reaches (Quiet k₀ adm ext s name) P Q x := by
  refine .inr fun a x' hq => ?_
  cases hq with
  | get => exact h
  | other hf _ => exact absurd (.inl rfl) hf

/-- Writing the status from the stored version succeeds. -/
theorem quiet_status
    {k : Except Err (Object (Spec k₀) (Status k₀)) → Prog (Op K Spec Status X) (Ans K Spec Status X XAns) α}
    (hn : o.name = name) (hv : o.metadata.resourceVersion = x.metadata.resourceVersion)
    (h : (k (.ok (nextStatus x o))).Reaches (Quiet k₀ adm ext s name) P Q (nextStatus x o)) :
    (Prog.call (.updateStatus k₀ o) k).Reaches (Quiet k₀ adm ext s name) P Q x := by
  refine .inr fun a x' hq => ?_
  cases hq with
  | status => exact h
  | statusConflict _ hne _ => exact absurd hv hne
  | other hf _ => exact absurd (.inr (.inr ⟨o, rfl, hn⟩)) hf

/-- Updating the object from the stored version succeeds. -/
theorem quiet_update
    {k : Except Err (Object (Spec k₀) (Status k₀)) → Prog (Op K Spec Status X) (Ans K Spec Status X XAns) α}
    (hn : o.name = name) (hv : o.metadata.resourceVersion = x.metadata.resourceVersion)
    (h : (k (.ok (nextMeta x o))).Reaches (Quiet k₀ adm ext s name) P Q (nextMeta x o)) :
    (Prog.call (.update k₀ o) k).Reaches (Quiet k₀ adm ext s name) P Q x := by
  refine .inr fun a x' hq => ?_
  cases hq with
  | update => exact h
  | updateConflict _ hne _ => exact absurd hv hne
  | other hf _ => exact absurd (.inr (.inl ⟨o, rfl, hn⟩)) hf

/-- Any other call is answered from the content, and leaves the object alone. -/
theorem quiet_other {op : Op K Spec Status X}
    {k : Ans K Spec Status X XAns op → Prog (Op K Spec Status X) (Ans K Spec Status X XAns) α}
    (hf : ¬ op.onFocus k₀ name)
    (h : ∀ a, s.answers adm ext op a → (k a).Reaches (Quiet k₀ adm ext s name) P Q x) :
    (Prog.call op k).Reaches (Quiet k₀ adm ext s name) P Q x := by
  refine .inr fun a x' hq => ?_
  cases hq with
  | other _ ha => exact h a ha
  | get => exact absurd (.inl rfl) hf
  | update hn _ => exact absurd (.inr (.inl ⟨_, rfl, hn⟩)) hf
  | updateConflict hn _ _ => exact absurd (.inr (.inl ⟨_, rfl, hn⟩)) hf
  | status hn _ => exact absurd (.inr (.inr ⟨_, rfl, hn⟩)) hf
  | statusConflict hn _ _ => exact absurd (.inr (.inr ⟨_, rfl, hn⟩)) hf

end Rules

end Etos.Kube
