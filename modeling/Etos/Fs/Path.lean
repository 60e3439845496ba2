import Etos.Text.Python
import Mathlib.Data.List.Infix

/-!
# `Fs.Path` — paths as text, and the places they lead to

A `PurePath` is what Python's `pathlib` makes of a POSIX path: whether it starts at the root, and its parts. Empty parts
and `.` are dropped, `..` is kept, and joining with a path that starts at the root forgets what was there before.

Where there are no symbolic links, a path leads to the place `descend` gives, with `..` one step up: the text decides,
as long as there is a directory at every step of the way.
-/

namespace Etos.Fs

/-- A name in a directory, or `..`. -/
abbrev Part := List Char

/-- A place in the tree: the names from the root. -/
abbrev Loc := List Part

def dotdot : Part := ['.', '.']

/-- What can be a part of a path. -/
def IsPart (p : Part) : Prop := p ≠ [] ∧ p ≠ ['.'] ∧ '/' ∉ p

instance : DecidablePred IsPart := fun p => inferInstanceAs (Decidable (p ≠ [] ∧ p ≠ ['.'] ∧ '/' ∉ p))

/-- `pathlib.PurePosixPath`. -/
@[ext]
structure PurePath where
  absolute : Bool
  parts : List Part
  isPart : ∀ p ∈ parts, IsPart p

namespace PurePath

/-- The path a text stands for. -/
def ofText (s : List Char) : PurePath where
  absolute := s.head? = some '/'
  parts := (s.splitOn '/').filter fun p => p ≠ [] ∧ p ≠ ['.']
  isPart p hp := by
    obtain ⟨hmem, h⟩ := List.mem_filter.mp hp
    have hne := of_decide_eq_true h
    exact ⟨hne.1, hne.2, (Text.mem_splitOn hmem).1⟩

/-- `str`. -/
def str (p : PurePath) : List Char :=
  let tail := ['/'].intercalate p.parts
  if p.absolute then '/' :: tail else if tail = [] then ['.'] else tail

/-- `joinpath`. -/
def joinpath (p q : PurePath) : PurePath :=
  if q.absolute then q
  else
    { absolute := p.absolute
      parts := p.parts ++ q.parts
      isPart := fun x hx => (List.mem_append.mp hx).elim (p.isPart x) (q.isPart x) }

/-- `parent`. -/
def parent (p : PurePath) : PurePath where
  absolute := p.absolute
  parts := p.parts.dropLast
  isPart x hx := p.isPart x (List.mem_of_mem_dropLast hx)

@[simp] theorem parent_parts (p : PurePath) : p.parent.parts = p.parts.dropLast := rfl

/-- `name`; empty if there are no parts. -/
def name (p : PurePath) : Part := p.parts.getLastD []

/-- `with_name`; `none` is a `ValueError`. -/
def withName (p : PurePath) (n : Part) : Option PurePath :=
  if h : p.parts ≠ [] ∧ IsPart n then
    some
      { absolute := p.absolute
        parts := p.parts.dropLast ++ [n]
        isPart := fun x hx =>
          (List.mem_append.mp hx).elim (fun hx => p.isPart x (List.mem_of_mem_dropLast hx))
            fun hx => List.mem_singleton.mp hx ▸ h.2 }
  else none

/-- `relative_to`; `none` is a `ValueError`. -/
def relativeTo (p q : PurePath) : Option PurePath :=
  if p.absolute = q.absolute ∧ q.parts <+: p.parts then
    some
      { absolute := false
        parts := p.parts.drop q.parts.length
        isPart := fun x hx => p.isPart x (List.mem_of_mem_drop hx) }
  else none

/-- A path with a name is its parent and the name. -/
theorem parts_eq {p : PurePath} (h : p.parts ≠ []) : p.parts = p.parent.parts ++ [p.name] := by
  have hname : p.name = p.parts.getLast h := by
    unfold name
    rw [List.getLastD_eq_getLast?, List.getLast?_eq_some_getLast h]
    rfl
  rw [hname]
  exact (List.dropLast_append_getLast h).symm

theorem name_isPart {p : PurePath} (h : p.parts ≠ []) : IsPart p.name := by
  refine p.isPart p.name ?_
  rw [parts_eq h]
  exact List.mem_append_right _ (List.mem_singleton_self _)

/-- A path with another name has the same parent. -/
theorem withName_eq_some {p q : PurePath} {n : Part} (h : p.withName n = some q) :
    p.parts ≠ [] ∧ q.absolute = p.absolute ∧ q.parts = p.parent.parts ++ [n] := by
  unfold withName at h
  split at h
  · rename_i hp
    cases h
    exact ⟨hp.1, rfl, rfl⟩
  · cases h

theorem withName_parent {p q : PurePath} {n : Part} (h : p.withName n = some q) : q.parent = p.parent := by
  obtain ⟨-, habsolute, hparts⟩ := withName_eq_some h
  refine PurePath.ext habsolute ?_
  rw [parent_parts, hparts, List.dropLast_concat]

/-- A path with a name can be given another one. -/
theorem exists_withName {p : PurePath} {n : Part} (hp : p.parts ≠ []) (hn : IsPart n) :
    ∃ q, p.withName n = some q ∧ q.parent = p.parent ∧ q.parts ≠ [] ∧ q.name = n := by
  obtain ⟨q, hq⟩ : ∃ q, p.withName n = some q := by
    unfold withName
    rw [dif_pos ⟨hp, hn⟩]
    exact ⟨_, rfl⟩
  have hparts := (withName_eq_some hq).2.2
  refine ⟨q, hq, withName_parent hq, by simp [hparts], ?_⟩
  unfold name
  rw [hparts, List.getLastD_concat]

end PurePath

/-! ## Places -/

/-- One part further: `..` leads up, and at the root it leads nowhere. -/
def down (l : Loc) (p : Part) : Loc := if p = dotdot then l.dropLast else l ++ [p]

/-- The place at the end of the parts. -/
def descend (l : Loc) (parts : List Part) : Loc := parts.foldl down l

@[simp] theorem descend_nil (l : Loc) : descend l [] = l := rfl

@[simp] theorem descend_cons (l : Loc) (p : Part) (ps : List Part) : descend l (p :: ps) = descend (down l p) ps := rfl

theorem down_of_ne {l : Loc} {p : Part} (h : p ≠ dotdot) : down l p = l ++ [p] := if_neg h

end Etos.Fs
