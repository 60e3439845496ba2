import Mathlib.Data.Set.Finite.Basic
import Etos.Encoding.Utf8
import Etos.Fs.Path

/-!
# `Fs.Tree` — a tree of directories and files

The calls of a POSIX file system without symbolic links, as far as programs that save files need them: does a path
exist, make a directory with its parents, open a file for writing, write at a position, read, and unlink. A file is a
number, and what was written is kept with the number: a file that is open twice, or is not in the tree any more, is
still the same file.

- What a call does to the tree: `mkdirs_spec`, `create_eq_some`, `unlink_eq_some`.
- `Grows`: all that was there still is. Nothing but `unlink` takes anything away (`mkdirs_grows`, `create_grows`).
- `mkdirs_walk`: the way that `mkdirs` made can be walked.
-/

namespace Etos.Fs

inductive Node where
  | dir
  | file (inode : Nat)
  deriving DecidableEq

/-- What is in a directory is in the tree, and so is the root. Numbers from `next` on have not been given to a file. -/
structure FileSystem where
  node : Loc → Option Node
  data : Nat → Bytes
  next : Nat
  root : node [] = some .dir
  inDir : ∀ l n, node (l ++ [n]) ≠ none → node l = some .dir
  numbered : ∀ l i, node l = some (.file i) → i < next
  finite : {l | node l ≠ none}.Finite

namespace FileSystem

variable (fs : FileSystem)

/-- A new entry in a directory. -/
def link (l : Loc) (n : Part) (x : Node) (next : Nat) (hdir : fs.node l = some .dir) (hfree : fs.node (l ++ [n]) = none)
    (hnext : fs.next ≤ next) (hx : ∀ i, x = .file i → i < next) : FileSystem where
  node := Function.update fs.node (l ++ [n]) (some x)
  data := fs.data
  next := next
  root := by rw [Function.update_of_ne (by simp), fs.root]
  inDir k m h := by
    have hk : k ≠ l ++ [n] ∨ k = l ++ [n] := ne_or_eq k (l ++ [n])
    rcases hk with hk | rfl
    · rw [Function.update_of_ne hk]
      by_cases hkm : k ++ [m] = l ++ [n]
      · rwa [(List.append_inj' hkm rfl).1]
      · rw [Function.update_of_ne hkm] at h
        exact fs.inDir k m h
    · rw [Function.update_of_ne (by simp)] at h
      rw [fs.inDir _ _ h] at hfree
      cases hfree
  numbered k i h := by
    by_cases hk : k = l ++ [n]
    · rw [hk, Function.update_self] at h
      exact hx i (Option.some.inj h)
    · rw [Function.update_of_ne hk] at h
      exact (fs.numbered k i h).trans_le hnext
  finite := by
    refine (fs.finite.insert (l ++ [n])).subset fun k hk => ?_
    by_cases hkl : k = l ++ [n]
    · exact Set.mem_insert_iff.mpr (.inl hkl)
    · refine Set.mem_insert_iff.mpr (.inr ?_)
      rwa [Set.mem_ofPred_eq, Function.update_of_ne hkl] at hk

/-- A file is taken out of its directory. -/
def remove (l : Loc) (i : Nat) (h : fs.node l = some (.file i)) : FileSystem where
  node := Function.update fs.node l none
  data := fs.data
  next := fs.next
  root := by
    have hl : [] ≠ l := by
      rintro rfl
      rw [fs.root] at h
      cases h
    rw [Function.update_of_ne hl, fs.root]
  inDir k m hkm := by
    by_cases hl : k ++ [m] = l
    · rw [hl, Function.update_self] at hkm
      exact absurd rfl hkm
    · rw [Function.update_of_ne hl] at hkm
      have hk : k ≠ l := by
        rintro rfl
        rw [fs.inDir _ _ hkm] at h
        cases h
      rw [Function.update_of_ne hk]
      exact fs.inDir k m hkm
  numbered k j hk := by
    by_cases hl : k = l
    · rw [hl, Function.update_self] at hk
      cases hk
    · rw [Function.update_of_ne hl] at hk
      exact fs.numbered k j hk
  finite := by
    refine fs.finite.subset fun k hk => ?_
    rw [Set.mem_ofPred_eq, Function.update_apply] at hk
    split at hk
    · exact absurd rfl hk
    · exact hk

/-- What is kept of a file changes. -/
def store (i : Nat) (b : Bytes) : FileSystem := { fs with data := Function.update fs.data i b }

/-- A tree of empty directories. -/
def ofDirs (dirs : List Loc) (hroot : [] ∈ dirs) (hdirs : ∀ l ∈ dirs, l.dropLast ∈ dirs) : FileSystem where
  node l := if l ∈ dirs then some .dir else none
  data _ := []
  next := 0
  root := if_pos hroot
  inDir l n h := by
    have hmem : l ++ [n] ∈ dirs := by
      by_contra hmem
      exact h (if_neg hmem)
    have hl := hdirs _ hmem
    rw [List.dropLast_concat] at hl
    exact if_pos hl
  numbered l i h := by
    split at h <;> cases h
  finite := by
    refine dirs.finite_toSet.subset fun l hl => ?_
    by_contra hmem
    exact hl (if_neg hmem)

/-! ## The calls -/

/-- The place at the end of the parts, if there is a directory at every step before it. -/
def walk (l : Loc) : List Part → Option Loc
  | [] => some l
  | p :: ps => if fs.node l = some .dir then walk (down l p) ps else none

/-- `Path.exists`. -/
def pathExists (l : Loc) (parts : List Part) : Bool :=
  match fs.walk l parts with
  | some k => (fs.node k).isSome
  | none => false

/-- `Path.mkdir(exist_ok=True, parents=True)`: the tree, the directories that were made, and whether the call returned
    without an error. -/
def mkdirs (fs : FileSystem) (l : Loc) : List Part → FileSystem × List Loc × Bool
  | [] => (fs, [], fs.node l = some .dir)
  | p :: ps =>
      if hdir : fs.node l = some .dir then
        if p = dotdot then mkdirs fs l.dropLast ps
        else
          match hfree : fs.node (l ++ [p]) with
          | none =>
              let made := mkdirs (fs.link l p .dir fs.next hdir hfree le_rfl nofun) (l ++ [p]) ps
              (made.1, (l ++ [p]) :: made.2.1, made.2.2)
          | some _ => mkdirs fs (l ++ [p]) ps
      else (fs, [], false)

/-- `open(path, "wb+")` of a name in a directory: an existing file is emptied. `none` is an `OSError`. -/
def create (l : Loc) (dirs : List Part) (n : Part) : Option (FileSystem × Nat) :=
  match fs.walk l dirs with
  | none => none
  | some k =>
      if hdir : fs.node k = some .dir then
        if ¬ IsPart n ∨ n = dotdot then none
        else
          match hfree : fs.node (k ++ [n]) with
          | none =>
              some ((fs.link k n (.file fs.next) (fs.next + 1) hdir hfree (Nat.le_succ _)
                fun i hi => by cases hi; exact Nat.lt_succ_self _).store fs.next [], fs.next)
          | some (.file i) => some (fs.store i [], i)
          | some .dir => none
      else none

/-- A write at a position. Space that was never written reads as zeros. -/
def overlay (b : Bytes) (offset : Nat) (chunk : Bytes) : Bytes :=
  b.take offset ++ List.replicate (offset - b.length) 0 ++ chunk ++ b.drop (offset + chunk.length)

/-- `write`, to a file that is open. -/
def write (i offset : Nat) (chunk : Bytes) : FileSystem := fs.store i (overlay (fs.data i) offset chunk)

/-- `open(path, "rb")` and `read`. -/
def read (l : Loc) (parts : List Part) : Option Bytes :=
  match fs.walk l parts with
  | none => none
  | some k =>
      match fs.node k with
      | some (.file i) => some (fs.data i)
      | _ => none

/-- `Path.unlink` of a name in a directory. -/
def unlink (l : Loc) (dirs : List Part) (n : Part) : Option FileSystem :=
  match fs.walk l dirs with
  | none => none
  | some k =>
      if fs.node k = some .dir then
        if n = dotdot then none
        else
          match h : fs.node (k ++ [n]) with
          | some (.file i) => some (fs.remove (k ++ [n]) i h)
          | _ => none
      else none

/-! ## What stays -/

/-- All that was there still is. -/
def Grows (fs fs' : FileSystem) : Prop := ∀ l x, fs.node l = some x → fs'.node l = some x

/-- All directories are still there. -/
def KeepsDirs (fs fs' : FileSystem) : Prop := ∀ l, fs.node l = some .dir → fs'.node l = some .dir

variable {fs} {fs' : FileSystem} {l k : Loc} {p n : Part} {ps qs : List Part} {i : Nat}

theorem Grows.refl : fs.Grows fs := fun _ _ h => h

theorem Grows.trans {fs'' : FileSystem} (h : fs.Grows fs') (h' : fs'.Grows fs'') : fs.Grows fs'' :=
  fun l x hx => h' l x (h l x hx)

theorem Grows.keepsDirs (h : fs.Grows fs') : fs.KeepsDirs fs' := fun l => h l .dir

theorem Grows.none (h : fs.Grows fs') (hl : fs'.node l = none) : fs.node l = none := by
  cases hx : fs.node l with
  | none => rfl
  | some x =>
      rw [h l x hx] at hl
      cases hl

theorem link_grows {x : Node} {next : Nat} {hdir hfree hnext hx} :
    fs.Grows (fs.link l n x next hdir hfree hnext hx) := by
  intro k y hk
  have hne : k ≠ l ++ [n] := by
    rintro rfl
    rw [hfree] at hk
    cases hk
  exact (Function.update_of_ne hne _ _).trans hk

/-- There is a directory above every directory. -/
theorem down_dir (h : fs.node l = some .dir) : fs.node l.dropLast = some .dir := by
  rcases List.eq_nil_or_concat l with rfl | ⟨k, n, rfl⟩
  · exact h
  · rw [List.concat_eq_append, List.dropLast_concat]
    refine fs.inDir k n ?_
    rw [← List.concat_eq_append, h]
    simp

theorem walk_append : fs.walk l (ps ++ qs) = (fs.walk l ps).bind fun k => fs.walk k qs := by
  induction ps generalizing l with
  | nil => rfl
  | cons p ps ih =>
      rw [List.cons_append, walk, walk]
      split
      · exact ih
      · rfl

/-- The text of a path decides where it leads. -/
theorem walk_eq (h : fs.walk l ps = some k) : k = descend l ps := by
  induction ps generalizing l with
  | nil => exact (Option.some.inj h).symm
  | cons p ps ih =>
      rw [walk] at h
      split at h
      · exact ih h
      · cases h

theorem KeepsDirs.walk (hg : fs.KeepsDirs fs') (h : fs.walk l ps = some k) : fs'.walk l ps = some k := by
  induction ps generalizing l with
  | nil => exact h
  | cons p ps ih =>
      rw [FileSystem.walk] at h ⊢
      split at h
      · rename_i hdir
        rw [if_pos (hg _ hdir)]
        exact ih h
      · cases h

/-- A name in a directory exists if the way to the directory can be walked and the name is there. -/
theorem pathExists_concat (hn : n ≠ dotdot) :
    fs.pathExists l (ps ++ [n]) = true ↔
      ∃ k, fs.walk l ps = some k ∧ fs.node k = some .dir ∧ fs.node (k ++ [n]) ≠ none := by
  unfold pathExists
  rw [walk_append]
  cases fs.walk l ps with
  | none => simp
  | some k =>
      rw [Option.bind_some, walk, down_of_ne hn]
      by_cases hdir : fs.node k = some .dir
      · rw [if_pos hdir, walk]
        simp [hdir, Option.isSome_iff_ne_none]
      · rw [if_neg hdir]
        simp [hdir]

/-- There is something at every step of a way that leads to something. -/
theorem pathExists_prefix (h : fs.pathExists l ps = true) (hqs : qs <+: ps) : fs.node (descend l qs) ≠ none := by
  obtain ⟨rs, rfl⟩ := hqs
  unfold pathExists at h
  rw [walk_append] at h
  cases hwalk : fs.walk l qs with
  | none => simp [hwalk] at h
  | some k =>
      rw [← walk_eq hwalk]
      rw [hwalk, Option.bind_some] at h
      cases rs with
      | nil => exact Option.isSome_iff_ne_none.mp h
      | cons r rs =>
          intro hnone
          simp [walk, hnone] at h

/-- `..` is in every directory. -/
theorem pathExists_dotdot (hwalk : fs.walk l ps = some k) (hdir : fs.node k = some .dir) :
    fs.pathExists l (ps ++ [dotdot]) = true := by
  unfold pathExists
  rw [walk_append, hwalk, Option.bind_some, walk, if_pos hdir, walk, down, if_pos rfl]
  simp [down_dir hdir]

/-! ## Making directories -/

/-- No file stands on the way. -/
def Clear (fs : FileSystem) (l : Loc) (ps : List Part) : Prop :=
  ∀ qs, qs <+: ps → ∀ i, fs.node (descend l qs) ≠ some (.file i)

theorem clear_nil : fs.Clear l [] ↔ ∀ i, fs.node l ≠ some (.file i) := by
  unfold Clear
  simp only [List.prefix_nil, forall_eq, descend_nil]

theorem clear_cons : fs.Clear l (p :: ps) ↔ (∀ i, fs.node l ≠ some (.file i)) ∧ fs.Clear (down l p) ps := by
  unfold Clear
  constructor
  · intro h
    refine ⟨h [] List.nil_prefix, fun qs hqs => ?_⟩
    exact h (p :: qs) ((List.prefix_cons_inj p).mpr hqs)
  · rintro ⟨hl, h⟩ qs hqs
    cases qs with
    | nil => exact hl
    | cons q qs =>
        obtain ⟨rfl, htail⟩ := List.cons_prefix_cons.mp hqs
        exact h qs htail

/-- A way that was walked to a directory is clear. -/
theorem walk_clear (h : fs.walk l ps = some k) (hk : fs.node k = some .dir) : fs.Clear l ps := by
  induction ps generalizing l with
  | nil =>
      cases h
      refine clear_nil.mpr fun i => ?_
      rw [hk]
      simp
  | cons p ps ih =>
      rw [walk] at h
      split at h
      · rename_i hdir
        refine clear_cons.mpr ⟨fun i => ?_, ih h⟩
        rw [hdir]
        simp
      · cases h

theorem Clear.left (h : fs.Clear l ps) : ∀ i, fs.node l ≠ some (.file i) := h [] List.nil_prefix

/-- What stands on the way stays there. -/
theorem Grows.clear (hg : fs.Grows fs') (h : fs'.Clear l ps) : fs.Clear l ps :=
  fun qs hqs i hi => h qs hqs i (hg _ _ hi)

/-- A new directory is not in the way. -/
theorem clear_link {hdir hfree hnext hx} (h : fs.Clear l ps) : (fs.link k n .dir i hdir hfree hnext hx).Clear l ps := by
  intro qs hqs j hj
  by_cases hk : descend l qs = k ++ [n]
  · rw [hk] at hj
    have hself : (fs.link k n .dir i hdir hfree hnext hx).node (k ++ [n]) = some .dir := Function.update_self ..
    rw [hself] at hj
    cases hj
  · exact h qs hqs j ((Function.update_of_ne hk _ _).symm.trans hj)

/-- What `mkdirs` does: nothing is taken away, nothing is written, and every directory that was made was missing on the
    way, with no file before it. -/
structure Made (fs : FileSystem) (l : Loc) (ps : List Part) (made : FileSystem × List Loc × Bool) : Prop where
  grows : fs.Grows made.1
  data : made.1.data = fs.data
  next : made.1.next = fs.next
  missing : ∀ k ∈ made.2.1, ∃ qs, qs <+: ps ∧ k = descend l qs ∧ fs.node k = none ∧ fs.Clear l qs

/-- Without anything to do. -/
theorem Made.nothing {ok : Bool} : Made fs l ps (fs, [], ok) := ⟨.refl, rfl, rfl, nofun⟩

/-- After a step to a directory that is there. -/
theorem Made.down {made : FileSystem × List Loc × Bool} (hdir : fs.node l = some .dir)
    (h : Made fs (down l p) ps made) : Made fs l (p :: ps) made where
  grows := h.grows
  data := h.data
  next := h.next
  missing k hk := by
    obtain ⟨qs, hqs, hdescend, hnone, hclear⟩ := h.missing k hk
    refine ⟨p :: qs, (List.prefix_cons_inj p).mpr hqs, hdescend, hnone, clear_cons.mpr ⟨fun i => ?_, hclear⟩⟩
    rw [hdir]
    simp

theorem mkdirs_spec (fs : FileSystem) (l : Loc) (ps : List Part) : Made fs l ps (fs.mkdirs l ps) := by
  induction ps generalizing fs l with
  | nil => exact .nothing
  | cons p ps ih =>
      rw [mkdirs]
      split
      · rename_i hdir
        split
        · rename_i hp
          refine .down hdir ?_
          rw [hp, Fs.down, if_pos rfl]
          exact ih fs _
        · rename_i hp
          have hdown : down l p = l ++ [p] := down_of_ne hp
          have hclear : fs.Clear l [] := clear_nil.mpr fun i => by simp [hdir]
          split
          · rename_i hfree
            have h := ih (fs.link l p .dir fs.next hdir hfree le_rfl nofun) (l ++ [p])
            refine ⟨link_grows.trans h.grows, h.data, h.next, fun k hk => ?_⟩
            rcases List.mem_cons.mp hk with rfl | hk
            · refine ⟨[p], List.cons_prefix_cons.mpr ⟨rfl, List.nil_prefix⟩, hdown.symm, hfree, ?_⟩
              refine clear_cons.mpr ⟨hclear.left, clear_nil.mpr ?_⟩
              rw [hdown, hfree]
              exact nofun
            · obtain ⟨qs, hqs, hdescend, hnone, hqsclear⟩ := h.missing k hk
              refine ⟨p :: qs, (List.prefix_cons_inj p).mpr hqs, ?_, link_grows.none hnone, ?_⟩
              · rw [hdescend, descend_cons, hdown]
              · refine clear_cons.mpr ⟨hclear.left, ?_⟩
                rw [hdown]
                exact link_grows.clear hqsclear
          · refine .down hdir ?_
            rw [hdown]
            exact ih fs _
      · exact .nothing

/-- **The way that was made can be walked**, and it leads to a directory. -/
theorem mkdirs_walk (h : (fs.mkdirs l ps).2.2 = true) :
    (fs.mkdirs l ps).1.walk l ps = some (descend l ps) ∧ (fs.mkdirs l ps).1.node (descend l ps) = some .dir := by
  induction ps generalizing fs l with
  | nil =>
      rw [mkdirs] at h ⊢
      exact ⟨rfl, of_decide_eq_true h⟩
  | cons p ps ih =>
      have hgrows := (mkdirs_spec fs l (p :: ps)).grows
      rw [mkdirs] at h hgrows ⊢
      split at h
      · rename_i hdir
        rw [dif_pos hdir] at hgrows ⊢
        rw [walk, if_pos (hgrows _ _ hdir), descend_cons]
        split at h
        · rename_i hp
          rw [if_pos hp, hp, Fs.down, if_pos rfl]
          exact ih h
        · rename_i hp
          rw [if_neg hp, down_of_ne hp]
          split at h <;> exact ih h
      · cases h

/-- **All that is missing on the way is made**, as far as no file stands before it. -/
theorem mem_mkdirs (hdir : fs.node l = some .dir) (hqs : qs <+: ps) (hclear : fs.Clear l qs)
    (hnone : fs.node (descend l qs) = none) : descend l qs ∈ (fs.mkdirs l ps).2.1 := by
  induction qs generalizing fs l ps with
  | nil =>
      rw [descend_nil, hdir] at hnone
      cases hnone
  | cons q qs ih =>
      obtain ⟨ps, rfl, htail⟩ := List.cons_prefix_iff.mp hqs
      obtain ⟨-, hclear⟩ := clear_cons.mp hclear
      rw [descend_cons] at hnone ⊢
      rw [mkdirs, dif_pos hdir]
      split
      · rename_i hq
        rw [hq, Fs.down, if_pos rfl] at hclear hnone ⊢
        exact ih (down_dir hdir) htail hclear hnone
      · rename_i hq
        rw [down_of_ne hq] at hclear hnone ⊢
        split
        · rename_i hfree
          by_cases hself : descend (l ++ [q]) qs = l ++ [q]
          · rw [hself]
            exact List.mem_cons_self
          · refine List.mem_cons_of_mem _ (ih (Function.update_self ..) htail (clear_link hclear) ?_)
            exact (Function.update_of_ne hself _ _).trans hnone
        · rename_i x hx
          cases x with
          | dir => exact ih hx htail hclear hnone
          | file i => exact absurd hx (hclear.left i)

/-- The call returns if no file stands on the way. -/
theorem mkdirs_ok (hdir : fs.node l = some .dir) (hclear : fs.Clear l ps) : (fs.mkdirs l ps).2.2 = true := by
  induction ps generalizing fs l with
  | nil => exact decide_eq_true hdir
  | cons p ps ih =>
      obtain ⟨-, hclear⟩ := clear_cons.mp hclear
      rw [mkdirs, dif_pos hdir]
      split
      · rename_i hp
        rw [hp, Fs.down, if_pos rfl] at hclear
        exact ih (down_dir hdir) hclear
      · rename_i hp
        rw [down_of_ne hp] at hclear
        split
        · exact ih (Function.update_self ..) (clear_link hclear)
        · rename_i x hx
          cases x with
          | dir => exact ih hx hclear
          | file i => exact absurd hx (hclear.left i)

/-! ## Files -/

/-- **Opening a file for writing**: it is new, or it was there and is empty now. -/
theorem create_eq_some (h : fs.create l ps n = some (fs', i)) :
    ∃ k, fs.walk l ps = some k ∧ fs.node k = some .dir ∧ IsPart n ∧ n ≠ dotdot ∧
      (fs.node (k ++ [n]) = none ∧ i = fs.next ∧ fs'.next = i + 1 ∧
          fs'.node = Function.update fs.node (k ++ [n]) (some (.file i)) ∨
        fs.node (k ++ [n]) = some (.file i) ∧ fs'.next = fs.next ∧ fs'.node = fs.node) ∧
      fs'.data = Function.update fs.data i [] := by
  unfold create at h
  split at h
  · cases h
  · rename_i k hwalk
    split at h
    · rename_i hdir
      split at h
      · cases h
      · rename_i hn
        rw [not_or, not_not] at hn
        refine ⟨k, hwalk, hdir, hn.1, hn.2, ?_⟩
        split at h
        · rename_i hfree
          obtain ⟨rfl, rfl⟩ := Prod.mk.inj (Option.some.inj h)
          exact ⟨.inl ⟨hfree, rfl, rfl, rfl⟩, rfl⟩
        · rename_i j hj
          obtain ⟨rfl, rfl⟩ := Prod.mk.inj (Option.some.inj h)
          exact ⟨.inr ⟨hj, rfl, rfl⟩, rfl⟩
        · cases h
    · cases h

theorem create_grows (h : fs.create l ps n = some (fs', i)) : fs.Grows fs' := by
  obtain ⟨k, -, -, -, -, hcases, -⟩ := create_eq_some h
  intro m x hm
  rcases hcases with ⟨hfree, -, -, hnode⟩ | ⟨-, -, hnode⟩
  · have hne : m ≠ k ++ [n] := by
      rintro rfl
      rw [hfree] at hm
      cases hm
    rw [hnode, Function.update_of_ne hne, hm]
  · rw [hnode, hm]

/-- A free name in a directory can be opened. -/
theorem create_free (hwalk : fs.walk l ps = some k) (hdir : fs.node k = some .dir) (hn : IsPart n) (hup : n ≠ dotdot)
    (hfree : fs.node (k ++ [n]) = none) : ∃ fs' i, fs.create l ps n = some (fs', i) := by
  unfold create
  simp only [hwalk]
  rw [dif_pos hdir, if_neg (by simp [hn, hup])]
  split
  · exact ⟨_, _, rfl⟩
  · rename_i j hj
    rw [hfree] at hj
    cases hj
  · rename_i hj
    rw [hfree] at hj
    cases hj

/-- **Unlinking** takes a file out of the tree, and nothing else. -/
theorem unlink_eq_some (h : fs.unlink l ps n = some fs') :
    ∃ k i, fs.walk l ps = some k ∧ fs.node (k ++ [n]) = some (.file i) ∧
      fs'.node = Function.update fs.node (k ++ [n]) none ∧ fs'.data = fs.data ∧ fs'.next = fs.next := by
  unfold unlink at h
  split at h
  · cases h
  · rename_i k hwalk
    split at h
    · split at h
      · cases h
      · split at h
        · rename_i i hi
          cases Option.some.inj h
          exact ⟨k, i, hwalk, hi, rfl, rfl, rfl⟩
        · cases h
    · cases h

theorem unlink_keepsDirs (h : fs.unlink l ps n = some fs') : fs.KeepsDirs fs' := by
  obtain ⟨k, i, -, hfile, hnode, -, -⟩ := unlink_eq_some h
  intro m hm
  have hne : m ≠ k ++ [n] := by
    rintro rfl
    rw [hfile] at hm
    cases hm
  rw [hnode, Function.update_of_ne hne, hm]

/-- A file in a directory can be read. -/
theorem read_concat (hn : n ≠ dotdot) (hwalk : fs.walk l ps = some k) (hdir : fs.node k = some .dir)
    (hfile : fs.node (k ++ [n]) = some (.file i)) : fs.read l (ps ++ [n]) = some (fs.data i) := by
  have hpath : fs.walk l (ps ++ [n]) = some (k ++ [n]) := by
    rw [walk_append, hwalk, Option.bind_some, walk, if_pos hdir, walk, down_of_ne hn]
  unfold read
  simp only [hpath, hfile]

/-- A file in a directory can be unlinked. -/
theorem unlink_file (hn : n ≠ dotdot) (hwalk : fs.walk l ps = some k) (hdir : fs.node k = some .dir)
    (hfile : fs.node (k ++ [n]) = some (.file i)) : ∃ fs', fs.unlink l ps n = some fs' := by
  unfold unlink
  simp only [hwalk, hdir, if_true, if_neg hn]
  split
  · exact ⟨_, rfl⟩
  · rename_i hnot
    exact absurd hfile (hnot i)

/-- What is in the file at a place. -/
def contentAt (fs : FileSystem) (l : Loc) : Option Bytes :=
  match fs.node l with
  | some (.file i) => some (fs.data i)
  | _ => none

/-- The same files, whatever became of the directories. -/
def SameFiles (fs fs' : FileSystem) : Prop := ∀ l, fs'.contentAt l = fs.contentAt l

theorem contentAt_congr (hnode : fs'.node l = fs.node l)
    (hdata : ∀ i, fs.node l = some (.file i) → fs'.data i = fs.data i) : fs'.contentAt l = fs.contentAt l := by
  unfold contentAt
  rw [hnode]
  split
  · rename_i i hi
    rw [hdata i hi]
  · rfl

theorem SameFiles.refl : fs.SameFiles fs := fun _ => rfl

theorem SameFiles.trans {fs'' : FileSystem} (h : fs.SameFiles fs') (h' : fs'.SameFiles fs'') : fs.SameFiles fs'' :=
  fun l => (h' l).trans (h l)

/-- A new directory is no file. -/
theorem link_dir_sameFiles {hdir hfree hnext hx} : fs.SameFiles (fs.link l n .dir i hdir hfree hnext hx) := by
  intro k
  by_cases hk : k = l ++ [n]
  · subst hk
    have hself : (fs.link l n .dir i hdir hfree hnext hx).node (l ++ [n]) = some .dir := Function.update_self ..
    unfold contentAt
    rw [hself, hfree]
  · exact contentAt_congr (Function.update_of_ne hk _ _) fun _ _ => rfl

/-- Directories that are made change no file. -/
theorem mkdirs_sameFiles (fs : FileSystem) (l : Loc) (ps : List Part) : fs.SameFiles (fs.mkdirs l ps).1 := by
  induction ps generalizing fs l with
  | nil => exact .refl
  | cons p ps ih =>
      rw [mkdirs]
      split
      · split
        · exact ih fs _
        · split
          · exact link_dir_sameFiles.trans (ih _ _)
          · exact ih fs _
      · exact .refl

/-- Among infinitely many names there is a free one. -/
theorem exists_free {f : Nat → Part} (hf : Function.Injective f) (fs : FileSystem) (l : Loc) :
    ∃ j, fs.node (l ++ [f j]) = none := by
  by_contra h
  push Not at h
  have hinj : Function.Injective fun j => l ++ [f j] := fun a b hab => hf (by simpa using hab)
  exact Set.infinite_range_of_injective hinj (fs.finite.subset (Set.range_subset_iff.mpr h))

/-- A write at the end of a file. -/
theorem overlay_length (b chunk : Bytes) : overlay b b.length chunk = b ++ chunk := by
  unfold overlay
  simp

end FileSystem

end Etos.Fs
