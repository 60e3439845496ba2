import Etos.Cli.Saved

/-!
# `Cli.Failed` — what a failed download leaves behind

One attempt to download an item: a worker that moves alone, with exceptions anywhere. A file whose checksum is wrong is
unlinked where it was made. No other exception after the file was opened is handled there: not one while the response
is received, nor one of `__verify` that is no `IntegrityError`. **`failed_leaves_no_file_iff`**: a failed attempt leaves
the files as they were unless it is interrupted while it has a file.
-/

namespace Etos.Cli

open Fs

section Attempts

variable (ws : Workspace) (content : String → Bytes) (hexdigest : String → Bytes → String) (job : Job)

/-- `__download`, from a phase on: what happens to the worker, until there is no more to happen. -/
def attempt : List WorkerAction → Phase → FileSystem → Option (Phase × FileSystem)
  | [], phase, fs => some (phase, fs)
  | a :: actions, phase, fs =>
      match (⟨job, phase⟩ : Worker).act ws content hexdigest fs a with
      | none => none
      | some m => attempt actions m.phase m.fs

/-- An exception that is raised while there is a file. -/
def Phase.loses (phase : Phase) : WorkerAction → Bool
  | .raise => phase.file?.isSome
  | _ => false

/-- There is such an exception in the attempt. -/
def interrupted : List WorkerAction → Phase → FileSystem → Bool
  | [], _, _ => false
  | a :: actions, phase, fs =>
      match (⟨job, phase⟩ : Worker).act ws content hexdigest fs a with
      | none => false
      | some m => phase.loses a || interrupted actions m.phase m.fs

end Attempts

variable {ws : Workspace} {content : String → Bytes} {hexdigest : String → Bytes → String} {job : Job}
  {fs₀ fs : FileSystem} {phase : Phase}

/-- There is one more file than there was, and the path leads to it. -/
structure Beside (ws : Workspace) (fs₀ fs : FileSystem) (file : OpenFile) : Prop where
  parts : file.path.parts ≠ []
  name : file.path.name ≠ dotdot
  walk : fs.walk (ws.start file.path) file.path.parent.parts = some (ws.directory file.path)
  dir : fs.node (ws.directory file.path) = some .dir
  node : fs.node (ws.entry file.path) = some (.file file.inode)
  new : fs₀.contentAt (ws.entry file.path) = none
  others : ∀ l, l ≠ ws.entry file.path → fs.contentAt l = fs₀.contentAt l ∧ fs.node l ≠ some (.file file.inode)

/-- How far an attempt has got. -/
structure AttemptInv (ws : Workspace) (fs₀ fs : FileSystem) (phase : Phase) : Prop where
  same : phase.file? = none → fs₀.SameFiles fs
  free : ∀ chunks path, phase = .opening chunks path → fs.pathExists (ws.start path) path.parts = false
  file : ∀ file, phase.file? = some file → Beside ws fs₀ fs file

/-! ## The file -/

/-- A path that was free is opened. -/
theorem Beside.create {fs' : FileSystem} {path : PurePath} {inode : Nat} (hsame : fs₀.SameFiles fs)
    (hfree : fs.pathExists (ws.start path) path.parts = false)
    (hcreate : fs.create (ws.start path) path.parent.parts path.name = some (fs', inode)) :
    Beside ws fs₀ fs' ⟨path, inode⟩ := by
  obtain ⟨hnone, hinode, hnode, hdata⟩ := create_fresh hcreate hfree
  obtain ⟨k, hwalk, hdir, hpart, hname, -, -⟩ := FileSystem.create_eq_some hcreate
  have hgrows := FileSystem.create_grows hcreate
  have hk : k = ws.directory path := FileSystem.walk_eq hwalk
  subst hk
  have hparts : path.parts ≠ [] := fun hnil => hpart.1 (by simp [PurePath.name, hnil])
  refine ⟨hparts, hname, hgrows.keepsDirs.walk hwalk, hgrows _ _ hdir, ?_, ?_, fun l hl => ?_⟩
  · show fs'.node (ws.entry path) = some (.file inode)
    rw [hnode, Function.update_self]
  · show fs₀.contentAt (ws.entry path) = none
    rw [← hsame, FileSystem.contentAt, hnone]
  · have hl' : fs'.node l = fs.node l := by rw [hnode, Function.update_of_ne hl]
    -- all other files have smaller numbers
    have hold : ∀ i, fs.node l = some (.file i) → i ≠ inode := by
      intro i hi heq
      have hlt := fs.numbered l i hi
      omega
    refine ⟨(FileSystem.contentAt_congr hl' fun i hi => ?_).trans (hsame l), fun hfile => ?_⟩
    · rw [hdata, Function.update_of_ne (hold i hi)]
    · rw [hl'] at hfile
      exact hold inode hfile rfl

/-- What is written is in the file. -/
theorem Beside.write {file : OpenFile} (h : Beside ws fs₀ fs file) (offset : Nat) (chunk : Bytes) :
    Beside ws fs₀ (fs.write file.inode offset chunk) file where
  parts := h.parts
  name := h.name
  walk := by
    have hkeep : fs.KeepsDirs (fs.write file.inode offset chunk) := fun _ hdir => hdir
    exact hkeep.walk h.walk
  dir := h.dir
  node := h.node
  new := h.new
  others l hl := by
    obtain ⟨hcontent, hother⟩ := h.others l hl
    have hsame : (fs.write file.inode offset chunk).contentAt l = fs.contentAt l := by
      refine FileSystem.contentAt_congr rfl fun i hi => ?_
      refine Function.update_of_ne ?_ _ _
      rintro rfl
      exact hother hi
    exact ⟨hsame.trans hcontent, hother⟩

theorem Beside.not_sameFiles {file : OpenFile} (h : Beside ws fs₀ fs file) : ¬ fs₀.SameFiles fs := by
  intro hsame
  have hentry := hsame (ws.entry file.path)
  rw [h.new, FileSystem.contentAt, h.node] at hentry
  cases hentry

/-- The file can be read. -/
theorem Beside.verify_isSome {file : OpenFile} (h : Beside ws fs₀ fs file) (item : Downloadable) :
    verify ws hexdigest fs item file.path ≠ none := by
  have hread : fs.read (ws.start file.path) file.path.parts = some (fs.data file.inode) := by
    rw [PurePath.parts_eq h.parts]
    exact FileSystem.read_concat h.name h.walk h.dir h.node
  unfold verify
  rw [hread]
  split <;> exact nofun

/-- The file can be unlinked, and then the files are as they were. -/
theorem Beside.unlink {file : OpenFile} (h : Beside ws fs₀ fs file) :
    ∃ fs', fs.unlink (ws.start file.path) file.path.parent.parts file.path.name = some fs' ∧ fs₀.SameFiles fs' := by
  obtain ⟨fs', hunlink⟩ := FileSystem.unlink_file h.name h.walk h.dir h.node
  refine ⟨fs', hunlink, fun l => ?_⟩
  obtain ⟨k, i, hwalk, -, hnode, hdata, -⟩ := FileSystem.unlink_eq_some hunlink
  have hk : k = ws.directory file.path := FileSystem.walk_eq hwalk
  subst hk
  by_cases hl : l = ws.entry file.path
  · subst hl
    have hgone : fs'.node (ws.entry file.path) = none := by
      rw [hnode]
      exact Function.update_self ..
    rw [h.new, FileSystem.contentAt, hgone]
  · refine (FileSystem.contentAt_congr ?_ fun i _ => by rw [hdata]).trans (h.others l hl).1
    rw [hnode]
    exact Function.update_of_ne hl _ _

/-! ## Steps -/

/-- Nothing is said of the file while there is none. -/
theorem AttemptInv.same_of (hfile : phase.file? = none) (hopening : ∀ chunks path, phase ≠ .opening chunks path)
    (hsame : fs₀.SameFiles fs) : AttemptInv ws fs₀ fs phase where
  same _ := hsame
  free chunks path h := absurd h (hopening chunks path)
  file file h := by
    rw [hfile] at h
    cases h

theorem AttemptInv.beside {file : OpenFile} (hfile : phase.file? = some file) (h : Beside ws fs₀ fs file) :
    AttemptInv ws fs₀ fs phase where
  same hnone := by
    rw [hfile] at hnone
    cases hnone
  free chunks path hopening := by
    rw [hopening] at hfile
    cases hfile
  file file' hfile' := by
    rw [hfile] at hfile'
    cases hfile'
    exact h

/-- A call of the worker. -/
theorem AttemptInv.work {m : Move} (h : AttemptInv ws fs₀ fs phase)
    (hwork : (⟨job, phase⟩ : Worker).work ws hexdigest fs = some m) : AttemptInv ws fs₀ m.fs m.phase := by
  cases phase with
  | requesting => cases hwork
  | finished saved => cases hwork
  | preparing chunks =>
      cases hwork
      refine .same_of ?_ ?_ (h.same rfl) <;> split <;> first | rfl | exact nofun
  | making chunks =>
      simp only [Worker.work] at hwork
      have hsame := (h.same rfl).trans (FileSystem.mkdirs_sameFiles fs (ws.start job.item.target.parent)
        job.item.target.parent.parts)
      split at hwork <;> cases hwork <;> exact .same_of rfl nofun hsame
  | testing chunks index path =>
      simp only [Worker.work] at hwork
      split at hwork
      · split at hwork <;> cases hwork <;> exact .same_of rfl nofun (h.same rfl)
      · rename_i hfree
        cases hwork
        refine ⟨fun _ => h.same rfl, fun chunks path heq => ?_, nofun⟩
        cases heq
        exact Bool.eq_false_iff.mpr hfree
  | opening chunks path =>
      simp only [Worker.work] at hwork
      split at hwork
      · rename_i fs' inode hcreate
        cases hwork
        exact .beside rfl (.create (h.same rfl) (h.free chunks path rfl) hcreate)
      · cases hwork
        exact .same_of rfl nofun (h.same rfl)
  | writing chunks file offset =>
      have hfile := h.file file rfl
      cases chunks with
      | nil =>
          cases hwork
          exact .beside rfl hfile
      | cons chunk chunks =>
          cases hwork
          exact .beside rfl (hfile.write offset chunk)
  | verifying file =>
      have hfile := h.file file rfl
      simp only [Worker.work] at hwork
      split at hwork
      · rename_i hnone
        exact absurd hnone (hfile.verify_isSome job.item)
      · cases hwork
        exact .beside rfl hfile
      · cases hwork
        exact .beside rfl hfile
  | unlinking file error =>
      obtain ⟨fs', hunlink, hsame⟩ := (h.file file rfl).unlink
      simp only [Worker.work, hunlink] at hwork
      cases hwork
      exact .same_of rfl nofun hsame
  | recording file =>
      cases hwork
      exact .beside rfl (h.file file rfl)
  | reporting file =>
      cases hwork
      exact .beside rfl (h.file file rfl)

/-- Anything that happens, except an exception that loses the file. -/
theorem AttemptInv.act {a : WorkerAction} {m : Move} (h : AttemptInv ws fs₀ fs phase) (hloses : phase.loses a = false)
    (hact : (⟨job, phase⟩ : Worker).act ws content hexdigest fs a = some m) : AttemptInv ws fs₀ m.fs m.phase := by
  cases a with
  | next => exact h.work hact
  | respond chunks =>
      simp only [Worker.act] at hact
      split at hact
      · cases hact
        exact .same_of rfl (fun _ _ heq => by cases heq) (h.same rfl)
      · split at hact
        · cases hact
          exact .same_of rfl (fun _ _ heq => by cases heq) (h.same rfl)
        · cases hact
      · cases hact
  | raise =>
      have hnone : phase.file? = none := Option.isNone_iff_eq_none.mp (by simpa [Phase.loses] using hloses)
      simp only [Worker.act] at hact
      split at hact
      · cases hact
      · cases hact
        exact .same_of rfl (fun _ _ heq => by cases heq) (h.same hnone)

/-- An exception ends the attempt. -/
theorem act_raise {m : Move} (h : (⟨job, phase⟩ : Worker).act ws content hexdigest fs .raise = some m) :
    m.fs = fs ∧ m.phase = .finished none := by
  simp only [Worker.act] at h
  split at h <;> cases h
  exact ⟨rfl, rfl⟩

/-- Nothing happens after the end. -/
theorem attempt_finished {actions : List WorkerAction} {saved saved' : Option OpenFile} {fs' : FileSystem}
    (h : attempt ws content hexdigest job actions (.finished saved) fs = some (.finished saved', fs')) :
    actions = [] ∧ saved = saved' ∧ fs = fs' := by
  cases actions with
  | nil =>
      cases h
      exact ⟨rfl, rfl, rfl⟩
  | cons a actions => cases a <;> cases h

/-! ## Attempts -/

/-- From any phase on: the end of an attempt that is not interrupted, and of one that is. -/
theorem attempt_spec {actions : List WorkerAction} {saved : Option OpenFile} {fs' : FileSystem}
    (hinv : AttemptInv ws fs₀ fs phase)
    (h : attempt ws content hexdigest job actions phase fs = some (.finished saved, fs')) :
    if interrupted ws content hexdigest job actions phase fs then saved = none ∧ ¬ fs₀.SameFiles fs'
    else saved = none → fs₀.SameFiles fs' := by
  induction actions generalizing phase fs with
  | nil =>
      cases h
      rintro rfl
      exact hinv.same rfl
  | cons a actions ih =>
      unfold attempt at h
      unfold interrupted
      cases hact : (⟨job, phase⟩ : Worker).act ws content hexdigest fs a with
      | none =>
          rw [hact] at h
          cases h
      | some m =>
          rw [hact] at h
          have h : attempt ws content hexdigest job actions m.phase m.fs = some (.finished saved, fs') := h
          show if phase.loses a || interrupted ws content hexdigest job actions m.phase m.fs then _ else _
          cases hloses : phase.loses a with
          | false => exact ih (hinv.act hloses hact) h
          | true =>
              -- the file is still there, and will stay there
              cases a with
              | raise =>
                  obtain ⟨file, hfile⟩ := Option.isSome_iff_exists.mp hloses
                  obtain ⟨hfs, hphase⟩ := act_raise hact
                  rw [hfs, hphase] at h
                  obtain ⟨-, rfl, rfl⟩ := attempt_finished h
                  exact ⟨rfl, (hinv.file file hfile).not_sameFiles⟩
              | next => cases hloses
              | respond chunks => cases hloses

/-- **When a failed download leaves no file behind**: exactly if the attempt is not interrupted by an exception while it
    has a file. -/
theorem failed_leaves_no_file_iff (ws : Workspace) (content : String → Bytes) (hexdigest : String → Bytes → String)
    (job : Job) (fs fs' : FileSystem) (actions : List WorkerAction) (saved : Option OpenFile)
    (h : attempt ws content hexdigest job actions .requesting fs = some (.finished saved, fs')) :
    (saved = none → fs.SameFiles fs') ↔ interrupted ws content hexdigest job actions .requesting fs = false := by
  have hstart : AttemptInv ws fs fs .requesting := .same_of rfl nofun .refl
  have hspec := attempt_spec hstart h
  cases hinterrupted : interrupted ws content hexdigest job actions .requesting fs with
  | false =>
      rw [hinterrupted] at hspec
      exact iff_of_true hspec rfl
  | true =>
      rw [hinterrupted] at hspec
      exact iff_of_false (fun hsame => hspec.2 (hsame hspec.1)) nofun

/-! ## Two attempts -/

/-- A log with a checksum. -/
def checkedLog : Job where
  kind := .report
  item := { url := "a", name := "log.txt", checksums := [("SHA-256", "0")], path := .ofText "reports".toList }

/-- Nothing was downloaded. -/
def Phase.isFailed : Phase → Bool
  | .finished none => true
  | _ => false

theorem Phase.eq_of_isFailed (h : phase.isFailed = true) : phase = .finished none := by
  unfold isFailed at h
  split at h
  · rfl
  · cases h

/-- A response in one chunk, whose checksum is wrong. -/
theorem checkedLog_unlinked : ∃ fs', attempt demoWorkspace firstLetter (fun _ _ => "1") checkedLog
    (.respond (some [[97]]) :: List.replicate 7 .next) .requesting demoTree = some (.finished none, fs') ∧
      demoTree.SameFiles fs' := by
  have hend : ((attempt demoWorkspace firstLetter (fun _ _ => "1") checkedLog
      (.respond (some [[97]]) :: List.replicate 7 .next) .requesting demoTree).map (·.1.isFailed)) = some true := by
    decide +kernel
  obtain ⟨⟨phase, fs'⟩, hattempt, hfailed⟩ := Option.map_eq_some_iff.mp hend
  have hphase : phase = .finished none := Phase.eq_of_isFailed hfailed
  rw [hphase] at hattempt
  refine ⟨fs', hattempt, (failed_leaves_no_file_iff _ _ _ _ _ _ _ _ hattempt).mpr ?_ rfl⟩
  decide +kernel

/-- The connection is lost after the first of two chunks: half of the file is left. -/
theorem checkedLog_left : ∃ fs', attempt demoWorkspace (fun _ => [97, 98]) (fun _ _ => "0") checkedLog
    (.respond (some [[97], [98]]) :: List.replicate 4 .next ++ [.raise]) .requesting demoTree =
      some (.finished none, fs') ∧ ¬ demoTree.SameFiles fs' := by
  have hend : ((attempt demoWorkspace (fun _ => [97, 98]) (fun _ _ => "0") checkedLog
      (.respond (some [[97], [98]]) :: List.replicate 4 .next ++ [.raise]) .requesting demoTree).map fun r =>
        (r.1.isFailed, r.2.contentAt [['w'], "reports".toList, "log.txt".toList])) = some (true, some [97]) := by
    decide +kernel
  obtain ⟨⟨phase, fs'⟩, hattempt, hfailed⟩ := Option.map_eq_some_iff.mp hend
  rw [Prod.mk.injEq] at hfailed
  have hphase : phase = .finished none := Phase.eq_of_isFailed hfailed.1
  rw [hphase] at hattempt
  refine ⟨fs', hattempt, fun hsame => ?_⟩
  have hnone : demoTree.contentAt [['w'], "reports".toList, "log.txt".toList] = none := by decide +kernel
  exact absurd (hfailed.2.symm.trans ((hsame _).trans hnone)) nofun

end Etos.Cli
