import Etos.Cli.Downloader

/-!
# `Cli.Saved` — a file for every URL

A worker looks whether a path is taken, and opens it later. In between another worker may do the same: then both write
one file, and the reconciler is told of two. **`clean_saved`**: that is all that can go wrong. In a run in which no
worker opens a path that was taken in the meantime, a clean reconciliation means that there is a file for every URL,
with the content of the URL, and no two URLs share one.

A file that was opened belongs to the worker that made it: it has a number that no other worker has, so nobody else
writes it, and nobody else's path leads to it.
-/

namespace Etos.Cli

open Fs

/-- What the client takes for a success: `run` has returned, nothing has failed, and nothing is missing. -/
structure Downloader.Clean (d : Downloader) : Prop where
  ended : d.Ended
  failed : d.failed = false
  missing : d.reconciler.missing = []

/-- There is a file for every URL that was received, with its content, in the directory it was meant for; and no two
    URLs share one. -/
def Saved (ws : Workspace) (content : String → Bytes) (d : Downloader) : Prop :=
  ∃ loc : String → Loc,
    (∀ item ∈ d.reconciler.received, ∃ name inode, loc item.url = ws.directory item.target ++ [name] ∧
      d.fs.node (loc item.url) = some (.file inode) ∧ d.fs.data inode = content item.url) ∧
    ∀ item ∈ d.reconciler.received, ∀ item' ∈ d.reconciler.received, item.url ≠ item'.url → loc item.url ≠ loc item'.url

/-- The path that is opened by an action. -/
def Downloader.opens? (d : Downloader) : Action → Option PurePath
  | .worker i .next =>
      match d.workers[i]? with
      | some ⟨_, .opening _ path⟩ => some path
      | _ => none
  | _ => none

/-- A worker that opens a path finds it as it was when the worker looked: not taken. -/
def OpensFresh (ws : Workspace) (d : Downloader) (a : Action) : Prop :=
  (d.opens? a).all (fun path => !d.fs.pathExists (ws.start path) path.parts) = true

instance (ws : Workspace) (d : Downloader) (a : Action) : Decidable (OpensFresh ws d a) :=
  inferInstanceAs (Decidable (_ = true))

namespace Phase

/-- The file a worker has made, if it has not given it up. -/
def file? : Phase → Option OpenFile
  | .writing _ file _ | .verifying file | .unlinking file _ | .recording file | .reporting file => some file
  | .finished saved => saved
  | _ => none

/-- The response, before any of it is saved. -/
def response? : Phase → Option (List Bytes)
  | .preparing chunks | .making chunks | .testing chunks _ _ | .opening chunks _ => some chunks
  | _ => none

/-- The path a worker is trying, or has opened. -/
def path? : Phase → Option PurePath
  | .testing _ _ path | .opening _ path => some path
  | phase => phase.file?.map (·.path)

/-- What is still to be written. -/
def rest : Phase → Bytes
  | .writing chunks _ _ => chunks.flatten
  | _ => []

end Phase

section Ownership

variable {ws : Workspace} {content : String → Bytes} {hexdigest : String → Bytes → String} {fs : FileSystem}
  {w : Worker} {m : Move}

/-- How far a worker has got with the content of its URL. Its path leads to the file it has made. -/
structure FileInv (ws : Workspace) (content : String → Bytes) (fs : FileSystem) (w : Worker) : Prop where
  response : ∀ chunks, w.phase.response? = some chunks → chunks.flatten = content w.job.item.url
  parent : ∀ path, w.phase.path? = some path → path.parent = w.job.item.target.parent
  node : ∀ file, w.phase.file? = some file → fs.node (ws.entry file.path) = some (.file file.inode)
  data : ∀ file, w.phase.file? = some file → fs.data file.inode ++ w.phase.rest = content w.job.item.url
  offset : ∀ chunks file offset, w.phase = .writing chunks file offset → (fs.data file.inode).length = offset

/-- Nothing is said of a worker that has no file and no response. -/
theorem FileInv.blank (hresponse : w.phase.response? = none) (hpath : w.phase.path? = none)
    (hfile : w.phase.file? = none) : FileInv ws content fs w where
  response chunks h := by
    rw [hresponse] at h
    cases h
  parent path h := by
    rw [hpath] at h
    cases h
  node file h := by
    rw [hfile] at h
    cases h
  data file h := by
    rw [hfile] at h
    cases h
  offset chunks file offset h := by
    rw [h] at hfile
    cases hfile

/-- `Untouched fs fs' inode`: the file is where it was, and as it was. -/
def Untouched (fs fs' : FileSystem) (inode : Nat) : Prop :=
  (∀ l, fs.node l = some (.file inode) → fs'.node l = some (.file inode)) ∧ fs'.data inode = fs.data inode

theorem FileInv.keep {fs' : FileSystem} (h : FileInv ws content fs w)
    (hkeep : ∀ file, w.phase.file? = some file → Untouched fs fs' file.inode) : FileInv ws content fs' w where
  response := h.response
  parent := h.parent
  node file hfile := (hkeep file hfile).1 _ (h.node file hfile)
  data file hfile := by
    rw [(hkeep file hfile).2]
    exact h.data file hfile
  offset chunks file offset hphase := by
    rw [(hkeep file (by rw [hphase]; rfl)).2]
    exact h.offset chunks file offset hphase

/-- A path that does not exist is opened as a new file. -/
theorem create_fresh {fs' : FileSystem} {path : PurePath} {inode : Nat}
    (hcreate : fs.create (ws.start path) path.parent.parts path.name = some (fs', inode))
    (hfresh : fs.pathExists (ws.start path) path.parts = false) :
    fs.node (ws.entry path) = none ∧ inode = fs.next ∧
      fs'.node = Function.update fs.node (ws.entry path) (some (.file inode)) ∧
      fs'.data = Function.update fs.data inode [] := by
  obtain ⟨k, hwalk, hdir, hpart, hname, hcases, hdata⟩ := FileSystem.create_eq_some hcreate
  have hparts : path.parts ≠ [] := fun hnil => hpart.1 (by simp [PurePath.name, hnil])
  have hentry : ws.entry path = k ++ [path.name] := by
    rw [FileSystem.walk_eq hwalk]
    rfl
  have hnone : fs.node (k ++ [path.name]) = none := by
    rw [PurePath.parts_eq hparts, Bool.eq_false_iff, Ne, FileSystem.pathExists_concat hname] at hfresh
    by_contra hne
    exact hfresh ⟨k, hwalk, hdir, hne⟩
  rw [hentry]
  rcases hcases with ⟨-, hinode, -, hnode⟩ | ⟨hfile, -⟩
  · exact ⟨hnone, hinode, hnode, hdata⟩
  · rw [hnone] at hfile
    cases hfile

/-- The worker opens nothing that was taken in the meantime. -/
def Fresh (ws : Workspace) (fs : FileSystem) (w : Worker) (m : Move) : Prop :=
  m.report ≠ .raised → ∀ chunks path, w.phase = .opening chunks path →
    fs.pathExists (ws.start path) path.parts = false

/-- **What a worker does to the files of others**: nothing. -/
theorem Worker.Moves.untouched (h : w.Moves ws content fs m) (hinv : FileInv ws content fs w) (hfresh : Fresh ws fs w m)
    {inode : Nat} (hinode : inode < fs.next) (hother : ∀ file, w.phase.file? = some file → file.inode ≠ inode) :
    Untouched fs m.fs inode := by
  cases h with
  | refused | answered | found | notFound | taken | free | closed | verified | corrupt | recorded | reported
    | crashed => exact ⟨fun _ h => h, rfl⟩
  | made _ hmade | notMade _ hmade =>
      subst hmade
      have hspec := FileSystem.mkdirs_spec fs (ws.start w.job.item.target.parent) w.job.item.target.parent.parts
      exact ⟨fun l hl => hspec.grows l _ hl, congrFun hspec.data inode⟩
  | @opened chunks path fs' inode' hphase hcreate =>
      obtain ⟨hnone, rfl, hnode, hdata⟩ := create_fresh hcreate (hfresh nofun chunks path hphase)
      refine ⟨fun l hl => ?_, ?_⟩
      · exact FileSystem.create_grows hcreate l _ hl
      · rw [hdata, Function.update_of_ne hinode.ne]
  | @wrote chunk chunks file offset hphase =>
      have hne : inode ≠ file.inode := (hother file (by rw [hphase]; rfl)).symm
      exact ⟨fun _ h => h, Function.update_of_ne hne _ _⟩
  | @unlinked file error fs' hphase hunlink =>
      obtain ⟨k, i, hwalk, -, hnode, hdata, -⟩ := FileSystem.unlink_eq_some hunlink
      have hfile : w.phase.file? = some file := by
        rw [hphase]
        rfl
      have hentry : k ++ [file.path.name] = ws.entry file.path := by
        rw [FileSystem.walk_eq hwalk]
        rfl
      refine ⟨fun l hl => ?_, congrFun hdata inode⟩
      have hne : l ≠ k ++ [file.path.name] := by
        rintro rfl
        rw [hentry, hinv.node file hfile] at hl
        cases hl
        exact hother file hfile rfl
      rw [hnode, Function.update_of_ne hne, hl]

/-- A file belongs to its worker from the moment it is made. -/
theorem Worker.Moves.file (h : w.Moves ws content fs m) (hfresh : Fresh ws fs w m) {file : OpenFile}
    (hfile : m.phase.file? = some file) : w.phase.file? = some file ∨ file.inode = fs.next := by
  cases h with
  | refused | answered | found | notFound | made | notMade | taken | free | unlinked | crashed => cases hfile
  | @opened chunks path fs' inode hphase hcreate =>
      cases hfile
      exact .inr (create_fresh hcreate (hfresh nofun chunks path hphase)).2.1
  | wrote hphase | closed hphase | verified hphase | corrupt hphase | recorded hphase | reported hphase =>
      rw [hphase]
      exact .inl hfile

/-- A worker that has its response, and has not opened a file. -/
theorem FileInv.pending {phase : Phase} {chunks : List Bytes} (hresponse : phase.response? = some chunks)
    (hfile : phase.file? = none) (hcontent : chunks.flatten = content w.job.item.url)
    (hparent : ∀ path, phase.path? = some path → path.parent = w.job.item.target.parent) :
    FileInv ws content fs { w with phase } where
  response chunks' h := by
    rw [hresponse] at h
    cases h
    exact hcontent
  parent := hparent
  node file h := by
    rw [hfile] at h
    cases h
  data file h := by
    rw [hfile] at h
    cases h
  offset chunks file offset h := by
    rw [show phase = .writing chunks file offset from h] at hfile
    cases hfile

/-- A worker that has written its file, and goes on with it. -/
theorem FileInv.written {phase : Phase} {file : OpenFile} (h : FileInv ws content fs w)
    (hfile : w.phase.file? = some file) (hrest : w.phase.rest = [])
    (hphase : phase = .verifying file ∨ (∃ error, phase = .unlinking file error) ∨ phase = .recording file ∨
      phase = .reporting file ∨ phase = .finished (some file)) : FileInv ws content fs { w with phase } := by
  have hparent : file.path.parent = w.job.item.target.parent := by
    refine h.parent _ ?_
    cases hw : w.phase <;> rw [hw] at hfile <;> cases hfile <;> rfl
  have hdata := h.data file hfile
  rw [hrest] at hdata
  rcases hphase with rfl | ⟨error, rfl⟩ | rfl | rfl | rfl
  all_goals
    refine ⟨nofun, fun path hpath => ?_, fun file' hfile' => ?_, fun file' hfile' => ?_, nofun⟩
    · cases hpath
      exact hparent
    · cases hfile'
      exact h.node file hfile
    · cases hfile'
      exact hdata

theorem Worker.Moves.fileInv (h : w.Moves ws content fs m) (hinv : FileInv ws content fs w) (hfresh : Fresh ws fs w m) :
    FileInv ws content m.fs { w with phase := m.phase } := by
  cases h with
  | refused | notMade | unlinked | crashed => exact .blank rfl rfl rfl
  | answered _ hcontent => exact .pending rfl rfl hcontent nofun
  | @found chunks hphase | @made chunks _ hphase =>
      refine .pending rfl rfl (hinv.response chunks (by rw [hphase]; rfl)) fun path hpath => ?_
      cases hpath
      rfl
  | @notFound chunks hphase => exact .pending rfl rfl (hinv.response chunks (by rw [hphase]; rfl)) nofun
  | @taken chunks index path path' hphase hname =>
      refine .pending rfl rfl (hinv.response chunks (by rw [hphase]; rfl)) fun path'' hpath => ?_
      cases hpath
      rw [PurePath.withName_parent hname]
      exact hinv.parent path (by rw [hphase]; rfl)
  | @free chunks index path hphase =>
      refine .pending rfl rfl (hinv.response chunks (by rw [hphase]; rfl)) fun path' hpath => ?_
      cases hpath
      exact hinv.parent path (by rw [hphase]; rfl)
  | @opened chunks path fs' inode hphase hcreate =>
      obtain ⟨-, -, hnode, hdata⟩ := create_fresh hcreate (hfresh nofun chunks path hphase)
      refine ⟨nofun, fun path' hpath => ?_, fun file hfile => ?_, fun file hfile => ?_, fun _ _ _ hwriting => ?_⟩
      · cases hpath
        exact hinv.parent path (by rw [hphase]; rfl)
      · cases hfile
        rw [hnode, Function.update_self]
      · cases hfile
        rw [hdata, Function.update_self]
        exact hinv.response chunks (by rw [hphase]; rfl)
      · cases hwriting
        rw [hdata, Function.update_self]
        rfl
  | @wrote chunk chunks file offset hphase =>
      have hfile : w.phase.file? = some file := by
        rw [hphase]
        rfl
      have hoffset := hinv.offset _ _ _ hphase
      have hdata := hinv.data file hfile
      rw [hphase] at hdata
      -- The file is written at its end.
      have hwrite : (fs.write file.inode offset chunk).data file.inode = fs.data file.inode ++ chunk := by
        rw [← hoffset, ← FileSystem.overlay_length]
        exact Function.update_self ..
      refine ⟨nofun, fun path hpath => ?_, fun file' hfile' => ?_, fun file' hfile' => ?_, fun _ _ _ hwriting => ?_⟩
      · cases hpath
        exact hinv.parent _ (by rw [hphase]; rfl)
      · cases hfile'
        exact hinv.node file hfile
      · cases hfile'
        rw [hwrite, List.append_assoc]
        exact hdata
      · cases hwriting
        rw [hwrite, List.length_append, hoffset]
  | closed hphase | verified hphase | corrupt hphase | recorded hphase | reported hphase =>
      refine hinv.written (by rw [hphase]; rfl) (by rw [hphase]; rfl) ?_
      simp

/-- Two workers have different files. -/
def Apart (w w' : Worker) : Prop :=
  ∀ file file', w.phase.file? = some file → w'.phase.file? = some file' → file.inode ≠ file'.inode

theorem Apart.symm {w' : Worker} (h : Apart w w') : Apart w' w :=
  fun file file' hfile hfile' => (h file' file hfile' hfile).symm

/-- Every file that was received is in one place, and no two workers have the same file. -/
structure SavedInv (ws : Workspace) (content : String → Bytes) (d : Downloader) : Prop where
  received : d.reconciler.received =
    d.workers.map (·.job.item) ++ d.tasks.map (·.item) ++ d.downloadQueue.map (·.item)
  queued : d.queued = d.reconciler.received.map (·.url)
  nodup : d.queued.Nodup
  downloaded : ∀ url ∈ d.reconciler.downloaded, ∃ w ∈ d.workers, w.job.item.url = url ∧
    ∃ file, w.phase = .finished (some file)
  files : ∀ w ∈ d.workers, FileInv ws content d.fs w
  apart : ∀ (i j : Nat) (w w' : Worker), i ≠ j → d.workers[i]? = some w → d.workers[j]? = some w' → Apart w w'

variable {d d' : Downloader} {a : Action}

/-- A worker moves: its own file is new or the one it had, and it leaves the files of the others alone. -/
theorem SavedInv.moved {i : Nat} (h : SavedInv ws content d) (hw : d.workers[i]? = some w)
    (hmoves : w.Moves ws content d.fs m) (hfresh : Fresh ws d.fs w m) : SavedInv ws content (d.moved i w m) := by
  have hmem : w ∈ d.workers := List.mem_of_getElem? hw
  have hjobs : (d.moved i w m).workers.map (·.job.item) = d.workers.map (·.job.item) := by
    have hjobs := congrArg (List.map (·.item)) (Downloader.moved_jobs i w m hw)
    rwa [List.map_map, List.map_map] at hjobs
  -- The files of the others have numbers of their own, all given out already.
  have hother : ∀ (j : Nat) w' file', i ≠ j → d.workers[j]? = some w' → w'.phase.file? = some file' →
      file'.inode < d.fs.next ∧ ∀ file, w.phase.file? = some file → file.inode ≠ file'.inode := by
    intro j w' file' hij hw' hfile'
    refine ⟨?_, fun file hfile => h.apart i j w w' hij hw hw' file file' hfile hfile'⟩
    exact d.fs.numbered _ _ ((h.files w' (List.mem_of_getElem? hw')).node file' hfile')
  have hapart : ∀ (j : Nat) w', i ≠ j → d.workers[j]? = some w' → Apart { w with phase := m.phase } w' := by
    intro j w' hij hw' file file' hfile hfile'
    obtain ⟨hlt, hne⟩ := hother j w' file' hij hw' hfile'
    rcases hmoves.file hfresh hfile with hfile | hnext
    · exact hne file hfile
    · omega
  refine ⟨?_, ?_, ?_, fun url hurl => ?_, fun w' hw' => ?_, fun j k w₁ w₂ hjk h₁ h₂ => ?_⟩
  · rw [hjobs, Downloader.moved_received, Downloader.moved_tasks, Downloader.moved_downloadQueue]
    exact h.received
  · rw [Downloader.moved_queued, Downloader.moved_received]
    exact h.queued
  · rw [Downloader.moved_queued]
    exact h.nodup
  · rcases Downloader.mem_moved_downloaded i w m hurl with hurl | ⟨hreport, rfl⟩
    · -- The worker that reported it has finished, so it is not the one that moves.
      obtain ⟨w', hw', hurl', file, hphase⟩ := h.downloaded url hurl
      obtain ⟨j, hj⟩ := List.getElem?_of_mem hw'
      have hij : i ≠ j := by
        rintro rfl
        rw [hw] at hj
        cases hj
        have hbusy := hmoves.busy
        simp only [Worker.isFinished, hphase] at hbusy
        cases hbusy
      have hj' : (d.moved i w m).workers[j]? = some w' := by
        rw [Downloader.moved_getElem? i w m hw, if_neg hij, hj]
      exact ⟨w', List.mem_of_getElem? hj', hurl', file, hphase⟩
    · have hi : (d.moved i w m).workers[i]? = some { w with phase := m.phase } := by
        rw [Downloader.moved_getElem? i w m hw, if_pos rfl]
      refine ⟨_, List.mem_of_getElem? hi, rfl, ?_⟩
      cases hmoves with
      | reported => exact ⟨_, rfl⟩
      | _ => cases hreport
  · obtain ⟨j, hj⟩ := List.getElem?_of_mem hw'
    rw [Downloader.moved_getElem? i w m hw] at hj
    split at hj
    · cases hj
      exact hmoves.fileInv (h.files w hmem) hfresh
    · rename_i hij
      refine (h.files w' (List.mem_of_getElem? hj)).keep fun file hfile => ?_
      obtain ⟨hlt, hne⟩ := hother j w' file hij hj hfile
      exact hmoves.untouched (h.files w hmem) hfresh hlt hne
  · rw [Downloader.moved_getElem? i w m hw] at h₁ h₂
    split at h₁
    · rename_i hij
      subst hij
      cases h₁
      rw [if_neg hjk] at h₂
      exact hapart k w₂ hjk h₂
    · rename_i hij
      split at h₂
      · rename_i hik
        subst hik
        cases h₂
        exact (hapart j w₁ hij h₁).symm
      · exact h.apart j k w₁ w₂ hjk h₁ h₂

/-- One step of a run in which nothing is opened that was taken. -/
theorem SavedInv.step (h : SavedInv ws content d) (hfresh : OpensFresh ws d a)
    (hstep : d.Steps ws content hexdigest a d') : SavedInv ws content d' := by
  cases hstep with
  | @queue e job htracking hjob =>
      unfold Downloader.queueDownload
      split
      · exact h
      · rename_i hnew
        have hrecord : d.reconciler.recordReceived job.item =
            { d.reconciler with received := d.reconciler.received ++ [job.item] } := by
          unfold DownloadReconciler.recordReceived
          rw [← h.queued, if_neg hnew]
        rw [hrecord]
        refine ⟨?_, ?_, ?_, h.downloaded, h.files, h.apart⟩
        · simp only [h.received, List.map_append, List.map_cons, List.map_nil, List.append_assoc]
        · simp only [h.queued, List.map_append, List.map_cons, List.map_nil]
        · exact List.nodup_append.mpr ⟨h.nodup, List.nodup_singleton _, by
            rintro url hurl url' hurl' rfl
            exact hnew (List.mem_singleton.mp hurl' ▸ hurl)⟩
  | lose | stop | miss | leave | goOn => exact ⟨h.received, h.queued, h.nodup, h.downloaded, h.files, h.apart⟩
  | @trigger job downloadQueue _ hqueue =>
      refine ⟨?_, h.queued, h.nodup, h.downloaded, h.files, h.apart⟩
      have hreceived := h.received
      simp only [hqueue, List.map_cons, List.map_append, List.map_nil, List.append_assoc, List.singleton_append]
        at hreceived ⊢
      exact hreceived
  | @begin job tasks htasks =>
      have hworker : ∀ (j : Nat) w', (d.workers ++ [(⟨job, .requesting⟩ : Worker)])[j]? = some w' →
          d.workers[j]? = some w' ∨ w' = ⟨job, .requesting⟩ := by
        intro j w' hw'
        rw [List.getElem?_append] at hw'
        split at hw'
        · exact .inl hw'
        · exact .inr (List.mem_singleton.mp (List.mem_of_getElem? hw'))
      refine ⟨?_, h.queued, h.nodup, fun url hurl => ?_, fun w' hw' => ?_, fun j k w₁ w₂ hjk h₁ h₂ => ?_⟩
      · have hreceived := h.received
        simp only [htasks, List.map_cons, List.map_append, List.map_nil, List.append_assoc, List.cons_append,
          List.nil_append] at hreceived ⊢
        exact hreceived
      · obtain ⟨w', hw', hfinished⟩ := h.downloaded url hurl
        exact ⟨w', List.mem_append_left _ hw', hfinished⟩
      · rcases List.mem_append.mp hw' with hw' | hw'
        · exact h.files w' hw'
        · rw [List.mem_singleton.mp hw']
          exact .blank rfl rfl rfl
      · rcases hworker j w₁ h₁ with h₁ | rfl
        · rcases hworker k w₂ h₂ with h₂ | rfl
          · exact h.apart j k w₁ w₂ hjk h₁ h₂
          · exact fun _ _ _ hfile => nomatch hfile
        · exact fun _ _ hfile => nomatch hfile
  | @worker i x w m hw hact =>
      refine h.moved hw (Worker.act_moves hact) fun hraised chunks path hphase => ?_
      cases x with
      | next =>
          have hopens : d.opens? (.worker i .next) = some path := by
            obtain ⟨job, phase⟩ := w
            cases hphase
            simp only [Downloader.opens?, hw]
          unfold OpensFresh at hfresh
          rw [hopens, Option.all_some] at hfresh
          simpa using hfresh
      | respond response => simp [Worker.act, hphase] at hact
      | raise =>
          simp only [Worker.act, hphase] at hact
          cases hact
          exact absurd rfl hraised

theorem Run.savedInv {fs₀ : FileSystem} {es : List FileEvent}
    (hrun : Run ws content hexdigest (OpensFresh ws) fs₀ es d) : SavedInv ws content d := by
  induction hrun with
  | start => exact ⟨rfl, rfl, List.nodup_nil, by simp, by simp, by simp⟩
  | step a _ hallowed hstep ih => exact ih.step hallowed (Downloader.steps_of_step hstep)

end Ownership

section Clean

variable {ws : Workspace} {content : String → Bytes} {d : Downloader}

/-- `item` has been saved at `l`, by a worker that has finished. -/
def SavedAt (ws : Workspace) (d : Downloader) (item : Downloadable) (l : Loc) : Prop :=
  ∃ w ∈ d.workers, w.job.item = item ∧ ∃ file, w.phase = .finished (some file) ∧ l = ws.entry file.path

/-- Everything that was received and is not missing was reported by a worker that has saved it. -/
theorem SavedInv.exists_savedAt (h : SavedInv ws content d) (hmissing : d.reconciler.missing = [])
    {item : Downloadable} (hitem : item ∈ d.reconciler.received) : ∃ l, SavedAt ws d item l := by
  have hdownloaded : item.url ∈ d.reconciler.downloaded := by
    have hnot := List.filter_eq_nil_iff.mp hmissing item hitem
    simpa using hnot
  obtain ⟨w, hw, hurl, file, hphase⟩ := h.downloaded _ hdownloaded
  have hmem : w.job.item ∈ d.reconciler.received := by
    rw [h.received, List.append_assoc]
    exact List.mem_append_left _ (List.mem_map_of_mem hw)
  have hnodup := h.nodup
  rw [h.queued] at hnodup
  exact ⟨_, w, hw, List.inj_on_of_nodup_map hnodup hmem hitem hurl, file, hphase, rfl⟩

theorem SavedInv.holds {item : Downloadable} {l : Loc} (h : SavedInv ws content d) (hl : SavedAt ws d item l) :
    ∃ name inode, l = ws.directory item.target ++ [name] ∧ d.fs.node l = some (.file inode) ∧
      d.fs.data inode = content item.url := by
  obtain ⟨w, hw, rfl, file, hphase, rfl⟩ := hl
  have hinv := h.files w hw
  have hfile : w.phase.file? = some file := by
    rw [hphase]
    rfl
  have hparent := hinv.parent file.path (by rw [hphase]; rfl)
  have hrest : w.phase.rest = [] := by
    rw [hphase]
    rfl
  have hdata := hinv.data file hfile
  rw [hrest, List.append_nil] at hdata
  refine ⟨file.path.name, file.inode, ?_, hinv.node file hfile, hdata⟩
  unfold Workspace.entry
  rw [directory_eq_of_parent hparent]

/-- Two places for two URLs. -/
theorem SavedInv.ne {item item' : Downloadable} {l l' : Loc} (h : SavedInv ws content d) (hl : SavedAt ws d item l)
    (hl' : SavedAt ws d item' l') (hne : item.url ≠ item'.url) : l ≠ l' := by
  obtain ⟨w, hw, rfl, file, hphase, rfl⟩ := hl
  obtain ⟨w', hw', rfl, file', hphase', rfl⟩ := hl'
  have hfile : w.phase.file? = some file := by
    rw [hphase]
    rfl
  have hfile' : w'.phase.file? = some file' := by
    rw [hphase']
    rfl
  intro hentry
  have hnode := (h.files w hw).node file hfile
  rw [hentry, (h.files w' hw').node file' hfile'] at hnode
  obtain ⟨i, hi⟩ := List.getElem?_of_mem hw
  obtain ⟨j, hj⟩ := List.getElem?_of_mem hw'
  have hij : i ≠ j := by
    rintro rfl
    rw [hi] at hj
    cases hj
    exact hne rfl
  exact h.apart i j w w' hij hi hj file file' hfile hfile' (by simpa using hnode.symm)

end Clean

/-- **A clean reconciliation means that the files are there**, in every run in which no worker opens a path that was
    taken after the worker had looked. -/
theorem clean_saved (ws : Workspace) (content : String → Bytes) (hexdigest : String → Bytes → String)
    (fs : FileSystem) (es : List FileEvent) (d : Downloader)
    (hrun : Run ws content hexdigest (OpensFresh ws) fs es d) (hclean : d.Clean) : Saved ws content d := by
  have hinv := hrun.savedInv
  have hloc : ∀ url, ∃ l, ∀ item ∈ d.reconciler.received, item.url = url → SavedAt ws d item l := by
    intro url
    by_cases hurl : ∃ item ∈ d.reconciler.received, item.url = url
    · obtain ⟨item, hitem, rfl⟩ := hurl
      obtain ⟨l, hl⟩ := hinv.exists_savedAt hclean.missing hitem
      refine ⟨l, fun item' hitem' hurl => ?_⟩
      have hnodup := hinv.nodup
      rw [hinv.queued] at hnodup
      rwa [List.inj_on_of_nodup_map hnodup hitem' hitem hurl]
    · exact ⟨[], fun item hitem heq => absurd ⟨item, hitem, heq⟩ hurl⟩
  choose loc hloc using hloc
  refine ⟨loc, fun item hitem => hinv.holds (hloc _ item hitem rfl), fun item hitem item' hitem' hne => ?_⟩
  exact hinv.ne (hloc _ item hitem rfl) (hloc _ item' hitem' rfl) hne

/-! ## Two logs with one name -/

def logEvent (url : String) : FileEvent := ⟨.report, ⟨url, "log.txt", none, []⟩⟩

/-- Each URL has its first character to offer. -/
def firstLetter (url : String) : Bytes := (url.toList.take 1).map fun c => UInt8.ofNat c.toNat

/-- Both logs are queued, and two workers get what they asked for. -/
def twoLogs : List Action :=
  [.event (logEvent "a"), .event (logEvent "b"), .trigger, .trigger, .begin, .begin,
    .worker 0 (.respond (some [[97]])), .worker 1 (.respond (some [[98]]))]

/-- The next `n` calls of a worker. -/
def calls (i n : Nat) : List Action := List.replicate n (.worker i .next)

/-- What the client looks at when `run` has returned, the URLs it was told of, and the content of the files. -/
def outcome (d : Downloader) : (Bool × Bool × Bool × Bool) × List String × List Bytes :=
  ((d.looping, d.tasks.isEmpty && d.workers.all Worker.isFinished, d.failed, d.reconciler.missing.isEmpty),
    d.reconciler.received.map (·.url), (List.range d.fs.next).map d.fs.data)

theorem clean_of_outcome {d : Downloader} {urls : List String} {data : List Bytes}
    (h : outcome d = ((false, true, false, true), urls, data)) : d.Clean := by
  unfold outcome at h
  simp only [Prod.mk.injEq, Bool.and_eq_true, List.isEmpty_iff, List.all_eq_true] at h
  obtain ⟨⟨hlooping, ⟨htasks, hworkers⟩, hfailed, hmissing⟩, -⟩ := h
  exact ⟨⟨hlooping, htasks, hworkers⟩, hfailed, hmissing⟩

/-- If one worker is done before the other looks, the other takes another name. -/
theorem clean_saved_in_turn :
    ∃ es d, Run demoWorkspace firstLetter (fun _ _ => "") (OpensFresh demoWorkspace) demoTree es d ∧ d.Clean ∧
      Saved demoWorkspace firstLetter d := by
  have hrun : ((({ fs := demoTree } : Downloader).run demoWorkspace firstLetter (fun _ _ => "")
      (OpensFresh demoWorkspace) (twoLogs ++ calls 0 8 ++ calls 1 9 ++ [.stop true, .miss, .leave])).map outcome) =
      some ((false, true, false, true), ["a", "b"], [[97], [98]]) := by
    decide +kernel
  obtain ⟨d, hd, houtcome⟩ := Option.map_eq_some_iff.mp hrun
  have hclean := clean_of_outcome houtcome
  exact ⟨_, d, Run.start.of_run hd, hclean, clean_saved _ _ _ _ _ d (Run.start.of_run hd) hclean⟩

/-- If both look before either opens, both write one file: the reconciliation is clean, and one of the logs is lost. -/
theorem logs_lost :
    ∃ es d, Run demoWorkspace firstLetter (fun _ _ => "") (fun _ _ => True) demoTree es d ∧ d.Clean ∧
      ¬ Saved demoWorkspace firstLetter d := by
  have hrun : ((({ fs := demoTree } : Downloader).run demoWorkspace firstLetter (fun _ _ => "") (fun _ _ => True)
      (twoLogs ++ calls 0 2 ++ calls 1 2 ++ calls 0 6 ++ calls 1 6 ++ [.stop true, .miss, .leave])).map outcome) =
      some ((false, true, false, true), ["a", "b"], [[98]]) := by
    decide +kernel
  obtain ⟨d, hd, houtcome⟩ := Option.map_eq_some_iff.mp hrun
  refine ⟨_, d, Run.start.of_run hd, clean_of_outcome houtcome, ?_⟩
  rintro ⟨loc, hloc, -⟩
  obtain ⟨-, hurls, hdata⟩ : _ ∧ _ ∧ _ := by simpa only [outcome, Prod.mk.injEq] using houtcome
  have ha : "a" ∈ d.reconciler.received.map (·.url) := by
    rw [hurls]
    decide
  obtain ⟨item, hitem, hurl⟩ := List.mem_map.mp ha
  obtain ⟨name, inode, -, hnode, hcontent⟩ := hloc item hitem
  -- There is one file, and it holds the other log.
  have hmem : d.fs.data inode ∈ [[98]] := by
    rw [← hdata]
    exact List.mem_map_of_mem (List.mem_range.mpr (d.fs.numbered _ _ hnode))
  rw [hcontent, hurl] at hmem
  exact absurd hmem (by decide +kernel)

end Etos.Cli
