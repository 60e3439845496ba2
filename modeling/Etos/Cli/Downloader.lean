import Etos.Fs.Tree

/-!
# `Cli.Downloader` — the client's downloader

`shared/downloader.py` and `shared/download_reconciler.py` of the command line client, and what `TestRun` makes of a
report or artifact event. Events queue files to download; the downloader's thread hands them to a pool of ten workers;
a worker asks for the file, looks for a name that is not taken, and saves and verifies it.

A worker takes one step for each call that others can see: between two of them all other workers may move, and a call
may raise an exception. What the workers do to the file system is recorded with the kind of file they do it for. What a
URL has to offer, and the digests of `hashlib`, are parameters.
-/

namespace Etos.Cli

open Fs

/-! ## From an event to a download -/

/-- The data of a report or artifact event. -/
structure File where
  url : String
  name : String
  directory : Option String
  checksums : List (String × String)

/-- `Report` and `Artifact`. -/
inductive FileKind where
  | report
  | artifact
  deriving DecidableEq

structure FileEvent where
  kind : FileKind
  data : File

/-- `Downloadable`. -/
structure Downloadable where
  url : String
  name : String
  checksums : List (String × String)
  path : PurePath

/-- Where the client runs, and the directories it was told to use. -/
structure Workspace where
  cwd : PurePath
  reportDir : PurePath
  artifactDir : PurePath

/-- What is in the queue: a file, and the kind of event it came with. -/
structure Job where
  kind : FileKind
  item : Downloadable

namespace Workspace

variable (ws : Workspace)

/-- A file for one of the directories. `none` is the `ValueError` of `relative_to`. -/
def downloadTo (dir : PurePath) (file : File) : Option Downloadable :=
  (dir.relativeTo ws.cwd).map fun base =>
    { url := file.url
      name := file.name
      checksums := file.checksums
      path := base.joinpath (.ofText (file.directory.getD "").toList) }

/-- `download_report`. -/
def downloadReport (report : File) : Option Downloadable := ws.downloadTo ws.reportDir report

/-- `download_artifact`. -/
def downloadArtifact (artifact : File) : Option Downloadable := ws.downloadTo ws.artifactDir artifact

/-- `TestRun.download`. -/
def download (e : FileEvent) : Option Job :=
  match e.kind with
  | .report => (ws.downloadReport e.data).map (⟨.report, ·⟩)
  | .artifact => (ws.downloadArtifact e.data).map (⟨.artifact, ·⟩)

/-- Where the parts of a path are followed from. -/
def start (p : PurePath) : Loc := if p.absolute then [] else ws.cwd.parts

/-- The directory a path has its name in. -/
def directory (p : PurePath) : Loc := descend (ws.start p) p.parent.parts

/-- The place a path names. -/
def entry (p : PurePath) : Loc := ws.directory p ++ [p.name]

/-- The directory that was configured for a kind of file. -/
def base : FileKind → Loc
  | .report => descend (ws.start ws.reportDir) ws.reportDir.parts
  | .artifact => descend (ws.start ws.artifactDir) ws.artifactDir.parts

end Workspace

section Siblings

variable {ws : Workspace} {p q : PurePath}

theorem start_parent (p : PurePath) : ws.start p.parent = ws.start p := rfl

/-- Paths with the same parent are in the same directory. -/
theorem start_eq_of_parent (h : p.parent = q.parent) : ws.start p = ws.start q := by
  rw [← start_parent, h, start_parent]

theorem directory_eq_of_parent (h : p.parent = q.parent) : ws.directory p = ws.directory q := by
  unfold Workspace.directory
  rw [start_eq_of_parent h, h]

end Siblings

/-- The path a file is to be saved at. -/
def Downloadable.target (item : Downloadable) : PurePath := item.path.joinpath (.ofText item.name.toList)

/-! ## Reconciliation -/

/-- Why a download failed: `download request did not succeed`, or an `IntegrityError`. -/
inductive Failure where
  | request
  | integrity (url hashType downloadedHash expectedHash : String)

/-- `DownloadReconciler`. -/
structure DownloadReconciler where
  received : List Downloadable := []
  downloaded : List String := []
  failures : List (String × Failure) := []

namespace DownloadReconciler

variable (r : DownloadReconciler)

def recordReceived (item : Downloadable) : DownloadReconciler :=
  if item.url ∈ r.received.map (·.url) then r else { r with received := r.received ++ [item] }

def recordDownloaded (item : Downloadable) : DownloadReconciler := { r with downloaded := item.url :: r.downloaded }

def recordFailed (item : Downloadable) (reason : Failure) : DownloadReconciler :=
  { r with failures := (item.url, reason) :: r.failures.filter (·.1 ≠ item.url) }

def missing : List Downloadable := r.received.filter (·.url ∉ r.downloaded)

end DownloadReconciler

/-! ## Workers -/

/-- A file that was opened for writing. -/
structure OpenFile where
  path : PurePath
  inode : Nat

/-- Where a worker is. -/
inductive Phase where
  /-- Waiting for the response. -/
  | requesting
  /-- About to look for the directory. -/
  | preparing (chunks : List Bytes)
  | making (chunks : List Bytes)
  /-- About to look whether the path is taken. -/
  | testing (chunks : List Bytes) (index : Nat) (path : PurePath)
  /-- The path was not taken. -/
  | opening (chunks : List Bytes) (path : PurePath)
  | writing (chunks : List Bytes) (file : OpenFile) (offset : Nat)
  | verifying (file : OpenFile)
  | unlinking (file : OpenFile) (error : Failure)
  /-- About to count the download. -/
  | recording (file : OpenFile)
  /-- About to tell the reconciler. -/
  | reporting (file : OpenFile)
  | finished (saved : Option OpenFile)

structure Worker where
  job : Job
  phase : Phase

def Worker.isFinished (w : Worker) : Bool :=
  match w.phase with
  | .finished _ => true
  | _ => false

/-- What a step of a worker means to the downloader. -/
inductive Report where
  | nothing
  /-- An exception left `__download`, and `__print_traceback` was called with it. -/
  | raised
  | failed (reason : Failure)
  | saved (path : PurePath)
  | downloaded

/-- A step of a worker: the file system and the phase after it, and the places where something was created, written or
    deleted. -/
structure Move where
  fs : FileSystem
  phase : Phase
  touched : List Loc := []
  report : Report := .nothing

/-- What happens to a worker. -/
inductive WorkerAction where
  /-- The server answers; `none` is a response that is not ok. -/
  | respond (chunks : Option (List Bytes))
  | next
  /-- The call raises an exception. -/
  | raise

/-- `f"{index}_{original_name}"`. -/
def indexed (index : Nat) (name : Part) : Part := Nat.toDigits 10 index ++ '_' :: name

/-- The table of `__verify`: names of hashes in events, and in `hashlib`. -/
def translationTable : List (String × String) :=
  [("SHA-224", "sha224"), ("SHA-256", "sha256"), ("SHA-384", "sha384"), ("SHA-512", "sha512"),
    ("SHA-512/224", "sha512_224"), ("SHA-512/256", "sha512_256")]

/-- The hash function and the digest that a file is verified with. -/
def expectedDigest (checksums : List (String × String)) : Option (String × String) :=
  translationTable.findSome? fun (nist, python) => (checksums.lookup nist).map (python, ·)

section Steps

variable (ws : Workspace) (content : String → Bytes) (hexdigest : String → Bytes → String)

/-- The exception leaves `__download`. -/
def Move.crash (fs : FileSystem) : Move := { fs, phase := .finished none, report := .raised }

/-- `__verify`: the error, if there is one; `none` if the file cannot be read. -/
def verify (fs : FileSystem) (item : Downloadable) (path : PurePath) : Option (Option Failure) :=
  match expectedDigest item.checksums with
  | none => some none
  | some (hashType, expected) =>
      (fs.read (ws.start path) path.parts).map fun data =>
        if hexdigest hashType data = expected then none
        else some (.integrity item.url hashType (hexdigest hashType data) expected)

/-- The next call of a worker, in `__download` and `__save_file`. -/
def Worker.work (w : Worker) (fs : FileSystem) : Option Move :=
  let target := w.job.item.target
  match w.phase with
  | .requesting | .finished _ => none
  | .preparing chunks =>
      some { fs, phase := if fs.pathExists (ws.start target.parent) target.parent.parts then .testing chunks 0 target
                          else .making chunks }
  | .making chunks =>
      let made := fs.mkdirs (ws.start target.parent) target.parent.parts
      if made.2.2 then some { fs := made.1, phase := .testing chunks 0 target, touched := made.2.1 }
      else some { Move.crash made.1 with touched := made.2.1 }
  | .testing chunks index path =>
      if fs.pathExists (ws.start path) path.parts then
        match path.withName (indexed (index + 1) target.name) with
        | some path => some { fs, phase := .testing chunks (index + 1) path }
        | none => some (.crash fs)
      else some { fs, phase := .opening chunks path }
  | .opening chunks path =>
      match fs.create (ws.start path) path.parent.parts path.name with
      | some (fs, inode) => some { fs, phase := .writing chunks ⟨path, inode⟩ 0, touched := [ws.entry path] }
      | none => some (.crash fs)
  | .writing [] file _ => some { fs, phase := .verifying file }
  | .writing (chunk :: chunks) file offset =>
      some
        { fs := fs.write file.inode offset chunk
          phase := .writing chunks file (offset + chunk.length)
          touched := [ws.entry file.path] }
  | .verifying file =>
      match verify ws hexdigest fs w.job.item file.path with
      | none => some (.crash fs)
      | some none => some { fs, phase := .recording file }
      | some (some error) => some { fs, phase := .unlinking file error }
  | .unlinking file error =>
      match fs.unlink (ws.start file.path) file.path.parent.parts file.path.name with
      | some fs => some { fs, phase := .finished none, touched := [ws.entry file.path], report := .failed error }
      | none => some (.crash fs)
  | .recording file => some { fs, phase := .reporting file, report := .saved file.path }
  | .reporting file => some { fs, phase := .finished (some file), report := .downloaded }

/-- What a worker does. The chunks of a response are what the URL has to offer. -/
def Worker.act (w : Worker) (fs : FileSystem) : WorkerAction → Option Move
  | .respond chunks =>
      match w.phase, chunks with
      | .requesting, none => some { fs, phase := .finished none, report := .failed .request }
      | .requesting, some chunks =>
          if chunks.flatten = content w.job.item.url then some { fs, phase := .preparing chunks } else none
      | _, _ => none
  | .next => w.work ws hexdigest fs
  | .raise =>
      match w.phase with
      | .finished _ => none
      | _ => some (.crash fs)

end Steps

/-! ## The downloader -/

structure Downloader where
  fs : FileSystem
  downloadQueue : List Job := []
  /-- The URLs that were queued. -/
  queued : List String := []
  exit : Bool := false
  clearQueue : Bool := true
  failed : Bool := false
  downloads : List PurePath := []
  reconciler : DownloadReconciler := {}
  /-- `TestRun` is still following events. -/
  tracking : Bool := true
  /-- `run` is in its loop. -/
  looping : Bool := true
  /-- `__trigger_download` has found the queue empty, and `run` is about to look at `exit`. -/
  missed : Bool := false
  /-- What the pool was given, and no worker has taken yet. -/
  tasks : List Job := []
  /-- What workers have taken, finished or not. -/
  workers : List Worker := []
  /-- What was created, written or deleted. -/
  touched : List (FileKind × Loc) := []

inductive Action where
  /-- A report or artifact event is handled. -/
  | event (e : FileEvent)
  | stop (clearQueue : Bool)
  /-- `__trigger_download` finds something in the queue. -/
  | trigger
  /-- `__trigger_download` finds nothing. -/
  | miss
  /-- `run` looks at `exit` and, unless it goes on, leaves its loop. -/
  | leave
  /-- A worker takes a task. -/
  | begin
  | worker (i : Nat) (a : WorkerAction)

/-- `ThreadPool(10)`. -/
def poolSize : Nat := 10

namespace Downloader

variable (d : Downloader)

/-- `queue_download`. -/
def queueDownload (job : Job) : Downloader :=
  if job.item.url ∈ d.queued then d
  else
    { d with
      downloadQueue := d.downloadQueue ++ [job]
      queued := d.queued ++ [job.item.url]
      reconciler := d.reconciler.recordReceived job.item }

/-- `stop`, called once events are not followed any more. -/
def stop (clearQueue : Bool) : Downloader := { d with tracking := false, exit := true, clearQueue }

/-- What a worker reports. -/
def hear (item : Downloadable) : Report → Downloader
  | .nothing => d
  | .raised => { d with failed := true }
  | .failed reason => { d with failed := true, reconciler := d.reconciler.recordFailed item reason }
  | .saved path => { d with downloads := path :: d.downloads }
  | .downloaded => { d with reconciler := d.reconciler.recordDownloaded item }

/-- A worker has moved. -/
def moved (i : Nat) (w : Worker) (m : Move) : Downloader :=
  { d.hear w.job.item m.report with
    fs := m.fs
    workers := d.workers.set i { w with phase := m.phase }
    touched := m.touched.map (w.job.kind, ·) ++ d.touched }

section Moved

variable {d} (i : Nat) (w : Worker) (m : Move)

@[simp] theorem moved_fs : (d.moved i w m).fs = m.fs := rfl

@[simp] theorem moved_workers : (d.moved i w m).workers = d.workers.set i { w with phase := m.phase } := rfl

@[simp] theorem moved_touched : (d.moved i w m).touched = m.touched.map (w.job.kind, ·) ++ d.touched := rfl

@[simp] theorem moved_downloadQueue : (d.moved i w m).downloadQueue = d.downloadQueue := by
  unfold moved
  cases m.report <;> rfl

@[simp] theorem moved_queued : (d.moved i w m).queued = d.queued := by
  unfold moved
  cases m.report <;> rfl

@[simp] theorem moved_tasks : (d.moved i w m).tasks = d.tasks := by
  unfold moved
  cases m.report <;> rfl

@[simp] theorem moved_tracking : (d.moved i w m).tracking = d.tracking := by
  unfold moved
  cases m.report <;> rfl

@[simp] theorem moved_exit : (d.moved i w m).exit = d.exit := by
  unfold moved
  cases m.report <;> rfl

@[simp] theorem moved_clearQueue : (d.moved i w m).clearQueue = d.clearQueue := by
  unfold moved
  cases m.report <;> rfl

@[simp] theorem moved_looping : (d.moved i w m).looping = d.looping := by
  unfold moved
  cases m.report <;> rfl

@[simp] theorem moved_missed : (d.moved i w m).missed = d.missed := by
  unfold moved
  cases m.report <;> rfl

@[simp] theorem moved_received : (d.moved i w m).reconciler.received = d.reconciler.received := by
  unfold moved
  cases m.report <;> rfl

/-- The reconciler is told of a download only by the worker that made it. -/
theorem mem_moved_downloaded {url : String} (h : url ∈ (d.moved i w m).reconciler.downloaded) :
    url ∈ d.reconciler.downloaded ∨ m.report = .downloaded ∧ url = w.job.item.url := by
  unfold moved at h
  cases hreport : m.report <;> rw [hreport] at h
  case downloaded => exact (List.mem_cons.mp h).symm.imp_right fun h => ⟨rfl, h⟩
  all_goals exact .inl h

/-- The other workers are where they were. -/
theorem moved_getElem? (h : d.workers[i]? = some w) (j : Nat) :
    (d.moved i w m).workers[j]? = if i = j then some { w with phase := m.phase } else d.workers[j]? := by
  rw [moved_workers, List.getElem?_set, if_pos (List.getElem?_eq_some_iff.mp h).1]

/-- A worker keeps its job. -/
theorem moved_jobs (h : d.workers[i]? = some w) : (d.moved i w m).workers.map (·.job) = d.workers.map (·.job) := by
  rw [moved_workers, List.map_set]
  refine List.ext_getElem? fun j => ?_
  rw [List.getElem?_set]
  split
  · rename_i hij
    subst hij
    obtain ⟨hi, hw⟩ := List.getElem?_eq_some_iff.mp h
    simp [hi, hw]
  · rfl

end Moved

/-- The workers that are busy. -/
def busy : Nat := d.workers.countP (!·.isFinished)

variable (ws : Workspace) (content : String → Bytes) (hexdigest : String → Bytes → String)

def step : Action → Option Downloader
  | .event e =>
      if d.tracking then
        match ws.download e with
        | some job => some (d.queueDownload job)
        -- The exception leaves `stream`, and `__wait` stops the downloader on its way out.
        | none => some (d.stop true)
      else none
  | .stop clearQueue => if d.tracking then some (d.stop clearQueue) else none
  | .trigger =>
      match d.looping && !d.missed, d.downloadQueue with
      | true, job :: downloadQueue => some { d with downloadQueue, tasks := d.tasks ++ [job] }
      | _, _ => none
  | .miss => if d.looping && !d.missed && d.downloadQueue.isEmpty then some { d with missed := true } else none
  | .leave =>
      if d.looping && d.missed then some (if d.exit then { d with looping := false } else { d with missed := false })
      -- the check before `__trigger_download`
      else if d.looping && d.exit && !d.clearQueue then some { d with looping := false }
      else none
  | .begin =>
      match d.tasks with
      | job :: tasks =>
          if d.busy < poolSize then some { d with tasks, workers := d.workers ++ [⟨job, .requesting⟩] } else none
      | [] => none
  | .worker i a =>
      match d.workers[i]? with
      | some w => (w.act ws content hexdigest d.fs a).map (d.moved i w)
      | none => none

/-- One action after the other, as long as they are allowed. -/
def run (allowed : Downloader → Action → Prop) [∀ d a, Decidable (allowed d a)] (actions : List Action) :
    Option Downloader :=
  actions.foldlM (fun d a => if allowed d a then d.step ws content hexdigest a else none) d

/-- `run` has returned: the loop was left, and the pool has been joined. -/
def Ended : Prop := d.looping = false ∧ d.tasks = [] ∧ ∀ w ∈ d.workers, w.isFinished = true

end Downloader

/-- The events among the actions. -/
def Action.events : Action → List FileEvent
  | .event e => [e]
  | _ => []

section Runs

variable (ws : Workspace) (content : String → Bytes) (hexdigest : String → Bytes → String)

/-- `Run allowed fs es d`: the downloader is started, handles the events `es`, and gets to `d`, with steps that are all
    allowed. -/
inductive Run (allowed : Downloader → Action → Prop) (fs : FileSystem) : List FileEvent → Downloader → Prop where
  | start : Run allowed fs [] { fs }
  | step {es : List FileEvent} {d d' : Downloader} (a : Action) (hrun : Run allowed fs es d) (hallowed : allowed d a)
      (hstep : d.step ws content hexdigest a = some d') : Run allowed fs (es ++ a.events) d'

variable {ws content hexdigest}

/-- A run of the actions is a run. -/
theorem Run.of_run {allowed : Downloader → Action → Prop} [∀ d a, Decidable (allowed d a)] {fs : FileSystem}
    {es : List FileEvent} {d d' : Downloader} {actions : List Action} (h : Run ws content hexdigest allowed fs es d)
    (hrun : d.run ws content hexdigest allowed actions = some d') :
    Run ws content hexdigest allowed fs (es ++ actions.flatMap Action.events) d' := by
  induction actions generalizing d es with
  | nil =>
      cases hrun
      rw [List.flatMap_nil, List.append_nil]
      exact h
  | cons a actions ih =>
      obtain ⟨d₁, hstep, hrest⟩ := Option.bind_eq_some_iff.mp hrun
      rw [List.flatMap_cons, ← List.append_assoc]
      simp only at hstep
      split at hstep
      · rename_i hallowed
        exact ih (h.step a hallowed hstep) hrest
      · cases hstep

end Runs

/-! ## What a step can do -/

section Cases

variable (ws : Workspace) (content : String → Bytes) (hexdigest : String → Bytes → String)

/-- The steps of a worker. -/
inductive Worker.Moves (w : Worker) (fs : FileSystem) : Move → Prop where
  | refused (h : w.phase = .requesting) : Moves w fs { fs, phase := .finished none, report := .failed .request }
  | answered {chunks} (h : w.phase = .requesting) (hcontent : chunks.flatten = content w.job.item.url) :
      Moves w fs { fs, phase := .preparing chunks }
  | found {chunks} (h : w.phase = .preparing chunks)
      (hexists : fs.pathExists (ws.start w.job.item.target.parent) w.job.item.target.parent.parts = true) :
      Moves w fs { fs, phase := .testing chunks 0 w.job.item.target }
  | notFound {chunks} (h : w.phase = .preparing chunks) : Moves w fs { fs, phase := .making chunks }
  | made {chunks made} (h : w.phase = .making chunks)
      (hmade : made = fs.mkdirs (ws.start w.job.item.target.parent) w.job.item.target.parent.parts)
      (hok : made.2.2 = true) :
      Moves w fs { fs := made.1, phase := .testing chunks 0 w.job.item.target, touched := made.2.1 }
  | notMade {chunks made} (h : w.phase = .making chunks)
      (hmade : made = fs.mkdirs (ws.start w.job.item.target.parent) w.job.item.target.parent.parts) :
      Moves w fs { fs := made.1, phase := .finished none, touched := made.2.1, report := .raised }
  | taken {chunks index path path'} (h : w.phase = .testing chunks index path)
      (hname : path.withName (indexed (index + 1) w.job.item.target.name) = some path') :
      Moves w fs { fs, phase := .testing chunks (index + 1) path' }
  | free {chunks index path} (h : w.phase = .testing chunks index path)
      (hfree : fs.pathExists (ws.start path) path.parts = false) : Moves w fs { fs, phase := .opening chunks path }
  | opened {chunks path fs' inode} (h : w.phase = .opening chunks path)
      (hcreate : fs.create (ws.start path) path.parent.parts path.name = some (fs', inode)) :
      Moves w fs { fs := fs', phase := .writing chunks ⟨path, inode⟩ 0, touched := [ws.entry path] }
  | wrote {chunk chunks file offset} (h : w.phase = .writing (chunk :: chunks) file offset) :
      Moves w fs
        { fs := fs.write file.inode offset chunk
          phase := .writing chunks file (offset + chunk.length)
          touched := [ws.entry file.path] }
  | closed {file offset} (h : w.phase = .writing [] file offset) : Moves w fs { fs, phase := .verifying file }
  | verified {file} (h : w.phase = .verifying file) : Moves w fs { fs, phase := .recording file }
  | corrupt {file error} (h : w.phase = .verifying file) : Moves w fs { fs, phase := .unlinking file error }
  | unlinked {file error fs'} (h : w.phase = .unlinking file error)
      (hunlink : fs.unlink (ws.start file.path) file.path.parent.parts file.path.name = some fs') :
      Moves w fs { fs := fs', phase := .finished none, touched := [ws.entry file.path], report := .failed error }
  | recorded {file} (h : w.phase = .recording file) :
      Moves w fs { fs, phase := .reporting file, report := .saved file.path }
  | reported {file} (h : w.phase = .reporting file) :
      Moves w fs { fs, phase := .finished (some file), report := .downloaded }
  | crashed (h : w.isFinished = false) : Moves w fs (.crash fs)

/-- The steps of the downloader and of those around it. -/
inductive Downloader.Steps (d : Downloader) : Action → Downloader → Prop where
  | queue {e job} (htracking : d.tracking = true) (h : ws.download e = some job) :
      Steps d (.event e) (d.queueDownload job)
  | lose {e} (h : ws.download e = none) : Steps d (.event e) (d.stop true)
  | stop (clearQueue : Bool) : Steps d (.stop clearQueue) (d.stop clearQueue)
  | trigger {job downloadQueue} (hmissed : d.missed = false) (h : d.downloadQueue = job :: downloadQueue) :
      Steps d .trigger { d with downloadQueue, tasks := d.tasks ++ [job] }
  | miss (h : d.downloadQueue = []) : Steps d .miss { d with missed := true }
  | leave (hexit : d.exit = true) (h : d.missed = true ∨ d.clearQueue = false) :
      Steps d .leave { d with looping := false }
  | goOn (hexit : d.exit = false) : Steps d .leave { d with missed := false }
  | begin {job tasks} (h : d.tasks = job :: tasks) :
      Steps d .begin { d with tasks, workers := d.workers ++ [⟨job, .requesting⟩] }
  | worker {i a w m} (h : d.workers[i]? = some w) (hact : w.act ws content hexdigest d.fs a = some m) :
      Steps d (.worker i a) (d.moved i w m)

variable {ws content hexdigest} {w : Worker} {fs : FileSystem} {m : Move}

theorem Worker.work_moves (h : w.work ws hexdigest fs = some m) : w.Moves ws content fs m := by
  unfold Worker.work at h
  simp only at h
  split at h
  · cases h
  · cases h
  · rename_i chunks hphase
    cases h
    split
    · rename_i hexists
      exact .found hphase hexists
    · exact .notFound hphase
  · rename_i chunks hphase
    split at h
    · rename_i hok
      cases h
      exact .made hphase rfl hok
    · cases h
      exact .notMade hphase rfl
  · rename_i chunks index path hphase
    split at h
    · split at h
      · rename_i hname
        cases h
        exact .taken hphase hname
      · cases h
        exact .crashed (by simp only [isFinished, hphase])
    · rename_i hfree
      cases h
      exact .free hphase (Bool.eq_false_iff.mpr hfree)
  · rename_i chunks path hphase
    split at h
    · rename_i hcreate
      cases h
      exact .opened hphase hcreate
    · cases h
      exact .crashed (by simp only [isFinished, hphase])
  · rename_i hphase
    cases h
    exact .closed hphase
  · rename_i hphase
    cases h
    exact .wrote hphase
  · rename_i hphase
    split at h <;> cases h
    · exact .crashed (by simp only [isFinished, hphase])
    · exact .verified hphase
    · exact .corrupt hphase
  · rename_i hphase
    split at h
    · rename_i hunlink
      cases h
      exact .unlinked hphase hunlink
    · cases h
      exact .crashed (by simp only [isFinished, hphase])
  · rename_i hphase
    cases h
    exact .recorded hphase
  · rename_i hphase
    cases h
    exact .reported hphase

theorem Worker.act_moves {a : WorkerAction} (h : w.act ws content hexdigest fs a = some m) :
    w.Moves ws content fs m := by
  cases a with
  | respond chunks =>
      simp only [Worker.act] at h
      split at h
      · rename_i hphase
        cases h
        exact .refused hphase
      · rename_i hphase
        split at h
        · rename_i hcontent
          cases h
          exact .answered hphase hcontent
        · cases h
      · cases h
  | next => exact Worker.work_moves h
  | raise =>
      simp only [Worker.act] at h
      split at h <;> cases h
      rename_i hphase
      refine .crashed ?_
      unfold isFinished
      split
      · rename_i saved hfinished
        exact absurd hfinished (hphase saved)
      · rfl

/-- A worker that has finished does nothing more. -/
theorem Worker.Moves.busy (h : w.Moves ws content fs m) : w.isFinished = false := by
  cases h with
  | crashed h => exact h
  | _ h => simp only [isFinished, h]

theorem Downloader.steps_of_step {d d' : Downloader} {a : Action} (h : d.step ws content hexdigest a = some d') :
    d.Steps ws content hexdigest a d' := by
  cases a with
  | event e =>
      simp only [Downloader.step] at h
      split at h
      · rename_i htracking
        split at h <;> cases h
        · rename_i hjob
          exact .queue htracking hjob
        · rename_i hnone
          exact .lose hnone
      · cases h
  | stop clearQueue =>
      simp only [Downloader.step] at h
      split at h <;> cases h
      exact .stop clearQueue
  | trigger =>
      simp only [Downloader.step] at h
      split at h <;> cases h
      rename_i hlooping hqueue
      simp only [Bool.and_eq_true, Bool.not_eq_true'] at hlooping
      exact .trigger hlooping.2 hqueue
  | miss =>
      simp only [Downloader.step] at h
      split at h <;> cases h
      rename_i hempty
      simp only [Bool.and_eq_true, List.isEmpty_iff] at hempty
      exact .miss hempty.2
  | leave =>
      simp only [Downloader.step] at h
      split at h
      · rename_i hmissed
        simp only [Bool.and_eq_true] at hmissed
        split at h <;> cases h
        · rename_i hexit
          exact .leave hexit (.inl hmissed.2)
        · rename_i hexit
          exact .goOn (Bool.eq_false_iff.mpr hexit)
      · split at h <;> cases h
        rename_i hforced
        simp only [Bool.and_eq_true, Bool.not_eq_true'] at hforced
        exact .leave hforced.1.2 (.inr hforced.2)
  | begin =>
      simp only [Downloader.step] at h
      split at h
      · rename_i htasks
        split at h <;> cases h
        exact .begin htasks
      · cases h
  | worker i x =>
      simp only [Downloader.step] at h
      split at h
      · rename_i w hw
        obtain ⟨m, hm, rfl⟩ := Option.map_eq_some_iff.mp h
        exact .worker hw hm
      · cases h

end Cases

/-! ## A small workspace -/

/-- The client runs in `/w`. -/
def demoWorkspace : Workspace where
  cwd := .ofText "/w".toList
  reportDir := .ofText "/w/reports".toList
  artifactDir := .ofText "/w/artifacts".toList

def demoTree : FileSystem :=
  .ofDirs [[], [['w']], [['w'], "reports".toList], [['w'], "artifacts".toList]] (by decide +kernel) (by decide +kernel)

end Etos.Cli
