import Etos.Cli.Downloader

/-!
# `Cli.Contained` — where downloads go

Both the directory and the name of a file come with its event, and `joinpath` takes them as they are: `..` leads out of
the configured directory, and a path that starts at the root forgets it. An empty name is another way out: the path is
then the directory itself, it is taken, and the file is saved next to it.

**`downloads_contained_iff`** says for which events nothing outside the configured directories is created, written or
deleted, whatever the workers do: the directory a file goes to, and all directories that have to be made on the way to
it, have to be inside (`Workspace.Stays`).
-/

namespace Etos.Cli

open Fs

/-- The event is the first one with its URL, and all events before it could be handled: it gets into the queue. -/
def Workspace.Queues (ws : Workspace) (es : List FileEvent) (job : Job) : Prop :=
  ∃ before e after, es = before ++ e :: after ∧ ws.download e = some job ∧
    ∀ e' ∈ before, ∃ job', ws.download e' = some job' ∧ job'.item.url ≠ job.item.url

/-- The directory of the file, and the directories on the way to it that are not there yet, are inside the directory
    that was configured, as far as the way can be gone at all: where a file stands on it, nothing after it counts. -/
def Workspace.Stays (ws : Workspace) (fs : FileSystem) (job : Job) : Prop :=
  job.item.target.parts ≠ [] → ∀ qs, qs <+: job.item.target.parent.parts → fs.Clear (ws.start job.item.target) qs →
    (fs.node (descend (ws.start job.item.target) qs) = none ∨ qs = job.item.target.parent.parts) →
    ws.base job.kind <+: descend (ws.start job.item.target) qs

/-- Nothing is created, written or deleted outside of the configured directories, in any run with the events. -/
def Contained (ws : Workspace) (content : String → Bytes) (hexdigest : String → Bytes → String) (fs : FileSystem)
    (es : List FileEvent) : Prop :=
  ∀ es' d, es' <+: es → Run ws content hexdigest (fun _ _ => True) fs es' d →
    ∀ kind l, (kind, l) ∈ d.touched → ws.base kind <+: l

section Inside

variable {ws : Workspace} {content : String → Bytes} {hexdigest : String → Bytes → String} {fs₀ : FileSystem}
  {es : List FileEvent} {job : Job}

/-! ## Inside -/

theorem Workspace.Queues.append (h : ws.Queues es job) (es' : List FileEvent) : ws.Queues (es ++ es') job := by
  obtain ⟨before, e, after, rfl, hjob, hbefore⟩ := h
  exact ⟨before, e, after ++ es', by simp, hjob, hbefore⟩

/-- The path is one that a worker tries for its file: it is in the same directory, and the way there can be gone. -/
structure Tries (ws : Workspace) (fs : FileSystem) (target path : PurePath) : Prop where
  parent : path.parent = target.parent
  named : path.parts ≠ [] → target.parts ≠ []
  walked : fs.walk (ws.start target) target.parent.parts = some (ws.directory target)

/-- What a worker knows about its path. The file it has opened was not there at the start. -/
def PathInv (ws : Workspace) (fs₀ fs : FileSystem) (w : Worker) : Prop :=
  match w.phase with
  | .testing _ _ path => Tries ws fs w.job.item.target path
  | .opening _ path => Tries ws fs w.job.item.target path ∧
      (path.parts ≠ [] → path.name ≠ dotdot → fs₀.node (ws.entry path) = none)
  | .writing _ file _ | .verifying file | .unlinking file _ =>
      fs₀.node (ws.entry file.path) = none ∧ ws.base w.job.kind <+: ws.entry file.path
  | _ => True

/-- All files are for jobs that stay inside, and nothing outside has been touched. -/
structure InsideInv (ws : Workspace) (fs₀ : FileSystem) (es : List FileEvent) (d : Downloader) : Prop where
  grows : fs₀.Grows d.fs
  handled : d.tracking = true → ∀ e ∈ es, ∃ job, ws.download e = some job ∧ job.item.url ∈ d.queued
  jobs : ∀ job, job ∈ d.downloadQueue ∨ job ∈ d.tasks ∨ job ∈ d.workers.map (·.job) → ws.Queues es job
  paths : ∀ w ∈ d.workers, PathInv ws fs₀ d.fs w
  inside : ∀ kind l, (kind, l) ∈ d.touched → ws.base kind <+: l

/-- Directories stay, so what a worker knows stays true. -/
theorem PathInv.keep {fs fs' : FileSystem} {w : Worker} (h : PathInv ws fs₀ fs w) (hkeep : fs.KeepsDirs fs') :
    PathInv ws fs₀ fs' w := by
  unfold PathInv at h ⊢
  split at h
  · exact ⟨h.parent, h.named, hkeep.walk h.walked⟩
  · exact ⟨⟨h.1.parent, h.1.named, hkeep.walk h.1.walked⟩, h.2⟩
  all_goals exact h

/-- A directory that was made is inside. -/
theorem Workspace.Stays.made {fs : FileSystem} {l : Loc} (h : ws.Stays fs₀ job) (hgrows : fs₀.Grows fs)
    (hstart : fs₀.node (ws.start job.item.target) = some .dir)
    (hl : l ∈ (fs.mkdirs (ws.start job.item.target.parent) job.item.target.parent.parts).2.1) :
    ws.base job.kind <+: l := by
  obtain ⟨qs, hqs, rfl, hnone, hclear⟩ := (FileSystem.mkdirs_spec _ _ _).missing l hl
  have hparts : job.item.target.parts ≠ [] := by
    intro hnil
    rw [PurePath.parent_parts, hnil, List.dropLast_nil, List.prefix_nil] at hqs
    rw [hqs, descend_nil, start_parent, hgrows _ _ hstart] at hnone
    cases hnone
  exact h hparts qs hqs (hgrows.clear hclear) (.inl (hgrows.none hnone))

/-- A file that was opened is inside. -/
theorem Workspace.Stays.opened {fs : FileSystem} (h : ws.Stays fs₀ job) (hgrows : fs₀.Grows fs)
    (hparts : job.item.target.parts ≠ [])
    (hwalk : fs.walk (ws.start job.item.target) job.item.target.parent.parts = some (ws.directory job.item.target))
    (hdir : fs.node (ws.directory job.item.target) = some .dir) :
    ws.base job.kind <+: ws.directory job.item.target := by
  have hclear := hgrows.clear (FileSystem.walk_clear hwalk hdir)
  exact h hparts _ (List.prefix_refl _) hclear (.inr rfl)

/-- One step of a worker whose job stays inside. -/
structure Kept (ws : Workspace) (fs₀ fs : FileSystem) (w : Worker) (m : Move) : Prop where
  grows : fs₀.Grows m.fs
  dirs : fs.KeepsDirs m.fs
  path : PathInv ws fs₀ m.fs { w with phase := m.phase }
  inside : ∀ l ∈ m.touched, ws.base w.job.kind <+: l

theorem Kept.same {fs : FileSystem} {w : Worker} {phase : Phase} {report : Report} (hgrows : fs₀.Grows fs)
    (hpath : PathInv ws fs₀ fs { w with phase }) : Kept ws fs₀ fs w { fs, phase, report } :=
  ⟨hgrows, FileSystem.Grows.refl.keepsDirs, hpath, nofun⟩

theorem Worker.Moves.kept {fs : FileSystem} {w : Worker} {m : Move} (h : w.Moves ws content fs m)
    (hgrows : fs₀.Grows fs) (hstays : ws.Stays fs₀ w.job) (hstart : fs₀.node (ws.start w.job.item.target) = some .dir)
    (hpath : PathInv ws fs₀ fs w) : Kept ws fs₀ fs w m := by
  cases h with
  | refused | answered | notFound | recorded | reported | crashed => exact .same hgrows trivial
  | found hphase hexists =>
      refine .same hgrows ⟨rfl, id, ?_⟩
      unfold FileSystem.pathExists at hexists
      split at hexists
      · rename_i k hwalk
        rw [start_parent] at hwalk
        rw [hwalk, FileSystem.walk_eq hwalk]
        rfl
      · cases hexists
  | made hphase hmade hok =>
      subst hmade
      have hspec := FileSystem.mkdirs_spec fs (ws.start w.job.item.target.parent) w.job.item.target.parent.parts
      exact ⟨hgrows.trans hspec.grows, hspec.grows.keepsDirs, ⟨rfl, id, (FileSystem.mkdirs_walk hok).1⟩,
        fun l hl => hstays.made hgrows hstart hl⟩
  | notMade hphase hmade =>
      subst hmade
      have hspec := FileSystem.mkdirs_spec fs (ws.start w.job.item.target.parent) w.job.item.target.parent.parts
      exact ⟨hgrows.trans hspec.grows, hspec.grows.keepsDirs, trivial, fun l hl => hstays.made hgrows hstart hl⟩
  | taken hphase hname =>
      simp only [PathInv, hphase] at hpath
      refine .same hgrows ⟨?_, fun _ => hpath.named (PurePath.withName_eq_some hname).1, hpath.walked⟩
      rw [← hpath.parent]
      exact PurePath.withName_parent hname
  | @free chunks index path hphase hfree =>
      simp only [PathInv, hphase] at hpath
      refine .same hgrows ⟨hpath, fun hparts hname => ?_⟩
      -- A name that was not found in a directory is not there.
      rw [PurePath.parts_eq hparts, Bool.eq_false_iff, Ne, FileSystem.pathExists_concat hname] at hfree
      rw [start_eq_of_parent hpath.parent, hpath.parent] at hfree
      unfold Workspace.entry
      rw [directory_eq_of_parent hpath.parent]
      by_contra hne
      have hthere : fs.node (ws.directory w.job.item.target ++ [path.name]) ≠ none := fun hn => hne (hgrows.none hn)
      exact hfree ⟨_, hpath.walked, fs.inDir _ _ hthere, hthere⟩
  | @opened chunks path fs' inode hphase hcreate =>
      simp only [PathInv, hphase] at hpath
      obtain ⟨htries, hfree⟩ := hpath
      obtain ⟨k, hwalk, hdir, hpart, hname, -, -⟩ := FileSystem.create_eq_some hcreate
      have hgrow := FileSystem.create_grows hcreate
      have hparts : path.parts ≠ [] := fun hnil => hpart.1 (by simp [PurePath.name, hnil])
      have hinside : ws.base w.job.kind <+: ws.entry path := by
        rw [start_eq_of_parent htries.parent, htries.parent, htries.walked] at hwalk
        cases hwalk
        unfold Workspace.entry
        rw [directory_eq_of_parent htries.parent]
        exact (hstays.opened hgrows (htries.named hparts) htries.walked hdir).trans (List.prefix_append _ _)
      refine ⟨hgrows.trans hgrow, hgrow.keepsDirs, ⟨hfree hparts hname, hinside⟩, fun l hl => ?_⟩
      rwa [List.mem_singleton.mp hl]
  | @wrote chunk chunks file offset hphase =>
      simp only [PathInv, hphase] at hpath
      refine ⟨hgrows, FileSystem.Grows.refl.keepsDirs, hpath, fun l hl => ?_⟩
      rw [List.mem_singleton.mp hl]
      exact hpath.2
  | closed hphase | verified hphase | corrupt hphase =>
      simp only [PathInv, hphase] at hpath
      exact .same hgrows (by first | exact hpath | trivial)
  | @unlinked file error fs' hphase hunlink =>
      simp only [PathInv, hphase] at hpath
      obtain ⟨k, i, hwalk, -, hnode, -, -⟩ := FileSystem.unlink_eq_some hunlink
      have hentry : k ++ [file.path.name] = ws.entry file.path := by
        rw [FileSystem.walk_eq hwalk]
        rfl
      refine ⟨fun l x hl => ?_, FileSystem.unlink_keepsDirs hunlink, trivial, fun l hl => ?_⟩
      · have hne : l ≠ k ++ [file.path.name] := by
          rintro rfl
          rw [hentry, hpath.1] at hl
          cases hl
        rw [hnode, Function.update_of_ne hne]
        exact hgrows l x hl
      · rw [List.mem_singleton.mp hl]
        exact hpath.2

/-- The steps that are not a worker's leave files alone. -/
theorem InsideInv.step {d d' : Downloader} {a : Action} (h : InsideInv ws fs₀ es d)
    (hstart : ∀ p, fs₀.node (ws.start p) = some .dir) (hstays : ∀ job, ws.Queues es job → ws.Stays fs₀ job)
    (hstep : d.Steps ws content hexdigest a d') : InsideInv ws fs₀ (es ++ a.events) d' := by
  have hjobs : ∀ job, job ∈ d.downloadQueue ∨ job ∈ d.tasks ∨ job ∈ d.workers.map (·.job) →
      ws.Queues (es ++ a.events) job := fun job hjob => (h.jobs job hjob).append _
  cases hstep with
  | @queue e job htracking hjob =>
      unfold Downloader.queueDownload
      split
      · rename_i hqueued
        refine ⟨h.grows, fun _ e' he' => ?_, hjobs, h.paths, h.inside⟩
        rcases List.mem_append.mp he' with he' | he'
        · exact h.handled htracking e' he'
        · rw [List.mem_singleton.mp he']
          exact ⟨job, hjob, hqueued⟩
      · rename_i hqueued
        refine ⟨h.grows, fun _ e' he' => ?_, fun job' hjob' => ?_, h.paths, h.inside⟩
        · rcases List.mem_append.mp he' with he' | he'
          · obtain ⟨job', hdownload, hurl⟩ := h.handled htracking e' he'
            exact ⟨job', hdownload, List.mem_append_left _ hurl⟩
          · rw [List.mem_singleton.mp he']
            exact ⟨job, hjob, List.mem_append_right _ (List.mem_singleton_self _)⟩
        · rcases hjob' with hjob' | hjob'
          · rcases List.mem_append.mp hjob' with hjob' | hjob'
            · exact hjobs job' (.inl hjob')
            · rw [List.mem_singleton.mp hjob']
              refine ⟨es, e, [], rfl, hjob, fun e' he' => ?_⟩
              obtain ⟨job', hdownload, hurl⟩ := h.handled htracking e' he'
              exact ⟨job', hdownload, fun heq => hqueued (heq ▸ hurl)⟩
          · exact hjobs job' (.inr hjob')
  | lose | stop => exact ⟨h.grows, nofun, hjobs, h.paths, h.inside⟩
  | trigger _ hqueue =>
      have hhandled := h.handled
      rw [← List.append_nil es] at hhandled
      refine ⟨h.grows, hhandled, fun job hjob => hjobs job ?_, h.paths, h.inside⟩
      simp only [hqueue, List.mem_append, List.mem_cons] at hjob ⊢
      tauto
  | miss | leave | goOn =>
      have hhandled := h.handled
      rw [← List.append_nil es] at hhandled
      exact ⟨h.grows, hhandled, hjobs, h.paths, h.inside⟩
  | @begin job tasks htasks =>
      have hhandled := h.handled
      rw [← List.append_nil es] at hhandled
      refine ⟨h.grows, hhandled, fun job' hjob' => hjobs job' ?_, fun w hw => ?_, h.inside⟩
      · simp only [htasks, List.map_append, List.map_cons, List.map_nil, List.mem_append, List.mem_cons] at hjob' ⊢
        tauto
      · rcases List.mem_append.mp hw with hw | hw
        · exact h.paths w hw
        · rw [List.mem_singleton.mp hw]
          trivial
  | @worker i a w m hw hact =>
      have hmem : w ∈ d.workers := List.mem_of_getElem? hw
      have hqueues : ws.Queues es w.job := h.jobs _ (.inr (.inr (List.mem_map_of_mem hmem)))
      have hkept := (Worker.act_moves hact).kept h.grows (hstays _ hqueues) (hstart _) (h.paths w hmem)
      have hevents : es ++ (Action.worker i a).events = es := List.append_nil es
      rw [hevents] at hjobs ⊢
      refine ⟨hkept.grows, ?_, fun job hjob => hjobs job ?_, fun w' hw' => ?_, fun kind l hl => ?_⟩
      · rw [Downloader.moved_tracking, Downloader.moved_queued]
        exact h.handled
      · rwa [Downloader.moved_downloadQueue, Downloader.moved_tasks, Downloader.moved_jobs i w m hw] at hjob
      · rcases List.mem_or_eq_of_mem_set hw' with hw' | rfl
        · exact (h.paths w' hw').keep hkept.dirs
        · exact hkept.path
      · rcases List.mem_append.mp hl with hl | hl
        · obtain ⟨l, hl, heq⟩ := List.mem_map.mp hl
          cases heq
          exact hkept.inside l hl
        · exact h.inside kind l hl

theorem Run.insideInv {allowed : Downloader → Action → Prop} {d : Downloader} {es' : List FileEvent}
    (hrun : Run ws content hexdigest allowed fs₀ es' d) (hhead : es' <+: es)
    (hstart : ∀ p, fs₀.node (ws.start p) = some .dir) (hstays : ∀ job, ws.Queues es job → ws.Stays fs₀ job) :
    InsideInv ws fs₀ es' d := by
  induction hrun with
  | start => exact ⟨.refl, nofun, by simp, nofun, nofun⟩
  | step a _ _ hstep ih =>
      have hshort := (List.prefix_append _ _).trans hhead
      refine (ih hshort).step hstart (fun job hjob => hstays job ?_) (Downloader.steps_of_step hstep)
      obtain ⟨after, rfl⟩ := hshort
      exact hjob.append after

end Inside

/-! ## Outside -/

section Outside

variable {ws : Workspace} {content : String → Bytes} {hexdigest : String → Bytes → String} {fs₀ : FileSystem}
  {es : List FileEvent} {job : Job}

theorem indexed_isPart {name : Part} (h : IsPart name) (index : Nat) : IsPart (indexed index name) := by
  refine ⟨by simp [indexed], ?_, ?_⟩
  · intro hdot
    have hmem : '_' ∈ indexed index name := List.mem_append_right _ List.mem_cons_self
    rw [hdot] at hmem
    simp at hmem
  · intro hslash
    rcases List.mem_append.mp hslash with hdigit | hname
    · exact absurd (Nat.isDigit_of_mem_toDigits (by decide) (by decide) hdigit) (by decide)
    · rcases List.mem_cons.mp hname with heq | hname
      · exact absurd heq (by decide)
      · exact h.2.2 hname

theorem indexed_ne_dotdot (index : Nat) (name : Part) : indexed index name ≠ dotdot := by
  intro hdots
  have hmem : '_' ∈ indexed index name := List.mem_append_right _ List.mem_cons_self
  rw [hdots] at hmem
  exact absurd hmem (by decide)

/-- Every index makes another name. -/
theorem indexed_injective (name : Part) : Function.Injective fun index => indexed index name := by
  intro i j h
  have hdigits : Nat.toDigits 10 i = Nat.toDigits 10 j := List.append_cancel_right h
  rw [← @Nat.ofDigitChars_ten_toDigits i, hdigits, Nat.ofDigitChars_ten_toDigits]

/-- A worker moves while all others rest. -/
inductive Alone (ws : Workspace) (content : String → Bytes) (hexdigest : String → Bytes → String)
    (fs : FileSystem) (w : Worker) : FileSystem → Worker → List Loc → Prop where
  | refl : Alone ws content hexdigest fs w fs w []
  | step {fs₁ : FileSystem} {w₁ : Worker} {touched : List Loc} {m : Move} (a : WorkerAction)
      (h : Alone ws content hexdigest fs w fs₁ w₁ touched) (hact : w₁.act ws content hexdigest fs₁ a = some m) :
      Alone ws content hexdigest fs w m.fs { w₁ with phase := m.phase } (m.touched ++ touched)

/-- What a worker does alone is part of a run. -/
theorem Alone.run {d : Downloader} {i : Nat} {fs fs' : FileSystem} {w w' : Worker} {touched : List Loc}
    (h : Alone ws content hexdigest fs w fs' w' touched)
    (hrun : Run ws content hexdigest (fun _ _ => True) fs₀ es d) (hfs : d.fs = fs) (hw : d.workers[i]? = some w) :
    ∃ d', Run ws content hexdigest (fun _ _ => True) fs₀ es d' ∧ d'.fs = fs' ∧ d'.workers[i]? = some w' ∧
      w'.job = w.job ∧ ∀ l ∈ touched, (w.job.kind, l) ∈ d'.touched := by
  induction h with
  | refl => exact ⟨d, hrun, hfs, hw, rfl, nofun⟩
  | @step fs₁ w₁ touched m a _ hact ih =>
      obtain ⟨d₁, hrun₁, hfs₁, hw₁, hjob, htouched⟩ := ih
      have hstep : d₁.step ws content hexdigest (.worker i a) = some (d₁.moved i w₁ m) := by
        simp only [Downloader.step, hw₁, hfs₁, hact, Option.map_some]
      have hrun' := hrun₁.step (.worker i a) trivial hstep
      rw [show Action.events (.worker i a) = [] from rfl, List.append_nil] at hrun'
      refine ⟨_, hrun', rfl, ?_, hjob, fun l hl => ?_⟩
      · rw [Downloader.moved_workers, List.getElem?_set_self (List.getElem?_eq_some_iff.mp hw₁).1]
      · rw [Downloader.moved_touched, hjob]
        rcases List.mem_append.mp hl with hl | hl
        · exact List.mem_append_left _ (List.mem_map_of_mem hl)
        · exact List.mem_append_right _ (htouched l hl)

/-- A name that is free is opened. -/
theorem Alone.opening {fs fs' : FileSystem} {w : Worker} {touched : List Loc} {chunks : List Bytes} {index : Nat}
    {path : PurePath} (h : Alone ws content hexdigest fs w fs' ⟨job, .testing chunks index path⟩ touched)
    (hfree : fs'.pathExists (ws.start path) path.parts = false) :
    Alone ws content hexdigest fs w fs' ⟨job, .opening chunks path⟩ touched := by
  refine h.step .next (m := { fs := fs', phase := .opening chunks path }) ?_
  simp only [Worker.act, Worker.work, hfree]
  rfl

/-- Can the directory of a file be entered? -/
structure Entered (ws : Workspace) (fs : FileSystem) (target : PurePath) : Prop where
  walked : fs.walk (ws.start target) target.parent.parts = some (ws.directory target)
  dir : fs.node (ws.directory target) = some .dir

/-- In a directory that can be entered, a path exists if its name is taken. -/
theorem Entered.pathExists {fs : FileSystem} {target path : PurePath} (h : Entered ws fs target)
    (hparent : path.parent = target.parent) (hparts : path.parts ≠ []) (hname : path.name ≠ dotdot) :
    fs.pathExists (ws.start path) path.parts = true ↔ fs.node (ws.entry path) ≠ none := by
  rw [PurePath.parts_eq hparts, FileSystem.pathExists_concat hname, start_eq_of_parent hparent, hparent]
  unfold Workspace.entry
  rw [directory_eq_of_parent hparent]
  constructor
  · rintro ⟨k, hwalk, -, hk⟩
    rw [h.walked] at hwalk
    cases hwalk
    exact hk
  · exact fun hne => ⟨_, h.walked, h.dir, hne⟩

/-- A path that does not exist has a name, and the name is free. -/
theorem Entered.free {fs : FileSystem} {target path : PurePath} (h : Entered ws fs target)
    (hparent : path.parent = target.parent) (hparts : path.parts ≠ [])
    (hfree : fs.pathExists (ws.start path) path.parts = false) :
    path.name ≠ dotdot ∧ fs.node (ws.entry path) = none := by
  have hname : path.name ≠ dotdot := by
    intro hname
    have hexists := FileSystem.pathExists_dotdot h.walked h.dir
    rw [← hname, ← hparent, ← PurePath.parts_eq hparts, ← start_eq_of_parent hparent] at hexists
    rw [hexists] at hfree
    cases hfree
  refine ⟨hname, ?_⟩
  by_contra hne
  rw [(h.pathExists hparent hparts hname).mpr hne] at hfree
  cases hfree

/-- A name that is taken is given up for the one with the next index. -/
theorem Alone.taken {fs fs' : FileSystem} {w : Worker} {touched : List Loc} {chunks : List Bytes} {index : Nat}
    {path path' : PurePath} (h : Alone ws content hexdigest fs w fs' ⟨job, .testing chunks index path⟩ touched)
    (hexists : fs'.pathExists (ws.start path) path.parts = true)
    (hname : path.withName (indexed (index + 1) job.item.target.name) = some path') :
    Alone ws content hexdigest fs w fs' ⟨job, .testing chunks (index + 1) path'⟩ touched := by
  refine h.step .next (m := { fs := fs', phase := .testing chunks (index + 1) path' }) ?_
  simp only [Worker.act, Worker.work, hexists, if_true, hname]

/-- The loop over the index ends: after `n` more names there is a free one. -/
theorem Alone.search {fs fs' : FileSystem} {w : Worker} {touched : List Loc} {chunks : List Bytes} (n : Nat)
    {index : Nat} {path : PurePath} (h : Alone ws content hexdigest fs w fs' ⟨job, .testing chunks index path⟩ touched)
    (hentered : Entered ws fs' job.item.target) (htarget : job.item.target.parts ≠ [])
    (hparent : path.parent = job.item.target.parent) (hparts : path.parts ≠ [])
    (hfree : fs'.node (ws.directory job.item.target ++ [indexed (index + 1 + n) job.item.target.name]) = none) :
    ∃ path', Alone ws content hexdigest fs w fs' ⟨job, .opening chunks path'⟩ touched ∧
      path'.parent = job.item.target.parent ∧ path'.parts ≠ [] ∧
      fs'.pathExists (ws.start path') path'.parts = false := by
  induction n generalizing index path with
  | zero =>
      cases hexists : fs'.pathExists (ws.start path) path.parts with
      | false => exact ⟨path, h.opening hexists, hparent, hparts, hexists⟩
      | true =>
          obtain ⟨path', hname, hparent', hparts', hn⟩ :=
            PurePath.exists_withName hparts (indexed_isPart (PurePath.name_isPart htarget) (index + 1))
          rw [hparent] at hparent'
          -- The next name is the free one.
          have hexists' : fs'.pathExists (ws.start path') path'.parts = false := by
            rw [Bool.eq_false_iff, Ne, hentered.pathExists hparent' hparts' (hn ▸ indexed_ne_dotdot _ _), not_not]
            unfold Workspace.entry
            rw [directory_eq_of_parent hparent', hn]
            exact hfree
          exact ⟨path', (h.taken hexists hname).opening hexists', hparent', hparts', hexists'⟩
  | succ n ih =>
      cases hexists : fs'.pathExists (ws.start path) path.parts with
      | false => exact ⟨path, h.opening hexists, hparent, hparts, hexists⟩
      | true =>
          obtain ⟨path', hname, hparent', hparts', -⟩ :=
            PurePath.exists_withName hparts (indexed_isPart (PurePath.name_isPart htarget) (index + 1))
          rw [hparent] at hparent'
          refine ih (h.taken hexists hname) hparent' hparts' ?_
          rwa [Nat.add_right_comm index 1 1, Nat.add_assoc (index + 1) 1 n, Nat.add_comm 1 n]

/-- From a directory that can be entered, a worker gets to open a file in it. -/
theorem Alone.opens {fs fs' : FileSystem} {w : Worker} {touched : List Loc} {chunks : List Bytes}
    (h : Alone ws content hexdigest fs w fs' ⟨job, .testing chunks 0 job.item.target⟩ touched)
    (hentered : Entered ws fs' job.item.target) (htarget : job.item.target.parts ≠ []) :
    ∃ fs'' w' path, Alone ws content hexdigest fs w fs'' w' (ws.entry path :: touched) ∧
      path.parent = job.item.target.parent ∧ fs'.node (ws.entry path) = none := by
  have hinj : Function.Injective fun n => indexed (0 + 1 + n) job.item.target.name :=
    (indexed_injective _).comp fun _ _ => Nat.add_left_cancel
  obtain ⟨n, hn⟩ := FileSystem.exists_free hinj fs' (ws.directory job.item.target)
  obtain ⟨path, hopening, hparent, hparts, hexists⟩ := h.search n hentered htarget rfl htarget hn
  obtain ⟨hname, hfree⟩ := hentered.free hparent hparts hexists
  have hentry : ws.entry path = ws.directory job.item.target ++ [path.name] := by
    unfold Workspace.entry
    rw [directory_eq_of_parent hparent]
  obtain ⟨fs'', inode, hcreate⟩ := FileSystem.create_free hentered.walked hentered.dir (PurePath.name_isPart hparts)
    hname (hentry ▸ hfree)
  rw [← hparent, ← start_eq_of_parent hparent] at hcreate
  refine ⟨fs'', _, path, hopening.step .next
    (m := { fs := fs'', phase := .writing chunks ⟨path, inode⟩ 0, touched := [ws.entry path] }) ?_, hparent, hfree⟩
  simp only [Worker.act, Worker.work, hcreate]

/-- The directories that are made are touched, and if they could all be made the worker goes on. -/
theorem Alone.making {fs fs' : FileSystem} {w : Worker} {touched : List Loc} {chunks : List Bytes}
    {made : FileSystem × List Loc × Bool}
    (h : Alone ws content hexdigest fs w fs' ⟨job, .making chunks⟩ touched)
    (hmade : made = fs'.mkdirs (ws.start job.item.target.parent) job.item.target.parent.parts) :
    ∃ w', Alone ws content hexdigest fs w made.1 w' (made.2.1 ++ touched) ∧
      (made.2.2 = true → w' = ⟨job, .testing chunks 0 job.item.target⟩) := by
  subst hmade
  cases hok : (fs'.mkdirs (ws.start job.item.target.parent) job.item.target.parent.parts).2.2 with
  | true =>
      exact ⟨_, h.step .next (m := { fs := _, phase := .testing chunks 0 job.item.target, touched := _ }) (if_pos hok),
        fun _ => rfl⟩
  | false =>
      exact ⟨_, h.step .next (m := { Move.crash _ with touched := _ }) (if_neg (ne_true_of_eq_false hok)), nofun⟩

/-- **A job that does not stay inside gets out**, if its worker has the file system to itself. -/
theorem Alone.outside (hstart : ∀ p, fs₀.node (ws.start p) = some .dir)
    (hbase : fs₀.node (ws.base job.kind) = some .dir) (hstays : ¬ ws.Stays fs₀ job) :
    ∃ fs w touched l, Alone ws content hexdigest fs₀ ⟨job, .requesting⟩ fs w touched ∧ l ∈ touched ∧
      ¬ ws.base job.kind <+: l := by
  unfold Workspace.Stays at hstays
  push Not at hstays
  obtain ⟨htarget, qs, hqs, hclear, hreached, houtside⟩ := hstays
  let chunks := [content job.item.url]
  have hpreparing : Alone ws content hexdigest fs₀ ⟨job, .requesting⟩ fs₀ ⟨job, .preparing chunks⟩ [] := by
    refine Alone.refl.step (.respond (some chunks)) (m := { fs := fs₀, phase := .preparing chunks }) ?_
    simp [Worker.act, chunks]
  have hmaking (hexists : fs₀.pathExists (ws.start job.item.target.parent) job.item.target.parent.parts = false) :
      Alone ws content hexdigest fs₀ ⟨job, .requesting⟩ fs₀ ⟨job, .making chunks⟩ [] := by
    refine hpreparing.step .next (m := { fs := fs₀, phase := .making chunks }) ?_
    simp only [Worker.act, Worker.work, hexists]
    rfl
  by_cases hnone : fs₀.node (descend (ws.start job.item.target) qs) = none
  · -- A directory outside has to be made.
    have hexists : fs₀.pathExists (ws.start job.item.target.parent) job.item.target.parent.parts = false := by
      rw [Bool.eq_false_iff]
      exact fun hexists => FileSystem.pathExists_prefix hexists hqs hnone
    have hmem := FileSystem.mem_mkdirs (hstart _) hqs hclear hnone
    obtain ⟨w, hmade, -⟩ := (hmaking hexists).making rfl
    exact ⟨_, w, _, _, hmade, List.mem_append_left _ hmem, houtside⟩
  · -- The directory of the file is outside, and the worker gets there.
    obtain rfl := hreached.resolve_left hnone
    obtain ⟨fs, touched, htesting, hgrows, hentered⟩ : ∃ fs touched,
        Alone ws content hexdigest fs₀ ⟨job, .requesting⟩ fs ⟨job, .testing chunks 0 job.item.target⟩ touched ∧
          fs₀.Grows fs ∧ Entered ws fs job.item.target := by
      cases hexists : fs₀.pathExists (ws.start job.item.target.parent) job.item.target.parent.parts with
      | true =>
          refine ⟨fs₀, [], hpreparing.step .next
            (m := { fs := fs₀, phase := .testing chunks 0 job.item.target }) ?_, .refl, ?_⟩
          · simp only [Worker.act, Worker.work, hexists, if_true]
          · unfold FileSystem.pathExists at hexists
            split at hexists
            · rename_i k hwalk
              obtain rfl := FileSystem.walk_eq hwalk
              refine ⟨hwalk, ?_⟩
              obtain ⟨x, hx⟩ := Option.isSome_iff_exists.mp hexists
              cases x with
              | dir => exact hx
              | file i => exact absurd hx (hclear _ (List.prefix_refl _) i)
            · cases hexists
      | false =>
          have hok := FileSystem.mkdirs_ok (hstart _) hclear
          obtain ⟨w, hmade, htesting⟩ := (hmaking hexists).making rfl
          rw [htesting hok] at hmade
          exact ⟨_, _, hmade, (FileSystem.mkdirs_spec _ _ _).grows, (FileSystem.mkdirs_walk hok).1,
            (FileSystem.mkdirs_walk hok).2⟩
    obtain ⟨fs'', w', path, hopened, hparent, hfree⟩ := htesting.opens hentered htarget
    refine ⟨fs'', w', _, ws.entry path, hopened, List.mem_cons_self, fun hinside => ?_⟩
    -- Inside, and not in a directory inside: the file would be the configured directory itself.
    unfold Workspace.entry at hinside hfree
    rw [directory_eq_of_parent hparent] at hinside hfree
    rcases List.prefix_concat_iff.mp hinside with heq | hinside
    · rw [← heq, hgrows _ _ hbase] at hfree
      cases hfree
    · exact houtside hinside

/-- Nothing has been saved, and nothing is on the way. -/
structure Idle (fs₀ : FileSystem) (d : Downloader) : Prop where
  fs : d.fs = fs₀
  tracking : d.tracking = true
  looping : d.looping = true
  missed : d.missed = false
  downloadQueue : d.downloadQueue = []
  tasks : d.tasks = []
  finished : ∀ w ∈ d.workers, w.isFinished = true

theorem Idle.busy {d : Downloader} (h : Idle fs₀ d) : d.busy = 0 := by
  refine List.countP_eq_zero.mpr fun w hw => ?_
  simp [h.finished w hw]

/-- A worker has taken a new file, and nothing else is on the way. -/
def Downloader.taken (d : Downloader) (job : Job) : Downloader :=
  { d with
    downloadQueue := []
    queued := d.queued ++ [job.item.url]
    reconciler := d.reconciler.recordReceived job.item
    tasks := []
    workers := d.workers ++ [⟨job, .requesting⟩] }

theorem Idle.run_taken {d : Downloader} {e : FileEvent} (h : Idle fs₀ d)
    (hrun : Run ws content hexdigest (fun _ _ => True) fs₀ es d) (hjob : ws.download e = some job)
    (hnew : job.item.url ∉ d.queued) :
    Run ws content hexdigest (fun _ _ => True) fs₀ (es ++ [e]) (d.taken job) := by
  have hevent : d.step ws content hexdigest (.event e) = some (d.queueDownload job) := by
    simp only [Downloader.step, h.tracking, if_true, hjob]
  have hqueue : d.queueDownload job =
      { d with
        downloadQueue := [job]
        queued := d.queued ++ [job.item.url]
        reconciler := d.reconciler.recordReceived job.item } := by
    unfold Downloader.queueDownload
    rw [if_neg hnew, h.downloadQueue]
    rfl
  have htrigger : (d.queueDownload job).step ws content hexdigest .trigger =
      some { d.queueDownload job with downloadQueue := [], tasks := [job] } := by
    rw [hqueue]
    simp only [Downloader.step, h.looping, h.missed, h.tasks, List.nil_append]
    rfl
  have hbegin : Downloader.step { d.queueDownload job with downloadQueue := [], tasks := [job] } ws content hexdigest
      .begin = some (d.taken job) := by
    have hbusy : d.busy < poolSize := by
      rw [h.busy]
      decide
    rw [hqueue]
    exact if_pos hbusy
  have hrun' := ((hrun.step _ trivial hevent).step _ trivial htrigger).step _ trivial hbegin
  rwa [show Action.events .trigger = [] from rfl, show Action.events .begin = [] from rfl, List.append_nil,
    List.append_nil] at hrun'

/-- If the server refuses the file, nothing has happened. -/
theorem Idle.run_refused {d : Downloader} {e : FileEvent} (h : Idle fs₀ d)
    (hrun : Run ws content hexdigest (fun _ _ => True) fs₀ es d) (hjob : ws.download e = some job)
    (hnew : job.item.url ∉ d.queued) :
    ∃ d', Run ws content hexdigest (fun _ _ => True) fs₀ (es ++ [e]) d' ∧ Idle fs₀ d' ∧
      d'.queued = d.queued ++ [job.item.url] := by
  have htaken := h.run_taken hrun hjob hnew
  have hw : (d.taken job).workers[d.workers.length]? = some ⟨job, .requesting⟩ := List.getElem?_concat_length
  have hact : Worker.act ws content hexdigest ⟨job, .requesting⟩ (d.taken job).fs (.respond none) =
      some { fs := d.fs, phase := .finished none, report := .failed .request } := rfl
  have hstep : (d.taken job).step ws content hexdigest (.worker d.workers.length (.respond none)) =
      some ((d.taken job).moved d.workers.length ⟨job, .requesting⟩
        { fs := d.fs, phase := .finished none, report := .failed .request }) := by
    simp only [Downloader.step, hw, hact, Option.map_some]
  have hrun' := htaken.step _ trivial hstep
  rw [show Action.events (.worker d.workers.length (.respond none)) = [] from rfl, List.append_nil] at hrun'
  refine ⟨_, hrun', ⟨h.fs, h.tracking, h.looping, h.missed, rfl, rfl, fun w hw' => ?_⟩, rfl⟩
  simp only [Downloader.moved_workers, Downloader.taken, List.set_append_right _ _ le_rfl, Nat.sub_self,
    List.set_cons_zero, List.mem_append, List.mem_singleton] at hw'
  rcases hw' with hw' | rfl
  · exact h.finished w hw'
  · rfl

/-- All events can be handled without anything being saved. -/
theorem exists_idle (es : List FileEvent) (h : ∀ e ∈ es, ∃ job, ws.download e = some job) :
    ∃ d, Run ws content hexdigest (fun _ _ => True) fs₀ es d ∧ Idle fs₀ d ∧
      ∀ url ∈ d.queued, ∃ e ∈ es, ∃ job, ws.download e = some job ∧ job.item.url = url := by
  induction es using List.reverseRecOn with
  | nil => exact ⟨_, .start, ⟨rfl, rfl, rfl, rfl, rfl, rfl, nofun⟩, nofun⟩
  | append_singleton es e ih =>
      obtain ⟨d, hrun, hidle, hqueued⟩ := ih fun e' he' => h e' (List.mem_append_left _ he')
      have hqueued' : ∀ url ∈ d.queued, ∃ e' ∈ es ++ [e], ∃ job, ws.download e' = some job ∧ job.item.url = url := by
        intro url hurl
        obtain ⟨e', he', hjob'⟩ := hqueued url hurl
        exact ⟨e', List.mem_append_left _ he', hjob'⟩
      have he : e ∈ es ++ [e] := List.mem_append_right _ (List.mem_singleton_self _)
      obtain ⟨job, hjob⟩ := h e he
      by_cases hnew : job.item.url ∈ d.queued
      · have hevent : d.step ws content hexdigest (.event e) = some d := by
          simp only [Downloader.step, hidle.tracking, if_true, hjob, Downloader.queueDownload, hnew]
        exact ⟨d, hrun.step _ trivial hevent, hidle, hqueued'⟩
      · obtain ⟨d', hrun', hidle', heq⟩ := hidle.run_refused hrun hjob hnew
        refine ⟨d', hrun', hidle', fun url hurl => ?_⟩
        rw [heq] at hurl
        rcases List.mem_append.mp hurl with hurl | hurl
        · exact hqueued' url hurl
        · exact ⟨e, he, job, hjob, (List.mem_singleton.mp hurl).symm⟩

end Outside

/-- The client runs in a directory, and its output directories have been made. -/
structure Workspace.Ready (ws : Workspace) (fs : FileSystem) : Prop where
  start : ∀ p, fs.node (ws.start p) = some .dir
  base : ∀ kind, fs.node (ws.base kind) = some .dir

/-- **Downloads stay inside the output directories** for exactly those sequences of events whose files all stay inside:
    the directory of each file, and every directory that has to be made on the way to it, is inside the directory that
    was configured for its kind. -/
theorem downloads_contained_iff (ws : Workspace) (content : String → Bytes) (hexdigest : String → Bytes → String)
    (fs : FileSystem) (hready : ws.Ready fs) (es : List FileEvent) :
    Contained ws content hexdigest fs es ↔ ∀ job, ws.Queues es job → ws.Stays fs job := by
  constructor
  · rintro hcontained job ⟨before, e, after, rfl, hjob, hbefore⟩
    by_contra hstays
    -- Everything before the event is refused; then the worker with its file is alone.
    obtain ⟨d, hrun, hidle, hqueued⟩ :=
      @exists_idle ws content hexdigest fs before fun e' he' => (hbefore e' he').imp fun _ h => h.1
    have hnew : job.item.url ∉ d.queued := by
      intro hurl
      obtain ⟨e', he', job', hjob', hurl'⟩ := hqueued _ hurl
      obtain ⟨job'', hjob'', hne⟩ := hbefore e' he'
      rw [hjob'] at hjob''
      cases hjob''
      exact hne hurl'
    obtain ⟨fs', w, touched, l, halone, hl, houtside⟩ :=
      @Alone.outside ws content hexdigest fs job hready.start (hready.base _) hstays
    obtain ⟨d', hrun', -, -, -, htouched⟩ :=
      halone.run (hidle.run_taken hrun hjob hnew) hidle.fs List.getElem?_concat_length
    refine houtside (hcontained _ d' ?_ hrun' job.kind l (htouched l hl))
    exact ⟨after, by simp⟩
  · intro hstays es' d hhead hrun
    exact (hrun.insideInv hhead hready.start hstays).inside

/-! ## A report with a name of its own -/

theorem demoTree_ready : demoWorkspace.Ready demoTree where
  start p := by
    unfold Workspace.start
    split
    · decide +kernel
    · decide +kernel
  base kind := by cases kind <;> decide +kernel

def reportNamed (name : String) (directory : Option String) : FileEvent :=
  ⟨.report, ⟨"http://logs/1", name, directory, []⟩⟩

/-- A report in a directory of its own stays inside. -/
theorem downloads_contained_suite :
    demoWorkspace.Ready demoTree ∧
      Contained demoWorkspace (fun _ => []) (fun _ _ => "") demoTree [reportNamed "log.txt" (some "suite")] := by
  refine ⟨demoTree_ready, (downloads_contained_iff _ _ _ _ demoTree_ready _).mpr fun job hjob => ?_⟩
  obtain ⟨before, e, after, hevents, hdownload, -⟩ := hjob
  obtain ⟨rfl, rfl, rfl⟩ : before = [] ∧ e = reportNamed "log.txt" (some "suite") ∧ after = [] := by
    cases before with
    | nil => simpa [eq_comm] using hevents
    | cons e' before => simp at hevents
  have hstays : (demoWorkspace.download (reportNamed "log.txt" (some "suite"))).all (fun job =>
      job.item.target.parent.parts.inits.all fun qs =>
        !((demoTree.node (descend (demoWorkspace.start job.item.target) qs)).isNone ||
            decide (qs = job.item.target.parent.parts)) ||
          decide (demoWorkspace.base job.kind <+: descend (demoWorkspace.start job.item.target) qs)) = true := by
    decide +kernel
  rw [hdownload, Option.all_some, List.all_eq_true] at hstays
  intro _ qs hqs _ hreached
  have h := hstays qs ((List.mem_inits _ _).mpr hqs)
  rcases hreached with hnone | rfl
  · exact of_decide_eq_true (by simpa [hnone] using h)
  · exact of_decide_eq_true (by simpa using h)

/-- A name that starts with `..` leads out: `reports/../stray.log` is saved next to the reports. -/
theorem report_strays :
    demoWorkspace.Ready demoTree ∧
      ¬ Contained demoWorkspace (fun _ => []) (fun _ _ => "") demoTree [reportNamed "../stray.log" none] := by
  refine ⟨demoTree_ready, fun hcontained => ?_⟩
  have hrun : ((({ fs := demoTree } : Downloader).run demoWorkspace (fun _ => []) (fun _ _ => "") (fun _ _ => True)
      [.event (reportNamed "../stray.log" none), .trigger, .begin, .worker 0 (.respond (some [])), .worker 0 .next,
        .worker 0 .next, .worker 0 .next]).map (·.touched)) = some [(.report, [['w'], "stray.log".toList])] := by
    decide +kernel
  obtain ⟨d, hd, htouched⟩ := Option.map_eq_some_iff.mp hrun
  have hinside := hcontained _ d (List.prefix_refl _) (Run.start.of_run hd) .report
    [['w'], "stray.log".toList] (htouched ▸ List.mem_singleton_self _)
  exact absurd hinside (by decide +kernel)

end Etos.Cli
