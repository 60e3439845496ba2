import Etos.Cli.Saved

/-!
# `Cli.Drain` — does stopping the downloader drain its queue?

A producer calls `queue_download` any number of times and then `stop`, while `run` takes items out of the queue and
looks at `exit`, in separate steps. If an item is queued after `run` has found the queue empty, and `stop` is called
before `run` looks at `exit`, the loop is left with the item in the queue: the stop was *late*. **`stop_drains_iff`**:
otherwise every item has been handed to a worker when `run` returns, and is downloaded or the downloader has failed.

The queue and `exit` are all that the two threads share, so the other statements of `queue_download` and `stop` are part
of the steps that touch these.
-/

namespace Etos.Cli

open Fs

/-- A step of `run`, the pool or a worker. -/
def Action.isInternal : Action → Bool
  | .event _ | .stop _ => false
  | _ => true

/-- `Served late jobs d`: the downloader is started, the producer queues `jobs` and perhaps stops it, and it gets to
    `d`. A stop is late if `run` has found the queue empty and there is something in it again. -/
inductive Served (ws : Workspace) (content : String → Bytes) (hexdigest : String → Bytes → String) (fs : FileSystem) :
    Bool → List Job → Downloader → Prop where
  | start : Served ws content hexdigest fs false [] { fs }
  | queue {late : Bool} {jobs : List Job} {d : Downloader} (job : Job) (h : Served ws content hexdigest fs late jobs d)
      (htracking : d.tracking = true) :
      Served ws content hexdigest fs late (if job.item.url ∈ d.queued then jobs else jobs ++ [job])
        (d.queueDownload job)
  | stop {late : Bool} {jobs : List Job} {d : Downloader} (h : Served ws content hexdigest fs late jobs d)
      (htracking : d.tracking = true) :
      Served ws content hexdigest fs (d.missed && !d.downloadQueue.isEmpty) jobs (d.stop true)
  | step {late : Bool} {jobs : List Job} {d d' : Downloader} (a : Action)
      (h : Served ws content hexdigest fs late jobs d) (ha : a.isInternal = true)
      (hstep : d.step ws content hexdigest a = some d') :
      Served ws content hexdigest fs late jobs d'

/-- A job is done for: its file was downloaded, or the downloader has failed. -/
def Downloader.Settled (d : Downloader) (job : Job) : Prop :=
  job.item.url ∈ d.reconciler.downloaded ∨ d.failed = true

/-- Every job was handed to a worker, and is settled. -/
def Drained (jobs : List Job) (d : Downloader) : Prop :=
  ∀ job ∈ jobs, (∃ w ∈ d.workers, w.job = job) ∧ d.Settled job

/-- What holds of the queue and of `exit`. -/
structure DrainInv (late : Bool) (jobs : List Job) (d : Downloader) : Prop where
  /-- No job is lost on its way, and none overtakes another. -/
  order : d.workers.map (·.job) ++ d.tasks ++ d.downloadQueue = jobs
  queued : d.queued = jobs.map (·.item.url)
  nodup : d.queued.Nodup
  settled : ∀ w ∈ d.workers, w.isFinished = true → d.Settled w.job
  clearQueue : d.clearQueue = true
  exit : d.exit = true → d.tracking = false
  left : d.looping = false → d.exit = true
  onTime : late = false → d.exit = true → d.missed = true ∨ d.looping = false → d.downloadQueue = []
  late : late = true → d.exit = true ∧ d.missed = true ∧ d.downloadQueue ≠ []

variable {ws : Workspace} {content : String → Bytes} {hexdigest : String → Bytes → String} {fs : FileSystem}
  {late : Bool} {jobs : List Job} {d d' : Downloader}

/-! ## Steps -/

theorem Downloader.Settled.moved {job : Job} (h : d.Settled job) (i : Nat) (w : Worker) (m : Move) :
    (d.moved i w m).Settled job := by
  unfold Downloader.moved
  cases hreport : m.report with
  | nothing => exact h
  | saved path => exact h
  | raised => exact .inr rfl
  | failed reason => exact .inr rfl
  | downloaded => exact h.imp_left (List.mem_cons_of_mem _)

/-- A worker that finishes says how. -/
theorem Worker.Moves.settled {w : Worker} {m : Move} (h : w.Moves ws content d.fs m)
    (hfinished : Worker.isFinished { w with phase := m.phase } = true) (i : Nat) : (d.moved i w m).Settled w.job := by
  cases h with
  | refused => exact .inr rfl
  | notMade => exact .inr rfl
  | unlinked => exact .inr rfl
  | crashed => exact .inr rfl
  | reported => exact .inl List.mem_cons_self
  | _ => cases hfinished

theorem DrainInv.queue (h : DrainInv late jobs d) (htracking : d.tracking = true) (job : Job) :
    DrainInv late (if job.item.url ∈ d.queued then jobs else jobs ++ [job]) (d.queueDownload job) := by
  have hexit : d.exit = false := by
    cases hexit : d.exit with
    | false => rfl
    | true =>
        rw [h.exit hexit] at htracking
        cases htracking
  have hnotLate : late = false := by
    cases hlate : late with
    | false => rfl
    | true =>
        rw [(h.late hlate).1] at hexit
        cases hexit
  unfold Downloader.queueDownload
  split
  · exact h
  · rename_i hnew
    have hsettled : ∀ w ∈ d.workers, w.isFinished = true →
        w.job.item.url ∈ (d.reconciler.recordReceived job.item).downloaded ∨ d.failed = true := by
      intro w hw hfinished
      refine (h.settled w hw hfinished).imp_left fun hmem => ?_
      unfold DownloadReconciler.recordReceived
      split <;> exact hmem
    refine ⟨?_, ?_, ?_, hsettled, h.clearQueue, h.exit, h.left, fun _ htrue => ?_, fun htrue => ?_⟩
    · rw [← h.order, List.append_assoc _ d.downloadQueue]
    · rw [h.queued, List.map_append]
      rfl
    · refine List.nodup_append.mpr ⟨h.nodup, List.nodup_singleton _, ?_⟩
      rintro url hurl url' hurl' rfl
      exact hnew (List.mem_singleton.mp hurl' ▸ hurl)
    · rw [show d.exit = true from htrue] at hexit
      cases hexit
    · rw [hnotLate] at htrue
      cases htrue

theorem DrainInv.stop (h : DrainInv late jobs d) (htracking : d.tracking = true) :
    DrainInv (d.missed && !d.downloadQueue.isEmpty) jobs (d.stop true) := by
  have hlooping : d.looping = true := by
    cases hlooping : d.looping with
    | true => rfl
    | false =>
        rw [h.exit (h.left hlooping)] at htracking
        cases htracking
  refine ⟨h.order, h.queued, h.nodup, h.settled, rfl, fun _ => rfl, fun _ => rfl, fun hlate _ hleft => ?_,
    fun hlate => ?_⟩
  · have hmissed : d.missed = true := hleft.resolve_right fun hleft => absurd (hlooping.symm.trans hleft) nofun
    rw [hmissed, Bool.true_and, Bool.not_eq_false', List.isEmpty_iff] at hlate
    exact hlate
  · rw [Bool.and_eq_true, Bool.not_eq_true', List.isEmpty_eq_false_iff] at hlate
    exact ⟨rfl, hlate.1, hlate.2⟩

/-- A worker moves. -/
theorem DrainInv.moved {i : Nat} {w : Worker} {m : Move} (h : DrainInv late jobs d) (hw : d.workers[i]? = some w)
    (hmoves : w.Moves ws content d.fs m) : DrainInv late jobs (d.moved i w m) where
  order := by
    rw [Downloader.moved_jobs i w m hw, Downloader.moved_tasks, Downloader.moved_downloadQueue]
    exact h.order
  queued := by
    rw [Downloader.moved_queued]
    exact h.queued
  nodup := by
    rw [Downloader.moved_queued]
    exact h.nodup
  settled w' hw' hfinished := by
    rcases List.mem_or_eq_of_mem_set hw' with hmem | rfl
    · exact (h.settled w' hmem hfinished).moved i w m
    · exact hmoves.settled hfinished i
  clearQueue := by
    rw [Downloader.moved_clearQueue]
    exact h.clearQueue
  exit := by
    rw [Downloader.moved_exit, Downloader.moved_tracking]
    exact h.exit
  left := by
    rw [Downloader.moved_looping, Downloader.moved_exit]
    exact h.left
  onTime := by
    rw [Downloader.moved_exit, Downloader.moved_missed, Downloader.moved_looping, Downloader.moved_downloadQueue]
    exact h.onTime
  late := by
    rw [Downloader.moved_exit, Downloader.moved_missed, Downloader.moved_downloadQueue]
    exact h.late

/-- Any step that is not the producer's. -/
theorem DrainInv.step {a : Action} (h : DrainInv late jobs d) (ha : a.isInternal = true)
    (hstep : d.Steps ws content hexdigest a d') : DrainInv late jobs d' := by
  cases hstep with
  | queue => cases ha
  | lose => cases ha
  | stop => cases ha
  | @trigger job downloadQueue hmissed hqueue =>
      refine ⟨?_, h.queued, h.nodup, h.settled, h.clearQueue, h.exit, h.left, fun hlate hexit hleft => ?_,
        fun hlate => ?_⟩
      · rw [← h.order, hqueue]
        simp only [List.append_assoc, List.singleton_append]
      · have hempty := h.onTime hlate hexit hleft
        rw [hqueue] at hempty
        cases hempty
      · have hmissed' := (h.late hlate).2.1
        rw [hmissed] at hmissed'
        cases hmissed'
  | miss hempty =>
      exact ⟨h.order, h.queued, h.nodup, h.settled, h.clearQueue, h.exit, h.left, fun _ _ _ => hempty,
        fun hlate => absurd hempty (h.late hlate).2.2⟩
  | leave hexit hleaves =>
      have hmissed : d.missed = true :=
        hleaves.resolve_right fun hclear => absurd (h.clearQueue.symm.trans hclear) nofun
      exact ⟨h.order, h.queued, h.nodup, h.settled, h.clearQueue, h.exit, fun _ => hexit,
        fun hlate _ _ => h.onTime hlate hexit (.inl hmissed), h.late⟩
  | goOn hexit =>
      refine ⟨h.order, h.queued, h.nodup, h.settled, h.clearQueue, h.exit, h.left, fun _ htrue => ?_, fun hlate => ?_⟩
      · exact absurd (hexit.symm.trans htrue) nofun
      · exact absurd (hexit.symm.trans (h.late hlate).1) nofun
  | @begin job tasks htasks =>
      refine ⟨?_, h.queued, h.nodup, fun w hw hfinished => ?_, h.clearQueue, h.exit, h.left, h.onTime, h.late⟩
      · rw [← h.order, htasks]
        simp only [List.map_append, List.map_cons, List.map_nil, List.append_assoc, List.cons_append, List.nil_append]
      · rcases List.mem_append.mp hw with hw | hw
        · exact h.settled w hw hfinished
        · rw [List.mem_singleton.mp hw] at hfinished
          cases hfinished
  | worker hw hact => exact h.moved hw (Worker.act_moves hact)

theorem Served.drainInv (h : Served ws content hexdigest fs late jobs d) : DrainInv late jobs d := by
  induction h with
  | start => exact ⟨rfl, rfl, List.nodup_nil, nofun, rfl, nofun, nofun, nofun, nofun⟩
  | queue job _ htracking ih => exact ih.queue htracking job
  | stop _ htracking ih => exact ih.stop htracking
  | step a _ ha hstep ih => exact ih.step ha (Downloader.steps_of_step hstep)

/-! ## The end -/

/-- **When stopping drains the queue**: exactly if the stop is not late, for every order of steps. -/
theorem stop_drains_iff (ws : Workspace) (content : String → Bytes) (hexdigest : String → Bytes → String)
    (fs : FileSystem) (late : Bool) (jobs : List Job) (d : Downloader)
    (h : Served ws content hexdigest fs late jobs d) (hended : d.Ended) : Drained jobs d ↔ late = false := by
  obtain ⟨hlooping, htasks, hfinished⟩ := hended
  have hinv := h.drainInv
  have horder := hinv.order
  rw [htasks, List.append_nil] at horder
  constructor
  · intro hdrained
    cases hlate : late with
    | false => rfl
    | true =>
        -- what is left in the queue has a name that no worker's job has
        obtain ⟨job, queue, hqueue⟩ := List.exists_cons_of_ne_nil (hinv.late hlate).2.2
        have hjob : job ∈ jobs := by
          rw [← horder, hqueue]
          exact List.mem_append_right _ List.mem_cons_self
        obtain ⟨⟨w, hw, hworker⟩, -⟩ := hdrained job hjob
        have hnodup := hinv.nodup
        rw [hinv.queued, ← horder, List.map_append] at hnodup
        have hboth := (List.nodup_append.mp hnodup).2.2 job.item.url ?_ job.item.url ?_
        · exact absurd rfl hboth
        · rw [← hworker, List.map_map]
          exact List.mem_map_of_mem (f := (·.item.url) ∘ (·.job)) hw
        · rw [hqueue]
          exact List.mem_cons_self
  · intro hlate job hjob
    have hempty := hinv.onTime hlate (hinv.left hlooping) (.inr hlooping)
    rw [hempty, List.append_nil] at horder
    rw [← horder] at hjob
    obtain ⟨w, hw, rfl⟩ := List.mem_map.mp hjob
    exact ⟨⟨w, hw, rfl⟩, hinv.settled w hw (hfinished w hw)⟩

/-! ## Two orders -/

/-- `run` has returned. -/
def Downloader.returned (d : Downloader) : Bool := !d.looping && d.tasks.isEmpty && d.workers.all Worker.isFinished

theorem Downloader.ended_of_returned (h : d.returned = true) : d.Ended := by
  simp only [returned, Bool.and_eq_true, Bool.not_eq_true', List.isEmpty_iff, List.all_eq_true] at h
  exact ⟨h.1.1, h.1.2, h.2⟩

/-- Steps that are not the producer's, one after the other. -/
theorem Served.run {actions : List Action} (h : Served ws content hexdigest fs late jobs d)
    (hrun : d.run ws content hexdigest (fun _ a => a.isInternal = true) actions = some d') :
    Served ws content hexdigest fs late jobs d' := by
  induction actions generalizing d with
  | nil =>
      cases hrun
      exact h
  | cons a actions ih =>
      obtain ⟨d₁, hstep, hrest⟩ := Option.bind_eq_some_iff.mp hrun
      simp only at hstep
      split at hstep
      · rename_i ha
        exact ih (h.step a ha hstep) hrest
      · cases hstep

/-- A log. -/
def aJob : Job where
  kind := .report
  item := { url := "a", name := "log.txt", checksums := [], path := .ofText "reports".toList }

/-- The downloader that was started, given the log and stopped. -/
def stopped (d : Downloader) : Downloader := (d.queueDownload aJob).stop true

/-- The log is queued and the downloader stopped before `run` looks. -/
theorem aJob_drained :
    ∃ d, Served demoWorkspace firstLetter (fun _ _ => "") demoTree false [aJob] d ∧ d.Ended ∧ Drained [aJob] d := by
  have hrun : ((stopped { fs := demoTree }).run demoWorkspace firstLetter (fun _ _ => "")
      (fun _ a => a.isInternal = true) [.trigger, .begin, .worker 0 (.respond none), .miss, .leave]).map
        Downloader.returned = some true := by decide +kernel
  obtain ⟨d, hd, hreturned⟩ := Option.map_eq_some_iff.mp hrun
  have hserved := ((Served.start.queue aJob rfl).stop rfl).run hd
  have hended := Downloader.ended_of_returned hreturned
  exact ⟨d, hserved, hended, (stop_drains_iff _ _ _ _ _ _ d hserved hended).mpr rfl⟩

/-- `run` finds the queue empty, the log is queued and the downloader stopped, and then `run` looks at `exit`. -/
theorem aJob_lost :
    ∃ late d, Served demoWorkspace firstLetter (fun _ _ => "") demoTree late [aJob] d ∧ d.Ended ∧
      ¬ Drained [aJob] d := by
  have hrun : ((stopped { fs := demoTree, missed := true }).run demoWorkspace firstLetter (fun _ _ => "")
      (fun _ a => a.isInternal = true) [.leave]).map (fun d => (d.returned, d.workers.length)) = some (true, 0) := by
    decide +kernel
  obtain ⟨d, hd, hreturned⟩ := Option.map_eq_some_iff.mp hrun
  rw [Prod.mk.injEq] at hreturned
  have hmissed : Served demoWorkspace firstLetter (fun _ _ => "") demoTree false []
      { fs := demoTree, missed := true } := Served.start.step .miss rfl rfl
  have hserved := ((hmissed.queue aJob rfl).stop rfl).run hd
  refine ⟨_, d, hserved, Downloader.ended_of_returned hreturned.1, fun hdrained => ?_⟩
  obtain ⟨⟨w, hw, -⟩, -⟩ := hdrained aJob List.mem_cons_self
  rw [List.length_eq_zero_iff.mp hreturned.2] at hw
  cases hw

end Etos.Cli
