import Etos.Cli.Downloader
import Etos.Sse.Client

/-!
# `Cli.Track` — does the client report a result?

`Etos.run` of the v1alpha client, from the moment a testrun has been started, with the v2alpha event stream: `__wait`
starts the downloader and tracks the testrun, `TestRun.stream` follows the events, and `SSEClient.event_stream` connects
again whenever a stream ends. What happens at each of them is read off a sequence of moments: an attempt to connect, an
event, or the end of a stream, with what the clock reads if it is asked then. What the downloads came to is given as
well. Errors of the file system are left out.

Both `event_stream` and `stream` raise a `TimeoutError` when the time is up, and `__wait` catches only `SystemExit`: the
result it has for a testrun without one is out of reach. **`result_reported_iff`** says when there is a result. When
there is one, its verdict is never made up (`verdict_announced`).
-/

namespace Etos.Cli

open Fs Sse

/-! ## Results and exceptions -/

/-- `Verdict` of `etos_lib`. -/
inductive Verdict where
  | passed | failed | inconclusive
  deriving DecidableEq

/-- `Conclusion` of `etos_lib`. -/
inductive Conclusion where
  | successful | failed | aborted | timedOut | inconclusive
  deriving DecidableEq

/-- `Result` of `etos_lib`. -/
structure Result where
  verdict : Verdict
  conclusion : Conclusion
  description : String

/-- The exceptions that can leave a call. -/
inductive Exc where
  /-- `Downloader must be started before it can be used in TestRun`. -/
  | assertionError
  /-- `Timed out!`. -/
  | timeoutError
  /-- No connection: `HTTPStatusError`, `NoResponse`, `HTTPWrongContentType` or what `urllib3` raises. -/
  | connectionError
  /-- A path is not below the working directory. -/
  | valueError
  /-- The logger has no such method, or the time of a message cannot be converted. -/
  | loggingError
  | systemExit (description : String)

/-- `Log` of `etos_lib`, as far as the client needs it to be right. -/
structure Message where
  level : String
  datestring : Int

/-- The methods of `logging.Logger` that take a message and `extra`. -/
def loggerMethods : List String := ["debug", "info", "warning", "warn", "error", "exception", "critical", "fatal"]

/-- What `etos_lib` makes of events, and the local time. -/
structure Library where
  parse : SseEvent → ParsedEvent
  result : Data → Result
  message : Data → Message
  file : Data → File
  /-- `datetime.astimezone`; `none` is an `OverflowError`. -/
  astimezone : Int → Option Int

/-! ## The event stream -/

/-- What comes next, with what the clock reads. -/
inductive Moment where
  /-- The client tries to connect. -/
  | connect (now : Int) (ok : Bool)
  /-- An event comes over the connection. -/
  | event (now : Int) (e : SseEvent)
  /-- The stream ends, or cannot be read any more. -/
  | broken

def Moment.now : Moment → Int
  | .connect now _ | .event now _ => now
  | .broken => 0

/-- `SSEClient`, with `__connected`. -/
structure Connection where
  client : SSEClient := {}
  connected : Bool := false

/-- What the generator `event_stream` does. -/
inductive Pull where
  | waits
  | yields (event : ParsedEvent)
  | raises (e : Exc)
  | returns

namespace Connection

variable (lib : Library) (endTime : Int) (c : Connection)

/-- A round of the loop of `__stream`. The trace has only what it yields. -/
def handled (e : SseEvent) : SSEClient × Option StreamEnd := SSEClient.handle lib.parse { c.client with trace := [] } e

/-- The event that is yielded: not a ping or an error, and not one that was already received. -/
def delivers : Moment → Option ParsedEvent
  | .event _ e =>
      match c.connected, (c.handled lib e).1.trace with
      | true, .yield event :: _ => some event
      | _, _ => none
  | _ => none

/-- Does the server report an error that the client cannot recover from? -/
def givesUp : Moment → Bool
  | .event _ e =>
      match c.connected, (c.handled lib e).2 with
      | true, some (.nonRetryableServerError _) => true
      | _, _ => false
  | _ => false

/-- `event_stream`, up to the next moment. -/
def pull (m : Moment) : Pull :=
  match c.connected, m with
  | false, .connect now ok =>
      if endTime ≤ now then .raises .timeoutError else if ok then .waits else .raises .connectionError
  | _, m =>
      match c.delivers lib m with
      | some event => .yields event
      | none => if c.givesUp lib m then .returns else .waits

/-- The client after the moment, if it goes on. A stream that ends for any reason is connected to again. -/
def next : Moment → Connection
  | .connect _ _ => { c with connected := true }
  | .event _ e => if c.connected then ⟨(c.handled lib e).1, (c.handled lib e).2.isNone⟩ else c
  | .broken => { c with connected := false }

end Connection

/-! ## Tracking -/

section Tracking

variable (lib : Library) (ws : Workspace) (endTime : Int)

/-- `__log`. -/
def log (message : Message) : Except Exc Unit :=
  if message.level ∉ loggerMethods then .error .loggingError
  else
    match lib.astimezone message.datestring with
    | some _ => .ok ()
    | none => .error .loggingError

/-- What `stream` does with an event that is not a shutdown: the file that is queued, if there is one. -/
def handleEvent (event : ParsedEvent) : Except Exc (Option Job) :=
  let queue (kind : FileKind) : Except Exc (Option Job) :=
    match ws.download ⟨kind, lib.file event.data⟩ with
    | some job => .ok (some job)
    | none => .error .valueError
  match event.kind with
  | .known .message => (log lib (lib.message event.data)).map fun _ => none
  | .known .report => queue .report
  | .known .artifact => queue .artifact
  | _ => .ok none

/-- `stream` follows the events, or is left with a result or an exception. The files that were queued are kept. -/
inductive Tracking where
  | following (c : Connection) (jobs : List Job)
  | left (outcome : Except Exc Result) (jobs : List Job)

/-- The result of a stream that ends without a shutdown. -/
def eventStreamDied : Result := ⟨.inconclusive, .failed, "Event stream died"⟩

/-- `TestRun.stream`, one moment further. -/
def Tracking.step : Tracking → Moment → Tracking
  | .left outcome jobs, _ => .left outcome jobs
  | .following c jobs, m =>
      match c.pull lib endTime m with
      | .waits => .following (c.next lib m) jobs
      | .raises e => .left (.error e) jobs
      | .returns => .left (.ok eventStreamDied) jobs
      | .yields event =>
          if endTime ≤ m.now then .left (.error .timeoutError) jobs
          else if event.kind = .known .shutdown then .left (.ok (lib.result event.data)) jobs
          else
            match handleEvent lib ws event with
            | .ok job => .following (c.next lib m) (jobs ++ job.toList)
            | .error e => .left (.error e) jobs

end Tracking

/-! ## Waiting for the result -/

/-- What a testrun and the downloads come to. -/
structure Surroundings where
  /-- Has the downloader's thread got to its first statement when the `TestRun` is made? -/
  started : Bool
  /-- The clock when the time limit is set, and when the loop is entered. -/
  startedAt : Int
  entered : Int
  moments : Nat → Moment
  /-- `failed` of the downloader when it has been joined. -/
  failed : Bool
  /-- The URLs that were downloaded. -/
  downloaded : List String

/-- 24 hours, in microseconds. -/
def timeLimit : Int := 24 * 60 * 60 * 1000000

namespace Surroundings

variable (lib : Library) (ws : Workspace) (s : Surroundings)

def endTime : Int := s.startedAt + timeLimit

/-- The tracked testrun after `n` moments. -/
def tracked : Nat → Tracking
  | 0 => .following {} []
  | n + 1 => (tracked n).step lib ws s.endTime (s.moments n)

/-- What the reconciler says of the files that were queued. -/
def missing (jobs : List Job) : List Downloadable :=
  { (jobs.foldl (fun (r : DownloadReconciler) (job : Job) => r.recordReceived job.item) {}) with
    downloaded := s.downloaded }.missing

/-- The end of `__wait`: the reports are archived, and a result is returned. -/
def conclude (jobs : List Job) (result : Option Result) : Except Exc Result :=
  match (ws.artifactDir.joinpath (.ofText "reports".toList)).relativeTo ws.cwd with
  | none => .error .valueError
  | some _ =>
      if s.failed || !(s.missing jobs).isEmpty then
        .ok ⟨.inconclusive, .failed, "ETOS logs did not download succesfully"⟩
      else
        .ok (result.getD
          ⟨.inconclusive, .inconclusive, "Got no result from ETOS so could not determine test result."⟩)

/-- `__wait`, which is all that is left of `run`: what it returns or raises within the first `n` moments. -/
def wait (n : Nat) : Option (Except Exc Result) :=
  if !s.started then some (.error .assertionError)
  else if s.entered < s.endTime then
    match s.tracked lib ws n with
    | .following _ _ => none
    | .left (.ok result) jobs => some (s.conclude ws jobs (some result))
    | .left (.error (.systemExit description)) jobs =>
        some (s.conclude ws jobs (some ⟨.inconclusive, .failed, description⟩))
    | .left (.error e) _ => some (.error e)
  else some (s.conclude ws [] none)

/-! ## When there is a result -/

/-- The SSE client after `n` moments, as far as nothing has stopped it. -/
def connection : Nat → Connection
  | 0 => {}
  | n + 1 => (connection n).next lib (s.moments n)

/-- The event that the stream delivers at a moment. -/
def delivered (n : Nat) : Option ParsedEvent := (s.connection lib n).delivers lib (s.moments n)

/-- The clock is asked, and the time is up: an attempt to connect or an event comes too late. -/
def Late (n : Nat) : Prop :=
  s.endTime ≤ (s.moments n).now ∧
    ((s.connection lib n).connected = false ∧ (∃ now ok, s.moments n = .connect now ok) ∨
      ∃ event, s.delivered lib n = some event)

/-- No connection can be made. -/
def Refused (n : Nat) : Prop := (s.connection lib n).connected = false ∧ ∃ now, s.moments n = .connect now false

/-- An event is delivered that `stream` cannot handle: a message with a level that is no method of a logger, or a file
    when the output directory is not below the working directory. -/
def Unhandled (n : Nat) : Prop :=
  ∃ event e, s.delivered lib n = some event ∧ event.kind ≠ .known .shutdown ∧ handleEvent lib ws event = .error e

/-- A shutdown is delivered, or the server reports an error that the client cannot recover from. -/
def Closes (n : Nat) : Prop :=
  (∃ event, s.delivered lib n = some event ∧ event.kind = .known .shutdown) ∨
    (s.connection lib n).givesUp lib (s.moments n) = true

/-- Something goes wrong that `__wait` does not expect. -/
def Fails (n : Nat) : Prop := s.Late lib n ∨ s.Refused lib n ∨ s.Unhandled lib ws n

/-- `run` returns a result and raises nothing, and a verdict other than `INCONCLUSIVE` is that of a shutdown event, with
    all downloads in order. -/
structure Reports : Prop where
  returns : ∃ n r, s.wait lib ws n = some (.ok r)
  raises : ∀ n e, s.wait lib ws n ≠ some (.error e)
  verdict : ∀ n r, s.wait lib ws n = some (.ok r) → r.verdict ≠ .inconclusive →
    (∃ k < n, ∃ event, s.delivered lib k = some event ∧ event.kind = .known .shutdown ∧
      (lib.result event.data).verdict = r.verdict) ∧
    s.failed = false ∧ ∀ jobs outcome, s.tracked lib ws n = .left outcome jobs → s.missing jobs = []

end Surroundings

section Pull

variable {lib : Library} {endTime : Int} {c : Connection} {m : Moment}

theorem pull_of_delivers {event : ParsedEvent} (h : c.delivers lib m = some event) :
    c.pull lib endTime m = .yields event := by
  unfold Connection.pull
  split
  · cases h
  · simp only [h]

/-- An error is not an event that is delivered. -/
theorem delivers_of_givesUp (h : c.givesUp lib m = true) : c.delivers lib m = none := by
  unfold Connection.givesUp at h
  split at h
  · rename_i e
    split at h
    · rename_i reason hconnected hending
      have htrace : (c.handled lib e).1.trace = [] := by
        unfold Connection.handled SSEClient.handle at hending ⊢
        simp only at hending ⊢
        split at hending
        · cases hending
        · rfl
        · split at hending
          · cases hending
          · split at hending
            · cases hending
            · split at hending <;> cases hending
      simp only [Connection.delivers, htrace]
      split
      · rename_i heq
        cases heq
      · rfl
    · cases h
  · cases h

theorem pull_of_givesUp (h : c.givesUp lib m = true) : c.pull lib endTime m = .returns := by
  unfold Connection.pull
  split
  · cases h
  · simp only [delivers_of_givesUp h, h, if_true]

theorem pull_of_connect {now : Int} {ok : Bool} (h : c.connected = false) (hm : m = .connect now ok) :
    c.pull lib endTime m =
      if endTime ≤ now then .raises .timeoutError else if ok then .waits else .raises .connectionError := by
  subst hm
  simp only [Connection.pull, h]

/-- Nothing happens that the generator would have to tell. -/
theorem pull_waits (hdelivers : c.delivers lib m = none) (hgivesUp : c.givesUp lib m = false)
    (hconnect : ∀ now ok, c.connected = false → m ≠ .connect now ok) : c.pull lib endTime m = .waits := by
  unfold Connection.pull
  split
  · rename_i now ok hconnected
    exact absurd rfl (hconnect now ok hconnected)
  · simp only [hdelivers, hgivesUp]
    rfl

end Pull

section Steps

variable {lib : Library} {ws : Workspace} {s : Surroundings} {n : Nat} {jobs : List Job}

/-- No event makes the client exit. -/
theorem handleEvent_error {event : ParsedEvent} {e : Exc} (h : handleEvent lib ws event = .error e)
    (description : String) : e ≠ .systemExit description := by
  unfold handleEvent log at h
  simp only at h
  split at h
  · split at h
    · cases h
      exact nofun
    · split at h
      · cases h
      · cases h
        exact nofun
  all_goals
    first
    | split at h <;> cases h <;> exact nofun
    | cases h

/-- A moment at which something fails: an exception. -/
theorem step_fails (hfails : s.Fails lib ws n) :
    ∃ e, (∀ description, e ≠ .systemExit description) ∧
      (Tracking.following (s.connection lib n) jobs).step lib ws s.endTime (s.moments n) = .left (.error e) jobs := by
  rcases hfails with ⟨hlate, ⟨hconnected, now, ok, hmoment⟩ | ⟨event, hevent⟩⟩ | ⟨hconnected, now, hmoment⟩ |
    ⟨event, e, hevent, hkind, he⟩
  · refine ⟨.timeoutError, nofun, ?_⟩
    rw [hmoment] at hlate
    simp only [Tracking.step, pull_of_connect hconnected hmoment, if_pos (show s.endTime ≤ now from hlate)]
  · refine ⟨.timeoutError, nofun, ?_⟩
    simp only [Tracking.step, pull_of_delivers hevent, if_pos hlate]
  · by_cases hlate : s.endTime ≤ now
    · refine ⟨.timeoutError, nofun, ?_⟩
      simp only [Tracking.step, pull_of_connect hconnected hmoment, if_pos hlate]
    · refine ⟨.connectionError, nofun, ?_⟩
      simp only [Tracking.step, pull_of_connect hconnected hmoment, if_neg hlate]
      rfl
  · by_cases hlate : s.endTime ≤ (s.moments n).now
    · refine ⟨.timeoutError, nofun, ?_⟩
      simp only [Tracking.step, pull_of_delivers hevent, if_pos hlate]
    · refine ⟨e, handleEvent_error he, ?_⟩
      simp only [Tracking.step, pull_of_delivers hevent, if_neg hlate, if_neg hkind, he]

/-- A moment that closes the stream in time: a result. -/
theorem step_closes (hfails : ¬ s.Fails lib ws n) (hcloses : s.Closes lib n) :
    ∃ r, (Tracking.following (s.connection lib n) jobs).step lib ws s.endTime (s.moments n) = .left (.ok r) jobs ∧
      (r = eventStreamDied ∨ ∃ event, s.delivered lib n = some event ∧ event.kind = .known .shutdown ∧
        r = lib.result event.data) := by
  rcases hcloses with ⟨event, hevent, hkind⟩ | hgivesUp
  · have hintime : ¬ s.endTime ≤ (s.moments n).now := fun hlate => hfails (.inl ⟨hlate, .inr ⟨event, hevent⟩⟩)
    refine ⟨lib.result event.data, ?_, .inr ⟨event, hevent, hkind, rfl⟩⟩
    simp only [Tracking.step, pull_of_delivers hevent, if_neg hintime, if_pos hkind]
  · refine ⟨eventStreamDied, ?_, .inl rfl⟩
    simp only [Tracking.step, pull_of_givesUp hgivesUp]

/-- A moment at which nothing fails and nothing closes: tracking goes on. -/
theorem step_goesOn (hfails : ¬ s.Fails lib ws n) (hcloses : ¬ s.Closes lib n) :
    ∃ jobs', (Tracking.following (s.connection lib n) jobs).step lib ws s.endTime (s.moments n) =
      .following (s.connection lib (n + 1)) jobs' := by
  cases hevent : s.delivered lib n with
  | some event =>
      have hintime : ¬ s.endTime ≤ (s.moments n).now := fun hlate => hfails (.inl ⟨hlate, .inr ⟨event, hevent⟩⟩)
      have hkind : event.kind ≠ .known .shutdown := fun hkind => hcloses (.inl ⟨event, hevent, hkind⟩)
      cases hhandle : handleEvent lib ws event with
      | error e => exact absurd (.inr (.inr ⟨event, e, hevent, hkind, hhandle⟩)) hfails
      | ok job =>
          refine ⟨jobs ++ job.toList, ?_⟩
          simp only [Tracking.step, pull_of_delivers hevent, if_neg hintime, if_neg hkind, hhandle]
          rfl
  | none =>
      have hgivesUp : (s.connection lib n).givesUp lib (s.moments n) = false :=
        Bool.eq_false_iff.mpr fun hgivesUp => hcloses (.inr hgivesUp)
      refine ⟨jobs, ?_⟩
      by_cases hconnect : ∃ now ok, (s.connection lib n).connected = false ∧ s.moments n = .connect now ok
      · obtain ⟨now, ok, hconnected, hmoment⟩ := hconnect
        have hintime : ¬ s.endTime ≤ now := fun hlate =>
          hfails (.inl ⟨by rwa [hmoment], .inl ⟨hconnected, now, ok, hmoment⟩⟩)
        have hok : ok = true := by
          by_contra hok
          rw [Bool.not_eq_true] at hok
          exact hfails (.inr (.inl ⟨hconnected, now, hok ▸ hmoment⟩))
        simp only [Tracking.step, pull_of_connect hconnected hmoment, if_neg hintime, hok, if_true]
        rfl
      · have hwaits := @pull_waits lib s.endTime _ _ hevent hgivesUp fun now ok hconnected hmoment =>
          hconnect ⟨now, ok, hconnected, hmoment⟩
        simp only [Tracking.step, hwaits]
        rfl

/-- Nothing has failed, and nothing has closed. -/
def Surroundings.Quiet (lib : Library) (ws : Workspace) (s : Surroundings) (n : Nat) : Prop :=
  ∀ k < n, ¬ s.Fails lib ws k ∧ ¬ s.Closes lib k

/-- What decided about the end of tracking: the first moment that was not quiet. -/
inductive Decided (lib : Library) (ws : Workspace) (s : Surroundings) (n : Nat) : Except Exc Result → Prop where
  | failed {k : Nat} {e : Exc} (hk : k < n) (hquiet : s.Quiet lib ws k) (hfails : s.Fails lib ws k)
      (hexit : ∀ description, e ≠ .systemExit description) : Decided lib ws s n (.error e)
  | closed {k : Nat} {r : Result} (hk : k < n) (hquiet : s.Quiet lib ws k) (hfails : ¬ s.Fails lib ws k)
      (hcloses : s.Closes lib k)
      (hresult : r = eventStreamDied ∨ ∃ event, s.delivered lib k = some event ∧ event.kind = .known .shutdown ∧
        r = lib.result event.data) : Decided lib ws s n (.ok r)

theorem Decided.succ {outcome : Except Exc Result} (h : Decided lib ws s n outcome) :
    Decided lib ws s (n + 1) outcome := by
  cases h with
  | failed hk hquiet hfails hexit => exact .failed (hk.trans n.lt_succ_self) hquiet hfails hexit
  | closed hk hquiet hfails hcloses hresult => exact .closed (hk.trans n.lt_succ_self) hquiet hfails hcloses hresult

/-- **Tracking goes on as long as all is quiet, and is left at the first moment that is not.** -/
theorem tracked_cases (n : Nat) :
    (s.Quiet lib ws n ∧ ∃ jobs, s.tracked lib ws n = .following (s.connection lib n) jobs) ∨
      ∃ outcome jobs, s.tracked lib ws n = .left outcome jobs ∧ Decided lib ws s n outcome := by
  induction n with
  | zero => exact .inl ⟨nofun, [], rfl⟩
  | succ n ih =>
      rcases ih with ⟨hquiet, jobs, htracked⟩ | ⟨outcome, jobs, htracked, hdecided⟩
      · simp only [Surroundings.tracked, htracked]
        by_cases hfails : s.Fails lib ws n
        · obtain ⟨e, hexit, hstep⟩ := @step_fails lib ws s n jobs hfails
          exact .inr ⟨_, jobs, hstep, .failed n.lt_succ_self hquiet hfails hexit⟩
        · by_cases hcloses : s.Closes lib n
          · obtain ⟨r, hstep, hresult⟩ := @step_closes lib ws s n jobs hfails hcloses
            exact .inr ⟨_, jobs, hstep, .closed n.lt_succ_self hquiet hfails hcloses hresult⟩
          · obtain ⟨jobs', hstep⟩ := @step_goesOn lib ws s n jobs hfails hcloses
            refine .inl ⟨fun k hk => ?_, jobs', hstep⟩
            rcases Nat.lt_succ_iff_lt_or_eq.mp hk with hk | rfl
            · exact hquiet k hk
            · exact ⟨hfails, hcloses⟩
      · refine .inr ⟨outcome, jobs, ?_, hdecided.succ⟩
        simp only [Surroundings.tracked, htracked]
        rfl

end Steps

section Wait

variable {lib : Library} {ws : Workspace} {s : Surroundings} {n : Nat} {jobs : List Job} {r : Result}

/-- Can the reports be archived: is the artifact directory below the working directory? -/
def Workspace.Archives (ws : Workspace) : Prop :=
  ((ws.artifactDir.joinpath (.ofText "reports".toList)).relativeTo ws.cwd).isSome = true

theorem conclude_returns (h : ws.Archives) (jobs : List Job) (result : Option Result) :
    ∃ r, s.conclude ws jobs result = .ok r := by
  obtain ⟨p, hp⟩ := Option.isSome_iff_exists.mp h
  simp only [Surroundings.conclude, hp]
  split <;> exact ⟨_, rfl⟩

theorem conclude_eq_ok {result : Option Result} (h : s.conclude ws jobs result = .ok r) :
    ws.Archives ∧ (r.verdict ≠ .inconclusive → result = some r ∧ s.failed = false ∧ s.missing jobs = []) := by
  unfold Surroundings.conclude at h
  split at h
  · cases h
  · rename_i p hp
    refine ⟨Option.isSome_iff_exists.mpr ⟨p, hp⟩, fun hverdict => ?_⟩
    split at h
    · cases h
      exact absurd rfl hverdict
    · rename_i hdownloads
      simp only [Bool.or_eq_true, not_or, Bool.not_eq_true, Bool.not_eq_false', List.isEmpty_iff] at hdownloads
      cases result with
      | none =>
          cases h
          exact absurd rfl hverdict
      | some result =>
          cases h
          exact ⟨rfl, hdownloads.1, hdownloads.2⟩

/-- What `__wait` returns comes from a closed stream, or from a clock that had passed the limit before the loop. -/
theorem wait_eq_ok (h : s.wait lib ws n = some (.ok r)) :
    s.started = true ∧
      (¬ s.entered < s.endTime ∧ s.conclude ws [] none = .ok r ∨
        ∃ jobs r', s.tracked lib ws n = .left (.ok r') jobs ∧ Decided lib ws s n (.ok r') ∧
          s.conclude ws jobs (some r') = .ok r) := by
  unfold Surroundings.wait at h
  split at h
  · cases h
  · rename_i hstarted
    refine ⟨by simpa using hstarted, ?_⟩
    split at h
    · rcases @tracked_cases lib ws s n with ⟨-, jobs, htracked⟩ | ⟨outcome, jobs, htracked, hdecided⟩
      · simp only [htracked] at h
        cases h
      · cases hdecided with
        | @failed k e hk hquiet hfails hexit =>
            cases e with
            | systemExit description => exact absurd rfl (hexit description)
            | _ =>
                simp only [htracked] at h
                cases h
        | closed hk hquiet hfails hcloses hresult =>
            simp only [htracked] at h
            exact .inr ⟨jobs, _, htracked, .closed hk hquiet hfails hcloses hresult, Option.some.inj h⟩
    · rename_i hentered
      exact .inl ⟨hentered, Option.some.inj h⟩

/-- **A verdict is not made up**: it is that of a shutdown event, no download failed, and nothing is missing. -/
theorem verdict_announced (h : s.wait lib ws n = some (.ok r)) (hverdict : r.verdict ≠ .inconclusive) :
    (∃ k < n, ∃ event, s.delivered lib k = some event ∧ event.kind = .known .shutdown ∧
      (lib.result event.data).verdict = r.verdict) ∧
    s.failed = false ∧ ∀ jobs outcome, s.tracked lib ws n = .left outcome jobs → s.missing jobs = [] := by
  rcases (wait_eq_ok h).2 with ⟨-, hconclude⟩ | ⟨jobs, r', htracked, hdecided, hconclude⟩
  · obtain ⟨hnone, -⟩ := (conclude_eq_ok hconclude).2 hverdict
    cases hnone
  · obtain ⟨hresult, hfailed, hmissing⟩ := (conclude_eq_ok hconclude).2 hverdict
    cases hresult
    refine ⟨?_, hfailed, fun jobs' outcome htracked' => ?_⟩
    · cases hdecided with
      | @closed k r hk _ _ _ hresult =>
          rcases hresult with rfl | ⟨event, hevent, hkind, rfl⟩
          · exact absurd rfl hverdict
          · exact ⟨k, hk, event, hevent, hkind, rfl⟩
    · rw [htracked] at htracked'
      cases htracked'
      exact hmissing

theorem wait_of_late (hstarted : s.started = true) (hlate : s.endTime ≤ s.entered) :
    s.wait lib ws n = some (s.conclude ws [] none) := by
  simp only [Surroundings.wait, hstarted, Bool.not_true, Bool.false_eq_true, if_false, not_lt.mpr hlate]

theorem wait_of_following {c : Connection} (hstarted : s.started = true) (hentered : s.entered < s.endTime)
    (htracked : s.tracked lib ws n = .following c jobs) : s.wait lib ws n = none := by
  simp only [Surroundings.wait, hstarted, Bool.not_true, Bool.false_eq_true, if_false, hentered, if_true, htracked]

theorem wait_of_left (hstarted : s.started = true) (hentered : s.entered < s.endTime)
    (htracked : s.tracked lib ws n = .left (.ok r) jobs) :
    s.wait lib ws n = some (s.conclude ws jobs (some r)) := by
  simp only [Surroundings.wait, hstarted, Bool.not_true, Bool.false_eq_true, if_false, hentered, if_true, htracked]

/-- Once the stream has closed in time, nothing that fails later counts. -/
theorem Decided.isOk {k : Nat} {outcome : Except Exc Result} (h : Decided lib ws s n outcome)
    (hcloses : s.Closes lib k) (hfails : ∀ j ≤ k, ¬ s.Fails lib ws j) : ∃ r, outcome = .ok r := by
  cases h with
  | @failed j e _ hquiet hfails' _ =>
      rcases Nat.lt_or_ge k j with hkj | hjk
      · exact absurd hcloses (hquiet k hkj).2
      · exact absurd hfails' (hfails j hjk)
  | closed => exact ⟨_, rfl⟩

end Wait

/-- **The client reports a result** if and only if the downloader's thread has started in time, the artifact directory
    is below the working directory, and either the limit had passed before the loop was entered, or the stream closes
    before anything fails: before the clock is asked and the time is up, before a connection is refused, and before an
    event that cannot be handled. -/
theorem result_reported_iff (lib : Library) (ws : Workspace) (s : Surroundings) :
    s.Reports lib ws ↔
      s.started = true ∧ ws.Archives ∧
        (s.endTime ≤ s.entered ∨ ∃ n, s.Closes lib n ∧ ∀ k ≤ n, ¬ s.Fails lib ws k) := by
  constructor
  · rintro ⟨⟨n, r, hreturns⟩, -, -⟩
    obtain ⟨hstarted, ⟨hentered, hconclude⟩ | ⟨jobs, r', -, hdecided, hconclude⟩⟩ := wait_eq_ok hreturns
    · exact ⟨hstarted, (conclude_eq_ok hconclude).1, .inl (not_lt.mp hentered)⟩
    · refine ⟨hstarted, (conclude_eq_ok hconclude).1, .inr ?_⟩
      cases hdecided with
      | @closed k r hk hquiet hfails hcloses _ =>
          refine ⟨k, hcloses, fun j hj => ?_⟩
          rcases hj.lt_or_eq with hj | rfl
          · exact (hquiet j hj).1
          · exact hfails
  · rintro ⟨hstarted, harchives, hcloses⟩
    by_cases hentered : s.entered < s.endTime
    · obtain ⟨m, hcloses, hfails⟩ := hcloses.resolve_left (not_le.mpr hentered)
      refine ⟨?_, fun n e he => ?_, fun n r => verdict_announced⟩
      · -- One moment after the stream has closed, tracking has been left.
        rcases @tracked_cases lib ws s (m + 1) with ⟨hquiet, -⟩ | ⟨outcome, jobs, htracked, hdecided⟩
        · exact absurd hcloses (hquiet m m.lt_succ_self).2
        · obtain ⟨r, rfl⟩ := hdecided.isOk hcloses hfails
          obtain ⟨r', hr'⟩ := @conclude_returns ws s harchives jobs (some r)
          exact ⟨m + 1, r', by rw [wait_of_left hstarted hentered htracked, hr']⟩
      · rcases @tracked_cases lib ws s n with ⟨-, jobs, htracked⟩ | ⟨outcome, jobs, htracked, hdecided⟩
        · rw [wait_of_following hstarted hentered htracked] at he
          cases he
        · obtain ⟨r, rfl⟩ := hdecided.isOk hcloses hfails
          obtain ⟨r', hr'⟩ := @conclude_returns ws s harchives jobs (some r)
          rw [wait_of_left hstarted hentered htracked, hr'] at he
          cases he
    · have hlate := not_lt.mp hentered
      obtain ⟨r, hr⟩ := @conclude_returns ws s harchives [] none
      refine ⟨⟨0, r, by rw [wait_of_late hstarted hlate, hr]⟩, fun n e he => ?_, fun n r => verdict_announced⟩
      rw [wait_of_late hstarted hlate, hr] at he
      cases he

/-! ## A testrun that takes too long -/

/-- Every event is one the client does not know. -/
def plainLibrary : Library where
  parse e := ⟨none, .unknown, e.data⟩
  result _ := ⟨.passed, .successful, ""⟩
  message _ := ⟨"info", 0⟩
  file _ := ⟨"http://logs/1", "log.txt", none, []⟩
  astimezone := some

/-- The stream is connected to at once, breaks, and is connected to again after a day. -/
def longTestrun : Surroundings where
  started := true
  startedAt := 0
  entered := 0
  moments n :=
    match n with
    | 0 => .connect 1 true
    | 1 => .broken
    | _ => .connect timeLimit true
  failed := false
  downloaded := []

/-- The exception is not caught. -/
theorem timeout_raised : ¬ longTestrun.Reports plainLibrary demoWorkspace := by
  rintro ⟨-, hraises, -⟩
  exact hraises 3 .timeoutError rfl

end Etos.Cli
