import Etos.Cli.Track

/-!
# `Cli.TrackV0` — the activity checks of the v0 client

The loop of `TestRun.track` in `etos/v0/test_run/test_run.py`. Between the events of a testrun the client asks the event
repository for the activity, not more often than every `log_interval`, and once the activity is finished it gives the
log server five minutes to shut down. The comparison that is to keep the checks apart is the wrong way around: the loop
checks at every event *within* `log_interval` of the last check, and at no other. **`polls_iff_paced`** says when that
makes no difference.

An event comes with what the clock reads while it is handled, and with what the collector would return. What follows
the loop is left out, as are the log messages of `__announce` and `__log_until_eof`.
-/

namespace Etos.Cli.V0

open Fs

/-! ## The loop -/

/-- `log_interval`, in microseconds as all times. -/
def logInterval : Int := 120 * 10 ^ 6

/-- `5 minutes`. -/
def shutdownDelay : Int := 300 * 10 ^ 6

/-- An event that `__log_until_eof` yields. The data of a file is `none` if `Downloadable` refuses it. -/
inductive Notice where
  | file (kind : FileKind) (data : Option File)
  | shutdown (verdict conclusion description : String)
  /-- `Ping`, and whatever else the loop does not look at. -/
  | other

/-- The activity, as far as it is known. -/
structure Activity where
  /-- The reason, if it was canceled. -/
  canceled : Option String
  finished : Bool

/-- An event, what `collect_activity` comes to if it is called, and the readings of the clock: where `last_log` is
    compared, after the check, where the timer is set, and where it is compared. -/
structure Arrival where
  notice : Notice
  collected : Except Exc Activity
  now : Int
  logged : Int
  timed : Int
  compared : Int
  now_le : now ≤ logged
  logged_le : logged ≤ timed
  timed_le : timed ≤ compared

/-- The variables of the loop, and what has been given to the downloader. -/
structure Tracking where
  lastLog : Int
  timer : Option Int := none
  shutdownEvent : Option (String × String × String) := none
  queued : List Job := []

/-- What a round of the loop comes to. -/
inductive Round where
  | goesOn (t : Tracking)
  | breaks (t : Tracking)
  | raises (e : Exc)

namespace Tracking

variable (ws : Workspace) (t : Tracking)

/-- What is done with the event itself. -/
def receive : Notice → Except Exc Tracking
  | .file _ none => .error .valueError
  | .file kind (some data) =>
      match ws.download ⟨kind, data⟩ with
      | none => .error .valueError
      | some job => .ok { t with queued := t.queued ++ [job] }
  | .shutdown verdict conclusion description => .ok { t with shutdownEvent := some (verdict, conclusion, description) }
  | .other => .ok t

/-- `last_log + self.log_interval >= time.time()`. -/
def Checks (a : Arrival) : Prop := t.lastLog + logInterval ≥ a.now

instance (a : Arrival) : Decidable (t.Checks a) := inferInstanceAs (Decidable (t.lastLog + logInterval ≥ a.now))

/-- The activity is collected; `__status` raises if it was canceled. -/
def check (a : Arrival) : Except Exc Tracking :=
  match a.collected with
  | .error e => .error e
  | .ok ⟨some reason, _⟩ => .error (.systemExit reason)
  | .ok ⟨none, finished⟩ =>
      .ok
        { t with
          lastLog := a.logged
          timer := if finished ∧ t.timer = none then some (a.timed + shutdownDelay) else t.timer }

/-- The activity is checked, or not. -/
def poll (a : Arrival) : Except Exc Tracking := if t.Checks a then t.check a else .ok t

/-- The time is up. A timer of zero does not count. -/
def isUp (a : Arrival) : Bool := t.timer.any fun timer => timer ≠ 0 ∧ a.compared ≥ timer

/-- A round of the loop. -/
def round (a : Arrival) : Round :=
  match t.receive ws a.notice with
  | .error e => .raises e
  | .ok t =>
      match t.poll a with
      | .error e => .raises e
      | .ok t => if t.isUp a then .breaks t else .goesOn t

/-- The comparisons of `last_log` that the loop makes: its variables there, and the event. -/
def comparisons (t : Tracking) : List Arrival → List (Tracking × Arrival)
  | [] => []
  | a :: as =>
      match t.receive ws a.notice with
      | .error _ => []
      | .ok received =>
          (received, a) ::
            match t.round ws a with
            | .goesOn t => t.comparisons as
            | _ => []

end Tracking

/-- The variables before the loop. -/
def tracking (start : Int) : Tracking := { lastLog := start }

/-! ## What is expected -/

section

variable (ws : Workspace) (start : Int) (as : List Arrival)

/-- The events are those that the loop gets to. -/
def Reached : Prop := ((tracking start).comparisons ws as).map Prod.snd = as

/-- Polling as `log_interval` has it. -/
structure Polls : Prop where
  /-- An event that comes later than the interval makes the loop check. -/
  checks : ∀ p ∈ (tracking start).comparisons ws as, p.1.lastLog + logInterval < p.2.now → p.1.Checks p.2
  /-- Between two checks there is the interval. -/
  apart : ((tracking start).comparisons ws as).Pairwise fun p q =>
    p.1.Checks p.2 → q.1.Checks q.2 → p.2.logged + logInterval ≤ q.2.now
  /-- An activity that is finished then starts the timer. -/
  noticed : ∀ p ∈ (tracking start).comparisons ws as, p.1.lastLog + logInterval < p.2.now →
    p.2.collected = .ok ⟨none, true⟩ → ∃ t, p.1.poll p.2 = .ok t ∧ t.timer ≠ none

/-- The first event comes within the interval, and every other exactly when it is over. -/
def Paced (start : Int) : List Arrival → Prop
  | [] => True
  | a :: as => a.now ≤ start + logInterval ∧ (a :: as).IsChain fun a b => b.now = a.logged + logInterval

end

/-! ## The value of `last_log` -/

/-- The values of `last_log` where it is compared: it is set by every check. -/
def lastLogs (last : Int) : List Arrival → List (Int × Arrival)
  | [] => []
  | a :: as => (last, a) :: lastLogs (if last + logInterval ≥ a.now then a.logged else last) as

section

variable {ws : Workspace} {t t' : Tracking} {a : Arrival} {as : List Arrival}

/-- Events do not change the times. -/
theorem receive_times {n : Notice} (h : t.receive ws n = .ok t') : t'.lastLog = t.lastLog ∧ t'.timer = t.timer := by
  unfold Tracking.receive at h
  split at h
  · cases h
  · split at h
    · cases h
    · cases h
      exact ⟨rfl, rfl⟩
  · cases h
    exact ⟨rfl, rfl⟩
  · cases h
    exact ⟨rfl, rfl⟩

theorem check_lastLog (h : t.check a = .ok t') : t'.lastLog = a.logged := by
  unfold Tracking.check at h
  split at h
  · cases h
  · cases h
  · cases h
    rfl

theorem poll_lastLog (h : t.poll a = .ok t') :
    t'.lastLog = if t.lastLog + logInterval ≥ a.now then a.logged else t.lastLog := by
  unfold Tracking.poll at h
  by_cases hchecks : t.Checks a
  · rw [if_pos hchecks] at h
    rw [check_lastLog h]
    exact (if_pos hchecks).symm
  · rw [if_neg hchecks] at h
    cases h
    exact (if_neg hchecks).symm

/-- A round that goes on. -/
theorem round_eq_goesOn (h : t.round ws a = .goesOn t') :
    ∃ received, t.receive ws a.notice = .ok received ∧ received.poll a = .ok t' := by
  unfold Tracking.round at h
  split at h
  · cases h
  · rename_i received hreceive
    split at h
    · cases h
    · rename_i polled hpoll
      split at h
      · cases h
      · cases h
        exact ⟨received, hreceive, hpoll⟩

/-- Where the loop gets to all events, the comparisons are those of `lastLogs`. -/
theorem comparisons_lastLogs (h : (t.comparisons ws as).map Prod.snd = as) :
    (t.comparisons ws as).map (fun p => (p.1.lastLog, p.2)) = lastLogs t.lastLog as := by
  induction as generalizing t with
  | nil => rfl
  | cons a as ih =>
      unfold Tracking.comparisons at h ⊢
      cases hreceive : t.receive ws a.notice with
      | error e =>
          rw [hreceive] at h
          cases h
      | ok received =>
          rw [hreceive] at h
          have hlast := (receive_times hreceive).1
          cases hround : t.round ws a with
          | goesOn t' =>
              obtain ⟨received', hreceive', hpoll⟩ := round_eq_goesOn hround
              rw [hreceive] at hreceive'
              cases hreceive'
              simp only [hround, List.map_cons, List.cons.injEq, true_and] at h
              simp only [List.map_cons, lastLogs, ih h, poll_lastLog hpoll, hlast]
          | breaks t' =>
              simp only [hround, List.map_cons, List.map_nil, List.cons.injEq, true_and] at h
              simp only [List.map_cons, List.map_nil, ← h, lastLogs, hlast]
          | raises e =>
              simp only [hround, List.map_cons, List.map_nil, List.cons.injEq, true_and] at h
              simp only [List.map_cons, List.map_nil, ← h, lastLogs, hlast]

end

/-! ## Pacing -/

/-- Every event comes within the interval. -/
def Steady (last : Int) : List Arrival → Prop
  | [] => True
  | a :: as => a.now ≤ last + logInterval ∧ Steady a.logged as

theorem steady_cons {last : Int} {a : Arrival} {as : List Arrival} :
    Steady last (a :: as) ↔ a.now ≤ last + logInterval ∧ Steady a.logged as := Iff.rfl

/-- The interval is over before the other event. -/
def Apart (a b : Arrival) : Prop := a.logged + logInterval ≤ b.now

theorem logInterval_nonneg : 0 ≤ logInterval := by decide

theorem apart_trans {a b c : Arrival} (hab : Apart a b) (hbc : Apart b c) : Apart a c := by
  have hnow := b.now_le
  have hinterval := logInterval_nonneg
  unfold Apart at *
  omega

theorem steady_iff (last : Int) (as : List Arrival) :
    Steady last as ↔ ∀ p ∈ lastLogs last as, p.2.now ≤ p.1 + logInterval := by
  induction as generalizing last with
  | nil => exact iff_of_true trivial fun _ hp => absurd hp List.not_mem_nil
  | cons a as ih =>
      rw [steady_cons, lastLogs, List.forall_mem_cons]
      refine and_congr_right fun hnow => ?_
      rw [if_pos hnow]
      exact ih a.logged

/-- Within the interval and not before it is over. -/
theorem steady_isChain_iff (a : Arrival) (as : List Arrival) :
    Steady a.logged as ∧ (a :: as).IsChain Apart ↔
      (a :: as).IsChain fun a b => b.now = a.logged + logInterval := by
  induction as generalizing a with
  | nil => exact iff_of_true ⟨trivial, .singleton a⟩ (.singleton a)
  | cons b as ih =>
      rw [steady_cons, List.isChain_cons_cons, List.isChain_cons_cons, ← ih b]
      constructor
      · rintro ⟨⟨hle, hsteady⟩, hge, hchain⟩
        exact ⟨le_antisymm hle hge, hsteady, hchain⟩
      · rintro ⟨heq, hsteady, hchain⟩
        exact ⟨⟨heq.le, hsteady⟩, heq.ge, hchain⟩

theorem paced_iff (start : Int) (as : List Arrival) : Paced start as ↔ Steady start as ∧ as.Pairwise Apart := by
  have : IsTrans Arrival Apart := ⟨fun _ _ _ => apart_trans⟩
  rw [← List.isChain_iff_pairwise]
  cases as with
  | nil => exact iff_of_true trivial ⟨trivial, .nil⟩
  | cons a as =>
      rw [Paced, steady_cons, and_assoc, steady_isChain_iff]

/-- **Polling works for paced events only**: the first has to come within the interval, and every other exactly when it
    is over. -/
theorem polls_iff_paced {ws : Workspace} {start : Int} {as : List Arrival} (hreached : Reached ws start as) :
    Polls ws start as ↔ Paced start as := by
  have hlast := comparisons_lastLogs hreached
  have hsteady : Steady start as ↔ ∀ p ∈ (tracking start).comparisons ws as, p.1.Checks p.2 := by
    have hlastLogs : lastLogs start as = ((tracking start).comparisons ws as).map fun p => (p.1.lastLog, p.2) :=
      hlast.symm
    rw [steady_iff, hlastLogs, List.forall_mem_map]
    rfl
  have hapart : as.Pairwise Apart ↔ ((tracking start).comparisons ws as).Pairwise fun p q => Apart p.2 q.2 := by
    have has : as.Pairwise Apart ↔ (((tracking start).comparisons ws as).map Prod.snd).Pairwise Apart := by
      rw [show _ = as from hreached]
    rw [has, List.pairwise_map]
  rw [paced_iff, hsteady, hapart]
  constructor
  · intro h
    -- an event that comes too late cannot make the loop check
    have hall : ∀ p ∈ (tracking start).comparisons ws as, p.1.Checks p.2 := by
      intro p hp
      by_contra hno
      exact hno (h.checks p hp (not_le.mp hno))
    refine ⟨hall, h.apart.imp_of_mem fun {p q} hp hq hpq => hpq (hall p hp) (hall q hq)⟩
  · rintro ⟨hall, hpairs⟩
    refine ⟨fun p hp _ => hall p hp, hpairs.imp fun hpq _ _ => hpq, fun p hp hlate => ?_⟩
    exact absurd (hall p hp) (not_le.mpr hlate)

/-- A ping that finds the activity finished, at a time in seconds. -/
def pingAt (seconds : Int) : Arrival where
  notice := .other
  collected := .ok ⟨none, true⟩
  now := seconds * 10 ^ 6
  logged := seconds * 10 ^ 6
  timed := seconds * 10 ^ 6
  compared := seconds * 10 ^ 6
  now_le := le_rfl
  logged_le := le_rfl
  timed_le := le_rfl

/-- One ping within the interval, and one when it is over. -/
theorem pings_in_pace : Paced 0 [pingAt 60, pingAt 180] ∧ Polls demoWorkspace 0 [pingAt 60, pingAt 180] := by
  have hpaced : Paced 0 [pingAt 60, pingAt 180] :=
    ⟨by decide, List.isChain_cons_cons.mpr ⟨by decide, .singleton _⟩⟩
  have hreached : Reached demoWorkspace 0 [pingAt 60, pingAt 180] := rfl
  exact ⟨hpaced, (polls_iff_paced hreached).mpr hpaced⟩

/-- A ping after 121 seconds finds the activity finished, but the loop does not ask. -/
theorem late_ping_ignored : Reached demoWorkspace 0 [pingAt 121] ∧ ¬ Polls demoWorkspace 0 [pingAt 121] := by
  refine ⟨rfl, fun h => ?_⟩
  have hchecks := h.checks (tracking 0, pingAt 121) List.mem_cons_self (by decide)
  exact absurd hchecks (by decide)

end Etos.Cli.V0
