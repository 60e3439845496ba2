import Mathlib.Algebra.Order.Ring.Int
import Etos.Lists.Cursor
import Etos.Sse.Subscriber

/-!
# `Sse.Delivery` — every event once, in order

The server holds a log of events with strictly increasing ids, of which some match the filter of the subscriber. A
server that *conforms* leaves out no matching event: what it sends over a connection that was opened with the
`Last-Event-ID` `n` has nothing matching before it that is neither up to `n` nor sent before over the same connection,
and the same goes for the position a ping names (`Allowed`). It may break connections, send events again and report
errors as it likes.

Against such a server the subscriber's last id is a cursor into the log: the events with an id it has yielded are the
matching ones up to it (`Inv`). `delivery_exactly_once` follows.
-/

namespace Etos.Sse

open Etos.Lists

/-! ## What happened -/

/-- The id a received event names; 0 if it names none. -/
def idOf (e : SseEvent) : Int := (eventID e).getD 0

/-- The `Last-Event-ID` of the open connection; 0 without the header. -/
def openedWith : Trace → Int
  | [] => 0
  | .connect lastEventID :: _ => lastEventID.getD 0
  | _ :: older => openedWith older

/-- What has come over the open connection. -/
def sent : Trace → List SseEvent
  | [] => []
  | .connect _ :: _ => []
  | .receive e :: older => e :: sent older
  | _ :: older => sent older

/-- The largest id received so far; 0 if there was none. -/
def largestID : Trace → Int
  | [] => 0
  | .receive e :: older => max (idOf e) (largestID older)
  | _ :: older => largestID older

/-- The events with an id that have been yielded, oldest first. The id -1 marks an event without one. -/
def delivered : Trace → List Event
  | [] => []
  | .yield event :: older => if event.id = -1 then delivered older else delivered older ++ [event]
  | _ :: older => delivered older

/-- Every request carries the largest id received before it. -/
def HeadersCurrent (trace : Trace) : Prop :=
  ∀ newer older lastEventID, trace = newer ++ .connect lastEventID :: older →
    lastEventID = if largestID older > 0 then some (largestID older) else none

/-! ## The server -/

section Server

variable (c : Consumer) (matchingLog : List Event)

/-- The event has come over the connection. -/
def Sent (earlier : List SseEvent) (event : Event) : Prop := ∃ e ∈ earlier, decode c.text e = .ok (event.id, event)

/-- What may be sent over a connection that was opened with `n`, after what was sent `earlier`: an event of the log or a
    ping, so that nothing matching is left out; an event without an id; or an error. An error that makes the subscriber
    reconnect names no id. -/
def Allowed (n : Int) (earlier : List SseEvent) (e : SseEvent) : Prop :=
  match decode c.text e with
  | .error (.server error) => error.retry = true → e.id = ""
  | .error _ => True
  | .ok (id, event) =>
      if event.event = .ping then ∀ m ∈ matchingLog, m.id ≤ id → m.id ≤ n ∨ Sent c earlier m
      else e.id = "" ∨
        (event ∈ matchingLog ∧ ∀ m ∈ matchingLog, m.id < event.id → m.id ≤ n ∨ Sent c earlier m)

/-- Everything that was received was allowed. -/
def Conforms : Trace → Prop
  | [] => True
  | .receive e :: older => Allowed c matchingLog (openedWith older) (sent older) e ∧ Conforms older
  | _ :: older => Conforms older

end Server

/-! ## The invariant -/

variable {c : Consumer} {matchingLog : List Event} {s s' : Subscriber} {t : Trace}

theorem largestID_nonneg (t : Trace) : 0 ≤ largestID t := by
  induction t with
  | nil => exact le_rfl
  | cons o t ih =>
      cases o with
      | receive e => exact le_max_of_le_right ih
      | connect _ | yield _ | fail _ => exact ih

theorem idOf_le_largestID {e : SseEvent} (h : e ∈ sent t) : idOf e ≤ largestID t := by
  induction t with
  | nil => cases h
  | cons o t ih =>
      cases o with
      | receive e' =>
          rcases List.mem_cons.mp h with rfl | h
          · exact le_max_left _ _
          · exact le_max_of_le_right (ih h)
      | connect _ => cases h
      | yield _ | fail _ => exact ih h

/-- A decoded event has the id it names. -/
theorem decode_ok {e : SseEvent} {id : Int} {event : Event} (h : decode c.text e = .ok (id, event)) :
    eventID e = some id ∧ event.id = if id = 0 then -1 else id := by
  unfold decode at h
  split at h
  · cases h
  rename_i id' hid
  split at h
  · cases h
  unfold Parse at h
  split at h
  · cases h
  · rename_i event' heq
    split at heq
    · cases heq
    · split at heq
      · cases heq
        cases h
        exact ⟨hid, rfl⟩
      · cases heq

/-- The last id is the largest received so far, and the events yielded are the matching ones up to it. -/
structure Inv (matchingLog : List Event) (s : Subscriber) : Prop where
  lastID : s.lastID = largestID s.trace
  delivered : delivered s.trace = upTo Event.id matchingLog s.lastID
  opened : openedWith s.trace ≤ s.lastID
  headers : HeadersCurrent s.trace

/-- What holds of every trace. -/
def Good (matchingLog : List Event) (t : Trace) : Prop := delivered t <+: matchingLog ∧ HeadersCurrent t

theorem Inv.good (hlog : Increasing Event.id matchingLog) (h : Inv matchingLog s) : Good matchingLog s.trace := by
  refine ⟨?_, h.headers⟩
  rw [h.delivered]
  exact upTo_prefix hlog _

/-- What was sent over the open connection, and what it was opened with, is behind the cursor. -/
theorem Inv.behind (h : Inv matchingLog s) {m : Event} (hm : m.id ≤ openedWith s.trace ∨ Sent c (sent s.trace) m) :
    m.id ≤ s.lastID := by
  rcases hm with hm | ⟨e, he, hdecode⟩
  · exact hm.trans h.opened
  · have hid : idOf e = m.id := by rw [idOf, (decode_ok hdecode).1]; rfl
    rw [h.lastID, ← hid]
    exact idOf_le_largestID he

/-- Only connections matter to the headers. -/
theorem HeadersCurrent.cons {o : Obs} (h : HeadersCurrent t) (ho : ∀ lastEventID, o ≠ .connect lastEventID) :
    HeadersCurrent (o :: t) := by
  intro newer older lastEventID heq
  cases newer with
  | nil =>
      obtain ⟨rfl, _⟩ := List.cons.inj heq
      exact absurd rfl (ho _)
  | cons _ newer => exact h newer older lastEventID (List.cons.inj heq).2

theorem HeadersCurrent.connect {lastEventID : Option Int} (h : HeadersCurrent t)
    (heq : lastEventID = if largestID t > 0 then some (largestID t) else none) :
    HeadersCurrent (.connect lastEventID :: t) := by
  intro newer older lastEventID' hsplit
  cases newer with
  | nil =>
      obtain ⟨hobs, rfl⟩ := List.cons.inj hsplit
      cases hobs
      exact heq
  | cons _ newer => exact h newer older lastEventID' (List.cons.inj hsplit).2

/-- Asking for a connection. -/
theorem Inv.connect (h : Inv matchingLog s) : Inv matchingLog (s.observe (.connect s.lastEventID)) where
  lastID := h.lastID
  delivered := h.delivered
  opened := by
    show s.lastEventID.getD 0 ≤ s.lastID
    have hnonneg : 0 ≤ s.lastID := h.lastID ▸ largestID_nonneg _
    unfold Subscriber.lastEventID
    split
    · exact le_rfl
    · exact hnonneg
  headers := by
    refine h.headers.connect ?_
    rw [← h.lastID]
    rfl

/-- An event that changes nothing but the trace. -/
theorem Inv.received (h : Inv matchingLog s) {e : SseEvent} (he : idOf e ≤ s.lastID) :
    Inv matchingLog (s.observe (.receive e)) where
  lastID := by
    show s.lastID = max (idOf e) (largestID s.trace)
    rw [← h.lastID, max_eq_right he]
  delivered := h.delivered
  opened := h.opened
  headers := h.headers.cons nofun

/-- An event that moves the cursor. -/
theorem Inv.moved (h : Inv matchingLog s) {e : SseEvent} (he : s.lastID < idOf e)
    (hskip : upTo Event.id matchingLog (idOf e) = upTo Event.id matchingLog s.lastID) :
    Inv matchingLog { s.observe (.receive e) with lastID := idOf e } where
  lastID := by
    show idOf e = max (idOf e) (largestID s.trace)
    rw [← h.lastID, max_eq_left he.le]
  delivered := h.delivered.trans hskip.symm
  opened := h.opened.trans he.le
  headers := h.headers.cons nofun

/-- A new event of the log is yielded. -/
theorem Inv.yielded (hlog : Increasing Event.id matchingLog) (hpos : ∀ m ∈ matchingLog, 0 < m.id)
    (h : Inv matchingLog s) {e : SseEvent} {event : Event} (hid : event.id = idOf e) (he : s.lastID < idOf e)
    (hmem : event ∈ matchingLog) (hprev : ∀ m ∈ matchingLog, m.id < event.id → m.id ≤ s.lastID) :
    Inv matchingLog (({ s.observe (.receive e) with lastID := idOf e } : Subscriber).observe (.yield event)) where
  lastID := by
    show idOf e = max (idOf e) (largestID s.trace)
    rw [← h.lastID, max_eq_left he.le]
  delivered := by
    have hne : event.id ≠ -1 := by
      have := hpos event hmem
      omega
    show (if event.id = -1 then Sse.delivered s.trace else Sse.delivered s.trace ++ [event]) = _
    rw [if_neg hne, h.delivered, ← upTo_read hlog hmem (hid ▸ he) hprev, hid]
    rfl
  opened := h.opened.trans he.le
  headers := (h.headers.cons (o := .receive e) nofun).cons nofun

/-- An event without an id is yielded. -/
theorem Inv.passed (h : Inv matchingLog s) {event : Event} (hid : event.id = -1) :
    Inv matchingLog (s.observe (.yield event)) where
  lastID := h.lastID
  delivered := by
    show (if event.id = -1 then Sse.delivered s.trace else Sse.delivered s.trace ++ [event]) = _
    rw [if_pos hid]
    exact h.delivered
  opened := h.opened
  headers := h.headers.cons nofun

theorem Inv.nonneg (h : Inv matchingLog s) : 0 ≤ s.lastID := h.lastID ▸ largestID_nonneg _

/-- A failure ends the run, and leaves what was delivered as it is. -/
theorem Good.fail {error : SubscriberError} (h : Good matchingLog t) : Good matchingLog (.fail error :: t) :=
  ⟨h.1, h.2.cons nofun⟩

theorem Good.receive {e : SseEvent} (h : Good matchingLog t) : Good matchingLog (.receive e :: t) :=
  ⟨h.1, h.2.cons nofun⟩

/-- A decoded event keeps the invariant. -/
theorem Inv.decoded (hlog : Increasing Event.id matchingLog) (hpos : ∀ m ∈ matchingLog, 0 < m.id)
    (h : Inv matchingLog s) {e : SseEvent} {id : Int} {event : Event} (hdecode : decode c.text e = .ok (id, event))
    (hallowed : Allowed c matchingLog (openedWith s.trace) (sent s.trace) e) (progressed : Bool) :
    Inv matchingLog (Subscriber.receive c s progressed e).1 := by
  obtain ⟨hid, hevent⟩ := decode_ok hdecode
  have hidOf : idOf e = id := by rw [idOf, hid]; rfl
  simp only [Allowed, hdecode] at hallowed
  simp only [Subscriber.receive, hdecode]
  by_cases hold : id > 0 ∧ id ≤ s.lastID
  · -- the event is dropped
    rw [if_pos (show id > 0 ∧ id ≤ (s.observe (.receive e)).lastID from hold)]
    exact h.received (hidOf ▸ hold.2)
  rw [if_neg (show ¬ (id > 0 ∧ id ≤ (s.observe (.receive e)).lastID) from hold)]
  by_cases hping : event.event = .ping
  · rw [if_pos hping] at hallowed
    rw [if_pos hping]
    by_cases hnew : id > 0
    · rw [if_pos hnew]
      have hlt : s.lastID < idOf e := by
        rw [hidOf]
        omega
      have hmoved := h.moved hlt (upTo_skip hlt.le fun m hm hle => h.behind (hallowed m hm (hidOf ▸ hle)))
      rw [hidOf] at hmoved
      exact hmoved
    · rw [if_neg hnew]
      have hnonneg := h.nonneg
      exact h.received (by omega)
  · rw [if_neg hping] at hallowed
    rw [if_neg hping]
    have hyield : Inv matchingLog
        ((if id > 0 then { s.observe (.receive e) with lastID := id } else s.observe (.receive e)).observe
          (.yield event)) := by
      by_cases hnew : id > 0
      · rw [if_pos hnew]
        rcases hallowed with hnone | ⟨hmem, hprev⟩
        · -- an event without an id does not have a positive one
          rw [eventID, if_pos hnone] at hid
          cases hid
          omega
        · have heq : event.id = idOf e := by
            rw [hevent, hidOf, if_neg (by omega)]
          have hlt : s.lastID < idOf e := by
            rw [hidOf]
            omega
          have hyielded := h.yielded hlog hpos heq hlt hmem fun m hm hlt => h.behind (hprev m hm hlt)
          rw [hidOf] at hyielded
          exact hyielded
      · rw [if_neg hnew]
        have hnonneg := h.nonneg
        refine (h.received (by omega)).passed ?_
        rcases hallowed with hnone | ⟨hmem, _⟩
        · rw [eventID, if_pos hnone] at hid
          cases hid
          exact hevent
        · have hpos := hpos event hmem
          rw [hevent] at hpos
          split at hpos <;> omega
    have hmore : ∀ s₁ : Subscriber, Inv matchingLog (s₁.observe (.yield event)) →
        Inv matchingLog (if c.more (s₁.observe (.yield event)).trace = true then
          (s₁.observe (.yield event), true, none)
          else (s₁.observe (.yield event), true, some FollowResult.done) :
            Subscriber × Bool × Option FollowResult).1 := by
      intro s₁ h₁
      split
      · exact h₁
      · exact h₁
    exact hmore _ hyield

/-- One round of the loop of `follow`: either the run is over, or the invariant is kept. -/
theorem receive_inv (hlog : Increasing Event.id matchingLog) (hpos : ∀ m ∈ matchingLog, 0 < m.id)
    (h : Inv matchingLog s) {e : SseEvent}
    (hallowed : Allowed c matchingLog (openedWith s.trace) (sent s.trace) e) (progressed : Bool) :
    Good matchingLog (Subscriber.receive c s progressed e).1.trace ∧
      ((Subscriber.receive c s progressed e).2.2 ≠ some .done →
        Inv matchingLog (Subscriber.receive c s progressed e).1) := by
  have hgood := h.good hlog
  cases hdecode : decode c.text e with
  | ok out =>
      obtain ⟨id, event⟩ := out
      have hinv := h.decoded hlog hpos hdecode hallowed progressed
      exact ⟨hinv.good hlog, fun _ => hinv⟩
  | error error =>
      cases error with
      | server error =>
          simp only [Allowed, hdecode] at hallowed
          simp only [Subscriber.receive, hdecode]
          by_cases hretry : error.retry = true
          · rw [if_pos hretry]
            have hnone : idOf e = 0 := by rw [idOf, eventID, if_pos (hallowed hretry)]; rfl
            have hreceived := h.received (e := e) (by rw [hnone]; exact h.nonneg)
            exact ⟨hreceived.good hlog, fun _ => hreceived⟩
          · rw [if_neg hretry]
            exact ⟨hgood.receive.fail, fun hne => absurd rfl hne⟩
      | badID _ | unsupported _ | unmarshal _ =>
          simp only [Subscriber.receive, hdecode]
          exact ⟨hgood.receive.fail, fun hne => absurd rfl hne⟩

/-! ## The run -/

/-- What conforms has always conformed. -/
theorem Conforms.suffix {t' : Trace} (h : Conforms c matchingLog t') (hs : t <:+ t') : Conforms c matchingLog t := by
  induction t' with
  | nil => exact (List.suffix_nil.mp hs) ▸ h
  | cons o t' ih =>
      rcases List.suffix_cons_iff.mp hs with rfl | hs
      · exact h
      · refine ih ?_ hs
        cases o with
        | receive e => exact h.2
        | connect _ | yield _ | fail _ => exact h

/-- The loop of `follow`. -/
theorem read_inv (hlog : Increasing Event.id matchingLog) (hpos : ∀ m ∈ matchingLog, 0 < m.id)
    {events : List SseEvent} {ending : Ending} {progressed : Bool} (h : Inv matchingLog s)
    (hconforms : Conforms c matchingLog (Subscriber.read c s progressed events ending).1.trace) :
    Good matchingLog (Subscriber.read c s progressed events ending).1.trace ∧
      ((Subscriber.read c s progressed events ending).2 ≠ .done →
        Inv matchingLog (Subscriber.read c s progressed events ending).1) := by
  induction events generalizing s progressed with
  | nil =>
      cases ending with
      | closed => exact ⟨h.good hlog, fun _ => h⟩
      | cancelled => exact ⟨(h.good hlog).fail, fun hne => absurd rfl hne⟩
  | cons e events ih =>
      have hreceived : Obs.receive e :: s.trace <:+
          (Subscriber.read c s progressed (e :: events) ending).1.trace := by
        have hstep := receive_trace c s progressed e
        unfold Subscriber.read
        split
        · rename_i heq
          rw [heq] at hstep
          exact hstep
        · rename_i heq
          rw [heq] at hstep
          exact hstep.trans (read_trace c _ _ _ _)
      obtain ⟨hgood, hinv⟩ := receive_inv hlog hpos h (hconforms.suffix hreceived).1 progressed
      unfold Subscriber.read at hconforms ⊢
      split at hconforms
      · rename_i s' _ result heq
        rw [heq] at hgood hinv
        exact ⟨hgood, fun hne => hinv fun hdone => hne (Option.some.inj hdone)⟩
      · rename_i s' _ heq
        rw [heq] at hinv
        exact ih (hinv nofun) hconforms

theorem follow_inv (hlog : Increasing Event.id matchingLog) (hpos : ∀ m ∈ matchingLog, 0 < m.id)
    {connection : Connection} (h : Inv matchingLog s)
    (hconforms : Conforms c matchingLog (Subscriber.follow c s connection).1.trace) :
    Good matchingLog (Subscriber.follow c s connection).1.trace ∧
      ((Subscriber.follow c s connection).2 ≠ .done → Inv matchingLog (Subscriber.follow c s connection).1) := by
  cases connection with
  | failed text => exact ⟨(h.connect.good hlog).fail, fun hne => absurd rfl hne⟩
  | opened events ending => exact read_inv hlog hpos h.connect hconforms

/-- Resetting the counter changes nothing. -/
theorem Inv.counted (h : Inv matchingLog s) (n : Nat) : Inv matchingLog { s with emptyConnections := n } :=
  ⟨h.lastID, h.delivered, h.opened, h.headers⟩

theorem counted_inv (hlog : Increasing Event.id matchingLog) (h : Inv matchingLog s) (n : Nat) (cancelled : Bool) :
    Good matchingLog (s.counted n cancelled).1.trace ∧
      ((s.counted n cancelled).2 = true → Inv matchingLog (s.counted n cancelled).1) := by
  have hgood := h.good hlog
  unfold Subscriber.counted
  split
  · exact ⟨hgood.fail, nofun⟩
  split
  · exact ⟨hgood.fail, nofun⟩
  · exact ⟨hgood, fun _ => h.counted n⟩

/-- One round of the loop of `Events`. -/
theorem round_inv (hlog : Increasing Event.id matchingLog) (hpos : ∀ m ∈ matchingLog, 0 < m.id)
    (connection : Connection) (cancelled : Bool) (h : Inv matchingLog s)
    (hconforms : Conforms c matchingLog (Subscriber.round c s connection cancelled).1.trace) :
    Good matchingLog (Subscriber.round c s connection cancelled).1.trace ∧
      ((Subscriber.round c s connection cancelled).2 = true →
        Inv matchingLog (Subscriber.round c s connection cancelled).1) := by
  obtain ⟨hgood, hinv⟩ := follow_inv hlog hpos h (hconforms.suffix (round_trace c s connection cancelled))
  rcases round_eq c s connection cancelled with ⟨_, heq⟩ | ⟨hgoes, heq⟩
  · rw [heq]
    exact ⟨hgood, nofun⟩
  · rw [heq]
    exact counted_inv hlog (hinv hgoes) _ cancelled

/-- The whole run. -/
theorem events_good (hlog : Increasing Event.id matchingLog) (hpos : ∀ m ∈ matchingLog, 0 < m.id)
    {connections : List (Connection × Bool)} (h : Inv matchingLog s)
    (hconforms : Conforms c matchingLog (Subscriber.events c s connections).trace) :
    Good matchingLog (Subscriber.events c s connections).trace := by
  induction connections generalizing s with
  | nil => exact h.good hlog
  | cons connection rest ih =>
      unfold Subscriber.events at hconforms ⊢
      split at hconforms
      · rename_i s' heq
        have hround := round_inv (c := c) hlog hpos connection.1 connection.2 h
        rw [heq] at hround
        exact (hround hconforms).1
      · rename_i s' heq
        have hround := round_inv (c := c) hlog hpos connection.1 connection.2 h
        rw [heq] at hround
        exact ih ((hround (hconforms.suffix (events_trace c _ _))).2 rfl) hconforms

/-- **Every event once, in order.** Whatever connections a subscriber goes through, if the server has a log of strictly
    increasing positive ids and leaves out no matching event, the events with an id that the subscriber yields are a
    prefix of the matching log, and every connection is asked for with the largest id received so far. -/
theorem delivery_exactly_once {log : List Event} (hlog : Increasing Event.id log) (hpos : ∀ m ∈ log, 0 < m.id)
    (filter : Event → Bool) (c : Consumer) (connections : List (Connection × Bool))
    (hconforms : Conforms c (log.filter filter) (Events c connections)) :
    delivered (Events c connections) <+: log.filter filter ∧ HeadersCurrent (Events c connections) := by
  refine events_good (hlog.filter _) (fun m hm => hpos m (List.mem_of_mem_filter hm)) ?_ hconforms
  refine ⟨rfl, ?_, le_rfl, ?_⟩
  · refine (List.filter_eq_nil_iff.mpr fun m hm hle => ?_).symm
    have hle : m.id ≤ 0 := of_decide_eq_true hle
    have := hpos m (List.mem_of_mem_filter hm)
    omega
  · intro newer older lastEventID heq
    cases newer <;> cases heq

/-- An event without fields in its data. -/
def bareEvent (id event : String) : SseEvent := ⟨id, event, .json .null⟩

/-- A connection breaks after the first event; the next one sends it again, passes over a report that is not asked for
    with a ping, and goes on. -/
def brokenOnce : List (Connection × Bool) :=
  [(.opened [bareEvent "1" "message"] .closed, false),
    (.opened [bareEvent "1" "message", bareEvent "2" "ping", bareEvent "3" "artifact"] .closed, false)]

/-- A consumer that always wants more. -/
def patient : Consumer := ⟨fun _ => "", fun _ => true⟩

/-- The log of the server. -/
def threeEvents : List Event :=
  [⟨1, .message, .json .null⟩, ⟨2, .report, .json .null⟩, ⟨3, .artifact, .json .null⟩]

/-- The filter of the subscriber. -/
def notReport (event : Event) : Bool := event.event ≠ .report

theorem brokenOnce_conforms : Conforms patient (threeEvents.filter notReport) (Events patient brokenOnce) := by
  have hmatching : threeEvents.filter notReport = [⟨1, .message, .json .null⟩, ⟨3, .artifact, .json .null⟩] := rfl
  have hone : decode patient.text (bareEvent "1" "message") = .ok (1, ⟨1, .message, .json .null⟩) := rfl
  have htwo : decode patient.text (bareEvent "2" "ping") = .ok (2, ⟨2, .ping, .json .null⟩) := rfl
  have hthree : decode patient.text (bareEvent "3" "artifact") = .ok (3, ⟨3, .artifact, .json .null⟩) := rfl
  have hevents : Events patient brokenOnce =
      [.yield ⟨3, .artifact, .json .null⟩, .receive (bareEvent "3" "artifact"), .receive (bareEvent "2" "ping"),
        .receive (bareEvent "1" "message"), .connect (some 1), .yield ⟨1, .message, .json .null⟩,
        .receive (bareEvent "1" "message"), .connect none] := rfl
  rw [hmatching, hevents]
  simp [Conforms, Allowed, Sent, openedWith, sent, hone, htwo, hthree]

theorem delivery_exactly_once_brokenOnce :
    Conforms patient (threeEvents.filter notReport) (Events patient brokenOnce) ∧
      delivered (Events patient brokenOnce) <+: threeEvents.filter notReport ∧
      HeadersCurrent (Events patient brokenOnce) :=
  ⟨brokenOnce_conforms,
    delivery_exactly_once (by simp [Increasing, threeEvents]) (by simp [threeEvents]) notReport patient brokenOnce
      brokenOnce_conforms⟩

end Etos.Sse
