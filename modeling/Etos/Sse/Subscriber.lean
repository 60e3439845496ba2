import Mathlib.Data.List.Infix
import Etos.Sse.Events

/-!
# `Sse.Subscriber` — the Go subscriber

`SSESubscriber.Events` and `follow` of `pkg/messaging/subscriber`. What the subscriber does and hears is recorded in a
trace, newest first: the connections it asks for with the `Last-Event-ID` it sends, the events it receives, and what it
yields. The environment decides how a connection attempt goes, what comes over an open connection and how it ends, and
whether the consumer of the iterator wants more.

Delays, and the attempt counter that only serves to compute them, are left out (`Sse.Protocol` has them).
-/

namespace Etos.Sse

/-- What is yielded as an error. -/
inductive SubscriberError where
  | connect (text : String)
  /-- `ctx.Err()`. -/
  | context
  | decode (error : DecodeError)
  /-- `ErrStreamClosed`. -/
  | streamClosed

/-- What can be observed of the subscriber. -/
inductive Obs where
  /-- A connection was asked for; without the header if `lastEventID` is `none`. -/
  | connect (lastEventID : Option Int)
  | receive (e : SseEvent)
  | yield (event : Event)
  | fail (error : SubscriberError)

abbrev Trace := List Obs

/-- How an open connection ends: the stream closes or cannot be read any further, or the context is done. -/
inductive Ending where
  | closed | cancelled
  deriving DecidableEq

/-- A connection attempt: it fails, or the connection delivers these events and ends. -/
inductive Connection where
  | failed (text : String)
  | opened (events : List SseEvent) (ending : Ending)

/-- `followResult`. -/
inductive FollowResult where
  | done | progress | retry | empty
  deriving DecidableEq

/-- The environment of the subscriber: how JSON is printed, and whether the consumer wants more after a trace. -/
structure Consumer where
  text : Json → String
  more : Trace → Bool

/-- The variables of `Events` and `follow`. -/
structure Subscriber where
  lastID : Int := 0
  emptyConnections : Nat := 0
  trace : Trace := []

namespace Subscriber

variable (c : Consumer)

def observe (s : Subscriber) (o : Obs) : Subscriber := { s with trace := o :: s.trace }

/-- One round of the loop of `follow`: the subscriber, whether there has been progress, and the result that ends the
    connection, if it ends here. -/
def receive (s : Subscriber) (progressed : Bool) (e : SseEvent) : Subscriber × Bool × Option FollowResult :=
  let s := s.observe (.receive e)
  match decode c.text e with
  | .error (.server error) =>
      if error.retry then (s, progressed, some (if progressed then .progress else .retry))
      else (s.observe (.fail (.decode (.server error))), progressed, some .done)
  | .error error => (s.observe (.fail (.decode error)), progressed, some .done)
  | .ok (eventID, event) =>
      if eventID > 0 ∧ eventID ≤ s.lastID then (s, true, none)
      else
        let s := if eventID > 0 then { s with lastID := eventID } else s
        if event.event = .ping then (s, true, none)
        else
          let s := s.observe (.yield event)
          if c.more s.trace then (s, true, none) else (s, true, some .done)

/-- The loop of `follow`. -/
def read (s : Subscriber) (progressed : Bool) : List SseEvent → Ending → Subscriber × FollowResult
  | [], .closed => (s, if progressed then .progress else .empty)
  | [], .cancelled => (s.observe (.fail .context), .done)
  | e :: events, ending =>
      match receive c s progressed e with
      | (s, _, some result) => (s, result)
      | (s, progressed, none) => read s progressed events ending

/-- The header of a connection: `if lastID > 0 { … }`. -/
def lastEventID (s : Subscriber) : Option Int := if s.lastID > 0 then some s.lastID else none

/-- `follow`. -/
def follow (s : Subscriber) (connection : Connection) : Subscriber × FollowResult :=
  let s := s.observe (.connect s.lastEventID)
  match connection with
  | .failed text => (s.observe (.fail (.connect text)), .done)
  | .opened events ending => read c s false events ending

def maxEmptyReconnects : Nat := 5

/-- One round of the loop of `Events`: the subscriber, and whether it goes on. `cancelled` says whether the context is
    done before the next connection. -/
def round (s : Subscriber) (connection : Connection) (cancelled : Bool) : Subscriber × Bool :=
  let (s, result) := follow c s connection
  if result = .done then (s, false)
  else
    let emptyConnections := if result = .empty then s.emptyConnections + 1 else 0
    let s := { s with emptyConnections := emptyConnections }
    if emptyConnections ≥ maxEmptyReconnects then (s.observe (.fail .streamClosed), false)
    else if cancelled then (s.observe (.fail .context), false)
    else (s, true)

/-- `Events`, over the connections so far. -/
def events (s : Subscriber) : List (Connection × Bool) → Subscriber
  | [] => s
  | (connection, cancelled) :: rest =>
      match round c s connection cancelled with
      | (s, false) => s
      | (s, true) => events s rest

end Subscriber

/-- `SSESubscriber.Events`. -/
def Events (c : Consumer) (connections : List (Connection × Bool)) : Trace :=
  (Subscriber.events c {} connections).trace

/-! ## The trace grows -/

theorem receive_trace (c : Consumer) (s : Subscriber) (progressed : Bool) (e : SseEvent) :
    Obs.receive e :: s.trace <:+ (Subscriber.receive c s progressed e).1.trace := by
  unfold Subscriber.receive
  dsimp only
  split
  · split
    · exact List.suffix_refl _
    · exact List.suffix_cons _ _
  · exact List.suffix_cons _ _
  · split
    · exact List.suffix_refl _
    · split
      · split <;> exact List.suffix_refl _
      · split <;> split <;> exact List.suffix_cons _ _

theorem read_trace (c : Consumer) (s : Subscriber) (progressed : Bool) (events : List SseEvent) (ending : Ending) :
    s.trace <:+ (Subscriber.read c s progressed events ending).1.trace := by
  induction events generalizing s progressed with
  | nil =>
      cases ending with
      | closed => exact List.suffix_refl _
      | cancelled => exact List.suffix_cons _ _
  | cons e events ih =>
      have hstep := (List.suffix_cons (Obs.receive e) s.trace).trans (receive_trace c s progressed e)
      unfold Subscriber.read
      split
      · rename_i heq
        rw [heq] at hstep
        exact hstep
      · rename_i heq
        rw [heq] at hstep
        exact hstep.trans (ih _ _)

theorem follow_trace (c : Consumer) (s : Subscriber) (connection : Connection) :
    s.trace <:+ (Subscriber.follow c s connection).1.trace := by
  refine (List.suffix_cons (Obs.connect s.lastEventID) s.trace).trans ?_
  cases connection with
  | failed text => exact List.suffix_cons _ _
  | opened events ending => exact read_trace c (s.observe (.connect s.lastEventID)) false events ending

/-- The end of a round, after a connection that did not end the run. -/
def Subscriber.counted (s : Subscriber) (n : Nat) (cancelled : Bool) : Subscriber × Bool :=
  if n ≥ Subscriber.maxEmptyReconnects then
    (({ s with emptyConnections := n } : Subscriber).observe (.fail .streamClosed), false)
  else if cancelled then (({ s with emptyConnections := n } : Subscriber).observe (.fail .context), false)
  else ({ s with emptyConnections := n }, true)

theorem round_eq (c : Consumer) (s : Subscriber) (connection : Connection) (cancelled : Bool) :
    ((Subscriber.follow c s connection).2 = .done ∧
        Subscriber.round c s connection cancelled = ((Subscriber.follow c s connection).1, false)) ∨
      ((Subscriber.follow c s connection).2 ≠ .done ∧
        Subscriber.round c s connection cancelled =
          (Subscriber.follow c s connection).1.counted
            (if (Subscriber.follow c s connection).2 = .empty then
              (Subscriber.follow c s connection).1.emptyConnections + 1 else 0) cancelled) := by
  by_cases hdone : (Subscriber.follow c s connection).2 = .done
  · exact .inl ⟨hdone, if_pos hdone⟩
  · exact .inr ⟨hdone, if_neg hdone⟩

theorem counted_trace (s : Subscriber) (n : Nat) (cancelled : Bool) : s.trace <:+ (s.counted n cancelled).1.trace := by
  unfold Subscriber.counted
  split
  · exact List.suffix_cons _ _
  split
  · exact List.suffix_cons _ _
  · exact List.suffix_refl _

theorem round_trace (c : Consumer) (s : Subscriber) (connection : Connection) (cancelled : Bool) :
    (Subscriber.follow c s connection).1.trace <:+ (Subscriber.round c s connection cancelled).1.trace := by
  rcases round_eq c s connection cancelled with ⟨_, heq⟩ | ⟨_, heq⟩
  · rw [heq]
  · rw [heq]
    exact counted_trace _ _ cancelled

theorem events_cons_trace (c : Consumer) (s : Subscriber) (connection : Connection) (cancelled : Bool)
    (rest : List (Connection × Bool)) (htrace : ∀ s : Subscriber, s.trace <:+ (Subscriber.events c s rest).trace) :
    (Subscriber.round c s connection cancelled).1.trace <:+
      (Subscriber.events c s ((connection, cancelled) :: rest)).trace := by
  unfold Subscriber.events
  split
  · rename_i heq
    rw [heq]
  · rename_i heq
    rw [heq]
    exact htrace _

theorem events_trace (c : Consumer) (s : Subscriber) (connections : List (Connection × Bool)) :
    s.trace <:+ (Subscriber.events c s connections).trace := by
  induction connections generalizing s with
  | nil => exact List.suffix_refl _
  | cons connection rest ih =>
      have hround := (follow_trace c s connection.1).trans (round_trace c s connection.1 connection.2)
      exact hround.trans (events_cons_trace c s connection.1 connection.2 rest ih)

/-- What has been done over a connection is in the trace of the run. -/
theorem follow_events_trace (c : Consumer) (s : Subscriber) (connection : Connection) (cancelled : Bool)
    (rest : List (Connection × Bool)) :
    (Subscriber.follow c s connection).1.trace <:+
      (Subscriber.events c s ((connection, cancelled) :: rest)).trace :=
  (round_trace c s connection cancelled).trans
    (events_cons_trace c s connection cancelled rest fun s => events_trace c s rest)

/-! ## Empty connections are counted between connections -/

theorem receive_emptyConnections (c : Consumer) (s : Subscriber) (progressed : Bool) (e : SseEvent) :
    (Subscriber.receive c s progressed e).1.emptyConnections = s.emptyConnections := by
  unfold Subscriber.receive
  dsimp only
  split
  · split <;> rfl
  · rfl
  · split
    · rfl
    · split
      · split <;> rfl
      · split <;> split <;> rfl

theorem read_emptyConnections (c : Consumer) (s : Subscriber) (progressed : Bool) (events : List SseEvent)
    (ending : Ending) : (Subscriber.read c s progressed events ending).1.emptyConnections = s.emptyConnections := by
  induction events generalizing s progressed with
  | nil => cases ending <;> rfl
  | cons e events ih =>
      have hstep := receive_emptyConnections c s progressed e
      unfold Subscriber.read
      split
      · rename_i heq
        rw [heq] at hstep
        exact hstep
      · rename_i heq
        rw [heq] at hstep
        exact (ih _ _).trans hstep

theorem follow_emptyConnections (c : Consumer) (s : Subscriber) (connection : Connection) :
    (Subscriber.follow c s connection).1.emptyConnections = s.emptyConnections := by
  cases connection with
  | failed text => rfl
  | opened events ending => exact read_emptyConnections c (s.observe (.connect s.lastEventID)) false events ending

end Etos.Sse
