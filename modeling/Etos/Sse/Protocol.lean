import Mathlib.Algebra.Group.Nat.Defs
import Etos.Lists.Row
import Etos.Sse.Subscriber

/-!
# `Sse.Protocol` — the subscriber as an iterator

`SSESubscriber.Events` is an iterator: it calls `yield` with an event or an error, and has to stop when `yield` returns
`false`. It reconnects after a delay that doubles with every attempt. Two loops share this work: `follow` yields, and
`Events` goes by its result.

A run of the subscriber is one of `Subscriber.events`, here with the attempts and delays that were left out there
(`paced_events`). What has been yielded was wanted (`Wanted`), up to the observation that ends the run. From this the
protocol follows for every server and every consumer (**`iterator_protocol`**). A run need not end; its trace at any
time is the one of a run in which the last connection has closed by then.
-/

namespace Etos.Sse

open Etos.Lists

/-! ## Attempts and delays -/

/-- `<<` on a `time.Duration`, in nanoseconds. -/
def shiftLeft (d : Int) (n : Nat) : Int := (d * 2 ^ n).bmod (2 ^ 64)

def reconnectDelay : Int := 100 * 1000000

def maxReconnectDelay : Int := 5 * 1000000000

/-- The delay before the next connection. -/
def delay (attempt : Nat) : Int := min (shiftLeft reconnectDelay (min attempt 16)) maxReconnectDelay

/-- The variables of `Events` with `attempt`, and the delays so far, newest first. -/
structure PacedSubscriber extends Subscriber where
  attempt : Nat := 0
  delays : List Int := []

namespace PacedSubscriber

variable (c : Consumer)

/-- The round of the loop of `Events` from the counters on. -/
def reconnect (p : PacedSubscriber) (emptyConnections attempt : Nat) (cancelled : Bool) : PacedSubscriber × Bool :=
  let p := { p with emptyConnections := emptyConnections, attempt := attempt }
  if emptyConnections ≥ Subscriber.maxEmptyReconnects then
    ({ p with toSubscriber := p.observe (.fail .streamClosed) }, false)
  else
    let p := { p with delays := delay attempt :: p.delays }
    -- `select`: the context is done, or the delay is over
    if cancelled then ({ p with toSubscriber := p.observe (.fail .context) }, false) else (p, true)

/-- One round of the loop of `Events`. -/
def round (p : PacedSubscriber) (connection : Connection) (cancelled : Bool) : PacedSubscriber × Bool :=
  let (s, result) := Subscriber.follow c p.toSubscriber connection
  let p := { p with toSubscriber := s }
  match result with
  | .done => (p, false)
  | .progress => p.reconnect 0 0 cancelled
  | .retry => p.reconnect 0 (p.attempt + 1) cancelled
  | .empty => p.reconnect (p.emptyConnections + 1) (p.attempt + 1) cancelled

/-- `Events`, over the connections so far. -/
def events (p : PacedSubscriber) : List (Connection × Bool) → PacedSubscriber
  | [] => p
  | (connection, cancelled) :: rest =>
      match round c p connection cancelled with
      | (p, false) => p
      | (p, true) => events p rest

end PacedSubscriber

theorem reconnect_counted (p : PacedSubscriber) (n attempt : Nat) (cancelled : Bool) :
    ((p.reconnect n attempt cancelled).1.toSubscriber, (p.reconnect n attempt cancelled).2) =
      p.toSubscriber.counted n cancelled := by
  unfold PacedSubscriber.reconnect Subscriber.counted
  dsimp only
  split
  · rfl
  · split <;> rfl

/-- The subscriber goes by the result of a connection. -/
theorem paced_round (c : Consumer) (p : PacedSubscriber) (connection : Connection) (cancelled : Bool) :
    ((p.round c connection cancelled).1.toSubscriber, (p.round c connection cancelled).2) =
      Subscriber.round c p.toSubscriber connection cancelled := by
  unfold PacedSubscriber.round
  rcases round_eq c p.toSubscriber connection cancelled with ⟨hdone, hround⟩ | ⟨hgoes, hround⟩
  · rw [hround]
    dsimp only
    rw [hdone]
  · rw [hround]
    dsimp only
    split
    · rename_i hdone
      exact absurd hdone hgoes
    · rename_i hresult
      rw [reconnect_counted, hresult]
      rfl
    · rename_i hresult
      rw [reconnect_counted, hresult]
      rfl
    · rename_i hresult
      rw [reconnect_counted, hresult]
      rfl

/-- The delays do not change what is done. -/
theorem paced_events (c : Consumer) (p : PacedSubscriber) (connections : List (Connection × Bool)) :
    (p.events c connections).toSubscriber = Subscriber.events c p.toSubscriber connections := by
  induction connections generalizing p with
  | nil => rfl
  | cons connection rest ih =>
      have hround := paced_round c p connection.1 connection.2
      unfold PacedSubscriber.events Subscriber.events
      rw [← hround]
      split
      · rename_i heq
        rw [heq]
      · rename_i heq
        rw [heq]
        exact ih _

theorem delay_bounds (attempt : Nat) : 0 < delay attempt ∧ delay attempt ≤ maxReconnectDelay := by
  -- no shift by so little overflows
  have hshift : ∀ n ≤ 16, 0 < shiftLeft reconnectDelay n := by decide
  have hmax : 0 < maxReconnectDelay := by decide
  have hpos := hshift (min attempt 16) (Nat.min_le_right ..)
  exact ⟨Int.lt_min.mpr ⟨hpos, hmax⟩, Int.min_le_right ..⟩

theorem reconnect_delays (p : PacedSubscriber) (n attempt : Nat) (cancelled : Bool) :
    ∀ d ∈ (p.reconnect n attempt cancelled).1.delays, d ∈ p.delays ∨ ∃ a, d = delay a := by
  have hnew : ∀ d ∈ delay attempt :: p.delays, d ∈ p.delays ∨ ∃ a, d = delay a := by
    intro d hd
    rcases List.mem_cons.mp hd with hd | hd
    · exact .inr ⟨attempt, hd⟩
    · exact .inl hd
  unfold PacedSubscriber.reconnect
  dsimp only
  split
  · exact fun d hd => .inl hd
  · split <;> exact hnew

theorem paced_round_delays (c : Consumer) (p : PacedSubscriber) (connection : Connection) (cancelled : Bool) :
    ∀ d ∈ (p.round c connection cancelled).1.delays, d ∈ p.delays ∨ ∃ a, d = delay a := by
  unfold PacedSubscriber.round
  dsimp only
  split
  · exact fun d hd => .inl hd
  · exact reconnect_delays _ _ _ _
  · exact reconnect_delays _ _ _ _
  · exact reconnect_delays _ _ _ _

/-- Every delay is one of an attempt. -/
theorem paced_events_delays (c : Consumer) (p : PacedSubscriber) (connections : List (Connection × Bool)) :
    ∀ d ∈ (p.events c connections).delays, d ∈ p.delays ∨ ∃ a, d = delay a := by
  induction connections generalizing p with
  | nil => exact fun d hd => .inl hd
  | cons connection rest ih =>
      have hround := paced_round_delays c p connection.1 connection.2
      unfold PacedSubscriber.events
      split
      · rename_i heq
        rw [heq] at hround
        exact hround
      · rename_i heq
        rw [heq] at hround
        intro d hd
        rcases ih _ d hd with hd | hd
        · exact hround d hd
        · exact .inr hd

/-! ## What has been wanted -/

/-- The observation is a call of `yield`. -/
def Obs.Item : Obs → Prop
  | .yield _ => True
  | .fail _ => True
  | _ => False

/-- No error has been yielded, and after every event the consumer wanted more. -/
def Wanted (c : Consumer) : Trace → Prop
  | [] => True
  | .yield event :: older => c.more (.yield event :: older) = true ∧ Wanted c older
  | .fail _ :: _ => False
  | _ :: older => Wanted c older

variable {c : Consumer} {s : Subscriber} {t t' : Trace}

theorem Wanted.older {o : Obs} (h : Wanted c (o :: t)) : Wanted c t := by
  cases o with
  | connect => exact h
  | receive => exact h
  | yield => exact h.2
  | fail => exact h.elim

theorem Wanted.suffix (h : Wanted c t') (hs : t <:+ t') : Wanted c t := by
  induction t' with
  | nil =>
      rw [List.suffix_nil.mp hs]
      exact h
  | cons o t' ih =>
      rcases List.suffix_cons_iff.mp hs with rfl | hs
      · exact h
      · exact ih h.older hs

theorem Wanted.not_fail (h : Wanted c t) (error : SubscriberError) : .fail error ∉ t := by
  intro hmem
  obtain ⟨newer, older, rfl⟩ := List.append_of_mem hmem
  exact h.suffix (List.suffix_append newer _)

/-- A consumer that wants no more ends the wanted. -/
theorem Wanted.item {o : Obs} (h : Wanted c (o :: t)) (ho : o.Item) : c.more (o :: t) = true := by
  cases o with
  | connect => exact ho.elim
  | receive => exact ho.elim
  | yield => exact h.1
  | fail => exact h.elim

/-- Only the newest observation may end the run. -/
theorem last_of_wanted_tail {newer older : Trace} {o : Obs} (h : Wanted c t.tail) (ht : t = newer ++ o :: older)
    (ho : ¬ Wanted c (o :: older)) : newer = [] := by
  cases newer with
  | nil => rfl
  | cons o' newer =>
      rw [ht] at h
      exact absurd (h.suffix (List.suffix_append newer _)) ho

/-! ## Over a connection -/

/-- What a received event does: nothing can be seen of it, or it is yielded, or it ends the connection. -/
inductive Received (c : Consumer) (e : SseEvent) (s : Subscriber) (progressed : Bool) :
    Subscriber × Bool × Option FollowResult → Prop where
  | passed {s' : Subscriber} (h : s'.trace = .receive e :: s.trace) : Received c e s progressed (s', true, none)
  | yielded {s' : Subscriber} {event} (h : s'.trace = .yield event :: .receive e :: s.trace)
      (hmore : c.more s'.trace = true) :
      Received c e s progressed (s', true, none)
  | stopped {s' : Subscriber} {event} (h : s'.trace = .yield event :: .receive e :: s.trace) :
      Received c e s progressed (s', true, some .done)
  | failed {s' : Subscriber} {error} (h : s'.trace = .fail (.decode error) :: .receive e :: s.trace) :
      Received c e s progressed (s', progressed, some .done)
  | retried {s' : Subscriber} (h : s'.trace = .receive e :: s.trace) :
      Received c e s progressed (s', progressed, some (if progressed then .progress else .retry))

theorem receive_received (c : Consumer) (s : Subscriber) (progressed : Bool) (e : SseEvent) :
    Received c e s progressed (Subscriber.receive c s progressed e) := by
  unfold Subscriber.receive
  dsimp only
  split
  · split
    · exact .retried rfl
    · exact .failed rfl
  · exact .failed rfl
  · split
    · exact .passed rfl
    · split
      · refine .passed ?_
        split <;> rfl
      · -- whether the event has an id does not show in the trace
        split <;>
        · split
          · rename_i hmore
            exact .yielded rfl hmore
          · exact .stopped rfl

/-- The trace after a connection: as wanted unless the run is done, and then up to the observation that ended it. -/
structure Followed (c : Consumer) (s : Subscriber) (result : FollowResult) : Prop where
  going : result ≠ .done → Wanted c s.trace
  older : Wanted c s.trace.tail
  notClosed : .fail .streamClosed ∉ s.trace

theorem Followed.of_wanted {result : FollowResult} (h : Wanted c s.trace) : Followed c s result :=
  ⟨fun _ => h, h.suffix (List.tail_suffix _), h.not_fail _⟩

theorem Followed.last {o : Obs} (ht : s.trace = o :: t) (h : Wanted c t) (ho : o ≠ .fail .streamClosed) :
    Followed c s .done := by
  refine ⟨fun hne => absurd rfl hne, ?_, ?_⟩
  · rw [ht]
    exact h
  · rw [ht]
    exact List.not_mem_cons_of_ne_of_not_mem ho.symm (h.not_fail _)

theorem read_followed (h : Wanted c s.trace) (progressed : Bool) (events : List SseEvent) (ending : Ending) :
    Followed c (Subscriber.read c s progressed events ending).1 (Subscriber.read c s progressed events ending).2 := by
  induction events generalizing s progressed with
  | nil =>
      cases ending with
      | closed => exact .of_wanted h
      | cancelled => exact .last rfl h fun heq => by cases heq
  | cons e events ih =>
      have hreceived := receive_received c s progressed e
      have hwanted : Wanted c (.receive e :: s.trace) := h
      unfold Subscriber.read
      generalize Subscriber.receive c s progressed e = r at hreceived
      cases hreceived with
      | passed htrace => exact ih (htrace ▸ hwanted) true
      | yielded htrace hmore =>
          refine ih ?_ true
          rw [htrace] at hmore ⊢
          exact ⟨hmore, hwanted⟩
      | stopped htrace => exact .last htrace hwanted fun heq => by cases heq
      | failed htrace => exact .last htrace hwanted fun heq => by cases heq
      | retried htrace => exact .of_wanted (htrace ▸ hwanted)

/-- A connection is empty if nothing came before it closed. -/
theorem read_empty_iff (s : Subscriber) (progressed : Bool) (events : List SseEvent) (ending : Ending) :
    (Subscriber.read c s progressed events ending).2 = .empty ↔
      progressed = false ∧ events = [] ∧ ending = .closed := by
  induction events generalizing s progressed with
  | nil =>
      cases ending with
      | closed => cases progressed <;> simp [Subscriber.read]
      | cancelled => simp [Subscriber.read]
  | cons e events ih =>
      have hreceived := receive_received c s progressed e
      unfold Subscriber.read
      generalize Subscriber.receive c s progressed e = r at hreceived
      cases hreceived with
      | passed _ => simp [ih]
      | yielded _ _ => simp [ih]
      | stopped _ => simp
      | failed _ => simp
      | retried _ => cases progressed <;> simp

/-- A connection that closes without anything. -/
def emptyConnection : Connection := .opened [] .closed

theorem follow_followed (h : Wanted c s.trace) (connection : Connection) :
    Followed c (Subscriber.follow c s connection).1 (Subscriber.follow c s connection).2 := by
  have hconnect : Wanted c (s.observe (.connect s.lastEventID)).trace := h
  cases connection with
  | failed text => exact .last rfl hconnect nofun
  | opened events ending => exact read_followed hconnect false events ending

theorem follow_empty_iff (c : Consumer) (s : Subscriber) (connection : Connection) :
    (Subscriber.follow c s connection).2 = .empty ↔ connection = emptyConnection := by
  cases connection with
  | failed text => simp [Subscriber.follow, emptyConnection]
  | opened events ending =>
      refine (read_empty_iff _ false events ending).trans ?_
      simp [emptyConnection]

/-! ## Empty connections in a row -/

/-- The connections that a run has made. -/
def Subscriber.made (c : Consumer) (s : Subscriber) : List (Connection × Bool) → List Connection
  | [] => []
  | (connection, cancelled) :: rest =>
      connection :: match Subscriber.round c s connection cancelled with
        | (_, false) => []
        | (s, true) => Subscriber.made c s rest

/-- The connections from the last that was not empty on, with those to come, have five empty ones in a row. -/
def GivesUp (k : Nat) (connections : List Connection) : Prop :=
  List.replicate Subscriber.maxEmptyReconnects emptyConnection <:+: List.replicate k emptyConnection ++ connections

/-- The count after a connection. -/
theorem givesUp_cons (hk : s.emptyConnections < Subscriber.maxEmptyReconnects) (connection : Connection)
    (rest : List Connection) : GivesUp s.emptyConnections (connection :: rest) ↔
      GivesUp (if (Subscriber.follow c s connection).2 = .empty then
        (Subscriber.follow c s connection).1.emptyConnections + 1 else 0) rest := by
  rw [follow_emptyConnections]
  split
  · rename_i hempty
    rw [(follow_empty_iff c s connection).mp hempty]
    exact replicate_infix_same
  · rename_i hempty
    exact replicate_infix_other hk fun h => hempty ((follow_empty_iff c s connection).mpr h)

/-- A run is over with the observation that ends it, and has given up if five connections in a row were empty. -/
theorem events_wanted (h : Wanted c s.trace) (hk : s.emptyConnections < Subscriber.maxEmptyReconnects)
    (connections : List (Connection × Bool)) :
    Wanted c (Subscriber.events c s connections).trace.tail ∧
      (.fail .streamClosed ∈ (Subscriber.events c s connections).trace ↔
        GivesUp s.emptyConnections (Subscriber.made c s connections)) := by
  induction connections generalizing s with
  | nil =>
      refine ⟨h.suffix (List.tail_suffix _), ?_⟩
      constructor
      · exact fun hfail => absurd hfail (h.not_fail _)
      · exact fun hgives => absurd (replicate_infix_replicate.mp hgives) (Nat.not_le.mpr hk)
  | cons connection rest ih =>
      obtain ⟨connection, cancelled⟩ := connection
      have hfollowed := follow_followed h connection
      unfold Subscriber.events Subscriber.made
      rw [givesUp_cons hk]
      rcases round_eq c s connection cancelled with ⟨hdone, hround⟩ | ⟨hgoes, hround⟩
      · -- the connection has ended the run, and was not empty
        rw [hround]
        refine ⟨hfollowed.older, ?_⟩
        rw [hdone, if_neg fun heq => by cases heq]
        constructor
        · exact fun hfail => absurd hfail hfollowed.notClosed
        · exact fun hgives => absurd (replicate_infix_replicate.mp hgives) (by decide)
      · rw [hround]
        have hwanted := hfollowed.going hgoes
        generalize (if (Subscriber.follow c s connection).2 = .empty then
          (Subscriber.follow c s connection).1.emptyConnections + 1 else 0) = n
        unfold Subscriber.counted
        by_cases hn : n ≥ Subscriber.maxEmptyReconnects
        · -- the fifth in a row
          rw [if_pos hn]
          refine ⟨hwanted, ?_⟩
          constructor
          · exact fun _ => replicate_infix_replicate.mpr hn
          · exact fun _ => List.mem_cons_self
        · rw [if_neg hn]
          cases cancelled with
          | true =>
              -- the run ends during the delay
              refine ⟨hwanted, ?_⟩
              constructor
              · intro hfail
                rcases List.mem_cons.mp hfail with hfail | hfail
                · cases hfail
                · exact absurd hfail (hwanted.not_fail _)
              · exact fun hgives => absurd (replicate_infix_replicate.mp hgives) hn
          | false => exact ih hwanted (Nat.lt_of_not_le hn)

/-- **The subscriber is an iterator.** Whatever the server does, wherever the context is done and whenever the consumer
    stops: nothing comes after a call of `yield` that returned `false`, and nothing after an error. The stream is given
    up if and only if five connections in a row were empty, and every delay is positive and at most the longest. -/
theorem iterator_protocol (c : Consumer) (connections : List (Connection × Bool)) :
    (∀ newer o older, (PacedSubscriber.events c {} connections).trace = newer ++ o :: older → o.Item →
      c.more (o :: older) = false → newer = []) ∧
    (∀ newer error older, (PacedSubscriber.events c {} connections).trace = newer ++ .fail error :: older →
      newer = []) ∧
    (.fail .streamClosed ∈ (PacedSubscriber.events c {} connections).trace ↔
      List.replicate Subscriber.maxEmptyReconnects emptyConnection <:+: Subscriber.made c {} connections) ∧
    ∀ d ∈ (PacedSubscriber.events c {} connections).delays, 0 < d ∧ d ≤ maxReconnectDelay := by
  rw [paced_events]
  obtain ⟨hover, hclosed⟩ := events_wanted (c := c) (s := {}) trivial (by decide) connections
  refine ⟨fun newer o older htrace ho hmore => last_of_wanted_tail hover htrace fun hwanted => ?_,
    fun newer error older htrace => last_of_wanted_tail hover htrace id, hclosed, fun d hd => ?_⟩
  · rw [hwanted.item ho] at hmore
    cases hmore
  · rcases paced_events_delays c {} connections d hd with hd | ⟨attempt, hd⟩
    · cases hd
    · rw [hd]
      exact delay_bounds attempt

/-- Two messages, after an empty connection. -/
def twoMessages : List (Connection × Bool) :=
  [(emptyConnection, false),
    (.opened [⟨"1", "message", .json .null⟩, ⟨"2", "message", .json .null⟩] .closed, false)]

/-- A consumer that stops after its first event: the second message is not even received. -/
theorem iterator_protocol_stopped :
    (PacedSubscriber.events ⟨fun _ => "", fun _ => false⟩ {} twoMessages).trace.head? =
        some (.yield ⟨1, .message, .json .null⟩) ∧
      (∀ newer o older, (PacedSubscriber.events ⟨fun _ => "", fun _ => false⟩ {} twoMessages).trace =
        newer ++ o :: older → o.Item → newer = []) ∧
      (PacedSubscriber.events ⟨fun _ => "", fun _ => false⟩ {} twoMessages).delays = [200000000] := by
  refine ⟨rfl, fun newer o older htrace ho => ?_, by decide⟩
  exact (iterator_protocol _ _).1 newer o older htrace ho rfl

end Etos.Sse
