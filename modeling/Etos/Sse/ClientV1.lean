import Mathlib.Algebra.Order.Ring.Int
import Mathlib.Data.List.Chain
import Etos.Lists.Cursor
import Etos.Sse.FeedV1
import Etos.Sse.ProtocolV1

/-!
# `Sse.ClientV1` — following a stream with the `v1` client

`SSEClient` of `etos_client.sse.v1`, from the chunks of its connections to the events it yields. The client remembers
the id of the last event it has yielded. An event with the same id is dropped, an event with the next id is yielded,
and any other id is taken for a gap: the client resets, and asks for a new connection with the `Last-Event-ID` header.

A shutdown event is not compared with anything: it is yielded as it comes, and ends the stream.

- **`events_in_sequence`**: whatever servers send, no id is left out or repeated among the events that are yielded
  before a shutdown event, every request names the last of them, and a shutdown event comes last, whatever its id.
- **`delivers_prefix`**: if the server has a log, sends only what is in it, begins with its first event where it is not
  told otherwise, and sends a shutdown event only in its place, then what is yielded, the shutdown event included, is a
  prefix of the log. How the server resumes does not matter. A shutdown event that is sent too early is another matter:
  the events before it are lost (`loses_before_shutdown`).

Connecting fails or not, and waits; this is left out. A stream that is read to its end is no reason to connect again:
the client goes on to read the same exhausted generator, for good.
-/

namespace Etos.Sse.V1

open Encoding Etos.Lists

/-! ## Connections -/

/-- How the iteration over the chunks of a response ends. -/
inductive Ending where
  | exhausted
  /-- `ReadTimeoutError`. -/
  | readTimeout
  /-- Any other `HTTPError`. -/
  | httpError
  deriving DecidableEq

/-- What comes over a connection. -/
structure Connection where
  chunks : List Bytes
  ending : Ending

/-- What can be observed of the client. -/
inductive ClientObs where
  /-- A connection was asked for; without the header if `lastEventID` is `none`. -/
  | connect (lastEventID : Option Int)
  | yield (event : Event)

/-- The observations, newest first. -/
abbrev ClientTrace := List ClientObs

structure SSEClient where
  lastEventID : Option Int := none
  /-- `__connected`. -/
  connected : Bool := false
  /-- `__shutdown`. -/
  shutdown : Bool := false
  /-- An exception has left `event_stream`. -/
  raised : Bool := false
  trace : ClientTrace := []

/-- How `__stream` ends. -/
inductive StreamEnd where
  | exhausted
  | desynced
  | jsonDecodeError
  | readTimeout
  | httpError
  | serverShutdown (event : Event)
  /-- An exception that is not caught. -/
  | raised

namespace SSEClient

def observe (client : SSEClient) (o : ClientObs) : SSEClient := { client with trace := o :: client.trace }

/-- `__out_of_sync`. -/
def outOfSync (client : SSEClient) (event : Event) : Bool :=
  match client.lastEventID, event.id with
  | none, _ => false
  | some _, none => false
  | some lastEventID, some id => if id - lastEventID = 1 then false else true

/-- One round of the loop of `__stream`. -/
def handle (client : SSEClient) (event : Event) : SSEClient × Option StreamEnd :=
  if event.cls = .shutdown then (client, some (.serverShutdown event))
  else
    match event.id with
    | none => (client.observe (.yield event), none)
    | some id =>
        -- ignored if it has been received already
        if some id = client.lastEventID then (client, none)
        else if client.outOfSync event then (client, some .desynced)
        else (({ client with lastEventID := some id } : SSEClient).observe (.yield event), none)

variable (parse : List Char → Except ParseError Event)

/-- `__stream`, of the blobs of a connection that ends like `ending`. -/
def stream (client : SSEClient) (ending : StreamEnd) : List (List Char) → SSEClient × StreamEnd
  | [] => (client, ending)
  | blob :: blobs =>
      match parse blob with
      | .error error => (client, if error.handled then .jsonDecodeError else .raised)
      | .ok event =>
          match client.handle event with
          | (client, some ending) => (client, ending)
          | (client, none) => stream client ending blobs

/-- The `except` clauses of `event_stream`: `reset`, or `close` after a shutdown event. -/
def finish (client : SSEClient) : StreamEnd → SSEClient
  | .exhausted => client
  | .desynced | .jsonDecodeError | .readTimeout | .httpError => { client with connected := false }
  | .serverShutdown event => { client.observe (.yield event) with shutdown := true, connected := false }
  | .raised => { client with raised := true }

end SSEClient

/-- How the blobs of a connection end: with bytes that are no text, or with the chunks. -/
def Connection.streamEnd (connection : Connection) : StreamEnd :=
  match (read connection.chunks).raised, connection.ending with
  | some _, _ => .raised
  | none, .exhausted => .exhausted
  | none, .readTimeout => .readTimeout
  | none, .httpError => .httpError

namespace SSEClient

variable (parse : List Char → Except ParseError Event)

/-- One round of the loop of `event_stream`: connect, and follow the stream. -/
def follow (client : SSEClient) (connection : Connection) : SSEClient :=
  let client := { client.observe (.connect client.lastEventID) with connected := true }
  let (client, ending) := client.stream parse connection.streamEnd (read connection.chunks).items
  client.finish ending

/-- `event_stream`, over the connections it gets. `parse` is `parseFeed` with the parameters of the platform. -/
def eventStream (client : SSEClient) : List Connection → SSEClient
  | [] => client
  | connection :: connections =>
      if client.shutdown || client.raised then client
      -- the stream that was read to its end is read again and again
      else if client.connected then client
      else eventStream (client.follow parse connection) connections

end SSEClient

/-! ## What was yielded -/

/-- The events with an id that were yielded, oldest first, a shutdown event with an id among them. -/
def delivered : ClientTrace → List Event
  | [] => []
  | .yield event :: older => if event.id = none then delivered older else delivered older ++ [event]
  | .connect _ :: older => delivered older

/-- Those of them that are compared with the event before. A shutdown event is yielded whatever its id is. -/
def followed (t : ClientTrace) : List Event := (delivered t).filter fun event => event.cls ≠ .shutdown

/-- The id of the last event that was delivered. -/
def lastDelivered (t : ClientTrace) : Option Int := (delivered t).getLast?.bind Event.id

/-- Every request names the last event that was yielded before it. -/
def HeadersCurrent : ClientTrace → Prop
  | [] => True
  | .connect lastEventID :: older => lastEventID = lastDelivered older ∧ HeadersCurrent older
  | .yield _ :: older => HeadersCurrent older

/-- The second event has the next id. -/
def Next (event event' : Event) : Prop := ∃ id, event.id = some id ∧ event'.id = some (id + 1)

/-- No shutdown event has been yielded. -/
def Unfinished (t : ClientTrace) : Prop := ∀ event, .yield event ∈ t → event.cls ≠ .shutdown

/-- What holds of every trace. -/
structure InSequence (t : ClientTrace) : Prop where
  consecutive : (followed t).IsChain Next
  headers : HeadersCurrent t
  /-- Only the last observation can be a shutdown event. -/
  unfinished : Unfinished t.tail

section Sequence

variable {client client' : SSEClient} {event : Event} {t : ClientTrace} {ending : StreamEnd}

/-- The last id is that of the last event that was yielded. -/
structure SequenceInv (client : SSEClient) : Prop where
  last : client.lastEventID = lastDelivered client.trace
  consecutive : (delivered client.trace).IsChain Next
  headers : HeadersCurrent client.trace
  unfinished : Unfinished client.trace

theorem Unfinished.yield (h : Unfinished t) (hcls : event.cls ≠ .shutdown) : Unfinished (.yield event :: t) := by
  intro event' hmem
  rcases List.mem_cons.mp hmem with heq | hmem
  · cases heq
    exact hcls
  · exact h event' hmem

theorem Unfinished.connect {lastEventID : Option Int} (h : Unfinished t) : Unfinished (.connect lastEventID :: t) := by
  intro event hmem
  rcases List.mem_cons.mp hmem with heq | hmem
  · cases heq
  · exact h event hmem

theorem delivered_yield (hid : event.id ≠ none) : delivered (.yield event :: t) = delivered t ++ [event] := by
  simp only [delivered, if_neg hid]

theorem delivered_plain (hid : event.id = none) : delivered (.yield event :: t) = delivered t := by
  simp only [delivered, if_pos hid]

/-- What is delivered has an id, and was yielded. -/
theorem mem_delivered (h : event ∈ delivered t) : event.id ≠ none ∧ .yield event ∈ t := by
  induction t with
  | nil => cases h
  | cons o t ih =>
      cases o with
      | connect _ =>
          obtain ⟨hid, hmem⟩ := ih h
          exact ⟨hid, List.mem_cons_of_mem _ hmem⟩
      | yield event' =>
          simp only [delivered] at h
          split at h
          · obtain ⟨hid, hmem⟩ := ih h
            exact ⟨hid, List.mem_cons_of_mem _ hmem⟩
          · rename_i hid
            rcases List.mem_append.mp h with h | h
            · obtain ⟨hid, hmem⟩ := ih h
              exact ⟨hid, List.mem_cons_of_mem _ hmem⟩
            · rw [List.mem_singleton.mp h]
              exact ⟨hid, List.mem_cons_self⟩

/-- Before a shutdown event everything is followed. -/
theorem Unfinished.followed_eq (h : Unfinished t) : followed t = delivered t := by
  apply List.filter_eq_self.mpr
  intro event hmem
  simpa using h event (mem_delivered hmem).2

/-- A shutdown event is not. -/
theorem followed_shutdown (hcls : event.cls = .shutdown) : followed (.yield event :: t) = followed t := by
  by_cases hid : event.id = none
  · rw [followed, delivered_plain hid, followed]
  · rw [followed, delivered_yield hid, List.filter_append, List.filter_cons_of_neg (by simp [hcls]), List.filter_nil,
      List.append_nil, followed]

theorem lastDelivered_yield {id : Int} (hid : event.id = some id) : lastDelivered (.yield event :: t) = some id := by
  have hne : event.id ≠ none := by simp [hid]
  rw [lastDelivered, delivered_yield hne, List.getLast?_concat]
  exact hid

/-- Asking for a connection. -/
theorem SequenceInv.connect (h : SequenceInv client) :
    SequenceInv { client.observe (.connect client.lastEventID) with connected := true } where
  last := h.last
  consecutive := h.consecutive
  headers := ⟨h.last, h.headers⟩
  unfinished := h.unfinished.connect

/-- An event without an id. -/
theorem SequenceInv.plain (h : SequenceInv client) (hid : event.id = none) (hcls : event.cls ≠ .shutdown) :
    SequenceInv (client.observe (.yield event)) where
  last := by
    show client.lastEventID = lastDelivered (.yield event :: client.trace)
    rw [lastDelivered, delivered_plain hid]
    exact h.last
  consecutive := by
    show (delivered (.yield event :: client.trace)).IsChain Next
    rw [delivered_plain hid]
    exact h.consecutive
  headers := h.headers
  unfinished := h.unfinished.yield hcls

/-- In sync, with the id of the last event known: the next id. -/
theorem next_of_not_outOfSync {lastEventID id : Int} (hlast : client.lastEventID = some lastEventID)
    (hid : event.id = some id) (h : client.outOfSync event = false) : id = lastEventID + 1 := by
  simp only [SSEClient.outOfSync, hlast, hid] at h
  split at h
  · omega
  · cases h

/-- An event with the next id, or the first event with an id. -/
theorem SequenceInv.numbered (h : SequenceInv client) {id : Int} (hid : event.id = some id)
    (hcls : event.cls ≠ .shutdown) (hsync : client.outOfSync event = false) :
    SequenceInv (({ client with lastEventID := some id } : SSEClient).observe (.yield event)) where
  last := (lastDelivered_yield hid).symm
  consecutive := by
    have hne : event.id ≠ none := by simp [hid]
    show (delivered (.yield event :: client.trace)).IsChain Next
    rw [delivered_yield hne, List.isChain_append]
    refine ⟨h.consecutive, List.isChain_singleton _, ?_⟩
    intro event' hlast event'' hhead
    obtain rfl : event = event'' := by simpa using hhead
    -- the one before it has the id that the client remembers
    have hlast' : client.lastEventID = event'.id := by
      rw [h.last, lastDelivered, Option.mem_def.mp hlast]
      rfl
    obtain ⟨lastEventID, heq⟩ : ∃ lastEventID, event'.id = some lastEventID := by
      apply Option.ne_none_iff_exists'.mp
      exact (mem_delivered (List.mem_of_getLast? hlast)).1
    refine ⟨lastEventID, heq, ?_⟩
    rw [hid, next_of_not_outOfSync (hlast'.trans heq) hid hsync]
  headers := h.headers
  unfinished := h.unfinished.yield hcls

/-- What becomes of an event. -/
inductive Handled (client : SSEClient) (event : Event) : SSEClient × Option StreamEnd → Prop where
  | shutdown (hcls : event.cls = .shutdown) : Handled client event (client, some (.serverShutdown event))
  | plain (hcls : event.cls ≠ .shutdown) (hid : event.id = none) :
      Handled client event (client.observe (.yield event), none)
  | again {id : Int} (hcls : event.cls ≠ .shutdown) (hid : event.id = some id) (hlast : some id = client.lastEventID) :
      Handled client event (client, none)
  | desynced (hcls : event.cls ≠ .shutdown) : Handled client event (client, some .desynced)
  | numbered {id : Int} (hcls : event.cls ≠ .shutdown) (hid : event.id = some id)
      (hsync : client.outOfSync event = false) :
      Handled client event (({ client with lastEventID := some id } : SSEClient).observe (.yield event), none)

theorem handle_handled (client : SSEClient) (event : Event) : Handled client event (client.handle event) := by
  unfold SSEClient.handle
  split
  · exact .shutdown ‹_›
  rename_i hcls
  split
  · exact .plain hcls ‹_›
  rename_i id hid
  split
  · exact .again hcls hid ‹_›
  split
  · exact .desynced hcls
  · rename_i hsync
    exact .numbered hcls hid (by simpa using hsync)

/-- One event. The stream ends in a shutdown only with a shutdown event. -/
theorem SequenceInv.handle (h : SequenceInv client) (event : Event) :
    SequenceInv (client.handle event).1 ∧
      ∀ e, (client.handle event).2 = some (.serverShutdown e) → e.cls = .shutdown := by
  have hhandled := handle_handled client event
  generalize client.handle event = out at hhandled
  cases hhandled with
  | shutdown hcls =>
      refine ⟨h, ?_⟩
      rintro e ⟨⟩
      exact hcls
  | plain hcls hid => exact ⟨h.plain hid hcls, fun e he => by cases he⟩
  | again hcls hid hlast => exact ⟨h, fun e he => by cases he⟩
  | desynced hcls => exact ⟨h, fun e he => by cases he⟩
  | numbered hcls hid hsync => exact ⟨h.numbered hid hcls hsync, fun e he => by cases he⟩

variable (parse : List Char → Except ParseError Event)

/-- All events of a connection. -/
theorem SequenceInv.stream (h : SequenceInv client) (hending : ∀ e, ending = .serverShutdown e → e.cls = .shutdown)
    (blobs : List (List Char)) :
    SequenceInv (client.stream parse ending blobs).1 ∧
      ∀ e, (client.stream parse ending blobs).2 = .serverShutdown e → e.cls = .shutdown := by
  induction blobs generalizing client with
  | nil => exact ⟨h, hending⟩
  | cons blob blobs ih =>
      unfold SSEClient.stream
      split
      · refine ⟨h, ?_⟩
        intro e he
        dsimp only at he
        split at he <;> cases he
      · rename_i event _
        obtain ⟨hinv, hshutdown⟩ := h.handle event
        split
        · rename_i client' ending' heq
          rw [heq] at hinv hshutdown
          exact ⟨hinv, fun e he => hshutdown e (congrArg some he)⟩
        · rename_i client' heq
          rw [heq] at hinv
          exact ih hinv

theorem streamEnd_shutdown (connection : Connection) (e : Event) (h : connection.streamEnd = .serverShutdown e) :
    e.cls = .shutdown := by
  unfold Connection.streamEnd at h
  split at h <;> cases h

/-- Between connections: the client goes on, or it has been shut down. -/
def Settled (client : SSEClient) : Prop := SequenceInv client ∨ client.shutdown = true ∧ InSequence client.trace

theorem SequenceInv.followed (h : SequenceInv client) : (V1.followed client.trace).IsChain Next := by
  rw [h.unfinished.followed_eq]
  exact h.consecutive

theorem SequenceInv.inSequence (h : SequenceInv client) : InSequence client.trace :=
  ⟨h.followed, h.headers, fun e he => h.unfinished e (List.mem_of_mem_tail he)⟩

theorem SequenceInv.finish (h : SequenceInv client) (hending : ∀ e, ending = .serverShutdown e → e.cls = .shutdown) :
    Settled (client.finish ending) := by
  cases ending with
  | exhausted => exact .inl h
  | desynced | jsonDecodeError | readTimeout | httpError | raised =>
      exact .inl ⟨h.last, h.consecutive, h.headers, h.unfinished⟩
  | serverShutdown event =>
      refine .inr ⟨rfl, ?_, h.headers, h.unfinished⟩
      show (V1.followed (.yield event :: client.trace)).IsChain Next
      rw [followed_shutdown (hending event rfl)]
      exact h.followed

/-- One connection. -/
theorem SequenceInv.follow (h : SequenceInv client) (connection : Connection) :
    Settled (client.follow parse connection) := by
  obtain ⟨hinv, hshutdown⟩ := h.connect.stream parse (streamEnd_shutdown connection)
    (read connection.chunks).items
  exact hinv.finish hshutdown

/-- Any number of connections. -/
theorem Settled.eventStream (h : Settled client) (connections : List Connection) :
    Settled (client.eventStream parse connections) := by
  induction connections generalizing client with
  | nil => exact h
  | cons connection connections ih =>
      unfold SSEClient.eventStream
      split
      · exact h
      split
      · exact h
      · rename_i hopen _
        rcases h with h | ⟨hshutdown, _⟩
        · exact ih (h.follow parse connection)
        · simp [hshutdown] at hopen

theorem SequenceInv.new : SequenceInv {} :=
  ⟨rfl, .nil, trivial, fun _ h => absurd h List.not_mem_nil⟩

end Sequence

/-- **The events come in sequence**, whatever the servers send over however many connections: the ids of the events
    that are yielded are consecutive, but for that of a shutdown event, after which nothing comes; and every request
    names the last event that was yielded before it. -/
theorem events_in_sequence (parse : List Char → Except ParseError Event) (connections : List Connection) :
    InSequence (SSEClient.eventStream parse {} connections).trace := by
  rcases Settled.eventStream parse (.inl SequenceInv.new) connections with h | ⟨_, h⟩
  · exact h.inSequence
  · exact h

/-- `parseFeed`, with a reading of decimal ids; nothing is taken for JSON. -/
def parseNote : List Char → Except ParseError Event :=
  parseFeed (List.map Char.toLower) (fun text => parseInt (String.ofList text)) (fun _ => false) (fun _ => none)
    (fun _ => none) 1000

/-- An event of an unknown type. -/
def note (id : Int) : Event := ⟨.unknown, ['x'], some id, some "note".toList, .nothing⟩

/-- A shutdown event, with the verdict and the conclusion that are taken where its data is no JSON. -/
def shutdownNote (id : Int) : Event :=
  ⟨.shutdown, ['x'], some id, some "shutdown".toList,
    .shutdown (.string "INCONCLUSIVE") (.string "FAILED") (.string "")⟩

/-- An event on the wire. -/
def eventBytes (type id : String) : Bytes := utf8 ("id: " ++ id ++ "\nevent: " ++ type ++ "\ndata: x\n\n").toList

def noteBytes (id : String) : Bytes := eventBytes "note" id

def shutdownBytes (id : String) : Bytes := eventBytes "shutdown" id

/-- The shutdown event skips an id. -/
def hasty : List Connection := [⟨[noteBytes "1", shutdownBytes "3"], .exhausted⟩]

/-- It is yielded, out of sequence. -/
theorem hasty_delivered : delivered (SSEClient.eventStream parseNote {} hasty).trace = [note 1, shutdownNote 3] := rfl

/-- What comes before it is in sequence. -/
theorem events_in_sequence_hasty :
    delivered (SSEClient.eventStream parseNote {} hasty).trace = [note 1, shutdownNote 3] ∧
      followed (SSEClient.eventStream parseNote {} hasty).trace = [note 1] ∧
      InSequence (SSEClient.eventStream parseNote {} hasty).trace :=
  ⟨hasty_delivered, rfl, events_in_sequence parseNote hasty⟩

/-! ## A server with a log -/

/-- The number of an event of the log. -/
def number (event : Event) : Int := event.id.getD 0

/-- The events of a connection that can be parsed. -/
def Connection.events (parse : List Char → Except ParseError Event) (connection : Connection) : List Event :=
  (read connection.chunks).items.filterMap fun blob => (parse blob).toOption

/-- Every shutdown event with an id comes in its place: what the log has before it are the events up to the last one
    that was sent, over this connection or, if there is none, before it. -/
def ShutdownsInPlace (log : List Event) : Option Int → List Event → Prop
  | _, [] => True
  | lastSent, event :: events =>
      (event.cls = .shutdown → event.id ≠ none →
          ∀ e ∈ log, number e < number event ↔ ∃ id, lastSent = some id ∧ number e ≤ id) ∧
        ShutdownsInPlace log (event.id <|> lastSent) events

/-- What a server that has the log sends when it is asked for the events after an id. -/
structure Served (log : List Event) (lastEventID : Option Int) (events : List Event) : Prop where
  /-- What has an id is in the log. -/
  logged : ∀ e ∈ events, e.id ≠ none → e ∈ log
  /-- Where no id was asked for, it begins with the first event. -/
  first : lastEventID = none → ∀ e, (events.filter (·.id.isSome)).head? = some e → log.head? = some e
  inPlace : ShutdownsInPlace log lastEventID events

/-- Everything that the client gets is served. -/
def Serves (parse : List Char → Except ParseError Event) (log : List Event) : SSEClient → List Connection → Prop
  | _, [] => True
  | client, connection :: connections =>
      if client.shutdown || client.raised then True
      else if client.connected then True
      else Served log client.lastEventID (connection.events parse) ∧
        Serves parse log (client.follow parse connection) connections

section Log

variable {log : List Event} {client : SSEClient} {event : Event} {events : List Event} {ending : StreamEnd}
  {lastEventID : Option Int} {parse : List Char → Except ParseError Event}

/-- What has been yielded is the log up to the last id. -/
structure ReadsLog (log : List Event) (client : SSEClient) : Prop where
  fresh : client.lastEventID = none → delivered client.trace = []
  read : ∀ id, client.lastEventID = some id → delivered client.trace = upTo number log id

theorem ReadsLog.delivered_prefix (hlog : Increasing number log) (h : ReadsLog log client) :
    delivered client.trace <+: log := by
  cases hlast : client.lastEventID with
  | none =>
      rw [h.fresh hlast]
      exact List.nil_prefix
  | some id =>
      rw [h.read id hlast]
      exact upTo_prefix hlog id

/-- The first event of the log. -/
theorem upTo_head (hlog : Increasing number log) (h : log.head? = some event) :
    upTo number log (number event) = [event] := by
  cases log with
  | nil => cases h
  | cons e log =>
      obtain rfl : e = event := by simpa using h
      obtain ⟨hlt, -⟩ := List.pairwise_cons.mp hlog
      rw [upTo, List.filter_cons_of_pos (by simp), List.filter_eq_nil_iff.mpr]
      intro e' he' hle
      exact absurd (hlt e' he') (not_lt.mpr (of_decide_eq_true hle))

/-- An event of the log is read next: the first one, or one with nothing unread before it. -/
theorem ReadsLog.next (hlog : Increasing number log) (h : ReadsLog log client) (hmem : event ∈ log)
    (hfirst : client.lastEventID = none → log.head? = some event)
    (hnext : ∀ id, client.lastEventID = some id →
      id < number event ∧ ∀ e ∈ log, number e < number event → number e ≤ id) :
    delivered client.trace ++ [event] = upTo number log (number event) := by
  cases hlast : client.lastEventID with
  | none =>
      rw [h.fresh hlast, upTo_head hlog (hfirst hlast)]
      rfl
  | some id =>
      obtain ⟨hlt, hprev⟩ := hnext id hlast
      rw [h.read id hlast, upTo_read hlog hmem hlt hprev]

/-- A numbered event that is yielded is the next one of the log. -/
theorem ReadsLog.numbered (hlog : Increasing number log) (h : ReadsLog log client) {id : Int} (hid : event.id = some id)
    (hsync : client.outOfSync event = false) (hmem : event ∈ log)
    (hfirst : client.lastEventID = none → log.head? = some event) :
    ReadsLog log (({ client with lastEventID := some id } : SSEClient).observe (.yield event)) where
  fresh heq := by cases heq
  read id' heq := by
    cases heq
    have hne : event.id ≠ none := by simp [hid]
    have hnumber : number event = id := by simp [number, hid]
    show delivered (.yield event :: client.trace) = upTo number log id
    rw [delivered_yield hne, ← hnumber]
    apply h.next hlog hmem hfirst
    intro lastEventID hlast
    -- ids are integers: whatever comes before the next one has been read
    have hnext : number event = lastEventID + 1 := hnumber.trans (next_of_not_outOfSync hlast hid hsync)
    refine ⟨by omega, ?_⟩
    intro e _ hlt
    omega

/-- An event without an id, or one that the client has already. -/
theorem Served.tail (h : Served log lastEventID (event :: events))
    (hskip : event.id = none ∨ event.id = lastEventID) : Served log lastEventID events where
  logged e he := h.logged e (List.mem_cons_of_mem _ he)
  first hnone e he := by
    have hid : event.id = none := by
      rcases hskip with hid | hid
      · exact hid
      · exact hid.trans hnone
    apply h.first hnone
    rwa [List.filter_cons_of_neg (by simp [hid])]
  inPlace := by
    have hlast : (event.id <|> lastEventID) = lastEventID := by
      rcases hskip with hid | hid
      · rw [hid]
        rfl
      · rw [hid]
        cases lastEventID <;> rfl
    rw [← hlast]
    exact h.inPlace.2

/-- An event with a new id, which is known from now on. -/
theorem Served.known {id : Int} (h : Served log lastEventID (event :: events)) (hid : event.id = some id) :
    Served log (some id) events where
  logged e he := h.logged e (List.mem_cons_of_mem _ he)
  first hnone := by cases hnone
  inPlace := by
    have htail := h.inPlace.2
    rw [hid] at htail
    exact htail

/-- An event with an id is in the log, and its first event if no id is known. -/
theorem Served.head (h : Served log lastEventID (event :: events)) (hid : event.id ≠ none) :
    event ∈ log ∧ (lastEventID = none → log.head? = some event) := by
  refine ⟨h.logged event List.mem_cons_self hid, ?_⟩
  intro hnone
  apply h.first hnone
  rw [List.filter_cons_of_pos (by simpa [Option.isSome_iff_ne_none] using hid)]
  rfl

/-- A shutdown event in its place is the next one of the log. -/
theorem ReadsLog.shutdown (hlog : Increasing number log) (h : ReadsLog log client)
    (hserved : Served log client.lastEventID (event :: events)) (hcls : event.cls = .shutdown) (hid : event.id ≠ none) :
    delivered client.trace ++ [event] <+: log := by
  obtain ⟨hmem, hfirst⟩ := hserved.head hid
  have hplace := hserved.inPlace.1 hcls hid
  rw [h.next hlog hmem hfirst]
  · exact upTo_prefix hlog _
  intro id hlast
  constructor
  · -- otherwise it would come before itself
    by_contra hle
    exact lt_irrefl _ ((hplace event hmem).mpr ⟨id, hlast, not_lt.mp hle⟩)
  · intro e he hlt
    obtain ⟨id', hlast', hle⟩ := (hplace e he).mp hlt
    rw [hlast] at hlast'
    cases hlast'
    exact hle

/-- The events of a connection, up to a shutdown event, and that one too. -/
theorem ReadsLog.stream (hlog : Increasing number log) (h : ReadsLog log client) {blobs : List (List Char)}
    (hserved : Served log client.lastEventID (blobs.filterMap fun blob => (parse blob).toOption))
    (hending : ∀ e, ending ≠ .serverShutdown e) :
    ReadsLog log (client.stream parse ending blobs).1 ∧
      ∀ e, (client.stream parse ending blobs).2 = .serverShutdown e → e.id ≠ none →
        delivered (client.stream parse ending blobs).1.trace ++ [e] <+: log := by
  induction blobs generalizing client with
  | nil => exact ⟨h, fun e he => absurd he (hending e)⟩
  | cons blob blobs ih =>
      unfold SSEClient.stream
      split
      · refine ⟨h, ?_⟩
        intro e he
        dsimp only at he
        split at he <;> cases he
      rename_i event hevent
      have hsome : (parse blob).toOption = some event := by rw [hevent]; rfl
      rw [List.filterMap_cons_some (f := fun blob => (parse blob).toOption) hsome] at hserved
      have hhandled := handle_handled client event
      generalize client.handle event = out at hhandled
      cases hhandled with
      | shutdown hcls =>
          refine ⟨h, ?_⟩
          rintro e ⟨⟩ hid
          exact h.shutdown hlog hserved hcls hid
      | desynced hcls => exact ⟨h, fun e he => by cases he⟩
      | plain hcls hid =>
          refine ih ?_ (hserved.tail (.inl hid))
          have hsame : delivered (.yield event :: client.trace) = delivered client.trace := delivered_plain hid
          exact ⟨fun hnone => hsame.trans (h.fresh hnone), fun id hlast => hsame.trans (h.read id hlast)⟩
      | again hcls hid hlast => exact ih h (hserved.tail (.inr (hid.trans hlast)))
      | @numbered id hcls hid hsync =>
          have hne : event.id ≠ none := by simp [hid]
          obtain ⟨hmem, hfirst⟩ := hserved.head hne
          exact ih (h.numbered hlog hid hsync hmem hfirst) (hserved.known hid)

theorem streamEnd_ne_shutdown (connection : Connection) (e : Event) : connection.streamEnd ≠ .serverShutdown e := by
  unfold Connection.streamEnd
  split <;> exact fun h => by cases h

/-- Between connections: the client has read the log up to the last id, or it has been shut down. -/
def Reads (log : List Event) (client : SSEClient) : Prop :=
  ReadsLog log client ∨ client.shutdown = true ∧ delivered client.trace <+: log

theorem ReadsLog.finish (hlog : Increasing number log) (h : ReadsLog log client)
    (hshutdown : ∀ e, ending = .serverShutdown e → e.id ≠ none → delivered client.trace ++ [e] <+: log) :
    Reads log (client.finish ending) := by
  cases ending with
  | exhausted => exact .inl h
  | desynced | jsonDecodeError | readTimeout | httpError | raised => exact .inl ⟨h.fresh, h.read⟩
  | serverShutdown event =>
      refine .inr ⟨rfl, ?_⟩
      show delivered (.yield event :: client.trace) <+: log
      by_cases hid : event.id = none
      · rw [delivered_plain hid]
        exact h.delivered_prefix hlog
      · rw [delivered_yield hid]
        exact hshutdown event rfl hid

/-- One connection. -/
theorem ReadsLog.follow (hlog : Increasing number log) (h : ReadsLog log client) {connection : Connection}
    (hserved : Served log client.lastEventID (connection.events parse)) :
    Reads log (client.follow parse connection) := by
  have hconnect : ReadsLog log { client.observe (.connect client.lastEventID) with connected := true } :=
    ⟨h.fresh, h.read⟩
  obtain ⟨hread, hshutdown⟩ := hconnect.stream hlog hserved (streamEnd_ne_shutdown connection)
  exact hread.finish hlog hshutdown

/-- Any number of connections. -/
theorem Reads.eventStream (hlog : Increasing number log) (h : Reads log client) {connections : List Connection}
    (hserves : Serves parse log client connections) : Reads log (client.eventStream parse connections) := by
  induction connections generalizing client with
  | nil => exact h
  | cons connection connections ih =>
      unfold SSEClient.eventStream
      unfold Serves at hserves
      split
      · exact h
      rename_i hopen
      rw [if_neg hopen] at hserves
      split
      · exact h
      rename_i hconnected
      rw [if_neg hconnected] at hserves
      obtain ⟨hserved, hserves⟩ := hserves
      rcases h with h | ⟨hshutdown, _⟩
      · exact ih (h.follow hlog hserved) hserves
      · simp [hshutdown] at hopen

end Log

/-- **What is yielded is a prefix of the log**, the shutdown event included, if the ids of the log increase, the server
    sends nothing else, begins with the first event when it is not told where to resume, and sends a shutdown event
    only in its place. It may resume anywhere, repeat and leave out other events, and break connections as it likes. -/
theorem delivers_prefix (parse : List Char → Except ParseError Event) (log : List Event)
    (hlog : Increasing number log) (connections : List Connection) (hserves : Serves parse log {} connections) :
    delivered (SSEClient.eventStream parse {} connections).trace <+: log := by
  have hnew : ReadsLog log {} := ⟨fun _ => rfl, fun id h => by cases h⟩
  rcases Reads.eventStream hlog (.inl hnew) hserves with h | ⟨_, h⟩
  · exact h.delivered_prefix hlog
  · exact h

/-- One of four events is missing at first. -/
def gap : List Connection :=
  [⟨[noteBytes "1", noteBytes "3"], .exhausted⟩, ⟨[noteBytes "2", noteBytes "3", shutdownBytes "4"], .exhausted⟩]

/-- The client finds the gap, and gets the missing event and those after it. -/
theorem delivers_prefix_gap :
    Serves parseNote [note 1, note 2, note 3, shutdownNote 4] {} gap ∧
      delivered (SSEClient.eventStream parseNote {} gap).trace = [note 1, note 2, note 3, shutdownNote 4] ∧
      delivered (SSEClient.eventStream parseNote {} gap).trace <+: [note 1, note 2, note 3, shutdownNote 4] := by
  have hserves : Serves parseNote [note 1, note 2, note 3, shutdownNote 4] {} gap := by
    have hfirst : Served [note 1, note 2, note 3, shutdownNote 4] none [note 1, note 3] :=
      ⟨by simp, fun _ e he => he, by simp [ShutdownsInPlace, note]⟩
    have hsecond : Served [note 1, note 2, note 3, shutdownNote 4] (some 1) [note 2, note 3, shutdownNote 4] :=
      ⟨by simp, fun hnone => (by cases hnone), by simp [ShutdownsInPlace, note, shutdownNote, number]⟩
    exact ⟨hfirst, hsecond, trivial⟩
  have hlog : Increasing number [note 1, note 2, note 3, shutdownNote 4] := by
    simp [Increasing, number, note, shutdownNote]
  exact ⟨hserves, rfl, delivers_prefix parseNote _ hlog gap hserves⟩

/-- A shutdown event that is sent too early: everything that is sent is in the log, the first event comes first, and
    yet the second one is lost. -/
theorem loses_before_shutdown :
    (∀ e ∈ [note 1, shutdownNote 3], e ∈ [note 1, note 2, shutdownNote 3]) ∧
      ¬ delivered (SSEClient.eventStream parseNote {} hasty).trace <+: [note 1, note 2, shutdownNote 3] := by
  rw [hasty_delivered]
  simp [note, shutdownNote]

end Etos.Sse.V1
