import Etos.Sse.Events

/-!
# `Sse.Client` — the Python client

`SSEClient` of `etos_client.sse.v2alpha`, as far as it handles events. What comes over a connection has been split into
events, and data that is JSON has been decoded. `parse` of `etos_lib`, which makes an event of the class with the name,
is a parameter.

The client's requests and what it yields are recorded in a trace, newest first, as is the message it logs when the
server has reported an error that it cannot recover from. How the client connects and how long it waits is left out.
-/

namespace Etos.Sse

/-- The classes of `etos_lib.messaging.events`. -/
inductive EventClass where
  | known (event : EventType)
  | error
  | unknown
  deriving DecidableEq

/-- `etos_lib.messaging.events.Event`. -/
structure ParsedEvent where
  id : Option Int
  kind : EventClass
  data : Data

/-- What can be observed of the client. -/
inductive ClientObs where
  /-- A connection was asked for; without the header if `lastEventID` is `none`. -/
  | connect (lastEventID : Option Int)
  | yield (event : ParsedEvent)
  /-- `Error from the SSE server, cannot continue`. -/
  | cannotContinue (reason : Data)

/-- How the stream of a connection ends: it is read to its end, or an exception is raised. -/
inductive StreamEnd where
  | ended
  | retryableServerError (reason : Data)
  | nonRetryableServerError (reason : Data)
  | serverShutdown

structure SSEClient where
  lastEventID : Option Int := none
  shutdown : Bool := false
  trace : List ClientObs := []

namespace SSEClient

def observe (client : SSEClient) (o : ClientObs) : SSEClient := { client with trace := o :: client.trace }

/-- `__already_received`. -/
def alreadyReceived (client : SSEClient) (event : ParsedEvent) : Bool :=
  match client.lastEventID, event.id with
  | some lastEventID, some id => id ≤ lastEventID
  | _, _ => false

/-- `__update_progress`. -/
def updateProgress (client : SSEClient) (ping : ParsedEvent) : SSEClient :=
  match ping.id, client.lastEventID with
  | none, _ => client
  | some id, none => { client with lastEventID := some id }
  | some id, some lastEventID => if id > lastEventID then { client with lastEventID := some id } else client

/-- `__raise_server_error`. -/
def raiseServerError (data : Data) : StreamEnd :=
  match data with
  | .json (.object fields) =>
      let reason := ((fields.lookup "reason").map Data.json).getD data
      match fields.lookup "retry" with
      | some (.bool false) => .nonRetryableServerError reason
      | _ => .retryableServerError reason
  | _ => .retryableServerError data

variable (parse : SseEvent → ParsedEvent)

/-- One round of the loop of `__stream`: the client, and the exception that was raised. -/
def handle (client : SSEClient) (e : SseEvent) : SSEClient × Option StreamEnd :=
  let event := parse e
  match event.kind with
  | .known .ping => (client.updateProgress event, none)
  | .error => (client, some (raiseServerError event.data))
  | kind =>
      match event.id with
      | none => (client.observe (.yield event), none)
      | some id =>
          if client.alreadyReceived event then (client, none)
          else
            let client := ({ client with lastEventID := some id } : SSEClient).observe (.yield event)
            if kind = .known .shutdown then (client, some .serverShutdown) else (client, none)

/-- `__stream`. -/
def stream (client : SSEClient) : List SseEvent → SSEClient × StreamEnd
  | [] => (client, .ended)
  | e :: events =>
      match handle parse client e with
      | (client, some ending) => (client, ending)
      | (client, none) => stream client events

/-- What `event_stream` does when a stream has ended: `reset` changes nothing that is modelled here, `close` shuts the
    client down. -/
def finish (client : SSEClient) : StreamEnd → SSEClient
  | .ended | .retryableServerError _ => client
  | .nonRetryableServerError reason => { client.observe (.cannotContinue reason) with shutdown := true }
  | .serverShutdown => { client with shutdown := true }

/-- One round of the loop of `event_stream`: connect, and follow the stream. -/
def follow (client : SSEClient) (events : List SseEvent) : SSEClient :=
  let (client, ending) := stream parse (client.observe (.connect client.lastEventID)) events
  client.finish ending

/-- `event_stream`, over the connections so far. -/
def eventStream (client : SSEClient) : List (List SseEvent) → SSEClient
  | [] => client
  | events :: rest => if client.shutdown then client else eventStream (follow parse client events) rest

end SSEClient

end Etos.Sse
