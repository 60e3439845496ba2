import Etos.Api.Text

/-!
# `Sse.Events` — events on the wire

`pkg/messaging/events` and the decoding of `pkg/messaging/subscriber`. The SSE library hands over an event with its
`id`, `event` and `data` fields; data that is JSON has been decoded, other data is raw text. `Parse` reads the data into
the struct of the event's type, which fails when a field of the struct has the wrong type.
-/

namespace Etos.Sse

/-! ## JSON -/

/-- A JSON value as Go decodes it. The fields of an object are those of a map: no key twice, and sorted when they are
    written again. -/
inductive Json where
  | null
  | bool (b : Bool)
  | number (text : String)
  | string (s : String)
  | array (items : List Json)
  | object (fields : List (String × Json))

/-- The data of an event: text that is not JSON, or a value. -/
inductive Data where
  | raw (text : String)
  | json (value : Json)

/-- Simple case folding to ASCII letters: besides the capitals, the long s and the Kelvin sign fold to one. -/
def foldRune (c : Char) : Char :=
  if c = Char.ofNat 0x17F then 's' else if c = Char.ofNat 0x212A then 'k' else c.toLower

/-- `encoding/json` matches the keys of an object with the names of struct fields without regard to case. -/
def matchesField (key name : String) : Bool := key.toList.map foldRune = name.toList.map foldRune

/-- The type of a struct field. -/
inductive FieldType where
  | string | bool
  /-- `map[string]string`. -/
  | strings

/-- Can the value be decoded into a field of this type? `null` leaves a field as it is. -/
def FieldType.accepts : FieldType → Json → Bool
  | _, .null => true
  | .string, .string _ => true
  | .bool, .bool _ => true
  | .strings, .object fields => fields.all fun f => match f.2 with
      | .string _ | .null => true
      | _ => false
  | _, _ => false

/-- Can the value be decoded into a struct with these fields? Other keys are ignored. -/
def acceptsStruct (struct : List (String × FieldType)) : Json → Bool
  | .null => true
  | .object fields => fields.all fun f =>
      match struct.find? (fun field => matchesField f.1 field.1) with
      | some field => field.2.accepts f.2
      | none => true
  | _ => false

/-! ## The events -/

/-- `events.EventType`. -/
inductive EventType where
  | message | artifact | report | shutdown | status | ping
  deriving DecidableEq, Repr

def EventType.name : EventType → String
  | .message => "message"
  | .artifact => "artifact"
  | .report => "report"
  | .shutdown => "shutdown"
  | .status => "status"
  | .ping => "ping"

/-- The event type with this name. -/
def EventType.ofName (name : String) : Option EventType :=
  [.message, .artifact, .report, .shutdown, .status, .ping].find? fun t => t.name = name

/-- `events.File`. -/
def fileStruct : List (String × FieldType) :=
  [("url", .string), ("name", .string), ("directory", .string), ("checksums", .strings)]

/-- `events.Result`. -/
def resultStruct : List (String × FieldType) :=
  [("conclusion", .string), ("verdict", .string), ("description", .string)]

/-- `events.ServiceStatus`. -/
def serviceStatusStruct : List (String × FieldType) :=
  [("name", .string), ("instance", .string), ("version", .string), ("status", .string), ("message", .string)]

/-- `events.Log`. -/
def logStruct : List (String × FieldType) :=
  [("name", .string), ("level", .string), ("message", .string), ("identifier", .string), ("@timestamp", .string),
    ("disableUserLog", .bool)]

/-- The level of a log: the last key that matches counts. -/
def levelOf (fields : List (String × Json)) : String :=
  fields.foldl (fun level f => match matchesField f.1 "level", f.2 with
    | true, .string s => s
    | _, _ => level) ""

/-- `Log.UnmarshalJSON`: a log without a level takes it from `levelname`. -/
def acceptsLog : Json → Bool
  | .object fields =>
      acceptsStruct logStruct (.object fields) &&
        (levelOf fields ≠ "" || match fields.lookup "levelname" with
          | none | some .null | some (.string _) => true
          | some _ => false)
  | value => acceptsStruct logStruct value

/-- Can the data be decoded into the struct of the event type? A ping takes anything; raw text is a JSON string to the
    decoder, which no struct takes. -/
def EventType.accepts : EventType → Data → Bool
  | .ping, _ => true
  | _, .raw _ => false
  | .message, .json value => acceptsLog value
  | .artifact, .json value => acceptsStruct fileStruct value
  | .report, .json value => acceptsStruct fileStruct value
  | .shutdown, .json value => acceptsStruct resultStruct value
  | .status, .json value => acceptsStruct serviceStatusStruct value

/-- A decoded event. An event without an id has the id -1. -/
structure Event where
  id : Int
  event : EventType
  data : Data

/-! ## Decoding -/

/-- `sse.Event`, as the SSE library decodes it. -/
structure SseEvent where
  id : String
  event : String
  data : Data

/-- `ServerError`. -/
structure ServerError where
  retry : Bool := true
  reason : String := ""
  deriving DecidableEq

/-- Why an event cannot be decoded. -/
inductive DecodeError where
  | badID (id : String)
  | unsupported (eventType : String)
  | unmarshal (eventType : EventType)
  | server (error : ServerError)

/-- `json.Unmarshal` of one key into a `ServerError`; `none` is a field of the wrong type. -/
def ServerError.setField (error : ServerError) (field : String × Json) : Option ServerError :=
  if matchesField field.1 "retry" then
    match field.2 with
    | .bool b => some { error with retry := b }
    | .null => some error
    | _ => none
  else if matchesField field.1 "reason" then
    match field.2 with
    | .string s => some { error with reason := s }
    | .null => some error
    | _ => none
  else some error

/-- `json.Unmarshal` into a retryable `ServerError`. -/
def ServerError.unmarshal : Json → Option ServerError
  | .null => some {}
  | .object fields => fields.foldlM setField {}
  | _ => none

/-- `parseServerError`: an error without a retry hint is retryable. The reason of data that is no `ServerError` is its
    text. -/
def parseServerError (text : Json → String) : Data → ServerError
  | .raw text => { reason := text }
  | .json value => (ServerError.unmarshal value).getD { reason := text value }

/-- `events.Parse`. -/
def Parse (id : Int) (eventType : String) (data : Data) : Except DecodeError Event :=
  match EventType.ofName eventType with
  | none => .error (.unsupported eventType)
  | some t => if t.accepts data then .ok ⟨id, t, data⟩ else .error (.unmarshal t)

/-- The id of an event; 0 if it has none. -/
def eventID (e : SseEvent) : Option Int := if e.id = "" then some 0 else parseInt e.id

/-- `strings.ToLower(sseEvent.Event)`. -/
def eventName (e : SseEvent) : String := String.ofList (e.event.toList.map lowerRune)

/-- `decode`. -/
def decode (text : Json → String) (e : SseEvent) : Except DecodeError (Int × Event) :=
  match eventID e with
  | none => .error (.badID e.id)
  | some id =>
      if eventName e = "error" then .error (.server (parseServerError text e.data))
      else
        match Parse (if id = 0 then -1 else id) (eventName e) e.data with
        | .error err => .error err
        | .ok event => .ok (id, event)

end Etos.Sse
