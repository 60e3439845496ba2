import Etos.Sse.Decoding

/-!
# `Sse.ProtocolV1` — from fields to events

`etos_client.sse.v1.protocol`. `parse` looks for the type of an event among the members of its own module, and calls
what it finds. The module has more members than the event classes: what it imports, what every module has, and `parse`
itself. Types with these names raise a `TypeError`, or a `RecursionError` for `parse`; the names of the event classes
and all other types are fine (**`parse_total_iff`**).

Parameters are `str.lower`, of which only the ASCII part is relied on, `int`, `json.loads` as in `Sse.Decoding`, and
`localTime`: the timestamp of a message in the client's time zone, if it has the expected format.
-/

namespace Etos.Sse.V1

open Encoding Text

/-! ## Events -/

/-- The exceptions of parsing an event. -/
inductive ParseError where
  | valueError | typeError | attributeError | jsonDecodeError | recursionError
  /-- JSON that is nested too deep, or has a number that is too long. -/
  | notLoaded
  deriving DecidableEq

/-- `Event` of `etos_client.shared.events`, and the classes of the module. -/
inductive EventClass where
  | event | serverEvent | userEvent | ping | shutdown | error | unknown | message | report | artifact
  deriving DecidableEq

/-- The attributes that some classes add. -/
inductive Payload where
  | nothing
  | shutdown (verdict conclusion description : Json)
  | message (message : Json) (level : List Char) (name : Json) (datestring : List Char)
  | file (file : Json)

/-- An event, without the time at which it was received. -/
structure Event where
  cls : EventClass
  data : List Char
  id : Option Int
  event : Option (List Char)
  payload : Payload

/-- `dict.get`; only dictionaries have it. -/
def get (key : String) (default : Json) : Json → Except ParseError Json
  | .object fields => .ok ((fields.lookup key).getD default)
  | _ => .error .attributeError

section Parameters

variable (lower : List Char → List Char) (int : List Char → Option Int) (refuses : String → Bool)
  (loads : String → Option Json) (localTime : List Char → Option (List Char))

/-- `json.loads`. -/
def load (text : List Char) : Except ParseError Json :=
  if refuses (String.ofList text) then .error .notLoaded
  else
    match loads (String.ofList text) with
    | some value => .ok value
    | none => .error .jsonDecodeError

/-- `.lower()`, of a value that should be a text. -/
def lowerJson : Json → Except ParseError (List Char)
  | .string s => .ok (lower s.toList)
  | _ => .error .attributeError

/-- `datetime.strptime` and the conversions after it. -/
def dateString : Json → Except ParseError (List Char)
  | .string s =>
      match localTime s.toList with
      | some datestring => .ok datestring
      | none => .error .valueError
  | _ => .error .typeError

/-- The `try` block of `Shutdown`. -/
def shutdownData (data : List Char) : Except ParseError Payload := do
  let value ← load refuses loads data
  let verdict ← get "verdict" (.string "INCONCLUSIVE") value
  let conclusion ← get "conclusion" (.string "FAILED") value
  let description ← get "description" (.string "") value
  .ok (.shutdown verdict conclusion description)

/-- What `Message` makes of its data. -/
def messageData (data : List Char) : Except ParseError Payload := do
  let message ← load refuses loads data
  let level ← get "levelname" (.string "INFO") message
  let level ← lowerJson lower level
  let name ← get "name" .null message
  let timestamp ← get "@timestamp" .null message
  let datestring ← dateString localTime timestamp
  .ok (.message message level name datestring)

/-- What a class makes of its data. -/
def EventClass.payload (data : List Char) : EventClass → Except ParseError Payload
  | .shutdown =>
      match shutdownData refuses loads data with
      | .error .jsonDecodeError => .ok (.shutdown (.string "INCONCLUSIVE") (.string "FAILED") (.string ""))
      | .error .attributeError => .ok (.shutdown (.string "INCONCLUSIVE") (.string "FAILED") (.string ""))
      | result => result
  | .message => messageData lower refuses loads localTime data
  | .report => (load refuses loads data).map .file
  | .artifact => (load refuses loads data).map .file
  | _ => .ok .nothing

/-- `event.get("data", "")`. -/
def dataOf (event : EventFields) : List Char := (event.lookup dataKey).getD []

/-- `event.get("event", "")`. -/
def typeOf (event : EventFields) : List Char := (event.lookup "event".toList).getD []

/-- `event.get("id")`, and `int` of it. -/
def idOf (event : EventFields) : Except ParseError (Option Int) :=
  match event.lookup "id".toList with
  | none => .ok none
  | some text =>
      match int text with
      | some id => .ok (some id)
      | none => .error .valueError

/-- `__init__`. -/
def EventClass.init (cls : EventClass) (event : EventFields) : Except ParseError Event := do
  let id ← idOf int event
  let payload ← cls.payload lower refuses loads localTime (dataOf event)
  .ok { cls, data := dataOf event, id, event := event.lookup "event".toList, payload }

/-! ## Parsing -/

/-- What a member of the module is. -/
inductive Member where
  | eventClass (cls : EventClass)
  | parse
  /-- Modules and texts, which cannot be called, and classes that cannot be called with a dictionary. -/
  | other
  deriving DecidableEq

/-- `inspect.getmembers` of the module, by name. -/
def members : List (String × Member) :=
  [("Artifact", .eventClass .artifact), ("Error", .eventClass .error), ("Event", .eventClass .event),
   ("Message", .eventClass .message), ("Ping", .eventClass .ping), ("Report", .eventClass .report),
   ("ServerEvent", .eventClass .serverEvent), ("Shutdown", .eventClass .shutdown), ("Unknown", .eventClass .unknown),
   ("UserEvent", .eventClass .userEvent), ("ZoneInfo", .other), ("__builtins__", .other), ("__cached__", .other),
   ("__doc__", .other), ("__file__", .other), ("__loader__", .other), ("__name__", .other), ("__package__", .other),
   ("__spec__", .other), ("datetime", .other), ("inspect", .other), ("json", .other), ("parse", .parse),
   ("sys", .other)]

/-- The first member whose name is the type. -/
def memberOf (type : List Char) : Option (String × Member) :=
  members.find? fun m => lower type = lower m.1.toList

/-- `parse`, with a number of frames left on the stack. -/
def parse : Nat → EventFields → Except ParseError Event
  | 0, _ => .error .recursionError
  | frames + 1, event =>
      match memberOf lower (typeOf event) with
      | some (_, .eventClass cls) => cls.init lower int refuses loads localTime event
      | some (_, .parse) => parse frames event
      | some (_, .other) => .error .typeError
      | none => EventClass.unknown.init lower int refuses loads localTime event

/-! ## What is expected -/

/-- Is the member one of the event classes of the protocol? The base class, which is imported, may count as one
    (`shared`) or not. -/
def Member.isDefined (shared : Bool) : Member → Bool
  | .eventClass .event => shared
  | .eventClass _ => true
  | _ => false

/-- Ignoring case, the type is the name of such a class; or (`defined = false`) of something else. -/
def Names (shared defined : Bool) (type : List Char) : Prop :=
  ∃ m ∈ members, m.2.isDefined shared = defined ∧ lower type = lower m.1.toList

/-- The data is valid for the type: the class of that name can be made from it. -/
def DataValid (event : EventFields) : Prop :=
  ∀ m cls, memberOf lower (typeOf event) = some (m, .eventClass cls) →
    ∃ payload, cls.payload lower refuses loads localTime (dataOf event) = .ok payload

/-- The id, if there is one, is an integer. -/
def IdValid (event : EventFields) : Prop := ∀ text, event.lookup "id".toList = some text → (int text).isSome

/-- An event is returned, of class `Unknown` unless the type names a class. -/
def ParsesTo (shared : Bool) (event : EventFields) (result : Except ParseError Event) : Prop :=
  ∃ e, result = .ok e ∧ (¬ Names lower shared true (typeOf event) → e.cls = .unknown)

end Parameters


/-! ## Totality -/

variable {lower : List Char → List Char} {int : List Char → Option Int} {refuses : String → Bool}
  {loads : String → Option Json} {localTime : List Char → Option (List Char)}

/-- What is known of `str.lower`. -/
def LowersAscii (lower : List Char → List Char) : Prop :=
  ∀ s : List Char, (∀ c ∈ s, c.toNat < 128) → lower s = s.map Char.toLower

/-- No two members have the same name, ignoring case. -/
theorem member_unique (hlower : LowersAscii lower) {m m' : String × Member} (hm : m ∈ members) (hm' : m' ∈ members)
    (h : lower m.1.toList = lower m'.1.toList) : m = m' := by
  have hall : members.all (fun m => m.1.toList.all fun c => c.toNat < 128) = true := by decide +kernel
  have hascii : ∀ m ∈ members, ∀ c ∈ m.1.toList, c.toNat < 128 := fun m hm =>
    List.all_iff_forall_prop.mp (List.all_eq_true.mp hall m hm)
  have hunique : ∀ m ∈ members, ∀ m' ∈ members,
      m.1.toList.map Char.toLower = m'.1.toList.map Char.toLower → m = m' := by decide +kernel
  rw [hlower _ (hascii m hm), hlower _ (hascii m' hm')] at h
  exact hunique m hm m' hm' h

theorem memberOf_eq_some {type : List Char} {m : String × Member} (h : memberOf lower type = some m) :
    m ∈ members ∧ lower type = lower m.1.toList :=
  ⟨List.mem_of_find?_eq_some h, by simpa using List.find?_some h⟩

/-- What a type names, if it names a member. -/
theorem names_iff_of_memberOf (hlower : LowersAscii lower) {type : List Char} {m : String × Member}
    (h : memberOf lower type = some m) (shared defined : Bool) :
    Names lower shared defined type ↔ m.2.isDefined shared = defined := by
  obtain ⟨hm, htype⟩ := memberOf_eq_some h
  constructor
  · rintro ⟨m', hm', hdefined, htype'⟩
    rwa [member_unique hlower hm hm' (htype.symm.trans htype')]
  · exact fun hdefined => ⟨m, hm, hdefined, htype⟩

theorem not_names_of_memberOf_none {type : List Char} (h : memberOf lower type = none) (shared defined : Bool) :
    ¬ Names lower shared defined type := by
  rintro ⟨m, hm, -, htype⟩
  have hne := List.find?_eq_none.mp h m hm
  exact hne (decide_eq_true htype)

/-- A class can be made of valid data exactly if the id is valid. -/
theorem init_isOk_iff {cls : EventClass} {event : EventFields} {payload : Payload}
    (h : cls.payload lower refuses loads localTime (dataOf event) = .ok payload) :
    (∃ e, cls.init lower int refuses loads localTime event = .ok e) ↔ IdValid int event := by
  unfold EventClass.init IdValid idOf
  cases event.lookup "id".toList with
  | none =>
      refine iff_of_true ?_ nofun
      rw [h]
      exact ⟨_, rfl⟩
  | some text =>
      simp only [Option.some.injEq, forall_eq']
      cases int text with
      | none => exact iff_of_false nofun nofun
      | some id =>
          refine iff_of_true ?_ rfl
          rw [h]
          exact ⟨_, rfl⟩

theorem init_cls {cls : EventClass} {event : EventFields} {e : Event}
    (h : cls.init lower int refuses loads localTime event = .ok e) : e.cls = cls := by
  obtain ⟨id, -, h⟩ := bind_eq_ok h
  obtain ⟨payload, -, h⟩ := bind_eq_ok h
  cases h
  rfl

/-- A type that names `parse`: no number of frames is enough. -/
theorem parse_eq_recursionError {event : EventFields} {name : String}
    (h : memberOf lower (typeOf event) = some (name, .parse)) (frames : Nat) :
    parse lower int refuses loads localTime frames event = .error .recursionError := by
  induction frames with
  | zero => rfl
  | succ frames ih =>
      unfold parse
      rw [h]
      exact ih

/-- **When `parse` is total.** Events with valid data are parsed, and to `Unknown` if their type names no class, exactly
    if the id is valid and the type does not name another member of the module. -/
theorem parse_total_iff (hlower : LowersAscii lower) (shared : Bool) (frames : Nat) (event : EventFields)
    (hdata : DataValid lower refuses loads localTime event) :
    ParsesTo lower shared event (parse lower int refuses loads localTime (frames + 1) event) ↔
      IdValid int event ∧ ¬ Names lower shared false (typeOf event) := by
  unfold ParsesTo parse
  cases hmember : memberOf lower (typeOf event) with
  | none =>
      have hclass := not_names_of_memberOf_none hmember shared
      have hpayload : EventClass.unknown.payload lower refuses loads localTime (dataOf event) = .ok .nothing := rfl
      rw [and_iff_left (hclass false), ← init_isOk_iff hpayload]
      constructor
      · exact fun ⟨e, he, _⟩ => ⟨e, he⟩
      · exact fun ⟨e, he⟩ => ⟨e, he, fun _ => init_cls he⟩
  | some m =>
      obtain ⟨name, member⟩ := m
      rw [names_iff_of_memberOf hlower hmember, names_iff_of_memberOf hlower hmember]
      cases member with
      | other => exact iff_of_false nofun fun h => h.2 rfl
      | parse =>
          refine iff_of_false ?_ fun h => h.2 rfl
          rintro ⟨e, he, -⟩
          rw [parse_eq_recursionError hmember frames] at he
          cases he
      | eventClass cls =>
          obtain ⟨payload, hpayload⟩ := hdata name cls hmember
          rw [Bool.not_eq_true, Bool.not_eq_false, ← init_isOk_iff hpayload]
          constructor
          · rintro ⟨e, he, hcls⟩
            refine ⟨⟨e, he⟩, ?_⟩
            by_contra hother
            -- only `Event` is not counted, and `Unknown` is
            have hunknown : cls = .unknown := (init_cls he).symm.trans (hcls (Bool.not_eq_true _ ▸ hother))
            rw [hunknown] at hother
            exact hother rfl
          · rintro ⟨⟨e, he⟩, hdefined⟩
            refine ⟨e, he, fun hnot => ?_⟩
            rw [hdefined] at hnot
            cases hnot

/-! ## The client -/

/-- `__parse_event`. -/
def parseFeed (lower : List Char → List Char) (int : List Char → Option Int) (refuses : String → Bool)
    (loads : String → Option Json) (localTime : List Char → Option (List Char)) (frames : Nat) (feed : List Char) :
    Except ParseError Event :=
  match (splitlines strBreaks feed).foldlM addField [] with
  | .error _ => .error .valueError
  | .ok event => parse lower int refuses loads localTime frames event

/-- `event_stream` reconnects after these. All others end it. -/
def ParseError.handled : ParseError → Bool
  | .jsonDecodeError => true
  | _ => false

/-! ## Two events -/

/-- `str.lower` of ASCII. -/
theorem lowersAscii_toLower : LowersAscii (List.map Char.toLower) := fun _ _ => rfl

/-- A type that is not known. -/
def newEvent : EventFields := [("id".toList, "1".toList), ("event".toList, "Status".toList), (dataKey, "x".toList)]

/-- It is parsed, with the limit of 1000 frames. -/
theorem newEvent_parsed : ParsesTo (List.map Char.toLower) false newEvent
    (parse (List.map Char.toLower) (fun _ => some 1) (fun _ => false) (fun _ => none) (fun _ => none) 1000
      newEvent) := by
  have hnone : memberOf (List.map Char.toLower) (typeOf newEvent) = none := by decide +kernel
  refine (parse_total_iff lowersAscii_toLower false 999 newEvent ?_).mpr ⟨fun _ _ => rfl, ?_⟩
  · intro m cls h
    rw [hnone] at h
    cases h
  · exact not_names_of_memberOf_none hnone false false

/-- An event of type `parse`. -/
def recursiveEvent : EventFields := [("id".toList, "1".toList), ("event".toList, "parse".toList), (dataKey, [])]

/-- Its data is valid, for no class has the name, and it is not parsed. -/
theorem recursiveEvent_raises :
    DataValid (List.map Char.toLower) (fun _ => false) (fun _ => none) (fun _ => none) recursiveEvent ∧
    ¬ ∃ e, parse (List.map Char.toLower) (fun _ => some 1) (fun _ => false) (fun _ => none) (fun _ => none) 1000
      recursiveEvent = .ok e := by
  have hparse : memberOf (List.map Char.toLower) (typeOf recursiveEvent) = some ("parse", .parse) := by decide +kernel
  constructor
  · intro m cls h
    rw [hparse] at h
    cases h
  · rintro ⟨e, he⟩
    rw [parse_eq_recursionError hparse] at he
    cases he

end Etos.Sse.V1
