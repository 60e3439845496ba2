import Etos.Encoding.Json
import Etos.Lists.Dict
import Etos.Sse.Events
import Etos.Sse.Feed
import Etos.Text.Python
import Mathlib.Data.Bool.AllAny

/-!
# `Sse.Decoding` — does the Python client decode what was encoded?

An event is sent as a line for each of its fields and an empty line. The client of `v2alpha` finds the empty lines in
the bytes (`Sse.Feed`), decodes what is between them, splits it into lines once more and each line at its first colon
(`__parse_event`). Three notions of a line meet: bytes are broken at CR, LF and CRLF; an empty line is LF alone; text is
broken at every line boundary of Unicode. So events with CRLF are never found, and a data string with, say, a line
separator in it is torn apart. **`decoding_inverts_iff`**: these are the only failures, besides ids and types that are
not stripped already, and data that `json.loads` fails on with something else than a `JSONDecodeError`.

`json.loads` is a parameter, in two parts: the texts it `refuses` so, and what it makes of the others.
-/

namespace Etos.Sse

open Encoding Etos.Lists Text

/-! ## Parsing -/

/-- The dictionary of an event, in the order its keys were set. -/
abbrev EventFields := List (List Char × List Char)

/-- `event.setdefault(_type, "")`, and `event[_type] += value`. -/
def EventFields.append (key value : List Char) (event : EventFields) : EventFields :=
  setItem key ((event.lookup key).getD [] ++ value) event

/-- One line of an event. -/
def addField (event : EventFields) (line : List Char) : Except Raised EventFields :=
  match splitOnce ':' line with
  | none => .error .valueError
  | some (type, value) => .ok (event.append type (strip value))

/-- What `__parse_event` hands over to `parse` of `etos_lib`: the fields, and the value of `data`; `Unknown()` if there
    is no data. -/
inductive ParsedFields where
  | unknown
  | event (fields : EventFields) (data : Data)

/-- `loads`, or the text if it is not JSON. -/
def loadData (loads : String → Option Json) (text : List Char) : Data :=
  match loads (String.ofList text) with
  | some value => .json value
  | none => .raw (String.ofList text)

def dataKey : List Char := "data".toList

namespace SSEClient

variable (refuses : String → Bool) (loads : String → Option Json)

/-- `__parse_event`. -/
def parseEvent (feed : List Char) : Except Raised ParsedFields :=
  match (splitlines strBreaks feed).foldlM addField [] with
  | .error e => .error e
  | .ok event =>
      match event.lookup dataKey with
      | none => .ok .unknown
      | some data =>
          if refuses (String.ofList data) then .error .notLoaded
          else .ok (.event event (loadData loads data))

/-- The loop of `__stream`, over blobs that end with an exception or not. -/
def parseAll (raised : Option Raised) : List (List Char) → Yielded ParsedFields
  | [] => ⟨[], raised⟩
  | feed :: feeds =>
      match parseEvent refuses loads feed with
      | .error e => ⟨[], some e⟩
      | .ok event => (parseAll raised feeds).cons event

/-- The events of a stream. -/
def parsed (chunks : List Bytes) : Yielded ParsedFields :=
  parseAll refuses loads (read chunks).raised (read chunks).items

end SSEClient

/-! ## Encoding -/

/-- An event to send. Its texts have no line ends. -/
structure WireEvent where
  id : List Char
  event : List Char
  data : List Char
  plain : ∀ c ∈ id ++ event ++ data, c ≠ '\r' ∧ c ≠ '\n'

inductive LineEnd where
  | lf
  | crlf

def LineEnd.text : LineEnd → List Char
  | .lf => ['\n']
  | .crlf => ['\r', '\n']

/-- The three lines of an event. -/
def WireEvent.lines (e : WireEvent) : List (List Char) :=
  ["id: ".toList ++ e.id, "event: ".toList ++ e.event, "data: ".toList ++ e.data]

/-- An event on the wire. -/
def WireEvent.encode (lineEnd : LineEnd) (e : WireEvent) : List Char :=
  e.lines.flatMap (· ++ lineEnd.text) ++ lineEnd.text

/-- What a server sends. -/
def wire (lineEnd : LineEnd) (events : List WireEvent) : Bytes := utf8 (events.flatMap (·.encode lineEnd))

/-- An event was parsed as it was sent. -/
def WireEvent.Received (loads : String → Option Json) (e : WireEvent) : ParsedFields → Prop
  | .unknown => False
  | .event fields data => fields.lookup "id".toList = some e.id ∧ fields.lookup "event".toList = some e.event ∧
      data = loadData loads (strip e.data)

/-- Nothing is raised, and every event is parsed as it was sent. -/
def Inverts (loads : String → Option Json) (events : List WireEvent) (y : Yielded ParsedFields) : Prop :=
  y.raised = none ∧ List.Forall₂ (WireEvent.Received loads) events y.items

/-- An event that the client gets as it is: no line boundaries in it, and no whitespace around its id and its type. -/
structure WireEvent.Legible (e : WireEvent) : Prop where
  boundaries : ∀ c ∈ e.id ++ e.event ++ e.data, isLineBoundary c = false
  id : strip e.id = e.id
  event : strip e.event = e.event

/-! ## Reading -/

/-- The lines of an event, and the empty line. -/
def WireEvent.allLines (e : WireEvent) : List (List Char) := e.lines ++ [[]]

/-- What is between two empty lines. -/
def WireEvent.feed (e : WireEvent) : List Char := e.lines.flatMap (· ++ ['\n'])

theorem WireEvent.encode_eq (lineEnd : LineEnd) (e : WireEvent) :
    e.encode lineEnd = e.allLines.flatMap (· ++ lineEnd.text) := by
  unfold encode allLines
  rw [List.flatMap_append, List.flatMap_singleton, List.nil_append]

/-- No line ends in a text. -/
def Plain (s : List Char) : Prop := ∀ c ∈ s, c ≠ '\r' ∧ c ≠ '\n'

theorem WireEvent.allLines_plain (e : WireEvent) : ∀ l ∈ e.allLines, Plain l := by
  have happend : ∀ {s t : List Char}, Plain s → Plain t → Plain (s ++ t) := by
    intro s t hs ht c hc
    exact (List.mem_append.mp hc).elim (hs c) (ht c)
  have hid : Plain e.id := fun c hc => e.plain c (by simp [hc])
  have hevent : Plain e.event := fun c hc => e.plain c (by simp [hc])
  have hdata : Plain e.data := fun c hc => e.plain c (by simp [hc])
  intro l hl
  simp only [allLines, lines, List.mem_append, List.mem_cons, List.not_mem_nil, or_false] at hl
  rcases hl with (rfl | rfl | rfl) | rfl
  · exact happend (List.all_iff_forall_prop.mp (by decide)) hid
  · exact happend (List.all_iff_forall_prop.mp (by decide)) hevent
  · exact happend (List.all_iff_forall_prop.mp (by decide)) hdata
  · exact fun c hc => nomatch hc

/-- The bytes of such a text are no breaks. -/
theorem Plain.bytes {s : List Char} (h : Plain s) : ∀ b ∈ utf8 s, byteBreaks.isBreak b = false := by
  intro b hb
  by_contra hbreak
  have hcases : b = 13 ∨ b = 10 := by simpa [byteBreaks, Bool.or_eq_false_iff, imp_iff_not_or] using hbreak
  have hlt : b < 128 := by rcases hcases with rfl | rfl <;> decide
  obtain ⟨c, hc, hval⟩ := exists_of_mem_utf8 hlt hb
  have hchar : c = '\r' ∨ c = '\n' := by
    rcases hcases with rfl | rfl
    · exact .inl (Char.ext (UInt32.toNat_inj.mp hval))
    · exact .inr (Char.ext (UInt32.toNat_inj.mp hval))
  exact hchar.elim (h c hc).1 (h c hc).2

theorem lines_lineEnd (lineEnd : LineEnd) (y : Bytes) :
    Text.lines byteBreaks (utf8 lineEnd.text ++ y) = utf8 lineEnd.text :: Text.lines byteBreaks y := by
  cases lineEnd with
  | lf => exact lines_of_lf
  | crlf => exact lines_crlf

/-- The lines that are sent are the lines that are received. -/
theorem lines_encoded (lineEnd : LineEnd) {ls : List (List Char)} (h : ∀ l ∈ ls, Plain l) :
    Text.lines byteBreaks (utf8 (ls.flatMap (· ++ lineEnd.text))) = ls.map fun l => utf8 (l ++ lineEnd.text) := by
  induction ls with
  | nil => exact lines_nil
  | cons l ls ih =>
      obtain ⟨hl, hls⟩ := List.forall_mem_cons.mp h
      rw [List.flatMap_cons, utf8_append, utf8_append, List.append_assoc,
        lines_append_break hl.bytes (lines_lineEnd lineEnd _), ih hls, ← utf8_append]
      rfl

/-- What the client makes lines of. -/
theorem lineBuffered_wire {lineEnd : LineEnd} {events : List WireEvent} {chunks : List Bytes}
    (h : chunks.flatten = wire lineEnd events) :
    SSEClient.lineBuffered [] chunks = (events.flatMap WireEvent.allLines).map fun l => utf8 (l ++ lineEnd.text) := by
  have hwire : wire lineEnd events = utf8 ((events.flatMap WireEvent.allLines).flatMap (· ++ lineEnd.text)) := by
    unfold wire
    rw [List.flatMap_assoc]
    exact congrArg utf8 (congrArg (List.flatMap · events) (funext fun e => e.encode_eq lineEnd))
  have hplain : ∀ l ∈ events.flatMap WireEvent.allLines, Plain l := by
    intro l hl
    obtain ⟨e, -, hl⟩ := List.mem_flatMap.mp hl
    exact e.allLines_plain l hl
  rw [SSEClient.lineBuffered_flatten, h, hwire, lines_encoded lineEnd hplain]
  refine complete_of_lf fun l hl => ?_
  obtain ⟨s, -, rfl⟩ := List.mem_map.mp hl
  rw [utf8_append]
  cases lineEnd with
  | lf => exact List.getLast?_concat
  | crlf =>
      rw [List.getLast?_append_of_ne_nil _ (by decide)]
      rfl

/-- Events with LF are found. -/
theorem read_lf {events : List WireEvent} {chunks : List Bytes} (h : chunks.flatten = wire .lf events) :
    SSEClient.read chunks = ⟨events.map WireEvent.feed, none⟩ := by
  unfold SSEClient.read
  rw [lineBuffered_wire h]
  clear h
  induction events with
  | nil => rfl
  | cons e events ih =>
      -- three lines that are not empty, and one that is
      have hline : ∀ s t : List Char, s ≠ [] → utf8 (s ++ t ++ LineEnd.lf.text) ≠ [10] := by
        intro s t hs heq
        have hlf : utf8 (s ++ t ++ LineEnd.lf.text) = utf8 ['\n'] := heq
        have hlength := congrArg List.length (utf8_injective hlf)
        have hpos := List.length_pos_of_ne_nil hs
        simp only [List.length_append, LineEnd.text, List.length_singleton] at hlength
        omega
      have hfeed : utf8 ("id: ".toList ++ e.id ++ LineEnd.lf.text) ++
          utf8 ("event: ".toList ++ e.event ++ LineEnd.lf.text) ++
            utf8 ("data: ".toList ++ e.data ++ LineEnd.lf.text) = utf8 e.feed := by
        rw [← utf8_append, ← utf8_append]
        simp [WireEvent.feed, WireEvent.lines, LineEnd.text]
      show blobs [] (utf8 ("id: ".toList ++ e.id ++ LineEnd.lf.text) ::
        utf8 ("event: ".toList ++ e.event ++ LineEnd.lf.text) :: utf8 ("data: ".toList ++ e.data ++ LineEnd.lf.text) ::
          [10] :: ((events.flatMap WireEvent.allLines).map fun l => utf8 (l ++ LineEnd.lf.text))) = _
      rw [blobs_line (hline _ _ (by decide)), blobs_line (hline _ _ (by decide)), blobs_line (hline _ _ (by decide)),
        blobs_empty, ih, List.nil_append, hfeed, yieldDecoded, decodeUtf8_utf8]
      rfl

/-- Events with CRLF are not: no line is LF alone. -/
theorem read_crlf {events : List WireEvent} {chunks : List Bytes} (h : chunks.flatten = wire .crlf events) :
    SSEClient.read chunks = ⟨[], none⟩ := by
  have hnone : ∀ (ls : List (List Char)) feed,
      blobs feed (ls.map fun l => utf8 (l ++ LineEnd.crlf.text)) = ⟨[], none⟩ := by
    intro ls
    induction ls with
    | nil => exact fun feed => rfl
    | cons l ls ih =>
        intro feed
        rw [List.map_cons, blobs_line, ih]
        intro heq
        have hlength := congrArg List.length heq
        rw [utf8_append, List.length_append] at hlength
        have htwo : (utf8 LineEnd.crlf.text).length = 2 := by decide
        rw [htwo] at hlength
        exact absurd hlength (by simp)
  unfold SSEClient.read
  rw [lineBuffered_wire h]
  exact hnone _ []

/-! ## Fields -/

theorem EventFields.lookup_append (key value k : List Char) (event : EventFields) :
    (event.append key value).lookup k =
      if k = key then some ((event.lookup key).getD [] ++ value) else event.lookup k := lookup_setItem ..

/-- The ink in the three fields of an event. -/
def EventFields.weight (event : EventFields) : Nat :=
  (["id".toList, "event".toList, dataKey].map fun key => ink ((event.lookup key).getD [])).sum

/-- A value adds no more than its own ink. -/
theorem EventFields.weight_append (key value : List Char) (event : EventFields) :
    (event.append key value).weight ≤ event.weight + ink value := by
  have hkey : ∀ k, ink (((event.append key value).lookup k).getD []) =
      ink ((event.lookup k).getD []) + if k = key then ink value else 0 := by
    intro k
    rw [lookup_append]
    split
    · rename_i h
      rw [h, Option.getD_some, ink_append]
    · rfl
  have hthree : (if "id".toList = key then ink value else 0) + (if "event".toList = key then ink value else 0) +
      (if dataKey = key then ink value else 0) ≤ ink value := by
    by_cases hid : "id".toList = key
    · subst hid
      rw [if_pos rfl, if_neg (by decide), if_neg (by decide)]
      omega
    · by_cases hevent : "event".toList = key
      · subst hevent
        rw [if_neg (by decide), if_pos rfl, if_neg (by decide)]
        omega
      · rw [if_neg hid, if_neg hevent]
        split <;> omega
  unfold weight
  simp only [List.map_cons, List.map_nil, List.sum_cons, List.sum_nil, hkey]
  omega

/-- A line has a colon, which is in no value. -/
theorem weight_addField {event event' : EventFields} {line : List Char} (h : addField event line = .ok event') :
    event'.weight + 1 ≤ event.weight + ink line := by
  unfold addField at h
  split at h
  · cases h
  · rename_i key value hsplit
    cases h
    have hline := (splitOnce_eq_some hsplit).1
    have hweight := EventFields.weight_append key (strip value) event
    rw [ink_strip] at hweight
    rw [hline, ink_append, ink_cons, if_neg (by decide)]
    omega

theorem weight_addFields {event event' : EventFields} {ls : List (List Char)}
    (h : ls.foldlM addField event = .ok event') : event'.weight + ls.length ≤ event.weight + (ls.map ink).sum := by
  induction ls generalizing event with
  | nil =>
      cases h
      exact Nat.le_refl _
  | cons line ls ih =>
      rw [List.foldlM_cons] at h
      obtain ⟨event₁, hfirst, hrest⟩ := bind_eq_ok h
      have h₁ := weight_addField hfirst
      have h₂ := ih hrest
      rw [List.length_cons, List.map_cons, List.sum_cons]
      omega

/-- The line of a field. -/
def named (key s : List Char) : List Char := key ++ ':' :: ' ' :: s

/-- The lines the client splits an event into. -/
theorem splitlines_feed (e : WireEvent) : splitlines strBreaks e.feed =
    (named "id".toList e.id).splitOnP isLineBoundary ++ ((named "event".toList e.event).splitOnP isLineBoundary ++
      (named dataKey e.data).splitOnP isLineBoundary) := by
  have hline : ∀ l ∈ e.allLines, ∀ y, splitlines strBreaks (l ++ strBreaks.lf :: y) =
      l.splitOnP isLineBoundary ++ splitlines strBreaks y :=
    fun l hl y => splitlines_append_lf (B := strBreaks) (e.allLines_plain l hl) y
  have hfeed : e.feed = named "id".toList e.id ++ strBreaks.lf :: (named "event".toList e.event ++
      strBreaks.lf :: (named dataKey e.data ++ strBreaks.lf :: [])) := by
    simp [WireEvent.feed, WireEvent.lines, named, dataKey, strBreaks]
  rw [hfeed, hline _ (by simp [WireEvent.allLines, WireEvent.lines, named]),
    hline _ (by simp [WireEvent.allLines, WireEvent.lines, named]),
    hline _ (by simp [WireEvent.allLines, WireEvent.lines, named, dataKey]), splitlines_nil, List.append_nil]

/-- The field that a line names, and the lines it is torn into. -/
theorem addFields_named {key s x : List Char} {xs : List (List Char)} (event : EventFields) (hcolon : ':' ∉ key)
    (hkey : ∀ c ∈ key, isLineBoundary c = false) (hs : s.splitOnP isLineBoundary = x :: xs) :
    ((named key s).splitOnP isLineBoundary).foldlM addField event =
      xs.foldlM addField (event.append key (strip x)) := by
  have hnamed : (named key s).splitOnP isLineBoundary = named key x :: xs := by
    have hbefore : ∀ c ∈ key ++ [':', ' '], isLineBoundary c = false := by
      intro c hc
      rcases List.mem_append.mp hc with hc | hc
      · exact hkey c hc
      · have hcases : c = ':' ∨ c = ' ' := by simpa using hc
        rcases hcases with rfl | rfl <;> decide
    have happend : ∀ t, named key t = key ++ [':', ' '] ++ t := fun t => by simp [named]
    rw [happend, splitOnP_append hbefore, hs, happend]
    rfl
  rw [hnamed, List.foldlM_cons]
  have hfirst : addField event (named key x) = .ok (event.append key (strip x)) := by
    unfold addField named
    rw [splitOnce_append hcolon]
    exact congrArg (fun value => Except.ok (event.append key value)) (strip_space x)
  rw [hfirst]
  rfl

/-- What a field weighs, and how many lines it is torn into. -/
theorem weight_named {key s : List Char} {event event' : EventFields} (hcolon : ':' ∉ key)
    (hkey : ∀ c ∈ key, isLineBoundary c = false)
    (h : ((named key s).splitOnP isLineBoundary).foldlM addField event = .ok event') :
    event'.weight + (s.splitOnP isLineBoundary).length ≤ event.weight + ink s + 1 := by
  obtain ⟨x, xs, hs⟩ := List.exists_cons_of_ne_nil (List.splitOnP_ne_nil isLineBoundary s)
  rw [addFields_named event hcolon hkey hs] at h
  have hrest := weight_addFields h
  have hfirst := event.weight_append key (strip x)
  have hink := ink_splitOnP s
  rw [hs, List.map_cons, List.sum_cons] at hink
  rw [ink_strip] at hfirst
  rw [hs, List.length_cons]
  omega

/-- **An event that comes through has no line boundaries**: each one costs a colon. -/
theorem boundaries_of_parsed {e : WireEvent} {event : EventFields}
    (h : (splitlines strBreaks e.feed).foldlM addField [] = .ok event) (hid : event.lookup "id".toList = some e.id)
    (hevent : event.lookup "event".toList = some e.event) (hdata : event.lookup dataKey = some (strip e.data)) :
    ∀ c ∈ e.id ++ e.event ++ e.data, isLineBoundary c = false := by
  rw [splitlines_feed, List.foldlM_append] at h
  obtain ⟨event₁, h₁, h⟩ := bind_eq_ok h
  rw [List.foldlM_append] at h
  obtain ⟨event₂, h₂, h₃⟩ := bind_eq_ok h
  have hw₁ := weight_named (by decide) (List.all_iff_forall_prop.mp (by decide)) h₁
  have hw₂ := weight_named (by decide) (List.all_iff_forall_prop.mp (by decide)) h₂
  have hw₃ := weight_named (by decide) (List.all_iff_forall_prop.mp (by decide)) h₃
  have hweight : event.weight = ink e.id + ink e.event + ink e.data := by
    unfold EventFields.weight
    simp only [List.map_cons, List.map_nil, List.sum_cons, List.sum_nil, hid, hevent, hdata, Option.getD_some,
      ink_strip]
    omega
  have hempty : EventFields.weight [] = 0 := by decide
  have hpos : ∀ s : List Char, 0 < (s.splitOnP isLineBoundary).length :=
    fun s => List.length_pos_of_ne_nil (List.splitOnP_ne_nil isLineBoundary s)
  have hp₁ := hpos e.id
  have hp₂ := hpos e.event
  have hp₃ := hpos e.data
  have hone₁ := length_splitOnP_eq_one (s := e.id) (by omega)
  have hone₂ := length_splitOnP_eq_one (s := e.event) (by omega)
  have hone₃ := length_splitOnP_eq_one (s := e.data) (by omega)
  intro c hc
  rcases List.mem_append.mp hc with hc | hc
  · exact (List.mem_append.mp hc).elim (hone₁ c) (hone₂ c)
  · exact hone₃ c hc

/-- Without line boundaries the fields are found. -/
theorem parsed_of_boundaries {e : WireEvent} (h : ∀ c ∈ e.id ++ e.event ++ e.data, isLineBoundary c = false) :
    (splitlines strBreaks e.feed).foldlM addField [] =
      .ok [("id".toList, strip e.id), ("event".toList, strip e.event), (dataKey, strip e.data)] := by
  have hsingle : ∀ s : List Char, s ⊆ e.id ++ e.event ++ e.data → s.splitOnP isLineBoundary = [s] :=
    fun s hs => List.splitOnP_eq_singleton fun c hc => h c (hs hc)
  have hid : ∀ c ∈ "id".toList, isLineBoundary c = false := List.all_iff_forall_prop.mp (by decide)
  have hevent : ∀ c ∈ "event".toList, isLineBoundary c = false := List.all_iff_forall_prop.mp (by decide)
  have hdata : ∀ c ∈ dataKey, isLineBoundary c = false := List.all_iff_forall_prop.mp (by decide)
  rw [splitlines_feed, List.foldlM_append,
    addFields_named [] (by decide) hid (hsingle e.id fun c hc => by simp [hc])]
  show ((named "event".toList e.event).splitOnP isLineBoundary ++
    (named dataKey e.data).splitOnP isLineBoundary).foldlM addField [("id".toList, strip e.id)] = _
  rw [List.foldlM_append, addFields_named _ (by decide) hevent (hsingle e.event fun c hc => by simp [hc])]
  show ((named dataKey e.data).splitOnP isLineBoundary).foldlM addField
    [("id".toList, strip e.id), ("event".toList, strip e.event)] = _
  rw [addFields_named _ (by decide) hdata (hsingle e.data fun c hc => by simp [hc])]
  rfl

/-! ## Round trips -/

theorem loadData_none (text : List Char) : loadData (fun _ => none) text = .raw (String.ofList text) := rfl

theorem ofList_injective {s t : List Char} (h : String.ofList s = String.ofList t) : s = t := by
  have hlist := congrArg String.toList h
  rwa [String.toList_ofList, String.toList_ofList] at hlist

variable {refuses : String → Bool}

/-- One event, whatever is taken for JSON. -/
theorem received_iff (e : WireEvent) :
    (∀ loads, ∃ p, SSEClient.parseEvent refuses loads e.feed = .ok p ∧ e.Received loads p) ↔
      e.Legible ∧ refuses (String.ofList (strip e.data)) = false := by
  constructor
  · intro h
    obtain ⟨p, hp, hreceived⟩ := h fun _ => none
    unfold SSEClient.parseEvent at hp
    split at hp
    · cases hp
    · rename_i event hevent
      split at hp
      · cases hp
        exact hreceived.elim
      · rename_i data hdata
        split at hp
        · cases hp
        · rename_i hloaded
          cases hp
          obtain ⟨hid, htype, hload⟩ := hreceived
          rw [loadData_none, loadData_none, Data.raw.injEq] at hload
          rw [hload, Bool.not_eq_true] at hloaded
          rw [ofList_injective hload] at hdata
          have hboundaries := boundaries_of_parsed hevent hid htype hdata
          rw [parsed_of_boundaries hboundaries] at hevent
          cases hevent
          exact ⟨⟨hboundaries, Option.some.inj hid, Option.some.inj htype⟩, hloaded⟩
  · rintro ⟨h, hloaded⟩ loads
    refine ⟨.event [("id".toList, strip e.id), ("event".toList, strip e.event), (dataKey, strip e.data)]
      (loadData loads (strip e.data)), ?_, ?_⟩
    · unfold SSEClient.parseEvent
      rw [parsed_of_boundaries h.boundaries]
      show (if refuses (String.ofList (strip e.data)) = true then _ else _) = _
      rw [hloaded]
      rfl
    · exact ⟨congrArg some h.id, congrArg some h.event, rfl⟩

/-- All events come through exactly if each does. -/
theorem inverts_parseAll (loads : String → Option Json) (events : List WireEvent) :
    Inverts loads events (SSEClient.parseAll refuses loads none (events.map WireEvent.feed)) ↔
      ∀ e ∈ events, ∃ p, SSEClient.parseEvent refuses loads e.feed = .ok p ∧ e.Received loads p := by
  induction events with
  | nil => exact iff_of_true ⟨rfl, .nil⟩ nofun
  | cons e events ih =>
      rw [List.map_cons, SSEClient.parseAll, List.forall_mem_cons, ← ih]
      cases hp : SSEClient.parseEvent refuses loads e.feed with
      | error raised =>
          refine iff_of_false (fun h => ?_) fun h => ?_
          · cases h.1
          · obtain ⟨⟨p, heq, -⟩, -⟩ := h
            cases heq
      | ok p =>
          constructor
          · rintro ⟨hraised, hitems⟩
            obtain ⟨hfirst, hrest⟩ := List.forall₂_cons.mp hitems
            exact ⟨⟨p, rfl, hfirst⟩, hraised, hrest⟩
          · rintro ⟨⟨p', heq, hfirst⟩, hraised, hrest⟩
            cases heq
            exact ⟨hraised, .cons hfirst hrest⟩

/-- **When decoding inverts encoding.** Events come through, whatever is taken for JSON and however the bytes are cut,
    exactly if they are sent with LF, have no line boundaries of Unicode in them, no whitespace around ids and types,
    and no data that `json.loads` refuses. -/
theorem decoding_inverts_iff (refuses : String → Bool) (lineEnd : LineEnd) (events : List WireEvent)
    (chunks : List Bytes) (h : chunks.flatten = wire lineEnd events) :
    (∀ loads, Inverts loads events (SSEClient.parsed refuses loads chunks)) ↔
      events = [] ∨
        lineEnd = .lf ∧ ∀ e ∈ events, e.Legible ∧ refuses (String.ofList (strip e.data)) = false := by
  cases lineEnd with
  | lf =>
      have hparsed : ∀ loads, SSEClient.parsed refuses loads chunks =
          SSEClient.parseAll refuses loads none (events.map WireEvent.feed) := by
        intro loads
        unfold SSEClient.parsed
        rw [read_lf h]
      simp only [hparsed, inverts_parseAll, true_and]
      constructor
      · exact fun hall => .inr fun e he => (received_iff e).mp fun loads => hall loads e he
      · rintro (rfl | hlegible) loads e he
        · cases he
        · exact (received_iff e).mpr (hlegible e he) loads
  | crlf =>
      have hparsed : ∀ loads, SSEClient.parsed refuses loads chunks = ⟨[], none⟩ := by
        intro loads
        unfold SSEClient.parsed
        rw [read_crlf h]
        rfl
      simp only [hparsed]
      constructor
      · intro hall
        obtain ⟨-, hitems⟩ := hall fun _ => none
        cases hitems
        exact .inl rfl
      · rintro (rfl | ⟨hlf, -⟩) loads
        · exact ⟨rfl, .nil⟩
        · cases hlf

/-- A message with a space in it. -/
def aMessage : WireEvent where
  id := "1".toList
  event := "message".toList
  data := "a b ".toList
  plain := List.all_iff_forall_prop.mp (by decide)

/-- It comes through with LF, in three chunks. -/
theorem aMessage_inverts :
    [(wire .lf [aMessage]).take 3, [], (wire .lf [aMessage]).drop 3].flatten = wire .lf [aMessage] ∧
      ∀ loads, Inverts loads [aMessage] (SSEClient.parsed (fun _ => false) loads
        [(wire .lf [aMessage]).take 3, [], (wire .lf [aMessage]).drop 3]) := by
  have hchunks : [(wire .lf [aMessage]).take 3, [], (wire .lf [aMessage]).drop 3].flatten = wire .lf [aMessage] := by
    decide +kernel
  refine ⟨hchunks, (decoding_inverts_iff (fun _ => false) .lf [aMessage] _ hchunks).mpr (.inr ⟨rfl, ?_⟩)⟩
  intro e he
  cases List.mem_singleton.mp he
  exact ⟨⟨List.all_iff_forall_prop.mp (by decide +kernel), by decide +kernel, by decide +kernel⟩, rfl⟩

/-- Data with a line separator in it. -/
def torn : WireEvent where
  id := "1".toList
  event := "message".toList
  data := "a\u2028b".toList
  plain := List.all_iff_forall_prop.mp (by decide)

/-- With CRLF the first event is not received. With LF the second one is an error: `b` is a line without a colon. -/
theorem crlf_lost_and_separator_raises :
    ¬ Inverts (fun _ => none) [aMessage] (SSEClient.parsed (fun _ => false) (fun _ => none) [wire .crlf [aMessage]]) ∧
    (SSEClient.parsed (fun _ => false) (fun _ => none) [wire .lf [torn]]).raised = some .valueError := by
  refine ⟨?_, by decide +kernel⟩
  rintro ⟨-, hitems⟩
  have hlost : SSEClient.parsed (fun _ => false) (fun _ => none) [wire .crlf [aMessage]] = ⟨[], none⟩ := by
    unfold SSEClient.parsed
    rw [read_crlf List.flatten_singleton]
    rfl
  rw [hlost] at hitems
  cases hitems

end Etos.Sse
