import Etos.Encoding.Json
import Etos.Encoding.Utf8
import Etos.Sse.Events

/-!
# `Messaging.Log` — log events as JSON

`pkg/messaging/events/message.go`. The fields of a log event and its extra fields share one JSON object. They are told
apart by their keys, twice: `encoding/json` matches keys with fields without regard to case, and what is left is found
by removing the exact keys. An extra field whose key is a field's up to case is therefore read into that field as well.
It must have the right type, and must not come after the field's own key (`Safe`); apart from that, and from texts that
are not UTF-8, numbers that are too large and nesting that is too deep, a log event is read back as it was
(**`log_survives_iff`**).

Texts of Go are bytes. `encode` is `json.Marshal` of an extra value, `parseFloat` the reading of numbers.
-/

namespace Etos.Messaging

open Encoding Etos.Lists

/-- A string of Go. Strings are compared byte by byte. -/
def GoString := List UInt8

instance : LinearOrder GoString := inferInstanceAs (LinearOrder (List UInt8))

/-- The bytes of a text. -/
def goString (s : String) : GoString := utf8 s.toList

/-- A text as it is written to JSON: what is not UTF-8 is replaced. -/
def written (s : GoString) : String := String.ofList (repaired s)

/-! ## Fields -/

/-- The fields of a `Log` that have a key. -/
inductive Field where
  | name | level | message | identifier | timestamp | disableUserLog
  deriving DecidableEq

def Field.all : List Field := [.name, .level, .message, .identifier, .timestamp, .disableUserLog]

def Field.key : Field → String
  | .name => "name"
  | .level => "level"
  | .message => "message"
  | .identifier => "identifier"
  | .timestamp => "@timestamp"
  | .disableUserLog => "disableUserLog"

/-- The field that a member of an object is read into: the one with its key, or with its key up to case. -/
def fieldOf (key : String) : Option Field :=
  (Field.all.find? fun f => f.key = key).or (Field.all.find? fun f => Sse.matchesField key f.key)

/-- What a field holds. -/
inductive FieldValue where
  | text (s : GoString)
  | flag (b : Bool)

/-- The fields. -/
structure Known where
  name : GoString := []
  level : GoString := []
  message : GoString := []
  identifier : GoString := []
  timestamp : GoString := []
  disableUserLog : Bool := false

def Known.get (known : Known) : Field → FieldValue
  | .name => .text known.name
  | .level => .text known.level
  | .message => .text known.message
  | .identifier => .text known.identifier
  | .timestamp => .text known.timestamp
  | .disableUserLog => .flag known.disableUserLog

def Known.set (known : Known) : Field → FieldValue → Known
  | .name, .text s => { known with name := s }
  | .level, .text s => { known with level := s }
  | .message, .text s => { known with message := s }
  | .identifier, .text s => { known with identifier := s }
  | .timestamp, .text s => { known with timestamp := s }
  | .disableUserLog, .flag b => { known with disableUserLog := b }
  | _, _ => known

/-- `Log`. `Extra` is a map. -/
structure Log (V : Type) extends Known where
  extra : List (GoString × V)
  keyed : Keyed extra

/-- The errors of `encoding/json`. -/
inductive JsonError where
  /-- A value that has no JSON. -/
  | unsupported
  | maxDepth
  /-- A value of the wrong type for the field of this key. -/
  | mismatch (key : String)
  /-- A number that is too large. -/
  | number (literal : String)

/-! ## Marshalling -/

/-- `json.Marshal(Log_(l))`, read into a map. The flag is left out if it is not set. -/
def Known.members (known : Known) : List (GoString × Document) :=
  [(goString "name", .string (written known.name)), (goString "level", .string (written known.level)),
    (goString "message", .string (written known.message)), (goString "identifier", .string (written known.identifier)),
    (goString "@timestamp", .string (written known.timestamp))] ++
    if known.disableUserLog then [(goString "disableUserLog", .bool true)] else []

variable {V F : Type} (encode : V → Option Document) (parseFloat : String → Option F)

/-- The loop over `l.Extra`. -/
def addExtra (m : List (GoString × Document)) : List (GoString × V) → Except JsonError (List (GoString × Document))
  | [] => .ok m
  | (k, v) :: extra =>
      if (m.lookup k).isSome then addExtra m extra
      else
        match encode v with
        | none => .error .unsupported
        | some d => addExtra (insertKey k d m) extra

/-- What is nested deeper than 10000 is refused. -/
def checkDepth (d : Document) : Except JsonError Document := if depth d > 10000 then .error .maxDepth else .ok d

/-- `Log.MarshalJSON`. The keys of a map are written in order. -/
def Log.MarshalJSON (l : Log V) : Except JsonError Document := do
  let m ← addExtra encode (collect l.members []) l.extra
  checkDepth (.object (m.map fun p => (written p.1, p.2)))

/-! ## Unmarshalling -/

/-- Read a value into a field. `null` leaves it as it is. -/
def Field.read : Field → Document → Except JsonError (Option FieldValue)
  | _, .null => .ok none
  | .disableUserLog, .bool b => .ok (some (.flag b))
  | .disableUserLog, _ => .error (.mismatch Field.disableUserLog.key)
  | _, .string s => .ok (some (.text (goString s)))
  | f, _ => .error (.mismatch f.key)

/-- Read a member of an object into its field, if there is one. -/
def Known.store (known : Known) (member : String × Document) : Except JsonError Known :=
  match fieldOf member.1 with
  | none => .ok known
  | some f => (f.read member.2).map fun
      | none => known
      | some x => known.set f x

/-- `levelname` is accepted where there is no level. -/
def Known.alias (m : List (GoString × Document)) (known : Known) : Except JsonError Known :=
  if known.level = goString "" then
    match m.lookup (goString "levelname") with
    | none => .ok known
    | some d => (Field.level.read d).map fun
        | none => known
        | some x => known.set .level x
  else .ok known

/-- The keys that are deleted. -/
def knownKeys : List GoString :=
  ["name", "level", "levelname", "message", "identifier", "@timestamp", "disableUserLog"].map goString

/-- The loop over what is left: every value is decoded. -/
def decodeExtra (extra : List (GoString × Value F)) :
    List (GoString × Document) → Except JsonError (List (GoString × Value F))
  | [] => .ok extra
  | (k, d) :: m =>
      match decode parseFloat d with
      | .error literal => .error (.number literal)
      | .ok v => decodeExtra (insertKey k v extra) m

theorem decodeExtra_keyed {extra extra' : List (GoString × Value F)} {m : List (GoString × Document)} (h : Keyed extra)
    (hok : decodeExtra parseFloat extra m = .ok extra') : Keyed extra' := by
  induction m generalizing extra with
  | nil =>
      cases hok
      exact h
  | cons p m ih =>
      unfold decodeExtra at hok
      split at hok
      · cases hok
      · exact ih h.insertKey hok

/-- The members of an object. `null` has none. -/
def objectMembers : Document → Except JsonError (List (String × Document))
  | .null => .ok []
  | .object members => .ok members
  | _ => .error (.mismatch "")

/-- An object as a map. -/
def asMap (members : List (String × Document)) : List (GoString × Document) :=
  collect (members.map fun p => (goString p.1, p.2)) []

/-- Delete the known keys, and decode the rest. -/
def Known.withExtra (m : List (GoString × Document)) (known : Known) : Except JsonError (Log (Value F)) :=
  match h : decodeExtra parseFloat [] (m.filter fun p => p.1 ∉ knownKeys) with
  | .error e => .error e
  | .ok extra => .ok { known with extra, keyed := decodeExtra_keyed parseFloat List.Pairwise.nil h }

/-- `Log.UnmarshalJSON`, into an empty `Log`. -/
def UnmarshalJSON (data : Document) : Except JsonError (Log (Value F)) := do
  let data ← checkDepth data
  let members ← objectMembers data
  let known ← members.foldlM Known.store {}
  let known ← known.alias (asMap members)
  known.withExtra parseFloat (asMap members)

/-! ## What is expected -/

/-- A value after JSON. -/
def normalised (v : V) : Option (Value F) := (encode v).bind fun d => (decode parseFloat d).toOption

/-- Marshalling and unmarshalling succeeds and gives the same fields, and the same extra fields up to normalisation. -/
def Log.Survives (l : Log V) : Prop :=
  ∃ l' : Log (Value F), (l.MarshalJSON encode).bind (UnmarshalJSON parseFloat) = .ok l' ∧ l'.toKnown = l.toKnown ∧
    ∀ k, (l'.extra.lookup k).map some = (l.extra.lookup k).map (normalised encode parseFloat)

/-- The JSON of the extra fields. -/
def Log.documents (l : Log V) : List (GoString × Document) := l.extra.map fun p => (p.1, (encode p.2).getD .null)

/-- Is a member with this key read into the field? -/
def Field.takes (f : Field) (k : GoString) : Bool := fieldOf (written k) = some f

/-- The field's own key is written. -/
def Log.writes (l : Log V) (f : Field) : Bool := f ≠ .disableUserLog || l.disableUserLog

/-- The extra fields that are read into the field, and later than its own key. -/
def Log.later (l : Log V) (f : Field) : List Document :=
  ((l.documents encode).filter fun p => f.takes p.1 && (!l.writes f || decide (goString f.key < p.1))).map Prod.snd

/-- The last value that is not `null`. -/
def Field.last (f : Field) : List Document → Option FieldValue
  | [] => none
  | d :: ds => (f.last ds).or ((f.read d).toOption.getD none)

/-- A log event that JSON and the two ways to match keys do no harm. -/
structure Log.Safe (l : Log V) : Prop where
  texts : ∀ s ∈ [l.name, l.level, l.message, l.identifier, l.timestamp], (decodeUtf8 s).isSome
  keys : ∀ p ∈ l.extra, (decodeUtf8 p.1).isSome
  values : ∀ p ∈ l.documents encode, (decode parseFloat p.2).isOk ∧ depth p.2 < 10000
  /-- Extra fields that are read into a field have its type, or are `null`. -/
  types : ∀ p ∈ l.documents encode, ∀ f : Field, f.takes p.1 → (f.read p.2).isOk
  /-- The last of those that come later than the field has its value. -/
  last : ∀ (f : Field) x, f.last (l.later encode f) = some x → x = l.get f

/-! ## Fields are stored -/

theorem Known.ext_get {known known' : Known} (h : ∀ f, known.get f = known'.get f) : known = known' := by
  obtain ⟨n, l, m, i, t, d⟩ := known
  obtain ⟨n', l', m', i', t', d'⟩ := known'
  have hn := h .name
  have hl := h .level
  have hm := h .message
  have hi := h .identifier
  have ht := h .timestamp
  have hd := h .disableUserLog
  simp only [get, FieldValue.text.injEq, FieldValue.flag.injEq] at hn hl hm hi ht hd
  subst hn hl hm hi ht hd
  rfl

theorem Known.get_set_ne {f f' : Field} (h : f' ≠ f) (known : Known) (x : FieldValue) :
    (known.set f x).get f' = known.get f' := by
  cases f <;> cases x <;> cases f' <;> first | rfl | exact absurd rfl h

theorem Known.get_set {f : Field} {d : Document} {x : FieldValue} (h : f.read d = .ok (some x)) (known : Known) :
    (known.set f x).get f = x := by
  cases f <;> cases d <;> cases h <;> rfl

/-- The members that are read into a field. -/
def Field.among (f : Field) (members : List (String × Document)) : List Document :=
  (members.filter fun p => fieldOf p.1 = some f).map Prod.snd

theorem Field.last_append (f : Field) (ds ds' : List Document) :
    f.last (ds ++ ds') = (f.last ds').or (f.last ds) := by
  induction ds with
  | nil => exact (Option.or_none).symm
  | cons d ds ih => rw [List.cons_append, last, ih, last, Option.or_assoc]

theorem Field.among_cons (f : Field) (p : String × Document) (members : List (String × Document)) :
    f.among (p :: members) = f.among [p] ++ f.among members := by
  unfold among
  rw [← List.map_append, ← List.filter_append, List.singleton_append]

/-- One member is stored, if it has the right type. -/
theorem Known.store_isOk (known : Known) {p : String × Document}
    (h : ∀ f, fieldOf p.1 = some f → (f.read p.2).isOk) : ∃ known', known.store p = .ok known' := by
  unfold store
  cases hf : fieldOf p.1 with
  | none => exact ⟨known, rfl⟩
  | some f =>
      have hok := h f hf
      cases hread : f.read p.2 with
      | error e =>
          rw [hread] at hok
          cases hok
      | ok x => exact ⟨_, congrArg (Except.map _) hread⟩

/-- What one member stores. -/
theorem Known.get_store {known known' : Known} {p : String × Document} (h : known.store p = .ok known') :
    (∀ f, fieldOf p.1 = some f → (f.read p.2).isOk) ∧
      ∀ f : Field, known'.get f = (f.last (f.among [p])).getD (known.get f) := by
  unfold store at h
  cases hf : fieldOf p.1 with
  | none =>
      rw [hf] at h
      cases h
      refine ⟨nofun, fun f => ?_⟩
      have hamong : f.among [p] = [] := by simp [Field.among, hf]
      rw [hamong]
      rfl
  | some f₀ =>
      rw [hf] at h
      obtain ⟨x, hx, hset⟩ := map_eq_ok h
      refine ⟨fun f hsome => ?_, fun f => ?_⟩
      · cases hsome
        rw [hx]
        rfl
      · by_cases hff : f = f₀
        · subst hff
          have hamong : f.among [p] = [p.2] := by simp [Field.among, hf]
          rw [hamong, Field.last, Field.last, hx, Option.none_or, ← hset]
          cases x with
          | none => rfl
          | some x => exact get_set hx known
        · have hamong : f.among [p] = [] := by simp [Field.among, hf, Ne.symm hff]
          rw [hamong, ← hset]
          cases x with
          | none => rfl
          | some x => exact get_set_ne hff known x

/-- What is stored in the end: the last value of each field. -/
theorem Known.foldlM_store {known known' : Known} {members : List (String × Document)} :
    members.foldlM Known.store known = .ok known' ↔
      (∀ p ∈ members, ∀ f, fieldOf p.1 = some f → (f.read p.2).isOk) ∧
        ∀ f : Field, known'.get f = (f.last (f.among members)).getD (known.get f) := by
  induction members generalizing known with
  | nil =>
      constructor
      · intro h
        cases h
        exact ⟨nofun, fun f => rfl⟩
      · exact fun ⟨_, hget⟩ => congrArg Except.ok (ext_get fun f => (hget f).symm)
  | cons p members ih =>
      rw [List.foldlM_cons, List.forall_mem_cons]
      have hlast : ∀ (f : Field) x, ((f.last (f.among (p :: members))).getD x) =
          (f.last (f.among members)).getD ((f.last (f.among [p])).getD x) := by
        intro f x
        rw [Field.among_cons, Field.last_append]
        cases f.last (f.among members) <;> rfl
      simp only [hlast]
      constructor
      · intro h
        obtain ⟨known₁, hfirst, hrest⟩ := bind_eq_ok h
        obtain ⟨htype, hget₁⟩ := get_store hfirst
        obtain ⟨htypes, hget⟩ := ih.mp hrest
        simp only [hget₁] at hget
        exact ⟨⟨htype, htypes⟩, hget⟩
      · rintro ⟨⟨htype, htypes⟩, hget⟩
        obtain ⟨known₁, hfirst⟩ := known.store_isOk htype
        obtain ⟨-, hget₁⟩ := get_store hfirst
        rw [hfirst]
        refine ih.mpr ⟨htypes, fun f => ?_⟩
        rw [hget₁]
        exact hget f

/-! ## What is written -/

section Marshalling

variable {encode} {l : Log V}

/-- The document of a field. -/
def Known.document (known : Known) : Field → Document
  | .name => .string (written known.name)
  | .level => .string (written known.level)
  | .message => .string (written known.message)
  | .identifier => .string (written known.identifier)
  | .timestamp => .string (written known.timestamp)
  | .disableUserLog => .bool true

theorem Log.members_eq (l : Log V) :
    l.members = (Field.all.filter l.writes).map fun f => (goString f.key, l.document f) := by
  unfold Known.members
  cases hflag : l.disableUserLog <;> simp [Field.all, Log.writes, hflag, Field.key, Known.document]

theorem written_goString (s : String) : written (goString s) = s := by
  rw [written, goString, repaired_utf8, String.ofList_toList]

theorem goString_written {k : GoString} (h : (decodeUtf8 k).isSome) : goString (written k) = k := by
  obtain ⟨cs, hcs⟩ := Option.isSome_iff_exists.mp h
  rw [decodeUtf8_eq_some.mp hcs]
  show utf8 (String.ofList (repaired (utf8 cs))).toList = utf8 cs
  rw [repaired_utf8, String.toList_ofList]

theorem fieldOf_key (f : Field) : fieldOf f.key = some f := by cases f <;> decide +kernel

theorem takes_key (f f' : Field) : f.takes (goString f'.key) = decide (f' = f) := by
  unfold Field.takes
  rw [written_goString, fieldOf_key]
  simp

theorem key_mem_knownKeys (f : Field) : goString f.key ∈ knownKeys := by cases f <;> decide +kernel

/-- All members, in order. -/
def Log.allMembers (encode : V → Option Document) (l : Log V) : List (GoString × Document) :=
  collect l.members (l.documents encode)

theorem Log.documents_keyed (l : Log V) : Keyed (l.documents encode) := List.pairwise_map.mpr l.keyed

theorem Log.allMembers_keyed (l : Log V) : Keyed (l.allMembers encode) := l.documents_keyed.collect _

/-- The extra fields have no known keys, and can be encoded. -/
structure Log.Proper (encode : V → Option Document) (l : Log V) : Prop where
  keys : ∀ p ∈ l.extra, p.1 ∉ knownKeys
  values : ∀ p ∈ l.extra, (encode p.2).isSome

/-- The loop adds all extra fields. -/
theorem addExtra_eq {m : List (GoString × Document)} {extra : List (GoString × V)} (hkeyed : Keyed extra)
    (hfresh : ∀ p ∈ extra, m.lookup p.1 = none) (hvalues : ∀ p ∈ extra, (encode p.2).isSome) :
    addExtra encode m extra = .ok (collect (extra.map fun p => (p.1, (encode p.2).getD .null)) m) := by
  induction extra generalizing m with
  | nil => rfl
  | cons p extra ih =>
      obtain ⟨k, v⟩ := p
      obtain ⟨hk, hrest⟩ := List.pairwise_cons.mp hkeyed
      obtain ⟨hnew, hfresh⟩ := List.forall_mem_cons.mp hfresh
      obtain ⟨hv, hvalues⟩ := List.forall_mem_cons.mp hvalues
      obtain ⟨d, hd⟩ := Option.isSome_iff_exists.mp hv
      have hfresh' : ∀ p ∈ extra, (insertKey k d m).lookup p.1 = none := by
        intro q hq
        rw [lookup_insertKey, if_neg (ne_of_gt (hk q hq))]
        exact hfresh q hq
      rw [addExtra, if_neg (by rw [hnew]; exact nofun), hd, List.map_cons, collect_cons, hd]
      exact ih hrest hfresh' hvalues

theorem Log.Proper.disjoint (h : l.Proper encode) : ∀ p ∈ l.documents encode, p.1 ∉ knownKeys := by
  intro p hp
  obtain ⟨q, hq, rfl⟩ := List.mem_map.mp hp
  exact h.keys q hq

theorem Log.members_keys (l : Log V) {k : GoString} (h : k ∈ l.members.map Prod.fst) : k ∈ knownKeys := by
  rw [l.members_eq, List.map_map] at h
  obtain ⟨f, -, rfl⟩ := List.mem_map.mp h
  exact key_mem_knownKeys f

/-- What is marshalled. -/
theorem Log.Proper.marshalJSON_eq (h : l.Proper encode) : l.MarshalJSON encode =
    checkDepth (.object ((l.allMembers encode).map fun p => (written p.1, p.2))) := by
  have hfresh : ∀ p ∈ l.extra, (collect l.members []).lookup p.1 = none :=
    fun p hp => lookup_collect_eq_none.mpr fun hmem => h.keys p hp (l.members_keys hmem)
  -- in which order they are added makes no difference
  have hall : collect (l.documents encode) (collect l.members []) = l.allMembers encode := by
    refine Keyed.eq_of_lookup (Keyed.collect (Keyed.collect List.Pairwise.nil _) _) l.allMembers_keyed fun k => ?_
    rw [Log.allMembers, lookup_collect (l.documents encode) (collect l.members []),
      lookup_collect l.members (l.documents encode), l.documents_keyed.collect_nil]
    cases hk : (l.documents encode).lookup k with
    | none => rw [Option.none_or, Option.or_none]
    | some d =>
        have hnone : (collect l.members []).lookup k = none :=
          lookup_collect_eq_none.mpr fun hmem => h.disjoint _ (mem_of_lookup hk) (l.members_keys hmem)
        rw [hnone, Option.or_none, Option.none_or]
  unfold Log.MarshalJSON
  rw [addExtra_eq l.keyed hfresh h.values]
  show checkDepth (.object ((collect (l.documents encode) (collect l.members [])).map _)) = _
  rw [hall]

/-- The members that are not fields are the extra fields. -/
theorem Log.Proper.filter_allMembers (h : l.Proper encode) :
    ((l.allMembers encode).filter fun p => p.1 ∉ knownKeys) = l.documents encode := by
  have hmembers : ∀ p ∈ l.members, decide (p.1 ∉ knownKeys) = false :=
    fun p hp => decide_eq_false fun hnot => hnot (l.members_keys (List.mem_map_of_mem hp))
  rw [Log.allMembers, filter_collect (P := fun k => decide (k ∉ knownKeys)) hmembers]
  exact List.filter_eq_self.mpr fun p hp => decide_eq_true (h.disjoint p hp)

/-- Of the fields, only the field itself is read into it. -/
theorem filter_takes (f : Field) {docs : List (GoString × Document)} (document : Field → Document) (hdocs : Keyed docs)
    {fs : List Field} (hfs : fs.Nodup) :
    ((collect (fs.map fun f => (goString f.key, document f)) docs).filter fun p => f.takes p.1) =
      (if f ∈ fs then insertKey (goString f.key) (document f) docs else docs).filter fun p => f.takes p.1 := by
  induction fs generalizing docs with
  | nil => rfl
  | cons f' fs ih =>
      obtain ⟨hnot, hfs⟩ := List.nodup_cons.mp hfs
      rw [List.map_cons, collect_cons, ih hdocs.insertKey hfs]
      by_cases hff : f = f'
      · subst hff
        rw [if_neg hnot, if_pos List.mem_cons_self]
      · have hother : f.takes (goString f'.key) = false := by rw [takes_key, decide_eq_false (Ne.symm hff)]
        have hmem : f ∈ f' :: fs ↔ f ∈ fs := ⟨fun h => (List.mem_cons.mp h).resolve_left hff, List.mem_cons_of_mem _⟩
        by_cases hf : f ∈ fs
        · rw [if_pos hf, if_pos (hmem.mpr hf)]
          exact filter_insertKey_congr hdocs.insertKey hdocs (filter_insertKey hother)
        · rw [if_neg hf, if_neg (mt hmem.mp hf)]
          exact filter_insertKey hother

/-- The fields, with what is not UTF-8 replaced. -/
def Known.repaired (known : Known) : Known where
  name := goString (written known.name)
  level := goString (written known.level)
  message := goString (written known.message)
  identifier := goString (written known.identifier)
  timestamp := goString (written known.timestamp)
  disableUserLog := known.disableUserLog

theorem Known.read_document {f : Field} (h : l.writes f) :
    f.read (l.document f) = .ok (some (l.toKnown.repaired.get f)) := by
  cases f with
  | disableUserLog =>
      have hflag : l.disableUserLog = true := h
      show _ = Except.ok (some (FieldValue.flag l.disableUserLog))
      rw [hflag]
      rfl
  | _ => rfl

theorem mem_filter_writes (f : Field) : f ∈ Field.all.filter l.writes ↔ l.writes f := by
  have hall : f ∈ Field.all := by cases f <;> decide
  rw [List.mem_filter, and_iff_right hall]

/-- The last value of a field: one of the extra fields that come later, or its own. -/
theorem Log.last_allMembers (l : Log V) (f : Field) :
    (f.last (f.among ((l.allMembers encode).map fun p => (written p.1, p.2)))).getD (({} : Known).get f) =
      (f.last (l.later encode f)).getD (l.toKnown.repaired.get f) := by
  have hamong : f.among ((l.allMembers encode).map fun p => (written p.1, p.2)) =
      ((l.allMembers encode).filter fun p => f.takes p.1).map Prod.snd := by
    unfold Field.among
    rw [List.filter_map, List.map_map]
    rfl
  have hnodup : (Field.all.filter l.writes).Nodup := (by decide : Field.all.Nodup).filter _
  rw [hamong, Log.allMembers, l.members_eq, filter_takes f l.document l.documents_keyed hnodup]
  simp only [mem_filter_writes]
  unfold Log.later
  by_cases hwrites : l.writes f
  · rw [if_pos hwrites, insertKey_eq l.documents_keyed, List.filter_append, List.map_append, Field.last_append,
      List.filter_cons_of_pos (by rw [takes_key, decide_eq_true rfl]), List.map_cons, Field.last,
      Known.read_document hwrites]
    have hlater : ((l.documents encode).filter fun p => decide (goString f.key < p.1)).filter (fun p => f.takes p.1) =
        (l.documents encode).filter fun p => f.takes p.1 && (!l.writes f || decide (goString f.key < p.1)) := by
      rw [List.filter_filter, hwrites]
      rfl
    rw [hlater]
    cases f.last _ <;> rfl
  · -- only the flag is left out, and if it is not set
    have hflag : f = .disableUserLog ∧ l.disableUserLog = false := by simpa [Log.writes] using hwrites
    obtain ⟨rfl, hunset⟩ := hflag
    have hdefault : l.toKnown.repaired.get .disableUserLog = ({} : Known).get .disableUserLog :=
      congrArg FieldValue.flag hunset
    rw [if_neg hwrites, hdefault, Bool.eq_false_iff.mpr hwrites]
    simp only [Bool.not_false, Bool.true_or, Bool.and_true]

end Marshalling

/-! ## What is read -/

section Unmarshalling

variable {encode parseFloat} {l : Log V}

/-- Decoding the extra fields succeeds exactly if all values are decoded. -/
theorem decodeExtra_isOk (extra : List (GoString × Value F)) {m : List (GoString × Document)} :
    (∃ extra', decodeExtra parseFloat extra m = .ok extra') ↔ ∀ p ∈ m, (decode parseFloat p.2).isOk := by
  induction m generalizing extra with
  | nil => exact iff_of_true ⟨extra, rfl⟩ nofun
  | cons p m ih =>
      rw [decodeExtra, List.forall_mem_cons]
      cases hd : decode parseFloat p.2 with
      | error literal => exact iff_of_false nofun fun h => nomatch h.1
      | ok v => exact (ih _).trans (and_iff_right rfl).symm

/-- What the extra fields are decoded to. -/
theorem lookup_decodeExtra {extra extra' : List (GoString × Value F)} {m : List (GoString × Document)} (hm : Keyed m)
    (h : decodeExtra parseFloat extra m = .ok extra') (k : GoString) :
    extra'.lookup k = ((m.lookup k).bind fun d => (decode parseFloat d).toOption).or (extra.lookup k) := by
  induction m generalizing extra with
  | nil =>
      cases h
      rfl
  | cons p m ih =>
      obtain ⟨hp, hm⟩ := List.pairwise_cons.mp hm
      unfold decodeExtra at h
      split at h
      · cases h
      · rename_i v hv
        rw [ih hm h, lookup_insertKey, lookup_pair]
        by_cases hk : k = p.1
        · have hnone : m.lookup k = none := by
            by_contra hsome
            obtain ⟨d, hd⟩ := Option.ne_none_iff_exists'.mp hsome
            exact absurd (hk ▸ hp _ (mem_of_lookup hd)) (lt_irrefl _)
          rw [if_pos hk, if_pos hk, hnone, Option.bind_some, hv]
          rfl
        · rw [if_neg hk, if_neg hk]

/-- The value of an extra field after JSON, by its document. -/
theorem Log.lookup_normalised (h : l.Proper encode) (k : GoString) :
    (l.extra.lookup k).map (normalised encode parseFloat) =
      ((l.documents encode).lookup k).map fun d => (decode parseFloat d).toOption := by
  have hvalues := h.values
  unfold Log.documents
  generalize l.extra = extra at hvalues
  induction extra with
  | nil => rfl
  | cons p extra ih =>
      obtain ⟨hp, hextra⟩ := List.forall_mem_cons.mp hvalues
      obtain ⟨d, hd⟩ := Option.isSome_iff_exists.mp hp
      rw [List.map_cons, lookup_pair, lookup_pair]
      by_cases hk : k = p.1
      · rw [if_pos hk, if_pos hk, Option.map_some, Option.map_some, normalised, hd]
        rfl
      · rw [if_neg hk, if_neg hk]
        exact ih hextra

/-- Is a document accepted? -/
theorem checkDepth_eq_ok {d d' : Document} : checkDepth d = .ok d' ↔ depth d ≤ 10000 ∧ d = d' := by
  unfold checkDepth
  split
  · exact iff_of_false nofun fun h => by omega
  · rename_i hdepth
    rw [Except.ok.injEq, and_iff_right (by omega)]

theorem depthMembers_lt {members : List (String × Document)} {n : Nat} (hn : 0 < n) :
    depthMembers members < n ↔ ∀ p ∈ members, depth p.2 < n := by
  induction members with
  | nil => exact iff_of_true hn nofun
  | cons p members ih => rw [depthMembers, List.forall_mem_cons, max_lt_iff, ih]

/-- Nothing is nested too deep exactly if no extra field is. -/
theorem Log.Proper.depth_le (h : l.Proper encode) :
    depth (.object ((l.allMembers encode).map fun p => (written p.1, p.2))) ≤ 10000 ↔
      ∀ p ∈ l.documents encode, depth p.2 < 10000 := by
  have hobject : ∀ members, depth (.object members) ≤ 10000 ↔ depthMembers members < 10000 := by
    intro members
    rw [depth]
    omega
  rw [hobject, depthMembers_lt (by decide), List.forall_mem_map]
  constructor
  · intro hall p hp
    rw [← h.filter_allMembers] at hp
    exact hall p (List.mem_filter.mp hp).1
  · intro hdocuments p hp
    rcases mem_collect hp with hp | hp
    · rw [l.members_eq] at hp
      obtain ⟨f, -, rfl⟩ := List.mem_map.mp hp
      have hflat : depth (l.document f) = 0 := by cases f <;> rfl
      show depth (l.document f) < 10000
      rw [hflat]
      decide
    · exact hdocuments p hp

theorem Known.withExtra_eq_ok {m : List (GoString × Document)} {known : Known} {l' : Log (Value F)} :
    known.withExtra parseFloat m = .ok l' ↔ l'.toKnown = known ∧
      decodeExtra parseFloat [] (m.filter fun p => p.1 ∉ knownKeys) = .ok l'.extra := by
  unfold withExtra
  split
  · rename_i e he
    rw [he]
    exact iff_of_false nofun fun h => nomatch h.2
  · rename_i extra hextra
    constructor
    · intro h
      cases h
      exact ⟨rfl, hextra⟩
    · obtain ⟨known', extra', hkeyed⟩ := l'
      rintro ⟨rfl, hextra'⟩
      cases hextra.symm.trans hextra'
      rfl

/-- What unmarshalling an object does, step by step. -/
theorem unmarshalJSON_object {members : List (String × Document)} {l' : Log (Value F)} :
    UnmarshalJSON parseFloat (.object members) = .ok l' ↔
      depth (.object members) ≤ 10000 ∧
      (∃ known, members.foldlM Known.store {} = .ok known ∧ known.alias (asMap members) = .ok l'.toKnown) ∧
      decodeExtra parseFloat [] ((asMap members).filter fun p => p.1 ∉ knownKeys) = .ok l'.extra := by
  constructor
  · intro h
    obtain ⟨data, hdata, h⟩ := bind_eq_ok h
    obtain ⟨hdepth, rfl⟩ := checkDepth_eq_ok.mp hdata
    obtain ⟨members', hmembers, h⟩ := bind_eq_ok h
    cases hmembers
    obtain ⟨known₀, hknown₀, h⟩ := bind_eq_ok h
    obtain ⟨known, hknown, h⟩ := bind_eq_ok h
    obtain ⟨rfl, hextra⟩ := Known.withExtra_eq_ok.mp h
    exact ⟨hdepth, ⟨known₀, hknown₀, hknown⟩, hextra⟩
  · rintro ⟨hdepth, ⟨known₀, hknown₀, hknown⟩, hextra⟩
    unfold UnmarshalJSON
    rw [checkDepth_eq_ok.mpr ⟨hdepth, rfl⟩]
    show (members.foldlM Known.store {}).bind _ = _
    rw [hknown₀]
    show (known₀.alias (asMap members)).bind _ = _
    rw [hknown]
    exact Known.withExtra_eq_ok.mpr ⟨rfl, hextra⟩

/-! ## Round trips -/

/-- A text is UTF-8. -/
def FieldValue.Valid : FieldValue → Prop
  | .text s => (decodeUtf8 s).isSome
  | .flag _ => True

theorem goString_valid (s : String) : (decodeUtf8 (goString s)).isSome := by
  rw [goString, decodeUtf8_utf8]
  rfl

/-- What is read is UTF-8. -/
theorem Field.last_valid {f : Field} {ds : List Document} {x : FieldValue} (h : f.last ds = some x) : x.Valid := by
  induction ds with
  | nil => cases h
  | cons d ds ih =>
      rw [last] at h
      rcases Option.or_eq_some_iff.mp h with h | ⟨-, h⟩
      · exact ih h
      · cases hread : f.read d with
        | error e =>
            rw [hread] at h
            cases h
        | ok y =>
            rw [hread] at h
            have hy : y = some x := h
            subst hy
            cases f <;> cases d <;> cases hread <;> first | exact goString_valid _ | trivial

theorem Known.repaired_valid (known : Known) (f : Field) : (known.repaired.get f).Valid := by
  cases f <;> first | exact goString_valid _ | trivial

theorem Known.repaired_eq {known : Known} (h : ∀ f, (known.get f).Valid) : known.repaired = known := by
  refine ext_get fun f => ?_
  have hf := h f
  cases f with
  | disableUserLog => rfl
  | _ => exact congrArg FieldValue.text (goString_written hf)

theorem Known.texts_iff (known : Known) :
    (∀ s ∈ [known.name, known.level, known.message, known.identifier, known.timestamp], (decodeUtf8 s).isSome) ↔
      ∀ f, (known.get f).Valid := by
  simp only [List.forall_mem_cons, List.not_mem_nil, false_imp_iff, implies_true, and_true]
  constructor
  · rintro ⟨hn, hl, hm, hi, ht⟩ f
    cases f with
    | name => exact hn
    | level => exact hl
    | message => exact hm
    | identifier => exact hi
    | timestamp => exact ht
    | disableUserLog => trivial
  · exact fun h => ⟨h .name, h .level, h .message, h .identifier, h .timestamp⟩

/-- A member is a field that is written, or an extra field. -/
theorem Log.mem_allMembers {p : GoString × Document} (h : p ∈ l.allMembers encode) :
    (∃ f, l.writes f ∧ p = (goString f.key, l.document f)) ∨ p ∈ l.documents encode := by
  refine (mem_collect h).imp_left fun hmem => ?_
  rw [l.members_eq] at hmem
  obtain ⟨f, hf, rfl⟩ := List.mem_map.mp hmem
  exact ⟨f, (mem_filter_writes f).mp hf, rfl⟩

theorem Log.Proper.documents_subset (h : l.Proper encode) {p : GoString × Document} (hp : p ∈ l.documents encode) :
    p ∈ l.allMembers encode := by
  rw [← h.filter_allMembers] at hp
  exact (List.mem_filter.mp hp).1

/-- Keys that are UTF-8 are read as they were. -/
theorem Log.asMap_written (hkeys : ∀ p ∈ l.extra, (decodeUtf8 p.1).isSome) :
    asMap ((l.allMembers encode).map fun p => (written p.1, p.2)) = l.allMembers encode := by
  have hmap : ((l.allMembers encode).map fun p => (written p.1, p.2)).map (fun p => (goString p.1, p.2)) =
      l.allMembers encode := by
    rw [List.map_map]
    refine List.map_congr_left (g := id) (fun p hp => ?_) |>.trans (List.map_id _)
    rcases mem_allMembers hp with ⟨f, -, rfl⟩ | hp
    · show (goString (written (goString f.key)), l.document f) = _
      rw [written_goString]
      rfl
    · obtain ⟨q, hq, rfl⟩ := List.mem_map.mp hp
      exact Prod.ext (goString_written (hkeys q hq)) rfl
  unfold asMap
  rw [hmap, l.allMembers_keyed.collect_nil]

/-- `levelname` is not written. -/
theorem Log.Proper.alias_eq (h : l.Proper encode) (known : Known) :
    known.alias (l.allMembers encode) = .ok known := by
  have hnone : (l.allMembers encode).lookup (goString "levelname") = none := by
    by_contra hsome
    obtain ⟨d, hd⟩ := Option.ne_none_iff_exists'.mp hsome
    rcases mem_allMembers (mem_of_lookup hd) with ⟨f, -, heq⟩ | hmem
    · have hkey : "levelname" = f.key := by
        rw [← written_goString "levelname", (Prod.mk.inj heq).1, written_goString]
      cases f <;> exact absurd hkey (by decide)
    · have hknown : goString "levelname" ∈ knownKeys := by decide +kernel
      exact h.disjoint _ hmem hknown
  unfold Known.alias
  rw [hnone]
  split <;> rfl

/-- Marshalling and unmarshalling, step by step. -/
theorem Log.Proper.roundTrip_iff (h : l.Proper encode) (hkeys : ∀ p ∈ l.extra, (decodeUtf8 p.1).isSome)
    {l' : Log (Value F)} :
    (l.MarshalJSON encode).bind (UnmarshalJSON parseFloat) = .ok l' ↔
      (∀ p ∈ l.documents encode, depth p.2 < 10000) ∧
      (∀ p ∈ l.documents encode, ∀ f : Field, f.takes p.1 → (f.read p.2).isOk) ∧
      (∀ f : Field, l'.get f = (f.last (l.later encode f)).getD (l.toKnown.repaired.get f)) ∧
      decodeExtra parseFloat [] (l.documents encode) = .ok l'.extra := by
  have htypes : (∀ p ∈ (l.allMembers encode).map fun p => (written p.1, p.2), ∀ f, fieldOf p.1 = some f →
      (f.read p.2).isOk) ↔ ∀ p ∈ l.documents encode, ∀ f : Field, f.takes p.1 → (f.read p.2).isOk := by
    rw [List.forall_mem_map]
    constructor
    · exact fun hall p hp f hf => hall p (h.documents_subset hp) f (of_decide_eq_true hf)
    · intro hdocuments p hp f hf
      rcases mem_allMembers hp with ⟨f', hwrites, rfl⟩ | hp
      · have hff : f' = f := by
          rw [written_goString, fieldOf_key] at hf
          exact Option.some.inj hf
        rw [← hff, Known.read_document hwrites]
        rfl
      · exact hdocuments p hp f (decide_eq_true hf)
  rw [h.marshalJSON_eq]
  constructor
  · intro hround
    obtain ⟨data, hdata, hround⟩ := bind_eq_ok hround
    obtain ⟨-, rfl⟩ := checkDepth_eq_ok.mp hdata
    obtain ⟨hdepth, ⟨known, hknown, halias⟩, hextra⟩ := unmarshalJSON_object.mp hround
    rw [asMap_written hkeys] at halias hextra
    rw [h.alias_eq, Except.ok.injEq] at halias
    obtain ⟨hread, hget⟩ := Known.foldlM_store.mp hknown
    rw [h.filter_allMembers] at hextra
    refine ⟨h.depth_le.mp hdepth, htypes.mp hread, fun f => ?_, hextra⟩
    rw [← halias, hget f, l.last_allMembers f]
  · rintro ⟨hdepth, hread, hget, hextra⟩
    have hdepth' := h.depth_le.mpr hdepth
    rw [checkDepth_eq_ok.mpr ⟨hdepth', rfl⟩]
    refine unmarshalJSON_object.mpr ⟨hdepth', ⟨l'.toKnown, ?_, ?_⟩, ?_⟩
    · refine Known.foldlM_store.mpr ⟨htypes.mpr hread, fun f => ?_⟩
      rw [l.last_allMembers f]
      exact hget f
    · rw [asMap_written hkeys, h.alias_eq]
    · rw [asMap_written hkeys, h.filter_allMembers]
      exact hextra

/-- Keys that are read are UTF-8. -/
theorem unmarshalJSON_keys {members : List (String × Document)} {l' : Log (Value F)}
    (h : UnmarshalJSON parseFloat (.object members) = .ok l') {k : GoString} (hk : (l'.extra.lookup k).isSome) :
    (decodeUtf8 k).isSome := by
  obtain ⟨-, -, hextra⟩ := unmarshalJSON_object.mp h
  have hkeyed : Keyed (asMap members) := Keyed.collect List.Pairwise.nil _
  rw [lookup_decodeExtra (hkeyed.filter _) hextra, List.lookup_nil, Option.or_none, Option.isSome_iff_exists] at hk
  obtain ⟨v, hv⟩ := hk
  obtain ⟨d, hd, -⟩ := Option.bind_eq_some_iff.mp hv
  have hmem := (List.mem_filter.mp (mem_of_lookup hd)).1
  rcases mem_collect hmem with hmem | hmem
  · obtain ⟨p, -, hp⟩ := List.mem_map.mp hmem
    rw [← (Prod.mk.inj hp).1]
    exact goString_valid p.1
  · cases hmem

end Unmarshalling

/-- **When log events survive the message bus**: exactly those that are `Safe` do, of those whose extra fields have no
    known keys and can be encoded. -/
theorem log_survives_iff (l : Log V) (hkeys : ∀ p ∈ l.extra, p.1 ∉ knownKeys)
    (hvalues : ∀ p ∈ l.extra, (encode p.2).isSome) : l.Survives encode parseFloat ↔ l.Safe encode parseFloat := by
  have h : l.Proper encode := ⟨hkeys, hvalues⟩
  constructor
  · rintro ⟨l', hround, hknown, hextra⟩
    have hutf8 : ∀ p ∈ l.extra, (decodeUtf8 p.1).isSome := by
      intro p hp
      have hsome : (l'.extra.lookup p.1).map some = some (normalised encode parseFloat p.2) := by
        rw [hextra, l.keyed.lookup_iff.mpr hp]
        rfl
      obtain ⟨data, hdata, hunmarshal⟩ := bind_eq_ok hround
      rw [h.marshalJSON_eq] at hdata
      obtain ⟨-, rfl⟩ := checkDepth_eq_ok.mp hdata
      refine unmarshalJSON_keys hunmarshal ?_
      cases hlookup : l'.extra.lookup p.1 with
      | none =>
          rw [hlookup] at hsome
          cases hsome
      | some v => rfl
    obtain ⟨hdepth, htypes, hget, hdecode⟩ := (h.roundTrip_iff hutf8).mp hround
    rw [hknown] at hget
    have hvalid : ∀ f, (l.get f).Valid := by
      intro f
      rw [hget f]
      cases hlast : f.last (l.later encode f) with
      | none => exact l.toKnown.repaired_valid f
      | some x => exact Field.last_valid hlast
    refine ⟨l.texts_iff.mpr hvalid, hutf8, fun p hp => ⟨?_, hdepth p hp⟩, htypes, fun f x hlast => ?_⟩
    · exact (decodeExtra_isOk []).mp ⟨_, hdecode⟩ p hp
    · rw [hget f, hlast]
      rfl
  · intro hsafe
    obtain ⟨extra, hextra⟩ := (decodeExtra_isOk []).mpr fun p hp => (hsafe.values p hp).1
    have hrepaired := Known.repaired_eq (l.texts_iff.mp hsafe.texts)
    refine ⟨{ l.toKnown with extra, keyed := decodeExtra_keyed parseFloat List.Pairwise.nil hextra }, ?_, rfl, ?_⟩
    · refine (h.roundTrip_iff hsafe.keys).mpr ⟨fun p hp => (hsafe.values p hp).2, hsafe.types, fun f => ?_, hextra⟩
      show l.get f = _
      rw [hrepaired]
      cases hlast : f.last (l.later encode f) with
      | none => rfl
      | some x => exact (hsafe.last f x hlast).symm
    · intro k
      rw [Log.lookup_normalised h]
      show (extra.lookup k).map some = _
      rw [lookup_decodeExtra l.documents_keyed hextra, List.lookup_nil, Option.or_none]
      cases hlookup : (l.documents encode).lookup k with
      | none => rfl
      | some d =>
          have hok := (hsafe.values _ (mem_of_lookup hlookup)).1
          cases hd : decode parseFloat d with
          | error e =>
              rw [hd] at hok
              cases hok
          | ok v =>
              show Option.map some ((decode parseFloat d).toOption) = some ((decode parseFloat d).toOption)
              rw [hd]
              rfl

/-- A log event with two extra fields, one of them with the key of the name in capitals. -/
def aLog : Log Document where
  name := goString "etos"
  level := goString "info"
  message := goString "hello"
  timestamp := goString "2026-09-03T10:00:00Z"
  extra := [(goString "NAME", .string "ETOS"), (goString "pod", .object [("ready", .bool true)])]
  keyed := by unfold Keyed; decide +kernel

/-- It survives: capitals come before small letters, and the name is the last to be read. -/
theorem aLog_survives : aLog.Survives some fun _ => (none : Option Unit) := by
  refine (log_survives_iff some (fun _ => none) aLog (by decide +kernel) fun _ _ => rfl).mpr ?_
  have htypes : ∀ p ∈ aLog.documents some, ∀ f ∈ Field.all, f.takes p.1 → (f.read p.2).isOk := by decide +kernel
  have hlater : ∀ f ∈ Field.all, (f.last (aLog.later some f)).isNone := by decide +kernel
  have hall : ∀ f : Field, f ∈ Field.all := fun f => by cases f <;> decide
  refine ⟨by decide +kernel, by decide +kernel, by decide +kernel, fun p hp f => htypes p hp f (hall f), ?_⟩
  intro f x hx
  have hnone := hlater f (hall f)
  rw [hx] at hnone
  cases hnone

/-- A log event for the user, with an extra field. -/
def hiddenLog : Log Document where
  name := goString "etos"
  level := goString "info"
  message := goString "hello"
  extra := [(goString "disableuserlog", .bool true)]
  keyed := List.pairwise_singleton _ _

/-- It is read back as one that is not for the user. -/
theorem hiddenLog_lost :
    (∀ p ∈ hiddenLog.extra, p.1 ∉ knownKeys) ∧ ¬ hiddenLog.Survives some fun _ => (none : Option Unit) := by
  have hkeys : ∀ p ∈ hiddenLog.extra, p.1 ∉ knownKeys := by decide +kernel
  have hproper : hiddenLog.Proper some := ⟨hkeys, fun _ _ => rfl⟩
  refine ⟨hkeys, ?_⟩
  rintro ⟨l', hround, hknown, -⟩
  obtain ⟨-, -, hget, -⟩ := (hproper.roundTrip_iff (by decide +kernel)).mp hround
  have htaken : (Field.disableUserLog.takes (goString "disableuserlog") && (!hiddenLog.writes .disableUserLog ||
      decide (goString Field.disableUserLog.key < goString "disableuserlog"))) = true := by decide +kernel
  have hlater : hiddenLog.later some .disableUserLog = [.bool true] :=
    congrArg (List.map Prod.snd) (List.filter_cons_of_pos htaken)
  have hflag := hget .disableUserLog
  rw [hknown, hlater] at hflag
  cases hflag

end Etos.Messaging
