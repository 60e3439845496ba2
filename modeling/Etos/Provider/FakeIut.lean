import Etos.Encoding.Json
import Etos.Provider.Split

/-!
# `Provider.FakeIut` — the Iut in an Environment

An Environment has its Iut as JSON. The provider of an Iut may add data of its own, any JSON, and `fakeIut` merges it
into the specification: the specification with the provider data is decoded into a map, the provider data is decoded
into the same map, and the provider data is removed under its own key. The key is the name of the field in Go, not its
tag in JSON: the provider data stays where it was, and what is removed instead is a member of the provider data if it
has this name (**`iut_merge_iff`**).

Numbers are compared as `encoding/json` decodes them, as floating-point numbers.
-/

namespace Etos

open Kube Prog Encoding Etos.Lists

/-- `encoding/json` below the structure of documents: how texts are read and written, and which floating-point number a
    literal is. -/
structure JsonText (F : Type) where
  scan : Json → Except Err Document
  print : Document → Json
  parseFloat : String → Option F
  formatFloat : F → String

/-- The tag of `ProviderData`. -/
def providerDataTag : String := "provider_data"

/-- The fields of an IutSpec as JSON. -/
def iutMembers (s : IutSpec) : List (String × Document) :=
  [("id", .string s.id), ("deadline", .number (toString s.deadline)), ("identity", .string s.identity),
    ("environmentRequest", .string s.environmentRequest), ("provider_id", .string s.providerID)]

variable {F : Type} (text : JsonText F)

/-- `json.Unmarshal` into a `map[string]any`, which keeps its entries; `none` is the nil map. -/
def unmarshal (data : Option (List (String × Value F))) (d : Document) :
    Except Err (Option (List (String × Value F))) :=
  let mismatch (value : String) : Except Err (Option (List (String × Value F))) :=
    .error (.new ("json: cannot unmarshal " ++ value ++ " into Go value of type map[string]interface \x7b\x7d"))
  if depth d > 10000 then .error (.new "exceeded max depth")
  else
    match d with
    | .null => .ok none
    | .bool _ => mismatch "bool"
    | .number _ => mismatch "number"
    | .string _ => mismatch "string"
    | .array _ => mismatch "array"
    | .object members =>
        match decodeMembers text.parseFloat members with
        | .ok ms => .ok (some (collect ms (data.getD [])))
        | .error literal =>
            .error (.new ("json: cannot unmarshal number " ++ literal ++ " into Go value of type float64"))

/-- `json.Marshal` of a `map[string]any`. -/
def marshalMap : Option (List (String × Value F)) → Document
  | none => .null
  | some data => encode text.formatFloat (.object data)

/-- `fakeIut.MarshalJSON`. -/
def fakeIut.MarshalJSON (s : IutSpec) : Except Err Document :=
  match s.providerData with
  | none => .ok (.object (iutMembers s))
  | some raw => do
      -- the text has to be JSON for either of the two calls that read it
      let second ← text.scan raw
      let first := Document.object (iutMembers s ++ [(providerDataTag, second)])
      let data ← unmarshal text (some []) first
      let data ← unmarshal text data second
      -- not the tag
      return marshalMap text (data.map (eraseKey "ProviderData"))

/-- `json.Marshal(fakeIut{iut.Spec})`. -/
def marshalIut (s : IutSpec) : Except Err Json := (fakeIut.MarshalJSON text s).map text.print

/-! ## Merging -/

/-- The document is the specification without its provider data, overlaid by the members of the provider data. -/
def Merged (s : IutSpec) (providerData : List (String × Document)) (d : Document) : Prop :=
  ∃ spec data merged, decodeMembers text.parseFloat (iutMembers s) = .ok spec ∧
    decodeMembers text.parseFloat providerData = .ok data ∧ decode text.parseFloat d = .ok (.object merged) ∧
    ∀ k, merged.lookup k = ((collect data []).lookup k).or ((collect spec []).lookup k)

variable {text}

theorem unmarshal_object {data : Option (List (String × Value F))} {members : List (String × Document)}
    {out : Option (List (String × Value F))} (h : unmarshal text data (.object members) = .ok out) :
    ∃ ms, decodeMembers text.parseFloat members = .ok ms ∧ out = some (collect ms (data.getD [])) := by
  unfold unmarshal at h
  dsimp only at h
  split at h
  · cases h
  · split at h
    · rename_i ms hms
      cases h
      exact ⟨ms, hms, rfl⟩
    · cases h

theorem marshalJSON_scanned {s : IutSpec} {raw : Json} {second : Document} (hraw : s.providerData = some raw)
    (hscan : text.scan raw = .ok second) :
    fakeIut.MarshalJSON text s =
      (unmarshal text (some []) (.object (iutMembers s ++ [(providerDataTag, second)]))).bind fun data =>
        (unmarshal text data second).bind fun data =>
          .ok (marshalMap text (data.map (eraseKey "ProviderData"))) := by
  unfold fakeIut.MarshalJSON
  rw [hraw]
  dsimp only
  rw [hscan]
  rfl

/-- What is written for an Iut with an object of provider data. -/
theorem marshalJSON_object {s : IutSpec} {raw : Json} {members : List (String × Document)} {d : Document}
    (hraw : s.providerData = some raw) (hscan : text.scan raw = .ok (.object members))
    (h : fakeIut.MarshalJSON text s = .ok d) :
    ∃ spec own data, decodeMembers text.parseFloat (iutMembers s) = .ok spec ∧ Canonical own ∧
      decodeMembers text.parseFloat members = .ok data ∧
      d = encode text.formatFloat (.object (eraseKey "ProviderData"
        (collect data (insertKey providerDataTag own (collect spec []))))) := by
  rw [marshalJSON_scanned hraw hscan] at h
  obtain ⟨first, hfirst, h⟩ := bind_eq_ok h
  obtain ⟨merged, hmerged, h⟩ := bind_eq_ok h
  cases h
  obtain ⟨ms, hms, rfl⟩ := unmarshal_object hfirst
  obtain ⟨spec, own, hspec, hown, rfl⟩ := decodeMembers_append hms
  obtain ⟨data, hdata, rfl⟩ := unmarshal_object hmerged
  obtain ⟨v, hv, hown⟩ := bind_eq_ok hown
  cases hown
  refine ⟨spec, v, data, hspec, decode_canonical _ hv, hdata, ?_⟩
  show marshalMap text (some _) = _
  rw [Option.getD_some, Option.getD_some, collect_append]
  rfl

/-- What is written is decoded to. -/
theorem marshalJSON_decode (hfloat : ∀ x, text.parseFloat (text.formatFloat x) = some x) {s : IutSpec} {raw : Json}
    {members : List (String × Document)} {d : Document} (hraw : s.providerData = some raw)
    (hscan : text.scan raw = .ok (.object members)) (h : fakeIut.MarshalJSON text s = .ok d) :
    ∃ spec own data merged, decodeMembers text.parseFloat (iutMembers s) = .ok spec ∧
      decodeMembers text.parseFloat members = .ok data ∧ decode text.parseFloat d = .ok (.object merged) ∧
      ∀ k, merged.lookup k = if k = "ProviderData" then none else ((collect data []).lookup k).or
        (if k = providerDataTag then some own else (collect spec []).lookup k) := by
  obtain ⟨spec, own, data, hspec, hown, hdata, rfl⟩ := marshalJSON_object hraw hscan h
  refine ⟨spec, own, data, _, hspec, hdata, decode_encode hfloat (.object ?_ fun p hp => ?_), fun k => ?_⟩
  · exact (Keyed.collect (Keyed.insertKey (Keyed.collect List.Pairwise.nil spec)) data).eraseKey _
  · rcases mem_collect (List.mem_of_mem_filter hp) with hp | hp
    · exact decodeMembers_canonical _ hdata p hp
    rcases mem_insertKey hp with rfl | hp
    · exact hown
    rcases mem_collect hp with hp | hp
    · exact decodeMembers_canonical _ hspec p hp
    · cases hp
  · rw [lookup_eraseKey, lookup_collect, lookup_insertKey]

/-- The keys of the specification. -/
theorem spec_lookup_eq_none {s : IutSpec} {spec : List (String × Value F)} {k : String}
    (h : decodeMembers text.parseFloat (iutMembers s) = .ok spec)
    (hk : k ∉ ["id", "deadline", "identity", "environmentRequest", "provider_id"]) :
    (collect spec []).lookup k = none := by
  rw [lookup_collect_eq_none, decodeMembers_keys h]
  exact hk

/-- The provider data is merged into the specification if and only if it has the tag of the provider data among its
    keys, but not the name of the field. -/
theorem marshalJSON_merged_iff (hfloat : ∀ x, text.parseFloat (text.formatFloat x) = some x) {s : IutSpec} {raw : Json}
    {members : List (String × Document)} {d : Document} (hraw : s.providerData = some raw)
    (hscan : text.scan raw = .ok (.object members)) (h : fakeIut.MarshalJSON text s = .ok d) :
    Merged text s members d ↔ providerDataTag ∈ members.map Prod.fst ∧ "ProviderData" ∉ members.map Prod.fst := by
  obtain ⟨spec, own, data, merged, hspec, hdata, hdecode, hmerged⟩ := marshalJSON_decode hfloat hraw hscan h
  have hnone : ∀ k, (collect data []).lookup k = none ↔ k ∉ members.map Prod.fst := fun k => by
    rw [lookup_collect_eq_none, decodeMembers_keys hdata]
  have htag := spec_lookup_eq_none (k := providerDataTag) hspec (by decide)
  have hfield := spec_lookup_eq_none (k := "ProviderData") hspec (by decide)
  constructor
  · rintro ⟨spec', data', merged', hspec', hdata', hdecode', hlaw⟩
    obtain rfl := Except.ok.inj (hspec.symm.trans hspec')
    obtain rfl := Except.ok.inj (hdata.symm.trans hdata')
    obtain rfl := Value.object.inj (Except.ok.inj (hdecode.symm.trans hdecode'))
    constructor
    · -- the provider data itself is still under its tag
      have hkey := (hmerged providerDataTag).symm.trans (hlaw providerDataTag)
      rw [if_neg (by decide), if_pos rfl, htag, Option.or_none] at hkey
      by_contra habsent
      rw [(hnone _).mpr habsent] at hkey
      cases hkey
    · -- a member of this name has been removed
      have hkey := (hmerged "ProviderData").symm.trans (hlaw "ProviderData")
      rw [if_pos rfl, hfield, Option.or_none] at hkey
      exact (hnone _).mp hkey.symm
  · rintro ⟨hpresent, habsent⟩
    refine ⟨spec, data, merged, hspec, hdata, hdecode, fun k => ?_⟩
    rw [hmerged]
    split
    · rename_i hk
      rw [hk, (hnone _).mpr habsent, hfield]
      rfl
    · split
      · rename_i hk
        rw [hk]
        cases hlookup : (collect data []).lookup providerDataTag with
        | none => exact absurd hpresent ((hnone _).mp hlookup)
        | some v => rfl
      · rfl

/-- **The Iut of an Environment** is the specification overlaid by the provider data if and only if the provider data
    has the tag of the provider data among its keys, but not the name of the field. -/
theorem iut_merge_iff {marshal : Marshal} (hmarshal : marshal.iut = marshalIut text)
    (hfloat : ∀ x, text.parseFloat (text.formatFloat x) = some x) {index : Nat} {tests : List Test}
    {request : EnvironmentRequest} {iut : Iut} {executionSpace : ExecutionSpace} {logArea : LogArea}
    {result : Option Err} {log : List (Said Op Ans)} {e : Environment}
    (h : (CreateEnvironment marshal index tests request iut executionSpace logArea).Returns result log)
    (he : e ∈ createdEnvironments log) {raw : Json} {members : List (String × Document)}
    (hraw : iut.spec.providerData = some raw) (hscan : text.scan raw = .ok (.object members)) :
    ∃ d, fakeIut.MarshalJSON text iut.spec = .ok d ∧ e.spec.iut = some (text.print d) ∧
      (Merged text iut.spec members d ↔
        providerDataTag ∈ members.map Prod.fst ∧ "ProviderData" ∉ members.map Prod.fst) := by
  obtain ⟨_, _, iutJson, -, -, hiut, rfl⟩ := CreateEnvironment_created h he
  rw [hmarshal] at hiut
  obtain ⟨d, hd, rfl⟩ := map_eq_ok hiut
  exact ⟨d, hd, rfl, marshalJSON_merged_iff hfloat hraw hscan hd⟩

section

mutual

/-- Documents without anything to escape. -/
def plainText : Document → String
  | .null => "null"
  | .bool b => toString b
  | .number literal => literal
  | .string s => "\"" ++ s ++ "\""
  | .array items => "[" ++ ",".intercalate (plainItems items) ++ "]"
  | .object members => "\x7b" ++ ",".intercalate (plainMembers members) ++ "\x7d"

def plainItems : List Document → List String
  | [] => []
  | d :: items => plainText d :: plainItems items

def plainMembers : List (String × Document) → List String
  | [] => []
  | (key, d) :: members => ("\"" ++ key ++ "\":" ++ plainText d) :: plainMembers members

end

/-- Natural numbers, and the texts of some documents. -/
def plainJson (documents : List Document) : JsonText Nat where
  scan raw :=
    match documents.find? (plainText · = raw) with
    | some d => .ok d
    | none => .error (.new "unexpected end of JSON input")
  print := plainText
  parseFloat literal := if literal.toList.all Char.isDigit then some (Nat.ofDigitChars 10 literal.toList 0) else none
  formatFloat := Nat.repr

theorem plainJson_float (documents : List Document) (x : Nat) :
    (plainJson documents).parseFloat ((plainJson documents).formatFloat x) = some x := by
  show (if x.repr.toList.all Char.isDigit then some (Nat.ofDigitChars 10 x.repr.toList 0) else none) = some x
  rw [Nat.toList_repr, if_pos, Nat.ofDigitChars_ten_toDigits]
  exact List.all_eq_true.mpr fun c hc => Nat.isDigit_of_mem_toDigits (by decide) (by decide) hc

/-- An Iut with provider data. -/
def iutWith (data : Document) : Iut :=
  { metadata := { name := "iut" }
    spec :=
      { id := "id"
        deadline := 100
        identity := "pkg:iut"
        environmentRequest := "request"
        providerID := "provider"
        providerData := some (plainText data) }
    status := {} }


theorem scan_plain (d : Document) : (plainJson [d]).scan (plainText d) = .ok d := by
  show (match [d].find? (plainText · = plainText d) with | some d => .ok d | none => _) = Except.ok d
  rw [List.find?_cons_of_pos (by simp)]

/-- Provider data that has the tag of the provider data. -/
def taggedData : Document := .object [("provider_data", .string "kept"), ("ip", .string "10.0.0.1")]

theorem marshal_tagged : fakeIut.MarshalJSON (plainJson [taggedData]) (iutWith taggedData).spec = .ok (.object
    [("deadline", .number "100"), ("environmentRequest", .string "request"), ("id", .string "id"),
      ("identity", .string "pkg:iut"), ("ip", .string "10.0.0.1"), ("provider_data", .string "kept"),
      ("provider_id", .string "provider")]) := by
  rw [marshalJSON_scanned rfl (scan_plain taggedData)]
  rfl


def plainMarshal (data : Document) : Marshal := ⟨fun _ => .ok "", fun _ => .ok "", marshalIut (plainJson [data])⟩

/-- An Environment is created with the Iut. -/
theorem plain_created {data d : Document} (h : fakeIut.MarshalJSON (plainJson [data]) (iutWith data).spec = .ok d) :
    ∃ e log, (CreateEnvironment (plainMarshal data) 0 [] ⟨{}, {}, {}⟩ (iutWith data) ⟨{}, {}, {}⟩ ⟨{}, {}, {}⟩).Returns
      none log ∧ e ∈ createdEnvironments log ∧ e.spec.iut = some (plainText d) := by
  have hiut : (plainMarshal data).iut (iutWith data).spec = .ok (plainText d) := by
    show (fakeIut.MarshalJSON (plainJson [data]) (iutWith data).spec).map plainText = _
    rw [h]
    rfl
  unfold CreateEnvironment
  rw [hiut]
  exact ⟨_, _, ⟨.ok ⟨{}, {}, {}⟩, _, rfl, rfl, rfl⟩, List.mem_singleton_self _, rfl⟩

/-- Provider data with its tag is merged. -/
theorem tagged_data_merged : ∃ e log d,
    (CreateEnvironment (plainMarshal taggedData) 0 [] ⟨{}, {}, {}⟩ (iutWith taggedData) ⟨{}, {}, {}⟩
      ⟨{}, {}, {}⟩).Returns none log ∧ e ∈ createdEnvironments log ∧ e.spec.iut = some (plainText d) ∧
    Merged (plainJson [taggedData]) (iutWith taggedData).spec
      [("provider_data", .string "kept"), ("ip", .string "10.0.0.1")] d := by
  obtain ⟨e, log, hrun, he, -⟩ := plain_created marshal_tagged
  obtain ⟨d, -, hprint, hmerged⟩ := iut_merge_iff rfl (plainJson_float _) hrun he rfl (scan_plain taggedData)
  exact ⟨e, log, d, hrun, he, hprint, hmerged.mpr ⟨by decide, by decide⟩⟩

/-- Provider data without. -/
def untaggedData : Document := .object [("ip", .string "10.0.0.1")]

/-- **The provider data of an Iut stays in the Environment** next to what was merged of it. -/
theorem provider_data_left : ∃ e log d,
    (CreateEnvironment (plainMarshal untaggedData) 0 [] ⟨{}, {}, {}⟩ (iutWith untaggedData) ⟨{}, {}, {}⟩
      ⟨{}, {}, {}⟩).Returns none log ∧ e ∈ createdEnvironments log ∧ e.spec.iut = some (plainText d) ∧
    d = .object [("deadline", .number "100"), ("environmentRequest", .string "request"), ("id", .string "id"),
      ("identity", .string "pkg:iut"), ("ip", .string "10.0.0.1"),
      ("provider_data", .object [("ip", .string "10.0.0.1")]), ("provider_id", .string "provider")] ∧
    ¬ Merged (plainJson [untaggedData]) (iutWith untaggedData).spec [("ip", .string "10.0.0.1")] d := by
  have hmarshal : fakeIut.MarshalJSON (plainJson [untaggedData]) (iutWith untaggedData).spec = .ok (.object
      [("deadline", .number "100"), ("environmentRequest", .string "request"), ("id", .string "id"),
        ("identity", .string "pkg:iut"), ("ip", .string "10.0.0.1"),
        ("provider_data", .object [("ip", .string "10.0.0.1")]), ("provider_id", .string "provider")]) := by
    rw [marshalJSON_scanned rfl (scan_plain untaggedData)]
    rfl
  obtain ⟨e, log, hrun, he, hprint⟩ := plain_created hmarshal
  refine ⟨e, log, _, hrun, he, hprint, rfl, fun hmerged => ?_⟩
  have hkeys := (marshalJSON_merged_iff (plainJson_float _) rfl (scan_plain untaggedData) hmarshal).mp hmerged
  exact absurd hkeys.1 (by decide)

end

end Etos
