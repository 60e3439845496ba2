import Mathlib.Data.Finset.Card
import Etos.Encoding.Utf8
import Etos.Lists.Dict
import Etos.Text.Python

/-!
# `Cli.Baggage` — the baggage header of a testrun

`shared/baggage.py`, and how the client of `v1alpha` uses it: the members of `BAGGAGE` are parsed, `correlation_id` and
`parent_activity` are added, and the header is built. `add` refuses to add to 64 members, whether the key is new or not,
and the client does not handle that; `string` refuses more than 64 members, too many bytes and text that is not Unicode,
and the client leaves the header out. **`baggage_harmless_iff`**: the client is stopped exactly by 64 names, or by 63
that do not have `correlation_id` among them, and the header is left out without need exactly for bytes that are not
UTF-8.

What is written can be parsed again: **`string_parseBaggage`** says that the members, their values and their order are
the same, so that a header that is passed on does not change.
-/

namespace Etos.Cli

open Encoding Etos.Lists Text

/-! ## Texts -/

/-- A character of a `str` from the environment: a byte that is not part of UTF-8 is a surrogate of its own. -/
inductive PyChar where
  | char (c : Char)
  | escaped (b : UInt8)
  deriving DecidableEq

abbrev PyStr := List PyChar

def pyStr (s : List Char) : PyStr := s.map .char

def PyChar.isSpace : PyChar → Bool
  | .char c => Text.isSpace c
  | .escaped _ => false

/-- `s.encode("utf-8")`. -/
def encodeUtf8 : PyStr → Option (List UInt8)
  | [] => some []
  | .char c :: s => (encodeUtf8 s).map (String.utf8EncodeChar c ++ ·)
  | .escaped _ :: _ => none

/-- The bytes of a text, in the environment as in a header. -/
def size (s : PyStr) : Nat :=
  (s.map fun
    | .char c => c.utf8Size
    | .escaped _ => 1).sum

/-! ## Baggage -/

def maxSizeBytes : Nat := 8192

def maxListMembers : Nat := 64

/-- The value of a member. `parent_activity` may be `None`. -/
inductive BaggageValue where
  | text (s : PyStr)
  | list (values : List PyStr)
  | none

/-- `f"{value}"`, of a list after `";".join(value)`. -/
def BaggageValue.format : BaggageValue → PyStr
  | .text s => s
  | .list values => [PyChar.char ';'].intercalate values
  | .none => pyStr "None".toList

abbrev Baggage := List (PyStr × BaggageValue)

/-- The exceptions of baggage, all of them `ValueError`s. -/
inductive BaggageError where
  | tooManyMembers
  | tooLong
  | unicodeEncodeError

namespace Baggage

/-- The value of an item: with a semicolon, a list. -/
def parseValue (value : PyStr) : BaggageValue :=
  if (value.splitOn (.char ';')).length > 1 then
    .list ((value.splitOn (.char ';')).map (stripBy PyChar.isSpace))
  else .text (stripBy PyChar.isSpace value)

/-- One item of a baggage string. -/
def parseItem (item : PyStr) : Option (PyStr × BaggageValue) :=
  (splitOnce (.char '=') item).map fun p => (stripBy PyChar.isSpace p.1, parseValue p.2)

/-- The items that have a key, in order. -/
def items (baggageStr : PyStr) : List (PyStr × BaggageValue) := (baggageStr.splitOn (.char ',')).filterMap parseItem

/-- `__parse_baggage`. -/
def parseBaggage (baggageStr : PyStr) : Baggage := (items baggageStr).foldl (fun m p => setItem p.1 p.2 m) []

/-- `from_env`. -/
def fromEnv (env : Option PyStr) : Baggage := parseBaggage (env.getD [])

/-- `add`. -/
def add (key : PyStr) (value : BaggageValue) (b : Baggage) : Except BaggageError Baggage :=
  if b.length = maxListMembers then .error .tooManyMembers else .ok (setItem key value b)

/-- A member, as a header has it. -/
def memberText (p : PyStr × BaggageValue) : PyStr := p.1 ++ .char '=' :: p.2.format

/-- The members, as a header has them. -/
def render (b : Baggage) : PyStr := [PyChar.char ','].intercalate (b.map memberText)

/-- `string`. -/
def string (b : Baggage) : Except BaggageError PyStr :=
  if b.length > maxListMembers then .error .tooManyMembers
  else
    match encodeUtf8 (render b) with
    | none => .error .unicodeEncodeError
    | some bytes => if bytes.length > maxSizeBytes then .error .tooLong else .ok (render b)

end Baggage

/-! ## The client -/

def correlationIdKey : PyStr := pyStr "correlation_id".toList

def parentActivityKey : PyStr := pyStr "parent_activity".toList

/-- `Etos.headers`: the baggage header, if there is one. -/
def headers (b : Baggage) : Option PyStr :=
  match b.string with
  | .ok s => some s
  | .error _ => none

/-- What `parent_activity` is set to. -/
def parentActivity : Option (List Char) → BaggageValue
  | some activity => .text (pyStr activity)
  | none => .none

/-- From the construction of the client to the headers of the request that starts the testrun. -/
def startHeaders (env : Option PyStr) (correlationId : List Char) (parent : Option (List Char)) :
    Except BaggageError (Option PyStr) := do
  let b ← (Baggage.fromEnv env).add correlationIdKey (.text (pyStr correlationId))
  let b ← b.add parentActivityKey (parentActivity parent)
  .ok (headers b)

/-! ## What is expected -/

/-- All members: those of the environment, and those that the client adds. -/
def allMembers (env : Option PyStr) (correlationId : List Char) (parent : Option (List Char)) : Baggage :=
  setItem parentActivityKey (parentActivity parent)
    (setItem correlationIdKey (.text (pyStr correlationId)) (Baggage.fromEnv env))

/-- More than the limits allow. -/
def Baggage.Exceeds (b : Baggage) : Prop := b.length > maxListMembers ∨ size b.render > maxSizeBytes

/-- Nothing is raised, and the header has all members or is left out because of the limits. -/
def Harmless (env : Option PyStr) (correlationId : List Char) (parent : Option (List Char)) : Prop :=
  ∃ header, startHeaders env correlationId parent = .ok header ∧
    (header = some (allMembers env correlationId parent).render ∨
      header = none ∧ (allMembers env correlationId parent).Exceeds)

/-- The names of the members in the environment. -/
def memberNames (env : Option PyStr) : Finset PyStr :=
  (((env.getD []).splitOn (.char ',')).filterMap fun item =>
    (splitOnce (.char '=') item).map fun p => stripBy PyChar.isSpace p.1).toFinset

/-- There are no bytes that are not UTF-8. -/
def Unicode (s : PyStr) : Prop := ∀ c ∈ s, ∃ ch, c = .char ch

/-! ## Encoding -/

theorem encodeUtf8_isSome_iff (s : PyStr) : (∃ bytes, encodeUtf8 s = some bytes) ↔ Unicode s := by
  induction s with
  | nil => exact iff_of_true ⟨[], rfl⟩ nofun
  | cons c s ih =>
      unfold Unicode
      rw [List.forall_mem_cons]
      cases c with
      | char c =>
          rw [and_iff_right ⟨c, rfl⟩]
          show (∃ bytes, (encodeUtf8 s).map _ = some bytes) ↔ Unicode s
          rw [← ih]
          cases encodeUtf8 s with
          | none => exact iff_of_false nofun nofun
          | some bytes => exact iff_of_true ⟨_, rfl⟩ ⟨_, rfl⟩
      | escaped b => exact iff_of_false nofun fun h => nomatch h.1

theorem length_encodeUtf8 {s : PyStr} {bytes : List UInt8} (h : encodeUtf8 s = some bytes) : bytes.length = size s := by
  induction s generalizing bytes with
  | nil =>
      cases h
      rfl
  | cons c s ih =>
      cases c with
      | char c =>
          obtain ⟨rest, hrest, rfl⟩ := Option.map_eq_some_iff.mp h
          rw [List.length_append, String.length_utf8EncodeChar, ih hrest]
          rfl
      | escaped b => cases h

/-- What becomes of the header. -/
theorem headers_eq (b : Baggage) :
    (headers b = some b.render ∧ ¬ b.Exceeds ∧ Unicode b.render) ∨
      (headers b = none ∧ (b.Exceeds ∨ ¬ Unicode b.render)) := by
  unfold headers Baggage.string
  by_cases hmembers : b.length > maxListMembers
  · rw [if_pos hmembers]
    exact .inr ⟨rfl, .inl (.inl hmembers)⟩
  · rw [if_neg hmembers]
    cases hencode : encodeUtf8 b.render with
    | none =>
        refine .inr ⟨rfl, .inr fun hunicode => ?_⟩
        obtain ⟨bytes, hbytes⟩ := (encodeUtf8_isSome_iff _).mpr hunicode
        rw [hencode] at hbytes
        cases hbytes
    | some bytes =>
        have hsize := length_encodeUtf8 hencode
        simp only [hsize]
        by_cases hlong : size b.render > maxSizeBytes
        · rw [if_pos hlong]
          exact .inr ⟨rfl, .inl (.inr hlong)⟩
        · rw [if_neg hlong]
          exact .inl ⟨rfl, fun h => h.elim hmembers hlong, (encodeUtf8_isSome_iff _).mp ⟨bytes, hencode⟩⟩

/-! ## Counting -/

/-- The names of members. -/
def Baggage.names (b : Baggage) : Finset PyStr := (b.map Prod.fst).toFinset

/-- No name twice. -/
def Baggage.Distinct (b : Baggage) : Prop := (b.map Prod.fst).Nodup

theorem Baggage.Distinct.length_eq {b : Baggage} (h : b.Distinct) : b.length = b.names.card := by
  rw [Baggage.names, List.toFinset_card_of_nodup h, List.length_map]

theorem Baggage.names_setItem (key : PyStr) (value : BaggageValue) (b : Baggage) :
    Baggage.names (setItem key value b) = insert key b.names := by
  ext k
  simp only [names, List.mem_toFinset, Finset.mem_insert]
  exact mem_keys_setItem

theorem Baggage.fromEnv_distinct (env : Option PyStr) : (Baggage.fromEnv env).Distinct :=
  (keys_foldl_setItem (items (env.getD [])) [] List.nodup_nil).1

/-- The names that are parsed. -/
theorem Baggage.names_fromEnv (env : Option PyStr) : (Baggage.fromEnv env).names = memberNames env := by
  have hitems : (items (env.getD [])).map Prod.fst = ((env.getD []).splitOn (.char ',')).filterMap fun item =>
      (splitOnce (.char '=') item).map fun p => stripBy PyChar.isSpace p.1 := by
    unfold items
    rw [List.map_filterMap]
    refine List.filterMap_congr fun item _ => ?_
    unfold parseItem
    rw [Option.map_map]
    rfl
  ext k
  rw [memberNames, ← hitems, names, List.mem_toFinset, List.mem_toFinset]
  exact ((keys_foldl_setItem (items (env.getD [])) [] List.nodup_nil).2 k).trans (by simp)

theorem Baggage.add_full {b : Baggage} (h : b.length = 64) (key : PyStr) (value : BaggageValue) :
    b.add key value = .error .tooManyMembers := if_pos h

theorem Baggage.add_ok {b : Baggage} (h : b.length ≠ 64) (key : PyStr) (value : BaggageValue) :
    b.add key value = .ok (setItem key value b) := if_neg h

/-- The two additions: each fails at 64 members. -/
theorem startHeaders_eq (env : Option PyStr) (correlationId : List Char) (parent : Option (List Char)) :
    startHeaders env correlationId parent =
      if (memberNames env).card = 64 ∨ (insert correlationIdKey (memberNames env)).card = 64 then
        .error .tooManyMembers
      else .ok (headers (allMembers env correlationId parent)) := by
  have hfirst : (Baggage.fromEnv env).length = (memberNames env).card := by
    rw [(Baggage.fromEnv_distinct env).length_eq, Baggage.names_fromEnv]
  have hsecond : (setItem correlationIdKey (.text (pyStr correlationId)) (Baggage.fromEnv env)).length =
      (insert correlationIdKey (memberNames env)).card := by
    have hdistinct := nodup_keys_setItem (Baggage.fromEnv_distinct env) correlationIdKey (.text (pyStr correlationId))
    rw [Baggage.Distinct.length_eq hdistinct, Baggage.names_setItem, Baggage.names_fromEnv]
  unfold startHeaders
  by_cases h₁ : (memberNames env).card = 64
  · rw [Baggage.add_full (hfirst.trans h₁), if_pos (.inl h₁)]
    rfl
  · rw [Baggage.add_ok (hfirst ▸ h₁)]
    show (Baggage.add parentActivityKey (parentActivity parent)
      (setItem correlationIdKey _ (Baggage.fromEnv env))).bind _ = _
    by_cases h₂ : (insert correlationIdKey (memberNames env)).card = 64
    · rw [Baggage.add_full (hsecond.trans h₂), if_pos (.inr h₂)]
      rfl
    · rw [Baggage.add_ok (hsecond ▸ h₂), if_neg fun h => h.elim h₁ h₂]
      rfl

/-- **When baggage is harmless**: unless the environment has 64 names, or has with `correlation_id` 64 names, or has
    bytes that are not UTF-8 in its members, within the limits. -/
theorem baggage_harmless_iff (env : Option PyStr) (correlationId : List Char) (parent : Option (List Char)) :
    Harmless env correlationId parent ↔
      (memberNames env).card ≠ 64 ∧ (insert correlationIdKey (memberNames env)).card ≠ 64 ∧
      (Unicode (allMembers env correlationId parent).render ∨ (allMembers env correlationId parent).Exceeds) := by
  unfold Harmless
  rw [startHeaders_eq, ← and_assoc, ← not_or]
  by_cases hfull : (memberNames env).card = 64 ∨ (insert correlationIdKey (memberNames env)).card = 64
  · rw [if_pos hfull]
    exact iff_of_false nofun fun h => h.1 hfull
  · rw [if_neg hfull, and_iff_right hfull]
    rcases headers_eq (allMembers env correlationId parent) with ⟨hheader, -, hunicode⟩ | ⟨hheader, hdropped⟩
    · exact iff_of_true ⟨_, rfl, .inl hheader⟩ (.inl hunicode)
    · constructor
      · rintro ⟨header, hok, hcases⟩
        cases hok
        rw [hheader] at hcases
        rcases hcases with hsome | ⟨-, hexceeds⟩
        · cases hsome
        · exact .inr hexceeds
      · rintro (hunicode | hexceeds)
        · exact ⟨_, rfl, .inr ⟨hheader, hdropped.resolve_right (not_not.mpr hunicode)⟩⟩
        · exact ⟨_, rfl, .inr ⟨hheader, hexceeds⟩⟩

/-- `a0=,a1=,...`. -/
def numbered (n : Nat) : PyStr :=
  pyStr ((List.range n).flatMap fun i => 'a' :: Nat.toDigits 10 i ++ "=,".toList)

/-- With 64 members the client is not constructed. -/
theorem sixtyFour_raises : ¬ Harmless (some (numbered 64)) "id".toList none := by
  have hlength : (Baggage.fromEnv (some (numbered 64))).length = 64 := by decide +kernel
  have hraises : startHeaders (some (numbered 64)) "id".toList none = .error .tooManyMembers := by
    unfold startHeaders
    rw [Baggage.add_full hlength]
    rfl
  rintro ⟨header, hok, -⟩
  rw [hraises] at hok
  cases hok

/-! ## Parsing a header -/

namespace Baggage

theorem not_mem_strip {c : PyChar} {s : PyStr} (h : c ∉ s) : c ∉ stripBy PyChar.isSpace s := fun hc =>
  h ((stripBy_isInfix _ s).subset hc)

/-- A value is parsed from its own text. -/
theorem parseValue_format (value : PyStr) : parseValue (parseValue value).format = parseValue value := by
  have hcases : parseValue value = if (value.splitOn (.char ';')).length > 1 then
      .list ((value.splitOn (.char ';')).map (stripBy PyChar.isSpace)) else .text (stripBy PyChar.isSpace value) := rfl
  by_cases hlist : (value.splitOn (.char ';')).length > 1
  · -- the stripped values are the pieces between the semicolons
    have hpieces : ([PyChar.char ';'].intercalate ((value.splitOn (.char ';')).map (stripBy PyChar.isSpace))).splitOn
        (.char ';') = (value.splitOn (.char ';')).map (stripBy PyChar.isSpace) := by
      refine List.splitOn_intercalate _ ?_ ?_
      · intro v hv
        obtain ⟨piece, hpiece, rfl⟩ := List.mem_map.mp hv
        exact not_mem_strip (mem_splitOn hpiece).1
      · simp
    rw [if_pos hlist] at hcases
    rw [hcases, BaggageValue.format, parseValue, hpieces, List.length_map, if_pos hlist, List.map_map]
    congr 2
    exact funext fun v => stripBy_idem _ v
  · have hplain : PyChar.char ';' ∉ value := by
      obtain ⟨first, rest, hsplit⟩ := List.exists_cons_of_ne_nil (List.splitOn_ne_nil (PyChar.char ';') value)
      rw [hsplit, List.length_cons] at hlist
      have hrest : rest = [] := List.eq_nil_of_length_eq_zero (by omega)
      have hvalue : [PyChar.char ';'].intercalate (value.splitOn (.char ';')) = value := List.intercalate_splitOn _
      rw [hsplit, hrest, List.intercalate_singleton] at hvalue
      have hfirst := mem_splitOn (hsplit ▸ List.mem_cons_self)
      exact hvalue ▸ hfirst.1
    rw [if_neg hlist] at hcases
    rw [hcases, BaggageValue.format, parseValue, List.splitOn_eq_singleton (not_mem_strip hplain), if_neg (by simp),
      stripBy_idem]

/-- What is parsed from an item is parsed from its own text. -/
theorem parseItem_memberText {item : PyStr} {p : PyStr × BaggageValue} (h : parseItem item = some p) :
    parseItem (memberText p) = some p := by
  rw [parseItem] at h
  obtain ⟨⟨key, value⟩, hsplit, rfl⟩ := Option.map_eq_some_iff.mp h
  have hkey := not_mem_strip (splitOnce_eq_some hsplit).2
  rw [memberText, parseItem, splitOnce_append hkey, Option.map_some, stripBy_idem, parseValue_format]

theorem mem_parseValue_format {c : PyChar} {value : PyStr} (h : c ∈ (parseValue value).format) :
    c = .char ';' ∨ c ∈ value := by
  unfold parseValue at h
  split at h
  · rcases mem_intercalate h with hc | ⟨v, hv, hc⟩
    · exact .inl hc
    · obtain ⟨piece, hpiece, rfl⟩ := List.mem_map.mp hv
      exact .inr ((mem_splitOn hpiece).2 ((stripBy_isInfix _ _).subset hc))
  · exact .inr ((stripBy_isInfix _ _).subset h)

/-- The text of a member has no comma. -/
theorem comma_not_mem_memberText {item : PyStr} {p : PyStr × BaggageValue} (h : parseItem item = some p)
    (hitem : PyChar.char ',' ∉ item) : PyChar.char ',' ∉ memberText p := by
  rw [parseItem] at h
  obtain ⟨⟨key, value⟩, hsplit, rfl⟩ := Option.map_eq_some_iff.mp h
  obtain ⟨rfl, -⟩ := splitOnce_eq_some hsplit
  intro hc
  rcases List.mem_append.mp hc with hc | hc
  · exact hitem (List.mem_append_left _ ((stripBy_isInfix _ _).subset hc))
  · rcases List.mem_cons.mp hc with hc | hc
    · exact absurd hc (by decide)
    · rcases mem_parseValue_format hc with hc | hc
      · exact absurd hc (by decide)
      · exact hitem (List.mem_append_right _ (List.mem_cons_of_mem _ hc))

/-- **A header has the members that it was made of**, in their order. -/
theorem parseBaggage_render (s : PyStr) : parseBaggage (render (parseBaggage s)) = parseBaggage s := by
  have hmembers : ∀ p ∈ parseBaggage s, parseItem (memberText p) = some p ∧ PyChar.char ',' ∉ memberText p := by
    intro p hp
    have hp : p ∈ items s := (mem_foldl_setItem hp).resolve_right List.not_mem_nil
    obtain ⟨item, hitem, hparse⟩ := List.mem_filterMap.mp hp
    exact ⟨parseItem_memberText hparse, comma_not_mem_memberText hparse (mem_splitOn hitem).1⟩
  have hitems : items (render (parseBaggage s)) = parseBaggage s := by
    rcases hempty : parseBaggage s with _ | ⟨p, rest⟩
    · rfl
    · rw [← hempty, items, render, List.splitOn_intercalate]
      · rw [List.filterMap_map]
        have hsome : (parseBaggage s).filterMap (parseItem ∘ memberText) = (parseBaggage s).filterMap some :=
          List.filterMap_congr fun p hp => (hmembers p hp).1
        rw [hsome, List.filterMap_some]
      · intro text htext
        obtain ⟨p, hp, rfl⟩ := List.mem_map.mp htext
        exact (hmembers p hp).2
      · simp [hempty]
  have hdistinct : (([] ++ parseBaggage s).map Prod.fst).Nodup := (keys_foldl_setItem (items s) [] List.nodup_nil).1
  have hfold := foldl_setItem_of_nodup hdistinct
  rw [parseBaggage, hitems, hfold, List.nil_append]

/-- What `string` returns. -/
theorem string_eq_ok {b : Baggage} {header : PyStr} (h : b.string = .ok header) : header = render b := by
  unfold string at h
  split at h
  · cases h
  · split at h
    · cases h
    · split at h
      · cases h
      · cases h
        rfl

/-- **One pass is enough**: if the members of a text can be written, then what is written has the same members, and is
    written as it is. -/
theorem string_parseBaggage {s header : PyStr} (h : (parseBaggage s).string = .ok header) :
    parseBaggage header = parseBaggage s ∧ (parseBaggage header).string = .ok header := by
  have hsame : parseBaggage header = parseBaggage s := by
    rw [string_eq_ok h]
    exact parseBaggage_render s
  refine ⟨hsame, ?_⟩
  rw [hsame]
  exact h

/-- An empty key, an item without a value, a list, and a key that comes again. -/
theorem string_untidy :
    (parseBaggage (pyStr " a = 1 ,b, =x; y ,a==2".toList)).string = .ok (pyStr "a==2,=x;y".toList) ∧
      parseBaggage (pyStr "a==2,=x;y".toList) = parseBaggage (pyStr " a = 1 ,b, =x; y ,a==2".toList) := by
  have hstring : (parseBaggage (pyStr " a = 1 ,b, =x; y ,a==2".toList)).string = .ok (pyStr "a==2,=x;y".toList) := by
    rfl
  exact ⟨hstring, (string_parseBaggage hstring).1⟩

end Baggage

end Etos.Cli
