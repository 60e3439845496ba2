import Mathlib.Data.String.Basic
import Etos.Lists.Keyed

/-!
# `Encoding.Json` — JSON and the values it is decoded to

A *document* is a JSON text up to its spelling: objects keep the order of their members and may have a key twice, and
numbers are literals. A *value* is what a document is decoded to when its type is not known: the members of an object
are a map, in which the last member with a key counts, and a number is a floating-point number, or an error where there
is no such number. A value is written with the keys of its objects in order, and is read back as it was
(**`decode_encode`**).
-/

namespace Etos.Encoding

open Etos.Lists

/-- A JSON text. -/
inductive Document where
  | null
  | bool (b : Bool)
  | number (literal : String)
  | string (s : String)
  | array (items : List Document)
  | object (members : List (String × Document))

/-- What a document is decoded to. -/
inductive Value (F : Type) where
  | null
  | bool (b : Bool)
  | number (x : F)
  | string (s : String)
  | array (items : List (Value F))
  | object (members : List (String × Value F))

variable {F : Type} (parseFloat : String → Option F) (formatFloat : F → String)

mutual

/-- Decode a document. The error is the literal that is no number. -/
def decode : Document → Except String (Value F)
  | .null => .ok .null
  | .bool b => .ok (.bool b)
  | .number literal =>
      match parseFloat literal with
      | some x => .ok (.number x)
      | none => .error literal
  | .string s => .ok (.string s)
  | .array items => (decodeItems items).map .array
  | .object members => (decodeMembers members).map fun ms => .object (collect ms [])

def decodeItems : List Document → Except String (List (Value F))
  | [] => .ok []
  | d :: items => (decode d).bind fun v => (decodeItems items).map (v :: ·)

/-- Decode the members of an object, in their order. -/
def decodeMembers : List (String × Document) → Except String (List (String × Value F))
  | [] => .ok []
  | (key, d) :: members => (decode d).bind fun v => (decodeMembers members).map ((key, v) :: ·)

end

mutual

/-- Write a value. -/
def encode : Value F → Document
  | .null => .null
  | .bool b => .bool b
  | .number x => .number (formatFloat x)
  | .string s => .string s
  | .array items => .array (encodeItems items)
  | .object members => .object (encodeMembers members)

def encodeItems : List (Value F) → List Document
  | [] => []
  | v :: items => encode v :: encodeItems items

def encodeMembers : List (String × Value F) → List (String × Document)
  | [] => []
  | (key, v) :: members => (key, encode v) :: encodeMembers members

end

mutual

/-- How deep arrays and objects are nested. -/
def depth : Document → Nat
  | .array items => depthItems items + 1
  | .object members => depthMembers members + 1
  | _ => 0

def depthItems : List Document → Nat
  | [] => 0
  | d :: items => max (depth d) (depthItems items)

def depthMembers : List (String × Document) → Nat
  | [] => 0
  | (_, d) :: members => max (depth d) (depthMembers members)

end

/-- All objects are maps. -/
inductive Canonical : Value F → Prop where
  | null : Canonical .null
  | bool (b : Bool) : Canonical (.bool b)
  | number (x : F) : Canonical (.number x)
  | string (s : String) : Canonical (.string s)
  | array {items : List (Value F)} (h : ∀ v ∈ items, Canonical v) : Canonical (.array items)
  | object {members : List (String × Value F)} (hkeyed : Keyed members) (h : ∀ p ∈ members, Canonical p.2) :
      Canonical (.object members)

variable {parseFloat formatFloat}

theorem map_eq_ok {ε α β : Type} {f : α → β} {x : Except ε α} {b : β} (h : x.map f = .ok b) :
    ∃ a, x = .ok a ∧ f a = b := by
  cases x with
  | error e => cases h
  | ok a =>
      cases h
      exact ⟨a, rfl, rfl⟩

theorem bind_eq_ok {ε α β : Type} {f : α → Except ε β} {x : Except ε α} {b : β} (h : x.bind f = .ok b) :
    ∃ a, x = .ok a ∧ f a = .ok b := by
  cases x with
  | error e => cases h
  | ok a => exact ⟨a, rfl, h⟩

mutual

/-- The objects of a decoded document are maps. -/
theorem decode_canonical : ∀ (d : Document) {v : Value F}, decode parseFloat d = .ok v → Canonical v
  | .null, _, h => by
      cases h
      exact .null
  | .bool b, _, h => by
      cases h
      exact .bool b
  | .number literal, v, h => by
      rw [decode] at h
      split at h
      · cases h
        exact .number _
      · cases h
  | .string s, _, h => by
      cases h
      exact .string s
  | .array items, v, h => by
      obtain ⟨vs, hvs, rfl⟩ := map_eq_ok h
      exact .array (decodeItems_canonical items hvs)
  | .object members, v, h => by
      obtain ⟨ms, hms, rfl⟩ := map_eq_ok h
      -- the members are put in order as they are collected
      refine .object (Keyed.collect List.Pairwise.nil ms) fun p hp => ?_
      rcases mem_collect hp with hp | hp
      · exact decodeMembers_canonical members hms p hp
      · cases hp

theorem decodeItems_canonical : ∀ (items : List Document) {vs : List (Value F)},
    decodeItems parseFloat items = .ok vs → ∀ v ∈ vs, Canonical v
  | [], _, h => by
      cases h
      exact nofun
  | d :: items, _, h => by
      obtain ⟨v, hv, h⟩ := bind_eq_ok h
      obtain ⟨vs, hvs, rfl⟩ := map_eq_ok h
      intro w hw
      rcases List.mem_cons.mp hw with rfl | hw
      · exact decode_canonical d hv
      · exact decodeItems_canonical items hvs w hw

theorem decodeMembers_canonical : ∀ (members : List (String × Document)) {ms : List (String × Value F)},
    decodeMembers parseFloat members = .ok ms → ∀ p ∈ ms, Canonical p.2
  | [], _, h => by
      cases h
      exact nofun
  | (key, d) :: members, _, h => by
      obtain ⟨v, hv, h⟩ := bind_eq_ok h
      obtain ⟨ms, hms, rfl⟩ := map_eq_ok h
      intro p hp
      rcases List.mem_cons.mp hp with rfl | hp
      · exact decode_canonical d hv
      · exact decodeMembers_canonical members hms p hp

end

theorem decodeMembers_append {members members' : List (String × Document)} {ms : List (String × Value F)}
    (h : decodeMembers parseFloat (members ++ members') = .ok ms) :
    ∃ ms₁ ms₂, decodeMembers parseFloat members = .ok ms₁ ∧ decodeMembers parseFloat members' = .ok ms₂ ∧
      ms = ms₁ ++ ms₂ := by
  induction members generalizing ms with
  | nil => exact ⟨[], ms, rfl, h, rfl⟩
  | cons p members ih =>
      obtain ⟨v, hv, h⟩ := bind_eq_ok h
      obtain ⟨rest, hrest, rfl⟩ := map_eq_ok h
      obtain ⟨ms₁, ms₂, h₁, h₂, rfl⟩ := ih hrest
      refine ⟨(p.1, v) :: ms₁, ms₂, ?_, h₂, rfl⟩
      rw [decodeMembers, hv, h₁]
      rfl

theorem decodeMembers_keys {members : List (String × Document)} {ms : List (String × Value F)}
    (h : decodeMembers parseFloat members = .ok ms) : ms.map Prod.fst = members.map Prod.fst := by
  induction members generalizing ms with
  | nil =>
      cases h
      rfl
  | cons p members ih =>
      obtain ⟨v, hv, h⟩ := bind_eq_ok h
      obtain ⟨rest, hrest, rfl⟩ := map_eq_ok h
      rw [List.map_cons, List.map_cons, ih hrest]

theorem decodeItems_encode {items : List (Value F)}
    (h : ∀ v ∈ items, decode parseFloat (encode formatFloat v) = .ok v) :
    decodeItems parseFloat (encodeItems formatFloat items) = .ok items := by
  induction items with
  | nil => rfl
  | cons v items ih =>
      rw [encodeItems, decodeItems, h v List.mem_cons_self, ih fun w hw => h w (List.mem_cons_of_mem _ hw)]
      rfl

theorem decodeMembers_encode {members : List (String × Value F)}
    (h : ∀ p ∈ members, decode parseFloat (encode formatFloat p.2) = .ok p.2) :
    decodeMembers parseFloat (encodeMembers formatFloat members) = .ok members := by
  induction members with
  | nil => rfl
  | cons p members ih =>
      rw [encodeMembers, decodeMembers, h p List.mem_cons_self, ih fun q hq => h q (List.mem_cons_of_mem _ hq)]
      rfl

/-- **A written value is read back.** -/
theorem decode_encode (hfloat : ∀ x, parseFloat (formatFloat x) = some x) {v : Value F} (h : Canonical v) :
    decode parseFloat (encode formatFloat v) = .ok v := by
  induction h with
  | null => rfl
  | bool b => rfl
  | number x => rw [encode, decode, hfloat x]
  | string s => rfl
  | array _ ih =>
      rw [encode, decode, decodeItems_encode ih]
      rfl
  | object hkeyed _ ih =>
      -- in order already
      rw [encode, decode, decodeMembers_encode ih]
      exact congrArg (fun ms => Except.ok (Value.object ms)) (collect_of_keyed hkeyed)

end Etos.Encoding
