import Mathlib.Data.List.Basic
import Mathlib.Data.Fintype.Basic
import Etos.Encoding.Utf8

/-!
# `Url.Escape` — percent-encoding

Escaping and unescaping as Go's `net/url` does it, byte by byte, with a mode for each part of a URL. Unescaping undoes
escaping in the parts that take any text (`unescape_escape`); in a host only what a host may contain comes back
(`unescape_escape_host`). Text with a percent sign in it gets shorter by unescaping (`unescape_length`), so it is never
its own meaning.
-/

namespace Etos.Url

/-- An ASCII character. -/
def byte (c : Char) : UInt8 := UInt8.ofNat c.toNat

/-- ASCII text. -/
def bytes (s : String) : Bytes := s.toList.map byte

/-- The parts of a URL: `encodePath`, `encodeUserPassword`, `encodeHost`, `encodeZone` and `encodeFragment`. -/
inductive Encoding where
  | path | userPassword | host | zone | fragment
  deriving DecidableEq

def isDigit (c : UInt8) : Bool := byte '0' ≤ c && c ≤ byte '9'

def isAlphanumeric (c : UInt8) : Bool :=
  byte 'a' ≤ c && c ≤ byte 'z' || byte 'A' ≤ c && c ≤ byte 'Z' || isDigit c

/-- `shouldEscape`. -/
def shouldEscape (c : UInt8) (mode : Encoding) : Bool :=
  if isAlphanumeric c then false
  else if (mode = .host || mode = .zone) && (bytes "!$&'()*+,;=:[]<>\"").contains c then false
  else if (bytes "-_.~").contains c then false
  else if (bytes "$&+,/:;=?@").contains c && mode = .path then c = byte '?'
  else if (bytes "$&+,/:;=?@").contains c && mode = .userPassword then (bytes "@/?:").contains c
  else if (bytes "$&+,/:;=?@!()*").contains c && mode = .fragment then false
  else true

/-- `ishex`. -/
def ishex (c : UInt8) : Bool :=
  isDigit c || byte 'a' ≤ c && c ≤ byte 'f' || byte 'A' ≤ c && c ≤ byte 'F'

/-- `unhex`. -/
def unhex (c : UInt8) : UInt8 :=
  if isDigit c then c - byte '0'
  else if byte 'a' ≤ c && c ≤ byte 'f' then c - byte 'a' + 10
  else if byte 'A' ≤ c && c ≤ byte 'F' then c - byte 'A' + 10
  else 0

/-- `upperhex[n]`. -/
def upperhex (n : UInt8) : UInt8 := if n < 10 then byte '0' + n else byte 'A' + (n - 10)

def percent : UInt8 := byte '%'

def escapeByte (mode : Encoding) (c : UInt8) : Bytes :=
  if shouldEscape c mode then [percent, upperhex (c >>> 4), upperhex (c &&& 15)] else [c]

/-- `escape`. -/
def escape (s : Bytes) (mode : Encoding) : Bytes := s.flatMap (escapeByte mode)

/-- The byte of an escape sequence. -/
def escaped (a b : UInt8) : UInt8 := unhex a <<< 4 ||| unhex b

/-- May `%ab` stand in this part? In a host only non-ASCII bytes are escaped, and the percent sign before a zone; in a
    zone whatever a host may contain, and spaces. -/
def allowsEscape (mode : Encoding) (a b : UInt8) : Bool :=
  match mode with
  | .host => !(unhex a < 8) || [a, b] == bytes "25"
  | .zone => [a, b] == bytes "25" || escaped a b == byte ' ' || !shouldEscape (escaped a b) .host
  | _ => true

/-- May the byte stand in this part as it is? -/
def allowsByte (mode : Encoding) (c : UInt8) : Bool :=
  match mode with
  | .host | .zone => !(c < 0x80 && shouldEscape c mode)
  | _ => true

/-- `unescape`. -/
def unescape (mode : Encoding) : Bytes → Option Bytes
  | [] => some []
  | c :: s =>
      if c = percent then
        match s with
        | a :: b :: rest =>
            if ishex a && ishex b && allowsEscape mode a b then (unescape mode rest).map (escaped a b :: ·) else none
        | _ => none
      else if allowsByte mode c then (unescape mode s).map (c :: ·)
      else none

/-! ## All bytes -/

theorem forall_byte {p : UInt8 → Prop} (h : ∀ n : Fin 256, p (UInt8.ofNat n.val)) (c : UInt8) : p c := by
  have hc := h ⟨c.toNat, UInt8.toNat_lt c⟩
  rwa [UInt8.ofNat_toNat] at hc

theorem forall_mem {s : Bytes} {p : UInt8 → Prop} [DecidablePred p] (h : s.all (fun c => decide (p c)) = true) :
    ∀ c ∈ s, p c := by
  simpa using h

theorem ishex_upper : ∀ c : UInt8, ishex (upperhex (c >>> 4)) = true ∧ ishex (upperhex (c &&& 15)) = true :=
  forall_byte (by decide +kernel)

theorem escaped_upper : ∀ c : UInt8, escaped (upperhex (c >>> 4)) (upperhex (c &&& 15)) = c :=
  forall_byte (by decide +kernel)

theorem isAlphanumeric_of_ishex : ∀ c : UInt8, ishex c = true → isAlphanumeric c = true :=
  forall_byte (by decide +kernel)

theorem ishex_ne_percent (c : UInt8) (h : ishex c = true) : c ≠ percent := by
  rintro rfl
  exact absurd h (by decide)

/-- Only the percent sign is escaped as `%25`. -/
theorem eq_percent_of_upper {c : UInt8} (h : [upperhex (c >>> 4), upperhex (c &&& 15)] = bytes "25") : c = percent := by
  have hdigits : bytes "25" = [byte '2', byte '5'] := by decide
  rw [hdigits] at h
  obtain ⟨hhigh, hlow⟩ := List.cons.inj h
  have hc := escaped_upper c
  rw [hhigh, (List.cons.inj hlow).1] at hc
  exact hc.symm.trans (by decide)

/-! ## What is escaped -/

/-- The marks that stand in a part of a URL as they are. -/
def marks : Encoding → Bytes
  | .path => bytes "-_.~" ++ (bytes "$&+,/:;=?@").filter (· ≠ byte '?')
  | .userPassword => bytes "-_.~" ++ (bytes "$&+,/:;=?@").filter fun c => !(bytes "@/?:").contains c
  | .host | .zone => bytes "!$&'()*+,;=:[]<>\"" ++ bytes "-_.~"
  | .fragment => bytes "-_.~" ++ bytes "$&+,/:;=?@!()*"

/-- What is not escaped is a letter, a digit or one of the marks. -/
theorem shouldEscape_eq_false {mode : Encoding} {c : UInt8} :
    shouldEscape c mode = false ↔ isAlphanumeric c = true ∨ c ∈ marks mode := by
  unfold shouldEscape
  cases isAlphanumeric c with
  | true => simp
  | false => cases mode <;> simp [marks] <;> grind

/-- The percent sign is escaped everywhere. -/
theorem shouldEscape_percent (mode : Encoding) : shouldEscape percent mode = true := by
  cases mode <;> decide

/-- What is escaped in a host comes back only if it is not ASCII, or the percent sign. -/
theorem allowsEscape_host (c : UInt8) (hc : c ≠ percent) (h : shouldEscape c .host = true) :
    allowsEscape .host (upperhex (c >>> 4)) (upperhex (c &&& 15)) = allowsByte .host c := by
  have hhigh : ∀ c : UInt8, unhex (upperhex (c >>> 4)) < 8 ↔ c < 0x80 := forall_byte (by decide +kernel)
  have hcode : ([upperhex (c >>> 4), upperhex (c &&& 15)] == bytes "25") = false :=
    beq_false_of_ne fun heq => hc (eq_percent_of_upper heq)
  simp only [allowsEscape, allowsByte, hcode, hhigh c, h, Bool.or_false, Bool.and_true]

/-! ## Unescaping -/

variable {mode m : Encoding} {c : UInt8} {s t : Bytes}

@[simp] theorem unescape_nil : unescape mode [] = some [] := by simp [unescape]

theorem unescape_cons (h : c ≠ percent) :
    unescape mode (c :: s) = if allowsByte mode c then (unescape mode s).map (c :: ·) else none := by
  rw [unescape.eq_def]
  exact if_neg h

theorem unescape_percent {a b : UInt8} : unescape mode (percent :: a :: b :: s) =
    if ishex a && ishex b && allowsEscape mode a b then (unescape mode s).map (escaped a b :: ·) else none := by
  rw [unescape.eq_def]
  exact if_pos rfl

/-- An escaped byte. -/
theorem unescape_escapeByte (h : shouldEscape c m = true) : unescape mode (escapeByte m c ++ s) =
    if allowsEscape mode (upperhex (c >>> 4)) (upperhex (c &&& 15)) then (unescape mode s).map (c :: ·) else none := by
  have hhex := ishex_upper c
  unfold escapeByte
  rw [if_pos h]
  show unescape mode (percent :: _ :: _ :: s) = _
  rw [unescape_percent, escaped_upper, hhex.1, hhex.2]
  rfl

/-- A byte that is not escaped. -/
theorem escapeByte_plain (h : shouldEscape c m = false) : escapeByte m c = [c] ∧ c ≠ percent := by
  refine ⟨?_, ?_⟩
  · unfold escapeByte
    rw [h]
    rfl
  · rintro rfl
    rw [shouldEscape_percent] at h
    cases h

/-- What an escaped byte consists of. -/
theorem mem_escapeByte {b : UInt8} (hb : b ∈ escapeByte mode c) :
    b = c ∧ shouldEscape c mode = false ∨ b = percent ∨ ishex b = true := by
  unfold escapeByte at hb
  split at hb
  · obtain ⟨hhigh, hlow⟩ := ishex_upper c
    rcases List.mem_cons.mp hb with rfl | hb
    · exact .inr (.inl rfl)
    · rcases List.mem_cons.mp hb with rfl | hb
      · exact .inr (.inr hhigh)
      · rw [List.mem_singleton.mp hb]
        exact .inr (.inr hlow)
  · rename_i hplain
    exact .inl ⟨List.mem_singleton.mp hb, by simpa using hplain⟩

/-- Escaping adds percent signs and hexadecimal digits, nothing else. -/
theorem not_mem_escapeByte {b : UInt8} (hne : c ≠ b) (hpercent : b ≠ percent) (hhex : ishex b = false) :
    b ∉ escapeByte mode c := by
  intro hb
  rcases mem_escapeByte hb with ⟨heq, -⟩ | heq | hb
  · exact hne heq.symm
  · exact hpercent heq
  · rw [hb] at hhex
    cases hhex

theorem escapeByte_ne_nil : escapeByte mode c ≠ [] := by
  unfold escapeByte
  split <;> exact List.cons_ne_nil _ _

@[simp] theorem escape_nil : escape [] mode = [] := rfl

theorem escape_cons : escape (c :: s) mode = escapeByte mode c ++ escape s mode := List.flatMap_cons

/-- What holds of letters, digits, the percent sign and the marks of a part holds of all text that is escaped for it. -/
theorem mem_escape {p : UInt8 → Prop} (halphanumeric : ∀ c, isAlphanumeric c = true → p c) (hpercent : p percent)
    (hmarks : ∀ c ∈ marks mode, p c) : ∀ b ∈ escape s mode, p b := by
  intro b hb
  obtain ⟨c, -, hb⟩ := List.mem_flatMap.mp hb
  rcases mem_escapeByte hb with ⟨rfl, hplain⟩ | rfl | hhex
  · rcases shouldEscape_eq_false.mp hplain with h | h
    · exact halphanumeric b h
    · exact hmarks b h
  · exact hpercent
  · exact halphanumeric b (isAlphanumeric_of_ishex b hhex)

/-- Unescaping gives back what was escaped or nothing, in whichever part of a URL the two take place. -/
theorem eq_of_unescape_escape (h : unescape mode (escape s m) = some t) : t = s := by
  induction s generalizing t with
  | nil => simpa using h.symm
  | cons c s ih =>
      rw [escape_cons] at h
      cases hc : shouldEscape c m with
      | true =>
          rw [unescape_escapeByte hc] at h
          split at h
          · obtain ⟨u, hu, rfl⟩ := Option.map_eq_some_iff.mp h
            rw [ih hu]
          · cases h
      | false =>
          obtain ⟨hplain, hne⟩ := escapeByte_plain hc
          rw [hplain, List.singleton_append, unescape_cons hne] at h
          split at h
          · obtain ⟨u, hu, rfl⟩ := Option.map_eq_some_iff.mp h
            rw [ih hu]
          · cases h

/-- **Unescaping undoes escaping** where any text may stand. -/
theorem unescape_escape (hmode : ∀ a b, allowsEscape mode a b = true) (hbyte : ∀ c, allowsByte mode c = true)
    (s : Bytes) : unescape mode (escape s mode) = some s := by
  induction s with
  | nil => rfl
  | cons c s ih =>
      rw [escape_cons]
      cases hc : shouldEscape c mode with
      | true =>
          rw [unescape_escapeByte hc, if_pos (hmode _ _), ih]
          rfl
      | false =>
          obtain ⟨hplain, hne⟩ := escapeByte_plain hc
          rw [hplain, List.singleton_append, unescape_cons hne, if_pos (hbyte c), ih]
          rfl

/-- In a host it makes no difference whether text without percent signs is escaped. -/
theorem unescape_escape_host (h : percent ∉ s) : unescape .host (escape s .host) = unescape .host s := by
  induction s with
  | nil => rfl
  | cons c s ih =>
      have hc : c ≠ percent := fun hc => h (hc ▸ List.mem_cons_self)
      have ih := ih fun hs => h (List.mem_cons_of_mem _ hs)
      rw [escape_cons, unescape_cons hc]
      cases he : shouldEscape c .host with
      | true => rw [unescape_escapeByte he, allowsEscape_host c hc he, ih]
      | false => rw [(escapeByte_plain he).1, List.singleton_append, unescape_cons hc, ih]

/-- Text without percent signs is its own meaning. -/
theorem eq_of_unescape (h : percent ∉ s) (ht : unescape mode s = some t) : t = s := by
  induction s generalizing t with
  | nil => simpa using ht.symm
  | cons c s ih =>
      have hc : c ≠ percent := fun hc => h (hc ▸ List.mem_cons_self)
      rw [unescape_cons hc] at ht
      split at ht
      · obtain ⟨u, hu, rfl⟩ := Option.map_eq_some_iff.mp ht
        rw [ih (fun hs => h (List.mem_cons_of_mem _ hs)) hu]
      · cases ht

theorem unescape_plain (hbyte : ∀ c, allowsByte mode c = true) (h : percent ∉ s) : unescape mode s = some s := by
  induction s with
  | nil => rfl
  | cons c s ih =>
      have hc : c ≠ percent := fun hc => h (hc ▸ List.mem_cons_self)
      rw [unescape_cons hc, if_pos (hbyte c), ih fun hs => h (List.mem_cons_of_mem _ hs)]
      rfl

/-- **Every percent sign makes the text shorter by two.** -/
theorem unescape_length (h : unescape mode s = some t) : t.length + 2 * s.count percent = s.length := by
  fun_induction unescape mode s generalizing t with
  | case1 => 
      cases h
      rfl
  | case2 a b rest hok ih =>
      obtain ⟨u, hu, rfl⟩ := Option.map_eq_some_iff.mp h
      have hlength := ih hu
      simp only [Bool.and_eq_true] at hok
      have ha := ishex_ne_percent a hok.1.1
      have hb := ishex_ne_percent b hok.1.2
      rw [List.count_cons_self, List.count_cons_of_ne ha, List.count_cons_of_ne hb]
      simp only [List.length_cons]
      omega
  | case3 => cases h
  | case4 => cases h
  | case5 c s hc hok ih =>
      obtain ⟨u, hu, rfl⟩ := Option.map_eq_some_iff.mp h
      have hlength := ih hu
      rw [List.count_cons_of_ne hc]
      simp only [List.length_cons]
      omega
  | case6 => cases h

end Etos.Url
