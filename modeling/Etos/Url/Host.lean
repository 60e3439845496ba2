import Mathlib.Data.List.TakeWhile
import Etos.Url.Parse

/-!
# `Url.Host` — what is read back from an escaped host

A host that is written into a URL is escaped, and read back from there. Read without having been escaped it is the same
host exactly if it has no percent sign (**`host_agrees_iff`**).
-/

namespace Etos.Url

open Etos.Lists

variable {ipLiteral : Bytes → Bool} {host s t u h : Bytes} {c : UInt8}

/-! ## Escaped hosts -/

theorem escapeByte_host_bracket : escapeByte .host (byte '[') = [byte '['] ∧ escapeByte .host (byte ']') = [byte ']'] ∧
    escapeByte .host (byte ':') = [byte ':'] := by decide

theorem shouldEscape_digit {mode : Encoding} (h : isDigit c = true) : shouldEscape c mode = false :=
  shouldEscape_eq_false.mpr (.inl (by unfold isAlphanumeric; rw [h, Bool.or_true]))

theorem all_isDigit_escapeByte (c : UInt8) : (escapeByte .host c).all isDigit = isDigit c := by
  cases he : shouldEscape c .host with
  | false =>
      rw [(escapeByte_plain he).1, List.all_cons, List.all_nil, Bool.and_true]
  | true =>
      have hpercent : isDigit percent = false := by decide
      have hdigit : isDigit c = false := by
        by_contra hdigit
        rw [shouldEscape_digit (by simpa using hdigit)] at he
        cases he
      unfold escapeByte
      rw [if_pos he, List.all_cons, hpercent, Bool.false_and, hdigit]

theorem all_isDigit_escape : (escape s .host).all isDigit = s.all isDigit := by
  induction s with
  | nil => rfl
  | cons c s ih => rw [escape_cons, List.all_append, all_isDigit_escapeByte, ih, List.all_cons]

theorem validOptionalPort_escapeByte : ∀ c : UInt8, ∀ s : Bytes, c ≠ byte ':' →
    validOptionalPort (escapeByte .host c ++ s) = false := by
  intro c s hc
  cases he : escapeByte .host c with
  | nil => exact absurd he escapeByte_ne_nil
  | cons b rest =>
      have hcolon : byte ':' ∉ escapeByte .host c := not_mem_escapeByte hc (by decide) (by decide)
      have hb : b ≠ byte ':' := fun hb => hcolon (by rw [he, hb]; exact List.mem_cons_self)
      simp [validOptionalPort, hb]

theorem validOptionalPort_escape : validOptionalPort (escape s .host) = validOptionalPort s := by
  cases s with
  | nil => rfl
  | cons c s =>
      rw [escape_cons]
      by_cases hc : c = byte ':'
      · rw [hc, escapeByte_host_bracket.2.2, List.singleton_append]
        simp only [validOptionalPort, all_isDigit_escape]
      · rw [validOptionalPort_escapeByte c _ hc]
        simp [validOptionalPort, hc]

theorem not_mem_of_valid (hvalid : validOptionalPort s = true) (hc : c ≠ byte ':' ∧ isDigit c = false) : c ∉ s := by
  cases s with
  | nil => exact nofun
  | cons b s =>
      simp only [validOptionalPort, Bool.and_eq_true, decide_eq_true_eq, List.all_eq_true] at hvalid
      intro hmem
      rcases List.mem_cons.mp hmem with rfl | hmem
      · exact hc.1 hvalid.1
      · rw [hvalid.2 c hmem] at hc
        cases hc.2

/-! ## Literals -/

theorem cutZone_append (s : Bytes) : (cutZone s).1 ++ (cutZone s).2 = s := by
  induction s with
  | nil => rfl
  | cons c s ih =>
      unfold cutZone
      split
      · rfl
      · exact congrArg (c :: ·) ih

theorem zone_percent (h : (bytes "%25").isPrefixOf (c :: s) = true) :
    c = percent ∧ (bytes "25").isPrefixOf s = true := by
  have hzone : bytes "%25" = percent :: bytes "25" := by decide
  rw [hzone, List.isPrefixOf, Bool.and_eq_true, beq_iff_eq] at h
  exact ⟨h.1.symm, h.2⟩

/-- Without a percent sign there is no zone. -/
theorem cutZone_plain (hs : percent ∉ s) : cutZone s = (s, []) := by
  induction s with
  | nil => rfl
  | cons c s ih =>
      have hnot : ¬ (bytes "%25").isPrefixOf (c :: s) = true :=
        fun hp => hs ((zone_percent hp).1 ▸ List.mem_cons_self)
      unfold cutZone
      rw [if_neg hnot, ih fun h => hs (List.mem_cons_of_mem _ h)]

theorem cutZone_cons (h : ¬ (bytes "%25").isPrefixOf (c :: s) = true) :
    cutZone (c :: s) = (c :: (cutZone s).1, (cutZone s).2) := by
  rw [cutZone.eq_def]
  exact if_neg h

/-- After escaping, the zone starts with the first percent sign that was escaped. -/
theorem cutZone_escape (s : Bytes) : cutZone (escape s .host) =
    (escape (s.takeWhile (· ≠ percent)) .host, escape (s.dropWhile (· ≠ percent)) .host) := by
  have hhex : ∀ c : UInt8, upperhex (c >>> 4) ≠ percent ∧ upperhex (c &&& 15) ≠ percent :=
    fun c => ⟨ishex_ne_percent _ (ishex_upper c).1, ishex_ne_percent _ (ishex_upper c).2⟩
  have hcode : ∀ c : UInt8, c ≠ percent → ∀ s : Bytes,
      ¬ (bytes "25").isPrefixOf (upperhex (c >>> 4) :: upperhex (c &&& 15) :: s) = true := by
    intro c hc s hp
    have hzone : bytes "25" = [byte '2', byte '5'] := by decide
    rw [hzone] at hp
    simp only [List.isPrefixOf, Bool.and_eq_true, beq_iff_eq] at hp
    exact hc (eq_percent_of_upper (by rw [hzone, hp.1, hp.2.1]))
  induction s with
  | nil => rfl
  | cons c s ih =>
      by_cases hc : c = percent
      · have hp : (bytes "%25").isPrefixOf (escape (c :: s) .host) = true := by
          rw [hc, escape_cons, show escapeByte .host percent = bytes "%25" by decide]
          exact List.isPrefixOf_iff_prefix.mpr (List.prefix_append _ _)
        rw [List.takeWhile_cons_of_neg (by simpa using hc), List.dropWhile_cons_of_neg (by simpa using hc)]
        generalize escape (c :: s) .host = e at hp ⊢
        cases e with
        | nil => exact absurd hp (by decide)
        | cons b e =>
            rw [cutZone.eq_def]
            exact if_pos hp
      rw [List.takeWhile_cons_of_pos (by simpa using hc), List.dropWhile_cons_of_pos (by simpa using hc)]
      rw [escape_cons, escape_cons]
      cases he : shouldEscape c .host with
      | false =>
          rw [(escapeByte_plain he).1, List.singleton_append, cutZone_cons fun hp => hc (zone_percent hp).1, ih]
          rfl
      | true =>
          unfold escapeByte
          rw [if_pos he]
          show cutZone (percent :: upperhex (c >>> 4) :: upperhex (c &&& 15) :: escape s .host) = _
          rw [cutZone_cons fun hp => hcode c hc _ (zone_percent hp).2,
            cutZone_cons fun hp => (hhex c).1 (zone_percent hp).1,
            cutZone_cons fun hp => (hhex c).2 (zone_percent hp).1, ih]
          rfl

theorem unescapeLiteral_escape (hs : percent ∉ s) : unescapeLiteral (escape s .host) = unescapeLiteral s := by
  have hall : ∀ c ∈ s, decide (c ≠ percent) = true := fun c hc => by
    simpa using fun heq : c = percent => hs (heq ▸ hc)
  unfold unescapeLiteral
  rw [cutZone_escape, cutZone_plain hs, List.takeWhile_eq_self_iff.mpr hall, List.dropWhile_eq_nil_iff.mpr hall]
  rw [unescape_escape_host hs]
  rfl

/-- Two parts that are unescaped one after the other. -/
theorem unescapeLiteral_eq_some : unescapeLiteral s = some t ↔ ∃ x y, unescape .host (cutZone s).1 = some x ∧
    unescape .zone (cutZone s).2 = some y ∧ t = x ++ y := by
  unfold unescapeLiteral
  cases unescape .host (cutZone s).1 with
  | none => simp
  | some x =>
      cases unescape .zone (cutZone s).2 with
      | none => simp
      | some y => simp [eq_comm]

theorem unescapeLiteral_length (ht : unescapeLiteral s = some t) : t.length + 2 * s.count percent = s.length := by
  obtain ⟨x, y, hx, hy, rfl⟩ := unescapeLiteral_eq_some.mp ht
  have hlx := unescape_length hx
  have hly := unescape_length hy
  have hcount := congrArg (List.count percent) (cutZone_append s)
  have hlength := congrArg List.length (cutZone_append s)
  rw [List.count_append] at hcount
  rw [List.length_append] at hlength ⊢
  omega

/-- An escaped literal is read back as it was. -/
theorem eq_of_unescapeLiteral_escape (ht : unescapeLiteral (escape s .host) = some t) : t = s := by
  obtain ⟨x, y, hx, hy, rfl⟩ := unescapeLiteral_eq_some.mp ht
  rw [cutZone_escape] at hx hy
  rw [eq_of_unescape_escape hx, eq_of_unescape_escape hy]
  exact List.takeWhile_append_dropWhile

/-! ## What can stand in a host -/

/-- Bytes that end a host, or cannot stand in a URL. -/
def endsHost (c : UInt8) : Bool := isCTL c || (bytes "/?#@").contains c

theorem not_endsHost_of_plain (h : shouldEscape c .host = false) : endsHost c = false := by
  have halphanumeric : ∀ c : UInt8, isAlphanumeric c = true → endsHost c = false := forall_byte (by decide +kernel)
  have hmarks : ∀ c ∈ marks .host, endsHost c = false := forall_mem (by decide)
  rcases shouldEscape_eq_false.mp h with h | h
  · exact halphanumeric c h
  · exact hmarks c h

/-- What may be escaped in a host or a zone does not end a host. -/
theorem not_endsHost_of_escaped {m : Encoding} (hm : m = .host ∨ m = .zone) (h : shouldEscape c .host = true)
    (hallowed : allowsEscape m (upperhex (c >>> 4)) (upperhex (c &&& 15)) = true) : endsHost c = false := by
  by_cases hc : c = percent
  · rw [hc]
    decide
  have hcode : ([upperhex (c >>> 4), upperhex (c &&& 15)] == bytes "25") = false :=
    beq_false_of_ne fun heq => hc (eq_percent_of_upper heq)
  rcases hm with rfl | rfl
  · have hhigh : ∀ c : UInt8, ¬ c < 0x80 → endsHost c = false := forall_byte (by decide +kernel)
    rw [allowsEscape_host c hc h] at hallowed
    simp only [allowsByte, h, Bool.and_true] at hallowed
    exact hhigh c (by simpa using hallowed)
  · simp only [allowsEscape, hcode, escaped_upper, h, Bool.false_or, Bool.not_true, Bool.or_false,
      beq_iff_eq] at hallowed
    rw [hallowed]
    decide

theorem not_endsHost_of_escape {m : Encoding} (hm : m = .host ∨ m = .zone) (ht : unescape m (escape s .host) = some t) :
    ∀ c ∈ s, endsHost c = false := by
  induction s generalizing t with
  | nil => exact nofun
  | cons c s ih =>
      rw [escape_cons] at ht
      cases he : shouldEscape c .host with
      | true =>
          rw [unescape_escapeByte he] at ht
          split at ht
          · rename_i hallowed
            obtain ⟨u, hu, -⟩ := Option.map_eq_some_iff.mp ht
            intro b hb
            rcases List.mem_cons.mp hb with rfl | hb
            · exact not_endsHost_of_escaped hm he hallowed
            · exact ih hu b hb
          · cases ht
      | false =>
          rw [(escapeByte_plain he).1, List.singleton_append, unescape_cons (escapeByte_plain he).2] at ht
          split at ht
          · obtain ⟨u, hu, -⟩ := Option.map_eq_some_iff.mp ht
            intro b hb
            rcases List.mem_cons.mp hb with rfl | hb
            · exact not_endsHost_of_plain he
            · exact ih hu b hb
          · cases ht

/-! ## Reading a host -/

/-- A host is either text, with a port after the last colon, or a literal in brackets and a port. -/
theorem parseHost_cases (hh : parseHost ipLiteral host = some h) :
    (byte '[' ∉ host ∧ unescape .host host = some h ∧
      ∀ x y, cutLast (byte ':') host = some (x, y) → y.all isDigit = true) ∨
    ∃ literal port name, host = byte '[' :: literal ++ byte ']' :: port ∧ validOptionalPort port = true ∧
      unescapeLiteral literal = some name ∧ h = byte '[' :: name ++ byte ']' :: port := by
  unfold parseHost at hh
  cases hb : cutLast (byte '[') host with
  | none =>
      rw [hb] at hh
      refine .inl ⟨cutLast_eq_none.mp hb, ?_⟩
      cases hc : cutLast (byte ':') host with
      | none =>
          rw [hc] at hh
          exact ⟨hh, nofun⟩
      | some p =>
          rw [hc] at hh
          dsimp only at hh
          split at hh
          · rename_i hdigits
            refine ⟨hh, fun x y hxy => ?_⟩
            cases hxy
            exact hdigits
          · cases hh
  | some p =>
      obtain ⟨x, rest⟩ := p
      obtain ⟨hhost, -⟩ := cutLast_eq_some.mp hb
      rw [hb] at hh
      dsimp only at hh
      cases hc : cutLast (byte ']') rest with
      | none =>
          rw [hc] at hh
          cases hh
      | some q =>
          obtain ⟨literal, port⟩ := q
          obtain ⟨hrest, -⟩ := cutLast_eq_some.mp hc
          rw [hc] at hh
          dsimp only at hh
          split at hh
          · rename_i hvalid
            obtain ⟨rfl, hvalid⟩ := hvalid
            split at hh
            · rename_i port' name hport hname
              split at hh
              · have hpercent : percent ∉ port := not_mem_of_valid hvalid (by decide)
                rw [eq_of_unescape hpercent hport] at hh
                refine .inr ⟨literal, port, name, ?_, hvalid, hname, (Option.some.inj hh).symm⟩
                rw [hhost, hrest]
                rfl
              · cases hh
            · cases hh
          · cases hh

theorem cutLast_escape (hc : c = byte '[' ∨ c = byte ']' ∨ c = byte ':') (s : Bytes) :
    cutLast c (escape s .host) = (cutLast c s).map fun (x, y) => (escape x .host, escape y .host) := by
  rcases hc with rfl | rfl | rfl
  · exact cutLast_flatMap escapeByte_host_bracket.1 fun c hc => not_mem_escapeByte hc (by decide) (by decide)
  · exact cutLast_flatMap escapeByte_host_bracket.2.1 fun c hc => not_mem_escapeByte hc (by decide) (by decide)
  · exact cutLast_flatMap escapeByte_host_bracket.2.2 fun c hc => not_mem_escapeByte hc (by decide) (by decide)

/-- Escaping makes no difference for a host without percent signs. -/
theorem parseHost_escape (hpercent : percent ∉ host) :
    parseHost ipLiteral (escape host .host) = parseHost ipLiteral host := by
  unfold parseHost
  rw [cutLast_escape (.inl rfl), cutLast_escape (.inr (.inr rfl)), unescape_escape_host hpercent]
  cases hb : cutLast (byte '[') host with
  | none =>
      dsimp only [Option.map]
      cases cutLast (byte ':') host with
      | none => rfl
      | some p =>
          dsimp only
          rw [all_isDigit_escape]
  | some p =>
      obtain ⟨x, rest⟩ := p
      obtain ⟨hhost, -⟩ := cutLast_eq_some.mp hb
      dsimp only [Option.map]
      rw [cutLast_escape (.inr (.inl rfl))]
      cases hc : cutLast (byte ']') rest with
      | none => rfl
      | some q =>
          obtain ⟨literal, port⟩ := q
          obtain ⟨hrest, -⟩ := cutLast_eq_some.mp hc
          have hmem : ∀ c ∈ literal ++ port, c ∈ host := by
            intro c hc
            rw [hhost, hrest]
            rcases List.mem_append.mp hc with hc | hc <;> simp [hc]
          have hliteral : percent ∉ literal := fun h => hpercent (hmem _ (List.mem_append_left _ h))
          have hport : percent ∉ port := fun h => hpercent (hmem _ (List.mem_append_right _ h))
          have hx : escape x .host = [] ↔ x = [] := by
            cases x with
            | nil => simp
            | cons c x =>
                rw [escape_cons]
                unfold escapeByte
                split <;> simp
          dsimp only [Option.map]
          rw [validOptionalPort_escape, unescape_escape_host hport, unescapeLiteral_escape hliteral]
          simp only [hx]

/-- Text that starts with a bracket after escaping did so before. -/
theorem escape_eq_bracket (he : escape s .host = byte '[' :: t) : ∃ s', s = byte '[' :: s' ∧ t = escape s' .host := by
  cases s with
  | nil => cases he
  | cons c s =>
      rw [escape_cons] at he
      by_cases hc : c = byte '['
      · rw [hc, escapeByte_host_bracket.1, List.singleton_append] at he
        exact ⟨s, by rw [hc], (List.cons.inj he).2.symm⟩
      · have hopen : byte '[' ∉ escapeByte .host c := not_mem_escapeByte hc (by decide) (by decide)
        cases hb : escapeByte .host c with
        | nil => exact absurd hb escapeByte_ne_nil
        | cons b rest =>
            rw [hb] at he hopen
            exact absurd ((List.cons.inj he).1 ▸ List.mem_cons_self) hopen

theorem escape_of_valid (hvalid : validOptionalPort s = true) : escape s .host = s := by
  have hdigits : ∀ s : Bytes, s.all isDigit = true → escape s .host = s := by
    intro s hs
    induction s with
    | nil => rfl
    | cons c s ih =>
        rw [List.all_cons, Bool.and_eq_true] at hs
        rw [escape_cons, (escapeByte_plain (shouldEscape_digit hs.1)).1, ih hs.2]
        rfl
  cases s with
  | nil => rfl
  | cons c s =>
      simp only [validOptionalPort, Bool.and_eq_true, decide_eq_true_eq] at hvalid
      rw [escape_cons, hvalid.1, escapeByte_host_bracket.2.2, hdigits s hvalid.2]
      rfl

/-- **An escaped host is read back as it was**, and it did not contain what ends a host. -/
theorem parseHost_escaped (hh : parseHost ipLiteral (escape host .host) = some h) :
    h = host ∧ ∀ c ∈ host, endsHost c = false := by
  rcases parseHost_cases hh with ⟨-, hunescape, -⟩ | ⟨literal, port, name, hhost, hvalid, hname, rfl⟩
  · exact ⟨eq_of_unescape_escape hunescape, not_endsHost_of_escape (.inl rfl) hunescape⟩
  · have hclose : byte ']' ∉ port := not_mem_of_valid hvalid (by decide)
    have hcut : cutLast (byte ']') (escape host .host) = some (byte '[' :: literal, port) := by
      rw [hhost]
      exact cutLast_append_cons hclose
    rw [cutLast_escape (.inr (.inl rfl))] at hcut
    obtain ⟨⟨x, y⟩, hxy, heq⟩ := Option.map_eq_some_iff.mp hcut
    obtain ⟨hx, hy⟩ := Prod.mk.inj heq
    obtain ⟨rfl, -⟩ := cutLast_eq_some.mp hxy
    obtain ⟨x, rfl, rfl⟩ := escape_eq_bracket hx
    rw [← hy, validOptionalPort_escape] at hvalid
    rw [← hy, escape_of_valid hvalid, eq_of_unescapeLiteral_escape hname]
    refine ⟨rfl, ?_⟩
    obtain ⟨x₁, x₂, hx₁, hx₂, -⟩ := unescapeLiteral_eq_some.mp hname
    rw [cutZone_escape] at hx₁ hx₂
    have hbefore := not_endsHost_of_escape (.inl rfl) hx₁
    have hzone := not_endsHost_of_escape (.inr rfl) hx₂
    have hdigit : ∀ c : UInt8, endsHost c = true → c ≠ byte ':' ∧ isDigit c = false := forall_byte (by decide +kernel)
    intro c hc
    rw [List.cons_append, List.mem_cons, List.mem_append, List.mem_cons] at hc
    rcases hc with rfl | hc | rfl | hc
    · decide
    · rw [← List.takeWhile_append_dropWhile (p := (· ≠ percent)) (l := x)] at hc
      rcases List.mem_append.mp hc with hc | hc
      · exact hbefore c hc
      · exact hzone c hc
    · decide
    · by_contra hends
      exact not_mem_of_valid hvalid (hdigit c (by simpa using hends)) hc

/-! ## Host name and port -/

theorem splitHostPort_length_le (s : Bytes) : (splitHostPort s).1.length + (splitHostPort s).2.length ≤ s.length := by
  have hcut : (cutPort s).1.length + (cutPort s).2.length ≤ s.length := by
    unfold cutPort
    cases hc : cutLast (byte ':') s with
    | none => simp
    | some q =>
        obtain ⟨hs, -⟩ := cutLast_eq_some.mp hc
        have hlength := congrArg List.length hs
        rw [List.length_append, List.length_cons] at hlength
        dsimp only
        split
        · dsimp only
          omega
        · simp
  have hstrip : (stripBrackets (cutPort s).1).length ≤ (cutPort s).1.length := by
    unfold stripBrackets
    split
    · simp only [List.length_dropLast, List.length_tail]
      omega
    · exact Nat.le_refl _
  unfold splitHostPort
  dsimp only
  omega

theorem splitHostPort_text {x y : Bytes} (hy : byte ':' ∉ y) (hdigits : y.all isDigit = true) (hx : byte '[' ∉ x) :
    splitHostPort (x ++ byte ':' :: y) = (x, y) := by
  have hcut : cutPort (x ++ byte ':' :: y) = (x, y) := by
    unfold cutPort
    rw [cutLast_append_cons hy]
    exact if_pos hdigits
  unfold splitHostPort
  rw [hcut]
  refine congrArg (·, y) (if_neg ?_)
  rintro ⟨hhead, -⟩
  exact hx (List.mem_of_mem_head? hhead)

theorem stripBrackets_literal (name : Bytes) : stripBrackets (byte '[' :: name ++ [byte ']']) = name := by
  unfold stripBrackets
  rw [if_pos ⟨rfl, by rw [List.getLast?_append]; rfl⟩]
  simp

/-- The host name of a literal is what is between the brackets. -/
theorem splitHostPort_literal {name port : Bytes} (hvalid : validOptionalPort port = true) :
    splitHostPort (byte '[' :: name ++ byte ']' :: port) = (name, port.tail) := by
  have hcut : cutPort (byte '[' :: name ++ byte ']' :: port) = (byte '[' :: name ++ [byte ']'], port.tail) := by
    unfold cutPort
    cases port with
    | nil =>
        cases hc : cutLast (byte ':') (byte '[' :: name ++ [byte ']']) with
        | none => rfl
        | some q =>
            obtain ⟨x, y⟩ := q
            obtain ⟨hs, -⟩ := cutLast_eq_some.mp hc
            -- what follows the colon ends with the bracket
            refine if_neg fun hdigits => ?_
            cases y using List.reverseRecOn with
            | nil =>
                have hlast : byte ']' = byte ':' := (List.append_inj' hs rfl).2 |> List.singleton_inj.mp
                exact absurd hlast (by decide)
            | append_singleton y d =>
                have hs : (byte '[' :: name) ++ [byte ']'] = (x ++ byte ':' :: y) ++ [d] := by simpa using hs
                have hlast : byte ']' = d := (List.append_inj' hs rfl).2 |> List.singleton_inj.mp
                rw [← hlast] at hdigits
                exact absurd (List.all_eq_true.mp hdigits (byte ']') (by simp)) (by decide)
    | cons c port =>
        simp only [validOptionalPort, Bool.and_eq_true, decide_eq_true_eq] at hvalid
        obtain ⟨rfl, hdigits⟩ := hvalid
        have hcolon : byte ':' ∉ port := fun h => absurd (List.all_eq_true.mp hdigits _ h) (by decide)
        have hsplit : byte '[' :: name ++ byte ']' :: byte ':' :: port =
            (byte '[' :: name ++ [byte ']']) ++ byte ':' :: port := by simp
        rw [hsplit, cutLast_append_cons hcolon]
        exact if_pos hdigits
  unfold splitHostPort
  rw [hcut, stripBrackets_literal]

/-- **Reading a host with a port as it is, and reading it from its escaped form, agree exactly if it has no percent
    sign** and is a host at all. -/
theorem host_agrees_iff (hcolon : byte ':' ∈ host) :
    (∃ u h, parseHost ipLiteral host = some u ∧ parseHost ipLiteral (escape host .host) = some h ∧
      splitHostPort u = splitHostPort h) ↔ percent ∉ host ∧ parseHost ipLiteral host ≠ none := by
  constructor
  · rintro ⟨u, h, hu, hh, hsame⟩
    refine ⟨?_, by simp [hu]⟩
    obtain ⟨rfl, -⟩ := parseHost_escaped hh
    rcases parseHost_cases hu with ⟨hbracket, hunescape, hdigits⟩ | ⟨literal, port, name, rfl, hvalid, hname, rfl⟩
    · obtain ⟨⟨x, y⟩, hc⟩ := Option.ne_none_iff_exists'.mp fun hnone => cutLast_eq_none.mp hnone hcolon
      obtain ⟨rfl, hy⟩ := cutLast_eq_some.mp hc
      rw [splitHostPort_text hy (hdigits x y hc) fun hx => hbracket (List.mem_append_left _ hx)] at hsame
      have hle := splitHostPort_length_le u
      have hlength := unescape_length hunescape
      rw [hsame] at hle
      simp only [List.length_append, List.length_cons] at hle hlength
      exact List.count_eq_zero.mp (by omega)
    · rw [splitHostPort_literal hvalid, splitHostPort_literal hvalid] at hsame
      have hlength := unescapeLiteral_length hname
      rw [(Prod.mk.inj hsame).1] at hlength
      have hport : percent ∉ port := not_mem_of_valid hvalid (by decide)
      have hliteral : percent ∉ literal := List.count_eq_zero.mp (by omega)
      have hbrackets : percent ≠ byte '[' ∧ percent ≠ byte ']' := by decide
      simp [hbrackets, hport, hliteral]
  · rintro ⟨hpercent, hsome⟩
    obtain ⟨u, hu⟩ := Option.ne_none_iff_exists'.mp hsome
    exact ⟨u, u, hu, by rw [parseHost_escape hpercent, hu], rfl⟩

end Etos.Url
