import Mathlib.Data.List.Lex

/-!
# `Encoding.Utf8` — UTF-8 on lists

Encoding and strict decoding of texts, over lists of characters and bytes. A byte below 128 is a character of its own
wherever it stands, so a text can be cut at such a byte before or after decoding (`decodeUtf8_append_cons_isSome`).
Decoding with replacements (`repaired`) never fails, and is strict decoding where that does not fail.
-/

namespace Etos

abbrev Bytes := List UInt8

namespace Encoding

/-- The UTF-8 encoding of a text. -/
def utf8 (cs : List Char) : Bytes := cs.flatMap String.utf8EncodeChar

/-- Strict decoding: `none` if the bytes are not UTF-8. -/
def decodeUtf8 (b : Bytes) : Option (List Char) := (String.fromUTF8? b.toByteArray).map String.toList

@[simp] theorem utf8_nil : utf8 [] = [] := rfl

theorem utf8_cons (c : Char) (cs : List Char) : utf8 (c :: cs) = String.utf8EncodeChar c ++ utf8 cs := rfl

theorem utf8_append (cs cs' : List Char) : utf8 (cs ++ cs') = utf8 cs ++ utf8 cs' := List.flatMap_append

/-! ## Encoding and decoding -/

@[simp] theorem decodeUtf8_utf8 (cs : List Char) : decodeUtf8 (utf8 cs) = some cs := by
  have hbytes : (utf8 cs).toByteArray = (String.ofList cs).toByteArray := by
    rw [String.toByteArray_ofList]
    rfl
  have hvalid : (utf8 cs).toByteArray.IsValidUTF8 := ⟨cs, rfl⟩
  have hstring : String.ofByteArray (utf8 cs).toByteArray hvalid = String.ofList cs := String.toByteArray_inj.mp hbytes
  unfold decodeUtf8 String.fromUTF8?
  rw [dif_pos hvalid, Option.map_some, String.fromUTF8, hstring, String.toList_ofList]

theorem decodeUtf8_eq_some {b : Bytes} {cs : List Char} : decodeUtf8 b = some cs ↔ b = utf8 cs := by
  constructor
  · intro h
    by_cases hvalid : b.toByteArray.IsValidUTF8
    · obtain ⟨cs', hcs'⟩ := hvalid
      have hb : b = utf8 cs' := by
        have hdata := congrArg (fun a => a.data.toList) hcs'
        simpa [List.utf8Encode, utf8] using hdata
      rw [hb, decodeUtf8_utf8] at h
      rw [hb, Option.some.inj h]
    · unfold decodeUtf8 String.fromUTF8? at h
      rw [dif_neg hvalid] at h
      cases h
  · rintro rfl
    exact decodeUtf8_utf8 cs

theorem utf8_injective {cs cs' : List Char} (h : utf8 cs = utf8 cs') : cs = cs' := by
  have hdecode := decodeUtf8_utf8 cs
  rw [h, decodeUtf8_utf8] at hdecode
  exact (Option.some.inj hdecode).symm

/-! ## Bytes that are characters -/

theorem le_ofNat {n : Nat} (h : 128 ≤ n % 256) : 128 ≤ UInt8.ofNat n := by
  rw [UInt8.le_iff_toNat_le, UInt8.toNat_ofNat']
  exact h

/-- A character is one byte below 128, or several bytes from 128 on. -/
theorem utf8EncodeChar_cases (c : Char) :
    (∃ b, b < 128 ∧ c.val.toNat = b.toNat ∧ String.utf8EncodeChar c = [b]) ∨
      ∀ b ∈ String.utf8EncodeChar c, 128 ≤ b := by
  unfold String.utf8EncodeChar
  dsimp only
  generalize c.val.toNat = v
  by_cases hv : v ≤ 0x7f
  · refine .inl ⟨UInt8.ofNat v, ?_, ?_, if_pos hv⟩
    · rw [UInt8.lt_iff_toNat_lt, UInt8.toNat_ofNat']
      show v % 256 < 128
      omega
    · rw [UInt8.toNat_ofNat']
      omega
  · right
    rw [if_neg hv]
    split
    · simp only [List.mem_cons, List.not_mem_nil, or_false]
      rintro b (rfl | rfl) <;> exact le_ofNat (by omega)
    · split
      · simp only [List.mem_cons, List.not_mem_nil, or_false]
        rintro b (rfl | rfl | rfl) <;> exact le_ofNat (by omega)
      · simp only [List.mem_cons, List.not_mem_nil, or_false]
        rintro b (rfl | rfl | rfl | rfl) <;> exact le_ofNat (by omega)

/-- A byte below 128 comes from a character with this code. -/
theorem exists_of_mem_utf8 {cs : List Char} {b : UInt8} (hb : b < 128) (h : b ∈ utf8 cs) :
    ∃ c ∈ cs, c.val.toNat = b.toNat := by
  obtain ⟨c, hc, hmem⟩ := List.mem_flatMap.mp h
  refine ⟨c, hc, ?_⟩
  rcases utf8EncodeChar_cases c with ⟨b', -, hval, hcode⟩ | hhigh
  · rw [hcode, List.mem_singleton] at hmem
    rw [hmem]
    exact hval
  · exact absurd hb (UInt8.not_lt.mpr (hhigh b hmem))

theorem exists_utf8EncodeChar {b : UInt8} (hb : b < 128) : ∃ c, String.utf8EncodeChar c = [b] := by
  have hlt : b.toNat < 128 := hb
  have hval : (Char.ofNat b.toNat).val.toNat = b.toNat := by
    have hvalid : b.toNat.isValidChar := .inl (by omega)
    rw [Char.ofNat, dif_pos hvalid]
    rfl
  refine ⟨Char.ofNat b.toNat, ?_⟩
  unfold String.utf8EncodeChar
  dsimp only
  rw [hval, if_pos (by omega), UInt8.ofNat_toNat]

/-- A byte below 128 in an encoded text is a character. -/
theorem utf8_eq_append_cons {cs : List Char} {x y : Bytes} {b : UInt8} (hb : b < 128)
    (h : utf8 cs = x ++ b :: y) : ∃ cs₁ c cs₂, cs = cs₁ ++ c :: cs₂ ∧ x = utf8 cs₁ ∧ y = utf8 cs₂ ∧
      String.utf8EncodeChar c = [b] := by
  induction cs generalizing x with
  | nil =>
      rw [utf8_nil] at h
      exact absurd h.symm (by simp)
  | cons c cs ih =>
      rw [utf8_cons] at h
      rcases utf8EncodeChar_cases c with ⟨b', hb', -, hc⟩ | hhigh
      · cases x with
        | nil =>
            rw [hc, List.nil_append, List.singleton_append, List.cons.injEq] at h
            obtain ⟨rfl, rfl⟩ := h
            exact ⟨[], c, cs, rfl, rfl, rfl, hc⟩
        | cons a x =>
            rw [hc, List.singleton_append, List.cons_append, List.cons.injEq] at h
            obtain ⟨rfl, h⟩ := h
            obtain ⟨cs₁, c', cs₂, rfl, rfl, rfl, hc'⟩ := ih h
            refine ⟨c :: cs₁, c', cs₂, rfl, ?_, rfl, hc'⟩
            rw [utf8_cons, hc]
            rfl
      · -- the byte is none of those of the first character, so it comes after them
        rcases List.append_eq_append_iff.mp h with ⟨x', rfl, hrest⟩ | ⟨x', hc, hrest⟩
        · obtain ⟨cs₁, c', cs₂, rfl, rfl, rfl, hc'⟩ := ih hrest
          exact ⟨c :: cs₁, c', cs₂, rfl, rfl, rfl, hc'⟩
        · cases x' with
          | nil =>
              rw [List.append_nil] at hc
              obtain ⟨cs₁, c', cs₂, rfl, hx, rfl, hc'⟩ := ih (x := []) hrest.symm
              refine ⟨c :: cs₁, c', cs₂, rfl, ?_, rfl, hc'⟩
              rw [utf8_cons, ← hx, hc, List.append_nil]
          | cons a x' =>
              rw [List.cons_append, List.cons.injEq] at hrest
              obtain ⟨rfl, -⟩ := hrest
              have hge := hhigh b (by rw [hc]; simp)
              exact absurd hb (UInt8.not_lt.mpr hge)

/-- **A byte below 128 cuts a text**: what comes before and after it is decoded for itself. -/
theorem decodeUtf8_append_cons_isSome {x y : Bytes} {b : UInt8} (hb : b < 128) :
    (decodeUtf8 (x ++ b :: y)).isSome = ((decodeUtf8 x).isSome && (decodeUtf8 y).isSome) := by
  rw [Bool.eq_iff_iff, Bool.and_eq_true]
  simp only [Option.isSome_iff_exists, decodeUtf8_eq_some]
  constructor
  · rintro ⟨cs, hcs⟩
    obtain ⟨cs₁, c, cs₂, -, hx, hy, -⟩ := utf8_eq_append_cons hb hcs.symm
    exact ⟨⟨cs₁, hx⟩, ⟨cs₂, hy⟩⟩
  · rintro ⟨⟨cs₁, rfl⟩, ⟨cs₂, rfl⟩⟩
    obtain ⟨c, hc⟩ := exists_utf8EncodeChar hb
    refine ⟨cs₁ ++ c :: cs₂, ?_⟩
    rw [utf8_append, utf8_cons, hc]
    rfl

/-! ## Decoding with replacements -/

/-- Decode bytes of which the first ones have been dealt with. A byte that begins no character is replaced. -/
def repairedAfter : Nat → Bytes → List Char
  | _, [] => []
  | skip + 1, _ :: bs => repairedAfter skip bs
  | 0, b :: bs =>
      match (b :: bs).toByteArray.utf8DecodeChar? 0 with
      | some c => c :: repairedAfter (c.utf8Size - 1) bs
      | none => '\uFFFD' :: repairedAfter 0 bs

/-- Decode what can be decoded. -/
def repaired (b : Bytes) : List Char := repairedAfter 0 b

theorem repairedAfter_append (x y : Bytes) : repairedAfter x.length (x ++ y) = repairedAfter 0 y := by
  induction x with
  | nil => rfl
  | cons b x ih => exact ih

/-- There is nothing to repair in an encoded text. -/
@[simp] theorem repaired_utf8 (cs : List Char) : repaired (utf8 cs) = cs := by
  unfold repaired
  induction cs with
  | nil => rfl
  | cons c cs ih =>
      obtain ⟨b, x, hcode⟩ := List.exists_cons_of_ne_nil (String.utf8EncodeChar_ne_nil (c := c))
      have hdecode : (b :: (x ++ utf8 cs)).toByteArray.utf8DecodeChar? 0 = some c := by
        have hcore := ByteArray.utf8DecodeChar?_utf8EncodeChar_append (b := (utf8 cs).toByteArray) (c := c)
        rwa [← List.toByteArray_append, hcode] at hcore
      have hlength : c.utf8Size - 1 = x.length := by
        rw [← String.length_utf8EncodeChar, hcode]
        rfl
      rw [utf8_cons, hcode, List.cons_append, repairedAfter, hdecode]
      show c :: repairedAfter (c.utf8Size - 1) (x ++ utf8 cs) = c :: cs
      rw [hlength, repairedAfter_append, ih]

/-! ## Bytes in order -/

instance instLinearOrderUInt8 : LinearOrder UInt8 where
  le_refl := UInt8.le_refl
  le_trans _ _ _ := UInt8.le_trans
  le_antisymm _ _ := UInt8.le_antisymm
  le_total := UInt8.le_total
  lt_iff_le_not_ge _ _ := by
    rw [UInt8.lt_iff_toNat_lt, UInt8.le_iff_toNat_le, UInt8.le_iff_toNat_le]
    omega
  toDecidableLE := inferInstance

end Encoding

end Etos
