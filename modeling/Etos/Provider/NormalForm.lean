import Etos.Provider.Names
import Etos.Text.Python

/-!
# `Provider.NormalForm` — what `toRFC1123` returns

`toRFC1123` of `pkg/provider/provider.go` puts the name of a suite in front of the names of Kubernetes objects: it
lower-cases the text, puts hyphens where there are other characters, and cuts it to length. **`toRFC1123_normal`** says
that the result is words of letters and digits with single hyphens between them, at every length, and that there is
nothing left to do for a second run.

A Go string need not be UTF-8. The functions used here read it by rune, and what is no rune as U+FFFD, so the texts of
the model are all that they can see.
-/

namespace Etos

open Text

/-- `[a-z0-9]+(-[a-z0-9]+)*`: words of letters and digits, with a hyphen between any two. -/
def MatchesRFC1123 (s : List Char) : Prop :=
  ∃ words : List (List Char), words ≠ [] ∧
    (∀ w ∈ words, w ≠ [] ∧ ∀ c ∈ w, isLowerAlphanumeric c = true) ∧ s = ['-'].intercalate words

/-! ## Tidy text -/

/-- Letters, digits and single hyphens. -/
structure Tidy (s : List Char) : Prop where
  chars : ∀ c ∈ s, isLowerAlphanumeric c = true ∨ c = '-'
  single : s.IsChain fun a b => ¬ (a = '-' ∧ b = '-')

/-- Tidy text with no hyphen at its ends. -/
structure Trimmed (s : List Char) : Prop extends Tidy s where
  first : s.head? ≠ some '-'
  last : s.getLast? ≠ some '-'

section

variable {s t : List Char} {c : Char}

theorem ne_hyphen (h : isLowerAlphanumeric c = true) : c ≠ '-' := by
  rintro rfl
  exact absurd h (by decide)

theorem hyphenate_tidy (s : List Char) : Tidy (hyphenate s) := by
  refine ⟨hyphenate_chars s, ?_⟩
  induction s with
  | nil => exact .nil
  | cons c s ih =>
      unfold hyphenate
      split
      · rename_i hc
        exact List.isChain_cons.mpr ⟨fun _ _ hboth => ne_hyphen hc hboth.1, ih⟩
      · split
        · rename_i hrest
          rw [← hrest]
          exact ih
        · rename_i hrest
          refine List.isChain_cons.mpr ⟨?_, ih⟩
          rintro d hd ⟨-, rfl⟩
          obtain ⟨rest, hcons⟩ := List.head?_eq_some_iff.mp hd
          exact hrest rest hcons

/-- Part of a tidy text. -/
theorem Tidy.of_isInfix (h : Tidy s) (hts : t <:+: s) : Tidy t :=
  ⟨fun c hc => h.chars c (hts.subset hc), List.IsChain.infix h.single hts⟩

theorem Tidy.of_cons (h : Tidy (c :: s)) : Tidy s := h.of_isInfix (List.suffix_cons c s).isInfix

/-- A tidy text has hyphens enough. -/
theorem Tidy.hyphenate_eq (h : Tidy s) : hyphenate s = s := by
  induction s with
  | nil => rfl
  | cons c s ih =>
      have hrest := ih h.of_cons
      unfold hyphenate
      rw [hrest]
      rcases h.chars c List.mem_cons_self with hc | rfl
      · rw [if_pos hc]
      · rw [if_neg (by decide)]
        split
        · -- two hyphens in a row
          exact absurd (And.intro rfl rfl) ((List.isChain_cons.mp h.single).1 '-' rfl)
        · rfl

/-! ## Trimming -/

theorem head?_of_isPrefix (hts : t <+: s) (h : s.head? ≠ some c) : t.head? ≠ some c := by
  intro hc
  obtain ⟨rest, rfl⟩ := List.head?_eq_some_iff.mp hc
  obtain ⟨rest', rfl⟩ := hts
  exact h rfl

theorem trimHyphens_eq_stripBy (s : List Char) : trimHyphens s = stripBy (· = '-') s := rfl

/-- No hyphen is left at the ends. -/
theorem Tidy.trimHyphens (h : Tidy s) : Trimmed (trimHyphens s) := by
  rw [trimHyphens_eq_stripBy]
  refine ⟨h.of_isInfix (stripBy_isInfix _ s), fun hfirst => ?_, fun hlast => ?_⟩
  · exact absurd (head?_stripBy hfirst) (by decide)
  · exact absurd (getLast?_stripBy hlast) (by decide)

/-- A cut leaves one hyphen at most, at the end, and that goes. -/
theorem Trimmed.cut (h : Trimmed s) (n : Nat) : Trimmed (trimHyphenSuffix (s.take n)) := by
  have hprefix : s.take n <+: s := List.take_prefix n s
  unfold trimHyphenSuffix
  split
  · rename_i hlast
    obtain ⟨front, hfront⟩ := List.getLast?_eq_some_iff.mp hlast
    have hdrop : (s.take n).dropLast <+: s := List.IsPrefix.trans ( List.dropLast_prefix _) hprefix
    refine ⟨h.toTidy.of_isInfix hdrop.isInfix, head?_of_isPrefix hdrop h.first, ?_⟩
    rw [hfront, List.dropLast_concat]
    intro hend
    have hchain := List.IsChain.infix h.single hprefix.isInfix
    rw [hfront] at hchain
    exact (List.isChain_append.mp hchain).2.2 '-' hend '-' rfl ⟨rfl, rfl⟩
  · rename_i hlast
    exact ⟨h.toTidy.of_isInfix hprefix.isInfix, head?_of_isPrefix hprefix h.first, hlast⟩

theorem Trimmed.trimHyphens_eq (h : Trimmed s) : trimHyphens s = s := by
  rw [trimHyphens_eq_stripBy]
  refine stripBy_eq_self (fun c hc => ?_) fun c hc => ?_
  · exact decide_eq_false fun heq => h.first (heq ▸ hc)
  · exact decide_eq_false fun heq => h.last (heq ▸ hc)

theorem Trimmed.trimHyphenSuffix_eq (h : Trimmed s) : trimHyphenSuffix s = s := if_neg h.last

theorem trimHyphenSuffix_isPrefix (s : List Char) : trimHyphenSuffix s <+: s := by
  unfold trimHyphenSuffix
  split
  · exact List.dropLast_prefix s
  · exact List.prefix_refl s

/-! ## Words -/

theorem MatchesRFC1123.single (hc : isLowerAlphanumeric c = true) : MatchesRFC1123 [c] := by
  refine ⟨[[c]], List.cons_ne_nil _ _, ?_, rfl⟩
  intro w hw
  rw [List.mem_singleton.mp hw]
  exact ⟨List.cons_ne_nil _ _, by simpa using hc⟩

/-- The first word gets longer. -/
theorem MatchesRFC1123.cons (hc : isLowerAlphanumeric c = true) (h : MatchesRFC1123 s) : MatchesRFC1123 (c :: s) := by
  obtain ⟨words, hne, hwords, rfl⟩ := h
  obtain ⟨w, rest, rfl⟩ := List.exists_cons_of_ne_nil hne
  obtain ⟨hw, hrest⟩ := List.forall_mem_cons.mp hwords
  refine ⟨(c :: w) :: rest, List.cons_ne_nil _ _, ?_, ?_⟩
  · exact List.forall_mem_cons.mpr ⟨⟨List.cons_ne_nil _ _, List.forall_mem_cons.mpr ⟨hc, hw.2⟩⟩, hrest⟩
  · cases rest with
    | nil => simp [List.intercalate]
    | cons w' rest => simp [List.intercalate]

/-- Another word comes first. -/
theorem MatchesRFC1123.hyphen (hc : isLowerAlphanumeric c = true) (h : MatchesRFC1123 s) :
    MatchesRFC1123 (c :: '-' :: s) := by
  obtain ⟨words, hne, hwords, rfl⟩ := h
  obtain ⟨w, rest, rfl⟩ := List.exists_cons_of_ne_nil hne
  refine ⟨[c] :: w :: rest, List.cons_ne_nil _ _, ?_, ?_⟩
  · exact List.forall_mem_cons.mpr ⟨⟨List.cons_ne_nil _ _, by simpa using hc⟩, hwords⟩
  · simp [List.intercalate]

/-- Trimmed text is words with single hyphens between them. -/
theorem Trimmed.words {s : List Char} (h : Trimmed s) (hne : s ≠ []) : MatchesRFC1123 s := by
  match s, hne with
  | [c], _ =>
      have hc := (h.chars c List.mem_cons_self).resolve_right fun hc => h.first (congrArg some hc)
      exact .single hc
  | c :: d :: rest, _ =>
      have hc := (h.chars c List.mem_cons_self).resolve_right fun hc => h.first (congrArg some hc)
      by_cases hd : d = '-'
      · subst hd
        -- the hyphen is neither the last character nor followed by another
        have hrest : rest ≠ [] := by
          rintro rfl
          exact h.last rfl
        have hfirst : rest.head? ≠ some '-' := fun hhead =>
          (List.isChain_cons.mp h.of_cons.single).1 '-' hhead ⟨rfl, rfl⟩
        have hlast : rest.getLast? ≠ some '-' := by
          have hlast := h.last
          rwa [List.getLast?_cons_cons, List.getLast?_cons_of_ne_nil hrest] at hlast
        exact .hyphen hc (Trimmed.words ⟨h.of_cons.of_cons, hfirst, hlast⟩ hrest)
      · have hlast : (d :: rest).getLast? ≠ some '-' := by
          have hlast := h.last
          rwa [List.getLast?_cons_cons] at hlast
        exact .cons hc (Trimmed.words ⟨h.of_cons, by simpa using hd, hlast⟩ (List.cons_ne_nil d rest))

end

/-! ## Characters -/

/-- What is in a tidy text stays as it is in lower case. -/
theorem lowerRune_eq {c : Char} (h : isLowerAlphanumeric c = true ∨ c = '-') : lowerRune c = c := by
  rcases h with h | rfl
  · have hrange := isLowerAlphanumeric_iff.mp h
    have hdotted : c ≠ Char.ofNat 0x130 := by
      rintro rfl
      exact absurd h (by decide)
    have hkelvin : c ≠ Char.ofNat 0x212A := by
      rintro rfl
      exact absurd h (by decide)
    have hupper : ¬ (65 ≤ c.val.toNat ∧ c.val.toNat ≤ 90) := by omega
    unfold lowerRune
    rw [if_neg hdotted, if_neg hkelvin]
    exact dif_neg hupper
  · decide

/-- The letters of a lower-cased text are lower case. -/
theorem isLowerAlphanumeric_of_lowered {c : Char} (h : (lowerRune c).isAlphanum = true) :
    isLowerAlphanumeric (lowerRune c) = true := by
  by_cases hdotted : c = Char.ofNat 0x130
  · rw [hdotted]
    decide
  by_cases hkelvin : c = Char.ofNat 0x212A
  · rw [hkelvin]
    decide
  refine lowerRune_alphanum ?_
  unfold lowerRune at h
  rw [if_neg hdotted, if_neg hkelvin] at h
  unfold Char.toLower at h
  split at h
  · rename_i hupper
    exact isAlphanum_iff.mpr (.inl hupper)
  · exact h

theorem utf8Size_of_tidy {c : Char} (h : isLowerAlphanumeric c = true ∨ c = '-') : c.utf8Size = 1 := by
  rw [Char.utf8Size_eq_one_iff, UInt32.le_iff_toNat_le]
  rcases h with h | rfl
  · have hrange := isLowerAlphanumeric_iff.mp h
    show c.val.toNat ≤ 127
    omega
  · decide

theorem Tidy.utf8ByteSize_eq {s : List Char} (h : Tidy s) : (String.ofList s).utf8ByteSize = s.length := by
  induction s with
  | nil => rfl
  | cons c s ih =>
      have hsize := utf8Size_of_tidy (h.chars c List.mem_cons_self)
      rw [String.ofList_cons, String.utf8ByteSize_append, String.utf8ByteSize_singleton, hsize, ih h.of_cons,
        List.length_cons, Nat.add_comm]

theorem Tidy.map_lowerRune {s : List Char} (h : Tidy s) : s.map lowerRune = s := by
  have hmap : s.map lowerRune = s.map id := List.map_congr_left fun c hc => lowerRune_eq (h.chars c hc)
  rw [hmap, List.map_id]

/-! ## `toRFC1123` -/

theorem toRFC1123_trimmed (s : String) (maxlen : Nat) : Trimmed (toRFC1123 s maxlen).toList := by
  unfold toRFC1123
  rw [String.toList_ofList]
  exact (hyphenate_tidy _).trimHyphens.cut maxlen

theorem toRFC1123_length (s : String) (maxlen : Nat) : (toRFC1123 s maxlen).toList.length ≤ maxlen := by
  unfold toRFC1123
  rw [String.toList_ofList]
  exact (trimHyphenSuffix_isPrefix _).length_le.trans (List.length_take_le _ _)

/-- Trimmed text within the limit is left as it is. -/
theorem toRFC1123_eq {s : String} {maxlen : Nat} (h : Trimmed s.toList) (hlen : s.toList.length ≤ maxlen) :
    toRFC1123 s maxlen = s := by
  unfold toRFC1123
  rw [h.map_lowerRune, h.hyphenate_eq, h.trimHyphens_eq, List.take_of_length_le hlen, h.trimHyphenSuffix_eq,
    String.ofList_toList]

theorem mem_hyphenate {s : List Char} {c : Char} (hc : isLowerAlphanumeric c = true) (hmem : c ∈ s) :
    c ∈ hyphenate s := by
  induction s with
  | nil => cases hmem
  | cons d s ih =>
      unfold hyphenate
      rcases List.mem_cons.mp hmem with rfl | hmem
      · rw [if_pos hc]
        exact List.mem_cons_self
      · split
        · exact List.mem_cons_of_mem _ (ih hmem)
        · split
          · rename_i hrest
            rw [← hrest]
            exact ih hmem
          · exact List.mem_cons_of_mem _ (ih hmem)

/-- One letter or digit is enough for a name. -/
theorem toRFC1123_ne_empty {s : String} {maxlen : Nat} {c : Char} (hmax : 1 ≤ maxlen)
    (hmem : c ∈ s.toList.map lowerRune) (hc : isLowerAlphanumeric c = true) : toRFC1123 s maxlen ≠ "" := by
  have htrim := (hyphenate_tidy (s.toList.map lowerRune)).trimHyphens
  have hkept : c ∈ trimHyphens (hyphenate (s.toList.map lowerRune)) :=
    mem_stripBy (decide_eq_false (ne_hyphen hc)) (mem_hyphenate hc hmem)
  unfold toRFC1123
  generalize trimHyphens (hyphenate (s.toList.map lowerRune)) = trimmed at htrim hkept
  obtain ⟨d, rest, rfl⟩ := List.exists_cons_of_ne_nil (List.ne_nil_of_mem hkept)
  have hd : d ≠ '-' := fun hd => htrim.first (congrArg some hd)
  obtain ⟨n, rfl⟩ : ∃ n, maxlen = n + 1 := ⟨maxlen - 1, by omega⟩
  obtain ⟨rest', hrest, -⟩ := trimHyphenSuffix_cons hd (rest.take n)
  rw [List.take_succ_cons, hrest, Ne, ← String.toList_eq_nil_iff, String.toList_ofList]
  exact List.cons_ne_nil d rest'

/-- **`toRFC1123` returns a normal form**: words of letters and digits with single hyphens between them, within the
    limit, that a second run does not change, and nothing only if there is no letter and no digit. -/
theorem toRFC1123_normal (s : String) {maxlen : Nat} (hmax : 1 ≤ maxlen) :
    (toRFC1123 s maxlen = "" ∨ MatchesRFC1123 (toRFC1123 s maxlen).toList) ∧
      (toRFC1123 s maxlen).utf8ByteSize ≤ maxlen ∧
      toRFC1123 (toRFC1123 s maxlen) maxlen = toRFC1123 s maxlen ∧
      ((∃ c ∈ s.toList.map lowerRune, c.isAlphanum = true) → toRFC1123 s maxlen ≠ "") := by
  have htrimmed := toRFC1123_trimmed s maxlen
  have hlength := toRFC1123_length s maxlen
  refine ⟨?_, ?_, toRFC1123_eq htrimmed hlength, ?_⟩
  · by_cases hempty : toRFC1123 s maxlen = ""
    · exact .inl hempty
    · exact .inr (htrimmed.words fun hnil => hempty (String.toList_eq_nil_iff.mp hnil))
  · have hbytes := htrimmed.utf8ByteSize_eq
    rw [String.ofList_toList] at hbytes
    exact hbytes.trans_le hlength
  · rintro ⟨c, hmem, halnum⟩
    obtain ⟨d, -, rfl⟩ := List.mem_map.mp hmem
    exact toRFC1123_ne_empty hmax hmem (isLowerAlphanumeric_of_lowered halnum)

/-- The cut is behind a hyphen. -/
theorem toRFC1123_cut :
    toRFC1123 "My Suite!" 3 = "my" ∧
      (toRFC1123 "My Suite!" 3 = "" ∨ MatchesRFC1123 (toRFC1123 "My Suite!" 3).toList) ∧
      toRFC1123 "My Suite!" 3 ≠ "" := by
  obtain ⟨hmatches, -, -, hne⟩ := toRFC1123_normal "My Suite!" (show 1 ≤ 3 by decide)
  exact ⟨by decide +kernel, hmatches, hne ⟨'m', by decide +kernel, by decide⟩⟩

end Etos
