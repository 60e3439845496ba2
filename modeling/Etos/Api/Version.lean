import Etos.Provider.Names
import Mathlib.Data.List.TakeWhile

/-!
# `Api.Version` — the version of a container image

`VersionFromImage` of `internal/config/config.go` looks for the tag of an image reference. It cuts the reference at the
first `@`, and takes what follows the last colon, unless there is a slash behind it: then the colon is that of a port.
**`versionFromImage_text`** says that this finds the tag of every reference, and nothing else, and
**`setVersionLabel_safe`** that it can always be made a label.
-/

namespace Etos

open Kube

/-! ## `VersionFromImage` -/

/-- `before, _, _ := strings.Cut(s, sep)`, for a single character. -/
def cutBefore (sep : Char) (s : List Char) : List Char := s.takeWhile (· ≠ sep)

/-- `strings.LastIndex`, for a single character. Positions are counted in characters here, and in bytes there; they are
    only compared, and used to slice. -/
def lastIndex (c : Char) (s : List Char) : Int :=
  match s.reverse.idxOf? c with
  | some i => s.length - 1 - i
  | none => -1

/-- `labelValue.MatchString`: `^[A-Za-z0-9]([-A-Za-z0-9_.]*[A-Za-z0-9])?$`. -/
def labelValueMatches : List Char → Bool
  | [] => false
  | c :: rest => c.isAlphanum && (rest.isEmpty || (rest.dropLast.all isLabelChar && rest.getLast?.any Char.isAlphanum))

/-- `len` of a string. -/
def byteLength (s : List Char) : Nat := (s.map Char.utf8Size).sum

/-- `VersionFromImage`. -/
def versionFromImage (image : List Char) : List Char :=
  let image := cutBefore '@' image
  let idx := lastIndex ':' image
  if idx < 0 ∨ idx < lastIndex '/' image then []
  else
    let tag := image.drop (idx + 1).toNat
    if byteLength tag > 63 ∨ labelValueMatches tag = false then [] else tag

/-! ## Image references -/

/-- A reference to a container image: an optional registry with an optional port, a path, an optional tag and an
    optional digest. What can be in a host, in a tag or in a digest beyond the separators is left open. -/
structure ImageReference where
  registry : Option (List Char × Option (List Char)) := none
  path : List Char
  tag : Option (List Char) := none
  digest : Option (List Char) := none
  host_plain : ∀ r ∈ registry, '@' ∉ r.1
  port_plain : ∀ r ∈ registry, ∀ port ∈ r.2, '@' ∉ port
  path_plain : ':' ∉ path ∧ '@' ∉ path
  tag_plain : ∀ t ∈ tag, ':' ∉ t ∧ '@' ∉ t

namespace ImageReference

variable (r : ImageReference)

/-- The registry, with the slash that follows it. -/
def registryText : List Char :=
  match r.registry with
  | none => []
  | some (host, none) => host ++ ['/']
  | some (host, some port) => host ++ ':' :: port ++ ['/']

/-- What the reference names: the registry and the path. -/
def name : List Char := r.registryText ++ r.path

/-- The reference up to its digest. -/
def withTag : List Char :=
  match r.tag with
  | none => r.name
  | some t => r.name ++ ':' :: t

/-- The reference as it is written. -/
def text : List Char :=
  match r.digest with
  | none => r.withTag
  | some d => r.withTag ++ '@' :: d

end ImageReference

/-! ## Positions -/

section LastIndex

variable {c : Char} {s t : List Char}

theorem lastIndex_of_not_mem (h : c ∉ s) : lastIndex c s = -1 := by
  unfold lastIndex
  rw [List.idxOf?_eq_none_iff.mpr (by simpa using h)]

theorem idxOf?_append_cons (h : c ∉ s) (t : List Char) : (s ++ c :: t).idxOf? c = some s.length := by
  induction s with
  | nil => simp [List.idxOf?_cons]
  | cons d s ih =>
      obtain ⟨hd, hs⟩ := not_or.mp (fun hmem => h (List.mem_cons.mpr hmem))
      rw [List.cons_append, List.idxOf?_cons, if_neg (by simpa using Ne.symm hd), ih hs]
      rfl

/-- The last index is that behind which there is no other. -/
theorem lastIndex_append_cons (h : c ∉ t) (s : List Char) : lastIndex c (s ++ c :: t) = s.length := by
  have hrev : (s ++ c :: t).reverse = t.reverse ++ c :: s.reverse := by simp
  have hidx : (s ++ c :: t).reverse.idxOf? c = some t.length := by
    rw [hrev, idxOf?_append_cons (by simpa using h), List.length_reverse]
  unfold lastIndex
  rw [hidx]
  simp only [List.length_append, List.length_cons]
  omega

theorem exists_last (h : c ∈ s) : ∃ x y, s = x ++ c :: y ∧ c ∉ y := by
  obtain ⟨x, y, hs, hx⟩ := List.eq_append_cons_of_mem (List.mem_reverse.mpr h)
  refine ⟨y.reverse, x.reverse, ?_, by simpa using hx⟩
  rw [← List.reverse_reverse s, hs]
  simp

theorem lastIndex_lt (c : Char) (s : List Char) : lastIndex c s < s.length := by
  by_cases h : c ∈ s
  · obtain ⟨x, y, rfl, hy⟩ := exists_last h
    rw [lastIndex_append_cons hy, List.length_append, List.length_cons]
    omega
  · rw [lastIndex_of_not_mem h]
    omega

/-- What comes in a later part comes later. -/
theorem le_lastIndex_append (h : c ∈ t) (s : List Char) : (s.length : Int) ≤ lastIndex c (s ++ t) := by
  obtain ⟨x, y, rfl, hy⟩ := exists_last h
  rw [← List.append_assoc, lastIndex_append_cons hy, List.length_append]
  omega

theorem lastIndex_append_of_not_mem (h : c ∉ t) (s : List Char) : lastIndex c (s ++ t) = lastIndex c s := by
  by_cases hs : c ∈ s
  · obtain ⟨x, y, rfl, hy⟩ := exists_last hs
    have hrest : c ∉ y ++ t := fun hmem => (List.mem_append.mp hmem).elim hy h
    rw [List.append_assoc, List.cons_append, lastIndex_append_cons hrest, lastIndex_append_cons hy]
  · rw [lastIndex_of_not_mem hs, lastIndex_of_not_mem fun hmem => (List.mem_append.mp hmem).elim hs h]

end LastIndex

/-! ## Label values -/

theorem ascii_of_isLabelChar {c : Char} (h : isLabelChar c = true) : c.val ≤ 127 := by
  unfold isLabelChar at h
  simp only [Bool.or_eq_true, decide_eq_true_eq, isAlphanum_iff] at h
  rw [UInt32.le_iff_toNat_le]
  rcases h with (((h | h | h) | rfl) | rfl) | rfl
  · exact h.2.trans (by decide)
  · exact h.2.trans (by decide)
  · exact h.2.trans (by decide)
  · decide
  · decide
  · decide

/-- The characters of a label value are single bytes. -/
theorem byteLength_of_label {s : List Char} (h : ∀ c ∈ s, isLabelChar c = true) : byteLength s = s.length := by
  induction s with
  | nil => rfl
  | cons c s ih =>
      obtain ⟨hc, hs⟩ := List.forall_mem_cons.mp h
      have hsize : c.utf8Size = 1 := Char.utf8Size_eq_one_iff.mpr (ascii_of_isLabelChar hc)
      rw [byteLength, List.map_cons, List.sum_cons, hsize, ← byteLength, ih hs, List.length_cons, Nat.add_comm]

/-- The regular expression and the limit say what a label value is, unless it is empty. -/
theorem validLabelValue_iff {tag : List Char} (hne : tag ≠ []) :
    ValidLabelValue (String.ofList tag) ↔ ¬ (byteLength tag > 63 ∨ labelValueMatches tag = false) := by
  obtain ⟨c, rest, rfl⟩ := List.exists_cons_of_ne_nil hne
  rw [not_or, not_lt, Bool.not_eq_false]
  constructor
  · rintro ⟨hlength, hchars, hfirst, hlast⟩
    rw [String.toList_ofList] at hlength hchars hfirst hlast
    refine ⟨(byteLength_of_label hchars).trans_le hlength, ?_⟩
    refine Bool.and_eq_true_iff.mpr ⟨hfirst c rfl, Bool.or_eq_true_iff.mpr ?_⟩
    rcases List.eq_nil_or_concat' rest with rfl | ⟨init, last, rfl⟩
    · exact .inl rfl
    · refine .inr (Bool.and_eq_true_iff.mpr ⟨List.all_eq_true.mpr fun d hd => hchars d ?_, ?_⟩)
      · exact List.mem_cons_of_mem _ (List.dropLast_subset _ hd)
      · have hlast' := hlast last (by rw [← List.cons_append, List.getLast?_concat]; rfl)
        rw [List.getLast?_concat]
        exact hlast'
  · rintro ⟨hlength, hmatches⟩
    obtain ⟨hfirst, hrest⟩ := Bool.and_eq_true_iff.mp hmatches
    have hlabel : ∀ {d : Char}, d.isAlphanum = true → isLabelChar d = true := fun hd => by
      unfold isLabelChar
      rw [hd]
      rfl
    have hparts : (∀ d ∈ rest, isLabelChar d = true) ∧ ∀ d ∈ (c :: rest).getLast?, d.isAlphanum = true := by
      rcases List.eq_nil_or_concat' rest with rfl | ⟨init, last, rfl⟩
      · refine ⟨nofun, ?_⟩
        rintro d ⟨⟩
        exact hfirst
      · have hend : (List.dropLast (init ++ [last])).all isLabelChar = true ∧
            (init ++ [last]).getLast?.any Char.isAlphanum = true := by
          rcases Bool.or_eq_true_iff.mp hrest with hempty | hend
          · exact absurd (List.isEmpty_iff.mp hempty) (by simp)
          · exact Bool.and_eq_true_iff.mp hend
        rw [List.dropLast_concat, List.getLast?_concat] at hend
        refine ⟨fun d hd => ?_, fun d hd => ?_⟩
        · rcases List.mem_append.mp hd with hd | hd
          · exact List.all_eq_true.mp hend.1 d hd
          · rw [List.mem_singleton.mp hd]
            exact hlabel hend.2
        · rw [← List.cons_append, List.getLast?_concat] at hd
          cases hd
          exact hend.2
    have hchars : ∀ d ∈ c :: rest, isLabelChar d = true := List.forall_mem_cons.mpr ⟨hlabel hfirst, hparts.1⟩
    refine ⟨?_, ?_, ?_, ?_⟩ <;> rw [String.toList_ofList]
    · rw [← byteLength_of_label hchars]
      exact hlength
    · exact hchars
    · rintro d ⟨⟩
      exact hfirst
    · exact hparts.2

/-! ## The version -/

/-- The tag of a reference without its digest. -/
theorem cutBefore_text (r : ImageReference) : cutBefore '@' r.text = r.withTag := by
  have hregistry : '@' ∉ r.registryText := by
    unfold ImageReference.registryText
    cases hr : r.registry with
    | none => exact nofun
    | some registry =>
        obtain ⟨host, port⟩ := registry
        have hhost := r.host_plain _ hr
        cases port with
        | none => simpa using hhost
        | some port =>
            have hport := r.port_plain _ hr port rfl
            simp [hhost, hport]
  have hname : '@' ∉ r.name := fun h => (List.mem_append.mp h).elim hregistry r.path_plain.2
  have hwithTag : '@' ∉ r.withTag := by
    unfold ImageReference.withTag
    cases ht : r.tag with
    | none => exact hname
    | some t => simp [hname, (r.tag_plain t ht).2]
  have hplain : ∀ c ∈ r.withTag, (decide (c ≠ '@')) = true := fun c hc => decide_eq_true fun heq => hwithTag (heq ▸ hc)
  unfold cutBefore ImageReference.text
  cases r.digest with
  | none => exact List.takeWhile_eq_self_iff.mpr hplain
  | some d => rw [List.takeWhile_append_of_pos hplain, List.takeWhile_cons_of_neg (by simp), List.append_nil]

/-- A colon in the name is that of a port: a slash follows. -/
theorem name_no_tag (r : ImageReference) :
    lastIndex ':' r.name < 0 ∨ lastIndex ':' r.name < lastIndex '/' r.name := by
  unfold ImageReference.name
  rw [lastIndex_append_of_not_mem r.path_plain.1]
  have hslash : r.registryText = [] ∨ ∃ x, r.registryText = x ++ ['/'] := by
    unfold ImageReference.registryText
    split
    · exact .inl rfl
    · exact .inr ⟨_, rfl⟩
    · exact .inr ⟨_, rfl⟩
  rcases hslash with hempty | ⟨x, hx⟩
  · rw [hempty]
    exact .inl (by decide)
  · right
    rw [hx, lastIndex_append_of_not_mem (by decide), List.append_assoc]
    exact (lastIndex_lt ':' x).trans_le (le_lastIndex_append List.mem_cons_self x)

/-- The tag of a reference, if it has one that is a label value. -/
def ImageReference.version (r : ImageReference) : List Char :=
  match r.tag with
  | some tag => if ValidLabelValue (String.ofList tag) then tag else []
  | none => []

theorem versionFromImage_eq_version (r : ImageReference) : versionFromImage r.text = r.version := by
  unfold versionFromImage ImageReference.version
  simp only [cutBefore_text]
  unfold ImageReference.withTag
  cases ht : r.tag with
  | none =>
      dsimp only
      rw [if_pos (name_no_tag r)]
  | some tag =>
      obtain ⟨hcolon, _⟩ := r.tag_plain tag ht
      dsimp only
      rw [lastIndex_append_cons hcolon]
      by_cases hslash : '/' ∈ tag
      · -- the colon is taken for that of a port, but such a tag is no label value anyway
        have hle : (r.name.length : Int) < lastIndex '/' (r.name ++ ':' :: tag) := by
          have hlast := le_lastIndex_append hslash (r.name ++ [':'])
          rw [List.append_assoc, List.length_append, List.length_singleton] at hlast
          exact Int.lt_of_lt_of_le (by omega) hlast
        have hinvalid : ¬ ValidLabelValue (String.ofList tag) := by
          intro hvalid
          have hlabel := hvalid.chars '/' (by rwa [String.toList_ofList])
          exact absurd hlabel (by decide)
        rw [if_pos (.inr hle), if_neg hinvalid]
      · -- the last slash is in the name, so what follows the last colon is the tag
        have hlt : lastIndex '/' (r.name ++ ':' :: tag) < r.name.length := by
          rw [lastIndex_append_of_not_mem (by simpa using hslash)]
          exact lastIndex_lt '/' r.name
        have hdrop : (r.name ++ ':' :: tag).drop ((r.name.length : Int) + 1).toNat = tag := by
          have hnat : ((r.name.length : Int) + 1).toNat = (r.name ++ [':']).length := by
            rw [List.length_append, List.length_singleton]
            rfl
          have hsplit : r.name ++ ':' :: tag = (r.name ++ [':']) ++ tag := List.append_cons _ _ _
          rw [hnat, hsplit, List.drop_left]
        rw [if_neg (by omega), hdrop]
        cases tag with
        | nil => simp
        | cons c tag =>
            by_cases hvalid : ValidLabelValue (String.ofList (c :: tag))
            · rw [if_pos hvalid, if_neg ((validLabelValue_iff (List.cons_ne_nil c tag)).mp hvalid)]
            · have hrejected := not_not.mp fun h => hvalid ((validLabelValue_iff (List.cons_ne_nil c tag)).mpr h)
              rw [if_neg hvalid, if_pos hrejected]

/-- **The version of an image is its tag**, if it has one that is a label value, and otherwise empty. -/
theorem versionFromImage_text (r : ImageReference) :
    versionFromImage r.text =
      match r.tag with
      | some tag => if ValidLabelValue (String.ofList tag) then tag else []
      | none => [] := versionFromImage_eq_version r

example : versionFromImage "localhost:5000/etos-api@sha256:abcdef".toList = [] := by decide +kernel

/-! ## The version label -/

/-- `VersionLabel`. -/
def versionLabel : String := "app.kubernetes.io/version"

/-- `SetVersionLabel`, on the labels. -/
def setVersionLabel (labels : StrMap) (image : List Char) : StrMap :=
  if versionFromImage image = [] then labels else labels.set versionLabel (String.ofList (versionFromImage image))

/-- Whatever the image, its version can be a label. -/
theorem versionFromImage_valid (image : List Char) : ValidLabelValue (String.ofList (versionFromImage image)) := by
  have hempty : ValidLabelValue (String.ofList []) := by decide
  unfold versionFromImage
  dsimp only
  split
  · exact hempty
  · split
    · exact hempty
    · rename_i haccepted
      refine (validLabelValue_iff fun htag => haccepted (.inr ?_)).mpr haccepted
      rw [htag]
      rfl

theorem setVersionLabel_lookup (labels : StrMap) (image : List Char) (key : String) :
    (setVersionLabel labels image).lookup key =
      if key = versionLabel ∧ versionFromImage image ≠ [] then some (String.ofList (versionFromImage image))
      else labels.lookup key := by
  unfold setVersionLabel
  by_cases hempty : versionFromImage image = []
  · rw [if_pos hempty, if_neg fun h => h.2 hempty]
  · rw [if_neg hempty]
    by_cases hkey : key = versionLabel
    · rw [if_pos ⟨hkey, hempty⟩, hkey, StrMap.lookup_set_self]
    · rw [if_neg fun h => hkey h.1, StrMap.lookup_set_ne hkey]

end Etos
