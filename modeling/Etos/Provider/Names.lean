import Etos.Provider.Split
import Etos.TestRun.Pointers
import Etos.Webhook.Defaulter

/-!
# `Provider.Names` — names derived from a suite

The name of a suite becomes the name of its EnvironmentRequests, with a number if there are several, and from there it
goes two ways. `toRFC1123` makes it the prefix of the names of all resources that are provided for the request. As it
is, it becomes a label of these resources and of the job of the test runner, and labels that the API server does not
allow keep them from being created (**`suite_names_valid_iff`**, `suite_with_space`).
-/

namespace Etos

open Kube Prog

/-! ## Label values -/

/-- A character of a label value. -/
def isLabelChar (c : Char) : Bool := c.isAlphanum || c = '-' || c = '_' || c = '.'

/-- The API server accepts the value of a label: it is empty, or starts and ends with a letter or digit. -/
structure ValidLabelValue (v : String) : Prop where
  length : v.toList.length ≤ 63
  chars : ∀ c ∈ v.toList, isLabelChar c = true
  first : ∀ c ∈ v.toList.head?, c.isAlphanum = true
  last : ∀ c ∈ v.toList.getLast?, c.isAlphanum = true

instance (v : String) : Decidable (ValidLabelValue v) :=
  decidable_of_iff (v.toList.length ≤ 63 ∧ v.toList.all isLabelChar = true ∧
      v.toList.head?.all Char.isAlphanum = true ∧ v.toList.getLast?.all Char.isAlphanum = true)
    ⟨fun ⟨hlength, hchars, hfirst, hlast⟩ =>
        ⟨hlength, List.all_eq_true.mp hchars, (Option.all_eq_true _ _).mp hfirst, (Option.all_eq_true _ _).mp hlast⟩,
      fun h => ⟨h.length, List.all_eq_true.mpr h.chars, (Option.all_eq_true _ _).mpr h.first,
        (Option.all_eq_true _ _).mpr h.last⟩⟩

/-- All values are accepted. -/
def ValidLabels (labels : StrMap) : Prop := ∀ p ∈ labels, ValidLabelValue p.2

theorem ValidLabels.set {labels : StrMap} {value : String} (h : ValidLabels labels) (key : String)
    (hv : ValidLabelValue value) : ValidLabels (labels.set key value) := by
  induction labels with
  | nil =>
      intro p hp
      rw [List.mem_singleton.mp hp]
      exact hv
  | cons q labels ih =>
      have hrest : ValidLabels labels := fun p hp => h p (List.mem_cons_of_mem _ hp)
      unfold StrMap.set
      split
      · intro p hp
        rcases List.mem_cons.mp hp with rfl | hp
        · exact hv
        · exact hrest p hp
      · intro p hp
        rcases List.mem_cons.mp hp with rfl | hp
        · exact h _ List.mem_cons_self
        · exact ih hrest p hp

theorem ValidLabels.setUnlessEmpty {labels : StrMap} {key value : String} (h : ValidLabels labels)
    (hv : ValidLabelValue value) : ValidLabels (setUnlessEmpty labels key value) := by
  unfold Etos.setUnlessEmpty
  split
  · exact h
  · exact h.set key hv

/-- The value of a key. -/
theorem ValidLabels.lookup {labels : StrMap} {key value : String} (h : ValidLabels labels)
    (hv : labels.lookup key = some value) : ValidLabelValue value := by
  induction labels with
  | nil => cases hv
  | cons q labels ih =>
      rw [List.lookup_cons] at hv
      split at hv
      · cases hv
        exact h _ List.mem_cons_self
      · exact ih (fun p hp => h p (List.mem_cons_of_mem _ hp)) hv

theorem ValidLabels.get {labels : StrMap} (h : ValidLabels labels) (key : String) :
    ValidLabelValue (labels.get key) := by
  unfold StrMap.get
  cases hv : labels.lookup key with
  | none => decide
  | some value => exact h.lookup hv

/-! ## Prefixes of names -/

/-- The API server accepts names that are generated from the prefix. -/
structure ValidPrefix (p : String) : Prop where
  length : p.toList.length ≤ 63
  chars : ∀ c ∈ p.toList, isLowerAlphanumeric c = true ∨ c = '-'
  first : ∃ c ∈ p.toList.head?, isLowerAlphanumeric c = true

theorem hyphenate_chars (cs : List Char) : ∀ c ∈ hyphenate cs, isLowerAlphanumeric c = true ∨ c = '-' := by
  induction cs with
  | nil => exact nofun
  | cons c cs ih =>
      unfold hyphenate
      split
      · rename_i hc
        intro d hd
        rcases List.mem_cons.mp hd with rfl | hd
        · exact .inl hc
        · exact ih d hd
      · split
        · rename_i hrest
          rw [← hrest]
          exact ih
        · intro d hd
          rcases List.mem_cons.mp hd with rfl | hd
          · exact .inr rfl
          · exact ih d hd

/-- Hyphens are taken off the ends. -/
theorem trimHyphens_cons {c : Char} (hc : c ≠ '-') (cs : List Char) :
    ∃ cs', trimHyphens (c :: cs) = c :: cs' ∧ cs' ⊆ cs := by
  have hdrop : (c :: cs).dropWhile (· = '-') = c :: cs := by
    rw [List.dropWhile_cons_of_neg]
    simpa using hc
  refine ⟨(cs.reverse.dropWhile (· = '-')).reverse, ?_, ?_⟩
  · unfold trimHyphens
    rw [hdrop, List.reverse_cons, List.dropWhile_append]
    split
    · rename_i hempty
      rw [List.isEmpty_iff.mp hempty, List.dropWhile_cons_of_neg (by simpa using hc)]
      rfl
    · rw [List.reverse_append]
      rfl
  · intro d hd
    have hmem := (List.dropWhile_sublist _).subset (List.mem_reverse.mp hd)
    exact List.mem_reverse.mp hmem

theorem trimHyphenSuffix_cons {c : Char} (hc : c ≠ '-') (cs : List Char) :
    ∃ cs', trimHyphenSuffix (c :: cs) = c :: cs' ∧ cs' ⊆ cs ∧ cs'.length ≤ cs.length := by
  unfold trimHyphenSuffix
  split
  · rename_i hlast
    cases cs with
    | nil =>
        simp at hlast
        exact absurd hlast hc
    | cons d cs => exact ⟨(d :: cs).dropLast, rfl, List.dropLast_subset _, by simp⟩
  · exact ⟨cs, rfl, List.Subset.refl _, Nat.le_refl _⟩

theorem isLowerAlphanumeric_iff {c : Char} : isLowerAlphanumeric c = true ↔
    (97 ≤ c.val.toNat ∧ c.val.toNat ≤ 122) ∨ (48 ≤ c.val.toNat ∧ c.val.toNat ≤ 57) := by
  simp only [isLowerAlphanumeric, Bool.or_eq_true, Bool.and_eq_true, decide_eq_true_eq, Char.le_def,
    UInt32.le_iff_toNat_le]
  rfl

theorem isAlphanum_iff {c : Char} : c.isAlphanum = true ↔
    (65 ≤ c.val.toNat ∧ c.val.toNat ≤ 90) ∨ (97 ≤ c.val.toNat ∧ c.val.toNat ≤ 122) ∨
      (48 ≤ c.val.toNat ∧ c.val.toNat ≤ 57) := by
  have hchars : c.isAlphanum = (decide ('A'.val ≤ c.val ∧ c.val ≤ 'Z'.val) || ('a'.val ≤ c.val && c.val ≤ 'z'.val) ||
      ('0'.val ≤ c.val && c.val ≤ '9'.val)) := rfl
  rw [hchars]
  simp only [Bool.or_eq_true, Bool.and_eq_true, decide_eq_true_eq, UInt32.le_iff_toNat_le, or_assoc]
  rfl

/-- Letters and digits stay. -/
theorem lowerRune_alphanum {c : Char} (h : c.isAlphanum = true) : isLowerAlphanumeric (lowerRune c) = true := by
  -- the two characters beyond ASCII that become ASCII letters are no letters here
  have hdotted : c ≠ Char.ofNat 0x130 := by
    rintro rfl
    exact absurd h (by decide)
  have hkelvin : c ≠ Char.ofNat 0x212A := by
    rintro rfl
    exact absurd h (by decide)
  unfold lowerRune
  rw [if_neg hdotted, if_neg hkelvin]
  have hcases := isAlphanum_iff.mp h
  rw [isLowerAlphanumeric_iff]
  unfold Char.toLower
  split
  · rename_i hupper
    obtain ⟨h₁, h₂⟩ := hupper
    have h₁ : 65 ≤ c.val.toNat := h₁
    have h₂ : c.val.toNat ≤ 90 := h₂
    have hadd : (c.val + ('a'.val - 'A'.val)).toNat = c.val.toNat + 32 := by
      rw [UInt32.toNat_add]
      have : ('a'.val - 'A'.val).toNat = 32 := rfl
      omega
    left
    show 97 ≤ (c.val + ('a'.val - 'A'.val)).toNat ∧ (c.val + ('a'.val - 'A'.val)).toNat ≤ 122
    omega
  · rename_i hupper
    have hnot : ¬ (65 ≤ c.val.toNat ∧ c.val.toNat ≤ 90) := hupper
    omega

theorem ne_empty_iff {s : String} : s ≠ "" ↔ ∃ c, c ∈ s.toList.head? := by
  rw [Ne, ← String.toList_eq_nil_iff]
  cases s.toList with
  | nil => simp
  | cons c cs => simp

/-- What starts with a letter or digit becomes a prefix. -/
theorem validPrefix_of_first {s : String} {c : Char} (hc : c ∈ s.toList.head?) (halnum : c.isAlphanum = true) :
    ValidPrefix (toRFC1123 s 62 ++ "-") := by
  obtain ⟨cs, hs⟩ : ∃ cs, s.toList = c :: cs := by
    cases h : s.toList with
    | nil =>
        rw [h] at hc
        cases hc
    | cons d cs =>
        rw [h] at hc
        cases hc
        exact ⟨cs, rfl⟩
  -- the first character survives every step, so that nothing but the end is ever trimmed
  have hlower := lowerRune_alphanum halnum
  have hne : lowerRune c ≠ '-' := by
    intro heq
    rw [heq] at hlower
    exact absurd hlower (by decide)
  have hhyphenate : hyphenate (s.toList.map lowerRune) = lowerRune c :: hyphenate (cs.map lowerRune) := by
    rw [hs, List.map_cons, hyphenate, if_pos hlower]
  obtain ⟨trimmed, htrim, htrimmed⟩ := trimHyphens_cons hne (hyphenate (cs.map lowerRune))
  obtain ⟨rest, hrest, hsub, hlen⟩ := trimHyphenSuffix_cons hne (trimmed.take 61)
  have hresult : toRFC1123 s 62 = String.ofList (lowerRune c :: rest) := by
    unfold toRFC1123
    rw [hhyphenate, htrim, List.take_succ_cons, hrest]
  have hlist : (toRFC1123 s 62 ++ "-").toList = lowerRune c :: (rest ++ ['-']) := by
    rw [hresult, String.toList_append, String.toList_ofList]
    rfl
  have hchars : ∀ d ∈ rest, isLowerAlphanumeric d = true ∨ d = '-' := fun d hd =>
    hyphenate_chars _ d (htrimmed ((List.take_sublist _ _).subset (hsub hd)))
  refine ⟨?_, ?_, ⟨lowerRune c, ?_, hlower⟩⟩
  · rw [hlist, List.length_cons, List.length_append, List.length_singleton]
    have htake : (trimmed.take 61).length ≤ 61 := by
      rw [List.length_take]
      omega
    omega
  · rw [hlist]
    intro d hd
    rcases List.mem_cons.mp hd with rfl | hd
    · exact .inl hlower
    rcases List.mem_append.mp hd with hd | hd
    · exact hchars d hd
    · exact .inr (List.mem_singleton.mp hd)
  · rw [hlist]
    rfl

/-! ## What is derived from a request -/

/-- The provider of each kind of resources. -/
def providerOf (request : EnvironmentRequest) : ResourceKind → String
  | .iut => request.spec.providers.iut
  | .logArea => request.spec.providers.logArea
  | .executionSpace => request.spec.providers.executionSpace.id

/-- The resources that the generic providers make for a request. -/
inductive Made (request : EnvironmentRequest) : (r : ResourceKind) → Resource r → Prop where
  | iut {spec x log} (h : (NewIUT request spec).Returns x log) : Made request .iut x
  | logArea {spec x log} (h : (NewLogArea request spec).Returns x log) : Made request .logArea x
  | executionSpace {spec x log} (h : (NewExecutionSpace request spec).Returns (.ok x) log) :
      Made request .executionSpace x

/-- The API server accepts what is derived from a request: the labels that the defaulters give its resources and that
    its test runners have, and the prefix of the names of its resources. -/
structure Accepted (request : EnvironmentRequest) : Prop where
  labels : ∀ r x, Made request r x → ValidLabels (defaulted r request x).metadata.labels
  generateName : ∀ r x, Made request r x → ValidPrefix x.metadata.generateName
  testRunner : ValidLabels (testRunnerLabels request)

variable {request : EnvironmentRequest}

theorem Made.eq {r : ResourceKind} {x : Resource r} (h : Made request r x) : ∃ appName spec,
    x = newResource r request appName spec ∧ ValidLabelValue appName ∧
      (r.common spec).providerID = providerOf request r := by
  cases h with
  | iut h =>
      obtain ⟨id, rest, -, rfl, -⟩ := h
      exact ⟨_, _, rfl, by decide, rfl⟩
  | logArea h =>
      obtain ⟨id, rest, -, rfl, -⟩ := h
      exact ⟨_, _, rfl, by decide, rfl⟩
  | executionSpace h =>
      obtain ⟨id, rest, -, h⟩ := h
      replace h : (environmentVariables request >>= _).Returns (Except.ok _) rest := h
      obtain ⟨err, l₁, l₂, -, -, h⟩ := returns_bind.mp h
      cases err with
      | some e => cases h.1
      | none =>
          cases h.1
          exact ⟨_, _, rfl, by decide, rfl⟩

/-- The defaulter's labels. -/
theorem validLabels_default {r : ResourceKind} {providerID : String} {labels : StrMap} (h : ValidLabels labels)
    (hname : ValidLabelValue request.spec.name) (hid : ValidLabelValue request.spec.id)
    (hprovider : ValidLabelValue providerID) (hlabels : ValidLabels request.metadata.labels)
    (hidentifier : ValidLabelValue request.spec.identifier) :
    ValidLabels (defaultLabels r request providerID labels) := by
  have hbase := (((h.set requestLabel hname).set requestIdLabel hid).set providerLabel hprovider).set
    "app.kubernetes.io/part-of" (show ValidLabelValue "etos" by decide)
  unfold defaultLabels
  dsimp only
  refine ValidLabels.setUnlessEmpty (ValidLabels.setUnlessEmpty ?_ (hlabels.get _)) hidentifier
  split
  · refine hbase.set _ ?_
    cases r <;> decide
  · exact hbase

theorem validLabels_testRunner (hname : ValidLabelValue request.spec.name) (hid : ValidLabelValue request.spec.id)
    (hprovider : ValidLabelValue (providerOf request .executionSpace)) (hlabels : ValidLabels request.metadata.labels)
    (hidentifier : ValidLabelValue request.spec.identifier) : ValidLabels (testRunnerLabels request) := by
  unfold testRunnerLabels
  dsimp only
  refine ValidLabels.setUnlessEmpty (ValidLabels.setUnlessEmpty ?_ (hlabels.get _)) hidentifier
  intro p hp
  simp only [List.mem_cons, List.not_mem_nil, or_false] at hp
  rcases hp with rfl | rfl | rfl | rfl | rfl
  · exact hprovider
  · exact hname
  · exact hid
  · decide
  · decide

/-- The label with the name of the request. -/
theorem default_name (r : ResourceKind) (providerID : String) (labels : StrMap) :
    (defaultLabels r request providerID labels).lookup requestLabel = some request.spec.name := by
  rw [defaultLabels_lookup r request providerID labels (by decide), StrMap.lookup_set_ne (by decide),
    StrMap.lookup_set_ne (by decide), StrMap.lookup_set_self]

/-- The label with the name of the provider. -/
theorem default_provider (r : ResourceKind) (providerID : String) (labels : StrMap) :
    (defaultLabels r request providerID labels).lookup providerLabel = some providerID := by
  rw [defaultLabels_lookup r request providerID labels (by decide), StrMap.lookup_set_self]

theorem testRunner_provider :
    (testRunnerLabels request).lookup providerLabel = some (providerOf request .executionSpace) := by
  unfold testRunnerLabels
  rw [lookup_setUnlessEmpty_ne (by decide), lookup_setUnlessEmpty_ne (by decide)]
  rfl

/-- An Iut and a LogArea are always made. -/
theorem made_iut (request : EnvironmentRequest) :
    ∃ x, Made request .iut x ∧ x.spec.providerID = request.spec.providers.iut :=
  ⟨_, .iut (⟨"", _, rfl, rfl, rfl⟩ : (NewIUT request {}).Returns _ _), rfl⟩

theorem made_logArea (request : EnvironmentRequest) :
    ∃ x, Made request .logArea x ∧ x.spec.providerID = request.spec.providers.logArea :=
  ⟨_, .logArea (⟨"", _, rfl, rfl, rfl⟩ : (NewLogArea request {}).Returns _ _), rfl⟩

/-- **A request is accepted** if and only if its name is a label value and not empty, and the names of its providers are
    label values. -/
theorem accepted_iff (hid : ValidLabelValue request.spec.id) (hlabels : ValidLabels request.metadata.labels)
    (hidentifier : ValidLabelValue request.spec.identifier) : Accepted request ↔
      request.spec.name ≠ "" ∧ ValidLabelValue request.spec.name ∧ ∀ r, ValidLabelValue (providerOf request r) := by
  constructor
  · intro h
    obtain ⟨iut, hiut, hiutProvider⟩ := made_iut request
    obtain ⟨logArea, hlogArea, hlogAreaProvider⟩ := made_logArea request
    refine ⟨fun hempty => ?_, (h.labels _ _ hiut).lookup (default_name ..), fun r => ?_⟩
    · -- the prefix is a hyphen
      obtain ⟨appName, spec, rfl, -, -⟩ := hiut.eq
      obtain ⟨c, hc, hlower⟩ := (h.generateName _ _ hiut).first
      rw [show (newResource .iut request appName spec).metadata.generateName =
        toRFC1123 request.spec.name 62 ++ "-" from rfl, hempty] at hc
      cases hc
      exact absurd hlower (by decide)
    · cases r with
      | iut =>
          show ValidLabelValue request.spec.providers.iut
          rw [← hiutProvider]
          exact (h.labels _ _ hiut).lookup (default_provider ..)
      | logArea =>
          show ValidLabelValue request.spec.providers.logArea
          rw [← hlogAreaProvider]
          exact (h.labels _ _ hlogArea).lookup (default_provider ..)
      | executionSpace => exact h.testRunner.lookup testRunner_provider
  · rintro ⟨hne, hname, hproviders⟩
    refine ⟨fun r x hx => ?_, fun r x hx => ?_, validLabels_testRunner hname hid (hproviders _) hlabels hidentifier⟩
    · obtain ⟨appName, spec, rfl, happ, hprovider⟩ := hx.eq
      refine validLabels_default ?_ hname hid (hprovider ▸ hproviders r) hlabels hidentifier
      intro p hp
      rcases List.mem_cons.mp hp with rfl | hp
      · exact happ
      · rw [List.mem_singleton.mp hp]
        decide
    · obtain ⟨appName, spec, rfl, -, -⟩ := hx.eq
      obtain ⟨c, hc⟩ := ne_empty_iff.mp hne
      exact validPrefix_of_first hc (hname.first c hc)

/-! ## Identifiers -/

/-- `^[0-9a-f]{8}-[0-9a-f]{4}-[1-5][0-9a-f]{3}-[89ab][0-9a-f]{3}-[0-9a-f]{12}$`, the pattern of the identifiers, by the
    characters at each position. -/
def uuidPattern : List (List Char) :=
  let hex := "0123456789abcdef".toList
  let group (n : Nat) := List.replicate n hex
  group 8 ++ ['-'] :: group 4 ++ ['-'] :: "12345".toList :: group 3 ++ ['-'] :: "89ab".toList :: group 3 ++
    ['-'] :: group 12

def IsUUID (s : String) : Prop := List.Forall₂ (fun c chars => c ∈ chars) s.toList uuidPattern

instance (s : String) : Decidable (IsUUID s) := inferInstanceAs (Decidable (List.Forall₂ _ _ _))

theorem IsUUID.validLabelValue {s : String} (h : IsUUID s) : ValidLabelValue s := by
  have hchars : uuidPattern.all (·.all isLabelChar) = true := by decide
  have hends : ∀ i (hi : i < uuidPattern.length), i = 0 ∨ i = 35 →
      (uuidPattern.get ⟨i, hi⟩).all Char.isAlphanum = true := by
    rintro i hi (rfl | rfl)
    · decide +revert
    · decide +revert
  have hlen : s.toList.length = uuidPattern.length := h.length_eq
  have h36 : uuidPattern.length = 36 := rfl
  obtain ⟨-, hget⟩ := List.forall₂_iff_get.mp h
  refine ⟨by omega, fun c hc => ?_, fun c hc => ?_, fun c hc => ?_⟩
  · obtain ⟨i, hi, rfl⟩ := List.getElem_of_mem hc
    exact List.all_eq_true.mp (List.all_eq_true.mp hchars _ (List.get_mem _ _)) _ (hget i hi (hlen ▸ hi))
  · rw [List.head?_eq_getElem?] at hc
    obtain ⟨hi, rfl⟩ := List.getElem?_eq_some_iff.mp hc
    exact List.all_eq_true.mp (hends _ _ (.inl rfl)) _ (hget 0 hi (hlen ▸ hi))
  · rw [List.getLast?_eq_getElem?] at hc
    obtain ⟨hi, rfl⟩ := List.getElem?_eq_some_iff.mp hc
    exact List.all_eq_true.mp (hends _ _ (.inr (by omega))) _ (hget _ hi (hlen ▸ hi))

/-! ## The name of a suite -/

open TestRunReconciler

/-- The name of a suite makes a label of the request for a test runner. It starts with a letter or digit and has no
    characters but those of labels. With a number after it, it has to leave room for the number; without, it also ends
    with a letter or digit. -/
structure NameFits (suite : Suite) (testrunner : String) : Prop where
  chars : ∀ c ∈ suite.name.toList, isLabelChar c = true
  first : ∃ c ∈ suite.name.toList.head?, c.isAlphanum = true
  last : (testrunners suite).length ≤ 1 → ∀ c ∈ suite.name.toList.getLast?, c.isAlphanum = true
  length : suite.name.toList.length + (if (testrunners suite).length ≤ 1 then 0
    else 1 + (toString ((testrunners suite).idxOf testrunner)).toList.length) ≤ 63

theorem digit_labelChar {c : Char} (h : c.isDigit = true) : c.isAlphanum = true ∧ isLabelChar c = true := by
  have halphanum : c.isAlphanum = true := by
    unfold Char.isAlphanum
    rw [h, Bool.or_true]
  refine ⟨halphanum, ?_⟩
  unfold isLabelChar
  rw [halphanum]
  rfl

theorem toString_digits {n : Nat} : (toString n).toList ≠ [] ∧ ∀ c ∈ (toString n).toList, c.isDigit = true := by
  show n.repr.toList ≠ [] ∧ ∀ c ∈ n.repr.toList, c.isDigit = true
  rw [Nat.toList_repr]
  exact ⟨Nat.toDigits_ne_nil, fun c hc => Nat.isDigit_of_mem_toDigits (by decide) (by decide) hc⟩

/-- The name of a request is a label value if the name of its suite fits. -/
theorem requestName_valid_iff (suite : Suite) (testrunner : String) :
    requestName suite testrunner ≠ "" ∧ ValidLabelValue (requestName suite testrunner) ↔ NameFits suite testrunner := by
  by_cases hsingle : (testrunners suite).length ≤ 1
  · -- the request is called like its suite
    rw [requestName_single testrunner hsingle, ne_empty_iff]
    constructor
    · rintro ⟨⟨c, hc⟩, hvalid⟩
      refine ⟨hvalid.chars, ⟨c, hc, hvalid.first c hc⟩, fun _ => hvalid.last, ?_⟩
      rw [if_pos hsingle]
      exact hvalid.length
    · intro h
      obtain ⟨c, hc, halphanum⟩ := h.first
      have hlength := h.length
      rw [if_pos hsingle] at hlength
      refine ⟨⟨c, hc⟩, hlength, h.chars, fun d hd => ?_, h.last hsingle⟩
      rw [Option.mem_unique hd hc]
      exact halphanum
  · -- a hyphen and a number follow, so the suite may end with any character of a label
    have hlist := requestName_toList testrunner hsingle
    obtain ⟨hne, hdigits⟩ := @toString_digits ((testrunners suite).idxOf testrunner)
    rw [ne_empty_iff]
    constructor
    · rintro ⟨-, hvalid⟩
      refine ⟨fun c hc => ?_, ?_, fun h => absurd h hsingle, ?_⟩
      · exact hvalid.chars c (by rw [hlist]; exact List.mem_append_left _ hc)
      · cases hname : suite.name.toList with
        | nil => exact absurd (hvalid.first '-' (by rw [hlist, hname]; rfl)) (by decide)
        | cons c cs => exact ⟨c, rfl, hvalid.first c (by rw [hlist, hname]; rfl)⟩
      · have hlength := hvalid.length
        rw [hlist, List.length_append, List.length_cons] at hlength
        rw [if_neg hsingle]
        omega
    · intro h
      obtain ⟨c, hc, halphanum⟩ := h.first
      have hlength := h.length
      rw [if_neg hsingle] at hlength
      have hhead : (requestName suite testrunner).toList.head? = suite.name.toList.head? := by
        rw [hlist, List.head?_append_of_ne_nil]
        intro hnil
        rw [hnil] at hc
        cases hc
      refine ⟨⟨c, hhead ▸ hc⟩, ?_, fun d hd => ?_, fun d hd => ?_, fun d hd => ?_⟩
      · rw [hlist, List.length_append, List.length_cons]
        omega
      · rw [hlist] at hd
        rcases List.mem_append.mp hd with hd | hd
        · exact h.chars d hd
        · rcases List.mem_cons.mp hd with rfl | hd
          · decide
          · exact (digit_labelChar (hdigits d hd)).2
      · rw [hhead] at hd
        rw [Option.mem_unique hd hc]
        exact halphanum
      · rw [hlist, List.getLast?_append_of_ne_nil _ (List.cons_ne_nil _ _)] at hd
        obtain ⟨e, es, hes⟩ := List.exists_cons_of_ne_nil hne
        rw [hes, List.getLast?_cons_cons, ← hes] at hd
        exact (digit_labelChar (hdigits d (List.mem_of_getLast? hd))).1

/-- The API server has accepted the request itself: its labels and its identifier. -/
structure Stored (request : EnvironmentRequest) : Prop where
  labels : ValidLabels request.metadata.labels
  id : IsUUID request.spec.id

/-- **A request of a suite is accepted** if and only if the name of the suite fits and the names of the providers of the
    TestRun are label values. -/
theorem suite_names_valid_iff {suite : Suite} {requests : List EnvironmentRequest} {testrun : TestRun}
    {cluster : Cluster} {log : List (Said Op Ans)} {left : M (Option Err)} {R : EnvironmentRequest}
    (h : (createEnvironmentRequests suite requests testrun cluster).After log left) (hR : R ∈ createdRequests log)
    (hstored : Stored R) :
    Accepted R ↔ NameFits suite (runnerOf R) ∧ ValidLabelValue testrun.spec.providers.iut ∧
      ValidLabelValue testrun.spec.providers.logArea ∧ ValidLabelValue testrun.spec.providers.executionSpace := by
  obtain ⟨r, -, -, hfor⟩ := createEnvironmentRequests_madeFor h hR
  have hname : R.spec.name = requestName suite r := congrArg Key.name hfor.key
  have hrunner : runnerOf R = r := congrArg Key.testRunner hfor.key
  -- the identifier of the TestRun is a label of the request as well
  have hidentifier : ValidLabelValue R.spec.identifier := by
    rw [hfor.identifier]
    have hlabels := hstored.labels
    rw [hfor.labels] at hlabels
    exact hlabels _ List.mem_cons_self
  rw [accepted_iff hstored.id.validLabelValue hstored.labels hidentifier, hname, ← and_assoc, requestName_valid_iff,
    hrunner]
  refine and_congr Iff.rfl ?_
  rw [← hfor.iut, ← hfor.logArea, ← hfor.executionSpace]
  constructor
  · exact fun hproviders => ⟨hproviders .iut, hproviders .logArea, hproviders .executionSpace⟩
  · rintro ⟨hiut, hlogArea, hexecutionSpace⟩ r
    cases r with
    | iut => exact hiut
    | logArea => exact hlogArea
    | executionSpace => exact hexecutionSpace

section

/-- A suite with one test. -/
def oneTest (name : String) : Suite :=
  { name := name
    tests := [{ id := "1", testCase := { id := "1" }, execution := { testRunner := "python" } }] }

/-- A TestRun with the suite. -/
def oneSuite (name : String) : TestRun :=
  { metadata := { name := "testrun" }
    spec := { providers := ⟨"iut", "log-area", "execution-space"⟩, suites := [oneTest name] }
    status := {} }

/-- It is admitted, and a request is made for the suite. -/
theorem oneSuite_created (name : String) : ∃ admitted log R, Admits someConfig someReads (oneSuite name) admitted ∧
    admitted.spec.suites = [oneTest name] ∧ admitted.spec.providers = ⟨"iut", "log-area", "execution-space"⟩ ∧
    (createEnvironmentRequests (oneTest name) [] admitted equippedCluster).Returns none log ∧
    R ∈ createdRequests log ∧ Stored R ∧ R.spec.name = name ∧ runnerOf R = "python" := by
  have hrun : ∃ log R, (createEnvironmentRequests (oneTest name) []
      (TestRunCustomDefaulter.Default someConfig someReads (oneSuite name)) equippedCluster).Returns none log ∧
      createdRequests log = [R] ∧ R.spec.id = "8a3bd8b6-5c5b-1b5f-9c1d-0f0f5f9b2f10" :=
    ⟨_, _, ⟨⟨["python"], .refl _⟩, _, rfl, (0 : Int), _, rfl, "8a3bd8b6-5c5b-1b5f-9c1d-0f0f5f9b2f10", _, rfl,
      .ok ⟨{}, {}, {}⟩, _, rfl, rfl, rfl⟩, rfl, rfl⟩
  obtain ⟨log, R, hreturns, hcreated, hid⟩ := hrun
  have hR : R ∈ createdRequests log := hcreated ▸ List.mem_singleton_self R
  obtain ⟨r, hr, -, hfor⟩ := createEnvironmentRequests_madeFor (Returns.after hreturns) hR
  obtain rfl : r = "python" := List.mem_singleton.mp hr
  refine ⟨_, log, R, ⟨rfl, rfl⟩, rfl, rfl, hreturns, hR, ⟨?_, ?_⟩, congrArg Key.name hfor.key,
    congrArg Key.testRunner hfor.key⟩
  · rw [hfor.labels]
    show ∀ p ∈ [(idLabel, "8a3bd8b6-5c5b-4b5f-9c1d-0f0f5f9b2f10"), (clusterLabel, "cluster"),
      ("app.kubernetes.io/name", "suite-runner"), ("app.kubernetes.io/part-of", "etos")], ValidLabelValue p.2
    decide
  · rw [hid]
    decide

/-- The request of a suite whose name fits. -/
theorem suite_name_fits : ∃ admitted log R, Admits someConfig someReads (oneSuite "Suite_1.0") admitted ∧
    (createEnvironmentRequests (oneTest "Suite_1.0") [] admitted equippedCluster).Returns none log ∧
    R ∈ createdRequests log ∧ Accepted R := by
  obtain ⟨admitted, log, R, hadmits, -, hproviders, hrun, hR, hstored, -, hrunner⟩ := oneSuite_created "Suite_1.0"
  refine ⟨admitted, log, R, hadmits, hrun, hR, (suite_names_valid_iff (Returns.after hrun) hR hstored).mpr ?_⟩
  rw [hproviders, hrunner]
  have hfits : NameFits (oneTest "Suite_1.0") "python" :=
    ⟨List.all_eq_true.mp (by decide), ⟨'S', rfl, by decide⟩,
      fun _ => (Option.all_eq_true _ _).mp (by decide), by decide⟩
  exact ⟨hfits, by decide, by decide, by decide⟩

/-- **A suite whose name has a space** is admitted, but what is derived from its request is not accepted. -/
theorem suite_with_space : ∃ admitted suite log R, Admits someConfig someReads (oneSuite "My suite") admitted ∧
    suite ∈ admitted.spec.suites ∧
    (createEnvironmentRequests suite [] admitted equippedCluster).Returns none log ∧ R ∈ createdRequests log ∧
    Stored R ∧ ¬ Accepted R := by
  obtain ⟨admitted, log, R, hadmits, hsuites, -, hrun, hR, hstored, hname, -⟩ := oneSuite_created "My suite"
  refine ⟨admitted, _, log, R, hadmits, ?_, hrun, hR, hstored, fun haccepted => ?_⟩
  · rw [hsuites]
    exact List.mem_singleton_self _
  · obtain ⟨iut, hiut, -⟩ := made_iut R
    have hlabel := (haccepted.labels _ _ hiut).lookup (default_name ..)
    rw [hname] at hlabel
    exact absurd hlabel (by decide)

end

end Etos
