import Mathlib.Data.List.TakeWhile
import Etos.Url.Parse

/-!
# `Url.RoundTrip` — URLs that are written and read again

A URL with a scheme, a user with a password, a host and a path reads back as it was written (**`Parse_string`**), if its
host does. `Parse_cases` says what can be read from any text after a scheme, `Parse_parts` what is read from text whose
parts are where they should be.
-/

namespace Etos.Url

open Etos.Lists

variable {ipLiteral : Bytes → Bool} {scheme x s : Bytes} {url : URL}

/-- Bytes at which the authority of a URL ends. -/
def endsAuthority (c : UInt8) : Bool := (bytes "/?#").contains c

/-- The authority goes up to the first byte that ends it. -/
def authorityOf (x : Bytes) : Bytes := x.takeWhile fun c => !endsAuthority c

theorem before_before_before (x : Bytes) : before '/' (before '?' (before '#' x)) = authorityOf x := by
  have hends : ∀ c : UInt8, (decide (c ≠ byte '/') && decide (c ≠ byte '?') && decide (c ≠ byte '#')) =
    !endsAuthority c := forall_byte (by decide +kernel)
  unfold before authorityOf
  rw [List.takeWhile_takeWhile, List.takeWhile_takeWhile]
  congr 1
  funext c
  rw [← hends c]
  simp

/-- What has been read when text after a scheme has been read. -/
theorem Parse_cases (h : Scheme scheme) (hurl : Parse ipLiteral (scheme ++ bytes "://" ++ x) = some url) :
    url.scheme = scheme ∧ parseAuthority ipLiteral (authorityOf x) = some (url.user, url.host) ∧
      unescape .path ((before '?' (before '#' x)).drop (authorityOf x).length) = some url.path ∧
      ∀ c ∈ before '#' x, isCTL c = false := by
  rw [Parse_absolute h] at hurl
  split at hurl
  · rename_i url' fragment hparse hfragment
    cases hurl
    split at hparse
    · cases hparse
    rename_i hctl
    unfold parseHierarchy at hparse
    rw [before_before_before] at hparse
    dsimp only at hparse
    split at hparse
    · rename_i user host path hauthority hpath
      cases hparse
      exact ⟨rfl, hauthority, hpath, by simpa using hctl⟩
    · cases hparse
  · cases hurl

/-- Text whose parts are where they should be. -/
theorem Parse_parts (h : Scheme scheme) {userinfo host path : Bytes}
    (hplain : ∀ c ∈ userinfo ++ byte '@' :: host ++ path, isCTL c = false ∧ c ≠ byte '#' ∧ c ≠ byte '?')
    (hslash : byte '/' ∉ userinfo ++ byte '@' :: host) (hat : byte '@' ∉ host)
    (hpath : path = [] ∨ ∃ rest, path = byte '/' :: rest) :
    Parse ipLiteral (scheme ++ bytes "://" ++ (userinfo ++ byte '@' :: host ++ path)) =
      match parseHost ipLiteral host, parseUserinfo userinfo, unescape .path path with
      | some host, some user, some path => some { scheme := scheme, user := some user, host := host, path := path }
      | _, _, _ => none := by
  have hsharp : byte '#' ∉ userinfo ++ byte '@' :: host ++ path := fun hmem => (hplain _ hmem).2.1 rfl
  have hquestion : byte '?' ∉ userinfo ++ byte '@' :: host ++ path := fun hmem => (hplain _ hmem).2.2 rfl
  have hctl : (userinfo ++ byte '@' :: host ++ path).any isCTL = false := by
    rw [List.any_eq_false]
    intro c hc
    simp [(hplain c hc).1]
  have hauthority : before '/' (userinfo ++ byte '@' :: host ++ path) = userinfo ++ byte '@' :: host := by
    rw [before_append hslash]
    rcases hpath with rfl | ⟨rest, rfl⟩
    · simp [before]
    · simp [before]
  rw [Parse_absolute h, before_eq hsharp, after_eq hsharp, before_eq hquestion, hctl, if_neg (by decide)]
  unfold parseHierarchy
  rw [hauthority]
  dsimp only
  rw [List.drop_left, parseAuthority, cutLast_append_cons hat]
  dsimp only
  cases parseHost ipLiteral host with
  | none => rfl
  | some host =>
      cases parseUserinfo userinfo with
      | none => rfl
      | some user => cases unescape .path path <;> rfl

/-! ## Writing and reading -/

/-- A path that is written after a host starts with a slash, or is empty. -/
def rooted (path : Bytes) : Bytes := if path = [] ∨ path.head? = some (byte '/') then path else byte '/' :: path

/-- Escaped text does not end the part it stands in. -/
theorem escape_plain (mode : Encoding) (hmode : mode ≠ .fragment) :
    ∀ b ∈ escape s mode, isCTL b = false ∧ b ≠ byte '#' ∧ b ≠ byte '?' := by
  refine mem_escape (fun c hc => ?_) (by decide) ?_
  · obtain ⟨hctl, hsharp, hquestion, -⟩ := alphanumeric_plain c hc
    exact ⟨hctl, hsharp, hquestion⟩
  · cases mode with
    | fragment => exact absurd rfl hmode
    | _ => exact forall_mem (by decide)

theorem escape_userPassword : ∀ b ∈ escape s .userPassword,
    b ≠ byte '/' ∧ b ≠ byte ':' ∧ validUserinfo b = true := by
  refine mem_escape (fun c hc => ?_) (by decide) (forall_mem (by decide))
  obtain ⟨-, -, -, hslash, -, hcolon⟩ := alphanumeric_plain c hc
  refine ⟨hslash, hcolon, ?_⟩
  unfold validUserinfo
  rw [hc, Bool.true_or]

theorem escape_host : ∀ b ∈ escape s .host, b ≠ byte '/' ∧ b ≠ byte '@' := by
  refine mem_escape (fun c hc => ?_) (by decide) (forall_mem (by decide))
  obtain ⟨-, -, -, hslash, hat, -⟩ := alphanumeric_plain c hc
  exact ⟨hslash, hat⟩

theorem parseUserinfo_string (username password : Bytes) :
    parseUserinfo (Userinfo.string ⟨username, some password⟩) = some ⟨username, some password⟩ := by
  have hall : (Userinfo.string ⟨username, some password⟩).all validUserinfo = true := by
    rw [List.all_eq_true]
    intro c hc
    rcases List.mem_append.mp hc with hc | hc
    · exact (escape_userPassword c hc).2.2
    · rcases List.mem_cons.mp hc with rfl | hc
      · decide
      · exact (escape_userPassword c hc).2.2
  have hcolon : byte ':' ∉ escape username .userPassword := fun h => (escape_userPassword _ h).2.1 rfl
  have hunescape := @unescape_escape .userPassword (fun _ _ => rfl) fun _ => rfl
  unfold parseUserinfo
  rw [if_pos hall]
  have hcut : cut (byte ':') (Userinfo.string ⟨username, some password⟩) =
      some (escape username .userPassword, escape password .userPassword) := cut_append_cons hcolon
  rw [hcut]
  dsimp only
  rw [hunescape, hunescape]

theorem head_escape_path : (escape s .path).head? = some (byte '/') ↔ s.head? = some (byte '/') := by
  cases s with
  | nil => simp
  | cons c s =>
      rw [escape_cons, List.head?_append_of_ne_nil _ escapeByte_ne_nil]
      by_cases hc : c = byte '/'
      · rw [hc, show escapeByte .path (byte '/') = [byte '/'] by decide]
        rfl
      · have hslash : byte '/' ∉ escapeByte .path c := not_mem_escapeByte hc (by decide) (by decide)
        have hhead : (escapeByte .path c).head? ≠ some (byte '/') := fun hhead => hslash (List.mem_of_head? hhead)
        simp [hhead, hc]

theorem escape_eq_nil {mode : Encoding} : escape s mode = [] ↔ s = [] := by
  cases s with
  | nil => simp
  | cons c s =>
      rw [escape_cons]
      unfold escapeByte
      split <;> simp

/-- The path comes back, with a slash in front. -/
theorem unescape_rooted (path : Bytes) :
    unescape .path (rooted (URL.escapedPath { path := path })) = some (rooted path) := by
  have hunescape := @unescape_escape .path (fun _ _ => rfl) fun _ => rfl
  unfold URL.escapedPath
  dsimp only
  split
  · rename_i hstar
    rw [hstar]
    decide
  · unfold rooted
    simp only [escape_eq_nil, head_escape_path]
    split
    · exact hunescape path
    · have hslash : escape (byte '/' :: path) .path = byte '/' :: escape path .path := by
        rw [escape_cons, show escapeByte .path (byte '/') = [byte '/'] by decide]
        rfl
      rw [← hslash]
      exact hunescape _

theorem rooted_cases (path : Bytes) : rooted path = [] ∨ ∃ rest, rooted path = byte '/' :: rest := by
  unfold rooted
  split
  · rename_i hpath
    rcases hpath with rfl | hpath
    · exact .inl rfl
    · exact .inr ⟨path.tail, (List.eq_cons_of_mem_head? hpath)⟩
  · exact .inr ⟨path, rfl⟩

theorem rooted_plain {path : Bytes} : ∀ c ∈ rooted (URL.escapedPath { path := path }),
    isCTL c = false ∧ c ≠ byte '#' ∧ c ≠ byte '?' := by
  have hescaped : ∀ c ∈ URL.escapedPath { path := path }, isCTL c = false ∧ c ≠ byte '#' ∧ c ≠ byte '?' := by
    unfold URL.escapedPath
    split
    · exact forall_mem (by decide)
    · exact escape_plain .path (by decide)
  intro c hc
  unfold rooted at hc
  split at hc
  · exact hescaped c hc
  · rcases List.mem_cons.mp hc with rfl | hc
    · decide
    · exact hescaped c hc

theorem string_eq {username password host path : Bytes} (h : Scheme scheme) (hhost : host ≠ []) :
    URL.string { scheme := scheme, user := some ⟨username, some password⟩, host := host, path := path } =
      scheme ++ bytes "://" ++ (Userinfo.string ⟨username, some password⟩ ++ byte '@' :: escape host .host ++
        rooted (URL.escapedPath { path := path })) := by
  obtain ⟨c, rest, hscheme, -⟩ := h.first
  have hne : scheme ≠ [] := by simp [hscheme]
  have hauthority : URL.authority
      { scheme := scheme, user := some ⟨username, some password⟩, host := host, path := path } =
      bytes "//" ++ (Userinfo.string ⟨username, some password⟩ ++ [byte '@']) ++ escape host .host := by
    unfold URL.authority
    dsimp only
    rw [if_neg fun h => hne h.1, if_neg fun h => hhost h.1]
  have hpath : ∀ p : Bytes,
      (if p ≠ [] ∧ p.head? ≠ some (byte '/') ∧ host ≠ [] then [byte '/'] else []) ++ p = rooted p := by
    intro p
    unfold rooted
    split
    · rename_i hp
      rw [if_neg (not_or.mpr ⟨hp.1, hp.2.1⟩)]
      rfl
    · rename_i hp
      rw [if_pos (by tauto)]
      rfl
  have hcolon : bytes "://" = byte ':' :: bytes "//" := by decide
  have hescaped : URL.escapedPath
    { scheme := scheme, user := some ⟨username, some password⟩, host := host, path := path } =
      URL.escapedPath { path := path } := rfl
  unfold URL.string
  dsimp only
  rw [hauthority, hescaped, if_neg hne, if_neg (by simp), ← hpath, hcolon]
  generalize (if URL.escapedPath { path := path } ≠ [] ∧ (URL.escapedPath { path := path }).head? ≠ some (byte '/') ∧
    host ≠ [] then [byte '/'] else []) = slash
  rw [if_neg (by simp [hne])]
  simp only [List.append_assoc, List.cons_append, List.nil_append]

/-- **What is written is read back**, as far as the host is. -/
theorem Parse_string {username password host path : Bytes} (h : Scheme scheme) (hhost : host ≠ []) :
    Parse ipLiteral
        (URL.string { scheme := scheme, user := some ⟨username, some password⟩, host := host, path := path }) =
      (parseHost ipLiteral (escape host .host)).map fun host =>
        { scheme := scheme, user := some ⟨username, some password⟩, host := host, path := rooted path } := by
  have huserinfo : ∀ c ∈ Userinfo.string ⟨username, some password⟩,
      isCTL c = false ∧ c ≠ byte '#' ∧ c ≠ byte '?' ∧ c ≠ byte '/' := by
    have hescaped : ∀ s : Bytes, ∀ c ∈ escape s .userPassword,
        isCTL c = false ∧ c ≠ byte '#' ∧ c ≠ byte '?' ∧ c ≠ byte '/' := by
      intro s c hc
      obtain ⟨hctl, hsharp, hquestion⟩ := escape_plain .userPassword (by decide) c hc
      exact ⟨hctl, hsharp, hquestion, (escape_userPassword c hc).1⟩
    intro c hc
    rcases List.mem_append.mp hc with hc | hc
    · exact hescaped _ c hc
    · rcases List.mem_cons.mp hc with rfl | hc
      · decide
      · exact hescaped _ c hc
  rw [string_eq h hhost, Parse_parts h, parseUserinfo_string, unescape_rooted]
  · cases parseHost ipLiteral (escape host .host) <;> rfl
  · intro c hc
    rcases List.mem_append.mp hc with hc | hc
    · rcases List.mem_append.mp hc with hc | hc
      · obtain ⟨hctl, hsharp, hquestion, -⟩ := huserinfo c hc
        exact ⟨hctl, hsharp, hquestion⟩
      · rcases List.mem_cons.mp hc with rfl | hc
        · decide
        · exact escape_plain .host (by decide) c hc
    · exact rooted_plain c hc
  · intro hslash
    rcases List.mem_append.mp hslash with hslash | hslash
    · exact (huserinfo _ hslash).2.2.2 rfl
    · rcases List.mem_cons.mp hslash with heq | hslash
      · exact absurd heq (by decide)
      · exact (escape_host _ hslash).1 rfl
  · exact fun h => (escape_host _ h).2 rfl
  · exact rooted_cases _

end Etos.Url
