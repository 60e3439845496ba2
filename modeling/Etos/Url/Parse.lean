import Etos.Lists.Cut
import Etos.Url.Escape

/-!
# `Url.Parse` — URLs as text and in parts

`Parse`, `String`, `Hostname` and `Port` of Go's `net/url`, for URLs without a query of their own: what follows a
question mark is dropped, what follows a number sign only has to be escaped correctly. Which texts between square
brackets are IPv6 addresses is left open, it is the parameter `ipLiteral`.
-/

namespace Etos.Url

open Etos.Lists

/-- `Userinfo`. -/
structure Userinfo where
  username : Bytes
  /-- `none` if no password is set. -/
  password : Option Bytes
  deriving DecidableEq

/-- `URL`. -/
structure URL where
  scheme : Bytes := []
  /-- What follows the scheme of a URL that does not go on with a slash. -/
  rootless : Bytes := []
  user : Option Userinfo := none
  host : Bytes := []
  path : Bytes := []
  deriving DecidableEq

/-! ## From parts to text -/

/-- What is before the first `c`, or all of it. -/
def before (c : Char) (s : Bytes) : Bytes := s.takeWhile (· ≠ byte c)

/-- What is after the first `c`, or nothing. -/
def after (c : Char) (s : Bytes) : Bytes := (s.dropWhile (· ≠ byte c)).tail

/-- `Userinfo.String`. -/
def Userinfo.string (u : Userinfo) : Bytes :=
  match u.password with
  | some password => escape u.username .userPassword ++ byte ':' :: escape password .userPassword
  | none => escape u.username .userPassword

/-- `URL.EscapedPath`. -/
def URL.escapedPath (u : URL) : Bytes := if u.path = bytes "*" then bytes "*" else escape u.path .path

/-- The part of a URL before its path. -/
def URL.authority (u : URL) : Bytes :=
  if u.scheme = [] ∧ u.host = [] ∧ u.user = none then []
  else
    (if u.host = [] ∧ u.path = [] ∧ u.user = none then [] else bytes "//") ++
      (match u.user with
        | some user => user.string ++ [byte '@']
        | none => []) ++ escape u.host .host

/-- `URL.String`. -/
def URL.string (u : URL) : Bytes :=
  let scheme := if u.scheme = [] then [] else u.scheme ++ [byte ':']
  if u.rootless ≠ [] then scheme ++ u.rootless
  else
    let root := scheme ++ u.authority
    let path := u.escapedPath
    let slash := if path ≠ [] ∧ path.head? ≠ some (byte '/') ∧ u.host ≠ [] then [byte '/'] else []
    let dot := if root ++ slash = [] ∧ byte ':' ∈ before '/' path then bytes "./" else []
    root ++ slash ++ dot ++ path

/-! ## From text to parts -/

/-- `stringContainsCTLByte`, of one byte. -/
def isCTL (c : UInt8) : Bool := c < 0x20 || c = 0x7f

def isLetter (c : UInt8) : Bool := byte 'a' ≤ c && c ≤ byte 'z' || byte 'A' ≤ c && c ≤ byte 'Z'

/-- The loop of `getScheme`; the scheme is empty if there is none. -/
def getSchemeFrom (raw : Bytes) : Bytes → Bytes → Option (Bytes × Bytes)
  | _, [] => some ([], raw)
  | scheme, c :: s =>
      if isLetter c then getSchemeFrom raw (scheme ++ [c]) s
      else if isDigit c || (bytes "+-.").contains c then
        if scheme = [] then some ([], raw) else getSchemeFrom raw (scheme ++ [c]) s
      else if c = byte ':' then
        if scheme = [] then none else some (scheme, s)
      else some ([], raw)

/-- `getScheme`. -/
def getScheme (raw : Bytes) : Option (Bytes × Bytes) := getSchemeFrom raw [] raw

def toLower (c : UInt8) : UInt8 := if byte 'A' ≤ c && c ≤ byte 'Z' then c + 32 else c

/-- `validOptionalPort`. -/
def validOptionalPort : Bytes → Bool
  | [] => true
  | c :: port => c = byte ':' && port.all isDigit

/-- `validUserinfo`, of one byte. -/
def validUserinfo (c : UInt8) : Bool := isAlphanumeric c || (bytes "-._:~!$&'()*+,;=%@").contains c

/-- Cut before the first `%25`. -/
def cutZone : Bytes → Bytes × Bytes
  | [] => ([], [])
  | c :: s => if (bytes "%25").isPrefixOf (c :: s) then ([], c :: s) else (c :: (cutZone s).1, (cutZone s).2)

/-- The text between brackets, with a zone or without. -/
def unescapeLiteral (hostname : Bytes) : Option Bytes :=
  match unescape .host (cutZone hostname).1, unescape .zone (cutZone hostname).2 with
  | some host, some zone => some (host ++ zone)
  | _, _ => none

section

variable (ipLiteral : Bytes → Bool)

/-- `parseHost`. An IPv6 address in brackets is the whole host, up to the port. A closing bracket before the opening one
    leaves no valid port after it, so the bracket to look for follows the opening one. -/
def parseHost (host : Bytes) : Option Bytes :=
  match cutLast (byte '[') host with
  | some (x, rest) =>
      match cutLast (byte ']') rest with
      | none => none
      | some (hostname, colonPort) =>
          if x = [] ∧ validOptionalPort colonPort = true then
            match unescape .host colonPort, unescapeLiteral hostname with
            | some port, some name =>
                if ipLiteral name then some (byte '[' :: name ++ byte ']' :: port) else none
            | _, _ => none
          else none
  | none =>
      match cutLast (byte ':') host with
      | some (_, port) => if port.all isDigit then unescape .host host else none
      | none => unescape .host host

/-- The userinfo of an authority. -/
def parseUserinfo (userinfo : Bytes) : Option Userinfo :=
  if userinfo.all validUserinfo then
    match cut (byte ':') userinfo with
    | none => (unescape .userPassword userinfo).map fun username => ⟨username, none⟩
    | some (username, password) =>
        match unescape .userPassword username, unescape .userPassword password with
        | some username, some password => some ⟨username, some password⟩
        | _, _ => none
  else none

/-- `parseAuthority`. -/
def parseAuthority (authority : Bytes) : Option (Option Userinfo × Bytes) :=
  match cutLast (byte '@') authority with
  | none => (parseHost ipLiteral authority).map fun host => (none, host)
  | some (userinfo, host) =>
      match parseHost ipLiteral host, parseUserinfo userinfo with
      | some host, some user => some (some user, host)
      | _, _ => none

/-- What follows `//`: an authority up to the first slash, and a path. -/
def parseHierarchy (scheme s : Bytes) : Option URL :=
  let authority := before '/' s
  match parseAuthority ipLiteral authority, unescape .path (s.drop authority.length) with
  | some (user, host), some path => some { scheme := scheme, user := user, host := host, path := path }
  | _, _ => none

/-- `parse`. -/
def parse (raw : Bytes) : Option URL :=
  if raw.any isCTL then none
  else if raw = bytes "*" then some { path := bytes "*" }
  else
    match getScheme raw with
    | none => none
    | some (scheme, rest) =>
        let scheme := scheme.map toLower
        let rest := before '?' rest
        if ¬ (bytes "/").isPrefixOf rest ∧ scheme ≠ [] then some { scheme := scheme, rootless := rest }
        else if ¬ (bytes "/").isPrefixOf rest ∧ byte ':' ∈ before '/' rest then none
        else if (scheme ≠ [] ∨ ¬ (bytes "///").isPrefixOf rest) ∧ (bytes "//").isPrefixOf rest then
          parseHierarchy ipLiteral scheme (rest.drop 2)
        else (unescape .path rest).map fun path => { scheme := scheme, path := path }

/-- `Parse`. -/
def Parse (raw : Bytes) : Option URL :=
  match parse ipLiteral (before '#' raw), unescape .fragment (after '#' raw) with
  | some url, some _ => some url
  | _, _ => none

end

/-- Cut off a port. -/
def cutPort (hostPort : Bytes) : Bytes × Bytes :=
  match cutLast (byte ':') hostPort with
  | some (host, port) => if port.all isDigit then (host, port) else (hostPort, [])
  | none => (hostPort, [])

def stripBrackets (host : Bytes) : Bytes :=
  if host.head? = some (byte '[') ∧ host.getLast? = some (byte ']') then host.tail.dropLast else host

/-- `splitHostPort`: what `Hostname` and `Port` return. -/
def splitHostPort (hostPort : Bytes) : Bytes × Bytes := (stripBrackets (cutPort hostPort).1, (cutPort hostPort).2)

/-! ## Absolute URLs -/

def isSchemeByte (c : UInt8) : Bool := isLetter c || isDigit c || (bytes "+-.").contains c

/-- A scheme in lower case. -/
structure Scheme (s : Bytes) : Prop where
  first : ∃ c rest, s = c :: rest ∧ isLetter c = true
  all : ∀ c ∈ s, isSchemeByte c = true
  lower : s.map toLower = s

variable {ipLiteral : Bytes → Bool} {scheme s x : Bytes}

/-- Letters and digits separate nothing. -/
theorem alphanumeric_plain : ∀ c : UInt8, isAlphanumeric c = true → isCTL c = false ∧ c ≠ byte '#' ∧ c ≠ byte '?' ∧
    c ≠ byte '/' ∧ c ≠ byte '@' ∧ c ≠ byte ':' := forall_byte (by decide +kernel)

theorem isSchemeByte_plain (c : UInt8) (h : isSchemeByte c = true) :
    isCTL c = false ∧ c ≠ byte '#' ∧ c ≠ byte '?' ∧ c ≠ byte ':' := by
  have hletter : (isLetter c || isDigit c) = isAlphanumeric c := rfl
  have hmarks : ∀ c ∈ bytes "+-.", isCTL c = false ∧ c ≠ byte '#' ∧ c ≠ byte '?' ∧ c ≠ byte ':' :=
    forall_mem (by decide)
  unfold isSchemeByte at h
  rw [hletter, Bool.or_eq_true, List.contains_iff_mem] at h
  rcases h with h | h
  · obtain ⟨hctl, hsharp, hquestion, -, -, hcolon⟩ := alphanumeric_plain c h
    exact ⟨hctl, hsharp, hquestion, hcolon⟩
  · exact hmarks c h

theorem before_append {c : Char} (h : byte c ∉ x) : before c (x ++ s) = x ++ before c s := by
  unfold before
  rw [List.takeWhile_append_of_pos]
  intro b hb
  simpa using fun heq : b = byte c => h (heq ▸ hb)

theorem after_append {c : Char} (h : byte c ∉ x) : after c (x ++ s) = after c s := by
  unfold after
  rw [List.dropWhile_append_of_pos]
  intro b hb
  simpa using fun heq : b = byte c => h (heq ▸ hb)

theorem before_eq {c : Char} (h : byte c ∉ s) : before c s = s := by
  have happend := before_append (s := []) h
  rwa [List.append_nil, show before c [] = [] from rfl, List.append_nil] at happend

theorem after_eq {c : Char} (h : byte c ∉ s) : after c s = [] := by
  have happend := after_append (s := []) h
  rwa [List.append_nil, show after c [] = [] from rfl] at happend

theorem getSchemeFrom_append {raw rest acc : Bytes} (hacc : acc ≠ []) (h : ∀ c ∈ s, isSchemeByte c = true) :
    getSchemeFrom raw acc (s ++ byte ':' :: rest) = some (acc ++ s, rest) := by
  induction s generalizing acc with
  | nil =>
      have hcolon : isLetter (byte ':') = false ∧
          (isDigit (byte ':') || (bytes "+-.").contains (byte ':')) = false := by
        decide
      rw [List.nil_append, getSchemeFrom, hcolon.1, hcolon.2]
      simp [hacc]
  | cons c s ih =>
      have hc := h c List.mem_cons_self
      have ih := @ih (acc ++ [c]) (by simp) fun b hb => h b (List.mem_cons_of_mem _ hb)
      rw [List.append_assoc, List.singleton_append] at ih
      rw [List.cons_append, getSchemeFrom]
      by_cases hl : isLetter c = true
      · rw [if_pos hl]
        exact ih
      · unfold isSchemeByte at hc
        rw [if_neg hl, if_pos (by simpa [hl] using hc), if_neg hacc]
        exact ih

theorem Scheme.getScheme (h : Scheme scheme) (rest : Bytes) :
    Url.getScheme (scheme ++ byte ':' :: rest) = some (scheme, rest) := by
  obtain ⟨c, s, rfl, hc⟩ := h.first
  unfold Url.getScheme
  rw [List.cons_append, getSchemeFrom, if_pos hc]
  exact getSchemeFrom_append (by simp) fun b hb => h.all b (List.mem_cons_of_mem _ hb)

theorem Scheme.separated (h : Scheme scheme) : ∀ c ∈ scheme ++ bytes "://",
    isCTL c = false ∧ c ≠ byte '#' ∧ c ≠ byte '?' := by
  intro c hc
  rcases List.mem_append.mp hc with hc | hc
  · have hplain := isSchemeByte_plain c (h.all c hc)
    exact ⟨hplain.1, hplain.2.1, hplain.2.2.1⟩
  · have hall : ∀ c ∈ bytes "://", isCTL c = false ∧ c ≠ byte '#' ∧ c ≠ byte '?' := forall_mem (by decide)
    exact hall c hc

/-- After scheme and slashes come an authority and a path, without the query. -/
theorem parse_absolute (h : Scheme scheme) (x : Bytes) : parse ipLiteral (scheme ++ bytes "://" ++ x) =
    if x.any isCTL then none else parseHierarchy ipLiteral scheme (before '?' x) := by
  have hctl : (scheme ++ bytes "://" ++ x).any isCTL = x.any isCTL := by
    rw [List.any_append, List.any_eq_false.mpr fun c hc => by simp [(h.separated c hc).1], Bool.false_or]
  unfold parse
  rw [hctl]
  split
  · rfl
  have hraw : scheme ++ bytes "://" ++ x = scheme ++ byte ':' :: (bytes "//" ++ x) := by
    rw [List.append_assoc]
    rfl
  obtain ⟨c, rest, hscheme, hc⟩ := h.first
  have hstar : scheme ++ bytes "://" ++ x ≠ bytes "*" := by
    rw [hscheme]
    intro heq
    cases congrArg List.head? heq
    exact absurd hc (by decide)
  have hne : scheme ≠ [] := by simp [hscheme]
  rw [if_neg hstar, hraw, h.getScheme]
  dsimp only
  rw [h.lower, before_append (by decide)]
  rw [if_neg (by simp [bytes]), if_neg (by simp [bytes]), if_pos ⟨.inl hne, by simp [bytes]⟩]
  rfl

theorem Parse_absolute (h : Scheme scheme) (x : Bytes) : Parse ipLiteral (scheme ++ bytes "://" ++ x) =
    match (if (before '#' x).any isCTL then none else parseHierarchy ipLiteral scheme (before '?' (before '#' x))),
      unescape .fragment (after '#' x) with
    | some url, some _ => some url
    | _, _ => none := by
  have hsharp : byte '#' ∉ scheme ++ bytes "://" := fun hmem => (h.separated _ hmem).2.1 rfl
  unfold Parse
  rw [before_append hsharp, after_append hsharp, parse_absolute h]

end Etos.Url
