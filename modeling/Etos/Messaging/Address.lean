import Etos.Extras.Reconcile
import Etos.Prog.Trace
import Etos.Services.Reconcile
import Etos.Url.Host
import Etos.Url.RoundTrip

/-!
# `Messaging.Address` — the broker the publisher and the SSE server talk to

The publisher formats the address of the message bus from its configuration as it is. The SSE server gets its address
from a secret, which is written from the same configuration, by way of `url.URL`, which escapes. Both are parsed by the
same client library. **`same_broker_iff`**: the two addresses lead to the same broker exactly for the configurations in
which nothing had to be escaped, and whose vhost does not start with a slash, unless it is the slash.
**`deployed_same_broker_iff`** says the same of the secrets that the reconcilers of a cluster write and read.
-/

namespace Etos.Messaging

open Url Etos.Lists
open Services.ETOSSSEDeployment (streamScheme rabbitmqURL)

/-- `v1alpha1.RabbitMQ`, as far as the addresses are concerned, with the value of the password. -/
structure RabbitMQ where
  host : Bytes
  exchange : Bytes
  password : Bytes
  username : Bytes
  port : Bytes
  ssl : Bytes
  vhost : Bytes
  streamPort : Bytes
  streamName : Bytes

/-- The address in `NewRabbitMQStreamPublisher`. -/
def address (config : RabbitMQ) : Bytes :=
  let vhost := if config.vhost = bytes "/" then [] else config.vhost
  streamScheme config.ssl ++ bytes "://" ++ (config.username ++ byte ':' :: config.password ++ byte '@' ::
    (config.host ++ byte ':' :: config.streamPort) ++ byte '/' :: vhost)

/-- `MessageBusDeployment.secretData`. -/
def secretData (r : RabbitMQ) : List (String × Bytes) :=
  let data : List (String × Bytes) :=
    [("ETOS_RABBITMQ_HOST", r.host), ("ETOS_RABBITMQ_EXCHANGE", r.exchange), ("ETOS_RABBITMQ_PORT", r.port),
      ("ETOS_RABBITMQ_STREAM_PORT", r.streamPort), ("ETOS_RABBITMQ_STREAM_NAME", r.streamName),
      ("ETOS_RABBITMQ_SSL", r.ssl), ("ETOS_RABBITMQ_VHOST", r.vhost), ("ETOS_RABBITMQ_PASSWORD", r.password)]
  if r.username = [] then data else data ++ [("ETOS_RABBITMQ_USERNAME", r.username)]

/-- `ETOS_RABBITMQ_URI`. -/
def sseURI (data : List (String × Bytes)) : Except Kube.Err Bytes := (rabbitmqURL data).map URL.string

/-- What a client reads from an address. -/
structure Broker where
  scheme : Bytes
  username : Bytes
  password : Bytes
  host : Bytes
  port : Bytes
  vhost : Bytes
  deriving DecidableEq

/-- `strings.TrimPrefix(path, "/")`. -/
def trimSlash (path : Bytes) : Bytes := if path.head? = some (byte '/') then path.tail else path

def brokerOf (url : URL) : Broker :=
  { scheme := url.scheme
    username := (url.user.map Userinfo.username).getD []
    password := (url.user.bind Userinfo.password).getD []
    host := (splitHostPort url.host).1
    port := (splitHostPort url.host).2
    vhost := trimSlash url.path }

/-- The broker at an address, if it can be parsed. -/
def broker (ipLiteral : Bytes → Bool) (uri : Bytes) : Option Broker := (Parse ipLiteral uri).map brokerOf

/-- The publisher and the SSE server talk to the same broker. -/
def SameBroker (ipLiteral : Bytes → Bool) (config : RabbitMQ) : Prop :=
  ∃ uri b, sseURI (secretData config) = .ok uri ∧ broker ipLiteral uri = some b ∧
    broker ipLiteral (address config) = some b

/-- The host and the port, as both addresses have them. -/
def RabbitMQ.hostPort (config : RabbitMQ) : Bytes := config.host ++ byte ':' :: config.streamPort

/-- Nothing in the configuration has to be escaped, or is cut up by the parser. -/
structure Plain (ipLiteral : Bytes → Bool) (config : RabbitMQ) : Prop where
  username : ∀ c ∈ config.username, validUserinfo c = true ∧ c ≠ byte ':' ∧ c ≠ percent
  password : ∀ c ∈ config.password, validUserinfo c = true ∧ c ≠ percent
  host : percent ∉ config.hostPort ∧ parseHost ipLiteral config.hostPort ≠ none
  vhost : config.vhost = bytes "/" ∨ config.vhost.head? ≠ some (byte '/') ∧
    ∀ c ∈ config.vhost, isCTL c = false ∧ c ≠ byte '#' ∧ c ≠ byte '?' ∧ c ≠ percent

/-! ## The address of the SSE server -/

variable {ipLiteral : Bytes → Bool} {config : RabbitMQ}

theorem streamScheme_scheme (ssl : Bytes) : Scheme (streamScheme ssl) := by
  unfold streamScheme
  split
  · exact ⟨⟨byte 'r', bytes "abbitmq-stream+tls", by decide, by decide⟩, forall_mem (by decide), by decide⟩
  · exact ⟨⟨byte 'r', bytes "abbitmq-stream", by decide, by decide⟩, forall_mem (by decide), by decide⟩

/-- The secret has everything the configuration has. -/
theorem rabbitmqURL_secretData (config : RabbitMQ) : rabbitmqURL (secretData config) =
    .ok { scheme := streamScheme config.ssl, user := some ⟨config.username, some config.password⟩,
          host := config.hostPort, path := config.vhost } := by
  unfold secretData
  by_cases hu : config.username = []
  · rw [if_pos hu, hu]
    rfl
  · rw [if_neg hu]
    rfl

theorem trimSlash_rooted (path : Bytes) : trimSlash (rooted path) = trimSlash path := by
  unfold rooted
  split
  · rfl
  · rename_i h
    have hne := (not_or.mp h).2
    unfold trimSlash
    rw [if_neg hne]
    rfl

/-- The broker the SSE server talks to. -/
theorem sse_broker (config : RabbitMQ) (b : Broker) :
    (∃ uri, sseURI (secretData config) = .ok uri ∧ broker ipLiteral uri = some b) ↔
      ∃ h, parseHost ipLiteral (escape config.hostPort .host) = some h ∧
        b = { scheme := streamScheme config.ssl, username := config.username, password := config.password
              host := (splitHostPort h).1, port := (splitHostPort h).2, vhost := trimSlash config.vhost } := by
  have hhost : config.hostPort ≠ [] := by simp [RabbitMQ.hostPort]
  have huri : sseURI (secretData config) = .ok (URL.string
      { scheme := streamScheme config.ssl, user := some ⟨config.username, some config.password⟩,
        host := config.hostPort, path := config.vhost }) := by
    unfold sseURI
    rw [rabbitmqURL_secretData]
    rfl
  rw [huri]
  simp only [Except.ok.injEq, exists_eq_left']
  unfold broker
  rw [Parse_string (streamScheme_scheme _) hhost]
  cases parseHost ipLiteral (escape config.hostPort .host) with
  | none => simp
  | some h => simp [brokerOf, trimSlash_rooted, eq_comm]

/-! ## The address of the publisher -/

/-- The vhost in the address. -/
def RabbitMQ.addressVhost (config : RabbitMQ) : Bytes := if config.vhost = bytes "/" then [] else config.vhost

/-- What follows the scheme. -/
def RabbitMQ.rest (config : RabbitMQ) : Bytes :=
  config.username ++ byte ':' :: config.password ++ byte '@' :: config.hostPort ++ byte '/' :: config.addressVhost

theorem address_eq (config : RabbitMQ) : address config = streamScheme config.ssl ++ bytes "://" ++ config.rest := rfl

/-- Plain user names and passwords are read back. -/
theorem parseUserinfo_plain {username password : Bytes}
    (hu : ∀ c ∈ username, validUserinfo c = true ∧ c ≠ byte ':' ∧ c ≠ percent)
    (hp : ∀ c ∈ password, validUserinfo c = true ∧ c ≠ percent) :
    parseUserinfo (username ++ byte ':' :: password) = some ⟨username, some password⟩ := by
  have hall : (username ++ byte ':' :: password).all validUserinfo = true := by
    rw [List.all_eq_true]
    intro c hc
    rcases List.mem_append.mp hc with hc | hc
    · exact (hu c hc).1
    · rcases List.mem_cons.mp hc with rfl | hc
      · decide
      · exact (hp c hc).1
  unfold parseUserinfo
  rw [if_pos hall, cut_append_cons fun h => (hu _ h).2.1 rfl]
  dsimp only
  rw [unescape_plain (fun _ => rfl) fun h => (hu _ h).2.2 rfl, unescape_plain (fun _ => rfl) fun h => (hp _ h).2 rfl]

theorem validUserinfo_plain (c : UInt8) (h : validUserinfo c = true) :
    isCTL c = false ∧ c ≠ byte '#' ∧ c ≠ byte '?' ∧ c ≠ byte '/' := by
  have hmarks : ∀ c ∈ bytes "-._:~!$&'()*+,;=%@",
      isCTL c = false ∧ c ≠ byte '#' ∧ c ≠ byte '?' ∧ c ≠ byte '/' := forall_mem (by decide)
  unfold validUserinfo at h
  rw [Bool.or_eq_true, List.contains_iff_mem] at h
  rcases h with h | h
  · obtain ⟨hctl, hsharp, hquestion, hslash, -⟩ := alphanumeric_plain c h
    exact ⟨hctl, hsharp, hquestion, hslash⟩
  · exact hmarks c h

theorem endsHost_plain (c : UInt8) (h : endsHost c = false) :
    isCTL c = false ∧ c ≠ byte '#' ∧ c ≠ byte '?' ∧ c ≠ byte '/' ∧ c ≠ byte '@' := by
  obtain ⟨hctl, hmem⟩ := Bool.or_eq_false_iff.mp h
  have hne : ∀ b ∈ bytes "/?#@", c ≠ b := by
    rintro b hb rfl
    rw [List.contains_iff_mem.mpr hb] at hmem
    cases hmem
  exact ⟨hctl, hne _ (by decide), hne _ (by decide), hne _ (by decide), hne _ (by decide)⟩

/-- A plain configuration is read back from the address. -/
theorem Plain.publisher_broker (h : Plain ipLiteral config) {u : Bytes}
    (hu : parseHost ipLiteral config.hostPort = some u) :
    broker ipLiteral (address config) = some
      { scheme := streamScheme config.ssl, username := config.username, password := config.password
        host := (splitHostPort u).1, port := (splitHostPort u).2, vhost := trimSlash config.vhost } := by
  have hhost : ∀ c ∈ config.hostPort, endsHost c = false :=
    (parseHost_escaped (h := u) (by rw [parseHost_escape h.host.1, hu])).2
  have hvhost : ∀ c ∈ config.addressVhost, isCTL c = false ∧ c ≠ byte '#' ∧ c ≠ byte '?' ∧ c ≠ percent := by
    unfold RabbitMQ.addressVhost
    split
    · exact nofun
    · rename_i hslash
      exact (h.vhost.resolve_left hslash).2
  have htrim : config.addressVhost = trimSlash config.vhost := by
    unfold RabbitMQ.addressVhost
    split
    · rename_i hslash
      rw [hslash]
      decide
    · rename_i hslash
      exact (if_neg (h.vhost.resolve_left hslash).1).symm
  have hpath : unescape .path (byte '/' :: config.addressVhost) = some (byte '/' :: config.addressVhost) := by
    refine unescape_plain (fun _ => rfl) fun hmem => ?_
    rcases List.mem_cons.mp hmem with heq | hmem
    · exact absurd heq (by decide)
    · exact (hvhost _ hmem).2.2.2 rfl
  have huserinfo : ∀ c ∈ config.username ++ byte ':' :: config.password, validUserinfo c = true := by
    intro c hc
    rcases List.mem_append.mp hc with hc | hc
    · exact (h.username c hc).1
    · rcases List.mem_cons.mp hc with rfl | hc
      · decide
      · exact (h.password c hc).1
  unfold broker
  rw [address_eq, RabbitMQ.rest, Parse_parts (streamScheme_scheme _), hu, parseUserinfo_plain h.username h.password,
    hpath, ← htrim]
  · rfl
  · intro c hc
    rcases List.mem_append.mp hc with hc | hc
    · rcases List.mem_append.mp hc with hc | hc
      · obtain ⟨hctl, hsharp, hquestion, -⟩ := validUserinfo_plain c (huserinfo c hc)
        exact ⟨hctl, hsharp, hquestion⟩
      · rcases List.mem_cons.mp hc with rfl | hc
        · decide
        · obtain ⟨hctl, hsharp, hquestion, -⟩ := endsHost_plain c (hhost c hc)
          exact ⟨hctl, hsharp, hquestion⟩
    · rcases List.mem_cons.mp hc with rfl | hc
      · decide
      · obtain ⟨hctl, hsharp, hquestion, -⟩ := hvhost c hc
        exact ⟨hctl, hsharp, hquestion⟩
  · intro hmem
    rcases List.mem_append.mp hmem with hmem | hmem
    · exact (validUserinfo_plain _ (huserinfo _ hmem)).2.2.2 rfl
    · rcases List.mem_cons.mp hmem with heq | hmem
      · exact absurd heq (by decide)
      · exact (endsHost_plain _ (hhost _ hmem)).2.2.2.1 rfl
  · exact fun hmem => (endsHost_plain _ (hhost _ hmem)).2.2.2.2 rfl
  · exact .inr ⟨_, rfl⟩

/-! ## What follows from the same broker -/

theorem parseUserinfo_length {w : Bytes} {user : Userinfo} (h : parseUserinfo w = some user) :
    user.username.length + (user.password.getD []).length ≤ w.length := by
  unfold parseUserinfo at h
  split at h
  · split at h
    · obtain ⟨username, hu, rfl⟩ := Option.map_eq_some_iff.mp h
      have hlength := unescape_length hu
      simp only [Option.getD_none, List.length_nil]
      omega
    · rename_i x y hcut
      obtain ⟨rfl, -⟩ := cut_eq_some.mp hcut
      split at h
      · rename_i username password hu hp
        cases h
        have hlu := unescape_length hu
        have hlp := unescape_length hp
        simp only [Option.getD_some, List.length_append, List.length_cons]
        omega
      · cases h
  · cases h

/-- If user name and password come back, the authority was not cut off in them. -/
theorem not_endsAuthority {username password tail : Bytes} {user : Option Userinfo} {host : Bytes}
    (hauthority : parseAuthority ipLiteral (authorityOf (username ++ byte ':' :: password ++ tail)) = some (user, host))
    (hu : (user.map Userinfo.username).getD [] = username) (hp : (user.bind Userinfo.password).getD [] = password) :
    ∀ c ∈ username ++ byte ':' :: password, endsAuthority c = false := by
  by_contra hcut
  push Not at hcut
  obtain ⟨c, hc, hends⟩ := hcut
  -- what is left of the authority is shorter than the two together with the colon
  have hlt : (authorityOf (username ++ byte ':' :: password)).length < (username ++ byte ':' :: password).length := by
    refine Nat.lt_of_le_of_ne (List.takeWhile_sublist _).length_le fun heq => hends ?_
    have hall := List.takeWhile_eq_self_iff.mp ((List.takeWhile_sublist _).eq_of_length heq)
    simpa using hall c hc
  have hshort : authorityOf (username ++ byte ':' :: password ++ tail) =
      authorityOf (username ++ byte ':' :: password) := by
    unfold authorityOf at hlt ⊢
    rw [List.takeWhile_append, if_neg (Nat.ne_of_lt hlt)]
  rw [hshort] at hauthority
  generalize hT : authorityOf (username ++ byte ':' :: password) = T at hauthority hlt
  unfold parseAuthority at hauthority
  cases hat : cutLast (byte '@') T with
  | none =>
      rw [hat] at hauthority
      obtain ⟨h, -, heq⟩ := Option.map_eq_some_iff.mp hauthority
      cases heq
      have hu : [] = username := hu
      have hp : [] = password := hp
      rw [← hu, ← hp] at hc
      rw [List.mem_singleton.mp hc] at hends
      exact hends (by decide)
  | some q =>
      obtain ⟨w, hst⟩ := q
      obtain ⟨rfl, -⟩ := cutLast_eq_some.mp hat
      rw [hat] at hauthority
      dsimp only at hauthority
      split at hauthority
      · rename_i host' user' hhost' huser'
        cases hauthority
        have hle := parseUserinfo_length huser'
        have hu : user'.username = username := hu
        have hp : user'.password.getD [] = password := hp
        rw [hu, hp] at hle
        simp only [List.length_append, List.length_cons] at hlt
        omega
      · cases hauthority

/-- User names and passwords that come back are plain. -/
theorem plain_of_parseUserinfo {username password : Bytes} {user : Userinfo}
    (h : parseUserinfo (username ++ byte ':' :: password) = some user) (hu : user.username = username)
    (hp : user.password.getD [] = password) :
    (∀ c ∈ username, validUserinfo c = true ∧ c ≠ byte ':' ∧ c ≠ percent) ∧
      ∀ c ∈ password, validUserinfo c = true ∧ c ≠ percent := by
  unfold parseUserinfo at h
  split at h
  · rename_i hall
    rw [List.all_eq_true] at hall
    split at h
    · rename_i hnone
      exact absurd (by simp) (cut_eq_none.mp hnone)
    · rename_i x y hcut
      obtain ⟨heq, hx⟩ := cut_eq_some.mp hcut
      split at h
      · rename_i username' password' hu' hp'
        cases h
        rw [show username' = username from hu] at hu'
        rw [show password' = password from hp] at hp'
        have hlu := unescape_length hu'
        have hlp := unescape_length hp'
        have hlength := congrArg List.length heq
        simp only [List.length_append, List.length_cons] at hlength
        obtain ⟨rfl, hrest⟩ := List.append_inj heq (by omega)
        cases hrest
        have hpercentu : percent ∉ username := List.count_eq_zero.mp (by omega)
        have hpercentp : percent ∉ password := List.count_eq_zero.mp (by omega)
        constructor
        · intro c hc
          refine ⟨hall c (List.mem_append_left _ hc), ?_, ?_⟩
          · rintro rfl
            exact hx hc
          · rintro rfl
            exact hpercentu hc
        · intro c hc
          refine ⟨hall c (List.mem_append_right _ (List.mem_cons_of_mem _ hc)), ?_⟩
          rintro rfl
          exact hpercentp hc
      · cases h
  · cases h

theorem before_length_le (c : Char) (s : Bytes) : (before c s).length ≤ s.length :=
  (List.takeWhile_sublist _).length_le

theorem not_mem_before (c : Char) (s : Bytes) : byte c ∉ before c s := by
  intro hmem
  simpa using List.mem_takeWhile_imp hmem

theorem not_mem_of_length {c : Char} {s : Bytes} (h : (before c s).length = s.length) : byte c ∉ s := by
  have hall := List.takeWhile_eq_self_iff.mp ((List.takeWhile_sublist _).eq_of_length h)
  intro hmem
  simpa using hall _ hmem

/-- A vhost that comes back is plain. -/
theorem plain_of_vhost {vhost : Bytes} (hne : vhost ≠ bytes "/")
    (h : unescape .path (before '?' (before '#' vhost)) = some (trimSlash vhost)) :
    vhost.head? ≠ some (byte '/') ∧ byte '#' ∉ vhost ∧ byte '?' ∉ vhost ∧ percent ∉ vhost := by
  have hlength := unescape_length h
  have hquestion := before_length_le '?' (before '#' vhost)
  have hsharp := before_length_le '#' vhost
  by_cases hslash : vhost.head? = some (byte '/')
  · exfalso
    obtain ⟨v, rfl⟩ : ∃ v, vhost = byte '/' :: v := ⟨vhost.tail, List.eq_cons_of_mem_head? hslash⟩
    have htrim : trimSlash (byte '/' :: v) = v := rfl
    have hbefore : before '?' (before '#' (byte '/' :: v)) = byte '/' :: before '?' (before '#' v) := rfl
    rw [htrim, hbefore, unescape_cons (by decide), if_pos (by decide)] at h
    obtain ⟨w, hw, hv⟩ := Option.map_eq_some_iff.mp h
    generalize hk : before '?' (before '#' v) = k at hw
    -- what is read is shorter by at least the slash, so nothing was unescaped
    have hlength := unescape_length hw
    have hle : k.length ≤ v.length := by
      rw [← hk]
      exact Nat.le_trans (before_length_le _ _) (before_length_le _ _)
    have hlengthv := congrArg List.length hv
    rw [List.length_cons] at hlengthv
    have hpercent : percent ∉ k := List.count_eq_zero.mp (by omega)
    rw [eq_of_unescape hpercent hw] at hv
    -- and nothing was cut off
    have hsharp : byte '#' ∉ v := by
      rw [← hv]
      intro hmem
      rcases List.mem_cons.mp hmem with heq | hmem
      · exact absurd heq (by decide)
      · rw [← hk] at hmem
        exact not_mem_before '#' v ((List.takeWhile_sublist _).subset hmem)
    have hquestion : byte '?' ∉ v := by
      rw [← hv]
      intro hmem
      rcases List.mem_cons.mp hmem with heq | hmem
      · exact absurd heq (by decide)
      · rw [← hk] at hmem
        exact not_mem_before '?' _ hmem
    rw [before_eq hsharp, before_eq hquestion] at hk
    have hself := congrArg List.length hv
    rw [hk, List.length_cons] at hself
    omega
  · have htrim : trimSlash vhost = vhost := if_neg hslash
    rw [htrim] at hlength
    have hsharp' : byte '#' ∉ vhost := not_mem_of_length (by omega)
    rw [before_eq hsharp'] at hlength hquestion
    have hquestion' : byte '?' ∉ vhost := not_mem_of_length (by omega)
    rw [before_eq hquestion'] at hlength
    exact ⟨hslash, hsharp', hquestion', List.count_eq_zero.mp (by omega)⟩

section Cut

variable (hplain : ∀ c ∈ config.username ++ byte ':' :: config.password, endsAuthority c = false)
  (hhost : ∀ c ∈ config.hostPort, endsHost c = false)

include hplain hhost

theorem rest_separated : ∀ c ∈ config.username ++ byte ':' :: config.password ++ byte '@' :: config.hostPort,
    endsAuthority c = false := by
  have hends : ∀ c : UInt8, endsHost c = false → endsAuthority c = false := by
    intro c hc
    by_contra hends
    unfold endsAuthority at hends
    rw [Bool.not_eq_false, List.contains_iff_mem] at hends
    have hsub : ∀ b ∈ bytes "/?#", endsHost b = true := forall_mem (by decide)
    rw [hsub c hends] at hc
    cases hc
  intro c hc
  rcases List.mem_append.mp hc with hc | hc
  · exact hplain c hc
  · rcases List.mem_cons.mp hc with rfl | hc
    · decide
    · exact hends c (hhost c hc)

/-- The authority is what it should be. -/
theorem authorityOf_rest :
    authorityOf config.rest = config.username ++ byte ':' :: config.password ++ byte '@' :: config.hostPort := by
  have hall := rest_separated hplain hhost
  unfold authorityOf RabbitMQ.rest
  rw [List.takeWhile_append_of_pos fun c hc => by simpa using hall c hc]
  rw [List.takeWhile_cons_of_neg (by decide), List.append_nil]

/-- The path is what is left of the vhost. -/
theorem path_rest : (before '?' (before '#' config.rest)).drop (authorityOf config.rest).length =
    byte '/' :: before '?' (before '#' config.addressVhost) := by
  have hall := rest_separated hplain hhost
  have hsharp : byte '#' ∉ config.username ++ byte ':' :: config.password ++ byte '@' :: config.hostPort :=
    fun hmem => absurd (hall _ hmem) (by decide)
  have hquestion : byte '?' ∉ config.username ++ byte ':' :: config.password ++ byte '@' :: config.hostPort :=
    fun hmem => absurd (hall _ hmem) (by decide)
  rw [authorityOf_rest hplain hhost]
  unfold RabbitMQ.rest
  rw [before_append hsharp, before_append hquestion, List.drop_left]
  rfl

theorem before_rest (hsharp : byte '#' ∉ config.addressVhost) : before '#' config.rest = config.rest := by
  refine before_eq fun hmem => ?_
  rcases List.mem_append.mp hmem with hmem | hmem
  · exact absurd (rest_separated hplain hhost _ hmem) (by decide)
  · rcases List.mem_cons.mp hmem with heq | hmem
    · exact absurd heq (by decide)
    · exact hsharp hmem

end Cut

theorem sameBroker_iff_plain : SameBroker ipLiteral config ↔ Plain ipLiteral config := by
  have hcolon : byte ':' ∈ config.hostPort := by simp [RabbitMQ.hostPort]
  constructor
  · rintro ⟨uri, b, huri, hsse, hpublisher⟩
    obtain ⟨h, hh, rfl⟩ := (sse_broker config b).mp ⟨uri, huri, hsse⟩
    have hhost := (parseHost_escaped hh).2
    obtain ⟨url, hurl, hbroker⟩ := Option.map_eq_some_iff.mp hpublisher
    obtain ⟨-, husername, hpassword, hhostname, hport, hvhost⟩ := Broker.mk.inj hbroker
    rw [address_eq] at hurl
    obtain ⟨-, hauthority, hpath, hctl⟩ := Parse_cases (streamScheme_scheme _) hurl
    have hrest : config.rest = config.username ++ byte ':' :: config.password ++
        (byte '@' :: config.hostPort ++ byte '/' :: config.addressVhost) := by
      simp [RabbitMQ.rest]
    have hplain := not_endsAuthority (hrest ▸ hauthority) husername hpassword
    rw [path_rest hplain hhost, unescape_cons (by decide), if_pos (by decide)] at hpath
    rw [authorityOf_rest hplain hhost, parseAuthority,
      cutLast_append_cons fun hmem => (endsHost_plain _ (hhost _ hmem)).2.2.2.2 rfl] at hauthority
    dsimp only at hauthority
    split at hauthority
    · rename_i u user hu huser
      obtain ⟨huser', hu'⟩ := Prod.mk.inj (Option.some.inj hauthority)
      rw [← huser'] at husername hpassword
      rw [← hu'] at hhostname hport
      obtain ⟨husername, hpassword⟩ := plain_of_parseUserinfo huser husername hpassword
      refine ⟨husername, hpassword, ?_, ?_⟩
      · exact (host_agrees_iff hcolon).mp ⟨u, h, hu, hh, Prod.ext hhostname hport⟩
      · by_cases hslash : config.vhost = bytes "/"
        · exact .inl hslash
        have hsame : config.addressVhost = config.vhost := if_neg hslash
        rw [hsame] at hpath
        obtain ⟨w, hw, hurlpath⟩ := Option.map_eq_some_iff.mp hpath
        rw [← hurlpath] at hvhost
        have hw' : w = trimSlash config.vhost := hvhost
        obtain ⟨hhead, hsharp, hquestion, hpercent⟩ := plain_of_vhost hslash (hw' ▸ hw)
        refine .inr ⟨hhead, fun c hc => ⟨?_, ?_, ?_, ?_⟩⟩
        · rw [before_rest hplain hhost (hsame ▸ hsharp)] at hctl
          exact hctl c (List.mem_append_right _ (List.mem_cons_of_mem _ (hsame ▸ hc)))
        · rintro rfl
          exact hsharp hc
        · rintro rfl
          exact hquestion hc
        · rintro rfl
          exact hpercent hc
    · cases hauthority
  · intro h
    obtain ⟨u, hu⟩ := Option.ne_none_iff_exists'.mp h.host.2
    obtain ⟨uri, huri, hbroker⟩ := (@sse_broker ipLiteral config _).mpr
      ⟨u, by rw [parseHost_escape h.host.1, hu], rfl⟩
    exact ⟨uri, _, huri, hbroker, h.publisher_broker hu⟩

/-- **The publisher and the SSE server talk to the same broker exactly if the configuration is plain.** -/
theorem same_broker_iff (ipLiteral : Bytes → Bool) (config : RabbitMQ) :
    SameBroker ipLiteral config ↔ Plain ipLiteral config := sameBroker_iff_plain

/-- The default account, with a percent sign in its password. -/
def escapedPassword : RabbitMQ :=
  { host := bytes "rabbitmq", exchange := bytes "amq.topic", password := bytes "p%40ss", username := bytes "guest"
    port := bytes "5672", ssl := bytes "false", vhost := bytes "/", streamPort := bytes "5552"
    streamName := bytes "etos-messagebus-stream" }

/-- **A password with a percent sign**: the publisher uses another one. -/
theorem password_misread : ¬ SameBroker (fun _ => false) escapedPassword := by
  rintro ⟨uri, b, huri, hsse, hpublisher⟩
  obtain ⟨h, -, rfl⟩ := (sse_broker escapedPassword b).mp ⟨uri, huri, hsse⟩
  have hread : (broker (fun _ => false) (address escapedPassword)).map Broker.password = some (bytes "p@ss") := by
    decide +kernel
  have hne : escapedPassword.password ≠ bytes "p@ss" := by decide
  rw [hpublisher] at hread
  exact hne (Option.some.inj hread)

/-! ## The secrets of a cluster

The same for the reconcilers: `MessageBusDeployment` writes the secret of the message bus, and `ETOSSSEDeployment` reads
it and writes the URI into a secret of its own. -/

open Services Extras

variable {Pod : Type}

/-- The configuration in the specification of a cluster, with the value of its password. -/
def RabbitMQ.ofSpec (r : Etos.RabbitMQ) (password : Bytes) : RabbitMQ where
  host := Services.bytes r.host
  exchange := Services.bytes r.exchange
  password := password
  username := Services.bytes r.username
  port := Services.bytes r.port
  ssl := Services.bytes r.ssl
  vhost := Services.bytes r.vhost
  streamPort := Services.bytes r.streamPort
  streamName := Services.bytes r.streamName

theorem bytes_eq_nil {s : String} : Services.bytes s = [] ↔ s = "" := by
  unfold Services.bytes
  constructor
  · intro h
    have hsize : s.utf8ByteSize = 0 := by
      have := congrArg List.length h
      simpa using this
    simpa using hsize
  · rintro rfl
    rfl

/-- The secret is the one that the reconciler of the message bus writes. -/
theorem secretData_ofSpec (r : Etos.RabbitMQ) (password : Bytes) :
    secretData (.ofSpec r password) = MessageBusDeployment.data r (some password) := by
  unfold secretData MessageBusDeployment.data withCredentials
  by_cases hu : r.username = ""
  · rw [if_pos (show (RabbitMQ.ofSpec r password).username = [] from bytes_eq_nil.mpr hu), if_neg (not_not.mpr hu)]
    rfl
  · rw [if_neg (show (RabbitMQ.ofSpec r password).username ≠ [] from mt bytes_eq_nil.mp hu), if_pos hu]
    rfl

/-- The URI in what the SSE deployment makes of the secret of the message bus. -/
def WritesURI (m : Machinery Pod) (sse : ETOSSSEDeployment Pod) (cluster : ClusterValues) (secret : Fields Bytes)
    (uri : Bytes) : Prop :=
  ∃ data, (sse.config m cluster).run.Returns (.ok data) [⟨.getSecret sse.messagebusSecret, .ok secret⟩] ∧
    data.lookup "ETOS_RABBITMQ_URI" = some uri

theorem writesURI_iff {m : Machinery Pod} (hm : m.urlString = URL.string) {sse : ETOSSSEDeployment Pod}
    {cluster : ClusterValues} {secret : Fields Bytes} {uri : Bytes} :
    WritesURI m sse cluster secret uri ↔ sseURI secret = .ok uri := by
  unfold WritesURI sseURI
  constructor
  · rintro ⟨data, hreturns, hlookup⟩
    obtain ⟨answer, rest, heq, hreturns⟩ := hreturns
    cases heq
    dsimp only [Prog.bind, Function.comp_apply, ExceptT.bindCont, pure, ExceptT.pure, ExceptT.mk] at hreturns
    cases hurl : rabbitmqURL secret with
    | error e =>
        rw [hurl] at hreturns
        cases hreturns.1
    | ok url =>
        rw [hurl] at hreturns
        dsimp only at hreturns
        have huri : m.urlString url = uri := by
          split at hreturns <;>
            · cases hreturns.1
              exact Option.some.inj hlookup
        rw [← huri, hm]
        rfl
  · intro huri
    cases hurl : rabbitmqURL secret with
    | error e =>
        rw [hurl] at huri
        cases huri
    | ok url =>
        rw [hurl] at huri
        cases huri
        rw [← hm]
        cases htelemetry : cluster.openTelemetryEnabled <;>
          · apply Exists.intro
            apply And.intro
            · show ∃ x rest, _ ∧ _
              refine ⟨.ok secret, [], rfl, ?_⟩
              dsimp only [Prog.bind, Function.comp_apply, ExceptT.bindCont, pure, ExceptT.pure, ExceptT.mk]
              rw [hurl, htelemetry]
              exact ⟨rfl, rfl⟩
            · rfl

/-- The message bus with its default account. -/
def defaultBus : Etos.RabbitMQ :=
  { host := "rabbitmq", exchange := "amq.topic", username := "guest", port := "5672", ssl := "false", vhost := "/"
    streamPort := "5552", streamName := "etos-messagebus-stream" }

/-- The operator, with the URLs of Go. -/
def goURLs : Machinery Unit := ⟨fun _ _ => true, fun _ target _ => target, fun now => toString now, URL.string⟩

end Etos.Messaging
