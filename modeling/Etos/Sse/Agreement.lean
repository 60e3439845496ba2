import Mathlib.Algebra.Order.Ring.Int
import Etos.Lists.Cursor
import Etos.Lists.Row
import Etos.Sse.Client
import Etos.Sse.Subscriber

/-!
# `Sse.Agreement` — the two clients agree

The Go subscriber and the Python client read the same connections. Both send requests and deliver events, in one
sequence (`Seen`); the Python client stops by itself at a shutdown event with an id, the Go subscriber leaves that to
its consumer, and both stop at an error that is not to be retried. Up to there the two sequences are the same
(`clients_agree`).

The proof runs the two machines in lockstep. The subscriber's last id, with 0 for none, is the client's, with `None` for
none (`Agree`); once the client has stopped, what the subscriber still does comes after the stop (`Stopped`).
-/

namespace Etos.Sse

open Etos.Lists

/-! ## What both do -/

/-- What is seen of a client from outside. -/
inductive Seen where
  | connect (lastEventID : Option Int)
  | event (id : Option Int) (kind : EventClass) (data : Data)
  /-- An error of the server that is not to be retried. -/
  | serverError
  /-- Any other failure. -/
  | failed

/-- Nothing is compared behind a shutdown event with an id, or an error that is not to be retried. -/
def Seen.stops : Seen → Bool
  | .event (some _) (.known .shutdown) _ => true
  | .serverError => true
  | _ => false

def Obs.seen : Obs → Option Seen
  | .connect lastEventID => some (.connect lastEventID)
  | .receive _ => none
  | .yield event => some (.event (if event.id = -1 then none else some event.id) (.known event.event) event.data)
  | .fail (.decode (.server _)) => some .serverError
  | .fail _ => some .failed

def ClientObs.seen : ClientObs → Seen
  | .connect lastEventID => .connect lastEventID
  | .yield event => .event event.id event.kind event.data
  | .cannotContinue _ => .serverError

/-- What is seen of the subscriber, oldest first. -/
def seenOfSubscriber (trace : Trace) : List Seen := trace.reverse.filterMap Obs.seen

/-- What is seen of the client, oldest first. -/
def seenOfClient (client : SSEClient) : List Seen := client.trace.reverse.map ClientObs.seen

/-! ## Well-formed events -/

/-- The data of an error: no JSON object, or one with nothing but a hint whether to retry and a reason. -/
def WellFormedError : Data → Prop
  | .json (.object fields) =>
      (fields.map Prod.fst).Nodup ∧
        ∀ f ∈ fields, (f.1 = "retry" ∧ ∃ b, f.2 = .bool b) ∨ (f.1 = "reason" ∧ ∃ s, f.2 = .string s)
  | _ => True

/-- The class an event names. -/
def namedClass (e : SseEvent) : EventClass :=
  if eventName e = "error" then .error
  else match EventType.ofName (eventName e) with
    | some t => .known t
    | none => .unknown

/-- The id an event names. -/
def namedID (e : SseEvent) : Option Int := if e.id = "" then none else parseInt e.id

/-- A known event, with data that goes with it, and without an id or with a positive one. -/
structure WellFormed (e : SseEvent) : Prop where
  id : e.id = "" ∨ ∃ n, parseInt e.id = some n ∧ 1 ≤ n
  data : match namedClass e with
    | .error => WellFormedError e.data
    | .known t => t.accepts e.data = true
    | .unknown => False

/-- `parse` makes an event of the class and with the id that are named. -/
def Names (parse : SseEvent → ParsedEvent) : Prop := ∀ e, WellFormed e → parse e = ⟨namedID e, namedClass e, e.data⟩

variable {e : SseEvent}

theorem WellFormed.positive (h : WellFormed e) {n : Int} (hid : namedID e = some n) : 1 ≤ n := by
  unfold namedID at hid
  split at hid
  · cases hid
  · rename_i hne
    obtain ⟨m, hm, hpos⟩ := h.id.resolve_left hne
    rw [hm] at hid
    cases hid
    exact hpos

theorem WellFormed.eventID (h : WellFormed e) : eventID e = some ((namedID e).getD 0) := by
  unfold Sse.eventID namedID
  split
  · rfl
  · rename_i hne
    obtain ⟨m, hm, _⟩ := h.id.resolve_left hne
    rw [hm]
    rfl

/-- The subscriber decodes a known event. -/
theorem WellFormed.decode_known (text : Json → String) (h : WellFormed e) {t : EventType}
    (hclass : namedClass e = .known t) :
    decode text e = .ok ((namedID e).getD 0, ⟨(namedID e).getD (-1), t, e.data⟩) := by
  have hdata := h.data
  rw [hclass] at hdata
  have hbare : (if (namedID e).getD 0 = 0 then -1 else (namedID e).getD 0) = (namedID e).getD (-1) := by
    cases hid : namedID e with
    | none => rfl
    | some n =>
        have hpos := h.positive hid
        exact if_neg (show ¬ n = 0 by omega)
  unfold namedClass at hclass
  split at hclass
  · cases hclass
  rename_i hne
  split at hclass
  · rename_i t' htype
    cases hclass
    have hdata : t.accepts e.data = true := hdata
    simp only [decode, h.eventID, if_neg hne, Parse, htype, if_pos hdata, hbare]
  · cases hclass

theorem WellFormed.decode_error (text : Json → String) (h : WellFormed e) (hclass : namedClass e = .error) :
    decode text e = .error (.server (parseServerError text e.data)) := by
  unfold namedClass at hclass
  split at hclass
  · rename_i heq
    simp only [decode, h.eventID, if_pos heq]
  · split at hclass <;> cases hclass

/-- The hint in the fields of an error. -/
def retryHint (fields : List (String × Json)) : Option Bool :=
  match fields.lookup "retry" with
  | some (.bool b) => some b
  | _ => none

theorem retryHint_of_not_mem {fields : List (String × Json)} (h : "retry" ∉ fields.map Prod.fst) :
    retryHint fields = none := by
  have hnone : fields.lookup "retry" = none := by
    refine List.lookup_eq_none_iff.mpr fun f hf => ?_
    rw [bne_iff_ne]
    rintro heq
    exact h (heq ▸ List.mem_map_of_mem hf)
  rw [retryHint, hnone]

/-- Decoding into a `ServerError` takes the hint. -/
theorem foldlM_setField {fields : List (String × Json)} (h : WellFormedError (.json (.object fields)))
    (error : ServerError) :
    ∃ error', fields.foldlM ServerError.setField error = some error' ∧
      error'.retry = (retryHint fields).getD error.retry := by
  induction fields generalizing error with
  | nil => exact ⟨error, rfl, rfl⟩
  | cons f fields ih =>
      obtain ⟨hnodup, hall⟩ := h
      obtain ⟨hnot, hnodup⟩ := List.nodup_cons.mp hnodup
      have htail : WellFormedError (.json (.object fields)) :=
        ⟨hnodup, fun f' hf' => hall f' (List.mem_cons_of_mem _ hf')⟩
      obtain ⟨key, value⟩ := f
      rcases hall _ List.mem_cons_self with ⟨hkey, b, hvalue⟩ | ⟨hkey, s, hvalue⟩
      · cases hkey
        cases hvalue
        obtain ⟨error', heq, hretry⟩ := ih htail { error with retry := b }
        refine ⟨error', ?_, ?_⟩
        · have hset : error.setField ("retry", .bool b) = some { error with retry := b } := by
            have heq : matchesField "retry" "retry" = true := by decide
            exact if_pos heq
          rw [List.foldlM_cons, hset]
          exact heq
        · rw [hretry, retryHint_of_not_mem hnot]
          rfl
      · cases hkey
        cases hvalue
        obtain ⟨error', heq, hretry⟩ := ih htail { error with reason := s }
        refine ⟨error', ?_, hretry⟩
        have hset : error.setField ("reason", .string s) = some { error with reason := s } := by
          have hne : ¬ matchesField "reason" "retry" = true := by decide
          have heq : matchesField "reason" "reason" = true := by decide
          exact (if_neg hne).trans (if_pos heq)
        rw [List.foldlM_cons, hset]
        exact heq

/-- Both clients read the same hint from an error. -/
theorem retry_agrees (text : Json → String) {data : Data} (h : WellFormedError data) :
    ((parseServerError text data).retry = true ∧
        ∃ reason, SSEClient.raiseServerError data = .retryableServerError reason) ∨
      ((parseServerError text data).retry = false ∧
        ∃ reason, SSEClient.raiseServerError data = .nonRetryableServerError reason) := by
  cases data with
  | raw text => exact .inl ⟨rfl, _, rfl⟩
  | json value =>
      cases value with
      | null | bool _ | number _ | string _ | array _ => exact .inl ⟨rfl, _, rfl⟩
      | object fields =>
          obtain ⟨error, heq, hretry⟩ := foldlM_setField h {}
          have hparse : parseServerError text (.json (.object fields)) = error := by
            simp only [parseServerError, ServerError.unmarshal, heq, Option.getD_some]
          rw [hparse, hretry]
          simp only [SSEClient.raiseServerError, retryHint]
          split
          · rename_i b hlookup
            cases b with
            | true => exact .inl ⟨rfl, _, by rw [hlookup]⟩
            | false => exact .inr ⟨rfl, _, by rw [hlookup]⟩
          · rename_i hlookup
            refine .inl ⟨rfl, ?_⟩
            split
            · rename_i hfalse
              exact absurd hfalse (hlookup false)
            · exact ⟨_, rfl⟩

/-! ## Lockstep -/

variable {parse : SseEvent → ParsedEvent} {c : Consumer} {s : Subscriber} {client : SSEClient}

theorem seenOfSubscriber_cons (o : Obs) (t : Trace) :
    seenOfSubscriber (o :: t) = seenOfSubscriber t ++ (o.seen).toList := by
  rw [seenOfSubscriber, List.reverse_cons, List.filterMap_append]
  cases h : o.seen <;> simp [seenOfSubscriber, h]

theorem seenOfClient_observe (client : SSEClient) (o : ClientObs) :
    seenOfClient (client.observe o) = seenOfClient client ++ [o.seen] := by
  simp [seenOfClient, SSEClient.observe]

/-- The two have the same last id and have done the same, and neither has stopped. -/
structure Agree (s : Subscriber) (client : SSEClient) : Prop where
  lastID : s.lastID = client.lastEventID.getD 0
  positive : ∀ n, client.lastEventID = some n → 1 ≤ n
  seen : seenOfSubscriber s.trace = seenOfClient client
  going : ∀ o ∈ seenOfClient client, o.stops = false
  up : client.shutdown = false

/-- The client has stopped: whatever the subscriber does behind this is not compared. -/
def Stopped (t : Trace) (client : SSEClient) : Prop :=
  client.shutdown = true ∧ ∀ more, through Seen.stops (seenOfSubscriber t ++ more) = seenOfClient client

theorem seenOfSubscriber_suffix {t t' : Trace} (h : t <:+ t') :
    ∃ more, seenOfSubscriber t' = seenOfSubscriber t ++ more := by
  obtain ⟨newer, rfl⟩ := h
  refine ⟨seenOfSubscriber newer, ?_⟩
  rw [seenOfSubscriber, List.reverse_append, List.filterMap_append]
  rfl

theorem Stopped.later {t t' : Trace} (h : Stopped t client) (hs : t <:+ t') : Stopped t' client := by
  obtain ⟨more, heq⟩ := seenOfSubscriber_suffix hs
  refine ⟨h.1, fun more' => ?_⟩
  rw [heq, List.append_assoc]
  exact h.2 _

theorem Stopped.through (h : Stopped s.trace client) :
    Lists.through Seen.stops (seenOfSubscriber s.trace) = seenOfClient client := by
  have hmore := h.2 []
  rw [List.append_nil] at hmore
  exact hmore

theorem Agree.through (h : Agree s client) :
    Lists.through Seen.stops (seenOfSubscriber s.trace) = seenOfClient client := by
  rw [h.seen]
  exact through_eq_self h.going

/-- Receiving an event is not seen. -/
theorem Agree.receive (h : Agree s client) (e : SseEvent) : Agree (s.observe (.receive e)) client where
  lastID := h.lastID
  positive := h.positive
  seen := by
    show seenOfSubscriber (.receive e :: s.trace) = _
    rw [seenOfSubscriber_cons]
    exact (List.append_nil _).trans h.seen
  going := h.going
  up := h.up

/-- Both do the same thing that does not stop them. -/
theorem Agree.observe (h : Agree s client) {o : Obs} {o' : ClientObs} (hsame : o.seen = some o'.seen)
    (hgoing : o'.seen.stops = false) : Agree (s.observe o) (client.observe o') where
  lastID := h.lastID
  positive := h.positive
  seen := by
    show seenOfSubscriber (o :: s.trace) = _
    rw [seenOfSubscriber_cons, seenOfClient_observe, h.seen, hsame]
    rfl
  going := by
    rw [seenOfClient_observe]
    intro x hx
    rcases List.mem_append.mp hx with hx | hx
    · exact h.going x hx
    · cases List.mem_singleton.mp hx
      exact hgoing
  up := h.up

/-- Both do the same thing, and it stops the client. -/
theorem Agree.stop (h : Agree s client) {o : Obs} {o' : ClientObs} (hsame : o.seen = some o'.seen)
    (hstops : o'.seen.stops = true) :
    Stopped (o :: s.trace) { client.observe o' with shutdown := true } := by
  refine ⟨rfl, fun more => ?_⟩
  show _ = seenOfClient (client.observe o')
  rw [seenOfSubscriber_cons, seenOfClient_observe, h.seen, hsame, Option.toList_some, List.append_assoc,
    through_append h.going]
  exact congrArg _ (through_cons hstops more)

/-- Both take a new id. -/
theorem Agree.moved (h : Agree s client) {n : Int} (hn : 1 ≤ n) :
    Agree { s with lastID := n } { client with lastEventID := some n } where
  lastID := rfl
  positive m hm := by
    cases hm
    exact hn
  seen := h.seen
  going := h.going
  up := h.up

/-- Both ask for a connection. -/
theorem Agree.connect (h : Agree s client) :
    Agree (s.observe (.connect s.lastEventID)) (client.observe (.connect client.lastEventID)) := by
  refine h.observe ?_ rfl
  have hheader : s.lastEventID = client.lastEventID := by
    unfold Subscriber.lastEventID
    rw [h.lastID]
    cases hid : client.lastEventID with
    | none => rfl
    | some n =>
        have hpos := h.positive n hid
        exact if_pos (show n > 0 by omega)
  rw [hheader]
  rfl

/-! ## One event -/

/-- A consumer that always wants more. -/
def eager (text : Json → String) : Consumer := ⟨text, fun _ => true⟩

section Known

variable (text : Json → String) {t : EventType} {n : Int} (h : WellFormed e) (hclass : namedClass e = .known t)
include h hclass

/-- The subscriber, on an event without an id. -/
theorem receive_none (hid : namedID e = none) (progressed : Bool) :
    Subscriber.receive (eager text) s progressed e =
      (if t = .ping then s.observe (.receive e) else (s.observe (.receive e)).observe (.yield ⟨-1, t, e.data⟩),
        true, none) := by
  have hdecode := h.decode_known (eager text).text hclass
  rw [hid] at hdecode
  simp only [Subscriber.receive, hdecode]
  by_cases hping : t = .ping <;> simp [hping, eager]

/-- The subscriber, on an event it has received already. -/
theorem receive_old (hid : namedID e = some n) (hold : n ≤ s.lastID) (progressed : Bool) :
    Subscriber.receive (eager text) s progressed e = (s.observe (.receive e), true, none) := by
  have hdecode := h.decode_known (eager text).text hclass
  have hpos := h.positive hid
  rw [hid] at hdecode
  simp only [Subscriber.receive, hdecode]
  exact if_pos ⟨show n > 0 by omega, hold⟩

/-- The subscriber, on a new event. -/
theorem receive_new (hid : namedID e = some n) (hnew : s.lastID < n) (progressed : Bool) :
    Subscriber.receive (eager text) s progressed e =
      (if t = .ping then { s.observe (.receive e) with lastID := n }
        else ({ s.observe (.receive e) with lastID := n } : Subscriber).observe (.yield ⟨n, t, e.data⟩),
        true, none) := by
  have hdecode := h.decode_known (eager text).text hclass
  have hpos := h.positive hid
  have hpos : n > 0 := by omega
  rw [hid] at hdecode
  simp only [Subscriber.receive, hdecode]
  rw [if_neg fun hold => absurd hold.2 (not_le.mpr hnew)]
  by_cases hping : t = .ping <;> simp [hping, hpos, eager]

variable (hparse : Names parse)
include hparse

/-- The client, on an event without an id. -/
theorem handle_none (hid : namedID e = none) :
    client.handle parse e =
      (if t = .ping then client else client.observe (.yield ⟨none, .known t, e.data⟩), none) := by
  have heq := hparse e h
  rw [hid, hclass] at heq
  simp only [SSEClient.handle, heq]
  cases t <;> rfl

/-- The client, on an event it has received already. -/
theorem handle_old (hid : namedID e = some n) (hold : n ≤ client.lastEventID.getD 0) :
    client.handle parse e = (client, none) := by
  have heq := hparse e h
  have hpos := h.positive hid
  rw [hid, hclass] at heq
  cases hlast : client.lastEventID with
  | none =>
      rw [hlast] at hold
      exact absurd (hpos.trans hold) (by decide)
  | some m =>
      rw [hlast] at hold
      have hle : n ≤ m := hold
      cases t <;> simp [SSEClient.handle, heq, SSEClient.updateProgress, SSEClient.alreadyReceived, hlast, hle]

/-- The client, on a new event. -/
theorem handle_new (hid : namedID e = some n) (hnew : client.lastEventID.getD 0 < n) :
    client.handle parse e =
      (if t = .ping then { client with lastEventID := some n }
        else ({ client with lastEventID := some n } : SSEClient).observe (.yield ⟨some n, .known t, e.data⟩),
        if t = .shutdown then some .serverShutdown else none) := by
  have heq := hparse e h
  rw [hid, hclass] at heq
  cases hlast : client.lastEventID with
  | none =>
      cases t <;> simp [SSEClient.handle, heq, SSEClient.updateProgress, SSEClient.alreadyReceived, hlast]
  | some m =>
      rw [hlast] at hnew
      have hlt : m < n := hnew
      cases t <;>
        simp [SSEClient.handle, heq, SSEClient.updateProgress, SSEClient.alreadyReceived, hlast, hlt, not_le.mpr hlt]

end Known

/-- What one event does to both: they go on, both reconnect, or the client stops. -/
inductive Outcome (parse : SseEvent → ParsedEvent) (c : Consumer) (s : Subscriber) (client : SSEClient)
    (progressed : Bool) (e : SseEvent) : Prop where
  | goes {s' : Subscriber} {client' : SSEClient} (hreceive : Subscriber.receive c s progressed e = (s', true, none))
      (hhandle : client.handle parse e = (client', none)) (hagree : Agree s' client')
  | reconnects {s' : Subscriber} {reason : Data}
      (hreceive : Subscriber.receive c s progressed e =
        (s', progressed, some (if progressed then .progress else .retry)))
      (hhandle : client.handle parse e = (client, some (.retryableServerError reason))) (hagree : Agree s' client)
  | stops {client' : SSEClient} {ending : StreamEnd} (hhandle : client.handle parse e = (client', some ending))
      (hstopped : Stopped (Subscriber.receive c s progressed e).1.trace (client'.finish ending))

/-- An event does the same to both. -/
theorem outcome (text : Json → String) (hparse : Names parse) (hagree : Agree s client) (h : WellFormed e)
    (progressed : Bool) :
    Outcome parse (eager text) s client progressed e := by
  have hreceived := hagree.receive e
  cases hclass : namedClass e with
  | unknown =>
      have hdata := h.data
      rw [hclass] at hdata
      exact hdata.elim
  | error =>
      have hdata := h.data
      rw [hclass] at hdata
      have hhandle : client.handle parse e = (client, some (SSEClient.raiseServerError e.data)) := by
        simp only [SSEClient.handle, hparse e h, hclass]
      have hdecode := h.decode_error (eager text).text hclass
      rcases retry_agrees (eager text).text hdata with ⟨hretry, reason, hraise⟩ | ⟨hretry, reason, hraise⟩
      · rw [hraise] at hhandle
        refine .reconnects ?_ hhandle hreceived
        simp only [Subscriber.receive, hdecode]
        exact if_pos hretry
      · rw [hraise] at hhandle
        refine .stops hhandle ?_
        simp only [Subscriber.receive, hdecode]
        rw [if_neg (by simp [hretry])]
        exact hreceived.stop rfl rfl
  | known t =>
      cases hid : namedID e with
      | none =>
          refine .goes (receive_none text h hclass hid progressed) (handle_none h hclass hparse hid) ?_
          by_cases hping : t = .ping
          · rw [if_pos hping, if_pos hping]
            exact hreceived
          · rw [if_neg hping, if_neg hping]
            exact hreceived.observe rfl rfl
      | some n =>
          have hpos := h.positive hid
          by_cases hold : n ≤ s.lastID
          · exact .goes (receive_old text h hclass hid hold progressed)
              (handle_old h hclass hparse hid (hagree.lastID ▸ hold)) hreceived
          · have hnew : s.lastID < n := not_le.mp hold
            have hreceive := receive_new text h hclass hid hnew progressed
            have hhandle := handle_new h hclass hparse hid (hagree.lastID ▸ hnew)
            have hmoved := hreceived.moved hpos
            have hsame : (Obs.yield ⟨n, t, e.data⟩).seen = some (ClientObs.yield ⟨some n, .known t, e.data⟩).seen := by
              show some (Seen.event (if n = -1 then none else some n) _ _) = _
              rw [if_neg (by omega)]
              rfl
            by_cases hping : t = .ping
            · rw [if_pos hping] at hreceive hhandle
              rw [if_neg (by simp [hping])] at hhandle
              exact .goes hreceive hhandle hmoved
            · rw [if_neg hping] at hreceive hhandle
              by_cases hshutdown : t = .shutdown
              · rw [if_pos hshutdown] at hhandle
                refine .stops hhandle ?_
                rw [hreceive]
                exact hmoved.stop hsame (by rw [hshutdown]; rfl)
              · rw [if_neg hshutdown] at hhandle
                refine .goes hreceive hhandle (hmoved.observe hsame ?_)
                cases t with
                | shutdown => exact absurd rfl hshutdown
                | message | artifact | report | status | ping => rfl

/-! ## The run -/

/-- A stream has been read by both: they still agree and reconnect, or the client has stopped. A connection counts as
    empty if nothing came over it. -/
theorem read_agrees (text : Json → String) (hparse : Names parse) (hagree : Agree s client) {events : List SseEvent}
    (hwell : ∀ e ∈ events, WellFormed e) (progressed : Bool) :
    (Agree (Subscriber.read (eager text) s progressed events .closed).1
          ((client.stream parse events).1.finish (client.stream parse events).2) ∧
        (Subscriber.read (eager text) s progressed events .closed).2 ≠ .done ∧
        ((Subscriber.read (eager text) s progressed events .closed).2 = .empty →
          progressed = false ∧ events = [])) ∨
      Stopped (Subscriber.read (eager text) s progressed events .closed).1.trace
        ((client.stream parse events).1.finish (client.stream parse events).2) := by
  induction events generalizing s client progressed with
  | nil =>
      refine .inl ⟨hagree, ?_, ?_⟩
      · cases progressed <;> exact nofun
      · cases progressed
        · exact fun _ => ⟨rfl, rfl⟩
        · exact nofun
  | cons e events ih =>
      have hrest : ∀ e' ∈ events, WellFormed e' := fun e' he' => hwell e' (List.mem_cons_of_mem _ he')
      cases outcome text hparse hagree (hwell e List.mem_cons_self) progressed with
      | goes hreceive hhandle hagree' =>
          simp only [Subscriber.read, SSEClient.stream, hreceive, hhandle]
          rcases ih hagree' hrest true with ⟨hagree', hgoes, hempty⟩ | hstopped
          · exact .inl ⟨hagree', hgoes, fun heq => absurd (hempty heq).1 (by decide)⟩
          · exact .inr hstopped
      | reconnects hreceive hhandle hagree' =>
          simp only [Subscriber.read, SSEClient.stream, hreceive, hhandle]
          refine .inl ⟨hagree', ?_, ?_⟩
          · cases progressed <;> exact nofun
          · cases progressed <;> exact nofun
      | stops hhandle hstopped =>
          simp only [SSEClient.stream, hhandle]
          refine .inr (hstopped.later ?_)
          unfold Subscriber.read
          split
          · rename_i heq
            rw [heq]
          · rename_i heq
            rw [heq]
            exact read_trace _ _ _ _ _

theorem follow_agrees (text : Json → String) (hparse : Names parse) (hagree : Agree s client) {events : List SseEvent}
    (hwell : ∀ e ∈ events, WellFormed e) :
    (Agree (Subscriber.follow (eager text) s (.opened events .closed)).1 (client.follow parse events) ∧
        (Subscriber.follow (eager text) s (.opened events .closed)).2 ≠ .done ∧
        ((Subscriber.follow (eager text) s (.opened events .closed)).2 = .empty → events = [])) ∨
      Stopped (Subscriber.follow (eager text) s (.opened events .closed)).1.trace (client.follow parse events) := by
  rcases read_agrees text hparse hagree.connect hwell false with ⟨hagree', hgoes, hempty⟩ | hstopped
  · exact .inl ⟨hagree', hgoes, fun heq => (hempty heq).2⟩
  · exact .inr hstopped

/-- The connections as the subscriber gets them: each is opened and closes after its events. -/
def opened (connections : List (List SseEvent)) : List (Connection × Bool) :=
  connections.map fun events => (.opened events .closed, false)

/-- Once the client has stopped, it does nothing. -/
theorem eventStream_shutdown (h : client.shutdown = true) (connections : List (List SseEvent)) :
    client.eventStream parse connections = client := by
  cases connections with
  | nil => rfl
  | cons events rest => exact if_pos h

theorem Agree.counted (h : Agree s client) (n : Nat) : Agree { s with emptyConnections := n } client :=
  ⟨h.lastID, h.positive, h.seen, h.going, h.up⟩

/-- The whole run. The empty connections the subscriber has counted precede those to come. -/
theorem events_agree (text : Json → String) (hparse : Names parse) {connections : List (List SseEvent)}
    (hagree : Agree s client) (hwell : ∀ events ∈ connections, ∀ e ∈ events, WellFormed e)
    (hempty : ¬ List.replicate Subscriber.maxEmptyReconnects [] <:+:
      List.replicate s.emptyConnections [] ++ connections) :
    seenOfClient (client.eventStream parse connections) =
      Lists.through Seen.stops (seenOfSubscriber (Subscriber.events (eager text) s (opened connections)).trace) := by
  induction connections generalizing s client with
  | nil => exact hagree.through.symm
  | cons events rest ih =>
      have hstream : client.eventStream parse (events :: rest) =
          (client.follow parse events).eventStream parse rest := if_neg (by simp [hagree.up])
      rw [hstream]
      rcases follow_agrees text hparse hagree (hwell events List.mem_cons_self) with ⟨hagree', hgoes, hnone⟩ | hstopped
      · rcases round_eq (eager text) s (.opened events .closed) false with ⟨hdone, _⟩ | ⟨_, hround⟩
        · exact absurd hdone hgoes
        have hcount : (Subscriber.follow (eager text) s (.opened events .closed)).1.emptyConnections =
            s.emptyConnections := follow_emptyConnections (eager text) s _
        rw [hcount] at hround
        generalize hn : (if (Subscriber.follow (eager text) s (.opened events .closed)).2 = .empty then
          s.emptyConnections + 1 else 0) = n at hround
        have hempty' : ¬ List.replicate Subscriber.maxEmptyReconnects [] <:+: List.replicate n [] ++ rest := by
          split at hn
          · -- one more empty connection has been counted
            rename_i hres
            cases hnone hres
            rw [← hn]
            exact fun hrun => hempty (Lists.replicate_infix_same.mpr hrun)
          · rw [← hn]
            exact fun hrun => hempty (hrun.trans ((List.suffix_cons _ _).trans (List.suffix_append _ _)).isInfix)
        have hlt := Lists.lt_of_not_replicate_infix hempty'
        have hcounted : (Subscriber.follow (eager text) s (.opened events .closed)).1.counted n false =
            ({ (Subscriber.follow (eager text) s (.opened events .closed)).1 with emptyConnections := n }, true) :=
          if_neg (not_le.mpr hlt)
        have hevents : Subscriber.events (eager text) s (opened (events :: rest)) = Subscriber.events (eager text)
            { (Subscriber.follow (eager text) s (.opened events .closed)).1 with emptyConnections := n }
            (opened rest) := by
          show Subscriber.events (eager text) s ((.opened events .closed, false) :: opened rest) = _
          rw [Subscriber.events, hround, hcounted]
        rw [hevents]
        exact ih (hagree'.counted n) (fun events' hmem => hwell events' (List.mem_cons_of_mem _ hmem)) hempty'
      · rw [eventStream_shutdown hstopped.1]
        exact (hstopped.later (follow_events_trace _ _ _ _ _)).through.symm

/-- **The two clients agree.** Whatever well-formed events come over the connections, if no five connections in a row
    are empty, the Python client asks for the same connections, with the same `Last-Event-ID`, and delivers the same
    events, in the same order, as the Go subscriber does up to the first shutdown event with an id or the first error
    that is not to be retried, and stops there. -/
theorem clients_agree (parse : SseEvent → ParsedEvent) (hparse : Names parse) (text : Json → String)
    (connections : List (List SseEvent)) (hwell : ∀ events ∈ connections, ∀ e ∈ events, WellFormed e)
    (hempty : ¬ List.replicate 5 [] <:+: connections) :
    seenOfClient (SSEClient.eventStream parse {} connections) =
      through Seen.stops (seenOfSubscriber (Events (eager text) (opened connections))) := by
  refine events_agree text hparse ⟨rfl, ?_, rfl, ?_, rfl⟩ hwell hempty
  · exact nofun
  · intro o ho
    cases ho

/-- A `parse` that goes by the names. -/
def parseNamed (e : SseEvent) : ParsedEvent := ⟨namedID e, namedClass e, e.data⟩

/-- An event comes twice, a ping and an error to be retried in between; the test run ends, and one more event
    follows. -/
def fourConnections : List (List SseEvent) :=
  [[⟨"1", "message", .json .null⟩], [],
    [⟨"1", "message", .json .null⟩, ⟨"2", "ping", .raw ""⟩, ⟨"", "error", .json (.object [("retry", .bool true)])⟩],
    [⟨"3", "Shutdown", .json .null⟩, ⟨"4", "message", .json .null⟩]]

theorem wellFormed_of_known {n : Int} (t : EventType) (hid : parseInt e.id = some n) (hpos : 1 ≤ n)
    (hclass : namedClass e = .known t) (hdata : t.accepts e.data = true) : WellFormed e := by
  refine ⟨.inr ⟨n, hid, hpos⟩, ?_⟩
  rw [hclass]
  exact hdata

theorem fourConnections_wellFormed : ∀ events ∈ fourConnections, ∀ e ∈ events, WellFormed e := by
  have hmessage : WellFormed ⟨"1", "message", .json .null⟩ :=
    wellFormed_of_known .message (show parseInt "1" = some 1 by decide) (by decide) (by decide) rfl
  have hping : WellFormed ⟨"2", "ping", .raw ""⟩ :=
    wellFormed_of_known .ping (show parseInt "2" = some 2 by decide) (by decide) (by decide) rfl
  have hshutdown : WellFormed ⟨"3", "Shutdown", .json .null⟩ :=
    wellFormed_of_known .shutdown (show parseInt "3" = some 3 by decide) (by decide) (by decide) rfl
  have hlast : WellFormed ⟨"4", "message", .json .null⟩ :=
    wellFormed_of_known .message (show parseInt "4" = some 4 by decide) (by decide) (by decide) rfl
  have herror : WellFormed ⟨"", "error", .json (.object [("retry", .bool true)])⟩ := by
    refine ⟨.inl rfl, ?_⟩
    show WellFormedError (.json (.object [("retry", .bool true)]))
    exact ⟨by simp, by simp⟩
  simp [fourConnections, hmessage, hping, herror, hshutdown, hlast]

theorem clients_agree_fourConnections :
    seenOfClient (SSEClient.eventStream parseNamed {} fourConnections) =
      through Seen.stops (seenOfSubscriber (Events (eager fun _ => "") (opened fourConnections))) := by
  refine clients_agree parseNamed (fun _ _ => rfl) _ fourConnections fourConnections_wellFormed fun hrun => ?_
  exact absurd hrun.length_le (by decide)

end Etos.Sse
