import Mathlib.Algebra.GroupWithZero.Nat
import Mathlib.Algebra.Order.Group.Int
import Mathlib.Data.List.Perm.Basic
import Mathlib.Logic.Relation

/-!
# `Messaging.Publisher` — the RabbitMQ stream publisher

`internal/messaging/rabbitmq.go`. A message that is published goes over an unbuffered channel to the one goroutine that
sends; the broker answers every message it got with a status, and the goroutine that handles a batch of statuses puts
the messages that were not confirmed on the channel again. A wait group counts the messages that are on the way, and
`Close` waits for it before it closes the channel.

The state has a place for every message on the way, and the steps are those of the goroutines: a rendezvous on the
channel is one step of both sides. **`publisher_drains`**: the count is right at any time, `Close` gets past its wait
only when nothing is on the way, and nothing is put on the channel once it is closed.
-/

namespace Etos.Messaging

variable {μ : Type}

/-- Where the goroutine of `publish` is. -/
inductive Sender (μ : Type) where
  /-- In its `select`. -/
  | idle
  /-- In `producer.Send(msg)`. -/
  | sending (msg : μ)
  /-- The broker has the message. -/
  | returning
  /-- `Send` has failed, and `Done` has not been called yet. -/
  | failing (msg : μ)
  | stopped

/-- `stream.ConfirmationStatus`. -/
structure ConfirmationStatus (μ : Type) where
  message : μ
  isConfirmed : Bool

/-- Where `Close` is. -/
inductive Closing where
  | notStarted
  /-- `shutdown` is set. -/
  | waiting
  | pastWait
  /-- `done` has been received, and the producer is being closed. -/
  | sentDone
  /-- The channel is closed. -/
  | closed
  deriving DecidableEq

structure Publisher (μ : Type) where
  /-- `Publish` has found the publisher open, and not counted the message yet. -/
  checked : List μ := []
  /-- `Publish` has counted the message and waits for the channel. -/
  publishing : List μ := []
  sender : Sender μ := .idle
  /-- Sent, and not answered by the broker. -/
  sent : List μ := []
  /-- What the goroutines of the confirmation handler still have to look at. -/
  handlers : List (List (ConfirmationStatus μ)) := []
  unConfirmed : Int := 0
  closing : Closing := .notStarted
  /-- Something was sent on the closed channel. -/
  panicked : Bool := false

/-- The steps of all goroutines. A single `Close` starts when every `Publish` that found the publisher open has counted
    its message. -/
inductive Step : Publisher μ → Publisher μ → Prop where
  | check {s : Publisher μ} (msg : μ) (h : s.closing = .notStarted) : Step s { s with checked := msg :: s.checked }
  /-- `s.unConfirmed.Add(1)`. -/
  | add {s : Publisher μ} {before after msg} (h : s.checked = before ++ msg :: after) :
      Step s { s with
        checked := before ++ after, publishing := msg :: s.publishing, unConfirmed := s.unConfirmed + 1 }
  | publish {s : Publisher μ} {before after msg} (h : s.publishing = before ++ msg :: after)
      (hopen : s.closing ≠ .closed) (hidle : s.sender = .idle) :
      Step s { s with publishing := before ++ after, sender := .sending msg }
  | publishClosed {s : Publisher μ} {msg} (h : msg ∈ s.publishing) (hclosed : s.closing = .closed) :
      Step s { s with panicked := true }
  | send {s : Publisher μ} {msg} (h : s.sender = .sending msg) :
      Step s { s with sender := .returning, sent := msg :: s.sent }
  | returns {s : Publisher μ} (h : s.sender = .returning) : Step s { s with sender := .idle }
  | fail {s : Publisher μ} {msg} (h : s.sender = .sending msg) : Step s { s with sender := .failing msg }
  | failed {s : Publisher μ} {msg} (h : s.sender = .failing msg) :
      Step s { s with sender := .idle, unConfirmed := s.unConfirmed - 1 }
  /-- The broker answers some of the messages it got. -/
  | answer {s : Publisher μ} {rest} (batch : List (ConfirmationStatus μ))
      (h : s.sent.Perm (batch.map (·.message) ++ rest)) :
      Step s { s with sent := rest, handlers := batch :: s.handlers }
  | confirm {s : Publisher μ} {before after status batch} (h : s.handlers = before ++ (status :: batch) :: after)
      (hconfirmed : status.isConfirmed = true) :
      Step s { s with handlers := before ++ batch :: after, unConfirmed := s.unConfirmed - 1 }
  | requeue {s : Publisher μ} {before after status batch} (h : s.handlers = before ++ (status :: batch) :: after)
      (hunconfirmed : status.isConfirmed = false) (hopen : s.closing ≠ .closed) (hidle : s.sender = .idle) :
      Step s { s with handlers := before ++ batch :: after, sender := .sending status.message }
  | requeueClosed {s : Publisher μ} {status batch} (h : status :: batch ∈ s.handlers)
      (hunconfirmed : status.isConfirmed = false) (hclosed : s.closing = .closed) :
      Step s { s with panicked := true }
  | close {s : Publisher μ} (h : s.closing = .notStarted) (hchecked : s.checked = []) :
      Step s { s with closing := .waiting }
  /-- `s.unConfirmed.Wait()` returns. -/
  | pass {s : Publisher μ} (h : s.closing = .waiting) (hzero : s.unConfirmed = 0) :
      Step s { s with closing := .pastWait }
  /-- `s.done <- struct{}{}`. -/
  | stop {s : Publisher μ} (h : s.closing = .pastWait) (hidle : s.sender = .idle) :
      Step s { s with closing := .sentDone, sender := .stopped }
  | closeChannel {s : Publisher μ} (h : s.closing = .sentDone) : Step s { s with closing := .closed }

/-- The states of a publisher that has been started. -/
def Reachable (s : Publisher μ) : Prop := Relation.ReflTransGen Step {} s

/-! ## What is on the way -/

/-- Is the next thing the goroutine does to put a message on the channel? -/
def requeues : List (ConfirmationStatus μ) → Bool
  | [] => false
  | status :: _ => !status.isConfirmed

namespace Publisher

variable (s : Publisher μ)

/-- Messages waiting to enter the channel. -/
def entering : Nat := s.publishing.length + s.handlers.countP requeues

/-- Messages being sent. -/
def beingSent : Nat :=
  match s.sender with
  | .sending _ | .failing _ => 1
  | _ => 0

/-- Messages that were sent and whose confirmation has not been seen. -/
def awaiting : Nat := s.sent.length + (s.handlers.map fun batch => batch.length - (requeues batch).toNat).sum

/-- The messages on the way. -/
def outstanding : Nat := s.entering + s.beingSent + s.awaiting

/-- A batch is on the way as a whole, wherever its goroutine is. -/
theorem outstanding_eq :
    s.outstanding = s.publishing.length + s.beingSent + s.sent.length + (s.handlers.map List.length).sum := by
  have hhandlers : ∀ handlers : List (List (ConfirmationStatus μ)),
      handlers.countP requeues + (handlers.map fun batch => batch.length - (requeues batch).toNat).sum =
        (handlers.map List.length).sum := by
    intro handlers
    induction handlers with
    | nil => rfl
    | cons batch handlers ih =>
        rw [List.countP_cons, List.map_cons, List.sum_cons, List.map_cons, List.sum_cons, ← ih]
        cases batch with
        | nil => simp [requeues]
        | cons status batch =>
            cases hc : status.isConfirmed <;> simp [requeues, hc] <;> omega
  have h := hhandlers s.handlers
  unfold outstanding entering awaiting
  omega

end Publisher

/-! ## The invariant -/

/-- `Close` has got past its wait. -/
def Closing.Past (c : Closing) : Prop := c ≠ .notStarted ∧ c ≠ .waiting

/-- The count is right, and `Close` is where it is for a reason. -/
structure Inv (s : Publisher μ) : Prop where
  counted : s.unConfirmed = s.outstanding
  checked : s.closing ≠ .notStarted → s.checked = []
  drained : s.closing.Past → s.outstanding = 0
  running : s.panicked = false

variable {s s' : Publisher μ}

/-- Every step that changes the count changes what is on the way by the same, and no other step does. -/
theorem Step.balance (h : Step s s') : s'.unConfirmed - s'.outstanding = s.unConfirmed - s.outstanding := by
  rw [Publisher.outstanding_eq, Publisher.outstanding_eq]
  unfold Publisher.beingSent
  cases h with
  | check | publishClosed | requeueClosed | close | pass | closeChannel => rfl
  | add h =>
      simp only [List.length_cons]
      omega
  | publish h _ hidle =>
      simp only [h, hidle, List.length_append, List.length_cons]
      omega
  | returns h | fail h | stop _ h => simp only [h]
  | send h | failed h =>
      simp only [h, List.length_cons]
      omega
  | answer batch h =>
      have hlength := h.length_eq
      simp only [List.length_append, List.length_map] at hlength
      simp only [List.map_cons, List.sum_cons]
      omega
  | confirm h =>
      simp only [h, List.map_append, List.map_cons, List.sum_append, List.sum_cons, List.length_cons]
      omega
  | requeue h _ _ hidle =>
      simp only [h, hidle, List.map_append, List.map_cons, List.sum_append, List.sum_cons, List.length_cons]
      omega

/-- Only `Publish` counts up. -/
theorem Step.unConfirmed_le (h : Step s s') (hchecked : s.checked = []) : s'.unConfirmed ≤ s.unConfirmed := by
  cases h with
  | add h =>
      rw [hchecked] at h
      exact absurd h (by simp)
  | failed | confirm => exact Int.sub_le_self _ (by decide)
  | _ => exact Int.le_refl _

theorem Inv.start : Inv ({} : Publisher μ) := ⟨rfl, fun _ => rfl, fun h => absurd rfl h.1, rfl⟩

/-- Nothing is checked after `Close` has started. -/
theorem Step.checked (h : Step s s') (hs : s.closing ≠ .notStarted → s.checked = [])
    (hs' : s'.closing ≠ .notStarted) : s'.checked = [] := by
  cases h with
  | check msg h => exact absurd h hs'
  | add h =>
      rw [hs hs'] at h
      exact absurd h (by simp)
  | close h hchecked => exact hchecked
  | pass h => exact hs (by rw [h]; decide)
  | stop h => exact hs (by rw [h]; decide)
  | closeChannel h => exact hs (by rw [h]; decide)
  | _ => exact hs hs'

/-- `Close` gets past its wait when the count is zero. -/
theorem Step.past (h : Step s s') (hs' : s'.closing.Past) :
    s.closing.Past ∨ s.closing = .waiting ∧ s.unConfirmed = 0 := by
  cases h with
  | close => exact absurd rfl hs'.2
  | pass h hzero => exact .inr ⟨h, hzero⟩
  | stop h => exact .inl (by rw [h]; exact ⟨by decide, by decide⟩)
  | closeChannel h => exact .inl (by rw [h]; exact ⟨by decide, by decide⟩)
  | _ => exact .inl hs'

theorem Step.leaves_wait (h : Step s s') (hwaiting : s.closing = .waiting) (hpast : s'.closing ≠ .waiting) :
    s.unConfirmed = 0 := by
  cases h with
  | close h | stop h | closeChannel h =>
      rw [hwaiting] at h
      cases h
  | pass _ hzero => exact hzero
  | _ => exact absurd hwaiting hpast

/-- With nothing on the way, no goroutine is about to put something on the channel. -/
theorem empty_of_drained (h : s.outstanding = 0) : s.publishing = [] ∧ ∀ batch ∈ s.handlers, batch = [] := by
  rw [Publisher.outstanding_eq] at h
  refine ⟨List.eq_nil_of_length_eq_zero (by omega), fun batch hbatch => List.eq_nil_of_length_eq_zero ?_⟩
  obtain ⟨before, after, heq⟩ := List.append_of_mem hbatch
  rw [heq, List.map_append, List.map_cons, List.sum_append, List.sum_cons] at h
  omega

theorem Closing.past_closed : Closing.Past .closed := ⟨by decide, by decide⟩

/-- Where nothing is on the way, nothing is put on the channel. -/
theorem Step.panicked (h : Step s s') (hs : s.panicked = false) (hdrained : s.closing.Past → s.outstanding = 0) :
    s'.panicked = false := by
  cases h with
  | publishClosed h hclosed =>
      have hempty := (empty_of_drained (hdrained (hclosed ▸ Closing.past_closed))).1
      rw [hempty] at h
      cases h
  | requeueClosed h _ hclosed =>
      have hempty := (empty_of_drained (hdrained (hclosed ▸ Closing.past_closed))).2
      cases hempty _ h
  | _ => exact hs

theorem Inv.step (h : Inv s) (hs : Step s s') : Inv s' where
  counted := by
    have hbalance := hs.balance
    have hcounted := h.counted
    omega
  checked := hs.checked h.checked
  drained := by
    intro hpast
    have hbalance := hs.balance
    have hcounted := h.counted
    rcases hs.past hpast with hpast | ⟨hwaiting, hzero⟩
    · have hle := hs.unConfirmed_le (h.checked hpast.1)
      have hdrained := h.drained hpast
      omega
    · have hle := hs.unConfirmed_le (h.checked (by rw [hwaiting]; decide))
      omega
  running := hs.panicked h.running h.drained

theorem Reachable.inv (h : Reachable s) : Inv s := by
  induction h with
  | refl => exact Inv.start
  | tail _ hs ih => exact ih.step hs

/-- **The publisher drains before it closes.** The wait group counts what is on the way, `Close` gets past its wait only
    when that is nothing, and nothing is put on the channel after it is closed. -/
theorem publisher_drains (s : Publisher μ) (h : Reachable s) :
    s.unConfirmed = s.entering + s.beingSent + s.awaiting ∧ 0 ≤ s.unConfirmed ∧
    (∀ s', Step s s' → s.closing = .waiting → s'.closing ≠ .waiting → s.entering + s.beingSent + s.awaiting = 0) ∧
    (s.closing = .closed → s.publishing = [] ∧ ∀ batch ∈ s.handlers, batch = []) ∧ s.panicked = false := by
  have hinv := h.inv
  have hcounted : s.unConfirmed = s.entering + s.beingSent + s.awaiting := by
    rw [hinv.counted, Publisher.outstanding]
    push_cast
    rfl
  refine ⟨hcounted, by omega, fun s' hs hwaiting hpast => ?_, fun hclosed => ?_, hinv.running⟩
  · have hzero := hs.leaves_wait hwaiting hpast
    omega
  · exact empty_of_drained (hinv.drained (hclosed ▸ Closing.past_closed))

/-- A message is refused by the broker, sent again and confirmed; then the publisher is closed. -/
theorem publisher_drains_refused : ∃ s : Publisher String, Reachable s ∧ s.closing = .closed ∧ s.panicked = false := by
  have hrun : Relation.ReflTransGen Step ({} : Publisher String)
      { handlers := [[], []], closing := .closed, sender := .stopped } := by
    have hone : ["event"] = [] ++ "event" :: [] := rfl
    refine .head (.check "event" rfl) (.head (.add hone) (.head (.close rfl rfl) ?_))
    refine .head (.publish hone (by decide) rfl) (.head (.send rfl) (.head (.returns rfl) ?_))
    refine .head (.answer [⟨"event", false⟩] (List.Perm.refl ["event"])) ?_
    have hrefused : [[⟨"event", false⟩]] = [] ++ ((⟨"event", false⟩ : ConfirmationStatus String) :: []) :: [] := rfl
    refine .head (.requeue hrefused rfl (by decide) rfl) (.head (.send rfl) (.head (.returns rfl) ?_))
    refine .head (.answer [⟨"event", true⟩] (List.Perm.refl ["event"])) ?_
    have hconfirmed : [[⟨"event", true⟩], []] = [] ++ ((⟨"event", true⟩ : ConfirmationStatus String) :: []) :: [[]] :=
      rfl
    refine .head (.confirm hconfirmed rfl) (.head (.pass rfl (by decide)) ?_)
    exact .head (.stop rfl rfl) (.head (.closeChannel rfl) .refl)
  exact ⟨_, hrun, rfl, (publisher_drains _ hrun).2.2.2.2⟩

end Etos.Messaging
