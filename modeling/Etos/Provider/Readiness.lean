import Mathlib.Data.Nat.Find
import Etos.Conc.ForkJoin
import Etos.Lists.Dict
import Etos.Provider.Provision
import Etos.Sse.Events

/-!
# `Provider.Readiness` — waiting for the test runners

When the execution space provider has created its ExecutionSpaces and their test runners, it waits for all of them at
once: `waitForTestRunners` starts one goroutine for each and collects their errors over a channel. A wait reads the
events of the test run until the instance it waits for has said that it runs, or that it does not, and deletes its
ExecutionSpace in the second case. The waits are the tasks of a fork and join.

**`provision_ready_iff`**: whatever the events and in whichever order the waits end, `Provision` succeeds exactly if all
instances became ready, and exactly the ExecutionSpaces of the others have been deleted.
-/

namespace Etos.Readiness

open Kube ForkJoin

/-! ## One wait -/

/-- A string field of the data of an event; the last key that matches counts. -/
def stringField (name : String) : Sse.Data → String
  | .json (.object fields) => fields.foldl (fun value f => match Sse.matchesField f.1 name, f.2 with
      | true, .string s => s
      | _, _ => value) ""
  | _ => ""

/-- What `sse.Events` hands to the loop: an event, an error, or that there is nothing more. -/
inductive Delivery where
  | event (e : Sse.Event)
  | error (err : Err)
  | closed

/-- An ExecutionSpace that has been created, with its environment variables from the EnvironmentRequest and from the
    dataset, and what its wait gets to see: the delivery at each position, or `none` from where on nothing comes. -/
structure Runner where
  executionSpace : ExecutionSpace
  requestVariables : StrMap
  datasetVariables : StrMap
  stream : Nat → Option Delivery

namespace Runner

variable (r : Runner)

/-- `spec.Instructions.Environment`, as `NewExecutionSpace` leaves it. -/
def environment : StrMap :=
  StrMap.set (Lists.mapsCopy r.requestVariables r.datasetVariables) "ENVIRONMENT_ID" r.executionSpace.spec.id

def etrInstance : String := r.environment.get "ENVIRONMENT_ID"

/-- The instance is that of the ExecutionSpace, whatever the variables say. -/
@[simp] theorem etrInstance_eq : r.etrInstance = r.executionSpace.spec.id := by
  unfold etrInstance environment StrMap.get
  rw [StrMap.lookup_set_self]
  rfl

/-- One round of the loop of `WaitForTestRunner`: go on, or return. -/
def examine : Delivery → Option (Option Err)
  | .error err => some (some err)
  | .closed => some (some (.new "event stream closed while waiting for test runner to start"))
  | .event e =>
      match e.event with
      | .status =>
          if stringField "instance" e.data ≠ r.etrInstance then none
          else if stringField "status" e.data = "error" then
            some (some (.new ("test runner reported an error status: " ++ stringField "message" e.data)))
          else some none
      | .shutdown => some (some (.new "received shutdown event while waiting for test runner to start"))
      | _ => none

end Runner

inductive Phase where
  | listening
  /-- The test runner is not coming up; its ExecutionSpace is about to be deleted. -/
  | failed (err : Err)
  | finished (err : Option Err)

/-- A wait: the next delivery it reads, and the names in its calls of `Delete`. -/
structure Wait where
  runner : Runner
  position : Nat := 0
  phase : Phase := .listening
  deletes : List String := []

/-- The steps of `waitForTestRunner`. That there is a client to delete with is known: it is kept from the creation of
    the ExecutionSpace. -/
inductive Work : Wait → Wait → Prop where
  | ignore {w : Wait} {d} (hp : w.phase = .listening) (hd : w.runner.stream w.position = some d)
      (he : w.runner.examine d = none) : Work w { w with position := w.position + 1 }
  | ready {w : Wait} {d} (hp : w.phase = .listening) (hd : w.runner.stream w.position = some d)
      (he : w.runner.examine d = some none) : Work w { w with phase := .finished none }
  | fail {w : Wait} {d err} (hp : w.phase = .listening) (hd : w.runner.stream w.position = some d)
      (he : w.runner.examine d = some (some err)) : Work w { w with phase := .failed err }
  | delete {w : Wait} {err} (a : Except Err Unit) (hp : w.phase = .failed err) :
      Work w { w with
        phase := .finished (Err.join (some err) (errOf a))
        deletes := w.deletes ++ [w.runner.executionSpace.name] }

def Wait.result (w : Wait) : Option (Option Err) :=
  match w.phase with
  | .finished err => some err
  | _ => none

/-- `waitForTestRunners`. -/
def waits : ForkJoin.Spec Wait (Option Err) (Option Err) :=
  { work := Work, result := Wait.result, join := Err.join, empty := none }

abbrev Waits := State Wait (Option Err) (Option Err)

/-- The states of `waitForTestRunners` for these test runners. -/
def Waiting (runners : List Runner) (s : Waits) : Prop := Runs waits (runners.map fun r => { runner := r }) s

/-- What `Provision` returns once all ExecutionSpaces and test runners have been created, if it has returned. -/
def Provision (minimumAmount : Int) (s : Waits) : Option (Option Err) :=
  if minimumAmount ≤ 0 then
    some (some (.new "minimum amount of ExecutionSpaces requested is less than or equal to 0"))
  else if s.received = s.tasks.length then some s.joined
  else none

/-! ## What it is for -/

namespace Runner

variable (r : Runner)

/-- The instance says how it is. -/
def Own (e : Sse.Event) : Prop := e.event = .status ∧ stringField "instance" e.data = r.executionSpace.spec.id

/-- The instance says that it runs. -/
def Up (d : Delivery) : Prop := ∃ e, d = .event e ∧ r.Own e ∧ stringField "status" e.data ≠ "error"

/-- The instance says that it failed, the test run is shut down, or the stream has an error or ends. -/
def Down (d : Delivery) : Prop :=
  (∃ e, d = .event e ∧ (r.Own e ∧ stringField "status" e.data = "error" ∨ e.event = .shutdown)) ∨
    (∃ err, d = .error err) ∨ d = .closed

/-- The instance is up before anything goes wrong. -/
def Ready : Prop := ∃ k d, r.stream k = some d ∧ r.Up d ∧ ∀ j < k, ∃ d', r.stream j = some d' ∧ ¬ r.Down d'

/-- Something tells how it ends. -/
def Decided : Prop := ∃ k d, r.stream k = some d ∧ (r.Up d ∨ r.Down d) ∧ ∀ j < k, r.stream j ≠ none

/-! ### The loop and what it is for -/

variable {r} {d : Delivery} {k : Nat}

theorem examine_ready : r.examine d = some none ↔ r.Up d := by
  constructor
  · intro h
    cases d with
    | error | closed => cases h
    | event e =>
        unfold examine at h
        dsimp only at h
        split at h
        · rename_i hstatus
          split at h
          · cases h
          split at h
          · cases h
          rename_i hown hok
          exact ⟨e, rfl, ⟨hstatus, by simpa using hown⟩, hok⟩
        · cases h
        · cases h
  · rintro ⟨e, rfl, ⟨hstatus, hown⟩, hok⟩
    simp [examine, hstatus, hown, hok]

theorem examine_failed : (∃ err, r.examine d = some (some err)) ↔ r.Down d := by
  constructor
  · rintro ⟨err, h⟩
    cases d with
    | error err => exact .inr (.inl ⟨err, rfl⟩)
    | closed => exact .inr (.inr rfl)
    | event e =>
        refine .inl ⟨e, rfl, ?_⟩
        unfold examine at h
        dsimp only at h
        split at h
        · rename_i hstatus
          split at h
          · cases h
          split at h
          · rename_i hown hfailed
            exact .inl ⟨⟨hstatus, by simpa using hown⟩, hfailed⟩
          · cases h
        · rename_i hshutdown
          exact .inr hshutdown
        · cases h
  · rintro (⟨e, rfl, ⟨⟨hstatus, hown⟩, hfailed⟩ | hshutdown⟩ | ⟨err, rfl⟩ | rfl)
    · simp [examine, hstatus, hown, hfailed]
    · simp [examine, hshutdown]
    · exact ⟨err, rfl⟩
    · exact ⟨_, rfl⟩

theorem examine_ignored : r.examine d = none ↔ ¬ r.Up d ∧ ¬ r.Down d := by
  rw [← examine_ready, ← examine_failed]
  rcases r.examine d with _ | _ | err <;> simp

/-- The loop has read `k` deliveries and goes on. -/
def Ignored (r : Runner) (k : Nat) : Prop := ∀ j < k, ∃ d, r.stream j = some d ∧ r.examine d = none

/-- The loop returns with delivery `k`. -/
def Returns (r : Runner) (k : Nat) (out : Option Err) : Prop :=
  r.Ignored k ∧ ∃ d, r.stream k = some d ∧ r.examine d = some out

/-- The loop returns no later than at a delivery that it does not ignore. -/
theorem exists_returns (hd : r.stream k = some d) (he : r.examine d ≠ none) (hbefore : ∀ j < k, r.stream j ≠ none) :
    ∃ k' ≤ k, ∃ out, r.Returns k' out := by
  classical
  have hex : ∃ k d, r.stream k = some d ∧ r.examine d ≠ none := ⟨k, d, hd, he⟩
  obtain ⟨d₀, hd₀, he₀⟩ := Nat.find_spec hex
  have hle : Nat.find hex ≤ k := Nat.find_min' hex ⟨d, hd, he⟩
  obtain ⟨out, hout⟩ := Option.ne_none_iff_exists'.mp he₀
  refine ⟨Nat.find hex, hle, out, fun j hj => ?_, d₀, hd₀, hout⟩
  obtain ⟨d', hd'⟩ := Option.ne_none_iff_exists'.mp (hbefore j (by omega))
  refine ⟨d', hd', ?_⟩
  by_contra hne
  exact Nat.find_min hex hj ⟨d', hd', hne⟩

/-- The loop returns once. -/
theorem Returns.unique {k' : Nat} {out out' : Option Err} (h : r.Returns k out) (h' : r.Returns k' out') :
    k = k' ∧ out = out' := by
  obtain ⟨hbefore, d, hd, he⟩ := h
  obtain ⟨hbefore', d', hd', he'⟩ := h'
  rcases Nat.lt_trichotomy k k' with hlt | rfl | hlt
  · obtain ⟨d'', hd'', hnone⟩ := hbefore' k hlt
    rw [hd] at hd''
    cases hd''
    rw [he] at hnone
    cases hnone
  · rw [hd] at hd'
    cases hd'
    exact ⟨rfl, Option.some.inj (he.symm.trans he')⟩
  · obtain ⟨d'', hd'', hnone⟩ := hbefore k' hlt
    rw [hd'] at hd''
    cases hd''
    rw [he'] at hnone
    cases hnone

/-- The loop returns nil exactly if the instance is up before anything goes wrong. -/
theorem ready_iff : r.Ready ↔ ∃ k, r.Returns k none := by
  constructor
  · rintro ⟨k, d, hd, hup, hbefore⟩
    have he : r.examine d = some none := examine_ready.mpr hup
    have hdelivered : ∀ j < k, r.stream j ≠ none := by
      intro j hj
      obtain ⟨d', hd', -⟩ := hbefore j hj
      simp [hd']
    obtain ⟨k', hle, out, hreturns⟩ := exists_returns hd (by simp [he]) hdelivered
    cases out with
    | none => exact ⟨k', hreturns⟩
    | some err =>
        obtain ⟨hignored, d', hd', he'⟩ := hreturns
        rcases Nat.lt_or_eq_of_le hle with hlt | rfl
        · obtain ⟨d'', hd'', hdown⟩ := hbefore k' hlt
          rw [hd'] at hd''
          cases hd''
          exact absurd (examine_failed.mp ⟨err, he'⟩) hdown
        · rw [hd] at hd'
          cases hd'
          rw [he] at he'
          cases he'
  · rintro ⟨k, hignored, d, hd, hready⟩
    refine ⟨k, d, hd, examine_ready.mp hready, fun j hj => ?_⟩
    obtain ⟨d', hd', he⟩ := hignored j hj
    exact ⟨d', hd', (examine_ignored.mp he).2⟩

theorem not_ready_of_returns {err : Err} (h : r.Returns k (some err)) : ¬ r.Ready := by
  intro hready
  obtain ⟨k', h'⟩ := ready_iff.mp hready
  cases (h.unique h').2

theorem Decided.returns (h : r.Decided) : ∃ k out, r.Returns k out := by
  obtain ⟨k, d, hd, hdecides, hbefore⟩ := h
  have he : r.examine d ≠ none := by
    rw [Ne, examine_ignored]
    tauto
  obtain ⟨k', -, hreturns⟩ := exists_returns hd he hbefore
  exact ⟨k', hreturns⟩

end Runner

/-! ## One wait alone -/

/-- Where a wait is, and what it has done. -/
structure Progressed (r : Runner) (w : Wait) : Prop where
  runner : w.runner = r
  ignored : r.Ignored w.position
  phase : match w.phase with
    | .listening => w.deletes = []
    | .failed err => w.deletes = [] ∧ r.Returns w.position (some err)
    | .finished none => w.deletes = [] ∧ r.Returns w.position none
    | .finished (some _) => w.deletes = [r.executionSpace.name] ∧ ∃ err, r.Returns w.position (some err)

variable {r : Runner} {w w' : Wait}

theorem Progressed.start (r : Runner) : Progressed r { runner := r } := ⟨rfl, nofun, rfl⟩

theorem Progressed.work (h : Progressed r w) (hw : Work w w') : Progressed r w' := by
  obtain ⟨rfl, hignored, hphase⟩ := h
  cases hw with
  | ignore hp hd he =>
      rw [hp] at hphase
      refine ⟨rfl, fun j hj => ?_, by rw [hp]; exact hphase⟩
      rcases Nat.lt_succ_iff_lt_or_eq.mp hj with hj | rfl
      · exact hignored j hj
      · exact ⟨_, hd, he⟩
  | ready hp hd he =>
      rw [hp] at hphase
      exact ⟨rfl, hignored, hphase, hignored, _, hd, he⟩
  | fail hp hd he =>
      rw [hp] at hphase
      exact ⟨rfl, hignored, hphase, hignored, _, hd, he⟩
  | @delete err a hp =>
      rw [hp] at hphase
      obtain ⟨hdeletes, hreturns⟩ := hphase
      obtain ⟨err', herr'⟩ : ∃ err', Err.join (some err) (errOf a) = some err' := by
        cases errOf a <;> exact ⟨_, rfl⟩
      refine ⟨rfl, hignored, ?_⟩
      dsimp only
      rw [herr', hdeletes]
      exact ⟨rfl, err, hreturns⟩

theorem progressed (h : Relation.ReflTransGen Work { runner := r } w) : Progressed r w := by
  induction h with
  | refl => exact Progressed.start r
  | tail _ hw ih => exact ih.work hw

/-- A wait that has ended has the result of the loop, and has deleted its ExecutionSpace if that is a failure. -/
theorem Progressed.ended {out : Option Err} (h : Progressed r w) (hout : w.result = some out) :
    (out = none ↔ r.Ready) ∧ (r.Ready → w.deletes = []) ∧ (¬ r.Ready → w.deletes = [r.executionSpace.name]) := by
  obtain ⟨-, -, hphase⟩ := h
  unfold Wait.result at hout
  cases hp : w.phase with
  | listening | failed =>
      rw [hp] at hout
      cases hout
  | finished err =>
      rw [hp] at hout hphase
      cases hout
      cases out with
      | none =>
          have hready : r.Ready := Runner.ready_iff.mpr ⟨_, hphase.2⟩
          exact ⟨⟨fun _ => hready, fun _ => rfl⟩, fun _ => hphase.1, fun h => absurd hready h⟩
      | some err =>
          obtain ⟨hdeletes, err', hreturns⟩ := hphase
          have hnot := Runner.not_ready_of_returns hreturns
          exact ⟨⟨nofun, fun h => absurd h hnot⟩, fun h => absurd h hnot, fun _ => hdeletes⟩

/-- At no time has it deleted anything else. -/
theorem Progressed.deletes (h : Progressed r w) :
    w.deletes = [] ∨ ¬ r.Ready ∧ w.deletes = [r.executionSpace.name] := by
  obtain ⟨-, -, hphase⟩ := h
  split at hphase
  · exact .inl hphase
  · exact .inl hphase.1
  · exact .inl hphase.1
  · obtain ⟨hdeletes, err, hreturns⟩ := hphase
    exact .inr ⟨Runner.not_ready_of_returns hreturns, hdeletes⟩

/-! ### A wait that is decided -/

/-- The loop has not read past the delivery it returns with. -/
theorem Progressed.position_le {k : Nat} {out : Option Err} (h : Progressed r w) (hk : r.Returns k out) :
    w.position ≤ k := by
  by_contra hlt
  obtain ⟨-, d, hd, he⟩ := hk
  obtain ⟨d', hd', hnone⟩ := h.ignored k (by omega)
  rw [hd] at hd'
  cases hd'
  rw [he] at hnone
  cases hnone

theorem Progressed.not_stuck {k : Nat} {out : Option Err} (h : Progressed r w) (hk : r.Returns k out) :
    ¬ Stuck waits w := by
  have hle := h.position_le hk
  obtain ⟨rfl, -, -⟩ := h
  rintro ⟨hresult, hno⟩
  cases hp : w.phase with
  | finished err =>
      have : w.result = none := hresult
      unfold Wait.result at this
      rw [hp] at this
      cases this
  | failed err => exact hno _ (.delete (.ok ()) hp)
  | listening =>
      obtain ⟨hignored, d, hd, he⟩ := hk
      rcases Nat.lt_or_eq_of_le hle with hlt | heq
      · obtain ⟨d', hd', hnone⟩ := hignored _ hlt
        exact hno _ (.ignore hp hd' hnone)
      · rw [← heq] at hd
        cases out with
        | none => exact hno _ (.ready hp hd he)
        | some err => exact hno _ (.fail hp hd he)

/-- How far a wait is from its end, if `last` is the delivery with which the loop returns. -/
def Wait.left (last : Runner → Nat) (w : Wait) : Nat :=
  match w.phase with
  | .listening => last w.runner - w.position + 2
  | .failed _ => 1
  | .finished _ => 0

theorem Progressed.left_lt {last : Runner → Nat} {out : Option Err} (h : Progressed r w)
    (hk : r.Returns (last r) out) (hw : Work w w') : w'.left last < w.left last := by
  have hle := h.position_le hk
  obtain ⟨rfl, -, -⟩ := h
  unfold Wait.left
  cases hw with
  | ignore hp hd he =>
      have hne : w.position ≠ last w.runner := by
        intro heq
        obtain ⟨-, d, hd', he'⟩ := hk
        rw [← heq, hd] at hd'
        cases hd'
        rw [he] at he'
        cases he'
      dsimp only
      rw [hp]
      dsimp only
      omega
  | ready hp hd he | fail hp hd he | delete a hp =>
      rw [hp]
      dsimp only
      omega

/-! ## All of them -/

variable {runners : List Runner} {s s' : Waits} {minimumAmount : Int}

theorem forall_task (h : Waiting runners s) : List.Forall₂ (fun r t => Progressed r t.state) runners s.tasks := by
  obtain ⟨collected, hinv⟩ := h.inv
  exact (List.forall₂_map_left_iff.mp hinv.tasks).imp fun r t ht => progressed ht.reached

theorem foldl_join_eq_none {errs : List (Option Err)} {err : Option Err} :
    errs.foldl Err.join err = none ↔ err = none ∧ ∀ e ∈ errs, e = none := by
  induction errs generalizing err with
  | nil => simp
  | cons e errs ih =>
      rw [List.foldl_cons, ih, Err.join_eq_none]
      simp [and_assoc]

theorem Provision.done {out : Option Err} (hamount : 1 ≤ minimumAmount) (h : Provision minimumAmount s = some out) :
    s.Done ∧ s.joined = out := by
  unfold Provision at h
  rw [if_neg (by omega)] at h
  split at h
  · rename_i hdone
    exact ⟨hdone, Option.some.inj h⟩
  · cases h

theorem forall₂_all_iff {α β : Type} {p : α → Prop} {q : β → Prop} {l : List α} {l' : List β}
    (h : List.Forall₂ (fun a b => p a ↔ q b) l l') : (∀ a ∈ l, p a) ↔ ∀ b ∈ l', q b := by
  induction h with
  | nil => simp
  | cons h _ ih => simp [h, ih]

/-- What has happened when `Provision` returns. -/
theorem Provision.returned {out : Option Err} (h : Waiting runners s) (hamount : 1 ≤ minimumAmount)
    (hout : Provision minimumAmount s = some out) :
    (out = none ↔ ∀ r ∈ runners, r.Ready) ∧
      List.Forall₂ (fun r t => (r.Ready → t.state.deletes = []) ∧
        (¬ r.Ready → t.state.deletes = [r.executionSpace.name])) runners s.tasks := by
  obtain ⟨hdone, hjoined⟩ := Provision.done hamount hout
  obtain ⟨ends, hends, htasks, collected, hperm, hcollected⟩ := h.joined hdone
  have hall : List.Forall₂ (fun r (e : Wait × Option Err) => Progressed r e.1 ∧ e.1.result = some e.2) runners ends :=
    (List.forall₂_map_left_iff.mp hends).imp fun r e he => ⟨progressed he.1, he.2⟩
  constructor
  · have hnone : out = none ↔ ∀ e ∈ ends, e.2 = none := by
      rw [← hjoined, hcollected]
      show collected.foldl Err.join none = none ↔ _
      rw [foldl_join_eq_none]
      simp only [hperm.mem_iff, List.forall_mem_map, true_and]
    rw [hnone]
    exact (forall₂_all_iff (hall.imp fun r e he => (he.1.ended he.2).1.symm)).symm
  · rw [htasks]
    exact List.forall₂_map_right_iff.mpr (hall.imp fun r e he => (he.1.ended he.2).2)

theorem task (h : Waiting runners s) {t : Task Wait (Option Err)} (ht : t ∈ s.tasks) :
    ∃ r ∈ runners, Progressed r t.state := by
  obtain ⟨w, hw, hof⟩ := h.task ht
  obtain ⟨r, hr, rfl⟩ := List.mem_map.mp hw
  exact ⟨r, hr, progressed hof.reached⟩

/-- With everything decided, a run goes on until `Provision` returns. -/
theorem Provision.progress (h : Waiting runners s) (hdecided : ∀ r ∈ runners, r.Decided) (hopen : ¬ s.Done) :
    ∃ s', Step waits s s' := by
  refine (h.progress hopen).resolve_right ?_
  rintro ⟨w, hw, hstuck⟩
  obtain ⟨r, hr, hprogressed⟩ := task h hw
  obtain ⟨k, out, hk⟩ := (hdecided r hr).returns
  exact hprogressed.not_stuck hk hstuck

/-- And it gets closer to that with every step. -/
theorem Provision.left_lt (hdecided : ∀ r ∈ runners, r.Decided) :
    ∃ left : Waits → Nat, ∀ s s', Waiting runners s → Step waits s s' → left s' < left s := by
  have hreturns : ∀ r, ∃ k, r ∈ runners → ∃ out, r.Returns k out := by
    intro r
    by_cases hr : r ∈ runners
    · obtain ⟨k, hk⟩ := (hdecided r hr).returns
      exact ⟨k, fun _ => hk⟩
    · exact ⟨0, fun h => absurd h hr⟩
  choose last hlast using hreturns
  refine ⟨total (Wait.left last), fun s s' h hs => hs.lt_total fun w w' hw hwork => ?_⟩
  obtain ⟨r, hr, hprogressed⟩ := task h hw
  obtain ⟨out, hk⟩ := hlast r hr
  exact hprogressed.left_lt hk hwork

theorem Provision.returns (hamount : 1 ≤ minimumAmount) (hdecided : ∀ r ∈ runners, r.Decided)
    (h : Waiting runners s) :
    ∃ s' out, Relation.ReflTransGen (Step waits) s s' ∧ Provision minimumAmount s' = some out := by
  obtain ⟨left, hleft⟩ := Provision.left_lt hdecided
  -- by induction on the number of steps that are left
  induction hn : left s using Nat.strong_induction_on generalizing s with
  | _ n ih =>
      by_cases hdone : s.Done
      · refine ⟨s, s.joined, .refl, ?_⟩
        unfold Provision
        rw [if_neg (by omega)]
        exact if_pos hdone
      · obtain ⟨s₁, hs₁⟩ := Provision.progress h hdecided hdone
        obtain ⟨s', out, hs', hout⟩ := ih (left s₁) (hn ▸ hleft s s₁ h hs₁) (h.tail hs₁) rfl
        exact ⟨s', out, .head hs₁ hs', hout⟩

/-- **`Provision` succeeds exactly if all test runners became ready, and deletes exactly the ExecutionSpaces of the
    others**, however the waits are interleaved. If something decides every wait it does return, after finitely many
    steps. -/
theorem provision_ready_iff (minimumAmount : Int) (runners : List Runner) (hamount : 1 ≤ minimumAmount)
    (hcreated : runners.length = minimumAmount.toNat) :
    (∀ s, Waiting runners s → s.tasks.length = minimumAmount.toNat ∧
      (∀ out, Provision minimumAmount s = some out →
        (out = none ↔ ∀ r ∈ runners, r.Ready) ∧
        List.Forall₂ (fun r t => (r.Ready → t.state.deletes = []) ∧
          (¬ r.Ready → t.state.deletes = [r.executionSpace.name])) runners s.tasks) ∧
      List.Forall₂ (fun r t => t.state.deletes = [] ∨ ¬ r.Ready ∧ t.state.deletes = [r.executionSpace.name])
        runners s.tasks) ∧
    ((∀ r ∈ runners, r.Decided) →
      (∀ s, Waiting runners s →
        ∃ s' out, Relation.ReflTransGen (Step waits) s s' ∧ Provision minimumAmount s' = some out) ∧
      ∃ left : Waits → Nat, ∀ s s', Waiting runners s → Step waits s s' → left s' < left s) := by
  refine ⟨fun s h => ⟨?_, fun out hout => Provision.returned h hamount hout, ?_⟩, fun hdecided => ⟨fun s h => ?_, ?_⟩⟩
  · rw [← hcreated]
    exact (forall_task h).length_eq.symm
  · exact (forall_task h).imp fun r t ht => ht.deletes
  · exact Provision.returns hamount hdecided h
  · exact Provision.left_lt hdecided

/-- A test runner says that it runs. -/
def runningEvent (inst : String) : Delivery :=
  .event ⟨1, .status, .json (.object [("instance", .string inst), ("status", .string "ok")])⟩

/-- Two ExecutionSpaces; both waits see the second test runner come up first. -/
def twoRunners : List Runner :=
  ["a", "b"].map fun id =>
    { executionSpace := ⟨{ name := "space-" ++ id }, { id := id }, {}⟩
      requestVariables := [("ENVIRONMENT_ID", id), ("SUITE_ID", "suite")]
      datasetVariables := [("DEV", "true")]
      stream := fun k => [runningEvent "b", runningEvent "a"][k]? }

theorem up_runningEvent {inst : String} (h : r.executionSpace.spec.id = inst) : r.Up (runningEvent inst) := by
  have hinstance : Sse.matchesField "instance" "instance" = true ∧ Sse.matchesField "status" "instance" = false := by
    decide
  have hstatus : Sse.matchesField "status" "status" = true ∧ Sse.matchesField "instance" "status" = false := by
    decide
  refine ⟨_, rfl, ⟨rfl, ?_⟩, ?_⟩
  · simp [stringField, hinstance, h]
  · have hok : stringField "status" (.json (.object [("instance", .string inst), ("status", .string "ok")])) =
        "ok" := by
      simp [stringField, hstatus]
    rw [hok]
    decide

theorem twoRunners_ready : ∀ r ∈ twoRunners, r.Ready := by
  intro r hr
  rcases List.mem_cons.mp hr with rfl | hr
  · refine ⟨1, _, rfl, up_runningEvent rfl, fun j hj => ?_⟩
    obtain rfl : j = 0 := by omega
    refine ⟨_, rfl, ?_⟩
    rintro (⟨e, he, ⟨⟨-, hown⟩, -⟩ | hshutdown⟩ | ⟨err, he⟩ | he)
    · cases he
      exact absurd hown (by decide)
    · cases he
      cases hshutdown
    · cases he
    · cases he
  · obtain rfl := List.mem_singleton.mp hr
    exact ⟨0, _, rfl, up_runningEvent rfl, nofun⟩

/-- The two are provisioned. -/
theorem provision_ready_two : ∃ s, Waiting twoRunners s ∧ Provision 2 s = some none := by
  obtain ⟨hreturned, hdecided⟩ := provision_ready_iff 2 twoRunners (by decide) rfl
  have hall : ∀ r ∈ twoRunners, r.Decided := by
    intro r hr
    obtain ⟨k, d, hd, hup, hbefore⟩ := twoRunners_ready r hr
    refine ⟨k, d, hd, .inl hup, fun j hj => ?_⟩
    obtain ⟨d', hd', -⟩ := hbefore j hj
    simp [hd']
  obtain ⟨s, out, hs, hout⟩ := (hdecided hall).1 _ .refl
  have hnone : out = none := ((hreturned s hs).2.1 out hout).1.mpr twoRunners_ready
  exact ⟨s, hs, hnone ▸ hout⟩

end Etos.Readiness
