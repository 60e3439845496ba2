import Etos.Operator.Reads
import Etos.TestRun.Slots

/-!
# `TestRun.Calls` — what a TestRun worker may call

The state of a TestRun and its events are the subject of `TestRun.Machine`; here is what its `Reconcile` does to
everything else. It creates EnvironmentRequests for the *slots* of the TestRun, one for each suite and each distinct
test runner in it, and the suite runner job; it deletes jobs, requests and the TestRun. `Permits` lists the calls in
terms of what the round has heard, and **`Reconcile_follows`** says that it makes no others.

The answers a TestRun worker relies on are weaker than those the server gives (`TestRunReconciler.answers`), so that
the theorem can be used wherever TestRuns keep their names.
-/

namespace Etos

open Kube

namespace TestRunReconciler

/-! ## Requests of a round -/

/-- Is this a create of a request with the key? -/
def createsKey (key : Key) : Op → Bool
  | .create .environmentRequest o => requestKey o = key
  | _ => false

/-- How many creates of requests with the key a round has made. -/
def made (key : Key) (l : Log) : Nat := l.countP fun e => createsKey key e.op

/-- A list of requests without the key. Not finding any counts as the empty list. -/
def Lacks (key : Key) : Except Err (List EnvironmentRequest) → Prop
  | .ok requests => ∀ y ∈ requests, requestKey y ≠ key
  | .error e => e.isNotFound = true

/-! ## The calls of a `Reconcile` -/

/-- The answers a TestRun worker relies on: TestRuns keep their names. -/
def answers : (o : Op) → Ans o → Prop
  | .get .testRun n, .ok x => x.name = n
  | .update .testRun o, .ok x => x.name = o.name
  | .updateStatus .testRun o, .ok x => x.name = o.name
  | _, _ => True

/-- A version of the TestRun the round has heard of. -/
structure Seen (name : String) (l : Log) (x : TestRun) : Prop where
  heard : Heard l .testRun x
  name : x.name = name

/-- A list of requests. -/
def ListsRequests (o : Op) : Prop := ∃ sel, o = .list .environmentRequest sel

/-- The first list of requests of a round decides on creating requests if the TestRun has not completed, and its
    environment is neither unheard of nor failed. -/
structure Deciding (name : String) (l : Log) : Prop where
  running : ∃ x, Seen name l x ∧ x.status.completionTime = none ∧
    findStatusCondition x.status.conditions .environment ≠ none ∧
    isStatusReason x.status.conditions .environment .failed = false
  first : Never ListsRequests l

/-- The requests that were listed when it was decided what to create lack the key. -/
def ListedNone (name : String) (key : Key) (l : Log) : Prop :=
  ∃ later earlier a, l = later ++ ⟨.list .environmentRequest (owned name), a⟩ :: earlier ∧
    Deciding name earlier ∧ Lacks key a

/-- **When a request is created**: it is new and the TestRun controls it, the requests that were listed lack its key,
    and the round has not made all the requests with this key that the TestRun has slots for. -/
structure MayRequest (name : String) (l : Log) (o : EnvironmentRequest) : Prop where
  own : (owned name).matches o.metadata = true
  new : o.name = "" ∧ o.metadata.finalizers = [] ∧ o.status = {}
  slot : ∃ x, Seen name l x ∧ made (requestKey o) l < (slots x.spec).count (requestKey o)
  listed : ListedNone name (requestKey o) l

/-- The round has seen the TestRun completed, and a clock past its retention. -/
structure Expired (name : String) (l : Log) (x : TestRun) (completionTime duration now : Int) : Prop where
  seen : Seen name l x
  completed : x.status.completionTime = some completionTime
  retained : ∃ condition, findStatusCondition x.status.conditions .active = some condition ∧
    retention x condition = some duration
  clock : ⟨.ext .timeNow, now⟩ ∈ l
  past : unixTime completionTime + duration < now

/-- **The calls of a `Reconcile`** of the TestRun `name`. -/
def Permits (name : String) (l : Log) : Op → Prop
  | .get _ _ => True
  | .list _ _ => True
  | .ext _ => True
  | .create .job job => MayCreateJob (.testRun name) l job
  | .create .environmentRequest o => MayRequest name l o
  | .create _ _ => False
  | .update .testRun o => o.name = name ∧ ∃ x, Seen name l x ∧ o.spec = x.spec
  | .update _ _ => False
  | .updateStatus .testRun o => o.name = name
  | .updateStatus _ _ => False
  | .delete .testRun n => n = name ∧ ∃ x t d now, Expired name l x t d now
  | .delete k _ => k ∈ [Kind.job, .environmentRequest]

/-! ## `Reconcile` makes only these calls -/

variable {name : String} {l l' : Log} {x testrun : TestRun}

/-- A program of a TestRun worker makes permitted calls only. -/
abbrev Calls (name : String) {α : Type} (p : M α) (Q : α → Log → Prop) (l : Log) : Prop :=
  Follows answers (Permits name) p Q l

theorem Permits.read {o : Op} (h : IsRead o) : Permits name l o := by
  cases o with
  | get | list | ext => trivial
  | create | update | updateStatus | delete => exact h.elim

theorem Seen.grown {P : Op → Prop} (h : Seen name l x) (hg : Grown P l l') : Seen name l' x := by
  obtain ⟨⟨e, he, ha⟩, hname⟩ := h
  exact ⟨⟨e, hg.mem he, ha⟩, hname⟩

/-- The TestRun in memory: what its conditions and its specification are was heard in this round. -/
structure Memory (name : String) (l : Log) (testrun : TestRun) : Prop where
  seen : ∃ x, Seen name l x ∧ testrun.metadata = x.metadata ∧ testrun.spec = x.spec ∧
    testrun.status.conditions = x.status.conditions ∧ testrun.status.completionTime = x.status.completionTime
  name : testrun.name = name

theorem Memory.grown {P : Op → Prop} (h : Memory name l testrun) (hg : Grown P l l') : Memory name l' testrun := by
  obtain ⟨⟨x, hx, hrest⟩, hname⟩ := h
  exact ⟨⟨x, hx.grown hg, hrest⟩, hname⟩

/-- A call that creates nothing and lists no requests. -/
structure Prepares (o : Op) : Prop where
  noCreate : ∀ k x, o ≠ .create k x
  noList : ¬ ListsRequests o

/-- A call that creates no job. -/
def NoJob (o : Op) : Prop := ¬ CreatesJob o

/-- Nothing has been created in the round, and no requests were listed. -/
abbrev Barren (l : Log) : Prop := Never (fun o => ¬ Prepares o) l

theorem noJob_of_read {o : Op} (h : IsRead o) : NoJob o := by
  rintro ⟨job, rfl⟩
  exact h

theorem prepares_get (k : Kind) (n : String) : Prepares (.get k n) := by
  refine ⟨fun k x hcall => ?_, ?_⟩
  · cases hcall
  · rintro ⟨sel, hcall⟩
    cases hcall

theorem prepares_ext (x : Ext) : Prepares (.ext x) := by
  refine ⟨fun k x hcall => ?_, ?_⟩
  · cases hcall
  · rintro ⟨sel, hcall⟩
    cases hcall

theorem Permits.gets {o : Op} (h : IsGet o) : Permits name l o := .read h.read

theorem IsGet.prepares {o : Op} (h : IsGet o) : Prepares o := by
  obtain ⟨k, n, rfl⟩ := h
  exact prepares_get k n

theorem Barren.cons (h : Barren l) {o : Op} {a : Ans o} (ho : Prepares o) : Barren (⟨o, a⟩ :: l) :=
  Never.cons h fun hn => hn ho

theorem Barren.grown (h : Barren l) (hg : Grown Prepares l l') : Barren l' :=
  hg.never (fun _ ho hn => hn ho) h

theorem Barren.noLists (h : Barren l) : Never ListsRequests l := by
  intro e he hlist
  exact h e he fun hp => hp.noList hlist

theorem Barren.made_eq_zero (h : Barren l) (key : Key) : made key l = 0 := by
  unfold made
  rw [List.countP_eq_zero]
  intro e he hkey
  refine h e he fun hp => ?_
  unfold createsKey at hkey
  split at hkey
  · rename_i o heq
    exact hp.noCreate _ o heq
  · cases hkey

theorem Barren.noJob (h : Barren l) : Never CreatesJob l := by
  intro e he hjob
  obtain ⟨job, hjob⟩ := hjob
  exact h e he fun hp => hp.noCreate .job job hjob

/-! ### Creating requests -/

/-- What `environmentRequest` makes: a request with the key it is asked for, without an owner. -/
theorem environmentRequest_follows (n t : String) (cluster : Cluster) (testrun : TestRun) (tests : List Test)
    (dataset : Option Json) :
    Calls name (environmentRequest n t cluster testrun tests dataset) (fun request l' => Grown IsRead l l' ∧
      requestKey request = ⟨n, t, tests⟩ ∧ request.metadata.ownerReferences = [] ∧
      (request.name = "" ∧ request.metadata.finalizers = [] ∧ request.status = {})) l := by
  refine Follows.call trivial fun _ _ => Follows.call trivial fun _ _ => ?_
  split
  · exact ⟨(Grown.refl.cons trivial).cons trivial, rfl, rfl, rfl, rfl, rfl⟩
  all_goals trivial

theorem made_cons (key : Key) (e : Said Op Ans) (l : Log) :
    made key (e :: l) = made key l + if createsKey key e.op then 1 else 0 := List.countP_cons

theorem made_grown {key : Key} (hg : Grown IsRead l l') : made key l' = made key l := by
  obtain ⟨es, rfl, hes⟩ := hg
  unfold made
  rw [List.countP_append, Nat.add_eq_right, List.countP_eq_zero]
  intro e he hkey
  unfold createsKey at hkey
  split at hkey
  · rename_i o heq
    have hread := hes e he
    rw [heq] at hread
    exact hread
  · cases hkey

/-- The requests that were listed, as the loops see them. -/
def Listed (name : String) (l : Log) (requests : List EnvironmentRequest) : Prop :=
  ∀ key, (∀ y ∈ requests, requestKey y ≠ key) → ListedNone name key l

theorem ListedNone.grown {P : Op → Prop} {key : Key} (h : ListedNone name key l) (hg : Grown P l l') :
    ListedNone name key l' := by
  obtain ⟨later, earlier, a, rfl, hrest⟩ := h
  obtain ⟨es, rfl, _⟩ := hg
  exact ⟨es ++ later, earlier, a, (List.append_assoc ..).symm, hrest⟩

theorem Listed.grown {P : Op → Prop} {requests : List EnvironmentRequest} (h : Listed name l requests)
    (hg : Grown P l l') : Listed name l' requests := fun key hkey => (h key hkey).grown hg

/-- The state of the loops: `budget` bounds the requests made so far, and there is room for those of the slots that
    are still to come. -/
structure Room (name : String) (requests : List EnvironmentRequest) (testrun : TestRun) (budget : Key → Nat)
    (ahead : List Key) (l : Log) : Prop where
  memory : Memory name l testrun
  listed : Listed name l requests
  spent : ∀ key, made key l ≤ budget key
  room : ∀ key, budget key + ahead.count key ≤ (slots testrun.spec).count key

section Room

variable {requests : List EnvironmentRequest} {budget : Key → Nat} {key : Key} {ahead : List Key}

/-- One slot is passed. -/
theorem Room.pass (h : Room name requests testrun budget (key :: ahead) l) :
    Room name requests testrun (fun k => budget k + [key].count k) ahead l := by
  refine ⟨h.memory, h.listed, fun k => Nat.le_add_right_of_le (h.spent k), fun k => ?_⟩
  have hroom := h.room k
  rw [← List.singleton_append, List.count_append] at hroom
  omega

theorem Room.reads (h : Room name requests testrun budget ahead l) (hg : Grown IsRead l l') :
    Room name requests testrun budget ahead l' := by
  refine ⟨h.memory.grown hg, h.listed.grown hg, fun k => ?_, h.room⟩
  rw [made_grown hg]
  exact h.spent k

/-- A request for a slot ahead may be created if none was found. -/
theorem Room.mayRequest {request : EnvironmentRequest} (h : Room name requests testrun budget (key :: ahead) l)
    (hkey : requestKey request = key) (hown : (owned name).matches request.metadata = true)
    (hnew : request.name = "" ∧ request.metadata.finalizers = [] ∧ request.status = {})
    (hnone : ∀ y ∈ requests, requestKey y ≠ key) : MayRequest name l request := by
  subst hkey
  refine ⟨hown, hnew, ?_, ?_⟩
  · obtain ⟨x, hx, _, hspec, _⟩ := h.memory.seen
    refine ⟨x, hx, ?_⟩
    have hspent := h.spent (requestKey request)
    have hroom := h.room (requestKey request)
    rw [List.count_cons_self, hspec] at hroom
    omega
  · exact h.listed _ hnone

/-- Creating it uses the slot up. -/
theorem Room.created {request : EnvironmentRequest} {a : Except Err EnvironmentRequest}
    (h : Room name requests testrun budget (key :: ahead) l) (hkey : requestKey request = key) :
    Room name requests testrun (fun k => budget k + [key].count k) ahead
      (⟨.create .environmentRequest request, a⟩ :: l) := by
  have hg : Grown AnyCall l (⟨.create .environmentRequest request, a⟩ :: l) := Grown.refl.cons trivial
  refine ⟨h.memory.grown hg, h.listed.grown hg, fun k => ?_, h.pass.room⟩
  rw [made_cons, List.count_singleton]
  refine Nat.add_le_add (h.spent k) ?_
  show (if createsKey k (.create .environmentRequest request) = true then 1 else 0) ≤ _
  simp only [createsKey, hkey, decide_eq_true_eq, beq_iff_eq]
  exact Nat.le_refl _

end Room

/-- What the TestRun creates is found among what it owns. -/
theorem owned_matches (n : String) {m : ObjectMeta} (hown : m.ownerReferences = []) :
    (owned n).matches (m.setControllerReference apiGroupVersionString testRunKind n) = true := by
  have hfree : m.hasControllerReference = false := by
    rw [ObjectMeta.hasControllerReference, hown]
    rfl
  unfold owned Selector.matches
  rw [ObjectMeta.controllerOf_setControllerReference hfree]
  simp

theorem createRequests_follows {suite : Suite} {requests : List EnvironmentRequest} {cluster : Cluster}
    {budget : Key → Nat} {ahead : List Key} (order : List String)
    (h : Room name requests testrun budget (order.map (slotKey suite) ++ ahead) l) :
    Calls name (createRequests suite requests testrun cluster order) (fun err l' => Grown NoJob l l' ∧
      (err = none → Room name requests testrun (fun k => budget k + (order.map (slotKey suite)).count k) ahead l'))
      l := by
  induction order generalizing l budget with
  | nil => exact ⟨.refl, fun _ => h⟩
  | cons testrunner rest ih =>
      have hcount : ∀ k, budget k + [slotKey suite testrunner].count k + (rest.map (slotKey suite)).count k =
          budget k + ((testrunner :: rest).map (slotKey suite)).count k := by
        intro k
        rw [Nat.add_assoc, ← List.count_append, List.singleton_append, List.map_cons]
      have hrest : ∀ l₁, Grown NoJob l l₁ → Room name requests testrun
          (fun k => budget k + [slotKey suite testrunner].count k) (rest.map (slotKey suite) ++ ahead) l₁ →
          Calls name (createRequests suite requests testrun cluster rest) (fun err l' => Grown NoJob l l' ∧
            (err = none → Room name requests testrun
              (fun k => budget k + ((testrunner :: rest).map (slotKey suite)).count k) ahead l')) l₁ := by
        intro l₁ hg h₁
        refine (ih h₁).post fun err l₂ ⟨hg₂, hroom⟩ => ⟨hg.trans hg₂, fun he => ?_⟩
        have hr := hroom he
        simp only [hcount] at hr
        exact hr
      unfold createRequests
      split
      · exact hrest l .refl h.pass
      · rename_i hfound
        refine (environmentRequest_follows _ _ _ _ _ _).bind ?_
        rintro request l₁ ⟨hg₁, hkey, hown, hnew⟩
        have hjob₁ : Grown NoJob l l₁ := hg₁.mono fun _ ho => noJob_of_read ho
        have h₁ : Room name requests testrun budget
            (slotKey suite testrunner :: (rest.map (slotKey suite) ++ ahead)) l₁ := h.reads hg₁
        have hnone : ∀ y ∈ requests, requestKey y ≠ slotKey suite testrunner :=
          fun y hy hy' => hfound (requestFound_of_key hy hy')
        have howned := owned_matches testrun.name hown
        nth_rewrite 2 [h.memory.name] at howned
        refine Follows.call (h₁.mayRequest hkey howned hnew hnone) fun a _ => ?_
        have hnojob : ∀ request, NoJob (.create .environmentRequest request) := by
          rintro request ⟨job, hjob⟩
          cases hjob
        cases a with
        | error e => exact ⟨hjob₁.cons (hnojob _), fun he => by cases he⟩
        | ok _ => exact hrest _ (hjob₁.cons (hnojob _)) (h₁.created hkey)

theorem createEnvironmentRequests_follows {suite : Suite} {requests : List EnvironmentRequest} {cluster : Cluster}
    {budget : Key → Nat} {ahead : List Key}
    (h : Room name requests testrun budget (suiteSlots suite ++ ahead) l) :
    Calls name (createEnvironmentRequests suite requests testrun cluster) (fun err l' => Grown NoJob l l' ∧
      (err = none → Room name requests testrun (fun k => budget k + (suiteSlots suite).count k) ahead l')) l := by
  refine Follows.call trivial fun order _ => ?_
  have hg : Grown IsRead l (⟨.ext (.rangeKeys (testrunners suite)), order⟩ :: l) := Grown.refl.cons trivial
  -- the map is ranged over in some order, which does not matter for the counts
  have hperm : ∀ k, (order.val.map (slotKey suite)).count k = (suiteSlots suite).count k :=
    fun k => (order.property.map _).count_eq k
  have h₁ : Room name requests testrun budget (order.val.map (slotKey suite) ++ ahead)
      (⟨.ext (.rangeKeys (testrunners suite)), order⟩ :: l) := by
    obtain ⟨hmemory, hlisted, hspent, hroom⟩ := h.reads hg
    refine ⟨hmemory, hlisted, hspent, fun k => ?_⟩
    have hk := hroom k
    rw [List.count_append] at hk ⊢
    rw [hperm]
    exact hk
  refine (createRequests_follows order.val h₁).post fun err l₂ ⟨hg₂, hroom⟩ => ⟨?_, fun he => ?_⟩
  · exact (hg.mono fun _ ho => noJob_of_read ho).trans hg₂
  · have hr := hroom he
    simp only [hperm] at hr
    exact hr

theorem createForSuites_follows {requests : List EnvironmentRequest} {cluster : Cluster} {budget : Key → Nat}
    (suites : List Suite) (h : Room name requests testrun budget (suites.flatMap suiteSlots) l) :
    Calls name (createForSuites requests testrun cluster suites) (fun _ => Grown NoJob l) l := by
  induction suites generalizing l budget with
  | nil => exact Grown.refl
  | cons suite suites ih =>
      rw [List.flatMap_cons] at h
      refine (createEnvironmentRequests_follows h).bind fun err l₁ ⟨hg₁, hroom⟩ => ?_
      cases err with
      | some e => exact hg₁
      | none => exact (ih (hroom rfl)).post fun _ l₂ hg₂ => hg₁.trans hg₂

/-! ### The TestRun in memory -/

/-- What a step hands on: as long as nothing was written, the TestRun in memory. -/
abbrev Handed (name : String) (l : Log) (out : Outcome) (l' : Log) : Prop :=
  Grown NoJob l l' ∧ out.testrun.name = name ∧
    (out.updated = false → out.err = none → Memory name l' out.testrun)

/-- Setting a condition and going on with the result. -/
theorem setCondition_follows {α : Type} {c : Condition} {f : TestRun × Bool → M α} {Q : α → Log → Prop}
    (h : ∀ now l', Grown IsRead l l' → Calls name (f
      ({ testrun with status :=
          { testrun.status with conditions := (setStatusCondition now c testrun.status.conditions).1 } },
        (setStatusCondition now c testrun.status.conditions).2)) Q l') :
    Calls name (setCondition testrun c >>= f) Q l :=
  Follows.call trivial fun t _ => h (unixSeconds t) _ (Grown.refl.cons trivial)

/-- A condition that does not change leaves the TestRun in memory as it is. -/
theorem Memory.unchanged {now : Int} {c : Condition} (h : Memory name l testrun)
    (hc : (setStatusCondition now c testrun.status.conditions).2 = false) :
    Memory name l { testrun with status :=
      { testrun.status with conditions := (setStatusCondition now c testrun.status.conditions).1 } } := by
  obtain ⟨⟨x, hx, hm, hspec, hcond, htime⟩, hname⟩ := h
  exact ⟨⟨x, hx, hm, hspec, (set_unchanged hc).1.trans hcond, htime⟩, hname⟩

theorem statusUpdate_follows (h : testrun.name = name) :
    Calls name (M.statusUpdate .testRun testrun) (fun out l' => Grown NoJob l l' ∧ out.1.name = name) l := by
  refine Follows.call h fun a ha => ⟨Grown.refl.cons ?_, ?_⟩
  · rintro ⟨job, hjob⟩
    cases hjob
  · cases a with
    | error e => exact h
    | ok y => exact Eq.trans ha h

theorem updated_follows (h : testrun.name = name) : Calls name (updated testrun) (Handed name l) l := by
  refine (statusUpdate_follows h).bind fun out l' ⟨hg, hname⟩ => ⟨hg, hname, fun hu => ?_⟩
  cases hu

/-- Nothing was written, and the TestRun in memory is as it was. -/
theorem Memory.kept {err : Option Err} (h : Memory name l testrun) : Handed name l ⟨testrun, false, err⟩ l :=
  ⟨.refl, h.name, fun _ _ => h⟩

theorem Handed.trans {out : Outcome} {l₁ l₂ : Log} (hg : Grown NoJob l l₁) (h : Handed name l₁ out l₂) :
    Handed name l out l₂ := ⟨hg.trans h.1, h.2⟩

theorem publish_reads (testrun : TestRun) (result : Result) : (publish testrun result).Calls IsRead :=
  ⟨trivial, fun _ => trivial⟩

/-- Programs that read, and delete jobs or requests. -/
def Clears : Op → Prop
  | .delete k _ => k ∈ [Kind.job, .environmentRequest]
  | o => IsRead o

theorem Permits.clears {o : Op} (h : Clears o) : Permits name l o := by
  cases o with
  | delete k n =>
      cases k with
      | testRun => exact absurd (show Kind.testRun ∈ [Kind.job, .environmentRequest] from h) (by decide)
      | environmentRequest | environment | resource | provider | cluster | job | pod => exact h
  | get | list | ext => trivial
  | create | update | updateStatus => exact h.elim

theorem noJob_of_clears {o : Op} (h : Clears o) : NoJob o := by
  rintro ⟨job, rfl⟩
  exact h

theorem clears_follows {α : Type} {p : M α} (h : p.Calls Clears) : Calls name p (fun _ => Grown NoJob l) l :=
  (Follows.grows h fun _ _ => Permits.clears).post fun _ _ hg => hg.mono fun _ => noJob_of_clears

theorem deleteRequests_clears (requests : List EnvironmentRequest) : (deleteRequests requests).Calls Clears := by
  induction requests with
  | nil => trivial
  | cons request rest ih =>
      unfold deleteRequests
      split
      · exact ih
      · refine ⟨show Kind.environmentRequest ∈ [Kind.job, .environmentRequest] by decide, fun a => ?_⟩
        cases a with
        | ok _ => exact ih
        | error e =>
            show Prog.Calls Clears (if _ then _ else _)
            split
            · exact ih
            · trivial

theorem deleteEnvironmentRequests_clears (testrun : TestRun) :
    (deleteEnvironmentRequests testrun).Calls Clears := by
  refine ⟨trivial, fun a => ?_⟩
  cases a with
  | error e =>
      show Prog.Calls Clears (if _ then _ else _)
      split <;> trivial
  | ok requests => exact deleteRequests_clears requests

theorem deleteAll_clears (jobs : List Job) : (JobManager.deleteAll jobs).Calls Clears := by
  refine (JobManager.deleteAll_calls jobs).mono ?_
  rintro _ ⟨n, rfl⟩
  show Kind.job ∈ [Kind.job, .environmentRequest]
  decide

/-! ### The steps of `reconcile` -/

theorem setInconclusive_name (testrun : TestRun) : (setInconclusiveVerdictIfUnset testrun).1.name = testrun.name := by
  rw [setInconclusiveVerdictIfUnset_eq]

theorem failSafe_follows {description : String} {cleanup : M (Option Err)} (h : Memory name l testrun)
    (hc : cleanup.Calls Clears) : Calls name (failSafe testrun description cleanup) (Handed name l) l := by
  refine (obeys_reads (publish_reads _ _) fun _ _ => Permits.read).bind fun _ l₁ hg₁ => ?_
  refine (clears_follows hc).bind fun deleted l₂ hg₂ => ?_
  have hg : Grown NoJob l l₂ := (hg₁.mono fun _ => noJob_of_read).trans hg₂
  show Calls name (if _ then _ else _) _ _
  split
  · refine (statusUpdate_follows ((setInconclusive_name testrun).trans h.name)).bind ?_
    rintro out l₃ ⟨hg₃, hname⟩
    refine ⟨hg.trans hg₃, hname, fun hu => ?_⟩
    cases hu
  · exact ⟨hg, h.name, fun _ _ => h.grown hg⟩

theorem failOnRequest_follows (requests : List EnvironmentRequest) (h : Memory name l testrun) :
    Calls name (failOnRequest testrun requests) (Handed name l) l := by
  induction requests with
  | nil => exact h.kept
  | cons request rest ih =>
      unfold failOnRequest
      split
      · exact ih
      · refine setCondition_follows fun now l₁ hg₁ => ?_
        have hg : Grown NoJob l l₁ := hg₁.mono fun _ => noJob_of_read
        dsimp only
        split
        · refine (updated_follows ?_).post fun _ _ hout => hout.trans hg
          exact (setInconclusive_name _).trans h.name
        · rename_i hsame
          have hmem := (h.grown hg₁).unchanged (by simpa using hsame)
          split
          · exact ⟨hg, hmem.name, fun _ _ => hmem⟩
          · refine Follows.call (show Kind.environmentRequest ∈ _ by decide) fun a _ => ?_
            have hg₂ : Grown NoJob l (⟨.delete .environmentRequest request.name, a⟩ :: l₁) := by
              refine hg.cons ?_
              rintro ⟨job, hjob⟩
              cases hjob
            exact ⟨hg₂, hmem.name, fun _ _ => hmem.grown (Grown.refl.cons (P := AnyCall) trivial)⟩

theorem reconcileRequests_follows {requests : List EnvironmentRequest} (cluster : Cluster)
    (h : Memory name l testrun) (hmade : ∀ key, made key l = 0) (hlisted : Listed name l requests) :
    Calls name (reconcileRequests cluster testrun requests) (Handed name l) l := by
  -- the references to the requests are kept in memory only
  have hmem : Memory name l { testrun with status :=
      { testrun.status with environmentRequests := requests.map requestReference } } := by
    obtain ⟨⟨x, hx, hrest⟩, hname⟩ := h
    exact ⟨⟨x, hx, hrest⟩, hname⟩
  have hroom : Room name requests { testrun with status :=
      { testrun.status with environmentRequests := requests.map requestReference } } (fun _ => 0)
      (testrun.spec.suites.flatMap suiteSlots) l := by
    refine ⟨hmem, hlisted, fun key => Nat.le_of_eq (hmade key), fun key => ?_⟩
    exact Nat.le_of_eq (Nat.zero_add _)
  refine (createForSuites_follows _ hroom).bind fun err l₁ hg₁ => ?_
  cases err with
  | some e => exact ⟨hg₁, hmem.name, fun _ he => by cases he⟩
  | none => exact (failOnRequest_follows _ (hmem.grown hg₁)).post fun _ _ hout => hout.trans hg₁

theorem reconcileEnvironmentRequest_follows (cluster : Cluster) (h : Memory name l testrun) (hb : Barren l)
    (hopen : testrun.status.completionTime = none) :
    Calls name (reconcileEnvironmentRequest cluster testrun) (Handed name l) l := by
  unfold reconcileEnvironmentRequest
  split
  · refine setCondition_follows fun now l₁ hg₁ => ?_
    refine (updated_follows ?_).post fun _ _ hout => hout.trans (hg₁.mono fun _ => noJob_of_read)
    exact h.name
  · rename_i hset
    split
    · exact failSafe_follows h (deleteEnvironmentRequests_clears testrun)
    · rename_i hfailed
      have hdeciding : Deciding name l := by
        obtain ⟨x, hx, _, _, hcond, htime⟩ := h.seen
        refine ⟨⟨x, hx, htime ▸ hopen, ?_, ?_⟩, hb.noLists⟩
        · rw [← hcond]
          exact hset
        · rw [← hcond]
          simpa using hfailed
      have hown : owned testrun.name = owned name := by rw [h.name]
      rw [hown]
      refine Follows.call trivial fun a _ => ?_
      have hg : Grown IsRead l (⟨.list .environmentRequest (owned name), a⟩ :: l) := Grown.refl.cons trivial
      have hjob : Grown NoJob l (⟨.list .environmentRequest (owned name), a⟩ :: l) :=
        hg.mono fun _ => noJob_of_read
      have hmade : ∀ key, made key (⟨.list .environmentRequest (owned name), a⟩ :: l) = 0 := by
        intro key
        rw [made_grown hg]
        exact hb.made_eq_zero key
      cases a with
      | error e =>
          show Calls name (if _ then _ else _) _ _
          split
          · rename_i hnotFound
            refine (reconcileRequests_follows cluster (h.grown hg) hmade ?_).post fun _ _ hout => hout.trans hjob
            exact fun key _ => ⟨[], l, .error e, rfl, hdeciding, hnotFound⟩
          · exact ⟨hjob, h.name, fun _ he => by cases he⟩
      | ok requests =>
          refine (reconcileRequests_follows cluster (h.grown hg) hmade ?_).post fun _ _ hout => hout.trans hjob
          exact fun key hkey => ⟨[], l, .ok requests, rfl, hdeciding, hkey⟩

theorem checkEnvironment_follows (h : Memory name l testrun) :
    Calls name (checkEnvironment testrun) (Handed name l) l := by
  refine Follows.call trivial fun a _ => ?_
  have hg : Grown IsRead l (⟨.list .environment (.label idLabel testrun.spec.id), a⟩ :: l) :=
    Grown.refl.cons trivial
  have hjob := hg.mono fun _ => noJob_of_read
  match a with
  | .error e => exact ⟨hjob, h.name, fun _ he => by cases he⟩
  | .ok [] => exact ⟨hjob, h.name, fun _ _ => h.grown hg⟩
  | .ok (_ :: _) =>
      refine setCondition_follows fun now l₁ hg₁ => ?_
      have hg' := hg.trans hg₁
      dsimp only
      split
      · refine (updated_follows ?_).post fun _ _ hout => hout.trans (hg'.mono fun _ => noJob_of_read)
        exact h.name
      · rename_i hsame
        refine ⟨hg'.mono fun _ => noJob_of_read, h.name, fun _ _ => ?_⟩
        exact (h.grown hg').unchanged (by simpa using hsame)

/-! ### The suite runner -/

/-- A step of which only the name matters. -/
abbrev Named (name : String) (out : Outcome) (_ : Log) : Prop := out.testrun.name = name

theorem updated_named (h : testrun.name = name) : Calls name (updated testrun) (Named name) l :=
  (updated_follows h).post fun _ _ hout => hout.2.1

theorem suiteRunnerFinished_follows {result : Result} {c : Condition} (h : testrun.name = name) :
    Calls name (suiteRunnerFinished testrun result c) (Named name) l := by
  refine setCondition_follows fun now l₁ _ => ?_
  dsimp only
  split
  · refine (obeys_reads (publish_reads _ _) fun _ _ => Permits.read).bind fun _ l₂ _ => ?_
    exact updated_named h
  · exact h

theorem suiteRunnerFailed_follows {manager : JobManager} (h : testrun.name = name) :
    Calls name (suiteRunnerFailed testrun manager) (Named name) l :=
  (obeys_reads (result_reads _ _ _) fun _ _ => Permits.read).bind fun _ _ _ => suiteRunnerFinished_follows h

theorem suiteRunnerSuccessful_follows {manager : JobManager} (h : testrun.name = name) :
    Calls name (suiteRunnerSuccessful testrun manager) (Named name) l := by
  refine (obeys_reads (result_reads _ _ _) fun _ _ => Permits.read).bind fun _ _ _ => ?_
  show Calls name (if _ then _ else _) _ _
  split
  · exact suiteRunnerFinished_follows h
  · exact suiteRunnerFinished_follows h

theorem verdictOrNone_name (testrun : TestRun) : (verdictOrNone testrun).name = testrun.name := by
  unfold verdictOrNone
  split <;> rfl

theorem suiteRunnerActive_follows (h : testrun.name = name) :
    Calls name (suiteRunnerActive testrun) (Named name) l := by
  have hname : (verdictOrNone testrun).name = name := (verdictOrNone_name testrun).trans h
  refine setCondition_follows fun now l₁ _ => ?_
  dsimp only
  split
  · exact updated_named hname
  · split
    · exact updated_named hname
    · exact hname

theorem suiteRunnerNotCreated_follows {err : Err} (h : testrun.name = name) :
    Calls name (suiteRunnerNotCreated testrun err) (Named name) l := by
  have hrest : ∀ (t : TestRun) (changed : Bool) l, t.name = name → Calls name
      (if changed then do
          publish t { conclusion := conclusionFailed, verdict := verdictInconclusive,
                      description := "Failed to create suite runner job: " ++ err.text }
          updated (setInconclusiveVerdictIfUnset t).1
        else if (setInconclusiveVerdictIfUnset t).2 then updated (setInconclusiveVerdictIfUnset t).1
        else return ⟨t, false, some err⟩) (Named name) l := by
    intro t changed l ht
    have hname : (setInconclusiveVerdictIfUnset t).1.name = name := (setInconclusive_name t).trans ht
    split
    · refine (obeys_reads (publish_reads _ _) fun _ _ => Permits.read).bind fun _ _ _ => ?_
      exact updated_named hname
    · split
      · exact updated_named hname
      · exact ht
  unfold suiteRunnerNotCreated setUnlessFailed
  split
  · exact hrest testrun false l h
  · refine setCondition_follows fun now l₁ _ => ?_
    exact hrest _ _ l₁ h

/-- `suiteRunnerJob` makes a job that the TestRun controls. -/
theorem suiteRunnerJob_follows (hname : testrun.name = name) :
    Calls name (suiteRunnerJob testrun) (fun out l' => Grown IsRead l l' ∧
      ∀ job, out = .ok job → (Worker.testRun name).selector.matches job.metadata = true) l := by
  refine Follows.call trivial fun a _ => ?_
  have hg : Grown IsRead l (⟨.get .cluster testrun.spec.cluster, a⟩ :: l) := Grown.refl.cons trivial
  cases a with
  | error e =>
      refine ⟨hg, fun job hjob => ?_⟩
      cases hjob
  | ok cluster =>
      split
      · trivial
      · split
        · trivial
        · refine ⟨hg, fun job hjob => ?_⟩
          cases hjob
          rw [hname]
          exact owned_matches name rfl

theorem suiteRunnerMissing_follows {l₀ : Log} (h : Memory name l₀ testrun) (hjobs : Never CreatesJob l)
    (hlist : l = ⟨.list .job (Worker.testRun name).selector, .ok []⟩ :: l₀) :
    Calls name (suiteRunnerMissing testrun) (Named name) l := by
  unfold suiteRunnerMissing
  split
  · exact h.name
  split
  · exact h.name
  rename_i hstarting
  -- the job is created on behalf of a version that is not marked as starting
  have hnone : FoundNone (.testRun name) l := by
    obtain ⟨x, hx, _, _, hcond, _⟩ := h.seen
    refine ⟨[], l₀, hlist, x, hx.heard, hx.name, ?_⟩
    rw [← hcond]
    simpa using hstarting
  have hcreate : Calls name (JobManager.create (suiteRunnerJob testrun)) (fun _ _ => True) l := by
    refine create_obeys (suiteRunnerJob_follows (l := l) h.name) (fun _ _ _ _ => trivial) ?_
    rintro job l₁ ⟨hg₁, hown⟩
    have hmay : MayCreateJob (.testRun name) l₁ job :=
      ⟨hown job rfl, hnone.grown hg₁, hg₁.never (fun _ => IsRead.not_createsJob) hjobs⟩
    exact ⟨hmay, fun _ => trivial⟩
  refine hcreate.bind fun err l₁ _ => ?_
  cases err with
  | some err => exact suiteRunnerNotCreated_follows h.name
  | none =>
      refine setCondition_follows fun now l₂ _ => ?_
      dsimp only
      split
      · exact updated_named h.name
      · exact h.name

theorem reconcileSuiteRunner_follows {manager : JobManager} {jobStatus : JobStatus} {l₀ : Log}
    (h : Memory name l₀ testrun) (hg : Grown IsRead l₀ l) (hjobs : Never CreatesJob l)
    (hnone : jobStatus = .none → l = ⟨.list .job (Worker.testRun name).selector, .ok []⟩ :: l₀) :
    Calls name (reconcileSuiteRunner testrun manager jobStatus) (Named name) l := by
  unfold reconcileSuiteRunner
  split
  · exact setCondition_follows fun now l₁ _ => updated_named h.name
  split
  · have hclears : Prog.Calls Clears (do
        let jobsDeleted ← manager.delete
        let requestsDeleted ← deleteEnvironmentRequests testrun
        return Err.join jobsDeleted requestsDeleted) :=
      (deleteAll_clears _).bind fun _ => (deleteEnvironmentRequests_clears testrun).bind fun _ => trivial
    exact (failSafe_follows (h.grown hg) hclears).post fun _ _ hout => hout.2.1
  split
  · exact h.name
  · cases jobStatus with
    | failed => exact suiteRunnerFailed_follows h.name
    | successful => exact suiteRunnerSuccessful_follows h.name
    | active => exact suiteRunnerActive_follows h.name
    | none => exact suiteRunnerMissing_follows h hjobs (hnone rfl)

/-! ### The rest of `Reconcile` -/

theorem activeChanged_follows {c : Condition} (h : testrun.name = name) :
    Calls name (activeChanged testrun c) (Named name) l := by
  unfold activeChanged
  split
  · exact (obeys_reads metaNow_reads fun _ _ => Permits.read).bind fun _ _ _ => updated_named h
  · exact updated_named h

theorem activeUnchanged_follows {c : Condition} (h : testrun.name = name) :
    Calls name (activeUnchanged testrun c) (Named name) l := by
  unfold activeUnchanged
  split
  · exact updated_named ((setInconclusive_name testrun).trans h)
  · exact h

theorem reconcileActiveStatus_follows (h : testrun.name = name) :
    Calls name (reconcileActiveStatus testrun) (Named name) l := by
  unfold reconcileActiveStatus
  split
  · exact setCondition_follows fun now l₁ _ => updated_named ((verdictOrNone_name _).trans h)
  · split
    · exact h
    · refine setCondition_follows fun now l₁ _ => ?_
      dsimp only
      split
      · exact activeChanged_follows h
      · exact activeUnchanged_follows h

theorem providersFailed_follows {err : Err} (h : testrun.name = name) :
    Calls name (providersFailed testrun err) (fun out _ => out.1.name = name) l := by
  refine setCondition_follows fun now l₁ _ => ?_
  dsimp only
  split
  · refine (statusUpdate_follows ?_).bind fun out l₂ hout => hout.2
    exact (setInconclusive_name _).trans h
  · exact h

/-- Going on after a step that has written nothing. -/
theorem andThen_follows {step : M Outcome} {rest : TestRun → M (TestRun × Option Err)} {P : Outcome → Log → Prop}
    (hstep : Calls name step P l) (hname : ∀ out l', P out l' → out.testrun.name = name)
    (hrest : ∀ out l', P out l' → out.updated = false → out.err = none →
      Calls name (rest out.testrun) (fun out _ => out.1.name = name) l') :
    Calls name (andThen step rest) (fun out _ => out.1.name = name) l := by
  refine hstep.bind fun out l' h => ?_
  show Calls name (if _ then _ else _) _ _
  split
  · exact hname out l' h
  · rename_i hgo
    rw [Bool.or_eq_true, not_or] at hgo
    exact hrest out l' h (by simpa using hgo.1) (by simpa using hgo.2)

theorem reconcile_follows (cluster : Cluster) (h : Memory name l testrun) (hb : Barren l)
    (hopen : testrun.status.completionTime = none) :
    Calls name (reconcile cluster testrun) (fun out _ => out.1.name = name) l := by
  refine (Follows.grows (checkProviders_gets _) fun _ _ => Permits.gets).bind fun err l₁ hg₁ => ?_
  cases err with
  | some err => exact providersFailed_follows h.name
  | none =>
      have hb₁ : Barren l₁ := hb.grown (hg₁.mono fun _ => IsGet.prepares)
      refine andThen_follows (reconcileEnvironmentRequest_follows cluster (h.grown hg₁) hb₁ hopen)
        (fun _ _ hout => hout.2.1) ?_
      rintro out₂ l₂ ⟨hg₂, _, hmem₂⟩ hu₂ he₂
      refine andThen_follows (checkEnvironment_follows (hmem₂ hu₂ he₂)) (fun _ _ hout => hout.2.1) ?_
      rintro out₃ l₃ ⟨hg₃, _, hmem₃⟩ hu₃ he₃
      have h₃ := hmem₃ hu₃ he₃
      have hjobs₃ : Never CreatesJob l₃ := (hg₂.trans hg₃).never (fun _ ho => ho) hb₁.noJob
      refine (status_obeys (jobManager out₃.testrun) trivial).bind ?_
      rintro ⟨manager, jobStatus⟩ l₄ ⟨hg₄, hstatus⟩
      cases jobStatus with
      | error e => exact h₃.name
      | ok jobStatus =>
          obtain ⟨jobs, hlist, _, hsum⟩ := hstatus jobStatus rfl
          have hjobs₄ : Never CreatesJob l₄ := hg₄.never (fun _ => IsRead.not_createsJob) hjobs₃
          refine andThen_follows (reconcileSuiteRunner_follows h₃ hg₄ hjobs₄ ?_) (fun _ _ hout => hout) ?_
          · rintro rfl
            obtain rfl := JobManager.summary_none hsum
            have hsel : (jobManager out₃.testrun).selector = (Worker.testRun name).selector := by
              show owned out₃.testrun.name = owned name
              rw [h₃.name]
            rw [← hsel]
            exact hlist
          · intro out₅ l₅ hname₅ _ _
            refine andThen_follows (reconcileActiveStatus_follows hname₅) (fun _ _ hout => hout) ?_
            exact fun out₆ l₆ hname₆ _ _ => hname₆

/-- The TestRun is deleted only when it has expired. -/
theorem reconcileCompleted_follows {t : Int} (h : Memory name l testrun)
    (hc : testrun.status.completionTime = some t) :
    Calls name (reconcileCompleted testrun t) (fun _ _ => True) l := by
  refine (status_obeys (jobManager testrun) trivial).bind ?_
  rintro ⟨manager, jobStatus⟩ l₁ ⟨hg₁, -⟩
  cases jobStatus with
  | error e => trivial
  | ok _ =>
      refine (clears_follows (deleteAll_clears _)).bind fun _ l₂ hg₂ => ?_
      refine (clears_follows (deleteEnvironmentRequests_clears testrun)).bind fun _ l₃ hg₃ => ?_
      obtain ⟨x, hx, -, hspec, hconditions, hcompletion⟩ := h.seen
      have hseen : Seen name l₃ x := ((hx.grown hg₁).grown hg₂).grown hg₃
      split
      · trivial
      · rename_i condition hcondition
        cases hretention : retention testrun condition with
        | none => trivial
        | some duration =>
            refine Follows.call trivial fun now _ => ?_
            show Calls name (if _ then _ else _) _ _
            split
            · rename_i hpast
              have hretained : retention x condition = some duration := by
                unfold retention at hretention ⊢
                rwa [← hspec]
              have hexpired : Expired name (⟨.ext .timeNow, now⟩ :: l₃) x t duration now :=
                ⟨hseen.grown (Grown.refl.cons (P := AnyCall) trivial), hcompletion.symm.trans hc,
                  ⟨condition, hconditions ▸ hcondition, hretained⟩, List.mem_cons_self, hpast⟩
              exact Follows.call ⟨h.name, x, t, duration, now, hexpired⟩ fun _ _ => trivial
            · exact Follows.call trivial fun _ _ => trivial

theorem deadlineExceeded_follows (r : TestRunReconciler) (h : testrun.name = name) :
    Calls name (r.deadlineExceeded testrun) (fun _ _ => True) l := by
  refine setCondition_follows fun now l₁ _ => ?_
  dsimp only
  split
  · refine (obeys_reads metaNow_reads fun _ _ => Permits.read).bind fun _ l₂ _ => ?_
    refine (obeys_reads (publish_reads _ _) fun _ _ => Permits.read).bind fun _ l₃ _ => ?_
    refine (statusUpdate_follows ?_).bind fun _ _ _ => trivial
    exact (setInconclusive_name _).trans h
  · split
    · refine (statusUpdate_follows ?_).bind fun _ _ _ => trivial
      exact (setInconclusive_name _).trans h
    · trivial

theorem checkDeadline_follows (r : TestRunReconciler) (h : testrun.name = name) :
    Calls name (r.checkDeadline testrun) (fun _ _ => True) l := by
  unfold checkDeadline
  split
  · trivial
  · refine Follows.call trivial fun now _ => ?_
    show Calls name (if _ then _ else _) _ _
    split
    · exact r.deadlineExceeded_follows h
    · exact Follows.call trivial fun _ _ => trivial

theorem reconcileRunning_follows (r : TestRunReconciler) (h : Memory name l testrun) (hb : Barren l)
    (hopen : testrun.status.completionTime = none) :
    Calls name (r.reconcileRunning testrun) (fun _ _ => True) l := by
  refine Follows.call trivial fun a _ => ?_
  have hg₁ : Grown IsRead l (⟨.get .cluster testrun.spec.cluster, a⟩ :: l) := Grown.refl.cons trivial
  cases a with
  | error e => trivial
  | ok cluster =>
      simp only [Prog.bind]
      split
      · trivial
      rename_i etosMessageBus _
      unfold getPublisher
      split
      · trivial
      · refine Follows.call trivial fun a _ => ?_
        have hg₂ : Grown IsRead l (⟨.ext (.getPublisher etosMessageBus), a⟩ ::
            ⟨.get .cluster testrun.spec.cluster, .ok cluster⟩ :: l) := hg₁.cons trivial
        cases a with
        | error e => trivial
        | ok _ =>
            refine (reconcile_follows cluster (h.grown hg₂) ?_ hopen).bind ?_
            · exact (hb.cons (prepares_get .cluster _)).cons (prepares_ext (.getPublisher etosMessageBus))
            rintro ⟨testrun', err⟩ l₃ hname
            cases err with
            | some e =>
                show Calls name (if _ then _ else _) _ _
                split <;> trivial
            | none => exact r.checkDeadline_follows hname

theorem maybeAddTraceparentLabel_follows (r : TestRunReconciler) (h : Memory name l testrun) (hb : Barren l) :
    Calls name (r.maybeAddTraceparentLabel testrun)
      (fun out l' => Barren l' ∧ (out.2 = none → Memory name l' out.1)) l := by
  unfold maybeAddTraceparentLabel
  split
  · exact ⟨hb, fun _ => h⟩
  split
  · exact ⟨hb, fun _ => h⟩
  · refine Follows.call trivial fun span _ => ?_
    have hseen : ∃ x, Seen name (⟨.ext .startSpan, span⟩ :: l) x ∧ testrun.spec = x.spec := by
      obtain ⟨x, hx, _, hspec, _⟩ := h.seen
      exact ⟨x, hx.grown (Grown.refl.cons (P := AnyCall) trivial), hspec⟩
    refine Follows.call ⟨h.name, hseen⟩ fun a ha => ?_
    have hupdate : ∀ o : TestRun, Prepares (.update .testRun o) := by
      refine fun o => ⟨fun k x hcall => ?_, ?_⟩
      · cases hcall
      · rintro ⟨sel, hcall⟩
        cases hcall
    refine ⟨(hb.cons (prepares_ext .startSpan)).cons (hupdate _), fun herr => ?_⟩
    cases a with
    | error e => cases herr
    | ok y =>
        have hname : y.name = name := Eq.trans ha h.name
        exact ⟨⟨y, ⟨⟨_, List.mem_cons_self, .update⟩, hname⟩, rfl, rfl, rfl, rfl⟩, hname⟩

/-- **`Reconcile` of a TestRun** makes only the calls listed above. -/
theorem Reconcile_follows (r : TestRunReconciler) (name : String) :
    Calls name (r.Reconcile name) (fun _ _ => True) [] := by
  refine Follows.call trivial fun a ha => ?_
  cases a with
  | error e =>
      show Calls name (if _ then _ else _) _ _
      split <;> trivial
  | ok x =>
      have hname : x.name = name := ha
      have h : Memory name [⟨.get .testRun name, .ok x⟩] x :=
        ⟨⟨x, ⟨⟨_, List.mem_cons_self, .get⟩, hname⟩, rfl, rfl, rfl, rfl⟩, hname⟩
      have hb : Barren [(⟨.get .testRun name, .ok x⟩ : Said Op Ans)] :=
        Barren.cons Never.nil (prepares_get .testRun name)
      refine (r.maybeAddTraceparentLabel_follows h hb).bind ?_
      rintro ⟨testrun, err⟩ l₁ ⟨hb₁, hmem⟩
      cases err with
      | some e => trivial
      | none =>
          dsimp only
          split
          · rename_i hcompleted
            exact reconcileCompleted_follows (hmem rfl) hcompleted
          · rename_i hopen
            exact r.reconcileRunning_follows (hmem rfl) hb₁ hopen

end TestRunReconciler

end Etos
