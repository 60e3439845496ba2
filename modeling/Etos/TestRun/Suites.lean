import Etos.Prog.Paths
import Etos.TestRun.Slots
import Etos.TestRun.Runs
import Etos.Webhook.Defaulter

/-!
# `TestRun.Suites` — does every suite get its requests?

A *pass* is one run of `reconcileEnvironmentRequest` against the requests of its TestRun: it lists them, up to date, and
creates the ones that are missing. A create may fail, and ends the pass there; the next pass starts from what is left
(`Leftover`).

Whether a request is missing is decided by a prefix test, and a suite may take the request of an earlier suite for its
own. If the pass in which its own request was to be created failed, it then never gets one
(`shadowed_suite`). This happens exactly if the suites cannot be told apart (**`suites_requested_iff`**). If they can,
what passes leave is always a first part of the slots (`Stage`), and a pass without a failure completes it.

## Contents
- **Passes.** `Served`, the calls of a pass on the requests; `RequestsPass`, `Leftover`.
- **Suites that can be told apart.** The loops, and what a pass leaves.
- **Suites that cannot.** A pass that fails, and one that does not make up for it.
-/

namespace Etos

open Kube TestRunReconciler

/-! ## Passes -/

/-- What becomes of a new request: the server names it, and the webhook fills in what is missing. -/
def admittedRequest (o : EnvironmentRequest) (n id : String) (now : Int) : EnvironmentRequest :=
  { o with
    metadata := { o.metadata with name := n }
    spec := o.spec.defaulted id now }

/-- An up-to-date list of requests. Their states are left open. -/
def UpToDate (R requests : List EnvironmentRequest) : Prop :=
  (requests.map fun y => (y.name, y.spec)).Perm (R.map fun y => (y.name, y.spec))

/-- The calls that depend on the requests, or change them. -/
def OnRequests : Op → Prop
  | .list .environmentRequest _ => True
  | .create .environmentRequest _ => True
  | .update .environmentRequest _ => True
  | .updateStatus .environmentRequest _ => True
  | .delete .environmentRequest _ => True
  | _ => False

/-- The calls of a pass, on the requests of the TestRun `name`. If the server is not `reliable`, lists and creates may
    fail, and a create that fails may have been carried out. -/
inductive Served (name : String) (reliable : Bool) :
    List EnvironmentRequest → (o : Op) → Ans o → List EnvironmentRequest → Prop where
  | list {R requests} (h : UpToDate R requests) :
      Served name reliable R (.list .environmentRequest (owned name)) (.ok requests) R
  | noneFound {e} (h : Err.isNotFound e = true) :
      Served name reliable [] (.list .environmentRequest (owned name)) (.error e) []
  | notListed {R e} (hr : reliable = false) (h : Err.isNotFound e = false) :
      Served name reliable R (.list .environmentRequest (owned name)) (.error e) R
  | created {R o n id now} :
      Served name reliable R (.create .environmentRequest o) (.ok (admittedRequest o n id now))
        (R ++ [admittedRequest o n id now])
  | notCreated {R o e} (hr : reliable = false) : Served name reliable R (.create .environmentRequest o) (.error e) R
  | lost {R o n id now e} (hr : reliable = false) :
      Served name reliable R (.create .environmentRequest o) (.error e) (R ++ [admittedRequest o n id now])
  | deleted {R n} : Served name reliable R (.delete .environmentRequest n) (.ok ()) (R.filter (·.name ≠ n))
  | notDeleted {R n e} : Served name reliable R (.delete .environmentRequest n) (.error e) R
  | elsewhere {R o a} (h : ¬ OnRequests o) : Served name reliable R o a R

/-- A TestRun with these suites that looks after its requests: its environment is neither unheard of nor failed. -/
structure Looks (name : String) (suites : List Suite) (testrun : TestRun) : Prop where
  name : testrun.name = name
  suites : testrun.spec.suites = suites
  heard : findStatusCondition testrun.status.conditions .environment ≠ none
  sound : isStatusReason testrun.status.conditions .environment .failed = false

/-- A pass that starts with the requests `R` and returns with the requests `R'`. -/
def RequestsPass (name : String) (reliable : Bool) (suites : List Suite) (R R' : List EnvironmentRequest) : Prop :=
  ∃ cluster testrun, Looks name suites testrun ∧
    (reconcileEnvironmentRequest cluster testrun).Can (Served name reliable) (fun _ R'' => R'' = R') R

/-- The requests that passes with failures may have left. -/
inductive Leftover (name : String) (suites : List Suite) : List EnvironmentRequest → Prop where
  | none : Leftover name suites []
  | pass {R R'} (h : Leftover name suites R) (hp : RequestsPass name false suites R R') : Leftover name suites R'

/-- Every slot has exactly one request. -/
def Requested (suites : List Suite) (R : List EnvironmentRequest) : Prop :=
  (R.map requestKey).Perm (suites.flatMap suiteSlots)

/-- **Every suite gets its requests**: whatever earlier passes have left, after a pass without a failure every slot has
    exactly one request, and a further pass creates nothing. -/
def SuitesRequested (suites : List Suite) : Prop :=
  ∀ name R R', Leftover name suites R → RequestsPass name true suites R R' →
    Requested suites R' ∧ ∀ R'', RequestsPass name false suites R' R'' → R'' = R'

/-! ## What a pass leaves -/

/-- The slots have been gone through up to some suite. -/
def Stage (suites : List Suite) (keys : List Key) : Prop :=
  ∃ i, (∀ k ∈ (suites.take i).flatMap suiteSlots, k ∈ keys) ∧
    ∀ k ∈ keys, k ∈ (suites.take (i + 1)).flatMap suiteSlots

section Stage

variable {suites pre post : List Suite} {suite : Suite} {keys keys' : List Key} {key : Key}

theorem slots_take_mono {i j : Nat} (h : i ≤ j) (hk : key ∈ (suites.take i).flatMap suiteSlots) :
    key ∈ (suites.take j).flatMap suiteSlots := by
  obtain ⟨suite, hsuite, hkey⟩ := List.mem_flatMap.mp hk
  exact List.mem_flatMap.mpr ⟨suite, List.take_subset_take_left suites h hsuite, hkey⟩

theorem Stage.subset (h : Stage suites keys) : ∀ k ∈ keys, k ∈ suites.flatMap suiteSlots := by
  obtain ⟨i, _, hpart⟩ := h
  intro k hk
  obtain ⟨suite, hsuite, hkey⟩ := List.mem_flatMap.mp (hpart k hk)
  exact List.mem_flatMap.mpr ⟨suite, List.take_subset _ _ hsuite, hkey⟩

/-- Of two stages one is the later one. -/
theorem Stage.union (h : Stage suites keys) (h' : Stage suites keys') {both : List Key}
    (hboth : ∀ k, k ∈ both ↔ k ∈ keys ∨ k ∈ keys') : Stage suites both := by
  obtain ⟨i, hdone, hpart⟩ := h
  obtain ⟨j, hdone', hpart'⟩ := h'
  rcases Nat.le_total i j with hij | hij
  · refine ⟨j, fun k hk => (hboth k).mpr (.inr (hdone' k hk)), fun k hk => ?_⟩
    rcases (hboth k).mp hk with hk | hk
    · exact slots_take_mono (Nat.succ_le_succ hij) (hpart k hk)
    · exact hpart' k hk
  · refine ⟨i, fun k hk => (hboth k).mpr (.inl (hdone k hk)), fun k hk => ?_⟩
    rcases (hboth k).mp hk with hk | hk
    · exact hpart k hk
    · exact slots_take_mono (Nat.succ_le_succ hij) (hpart' k hk)

/-- The stage in the middle of a suite. -/
theorem Stage.within (hsplit : suites = pre ++ suite :: post) {part : List Key}
    (hpart : ∀ k ∈ part, k ∈ suiteSlots suite) : Stage suites (pre.flatMap suiteSlots ++ part) := by
  refine ⟨pre.length, fun k hk => ?_, fun k hk => ?_⟩
  · rw [hsplit, List.take_left] at hk
    exact List.mem_append_left _ hk
  · have htake : suites.take (pre.length + 1) = pre ++ [suite] := by
      rw [hsplit, List.take_length_add_append]
      rfl
    rw [htake, List.flatMap_append, List.flatMap_singleton]
    rcases List.mem_append.mp hk with hk | hk
    · exact List.mem_append_left _ hk
    · exact List.mem_append_right _ (hpart k hk)

/-- **The prefix test is right.** At any stage, if the suites can be told apart, a suite that finds a request for its
    test runner finds its own. -/
theorem Stage.honest (h : Stage suites keys) (hd : Distinguishable suites) (hsplit : suites = pre ++ suite :: post)
    {r : String} (hr : r ∈ testrunners suite) (hk : key ∈ keys) (hclaims : Claims suite r key) :
    slotKey suite r ∈ keys := by
  obtain ⟨i, hdone, hpart⟩ := h
  have htake : suites.take (pre.length + 1) = pre ++ [suite] := by
    rw [hsplit, List.take_length_add_append]
    rfl
  rcases Nat.lt_or_ge pre.length i with hi | hi
  · -- the suite was gone through
    refine hdone _ (slots_take_mono hi ?_)
    rw [htake, List.flatMap_append, List.flatMap_singleton]
    exact List.mem_append_right _ (mem_suiteSlots.mpr ⟨r, hr, rfl⟩)
  · -- the suites up to this one were gone through at most
    have hmem := slots_take_mono (Nat.succ_le_succ hi) (hpart key hk)
    rw [htake, List.flatMap_append, List.flatMap_singleton] at hmem
    rcases List.mem_append.mp hmem with hmem | hmem
    · obtain ⟨earlier, hearlier, hslot⟩ := List.mem_flatMap.mp hmem
      obtain ⟨r', hr', rfl⟩ := mem_suiteSlots.mp hslot
      have hrunner : r' = r := hclaims.2
      subst hrunner
      rw [hsplit] at hd
      have htell := (List.pairwise_append.mp hd).2.2 earlier hearlier suite List.mem_cons_self
      exact absurd hclaims (htell r' hr' hr)
    · obtain ⟨r', hr', rfl⟩ := mem_suiteSlots.mp hmem
      have hrunner : r' = r := hclaims.2
      subst hrunner
      exact hk

end Stage

/-! ## The loops -/

section Loops

variable {name : String} {reliable : Bool} {testrun : TestRun} {cluster : Cluster}
  {R₀ R R' requests : List EnvironmentRequest} {done : List Key}

/-- What holds wherever a part of a pass returns. -/
abbrev Passes (name : String) (reliable : Bool) {α : Type} (p : M α) (Q : α → List EnvironmentRequest → Prop)
    (R : List EnvironmentRequest) : Prop :=
  Safe Eq (Served name reliable) (fun _ _ _ _ => True) p Q R

theorem Served.eq_of_elsewhere {o : Op} {a : Ans o} (h : Served name reliable R o a R') (ho : ¬ OnRequests o) :
    R' = R := by
  cases h with
  | elsewhere => rfl
  | list | noneFound | notListed | created | notCreated | lost | deleted | notDeleted => exact absurd trivial ho

/-- A call that has nothing to do with the requests. -/
theorem Passes.elsewhere {α : Type} {o : Op} {k : Ans o → M α} {Q : α → List EnvironmentRequest → Prop}
    (ho : ¬ OnRequests o) (h : ∀ a, Passes name reliable (k a) Q R) : Passes name reliable (.call o k) Q R := by
  rintro _ rfl a R' hs
  obtain rfl := hs.eq_of_elsewhere ho
  exact ⟨trivial, h a⟩

theorem environmentRequest_passes (n t : String) (tests : List Test) (dataset : Option Json) :
    Passes name reliable (environmentRequest n t cluster testrun tests dataset)
      (fun request R' => R' = R ∧ requestKey request = ⟨n, t, tests⟩) R := by
  refine .elsewhere (o := .ext .timeNow) id fun _ => .elsewhere (o := .ext .newUUID) id fun _ => ?_
  split
  · exact ⟨rfl, rfl⟩
  all_goals trivial

/-- In the middle of a pass that has started with `R₀`: there are requests for what was there and what was done. -/
structure Between (R₀ : List EnvironmentRequest) (done : List Key) (R : List EnvironmentRequest) : Prop where
  grown : ∃ extra, R = R₀ ++ extra
  nodup : (R.map requestKey).Nodup
  keys : ∀ k, k ∈ R.map requestKey ↔ k ∈ R₀.map requestKey ∨ k ∈ done

theorem Between.start (h : (R.map requestKey).Nodup) : Between R [] R :=
  ⟨⟨[], (List.append_nil R).symm⟩, h, fun k => by simp⟩

theorem Between.congr {done' : List Key} (h : Between R₀ done R) (hd : ∀ k, k ∈ done ↔ k ∈ done') :
    Between R₀ done' R := ⟨h.grown, h.nodup, fun k => by rw [h.keys k, hd k]⟩

/-- A slot is passed over. -/
theorem Between.skip {key : Key} (h : Between R₀ done R) (hk : key ∈ R₀.map requestKey) :
    Between R₀ (done ++ [key]) R := by
  refine ⟨h.grown, h.nodup, fun k => ?_⟩
  rw [h.keys k, List.mem_append, List.mem_singleton]
  constructor
  · exact fun hold => hold.imp_right .inl
  · rintro (hold | hold | rfl)
    · exact .inl hold
    · exact .inr hold
    · exact .inl hk

/-- A slot gets its request. -/
theorem Between.create {key : Key} {x : EnvironmentRequest} (h : Between R₀ done R) (hx : requestKey x = key)
    (hold : key ∉ R₀.map requestKey) (hdone : key ∉ done) : Between R₀ (done ++ [key]) (R ++ [x]) := by
  have hnew : key ∉ R.map requestKey := by
    rw [h.keys key]
    exact not_or.mpr ⟨hold, hdone⟩
  obtain ⟨extra, hextra⟩ := h.grown
  refine ⟨⟨extra ++ [x], by rw [hextra, List.append_assoc]⟩, ?_, fun k => ?_⟩
  · rw [List.map_append, List.map_singleton, hx]
    refine h.nodup.append (List.nodup_singleton _) ?_
    rwa [List.disjoint_singleton]
  · rw [List.map_append, List.map_singleton, hx, List.mem_append, List.mem_append, h.keys k, or_assoc]

theorem requestKey_admitted (o : EnvironmentRequest) (n id : String) (now : Int) :
    requestKey (admittedRequest o n id now) = requestKey o := rfl

/-- The loop over the test runners of a suite. A failed create ends it. -/
theorem createRequests_passes {suite : Suite} (order : List String)
    (hhonest : ∀ r ∈ order, requestFound suite r requests = true → slotKey suite r ∈ R₀.map requestKey)
    (hlisted : ∀ k ∈ R₀.map requestKey, ∃ y ∈ requests, requestKey y = k)
    (hnodup : (done ++ order.map (slotKey suite)).Nodup) (h : Between R₀ done R) :
    Passes name reliable (createRequests suite requests testrun cluster order) (fun err R' =>
      ∃ part, (∀ k ∈ part, k ∈ order.map (slotKey suite)) ∧ Between R₀ (done ++ part) R' ∧
        (err = none → part = order.map (slotKey suite)) ∧ (reliable = true → err = none)) R := by
  induction order generalizing R done with
  | nil => exact ⟨[], fun k hk => absurd hk List.not_mem_nil, by rwa [List.append_nil], fun _ => rfl, fun _ => rfl⟩
  | cons r rest ih =>
      have hassoc : done ++ (r :: rest).map (slotKey suite) =
          (done ++ [slotKey suite r]) ++ rest.map (slotKey suite) := by
        rw [List.map_cons, List.append_assoc]
        rfl
      rw [hassoc] at hnodup
      -- the slots that are left, once this one has been dealt with
      have hrest : ∀ R, Between R₀ (done ++ [slotKey suite r]) R →
          Passes name reliable (createRequests suite requests testrun cluster rest) (fun err R' =>
            ∃ part, (∀ k ∈ part, k ∈ (r :: rest).map (slotKey suite)) ∧ Between R₀ (done ++ part) R' ∧
              (err = none → part = (r :: rest).map (slotKey suite)) ∧ (reliable = true → err = none)) R := by
        intro R hR
        refine (ih (fun r' hr' => hhonest r' (List.mem_cons_of_mem _ hr')) hnodup hR).post ?_
        rintro err R' ⟨part, hpart, hbetween, hall, hrel⟩
        refine ⟨slotKey suite r :: part, fun k hk => ?_, ?_, fun he => ?_, hrel⟩
        · rcases List.mem_cons.mp hk with rfl | hk
          · exact List.mem_cons_self
          · exact List.mem_cons_of_mem _ (hpart k hk)
        · rw [List.append_assoc] at hbetween
          exact hbetween
        · rw [hall he, List.map_cons]
      unfold createRequests
      split
      · rename_i hfound
        exact hrest R (h.skip (hhonest r List.mem_cons_self hfound))
      · rename_i hfound
        have hold : slotKey suite r ∉ R₀.map requestKey := by
          intro hk
          obtain ⟨y, hy, hkey⟩ := hlisted _ hk
          exact hfound (requestFound_of_key hy hkey)
        have hdone : slotKey suite r ∉ done := by
          have hfirst := (List.nodup_append.mp (List.nodup_append.mp hnodup).1).2.2
          exact fun hk => hfirst _ hk _ (List.mem_singleton_self _) rfl
        refine (environmentRequest_passes _ _ _ _).bind ?_
        rintro request _ ⟨rfl, hkey⟩
        have hkey' : requestKey { request with metadata :=
            request.metadata.setControllerReference apiGroupVersionString testRunKind testrun.name } =
            slotKey suite r := hkey
        -- a failed create ends the loop, with or without the request
        have hfailed : ∀ (e : Err) R', reliable = false →
            (Between R₀ done R' ∨ Between R₀ (done ++ [slotKey suite r]) R') →
            ∃ part, (∀ k ∈ part, k ∈ (r :: rest).map (slotKey suite)) ∧ Between R₀ (done ++ part) R' ∧
              (some e = none → part = (r :: rest).map (slotKey suite)) ∧ (reliable = true → some e = none) := by
          intro e R' hrel hR'
          have hrel' : reliable = true → some e = none := by
            rw [hrel]
            exact fun hfalse => (Bool.false_ne_true hfalse).elim
          rcases hR' with hR' | hR'
          · exact ⟨[], fun k hk => absurd hk List.not_mem_nil, by rwa [List.append_nil],
              fun he => absurd he (Option.some_ne_none e), hrel'⟩
          · refine ⟨[slotKey suite r], fun k hk => ?_, hR',
              fun he => absurd he (Option.some_ne_none e), hrel'⟩
            rw [List.mem_singleton.mp hk]
            exact List.mem_cons_self
        rintro _ rfl a R' hs
        refine ⟨trivial, ?_⟩
        cases hs with
        | created => exact hrest _ (h.create hkey' hold hdone)
        | notCreated hrel => exact hfailed _ _ hrel (.inl h)
        | lost hrel => exact hfailed _ _ hrel (.inr (h.create hkey' hold hdone))
        | elsewhere ho => exact absurd trivial ho

/-- One suite. The map of its test runners is ranged over in some order. -/
theorem createEnvironmentRequests_passes {suites pre rest : List Suite} {suite : Suite} (hd : Distinguishable suites)
    (hstage : Stage suites (R₀.map requestKey))
    (hlisted : ∀ k, k ∈ requests.map requestKey ↔ k ∈ R₀.map requestKey) (hsplit : suites = pre ++ suite :: rest)
    (h : Between R₀ (pre.flatMap suiteSlots) R) :
    Passes name reliable (createEnvironmentRequests suite requests testrun cluster) (fun err R' =>
      ∃ done, Stage suites done ∧ Between R₀ done R' ∧
        (err = none → ∀ k, k ∈ done ↔ k ∈ (pre ++ [suite]).flatMap suiteSlots) ∧ (reliable = true → err = none)) R := by
  refine .elsewhere (o := .ext (.rangeKeys (testrunners suite))) id fun order => ?_
  have hperm : (order.val.map (slotKey suite)).Perm (suiteSlots suite) := order.property.map _
  have hmem : ∀ k ∈ R₀.map requestKey, ∃ y ∈ requests, requestKey y = k := fun k hk =>
    List.mem_map.mp ((hlisted k).mpr hk)
  have hhonest : ∀ r ∈ order.val, requestFound suite r requests = true → slotKey suite r ∈ R₀.map requestKey := by
    intro r hr hfound
    obtain ⟨y, hy, hclaims⟩ := requestFound_iff.mp hfound
    have hy' : requestKey y ∈ R₀.map requestKey := (hlisted _).mp (List.mem_map_of_mem hy)
    exact hstage.honest hd hsplit (order.property.mem_iff.mp hr) hy' hclaims
  have hnodup : (pre.flatMap suiteSlots ++ order.val.map (slotKey suite)).Nodup := by
    rw [(hperm.append_left _).nodup_iff]
    have hall := hd.nodup
    rw [hsplit, List.flatMap_append, List.flatMap_cons, ← List.append_assoc] at hall
    exact (List.nodup_append.mp hall).1
  refine (createRequests_passes order.val hhonest hmem hnodup h).post ?_
  rintro err R' ⟨part, hpart, hbetween, hall, hrel⟩
  refine ⟨_, .within hsplit fun k hk => hperm.mem_iff.mp (hpart k hk), hbetween, fun he k => ?_, hrel⟩
  rw [hall he, List.flatMap_append, List.flatMap_singleton, List.mem_append, List.mem_append, hperm.mem_iff]

/-- The loop over the suites: what is there in the end is a stage, the last one if nothing fails. -/
theorem createForSuites_passes {suites : List Suite} (hd : Distinguishable suites)
    (hstage : Stage suites (R₀.map requestKey))
    (hlisted : ∀ k, k ∈ requests.map requestKey ↔ k ∈ R₀.map requestKey) (pre rest : List Suite)
    (hsplit : suites = pre ++ rest) (h : Between R₀ (pre.flatMap suiteSlots) R) :
    Passes name reliable (createForSuites requests testrun cluster rest) (fun err R' =>
      ∃ done, Stage suites done ∧ Between R₀ done R' ∧ (err = none → done = suites.flatMap suiteSlots) ∧
        (reliable = true → err = none)) R := by
  induction rest generalizing pre R with
  | nil =>
      rw [List.append_nil] at hsplit
      subst hsplit
      refine ⟨_, ⟨suites.length, fun k hk => ?_, fun k hk => ?_⟩, h, fun _ => rfl, fun _ => rfl⟩
      · rwa [List.take_length] at hk
      · rwa [List.take_of_length_le (Nat.le_succ _)]
  | cons suite rest ih =>
      refine (createEnvironmentRequests_passes hd hstage hlisted hsplit h).bind ?_
      rintro err R' ⟨done, hdone, hbetween, hall, hrel⟩
      cases err with
      | some e => exact ⟨done, hdone, hbetween, fun he => (nomatch he), hrel⟩
      | none =>
          refine ih (pre ++ [suite]) ?_ (hbetween.congr (hall rfl))
          rw [hsplit, List.append_assoc]
          rfl

/-- A write of the status has nothing to do with the requests. -/
theorem updated_passes (testrun : TestRun) : Passes name reliable (updated testrun) (fun _ R' => R' = R) R :=
  .elsewhere (o := .updateStatus .testRun testrun) id fun _ => rfl

/-- What is done about a failed request does not change the requests: the environment has not failed before, so that the
    TestRun is written instead. -/
theorem failOnRequest_passes (hsound : isStatusReason testrun.status.conditions .environment .failed = false)
    (requests : List EnvironmentRequest) :
    Passes name reliable (failOnRequest testrun requests) (fun _ R' => R' = R) R := by
  induction requests with
  | nil => rfl
  | cons request rest ih =>
      unfold failOnRequest
      split
      · exact ih
      · rename_i condition _
        refine .elsewhere (o := .ext .timeNow) id fun t => ?_
        show Passes name reliable (if _ then _ else _) _ _
        split
        · exact updated_passes _
        · -- the condition would have been there before
          rename_i hsame
          obtain ⟨_, c, hfind, _, hreason, _⟩ := set_unchanged (Bool.eq_false_iff.mpr hsame)
          have hfailed : isStatusReason testrun.status.conditions .environment .failed = true :=
            isStatusReason_iff.mpr ⟨c, hfind, hreason⟩
          rw [hsound] at hfailed
          cases hfailed

theorem UpToDate.keys (h : UpToDate R requests) (k : Key) : k ∈ requests.map requestKey ↔ k ∈ R.map requestKey := by
  have hkeys := h.map fun p : String × EnvironmentRequestSpec =>
    (⟨p.2.name, p.2.providers.executionSpace.testRunnerImage, p.2.tests⟩ : Key)
  rw [List.map_map, List.map_map] at hkeys
  exact hkeys.mem_iff

/-- What passes leave: at most one request for each slot, up to some suite. -/
structure Remains (suites : List Suite) (R : List EnvironmentRequest) : Prop where
  nodup : (R.map requestKey).Nodup
  stage : Stage suites (R.map requestKey)

/-- From the list of requests on. -/
theorem reconcileRequests_passes {suites : List Suite} (hd : Distinguishable suites)
    (hlooks : Looks name suites testrun) (h : Remains suites R)
    (hlisted : ∀ k, k ∈ requests.map requestKey ↔ k ∈ R.map requestKey) :
    Passes name reliable (reconcileRequests cluster testrun requests) (fun _ R' => Remains suites R' ∧
      (∃ extra, R' = R ++ extra) ∧ (reliable = true → ∀ k ∈ suites.flatMap suiteSlots, k ∈ R'.map requestKey)) R := by
  have hsuites := hlooks.suites
  subst hsuites
  refine (createForSuites_passes hd h.stage hlisted [] testrun.spec.suites rfl (.start h.nodup)).bind ?_
  rintro err R' ⟨done, hdone, hbetween, hall, hrel⟩
  have hafter : Remains testrun.spec.suites R' := ⟨hbetween.nodup, h.stage.union hdone hbetween.keys⟩
  cases err with
  | some e => exact ⟨hafter, hbetween.grown, fun hr => (nomatch hrel hr)⟩
  | none =>
      have hsound : isStatusReason ({ testrun with status := { testrun.status with
          environmentRequests := requests.map requestReference } } : TestRun).status.conditions
          .environment .failed = false := hlooks.sound
      refine (failOnRequest_passes hsound requests).post ?_
      rintro _ _ rfl
      refine ⟨hafter, hbetween.grown, fun _ k hk => (hbetween.keys k).mpr (.inr ?_)⟩
      rw [hall rfl]
      exact hk

/-- **A pass.** -/
theorem reconcileEnvironmentRequest_passes {suites : List Suite} (hd : Distinguishable suites)
    (hlooks : Looks name suites testrun) (h : Remains suites R) :
    Passes name reliable (reconcileEnvironmentRequest cluster testrun) (fun _ R' => Remains suites R' ∧
      (∃ extra, R' = R ++ extra) ∧ (reliable = true → ∀ k ∈ suites.flatMap suiteSlots, k ∈ R'.map requestKey)) R := by
  unfold reconcileEnvironmentRequest
  rw [if_neg hlooks.heard, hlooks.sound, if_neg Bool.false_ne_true]
  rintro _ rfl a R' hs
  refine ⟨trivial, ?_⟩
  rw [hlooks.name] at hs
  cases hs with
  | list hup => exact reconcileRequests_passes hd hlooks h hup.keys
  | noneFound hnotFound =>
      show Passes name reliable (if _ then _ else _) _ _
      rw [if_pos hnotFound]
      exact reconcileRequests_passes hd hlooks h fun _ => Iff.rfl
  | notListed hr hfound =>
      show Passes name reliable (if _ then _ else _) _ _
      rw [hfound, if_neg Bool.false_ne_true]
      refine ⟨h, ⟨[], (List.append_nil _).symm⟩, fun htrue => ?_⟩
      rw [hr] at htrue
      cases htrue
  | elsewhere ho => exact absurd trivial ho

end Loops

section Remains

variable {name : String} {reliable : Bool} {suites : List Suite} {R R' : List EnvironmentRequest}

theorem Remains.pass (hd : Distinguishable suites) (h : Remains suites R)
    (hp : RequestsPass name reliable suites R R') :
    Remains suites R' ∧ (∃ extra, R' = R ++ extra) ∧
      (reliable = true → ∀ k ∈ suites.flatMap suiteSlots, k ∈ R'.map requestKey) := by
  obtain ⟨cluster, testrun, hlooks, hcan⟩ := hp
  obtain ⟨_, hafter⟩ := hcan.safe (reconcileEnvironmentRequest_passes hd hlooks h)
  exact hafter

theorem Leftover.remains (hd : Distinguishable suites) (h : Leftover name suites R) : Remains suites R := by
  induction h with
  | none => exact ⟨List.nodup_nil, 0, fun k hk => (nomatch hk), fun k hk => (nomatch hk)⟩
  | pass _ hp ih => exact (ih.pass hd hp).1

/-- If the suites can be told apart, every suite gets its requests. -/
theorem suitesRequested_of_distinguishable (hd : Distinguishable suites) : SuitesRequested suites := by
  intro name R R' hleft hpass
  obtain ⟨hafter, _, hall⟩ := (hleft.remains hd).pass hd hpass
  have hfull := hall rfl
  refine ⟨?_, fun R'' hpass' => ?_⟩
  · rw [Requested, List.perm_ext_iff_of_nodup hafter.nodup hd.nodup]
    exact fun k => ⟨hafter.stage.subset k, hfull k⟩
  · obtain ⟨hafter', ⟨extra, rfl⟩, _⟩ := hafter.pass hd hpass'
    -- whatever a further pass would create is for a slot that has its request
    cases extra with
    | nil => exact List.append_nil R'
    | cons x extra =>
        have hx : requestKey x ∈ (R' ++ x :: extra).map requestKey :=
          List.mem_map_of_mem (List.mem_append_right _ List.mem_cons_self)
        have hold := hfull _ (hafter'.stage.subset _ hx)
        have hnodup := hafter'.nodup
        rw [List.map_append, List.map_cons] at hnodup
        exact absurd rfl ((List.nodup_append.mp hnodup).2.2 _ hold _ List.mem_cons_self)

end Remains

/-! ## Suites that cannot be told apart -/

/-- The slots of a suite for which no request is found. -/
def missing (requests : List EnvironmentRequest) (suite : Suite) : List Key :=
  ((testrunners suite).filter fun r => !requestFound suite r requests).map (slotKey suite)

section Can

variable {name : String} {reliable : Bool} {testrun : TestRun} {cluster : Cluster}
  {R requests : List EnvironmentRequest} {suite : Suite}

theorem environmentRequest_can (h : Equipped cluster testrun) (n t : String) (tests : List Test)
    (dataset : Option Json) :
    (environmentRequest n t cluster testrun tests dataset).Can (Served name reliable)
      (fun request R' => R' = R ∧ requestKey request = ⟨n, t, tests⟩) R := by
  obtain ⟨request, hrequest, heq⟩ := environmentRequest_equipped h n t tests dataset
  rw [heq]
  refine ⟨(0 : Int), R, .elsewhere id, "", R, .elsewhere id, rfl, ?_⟩
  obtain ⟨hname, hrunner, htests⟩ := hrequest 0 ""
  show (⟨_, _, _⟩ : Key) = _
  rw [hname, hrunner, htests]

/-- Every create may succeed. -/
theorem createRequests_can (h : Equipped cluster testrun) (order : List String) :
    (createRequests suite requests testrun cluster order).Can (Served name reliable) (fun err R' => err = none ∧
      R'.map requestKey = R.map requestKey ++
        (order.filter fun r => !requestFound suite r requests).map (slotKey suite)) R := by
  induction order generalizing R with
  | nil => exact ⟨rfl, (List.append_nil _).symm⟩
  | cons r rest ih =>
      unfold createRequests
      split
      · rename_i hfound
        rw [List.filter_cons_of_neg (by rw [hfound]; exact Bool.false_ne_true)]
        exact ih
      · rename_i hfound
        rw [List.filter_cons_of_pos (by simpa using hfound)]
        refine (environmentRequest_can h _ _ _ _).bind ?_
        rintro request R' ⟨rfl, hkey⟩
        have hcreated : ∀ o, Served name reliable R' (.create .environmentRequest o) (.ok (admittedRequest o "" "" 0))
            (R' ++ [admittedRequest o "" "" 0]) := fun _ => .created
        refine ⟨_, _, hcreated _, ?_⟩
        refine ih.post ?_
        rintro err R'' ⟨herr, hkeys⟩
        refine ⟨herr, ?_⟩
        rw [hkeys, List.map_append, List.map_singleton, requestKey_admitted, List.append_assoc]
        show _ ++ ([requestKey request] ++ _) = _
        rw [hkey]
        rfl

/-- The first suites, and then the others. -/
theorem createForSuites_can (h : Equipped cluster testrun) {Q : Option Err → List EnvironmentRequest → Prop}
    (first rest : List Suite)
    (hrest : ∀ R', R'.map requestKey = R.map requestKey ++ first.flatMap (missing requests) →
      (createForSuites requests testrun cluster rest).Can (Served name reliable) Q R') :
    (createForSuites requests testrun cluster (first ++ rest)).Can (Served name reliable) Q R := by
  induction first generalizing R with
  | nil => exact hrest R (List.append_nil _).symm
  | cons suite first ih =>
      refine Prog.Can.bind (R := fun err R' => err = none ∧
        R'.map requestKey = R.map requestKey ++ missing requests suite) ?_ ?_
      · exact ⟨⟨testrunners suite, .refl _⟩, R, .elsewhere id, createRequests_can h (testrunners suite)⟩
      · rintro err R' ⟨rfl, hkeys⟩
        refine ih fun R'' hkeys' => hrest R'' ?_
        rw [hkeys', hkeys, List.append_assoc, List.flatMap_cons]

/-- The first create for a suite may fail. -/
theorem createForSuites_fails (h : Equipped cluster testrun) (hsuite : testrunners suite ≠ []) (rest : List Suite) :
    (createForSuites [] testrun cluster (suite :: rest)).Can (Served name false) (fun _ R' => R' = R) R := by
  refine Prog.Can.bind (R := fun err R' => err ≠ none ∧ R' = R) ?_ ?_
  · refine ⟨⟨testrunners suite, .refl _⟩, R, .elsewhere id, ?_⟩
    show (createRequests suite [] testrun cluster (testrunners suite)).Can _ _ _
    cases hr : testrunners suite with
    | nil => exact absurd hr hsuite
    | cons r others =>
        unfold createRequests
        rw [if_neg (by rw [requestFound, List.any_nil]; exact Bool.false_ne_true)]
        refine (environmentRequest_can h _ _ _ _).bind ?_
        rintro request R' ⟨rfl, _⟩
        exact ⟨.error ⟨none, "failed"⟩, R', .notCreated rfl, Option.some_ne_none _, rfl⟩
  · rintro err R' ⟨herr, rfl⟩
    cases err with
    | none => exact absurd rfl herr
    | some e => rfl

/-- A pass, from the loop over the suites. -/
theorem reconcileEnvironmentRequest_can {suites : List Suite} {Q : List EnvironmentRequest → Prop}
    (hlooks : Looks name suites testrun) (hup : UpToDate R requests) (hquiet : ∀ y ∈ requests, failedReady y = none)
    (h : ∀ testrun' : TestRun, testrun'.spec = testrun.spec →
      (createForSuites requests testrun' cluster suites).Can (Served name reliable) (fun _ R' => Q R') R) :
    (reconcileEnvironmentRequest cluster testrun).Can (Served name reliable) (fun _ R' => Q R') R := by
  have hsuites := hlooks.suites
  subst hsuites
  unfold reconcileEnvironmentRequest
  rw [if_neg hlooks.heard, hlooks.sound, if_neg Bool.false_ne_true, hlooks.name]
  refine ⟨.ok requests, R, .list hup, ?_⟩
  refine (h { testrun with status :=
    { testrun.status with environmentRequests := requests.map requestReference } } rfl).bind ?_
  intro err R' hQ
  cases err with
  | some e => exact hQ
  | none =>
      dsimp only
      rw [failOnRequest_eq hquiet]
      exact hQ

end Can

/-- Two suites that cannot be told apart. -/
theorem exists_shadowed {suites : List Suite} (h : ¬ Distinguishable suites) :
    ∃ first later rest, suites = first ++ later :: rest ∧ ∃ earlier ∈ first, ∃ r ∈ testrunners earlier,
      r ∈ testrunners later ∧ Claims later r (slotKey earlier r) := by
  induction suites with
  | nil => exact absurd List.Pairwise.nil h
  | cons suite suites ih =>
      by_cases hd : Distinguishable suites
      · -- the first suite shadows one of the others
        have hex : ∃ later ∈ suites, ∃ r ∈ testrunners suite, r ∈ testrunners later ∧
            Claims later r (slotKey suite r) := by
          by_contra hno
          refine h (List.pairwise_cons.mpr ⟨fun later hlater r hr hr' hclaims => ?_, hd⟩)
          exact hno ⟨later, hlater, r, hr, hr', hclaims⟩
        obtain ⟨later, hlater, hshadow⟩ := hex
        obtain ⟨first, rest, rfl⟩ := List.append_of_mem hlater
        exact ⟨suite :: first, later, rest, rfl, suite, List.mem_cons_self, hshadow⟩
      · obtain ⟨first, later, rest, rfl, earlier, hearlier, hshadow⟩ := ih hd
        exact ⟨suite :: first, later, rest, rfl, earlier, List.mem_cons_of_mem _ hearlier, hshadow⟩

section Missing

variable {requests : List EnvironmentRequest} {suite : Suite}

/-- Without requests everything is missing. -/
theorem missing_nil (suites : List Suite) : suites.flatMap (missing []) = suites.flatMap suiteSlots := by
  have hmissing : missing [] = suiteSlots := by
    funext suite
    have hfilter : ((testrunners suite).filter fun r => !requestFound suite r []) = testrunners suite :=
      List.filter_eq_self.mpr fun r _ => rfl
    unfold missing suiteSlots
    rw [hfilter]
  rw [hmissing]

/-- Where there are requests nothing is missing. -/
theorem missing_of_keys {suites : List Suite}
    (h : ∀ k ∈ suites.flatMap suiteSlots, ∃ y ∈ requests, requestKey y = k) :
    suites.flatMap (missing requests) = [] := by
  rw [List.flatMap_eq_nil_iff]
  intro suite hsuite
  unfold missing
  rw [List.map_eq_nil_iff, List.filter_eq_nil_iff]
  intro r hr
  obtain ⟨y, hy, hkey⟩ := h _ (List.mem_flatMap.mpr ⟨suite, hsuite, mem_suiteSlots.mpr ⟨r, hr, rfl⟩⟩)
  rw [requestFound_of_key hy hkey]
  exact Bool.false_ne_true

theorem missing_length_le (suites : List Suite) :
    (suites.flatMap (missing requests)).length ≤ (suites.flatMap suiteSlots).length := by
  induction suites with
  | nil => exact Nat.le_refl _
  | cons suite suites ih =>
      rw [List.flatMap_cons, List.flatMap_cons, List.length_append, List.length_append]
      refine Nat.add_le_add ?_ ih
      unfold missing suiteSlots
      rw [List.length_map, List.length_map]
      exact List.length_filter_le _ _

/-- A slot that is taken for another one is not missing. -/
theorem missing_length_lt {r : String} (hr : r ∈ testrunners suite) (hfound : requestFound suite r requests = true) :
    (missing requests suite).length < (suiteSlots suite).length := by
  unfold missing suiteSlots
  rw [List.length_map, List.length_map, List.length_filter_lt_length_iff_exists]
  refine ⟨r, hr, ?_⟩
  rw [hfound]
  exact Bool.false_ne_true

end Missing

/-- A TestRun with these suites whose environment is pending. -/
def pendingTestRun (suites : List Suite) : TestRun :=
  { someTestRun 100 with
    spec := { (someTestRun 100).spec with suites := suites }
    status := { conditions := [{ type := .environment, status := .false, reason := .pending, message := "" }] } }

theorem pendingTestRun_looks (suites : List Suite) : Looks "testrun" suites (pendingTestRun suites) :=
  ⟨rfl, rfl, Option.some_ne_none _, rfl⟩

theorem pendingTestRun_equipped (suites : List Suite) {testrun : TestRun}
    (h : testrun.spec = (pendingTestRun suites).spec) : Equipped (someCluster "cluster") testrun := by
  have hequipped : Equipped (someCluster "cluster") (pendingTestRun suites) := by
    constructor <;> exact Option.some_ne_none _
  exact hequipped.of_spec h

/-- The requests as they are listed before anything has happened to them. -/
def unheardOf (R : List EnvironmentRequest) : List EnvironmentRequest := R.map fun y => { y with status := {} }

theorem unheardOf_upToDate (R : List EnvironmentRequest) : UpToDate R (unheardOf R) := by
  unfold UpToDate unheardOf
  rw [List.map_map]
  exact .refl _

theorem unheardOf_quiet (R : List EnvironmentRequest) : ∀ y ∈ unheardOf R, failedReady y = none := by
  intro y hy
  obtain ⟨x, _, rfl⟩ := List.mem_map.mp hy
  rfl

/-- A pass may fail in front of any suite with a test. -/
theorem left_before (first rest : List Suite) {suite : Suite} (hsuite : testrunners suite ≠ []) :
    ∃ R, Leftover "testrun" (first ++ suite :: rest) R ∧ R.map requestKey = first.flatMap suiteSlots := by
  have hpass : (reconcileEnvironmentRequest (someCluster "cluster") (pendingTestRun (first ++ suite :: rest))).Can
      (Served "testrun" false) (fun _ R' => R'.map requestKey = first.flatMap suiteSlots) [] := by
    refine reconcileEnvironmentRequest_can (pendingTestRun_looks _) (unheardOf_upToDate []) (unheardOf_quiet []) ?_
    intro testrun hspec
    have hequipped := pendingTestRun_equipped _ hspec
    refine createForSuites_can hequipped first (suite :: rest) fun R' hkeys => ?_
    refine (createForSuites_fails hequipped hsuite rest).post ?_
    rintro _ _ rfl
    exact hkeys.trans (missing_nil first)
  obtain ⟨_, R, hkeys, hcan⟩ := hpass.pick
  exact ⟨R, .pass .none ⟨_, _, pendingTestRun_looks _, hcan⟩, hkeys⟩

/-- A pass without a failure may create everything that it does not find. -/
theorem pass_creates (suites : List Suite) (R : List EnvironmentRequest) :
    ∃ R', RequestsPass "testrun" true suites R R' ∧
      R'.map requestKey = R.map requestKey ++ suites.flatMap (missing (unheardOf R)) := by
  have hpass : (reconcileEnvironmentRequest (someCluster "cluster") (pendingTestRun suites)).Can
      (Served "testrun" true) (fun _ R' => R'.map requestKey =
        R.map requestKey ++ suites.flatMap (missing (unheardOf R))) R := by
    refine reconcileEnvironmentRequest_can (pendingTestRun_looks _) (unheardOf_upToDate R) (unheardOf_quiet R) ?_
    intro testrun hspec
    have hall : (createForSuites (unheardOf R) testrun (someCluster "cluster") (suites ++ [])).Can
        (Served "testrun" true) (fun _ R' => R'.map requestKey =
          R.map requestKey ++ suites.flatMap (missing (unheardOf R))) R :=
      createForSuites_can (pendingTestRun_equipped _ hspec) suites [] fun R' hkeys => hkeys
    rwa [List.append_nil] at hall
  obtain ⟨_, R', hkeys, hcan⟩ := hpass.pick
  exact ⟨R', ⟨_, _, pendingTestRun_looks _, hcan⟩, hkeys⟩

/-- If two suites cannot be told apart, the later one may end up without a request. -/
theorem not_suitesRequested_of_shadowed {suites : List Suite} (h : ¬ Distinguishable suites) :
    ¬ SuitesRequested suites := by
  intro hall
  obtain ⟨first, later, rest, rfl, earlier, hearlier, r, hr, hr', hclaims⟩ := exists_shadowed h
  -- a pass fails just before the later suite
  obtain ⟨R, hleft, hkeys⟩ := left_before first rest (List.ne_nil_of_mem hr')
  obtain ⟨R', hpass, hkeys'⟩ := pass_creates (first ++ later :: rest) R
  have hcount := (hall "testrun" R R' hleft hpass).1.length_eq
  have hlisted : ∀ k ∈ first.flatMap suiteSlots, ∃ y ∈ unheardOf R, requestKey y = k := by
    intro k hk
    rw [← hkeys] at hk
    exact List.mem_map.mp (((unheardOf_upToDate R).keys k).mpr hk)
  -- the next pass finds the request of the earlier suite for it
  have hfound : requestFound later r (unheardOf R) = true := by
    obtain ⟨y, hy, hkey⟩ := hlisted (slotKey earlier r)
      (List.mem_flatMap.mpr ⟨earlier, hearlier, mem_suiteSlots.mpr ⟨r, hr, rfl⟩⟩)
    exact requestFound_iff.mpr ⟨y, hy, hkey ▸ hclaims⟩
  have hlt := missing_length_lt hr' hfound
  have hle : (rest.flatMap (missing (unheardOf R))).length ≤ (rest.flatMap suiteSlots).length := missing_length_le rest
  rw [hkeys', hkeys, List.flatMap_append, missing_of_keys hlisted] at hcount
  simp only [List.flatMap_append, List.flatMap_cons, List.length_append, List.length_nil] at hcount
  omega

/-- **Every suite gets its requests** exactly if the suites can be told apart. -/
theorem suites_requested_iff (suites : List Suite) : SuitesRequested suites ↔ Distinguishable suites := by
  constructor
  · intro h
    by_contra hd
    exact not_suitesRequested_of_shadowed hd h
  · exact suitesRequested_of_distinguishable

/-- **A suite without a request**: the name of the second suite is a prefix of the name of the first one. If the create
    for the second suite fails, the request of the first one is taken for it ever after. -/
theorem shadowed_suite : ¬ SuitesRequested [someSuite "suite-ab", someSuite "suite-a"] :=
  not_suitesRequested_of_shadowed (by decide)

end Etos
