import Mathlib.Data.List.Dedup
import Etos.EnvironmentRequest.Versions
import Etos.TestRun.Versions

/-!
# `TestRun.Requests` — one EnvironmentRequest for each slot

The EnvironmentRequests of a TestRun have generated names, so nothing but the reconciler keeps them from being created
twice: it creates one for a slot only if it lists none. The list comes from a cache, and unlike for the suite runner job
nothing is written down when a request was created. If the cache lags, the next `Reconcile` creates the same requests
again (`requested_twice`).

`requestsEver` are the requests with some key that were ever created for a TestRun. As long as the lists that a
`Reconcile` decides on do not miss one of these, there are never more of them than the TestRun has slots with the key
(**`requested_once`**). The invariant behind it counts within a round: after a list without the key, the round has made
itself all there are (`Counted.since`).
-/

namespace Etos

open Kube TestRunReconciler

/-- The TestRun controls the request, which has this key. -/
def RequestOf (n : String) (key : Key) (y : EnvironmentRequest) : Prop :=
  (owned n).matches y.metadata = true ∧ requestKey y = key

instance (n : String) (key : Key) (y : EnvironmentRequest) : Decidable (RequestOf n key y) :=
  inferInstanceAs (Decidable (_ ∧ _))

/-- The requests with this key that were ever created for the TestRun, by name. -/
def requestsEver (n : String) (key : Key) (s : Namespace) : List String :=
  (((s.past .environmentRequest).filter fun y => RequestOf n key y).map Object.name).dedup

variable {n : String} {key : Key} {w : OperatorState} {s : Namespace} {x y new : EnvironmentRequest}

theorem Alike.requestOf (h : Alike x y) : RequestOf n key x ↔ RequestOf n key y := by
  unfold RequestOf owned
  rw [Selector.matches_controlledBy, Selector.matches_controlledBy, ObjectMeta.controllerOf_congr h.1, h.2]

/-- An object has one controller. -/
theorem owned_unique {m : ObjectMeta} {n n' : String} (h : (owned n).matches m = true)
    (h' : (owned n').matches m = true) : n = n' := by
  obtain ⟨r, hr, _, _, hname⟩ := Selector.matches_controlledBy.mp h
  obtain ⟨r', hr', _, _, hname'⟩ := Selector.matches_controlledBy.mp h'
  obtain rfl : r = r' := Option.some.inj (hr.symm.trans hr')
  exact hname.symm.trans hname'

/-! ## Counting -/

theorem requestsEver_congr (h : s.past .environmentRequest = w.store.past .environmentRequest) :
    requestsEver n key s = requestsEver n key w.store := by
  unfold requestsEver
  rw [h]

/-- A request that was there before, in another version. -/
theorem requestsEver_again (h : s.past .environmentRequest = new :: w.store.past .environmentRequest)
    (hx : x ∈ w.store.past .environmentRequest) (hname : x.name = new.name) (halike : Alike new x) :
    requestsEver n key s = requestsEver n key w.store := by
  unfold requestsEver
  rw [h, List.filter_cons]
  split
  · rename_i hnew
    rw [decide_eq_true_eq] at hnew
    rw [List.map_cons, List.dedup_cons_of_mem]
    refine List.mem_map.mpr ⟨x, List.mem_filter.mpr ⟨hx, ?_⟩, hname⟩
    rw [decide_eq_true_eq]
    exact halike.requestOf.mp hnew
  · rfl

/-- A new request adds one to the requests with its key, and nothing to the others. -/
theorem requestsEver_new (h : s.past .environmentRequest = new :: w.store.past .environmentRequest) :
    requestsEver n key s = requestsEver n key w.store ∨
      RequestOf n key new ∧ (requestsEver n key s).length ≤ (requestsEver n key w.store).length + 1 := by
  unfold requestsEver
  rw [h, List.filter_cons]
  split
  · rename_i hnew
    rw [decide_eq_true_eq] at hnew
    refine .inr ⟨hnew, ?_⟩
    rw [List.map_cons]
    by_cases hmem : new.name ∈ ((w.store.past .environmentRequest).filter fun y => RequestOf n key y).map Object.name
    · rw [List.dedup_cons_of_mem hmem]
      exact Nat.le_succ _
    · exact Nat.le_of_eq (congrArg List.length (List.dedup_cons_of_notMem hmem))
  · exact .inl rfl

/-- **A step creates at most one request.** -/
theorem RequestStep.counts {wrote : String → Prop} {made : EnvironmentRequest → Prop} (h : RequestStep w wrote made s)
    (n : String) (key : Key) :
    requestsEver n key s = requestsEver n key w.store ∨
      (∃ o, made o ∧ RequestOf n key o) ∧
        (requestsEver n key s).length ≤ (requestsEver n key w.store).length + 1 := by
  rcases h with hpast | ⟨new, hpast, _, hnew⟩
  · exact .inl (requestsEver_congr hpast)
  · cases hnew with
    | created _ _ hmade =>
        obtain ⟨o, hmade, halike⟩ := hmade
        refine (requestsEver_new hpast).imp_right fun ⟨hof, hle⟩ => ⟨⟨o, hmade, ?_⟩, hle⟩
        exact halike.requestOf.mp hof
    | kept hf _ _ hsame | written _ hf _ _ _ hsame =>
        exact .inl (requestsEver_again hpast (w.store.current hf) (w.store.named hf) hsame)

/-! ## Lists that do not miss a request -/

/-- The call is the list that decides on creating requests, and it misses one that was created. -/
def MissesRequest (n : String) (w : OperatorState) : (o : Op) → Ans o → Prop
  | .list .environmentRequest sel, a => sel = owned n ∧ Deciding n (w.log (.testRun n)) ∧
      ∃ y ∈ w.store.past .environmentRequest, (owned n).matches y.metadata = true ∧ Lacks (requestKey y) a
  | _, _ => False

/-- A list that misses nothing and lacks the key. -/
theorem requestsEver_of_lacks {a : Except Err (List EnvironmentRequest)}
    (h : ¬ MissesRequest n w (.list .environmentRequest (owned n)) a) (hd : Deciding n (w.log (.testRun n)))
    (hlacks : Lacks key a) : requestsEver n key w.store = [] := by
  have hnone : ∀ y ∈ w.store.past .environmentRequest, ¬ RequestOf n key y := by
    rintro y hy ⟨hown, rfl⟩
    exact h ⟨rfl, hd, y, hy, hown, hlacks⟩
  unfold requestsEver
  rw [List.filter_eq_nil_iff.mpr ?_]
  · rfl
  · intro y hy
    rw [decide_eq_true_eq]
    exact hnone y hy

/-- **What is counted**: there are no more requests than the TestRun has slots, and after a list without the key this
    round has made all there are. -/
structure Counted (n : String) (w : OperatorState) : Prop where
  bounded : ∀ key, requestsEver n key w.store ≠ [] → ∃ y ∈ w.store.past .testRun, y.name = n ∧
    (requestsEver n key w.store).length ≤ (slots y.spec).count key
  since : ∀ key, ListedNone n key (w.log (.testRun n)) →
    (requestsEver n key w.store).length ≤ made key (w.log (.testRun n))

/-- A step that creates no request of the TestRun and leaves its round alone. -/
theorem Counted.other (h : Counted n w) {w' : OperatorState} (hlog : w'.log (.testRun n) = w.log (.testRun n))
    (hpast : ∀ y, y ∈ w.store.past .testRun → y ∈ w'.store.past .testRun)
    (hsame : ∀ key, requestsEver n key w'.store = requestsEver n key w.store) : Counted n w' := by
  refine ⟨fun key hne => ?_, fun key hlisted => ?_⟩
  · rw [hsame] at hne ⊢
    obtain ⟨y, hy, hrest⟩ := h.bounded key hne
    exact ⟨y, hpast y hy, hrest⟩
  · rw [hsame, hlog]
    rw [hlog] at hlisted
    exact h.since key hlisted

theorem made_le_cons (key : Key) (e : Said Op Ans) (l : Log) : made key l ≤ made key (e :: l) := by
  rw [made_cons]
  exact Nat.le_add_right _ _

/-- The worker's own calls other than creates of requests with the key. -/
theorem Counted.since_call (h : Counted n w) {o : Op} {a : Ans o} (hc : ¬ MissesRequest n w o a)
    (hsame : requestsEver n key s = requestsEver n key w.store)
    (hlisted : ListedNone n key ((w.record (.testRun n) o a s).log (.testRun n))) :
    (requestsEver n key s).length ≤ made key ((w.record (.testRun n) o a s).log (.testRun n)) := by
  rw [Cluster.log_record_self] at hlisted ⊢
  rw [hsame]
  obtain ⟨later, earlier, a', hl, hd, hlacks⟩ := hlisted
  cases later with
  | nil =>
      -- the list that has just been answered
      rw [List.nil_append] at hl
      obtain ⟨hsaid, rfl⟩ := List.cons.inj hl
      cases hsaid
      rw [requestsEver_of_lacks hc hd hlacks]
      exact Nat.zero_le _
  | cons e later =>
      obtain ⟨_, hl⟩ := List.cons.inj hl
      exact Nat.le_trans (h.since key ⟨later, earlier, a', hl, hd, hlacks⟩) (made_le_cons ..)

/-- The worker's own calls. -/
theorem Counted.own (h : Counted n w) (hk : w.Knowing) (hsteady : Steady w) {o : Op} {a : Ans o}
    (hperm : (Worker.testRun n).Permits (w.log (.testRun n)) o) (hs : Store.Sem admitted w.store o a s)
    (hc : ¬ MissesRequest n w o a) : Counted n (w.record (.testRun n) o a s) := by
  have hstep := RequestStep.of_call hk hperm hs
  have hmono : ∀ y, y ∈ w.store.past .testRun → y ∈ s.past .testRun := fun y hy => hs.past_mono hy
  -- a create of a request with this key finds room for it
  have hroom : ∀ key req, o = .create .environmentRequest req → RequestOf n key req →
      (requestsEver n key w.store).length ≤ made key (w.log (.testRun n)) ∧
        ∃ y ∈ s.past .testRun, y.name = n ∧
          (requestsEver n key w.store).length + 1 ≤ (slots y.spec).count key := by
    rintro key req rfl ⟨_, rfl⟩
    have hmay : MayRequest n (w.log (.testRun n)) req := hperm
    have hsince := h.since _ hmay.listed
    obtain ⟨x, hseen, hlt⟩ := hmay.slot
    obtain ⟨y, hy, hyn, hys⟩ := hsteady.heard n x hseen
    refine ⟨hsince, y, hmono y hy, hyn, ?_⟩
    have hslots : slots y.spec = slots x.spec := by
      unfold slots
      rw [hys]
    rw [hslots]
    omega
  refine ⟨fun key hne => ?_, fun key hlisted => ?_⟩
  · change requestsEver n key s ≠ [] at hne
    change ∃ y ∈ s.past .testRun, y.name = n ∧ (requestsEver n key s).length ≤ _
    rcases hstep.counts n key with hsame | ⟨⟨req, ho, hof⟩, hle⟩
    · rw [hsame] at hne ⊢
      obtain ⟨y, hy, hrest⟩ := h.bounded key hne
      exact ⟨y, hmono y hy, hrest⟩
    · obtain ⟨_, y, hy, hyn, hlt⟩ := hroom key req ho hof
      exact ⟨y, hy, hyn, Nat.le_trans hle hlt⟩
  · rcases hstep.counts n key with hsame | ⟨⟨req, ho, hof⟩, hle⟩
    · exact h.since_call hc hsame hlisted
    · obtain ⟨hsince, _⟩ := hroom key req ho hof
      have hcreates : createsKey key o = true := by
        subst ho
        exact decide_eq_true hof.2
      rw [Cluster.log_record_self, made_cons, if_pos hcreates]
      exact Nat.le_trans hle (Nat.add_le_add_right hsince 1)

/-- **Workers that are told about their requests** count right. -/
theorem counted {op : Operator} {c}
    (h : (op.runs fun i w o a => i = .testRun n → ¬ MissesRequest n w o a).Reachable c) : Counted n c.state := by
  have hand := System.Reachable.restrict_and (fun c hc => steady hc) h
  refine (Operator.invariant (I := Counted n) ?_ ?_ ?_ ?_ hand).2
  · refine ⟨fun key hne => absurd rfl hne, fun key hlisted => ?_⟩
    exact Nat.zero_le _
  · intro i w _ hI
    refine ⟨hI.bounded, fun key hlisted => ?_⟩
    by_cases hi : Worker.testRun n = i
    · subst hi
      obtain ⟨later, earlier, a, hl, _⟩ := hlisted
      rw [Cluster.log_fresh_self] at hl
      exact absurd hl.symm (List.append_ne_nil_of_right_ne_nil _ (List.cons_ne_nil _ _))
    · rw [Cluster.log_fresh_ne hi] at hlisted ⊢
      exact hI.since key hlisted
  · rintro i w o a s hk hI hperm hs ⟨hc, hsteady⟩
    by_cases hi : Worker.testRun n = i
    · subst hi
      exact hI.own hk hsteady hperm hs (hc rfl)
    · refine hI.other (Cluster.log_record_ne hi) (fun y hy => hs.past_mono hy) fun key => ?_
      rcases (RequestStep.of_call hk hperm hs).counts n key with hsame | ⟨⟨req, rfl, hof⟩, _⟩
      · exact hsame
      · -- only TestRun workers create requests, and only their own
        cases i with
        | testRun m =>
            have hmay : MayRequest m _ req := hperm
            exact absurd (congrArg Worker.testRun (owned_unique hof.1 hmay.own)) hi
        | environmentRequest | environment | resource => exact hperm.elim
  · intro w o a s _ hI ho hw
    refine hI.other rfl (fun y hy => hw.past_mono hy) fun key => ?_
    rcases (RequestStep.of_others ho hw).counts n key with hsame | ⟨⟨req, hnone, hof⟩, _⟩
    · exact hsame
    · obtain ⟨r, hr, _⟩ := Selector.matches_controlledBy.mp hof.1
      rw [hnone] at hr
      cases hr

/-- **One request for each slot.** In every run in which no list of the TestRun's requests that a `Reconcile` decides on
    misses a request that was created: for every version of the TestRun, no more requests with a key were ever created
    than it has suites and test runners with this key. -/
theorem requested_once {op : Operator} (n : String) {c}
    (h : (op.runs fun i w o a => i = .testRun n → ¬ MissesRequest n w o a).Reachable c) {x : TestRun}
    (hx : x ∈ c.state.store.past .testRun) (hn : x.name = n) (key : Key) :
    (requestsEver n key c.state.store).length ≤ (slots x.spec).count key := by
  by_cases hne : requestsEver n key c.state.store = []
  · rw [hne]
    exact Nat.zero_le _
  · obtain ⟨y, hy, hyn, hle⟩ := (counted h).bounded key hne
    have hsuites : y.spec.suites = x.spec.suites := (steady h).past y hy x hx (hyn.trans hn.symm)
    have hslots : slots y.spec = slots x.spec := by
      unfold slots
      rw [hsuites]
    rw [← hslots]
    exact hle

/-! ## Two TestRuns -/

/-- The list of requests is as it should be. -/
def listsRequests (w : OperatorState) : (o : Op) → Ans o → Bool
  | .list .environmentRequest _, .ok requests =>
      (w.store.past .environmentRequest).all fun y => requests.any fun z => requestKey z = requestKey y
  | .list .environmentRequest _, .error _ => false
  | _, _ => true

theorem not_missesRequest {o : Op} {a : Ans o} (h : listsRequests w o a = true) : ¬ MissesRequest n w o a := by
  intro hm
  unfold MissesRequest at hm
  split at hm
  · rename_i sel a
    obtain ⟨_, _, y, hy, _, hlacks⟩ := hm
    cases a with
    | error e => cases h
    | ok requests =>
        obtain ⟨z, hz, hkey⟩ := List.any_eq_true.mp (List.all_eq_true.mp h y hy)
        exact hlacks z hz (of_decide_eq_true hkey)
  · exact hm

/-- The cache of requests has not caught up. -/
def requestsLag : Op → Cluster.Reply
  | .list .environmentRequest _ => .lagging
  | _ => .serve

/-- A TestRun of two suites for which both requests were created. -/
def testRunRequested : List Turn :=
  other (.create .cluster (someCluster "cluster")) ::
    ["iut", "log-area", "execution-space"].map (fun n => other (.create .provider (availableProvider n))) ++
    [other (.create .testRun (someTestRun 100)), round (.testRun "testrun"), round (.testRun "testrun")]

/-- The key of the request for its first suite. -/
def someKey : Key := slotKey (someSuite "suite-a") "runner"

/-- The next `Reconcile` finds both requests. -/
theorem requested_once_found :
    requestsEver "testrun" someKey (played (testRunRequested ++ [round (.testRun "testrun")])).store = ["testrun-6"] ∧
      ∀ key, (requestsEver "testrun" key (played (testRunRequested ++ [round (.testRun "testrun")])).store).length ≤
        (slots (someTestRun 100).spec).count key := by
  have hrun : (plainOperator.runs fun i w o a => i = .testRun "testrun" →
      ¬ MissesRequest "testrun" w o a).Reachable
      ⟨played (testRunRequested ++ [round (.testRun "testrun")]), fun _ => none⟩ := by
    have hmeets : Meets (fun _ w o a => listsRequests w o a = true)
        (testRunRequested ++ [round (.testRun "testrun")]) := by decide
    exact (plays_runs hmeets).weaken fun i w o a hl _ => not_missesRequest hl
  have hx : ∃ x ∈ (played (testRunRequested ++ [round (.testRun "testrun")])).store.past .testRun,
      x.name = "testrun" ∧ x.spec = (someTestRun 100).spec := by decide
  refine ⟨by decide, fun key => ?_⟩
  obtain ⟨x, hx, hname, hspec⟩ := hx
  rw [← hspec]
  exact requested_once "testrun" hrun hx hname key

/-- **It can happen.** The list of requests that the next `Reconcile` gets does not show the requests yet: there is one
    slot for the first suite of the TestRun, and two requests. -/
theorem requested_twice :
    ∃ c, plainOperator.system.Reachable c ∧
      (∃ x ∈ c.state.store.past .testRun, x.name = "testrun" ∧ (slots x.spec).count someKey = 1) ∧
      (requestsEver "testrun" someKey c.state.store).length = 2 := by
  refine ⟨⟨played (testRunRequested ++ [round (.testRun "testrun") requestsLag]), fun _ => none⟩, ?_, ?_, by decide⟩
  · exact (plays_runs (by decide : Meets (fun _ _ _ _ => True) _)).of_restrict
  · have hx : ∃ x ∈ (played (testRunRequested ++ [round (.testRun "testrun") requestsLag])).store.past .testRun,
        x.name = "testrun" ∧ (slots x.spec).count someKey = 1 := by decide
    exact hx

end Etos
