import Etos.Provider.Split

/-!
# `TestRun.Order` — requests do not depend on the order of a map

`createEnvironmentRequests` collects the test runners of a suite in a map and ranges over it: in any order, and as far
as the first error. The name of a request counts from the first test with its test runner in the suite, not from the
order of the map, so it does not matter how far an earlier pass has come, or in what order
(**`requests_regardless_of_order`**).
-/

namespace Etos

open Kube Prog

namespace TestRunReconciler

/-- The call has created an object. -/
def hasCreated : Said Op Ans → Bool
  | ⟨.create _ _, .ok _⟩ => true
  | _ => false

/-- The EnvironmentRequests that were not refused. -/
def acceptedRequests (log : List (Said Op Ans)) : List EnvironmentRequest := createdRequests (log.filter hasCreated)

theorem acceptedRequests_sublist (log : List (Said Op Ans)) : (acceptedRequests log).Sublist (createdRequests log) :=
  List.filter_sublist.filterMap _

/-- A pass over a suite has come so far. -/
def SuitePass (suite : Suite) (requests : List EnvironmentRequest) (log : List (Said Op Ans)) : Prop :=
  ∃ testrun cluster left, (createEnvironmentRequests suite requests testrun cluster).After log left

/-- A pass has ended without an error. -/
def FullPass (suite : Suite) (requests : List EnvironmentRequest) (log : List (Said Op Ans)) : Prop :=
  ∃ testrun cluster, (createEnvironmentRequests suite requests testrun cluster).Returns none log

/-- The requests are still there. -/
def Kept (requests later : List EnvironmentRequest) : Prop := ∀ R ∈ requests, requestKey R ∈ later.map requestKey

variable {suite : Suite} {requests later : List EnvironmentRequest} {log log' : List (Said Op Ans)}

theorem Kept.found {r : String} (h : Kept requests later) (hfound : requestFound suite r requests = true) :
    requestFound suite r later = true := by
  obtain ⟨R, hR, hclaims⟩ := requestFound_iff.mp hfound
  obtain ⟨R', hR', hkey⟩ := List.mem_map.mp (h R hR)
  exact requestFound_iff.mpr ⟨R', hR', hkey ▸ hclaims⟩

/-- The keys of a pass are those of the first test runners in some order. -/
theorem SuitePass.keys (h : SuitePass suite requests log) :
    ∃ runners : List String, runners.Nodup ∧
      (∀ r ∈ runners, r ∈ testrunners suite ∧ requestFound suite r requests = false) ∧
      (createdRequests log).map requestKey = runners.map (slotKey suite) := by
  obtain ⟨testrun, cluster, left, h⟩ := h
  obtain ⟨order, runners, hperm, hbegins, hmade, -⟩ := createEnvironmentRequests_after h
  refine ⟨runners, ?_, fun r hr => ?_, map_requestKey hmade⟩
  · exact ((hperm.nodup_iff.mpr (testrunners_nodup suite)).filter _).sublist hbegins.sublist
  · obtain ⟨hmem, hfound⟩ := List.mem_filter.mp (hbegins.subset hr)
    exact ⟨hperm.mem_iff.mp hmem, by simpa using hfound⟩

theorem FullPass.keys (h : FullPass suite requests log) :
    ((createdRequests log).map requestKey).Perm
      (((testrunners suite).filter fun r => !requestFound suite r requests).map (slotKey suite)) := by
  obtain ⟨testrun, cluster, h⟩ := h
  obtain ⟨⟨order, hperm, hkeys⟩, -⟩ := createEnvironmentRequests_returns h
  rw [hkeys]
  exact (hperm.filter _).map _

theorem names_of_keys {made : List EnvironmentRequest} {runners : List String}
    (h : made.map requestKey = runners.map (slotKey suite)) :
    made.map (·.spec.name) = runners.map (requestName suite) := by
  have hnames := congrArg (List.map Key.name) h
  rw [List.map_map, List.map_map] at hnames
  exact hnames

/-- The names of a pass are distinct. -/
theorem SuitePass.names_nodup (h : SuitePass suite requests log) : ((createdRequests log).map (·.spec.name)).Nodup := by
  obtain ⟨runners, hnodup, hrunners, hkeys⟩ := h.keys
  rw [names_of_keys hkeys]
  exact hnodup.map_on fun r hr r' hr' => requestName_inj (hrunners r hr).1 (hrunners r' hr').1

/-- A request of a pass is for its test runner, which had none. -/
theorem SuitePass.key {R : EnvironmentRequest} (h : SuitePass suite requests log) (hR : R ∈ createdRequests log) :
    runnerOf R ∈ testrunners suite ∧ requestFound suite (runnerOf R) requests = false ∧
      requestKey R = slotKey suite (runnerOf R) := by
  obtain ⟨testrun, cluster, left, h⟩ := h
  obtain ⟨r, hr, hfound, hfor⟩ := createEnvironmentRequests_madeFor h hR
  have hrunner : runnerOf R = r := congrArg Key.testRunner hfor.key
  rw [hrunner]
  exact ⟨hr, hfound, hfor.key⟩

theorem FullPass.pass (h : FullPass suite requests log) : SuitePass suite requests log := by
  obtain ⟨testrun, cluster, h⟩ := h
  exact ⟨testrun, cluster, _, Returns.after h⟩

/-- **The requests of a suite do not depend on the order of its test runners.** Two passes without an error create
    requests with the same names, test runners and tests. No two requests of a pass have the same name, nor have those
    of an interrupted pass and a later one that finds them. A request of the later pass is the one that a pass without
    an interruption creates for its test runner. -/
theorem requests_regardless_of_order (suite : Suite) (requests : List EnvironmentRequest) :
    (∀ full full', FullPass suite requests full → FullPass suite requests full' →
      ((createdRequests full).map requestKey).Perm ((createdRequests full').map requestKey)) ∧
    (∀ log, SuitePass suite requests log → ((createdRequests log).map (·.spec.name)).Nodup) ∧
    ∀ log later log', SuitePass suite requests log → SuitePass suite later log' →
      (Kept (requests ++ acceptedRequests log) later →
        ((acceptedRequests log ++ createdRequests log').map (·.spec.name)).Nodup) ∧
      ∀ full, FullPass suite requests full → ∀ R ∈ createdRequests log',
        (∀ R' ∈ createdRequests full, runnerOf R' = runnerOf R → requestKey R' = requestKey R) ∧
        (Kept requests later → requestKey R ∈ (createdRequests full).map requestKey) := by
  refine ⟨fun full full' hfull hfull' => hfull.keys.trans hfull'.keys.symm, fun log hlog => hlog.names_nodup,
    fun log later log' hlog hlater => ⟨fun hkept => ?_, fun full hfull R hR =>
      ⟨fun R' hR' hrunner => ?_, fun hkept => ?_⟩⟩⟩
  · have haccepted := (acceptedRequests_sublist log).map fun R => R.spec.name
    rw [List.map_append, List.nodup_append']
    -- two requests of the same name would be for the same test runner
    refine ⟨hlog.names_nodup.sublist haccepted, hlater.names_nodup, fun name hname hname' => ?_⟩
    obtain ⟨R, hR, rfl⟩ := List.mem_map.mp hname
    obtain ⟨R', hR', hsame⟩ := List.mem_map.mp hname'
    obtain ⟨hrunner, -, hkey⟩ := hlog.key ((acceptedRequests_sublist log).subset hR)
    obtain ⟨hrunner', hmissing, hkey'⟩ := hlater.key hR'
    have hsame' : runnerOf R' = runnerOf R := by
      refine requestName_inj hrunner' hrunner ?_
      have h' : R'.spec.name = _ := congrArg Key.name hkey'
      have h : R.spec.name = _ := congrArg Key.name hkey
      exact h'.symm.trans (hsame.trans h)
    -- the later pass has found the request
    have hfound := hkept.found (requestFound_of_key (List.mem_append_right requests hR) hkey)
    rw [← hsame', hmissing] at hfound
    cases hfound
  · rw [(hfull.pass.key hR').2.2, (hlater.key hR).2.2, hrunner]
  · obtain ⟨hrunner, hmissing, hkey⟩ := hlater.key hR
    rw [hfull.keys.mem_iff, hkey]
    refine List.mem_map_of_mem (List.mem_filter.mpr ⟨hrunner, ?_⟩)
    rw [Bool.not_eq_true']
    exact Bool.eq_false_iff.mpr fun hfound => absurd (hkept.found hfound) (Bool.eq_false_iff.mp hmissing)

section

/-- The second of two requests is refused. -/
theorem second_refused : ∃ log, SuitePass threeTests [] log ∧ (acceptedRequests log).length = 1 := by
  have hrun : ∃ log, (createEnvironmentRequests threeTests [] equippedTestRun equippedCluster).Returns
      (some (.new "refused")) log ∧ (acceptedRequests log).length = 1 :=
    ⟨_, ⟨⟨["python", "go"], .refl _⟩, _, rfl, (0 : Int), _, rfl, "id", _, rfl, .ok ⟨{}, {}, {}⟩, _, rfl,
      (0 : Int), _, rfl, "id", _, rfl, .error (.new "refused"), _, rfl, rfl, rfl⟩, rfl⟩
  obtain ⟨log, hlog, hone⟩ := hrun
  exact ⟨log, ⟨_, _, _, Returns.after hlog⟩, hone⟩

theorem fullPass_granted (requests : List EnvironmentRequest) : ∃ full, FullPass threeTests requests full := by
  have hguarded : (createEnvironmentRequests threeTests requests equippedTestRun equippedCluster).Guarded Granted
      (fun _ => True) (fun _ => True) (· = none) :=
    ⟨trivial, fun order _ => createRequests_granted equipped _⟩
  obtain ⟨full, h⟩ := twoOfEach_returns hguarded twoOfEach_granted
  exact ⟨full, _, _, h⟩

/-- It is created by a later pass. -/
theorem refused_request_created_later : ∃ log log' full,
    SuitePass threeTests [] log ∧ (acceptedRequests log).length = 1 ∧
    SuitePass threeTests (acceptedRequests log) log' ∧ FullPass threeTests [] full ∧
    ((acceptedRequests log ++ createdRequests log').map (·.spec.name)).Nodup ∧
    ∀ R ∈ createdRequests log', requestKey R ∈ (createdRequests full).map requestKey := by
  obtain ⟨log, hpass, hone⟩ := second_refused
  obtain ⟨log', hlater⟩ := fullPass_granted (acceptedRequests log)
  obtain ⟨full, hfull⟩ := fullPass_granted []
  obtain ⟨-, -, hboth⟩ := requests_regardless_of_order threeTests []
  obtain ⟨hnames, hkeys⟩ := hboth log _ log' hpass hlater.pass
  refine ⟨log, log', full, hpass, hone, hlater.pass, hfull, hnames ?_, fun R hR => (hkeys full hfull R hR).2 ?_⟩
  · exact fun R hR => List.mem_map_of_mem hR
  · exact fun R hR => absurd hR List.not_mem_nil

end

end TestRunReconciler

end Etos
