import Etos.EnvironmentRequest.Versions
import Etos.Operator.Jobs

/-!
# `EnvironmentRequest.Finality` — a request that has failed or completed stays so

Ready is written in eight places. Failed is protected by an early return, Completed by the completion time that is
written together with it, and the deletion path writes the condition back as it has found it: along the versions of a
request a terminal condition therefore keeps its status and reason (`RequestHistory`). A job is created by a `Reconcile`
that has read a request that is not terminal, and as long as `Reconcile` reads the stored version, nobody can have made
the request terminal in the meantime, since only the reconciler writes its status (`RequestUnchanged`). Both together
are **`request_final`**.
-/

namespace Etos

open Kube EnvironmentRequestReconciler

/-- Ready has reason Failed or Completed. -/
def Terminal (x : EnvironmentRequest) : Prop := (x.status.progress .ready).terminal

/-- What the versions of the request `n` have in common, whoever wrote them. -/
structure RequestHistory (n : String) (s : Namespace) : Prop where
  timed : ∀ x ∈ s.past .environmentRequest, x.name = n → (x.status.progress .ready).timed
  /-- A terminal condition keeps its status and reason. -/
  stays : ∀ x ∈ s.past .environmentRequest, ∀ y ∈ s.past .environmentRequest, x.name = n → y.name = n →
    x.metadata.resourceVersion ≤ y.metadata.resourceVersion → Terminal x → y.status.cond .ready = x.status.cond .ready

section

variable {n : String} {w : OperatorState} {wrote : String → Prop} {made : EnvironmentRequest → Prop} {s : Namespace}
  {x y new : EnvironmentRequest}

/-- The condition of a terminal request, on top of which a new version is stored. -/
theorem NewVersion.stays (h : NewVersion w wrote made new) (hh : RequestHistory n w.store) (hnew : new.name = n)
    (hx : x ∈ w.store.past .environmentRequest) (hxn : x.name = n) (ht : Terminal x) :
    new.status.cond .ready = x.status.cond .ready := by
  -- the version below the new one is not older than `x`
  have hbelow : ∀ cur, w.store.find .environmentRequest new.name = some cur →
      cur.status.cond .ready = x.status.cond .ready ∧ cur.name = n := by
    intro cur hf
    have hcn : cur.name = n := (w.store.named hf).trans hnew
    have hle : x.metadata.resourceVersion ≤ cur.metadata.resourceVersion := by
      refine w.store.latest hx ?_
      rw [hxn, ← hnew]
      exact hf
    exact ⟨hh.stays x hx cur (w.store.current hf) hxn hcn hle ht, hcn⟩
  cases h with
  | created hfresh => exact absurd (hxn.trans hnew.symm) (hfresh x hx)
  | kept hf hst =>
      rw [hst]
      exact (hbelow _ hf).1
  | @written cur _ hf hopen hm ha =>
      obtain ⟨hcond, hcn⟩ := hbelow cur hf
      have hterm : (cur.status.progress .ready).terminal := by
        obtain ⟨st, r, hr, hfin⟩ := ht
        exact ⟨st, r, hcond.trans hr, hfin⟩
      have hsame : new.status.cond .ready = cur.status.cond .ready :=
        ha.ready_eq (hh.timed cur (w.store.current hf) hcn) hterm
      exact hsame.trans hcond

theorem NewVersion.timed (h : NewVersion w wrote made new) (hh : RequestHistory n w.store) (hnew : new.name = n) :
    (new.status.progress .ready).timed := by
  cases h with
  | created _ hst =>
      intro st hs
      rw [hst] at hs
      cases hs
  | kept hf hst =>
      rw [hst]
      exact hh.timed _ (w.store.current hf) ((w.store.named hf).trans hnew)
  | written _ hf _ _ ha => exact ha.timed (hh.timed _ (w.store.current hf) ((w.store.named hf).trans hnew))

/-- A step keeps the history. -/
theorem RequestHistory.step (hh : RequestHistory n w.store) (h : RequestStep w wrote made s) : RequestHistory n s := by
  rcases h with hsame | ⟨new, hpast, hversion, hnew⟩
  · exact ⟨by rw [hsame]; exact hh.timed, by rw [hsame]; exact hh.stays⟩
  refine ⟨fun x hx hxn => ?_, fun x hx y hy hxn hyn hle ht => ?_⟩
  · rw [hpast] at hx
    rcases List.mem_cons.mp hx with rfl | hx
    · exact hnew.timed hh hxn
    · exact hh.timed x hx hxn
  · rw [hpast] at hx hy
    rcases List.mem_cons.mp hx with rfl | hold
    · rcases List.mem_cons.mp hy with rfl | hy
      · rfl
      · -- nothing that was stored before is newer
        have hdated := w.store.dated hy
        omega
    · rcases List.mem_cons.mp hy with rfl | hy
      · exact hnew.stays hh hyn hold hxn ht
      · exact hh.stays x hold y hy hxn hyn hle ht

/-- As long as the worker has not written the status, every version since the one it has read has that status. -/
def RequestUnchanged (n : String) (w : OperatorState) : Prop :=
  ∀ x, Got (w.log (.environmentRequest n)) .environmentRequest n x →
    Never (WritesStatus .environmentRequest) (w.log (.environmentRequest n)) →
    ∀ y ∈ w.store.past .environmentRequest, y.name = n →
      x.metadata.resourceVersion ≤ y.metadata.resourceVersion → y.status = x.status

/-- A version that is stored by anything but a status write of the worker. -/
theorem NewVersion.status_eq (h : NewVersion w wrote made new) (hwrote : ¬ wrote n) (hnew : new.name = n)
    (hx : x ∈ w.store.past .environmentRequest) (hxn : x.name = n)
    (hu : ∀ y ∈ w.store.past .environmentRequest, y.name = n →
      x.metadata.resourceVersion ≤ y.metadata.resourceVersion → y.status = x.status) : new.status = x.status := by
  cases h with
  | created hfresh => exact absurd (hxn.trans hnew.symm) (hfresh x hx)
  | @kept cur hf hst =>
      have hcn : cur.name = n := (w.store.named hf).trans hnew
      have hle : x.metadata.resourceVersion ≤ cur.metadata.resourceVersion := by
        refine w.store.latest hx ?_
        rw [hxn, ← hnew]
        exact hf
      rw [hst]
      exact hu cur (w.store.current hf) hcn hle
  | written hw =>
      rw [hnew] at hw
      exact absurd hw hwrote

/-- A step that is no status write of the worker. -/
theorem RequestUnchanged.step (hu : RequestUnchanged n w) (hk : w.Knowing) (h : RequestStep w wrote made s)
    (hwrote : ¬ wrote n) (hg : Got (w.log (.environmentRequest n)) .environmentRequest n x)
    (hnever : Never (WritesStatus .environmentRequest) (w.log (.environmentRequest n)))
    (hy : y ∈ s.past .environmentRequest) (hyn : y.name = n)
    (hle : x.metadata.resourceVersion ≤ y.metadata.resourceVersion) : y.status = x.status := by
  have htells := hk _ _ hg
  have hx : x ∈ w.store.past .environmentRequest := htells.reads .environmentRequest x .get
  have hxn : x.name = n := htells.named .environmentRequest n x rfl
  rcases h with hsame | ⟨new, hpast, _, hnew⟩
  · rw [hsame] at hy
    exact hu x hg hnever y hy hyn hle
  · rw [hpast] at hy
    rcases List.mem_cons.mp hy with rfl | hy
    · exact hnew.status_eq hwrote hyn hx hxn (hu x hg hnever)
    · exact hu x hg hnever y hy hyn hle

end

/-! ## Runs -/

/-- A `Reconcile` of the request `n` starts from the version that is stored. -/
def readsStored (n : String) (i : Worker) (w : OperatorState) : (o : Op) → Ans o → Prop
  | .get .environmentRequest m, .ok x => i = .environmentRequest n → m = n →
      w.store.find .environmentRequest n = some x
  | _, _ => True

instance (n : String) (i : Worker) (w : OperatorState) (o : Op) (a : Ans o) : Decidable (readsStored n i w o a) := by
  unfold readsStored
  split
  · exact inferInstanceAs (Decidable (_ → _ → _ = (some _ : Option EnvironmentRequest)))
  · exact .isTrue trivial

variable {op : Operator} {n : String}

/-- The versions of a request in any run. -/
theorem requestHistory {cond} {c} (h : (op.runs cond).Reachable c) : RequestHistory n c.state.store := by
  refine (Operator.invariant (I := fun w => RequestHistory n w.store) ?_ ?_ ?_ ?_ h).2
  · exact ⟨fun _ hx => (nomatch hx), fun _ hx => (nomatch hx)⟩
  · exact fun _ _ _ hh => hh
  · exact fun i w o a s hk hh hperm hs _ => hh.step (.of_call hk hperm hs)
  · exact fun w o a s _ hh ho hw => hh.step (.of_others ho hw)

theorem requestUnchanged {c} (h : (op.runs (readsStored n)).Reachable c) : RequestUnchanged n c.state := by
  refine (Operator.invariant (I := RequestUnchanged n) ?_ ?_ ?_ ?_ h).2
  · intro x hg
    cases hg
  · intro i w _ hu x hg hnever
    by_cases hi : Worker.environmentRequest n = i
    · subst hi
      rw [Got, Cluster.log_fresh_self] at hg
      cases hg
    · rw [Got, Cluster.log_fresh_ne hi] at hg
      rw [Cluster.log_fresh_ne hi] at hnever
      exact hu x hg hnever
  · intro i w o a s hk hu hperm hs hc x hg hnever y hy hyn hle
    have hstep := RequestStep.of_call hk hperm hs
    by_cases hi : Worker.environmentRequest n = i
    · subst hi
      rw [Got, Cluster.log_record_self] at hg
      rw [Cluster.log_record_self] at hnever
      have hwrote : ¬ WritesStatus .environmentRequest o := hnever ⟨o, a⟩ List.mem_cons_self
      have hbefore : Never (WritesStatus .environmentRequest) (w.log (.environmentRequest n)) :=
        fun e he => hnever e (List.mem_cons_of_mem _ he)
      rcases List.mem_cons.mp hg with hsaid | hg
      · -- the version that is read is the stored one, so there is none since
        cases hsaid
        have hf : w.store.find .environmentRequest n = some x := hc rfl rfl
        obtain rfl : s = w.store := by
          cases hs with
          | get => rfl
          | write h => cases h
          | lost h => cases h
          | error ha => cases ha
        have hlatest : y.metadata.resourceVersion ≤ x.metadata.resourceVersion := by
          refine w.store.latest hy ?_
          rw [hyn]
          exact hf
        rw [w.store.unique hy (w.store.current hf) (Nat.le_antisymm hlatest hle)]
      · exact hu.step hk hstep (fun hw => hwrote hw.2) hg hbefore hy hyn hle
    · rw [Got, Cluster.log_record_ne hi] at hg
      rw [Cluster.log_record_ne hi] at hnever
      refine hu.step hk hstep ?_ hg hnever hy hyn hle
      rintro ⟨rfl, _⟩
      exact hi rfl
  · intro w o a s hk hu ho hw x hg hnever y hy hyn hle
    exact hu.step hk (.of_others ho hw) id hg hnever hy hyn hle

/-- What a `Reconcile` has read as not terminal was never terminal. -/
theorem never_terminal_of_opened {w : OperatorState} {x y : EnvironmentRequest} (hk : w.Knowing)
    (hh : RequestHistory n w.store) (hu : RequestUnchanged n w) (h : Opened n (w.log (.environmentRequest n)) x)
    (hx : (x.status.progress .ready).underway) (hy : y ∈ w.store.past .environmentRequest) (hyn : y.name = n) :
    ¬ Terminal y := by
  intro ht
  have htells := hk _ _ h.got
  have hpast : x ∈ w.store.past .environmentRequest := htells.reads .environmentRequest x .get
  have hxn : x.name = n := htells.named .environmentRequest n x rfl
  have hxt : Terminal x := by
    rcases Nat.le_total x.metadata.resourceVersion y.metadata.resourceVersion with hle | hle
    · rw [Terminal, ← hu x h.got h.unwritten y hy hyn hle]
      exact ht
    · obtain ⟨st, r, hr, hfin⟩ := ht
      exact ⟨st, r, (hh.stays y hy x hpast hyn hxn hle ⟨st, r, hr, hfin⟩).trans hr, hfin⟩
  exact hx.not_terminal (hh.timed x hpast hxn) hxt

/-- **Finality.** In every run in which the `Reconcile`s of a request start from its stored version, whatever else they
    are told: a version of the request that has Ready with reason Failed or Completed is followed only by versions with
    the same status and reason, and when a provider job is created for the request, there has been no such version. -/
theorem request_final (n : String) {c} (h : (op.runs (readsStored n)).Reachable c) :
    (∀ x ∈ c.state.store.past .environmentRequest, ∀ y ∈ c.state.store.past .environmentRequest, x.name = n →
        y.name = n → x.metadata.resourceVersion ≤ y.metadata.resourceVersion → Terminal x →
        y.status.cond .ready = x.status.cond .ready) ∧
      ∀ i, ∀ e ∈ c.state.rounds i, ∀ job, e.op = .create .job job → (Worker.environmentRequest n).Owns job →
        ∀ y ∈ e.before.past .environmentRequest, y.name = n → ¬ Terminal y := by
  refine ⟨(requestHistory h).stays, ?_⟩
  refine Operator.events (J := fun w => RequestHistory n w.store ∧ RequestUnchanged n w)
    (P := fun _ e => ∀ job, e.op = .create .job job → (Worker.environmentRequest n).Owns job →
      ∀ y ∈ e.before.past .environmentRequest, y.name = n → ¬ Terminal y)
    (fun c hc => ⟨requestHistory hc, requestUnchanged hc⟩) ?_ h
  rintro i w o a hk ⟨hh, hu⟩ hperm _ job rfl hown y hy hyn
  -- the job belongs to the worker that creates it
  obtain rfl : i = .environmentRequest n := Worker.Owns.unique hperm.mayCreateJob.own hown
  obtain ⟨_, x, hopen, _, hx⟩ := hperm
  exact never_terminal_of_opened hk hh hu hopen hx hy hyn

/-- A request that names providers nobody has created, deleted after it has failed. -/
def requestFailed : List Turn :=
  [other (.create .environmentRequest (plainRequest "request")), round (.environmentRequest "request"),
    round (.environmentRequest "request"), round (.environmentRequest "request"),
    other (.delete .environmentRequest "request"), round (.environmentRequest "request")]

/-- The version that is marked for deletion still has the condition of the one that failed. -/
theorem request_final_failed :
    (∃ x ∈ (played requestFailed).store.past .environmentRequest, Terminal x ∧ x.deleting = false) ∧
      (∃ y ∈ (played requestFailed).store.past .environmentRequest, y.deleting = true) ∧
      ∀ x ∈ (played requestFailed).store.past .environmentRequest,
        ∀ y ∈ (played requestFailed).store.past .environmentRequest, x.name = "request" → y.name = "request" →
        x.metadata.resourceVersion ≤ y.metadata.resourceVersion → Terminal x →
        y.status.cond .ready = x.status.cond .ready := by
  have hmeets : Meets (readsStored "request") requestFailed := by decide
  refine ⟨⟨_, List.mem_cons_of_mem _ List.mem_cons_self, ⟨.false, .failed, rfl, .inl rfl⟩, rfl⟩, ?_, ?_⟩
  · exact ⟨_, List.mem_cons_self, rfl⟩
  · exact (request_final "request" (plays_runs hmeets)).1

end Etos
