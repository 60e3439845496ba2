import Etos.Operator.Runs

/-!
# `Operator.Jobs` — jobs and the workers that control them

Only its worker creates jobs that an object controls, and it does so at most once in a round, after it has listed them
and found none. What it has found may be out of date: `Misses` says that an empty answer hides a job. As long as that
does not happen to a worker, it creates a job only if there is none (**`guarded`**). This is shown for two readings of
"there is a job": one exists now (`Present`), or one has existed at some time (`Ever`).
-/

namespace Etos

open Kube

/-- The worker controls the job. -/
def Worker.Owns (i : Worker) (job : Job) : Prop := i.selector.matches job.metadata = true

instance (i : Worker) (job : Job) : Decidable (i.Owns job) := inferInstanceAs (Decidable (_ = _))

/-- Ownership is decided by the controller reference. -/
theorem Worker.owns_iff {i : Worker} {job : Job} : i.Owns job ↔ ∃ r, job.metadata.controllerOf = some r ∧
    i.selector = .controlledBy r.apiVersion r.kind r.name := by
  have hsel : ∀ apiVersion kind name, (Selector.controlledBy apiVersion kind name).matches job.metadata = true ↔
      ∃ r, job.metadata.controllerOf = some r ∧
        Selector.controlledBy apiVersion kind name = .controlledBy r.apiVersion r.kind r.name := by
    intro apiVersion kind name
    rw [Selector.matches_controlledBy]
    constructor
    · rintro ⟨r, hr, rfl, rfl, rfl⟩
      exact ⟨r, hr, rfl⟩
    · rintro ⟨r, hr, hsame⟩
      cases hsame
      exact ⟨r, hr, rfl, rfl, rfl⟩
  unfold Owns
  cases i <;> exact hsel _ _ _

theorem Worker.Owns.congr {i : Worker} {job job' : Job} (h : i.Owns job)
    (hm : job'.metadata.ownerReferences = job.metadata.ownerReferences) : i.Owns job' := by
  obtain ⟨r, hr, hsel⟩ := owns_iff.mp h
  refine owns_iff.mpr ⟨r, ?_, hsel⟩
  rw [ObjectMeta.controllerOf_congr hm]
  exact hr

theorem Worker.selector_injective {i j : Worker} (h : i.selector = j.selector) : i = j := by
  have hkinds : testRunKind ≠ EnvironmentRequestReconciler.environmentRequestKind ∧
      testRunKind ≠ EnvironmentReconciler.environmentKind ∧
      EnvironmentRequestReconciler.environmentRequestKind ≠ EnvironmentReconciler.environmentKind := by decide
  have hversions : apiGroupVersionString ≠ apiV2GroupVersionString := by decide
  have hresource : ∀ r r' : ResourceKind, r.kindName = r'.kindName → r = r' := by
    intro r r'
    cases r <;> cases r' <;> decide
  cases i <;> cases j <;>
    simp only [selector, Selector.controlledBy.injEq, true_and, testRun.injEq, environmentRequest.injEq,
      environment.injEq, resource.injEq] at h ⊢
  all_goals first
    | exact h
    | exact absurd h.1 hkinds.1
    | exact absurd h.1 hkinds.2.1
    | exact absurd h.1 hkinds.2.2
    | exact absurd h.1.symm hkinds.1
    | exact absurd h.1.symm hkinds.2.1
    | exact absurd h.1.symm hkinds.2.2
    | exact absurd h.1 hversions
    | exact absurd h.1.symm hversions
    | exact ⟨hresource _ _ h.1, h.2⟩

/-- A job has one owner. -/
theorem Worker.Owns.unique {i j : Worker} {job : Job} (hi : i.Owns job) (hj : j.Owns job) : i = j := by
  obtain ⟨r, hr, hsel⟩ := owns_iff.mp hi
  obtain ⟨r', hr', hsel'⟩ := owns_iff.mp hj
  obtain rfl : r = r' := Option.some.inj (hr.symm.trans hr')
  exact Worker.selector_injective (hsel.trans hsel'.symm)

/-! ## What happens to jobs -/

/-- Updates of jobs leave the owners alone. -/
def KeepsJobOwners (s : Namespace) (o : Op) : Prop :=
  ∀ x : Job, o = .update .job x → ∀ cur, s.find .job x.name = some cur →
    x.metadata.ownerReferences = cur.metadata.ownerReferences

theorem Worker.Permits.keepsJobOwners {i : Worker} {l : Log} {s : Namespace} {o : Op} (h : i.Permits l o) :
    KeepsJobOwners s o := by
  rintro x rfl
  cases i <;> exact h.elim

theorem others.keepsJobOwners {s : Namespace} {o : Op} (h : others s o) : KeepsJobOwners s o := by
  rintro x rfl cur hcur
  exact (h cur hcur).2.2

/-- A job that others create has no owner. -/
theorem others.not_owns {s : Namespace} {job : Job} (h : others s (.create .job job)) (i : Worker) : ¬ i.Owns job := by
  intro hown
  obtain ⟨r, hr, _⟩ := Worker.owns_iff.mp hown
  rw [h.2.2.1] at hr
  cases hr

theorem Worker.Permits.mayCreateJob {i : Worker} {l : Log} {job : Job} (h : i.Permits l (.create .job job)) :
    MayCreateJob i l job := by
  cases i with
  | testRun n => exact h
  | environmentRequest n => exact h.1
  | environment n => exact h.1
  | resource r n => exact h.1

variable {s s' : Namespace} {o : Op} {i j : Worker}

/-- A stored job was stored before, with the same owners, or has just been created. -/
theorem find_job_of_touches (h : Store.Touches admitted s .job o s') (ho : KeepsJobOwners s o) {m : String} {y : Job}
    (hf : s'.find .job m = some y) :
    (∃ y₀, s.find .job m = some y₀ ∧ y₀.metadata.ownerReferences = y.metadata.ownerReferences) ∨
      ∃ job, o = .create .job job ∧ s.find .job m = none ∧
        job.metadata.ownerReferences = y.metadata.ownerReferences := by
  -- what is put there has the owners of what was there
  have hput : ∀ (x cur : Job), s.find .job x.name = some cur →
      x.metadata.ownerReferences = cur.metadata.ownerReferences → (s.put .job x).find .job m = some y →
      ∃ y₀, s.find .job m = some y₀ ∧ y₀.metadata.ownerReferences = y.metadata.ownerReferences := by
    intro x cur hcur hown hf
    rcases Store.find_of_put hf with hold | ⟨_, rfl, rfl⟩
    · exact ⟨y, hold, rfl⟩
    · exact ⟨cur, hcur, hown.symm⟩
  cases h with
  | @create x x' n t ha hn hnone =>
      obtain rfl : x' = x := ha
      rcases Store.find_of_put hf with hold | ⟨_, rfl, rfl⟩
      · exact .inl ⟨y, hold, rfl⟩
      · exact .inr ⟨x', rfl, hnone, rfl⟩
  | @update x x' cur ha hcur hv hok =>
      obtain rfl : x' = x := ha
      exact .inl (hput (Store.merged cur x') cur hcur (ho x' rfl cur hcur) hf)
  | finish => exact .inl ⟨y, Store.find_of_erase hf, rfl⟩
  | @status x cur hcur hv =>
      have hname : cur.name = x.name := s.named hcur
      exact .inl (hput { cur with status := x.status } cur (hname ▸ hcur) rfl hf)
  | remove => exact .inl ⟨y, Store.find_of_erase hf, rfl⟩
  | @mark n t cur hcur =>
      have hname : cur.name = n := s.named hcur
      exact .inl (hput (Store.marked cur t) cur (hname ▸ hcur) rfl hf)

/-! ## Is there a job? -/

/-- The worker controls a job that exists. -/
def Present (i : Worker) (s : Namespace) : Prop := ∃ m y, s.find .job m = some y ∧ i.Owns y

/-- The worker controls a job that exists or has existed. -/
def Ever (i : Worker) (s : Namespace) : Prop := ∃ y ∈ s.past .job, i.Owns y

/-- A way to say that a worker has a job: only creating one brings it about. -/
structure Presence (there : Worker → Namespace → Prop) : Prop where
  empty : ∀ i, ¬ there i Store.empty
  step : ∀ {i s o s'}, KeepsJobOwners s o →
    ((s'.find .job = s.find .job ∧ s'.past .job = s.past .job) ∨ Store.Touches admitted s .job o s') →
    there i s' → there i s ∨ ∃ job, o = .create .job job ∧ i.Owns job

theorem presence_present : Presence Present where
  empty := by
    rintro i ⟨m, y, hf, _⟩
    cases hf
  step := by
    rintro i s o s' ho h ⟨m, y, hf, hown⟩
    rcases h with ⟨hfind, _⟩ | h
    · rw [hfind] at hf
      exact .inl ⟨m, y, hf, hown⟩
    · rcases find_job_of_touches h ho hf with ⟨y₀, hf₀, hm⟩ | ⟨job, rfl, _, hm⟩
      · exact .inl ⟨m, y₀, hf₀, hown.congr hm⟩
      · exact .inr ⟨job, rfl, hown.congr hm⟩

/-! ## Workers that are told about their jobs -/

/-- The call is a list of the worker's jobs that comes back empty although there is one, and the worker was not told
    otherwise that there should be one. -/
def Misses (there : Worker → Namespace → Prop) (i : Worker) (w : OperatorState) : (o : Op) → Ans o → Prop
  | .list .job sel, .ok jobs => sel = i.selector ∧ jobs = [] ∧ i.Unmarked (w.log i) ∧ there i w.store
  | _, _ => False

/-- **A guarded worker**: after it has found no job there is none, and where it creates one there was none. -/
structure Guarded (there : Worker → Namespace → Prop) (i : Worker) (w : OperatorState) : Prop where
  none : FoundNone i (w.log i) → Never CreatesJob (w.log i) → ¬ there i w.store
  created : ∀ e ∈ w.rounds i, CreatesJob e.op → ¬ there i e.before

variable {there : Worker → Namespace → Prop} {w : OperatorState} {op : Operator}

/-- A step of somebody else. -/
theorem Guarded.other (hp : Presence there) (hg : Guarded there i w) {w' : OperatorState}
    (hr : w'.rounds i = w.rounds i) (ho : KeepsJobOwners w.store o)
    (h : (w'.store.find .job = w.store.find .job ∧ w'.store.past .job = w.store.past .job) ∨
      Store.Touches admitted w.store .job o w'.store)
    (hno : ∀ job, o = .create .job job → ¬ i.Owns job) : Guarded there i w' := by
  have hlog : w'.log i = w.log i := congrArg (List.map Event.toSaid) hr
  refine ⟨fun hnone hnever hthere => ?_, fun e he => ?_⟩
  · rw [hlog] at hnone hnever
    rcases hp.step ho h hthere with hold | ⟨job, hjob, hown⟩
    · exact hg.none hnone hnever hold
    · exact hno job hjob hown
  · rw [hr] at he
    exact hg.created e he

/-- A step of the worker itself. -/
theorem Guarded.own (hp : Presence there) (hg : Guarded there i w) {a : Ans o} (hperm : i.Permits (w.log i) o)
    (hs : Store.Sem admitted w.store o a s) (hc : ¬ Misses there i w o a) : Guarded there i (w.record i o a s) := by
  have hpresent : CreatesJob o → ¬ there i w.store := by
    rintro ⟨job, rfl⟩
    have hmay := hperm.mayCreateJob
    exact hg.none hmay.none hmay.first
  refine ⟨fun hnone hnever hthere => ?_, fun e he hjob => ?_⟩
  · rw [Cluster.log_record_self] at hnone hnever
    have hnever' : Never CreatesJob (w.log i) := fun e he => hnever e (List.mem_cons_of_mem _ he)
    have hold : there i w.store := by
      rcases hp.step hperm.keepsJobOwners (hs.touches .job) hthere with hold | ⟨job, rfl, _⟩
      · exact hold
      · exact absurd ⟨job, rfl⟩ (hnever ⟨.create .job job, a⟩ List.mem_cons_self)
    obtain ⟨later, earlier, hl, hu⟩ := hnone
    cases later with
    | nil =>
        -- the list that has just been answered
        rw [List.nil_append] at hl
        obtain ⟨hsaid, rfl⟩ := List.cons.inj hl
        cases hsaid
        exact hc ⟨rfl, rfl, hu, hold⟩
    | cons e later =>
        obtain ⟨_, hl⟩ := List.cons.inj hl
        exact hg.none ⟨later, earlier, hl, hu⟩ hnever' hold
  · have he' : e ∈ ⟨⟨o, a⟩, w.store⟩ :: w.rounds i := by
      have hrounds : (w.record i o a s).rounds i = ⟨⟨o, a⟩, w.store⟩ :: w.rounds i := by simp [Cluster.record]
      rw [← hrounds]
      exact he
    rcases List.mem_cons.mp he' with rfl | he'
    · exact hpresent hjob
    · exact hg.created e he' hjob

/-- **Workers that are told about their jobs are guarded.** -/
theorem guarded (hp : Presence there) {c}
    (h : (op.runs fun j w o a => j = i → ¬ Misses there i w o a).Reachable c) : Guarded there i c.state := by
  refine (Operator.invariant (I := Guarded there i) ?_ ?_ ?_ ?_ h).2
  · exact ⟨fun _ _ => hp.empty i, fun e he => (nomatch he)⟩
  · intro j w _ hg
    by_cases hj : i = j
    · subst hj
      have hrounds : (w.fresh i).rounds i = [] := by simp [Cluster.fresh]
      refine ⟨fun hnone => ?_, fun e he => ?_⟩
      · rw [Cluster.log_fresh_self] at hnone
        cases hnone.mem
      · rw [hrounds] at he
        cases he
    · have hrounds : (w.fresh j).rounds i = w.rounds i := by simp [Cluster.fresh, Function.update_of_ne hj]
      have hlog : (w.fresh j).log i = w.log i := Cluster.log_fresh_ne hj
      refine ⟨fun hnone hnever => ?_, fun e he => ?_⟩
      · rw [hlog] at hnone hnever
        exact hg.none hnone hnever
      · rw [hrounds] at he
        exact hg.created e he
  · intro j w o a s _ hg hperm hs hc
    by_cases hj : j = i
    · subst hj
      exact hg.own hp hperm hs (hc rfl)
    · have hrounds : (w.record j o a s).rounds i = w.rounds i := by
        simp [Cluster.record, Function.update_of_ne (Ne.symm hj)]
      refine hg.other hp hrounds hperm.keepsJobOwners (hs.touches .job) ?_
      rintro job rfl hown
      exact hj (Worker.Owns.unique hperm.mayCreateJob.own hown)
  · intro w o a s _ hg ho hw
    refine hg.other hp rfl ho.keepsJobOwners (hw.touches .job) ?_
    rintro job rfl
    exact ho.not_owns i

/-! ## One job at a time -/

/-- The worker controls at most one job. -/
def SingleJob (i : Worker) (s : Namespace) : Prop :=
  ∀ m m' y y', s.find .job m = some y → s.find .job m' = some y' → i.Owns y → i.Owns y' → m = m'

/-- A step keeps it that way, unless it adds a job to another. -/
theorem SingleJob.step (h : SingleJob i s) (ho : KeepsJobOwners s o)
    (hs : (s'.find .job = s.find .job ∧ s'.past .job = s.past .job) ∨ Store.Touches admitted s .job o s')
    (hnew : ∀ job, o = .create .job job → i.Owns job → ¬ Present i s) : SingleJob i s' := by
  rcases hs with ⟨hfind, _⟩ | hs
  · intro m m' y y' hf hf'
    rw [hfind] at hf hf'
    exact h m m' y y' hf hf'
  · intro m m' y y' hf hf' hown hown'
    rcases find_job_of_touches hs ho hf with ⟨y₀, hf₀, hm⟩ | ⟨job, rfl, hnone, hm⟩
    · rcases find_job_of_touches hs ho hf' with ⟨y₀', hf₀', hm'⟩ | ⟨job, rfl, _, hm'⟩
      · exact h m m' y₀ y₀' hf₀ hf₀' (hown.congr hm) (hown'.congr hm')
      · exact absurd ⟨m, y₀, hf₀, hown.congr hm⟩ (hnew job rfl (hown'.congr hm'))
    · rcases find_job_of_touches hs ho hf' with ⟨y₀', hf₀', hm'⟩ | ⟨_, _, hnone', _⟩
      · exact absurd ⟨m', y₀', hf₀', hown'.congr hm'⟩ (hnew job rfl (hown.congr hm))
      · -- both are the one that was created
        obtain ⟨n, hn⟩ := hs.elsewhere
        have hm : m = n := by
          by_contra hne
          rw [hn m hne, hnone] at hf
          cases hf
        have hm' : m' = n := by
          by_contra hne
          rw [hn m' hne, hnone'] at hf'
          cases hf'
        rw [hm, hm']

/-- **Workers that are told about their jobs** have one at a time. -/
theorem singleJob {c} (h : (op.runs fun j w o a => j = i → ¬ Misses Present i w o a).Reachable c) :
    SingleJob i c.state.store := by
  have hg := System.Reachable.restrict_and (fun c hc => guarded presence_present hc) h
  refine (Operator.invariant (I := fun w => SingleJob i w.store) ?_ ?_ ?_ ?_ hg).2
  · rintro m m' y y' hf
    cases hf
  · exact fun j w _ hI => hI
  · rintro j w o a s _ hI hperm hs ⟨_, hguard⟩
    refine hI.step hperm.keepsJobOwners (hs.touches .job) ?_
    rintro job rfl hown
    have hmay := hperm.mayCreateJob
    obtain rfl : j = i := Worker.Owns.unique hmay.own hown
    exact hguard.none hmay.none hmay.first
  · intro w o a s _ hI ho hw
    refine hI.step ho.keepsJobOwners (hw.touches .job) ?_
    rintro job rfl hown
    exact absurd hown (ho.not_owns i)

/-- The worker is told about the jobs it controls. -/
def listsJobs (i j : Worker) (w : OperatorState) : (o : Op) → Ans o → Bool
  | .list .job sel, .ok jobs =>
      !decide (j = i ∧ sel = i.selector ∧ jobs = []) || (w.store.list .job i.selector).isEmpty
  | _, _ => true

theorem not_misses_of_lists {a : Ans o} (h : listsJobs i j w o a = true) (hj : j = i) : ¬ Misses Present i w o a := by
  intro hm
  unfold Misses at hm
  split at hm
  · obtain ⟨rfl, rfl, _, m, y, hf, hown⟩ := hm
    have hempty : (w.store.list .job i.selector).isEmpty = true := by
      simpa [listsJobs, hj] using h
    have hy : y ∈ w.store.list .job i.selector := by
      rw [Store.mem_list, w.store.named hf]
      exact ⟨hf, hown⟩
    rw [List.isEmpty_iff.mp hempty] at hy
    cases hy
  · exact hm

end Etos
