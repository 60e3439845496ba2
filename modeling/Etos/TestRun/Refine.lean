import Etos.TestRun.Machine

/-!
# `TestRun.Refine` — the reconciler refines the state machine

`Reconcile` makes only `Allowed` calls (`Reconcile_safe`): every status it writes is a `Write` (or a
`DeadlineWrite`) of the machine from the version it holds, every shutdown event an `Announce`, and it creates
EnvironmentRequests and jobs only where the machine lets it.

The proof follows the source, one lemma per function. What a function hands on is an assertion about the
TestRun in memory relative to the version it stems from (`Held`), plus what has been announced so far
(`Announced`). Calls that tell the reconciler nothing of interest (`Noise`) are dealt with at once.
-/

namespace Etos

open Kube TestRunReconciler

variable {name : String} {spec : TestRunSpec} {l : Know} {tr : TestRun} {v : View}

/-! ## Calls of no interest -/

/-- Calls that leave the digest alone. -/
def Noise : Op → Prop
  | .get .provider _ => True
  | .get .cluster _ => True
  | .list .environmentRequest _ => True
  | .delete _ _ => True
  | .ext .timeNow => True
  | .ext .newUUID => True
  | .ext .startSpan => True
  | .ext (.getPublisher _) => True
  | .ext (.rangeKeys _) => True
  | _ => False

/-- Calls that are always allowed. -/
def Harmless : Op → Prop
  | .get k _ => k ≠ .testRun
  | .list k _ => k ≠ .environment
  | .delete _ _ => True
  | .ext x => ∀ id event, x ≠ .publish id event
  | _ => False

theorem Noise.harmless {o : Op} (h : Noise o) : Harmless o := by
  unfold Noise at h
  split at h <;> first | trivial | exact h.elim | exact nofun

theorem Harmless.notFocus {o : Op} (h : Harmless o) : ¬ o.onFocus .testRun name := by
  rintro (rfl | ⟨x, rfl, _⟩ | ⟨x, rfl, _⟩)
  · exact h rfl
  · exact h
  · exact h

theorem Harmless.allowed {o : Op} (h : Harmless o) : Allowed name spec l o := by
  cases o with
  | get => trivial
  | list k _ => cases k <;> trivial
  | delete => trivial
  | ext x => cases x <;> first | trivial | exact absurd rfl (h _ _)
  | _ => exact h.elim

theorem Noise.digest {o : Op} (h : Noise o) (a : Ans o) (c : Bool) (cs : List Call) :
    digest spec (⟨o, a, c⟩ :: cs) = digest spec cs := by
  unfold Noise at h
  split at h <;> first | rfl | exact h.elim

/-- Safety of a part of `Reconcile`. -/
abbrev TSafe (name : String) (spec : TestRunSpec) {α : Type} (p : M α) (Q : α → Know → Prop) (l : Know) :
    Prop := Local.Safe name spec (Allowed name spec) p Q l

/-- Nothing of interest has happened between `l` and `l'`. -/
def Same (spec : TestRunSpec) (l l' : Know) : Prop :=
  l'.base = l.base ∧ digest spec l'.round = digest spec l.round

theorem Same.refl : Same spec l l := ⟨rfl, rfl⟩

theorem Same.trans {l₁ l₂ l₃ : Know} (h₁ : Same spec l₁ l₂) (h₂ : Same spec l₂ l₃) : Same spec l₁ l₃ :=
  ⟨h₂.1.trans h₁.1, h₂.2.trans h₁.2⟩

theorem safe_noise {α : Type} {p : M α} (h : p.Calls Noise) :
    TSafe name spec p (fun _ l' => Same spec l l') l := by
  refine Local.Safe.calls h (fun o ho => ho.harmless.notFocus) ?_ Same.refl
  intro l' o ho hs
  exact ⟨ho.harmless.allowed, fun a c => ⟨hs.1, (ho.digest a c _).trans hs.2⟩⟩

theorem safe_harmless {α : Type} {p : M α} (h : p.Calls Harmless) :
    TSafe name spec p (fun _ _ => True) l :=
  Local.Safe.calls h (fun _ ho => ho.notFocus) (fun _ _ ho _ => ⟨ho.allowed, fun _ _ => trivial⟩) trivial

/-! ## Programs made of noise -/

theorem metaNow_noise : (metaNow).Calls Noise := ⟨trivial, fun _ => trivial⟩

theorem checkProvider_noise (n : String) : (checkProvider n).Calls Noise := by
  refine ⟨trivial, fun a => ?_⟩
  cases a with
  | error e => trivial
  | ok p => show Prog.Calls Noise (if _ then _ else _); split <;> trivial

theorem checkProviders_noise (p : Providers) : (checkProviders p).Calls Noise := by
  refine (checkProvider_noise _).bind fun e => ?_
  cases e with
  | some e => trivial
  | none =>
      refine (checkProvider_noise _).bind fun e => ?_
      cases e with
      | some e => trivial
      | none => exact checkProvider_noise _

theorem deleteRequests_noise (requests : List EnvironmentRequest) :
    (deleteRequests requests).Calls Noise := by
  induction requests with
  | nil => trivial
  | cons request rest ih =>
      unfold deleteRequests
      split
      · exact ih
      · refine ⟨trivial, fun a => ?_⟩
        cases a with
        | ok _ => exact ih
        | error e =>
            show Prog.Calls Noise (if _ then _ else _)
            split
            · exact ih
            · trivial

theorem deleteEnvironmentRequests_noise (tr : TestRun) : (deleteEnvironmentRequests tr).Calls Noise := by
  refine ⟨trivial, fun a => ?_⟩
  cases a with
  | error e => show Prog.Calls Noise (if _ then _ else _); split <;> trivial
  | ok requests => exact deleteRequests_noise requests

theorem deleteAll_noise (jobs : List Job) : (JobManager.deleteAll jobs).Calls Noise := by
  refine (JobManager.deleteAll_calls jobs).mono ?_
  rintro _ ⟨n, rfl⟩
  trivial

theorem environmentRequest_noise (n t : String) (cluster : Cluster) (tr : TestRun) (tests : List Test)
    (dataset : Option Json) : (environmentRequest n t cluster tr tests dataset).Calls Noise := by
  refine ⟨trivial, fun _ => ⟨trivial, fun _ => ?_⟩⟩
  dsimp only
  split <;> trivial

/-! ## The TestRun in memory -/

/-- The TestRun in memory stems from the program's base, whose view is `v`. -/
structure Held (name : String) (spec : TestRunSpec) (l : Know) (tr : TestRun) (v : View) : Prop where
  base : ∃ b, l.base = some b ∧ tr.metadata = b.metadata ∧ b.status.view = v
  name : tr.name = name
  spec : tr.spec = spec

/-- Noise, and changes to the status in memory, leave it where it stems from. -/
theorem Held.same {l' : Know} {tr' : TestRun} (h : Held name spec l tr v) (hs : Same spec l l')
    (hm : tr'.metadata = tr.metadata) (hsp : tr'.spec = tr.spec) : Held name spec l' tr' v where
  base := by rw [hs.1, hm]; exact h.base
  name := by rw [Object.name, hm]; exact h.name
  spec := hsp.trans h.spec

/-- `SetStatusCondition` sets one condition of the view in memory; that it changed nothing means that the
    condition was there. -/
theorem setCondition_safe (tr : TestRun) (c : Condition) :
    TSafe name spec (TestRunReconciler.setCondition tr c) (fun r l' => Same spec l l' ∧
      r.1.metadata = tr.metadata ∧ r.1.spec = tr.spec ∧
      r.1.status.view = tr.status.view.set c.type c.status c.reason ∧
      (r.2 = false → tr.status.view.cond c.type = some (c.status, c.reason))) l := by
  refine (safe_noise metaNow_noise).bind fun now l' hs => ?_
  refine ⟨hs, rfl, rfl, view_setStatusCondition now c, fun hfalse => ?_⟩
  obtain ⟨_, c', hf, hst, hr, _⟩ := set_unchanged hfalse
  simp [TestRunStatus.view, hf, hst, hr]

/-- A status write of the machine. -/
def Writes (name : String) (d : Digest) (v v' : View) : Prop :=
  v.completion = none ∧ Write name d v v' ∨ d.deadlineReached v ∧ DeadlineWrite name d v v'

/-- A successful status update makes the TestRun in memory the new base. -/
theorem statusUpdate_safe (h : Held name spec l tr v)
    (hw : Writes name (digest spec l.round) v tr.status.view) :
    TSafe name spec (M.statusUpdate .testRun tr) (fun r l' => r.2 = none →
      Held name spec l' r.1 tr.status.view ∧ r.1.status.view = tr.status.view ∧
      digest spec l'.round = { digest spec l.round with
        completed := (digest spec l.round).completed || tr.status.completionTime.isSome }) l := by
  obtain ⟨b, hb, hm, rfl⟩ := h.base
  rintro _ rfl a l₂ hs
  refine ⟨⟨b, hb, by rw [hm], h.name, hw⟩, ?_⟩
  cases hs with
  | status hn hn' hs ht =>
      intro _
      exact ⟨⟨⟨_, rfl, rfl, congrArg TestRunStatus.view ht⟩, hn', hs⟩, congrArg TestRunStatus.view ht, rfl⟩
  | statusError hn => exact fun he => by cases he
  | other hf => exact absurd (.inr (.inr ⟨_, rfl, h.name⟩)) hf

/-- Publishing adds the verdict to the digest. -/
theorem publish_safe (h : Held name spec l tr v) {result : Result}
    (ha : Announce name (digest spec l.round) v result.verdict) :
    TSafe name spec (publish tr result) (fun _ l' => l'.base = l.base ∧
      digest spec l'.round = { digest spec l.round with
        events := result.verdict :: (digest spec l.round).events }) l := by
  obtain ⟨b, hb, _, rfl⟩ := h.base
  refine Local.Safe.other ?_ ⟨by rw [h.spec], b, hb, ha⟩ fun a c => ⟨rfl, ?_⟩
  · rintro (e | ⟨x, e, _⟩ | ⟨x, e, _⟩) <;> cases e
  · simp [Digest.add, h.spec]

/-- Both parts of `setInconclusiveVerdictIfUnset`, on views. -/
theorem view_setInconclusive (tr : TestRun) :
    (setInconclusiveVerdictIfUnset tr).1.status.view =
      tr.status.view.judge (inconclusiveIfUnset tr.status.view.verdict) := by
  rw [setInconclusiveVerdictIfUnset_eq]
  rfl

/-! ## Steps of `reconcile` -/

/-- What the deadline check finds when `reconcile` returns without an error. -/
def Ready (name : String) (spec : TestRunSpec) (l : Know) (tr : TestRun) : Prop :=
  ∃ v u, Held name spec l tr v ∧ tr.status.view = v.judge u ∧
    Silent name (digest spec l.round) v u ∧
    (v.completion = none ∨ (digest spec l.round).completed = true) ∧
    (digest spec l.round).tidy v

/-- A step that returned no error has either written a status, or hands on `P`. -/
def StepPost (name : String) (spec : TestRunSpec) (P : TestRun → Know → Prop) (out : Outcome) (l : Know) :
    Prop :=
  out.err = none → out.updated = true ∧ Ready name spec l out.testrun ∨
    out.updated = false ∧ P out.testrun l

/-- A status write of `reconcile`, after which nothing but the deadline check follows. -/
theorem written_safe (h : Held name spec l tr v) (hc : v.completion = none)
    (hw : Write name (digest spec l.round) v tr.status.view)
    (hd : (digest spec l.round).tidy tr.status.view) :
    TSafe name spec (M.statusUpdate .testRun tr) (fun r l' => r.2 = none → Ready name spec l' r.1) l := by
  refine (statusUpdate_safe h (.inl ⟨hc, hw⟩)).post fun r l' hr herr => ?_
  obtain ⟨hh, hview, hdig⟩ := hr herr
  refine ⟨tr.status.view, tr.status.view.verdict, hh, hview, .inl rfl, ?_, ?_⟩
  · rw [hdig]
    cases hct : tr.status.completionTime with
    | none => exact .inl hct
    | some t => exact .inr (by simp)
  · rw [hdig]
    exact hd

/-- Such a write as the last act of a step. -/
theorem updated_safe {P : TestRun → Know → Prop} (h : Held name spec l tr v) (hc : v.completion = none)
    (hw : Write name (digest spec l.round) v tr.status.view)
    (hd : (digest spec l.round).tidy tr.status.view) :
    TSafe name spec (updated tr) (StepPost name spec P) l :=
  (written_safe h hc hw hd).bind fun _ _ hr herr => .inl ⟨rfl, hr herr⟩

/-- A step that decided not to update. -/
theorem notUpdated_safe {P : TestRun → Know → Prop} {err : Option Err} (h : P tr l) :
    TSafe name spec (pure ⟨tr, false, err⟩ : M Outcome) (StepPost name spec P) l :=
  fun _ => .inr ⟨rfl, h⟩

theorem andThen_safe {P : TestRun → Know → Prop} {step : M Outcome}
    {rest : TestRun → M (TestRun × Option Err)} (hstep : TSafe name spec step (StepPost name spec P) l)
    (hrest : ∀ tr l', P tr l' →
      TSafe name spec (rest tr) (fun r l'' => r.2 = none → Ready name spec l'' r.1) l') :
    TSafe name spec (andThen step rest) (fun r l' => r.2 = none → Ready name spec l' r.1) l := by
  refine hstep.bind fun out l' hpost => ?_
  show TSafe name spec (if _ then _ else _) _ _
  split
  · rename_i hstop
    intro herr
    rcases hpost herr with ⟨_, hready⟩ | ⟨hup, _⟩
    · exact hready
    · have herr' : out.err = none := herr
      simp [hup, herr'] at hstop
  · rename_i hgo
    simp only [Bool.or_eq_true, not_or, Bool.not_eq_true, Option.isSome_eq_false_iff,
      Option.isNone_iff_eq_none] at hgo
    rcases hpost hgo.2 with ⟨hup, _⟩ | ⟨_, hP⟩
    · simp [hup] at hgo
    · exact hrest _ _ hP

/-- The announcements so far match what has `failed`. -/
structure Announced (d : Digest) (v : View) (failed : Prop) : Prop where
  opened : v.completion = none
  announced : failed → verdictSet v.verdict = true ∧ d.events ≠ []
  quiet : ¬ failed → d.events = []

theorem Announced.tidy {d : Digest} {failed : Prop} (h : Announced d v failed)
    (hf : failed → v.decided) : d.tidy v := by
  by_cases hfailed : failed
  · exact .inl (hf hfailed)
  · exact .inr (.inl (h.quiet hfailed))

theorem setInconclusive_meta (tr : TestRun) :
    (setInconclusiveVerdictIfUnset tr).1.metadata = tr.metadata ∧
      (setInconclusiveVerdictIfUnset tr).1.spec = tr.spec := by
  rw [setInconclusiveVerdictIfUnset_eq]
  exact ⟨rfl, rfl⟩

theorem setInconclusive_changed (tr : TestRun) :
    (setInconclusiveVerdictIfUnset tr).2 = !verdictSet tr.status.view.verdict := by
  rw [setInconclusiveVerdictIfUnset_eq]
  rfl

/-- The fail-safe branch announces an inconclusive verdict, and writes one if there was none. -/
theorem failSafe_safe {P : TestRun → Know → Prop} {description : String} {cleanup : M (Option Err)}
    (h : Held name spec l tr tr.status.view) (hc : tr.status.view.completion = none)
    (hf : tr.status.view.reason .environment = some .failed ∨
      tr.status.view.reason .suiteRunner = some .failed)
    (hn : cleanup.Calls Noise)
    (hw : ∀ d : Digest, verdictSet tr.status.view.verdict = false → d.events ≠ [] →
      Write name d tr.status.view (tr.status.view.judge verdictInconclusive))
    (hP : ∀ l', Held name spec l' tr tr.status.view → verdictSet tr.status.view.verdict = true →
      (digest spec l'.round).events ≠ [] → P tr l') :
    TSafe name spec (failSafe tr description cleanup) (StepPost name spec P) l := by
  refine (publish_safe h (.failed hf)).bind fun _ l₁ ⟨hb₁, hd₁⟩ => ?_
  refine (safe_noise hn).bind fun deleted l₂ hs₂ => ?_
  have hbase : l₂.base = l.base := hs₂.1.trans hb₁
  have hev : (digest spec l₂.round).events ≠ [] := by rw [hs₂.2, hd₁]; simp
  split
  · rename_i hch
    have hset : verdictSet tr.status.view.verdict = false := by simpa [setInconclusive_changed] using hch
    have hview : (setInconclusiveVerdictIfUnset tr).1.status.view =
        tr.status.view.judge verdictInconclusive := by
      rw [view_setInconclusive, inconclusiveIfUnset, hset]
      rfl
    obtain ⟨hm, hsp⟩ := setInconclusive_meta tr
    have hheld : Held name spec l₂ (setInconclusiveVerdictIfUnset tr).1 tr.status.view :=
      ⟨by rw [hbase, hm]; exact h.base, by rw [Object.name, hm]; exact h.name, hsp.trans h.spec⟩
    refine (written_safe hheld hc (hview ▸ hw _ hset hev) (.inl ?_)).bind ?_
    · rw [hview]
      rcases hf with hf | hf
      · exact .inr (.inr (.inl hf))
      · exact .inl hf
    · intro r l' hr herr
      exact .inl ⟨rfl, hr (Err.join_eq_none.mp herr).2⟩
  · rename_i hch
    have hset : verdictSet tr.status.view.verdict = true := by simpa [setInconclusive_changed] using hch
    exact notUpdated_safe (hP l₂ ⟨hbase ▸ h.base, h.name, h.spec⟩ hset hev)

/-- What `reconcileEnvironmentRequest` and `checkEnvironment` hand on. -/
def EnvironmentChecked (name : String) (spec : TestRunSpec) (tr : TestRun) (l : Know) : Prop :=
  Held name spec l tr tr.status.view ∧
    Announced (digest spec l.round) tr.status.view (tr.status.view.reason .environment = some .failed)

/-! ### `reconcileEnvironmentRequest` -/

/-- The calls that create the missing environment requests. -/
def Requests (o : Op) : Prop := Noise o ∨ ∃ x, o = .create .environmentRequest x

theorem safe_requests {α : Type} {p : M α} (h : p.Calls Requests)
    (hb : ∃ b, l.base = some b ∧ b.status.view.reason .environment ≠ some .failed) :
    TSafe name spec p (fun _ l' => Same spec l l') l := by
  refine Local.Safe.calls h ?_ ?_ Same.refl
  · rintro o (ho | ⟨x, rfl⟩)
    · exact ho.harmless.notFocus
    · rintro (e | ⟨x, e, _⟩ | ⟨x, e, _⟩) <;> cases e
  · rintro l' o (ho | ⟨x, rfl⟩) hs
    · exact ⟨ho.harmless.allowed, fun a c => ⟨hs.1, (ho.digest a c _).trans hs.2⟩⟩
    · exact ⟨by rw [← hs.1] at hb; exact hb, fun a c => ⟨hs.1, hs.2⟩⟩

theorem createRequests_calls (suite : Suite) (requests : List EnvironmentRequest) (tr : TestRun)
    (cluster : Cluster) (order : List String) :
    (createRequests suite requests tr cluster order).Calls Requests := by
  induction order with
  | nil => trivial
  | cons testrunner rest ih =>
      unfold createRequests
      split
      · exact ih
      · refine (Prog.Calls.mono (environmentRequest_noise ..) fun _ => .inl).bind fun request => ?_
        refine ⟨.inr ⟨_, rfl⟩, fun a => ?_⟩
        cases a with
        | error e => trivial
        | ok _ => exact ih

theorem createForSuites_calls (requests : List EnvironmentRequest) (tr : TestRun) (cluster : Cluster)
    (suites : List Suite) : (createForSuites requests tr cluster suites).Calls Requests := by
  induction suites with
  | nil => trivial
  | cons suite suites ih =>
      refine Prog.Calls.bind ⟨.inl trivial, fun order => createRequests_calls ..⟩ fun e => ?_
      cases e with
      | some e => trivial
      | none => exact ih

/-- Setting the verdict if unset, on views. -/
theorem judged {tr tr' : TestRun} {c : Condition}
    (h : tr'.status.view = tr.status.view.set c.type c.status c.reason) :
    (setInconclusiveVerdictIfUnset tr').1.status.view =
      (tr.status.view.set c.type c.status c.reason).judge (inconclusiveIfUnset tr.status.view.verdict) := by
  rw [view_setInconclusive, h]
  rfl

theorem failOnRequest_safe (requests : List EnvironmentRequest)
    (h : Held name spec l tr tr.status.view) (hc : tr.status.view.completion = none)
    (henv : tr.status.view.reason .environment ≠ some .failed) (he : (digest spec l.round).events = []) :
    TSafe name spec (failOnRequest tr requests) (StepPost name spec (EnvironmentChecked name spec)) l := by
  induction requests with
  | nil => exact notUpdated_safe ⟨h, hc, fun e => absurd e henv, fun _ => he⟩
  | cons request rest ih =>
      unfold failOnRequest
      split
      · exact ih
      · refine (setCondition_safe tr _).bind ?_
        rintro ⟨tr', changed⟩ l' ⟨hs, hm, hsp, hview, hun⟩
        cases changed with
        | false =>
            -- an unchanged condition would have been a failed one already
            refine absurd ?_ henv
            simp [View.reason, hun rfl]
        | true =>
            obtain ⟨hm', hsp'⟩ := setInconclusive_meta tr'
            refine updated_safe (h.same hs (hm'.trans hm) (hsp'.trans hsp)) hc ?_ (.inl ?_)
            · rw [judged hview, hs.2]
              exact .environmentFailed henv he
            · rw [judged hview]
              exact .inr (.inr (.inl (View.judge_reason.trans View.set_reason_self)))

theorem reconcileRequests_safe (cluster : Cluster) (requests : List EnvironmentRequest)
    (h : Held name spec l tr tr.status.view) (hc : tr.status.view.completion = none)
    (henv : tr.status.view.reason .environment ≠ some .failed) (he : (digest spec l.round).events = []) :
    TSafe name spec (reconcileRequests cluster tr requests)
      (StepPost name spec (EnvironmentChecked name spec)) l := by
  obtain ⟨b, hb, hm, hview⟩ := h.base
  -- remembering the requests changes the status in memory, but not its view
  refine (safe_requests (createForSuites_calls ..) ⟨b, hb, hview ▸ henv⟩).bind fun err l' hs => ?_
  have hheld : Held name spec l' { tr with status :=
      { tr.status with environmentRequests := requests.map requestReference } } tr.status.view :=
    h.same hs rfl rfl
  cases err with
  | some e => exact notUpdated_safe ⟨hheld, hc, fun e => absurd e henv, fun _ => hs.2 ▸ he⟩
  | none => exact failOnRequest_safe requests hheld hc henv (hs.2 ▸ he)

theorem reconcileEnvironmentRequest_safe (cluster : Cluster) (h : Held name spec l tr tr.status.view)
    (hc : tr.status.view.completion = none) (he : (digest spec l.round).events = []) :
    TSafe name spec (reconcileEnvironmentRequest cluster tr)
      (StepPost name spec (EnvironmentChecked name spec)) l := by
  unfold reconcileEnvironmentRequest
  split
  · rename_i hnone
    refine (setCondition_safe tr _).bind ?_
    rintro ⟨tr', changed⟩ l' ⟨hs, hm, hsp, hview, _⟩
    refine updated_safe (h.same hs hm hsp) hc ?_ (.inr (.inl (hs.2 ▸ he)))
    rw [hview]
    exact .environmentPending (find_none_view.mp hnone)
  split
  · rename_i hfailed
    have hfailed := isStatusReason_view.mp hfailed
    refine failSafe_safe h hc (.inl hfailed) (deleteEnvironmentRequests_noise tr) ?_ ?_
    · exact fun _ hset he => .environmentVerdict hfailed hset he
    · intro l' hh hset he
      exact ⟨hh, hc, fun _ => ⟨hset, he⟩, fun e => absurd hfailed e⟩
  · rename_i hnone hnot
    have henv : tr.status.view.reason .environment ≠ some .failed :=
      fun e => hnot (isStatusReason_view.mpr e)
    refine Local.Safe.other (Harmless.notFocus nofun) trivial fun a c => ?_
    have hs : Same spec l ⟨l.base, ⟨.list .environmentRequest (owned tr.name), a, c⟩ :: l.round⟩ := ⟨rfl, rfl⟩
    have key := fun requests => reconcileRequests_safe cluster requests (h.same hs rfl rfl) hc henv he
    cases a with
    | ok requests => exact key requests
    | error e =>
        show TSafe name spec (if _ then _ else _) _ _
        split
        · exact key []
        · exact notUpdated_safe ⟨h.same hs rfl rfl, hc, fun e => absurd e henv, fun _ => he⟩

/-! ### `checkEnvironment` -/

theorem checkEnvironment_safe (h : EnvironmentChecked name spec tr l) :
    TSafe name spec (checkEnvironment tr) (StepPost name spec (EnvironmentChecked name spec)) l := by
  obtain ⟨hh, ha⟩ := h
  obtain ⟨b, hb, _, hbv⟩ := hh.base
  refine Local.Safe.other ?_ ⟨b, hb, ?_⟩ fun a c => ?_
  · rintro (e | ⟨x, e, _⟩ | ⟨x, e, _⟩) <;> cases e
  · intro hev
    rw [hbv]
    exact by_contra fun hnf => hev (ha.quiet hnf)
  match a with
  | .error e => exact notUpdated_safe ⟨⟨hh.base, hh.name, hh.spec⟩, ha⟩
  | .ok [] => exact notUpdated_safe ⟨⟨hh.base, hh.name, hh.spec⟩, ha.opened, ha.announced, ha.quiet⟩
  | .ok (environment :: rest) =>
      refine (setCondition_safe tr _).bind ?_
      rintro ⟨tr', changed⟩ l' ⟨hs, hm, hsp, hview, hun⟩
      have hheld : Held name spec l' tr' tr.status.view :=
        ⟨by rw [hs.1, hm]; exact hh.base, by rw [Object.name, hm]; exact hh.name, hsp.trans hh.spec⟩
      have hev : (digest spec l'.round).events = (digest spec l.round).events := by rw [hs.2]; rfl
      cases changed with
      | false =>
          rw [View.set_eq_self (hun rfl)] at hview
          refine notUpdated_safe ⟨hview ▸ hheld, ?_⟩
          rw [hview]
          exact ⟨ha.opened, fun hf => hev ▸ ha.announced hf, fun hf => hev ▸ ha.quiet hf⟩
      | true =>
          refine updated_safe hheld ha.opened ?_ ?_
          · rw [hview, hs.2]
            exact .environmentCompleted fun hf => by simp [Digest.add, (ha.announced hf).2]
          · by_cases hf : tr.status.view.reason .environment = some .failed
            · exact .inr (.inr (by rw [hs.2]; simp [Digest.add, (ha.announced hf).2]))
            · exact .inr (.inl (hev.trans (ha.quiet hf)))

/-! ### The suite runner job -/

/-- Listing the jobs. A successful manager has jobs to read the result from. -/
theorem status_safe (j : JobManager) :
    TSafe name spec j.status (fun r l' => l'.base = l.base ∧ ∀ status, r.2 = .ok status →
      digest spec l'.round = { digest spec l.round with jobs := some status, pods := [] } ∧
      (status = .successful → r.1.considered ≠ [])) l := by
  refine Local.Safe.other (Harmless.notFocus nofun) trivial fun a c => ?_
  cases a with
  | error e => exact ⟨rfl, fun _ h => by cases h⟩
  | ok jobs =>
      refine ⟨rfl, fun status h => ⟨?_, ?_⟩⟩
      · have hl : listedStatus jobs = some status := by
          have h' : (JobManager.populate ⟨"", "", "", [], [], []⟩ jobs).summary = .ok status := h
          rw [listedStatus, h']
        simp [Digest.add, hl]
      · rintro rfl
        exact JobManager.considered_ne_nil h

/-- One container, as the machine sees it. -/
theorem addContainer_reads (manager n : String) (pod : Pod) (pods : List Pod) (result : Result) :
    (addContainer manager (getLatestPodByCreationTimestamp pod pods) result n).verdict =
        readVerdict n (.ok (pod :: pods)) result.verdict ∧
      ((addContainer manager (getLatestPodByCreationTimestamp pod pods) result n).conclusion = conclusionFailed ↔
        fails n (.ok (pod :: pods)) = true ∨ result.conclusion = conclusionFailed) := by
  refine ⟨rfl, ?_⟩
  simp only [addContainer, fails, decide_eq_true_eq]
  split
  · rename_i h
    exact ⟨fun _ => .inl h.1, fun _ => rfl⟩
  · rename_i h
    refine ⟨.inr, fun hor => ?_⟩
    by_contra hne
    rcases hor with hf | hf
    · exact h ⟨hf, hne⟩
    · exact hne hf

theorem resultLoop_safe (manager : String) (jobs : List Job) (result : Result) :
    TSafe name spec (resultLoop manager [name] jobs result) (fun r l' => l'.base = l.base ∧
      ∃ pods, digest spec l'.round =
          { digest spec l.round with pods := pods ++ (digest spec l.round).pods } ∧
        (jobs ≠ [] → pods ≠ []) ∧ r.verdict = pods.foldr (readVerdict name) result.verdict ∧
        (r.conclusion = conclusionFailed ↔ pods.any (fails name) = true ∨ result.conclusion = conclusionFailed)) l := by
  induction jobs generalizing result l with
  | nil => exact ⟨rfl, [], rfl, fun hne => absurd rfl hne, rfl, by simp⟩
  | cons job jobs ih =>
      refine Local.Safe.other (Harmless.notFocus nofun) trivial fun a c => ?_
      match a with
      | .error e => exact ⟨rfl, [.error e], rfl, fun _ => List.cons_ne_nil _ _, rfl, ⟨fun _ => .inl rfl, fun _ => rfl⟩⟩
      | .ok [] => exact ⟨rfl, [.ok []], rfl, fun _ => List.cons_ne_nil _ _, rfl, ⟨fun _ => .inl rfl, fun _ => rfl⟩⟩
      | .ok (pod :: pods) =>
          obtain ⟨hverdict, hconclusion⟩ := addContainer_reads manager name pod pods result
          refine (ih _).post fun r l' ⟨hb, ps, hd, _, hv, hc⟩ => ⟨hb, ps ++ [.ok (pod :: pods)], ?_, ?_, ?_, ?_⟩
          · rw [hd]
            simp [Digest.add]
          · exact fun _ => List.append_ne_nil_of_right_ne_nil _ (List.cons_ne_nil _ _)
          · rw [hv, List.foldr_append]
            exact congrArg (ps.foldr (readVerdict name)) hverdict
          · rw [hc, List.any_append, Bool.or_eq_true, or_assoc]
            refine or_congr Iff.rfl (hconclusion.trans ?_)
            simp

/-- Reading the result of the suite runner. -/
theorem result_safe (j : JobManager) :
    TSafe name spec (j.result name) (fun r l' => l'.base = l.base ∧
      ∃ pods, digest spec l'.round =
          { digest spec l.round with pods := pods ++ (digest spec l.round).pods } ∧
        (j.considered ≠ [] → pods ≠ []) ∧ r.verdict = podsVerdict name pods ∧
        (r.conclusion = conclusionFailed ↔ pods.any (fails name) = true)) l := by
  refine (resultLoop_safe j.name j.considered { verdict := verdictNone }).bind ?_
  rintro r l' ⟨hb, pods, hd, hne, hv, hc⟩
  have hempty : ¬ ({ verdict := verdictNone } : Result).conclusion = conclusionFailed := by decide
  have hany : r.conclusion = conclusionFailed ↔ pods.any (fails name) = true :=
    hc.trans ⟨fun h => h.resolve_right hempty, .inl⟩
  refine ⟨hb, pods, hd, hne, ?_, ?_⟩
  · have hverdict : (concluded r).verdict = r.verdict := by unfold concluded; split <;> rfl
    exact hverdict.trans hv
  · rw [← hany]
    unfold concluded
    split
    · exact Iff.rfl
    · rename_i hnot
      refine ⟨fun h => ?_, fun h => absurd h hnot⟩
      exact absurd h (by decide : conclusionSuccessful ≠ conclusionFailed)

/-! ### `reconcileSuiteRunner` -/

/-- What `reconcileSuiteRunner` hands on. -/
def SuiteRunnerChecked (name : String) (spec : TestRunSpec) (tr : TestRun) (l : Know) : Prop :=
  ∃ v u, Held name spec l tr v ∧ tr.status.view = v.judge u ∧ Silent name (digest spec l.round) v u ∧
    Announced (digest spec l.round) v
      (v.reason .environment = some .failed ∨ v.reason .suiteRunner = some .failed)

/-- Neither the environment nor the suite runner has failed, and nothing has been announced. -/
structure Running (d : Digest) (v : View) : Prop where
  opened : v.completion = none
  environment : v.reason .environment = some .completed
  suiteRunner : v.reason .suiteRunner ≠ some .failed
  quiet : d.events = []

theorem Running.announced {d : Digest} (h : Running d v) :
    Announced d v (v.reason .environment = some .failed ∨ v.reason .suiteRunner = some .failed) where
  opened := h.opened
  announced := by
    rintro (hf | hf)
    · rw [h.environment] at hf; cases hf
    · exact absurd hf h.suiteRunner
  quiet := fun _ => h.quiet

/-- A running TestRun that is left alone. -/
theorem Running.notUpdated {err : Option Err} (h : Held name spec l tr tr.status.view)
    (hr : Running (digest spec l.round) tr.status.view) :
    TSafe name spec (pure ⟨tr, false, err⟩ : M Outcome)
      (StepPost name spec (SuiteRunnerChecked name spec)) l :=
  notUpdated_safe ⟨_, _, h, rfl, .inl rfl, hr.announced⟩

/-- A suite runner that has finished: a changed condition is announced, then written. -/
theorem suiteRunnerFinished_safe {result : Result} {s : ConditionStatus} {r : Reason} {message : String}
    (h : Held name spec l tr tr.status.view) (hr : Running (digest spec l.round) tr.status.view)
    (ha : Announce name (digest spec l.round) tr.status.view result.verdict)
    (hreason : r = .failed ∨ r = .completed)
    (hw : ∀ d : Digest, d.events.head? = some result.verdict → d.jobs = (digest spec l.round).jobs →
      d.pods = (digest spec l.round).pods →
      Write name d tr.status.view ((tr.status.view.set .suiteRunner s r).judge result.verdict))
    (hu : r = .completed → (digest spec l.round).reported name result.verdict) :
    TSafe name spec (suiteRunnerFinished tr result (suiteRunnerCondition s r message))
      (StepPost name spec (SuiteRunnerChecked name spec)) l := by
  refine (setCondition_safe _ _).bind ?_
  rintro ⟨tr', changed⟩ l₁ ⟨hs, hm, hsp, hview, hun⟩
  have hheld : Held name spec l₁ tr' tr.status.view := h.same hs hm hsp
  have hview' : tr'.status.view = (tr.status.view.set .suiteRunner s r).judge result.verdict := hview
  cases changed with
  | false =>
      have hcond : tr.status.view.cond .suiteRunner = some (s, r) := hun rfl
      have hsr : tr.status.view.reason .suiteRunner = some r := by simp [View.reason, hcond]
      rw [View.set_eq_self hcond] at hview'
      rcases hreason with rfl | rfl
      · exact absurd hsr hr.suiteRunner
      · refine notUpdated_safe ⟨_, _, hheld, hview', .inr ⟨hsr, ?_⟩, ?_⟩
        · rw [hs.2]; exact hu rfl
        · rw [hs.2]; exact hr.announced
  | true =>
      refine (publish_safe hheld (hs.2 ▸ ha)).bind ?_
      rintro _ l₂ ⟨hb₂, hd₂⟩
      refine updated_safe ⟨hb₂ ▸ hheld.base, hheld.name, hheld.spec⟩ hr.opened ?_ (.inl ?_)
      · rw [hview', hd₂]
        exact hw _ rfl (by rw [hs.2]) (by rw [hs.2])
      · rw [hview']
        rcases hreason with rfl | rfl
        · exact .inl (View.judge_reason.trans View.set_reason_self)
        · exact .inr (.inl (View.judge_reason.trans View.set_reason_self))

theorem suiteRunnerFailed_safe {manager : JobManager} (h : Held name spec l tr tr.status.view)
    (hr : Running (digest spec l.round) tr.status.view) (hj : (digest spec l.round).jobs = some .failed) :
    TSafe name spec (suiteRunnerFailed tr manager) (StepPost name spec (SuiteRunnerChecked name spec)) l := by
  unfold suiteRunnerFailed
  rw [h.name]
  refine (result_safe manager).bind fun result l₁ ⟨hb, pods, hd, _⟩ => ?_
  have hheld : Held name spec l₁ tr tr.status.view := ⟨hb ▸ h.base, h.name, h.spec⟩
  have hrun : Running (digest spec l₁.round) tr.status.view :=
    ⟨hr.opened, hr.environment, hr.suiteRunner, by rw [hd]; exact hr.quiet⟩
  have hj₁ : (digest spec l₁.round).jobs = some .failed := by rw [hd]; exact hj
  have hset : verdictSet (resultOrInconclusive result).verdict = true := by
    unfold resultOrInconclusive
    split
    · exact verdictSet_inconclusive
    · rename_i hv
      simpa [verdictSet] using hv
  refine suiteRunnerFinished_safe hheld hrun ?_ (.inl rfl) ?_ (by rintro ⟨⟩)
  · exact .suiteRunnerFailed hr.environment hrun.quiet hj₁ hset
  · exact fun d he hjobs _ =>
      .suiteRunnerFailed hr.environment hr.suiteRunner (hjobs.trans hj₁) he hset

theorem suiteRunnerSuccessful_safe {manager : JobManager} (h : Held name spec l tr tr.status.view)
    (hr : Running (digest spec l.round) tr.status.view)
    (hj : (digest spec l.round).jobs = some .successful) (hp : (digest spec l.round).pods = [])
    (hm : manager.considered ≠ []) :
    TSafe name spec (suiteRunnerSuccessful tr manager)
      (StepPost name spec (SuiteRunnerChecked name spec)) l := by
  unfold suiteRunnerSuccessful
  rw [h.name]
  refine (result_safe manager).bind fun result l₁ ⟨hb, pods, hd, hne, hv, hc⟩ => ?_
  rw [hp, List.append_nil] at hd
  have hheld : Held name spec l₁ tr tr.status.view := ⟨hb ▸ h.base, h.name, h.spec⟩
  have hrun : Running (digest spec l₁.round) tr.status.view :=
    ⟨hr.opened, hr.environment, hr.suiteRunner, by rw [hd]; exact hr.quiet⟩
  have hpods : (digest spec l₁.round).pods = pods := by rw [hd]
  have hrep : (digest spec l₁.round).reported name (resultOrNone result).verdict := by
    refine ⟨by rw [hd]; exact hj, by rw [hpods]; exact hne hm, ?_⟩
    rw [hpods, ← hv]
    unfold resultOrNone noneIfEmpty
    split <;> rfl
  have key : ∀ (s : ConditionStatus) (r : Reason),
      s = .false ∧ r = .failed ∧ pods.any (fails name) = true ∨
        s = .true ∧ r = .completed ∧ pods.any (fails name) = false →
      TSafe name spec (suiteRunnerFinished tr (resultOrNone result) (suiteRunnerCondition s r result.description))
        (StepPost name spec (SuiteRunnerChecked name spec)) l₁ := by
    intro s r hsr
    refine suiteRunnerFinished_safe hheld hrun ?_ (hsr.imp (·.2.1) (·.2.1)) ?_ fun _ => hrep
    · exact .suiteRunnerSuccessful hr.environment hrun.quiet hrep
    · intro d he hjobs hd'
      refine .suiteRunnerSuccessful hr.environment hr.suiteRunner (hrep.congr hjobs hd') he ?_
      rw [hd', hpods]
      exact hsr
  show TSafe name spec (if _ then _ else _) _ _
  split
  · rename_i hfailed
    exact key _ _ (.inl ⟨rfl, rfl, hc.mp hfailed⟩)
  · rename_i hfailed
    refine key _ _ (.inr ⟨rfl, rfl, ?_⟩)
    rw [← Bool.not_eq_true, ← hc]
    exact hfailed

theorem verdictOrNone_view (tr : TestRun) :
    (verdictOrNone tr).metadata = tr.metadata ∧ (verdictOrNone tr).spec = tr.spec ∧
      (verdictOrNone tr).status.view = tr.status.view.judge (noneIfEmpty tr.status.view.verdict) := by
  unfold verdictOrNone
  split
  · rename_i hv
    refine ⟨rfl, rfl, ?_⟩
    simp [hv, noneIfEmpty, TestRunStatus.view, View.judge]
  · rename_i hv
    refine ⟨rfl, rfl, ?_⟩
    simp [hv, noneIfEmpty, TestRunStatus.view, View.judge]

theorem suiteRunnerActive_safe (h : Held name spec l tr tr.status.view)
    (hr : Running (digest spec l.round) tr.status.view) (hj : (digest spec l.round).jobs = some .active) :
    TSafe name spec (suiteRunnerActive tr) (StepPost name spec (SuiteRunnerChecked name spec)) l := by
  unfold suiteRunnerActive
  obtain ⟨hm₀, hsp₀, hv₀⟩ := verdictOrNone_view tr
  refine (setCondition_safe _ _).bind ?_
  rintro ⟨tr', changed⟩ l₁ ⟨hs, hm, hsp, hview, hun⟩
  have hheld : Held name spec l₁ tr' tr.status.view := h.same hs (hm.trans hm₀) (hsp.trans hsp₀)
  have hrun : Running (digest spec l₁.round) tr.status.view := by rw [hs.2]; exact hr
  have hview' : tr'.status.view =
      (tr.status.view.set .suiteRunner .true .active).judge (noneIfEmpty tr.status.view.verdict) := by
    rw [hview, hv₀]; rfl
  have hwrite : TSafe name spec (updated tr') (StepPost name spec (SuiteRunnerChecked name spec)) l₁ := by
    refine updated_safe hheld hr.opened ?_ (.inr (.inl hrun.quiet))
    rw [hview', hs.2]
    exact .suiteRunnerActive hr.environment hr.suiteRunner hj
  show TSafe name spec (if _ then _ else if _ then _ else _) _ _
  split
  · exact hwrite
  · rename_i hch
    split
    · exact hwrite
    · rename_i hvc
      have hcond : (verdictOrNone tr).status.view.cond .suiteRunner = some (.true, .active) := hun (by simpa using hch)
      have hne : tr.status.verdict ≠ "" := by simpa using hvc
      have heq : tr'.status.view = tr.status.view := by
        rw [hview', View.set_eq_self (by rw [hv₀] at hcond; exact hcond), noneIfEmpty]
        exact congrArg _ (if_neg hne)
      exact Running.notUpdated (heq ▸ hheld) (heq ▸ hrun)

/-- Creating the job. -/
theorem createJob_safe (h : Held name spec l tr v) (henv : v.reason .environment = some .completed)
    (hj : (digest spec l.round).jobs = some .none) :
    TSafe name spec (JobManager.create (suiteRunnerJob tr)) (fun _ l' => Same spec l l') l := by
  obtain ⟨b, hb, _, hbv⟩ := h.base
  have hnoise : (suiteRunnerJob tr).Calls Noise := by
    refine ⟨trivial, fun a => ?_⟩
    cases a with
    | error e => trivial
    | ok cluster =>
        dsimp only
        split
        · trivial
        · split <;> trivial
  refine (safe_noise hnoise).bind fun job l₁ hs => ?_
  cases job with
  | error e => exact hs
  | ok job =>
      refine Local.Safe.other ?_ ⟨b, hs.1.trans hb, hbv ▸ henv, hs.2 ▸ hj⟩ fun a c => ⟨hs.1, hs.2⟩
      rintro (e | ⟨x, e, _⟩ | ⟨x, e, _⟩) <;> cases e

theorem suiteRunnerNotCreated_safe (err : Err) (h : Held name spec l tr tr.status.view)
    (hr : Running (digest spec l.round) tr.status.view) (hj : (digest spec l.round).jobs = some .none) :
    TSafe name spec (suiteRunnerNotCreated tr err)
      (StepPost name spec (SuiteRunnerChecked name spec)) l := by
  have hnot : ¬ isStatusReason tr.status.conditions .suiteRunner .failed = true :=
    fun e => hr.suiteRunner (isStatusReason_view.mp e)
  unfold suiteRunnerNotCreated setUnlessFailed
  rw [if_neg hnot]
  refine (setCondition_safe _ _).bind ?_
  rintro ⟨tr', changed⟩ l₁ ⟨hs, hm, hsp, hview, hun⟩
  cases changed with
  | false =>
      have hcond : tr.status.view.cond .suiteRunner = some (.false, .failed) := hun rfl
      exact absurd (by simp [View.reason, hcond]) hr.suiteRunner
  | true =>
      have hheld : Held name spec l₁ tr' tr.status.view := h.same hs hm hsp
      refine (publish_safe hheld ?_).bind ?_
      · rw [hs.2]
        exact .suiteRunnerNotCreated hr.environment hr.quiet hj
      · rintro _ l₂ ⟨hb₂, hd₂⟩
        obtain ⟨hm', hsp'⟩ := setInconclusive_meta tr'
        refine updated_safe ⟨by rw [hm', hb₂]; exact hheld.base, by rw [Object.name, hm']; exact hheld.name,
          hsp'.trans hheld.spec⟩ hr.opened ?_ (.inl ?_)
        · rw [judged hview, hd₂]
          exact .suiteRunnerNotCreated hr.environment hr.suiteRunner (by rw [hs.2]; exact hj) rfl
        · rw [judged hview]
          exact .inl (View.judge_reason.trans View.set_reason_self)

theorem suiteRunnerMissing_safe (h : Held name spec l tr tr.status.view)
    (hr : Running (digest spec l.round) tr.status.view) (hj : (digest spec l.round).jobs = some .none) :
    TSafe name spec (suiteRunnerMissing tr) (StepPost name spec (SuiteRunnerChecked name spec)) l := by
  unfold suiteRunnerMissing
  split
  · exact Running.notUpdated h hr
  split
  · exact Running.notUpdated h hr
  · refine (createJob_safe h hr.environment hj).bind fun err l₁ hs => ?_
    have hheld : Held name spec l₁ tr tr.status.view := h.same hs rfl rfl
    have hrun : Running (digest spec l₁.round) tr.status.view := by rw [hs.2]; exact hr
    have hj₁ : (digest spec l₁.round).jobs = some .none := by rw [hs.2]; exact hj
    cases err with
    | some err => exact suiteRunnerNotCreated_safe err hheld hrun hj₁
    | none =>
        refine (setCondition_safe _ _).bind ?_
        rintro ⟨tr', changed⟩ l₂ ⟨hs₂, hm, hsp, hview, hun⟩
        have hheld₂ : Held name spec l₂ tr' tr.status.view := hheld.same hs₂ hm hsp
        cases changed with
        | false =>
            rw [View.set_eq_self (hun rfl)] at hview
            exact Running.notUpdated (hview ▸ hheld₂) (by rw [hs₂.2, hview]; exact hrun)
        | true =>
            refine updated_safe hheld₂ hr.opened ?_ (.inr (.inl (by rw [hs₂.2]; exact hrun.quiet)))
            rw [hview, hs₂.2]
            exact .suiteRunnerStarting hr.environment hr.suiteRunner hj₁

theorem reconcileSuiteRunner_safe {manager : JobManager} {jobStatus : JobStatus}
    (h : EnvironmentChecked name spec tr l) (hj : (digest spec l.round).jobs = some jobStatus)
    (hp : (digest spec l.round).pods = []) (hm : jobStatus = .successful → manager.considered ≠ []) :
    TSafe name spec (reconcileSuiteRunner tr manager jobStatus)
      (StepPost name spec (SuiteRunnerChecked name spec)) l := by
  obtain ⟨hh, ha⟩ := h
  unfold reconcileSuiteRunner
  split
  · rename_i hnone
    refine (setCondition_safe _ _).bind ?_
    rintro ⟨tr', changed⟩ l₁ ⟨hs, hm, hsp, hview, _⟩
    refine updated_safe (hh.same hs hm hsp) ha.opened ?_ ?_
    · rw [hview]
      exact .suiteRunnerPending (find_none_view.mp hnone)
    · rw [hs.2, hview]
      by_cases hf : tr.status.view.reason .environment = some .failed
      · have henv : (tr.status.view.set .suiteRunner .false .pending).reason .environment = some .failed :=
          (View.set_reason_ne (by decide)).trans hf
        exact .inl (.inr (.inr (.inl henv)))
      · exact .inr (.inl (ha.quiet hf))
  split
  · rename_i hfailed
    have hfailed := isStatusReason_view.mp hfailed
    refine failSafe_safe hh ha.opened (.inr hfailed) ?_ ?_ ?_
    · exact (deleteAll_noise _).bind fun _ => (deleteEnvironmentRequests_noise tr).bind fun _ => trivial
    · exact fun _ hset he => .suiteRunnerVerdict hfailed hset he
    · intro l' hh' hset he
      exact ⟨_, _, hh', rfl, .inl rfl, ha.opened, fun _ => ⟨hset, he⟩, fun hn => absurd (.inr hfailed) hn⟩
  rename_i hsome hnot
  have hsr : tr.status.view.reason .suiteRunner ≠ some .failed :=
    fun e => hnot (isStatusReason_view.mpr e)
  split
  · -- the environment is not ready: the suite runner is left alone
    refine notUpdated_safe ⟨_, _, hh, rfl, .inl rfl, ha.opened, ?_, ?_⟩
    · exact fun hf => ha.announced (hf.resolve_right hsr)
    · exact fun hf => ha.quiet fun e => hf (.inl e)
  · rename_i hready
    have henv : tr.status.view.reason .environment = some .completed :=
      isStatusReason_view.mp (by simpa using hready)
    have hr : Running (digest spec l.round) tr.status.view :=
      ⟨ha.opened, henv, hsr, ha.quiet (by rw [henv]; rintro ⟨⟩)⟩
    cases jobStatus with
    | failed => exact suiteRunnerFailed_safe hh hr hj
    | successful => exact suiteRunnerSuccessful_safe hh hr hj hp (hm rfl)
    | active => exact suiteRunnerActive_safe hh hr hj
    | none => exact suiteRunnerMissing_safe hh hr hj

/-! ### `reconcileActiveStatus` -/

/-- What `activeCondition` computes, on views. -/
theorem activeCondition_cases {st : TestRunStatus} {c : Condition}
    (h : activeCondition st.conditions = some c) :
    c.type = .active ∧
      (c.status = .false ∧ c.reason = .completed ∧ st.view.reason .suiteRunner = some .completed ∨
        c.status = .false ∧ c.reason = .failed ∧ st.view.reason .suiteRunner ≠ some .completed ∧
          (st.view.reason .environment = some .failed ∨ st.view.reason .suiteRunner = some .failed) ∨
        c.status = .true ∧ c.reason = .active ∧ st.view.reason .suiteRunner = some .active) := by
  simp only [activeCondition, isStatusReason_view] at h
  split at h
  · rename_i hsr
    cases h
    exact ⟨rfl, .inl ⟨rfl, rfl, hsr⟩⟩
  rename_i hsr
  split at h
  · rename_i hf
    cases h
    exact ⟨rfl, .inr (.inl ⟨rfl, rfl, hsr, .inr hf⟩)⟩
  split at h
  · rename_i hf
    cases h
    exact ⟨rfl, .inr (.inl ⟨rfl, rfl, hsr, .inl hf⟩)⟩
  split at h
  · rename_i ha
    cases h
    exact ⟨rfl, .inr (.inr ⟨rfl, rfl, ha⟩)⟩
  · cases h

/-- The Active condition does not decide anything. -/
theorem tidy_set_active {d : Digest} {s : ConditionStatus} {r : Reason} {u : Verdict} (h : d.tidy v) :
    d.tidy ((v.set .active s r).judge u) := by
  refine h.imp_left fun hd => ?_
  have hsr : (v.set .active s r).reason .suiteRunner = v.reason .suiteRunner := View.set_reason_ne nofun
  have henv : (v.set .active s r).reason .environment = v.reason .environment := View.set_reason_ne nofun
  simpa [View.decided, hsr, henv] using hd

theorem SuiteRunnerChecked.ready (h : SuiteRunnerChecked name spec tr l) : Ready name spec l tr := by
  obtain ⟨v, u, hh, hv, hsil, ha⟩ := h
  refine ⟨v, u, hh, hv, hsil, .inl ha.opened, ha.tidy ?_⟩
  rintro (hf | hf)
  · exact .inr (.inr (.inl hf))
  · exact .inl hf

/-- A changed Active condition completes the TestRun, or reports that the suite runner is active. -/
theorem activeChanged_safe {c : Condition} {u : Verdict} {P : TestRun → Know → Prop}
    (h : Held name spec l tr v) (hview : tr.status.view = (v.set .active c.status c.reason).judge u)
    (hc : v.completion = none) (hsil : Silent name (digest spec l.round) v u)
    (ha : Announced (digest spec l.round) v
      (v.reason .environment = some .failed ∨ v.reason .suiteRunner = some .failed))
    (hcases : c.status = .false ∧ c.reason = .completed ∧ v.reason .suiteRunner = some .completed ∨
        c.status = .false ∧ c.reason = .failed ∧ v.reason .suiteRunner ≠ some .completed ∧
          (v.reason .environment = some .failed ∨ v.reason .suiteRunner = some .failed) ∨
        c.status = .true ∧ c.reason = .active ∧ v.reason .suiteRunner = some .active) :
    TSafe name spec (activeChanged tr c) (StepPost name spec P) l := by
  unfold activeChanged
  split
  · rename_i hfalse
    refine (safe_noise metaNow_noise).bind fun now l₁ hs => ?_
    refine updated_safe (h.same hs rfl rfl) hc ?_ (.inl (.inr (.inr (.inr nofun))))
    show Write _ _ _ (tr.status.view.complete now)
    rw [hview, hs.2]
    rcases hcases with ⟨hst, hr, hsr⟩ | ⟨hst, hr, hne, hf⟩ | ⟨hst, _⟩
    · rw [hst, hr]
      exact .activeCompleted hsr hsil
    · rw [hst, hr, hsil.resolve_right fun h => hne h.1]
      exact .activeFailed hf hne (ha.announced hf).1 (ha.announced hf).2
    · rw [hst] at hfalse; cases hfalse
  · rename_i htrue
    rcases hcases with ⟨hst, _⟩ | ⟨hst, _⟩ | ⟨hst, hr, hsr⟩
    · exact absurd hst htrue
    · exact absurd hst htrue
    · refine updated_safe h hc ?_ ?_
      · rw [hview, hst, hr, hsil.resolve_right fun h => by rw [hsr] at h; cases h.1]
        exact .activeActive hsr
      · rw [hview]
        exact tidy_set_active (ha.tidy fun hf => hf.elim (fun hf => .inr (.inr (.inl hf))) .inl)

theorem reconcileActiveStatus_safe (h : SuiteRunnerChecked name spec tr l) :
    TSafe name spec (reconcileActiveStatus tr)
      (StepPost name spec (fun tr l => Ready name spec l tr)) l := by
  have hready := h.ready
  obtain ⟨v, u, hh, hv, hsil, ha⟩ := h
  have htidy : (digest spec l.round).tidy v := ha.tidy fun hf =>
    hf.elim (fun hf => .inr (.inr (.inl hf))) .inl
  unfold reconcileActiveStatus
  split
  · rename_i hnone
    have hnone : v.cond .active = none := by
      rw [find_none_view, hv] at hnone; exact hnone
    refine (setCondition_safe _ _).bind ?_
    rintro ⟨tr', changed⟩ l₁ ⟨hs, hm, hsp, hview, _⟩
    obtain ⟨hm', hsp', hv'⟩ := verdictOrNone_view tr'
    have hview' : (verdictOrNone tr').status.view =
        (v.set .active .false .pending).judge (noneIfEmpty u) := by rw [hv', hview, hv]; rfl
    refine updated_safe (hh.same hs (hm'.trans hm) (hsp'.trans hsp)) ha.opened ?_ ?_
    · rw [hview', hs.2]
      exact .activePending hnone hsil
    · rw [hview', hs.2]
      exact tidy_set_active htidy
  · cases hact : activeCondition tr.status.conditions with
    | none => exact notUpdated_safe hready
    | some c =>
        obtain ⟨ht, hcases⟩ := activeCondition_cases hact
        rw [hv] at hcases
        simp only [View.judge_reason] at hcases
        refine (setCondition_safe _ _).bind ?_
        rintro ⟨tr', changed⟩ l₁ ⟨hs, hm, hsp, hview, hun⟩
        have hheld : Held name spec l₁ tr' v := hh.same hs hm hsp
        have hview' : tr'.status.view = (v.set .active c.status c.reason).judge u := by
          rw [hview, hv, ht]; rfl
        cases changed with
        | true =>
            exact activeChanged_safe hheld hview' ha.opened (hs.2 ▸ hsil) (hs.2 ▸ ha) hcases
        | false =>
            have hcond : v.cond .active = some (c.status, c.reason) := by
              have := hun rfl
              rwa [hv, ht] at this
            rw [View.set_eq_self hcond] at hview'
            have hready' : Ready name spec l₁ tr' :=
              SuiteRunnerChecked.ready ⟨v, u, hheld, hview', hs.2 ▸ hsil, hs.2 ▸ ha⟩
            have hverdict : c.reason = .failed → verdictSet tr'.status.view.verdict = true := by
              intro hr
              rcases hcases with ⟨_, hr', _⟩ | ⟨_, _, hne, hf⟩ | ⟨_, hr', _⟩
              · rw [hr] at hr'; cases hr'
              · rw [hview', hsil.resolve_right fun h => hne h.1]
                exact (ha.announced hf).1
              · rw [hr] at hr'; cases hr'
            have hnot : c.reason ≠ .timedOut := by
              rcases hcases with ⟨_, hr, _⟩ | ⟨_, hr, _⟩ | ⟨_, hr, _⟩ <;> rw [hr] <;> decide
            show TSafe name spec (activeUnchanged tr' c) _ _
            unfold activeUnchanged
            rw [if_neg]
            · exact notUpdated_safe hready'
            · rintro ⟨_, hr, hch⟩
              rw [setInconclusive_changed, hverdict (hr.resolve_right hnot)] at hch
              cases hch

/-! ## `reconcile` and `Reconcile` -/

theorem providersFailed_safe (err : Err) (h : Held name spec l tr tr.status.view)
    (hc : tr.status.view.completion = none) (he : (digest spec l.round).events = []) :
    TSafe name spec (providersFailed tr err) (fun r l' => r.2 = none → Ready name spec l' r.1) l := by
  refine (setCondition_safe _ _).bind ?_
  rintro ⟨tr', changed⟩ l₁ ⟨hs, hm, hsp, hview, hun⟩
  show TSafe name spec (if _ then _ else _) _ _
  split
  · obtain ⟨hm', hsp'⟩ := setInconclusive_meta tr'
    have hheld := h.same hs (hm'.trans hm) (hsp'.trans hsp)
    refine (written_safe hheld hc ?_ (.inr (.inl (hs.2 ▸ he)))).bind ?_
    · rw [judged hview, hs.2]
      exact .providers he
    · intro r l₂ _ herr
      cases (Err.join_eq_none.mp herr).1
  · exact fun herr => by cases herr

theorem reconcile_safe (cluster : Cluster) (h : Held name spec l tr tr.status.view)
    (hc : tr.status.view.completion = none) (he : (digest spec l.round).events = []) :
    TSafe name spec (reconcile cluster tr) (fun r l' => r.2 = none → Ready name spec l' r.1) l := by
  refine (safe_noise (checkProviders_noise _)).bind fun err l₁ hs => ?_
  have hheld : Held name spec l₁ tr tr.status.view := h.same hs rfl rfl
  have he₁ : (digest spec l₁.round).events = [] := hs.2 ▸ he
  cases err with
  | some err => exact providersFailed_safe err hheld hc he₁
  | none =>
      refine andThen_safe (reconcileEnvironmentRequest_safe cluster hheld hc he₁) fun tr₂ l₂ h₂ => ?_
      refine andThen_safe (checkEnvironment_safe h₂) fun tr₃ l₃ ⟨hh₃, ha₃⟩ => ?_
      refine (status_safe _).bind ?_
      rintro ⟨manager, jobStatus⟩ l₄ ⟨hb, hd⟩
      cases jobStatus with
      | error e => exact fun herr => by cases herr
      | ok jobStatus =>
          obtain ⟨hd, hm⟩ := hd jobStatus rfl
          have h₄ : EnvironmentChecked name spec tr₃ l₄ := by
            refine ⟨⟨hb ▸ hh₃.base, hh₃.name, hh₃.spec⟩, ?_⟩
            rw [hd]
            exact ⟨ha₃.opened, ha₃.announced, ha₃.quiet⟩
          refine andThen_safe (reconcileSuiteRunner_safe h₄ (by rw [hd]) (by rw [hd]) hm) fun tr₅ l₅ h₅ => ?_
          exact andThen_safe (reconcileActiveStatus_safe h₅) fun tr₆ l₆ h₆ _ => h₆

/-- The deadline check, once the clock has been found past the deadline. -/
theorem deadlineExceeded_safe (r : TestRunReconciler) {u : Verdict} (h : Held name spec l tr v)
    (hv : tr.status.view = v.judge u) (hsil : Silent name (digest spec l.round) v u)
    (hl : (digest spec l.round).deadlineReached v) (ht : (digest spec l.round).tidy v) :
    TSafe name spec (r.deadlineExceeded tr) (fun _ _ => True) l := by
  refine (setCondition_safe _ _).bind ?_
  rintro ⟨tr', changed⟩ l₁ ⟨hs, hm, hsp, hview, hun⟩
  obtain ⟨hm', hsp'⟩ := setInconclusive_meta tr'
  rw [hv] at hview
  cases changed with
  | true =>
      refine (safe_noise metaNow_noise).bind fun now l₂ hs₂ => ?_
      have hs₂ := hs.trans hs₂
      have hheld : Held name spec l₂ (complete (setInconclusiveVerdictIfUnset tr').1 now) v :=
        h.same hs₂ (hm'.trans hm) (hsp'.trans hsp)
      refine (publish_safe hheld ?_).bind fun _ l₃ ⟨hb₃, hd₃⟩ => ?_
      · rw [hs₂.2]
        exact .deadline ht
      · refine (statusUpdate_safe (v := v) ⟨hb₃ ▸ hheld.base, hheld.name, hheld.spec⟩ (.inr ?_)).bind
          fun _ _ _ => trivial
        have hview' : (complete (setInconclusiveVerdictIfUnset tr').1 now).status.view =
            ((v.set .active .false .timedOut).complete now).judge (inconclusiveIfUnset u) := by
          show (setInconclusiveVerdictIfUnset tr').1.status.view.complete now = _
          rw [view_setInconclusive, hview]
          rfl
        rw [hview', hd₃, hs₂.2]
        refine ⟨hl, .exceeded (hsil.congr rfl rfl) rfl (ht.imp_right ?_)⟩
        rintro (he | hrev)
        · exact .inl (by rw [he])
        · exact .inr hrev
  | false =>
      have hcond : v.cond .active = some (.false, .timedOut) := by
        have := hun rfl
        rwa [hv] at this
      show TSafe name spec (if (setInconclusiveVerdictIfUnset tr').2 = true then _ else _) _ _
      split
      · rename_i hch
        have hview' : tr'.status.view = v.judge u := by
          rw [hview]
          exact View.set_eq_self hcond
        have hset : verdictSet u = false := by
          rw [setInconclusive_changed, hview'] at hch
          simpa using hch
        refine (statusUpdate_safe (h.same hs (hm'.trans hm) (hsp'.trans hsp)) (.inr ?_)).bind
          fun _ _ _ => trivial
        have hview'' : (setInconclusiveVerdictIfUnset tr').1.status.view = v.judge verdictInconclusive := by
          rw [view_setInconclusive, hview']
          simp [View.judge, inconclusiveIfUnset, hset]
        rw [hview'', hs.2]
        exact ⟨hl, .verdict (by simp [View.reason, hcond]) hsil hset⟩
      · trivial

theorem checkDeadline_safe (r : TestRunReconciler) (h : Ready name spec l tr) :
    TSafe name spec (r.checkDeadline tr) (fun _ _ => True) l := by
  obtain ⟨v, u, hh, hv, hsil, hcomp, htidy⟩ := h
  unfold checkDeadline
  rw [hh.spec]
  split
  · trivial
  · rename_i hdl
    refine Local.Safe.other (Harmless.notFocus nofun) trivial fun now c => ?_
    show TSafe name spec (if _ then _ else _) _ _
    split
    · rename_i hlate
      have hadd : digest spec (⟨.ext .clockNow, now, c⟩ :: l.round) =
          { digest spec l.round with late := some (digest spec l.round).completed } :=
        if_pos ⟨hdl, hlate⟩
      refine deadlineExceeded_safe r ⟨hh.base, hh.name, hh.spec⟩ hv ?_ ?_ ?_
      · rw [hadd]; exact hsil.congr rfl rfl
      · rw [hadd]; exact ⟨_, rfl, hcomp⟩
      · rw [hadd]; exact htidy
    · exact safe_harmless ⟨nofun, fun _ => trivial⟩

theorem reconcileCompleted_harmless (tr : TestRun) (t : Int) :
    (reconcileCompleted tr t).Calls Harmless := by
  have hstatus : (jobManager tr).status.Calls Harmless := by
    refine ⟨nofun, fun a => ?_⟩
    cases a <;> trivial
  refine hstatus.bind ?_
  rintro ⟨manager, jobStatus⟩
  cases jobStatus with
  | error e => trivial
  | ok _ =>
      refine ((deleteAll_noise _).mono fun _ => Noise.harmless).bind fun _ => ?_
      refine ((deleteEnvironmentRequests_noise tr).mono fun _ => Noise.harmless).bind fun _ => ?_
      split
      · trivial
      · split
        · trivial
        · refine ⟨nofun, fun now => ?_⟩
          show Prog.Calls Harmless (if _ then _ else _)
          split
          · exact ⟨trivial, fun _ => trivial⟩
          · exact ⟨nofun, fun _ => trivial⟩

theorem reconcileRunning_safe (r : TestRunReconciler) (h : Held name spec l tr tr.status.view)
    (hc : tr.status.view.completion = none) (he : (digest spec l.round).events = []) :
    TSafe name spec (r.reconcileRunning tr) (fun _ _ => True) l := by
  refine Local.Safe.other (Harmless.notFocus nofun) trivial fun a c => ?_
  cases a with
  | error e => trivial
  | ok cluster =>
      simp only [Prog.bind]
      cases cluster.spec.etosMessageBus with
      | none => trivial
      | some etosMessageBus =>
          dsimp only
          unfold getPublisher
          split
          · trivial
          refine Local.Safe.other (Harmless.notFocus nofun) trivial fun a c' => ?_
          cases a with
          | error e => trivial
          | ok _ =>
              show TSafe name spec (reconcile cluster tr >>= _) _ _
              refine Safe.bind (reconcile_safe cluster ⟨h.base, h.name, h.spec⟩ hc he) ?_
              rintro ⟨tr', err⟩ l₁ hr
              cases err with
              | some e => show TSafe name spec (if _ then _ else _) _ _; split <;> trivial
              | none => exact checkDeadline_safe r (hr rfl)

/-- Adding the trace annotations keeps the status. -/
theorem maybeAddTraceparentLabel_safe (r : TestRunReconciler) (h : Held name spec l tr tr.status.view)
    (he : (digest spec l.round).events = []) :
    TSafe name spec (r.maybeAddTraceparentLabel tr) (fun p l' => p.2 = none →
      Held name spec l' p.1 p.1.status.view ∧ (digest spec l'.round).events = []) l := by
  unfold maybeAddTraceparentLabel
  split
  · exact fun _ => ⟨h, he⟩
  split
  · exact fun _ => ⟨h, he⟩
  · refine Local.Safe.other (Harmless.notFocus nofun) trivial fun span c => ?_
    obtain ⟨b, hb, hm, hv⟩ := h.base
    rintro _ rfl a l₂ hs
    refine ⟨⟨h.spec, h.name, b, hb, by rw [← hm]⟩, ?_⟩
    cases hs with
    | update hn hn' hs ht => exact fun _ => ⟨⟨⟨_, rfl, rfl, rfl⟩, hn', hs⟩, he⟩
    | updateError hn => exact fun e => by cases e
    | other hf => exact absurd (.inr (.inl ⟨_, rfl, h.name⟩)) hf

/-- **Refinement.** `Reconcile` makes only the calls the machine allows. -/
theorem Reconcile_safe (r : TestRunReconciler) (name : String) (spec : TestRunSpec) :
    TSafe name spec (r.Reconcile name) (fun _ _ => True) ⟨none, []⟩ := by
  rintro _ rfl a l₂ hs
  refine ⟨trivial, ?_⟩
  cases hs with
  | getError => show TSafe name spec (if _ then _ else _) _ _; split <;> trivial
  | other hf => exact absurd (.inl rfl) hf
  | get hn hs =>
      refine (maybeAddTraceparentLabel_safe r ⟨⟨_, rfl, rfl, rfl⟩, hn, hs⟩ rfl).bind ?_
      rintro ⟨tr, err⟩ l₁ h
      cases err with
      | some e => trivial
      | none =>
          obtain ⟨hheld, he⟩ := h rfl
          dsimp only
          cases hct : tr.status.completionTime with
          | some t => exact safe_harmless (reconcileCompleted_harmless tr t)
          | none => exact reconcileRunning_safe r hheld hct he

end Etos
