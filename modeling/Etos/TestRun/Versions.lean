import Etos.Operator.Runs

/-!
# `TestRun.Versions` — the suites of a TestRun stay as they are

The specification of a TestRun is written when it is created. Its worker writes it back as it has read it, the webhook
fills in defaults but leaves the suites alone, and everybody else edits labels and annotations only. So every version of
a TestRun that is ever stored has the same suites, and what the worker of the TestRun has heard of has them, too
(**`steady`**).
-/

namespace Etos

open Kube TestRunReconciler

/-- A step adds at most one version of a TestRun: of a new one, or with the suites of a version that was there. -/
def SuitesStep (s s' : Namespace) : Prop :=
  s'.past .testRun = s.past .testRun ∨
    ∃ new, s'.past .testRun = new :: s.past .testRun ∧
      ((∀ y ∈ s.past .testRun, y.name ≠ new.name) ∨
        ∃ y ∈ s.past .testRun, y.name = new.name ∧ y.spec.suites = new.spec.suites)

variable {s s' : Namespace} {o : Op}

/-- What is put into the store has the suites of a version that was there. -/
theorem SuitesStep.put {x y : TestRun} (hy : y ∈ s.past .testRun) (hname : y.name = x.name)
    (hsuites : y.spec.suites = x.spec.suites) : SuitesStep s (s.put .testRun x) := by
  have hpast : (s.put .testRun x).past .testRun = s.stamp (k := Kind.testRun) x :: s.past .testRun :=
    Store.put_past (s := s) (k := Kind.testRun) x
  exact .inr ⟨_, hpast, .inr ⟨y, hy, hname, hsuites⟩⟩

/-- A write that creates TestRuns under new names only, and updates them with the suites they have. -/
theorem SuitesStep.of_touches (h : Store.Touches admitted s .testRun o s')
    (hcreate : ∀ x : TestRun, o = .create .testRun x → x.name = "" ∨ x.name ∉ s.names .testRun)
    (hupdate : ∀ x : TestRun, o = .update .testRun x → s.find .testRun x.name ≠ none →
      ∃ y ∈ s.past .testRun, y.name = x.name ∧ y.spec.suites = x.spec.suites) : SuitesStep s s' := by
  cases h with
  | @create x x' n t ha hn hnone =>
      obtain ⟨hname, hsuites⟩ : x'.name = x.name ∧ x'.spec.suites = x.spec.suites := ha
      have hfresh : n ∉ s.names .testRun := by
        rcases hn with ⟨hne, rfl⟩ | ⟨_, _, hfresh⟩
        · have hx : x'.name ∉ s.names .testRun := by
            rw [hname]
            refine (hcreate x rfl).resolve_left fun hempty => hne ?_
            exact hname.trans hempty
          exact hx
        · exact hfresh
      have hpast := Store.put_past (s := s) (k := Kind.testRun) (Store.renamed (k := Kind.testRun) x' n t)
      refine .inr ⟨_, hpast, .inl fun y hy hyn => ?_⟩
      have hnamed : y.name = n := hyn
      exact hfresh (hnamed ▸ s.filed hy)
  | @update x x' cur ha hf hv hok =>
      obtain ⟨hname, hsuites⟩ : x'.name = x.name ∧ x'.spec.suites = x.spec.suites := ha
      have hfind : s.find .testRun x.name ≠ none := by
        rw [← hname, hf]
        exact Option.some_ne_none _
      obtain ⟨y, hy, hyn, hys⟩ := hupdate x rfl hfind
      exact .put hy (hyn.trans hname.symm) (hys.trans hsuites.symm)
  | finish => exact .inl rfl
  | @status x cur hf hv => exact .put (s.current hf) rfl rfl
  | remove => exact .inl rfl
  | @mark n t cur hf => exact .put (s.current hf) rfl rfl

/-- Everybody else. -/
theorem SuitesStep.of_others {a : Ans o} (ho : others s o) (hw : Store.Write admitted s o a s') : SuitesStep s s' := by
  rcases hw.touches .testRun with ⟨_, hpast⟩ | ht
  · exact .inl hpast
  refine .of_touches ht ?_ ?_
  · rintro x rfl
    exact ho.1
  · rintro x rfl hfind
    cases hf : s.find .testRun x.name with
    | none => exact absurd hf hfind
    | some cur => exact ⟨cur, s.current hf, s.named hf, by rw [(ho cur hf).1]⟩

/-- All versions of a TestRun have the same suites, and so has what its worker has heard of. -/
structure Steady (w : OperatorState) : Prop where
  past : ∀ x ∈ w.store.past .testRun, ∀ y ∈ w.store.past .testRun, x.name = y.name → x.spec.suites = y.spec.suites
  heard : ∀ n x, Seen n (w.log (.testRun n)) x →
    ∃ y ∈ w.store.past .testRun, y.name = n ∧ y.spec.suites = x.spec.suites

variable {w : OperatorState}

/-- The workers. -/
theorem SuitesStep.of_call (hsteady : Steady w) {i : Worker} {a : Ans o} (hperm : i.Permits (w.log i) o)
    (hs : Store.Sem admitted w.store o a s) : SuitesStep w.store s := by
  rcases hs.touches .testRun with ⟨_, hpast⟩ | ht
  · exact .inl hpast
  refine .of_touches ht ?_ ?_
  · rintro x rfl
    cases i <;> exact hperm.elim
  · rintro x rfl _
    cases i with
    | testRun n =>
        obtain ⟨hname, x', hseen, hspec⟩ := hperm
        obtain ⟨y, hy, hyn, hys⟩ := hsteady.heard n x' hseen
        exact ⟨y, hy, hyn.trans hname.symm, by rw [hys, hspec]⟩
    | environmentRequest | environment | resource => exact hperm.elim

/-- The versions that are stored. -/
theorem Steady.past_step (h : Steady w) (hstep : SuitesStep w.store s) :
    ∀ x ∈ s.past .testRun, ∀ y ∈ s.past .testRun, x.name = y.name → x.spec.suites = y.spec.suites := by
  rcases hstep with hpast | ⟨new, hpast, hnew⟩
  · rw [hpast]
    exact h.past
  · -- the new version agrees with the older ones of its name, if there are any
    have hold : ∀ x ∈ w.store.past .testRun, x.name = new.name → x.spec.suites = new.spec.suites := by
      intro x hx hname
      rcases hnew with hfresh | ⟨y, hy, hyn, hys⟩
      · exact absurd hname (hfresh x hx)
      · exact (h.past x hx y hy (hname.trans hyn.symm)).trans hys
    rw [hpast]
    intro x hx y hy hname
    rcases List.mem_cons.mp hx with rfl | hx'
    · rcases List.mem_cons.mp hy with rfl | hy'
      · rfl
      · exact (hold y hy' hname.symm).symm
    · rcases List.mem_cons.mp hy with rfl | hy'
      · exact hold x hx' hname
      · exact h.past x hx' y hy' hname

/-- What is heard was stored, or was made from what was heard before. -/
theorem heard_of_call (hsteady : Steady w) {n : String} {x : TestRun} {a : Ans o}
    (hperm : (Worker.testRun n).Permits (w.log (.testRun n)) o) (hs : Store.Sem admitted w.store o a s)
    (hseen : Seen n ((w.record (.testRun n) o a s).log (.testRun n)) x) :
    ∃ y ∈ s.past .testRun, y.name = n ∧ y.spec.suites = x.spec.suites := by
  have hmono : ∀ y, y ∈ w.store.past .testRun → y ∈ s.past .testRun := fun y hy => hs.past_mono hy
  obtain ⟨⟨e, he, ha⟩, hname⟩ := hseen
  rw [Cluster.log_record_self] at he
  rcases List.mem_cons.mp he with rfl | he
  · -- the answer to this call
    have hread : ∀ y : TestRun, Store.Reads o a .testRun y → y ∈ s.past .testRun := fun y hy => hs.read_past hy
    cases ha with
    | get => exact ⟨x, hread x .get, hname, rfl⟩
    | list hx => exact ⟨x, hread x (.list hx), hname, rfl⟩
    | create => exact hperm.elim
    | @update _ o x =>
        obtain ⟨_, x', hseen', hspec⟩ := hperm
        have hsuites : x.spec.suites = o.spec.suites := by
          cases hs with
          | write h =>
              cases h with
              | update ha h =>
                  obtain ⟨cur, _, _, _, rfl, _⟩ := Store.updated_eq h
                  exact ha.2
          | lost _ ha => cases ha
          | error ha => cases ha
        obtain ⟨y, hy, hyn, hys⟩ := hsteady.heard n x' hseen'
        exact ⟨y, hmono y hy, hyn, by rw [hys, hsuites, hspec]⟩
    | @updateStatus _ o x =>
        have htells := Cluster.Tells.of_sem hs
        exact ⟨x, (htells.status _ _ _ rfl).1, hname, rfl⟩
  · obtain ⟨y, hy, hyn, hys⟩ := hsteady.heard n x ⟨⟨e, he, ha⟩, hname⟩
    exact ⟨y, hmono y hy, hyn, hys⟩

/-- **The suites of a TestRun never change.** -/
theorem steady {op : Operator} {cond : Worker → OperatorState → (o : Op) → Ans o → Prop} {c}
    (h : (op.runs cond).Reachable c) : Steady c.state := by
  refine (Operator.invariant (I := Steady) ?_ ?_ ?_ ?_ h).2
  · refine ⟨fun x hx => (nomatch hx), fun n x hseen => ?_⟩
    obtain ⟨e, he, _⟩ := hseen.heard
    cases he
  · intro i w _ hI
    refine ⟨hI.past, fun n x hseen => ?_⟩
    by_cases hi : Worker.testRun n = i
    · subst hi
      obtain ⟨e, he, _⟩ := hseen.heard
      rw [Cluster.log_fresh_self] at he
      cases he
    · rw [Cluster.log_fresh_ne hi] at hseen
      exact hI.heard n x hseen
  · intro i w o a s _ hI hperm hs _
    refine ⟨hI.past_step (.of_call hI hperm hs), fun n x hseen => ?_⟩
    by_cases hi : Worker.testRun n = i
    · subst hi
      exact heard_of_call hI hperm hs hseen
    · rw [Cluster.log_record_ne hi] at hseen
      obtain ⟨y, hy, hrest⟩ := hI.heard n x hseen
      exact ⟨y, hs.past_mono hy, hrest⟩
  · intro w o a s _ hI ho hw
    refine ⟨hI.past_step (.of_others ho hw), fun n x hseen => ?_⟩
    obtain ⟨y, hy, hrest⟩ := hI.heard n x hseen
    exact ⟨y, hw.past_mono hy, hrest⟩

end Etos
