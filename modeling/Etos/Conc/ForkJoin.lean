import Mathlib.Algebra.GroupWithZero.Nat
import Mathlib.Data.List.Perm.Basic
import Mathlib.Data.List.Forall2
import Mathlib.Logic.Relation

/-!
# `Conc.ForkJoin` — tasks whose results are collected over a channel

A number of tasks run next to each other, each on a state of its own. A task that has a result sends it on a buffered
channel with room for all of them; a collector receives as many results as there are tasks, in the order in which they
come, and joins them.

- **`Runs.joined`**: what the collector has when it is done is the join of the results of all tasks, in some order.
- **`Runs.progress`**: before that some task or the collector can move, unless a task is stuck.
- `Step.lt_total`: if every task gets closer to its result with each step, the whole does.
-/

namespace Etos.ForkJoin

variable {σ β γ : Type}

/-- A task that is still running, or has sent its result. -/
inductive Task (σ β : Type) where
  | running (s : σ)
  | sent (s : σ) (result : β)

def Task.state : Task σ β → σ
  | .running s => s
  | .sent s _ => s

def Task.result? : Task σ β → Option β
  | .running _ => none
  | .sent _ b => some b

/-- The tasks, the channel with its oldest result first, and what the collector has received. -/
structure State (σ β γ : Type) where
  tasks : List (Task σ β)
  channel : List β
  joined : γ
  received : Nat

/-- What tasks do and how results are joined. -/
structure Spec (σ β γ : Type) where
  /-- A step of a task. -/
  work : σ → σ → Prop
  /-- The result of a task that has one. -/
  result : σ → Option β
  join : γ → β → γ
  empty : γ

variable (F : Spec σ β γ)

/-- All tasks have been started. -/
def start (tasks : List σ) : State σ β γ := ⟨tasks.map .running, [], F.empty, 0⟩

inductive Step : State σ β γ → State σ β γ → Prop where
  | work {before after : List (Task σ β)} {s s' : σ} {channel joined received} (h : F.work s s') :
      Step ⟨before ++ .running s :: after, channel, joined, received⟩
        ⟨before ++ .running s' :: after, channel, joined, received⟩
  | send {before after : List (Task σ β)} {s : σ} {b : β} {channel joined received} (h : F.result s = some b)
      (hroom : channel.length < (before ++ .running s :: after).length) :
      Step ⟨before ++ .running s :: after, channel, joined, received⟩
        ⟨before ++ .sent s b :: after, channel ++ [b], joined, received⟩
  | receive {tasks : List (Task σ β)} {b : β} {channel joined received} (h : received < tasks.length) :
      Step ⟨tasks, b :: channel, joined, received⟩ ⟨tasks, channel, F.join joined b, received + 1⟩

/-- The states a run from these tasks can reach. -/
def Runs (tasks : List σ) (s : State σ β γ) : Prop := Relation.ReflTransGen (Step F) (start F tasks) s

/-- The collector has a result from every task. -/
def State.Done (s : State σ β γ) : Prop := s.received = s.tasks.length

/-- A task does what it does alone, and sends the result it has. -/
structure Task.Of (s₀ : σ) (t : Task σ β) : Prop where
  reached : Relation.ReflTransGen F.work s₀ t.state
  result : ∀ b, t.result? = some b → F.result t.state = some b

/-- The invariant of a run: no result is lost, none comes twice. -/
structure Inv (tasks : List σ) (s : State σ β γ) (collected : List β) : Prop where
  tasks : List.Forall₂ (Task.Of F) tasks s.tasks
  results : (collected ++ s.channel).Perm (s.tasks.filterMap Task.result?)
  joined : s.joined = collected.foldl F.join F.empty
  received : s.received = collected.length

variable {F} {tasks : List σ} {s s' : State σ β γ} {collected : List β}

theorem Inv.start : Inv F tasks (start F tasks) [] where
  tasks := by
    refine List.forall₂_map_right_iff.mpr (List.forall₂_same.mpr fun s _ => ⟨.refl, fun b hb => ?_⟩)
    cases hb
  results := by
    have hnone : (tasks.map Task.running).filterMap Task.result? = ([] : List β) := by
      rw [List.filterMap_map]
      exact List.filterMap_eq_nil_iff.mpr fun _ _ => rfl
    rw [ForkJoin.start, hnone]
    exact List.Perm.nil
  joined := rfl
  received := rfl

/-- One task changes. -/
theorem forall₂_replace {before after : List (Task σ β)} {t t' : Task σ β}
    (h : List.Forall₂ (Task.Of F) tasks (before ++ t :: after)) (ht : ∀ s₀, Task.Of F s₀ t → Task.Of F s₀ t') :
    List.Forall₂ (Task.Of F) tasks (before ++ t' :: after) := by
  induction before generalizing tasks with
  | nil =>
      cases h with
      | cons h hs => exact .cons (ht _ h) hs
  | cons u before ih =>
      cases h with
      | cons h hs => exact .cons h (ih hs)

theorem results_running {before after : List (Task σ β)} {s : σ} :
    (before ++ Task.running s :: after).filterMap Task.result? =
      before.filterMap Task.result? ++ after.filterMap Task.result? := by
  rw [List.filterMap_append, List.filterMap_cons]
  rfl

theorem results_sent {before after : List (Task σ β)} {s : σ} {b : β} :
    (before ++ Task.sent s b :: after).filterMap Task.result? =
      before.filterMap Task.result? ++ b :: after.filterMap Task.result? := by
  rw [List.filterMap_append, List.filterMap_cons]
  rfl

theorem Inv.step (h : Inv F tasks s collected) (hs : Step F s s') : ∃ collected', Inv F tasks s' collected' := by
  obtain ⟨htasks, hresults, hjoined, hreceived⟩ := h
  cases hs with
  | work hw =>
      refine ⟨collected, forall₂_replace htasks fun s₀ ht => ⟨ht.reached.tail hw, fun b hb => ?_⟩, ?_, hjoined,
        hreceived⟩
      · cases hb
      · rw [results_running] at hresults ⊢
        exact hresults
  | send hb hroom =>
      rename_i before after s b channel joined received
      refine ⟨collected, forall₂_replace htasks fun s₀ ht => ⟨ht.reached, fun b' hb' => ?_⟩, ?_, hjoined, hreceived⟩
      · cases hb'
        exact hb
      · rw [results_running] at hresults
        rw [results_sent, ← List.append_assoc]
        calc ((collected ++ channel) ++ [b]).Perm (b :: (collected ++ channel)) := List.perm_append_singleton _ _
          _ |>.Perm (b :: (before.filterMap Task.result? ++ after.filterMap Task.result?)) :=
            hresults.cons b
          _ |>.Perm _ := List.perm_middle.symm
  | receive hr =>
      rename_i tasks' b channel joined received
      refine ⟨collected ++ [b], htasks, ?_, ?_, ?_⟩
      · simpa using hresults
      · rw [List.foldl_append, ← hjoined]
        rfl
      · rw [List.length_append, ← hreceived]
        rfl

theorem Runs.inv (h : Runs F tasks s) : ∃ collected, Inv F tasks s collected := by
  induction h with
  | refl => exact ⟨[], Inv.start⟩
  | tail _ hs ih =>
      obtain ⟨collected, h⟩ := ih
      exact h.step hs

/-- Every task is one of those the run started with. -/
theorem Runs.task {t : Task σ β} (h : Runs F tasks s) (ht : t ∈ s.tasks) : ∃ s₀ ∈ tasks, Task.Of F s₀ t := by
  obtain ⟨collected, hinv⟩ := h.inv
  obtain ⟨hlength, hget⟩ := List.forall₂_iff_get.mp hinv.tasks
  obtain ⟨i, hi, rfl⟩ := List.getElem_of_mem ht
  exact ⟨_, List.getElem_mem (hlength ▸ hi), hget i (hlength ▸ hi) hi⟩

/-! ## At the end -/

theorem Inv.count (h : Inv F tasks s collected) :
    s.received + s.channel.length = (s.tasks.filterMap Task.result?).length := by
  rw [h.received, ← List.length_append]
  exact h.results.length_eq

/-- All results have been sent. -/
theorem all_sent_iff {ts : List (Task σ β)} :
    (ts.filterMap Task.result?).length = ts.length ↔ ∀ t ∈ ts, t.result?.isSome = true := by
  rw [List.length_filterMap_eq_countP]
  exact List.countP_eq_length

/-- Where a task has come to an end: the states it can reach, with their result. -/
def Ends (F : Spec σ β γ) (s₀ s : σ) (b : β) : Prop := Relation.ReflTransGen F.work s₀ s ∧ F.result s = some b

theorem ends_of_sent {ts : List (Task σ β)} (h : List.Forall₂ (Task.Of F) tasks ts)
    (hsent : ∀ t ∈ ts, t.result?.isSome = true) :
    ∃ ends : List (σ × β), List.Forall₂ (fun s₀ e => Ends F s₀ e.1 e.2) tasks ends ∧
      ts = ends.map fun e => .sent e.1 e.2 := by
  induction h with
  | nil => exact ⟨[], .nil, rfl⟩
  | @cons s₀ t tasks ts ht hts ih =>
      obtain ⟨ends, hends, rfl⟩ := ih fun t' ht' => hsent t' (List.mem_cons_of_mem _ ht')
      have ht' := hsent t List.mem_cons_self
      cases t with
      | running s => cases ht'
      | sent s b => exact ⟨(s, b) :: ends, .cons ⟨ht.reached, ht.result b rfl⟩ hends, rfl⟩

/-- **When the collector is done**, every task has ended, and it holds the join of their results in some order. -/
theorem Runs.joined (h : Runs F tasks s) (hdone : s.Done) :
    ∃ ends : List (σ × β), List.Forall₂ (fun s₀ e => Ends F s₀ e.1 e.2) tasks ends ∧
      s.tasks = ends.map (fun e => .sent e.1 e.2) ∧
      ∃ collected : List β, collected.Perm (ends.map Prod.snd) ∧ s.joined = collected.foldl F.join F.empty := by
  obtain ⟨collected, hinv⟩ := h.inv
  have hcount := hinv.count
  have hle := List.length_filterMap_le Task.result? s.tasks
  have hreceived : s.received = s.tasks.length := hdone
  have hchannel : s.channel = [] := List.eq_nil_of_length_eq_zero (by omega)
  obtain ⟨ends, hends, htasks⟩ := ends_of_sent hinv.tasks (all_sent_iff.mp (by omega))
  refine ⟨ends, hends, htasks, collected, ?_, hinv.joined⟩
  have hresults := hinv.results
  rw [hchannel, List.append_nil, htasks, List.filterMap_map] at hresults
  have hsent : (Task.result? ∘ fun e : σ × β => Task.sent e.1 e.2) = fun e => some e.2 := rfl
  rw [hsent, List.filterMap_eq_map'] at hresults
  exact hresults

/-! ## Getting there -/

/-- A task that is neither done nor able to move. -/
def Stuck (F : Spec σ β γ) (s : σ) : Prop := F.result s = none ∧ ∀ s', ¬ F.work s s'

/-- **A run goes on** until the collector is done, unless a task is stuck. -/
theorem Runs.progress (h : Runs F tasks s) (hopen : ¬ s.Done) :
    (∃ s', Step F s s') ∨ ∃ t, Task.running t ∈ s.tasks ∧ Stuck F t := by
  obtain ⟨collected, hinv⟩ := h.inv
  have hcount := hinv.count
  have hle := List.length_filterMap_le Task.result? s.tasks
  have hreceived : s.received ≠ s.tasks.length := hopen
  obtain ⟨ts, channel, joined, received⟩ := s
  cases channel with
  | cons b channel => exact .inl ⟨_, .receive (by dsimp only at *; omega)⟩
  | nil =>
      have hrunning : ¬ ∀ t ∈ ts, t.result?.isSome = true := fun hall =>
        hreceived (hcount.trans (all_sent_iff.mpr hall))
      push Not at hrunning
      obtain ⟨t, ht, hnone⟩ := hrunning
      cases t with
      | sent s b => exact absurd rfl hnone
      | running s =>
          by_cases hstuck : Stuck F s
          · exact .inr ⟨s, ht, hstuck⟩
          obtain ⟨before, after, rfl⟩ := List.append_of_mem ht
          cases hb : F.result s with
          | some b => exact .inl ⟨_, .send hb (List.length_pos_of_mem ht)⟩
          | none =>
              have hmoves : ∃ s', F.work s s' := by
                by_contra hno
                exact hstuck ⟨hb, fun s' hs' => hno ⟨s', hs'⟩⟩
              obtain ⟨s', hs'⟩ := hmoves
              exact .inl ⟨_, .work hs'⟩

/-- How far a task is from having been sent, if `μ` says how far its state is from a result. -/
def Task.left (μ : σ → Nat) : Task σ β → Nat
  | .running s => μ s + 1
  | .sent _ _ => 0

/-- How far the collector is from the end. -/
def total (μ : σ → Nat) (s : State σ β γ) : Nat :=
  (s.tasks.map (Task.left μ)).sum + (s.tasks.length - s.received)

/-- **If every step of a task brings it closer to its result**, every step of the run brings it closer to its end. -/
theorem Step.lt_total {μ : σ → Nat} (hs : Step F s s')
    (hμ : ∀ t t', Task.running t ∈ s.tasks → F.work t t' → μ t' < μ t) : total μ s' < total μ s := by
  cases hs with
  | work hw =>
      have hlt := hμ _ _ (List.mem_append_right _ List.mem_cons_self) hw
      simp only [total, List.map_append, List.map_cons, List.sum_append, List.sum_cons, Task.left, List.length_append,
        List.length_cons]
      omega
  | send hb hroom =>
      simp only [total, List.map_append, List.map_cons, List.sum_append, List.sum_cons, Task.left, List.length_append,
        List.length_cons]
      omega
  | receive hr =>
      simp only [total]
      omega

end Etos.ForkJoin
