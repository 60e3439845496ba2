import Etos.Kube.Store
import Etos.Prog.Log

/-!
# `Kube.Cluster` — controllers at work on one store

Processes run programs against a `Store`, one call at a time and in any interleaving, under everything `Store.Sem`
allows: reads from a cache that lags, rejected writes, lost responses, crashes between two calls. Others may write
too. Each process has the log of its current round, and every logged call remembers the store it was made in, so
that a property can speak about what was there when a call was made.

## Contents
- **The system.** `Cluster.system`, over the programs of the processes and what others may do.
- **Knowledge.** Whatever a process was answered with is known to the store (`Knowing`): a write made from it is
  rejected unless it is still the stored version.
- **Invariants.** `Cluster.invariant`: each process is described by the calls its log permits.
- **Concrete runs.** `Cluster.play` runs whole rounds with scripted replies; what it computes is reachable.
-/

namespace Etos.Kube

variable {K : Type} [DecidableEq K] {Spec Status : K → Type} {X : Type} {XAns : X → Type} {ι : Type}

/-- A call in a round: what the store was when it was made, the call and its answer. -/
structure Event (K : Type) (Spec Status : K → Type) (X : Type) (XAns : X → Type) extends
    Said (Op K Spec Status X) (Ans K Spec Status X XAns) where
  before : Store K Spec Status

/-- A store with the round each process is in, newest call first. -/
structure Cluster (K : Type) (Spec Status : K → Type) (X : Type) (XAns : X → Type) (ι : Type) where
  store : Store K Spec Status
  rounds : ι → List (Event K Spec Status X XAns)

namespace Cluster

/-- What a process has heard in its round. -/
def log (i : ι) (w : Cluster K Spec Status X XAns ι) :
    List (Said (Op K Spec Status X) (Ans K Spec Status X XAns)) :=
  (w.rounds i).map Event.toSaid

/-- The answers a call can get at all. -/
def possible : (o : Op K Spec Status X) → Ans K Spec Status X XAns o → Prop
  | .get _ n, .ok x => x.name = n
  | .list _ sel, .ok xs => ∀ x ∈ xs, sel.matches x.metadata = true
  | .update _ o, .ok x => x.name = o.name
  | .updateStatus _ o, .ok x => x.name = o.name ∧ x.status = o.status
  | _, _ => True

/-- Who does what: the program a process may start, and the writes of everybody else. -/
structure Behaviour (K : Type) (Spec Status : K → Type) (X : Type) (XAns : X → Type) (ι : Type) where
  program : ι → Store K Spec Status → Option (Prog (Op K Spec Status X) (Ans K Spec Status X XAns) Unit)
  others : Store K Spec Status → Op K Spec Status X → Prop

variable [DecidableEq ι]

/-- One more call in the round of `i`. -/
def record (w : Cluster K Spec Status X XAns ι) (i : ι) (o : Op K Spec Status X)
    (a : Ans K Spec Status X XAns o) (s : Store K Spec Status) : Cluster K Spec Status X XAns ι :=
  ⟨s, Function.update w.rounds i (⟨⟨o, a⟩, w.store⟩ :: w.rounds i)⟩

/-- A new round of `i`. -/
def fresh (w : Cluster K Spec Status X XAns ι) (i : ι) : Cluster K Spec Status X XAns ι :=
  { w with rounds := Function.update w.rounds i [] }

/-- The processes of `B` on a store that starts in `init`. -/
def system (adm : Admission K Spec Status) (init : Store K Spec Status → Prop)
    (B : Behaviour K Spec Status X XAns ι) :
    System (Op K Spec Status X) (Ans K Spec Status X XAns) (Cluster K Spec Status X XAns ι) ι where
  init w := init w.store ∧ w.rounds = fun _ => []
  start i w p w' := B.program i w.store = some p ∧ w' = w.fresh i
  sem i w o a w' := ∃ s, Store.Sem adm w.store o a s ∧ w' = w.record i o a s
  env w w' := ∃ (o : Op K Spec Status X) (a : Ans K Spec Status X XAns o) (s : Store K Spec Status),
    B.others w.store o ∧ Store.Write adm w.store o a s ∧ w' = { w with store := s }

variable {adm : Admission K Spec Status} {init : Store K Spec Status → Prop}
  {B : Behaviour K Spec Status X XAns ι} {i j : ι} {w w' : Cluster K Spec Status X XAns ι}
  {o : Op K Spec Status X} {a : Ans K Spec Status X XAns o} {s : Store K Spec Status}

omit [DecidableEq K] in
@[simp] theorem log_record_self : (w.record i o a s).log i = ⟨o, a⟩ :: w.log i := by
  simp [log, record]

omit [DecidableEq K] in
theorem log_record_ne (h : j ≠ i) : (w.record i o a s).log j = w.log j := by
  simp [log, record, Function.update_of_ne h]

omit [DecidableEq K] in
@[simp] theorem log_fresh_self : (w.fresh i).log i = [] := by simp [log, fresh]

omit [DecidableEq K] in
theorem log_fresh_ne (h : j ≠ i) : (w.fresh i).log j = w.log j := by
  simp [log, fresh, Function.update_of_ne h]

/-! ### Events -/

/-- Every call of every round is a `P`. -/
def EveryEvent (P : ι → Event K Spec Status X XAns → Prop) (w : Cluster K Spec Status X XAns ι) : Prop :=
  ∀ i, ∀ e ∈ w.rounds i, P i e

variable {P : ι → Event K Spec Status X XAns → Prop}

omit [DecidableEq K] in
theorem EveryEvent.fresh (h : EveryEvent P w) (i : ι) : EveryEvent P (w.fresh i) := by
  intro j e he
  by_cases hj : j = i
  · subst hj
    simp [Cluster.fresh] at he
  · have hrounds : (w.fresh i).rounds j = w.rounds j := by simp [Cluster.fresh, Function.update_of_ne hj]
    rw [hrounds] at he
    exact h j e he

omit [DecidableEq K] in
theorem EveryEvent.record (h : EveryEvent P w) (hnew : P i ⟨⟨o, a⟩, w.store⟩) : EveryEvent P (w.record i o a s) := by
  intro j e he
  by_cases hj : j = i
  · subst hj
    have hrounds : (w.record j o a s).rounds j = ⟨⟨o, a⟩, w.store⟩ :: w.rounds j := by simp [Cluster.record]
    rw [hrounds] at he
    rcases List.mem_cons.mp he with rfl | he
    · exact hnew
    · exact h j e he
  · have hrounds : (w.record i o a s).rounds j = w.rounds j := by simp [Cluster.record, Function.update_of_ne hj]
    rw [hrounds] at he
    exact h j e he

/-- Every call of every round is a `P`, given the part of the round before it. -/
def EveryCall (P : ι → List (Event K Spec Status X XAns) → Event K Spec Status X XAns → Prop)
    (w : Cluster K Spec Status X XAns ι) : Prop :=
  ∀ i later e earlier, w.rounds i = later ++ e :: earlier → P i earlier e

variable {P' : ι → List (Event K Spec Status X XAns) → Event K Spec Status X XAns → Prop}

omit [DecidableEq K] in
theorem EveryCall.fresh (h : EveryCall P' w) (i : ι) : EveryCall P' (w.fresh i) := by
  intro j later e earlier he
  by_cases hj : j = i
  · subst hj
    simp [Cluster.fresh] at he
  · have hrounds : (w.fresh i).rounds j = w.rounds j := by simp [Cluster.fresh, Function.update_of_ne hj]
    rw [hrounds] at he
    exact h j later e earlier he

omit [DecidableEq K] in
theorem EveryCall.record (h : EveryCall P' w) (hnew : P' i (w.rounds i) ⟨⟨o, a⟩, w.store⟩) :
    EveryCall P' (w.record i o a s) := by
  intro j later e earlier he
  by_cases hj : j = i
  · subst hj
    have hrounds : (w.record j o a s).rounds j = ⟨⟨o, a⟩, w.store⟩ :: w.rounds j := by simp [Cluster.record]
    rw [hrounds] at he
    cases later with
    | nil =>
        obtain ⟨rfl, rfl⟩ := List.cons.inj he
        exact hnew
    | cons _ later => exact h j later e earlier (List.cons.inj he).2
  · have hrounds : (w.record i o a s).rounds j = w.rounds j := by simp [Cluster.record, Function.update_of_ne hj]
    rw [hrounds] at he
    exact h j later e earlier he

/-- Whatever is answered is possible. -/
theorem possible_of_sem (hadm : ∀ s k o o', adm s k o o' → o'.name = o.name) {s s' : Store K Spec Status}
    (h : Store.Sem adm s o a s') : possible o a := by
  have herror : ∀ (o : Op K Spec Status X) (a : Ans K Spec Status X XAns o), succeeded o a = false →
      possible o a := by
    intro o a ha
    cases o with
    | ext => trivial
    | create | delete => trivial
    | get | list | update | updateStatus =>
        cases a with
        | ok => cases ha
        | error => trivial
  cases h with
  | get _ hn => exact hn
  | list h => exact fun x hx => (h x hx).2
  | write h =>
      cases h with
      | create => trivial
      | delete => trivial
      | update ha h =>
          obtain ⟨cur, _, _, _, rfl, _⟩ := Store.updated_eq h
          have hname := hadm _ _ _ _ ha
          exact hname
      | updateStatus h =>
          obtain ⟨cur, hf, _, rfl, _⟩ := Store.statusUpdated_eq h
          have hname := s.named hf
          exact ⟨hname, rfl⟩
  | lost _ ha => exact herror _ _ ha
  | error ha => exact herror _ _ ha
  | ext => trivial

theorem logged {allowed : (o : Op K Spec Status X) → Ans K Spec Status X XAns o → Prop}
    (hallowed : ∀ (s : Store K Spec Status) o (a : Ans K Spec Status X XAns o) s', Store.Sem adm s o a s' →
      allowed o a)
    (cond : ι → Cluster K Spec Status X XAns ι → (o : Op K Spec Status X) → Ans K Spec Status X XAns o → Prop) :
    Logged ((system adm init B).restrict cond) log allowed where
  call := by
    rintro i w o a w' ⟨⟨s, hs, rfl⟩, _⟩
    exact ⟨hallowed _ _ _ _ hs, log_record_self, fun j hj => log_record_ne hj⟩
  start := by
    rintro i w p w' ⟨_, rfl⟩
    exact ⟨log_fresh_self, fun j hj => log_fresh_ne hj⟩
  env := by
    rintro w w' ⟨_, _, s, _, _, rfl⟩ j
    rfl

/-! ## Knowledge -/

/-- What a call tells about the versions that were stored at some time. -/
structure Tells (s : Store K Spec Status) (e : Said (Op K Spec Status X) (Ans K Spec Status X XAns)) : Prop where
  /-- Everything in an answer is known to the store. -/
  known : ∀ k x, Store.Answered e.op e.ans k x → s.Knows k x
  /-- What was read was stored at some time. -/
  reads : ∀ k x, Store.Reads e.op e.ans k x → x ∈ s.past k
  /-- An object is read under its name. -/
  named : ∀ k n x, e = ⟨.get k n, .ok x⟩ → x.name = n
  /-- What is listed matches the selector. -/
  listed : ∀ k sel xs, e = ⟨.list k sel, .ok xs⟩ → ∀ x ∈ xs, sel.matches x.metadata = true
  /-- A status update was made on top of a stored version, and changed its status only. -/
  status : ∀ k o x, e = ⟨.updateStatus k o, .ok x⟩ → x ∈ s.past k ∧ ∃ cur ∈ s.past k,
    cur.metadata.resourceVersion = o.metadata.resourceVersion ∧ x.spec = cur.spec ∧
      x.metadata = { cur.metadata with resourceVersion := x.metadata.resourceVersion }
  /-- An updated object with a finalizer is still there after the update. -/
  update : ∀ k o x, e = ⟨.update k o, .ok x⟩ → x.metadata.finalizers ≠ [] → x ∈ s.past k

omit [DecidableEq K] in
theorem Tells.mono {s s' : Store K Spec Status} {e : Said (Op K Spec Status X) (Ans K Spec Status X XAns)}
    (h : Tells s e) (hknows : ∀ k x, s.Knows k x → s'.Knows k x) (hpast : ∀ k x, x ∈ s.past k → x ∈ s'.past k) :
    Tells s' e where
  known := fun k x hx => hknows k x (h.known k x hx)
  reads := fun k x hx => hpast k x (h.reads k x hx)
  named := h.named
  listed := h.listed
  status := by
    intro k o x he
    obtain ⟨hx, cur, hcur, hrest⟩ := h.status k o x he
    exact ⟨hpast k x hx, cur, hpast k cur hcur, hrest⟩
  update := fun k o x he hfin => hpast k x (h.update k o x he hfin)

theorem Tells.of_sem {s s' : Store K Spec Status} (h : Store.Sem adm s o a s') : Tells s' ⟨o, a⟩ where
  known := fun k x hx => h.answered hx
  reads := fun k x hx => h.read_past hx
  named := by
    rintro k n x ⟨⟩
    cases h with
    | get _ hn => exact hn
    | write h => cases h
    | lost h => cases h
    | error ha => cases ha
  listed := by
    rintro k sel xs ⟨⟩ x hx
    cases h with
    | list h => exact (h x hx).2
    | write h => cases h
    | lost h => cases h
    | error ha => cases ha
  status := by
    rintro k o x ⟨⟩
    cases h with
    | write h =>
        cases h with
        | updateStatus h =>
            obtain ⟨cur, hf, hv, rfl, rfl⟩ := Store.statusUpdated_eq h
            refine ⟨?_, cur, Store.put_past_mono (s.current hf), hv, rfl, rfl⟩
            rw [Store.put_past]
            exact List.mem_cons_self
    | lost _ ha => cases ha
    | error ha => cases ha
  update := by
    rintro k o x ⟨⟩ hfin
    cases h with
    | write h =>
        cases h with
        | update _ h =>
            obtain ⟨cur, _, _, _, rfl, ⟨_, hnil, _⟩ | rfl⟩ := Store.updated_eq h
            · exact absurd hnil hfin
            · rw [Store.put_past]
              exact List.mem_cons_self
    | lost _ ha => cases ha
    | error ha => cases ha

/-- The store bears out every log. -/
def Knowing (w : Cluster K Spec Status X XAns ι) : Prop := ∀ i, ∀ e ∈ w.log i, Tells w.store e

omit [DecidableEq K] [DecidableEq ι] in
/-- A write by others, or a call, keeps what was known. -/
theorem Knowing.store (h : w.Knowing) (hknows : ∀ k x, w.store.Knows k x → s.Knows k x)
    (hpast : ∀ k x, x ∈ w.store.past k → x ∈ s.past k) : Knowing { w with store := s } :=
  fun i e he => (h i e he).mono hknows hpast

omit [DecidableEq K] in
theorem Knowing.fresh (h : w.Knowing) (i : ι) : (w.fresh i).Knowing := by
  intro j e he
  by_cases hj : j = i
  · subst hj
    rw [log_fresh_self] at he
    cases he
  · rw [log_fresh_ne hj] at he
    exact h j e he

theorem Knowing.record (h : w.Knowing) (hs : Store.Sem adm w.store o a s) : (w.record i o a s).Knowing := by
  have hold : Knowing { w with store := s } := h.store (fun k x hx => hs.knows hx) (fun k x hx => hs.past_mono hx)
  intro j e he
  by_cases hj : j = i
  · subst hj
    rw [log_record_self] at he
    rcases List.mem_cons.mp he with rfl | he
    · exact Tells.of_sem hs
    · exact hold j e he
  · rw [log_record_ne hj] at he
    exact hold j e he

/-! ## Invariants -/

/-- **The invariant rule.** Each process is described by the calls its log permits. -/
theorem invariant {ok : ι → List (Said (Op K Spec Status X) (Ans K Spec Status X XAns)) → Op K Spec Status X → Prop}
    {allowed : (o : Op K Spec Status X) → Ans K Spec Status X XAns o → Prop}
    {cond : ι → Cluster K Spec Status X XAns ι → (o : Op K Spec Status X) → Ans K Spec Status X XAns o → Prop}
    {I : Cluster K Spec Status X XAns ι → Prop}
    (hallowed : ∀ (s : Store K Spec Status) o (a : Ans K Spec Status X XAns o) s', Store.Sem adm s o a s' →
      allowed o a)
    (hprog : ∀ i s p, B.program i s = some p → Follows allowed (ok i) p (fun _ _ => True) [])
    (hinit : ∀ s, init s → I ⟨s, fun _ => []⟩)
    (hstart : ∀ i w, w.Knowing → I w → I (w.fresh i))
    (hcall : ∀ i w o a s, w.Knowing → I w → ok i (w.log i) o → Store.Sem adm w.store o a s → cond i w o a →
      I (w.record i o a s))
    (henv : ∀ w (o : Op K Spec Status X) (a : Ans K Spec Status X XAns o) s, w.Knowing → I w →
      B.others w.store o → Store.Write adm w.store o a s → I { w with store := s })
    {c} (h : ((system adm init B).restrict cond).Reachable c) : c.state.Knowing ∧ I c.state := by
  have hprog' : ∀ i w p w', ((system adm init B).restrict cond).start i w p w' →
      Follows allowed (ok i) p (fun _ _ => True) [] := by
    rintro i w p w' ⟨hp, _⟩
    exact hprog i w.store p hp
  refine (logged hallowed cond).invariant (I := fun w => w.Knowing ∧ I w) hprog' ?_ ?_ ?_ ?_ h
  · rintro ⟨s, _⟩ ⟨hi, rfl⟩
    exact ⟨fun i e he => (nomatch he), hinit s hi⟩
  · rintro i w p w' ⟨hk, hI⟩ ⟨_, rfl⟩
    exact ⟨hk.fresh i, hstart i w hk hI⟩
  · rintro i w o a w' ⟨hk, hI⟩ hok ⟨⟨s, hs, rfl⟩, hc⟩
    exact ⟨hk.record hs, hcall i w o a s hk hI hok hs hc⟩
  · rintro w w' ⟨hk, hI⟩ ⟨o, a, s, ho, hw, rfl⟩
    exact ⟨hk.store (fun k x hx => hw.knows hx) (fun k x hx => hw.past_mono hx), henv w o a s hk hI ho hw⟩

/-! ## Concrete runs -/

/-- How the server deals with a call in a concrete run. -/
inductive Reply where
  /-- As it should: fresh reads, and writes that fail only if the server has to refuse them. -/
  | serve
  /-- A cache that has not caught up: a list is empty. -/
  | lagging
  /-- The call fails. -/
  | fail (e : Err)
  deriving DecidableEq, Repr

/-- The replies of a round, the clock of the server, and the answers to the calls that go elsewhere. -/
structure Script (K : Type) (Spec Status : K → Type) (X : Type) (XAns : X → Type) where
  ext : (x : X) → XAns x
  time : Int := 0
  reply : Op K Spec Status X → Reply := fun _ => .serve

/-- A concrete admission. -/
abbrev Admits (K : Type) (Spec Status : K → Type) : Type :=
  Store K Spec Status → (k : K) → Object (Spec k) (Status k) → Option (Object (Spec k) (Status k))

section Respond

variable (admits : Admits K Spec Status) (sc : Script K Spec Status X XAns) (s : Store K Spec Status)

/-- The name a new object gets. -/
def newName (k : K) (m : ObjectMeta) : Option String :=
  if m.name ≠ "" then some m.name
  else if m.generateName ++ toString s.version ∈ s.names k then none
  else some (m.generateName ++ toString s.version)

/-- The create of an admitted object. -/
def createdAs (k : K) (o : Object (Spec k) (Status k)) :
    Option (Object (Spec k) (Status k) × Store K Spec Status) :=
  match newName s k o.metadata with
  | none => none
  | some n => s.created k o n sc.time

/-- A call that the server deals with as it should. -/
def served : (o : Op K Spec Status X) → Ans K Spec Status X XAns o × Store K Spec Status
  | .get k n =>
      match s.find k n with
      | some x => (.ok x, s)
      | none => (.error ⟨some .notFound, "not found"⟩, s)
  | .list k sel => (.ok (s.list k sel), s)
  | .create k o =>
      match admits s k o with
      | none => (.error ⟨some .invalid, "denied"⟩, s)
      | some o' =>
          match createdAs sc s k o' with
          | some (x, s') => (.ok x, s')
          | none => (.error ⟨some .alreadyExists, "already exists"⟩, s)
  | .update k o =>
      match admits s k o with
      | none => (.error ⟨some .invalid, "denied"⟩, s)
      | some o' =>
          match s.updated k o' with
          | some (x, s') => (.ok x, s')
          | none => (.error ⟨some .conflict, "conflict"⟩, s)
  | .updateStatus k o =>
      match s.statusUpdated k o with
      | some (x, s') => (.ok x, s')
      | none => (.error ⟨some .conflict, "conflict"⟩, s)
  | .delete k n =>
      match s.deleted k n sc.time with
      | some s' => (.ok (), s')
      | none => (.error ⟨some .notFound, "not found"⟩, s)
  | .ext x => (sc.ext x, s)

/-- A call that fails. -/
def failed (e : Err) : (o : Op K Spec Status X) → Ans K Spec Status X XAns o × Store K Spec Status
  | .get _ _ => (.error e, s)
  | .list _ _ => (.error e, s)
  | .create _ _ => (.error e, s)
  | .update _ _ => (.error e, s)
  | .updateStatus _ _ => (.error e, s)
  | .delete _ _ => (.error e, s)
  | .ext x => (sc.ext x, s)

/-- A call in a concrete run. -/
def respond (o : Op K Spec Status X) : Ans K Spec Status X XAns o × Store K Spec Status :=
  match sc.reply o with
  | .serve => served admits sc s o
  | .fail e => failed sc s e o
  | .lagging =>
      match o with
      | .list _ _ => (.ok [], s)
      | o => served admits sc s o

variable {admits} {sc} {s}

omit [DecidableEq K] in
theorem newName_names {k : K} {m : ObjectMeta} {n : String} (h : newName s k m = some n) : s.Names k m n := by
  unfold newName at h
  split at h
  · rename_i hn
    exact .inl ⟨hn, (Option.some.inj h).symm⟩
  · rename_i hn
    split at h
    · cases h
    · rename_i hfresh
      obtain rfl := Option.some.inj h
      exact .inr ⟨by simpa using hn, ⟨_, rfl⟩, hfresh⟩

theorem served_sem (hadmits : ∀ s k o o', admits s k o = some o' → adm s k o o') (o : Op K Spec Status X) :
    Store.Sem adm s o (served admits sc s o).1 (served admits sc s o).2 := by
  cases o with
  | get k n =>
      cases hf : s.find k n with
      | some x =>
          simp only [served, hf]
          exact .get (s.current hf) (s.named hf)
      | none =>
          simp only [served, hf]
          exact .error rfl
  | list k sel =>
      refine .list fun x hx => ?_
      obtain ⟨hf, hm⟩ := Store.mem_list.mp hx
      exact ⟨s.current hf, hm⟩
  | create k o =>
      cases ha : admits s k o with
      | none =>
          simp only [served, ha]
          exact .error rfl
      | some o' =>
          cases hn : newName s k o'.metadata with
          | none =>
              simp only [served, ha, createdAs, hn]
              exact .error rfl
          | some n =>
              cases hc : s.created k o' n sc.time with
              | none =>
                  simp only [served, ha, createdAs, hn, hc]
                  exact .error rfl
              | some r =>
                  simp only [served, ha, createdAs, hn, hc]
                  exact .write (.create (hadmits _ _ _ _ ha) (newName_names hn) hc)
  | update k o =>
      cases ha : admits s k o with
      | none =>
          simp only [served, ha]
          exact .error rfl
      | some o' =>
          cases hu : s.updated k o' with
          | none =>
              simp only [served, ha, hu]
              exact .error rfl
          | some r =>
              simp only [served, ha, hu]
              exact .write (.update (hadmits _ _ _ _ ha) hu)
  | updateStatus k o =>
      cases hu : s.statusUpdated k o with
      | none =>
          simp only [served, hu]
          exact .error rfl
      | some r =>
          simp only [served, hu]
          exact .write (.updateStatus hu)
  | delete k n =>
      cases hd : s.deleted k n sc.time with
      | none =>
          simp only [served, hd]
          exact .error rfl
      | some s' =>
          simp only [served, hd]
          exact .write (.delete hd)
  | ext x => exact .ext

theorem respond_sem (hadmits : ∀ s k o o', admits s k o = some o' → adm s k o o') (o : Op K Spec Status X) :
    Store.Sem adm s o (respond admits sc s o).1 (respond admits sc s o).2 := by
  unfold respond
  split
  · exact served_sem hadmits o
  · cases o with
    | ext x => exact .ext
    | get | list | create | update | updateStatus | delete => exact .error rfl
  · split
    · exact .list fun x hx => (nomatch hx)
    · exact served_sem hadmits _

end Respond

/-- A move of a concrete run: a whole round of a process, or a write of somebody else. -/
inductive Turn (K : Type) (Spec Status : K → Type) (X : Type) (XAns : X → Type) (ι : Type) where
  | round (i : ι) (sc : Script K Spec Status X XAns)
  | other (o : Op K Spec Status X) (sc : Script K Spec Status X XAns)

section Play

variable (admits : Admits K Spec Status) (B : Behaviour K Spec Status X XAns ι)
  (cond : ι → Cluster K Spec Status X XAns ι → (o : Op K Spec Status X) → Ans K Spec Status X XAns o → Prop)

/-- A call of process `i`. -/
def step (sc : Script K Spec Status X XAns) (i : ι) (w : Cluster K Spec Status X XAns ι)
    (o : Op K Spec Status X) : Cluster K Spec Status X XAns ι :=
  w.record i o (respond admits sc w.store o).1 (respond admits sc w.store o).2

/-- Run a program of process `i` to its end. -/
def exec (sc : Script K Spec Status X XAns) (i : ι) :
    Prog (Op K Spec Status X) (Ans K Spec Status X XAns) Unit → Cluster K Spec Status X XAns ι →
      Cluster K Spec Status X XAns ι
  | .ret _, w => w
  | .panic _, w => w
  | .call o k, w => exec sc i (k (respond admits sc w.store o).1) (step admits sc i w o)

/-- Every call of the program meets `cond`. -/
def Along (sc : Script K Spec Status X XAns) (i : ι) :
    Prog (Op K Spec Status X) (Ans K Spec Status X XAns) Unit → Cluster K Spec Status X XAns ι → Prop
  | .ret _, _ => True
  | .panic _, _ => True
  | .call o k, w => cond i w o (respond admits sc w.store o).1 ∧
      Along sc i (k (respond admits sc w.store o).1) (step admits sc i w o)

/-- The cluster after some turns; a process that may not start does nothing. -/
def play : List (Turn K Spec Status X XAns ι) → Cluster K Spec Status X XAns ι → Cluster K Spec Status X XAns ι
  | [], w => w
  | .round i sc :: turns, w =>
      match B.program i w.store with
      | none => play turns w
      | some p => play turns (exec admits sc i p (w.fresh i))
  | .other o sc :: turns, w => play turns { w with store := (served admits sc w.store o).2 }

/-- Every call of every round meets `cond`, and others do what they may do. -/
def Plays : List (Turn K Spec Status X XAns ι) → Cluster K Spec Status X XAns ι → Prop
  | [], _ => True
  | .round i sc :: turns, w =>
      match B.program i w.store with
      | none => Plays turns w
      | some p => Along admits cond sc i p (w.fresh i) ∧ Plays turns (exec admits sc i p (w.fresh i))
  | .other o sc :: turns, w => B.others w.store o ∧ Plays turns { w with store := (served admits sc w.store o).2 }

variable {cond}

instance decidableAlong [∀ i w o a, Decidable (cond i w o a)] (sc : Script K Spec Status X XAns) (i : ι) :
    (p : Prog (Op K Spec Status X) (Ans K Spec Status X XAns) Unit) → (w : Cluster K Spec Status X XAns ι) →
      Decidable (Along admits cond sc i p w)
  | .ret _, _ => .isTrue trivial
  | .panic _, _ => .isTrue trivial
  | .call o k, w => @instDecidableAnd _ _ inferInstance
      (decidableAlong sc i (k (respond admits sc w.store o).1) (step admits sc i w o))

instance decidablePlays [∀ i w o a, Decidable (cond i w o a)] [∀ s o, Decidable (B.others s o)] :
    (turns : List (Turn K Spec Status X XAns ι)) → (w : Cluster K Spec Status X XAns ι) →
      Decidable (Plays admits B cond turns w)
  | [], _ => .isTrue trivial
  | .round i sc :: turns, w => by
      unfold Plays
      exact match B.program i w.store with
        | none => decidablePlays turns w
        | some p => @instDecidableAnd _ _ inferInstance (decidablePlays turns (exec admits sc i p (w.fresh i)))
  | .other o sc :: turns, w => @instDecidableAnd _ _ inferInstance
      (decidablePlays turns { w with store := (served admits sc w.store o).2 })

variable {admits} {B}

/-- Running a program is a sequence of steps of its process. -/
theorem exec_steps (hadmits : ∀ s k o o', admits s k o = some o' → adm s k o o')
    (sc : Script K Spec Status X XAns) {p : Prog (Op K Spec Status X) (Ans K Spec Status X XAns) Unit}
    {pool : ι → Option (Prog (Op K Spec Status X) (Ans K Spec Status X XAns) Unit)} (hp : pool i = some p)
    (h : Along admits cond sc i p w) :
    ∃ pool' : ι → Option (Prog (Op K Spec Status X) (Ans K Spec Status X XAns) Unit),
      (∀ j, j ≠ i → pool' j = pool j) ∧
      ((system adm init B).restrict cond).Steps ⟨w, pool⟩ ⟨exec admits sc i p w, pool'⟩ := by
  induction p generalizing w pool with
  | ret a => exact ⟨pool, fun _ _ => rfl, .refl⟩
  | panic _ => exact ⟨pool, fun _ _ => rfl, .refl⟩
  | call o k ih =>
      have hstep : ((system adm init B).restrict cond).Step ⟨w, pool⟩
          ⟨step admits sc i w o, Function.update pool i (some (k (respond admits sc w.store o).1))⟩ :=
        .call hp ⟨⟨_, respond_sem hadmits o, rfl⟩, h.1⟩
      have hnext : Function.update pool i (some (k (respond admits sc w.store o).1)) i =
          some (k (respond admits sc w.store o).1) := Function.update_self ..
      obtain ⟨pool', hpool', hrun⟩ := ih _ hnext h.2
      refine ⟨pool', fun j hj => ?_, System.Steps.trans (.single hstep) hrun⟩
      rw [hpool' j hj, Function.update_of_ne hj]

/-- **Concrete runs are runs.** -/
theorem plays_reachable (hadmits : ∀ s k o o', admits s k o = some o' → adm s k o o')
    {turns : List (Turn K Spec Status X XAns ι)} (hi : init s)
    (h : Plays admits B cond turns ⟨s, fun _ => []⟩) :
    ((system adm init B).restrict cond).Reachable ⟨play admits B turns ⟨s, fun _ => []⟩, fun _ => none⟩ := by
  refine ⟨⟨s, fun _ => []⟩, ⟨hi, rfl⟩, ?_⟩
  generalize (⟨s, fun _ => []⟩ : Cluster K Spec Status X XAns ι) = w at h
  induction turns generalizing w with
  | nil => exact .refl
  | cons turn turns ih =>
      cases turn with
      | round i sc =>
          unfold Plays at h
          unfold play
          cases hp : B.program i w.store with
          | none =>
              rw [hp] at h
              exact ih w h
          | some p =>
              rw [hp] at h
              have hstart : ((system adm init B).restrict cond).Step ⟨w, fun _ => none⟩
                  ⟨w.fresh i, Function.update (fun _ => none) i (some p)⟩ := .start rfl ⟨hp, rfl⟩
              have hpool : Function.update (fun _ => none) i (some p) i = some p := Function.update_self ..
              obtain ⟨pool', hpool', hrun⟩ :
                  ∃ pool' : ι → Option (Prog (Op K Spec Status X) (Ans K Spec Status X XAns) Unit),
                    (∀ j, j ≠ i → pool' j = Function.update (fun _ => none) i (some p) j) ∧
                    ((system adm init B).restrict cond).Steps
                      ⟨w.fresh i, Function.update (fun _ => none) i (some p)⟩
                      ⟨exec admits sc i p (w.fresh i), pool'⟩ := exec_steps hadmits sc hpool h.1
              have hstop : ((system adm init B).restrict cond).Step
                  ⟨exec admits sc i p (w.fresh i), pool'⟩
                  ⟨exec admits sc i p (w.fresh i), Function.update pool' i none⟩ :=
                .stop
              have hnone : Function.update pool' i none = fun _ => none := by
                funext j
                by_cases hj : j = i
                · subst hj
                  simp
                · rw [Function.update_of_ne hj, hpool' j hj, Function.update_of_ne hj]
              rw [hnone] at hstop
              exact ((System.Steps.single hstart).trans (.tail hrun hstop)).trans (ih _ h.2)
      | other o sc =>
          have hsem : Store.Sem adm w.store o (served admits sc w.store o).1 (served admits sc w.store o).2 :=
            served_sem hadmits o
          rcases hsem.write_cases with hsame | ⟨a, hw⟩
          · have hw' : { w with store := (served admits sc w.store o).2 } = w := by rw [hsame]
            have h2 := h.2
            unfold play
            rw [hw'] at h2 ⊢
            exact ih w h2
          · have henv : ((system adm init B).restrict cond).Step ⟨w, fun _ => none⟩
                ⟨{ w with store := (served admits sc w.store o).2 }, fun _ => none⟩ :=
              .env ⟨o, a, _, h.1, hw, rfl⟩
            exact (System.Steps.single henv).trans (ih _ h.2)

end Play

end Cluster

end Etos.Kube
