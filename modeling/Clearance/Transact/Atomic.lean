/-
# `Transact.Atomic` — every interleaving is a sequence of whole operations

The machine of `Transact.Machine` moves one statement at a time.  The machine
here moves one store operation at a time: an operation takes effect in one go
and comes to what its `Contract` allows on the database of that moment.
`State.abs` forgets the open transactions — a call inside one is a call that has
yet to make it — and `State.refines` is the simulation:

    Isolated s,  s —e→ s'   ⟹   abs s = abs s'   or   abs s ⟶ abs s'

so whatever holds of every reachable atomic state holds of the committed
database, the answers and the log in every reachable state of the machine.

The hypothesis is `Store.Sound`: every transaction of the store conforms to its
contract under the rely.  `Isolated` is what a state has to remember for that:
open sessions satisfy `Sim`, and no two of them hold one lock.
-/
import Clearance.Transact.Machine

namespace Transact

variable {S : Signature} {ε : Type} {E : Engine S} {St : Store S ε} {A : App E St}

/-! ## The atomic machine -/

/-- What the operations of a store may do, and the errors an outage turns into. -/
structure Contract (E : Engine S) (St : Store S ε) where
  spec : (c : St.Call) → Spec E ε (St.Reply c)
  outage : ε → Prop

/-- The ways an operation can end under a contract. -/
inductive Contract.Allows (C : Contract E St) (c : St.Call) : Op E ε (St.Reply c) → Prop
  | committed {d res w} : C.spec c d res w → Allows C c (.committed d res w)
  | refused {d e} : C.spec c d (.error e) [] → Allows C c (.refused d e)
  | failed {d e} (sent : Bool) : C.outage e → Allows C c (.failed d e sent)
  | lost {d res w e} : C.spec c d res w → C.outage e → Allows C c (.lost d res w e)

namespace Contract.Allows

variable {C : Contract E St} {c : St.Call} {o : Op E ε (St.Reply c)}

/-- An operation does what its contract allows, unless an outage keeps it from doing
anything. -/
theorem did (h : C.Allows c o) :
    C.spec c o.before o.reply o.writes ∨
      ((∃ e, o.reply = .error e) ∧ o.writes = [] ∧ o.outage = true) := by
  cases h with
  | committed h => exact Or.inl h
  | refused h => exact Or.inl h
  | failed _ _ => exact Or.inr ⟨⟨_, rfl⟩, rfl, rfl⟩
  | lost h _ => exact Or.inl h

/-- A caller that gets a value gets what the operation came to. -/
theorem told (h : C.Allows c o) {a : St.Reply c} (ha : o.answer = .ok a) : o.reply = .ok a := by
  cases h with
  | committed _ => exact ha
  | refused _ => cases ha
  | failed _ _ => cases ha
  | lost _ _ => cases ha

/-- Without an outage the caller gets what the operation came to. -/
theorem answered (h : C.Allows c o) (ho : o.outage = false) : o.answer = o.reply := by
  cases h with
  | committed _ => rfl
  | refused _ => rfl
  | failed _ _ => cases ho
  | lost _ _ => cases ho

/-- A caller is told of an outage, or of what its contract allows. -/
theorem outage_or_spec (h : C.Allows c o) :
    (∃ e, o.answer = .error e ∧ C.outage e) ∨ C.spec c o.before o.answer o.writes := by
  cases h with
  | committed h => exact Or.inr h
  | refused h => exact Or.inr h
  | failed _ he => exact Or.inl ⟨_, rfl, he⟩
  | lost _ he => exact Or.inl ⟨_, rfl, he⟩

/-- Without a COMMIT nothing is written. -/
theorem unsent (h : C.Allows c o) (ho : o.sent = false) : o.writes = [] := by
  cases h with
  | committed _ => cases ho
  | refused _ => rfl
  | failed _ _ => rfl
  | lost _ _ => cases ho

/-- A value is only returned by an operation its contract allows. -/
theorem spec (h : C.Allows c o) {a : St.Reply c} (ha : o.reply = .ok a) :
    C.spec c o.before (.ok a) o.writes := by
  rcases h.did with hs | ⟨⟨e, he⟩, _⟩
  · exact ha ▸ hs
  · rw [ha] at he
    cases he

theorem writes_nil (h : C.Allows c o) (hs : ∀ {d e w}, C.spec c d (.error e) w → w = []) {e : ε}
    (he : o.reply = .error e) : o.writes = [] := by
  rcases h.did with h | ⟨_, hw, _⟩
  · exact hs (he ▸ h)
  · exact hw

/-- Whoever is told of an error that is no outage has written nothing. -/
theorem refused_writes (h : C.Allows c o) (hs : ∀ {d e w}, C.spec c d (.error e) w → w = [])
    {e : ε} (he : o.answer = .error e) (hout : ¬ C.outage e) : o.writes = [] := by
  rcases h.outage_or_spec with ⟨e', he', hout'⟩ | h
  · rw [he] at he'
    cases he'
    exact absurd hout' hout
  · exact hs (he ▸ h)

end Contract.Allows

/-- A call between two store operations. -/
structure ATask (A : App E St) where
  request : A.Request
  start : E.Db
  prog : Option (Svc St (A.Result request))

/-- A state of the atomic machine. -/
structure AState (A : App E St) where
  db : E.Db
  world : A.World
  tasks : List (ATask A)
  log : List (Entry E St)

/-- One step of the atomic machine. -/
inductive AStep (C : Contract E St) : AState A → AState A → Prop
  | arrive {s : AState A} {r : A.Request} {w : A.World} : A.accept s.world r = some w →
      AStep C s { s with world := w, tasks := s.tasks ++ [⟨r, s.db, some (A.program r)⟩] }
  | env {s : AState A} {e : A.Env} {w : A.World} : A.evolve s.db s.world e = some w →
      AStep C s { s with world := w }
  | op {s : AState A} {i : Nat} {t : ATask A} {c : St.Call}
      {k : Except ε (St.Reply c) → Svc St (A.Result t.request)} {o : Op E ε (St.Reply c)} :
      s.tasks[i]? = some t → t.prog = some (.call c k) → C.Allows c o → o.before = s.db →
      AStep C s { s with
        db := E.view s.db o.writes
        tasks := s.tasks.set i { t with prog := some (k o.answer) }
        log := s.log ++ [⟨i, c, o⟩] }
  | crash {s : AState A} {i : Nat} {t : ATask A} : s.tasks[i]? = some t →
      AStep C s { s with tasks := s.tasks.set i { t with prog := none } }

/-- The states of the atomic machine reachable from `s₀`. -/
inductive AReach (C : Contract E St) (s₀ : AState A) : AState A → Prop
  | refl : AReach C s₀ s₀
  | step {s s' : AState A} : AReach C s₀ s → AStep C s s' → AReach C s₀ s'

/-! ## Forgetting the open transactions -/

/-- The code a call has yet to run, its open transaction undone. -/
def Proc.abs {α : Type} : Proc E St α → Option (Svc St α)
  | .idle p => some p
  | .busy c _ k => some (.call c k)
  | .crashed => none

@[simp] theorem Proc.abs_idle {α : Type} (p : Svc St α) :
    (Proc.idle p : Proc E St α).abs = some p := rfl
@[simp] theorem Proc.abs_busy {α : Type} (c : St.Call) (x : Session E ε (St.Reply c))
    (k : Except ε (St.Reply c) → Svc St α) : (Proc.busy c x k).abs = some (.call c k) := rfl
@[simp] theorem Proc.abs_crashed {α : Type} : (Proc.crashed : Proc E St α).abs = none := rfl

/-- A call as the atomic machine sees it. -/
def Task.abs (t : Task A) : ATask A := ⟨t.request, t.start, t.proc.abs⟩

/-- A state as the atomic machine sees it. -/
def State.abs (s : State A) : AState A := ⟨s.db, s.world, s.tasks.map Task.abs, s.log⟩

@[simp] theorem State.abs_db (s : State A) : s.abs.db = s.db := rfl
@[simp] theorem State.abs_world (s : State A) : s.abs.world = s.world := rfl
@[simp] theorem State.abs_log (s : State A) : s.abs.log = s.log := rfl

theorem State.abs_tasks {s : State A} {i : Nat} {t : Task A} (h : s.tasks[i]? = some t) :
    s.abs.tasks[i]? = some t.abs := by
  simp [State.abs, h]

theorem set_self {α : Type} {l : List α} {i : Nat} {a : α} (h : l[i]? = some a) :
    l.set i a = l := by
  obtain ⟨hi, rfl⟩ := List.getElem?_eq_some_iff.mp h
  exact List.set_getElem_self hi

/-- A call that moves inside its operation has not moved. -/
theorem State.abs_put {s : State A} {i : Nat} {t : Task A} (h : s.tasks[i]? = some t)
    {p : Proc E St (A.Result t.request)} (hp : p.abs = t.proc.abs) :
    (s.put i t p).abs = s.abs := by
  have hset : s.abs.tasks.set i t.abs = s.abs.tasks := set_self (State.abs_tasks h)
  have htask : Task.abs { t with proc := p } = t.abs := by simp [Task.abs, hp]
  simp only [State.put, State.abs, List.map_set, htask]
  simpa [State.abs] using hset

/-! ## Stores that meet a contract -/

variable (E) in
/-- An operation executed in one go. -/
def Method.Runs {ρ : Type} : Method S ε ρ → Spec E ε ρ
  | .auto q h f => fun d res w => ∃ g : E.Lock → Bool,
      match E.exec q g d with
      | .error x => res = .error (h x) ∧ w = []
      | .ok r => res = f r.reply ∧ w = r.writes
  | .transaction _ tx => fun d res w => tx.Runs E d [] res w

variable (E) in
/-- An outage makes the program end in an error `P` allows. -/
def Tx.FaultsIn {α : Type} (P : ε → Prop) (Q : α → Prop) : Tx S ε α → Prop
  | .ret a => Q a
  | .throw _ => True
  | .exec _ h k => P (h E.outage) ∧ ∀ r, (k r).FaultsIn P Q

theorem Tx.FaultsIn.bind {α β : Type} {P : ε → Prop} {Q : β → Prop} {f : α → Tx S ε β} :
    ∀ {p : Tx S ε α}, p.FaultsIn E P (fun a => (f a).FaultsIn E P Q) → (p >>= f).FaultsIn E P Q
  | .ret _, h => h
  | .throw _, _ => trivial
  | .exec _ _ _, h => ⟨h.1, fun r => (h.2 r).bind⟩

/-- What is known of an open session from its code; `d₀` is the database of its
last statement. -/
structure Session.Fit {ρ : Type} (R : Rely E) (spec : Spec E ε ρ) (outage : ε → Prop)
    (x : Session E ε ρ) (d : E.Db) : Prop where
  conforms : ∃ d₀, R.rel x.locks d₀ d ∧ Conforms R spec x.tx x.locks x.writes d₀
  guar : Guar R x.locks x.writes
  faults : x.tx.FaultsIn E outage (fun c => outage (c.onFault E.outage))

/-- An open session that can still be completed as `spec` allows. -/
def Session.Ok {ρ : Type} (R : Rely E) (spec : Spec E ε ρ) (outage : ε → Prop)
    (x : Session E ε ρ) (d : E.Db) : Prop :=
  Sim R spec x.locks x.tx x.writes d ∧ x.Fit R spec outage d

/-- A session right after a statement. -/
def Session.Next {ρ : Type} (R : Rely E) (spec : Spec E ε ρ) (outage : ε → Prop)
    (x : Session E ε ρ) (d : E.Db) : Prop :=
  After R spec x.locks x.tx x.writes d ∧ x.Fit R spec outage d

/-- The operation meets its specification, also when others are interleaved. -/
def Method.Sound {ρ : Type} (R : Rely E) (spec : Spec E ε ρ) (outage : ε → Prop) :
    Method S ε ρ → Prop
  | .auto q h f => outage (h E.outage) ∧ ∀ d g,
      match E.exec q g d with
      | .error x => spec d (.error (h x)) []
      | .ok r => spec d (f r.reply) r.writes ∧ Guar R r.locks r.writes
  | .transaction h tx => outage (h E.outage) ∧
      tx.FaultsIn E outage (fun c => outage (c.onFault E.outage)) ∧
      (∀ d, Conforms R spec tx [] [] d) ∧ ∀ d res w, tx.Runs E d [] res w → spec d res w

/-- Every operation of the store meets its contract. -/
def Store.Sound (St : Store S ε) (R : Rely E) (C : Contract E St) : Prop :=
  ∀ c, (St.method c).Sound R (C.spec c) C.outage

/-! ## The invariant of the concurrent machine -/

variable {R : Rely E} {C : Contract E St}

/-- An open session of a call is completable. -/
def Proc.Ok {α : Type} (R : Rely E) (C : Contract E St) (d : E.Db) : Proc E St α → Prop
  | .busy c x _ => x.Ok R (C.spec c) C.outage d
  | _ => True

theorem Proc.Ok.rely {α : Type} {d d' : E.Db} {p : Proc E St α} (h : p.Ok R C d)
    (hr : R.rel p.locks d d') : p.Ok R C d' := by
  cases p with
  | idle _ => trivial
  | crashed => trivial
  | busy c x k =>
      obtain ⟨hsim, ⟨d₀, h₀, hconf⟩, hguar, hfaults⟩ := h
      exact ⟨hsim.rely hr, ⟨d₀, R.trans h₀ hr, hconf⟩, hguar, hfaults⟩

/-- Sessions are completable and no lock has two holders. -/
structure Isolated (R : Rely E) (C : Contract E St) (s : State A) : Prop where
  ok : ∀ (i : Nat) (t : Task A), s.tasks[i]? = some t → t.proc.Ok R C s.db
  excl : ∀ (i j : Nat) (t t' : Task A), i ≠ j → s.tasks[i]? = some t → s.tasks[j]? = some t' →
    t.proc.locks.Disjoint t'.proc.locks

/-- No call but `i` holds any of the locks. -/
def State.Unheld (s : State A) (i : Nat) (l : List E.Lock) : Prop :=
  ∀ (j : Nat) (t : Task A), j ≠ i → s.tasks[j]? = some t → t.proc.locks.Disjoint l

/-- The locks a statement has just taken. -/
theorem State.unheld_locks {s : State A} {i : Nat} {q : S.Stmt} {d : E.Db}
    {r : Effect E.Write E.Lock (S.Reply q)} (hfree : s.free i (E.needs q d) = true)
    (hx : E.exec q (s.held i) d = .ok r) : s.Unheld i r.locks := by
  intro j t hj ht l hl hlr
  rcases E.locks_needed hx l hlr with hn | hf
  · exact State.free_iff.mp hfree j t hj ht hl hn
  · have hheld : s.held i l = true := State.held_iff.mpr ⟨j, t, hj, ht, hl⟩
    rw [hf] at hheld
    cases hheld

theorem State.Unheld.nil (s : State A) (i : Nat) : s.Unheld i [] :=
  fun _ _ _ _ => List.disjoint_nil_right _

theorem State.Unheld.append {s : State A} {i : Nat} {l l' : List E.Lock} (h : s.Unheld i l)
    (h' : s.Unheld i l') : s.Unheld i (l ++ l') :=
  fun j t hj ht => List.disjoint_append_right.mpr ⟨h j t hj ht, h' j t hj ht⟩

theorem Isolated.unheld {s : State A} (h : Isolated R C s) {i : Nat} {t : Task A}
    (ht : s.tasks[i]? = some t) : s.Unheld i t.proc.locks :=
  fun j t' hj ht' => h.excl j i t' t hj ht' ht

/-- Looking up a task after one has been replaced. -/
theorem getElem?_set_cases {α : Type} {l : List α} {i j : Nat} {a b : α}
    (h : (l.set i a)[j]? = some b) : (j = i ∧ b = a) ∨ (j ≠ i ∧ l[j]? = some b) := by
  rw [List.getElem?_set] at h
  by_cases hij : i = j
  · subst hij
    left
    by_cases hl : i < l.length
    · simp [hl] at h; exact ⟨rfl, h.symm⟩
    · simp [hl] at h
  · right; simp [hij] at h; exact ⟨Ne.symm hij, h⟩

/-- Call `i` changes, and the database with it: the writes stay under locks `l`
nobody else holds. -/
theorem Isolated.set {s : State A} (h : Isolated R C s) {i : Nat} {t' : Task A}
    {w : List E.Write} {l : List E.Lock} {g : List (Entry E St)}
    (hok : t'.proc.Ok R C (E.view s.db w)) (hfree : s.Unheld i t'.proc.locks)
    (hw : Guar R l w) (hl : s.Unheld i l) :
    Isolated R C { s with db := E.view s.db w, tasks := s.tasks.set i t', log := g } where
  ok j t'' hj := by
    rcases getElem?_set_cases hj with ⟨_, rfl⟩ | ⟨hji, hu⟩
    · exact hok
    · exact (h.ok j t'' hu).rely (hw s.db _ (hl j t'' hji hu).symm)
  excl j j' u u' hne hj hj' := by
    rcases getElem?_set_cases hj with ⟨rfl, rfl⟩ | ⟨hji, hu⟩
    · rcases getElem?_set_cases hj' with ⟨rfl, _⟩ | ⟨hji', hu'⟩
      · exact absurd rfl hne
      · exact (hfree j' u' hji' hu').symm
    · rcases getElem?_set_cases hj' with ⟨rfl, rfl⟩ | ⟨_, hu'⟩
      · exact hfree j u hji hu
      · exact h.excl j j' u u' hne hu hu'

/-- Looking up a task after one has been added. -/
theorem getElem?_concat_cases {α : Type} {l : List α} {j : Nat} {a b : α}
    (h : (l ++ [a])[j]? = some b) : (j = l.length ∧ b = a) ∨ l[j]? = some b := by
  rcases Nat.lt_trichotomy j l.length with hj | hj | hj
  · right; rwa [List.getElem?_append_left hj] at h
  · left; subst hj; simp at h; exact ⟨rfl, h.symm⟩
  · rw [List.getElem?_append_right (Nat.le_of_lt hj)] at h
    have : j - l.length ≠ 0 := by omega
    simp [this] at h

theorem Isolated.append {s : State A} (h : Isolated R C s) {t : Task A} {w : A.World}
    (hok : t.proc.Ok R C s.db) (hl : t.proc.locks = []) :
    Isolated R C { s with world := w, tasks := s.tasks ++ [t] } where
  ok j t' hj := by
    rcases getElem?_concat_cases hj with ⟨_, rfl⟩ | hu
    · exact hok
    · exact h.ok j t' hu
  excl i j u u' hij hi hj := by
    rcases getElem?_concat_cases hi with ⟨rfl, rfl⟩ | hu
    · rw [hl]; exact List.disjoint_nil_left _
    · rcases getElem?_concat_cases hj with ⟨rfl, rfl⟩ | hu'
      · rw [hl]; exact List.disjoint_nil_right _
      · exact h.excl i j u u' hij hu hu'

/-! ## One step -/

/-- The step keeps the invariant and is a step of the atomic machine, or none. -/
def State.Refines (R : Rely E) (C : Contract E St) (s s' : State A) : Prop :=
  Isolated R C s' ∧ (s'.abs = s.abs ∨ AStep C s.abs s'.abs)

theorem Isolated.finish {s : State A} (h : Isolated R C s) {i : Nat} {t : Task A}
    (ht : s.tasks[i]? = some t) {c : St.Call}
    {k : Except ε (St.Reply c) → Svc St (A.Result t.request)} {o : Op E ε (St.Reply c)}
    {l : List E.Lock} (hp : t.proc.abs = some (.call c k)) (ho : C.Allows c o)
    (hb : o.before = s.db) (hw : Guar R l o.writes) (hl : s.Unheld i l) :
    s.Refines R C (s.finish i t c k o) := by
  refine ⟨h.set trivial (.nil s i) hw hl, Or.inr ?_⟩
  have hstep := AStep.op (C := C) (s := s.abs) (t := t.abs) (State.abs_tasks ht) hp ho hb
  simpa [State.finish, State.abs, Task.abs, List.map_set] using hstep

/-- An operation that ends without writing anything. -/
theorem Isolated.finish_nil {s : State A} (h : Isolated R C s) {i : Nat} {t : Task A}
    (ht : s.tasks[i]? = some t) {c : St.Call}
    {k : Except ε (St.Reply c) → Svc St (A.Result t.request)} {o : Op E ε (St.Reply c)}
    (hp : t.proc.abs = some (.call c k)) (ho : C.Allows c o) (hb : o.before = s.db)
    (hw : o.writes = []) : s.Refines R C (s.finish i t c k o) :=
  h.finish ht hp ho hb (hw ▸ Guar.nil R []) (.nil s i)

theorem Isolated.proceed {s : State A} (h : Isolated R C s) {i : Nat} {t : Task A}
    (ht : s.tasks[i]? = some t) {c : St.Call}
    {k : Except ε (St.Reply c) → Svc St (A.Result t.request)} {x : Session E ε (St.Reply c)}
    (hp : t.proc.abs = some (.call c k)) (hx : x.Next R (C.spec c) C.outage s.db)
    (hl : s.Unheld i x.locks) : s.Refines R C (s.proceed i t c k x) := by
  have hbusy : Sim R (C.spec c) x.locks x.tx x.writes s.db →
      s.Refines R C (s.put i t (.busy c x k)) := fun hsim =>
    ⟨h.set (w := []) (g := s.log) ⟨hsim, hx.2⟩ hl (Guar.nil R x.locks) hl,
      Or.inl (State.abs_put ht (by rw [hp, Proc.abs_busy]))⟩
  obtain ⟨tx, w, l⟩ := x
  cases tx with
  | ret _ => exact hbusy hx.1
  | exec q e kk => exact hbusy hx.1
  | throw e => exact h.finish_nil ht hp (.refused hx.1) rfl rfl

/-- A transaction before its first statement. -/
theorem Session.Next.start {ρ : Type} {spec : Spec E ε ρ} {outage : ε → Prop} {h : S.Fault → ε}
    {tx : Tx S ε (Commit S ε ρ)} (hs : (Method.transaction h tx).Sound R spec outage) (d : E.Db) :
    (⟨tx, [], []⟩ : Session E ε ρ).Next R spec outage d :=
  ⟨Sim.after fun d' _ => hs.2.2.2 d', ⟨d, R.refl [] d, hs.2.2.1 d⟩, Guar.nil R [], hs.2.1⟩

theorem Session.Ok.exec {ρ : Type} {spec : Spec E ε ρ} {outage : ε → Prop} {q : S.Stmt}
    {h : S.Fault → ε} {k : S.Reply q → Tx S ε (Commit S ε ρ)} {w : List E.Write}
    {l : List E.Lock} {d : E.Db} {f : E.Lock → Bool}
    {r : Effect E.Write E.Lock (S.Reply q)} (hx : (⟨.exec q h k, w, l⟩ :
      Session E ε ρ).Ok R spec outage d) (hr : E.exec q f (E.view d w) = .ok r) :
    (⟨k r.reply, w ++ r.writes, l ++ r.locks⟩ : Session E ε ρ).Next R spec outage d := by
  obtain ⟨hsim, ⟨d₀, h₀, hconf⟩, hguar, hfaults⟩ := hx
  obtain ⟨hg, hafter, hconf'⟩ := hconf d f r h₀ hr
  have hl : l ⊆ l ++ r.locks := List.subset_append_left l r.locks
  exact ⟨hafter hsim, ⟨d, R.refl _ d, hconf'⟩, (hguar.mono R hl).append R hg, hfaults.2 r.reply⟩

theorem State.run_refines (hS : St.Sound R C) {s s' : State A} (h : Isolated R C s) {i : Nat}
    {t : Task A} (ht : s.tasks[i]? = some t) (hr : s.run i t = some s') :
    s.Refines R C s' := by
  have hok := h.ok i t ht
  have hun := h.unheld ht
  rw [State.run] at hr
  split at hr
  · cases hr
  · cases hr
  · next c k hproc =>
      have hp : t.proc.abs = some (.call c k) := by rw [hproc, Proc.abs_idle]
      have hsound := hS c
      split at hr
      · next e tx hm =>
          rw [hm] at hsound
          cases hr
          exact h.proceed ht hp (.start hsound s.db) (.nil s i)
      · next q e f hm =>
          rw [hm] at hsound
          split at hr
          · next hfree =>
              have hspec := hsound.2 s.db (s.held i)
              split at hr
              · next x hx =>
                  rw [hx] at hspec
                  cases hr
                  exact h.finish_nil ht hp (.refused hspec) rfl rfl
              · next r hx =>
                  rw [hx] at hspec
                  cases hr
                  exact h.finish ht hp (.committed hspec.1) rfl hspec.2
                    (State.unheld_locks hfree hx)
          · cases hr
  · next c x k hproc =>
      have hp : t.proc.abs = some (.call c k) := by rw [hproc, Proc.abs_busy]
      rw [hproc] at hok hun
      obtain ⟨tx, w, l⟩ := x
      cases tx with
      | ret cm =>
          cases hr
          have hspec : C.spec c s.db (.ok cm.value) w :=
            hok.1 s.db (R.refl l s.db) _ _ ⟨rfl, rfl⟩
          exact h.finish ht hp (.committed hspec) rfl hok.2.guar hun
      | throw e =>
          cases hr
          have hspec : C.spec c s.db (.error e) [] :=
            hok.1 s.db (R.refl l s.db) _ _ ⟨rfl, rfl⟩
          exact h.finish_nil ht hp (.refused hspec) rfl rfl
      | exec q e kk =>
          simp only at hr
          split at hr
          · next hfree =>
              split at hr
              · next y hy =>
                  cases hr
                  have hspec : C.spec c s.db (.error (e y)) [] := by
                    refine hok.1 s.db (R.refl l s.db) _ _ ((Tx.runs_exec E).mpr ⟨s.held i, ?_⟩)
                    rw [hy]
                    exact ⟨rfl, rfl⟩
                  exact h.finish_nil ht hp (.refused hspec) rfl rfl
              · next r hy =>
                  cases hr
                  exact h.proceed ht hp (Session.Ok.exec hok hy)
                    (hun.append (State.unheld_locks hfree hy))
          · cases hr

theorem State.fault_refines (hS : St.Sound R C) {s s' : State A} (h : Isolated R C s) {i : Nat}
    {t : Task A} (ht : s.tasks[i]? = some t) (hr : s.fault i t = some s') :
    s.Refines R C s' := by
  have hok := h.ok i t ht
  rw [State.fault] at hr
  split at hr
  · cases hr
  · cases hr
  · next c k hproc =>
      have hp : t.proc.abs = some (.call c k) := by rw [hproc, Proc.abs_idle]
      have hsound := hS c
      split at hr
      · next e tx hm =>
          rw [hm] at hsound
          cases hr
          exact h.finish_nil ht hp (.failed _ hsound.1) rfl rfl
      · next q e f hm =>
          rw [hm] at hsound
          cases hr
          exact h.finish_nil ht hp (.failed _ hsound.1) rfl rfl
  · next c x k hproc =>
      have hp : t.proc.abs = some (.call c k) := by rw [hproc, Proc.abs_busy]
      rw [hproc] at hok
      obtain ⟨tx, w, l⟩ := x
      cases tx with
      | ret cm =>
          cases hr
          exact h.finish_nil ht hp (.failed _ hok.2.faults) rfl rfl
      | throw e => cases hr
      | exec q e kk =>
          cases hr
          exact h.finish_nil ht hp (.failed _ hok.2.faults.1) rfl rfl

theorem State.lose_refines (hS : St.Sound R C) {s s' : State A} (h : Isolated R C s) {i : Nat}
    {t : Task A} (ht : s.tasks[i]? = some t) (hr : s.lose i t = some s') :
    s.Refines R C s' := by
  have hok := h.ok i t ht
  have hun := h.unheld ht
  rw [State.lose] at hr
  split at hr
  · cases hr
  · cases hr
  · next c k hproc =>
      have hp : t.proc.abs = some (.call c k) := by rw [hproc, Proc.abs_idle]
      have hsound := hS c
      split at hr
      · cases hr
      · next q e f hm =>
          rw [hm] at hsound
          split at hr
          · next hfree =>
              have hspec := hsound.2 s.db (s.held i)
              split at hr
              · cases hr
              · next r hx =>
                  rw [hx] at hspec
                  cases hr
                  exact h.finish ht hp (.lost hspec.1 hsound.1) rfl hspec.2
                    (State.unheld_locks hfree hx)
          · cases hr
  · next c x k hproc =>
      have hp : t.proc.abs = some (.call c k) := by rw [hproc, Proc.abs_busy]
      rw [hproc] at hok hun
      obtain ⟨tx, w, l⟩ := x
      cases tx with
      | ret cm =>
          cases hr
          have hspec : C.spec c s.db (.ok cm.value) w :=
            hok.1 s.db (R.refl l s.db) _ _ ⟨rfl, rfl⟩
          exact h.finish ht hp (.lost hspec hok.2.faults) rfl hok.2.guar hun
      | throw e => cases hr
      | exec q e kk => cases hr

/-- A step of the machine is a step of the atomic machine, or none. -/
theorem State.refines (hS : St.Sound R C) {s s' : State A} (h : Isolated R C s) {e : Event A}
    (he : s.step e = some s') : s.Refines R C s' := by
  cases e with
  | arrive r =>
      obtain ⟨w, hw, rfl⟩ := Option.map_eq_some_iff.mp he
      refine ⟨h.append trivial rfl, Or.inr ?_⟩
      simpa [State.abs, Task.abs] using AStep.arrive (C := C) (s := s.abs) hw
  | env e =>
      obtain ⟨w, hw, rfl⟩ := Option.map_eq_some_iff.mp he
      exact ⟨⟨h.ok, h.excl⟩, Or.inr (AStep.env (s := s.abs) hw)⟩
  | run i =>
      obtain ⟨t, ht, hr⟩ := Option.bind_eq_some_iff.mp he
      exact run_refines hS h ht hr
  | fault i =>
      obtain ⟨t, ht, hr⟩ := Option.bind_eq_some_iff.mp he
      exact fault_refines hS h ht hr
  | lose i =>
      obtain ⟨t, ht, hr⟩ := Option.bind_eq_some_iff.mp he
      exact lose_refines hS h ht hr
  | crash i =>
      obtain ⟨t, ht, rfl⟩ := Option.map_eq_some_iff.mp he
      refine ⟨h.set (w := []) (g := s.log) trivial (.nil s i) (Guar.nil R []) (.nil s i), ?_⟩
      right
      simpa [State.put, State.abs, Task.abs, List.map_set] using
        AStep.crash (C := C) (s := s.abs) (State.abs_tasks ht)

/-! ## Whole runs -/

/-- A state in which nothing has happened yet. -/
def State.init (d : E.Db) (w : A.World) : State A := { db := d, world := w }

/-- A call of a run is the request that arrived in its place. -/
theorem State.task_of_arrived {d : E.Db} {w : A.World} {es : List (Event A)} {s : State A}
    (h : (State.init d w : State A).steps es = some s) {i : Nat} {r : A.Request}
    (hr : (es.filterMap State.arrived)[i]? = some r) : ∃ t, s.tasks[i]? = some t ∧ t.request = r := by
  have hreq : s.tasks.map Task.request = es.filterMap State.arrived := State.requests_steps h
  rw [← hreq, List.getElem?_map] at hr
  exact Option.map_eq_some_iff.mp hr

theorem Isolated.init (d : E.Db) (w : A.World) : Isolated R C (State.init d w : State A) where
  ok i t h := by simp [State.init] at h
  excl i j t t' _ h := by simp [State.init] at h

theorem AReach.trans {s s' s'' : AState A} (h : AReach C s s') (h' : AReach C s' s'') :
    AReach C s s'' := by
  induction h' with
  | refl => exact h
  | step _ hs ih => exact ih.step hs

/-- What the machine reaches, the atomic machine reaches. -/
theorem State.steps_refine (hS : St.Sound R C) :
    ∀ {es : List (Event A)} {s s' : State A}, Isolated R C s → s.steps es = some s' →
      Isolated R C s' ∧ AReach C s.abs s'.abs
  | [], s, s', hi, hs => by
      cases hs
      exact ⟨hi, .refl⟩
  | e :: es, s, s', hi, hs => by
      obtain ⟨s₁, he, hes⟩ := Option.bind_eq_some_iff.mp hs
      obtain ⟨hi', habs⟩ := State.refines hS hi he
      obtain ⟨hi'', hr⟩ := steps_refine hS hi' hes
      rcases habs with heq | hstep
      · exact ⟨hi'', heq ▸ hr⟩
      · exact ⟨hi'', (AReach.refl.step hstep).trans hr⟩

theorem State.reach_abs (hS : St.Sound R C) {d : E.Db} {w : A.World} {es : List (Event A)}
    {s : State A} (h : (State.init d w : State A).steps es = some s) :
    AReach C ⟨d, w, [], []⟩ s.abs :=
  (steps_refine hS (Isolated.init d w) h).2

/-- An invariant of the atomic machine holds throughout every run. -/
theorem AReach.induct {s₀ s : AState A} {P : AState A → Prop} (h : AReach C s₀ s) (h₀ : P s₀)
    (hstep : ∀ s s', AReach C s₀ s → P s → AStep C s s' → P s') : P s := by
  induction h with
  | refl => exact h₀
  | step hr hs ih => exact hstep _ _ hr ih hs

/-! ## Contracts that say more -/

/-- Whatever the one contract allows, the other does. -/
structure Contract.Le (C C' : Contract E St) : Prop where
  spec : ∀ {c d res w}, C.spec c d res w → C'.spec c d res w
  outage : ∀ {e}, C.outage e → C'.outage e

theorem Contract.Allows.mono {C C' : Contract E St} (h : C.Le C') {c : St.Call}
    {o : Op E ε (St.Reply c)} (ho : C.Allows c o) : C'.Allows c o := by
  cases ho with
  | committed hs => exact .committed (h.spec hs)
  | refused hs => exact .refused (h.spec hs)
  | failed sent he => exact .failed sent (h.outage he)
  | lost hs he => exact .lost (h.spec hs) (h.outage he)

theorem AReach.mono {C C' : Contract E St} (h : C.Le C') {s s' : AState A} (hr : AReach C s s') :
    AReach C' s s' := by
  induction hr with
  | refl => exact .refl
  | step _ hs ih =>
      refine ih.step ?_
      cases hs with
      | arrive hw => exact .arrive hw
      | env hw => exact .env hw
      | op ht hp ho hb => exact .op ht hp (ho.mono h) hb
      | crash ht => exact .crash ht

end Transact
