/-
# `Transact.Machine` — services over a shared database, statement by statement

A service call is a program over the operations of a store (`Svc`).  An
operation is one statement that commits by itself (`Method.auto`) or a
transaction (`Method.transaction`).  The machine runs any number of calls; a
step is one of

    arrive r    a new call, if the outside world lets it in
    env e       the outside world moves
    run i       call `i` does the next thing it has to do: BEGIN, one statement,
                COMMIT, or a single-statement operation
    fault i     the same, but the database reports an outage
    lose i      the same, but only the answer is lost: the commit took place
    crash i     call `i` is gone, its open transaction is rolled back

`run i` is possible only when no other session holds a lock the statement
waits for.  Locks go with the transaction.  A transaction that ends in an error
is rolled back in the same step.

Every operation that comes to an end leaves an `Entry` in `State.log`: who made
it, what it did in the database, what its caller was told.  A call also keeps
the database it found on arrival.  No step reads either.
-/
import Clearance.Transact.Locking

namespace Transact

variable {S : Signature} {ε : Type}

/-- One operation of a store. -/
inductive Method (S : Signature) (ε α : Type) : Type where
  | auto (s : S.Stmt) (onFault : S.Fault → ε) (k : S.Reply s → Except ε α)
  | transaction (onFault : S.Fault → ε) (tx : Tx S ε (Commit S ε α))

/-- The operations services may call. -/
structure Store (S : Signature) (ε : Type) where
  Call : Type
  Reply : Call → Type
  method : (c : Call) → Method S ε (Reply c)

/-- Service code over the operations of a store. -/
inductive Svc (St : Store S ε) (α : Type) : Type where
  | ret (a : α)
  | call (c : St.Call) (k : Except ε (St.Reply c) → Svc St α)

namespace Svc

variable {St : Store S ε} {α β : Type}

/-- Sequencing. -/
def bind : Svc St α → (α → Svc St β) → Svc St β
  | .ret a, f => f a
  | .call c k, f => .call c (fun r => (k r).bind f)

instance : Monad (Svc St) where
  pure := .ret
  bind := .bind

@[simp] theorem pure_eq (a : α) : (pure a : Svc St α) = .ret a := rfl
@[simp] theorem bind_ret (a : α) (f : α → Svc St β) : (Svc.ret a >>= f) = f a := rfl
@[simp] theorem bind_call (c : St.Call) (k : Except ε (St.Reply c) → Svc St α)
    (f : α → Svc St β) : (Svc.call c k >>= f) = .call c (fun r => k r >>= f) := rfl

/-- One operation. -/
def op (c : St.Call) : Svc St (Except ε (St.Reply c)) := .call c .ret

@[simp] theorem bind_op (c : St.Call) (f : Except ε (St.Reply c) → Svc St β) :
    (op c >>= f) = .call c f := rfl

/-- The operations a program may come to call. -/
inductive Calls : Svc St α → St.Call → Prop where
  | here {c : St.Call} {k : Except ε (St.Reply c) → Svc St α} : Calls (.call c k) c
  | later {c c' : St.Call} {k : Except ε (St.Reply c) → Svc St α} (r : Except ε (St.Reply c)) :
      Calls (k r) c' → Calls (.call c k) c'

end Svc

/-- What runs on a store: the calls that can arrive, their code, and a world
outside the database that lets them in. -/
structure App (E : Engine S) (St : Store S ε) where
  Request : Type
  Result : Request → Type
  program : (r : Request) → Svc St (Result r)
  World : Type
  Env : Type
  accept : World → Request → Option World
  evolve : E.Db → World → Env → Option World

/-- An open transaction: what is left of it, what it wrote, what it locked. -/
structure Session (E : Engine S) (ε α : Type) where
  tx : Tx S ε (Commit S ε α)
  writes : List E.Write
  locks : List E.Lock

/-- A service call under way. -/
inductive Proc (E : Engine S) (St : Store S ε) (α : Type) : Type where
  | idle (p : Svc St α)
  | busy (c : St.Call) (x : Session E ε (St.Reply c)) (k : Except ε (St.Reply c) → Svc St α)
  | crashed

variable {E : Engine S} {St : Store S ε} {α : Type}

/-- The locks a call holds. -/
def Proc.locks : Proc E St α → List E.Lock
  | .busy _ x _ => x.locks
  | _ => []

@[simp] theorem Proc.locks_idle (p : Svc St α) : (Proc.idle p : Proc E St α).locks = [] := rfl
@[simp] theorem Proc.locks_crashed : (Proc.crashed : Proc E St α).locks = [] := rfl
@[simp] theorem Proc.locks_busy (c : St.Call) (x : Session E ε (St.Reply c))
    (k : Except ε (St.Reply c) → Svc St α) : (Proc.busy c x k).locks = x.locks := rfl

/-- A call with its request and the database it found on arrival. -/
structure Task (A : App E St) where
  request : A.Request
  start : E.Db
  proc : Proc E St (A.Result request)

/-- A store operation that has come to an end. -/
structure Op (E : Engine S) (ε ρ : Type) where
  /-- The committed database at that moment. -/
  before : E.Db
  /-- What the operation came to, and what it wrote. -/
  reply : Except ε ρ
  writes : List E.Write
  /-- What the caller was told. -/
  answer : Except ε ρ
  /-- Whether a COMMIT was sent. -/
  sent : Bool
  /-- Whether the database failed the caller. -/
  outage : Bool

namespace Op

variable {ρ : Type}

/-- The operation committed. -/
def committed (d : E.Db) (res : Except ε ρ) (w : List E.Write) : Op E ε ρ :=
  ⟨d, res, w, res, true, false⟩

/-- The operation was rolled back with an error. -/
def refused (d : E.Db) (e : ε) : Op E ε ρ := ⟨d, .error e, [], .error e, false, false⟩

/-- An outage ended the operation; nothing was committed. -/
def failed (d : E.Db) (e : ε) (sent : Bool) : Op E ε ρ :=
  ⟨d, .error e, [], .error e, sent, true⟩

/-- The operation committed, but the caller was told of an outage. -/
def lost (d : E.Db) (res : Except ε ρ) (w : List E.Write) (e : ε) : Op E ε ρ :=
  ⟨d, res, w, .error e, true, true⟩

end Op

/-- A line of the log: the call that made the operation, and the operation. -/
structure Entry (E : Engine S) (St : Store S ε) where
  task : Nat
  call : St.Call
  op : Op E ε (St.Reply call)

/-- The state of the machine. -/
structure State (A : App E St) where
  db : E.Db
  world : A.World
  tasks : List (Task A) := []
  log : List (Entry E St) := []

/-- The steps of the machine. -/
inductive Event (A : App E St) where
  | arrive (r : A.Request)
  | env (e : A.Env)
  | run (i : Nat)
  | fault (i : Nat)
  | lose (i : Nat)
  | crash (i : Nat)

variable {A : App E St}

namespace State

/-- A session other than `i` holds the lock. -/
def held (s : State A) (i : Nat) (l : E.Lock) : Bool :=
  (List.range s.tasks.length).any fun j =>
    j != i && (s.tasks[j]?).any fun t => decide (l ∈ t.proc.locks)

/-- Nobody but `i` holds any of the locks. -/
def free (s : State A) (i : Nat) (ls : List E.Lock) : Bool :=
  ls.all fun l => !s.held i l

/-- Call `i` goes on as `p`. -/
def put (s : State A) (i : Nat) (t : Task A) (p : Proc E St (A.Result t.request)) : State A :=
  { s with tasks := s.tasks.set i { t with proc := p } }

/-- The operation of call `i` has come to an end. -/
def finish (s : State A) (i : Nat) (t : Task A) (c : St.Call)
    (k : Except ε (St.Reply c) → Svc St (A.Result t.request)) (o : Op E ε (St.Reply c)) :
    State A :=
  { s with
    db := E.view s.db o.writes
    tasks := s.tasks.set i { t with proc := .idle (k o.answer) }
    log := s.log ++ [⟨i, c, o⟩] }

/-- The session after a statement; an error ends it there and then. -/
def proceed (s : State A) (i : Nat) (t : Task A) (c : St.Call)
    (k : Except ε (St.Reply c) → Svc St (A.Result t.request))
    (x : Session E ε (St.Reply c)) : State A :=
  match x.tx with
  | .throw e => s.finish i t c k (.refused s.db e)
  | _ => s.put i t (.busy c x k)

/-- Call `i` does what it has to do next. -/
def run (s : State A) (i : Nat) (t : Task A) : Option (State A) :=
  match t.proc with
  | .crashed => none
  | .idle (.ret _) => none
  | .idle (.call c k) =>
      match St.method c with
      | .transaction _ tx => some (s.proceed i t c k ⟨tx, [], []⟩)
      | .auto q h f =>
          if s.free i (E.needs q s.db) then
            match E.exec q (s.held i) s.db with
            | .error x => some (s.finish i t c k (.refused s.db (h x)))
            | .ok r => some (s.finish i t c k (.committed s.db (f r.reply) r.writes))
          else none
  | .busy c x k =>
      match x.tx with
      | .ret cm => some (s.finish i t c k (.committed s.db (.ok cm.value) x.writes))
      | .throw e => some (s.finish i t c k (.refused s.db e))
      | .exec q h kk =>
          if s.free i (E.needs q (E.view s.db x.writes)) then
            match E.exec q (s.held i) (E.view s.db x.writes) with
            | .error y => some (s.finish i t c k (.refused s.db (h y)))
            | .ok r =>
                some (s.proceed i t c k ⟨kk r.reply, x.writes ++ r.writes, x.locks ++ r.locks⟩)
          else none

/-- The database fails call `i` in what it has to do next. -/
def fault (s : State A) (i : Nat) (t : Task A) : Option (State A) :=
  match t.proc with
  | .crashed => none
  | .idle (.ret _) => none
  | .idle (.call c k) =>
      match St.method c with
      | .transaction h _ => some (s.finish i t c k (.failed s.db (h E.outage) false))
      | .auto _ h _ => some (s.finish i t c k (.failed s.db (h E.outage) true))
  | .busy c x k =>
      match x.tx with
      | .ret cm => some (s.finish i t c k (.failed s.db (cm.onFault E.outage) true))
      | .throw _ => none
      | .exec _ h _ => some (s.finish i t c k (.failed s.db (h E.outage) false))

/-- Call `i` commits but is told of an outage. -/
def lose (s : State A) (i : Nat) (t : Task A) : Option (State A) :=
  match t.proc with
  | .crashed => none
  | .idle (.ret _) => none
  | .idle (.call c k) =>
      match St.method c with
      | .transaction _ _ => none
      | .auto q h f =>
          if s.free i (E.needs q s.db) then
            match E.exec q (s.held i) s.db with
            | .error _ => none
            | .ok r =>
                some (s.finish i t c k (.lost s.db (f r.reply) r.writes (h E.outage)))
          else none
  | .busy c x k =>
      match x.tx with
      | .ret cm =>
          some (s.finish i t c k (.lost s.db (.ok cm.value) x.writes (cm.onFault E.outage)))
      | _ => none

/-- One step. -/
def step (s : State A) : Event A → Option (State A)
  | .arrive r =>
      (A.accept s.world r).map fun w =>
        { s with
          world := w
          tasks := s.tasks ++ [⟨r, s.db, .idle (A.program r)⟩] }
  | .env e => (A.evolve s.db s.world e).map fun w => { s with world := w }
  | .run i => s.tasks[i]?.bind (s.run i)
  | .fault i => s.tasks[i]?.bind (s.fault i)
  | .lose i => s.tasks[i]?.bind (s.lose i)
  | .crash i => s.tasks[i]?.map fun t => s.put i t .crashed

/-- A run of the machine. -/
def steps (s : State A) : List (Event A) → Option (State A)
  | [] => some s
  | e :: es => (s.step e).bind (fun s' => s'.steps es)

theorem held_iff {s : State A} {i : Nat} {l : E.Lock} :
    s.held i l = true ↔ ∃ j t, j ≠ i ∧ s.tasks[j]? = some t ∧ l ∈ t.proc.locks := by
  simp only [held, List.any_eq_true, List.mem_range, Bool.and_eq_true, bne_iff_ne, ne_eq,
    Option.any_eq_true, decide_eq_true_eq]
  constructor
  · rintro ⟨j, _, hj, t, ht, hl⟩
    exact ⟨j, t, hj, ht, hl⟩
  · rintro ⟨j, t, hj, ht, hl⟩
    exact ⟨j, (List.getElem?_eq_some_iff.mp ht).1, hj, t, ht, hl⟩

theorem free_iff {s : State A} {i : Nat} {ls : List E.Lock} :
    s.free i ls = true ↔ ∀ j t, j ≠ i → s.tasks[j]? = some t → t.proc.locks.Disjoint ls := by
  simp only [free, List.all_eq_true, Bool.not_eq_true', ← Bool.not_eq_true, held_iff]
  constructor
  · intro h j t hj ht l hl hls
    exact h l hls ⟨j, t, hj, ht, hl⟩
  · rintro h l hls ⟨j, t, hj, ht, hl⟩
    exact h j t hj ht hl hls

/-! ### The calls of a run -/

/-- Call `i` is rewritten, its request stays. -/
theorem requests_set {s : State A} {i : Nat} {t : Task A} (ht : s.tasks[i]? = some t)
    (p : Proc E St (A.Result t.request)) :
    (s.tasks.set i { t with proc := p }).map Task.request = s.tasks.map Task.request := by
  rw [List.map_set]
  refine List.ext_getElem? fun j => ?_
  rw [List.getElem?_set]
  split
  · next hij =>
      subst hij
      obtain ⟨hlt, rfl⟩ := List.getElem?_eq_some_iff.mp ht
      simp [hlt]
  · rfl

theorem requests_proceed {s : State A} {i : Nat} {t : Task A} (ht : s.tasks[i]? = some t)
    {c : St.Call} {k : Except ε (St.Reply c) → Svc St (A.Result t.request)}
    {x : Session E ε (St.Reply c)} :
    (s.proceed i t c k x).tasks.map Task.request = s.tasks.map Task.request := by
  unfold proceed
  split
  · exact requests_set ht _
  · exact requests_set ht _

theorem requests_run {s s' : State A} {i : Nat} {t : Task A} (ht : s.tasks[i]? = some t)
    (h : s.run i t = some s') : s'.tasks.map Task.request = s.tasks.map Task.request := by
  unfold run at h
  split at h
  · cases h
  · cases h
  · split at h
    · cases h
      exact requests_proceed ht
    · split at h
      · split at h <;> cases h <;> exact requests_set ht _
      · cases h
  · split at h
    · cases h
      exact requests_set ht _
    · cases h
      exact requests_set ht _
    · split at h
      · split at h <;> cases h
        · exact requests_set ht _
        · exact requests_proceed ht
      · cases h

theorem requests_fault {s s' : State A} {i : Nat} {t : Task A} (ht : s.tasks[i]? = some t)
    (h : s.fault i t = some s') : s'.tasks.map Task.request = s.tasks.map Task.request := by
  unfold fault at h
  split at h
  · cases h
  · cases h
  · split at h <;> cases h <;> exact requests_set ht _
  · split at h <;> cases h <;> exact requests_set ht _

theorem requests_lose {s s' : State A} {i : Nat} {t : Task A} (ht : s.tasks[i]? = some t)
    (h : s.lose i t = some s') : s'.tasks.map Task.request = s.tasks.map Task.request := by
  unfold lose at h
  split at h
  · cases h
  · cases h
  · split at h
    · cases h
    · split at h
      · split at h <;> cases h
        exact requests_set ht _
      · cases h
  · split at h <;> cases h
    exact requests_set ht _

/-- The request that arrives with an event. -/
def arrived : Event A → Option A.Request
  | .arrive r => some r
  | _ => none

theorem requests_step {s s' : State A} {e : Event A} (h : s.step e = some s') :
    s'.tasks.map Task.request = s.tasks.map Task.request ++ (arrived e).toList := by
  cases e with
  | arrive r =>
      obtain ⟨w, _, rfl⟩ := Option.map_eq_some_iff.mp h
      exact List.map_append
  | env e =>
      obtain ⟨w, _, rfl⟩ := Option.map_eq_some_iff.mp h
      exact (List.append_nil _).symm
  | run i =>
      obtain ⟨t, ht, h⟩ := Option.bind_eq_some_iff.mp h
      exact (requests_run ht h).trans (List.append_nil _).symm
  | fault i =>
      obtain ⟨t, ht, h⟩ := Option.bind_eq_some_iff.mp h
      exact (requests_fault ht h).trans (List.append_nil _).symm
  | lose i =>
      obtain ⟨t, ht, h⟩ := Option.bind_eq_some_iff.mp h
      exact (requests_lose ht h).trans (List.append_nil _).symm
  | crash i =>
      obtain ⟨t, ht, rfl⟩ := Option.map_eq_some_iff.mp h
      exact (requests_set ht _).trans (List.append_nil _).symm

/-- The calls of a run are the requests that have arrived, in their order. -/
theorem requests_steps {es : List (Event A)} {s s' : State A} (h : s.steps es = some s') :
    s'.tasks.map Task.request = s.tasks.map Task.request ++ es.filterMap arrived := by
  induction es generalizing s with
  | nil =>
      cases h
      exact (List.append_nil _).symm
  | cons e es ih =>
      obtain ⟨s₁, he, hes⟩ := Option.bind_eq_some_iff.mp h
      rw [ih hes, requests_step he, List.append_assoc]
      cases e <;> rfl

end State

end Transact
