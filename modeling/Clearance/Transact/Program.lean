/-
# `Transact.Program` — transactions as programs over statements

A database transaction is a tree: at every node one statement is sent and the
program goes on with its reply, at every leaf the transaction commits (`ret`)
or is rolled back with an error (`throw`).  A statement that fails aborts the
transaction, so a program never sees a fault: it only says which error the
fault becomes (`onFault`).

An `Engine` gives the statements their meaning on a database at READ COMMITTED:

* `exec s locked d` runs one statement on what the session sees — the committed
  rows plus its own writes — and returns the reply, the writes it buffers and
  the locks it keeps to the end of the transaction.  `locked` tells which locks
  other sessions hold, and is read by `SKIP LOCKED` only;
* `needs s d` are the locks the statement waits for.

`Tx.solo` runs a transaction with nobody else around.  `Tx.Runs` is the same
with `locked` chosen freely at every statement: one transaction, executed in
one go, on a database where others may hold locks.
-/
import Clearance.Transact.Table

namespace Transact

/-- The statements of a database, their replies, and what the driver reports
when a statement fails. -/
structure Signature where
  Stmt : Type
  Reply : Stmt → Type
  Fault : Type

/-- One transaction: statements, then a commit or an error. -/
inductive Tx (S : Signature) (ε α : Type) : Type where
  | ret (a : α)
  | throw (e : ε)
  | exec (s : S.Stmt) (onFault : S.Fault → ε) (k : S.Reply s → Tx S ε α)

/-- What a transaction returns once it has committed, and the error it returns
when the commit itself fails. -/
structure Commit (S : Signature) (ε α : Type) where
  value : α
  onFault : S.Fault → ε

/-- What a successful statement did. -/
structure Effect (W L R : Type) where
  reply : R
  writes : List W := []
  locks : List L := []

/-- The meaning of the statements. -/
structure Engine (S : Signature) where
  Db : Type
  Write : Type
  Lock : Type
  decLock : DecidableEq Lock
  apply : Db → Write → Db
  needs : S.Stmt → Db → List Lock
  exec : (s : S.Stmt) → (Lock → Bool) → Db → Except S.Fault (Effect Write Lock (S.Reply s))
  /-- The fault of a lost connection or a cancelled statement. -/
  outage : S.Fault
  /-- A lock is waited for, or taken because nobody else holds it. -/
  locks_needed : ∀ {s : S.Stmt} {f : Lock → Bool} {d : Db} {r : Effect Write Lock (S.Reply s)},
    exec s f d = .ok r → ∀ l ∈ r.locks, l ∈ needs s d ∨ f l = false

attribute [instance] Engine.decLock

namespace Tx

variable {S : Signature} {ε α β γ : Type}

/-- Sequencing. -/
def bind : Tx S ε α → (α → Tx S ε β) → Tx S ε β
  | .ret a, f => f a
  | .throw e, _ => .throw e
  | .exec s h k, f => .exec s h (fun r => (k r).bind f)

instance : Monad (Tx S ε) where
  pure := .ret
  bind := .bind

@[simp] theorem pure_eq (a : α) : (pure a : Tx S ε α) = .ret a := rfl
@[simp] theorem bind_ret (a : α) (f : α → Tx S ε β) : (Tx.ret a >>= f) = f a := rfl
@[simp] theorem bind_throw (e : ε) (f : α → Tx S ε β) : (Tx.throw e >>= f) = .throw e := rfl
@[simp] theorem bind_exec (s : S.Stmt) (h : S.Fault → ε) (k : S.Reply s → Tx S ε α)
    (f : α → Tx S ε β) : (Tx.exec s h k >>= f) = .exec s h (fun r => k r >>= f) := rfl

/-- Send one statement. -/
def send (s : S.Stmt) (h : S.Fault → ε) : Tx S ε (S.Reply s) := .exec s h .ret

@[simp] theorem bind_send (s : S.Stmt) (h : S.Fault → ε) (f : S.Reply s → Tx S ε β) :
    (send s h >>= f) = .exec s h f := rfl

end Tx

namespace Engine

variable {S : Signature} (E : Engine S)

/-- The committed database with a session's own writes on top. -/
def view (d : E.Db) (w : List E.Write) : E.Db := w.foldl E.apply d

@[simp] theorem view_nil (d : E.Db) : E.view d [] = d := rfl

@[simp] theorem view_cons (d : E.Db) (x : E.Write) (w : List E.Write) :
    E.view d (x :: w) = E.view (E.apply d x) w := rfl

theorem view_append (d : E.Db) (w w' : List E.Write) :
    E.view d (w ++ w') = E.view (E.view d w) w' :=
  List.foldl_append ..

end Engine

namespace Tx

variable {S : Signature} (E : Engine S) {ε α β : Type}

/-- The transaction run alone: its value and its writes, or its error. -/
def solo : Tx S ε α → E.Db → List E.Write → Except ε (α × List E.Write)
  | .ret a, _, w => .ok (a, w)
  | .throw e, _, _ => .error e
  | .exec s h k, d, w =>
      match E.exec s (fun _ => false) (E.view d w) with
      | .error x => .error (h x)
      | .ok r => (k r.reply).solo d (w ++ r.writes)

theorem solo_exec {s : S.Stmt} {h : S.Fault → ε} {k : S.Reply s → Tx S ε α} {d : E.Db}
    {w : List E.Write} {r : Effect E.Write E.Lock (S.Reply s)}
    (hr : E.exec s (fun _ => false) (E.view d w) = .ok r) :
    (Tx.exec s h k).solo E d w = (k r.reply).solo E d (w ++ r.writes) := by
  simp only [solo, hr]

theorem solo_bind (f : α → Tx S ε β) (d : E.Db) :
    ∀ (p : Tx S ε α) (w : List E.Write),
      (p >>= f).solo E d w =
        match p.solo E d w with
        | .error e => .error e
        | .ok (a, w') => (f a).solo E d w'
  | .ret _, _ => rfl
  | .throw _, _ => rfl
  | .exec s h k, w => by
      rw [bind_exec]
      simp only [solo]
      cases E.exec s (fun _ => false) (E.view d w) with
      | error x => rfl
      | ok r => exact solo_bind f d (k r.reply) (w ++ r.writes)

/-- A transaction executed in one go on `d`, its session having written `w`:
`res` is what it returns and `w'` what it leaves to apply. -/
def Runs : Tx S ε (Commit S ε α) → E.Db → List E.Write → Except ε α → List E.Write → Prop
  | .ret c, _, w, res, w' => res = .ok c.value ∧ w' = w
  | .throw e, _, _, res, w' => res = .error e ∧ w' = []
  | .exec s h k, d, w, res, w' => ∃ f : E.Lock → Bool,
      match E.exec s f (E.view d w) with
      | .error x => res = .error (h x) ∧ w' = []
      | .ok r => (k r.reply).Runs d (w ++ r.writes) res w'

/-- Every transaction, executed in one go, comes to something. -/
theorem runs_total (d : E.Db) : ∀ (p : Tx S ε (Commit S ε α)) (w : List E.Write),
    ∃ res w', p.Runs E d w res w'
  | .ret c, w => ⟨.ok c.value, w, rfl, rfl⟩
  | .throw e, _ => ⟨.error e, [], rfl, rfl⟩
  | .exec s h k, w => by
      cases hx : E.exec s (fun _ => false) (E.view d w) with
      | error x =>
          refine ⟨.error (h x), [], ?_⟩
          rw [Runs]
          exact ⟨fun _ => false, by rw [hx]; exact ⟨rfl, rfl⟩⟩
      | ok r =>
          obtain ⟨res, w', hk⟩ := runs_total d (k r.reply) (w ++ r.writes)
          refine ⟨res, w', ?_⟩
          rw [Runs]
          exact ⟨fun _ => false, by rw [hx]; exact hk⟩

theorem runs_exec {s : S.Stmt} {h : S.Fault → ε} {k : S.Reply s → Tx S ε (Commit S ε α)}
    {d : E.Db} {w : List E.Write} {res : Except ε α} {w' : List E.Write} :
    (Tx.exec s h k).Runs E d w res w' ↔ ∃ f : E.Lock → Bool,
      match E.exec s f (E.view d w) with
      | .error x => res = .error (h x) ∧ w' = []
      | .ok r => (k r.reply).Runs E d (w ++ r.writes) res w' := by
  rw [Runs]

/-- The first statement of a run. -/
theorem Runs.cases {s : S.Stmt} {h : S.Fault → ε} {k : S.Reply s → Tx S ε (Commit S ε α)}
    {d : E.Db} {w : List E.Write} {res : Except ε α} {w' : List E.Write}
    (hrun : (Tx.exec s h k).Runs E d w res w') :
    ∃ f, (∃ x, E.exec s f (E.view d w) = .error x ∧ res = .error (h x) ∧ w' = []) ∨
      ∃ r, E.exec s f (E.view d w) = .ok r ∧ (k r.reply).Runs E d (w ++ r.writes) res w' := by
  obtain ⟨f, hrun⟩ := (runs_exec E).mp hrun
  cases hx : E.exec s f (E.view d w) with
  | error x =>
      rw [hx] at hrun
      exact ⟨f, Or.inl ⟨x, hx, hrun⟩⟩
  | ok r =>
      rw [hx] at hrun
      exact ⟨f, Or.inr ⟨r, hx, hrun⟩⟩

/-- The first statement of a run that commits. -/
theorem Runs.of_ok {s : S.Stmt} {h : S.Fault → ε} {k : S.Reply s → Tx S ε (Commit S ε α)}
    {d : E.Db} {w : List E.Write} {a : α} {w' : List E.Write}
    (hrun : (Tx.exec s h k).Runs E d w (.ok a) w') :
    ∃ f r, E.exec s f (E.view d w) = .ok r ∧ (k r.reply).Runs E d (w ++ r.writes) (.ok a) w' := by
  obtain ⟨f, ⟨x, _, hres, _⟩ | ⟨r, hx, hk⟩⟩ := hrun.cases E
  · cases hres
  · exact ⟨f, r, hx, hk⟩

/-- An error leaves nothing to apply. -/
theorem Runs.writes_nil {d : E.Db} {e : ε} {w' : List E.Write} :
    ∀ {p : Tx S ε (Commit S ε α)} {w : List E.Write}, p.Runs E d w (.error e) w' → w' = []
  | .ret _, _, h => by cases h.1
  | .throw _, _, h => h.2
  | .exec s h k, w, hrun => by
      obtain ⟨f, ⟨x, _, _, hw⟩ | ⟨r, _, hk⟩⟩ := hrun.cases E
      · exact hw
      · exact hk.writes_nil

/-- Every error the program may come to, its statements' faults among them, is one `Q` admits. -/
def Errs (Q : ε → Prop) : Tx S ε α → Prop
  | .ret _ => True
  | .throw e => Q e
  | .exec _ h k => (∀ x, Q (h x)) ∧ ∀ r, (k r).Errs Q

theorem Runs.errs {Q : ε → Prop} {d : E.Db} {e : ε} {w' : List E.Write} :
    ∀ {p : Tx S ε (Commit S ε α)} {w : List E.Write}, p.Runs E d w (.error e) w' → p.Errs Q → Q e
  | .ret _, _, h, _ => by cases h.1
  | .throw _, _, h, hQ => by cases h.1; exact hQ
  | .exec s h k, w, hrun, hQ => by
      obtain ⟨f, ⟨x, _, hres, _⟩ | ⟨r, _, hk⟩⟩ := hrun.cases E
      · cases hres
        exact hQ.1 x
      · exact hk.errs (hQ.2 r.reply)

/-- No statement of the program looks at the locks of other sessions. -/
def Quiet : Tx S ε α → Prop
  | .ret _ => True
  | .throw _ => True
  | .exec s _ k => (∀ f g d, E.exec s f d = E.exec s g d) ∧ ∀ r, (k r).Quiet

theorem Quiet.bind {f : α → Tx S ε β} (hf : ∀ a, (f a).Quiet E) :
    ∀ {p : Tx S ε α}, p.Quiet E → (p >>= f).Quiet E
  | .ret a, _ => hf a
  | .throw _, _ => trivial
  | .exec _ _ _, h => ⟨h.1, fun r => Quiet.bind hf (h.2 r)⟩

/-- What a transaction that was run alone returns, and leaves to apply. -/
def outcome : Except ε (Commit S ε α × List E.Write) → Except ε α × List E.Write
  | .ok (c, w) => (.ok c.value, w)
  | .error e => (.error e, [])

/-- A transaction run alone is executed in one go. -/
theorem runs_of_solo {d : E.Db} :
    ∀ (p : Tx S ε (Commit S ε α)) (w : List E.Write),
      p.Runs E d w (outcome E (p.solo E d w)).1 (outcome E (p.solo E d w)).2
  | .ret _, _ => ⟨rfl, rfl⟩
  | .throw _, _ => ⟨rfl, rfl⟩
  | .exec s h k, w => by
      refine (runs_exec E).mpr ⟨fun _ => false, ?_⟩
      cases hx : E.exec s (fun _ => false) (E.view d w) with
      | error x => simp [solo, hx, outcome]
      | ok r =>
          rw [solo_exec E hx]
          exact runs_of_solo (k r.reply) (w ++ r.writes)

theorem runs_iff_solo {d : E.Db} {res : Except ε α} {w' : List E.Write} :
    ∀ {p : Tx S ε (Commit S ε α)} {w : List E.Write}, p.Quiet E →
      (p.Runs E d w res w' ↔ outcome E (p.solo E d w) = (res, w'))
  | .ret c, w, _ => by
      constructor
      · rintro ⟨rfl, rfl⟩; rfl
      · intro h; cases h; exact ⟨rfl, rfl⟩
  | .throw e, w, _ => by
      constructor
      · rintro ⟨rfl, rfl⟩; rfl
      · intro h; cases h; exact ⟨rfl, rfl⟩
  | .exec s h k, w, hq => by
      have hall : ∀ f : E.Lock → Bool,
          E.exec s f (E.view d w) = E.exec s (fun _ => false) (E.view d w) :=
        fun f => hq.1 f _ _
      simp only [Runs, solo, hall, exists_const]
      cases E.exec s (fun _ => false) (E.view d w) with
      | error x =>
          constructor
          · rintro ⟨rfl, rfl⟩; rfl
          · intro h'; cases h'; exact ⟨rfl, rfl⟩
      | ok r => exact runs_iff_solo (hq.2 r.reply)

end Tx

end Transact
