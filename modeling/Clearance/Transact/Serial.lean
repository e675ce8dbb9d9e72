/-
# `Transact.Serial` — one operation after the other

`serial` runs operations one at a time, each alone on the database.  Where the
contract of an operation says that it commits exactly what it would have committed
alone (`Serializes`), every run of the machine is such a sequence: the operations
that committed, in the order they did, reach the same database and return the same
values (`serial_reach`).
-/
import Clearance.Transact.Invariant

namespace Transact

variable {S : Signature} {ε : Type} {E : Engine S} {St : Store S ε} {A : App E St}
  {C : Contract E St}

variable (E) in
/-- An operation run alone: what it returns, and the database after it. -/
def Method.solo {ρ : Type} : Method S ε ρ → E.Db → Except ε ρ × E.Db
  | .auto q h f, d =>
      match E.exec q (fun _ => false) d with
      | .error x => (.error (h x), d)
      | .ok r => (f r.reply, E.view d r.writes)
  | .transaction _ tx, d =>
      let o := Tx.outcome E (tx.solo E d [])
      (o.1, E.view d o.2)

variable (E) in
/-- The code of a service run alone: what it returns, and the database after it. -/
def Svc.solo {α : Type} : Svc St α → E.Db → α × E.Db
  | .ret a, d => (a, d)
  | .call c k, d =>
      let o := (St.method c).solo E d
      (k o.1).solo o.2

variable (E St) in
/-- Operations run one after the other. -/
def serial : E.Db → List St.Call → List ((c : St.Call) × Except ε (St.Reply c)) × E.Db
  | d, [] => ([], d)
  | d, c :: cs =>
      let o := (St.method c).solo E d
      let rest := serial o.2 cs
      (⟨c, o.1⟩ :: rest.1, rest.2)

theorem serial_append (d : E.Db) (cs cs' : List St.Call) :
    serial E St d (cs ++ cs') =
      ((serial E St d cs).1 ++ (serial E St (serial E St d cs).2 cs').1,
        (serial E St (serial E St d cs).2 cs').2) := by
  induction cs generalizing d with
  | nil => rfl
  | cons c cs ih => simp only [List.cons_append, serial, ih]

/-- An operation run alone keeps to its contract. -/
theorem Store.Sound.solo {R : Rely E} (h : St.Sound R C) (c : St.Call) (d : E.Db) :
    ∃ w, C.spec c d ((St.method c).solo E d).1 w ∧ ((St.method c).solo E d).2 = E.view d w := by
  have hc := h c
  cases hm : St.method c with
  | auto q onFault f =>
      rw [hm] at hc
      have hspec := hc.2 d fun _ => false
      cases hx : E.exec q (fun _ => false) d with
      | error x =>
          rw [hx] at hspec
          simp only [Method.solo, hx]
          exact ⟨[], hspec, rfl⟩
      | ok r =>
          rw [hx] at hspec
          simp only [Method.solo, hx]
          exact ⟨r.writes, hspec.1, rfl⟩
  | transaction onFault tx =>
      rw [hm] at hc
      exact ⟨_, hc.2.2.2 d _ _ (Tx.runs_of_solo E tx []), rfl⟩

/-- What the operations that are called keep, the code of a service run alone keeps. -/
theorem Svc.solo_keeps {α : Type} {I : E.Db → Prop} {p : Svc St α} {d : E.Db}
    (hI : ∀ c d, p.Calls c → I d → I ((St.method c).solo E d).2) (hd : I d) :
    I (p.solo E d).2 := by
  induction p generalizing d with
  | ret a => exact hd
  | call c k ih =>
      exact ih _ (fun c' d' hc' => hI c' d' (.later _ hc')) (hI c d .here hd)

/-- The operation returned a value. -/
def Entry.succeeded (e : Entry E St) : Bool :=
  match e.op.reply with
  | .ok _ => true
  | .error _ => false

/-- What the operation returned. -/
def Entry.returned (e : Entry E St) : (c : St.Call) × Except ε (St.Reply c) := ⟨e.call, e.op.reply⟩

/-- The operations that committed, in the order they did. -/
def committed (g : List (Entry E St)) : List (Entry E St) := g.filter Entry.succeeded

/-- When the operation succeeds it does what it would have done alone. -/
structure Serializes (C : Contract E St) (c : St.Call) : Prop where
  alone : ∀ {d a w}, C.spec c d (.ok a) w → (St.method c).solo E d = (.ok a, E.view d w)
  nothing : ∀ {d e w}, C.spec c d (.error e) w → w = []

/-- Running what committed gives the database and the values. -/
def Replays (d₀ d : E.Db) (g : List (Entry E St)) : Prop :=
  serial E St d₀ ((committed g).map Entry.call) = ((committed g).map Entry.returned, d)

theorem Replays.op {d₀ d : E.Db} {g : List (Entry E St)} (h : Replays d₀ d g) {i : Nat}
    {c : St.Call} {o : Op E ε (St.Reply c)} (hc : Serializes C c) (ho : C.Allows c o)
    (hb : o.before = d) : Replays d₀ (E.view d o.writes) (g ++ [⟨i, c, o⟩]) := by
  cases hr : o.reply with
  | error e =>
      have hnot : Entry.succeeded (⟨i, c, o⟩ : Entry E St) = false := by simp [Entry.succeeded, hr]
      have hw := ho.writes_nil hc.nothing hr
      rw [Replays, committed, List.filter_append, List.filter_cons_of_neg (by simp [hnot]),
        List.filter_nil, List.append_nil, hw]
      exact h
  | ok a =>
      have hyes : Entry.succeeded (⟨i, c, o⟩ : Entry E St) = true := by simp [Entry.succeeded, hr]
      have hsolo : (St.method c).solo E d = (.ok a, E.view d o.writes) :=
        hb ▸ hc.alone (ho.spec hr)
      have h : serial E St d₀ ((committed g).map Entry.call) =
        ((committed g).map Entry.returned, d) := h
      rw [Replays, committed, List.filter_append, List.filter_cons_of_pos hyes, List.filter_nil,
        List.map_append, List.map_append, serial_append]
      rw [committed] at h
      rw [h]
      simp [serial, hsolo, Entry.returned, hr]

/-- Every run is a sequence of whole operations. -/
theorem serial_reach {d : E.Db} {w : A.World} {s : AState A}
    (hc : ∀ {w r w' c}, A.accept w r = some w' → (A.program r).Calls c → Serializes C c)
    (h : AReach C ⟨d, w, [], []⟩ s) : Replays d s.db s.log := by
  have hsafe : Safe A C (fun d' _ g => Replays d d' g)
      fun r _ => ∀ c, (A.program r).Calls c → Serializes C c :=
    { arrive := fun hI hw => ⟨hI, fun _ => hc hw⟩
      env := fun hI _ => hI
      op := fun _ hI hQ hcall ho hb => hI.op (hQ _ hcall) ho hb
      stable := fun _ _ _ _ _ hQ => hQ }
  exact (hsafe.reach (Kept.init rfl) h).inv

/-- The last operation that came to an end left the database as it is. -/
theorem last_reach {d : E.Db} {w : A.World} {s : AState A} (h : AReach C ⟨d, w, [], []⟩ s)
    {e : Entry E St} (he : s.log.getLast? = some e) :
    C.Allows e.call e.op ∧ s.db = E.view e.op.before e.op.writes := by
  have hsafe : Safe A C (fun d' _ g => ∀ e, g.getLast? = some e →
      C.Allows e.call e.op ∧ d' = E.view e.op.before e.op.writes) fun _ _ => True :=
    { arrive := fun hI _ => ⟨hI, trivial⟩
      env := fun hI _ => hI
      op := by
        intro d' w g r c o i hI _ _ ho hb e he
        rw [List.getLast?_concat] at he
        cases he
        exact ⟨ho, by rw [hb]⟩
      stable := fun _ _ _ _ _ hQ => hQ }
  exact (hsafe.reach (Kept.init fun e he => by cases he) h).inv e he

end Transact
