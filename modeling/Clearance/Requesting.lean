/-
# `Clearance.Requesting` — what a client's request has done so far

`Create` and `Deposit` look for the idempotency key, insert everything if it is not there,
and look again if somebody else was faster.  `Trace` lists the operations such a request has
made, with what it was told, and what its code goes on with.  A request can be interrupted
after every operation, so every beginning is there.
-/
import Clearance.System

namespace Clearance

open Transact

/-! ## Looking for a key -/

section

variable {hashtext : String → Int} {key : String}

theorem findIdempotency_answer
    {o : Op (dialect hashtext).engine Error (Call.findIdempotency key).Reply}
    (h : (contract hashtext).Allows (.findIdempotency key) o) :
    (∃ e, o.answer = .error e ∧ IsOutage e) ∨
      o.answer = .ok (((Db.idempotencyKeys o.before).find? key).map
        fun r => ⟨r.requestHash, r.response⟩) := by
  rcases h.outage_or_spec with hout | ⟨f, hres, -⟩
  · exact Or.inl hout
  · exact Or.inr hres

theorem findDepositIdempotency_answer
    {o : Op (dialect hashtext).engine Error (Call.findDepositIdempotency key).Reply}
    (h : (contract hashtext).Allows (.findDepositIdempotency key) o) :
    (∃ e, o.answer = .error e ∧ IsOutage e) ∨
      o.answer = .ok (((Db.depositIdempotencyKeys o.before).find? key).map
        fun r => ⟨r.requestHash, r.response⟩) := by
  rcases h.outage_or_spec with hout | ⟨f, hres, -⟩
  · exact Or.inl hout
  · exact Or.inr hres

end

/-! ## Payments -/

namespace TransactionService

variable (P : Platform) (request : CreateRequest) (metadata : RequestMetadata) (draws : Draws)

/-- The operations of `Create`. -/
def createCall : Call :=
  .create (newRecord P request metadata draws) (newEvent request metadata draws) draws.now

/-- What is returned for a key that was there. -/
def metResult (existing : FoundKey CreateResponse) (conflict : Error) :
    Except Error CreateResponse :=
  if existing.requestHash = hashRequest P request then .ok existing.response else .error conflict

/-- What is returned once the key has been looked for a second time. -/
def racedResult (conflict : Error) :
    Except Error (Option (FoundKey CreateResponse)) → Except Error CreateResponse
  | .error e => .error (.wrap "find idempotency key after conflict" e)
  | .ok none => .error (.wrap "create transaction" conflict)
  | .ok (some existing) => metResult P request existing (.wrap "create transaction" conflict)

/-- The operations call `i` has made, and what it goes on with. -/
inductive Trace (i : Nat) : List (LogEntry P) → Service P (Except Error CreateResponse) → Prop
  | begun : Trace i [] (createNormalized P request metadata draws)
  | unfound {find e} : find.answer = .error e →
      Trace i [⟨i, .findIdempotency metadata.idempotencyKey, find⟩]
        (.ret (.error (.wrap "find idempotency key" e)))
  | met {find existing} : find.answer = .ok (some existing) →
      Trace i [⟨i, .findIdempotency metadata.idempotencyKey, find⟩]
        (.ret (metResult P request existing (.sentinel .transactionIdempotencyConflict)))
  | free {find} : find.answer = .ok none →
      Trace i [⟨i, .findIdempotency metadata.idempotencyKey, find⟩]
        (insertNew P request metadata draws)
  | created {find insert} : find.answer = .ok none → insert.answer = .ok () →
      Trace i [⟨i, .findIdempotency metadata.idempotencyKey, find⟩,
          ⟨i, createCall P request metadata draws, insert⟩]
        (.ret (.ok (response (newTransaction request metadata draws))))
  | failed {find insert e} : find.answer = .ok none → insert.answer = .error e →
      e.is .transactionIdempotencyConflict = false →
      Trace i [⟨i, .findIdempotency metadata.idempotencyKey, find⟩,
          ⟨i, createCall P request metadata draws, insert⟩]
        (.ret (.error (.wrap "create transaction" e)))
  | beaten {find insert e} : find.answer = .ok none → insert.answer = .error e →
      e.is .transactionIdempotencyConflict = true →
      Trace i [⟨i, .findIdempotency metadata.idempotencyKey, find⟩,
          ⟨i, createCall P request metadata draws, insert⟩]
        (afterConflict P request metadata e)
  | raced {find insert e again} : find.answer = .ok none → insert.answer = .error e →
      e.is .transactionIdempotencyConflict = true →
      Trace i [⟨i, .findIdempotency metadata.idempotencyKey, find⟩,
          ⟨i, createCall P request metadata draws, insert⟩,
          ⟨i, .findIdempotency metadata.idempotencyKey, again⟩]
        (.ret (racedResult P request e again.answer))

variable {P request metadata draws}

theorem afterConflict_eq (conflict : Error) : afterConflict P request metadata conflict =
    callStore P (.findIdempotency metadata.idempotencyKey) >>= fun found =>
      .ret (racedResult P request conflict found) := by
  unfold afterConflict
  congr 1
  funext found
  rcases found with e | _ | existing
  · rfl
  · rfl
  · show (if _ then _ else _) = _
    rw [racedResult, metResult]
    split <;> rfl

theorem met_eq (existing : FoundKey CreateResponse) :
    (if existing.requestHash ≠ hashRequest P request then
        pure (.error (.sentinel .transactionIdempotencyConflict))
      else pure (.ok existing.response) : Service P (Except Error CreateResponse)) =
      .ret (metResult P request existing (.sentinel .transactionIdempotencyConflict)) := by
  rw [metResult, ite_not]
  split <;> rfl

theorem metResult_error {existing : FoundKey CreateResponse} {conflict e : Error}
    (h : metResult P request existing conflict = .error e) : e = conflict := by
  unfold metResult at h
  split at h
  · cases h
  · exact (Except.error.inj h).symm

theorem racedResult_error {conflict e : Error}
    {found : Except Error (Option (FoundKey CreateResponse))}
    (h : racedResult P request conflict found = .error e) :
    (∃ e', found = .error e' ∧ e = .wrap "find idempotency key after conflict" e') ∨
      e = .wrap "create transaction" conflict := by
  rcases found with e' | _ | existing
  · exact Or.inl ⟨e', rfl, (Except.error.inj h).symm⟩
  · exact Or.inr (Except.error.inj h).symm
  · exact Or.inr (metResult_error h)

theorem createNormalized_trace {i : Nat} {g : List (LogEntry P)}
    {q : Service P (Except Error CreateResponse)}
    (h : (createNormalized P request metadata draws).Made i g q) :
    Trace P request metadata draws i g q := by
  rcases made_bind h with ⟨rfl, rfl⟩ | ⟨find, g', rfl, hk⟩
  · exact .begun
  cases hfind : find.answer with
  | error e =>
      rw [hfind] at hk
      obtain ⟨rfl, rfl⟩ := Svc.made_ret.mp hk
      exact .unfound hfind
  | ok found =>
      rw [hfind] at hk
      cases found with
      | some existing =>
          have hk := (met_eq existing).subst (motive := fun p => Svc.Made i p g' q) hk
          obtain ⟨rfl, rfl⟩ := Svc.made_ret.mp hk
          exact .met hfind
      | none =>
          rcases made_bind hk with ⟨rfl, rfl⟩ | ⟨insert, g'', rfl, hm⟩
          · exact .free hfind
          cases hinsert : insert.answer with
          | ok u =>
              rw [hinsert] at hm
              obtain ⟨rfl, rfl⟩ := Svc.made_ret.mp hm
              exact .created hfind hinsert
          | error e =>
              rw [hinsert] at hm
              cases his : e.is .transactionIdempotencyConflict with
              | false =>
                  simp only [his, Bool.false_eq_true, if_false] at hm
                  obtain ⟨rfl, rfl⟩ := Svc.made_ret.mp hm
                  exact .failed hfind hinsert his
              | true =>
                  simp only [his, if_true] at hm
                  rcases made_bind hm with ⟨rfl, rfl⟩ | ⟨again, g₃, rfl, -⟩
                  · exact .beaten hfind hinsert his
                  rw [afterConflict_eq] at hm
                  obtain ⟨hnil, -⟩ | ⟨_, _, heq, hr⟩ := made_bind hm
                  · cases hnil
                  cases heq
                  obtain ⟨rfl, rfl⟩ := Svc.made_ret.mp hr
                  exact .raced hfind hinsert his

end TransactionService

/-! ## Deposits -/

namespace FundingService

variable (P : Platform) (request : DepositRequest) (metadata : RequestMetadata) (draws : Draws)

def depositCall : Call :=
  .createDeposit (newDeposit P request metadata draws)
    (newEvent (newTransaction request metadata draws) draws) draws.store draws.now

/-- What is returned for a key that was there. -/
def metResult (existing : FoundKey DepositResponse) : Except Error DepositResponse :=
  if existing.requestHash = hashRequest P request then .ok existing.response
  else .error (.sentinel .depositIdempotencyConflict)

/-- What is returned once the key has been looked for a second time. -/
def racedResult (conflict : Error) :
    Except Error (Option (FoundKey DepositResponse)) → Except Error DepositResponse
  | .error e => .error (.wrap "find deposit idempotency key after conflict" e)
  | .ok none => .error (.wrap "create deposit" conflict)
  | .ok (some existing) => metResult P request existing

/-- Somebody else was faster. -/
def beatenBy (e : Error) : Bool :=
  e.is .depositIdempotencyConflict || e.is .externalReferenceConflict

/-- The operations call `i` has made, and what it goes on with. -/
inductive Trace (i : Nat) : List (LogEntry P) → Service P (Except Error DepositResponse) → Prop
  | begun : Trace i [] (depositNormalized P request metadata draws)
  | unfound {find e} : find.answer = .error e →
      Trace i [⟨i, .findDepositIdempotency metadata.idempotencyKey, find⟩]
        (.ret (.error (.wrap "find deposit idempotency key" e)))
  | met {find existing} : find.answer = .ok (some existing) →
      Trace i [⟨i, .findDepositIdempotency metadata.idempotencyKey, find⟩]
        (.ret (metResult P request existing))
  | free {find} : find.answer = .ok none →
      Trace i [⟨i, .findDepositIdempotency metadata.idempotencyKey, find⟩]
        (insertNew P request metadata draws)
  | created {find insert response} : find.answer = .ok none → insert.answer = .ok response →
      Trace i [⟨i, .findDepositIdempotency metadata.idempotencyKey, find⟩,
          ⟨i, depositCall P request metadata draws, insert⟩] (.ret (.ok response))
  | failed {find insert e} : find.answer = .ok none → insert.answer = .error e →
      beatenBy e = false →
      Trace i [⟨i, .findDepositIdempotency metadata.idempotencyKey, find⟩,
          ⟨i, depositCall P request metadata draws, insert⟩]
        (.ret (.error (.wrap "create deposit" e)))
  | beaten {find insert e} : find.answer = .ok none → insert.answer = .error e →
      beatenBy e = true →
      Trace i [⟨i, .findDepositIdempotency metadata.idempotencyKey, find⟩,
          ⟨i, depositCall P request metadata draws, insert⟩]
        (afterConflict P request metadata e)
  | raced {find insert e again} : find.answer = .ok none → insert.answer = .error e →
      beatenBy e = true →
      Trace i [⟨i, .findDepositIdempotency metadata.idempotencyKey, find⟩,
          ⟨i, depositCall P request metadata draws, insert⟩,
          ⟨i, .findDepositIdempotency metadata.idempotencyKey, again⟩]
        (.ret (racedResult P request e again.answer))

variable {P request metadata draws}

theorem met_eq (existing : FoundKey DepositResponse) :
    (if existing.requestHash ≠ hashRequest P request then
        pure (.error (.sentinel .depositIdempotencyConflict))
      else pure (.ok existing.response) : Service P (Except Error DepositResponse)) =
      .ret (metResult P request existing) := by
  rw [metResult, ite_not]
  split <;> rfl

theorem afterConflict_eq (conflict : Error) : afterConflict P request metadata conflict =
    callStore P (.findDepositIdempotency metadata.idempotencyKey) >>= fun found =>
      .ret (racedResult P request conflict found) := by
  unfold afterConflict
  congr 1
  funext found
  rcases found with e | _ | existing
  · rfl
  · rfl
  · show (if _ then _ else _) = _
    rw [racedResult, metResult]
    split <;> rfl

theorem metResult_error {existing : FoundKey DepositResponse} {e : Error}
    (h : metResult P request existing = .error e) :
    e = .sentinel .depositIdempotencyConflict := by
  unfold metResult at h
  split at h
  · cases h
  · exact (Except.error.inj h).symm

theorem racedResult_error {conflict e : Error}
    {found : Except Error (Option (FoundKey DepositResponse))}
    (h : racedResult P request conflict found = .error e) :
    (∃ e', found = .error e' ∧ e = .wrap "find deposit idempotency key after conflict" e') ∨
      e = .wrap "create deposit" conflict ∨ e = .sentinel .depositIdempotencyConflict := by
  rcases found with e' | _ | existing
  · exact Or.inl ⟨e', rfl, (Except.error.inj h).symm⟩
  · exact Or.inr (Or.inl (Except.error.inj h).symm)
  · exact Or.inr (Or.inr (metResult_error h))

theorem depositNormalized_trace {i : Nat} {g : List (LogEntry P)}
    {q : Service P (Except Error DepositResponse)}
    (h : (depositNormalized P request metadata draws).Made i g q) :
    Trace P request metadata draws i g q := by
  rcases made_bind h with ⟨rfl, rfl⟩ | ⟨find, g', rfl, hk⟩
  · exact .begun
  cases hfind : find.answer with
  | error e =>
      rw [hfind] at hk
      obtain ⟨rfl, rfl⟩ := Svc.made_ret.mp hk
      exact .unfound hfind
  | ok found =>
      rw [hfind] at hk
      cases found with
      | some existing =>
          have hk := (met_eq existing).subst (motive := fun p => Svc.Made i p g' q) hk
          obtain ⟨rfl, rfl⟩ := Svc.made_ret.mp hk
          exact .met hfind
      | none =>
          rcases made_bind hk with ⟨rfl, rfl⟩ | ⟨insert, g'', rfl, hm⟩
          · exact .free hfind
          cases hinsert : insert.answer with
          | ok response =>
              rw [hinsert] at hm
              obtain ⟨rfl, rfl⟩ := Svc.made_ret.mp hm
              exact .created hfind hinsert
          | error e =>
              rw [hinsert] at hm
              have hm : Svc.Made i (if beatenBy e = true then afterConflict P request metadata e
                else pure (.error (.wrap "create deposit" e))) g'' q := hm
              cases his : beatenBy e with
              | false =>
                  simp only [his, Bool.false_eq_true, if_false] at hm
                  obtain ⟨rfl, rfl⟩ := Svc.made_ret.mp hm
                  exact .failed hfind hinsert his
              | true =>
                  simp only [his, if_true] at hm
                  rcases made_bind hm with ⟨rfl, rfl⟩ | ⟨again, g₃, rfl, -⟩
                  · exact .beaten hfind hinsert his
                  rw [afterConflict_eq] at hm
                  obtain ⟨hnil, -⟩ | ⟨_, _, heq, hr⟩ := made_bind hm
                  · cases hnil
                  cases heq
                  obtain ⟨rfl, rfl⟩ := Svc.made_ret.mp hr
                  exact .raced hfind hinsert his

end FundingService

end Clearance
