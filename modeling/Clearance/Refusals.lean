/-
# `Clearance.Refusals` — why a consumer fails

`SaveConsumerOutbox` and `ProcessRiskEvaluated` report an error for one of these reasons,
and for no other:

    driver      the database, or its driver, reports one
    conflict    the event has been claimed with another payload
    unmatched   there is no transaction of that id, it is decided, or it is not the one the
                evaluation describes
    changed     the transaction was decided before it could be

`consumer_refused` reads this off the code.  It is what a caller that keeps its messages
in order has to rule out.
-/
import Clearance.Consumption

namespace Clearance

open Transact

/-- The event a consumer claims, and the payload it claims it with. -/
def Call.claim? : Call → Option (Delivery × Digest)
  | .saveConsumerOutbox delivery payloadHash _ _ => some (delivery, payloadHash)
  | .processRiskEvaluated delivery payloadHash _ _ _ => some (delivery, payloadHash)
  | _ => none

/-- An error of the database or its driver, with texts in front. -/
abbrev Error.FromDriver (e : Error) : Prop :=
  e.is .eventIdentityConflict = false ∧ e.driver?.isSome = true

/-- Why a consumer reports an error. -/
inductive Refusal (d : Db) : Call → Error → Prop
  | driver {c : Call} {e : Error} : e.FromDriver → Refusal d c e
  | conflict {c : Call} {delivery : Delivery} {payloadHash : Digest} {row : ProcessedRow} :
      c.claim? = some (delivery, payloadHash) →
      d.processedEvents.find? (delivery.consumerName, delivery.eventID) = some row →
      row.payloadSHA256 ≠ payloadHash → Refusal d c (.sentinel .eventIdentityConflict)
  | unmatched {delivery : Delivery} {payloadHash : Digest} {event : RiskEvaluated}
      {draws : LedgerDraws} {now : Time} {e : Error} :
      checkPending event (d.transactions.find? event.transactionID) = .error e →
      Refusal d (.processRiskEvaluated delivery payloadHash event draws now) e
  | changed {delivery : Delivery} {payloadHash : Digest} {event : RiskEvaluated}
      {draws : LedgerDraws} {now : Time} :
      Refusal d (.processRiskEvaluated delivery payloadHash event draws now)
        (.text "finalize transaction: transaction is not pending")

section

variable {hashtext : String → Int} {delivery : Delivery} {payloadHash : Digest} {now : Time}
  {d : Db} {e : Error} {w : List schema.Write}

/-- The errors of a transaction that goes on with what it has locked. -/
abbrev Settling (e : Error) : Prop :=
  e.FromDriver ∨ e = .text "finalize transaction: transaction is not pending"

theorem finalizeTransaction_errs (t : TransactionRow) (decision : Decision) (draws : LedgerDraws) :
    (finalizeTransaction t decision draws now : DbTx hashtext _).Errs Settling := by
  refine ⟨fun _ => Or.inl ⟨rfl, rfl⟩, fun row => ?_⟩
  cases row with
  | none => exact Or.inr rfl
  | some _ => exact ⟨fun _ => Or.inl ⟨rfl, rfl⟩, fun _ => trivial⟩

theorem settle_errs (event : RiskEvaluated) (draws : LedgerDraws) (t : TransactionRow) :
    (settle event draws now t : DbTx hashtext _).Errs Settling := by
  cases happ : event.approved with
  | false =>
      rw [settle_rejected happ]
      exact finalizeTransaction_errs t _ draws
  | true =>
      rw [settle_approved happ]
      refine ⟨fun _ => Or.inl ⟨rfl, rfl⟩, fun _ => ⟨fun _ => Or.inl ⟨rfl, rfl⟩, fun balance => ?_⟩⟩
      beta_reduce
      split
      · exact finalizeTransaction_errs t _ draws
      · exact ⟨fun _ => Or.inl ⟨rfl, rfl⟩, fun _ => finalizeTransaction_errs t _ draws⟩

/-- A consumer fails at the claim, or in its work. -/
theorem consume_refused {duplicate : String} {work : DbTx hashtext (DbCommit hashtext Bool)}
    (h : (consume delivery payloadHash now duplicate work).Runs (dialect hashtext).engine d []
      (.error e) w) :
    e.FromDriver ∨
      (e = .sentinel .eventIdentityConflict ∧
        ∃ row, d.processedEvents.find? (delivery.consumerName, delivery.eventID) = some row ∧
          row.payloadSHA256 ≠ payloadHash) ∨
      work.Runs (dialect hashtext).engine d [claimWrite delivery payloadHash now] (.error e) w := by
  rw [consume_eq] at h
  obtain ⟨f, ⟨x, _, hres, _⟩ | ⟨r, hr, h⟩⟩ := Tx.Runs.cases _ h
  · cases hres
    exact Or.inl ⟨rfl, rfl⟩
  obtain ⟨_, ⟨_, rfl⟩ | ⟨_, rfl⟩⟩ := Plan.insertOrSkip_ok.mp hr
  · obtain ⟨f', ⟨x, _, hres, _⟩ | ⟨r', hr', h⟩⟩ := Tx.Runs.cases _ h
    · cases hres
      exact Or.inl ⟨rfl, rfl⟩
    rcases Plan.updateRow_ok.mp hr' with ⟨_, rfl⟩ | ⟨row, hrow, _, _, rfl⟩
    · cases h.1
      exact Or.inl ⟨rfl, rfl⟩
    · change Tx.Runs (dialect hashtext).engine
        ((if row.payloadSHA256 ≠ payloadHash then .throw _ else pure false) >>= _) d _ _ w at h
      split at h
      · next hne =>
          cases h.1
          exact Or.inr (Or.inl ⟨rfl, row, hrow, hne⟩)
      · cases h.1
  · exact Or.inr (Or.inr h)

theorem saveConsumerOutbox_refused {event : OutboxEvent}
    (h : (saveConsumerOutbox delivery payloadHash event now).Runs (dialect hashtext).engine d []
      (.error e) w) : Refusal d (.saveConsumerOutbox delivery payloadHash event now) e := by
  rcases consume_refused h with hdriver | ⟨rfl, row, hrow, hne⟩ | hwork
  · exact .driver hdriver
  · exact .conflict rfl hrow hne
  · refine .driver (Tx.Runs.errs _ hwork (Q := Error.FromDriver) ?_)
    exact ⟨fun _ => ⟨rfl, rfl⟩, fun _ => trivial⟩

theorem processRiskEvaluated_refused {event : RiskEvaluated} {draws : LedgerDraws}
    (h : (processRiskEvaluated delivery payloadHash event draws now).Runs (dialect hashtext).engine
      d [] (.error e) w) :
    Refusal d (.processRiskEvaluated delivery payloadHash event draws now) e := by
  rcases consume_refused h with hdriver | ⟨rfl, row, hrow, hne⟩ | hwork
  · exact .driver hdriver
  · exact .conflict rfl hrow hne
  rw [lockPendingTransaction_bind] at hwork
  obtain ⟨f, ⟨x, _, hres, _⟩ | ⟨r, hr, hwork⟩⟩ := Tx.Runs.cases _ hwork
  · cases hres
    exact .driver ⟨rfl, rfl⟩
  cases Plan.lockRow_ok.mp hr
  change Tx.Runs (dialect hashtext).engine
    (whenPending event _ (d.transactions.find? event.transactionID)) d _ _ w at hwork
  cases hc : checkPending event (d.transactions.find? event.transactionID) with
  | error x =>
      rw [whenPending_error hc] at hwork
      cases hwork.1
      exact .unmatched hc
  | ok t =>
      rw [whenPending_ok hc] at hwork
      rcases Tx.Runs.errs _ hwork (settle_errs event draws t) with hdriver | rfl
      · exact .driver hdriver
      · exact .changed

theorem consumerSpec_refused {tx : DbTx hashtext (DbCommit hashtext Bool)} {c : Call}
    (h : ConsumerSpec delivery tx d (.error e) w)
    (htx : tx.Runs (dialect hashtext).engine d [] (.error e) w → Refusal d c e) :
    Refusal d c e := by
  rcases h with h | ⟨_, he, _, _, hdriver⟩
  · exact htx h
  · cases he
    exact .driver hdriver

end

/-- The error a consumer has reported. -/
theorem consumer_refused {P : Platform} {c : Call} {o : Op (dialect P.hashtext).engine Error c.Reply}
    (ho : (contract P.hashtext).Allows c o) (hc : c.claim?.isSome = true) {e : Error}
    (he : o.answer = .error e) : Refusal o.before c e := by
  rcases ho.outage_or_spec with ⟨e', he', m, rfl⟩ | hspec
  · rw [he] at he'
    cases he'
    exact .driver ⟨rfl, rfl⟩
  · rw [he] at hspec
    cases c with
    | saveConsumerOutbox => exact consumerSpec_refused hspec saveConsumerOutbox_refused
    | processRiskEvaluated => exact consumerSpec_refused hspec processRiskEvaluated_refused
    | _ => cases hc

end Clearance
