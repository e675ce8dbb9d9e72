/-
# `Clearance.Postgres.Outcome` — what the operations of the store find and write

Said once for every operation, so that no later proof looks at a statement again:
a transaction that commits has found what `Created`, `Deposited`, `Evaluated`,
`Settled` or `Refreshed` says, and leaves the writes listed there.  `Outcome`
collects them, and everything the other operations may write, under the call:

    create                 a payment, its idempotency key, its event
    createDeposit          a deposit, two ledger entries, its key, an action, its event
    saveConsumerOutbox     a claim and an event, or a refreshed claim
    processRiskEvaluated   a claim, a decision about a transaction (with two ledger
                           entries if it is authorized) and an event, or a refreshed claim
    pruneProcessedEvents   fewer claims
    upsertDeadLetter       a dead letter, or an update of one
    the others             nothing, or what only concerns delivery and operators

Operations that return an error have written nothing.
-/
import Clearance.Postgres.Contract

namespace Clearance

open Transact

section

variable {hashtext : String → Int} {α : Type} {d : Db} {w w' : List schema.Write} {a : α}

/-! ## Statements of a transaction that commits -/

/-- The database a session sees. -/
abbrev view (d : Db) (w : List schema.Write) : Db := w.foldl (@Schema.apply schema) d

/-- The transaction, executed in one go, commits and returns `a`. -/
abbrev Commits (tx : DbTx hashtext (DbCommit hashtext α)) (d : Db) (w : List schema.Write)
    (a : α) (w' : List schema.Write) : Prop :=
  tx.Runs (dialect hashtext).engine d w (.ok a) w'

theorem Commits.latch {b c : String} {e : Fault schema → Error}
    {k : Unit → DbTx hashtext (DbCommit hashtext α)}
    (h : Commits (.exec (.advisoryXactLock b c) e k) d w a w') : Commits (k ()) d w a w' := by
  obtain ⟨f, r, hx, hk⟩ := Tx.Runs.of_ok _ h
  cases hx
  simpa using hk

theorem Commits.insert {rows : List Row} {e : Fault schema → Error}
    {k : Unit → DbTx hashtext (DbCommit hashtext α)}
    (h : Commits (.exec (.insert rows) e k) d w a w') :
    Plan.Insertable (view d w) rows ∧ Commits (k ()) d (w ++ Plan.inserts rows) a w' := by
  obtain ⟨f, r, hx, hk⟩ := Tx.Runs.of_ok _ h
  obtain ⟨hi, _, rfl⟩ := Plan.insert_ok.mp hx
  exact ⟨hi, hk⟩

/-- One row. -/
theorem Commits.insert_row {t : Tab} {row : t.Row} {e : Fault schema → Error}
    {k : Unit → DbTx hashtext (DbCommit hashtext α)}
    (h : Commits (.exec (.insert [⟨t, row⟩]) e k) d w a w') :
    Tab.check row = none ∧ (∀ u ∈ @Schema.keys schema t row, Schema.taken (view d w) u = false) ∧
      Commits (k ()) d (w ++ [.insert t row]) a w' :=
  ⟨h.insert.1.1, h.insert.1.2.1, h.insert.2⟩

theorem Commits.sumLedger {b c : String} {e : Fault schema → Error}
    {k : Int → DbTx hashtext (DbCommit hashtext α)}
    (h : Commits (.exec (.sumLedger b c) e k) d w a w') :
    isBigint ((view d w).balance b c) = true ∧ Commits (k ((view d w).balance b c)) d w a w' := by
  obtain ⟨f, r, hx, hk⟩ := Tx.Runs.of_ok _ h
  obtain ⟨v, hv, rfl⟩ := Plan.read_ok.mp hx
  split at hv
  · next hb =>
      cases hv
      rw [List.append_nil] at hk
      exact ⟨hb, hk⟩
  · cases hv

/-- An update without which the transaction gives up. -/
theorem Commits.update {t : Tab} {key : t.Key} {g : t.Row → Bool} {u : t.Upd}
    {e : Fault schema → Error} {e' : Error}
    {k : Option t.Row → DbTx hashtext (DbCommit hashtext α)}
    (h : Commits (.exec (.update t key g u) e k) d w a w') (hnone : k none = .throw e') :
    ∃ row, @Schema.find? schema (view d w) t key = some row ∧ g row = true ∧
      Tab.check (Tab.upd u row) = none ∧
      Commits (k (some (Tab.upd u row))) d (w ++ [.update t key u]) a w' := by
  obtain ⟨f, r, hx, hk⟩ := Tx.Runs.of_ok _ h
  rcases Plan.updateRow_ok.mp hx with ⟨_, rfl⟩ | ⟨row, hrow, hg, hc, rfl⟩
  · rw [hnone] at hk
    cases hk.1
  · exact ⟨row, hrow, hg, hc, hk⟩

theorem Commits.ret {v : α} {e : Fault schema → Error}
    (h : Commits (.ret ⟨v, e⟩ : DbTx hashtext (DbCommit hashtext α)) d w a w') :
    a = v ∧ w' = w := by
  cases h.1
  exact ⟨rfl, h.2⟩

/-! ## Payments and deposits -/

/-- What a payment that is committed found, and wrote. -/
structure Created (record : IdempotencyRecord) (event : OutboxEvent) (now : Time) (d : Db)
    (w : List schema.Write) : Prop where
  freshTransaction : d.transactions.find? record.transaction.id = none
  freshKey : d.idempotencyKeys.find? record.key = none
  freshEvent : d.outboxEvents.find? event.id = none
  checked : Tab.check (t := .transactions) (paymentRow record.transaction now) = none
  writes : w = [.insert .transactions (paymentRow record.transaction now),
    .insert .idempotencyKeys (idempotencyRow record), .insert .outboxEvents (outboxRow event now)]

theorem create_commits {record : IdempotencyRecord} {event : OutboxEvent} {now : Time} {u : Unit}
    (h : Commits (create record event now : DbTx hashtext _) d [] u w) :
    Created record event now d w := by
  obtain ⟨hc, ht, h⟩ := Commits.insert_row (t := .transactions) h
  obtain ⟨_, hk, h⟩ := Commits.insert_row (t := .idempotencyKeys) h
  obtain ⟨_, he, h⟩ := Commits.insert_row (t := .outboxEvents) h
  exact ⟨Schema.find?_of_free ht, Schema.find?_of_free hk, Schema.find?_of_free he, hc, h.ret.2⟩

/-- The writes of ledger entries. -/
def ledgerWrites (rows : List LedgerRow) : List schema.Write :=
  rows.map fun r => .insert Tab.ledgerEntries r

def depositKeyRow (deposit : Deposit) (response : DepositResponse) : DepositKeyRow :=
  ⟨deposit.idempotencyKey, deposit.requestHash, deposit.transaction.id, response⟩

def depositAction (deposit : Deposit) (draws : DepositDraws) : ActionRow :=
  ⟨newID "act" draws.action, .deposit, deposit.transaction.id, deposit.operatorReason⟩

/-- What a deposit that is committed found, wrote and returned. -/
structure Deposited (deposit : Deposit) (event : OutboxEvent) (draws : DepositDraws) (now : Time)
    (d : Db) (response : DepositResponse) (w : List schema.Write) : Prop where
  freshTransaction : d.transactions.find? deposit.transaction.id = none
  freshReference : ∀ x ∈ (depositRow deposit.transaction).entries,
    @Schema.present schema d x = false
  checked : Tab.check (t := .transactions) (depositRow deposit.transaction) = none
  freshKey : d.depositIdempotencyKeys.find? deposit.idempotencyKey = none
  freshAction : d.operatorActions.find? (newID "act" draws.action) = none
  freshEvent : d.outboxEvents.find? event.id = none
  posted : (view d w).ledgerEntries.rows =
    d.ledgerEntries.rows ++ credit deposit.transaction draws
  returned : response = depositResponse deposit.transaction
    ((view d w).balance deposit.transaction.accountID deposit.transaction.currency)
  writes : w = [.insert .transactions (depositRow deposit.transaction)] ++
    ledgerWrites (credit deposit.transaction draws) ++
    [.insert .depositIdempotencyKeys (depositKeyRow deposit response),
     .insert .operatorActions (depositAction deposit draws),
     .insert .outboxEvents (outboxRow event now)]

theorem createDeposit_commits {deposit : Deposit} {event : OutboxEvent} {draws : DepositDraws}
    {now : Time} {response : DepositResponse}
    (h : Commits (createDeposit deposit event draws now : DbTx hashtext _) d [] response w) :
    Deposited deposit event draws now d response w := by
  have h := Commits.latch h
  obtain ⟨hc, ht, h⟩ := Commits.insert_row (t := .transactions) h
  obtain ⟨hi, h⟩ := Commits.insert h
  obtain ⟨_, h⟩ := Commits.sumLedger h
  obtain ⟨_, hk, h⟩ := Commits.insert_row (t := .depositIdempotencyKeys) h
  obtain ⟨_, ha, h⟩ := Commits.insert_row (t := .operatorActions) h
  obtain ⟨_, he, h⟩ := Commits.insert_row (t := .outboxEvents) h
  obtain ⟨rfl, rfl⟩ := h.ret
  refine ⟨Schema.find?_of_free ht, fun x hx => ?_, hc, Schema.find?_of_free hk,
    Schema.find?_of_free ha, Schema.find?_of_free he, ?_, rfl, rfl⟩
  · exact ht (.entry x) (List.mem_cons_of_mem _ (List.mem_map_of_mem hx))
  · exact @Plan.Insertable.rows schema .ledgerEntries _ _ hi

/-! ## Consumers -/

/-- What `ProcessRiskEvaluated` decides about a transaction with this balance. -/
def decisionOf (event : RiskEvaluated) (t : TransactionRow) (balance : Int) : Decision :=
  if event.approved then
    if balance < t.amountCents then rejected (insufficient event)
    else ⟨.authorized, .transactionAuthorized, event⟩
  else rejected event

/-- The entries it makes. -/
def movedBy (decision : Decision) (t : TransactionRow) (draws : LedgerDraws) : List LedgerRow :=
  if decision.status = .authorized then debit t draws else []

/-- The columns it sets. -/
def Decision.finalize (decision : Decision) (now : Time) : Finalize :=
  ⟨decision.status, decision.outcome.riskLevel, decision.outcome.reason, now⟩

/-- The event it publishes. -/
def Decision.event (decision : Decision) (t : TransactionRow) (draws : LedgerDraws) (now : Time) :
    OutboxEvent :=
  newOutboxEvent decision.eventType t.id t.accountID decision.outcome.correlationID
    (.riskEvaluated decision.outcome) draws.event now

variable {delivery : Delivery} {payloadHash : Digest} {now : Time}

/-- What a session that has written `w` and settles a transaction goes on to find and
write. -/
structure Decided (t : TransactionRow) (decision : Decision) (draws : LedgerDraws) (now : Time)
    (d : Db) (w w' : List schema.Write) : Prop where
  checked : ∃ row, (view d w).transactions.find? t.id = some row ∧
    Tab.check (t := .transactions) ((decision.finalize now).apply row) = none
  freshEvent : (view d w).outboxEvents.find? (newID "evt" draws.event) = none
  posted : (view d w').ledgerEntries.rows =
    (view d w).ledgerEntries.rows ++ movedBy decision t draws
  writes : w' = w ++ ledgerWrites (movedBy decision t draws) ++
    [.update .transactions t.id (decision.finalize now),
     .insert .outboxEvents (outboxRow (decision.event t draws now) now)]

/-- The entries have been made, if there are any. -/
theorem finalizeTransaction_commits {t : TransactionRow} {decision : Decision}
    {draws : LedgerDraws} {b : Bool}
    (h : Commits (finalizeTransaction t decision draws now : DbTx hashtext _) d
      (w ++ ledgerWrites (movedBy decision t draws)) b w')
    (hp : (view d (w ++ ledgerWrites (movedBy decision t draws))).ledgerEntries.rows =
      (view d w).ledgerEntries.rows ++ movedBy decision t draws) :
    b = true ∧ Decided t decision draws now d w w' := by
  have hother : ∀ {t' : Tab}, t' ≠ .ledgerEntries →
      ∀ x ∈ ledgerWrites (movedBy decision t draws), t' ≠ x.tab := by
    intro t' ht x hx
    obtain ⟨row, _, rfl⟩ := List.mem_map.mp hx
    exact ht
  obtain ⟨row, hrow, _, hc, h⟩ := Commits.update (t := .transactions) h rfl
  obtain ⟨_, he, h⟩ := Commits.insert_row (t := .outboxEvents) h
  obtain ⟨rfl, rfl⟩ := h.ret
  refine ⟨rfl, ⟨row, ?_, hc⟩, ?_, ?_, List.append_assoc _ _ _⟩
  · rw [view, List.foldl_append] at hrow
    refine Eq.trans (congrArg (Table.find? · t.id) ?_) hrow
    exact (@Schema.get_foldl_other schema .transactions _ (hother nofun) _).symm
  · have he := Schema.find?_of_free he
    rw [view, List.foldl_append, List.foldl_append] at he
    refine Eq.trans (congrArg (Table.find? · (newID "evt" draws.event)) ?_) he
    exact (@Schema.get_foldl_other schema .outboxEvents _ (hother nofun) _).symm
  · rw [List.append_assoc, view, List.foldl_append]
    exact hp

theorem settle_commits {event : RiskEvaluated} {draws : LedgerDraws} {t : TransactionRow}
    {b : Bool} (h : Commits (settle event draws now t : DbTx hashtext _) d w b w') :
    b = true ∧ Decided t (decisionOf event t ((view d w).balance t.accountID t.currency)) draws
      now d w w' := by
  have hrejected : ∀ {e : RiskEvaluated},
      Commits (finalizeTransaction t (rejected e) draws now : DbTx hashtext _) d w b w' →
        b = true ∧ Decided t (rejected e) draws now d w w' := by
    intro e h
    have hnil : ledgerWrites (movedBy (rejected e) t draws) = [] := rfl
    refine finalizeTransaction_commits (by rwa [hnil, List.append_nil]) ?_
    rw [hnil, List.append_nil]
    exact (List.append_nil _).symm
  cases happ : event.approved with
  | false =>
      rw [settle_rejected happ] at h
      rw [decisionOf, happ]
      exact hrejected h
  | true =>
      rw [settle_approved happ] at h
      obtain ⟨_, h⟩ := Commits.sumLedger (Commits.latch h)
      rw [decisionOf, if_pos happ]
      split at h
      · next hlt =>
          rw [if_pos hlt]
          exact hrejected h
      · next hge =>
          rw [if_neg hge]
          obtain ⟨hi, h⟩ := Commits.insert h
          refine finalizeTransaction_commits h ?_
          rw [view, List.foldl_append]
          exact @Plan.Insertable.rows schema .ledgerEntries _ _ hi

/-- An event that is claimed, or one that has been claimed before. -/
theorem consume_commits {duplicate : String} {work : DbTx hashtext (DbCommit hashtext Bool)}
    {b : Bool} (h : Commits (consume delivery payloadHash now duplicate work) d [] b w) :
    (d.processedEvents.find? (delivery.consumerName, delivery.eventID) = none ∧
        Commits work d [claimWrite delivery payloadHash now] b w) ∨
      ∃ row, d.processedEvents.find? (delivery.consumerName, delivery.eventID) = some row ∧
        row.payloadSHA256 = payloadHash ∧ b = false ∧
        w = [.update .processedEvents (delivery.consumerName, delivery.eventID) ⟨now⟩] := by
  rw [consume_eq] at h
  obtain ⟨f, r, hx, h⟩ := Tx.Runs.of_ok _ h
  obtain ⟨_, ⟨_, rfl⟩ | ⟨hk, rfl⟩⟩ := Plan.insertOrSkip_ok.mp hx
  · right
    obtain ⟨row, hrow, _, _, h⟩ := Commits.update (t := .processedEvents) h rfl
    refine ⟨row, hrow, ?_⟩
    change Commits ((if row.payloadSHA256 ≠ payloadHash then .throw _ else pure false) >>= _)
      d _ b w at h
    split at h
    · cases h.1
    · next hsame =>
        obtain ⟨rfl, rfl⟩ := Commits.ret h
        exact ⟨not_not.mp hsame, rfl, rfl⟩
  · exact Or.inl ⟨Schema.find?_of_free hk, h⟩

/-- The claim of an event that has been seen is refreshed. -/
structure Refreshed (delivery : Delivery) (payloadHash : Digest) (now : Time) (d : Db)
    (w : List schema.Write) : Prop where
  claimed : ∃ row, d.processedEvents.find? (delivery.consumerName, delivery.eventID) = some row ∧
    row.payloadSHA256 = payloadHash
  writes : w = [.update .processedEvents (delivery.consumerName, delivery.eventID) ⟨now⟩]

/-- What the risk service found and wrote when it claimed an event. -/
structure Evaluated (delivery : Delivery) (payloadHash : Digest) (event : OutboxEvent)
    (now : Time) (d : Db) (w : List schema.Write) : Prop where
  unclaimed : d.processedEvents.find? (delivery.consumerName, delivery.eventID) = none
  freshEvent : d.outboxEvents.find? event.id = none
  writes : w = [claimWrite delivery payloadHash now, .insert .outboxEvents (outboxRow event now)]

theorem saveConsumerOutbox_commits {event : OutboxEvent} {b : Bool}
    (h : Commits (saveConsumerOutbox delivery payloadHash event now : DbTx hashtext _) d [] b w) :
    (b = true ∧ Evaluated delivery payloadHash event now d w) ∨
      (b = false ∧ Refreshed delivery payloadHash now d w) := by
  rcases consume_commits h with ⟨hnew, h⟩ | ⟨row, hrow, hsame, rfl, rfl⟩
  · obtain ⟨_, he, h⟩ := Commits.insert_row (t := .outboxEvents) h
    obtain ⟨rfl, rfl⟩ := h.ret
    exact Or.inl ⟨rfl, hnew, Schema.find?_of_free he, rfl⟩
  · exact Or.inr ⟨rfl, ⟨row, hrow, hsame⟩, rfl⟩

/-- What the ledger service found and wrote when it claimed an event. -/
structure Settled (delivery : Delivery) (payloadHash : Digest) (event : RiskEvaluated)
    (draws : LedgerDraws) (now : Time) (d : Db) (t : TransactionRow) (w : List schema.Write) :
    Prop where
  unclaimed : d.processedEvents.find? (delivery.consumerName, delivery.eventID) = none
  found : d.transactions.find? event.transactionID = some t
  pending : t.status = .pending
  account : t.accountID = event.accountID
  amount : t.amountCents = event.amountCents
  currency : t.currency = event.currency
  decided : Decided t (decisionOf event t (d.balance t.accountID t.currency)) draws now d
    [claimWrite delivery payloadHash now] w

theorem processRiskEvaluated_commits {event : RiskEvaluated} {draws : LedgerDraws} {b : Bool}
    (h : Commits (processRiskEvaluated delivery payloadHash event draws now : DbTx hashtext _) d []
      b w) :
    (b = true ∧ ∃ t, Settled delivery payloadHash event draws now d t w) ∨
      (b = false ∧ Refreshed delivery payloadHash now d w) := by
  rcases consume_commits h with ⟨hnew, h⟩ | ⟨row, hrow, hsame, rfl, rfl⟩
  · rw [lockPendingTransaction_bind] at h
    obtain ⟨f, r, hx, h⟩ := Tx.Runs.of_ok _ h
    cases Plan.lockRow_ok.mp hx
    have h : Commits (whenPending event (settle event draws now : _ → DbTx hashtext _)
      (d.transactions.find? event.transactionID)) d [claimWrite delivery payloadHash now] b w := h
    cases hc : checkPending event (d.transactions.find? event.transactionID) with
    | error e =>
        rw [whenPending_error hc] at h
        cases h.1
    | ok t =>
        rw [whenPending_ok hc] at h
        obtain ⟨hfound, hp, ha, hm, hcur⟩ := checkPending_ok.mp hc
        obtain ⟨rfl, hdec⟩ := settle_commits h
        exact Or.inl ⟨rfl, t, hnew, hfound, hp, ha, hm, hcur, hdec⟩
  · exact Or.inr ⟨rfl, ⟨row, hrow, hsame⟩, rfl⟩

/-! ## Every operation -/

/-- Writes that only matter to the delivery of messages and to operators. -/
def AsideWrite : schema.Write → Prop
  | .update .outboxEvents _ _ | .update .deadLetterMessages _ _ => True
  | .insert .operatorActions r => ActionRow.actionType r ≠ .deposit
  | x => x.tab = .deadLetterReplayAttempts

theorem AsideWrite.of_tab {x : schema.Write} (h : x.tab = .deadLetterReplayAttempts) :
    AsideWrite x := by
  cases x with
  | insert t r => cases h; rfl
  | update t k u => cases h; rfl
  | delete t k hp => cases h; rfl

/-- What an operation may write on `d`. -/
inductive Outcome (d : Db) : Call → List schema.Write → Prop
  | aside {c w} : (∀ x ∈ w, AsideWrite x) → Outcome d c w
  | created {record event now w} : Created record event now d w →
      Outcome d (.create record event now) w
  | deposited {deposit event draws now response w} :
      Deposited deposit event draws now d response w →
      Outcome d (.createDeposit deposit event draws now) w
  | evaluated {delivery payloadHash event now w} :
      Evaluated delivery payloadHash event now d w →
      Outcome d (.saveConsumerOutbox delivery payloadHash event now) w
  | settled {delivery payloadHash event draws now t w} :
      Settled delivery payloadHash event draws now d t w →
      Outcome d (.processRiskEvaluated delivery payloadHash event draws now) w
  | refreshed {c delivery payloadHash now w} : Refreshed delivery payloadHash now d w →
      Outcome d c w
  | pruned {cutoff batchSize reason target action w} : (∀ x ∈ w, PruneWrite x) →
      Outcome d (.pruneProcessedEvents cutoff batchSize reason target action) w
  | recorded {record w} : w = [.insert .deadLetterMessages (DeadLetter.row record)] →
      Outcome d (.upsertDeadLetter record) w

theorem Outcome.nil {d : Db} {c : Call} : Outcome d c [] := .aside (List.forall_mem_nil _)

/-- An operation that is one statement. -/
theorem single_runs {ρ : Type} {m : DbMethod hashtext ρ} {s : Stmt} {message : String}
    {k : s.Reply → Except Error ρ} {res : Except Error ρ} (hm : m = single s message k)
    (h : m.Runs (dialect hashtext).engine d res w) :
    (∃ f x, (s.plan f d : DbPlan hashtext s.Reply).result = .error x ∧
        res = .error (failing message x) ∧ w = []) ∨
      ∃ f r, (s.plan f d : DbPlan hashtext s.Reply).result = .ok r ∧ res = k r.reply ∧
        w = r.writes := by
  subst hm
  obtain ⟨f, h⟩ := h
  cases hx : (s.plan f d : DbPlan hashtext s.Reply).result with
  | error x =>
      have hx' : (dialect hashtext).engine.exec s f d = .error x := hx
      rw [hx'] at h
      exact Or.inl ⟨f, x, hx, h⟩
  | ok r =>
      have hx' : (dialect hashtext).engine.exec s f d = .ok r := hx
      rw [hx'] at h
      exact Or.inr ⟨f, r, hx, h⟩

theorem outcome_of_single {c : Call} {ρ : Type} {m : DbMethod hashtext ρ} {s : Stmt}
    {message : String} {k : s.Reply → Except Error ρ} {res : Except Error ρ}
    (hm : m = single s message k) (h : m.Runs (dialect hashtext).engine d res w)
    (hs : ∀ f r, (s.plan f d : DbPlan hashtext s.Reply).result = .ok r → Outcome d c r.writes) :
    Outcome d c w := by
  rcases single_runs hm h with ⟨_, _, _, _, rfl⟩ | ⟨f, r, hx, _, rfl⟩
  · exact .nil
  · exact hs f r hx

theorem outcome_of_tx {c : Call} {ρ : Type} {tx : DbTx hashtext (DbCommit hashtext ρ)}
    {res : Except Error ρ} (h : tx.Runs (dialect hashtext).engine d [] res w)
    (hok : ∀ a, Commits tx d [] a w → Outcome d c w) : Outcome d c w := by
  cases res with
  | error e =>
      rw [Tx.Runs.writes_nil _ h]
      exact .nil
  | ok a => exact hok a h

theorem outcome_of_consumer {c : Call} {tx : DbTx hashtext (DbCommit hashtext Bool)}
    {res : Except Error Bool} (h : ConsumerSpec delivery tx d res w)
    (hok : ∀ a, Commits tx d [] a w → Outcome d c w) : Outcome d c w := by
  rcases h with h | ⟨_, _, rfl, _⟩
  · exact outcome_of_tx h hok
  · exact .nil

theorem outcome_of_read {c : Call} {ρ : Type} {m : DbMethod hashtext ρ} {s : Stmt}
    {message : String} {k : s.Reply → Except Error ρ} {res : Except Error ρ}
    (hm : m = single s message k) (h : m.Runs (dialect hashtext).engine d res w)
    (hs : ∀ f, ∃ a, (s.plan f d : DbPlan hashtext s.Reply) = .read a) : Outcome d c w := by
  refine outcome_of_single hm h fun f r hr => ?_
  obtain ⟨a, ha⟩ := hs f
  rw [ha] at hr
  obtain ⟨v, _, rfl⟩ := Plan.read_ok.mp hr
  exact .nil

theorem outcome_of_update {c : Call} {ρ : Type} {m : DbMethod hashtext ρ} {t : Tab} {key : t.Key}
    {g : t.Row → Bool} {u : t.Upd} {message : String} {k : Option t.Row → Except Error ρ}
    {res : Except Error ρ} (hm : m = single (.update t key g u) message k)
    (h : m.Runs (dialect hashtext).engine d res w) (ht : AsideWrite (.update t key u)) :
    Outcome d c w := by
  refine outcome_of_single hm h fun f r hr => .aside ?_
  rcases Plan.updateRow_ok.mp hr with ⟨_, rfl⟩ | ⟨row, _, _, _, rfl⟩
  · exact List.forall_mem_nil _
  · exact List.forall_mem_singleton.mpr ht

/-- A dead letter that is recorded for the first time. -/
structure Recorded (d : Db) (row reply : DeadLetterRow) (w : List schema.Write) : Prop where
  valid : row.fault? = none
  freshSource : d.deadLetterMessages.rows.find? (sameSource row) = none
  freshID : d.deadLetterMessages.find? row.id = none
  reply : reply = row
  writes : w = [.insert .deadLetterMessages row]

/-- A dead letter that is recorded already. -/
structure FailedAgain (d : Db) (row old reply : DeadLetterRow) (w : List schema.Write) :
    Prop where
  valid : row.fault? = none
  found : d.deadLetterMessages.rows.find? (sameSource row) = some old
  checked : firstViolated ((excluded row).apply old).checks = none
  reply : reply = (excluded row).apply old
  writes : w = [.update .deadLetterMessages old.id (excluded row)]

/-- A successful upsert: a new record, or an update of the old one. -/
theorem planUpsertDeadLetter_ok {row : DeadLetterRow}
    {r : Effect schema.Write (DbLock hashtext) DeadLetterRow}
    (h : (planUpsertDeadLetter d row).result = .ok r) :
    Recorded d row r.reply r.writes ∨ ∃ old, FailedAgain d row old r.reply r.writes := by
  unfold planUpsertDeadLetter at h
  split at h
  · cases h
  · next hv =>
      split at h
      · next old hold =>
          split at h
          · cases h
          · next hc =>
              cases h
              exact Or.inr ⟨old, hv, hold, hc, rfl, rfl⟩
      · next hsource =>
          split at h
          · cases h
          · next hid =>
              cases h
              exact Or.inl ⟨hv, hsource, by simpa using hid, rfl, rfl⟩

/-- An upsert that fails: the record itself does not fit, or the old one, or another
record has taken its id. -/
theorem planUpsertDeadLetter_error {row : DeadLetterRow} {e : Fault schema}
    (h : (planUpsertDeadLetter d row : DbPlan hashtext DeadLetterRow).result = .error e) :
    row.fault? = some e ∨
      (∃ old c, d.deadLetterMessages.rows.find? (sameSource row) = some old ∧
        firstViolated ((excluded row).apply old).checks = some c) ∨
      (d.deadLetterMessages.rows.find? (sameSource row) = none ∧
        (d.deadLetterMessages.find? row.id).isSome = true) := by
  unfold planUpsertDeadLetter at h
  split at h
  · next e' hv =>
      cases h
      exact Or.inl hv
  · split at h
    · next old hold =>
        split at h
        · next c hc => exact Or.inr (Or.inl ⟨old, c, hold, hc⟩)
        · cases h
    · next hsource =>
        split at h
        · next hid => exact Or.inr (Or.inr ⟨hsource, hid⟩)
        · cases h

theorem requeueOutbox_commits {id reason : String} {action : Random} {u : Unit}
    (h : Commits (requeueOutbox id reason action now : DbTx hashtext _) d [] u w) :
    (∃ row, d.outboxEvents.find? id = some row ∧ row.status = .deadLettered) ∧
      w = [.update .outboxEvents id (.requeue now),
        .insert .operatorActions ⟨newID "act" action, .outboxRequeue, id, reason⟩] := by
  obtain ⟨row, hrow, hg, _, h⟩ := Commits.update (t := .outboxEvents) h rfl
  obtain ⟨_, _, h⟩ := Commits.insert_row (t := .operatorActions) h
  exact ⟨⟨row, hrow, by simpa using hg⟩, h.ret.2⟩

/-- What the end of a replay found, and wrote. -/
structure Finished (attemptID deadLetterID : String) (result : ReplayResult)
    (errorMessage : String) (action : Random) (now : Time) (d : Db) (attempt : ReplayRow)
    (w : List schema.Write) : Prop where
  found : d.deadLetterReplayAttempts.find? attemptID = some attempt
  pending : attempt.result = .pending
  opened : result = .published →
    ∃ row, d.deadLetterMessages.find? deadLetterID = some row ∧ row.state = .opened
  freshAction : result = .published → d.operatorActions.find? (newID "act" action) = none
  writes : w = .update .deadLetterReplayAttempts attemptID
      ⟨attempt.deadLetterID, result.column, nullIfEmpty errorMessage, now⟩ ::
    match result with
    | .failed => []
    | .published =>
        [.update .deadLetterMessages deadLetterID .republished,
         .insert .operatorActions ⟨newID "act" action, .dlqReplay, deadLetterID, attempt.reason⟩]

theorem finishDeadLetterReplay_commits {attemptID deadLetterID errorMessage : String}
    {result : ReplayResult} {action : Random} {u : Unit}
    (h : Commits (finishDeadLetterReplay attemptID deadLetterID result errorMessage action now :
      DbTx hashtext _) d [] u w) :
    ∃ attempt, Finished attemptID deadLetterID result errorMessage action now d attempt w := by
  obtain ⟨f, r, hx, h⟩ := Tx.Runs.of_ok _ h
  rcases planFinishReplay_ok.mp hx with ⟨_, rfl⟩ | ⟨attempt, hfound, _, rfl⟩
  · cases h.1
  · obtain ⟨hfound, hpend⟩ := Option.filter_eq_some_iff.mp hfound
    have hpend : attempt.result = .pending := by simpa using hpend
    refine ⟨attempt, ?_⟩
    cases result with
    | failed => exact ⟨hfound, hpend, nofun, nofun, (Commits.ret h).2⟩
    | published =>
        obtain ⟨row, hrow, hg, _, h⟩ := Commits.update (t := .deadLetterMessages) h rfl
        obtain ⟨_, ha, h⟩ := Commits.insert_row (t := .operatorActions) h
        refine ⟨hfound, hpend, fun _ => ⟨row, hrow, by simpa using hg⟩, fun _ => ?_, ?_⟩
        · exact Schema.find?_of_free ha
        · rw [h.ret.2]
          simp [ReplayUpdate.apply]

/-- A replay whose attempt is pending ends in an error only if the database fails or the dead
letter is not open. -/
theorem finishDeadLetterReplay_refused {attemptID deadLetterID errorMessage : String}
    {action : Random} {e : Error} {attempt : ReplayRow} {row : DeadLetterRow}
    (h : (finishDeadLetterReplay attemptID deadLetterID .published errorMessage action now :
      DbTx hashtext _).Runs (dialect hashtext).engine d [] (.error e) w)
    (hfound : d.deadLetterReplayAttempts.find? attemptID = some attempt)
    (hpend : attempt.result = .pending)
    (hrow : d.deadLetterMessages.find? deadLetterID = some row) :
    (∃ message x, e = failing message x) ∨ row.state ≠ .opened := by
  obtain ⟨f, ⟨x, _, he, _⟩ | ⟨r, hx, h⟩⟩ := Tx.Runs.cases _ h
  · cases he
    exact Or.inl ⟨_, _, rfl⟩
  rcases planFinishReplay_ok.mp hx with ⟨hnone, rfl⟩ | ⟨_, _, _, rfl⟩
  · change (d.deadLetterReplayAttempts.find? attemptID).filter _ = none at hnone
    rw [hfound, Option.filter_some, hpend] at hnone
    cases hnone
  obtain ⟨f', ⟨x, _, he, _⟩ | ⟨r', hx', h⟩⟩ := Tx.Runs.cases _ h
  · cases he
    exact Or.inl ⟨_, _, rfl⟩
  rcases Plan.updateRow_ok.mp hx' with ⟨hnone, rfl⟩ | ⟨_, _, _, _, rfl⟩
  · refine Or.inr fun hopen => ?_
    change (d.deadLetterMessages.find? deadLetterID).filter _ = none at hnone
    rw [hrow, Option.filter_some, hopen] at hnone
    cases hnone
  obtain ⟨_, ⟨x, _, he, _⟩ | ⟨_, _, h⟩⟩ := Tx.Runs.cases _ h
  · cases he
    exact Or.inl ⟨_, _, rfl⟩
  · cases h.1

theorem Finished.aside {attemptID deadLetterID errorMessage : String} {result : ReplayResult}
    {action : Random} {attempt : ReplayRow}
    (h : Finished attemptID deadLetterID result errorMessage action now d attempt w) :
    ∀ x ∈ w, AsideWrite x := by
  rw [h.writes]
  refine List.forall_mem_cons.mpr ⟨rfl, ?_⟩
  cases result with
  | failed => exact List.forall_mem_nil _
  | published => exact List.forall_mem_cons.mpr ⟨trivial, List.forall_mem_singleton.mpr nofun⟩

/-- What any operation of the store may write. -/
theorem storeSpec_outcome {c : Call} {res : Except Error c.Reply}
    (h : (contract hashtext).spec c d res w) : Outcome d c w := by
  cases c with
  | findIdempotency key =>
      exact outcome_of_read (m := methodOf (.findIdempotency key)) rfl h fun _ => ⟨_, rfl⟩
  | findDepositIdempotency key =>
      exact outcome_of_read (m := methodOf (.findDepositIdempotency key)) rfl h fun _ => ⟨_, rfl⟩
  | isEventProcessed eventID =>
      exact outcome_of_read (m := methodOf (.isEventProcessed eventID)) rfl h fun _ => ⟨_, rfl⟩
  | getOutboxStatus id =>
      exact outcome_of_read (m := methodOf (.getOutboxStatus id)) rfl h fun _ => ⟨_, rfl⟩
  | getDeadLetter id =>
      exact outcome_of_read (m := methodOf (.getDeadLetter id)) rfl h fun _ => ⟨_, rfl⟩
  | markPublished eventID now =>
      exact outcome_of_update (m := methodOf (.markPublished eventID now)) rfl h trivial
  | markFailedAttempt eventID maxAttempts now =>
      exact outcome_of_update (m := methodOf (.markFailedAttempt eventID maxAttempts now)) rfl h trivial
  | markDeadLetterPublished id publishedAt =>
      exact outcome_of_update (m := methodOf (.markDeadLetterPublished id publishedAt)) rfl h trivial
  | nextPending now =>
      refine outcome_of_single (m := methodOf (.nextPending now)) rfl h fun f r hr => .aside ?_
      rcases planClaimOutbox_ok hr with rfl | ⟨row, _, rfl⟩
      · exact List.forall_mem_nil _
      · exact List.forall_mem_singleton.mpr trivial
  | upsertDeadLetter record =>
      refine outcome_of_single (m := methodOf (.upsertDeadLetter record)) rfl h fun f r hr => ?_
      rcases planUpsertDeadLetter_ok hr with h | ⟨old, h⟩
      · exact .recorded h.writes
      · rw [h.writes]
        exact .aside (List.forall_mem_singleton.mpr trivial)
  | create record event now => exact outcome_of_tx h fun _ h => .created (create_commits h)
  | createDeposit deposit event draws now =>
      exact outcome_of_tx h fun _ h => .deposited (createDeposit_commits h)
  | requeueOutbox id reason action now =>
      refine outcome_of_tx h fun _ h => .aside ?_
      rw [(requeueOutbox_commits h).2]
      exact List.forall_mem_cons.mpr ⟨trivial, List.forall_mem_singleton.mpr nofun⟩
  | finishDeadLetterReplay attemptID deadLetterID result errorMessage action now =>
      refine outcome_of_tx h fun _ h => ?_
      obtain ⟨attempt, h⟩ := finishDeadLetterReplay_commits h
      exact .aside h.aside
  | saveConsumerOutbox delivery payloadHash event now =>
      refine outcome_of_consumer h fun _ h => ?_
      rcases saveConsumerOutbox_commits h with ⟨_, h⟩ | ⟨_, h⟩
      · exact .evaluated h
      · exact .refreshed h
  | processRiskEvaluated delivery payloadHash event draws now =>
      refine outcome_of_consumer h fun _ h => ?_
      rcases processRiskEvaluated_commits h with ⟨_, t, h⟩ | ⟨_, h⟩
      · exact .settled h
      · exact .refreshed h
  | pruneProcessedEvents cutoff batchSize reason target action => exact .pruned h.1
  | startDeadLetterReplay id reason attempt now =>
      rcases h with ⟨_, _, rfl⟩ | ⟨_, rows, _, rfl⟩
      · exact .nil
      · refine .aside fun x hx => AsideWrite.of_tab ?_
        rcases List.mem_append.mp hx with hx | hx
        · obtain ⟨r, _, rfl⟩ := List.mem_map.mp hx
          rfl
        · rw [List.mem_singleton.mp hx]
          rfl

/-! ## Where an operation writes -/

/-- The tables an operation may write to, besides the actions. -/
def Call.tabs : Call → List Tab
  | .create .. => [.transactions, .idempotencyKeys, .outboxEvents]
  | .createDeposit .. => [.transactions, .ledgerEntries, .depositIdempotencyKeys, .outboxEvents]
  | .saveConsumerOutbox .. => [.processedEvents, .outboxEvents]
  | .processRiskEvaluated .. => [.processedEvents, .ledgerEntries, .transactions, .outboxEvents]
  | .pruneProcessedEvents .. => [.processedEvents]
  | .nextPending .. | .markPublished .. | .markFailedAttempt .. | .requeueOutbox .. =>
      [.outboxEvents]
  | .upsertDeadLetter .. | .markDeadLetterPublished .. => [.deadLetterMessages]
  | .startDeadLetterReplay .. => [.deadLetterReplayAttempts]
  | .finishDeadLetterReplay .. => [.deadLetterReplayAttempts, .deadLetterMessages]
  | .findIdempotency .. | .findDepositIdempotency .. | .isEventProcessed .. | .getOutboxStatus ..
  | .getDeadLetter .. => []

/-- The action an operation records. -/
def Call.action : Call → Option ActionType
  | .createDeposit .. => some .deposit
  | .pruneProcessedEvents .. => some .processedPrune
  | .requeueOutbox .. => some .outboxRequeue
  | .finishDeadLetterReplay .. => some .dlqReplay
  | _ => none

/-- A write an operation may make. -/
def Call.Touches (c : Call) : schema.Write → Prop
  | .insert .operatorActions r => c.action = some (ActionRow.actionType r)
  | x => x.tab ∈ c.tabs

theorem touches_of_single {c : Call} {ρ : Type} {m : DbMethod hashtext ρ} {s : Stmt}
    {message : String} {k : s.Reply → Except Error ρ} {res : Except Error ρ}
    (hm : m = single s message k) (h : m.Runs (dialect hashtext).engine d res w)
    (hs : ∀ f r, (s.plan f d : DbPlan hashtext s.Reply).result = .ok r →
      ∀ x ∈ r.writes, c.Touches x) : ∀ x ∈ w, c.Touches x := by
  rcases single_runs hm h with ⟨_, _, _, _, rfl⟩ | ⟨f, r, hr, _, rfl⟩
  · exact List.forall_mem_nil _
  · exact hs f r hr

theorem touches_of_read {c : Call} {ρ : Type} {m : DbMethod hashtext ρ} {s : Stmt}
    {message : String} {k : s.Reply → Except Error ρ} {res : Except Error ρ}
    (hm : m = single s message k) (h : m.Runs (dialect hashtext).engine d res w)
    (hs : ∀ f, ∃ a, (s.plan f d : DbPlan hashtext s.Reply) = .read a) :
    ∀ x ∈ w, c.Touches x := by
  refine touches_of_single hm h fun f r hr => ?_
  obtain ⟨a, ha⟩ := hs f
  rw [ha] at hr
  obtain ⟨v, _, rfl⟩ := Plan.read_ok.mp hr
  exact List.forall_mem_nil _

theorem touches_of_update {c : Call} {ρ : Type} {m : DbMethod hashtext ρ} {t : Tab} {key : t.Key}
    {g : t.Row → Bool} {u : t.Upd} {message : String} {k : Option t.Row → Except Error ρ}
    {res : Except Error ρ} (hm : m = single (.update t key g u) message k)
    (h : m.Runs (dialect hashtext).engine d res w) (ht : t ∈ c.tabs) : ∀ x ∈ w, c.Touches x := by
  refine touches_of_single hm h fun f r hr => ?_
  rcases Plan.updateRow_ok.mp hr with ⟨_, rfl⟩ | ⟨row, _, _, _, rfl⟩
  · exact List.forall_mem_nil _
  · exact List.forall_mem_singleton.mpr ht

theorem touches_of_tx {c : Call} {ρ : Type} {tx : DbTx hashtext (DbCommit hashtext ρ)}
    {res : Except Error ρ} (h : tx.Runs (dialect hashtext).engine d [] res w)
    (hok : ∀ a, Commits tx d [] a w → ∀ x ∈ w, c.Touches x) : ∀ x ∈ w, c.Touches x := by
  cases res with
  | error e =>
      rw [Tx.Runs.writes_nil _ h]
      exact List.forall_mem_nil _
  | ok a => exact hok a h

theorem touches_of_consumer {c : Call} {tx : DbTx hashtext (DbCommit hashtext Bool)}
    {res : Except Error Bool} (h : ConsumerSpec delivery tx d res w)
    (hok : ∀ a, Commits tx d [] a w → ∀ x ∈ w, c.Touches x) : ∀ x ∈ w, c.Touches x := by
  rcases h with h | ⟨_, _, rfl, _⟩
  · exact touches_of_tx h hok
  · exact List.forall_mem_nil _

theorem Call.touches_ledgerWrites {c : Call} (h : .ledgerEntries ∈ c.tabs) (rows : List LedgerRow) :
    ∀ x ∈ ledgerWrites rows, c.Touches x := by
  intro x hx
  obtain ⟨row, _, rfl⟩ := List.mem_map.mp hx
  exact h

/-- Every operation writes to its own tables only. -/
theorem storeSpec_touches {c : Call} {res : Except Error c.Reply}
    (h : (contract hashtext).spec c d res w) : ∀ x ∈ w, c.Touches x := by
  cases c with
  | findIdempotency key =>
      exact touches_of_read (m := methodOf (.findIdempotency key)) rfl h fun _ => ⟨_, rfl⟩
  | findDepositIdempotency key =>
      exact touches_of_read (m := methodOf (.findDepositIdempotency key)) rfl h fun _ => ⟨_, rfl⟩
  | isEventProcessed eventID =>
      exact touches_of_read (m := methodOf (.isEventProcessed eventID)) rfl h fun _ => ⟨_, rfl⟩
  | getOutboxStatus id =>
      exact touches_of_read (m := methodOf (.getOutboxStatus id)) rfl h fun _ => ⟨_, rfl⟩
  | getDeadLetter id =>
      exact touches_of_read (m := methodOf (.getDeadLetter id)) rfl h fun _ => ⟨_, rfl⟩
  | markPublished eventID now =>
      exact touches_of_update (m := methodOf (.markPublished eventID now)) rfl h
        (.head _)
  | markFailedAttempt eventID maxAttempts now =>
      exact touches_of_update (m := methodOf (.markFailedAttempt eventID maxAttempts now)) rfl h
        (List.mem_singleton_self _)
  | markDeadLetterPublished id publishedAt =>
      exact touches_of_update (m := methodOf (.markDeadLetterPublished id publishedAt)) rfl h
        (List.mem_singleton_self _)
  | nextPending now =>
      refine touches_of_single (m := methodOf (.nextPending now)) rfl h fun f r hr => ?_
      rcases planClaimOutbox_ok hr with rfl | ⟨row, _, rfl⟩
      · exact List.forall_mem_nil _
      · exact List.forall_mem_singleton.mpr (List.mem_singleton_self _)
  | upsertDeadLetter record =>
      refine touches_of_single (m := methodOf (.upsertDeadLetter record)) rfl h fun f r hr => ?_
      rcases planUpsertDeadLetter_ok hr with h | ⟨old, h⟩
      · rw [h.writes]
        exact List.forall_mem_singleton.mpr (List.mem_singleton_self _)
      · rw [h.writes]
        exact List.forall_mem_singleton.mpr (List.mem_singleton_self _)
  | create record event now =>
      refine touches_of_tx h fun _ h => ?_
      rw [(create_commits h).writes]
      simp only [List.forall_mem_cons]
      exact ⟨.head _, .tail _ (.head _), .tail _ (.tail _ (.head _)), List.forall_mem_nil _⟩
  | createDeposit deposit event draws now =>
      refine touches_of_tx h fun _ h => ?_
      rw [(createDeposit_commits h).writes]
      simp only [List.forall_mem_append, List.forall_mem_cons]
      refine ⟨⟨⟨.head _, List.forall_mem_nil _⟩, ?_⟩, .tail _ (.tail _ (.head _)), rfl,
        .tail _ (.tail _ (.tail _ (.head _))), List.forall_mem_nil _⟩
      exact Call.touches_ledgerWrites (.tail _ (.head _)) _
  | requeueOutbox id reason action now =>
      refine touches_of_tx h fun _ h => ?_
      rw [(requeueOutbox_commits h).2]
      simp only [List.forall_mem_cons]
      exact ⟨.head _, rfl, List.forall_mem_nil _⟩
  | finishDeadLetterReplay attemptID deadLetterID result errorMessage action now =>
      refine touches_of_tx h fun _ h => ?_
      obtain ⟨attempt, h⟩ := finishDeadLetterReplay_commits h
      rw [h.writes]
      refine List.forall_mem_cons.mpr ⟨.head _, ?_⟩
      cases result with
      | failed => exact List.forall_mem_nil _
      | published =>
          simp only [List.forall_mem_cons]
          exact ⟨.tail _ (.head _), rfl, List.forall_mem_nil _⟩
  | saveConsumerOutbox delivery payloadHash event now =>
      refine touches_of_consumer h fun _ h => ?_
      rcases saveConsumerOutbox_commits h with ⟨_, h⟩ | ⟨_, h⟩
      · rw [h.writes]
        simp only [List.forall_mem_cons]
        exact ⟨.head _, .tail _ (.head _), List.forall_mem_nil _⟩
      · rw [h.writes]
        exact List.forall_mem_singleton.mpr (.head _)
  | processRiskEvaluated delivery payloadHash event draws now =>
      refine touches_of_consumer h fun _ h => ?_
      rcases processRiskEvaluated_commits h with ⟨_, t, h⟩ | ⟨_, h⟩
      · rw [h.decided.writes]
        simp only [List.forall_mem_append, List.forall_mem_cons]
        refine ⟨⟨⟨.head _, List.forall_mem_nil _⟩, ?_⟩, .tail _ (.tail _ (.head _)),
          .tail _ (.tail _ (.tail _ (.head _))), List.forall_mem_nil _⟩
        exact Call.touches_ledgerWrites (.tail _ (.head _)) _
      · rw [h.writes]
        exact List.forall_mem_singleton.mpr (.head _)
  | pruneProcessedEvents cutoff batchSize reason target action =>
      intro x hx
      have hx := h.1 x hx
      unfold PruneWrite at hx
      split at hx
      · exact List.mem_singleton_self _
      · exact congrArg some hx.symm
      · exact hx.elim
  | startDeadLetterReplay id reason attempt now =>
      rcases h with ⟨_, _, rfl⟩ | ⟨_, rows, _, rfl⟩
      · exact List.forall_mem_nil _
      · rw [startWrites, List.forall_mem_append, List.forall_mem_map]
        exact ⟨fun _ _ => List.mem_singleton_self _,
          List.forall_mem_singleton.mpr (List.mem_singleton_self _)⟩

theorem Call.Touches.ne_tab {c : Call} {x : schema.Write} (h : c.Touches x) {t : Tab}
    (ht : t ∉ c.tabs) (ha : t ≠ .operatorActions) : t ≠ x.tab := by
  rintro rfl
  unfold Call.Touches at h
  split at h
  · exact ha rfl
  · exact ht h

/-- The other tables stay as they are. -/
theorem get_of_touches {c : Call} (h : ∀ x ∈ w, c.Touches x) {t : Tab} (ht : t ∉ c.tabs)
    (ha : t ≠ .operatorActions) : (view d w).get t = d.get t :=
  @Schema.get_foldl_other schema t w (fun x hx => (h x hx).ne_tab ht ha) d

/-- So do the actions of another kind. -/
theorem actions_of_touches {c : Call} (h : ∀ x ∈ w, c.Touches x) {a : ActionType}
    (ha : c.action ≠ some a) :
    (view d w).operatorActions.rows.filter (fun r => r.actionType == a) =
      d.operatorActions.rows.filter fun r => r.actionType == a := by
  induction w generalizing d with
  | nil => rfl
  | cons x w ih =>
      refine (ih fun y hy => h y (List.mem_cons_of_mem x hy)).trans ?_
      have hx := h x List.mem_cons_self
      by_cases ht : Tab.operatorActions = x.tab
      · cases x with
        | insert t r =>
            cases ht
            refine Table.filter_insert (t := d.operatorActions) (beq_eq_false_iff_ne.mpr ?_)
            rintro rfl
            exact ha hx
        | update t k u =>
            cases ht
            cases u
        | delete t k hp =>
            cases ht
            cases hp
      · have hget : (@Schema.apply schema d x).operatorActions = d.operatorActions :=
          @Schema.get_apply_other schema d x .operatorActions ht
        rw [hget]

end

end Clearance
