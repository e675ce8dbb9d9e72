/-
# `Clearance.Books` — what the services are for

`Books` is the database as an accountant would look at it: transactions, ledger
entries, the requests that caused them, the events that followed from them, and
the events that have been dealt with.  When an event was sent, how often it was
retried, when a message was last seen, what operators did about dead letters: all
of that is left out.  The rows of a table are listed in the order they came in.

`Books.Step` says how the books move, one rule per operation that moves them:

    created     a transaction, its idempotency key, an event
    deposited   a transaction, its two entries, its key, an action, an event
    evaluated   a claim and an event
    settled     a pending transaction is decided: a claim, an event, and two entries
                if there was money enough
    pruned      claims are forgotten

`Outcome.step` is the refinement: whatever an operation of the store does to the
database is one such step of the books, or leaves them alone.
-/
import Clearance.Postgres.Outcome
import Clearance.Transact.Tally

namespace Clearance

open Transact

/-- An event, apart from its delivery. -/
structure Event where
  id : String
  type : EventType
  aggregateID : String
  partitionKey : String
  correlationID : String
  payload : Payload
  deriving DecidableEq

def OutboxEvent.content (e : OutboxEvent) : Event :=
  ⟨e.id, e.type, e.aggregateID, e.partitionKey, e.correlationID, e.payload⟩

def OutboxRow.content (r : OutboxRow) : Event :=
  ⟨r.id, r.eventType, r.aggregateID, r.partitionKey, r.correlationID, r.payload⟩

/-- An event a consumer has dealt with. -/
structure Claim where
  consumerName : String
  eventID : String
  payloadSHA256 : Digest
  deriving DecidableEq

def ProcessedRow.claim (r : ProcessedRow) : Claim := ⟨r.consumerName, r.eventID, r.payloadSHA256⟩

structure Books where
  transactions : List TransactionRow
  ledger : List LedgerRow
  keys : List IdempotencyRow
  depositKeys : List DepositKeyRow
  events : List Event
  claims : List Claim
  depositActions : List ActionRow

/-- The books a database keeps. -/
def Db.books (d : Db) : Books where
  transactions := d.transactions.rows
  ledger := d.ledgerEntries.rows
  keys := d.idempotencyKeys.rows
  depositKeys := d.depositIdempotencyKeys.rows
  events := d.outboxEvents.rows.map OutboxRow.content
  claims := d.processedEvents.rows.map ProcessedRow.claim
  depositActions := d.operatorActions.rows.filter fun r => r.actionType == .deposit

/-- The sum of the entries of an account and a currency. -/
def total (rows : List LedgerRow) (accountID currency : String) : Int :=
  tally (fun r => r.accountID == accountID && r.currency == currency) LedgerRow.amountCents rows

namespace Books

def balance (b : Books) (accountID currency : String) : Int := total b.ledger accountID currency

/-- How the books move. -/
inductive Step (b : Books) : Call → Books → Prop
  | idle {c : Call} : Step b c b
  | created {record : IdempotencyRecord} {event : OutboxEvent} {now : Time} :
      (∀ t ∈ b.transactions, t.id ≠ record.transaction.id) →
      (∀ k ∈ b.keys, k.key ≠ record.key) →
      (∀ e ∈ b.events, e.id ≠ event.id) →
      Tab.check (t := .transactions) (paymentRow record.transaction now) = none →
      Step b (.create record event now)
        { b with
          transactions := b.transactions ++ [paymentRow record.transaction now]
          keys := b.keys ++ [idempotencyRow record]
          events := b.events ++ [event.content] }
  | deposited {deposit : Deposit} {event : OutboxEvent} {draws : DepositDraws} {now : Time}
      {response : DepositResponse} :
      (∀ t ∈ b.transactions, t.id ≠ deposit.transaction.id) →
      (∀ t ∈ b.transactions, (depositRow deposit.transaction).entries.Disjoint t.entries) →
      (∀ k ∈ b.depositKeys, k.key ≠ deposit.idempotencyKey) →
      (∀ e ∈ b.events, e.id ≠ event.id) →
      Tab.check (t := .transactions) (depositRow deposit.transaction) = none →
      Step b (.createDeposit deposit event draws now)
        { b with
          transactions := b.transactions ++ [depositRow deposit.transaction]
          ledger := b.ledger ++ credit deposit.transaction draws
          depositKeys := b.depositKeys ++ [depositKeyRow deposit response]
          events := b.events ++ [event.content]
          depositActions := b.depositActions ++ [depositAction deposit draws] }
  | evaluated {delivery : Delivery} {payloadHash : Digest} {event : OutboxEvent} {now : Time} :
      (∀ c ∈ b.claims, (c.consumerName, c.eventID) ≠ (delivery.consumerName, delivery.eventID)) →
      (∀ e ∈ b.events, e.id ≠ event.id) →
      Step b (.saveConsumerOutbox delivery payloadHash event now)
        { b with
          events := b.events ++ [event.content]
          claims := b.claims ++ [⟨delivery.consumerName, delivery.eventID, payloadHash⟩] }
  | settled {delivery : Delivery} {payloadHash : Digest} {event : RiskEvaluated}
      {draws : LedgerDraws} {now : Time} {l₁ l₂ : List TransactionRow} {t : TransactionRow}
      {decision : Decision} :
      (∀ c ∈ b.claims, (c.consumerName, c.eventID) ≠ (delivery.consumerName, delivery.eventID)) →
      (∀ e ∈ b.events, e.id ≠ newID "evt" draws.event) →
      b.transactions = l₁ ++ t :: l₂ →
      t.id = event.transactionID → t.status = .pending →
      decision = decisionOf event t (b.balance t.accountID t.currency) →
      Tab.check (t := .transactions) ((decision.finalize now).apply t) = none →
      Step b (.processRiskEvaluated delivery payloadHash event draws now)
        { b with
          transactions := l₁ ++ (decision.finalize now).apply t :: l₂
          ledger := b.ledger ++ movedBy decision t draws
          events := b.events ++ [(decision.event t draws now).content]
          claims := b.claims ++ [⟨delivery.consumerName, delivery.eventID, payloadHash⟩] }
  | pruned {cutoff : Time} {batchSize : Int} {reason target : String} {action : Random}
      {claims : List Claim} : claims.Sublist b.claims →
      Step b (.pruneProcessedEvents cutoff batchSize reason target action)
        { b with claims := claims }

end Books

/-! ## The store keeps the books -/

theorem Db.balance_books (d : Db) (a c : String) : d.balance a c = d.books.balance a c := rfl

theorem OutboxUpdate.content_apply (u : OutboxUpdate) (r : OutboxRow) :
    (u.apply r).content = r.content := by
  cases u <;> rfl

theorem books_aside {x : schema.Write} (d : Db) (h : AsideWrite x) :
    (@Schema.apply schema d x).books = d.books := by
  cases x with
  | insert t r =>
      cases t with
      | operatorActions =>
          have hr : (ActionRow.actionType r == .deposit) = false := beq_eq_false_iff_ne.mpr h
          exact congrArg (fun l => { d.books with depositActions := l })
            (Table.filter_insert (t := d.operatorActions)
              (p := fun r => ActionRow.actionType r == .deposit) hr)
      | deadLetterReplayAttempts => rfl
      | _ => cases h
  | update t k u =>
      cases t with
      | outboxEvents =>
          exact congrArg (fun l => { d.books with events := l })
            (Table.map_modify d.outboxEvents k (Tab.key_upd (t := .outboxEvents) u)
              u.content_apply)
      | deadLetterMessages => rfl
      | deadLetterReplayAttempts => rfl
      | _ => cases h
  | delete t k hp =>
      cases t with
      | deadLetterReplayAttempts => rfl
      | _ => cases h

theorem books_asides {w : List schema.Write} (d : Db) (h : ∀ x ∈ w, AsideWrite x) :
    (view d w).books = d.books := by
  induction w generalizing d with
  | nil => rfl
  | cons x w ih =>
      refine (ih _ fun y hy => h y (List.mem_cons_of_mem x hy)).trans ?_
      exact books_aside d (h x List.mem_cons_self)

theorem books_prune {x : schema.Write} (d : Db) (h : PruneWrite x) :
    ∃ claims, claims.Sublist d.books.claims ∧
      (@Schema.apply schema d x).books = { d.books with claims := claims } := by
  cases x with
  | insert t r =>
      cases t with
      | operatorActions =>
          refine ⟨_, List.Sublist.refl _, books_aside (x := .insert .operatorActions r) d ?_⟩
          intro hr
          rw [show ActionRow.actionType r = .processedPrune from h] at hr
          cases hr
      | _ => cases h
  | update t k u => cases h
  | delete t k hp =>
      cases t with
      | processedEvents => exact ⟨_, List.filter_sublist.map _, rfl⟩
      | _ => cases h

theorem books_prunes {w : List schema.Write} (d : Db) (h : ∀ x ∈ w, PruneWrite x) :
    ∃ claims, claims.Sublist d.books.claims ∧
      (view d w).books = { d.books with claims := claims } := by
  induction w generalizing d with
  | nil => exact ⟨_, List.Sublist.refl _, rfl⟩
  | cons x w ih =>
      obtain ⟨l, hl, hx⟩ := books_prune d (h x List.mem_cons_self)
      obtain ⟨l', hl', hw⟩ := ih (@Schema.apply schema d x)
        fun y hy => h y (List.mem_cons_of_mem x hy)
      rw [hx] at hl' hw
      exact ⟨l', hl'.trans hl, hw⟩

theorem fresh_event {d : Db} {id : String} (h : d.outboxEvents.find? id = none) :
    ∀ e ∈ d.books.events, e.id ≠ id :=
  List.forall_mem_map.mpr fun r hr => Table.find?_eq_none.mp h r hr

theorem fresh_claim {d : Db} {delivery : Delivery}
    (h : d.processedEvents.find? (delivery.consumerName, delivery.eventID) = none) :
    ∀ c ∈ d.books.claims, (c.consumerName, c.eventID) ≠ (delivery.consumerName, delivery.eventID) :=
  List.forall_mem_map.mpr fun r hr => Table.find?_eq_none.mp h r hr

theorem Created.step {d : Db} {record : IdempotencyRecord} {event : OutboxEvent} {now : Time}
    {w : List schema.Write} (h : Created record event now d w) :
    d.books.Step (.create record event now) (view d w).books := by
  obtain ⟨ht, hk, he, hc, rfl⟩ := h
  have hbooks : (view d [.insert .transactions (paymentRow record.transaction now),
      .insert .idempotencyKeys (idempotencyRow record),
      .insert .outboxEvents (outboxRow event now)]).books =
      { d.books with
        transactions := (d.transactions.insert (paymentRow record.transaction now)).rows
        keys := (d.idempotencyKeys.insert (idempotencyRow record)).rows
        events := (d.outboxEvents.insert (outboxRow event now)).rows.map OutboxRow.content } := rfl
  rw [hbooks, Table.rows_insert ht, Table.rows_insert hk, Table.rows_insert he, List.map_append]
  exact .created (Table.find?_eq_none.mp ht) (Table.find?_eq_none.mp hk) (fresh_event he) hc

theorem Deposited.step {d : Db} {deposit : Deposit} {event : OutboxEvent} {draws : DepositDraws}
    {now : Time} {response : DepositResponse} {w : List schema.Write}
    (h : Deposited deposit event draws now d response w) :
    d.books.Step (.createDeposit deposit event draws now) (view d w).books := by
  obtain ⟨ht, hx, hc, hk, ha, he, hp, _, hw⟩ := h
  have hfree : ∀ t ∈ d.books.transactions,
      (depositRow deposit.transaction).entries.Disjoint t.entries := by
    intro t ht x hx₁ hx₂
    have hpres : @Schema.present schema d x = true := by
      rw [Schema.present_iff, show schema.ixTab x = .transactions from
        TransactionRow.entries_tab hx₁]
      exact ⟨t, ht, hx₂⟩
    rw [hx x hx₁] at hpres
    cases hpres
  have hbooks : (view d w).books =
      { d.books with
        transactions := (d.transactions.insert (depositRow deposit.transaction)).rows
        ledger := (view d w).ledgerEntries.rows
        depositKeys :=
          (d.depositIdempotencyKeys.insert (depositKeyRow deposit response)).rows
        events := (d.outboxEvents.insert (outboxRow event now)).rows.map OutboxRow.content
        depositActions := (d.operatorActions.insert (depositAction deposit draws)).rows.filter
          fun r => r.actionType == .deposit } := by
    rw [hw]
    rfl
  rw [hbooks, hp, Table.rows_insert ht, Table.rows_insert hk, Table.rows_insert he,
    Table.rows_insert ha, List.map_append, List.filter_append]
  exact .deposited (Table.find?_eq_none.mp ht) hfree (Table.find?_eq_none.mp hk) (fresh_event he) hc

theorem Evaluated.step {d : Db} {delivery : Delivery} {payloadHash : Digest}
    {event : OutboxEvent} {now : Time} {w : List schema.Write}
    (h : Evaluated delivery payloadHash event now d w) :
    d.books.Step (.saveConsumerOutbox delivery payloadHash event now) (view d w).books := by
  obtain ⟨hnew, he, rfl⟩ := h
  have hbooks : (view d [claimWrite delivery payloadHash now,
      .insert .outboxEvents (outboxRow event now)]).books =
      { d.books with
        events := (d.outboxEvents.insert (outboxRow event now)).rows.map OutboxRow.content
        claims := (d.processedEvents.insert (processedRow delivery payloadHash now)).rows.map
          ProcessedRow.claim } := rfl
  rw [hbooks, Table.rows_insert he, Table.rows_insert hnew, List.map_append, List.map_append]
  exact .evaluated (fresh_claim hnew) (fresh_event he)

/-- Ledger entries are all that is written. -/
theorem view_ledgerWrites (rows : List LedgerRow) (d : Db) :
    view d (ledgerWrites rows) =
      { d with ledgerEntries := (view d (ledgerWrites rows)).ledgerEntries } := by
  induction rows generalizing d with
  | nil => rfl
  | cons r rows ih => exact ih (@Schema.apply schema d (.insert .ledgerEntries r))

theorem Settled.step {d : Db} {delivery : Delivery} {payloadHash : Digest}
    {event : RiskEvaluated} {draws : LedgerDraws} {now : Time} {t : TransactionRow}
    {w : List schema.Write} (h : Settled delivery payloadHash event draws now d t w) :
    d.books.Step (.processRiskEvaluated delivery payloadHash event draws now)
      (view d w).books := by
  obtain ⟨hnew, hfound, hpend, _, _, _, ⟨row, hrow, hc⟩, he, hp, hw⟩ := h
  have hid : t.id = event.transactionID := Table.key_of_find? hfound
  have hrow : d.transactions.find? t.id = some row := hrow
  rw [hid, hfound] at hrow
  cases hrow
  generalize hdec : decisionOf event t (d.balance t.accountID t.currency) = decision at *
  obtain ⟨l₁, l₂, hl, hl'⟩ := Table.modify_split (hid ▸ hfound) (decision.finalize now).apply
    (Tab.key_upd (t := .transactions) _)
  have hbooks : (view d w).books =
      { d.books with
        transactions := l₁ ++ (decision.finalize now).apply t :: l₂
        ledger := (view d w).ledgerEntries.rows
        events := (d.outboxEvents.insert (outboxRow (decision.event t draws now) now)).rows.map
          OutboxRow.content
        claims := (d.processedEvents.insert (processedRow delivery payloadHash now)).rows.map
          ProcessedRow.claim } := by
    rw [← hl', hw, view, List.foldl_append, List.foldl_append]
    rw [show List.foldl Schema.apply (List.foldl Schema.apply d _) (ledgerWrites _) =
      view _ (ledgerWrites _) from rfl, view_ledgerWrites]
    rfl
  rw [hbooks, hp, Table.rows_insert he, Table.rows_insert hnew, List.map_append, List.map_append]
  exact .settled (fresh_claim hnew) (fresh_event he) hl hid hpend hdec.symm hc

theorem Refreshed.books_eq {d : Db} {delivery : Delivery} {payloadHash : Digest} {now : Time}
    {w : List schema.Write} (h : Refreshed delivery payloadHash now d w) :
    (view d w).books = d.books := by
  obtain ⟨_, rfl⟩ := h
  exact congrArg (fun l => { d.books with claims := l })
    (Table.map_modify d.processedEvents _ (Tab.key_upd (t := .processedEvents) ⟨now⟩)
      (g := ProcessedRow.claim) fun _ => rfl)

/-- The store keeps the books. -/
theorem Outcome.step {d : Db} {c : Call} {w : List schema.Write} (h : Outcome d c w) :
    d.books.Step c (view d w).books := by
  cases h with
  | aside h => rw [books_asides d h]; exact .idle
  | created h => exact h.step
  | deposited h => exact h.step
  | evaluated h => exact h.step
  | settled h => exact h.step
  | refreshed h => rw [h.books_eq]; exact .idle
  | pruned h =>
      obtain ⟨claims, hs, hb⟩ := books_prunes d h
      rw [hb]
      exact .pruned hs
  | recorded h =>
      rw [h]
      exact .idle

end Clearance
