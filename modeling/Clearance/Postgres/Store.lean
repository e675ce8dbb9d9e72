/-
# `Clearance.Postgres.Store` — the operations of `postgres.Store`

Every method of the store as a program over the statements of
`Clearance.Postgres.Statement`: a transaction (`BeginTx` … `Commit`, with the
deferred `Rollback` on every error path), or a single statement that commits by
itself.  The random bytes of the identifiers a method draws, and the time of its
transaction, are arguments.

Errors carry the texts of the source.  A fault of the database is an error the
driver returns, and `Commit` says which error a failing COMMIT becomes.
-/
import Clearance.Postgres.Statement
import Clearance.Transact.Machine

namespace Clearance

open Transact

/-! ## Errors of the driver -/

/-- The names of the unique constraints. -/
def constraintNameOf : schema.UniqueKey → String
  | .row .transactions _ => "transactions_pkey"
  | .row .idempotencyKeys _ => "idempotency_keys_pkey"
  | .row .depositIdempotencyKeys _ => "deposit_idempotency_keys_pkey"
  | .row .outboxEvents _ => "outbox_events_pkey"
  | .row .ledgerEntries _ => "ledger_entries_pkey"
  | .row .processedEvents _ => "processed_events_pkey"
  | .row .operatorActions _ => "operator_actions_pkey"
  | .row .deadLetterMessages _ => "dead_letter_messages_pkey"
  | .row .deadLetterReplayAttempts _ => "dead_letter_replay_attempts_pkey"
  | .entry (.depositReference ..) => "ux_transactions_deposit_source_reference"
  | .entry (.ledgerAccount ..) => "ledger_entries_transaction_id_account_id_key"
  | .entry (.deadLetterSource ..) =>
      "dead_letter_messages_consumer_name_source_topic_source_part_key"

/-- The driver's error for a fault. -/
def driverError : Fault schema → DriverError
  | .outage => .connection
  | .notNull _ => .pg "23502" ""
  | .check c => .pg "23514" c
  | .unique k => .pg "23505" (constraintNameOf k)
  | .foreignKey => .pg "23503" ""
  | .data _ => .pg "22003" ""

def isUniqueViolation (e : Error) : Bool :=
  match e.driver? with
  | some (.pg code _) => code == "23505"
  | _ => false

def constraintName (e : Error) : String :=
  match e.driver? with
  | some (.pg _ name) => name
  | _ => ""

/-- `fmt.Errorf("<message>: %w", err)` for an error of the driver. -/
def failing (message : String) (x : Fault schema) : Error := .wrap message (.driver (driverError x))

/-! ## Transactions -/

section

variable (hashtext : String → Int)

/-- A transaction, or a part of one. -/
abbrev DbTx (α : Type) := Tx (dialect hashtext).sig Error α

/-- What a whole transaction ends with. -/
abbrev DbCommit (α : Type) := Commit (dialect hashtext).sig Error α

variable {hashtext}

/-- Send a statement; a fault is returned with a text in front. -/
def send (s : Stmt) (message : String) : DbTx hashtext s.Reply :=
  .exec s (failing message) .ret

/-- Commit and return a value. -/
def commit {α : Type} (value : α) (message : String) : DbTx hashtext (DbCommit hashtext α) :=
  .ret ⟨value, failing message⟩

/-- `insert into outbox_events` -/
def outboxRow (event : OutboxEvent) (now : Time) : OutboxRow where
  id := event.id
  eventType := event.type
  aggregateID := event.aggregateID
  partitionKey := event.partitionKey
  correlationID := event.correlationID
  payload := event.payload
  status := event.status
  createdAt := now
  updatedAt := now

def insertOutbox (event : OutboxEvent) (now : Time) (message : String) : DbTx hashtext Unit :=
  send (.insert [⟨.outboxEvents, outboxRow event now⟩]) message

/-- `insert into operator_actions` -/
def insertAction (row : ActionRow) (message : String) : DbTx hashtext Unit :=
  send (.insert [⟨.operatorActions, row⟩]) message

/-! ### Payments -/

/-- The row of a payment; its kind is the column's default. -/
def paymentRow (t : Transaction) (now : Time) : TransactionRow where
  id := t.id
  kind := .payment
  accountID := t.accountID
  merchantID := some t.merchantID
  fundingSource := none
  externalReference := none
  amountCents := t.amountCents
  currency := t.currency
  status := t.status
  correlationID := t.correlationID
  createdAt := now
  updatedAt := now

def idempotencyRow (record : IdempotencyRecord) : IdempotencyRow :=
  ⟨record.key, record.requestHash, record.transaction.id, record.createResult⟩

/-- What a failing insertion of an idempotency key is reported as. -/
def keyError (conflict : Sentinel) (message : String) (x : Fault schema) : Error :=
  if isUniqueViolation (.driver (driverError x)) then .sentinel conflict else failing message x

/-- `Store.Create` -/
def create (record : IdempotencyRecord) (event : OutboxEvent) (now : Time) :
    DbTx hashtext (DbCommit hashtext Unit) := do
  send (.insert [⟨.transactions, paymentRow record.transaction now⟩]) "insert transaction"
  Tx.send (S := (dialect hashtext).sig) (.insert [⟨.idempotencyKeys, idempotencyRow record⟩])
    (keyError .transactionIdempotencyConflict "insert idempotency key")
  insertOutbox event now "insert outbox event"
  commit () "commit create transaction"

/-! ### Deposits -/

/-- The identifiers `CreateDeposit` draws. -/
structure DepositDraws where
  entry : Random
  contraEntry : Random
  action : Random
  deriving DecidableEq

def depositRow (t : Transaction) : TransactionRow where
  id := t.id
  kind := t.kind
  accountID := t.accountID
  merchantID := none
  fundingSource := some t.fundingSource
  externalReference := some t.externalRef
  amountCents := t.amountCents
  currency := t.currency
  status := t.status
  correlationID := t.correlationID
  createdAt := t.createdAt
  updatedAt := t.createdAt

/-- Two entries that move `amount` from `contra` to `account`. -/
def entries (id contraID transactionID account contra : String) (amount : Int)
    (currency : String) : List LedgerRow :=
  [⟨id, transactionID, account, amount, currency⟩,
   ⟨contraID, transactionID, contra, -amount, currency⟩]

/-- `insert into ledger_entries` -/
def insertEntries (rows : List LedgerRow) : Stmt := .insert (rows.map fun r => ⟨.ledgerEntries, r⟩)

/-- The entries of a deposit. -/
def credit (t : Transaction) (draws : DepositDraws) : List LedgerRow :=
  entries (newID "le" draws.entry) (newID "le" draws.contraEntry) t.id t.accountID
    "external-settlement" t.amountCents t.currency

def depositResponse (t : Transaction) (balance : Int) : DepositResponse where
  depositID := t.id
  transactionID := t.id
  status := t.status
  accountID := t.accountID
  amountCents := t.amountCents
  currency := t.currency
  balanceAfterCents := balance
  correlationID := t.correlationID
  createdAt := t.createdAt

/-- What a failing insertion of the deposit itself is reported as. -/
def depositError (x : Fault schema) : Error :=
  if constraintName (.driver (driverError x)) == "ux_transactions_deposit_source_reference" then
    .sentinel .externalReferenceConflict
  else failing "insert deposit transaction" x

/-- `Store.CreateDeposit` -/
def createDeposit (deposit : Deposit) (event : OutboxEvent) (draws : DepositDraws) (now : Time) :
    DbTx hashtext (DbCommit hashtext DepositResponse) := do
  let t := deposit.transaction
  send (.advisoryXactLock t.accountID t.currency) "lock deposit account balance"
  Tx.send (S := (dialect hashtext).sig) (.insert [⟨.transactions, depositRow t⟩]) depositError
  send (insertEntries (credit t draws)) "insert deposit ledger entries"
  let balance ← send (.sumLedger t.accountID t.currency) "query balance after deposit"
  let response := depositResponse t balance
  Tx.send (S := (dialect hashtext).sig) (.insert [⟨.depositIdempotencyKeys,
      (⟨deposit.idempotencyKey, deposit.requestHash, t.id, response⟩ : DepositKeyRow)⟩])
    (keyError .depositIdempotencyConflict "insert deposit idempotency key")
  insertAction ⟨newID "act" draws.action, .deposit, t.id, deposit.operatorReason⟩
    "insert deposit audit action"
  insertOutbox event now "insert deposit outbox event"
  commit response "commit deposit"

/-! ### Consumers -/

/-- `nullif($4, '')` -/
def nullIfEmpty (s : String) : Option String := if s = "" then none else some s

def processedRow (delivery : Delivery) (payloadHash : Digest) (now : Time) : ProcessedRow where
  consumerName := delivery.consumerName
  eventID := delivery.eventID
  payloadSHA256 := payloadHash
  sourceTopic := nullIfEmpty delivery.sourceTopic
  sourcePartition := delivery.sourcePartition
  sourceOffset := delivery.sourceOffset
  lastSeenAt := now

/-- The event has been claimed before. -/
def refreshProcessedEvent (delivery : Delivery) (payloadHash : Digest) (now : Time) :
    DbTx hashtext Bool := do
  match ← send (.refreshProcessed delivery.consumerName delivery.eventID now)
      "refresh processed event" with
  | none => .throw (.wrap "refresh processed event" (.driver .noRows))
  | some row =>
      if row.payloadSHA256 ≠ payloadHash then .throw (.sentinel .eventIdentityConflict)
      else pure false

/-- `claimProcessedEvent` -/
def claimProcessedEvent (delivery : Delivery) (payloadHash : Digest) (now : Time) :
    DbTx hashtext Bool := do
  let claimed ← send (.claimProcessed (processedRow delivery payloadHash now))
    "claim processed event"
  if claimed then pure true else refreshProcessedEvent delivery payloadHash now

/-- The shape of both consumers: claim the event and do the work, or commit the
refreshed claim of an event that has been seen. -/
def consume (delivery : Delivery) (payloadHash : Digest) (now : Time) (duplicate : String)
    (work : DbTx hashtext (DbCommit hashtext Bool)) : DbTx hashtext (DbCommit hashtext Bool) := do
  let claimed ← claimProcessedEvent delivery payloadHash now
  if claimed then work else commit false duplicate

/-- `Store.SaveConsumerOutbox` -/
def saveConsumerOutbox (delivery : Delivery) (payloadHash : Digest) (event : OutboxEvent)
    (now : Time) : DbTx hashtext (DbCommit hashtext Bool) :=
  consume delivery payloadHash now "commit duplicate consumer event" do
    insertOutbox event now "insert consumer outbox event"
    commit true "commit consumer transaction"

/-- The identifiers `ProcessRiskEvaluated` draws. -/
structure LedgerDraws where
  entry : Random
  contraEntry : Random
  event : Random
  deriving DecidableEq

/-- The transaction a risk event is about, if it is still to be decided. -/
def checkPending (event : RiskEvaluated) : Option TransactionRow → Except Error TransactionRow
  | none => .error (.text "transaction not found")
  | some t =>
      if t.status ≠ .pending then .error (.text "transaction is not pending")
      else if t.accountID ≠ event.accountID ∨ t.amountCents ≠ event.amountCents ∨
          t.currency ≠ event.currency then
        .error (.text "risk event does not match transaction")
      else .ok t

/-- `lockPendingTransaction` -/
def lockPendingTransaction (event : RiskEvaluated) : DbTx hashtext TransactionRow := do
  match checkPending event
      (← send (.selectTransactionForUpdate event.transactionID) "lock transaction") with
  | .error e => .throw e
  | .ok t => pure t

/-- `ensureAvailableFunds`; its `ErrInsufficientFunds` does not end the transaction. -/
def ensureAvailableFunds (t : TransactionRow) : DbTx hashtext (Except Error Unit) := do
  send (.advisoryXactLock t.accountID t.currency) "lock account balance"
  let balance ← send (.sumLedger t.accountID t.currency) "query account balance"
  pure (if balance < t.amountCents then .error (.sentinel .insufficientFunds) else .ok ())

/-- The entries of a payment. -/
def debit (t : TransactionRow) (draws : LedgerDraws) : List LedgerRow :=
  entries (newID "le" draws.entry) (newID "le" draws.contraEntry) t.id t.accountID "clearing"
    (-t.amountCents) t.currency

/-- `insertLedgerEntries` -/
def insertLedgerEntries (t : TransactionRow) (draws : LedgerDraws) : DbTx hashtext Unit :=
  send (insertEntries (debit t draws)) "insert ledger entries"

/-- What `ProcessRiskEvaluated` decides. -/
structure Decision where
  status : TransactionStatus
  eventType : EventType
  outcome : RiskEvaluated
  deriving DecidableEq

/-- Update the transaction, record the outcome, commit. -/
def finalizeTransaction (t : TransactionRow) (decision : Decision) (draws : LedgerDraws)
    (now : Time) : DbTx hashtext (DbCommit hashtext Bool) := do
  match ← send (.finalizeTransaction t.id
      ⟨decision.status, decision.outcome.riskLevel, decision.outcome.reason, now⟩)
      "finalize transaction" with
  | none => .throw (.text "finalize transaction: transaction is not pending")
  | some _ => do
      insertOutbox (newOutboxEvent decision.eventType t.id t.accountID
        decision.outcome.correlationID (.riskEvaluated decision.outcome) draws.event now) now
        "insert ledger outcome outbox event"
      commit true "commit ledger transaction"

/-- The outcome of an event that is not, or cannot be, approved. -/
def rejected (outcome : RiskEvaluated) : Decision := ⟨.failed, .transactionFailed, outcome⟩

def insufficient (event : RiskEvaluated) : RiskEvaluated :=
  { event with approved := false, reason := "insufficient funds" }

/-- An approved event: move the money if it is there. -/
def authorize (event : RiskEvaluated) (t : TransactionRow) (draws : LedgerDraws) :
    DbTx hashtext Decision := do
  match ← ensureAvailableFunds t with
  | .error e =>
      if e.is .insufficientFunds then pure (rejected (insufficient event)) else .throw e
  | .ok () => do
      insertLedgerEntries t draws
      pure ⟨.authorized, .transactionAuthorized, event⟩

/-- What is left to do once the transaction is locked. -/
def settle (event : RiskEvaluated) (draws : LedgerDraws) (now : Time) (t : TransactionRow) :
    DbTx hashtext (DbCommit hashtext Bool) := do
  let decision ← if event.approved then authorize event t draws else pure (rejected event)
  finalizeTransaction t decision draws now

/-- `Store.ProcessRiskEvaluated` -/
def processRiskEvaluated (delivery : Delivery) (payloadHash : Digest) (event : RiskEvaluated)
    (draws : LedgerDraws) (now : Time) : DbTx hashtext (DbCommit hashtext Bool) :=
  consume delivery payloadHash now "commit duplicate ledger event" do
    let t ← lockPendingTransaction event
    settle event draws now t

/-! ### Operators -/

/-- `Store.PruneProcessedEvents` -/
def pruneProcessedEvents (cutoff : Time) (batchSize : Int) (reason target : String)
    (action : Random) : DbTx hashtext (DbCommit hashtext Nat) := do
  send (.advisoryXactLockOne "processed-event-prune") "lock processed-event prune"
  let deleted ← send (.pruneProcessed cutoff batchSize) "delete processed-event batch"
  insertAction ⟨newID "act" action, .processedPrune, target, reason⟩ "audit processed-event prune"
  commit deleted "commit processed-event prune"

/-- `Store.RequeueOutbox` -/
def requeueOutbox (id reason : String) (action : Random) (now : Time) :
    DbTx hashtext (DbCommit hashtext Unit) := do
  match ← send (.requeueOutbox id now) "requeue outbox event" with
  | none => .throw (.sentinel .invalidState)
  | some _ => do
      insertAction ⟨newID "act" action, .outboxRequeue, id, reason⟩ "audit outbox requeue"
      commit () "commit outbox requeue"

/-- A new attempt. -/
def attemptRow (deadLetterID reason : String) (attempt : Random) (now : Time) : ReplayRow where
  id := newID "replay" attempt
  deadLetterID := deadLetterID
  reason := reason
  createdAt := now

/-- `Store.StartDeadLetterReplay` -/
def startDeadLetterReplay (id reason : String) (attempt : Random) (now : Time) :
    DbTx hashtext (DbCommit hashtext String) := do
  send (.failStaleReplays id now) "recover stale dead letter replay attempt"
  let found ← send (.selectOpenDeadLetter id) "insert dead letter replay attempt"
  if found then do
    let inserted ← send (.insertReplay (attemptRow id reason attempt now))
      "insert dead letter replay attempt"
    if inserted then commit (newID "replay" attempt) "commit dead letter replay attempt"
    else .throw (.sentinel .invalidState)
  else .throw (.sentinel .invalidState)

def ReplayResult.column : ReplayResult → AttemptResult
  | .published => .published
  | .failed => .failed

/-- `Store.FinishDeadLetterReplay` -/
def finishDeadLetterReplay (attemptID deadLetterID : String) (result : ReplayResult)
    (errorMessage : String) (action : Random) (now : Time) :
    DbTx hashtext (DbCommit hashtext Unit) := do
  match ← send (.finishReplay attemptID result.column (nullIfEmpty errorMessage) now)
      "finish dead letter replay attempt" with
  | none => .throw (.wrap "finish dead letter replay attempt" (.driver .noRows))
  | some attempt =>
      match result with
      | .failed => commit () "commit finish dead letter replay"
      | .published => do
          match ← send (.republishDeadLetter deadLetterID) "mark dead letter republished" with
          | none => .throw (.sentinel .invalidState)
          | some _ => do
              insertAction ⟨newID "act" action, .dlqReplay, deadLetterID, attempt.reason⟩
                "audit dead letter replay"
              commit () "commit finish dead letter replay"

end

/-! ## The store -/

/-- The columns `NextPending` returns. -/
def OutboxRow.event (r : OutboxRow) : OutboxEvent where
  id := r.id
  type := r.eventType
  aggregateID := r.aggregateID
  partitionKey := r.partitionKey
  correlationID := r.correlationID
  payload := r.payload
  status := r.status
  attempts := r.attempts
  createdAt := r.createdAt

/-- A parameter that is a byte slice: nil is NULL. -/
def nullIfNil (b : Bytes) : Option Bytes := if b = [] then none else some b

/-- The row `UpsertDeadLetter` inserts. -/
def DeadLetter.row (r : DeadLetter) : DeadLetterRow where
  id := r.id
  consumerName := r.consumerName
  eventID := nullIfEmpty r.eventID
  sourceTopic := r.sourceTopic
  sourcePartition := r.sourcePartition
  sourceOffset := r.sourceOffset
  messageKey := nullIfNil r.key
  headers := encodeHeaders r.headers
  payload := nullIfNil r.payload
  payloadSHA256 := r.payloadSHA256
  errorClass := r.errorClass
  errorMessage := r.errorMessage
  state := r.state
  firstFailedAt := r.firstFailedAt
  lastFailedAt := r.firstFailedAt

/-- The record of a row with these headers. -/
def DeadLetterRow.record (r : DeadLetterRow) (headers : List (String × Bytes)) : DeadLetter where
  id := r.id
  consumerName := r.consumerName
  eventID := r.eventID.getD ""
  sourceTopic := r.sourceTopic
  sourcePartition := r.sourcePartition
  sourceOffset := r.sourceOffset
  key := r.messageKey.getD []
  headers := headers
  payload := r.payload.getD []
  payloadSHA256 := r.payloadSHA256
  errorClass := r.errorClass
  errorMessage := r.errorMessage
  state := r.state
  firstFailedAt := r.firstFailedAt
  lastFailedAt := r.lastFailedAt
  kafkaPublishedAt := r.kafkaPublishedAt
  replayCount := r.replayCount

/-- `scanDeadLetter` -/
def scanDeadLetter (r : DeadLetterRow) : Except Error DeadLetter :=
  match decodeHeaders r.headers with
  | .error m => .error (.wrap "decode dead letter headers" (.text m))
  | .ok headers => .ok (r.record headers)

/-- `fmt.Errorf("<message>: %w", err)`, if there is an error. -/
def wrapError {α : Type} (message : String) : Except Error α → Except Error α
  | .error e => .error (.wrap message e)
  | .ok a => .ok a

/-- Calls of the store's methods. -/
inductive Call where
  | findIdempotency (key : String)
  | create (record : IdempotencyRecord) (event : OutboxEvent) (now : Time)
  | findDepositIdempotency (key : String)
  | createDeposit (deposit : Deposit) (event : OutboxEvent) (draws : DepositDraws) (now : Time)
  | saveConsumerOutbox (delivery : Delivery) (payloadHash : Digest) (event : OutboxEvent)
      (now : Time)
  | processRiskEvaluated (delivery : Delivery) (payloadHash : Digest) (event : RiskEvaluated)
      (draws : LedgerDraws) (now : Time)
  | pruneProcessedEvents (cutoff : Time) (batchSize : Int) (reason target : String)
      (action : Random)
  | isEventProcessed (eventID : String)
  | nextPending (now : Time)
  | markPublished (eventID : String) (now : Time)
  | markFailedAttempt (eventID : String) (maxAttempts : Int) (now : Time)
  | getOutboxStatus (id : String)
  | requeueOutbox (id reason : String) (action : Random) (now : Time)
  | upsertDeadLetter (record : DeadLetter)
  | markDeadLetterPublished (id : String) (publishedAt : Time)
  | getDeadLetter (id : String)
  | startDeadLetterReplay (id reason : String) (attempt : Random) (now : Time)
  | finishDeadLetterReplay (attemptID deadLetterID : String) (result : ReplayResult)
      (errorMessage : String) (action : Random) (now : Time)

@[reducible] def Call.Reply : Call → Type
  | .findIdempotency .. => Option (FoundKey CreateResponse)
  | .create .. => Unit
  | .findDepositIdempotency .. => Option (FoundKey DepositResponse)
  | .createDeposit .. => DepositResponse
  | .saveConsumerOutbox .. | .processRiskEvaluated .. | .isEventProcessed .. => Bool
  | .pruneProcessedEvents .. => Nat
  | .nextPending .. => Option OutboxEvent
  | .getOutboxStatus .. => Option OutboxStatus
  | .markPublished .. | .markFailedAttempt .. | .requeueOutbox ..
  | .markDeadLetterPublished .. | .finishDeadLetterReplay .. => Unit
  | .upsertDeadLetter .. => DeadLetter
  | .getDeadLetter .. => Option DeadLetter
  | .startDeadLetterReplay .. => String

/-- A method that is one transaction. -/
abbrev DbMethod (hashtext : String → Int) (α : Type) := Method (dialect hashtext).sig Error α

/-- A method that is one statement. -/
def single {hashtext : String → Int} {α : Type} (s : Stmt) (message : String)
    (k : s.Reply → Except Error α) : DbMethod hashtext α :=
  .auto s (failing message) k

def inTransaction {hashtext : String → Int} {α : Type} (message : String)
    (tx : DbTx hashtext (DbCommit hashtext α)) : DbMethod hashtext α :=
  .transaction (failing message) tx

/-- The methods of `postgres.Store`. -/
def methodOf {hashtext : String → Int} : (c : Call) → DbMethod hashtext c.Reply
  | .findIdempotency key =>
      single (.selectIdempotency key) "query idempotency key" fun r =>
        .ok (r.map fun r => ⟨r.requestHash, r.response⟩)
  | .create record event now =>
      inTransaction "begin create transaction" (create record event now)
  | .findDepositIdempotency key =>
      single (.selectDepositIdempotency key) "query deposit idempotency key" fun r =>
        .ok (r.map fun r => ⟨r.requestHash, r.response⟩)
  | .createDeposit deposit event draws now =>
      inTransaction "begin deposit" (createDeposit deposit event draws now)
  | .saveConsumerOutbox delivery payloadHash event now =>
      inTransaction "begin consumer transaction"
        (saveConsumerOutbox delivery payloadHash event now)
  | .processRiskEvaluated delivery payloadHash event draws now =>
      inTransaction "begin ledger transaction"
        (processRiskEvaluated delivery payloadHash event draws now)
  | .pruneProcessedEvents cutoff batchSize reason target action =>
      inTransaction "begin processed-event prune"
        (pruneProcessedEvents cutoff batchSize reason target action)
  | .isEventProcessed eventID => single (.existsProcessed eventID) "check processed event" .ok
  | .nextPending now =>
      single (.claimOutbox now) "query pending outbox event" fun r =>
        .ok (r.map OutboxRow.event)
  | .markPublished eventID now =>
      single (.markOutboxPublished eventID now) "mark outbox event published" fun _ => .ok ()
  | .markFailedAttempt eventID maxAttempts now =>
      single (.markOutboxFailed eventID maxAttempts now) "mark outbox event failed" fun _ => .ok ()
  | .getOutboxStatus id => single (.selectOutboxStatus id) "get outbox status" .ok
  | .requeueOutbox id reason action now =>
      inTransaction "begin requeue outbox" (requeueOutbox id reason action now)
  | .upsertDeadLetter record =>
      single (.upsertDeadLetter record.row) "upsert dead letter" fun r =>
        wrapError "upsert dead letter" (scanDeadLetter r)
  | .markDeadLetterPublished id publishedAt =>
      single (.markDeadLetterPublished id publishedAt) "mark dead letter published" fun r =>
        if r.isSome then .ok () else .error (.text "mark dead letter published: not found")
  | .getDeadLetter id =>
      single (.selectDeadLetter id) "get dead letter" fun r =>
        match r with
        | none => .ok none
        | some r => wrapError "get dead letter" ((scanDeadLetter r).map some)
  | .startDeadLetterReplay id reason attempt now =>
      inTransaction "begin dead letter replay attempt"
        (startDeadLetterReplay id reason attempt now)
  | .finishDeadLetterReplay attemptID deadLetterID result errorMessage action now =>
      inTransaction "begin finish dead letter replay"
        (finishDeadLetterReplay attemptID deadLetterID result errorMessage action now)

/-- The store services call. -/
@[reducible] def store (hashtext : String → Int) : Store (dialect hashtext).sig Error where
  Call := Call
  Reply := Call.Reply
  method := methodOf

end Clearance
