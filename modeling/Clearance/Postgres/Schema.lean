/-
# `Clearance.Postgres.Schema` — the tables of migrations 001 to 004

One record per table, `Db` with one field per table, and the constraints as the
migrations leave them: primary keys and unique indexes, CHECKs (each under the
name PostgreSQL gives it, in the order it evaluates them), foreign keys.

Columns no statement of the services reads are left out: `created_at` of ledger
entries, keys and actions, and `processed_at`.  `transactions_external_account_check`
is NOT VALID: it is checked when a row is written, so rows older than it may
violate it.  NOT NULL matters for the two columns of a dead letter a nil slice can
reach; they are optional here, and a row with NULLs is refused before it is stored.
`ux_dead_letter_replay_attempts_pending` is not an index here but a named lock: the
rows it ranges over change, and its violation is never reported (`ON CONFLICT DO
NOTHING`).  Whoever holds it keeps the pending attempts to replay a dead letter as
they are.

The other named locks are the advisory ones.  Holding the pair of an account and
a currency protects the balances of every account and currency with these hash
values, except the two contra accounts, whose entries are written without it.
-/
import Clearance.Postgres.Headers
import Clearance.Transact.Dialect

namespace Clearance

open Transact

/-! ## Rows -/

structure TransactionRow where
  id : String
  kind : TransactionKind
  accountID : String
  merchantID : Option String
  fundingSource : Option String
  externalReference : Option String
  amountCents : Int
  currency : String
  status : TransactionStatus
  riskLevel : Option RiskLevel := none
  riskReason : Option String := none
  correlationID : String
  createdAt : Time
  updatedAt : Time
  deriving DecidableEq

structure IdempotencyRow where
  key : String
  requestHash : Digest
  transactionID : String
  response : CreateResponse
  deriving DecidableEq

structure DepositKeyRow where
  key : String
  requestHash : Digest
  transactionID : String
  response : DepositResponse
  deriving DecidableEq

structure OutboxRow where
  id : String
  eventType : EventType
  aggregateID : String
  partitionKey : String
  correlationID : String
  payload : Payload
  status : OutboxStatus
  attempts : Nat := 0
  lastError : Option String := none
  publishedAt : Option Time := none
  createdAt : Time
  updatedAt : Time
  deriving DecidableEq

structure LedgerRow where
  id : String
  transactionID : String
  accountID : String
  amountCents : Int
  currency : String
  deriving DecidableEq

structure ProcessedRow where
  consumerName : String
  eventID : String
  payloadSHA256 : Digest
  sourceTopic : Option String
  sourcePartition : Int
  sourceOffset : Int
  lastSeenAt : Time
  deriving DecidableEq

inductive ActionType where
  | deposit | dlqReplay | dlqDiscard | outboxRequeue | processedPrune
  deriving DecidableEq

structure ActionRow where
  id : String
  actionType : ActionType
  targetID : String
  reason : String
  deriving DecidableEq

structure DeadLetterRow where
  id : String
  consumerName : String
  eventID : Option String
  sourceTopic : String
  sourcePartition : Int
  sourceOffset : Int
  messageKey : Option Bytes
  headers : List StoredHeader
  payload : Option Bytes
  payloadSHA256 : Digest
  errorClass : ErrorClass
  errorMessage : String
  state : DeadLetterState
  firstFailedAt : Time
  lastFailedAt : Time
  kafkaPublishedAt : Option Time := none
  replayCount : Nat := 0
  version : Nat := 1
  deriving DecidableEq

inductive AttemptResult where
  | pending | published | failed
  deriving DecidableEq

structure ReplayRow where
  id : String
  deadLetterID : String
  reason : String
  result : AttemptResult := .pending
  errorMessage : Option String := none
  createdAt : Time
  completedAt : Option Time := none
  deriving DecidableEq

/-! ## Updates -/

/-- `ProcessRiskEvaluated` decides a transaction. -/
structure Finalize where
  status : TransactionStatus
  riskLevel : RiskLevel
  riskReason : String
  now : Time

def Finalize.apply (u : Finalize) (r : TransactionRow) : TransactionRow :=
  { r with
    status := u.status
    riskLevel := some u.riskLevel
    riskReason := some u.riskReason
    updatedAt := u.now }

inductive OutboxUpdate where
  /-- `NextPending` -/
  | claim (now : Time)
  /-- `MarkPublished` -/
  | publish (now : Time)
  /-- `MarkFailedAttempt` -/
  | fail (maxAttempts : Int) (now : Time)
  /-- `RequeueOutbox` -/
  | requeue (now : Time)

def OutboxUpdate.apply : OutboxUpdate → OutboxRow → OutboxRow
  | .claim now, r => { r with status := .processing, updatedAt := now }
  | .publish now, r => { r with status := .published, publishedAt := some now, updatedAt := now }
  | .fail maxAttempts now, r =>
      { r with
        attempts := r.attempts + 1
        status := if (r.attempts + 1 : Int) ≥ maxAttempts then .deadLettered else .pending
        lastError := some "publish failed"
        updatedAt := now }
  | .requeue now, r =>
      { r with status := .pending, attempts := 0, lastError := none, updatedAt := now }

inductive DeadLetterUpdate where
  /-- `UpsertDeadLetter` on a message that failed before -/
  | failedAgain (lastFailedAt : Time) (errorClass : ErrorClass) (errorMessage : String)
  /-- `MarkDeadLetterPublished` -/
  | published (at_ : Time)
  /-- `FinishDeadLetterReplay` -/
  | republished

def DeadLetterUpdate.apply : DeadLetterUpdate → DeadLetterRow → DeadLetterRow
  | .failedAgain t c m, r =>
      { r with lastFailedAt := t, errorClass := c, errorMessage := m, version := r.version + 1 }
  | .published t, r =>
      { r with kafkaPublishedAt := some (r.kafkaPublishedAt.getD t), version := r.version + 1 }
  | .republished, r =>
      { r with
        state := .republished
        replayCount := r.replayCount + 1
        version := r.version + 1 }

/-- An attempt to replay a dead letter ends. -/
structure ReplayUpdate where
  deadLetterID : String
  result : AttemptResult
  errorMessage : Option String
  now : Time

def ReplayUpdate.apply (u : ReplayUpdate) (r : ReplayRow) : ReplayRow :=
  if r.deadLetterID = u.deadLetterID then
    { r with result := u.result, errorMessage := u.errorMessage, completedAt := some u.now }
  else r

/-- A delivery is seen again. -/
structure Refresh where
  now : Time

def Refresh.apply (u : Refresh) (r : ProcessedRow) : ProcessedRow := { r with lastSeenAt := u.now }

/-! ## Constraints -/

/-- The first constraint that does not hold. -/
def firstViolated (cs : List (String × Bool)) : Option String :=
  (cs.find? fun c => !c.2).map Prod.fst

theorem firstViolated_eq_none {cs : List (String × Bool)} :
    firstViolated cs = none ↔ ∀ c ∈ cs, c.2 = true := by
  simp [firstViolated]

/-- The range of `bigint` and of `int64`. -/
def isBigint (n : Int) : Bool := -2 ^ 63 ≤ n && n < 2 ^ 63

/-- The contra accounts of payments and of deposits. -/
def reserved (accountID : String) : Bool :=
  accountID == "clearing" || accountID == "external-settlement"

/-- `char_length(s) between lo and hi` -/
def charLength (lo hi : Nat) (s : String) : Bool := lo ≤ s.toList.length && s.toList.length ≤ hi

/-- `^[A-Za-z0-9._-]{1,249}$` -/
def topicName (s : String) : Bool :=
  charLength 1 249 s && s.toList.all fun c => isSafeChar c && c != ':'

def TransactionRow.checks (r : TransactionRow) : List (String × Bool) :=
  [("transactions_account_id_check", safeToken r.accountID),
   ("transactions_amount_cents_check", 0 < r.amountCents && isBigint r.amountCents),
   ("transactions_correlation_id_check", safeToken r.correlationID),
   ("transactions_currency_check", currencyCode r.currency),
   ("transactions_external_account_check", !reserved r.accountID),
   ("transactions_kind_fields_check",
     match r.kind with
     | .payment => r.merchantID.isSome && r.fundingSource.isNone && r.externalReference.isNone
     | .deposit => r.merchantID.isNone && r.fundingSource.isSome && r.externalReference.isSome),
   ("transactions_merchant_id_check", r.merchantID.all safeToken),
   ("transactions_risk_level_check",
     match r.riskLevel with
     | some (.other _) => false
     | _ => true)]

def LedgerRow.checks (r : LedgerRow) : List (String × Bool) :=
  [("ledger_entries_account_id_check", safeToken r.accountID),
   ("ledger_entries_amount_cents_check", r.amountCents != 0 && isBigint r.amountCents),
   ("ledger_entries_currency_check", currencyCode r.currency)]

def ProcessedRow.checks (r : ProcessedRow) : List (String × Bool) :=
  [("processed_events_consumer_name_check", safeToken r.consumerName),
   ("processed_events_event_id_check", safeToken r.eventID)]

def DeadLetterRow.checks (r : DeadLetterRow) : List (String × Bool) :=
  [("dead_letter_messages_consumer_name_check", safeToken r.consumerName),
   ("dead_letter_messages_error_message_check", charLength 1 512 r.errorMessage),
   ("dead_letter_messages_event_id_check", r.eventID.all safeToken),
   ("dead_letter_messages_id_check", safeToken r.id),
   ("dead_letter_messages_source_offset_check", 0 ≤ r.sourceOffset),
   ("dead_letter_messages_source_partition_check", 0 ≤ r.sourcePartition),
   ("dead_letter_messages_source_topic_check", topicName r.sourceTopic)]

/-- The first NOT NULL column that is NULL. -/
def DeadLetterRow.null? (r : DeadLetterRow) : Option String :=
  if r.messageKey.isNone then some "message_key"
  else if r.payload.isNone then some "payload"
  else none

def ReplayRow.checks (r : ReplayRow) : List (String × Bool) :=
  [("dead_letter_replay_attempts_error_message_check", r.errorMessage.all (charLength 0 512)),
   ("dead_letter_replay_attempts_reason_check", charLength 1 256 r.reason)]

/-! ## The database -/

inductive Tab where
  | transactions | idempotencyKeys | depositIdempotencyKeys | outboxEvents | ledgerEntries
  | processedEvents | operatorActions | deadLetterMessages | deadLetterReplayAttempts
  deriving DecidableEq

@[reducible] def Tab.Row : Tab → Type
  | .transactions => TransactionRow
  | .idempotencyKeys => IdempotencyRow
  | .depositIdempotencyKeys => DepositKeyRow
  | .outboxEvents => OutboxRow
  | .ledgerEntries => LedgerRow
  | .processedEvents => ProcessedRow
  | .operatorActions => ActionRow
  | .deadLetterMessages => DeadLetterRow
  | .deadLetterReplayAttempts => ReplayRow

@[reducible] def Tab.Key : Tab → Type
  | .processedEvents => String × String
  | _ => String

def Tab.key : (t : Tab) → t.Row → t.Key
  | .transactions, r => TransactionRow.id r
  | .idempotencyKeys, r => IdempotencyRow.key r
  | .depositIdempotencyKeys, r => DepositKeyRow.key r
  | .outboxEvents, r => OutboxRow.id r
  | .ledgerEntries, r => LedgerRow.id r
  | .processedEvents, r => (ProcessedRow.consumerName r, ProcessedRow.eventID r)
  | .operatorActions, r => ActionRow.id r
  | .deadLetterMessages, r => DeadLetterRow.id r
  | .deadLetterReplayAttempts, r => ReplayRow.id r

@[reducible] def Tab.decKey : (t : Tab) → DecidableEq t.Key
  | .transactions | .idempotencyKeys | .depositIdempotencyKeys | .outboxEvents | .ledgerEntries
  | .operatorActions | .deadLetterMessages | .deadLetterReplayAttempts =>
      inferInstanceAs (DecidableEq String)
  | .processedEvents => inferInstanceAs (DecidableEq (String × String))

/-- Entries of the unique indexes. -/
inductive Ix where
  /-- `ux_transactions_deposit_source_reference` -/
  | depositReference (fundingSource externalReference currency : String)
  /-- `unique (transaction_id, account_id)` -/
  | ledgerAccount (transactionID accountID : String)
  /-- `unique (consumer_name, source_topic, source_partition, source_offset)` -/
  | deadLetterSource (consumerName sourceTopic : String) (sourcePartition sourceOffset : Int)
  deriving DecidableEq

def Ix.tab : Ix → Tab
  | .depositReference .. => .transactions
  | .ledgerAccount .. => .ledgerEntries
  | .deadLetterSource .. => .deadLetterMessages

/-- The partial index ranges over deposits; NULLs never collide. -/
def TransactionRow.entries (r : TransactionRow) : List Ix :=
  match r.kind, r.fundingSource, r.externalReference with
  | .deposit, some source, some reference => [.depositReference source reference r.currency]
  | _, _, _ => []

def Tab.entries : {t : Tab} → t.Row → List Ix
  | .transactions, r => TransactionRow.entries r
  | .ledgerEntries, r => [.ledgerAccount (LedgerRow.transactionID r) (LedgerRow.accountID r)]
  | .deadLetterMessages, r =>
      [.deadLetterSource (DeadLetterRow.consumerName r) (DeadLetterRow.sourceTopic r)
        (DeadLetterRow.sourcePartition r) (DeadLetterRow.sourceOffset r)]
  | .idempotencyKeys, _ | .depositIdempotencyKeys, _ | .outboxEvents, _ | .processedEvents, _
  | .operatorActions, _ | .deadLetterReplayAttempts, _ => []

@[reducible] def Tab.Upd : Tab → Type
  | .transactions => Finalize
  | .outboxEvents => OutboxUpdate
  | .processedEvents => Refresh
  | .deadLetterMessages => DeadLetterUpdate
  | .deadLetterReplayAttempts => ReplayUpdate
  | _ => Empty

def Tab.upd : {t : Tab} → t.Upd → t.Row → t.Row
  | .transactions, u, r => Finalize.apply u r
  | .outboxEvents, u, r => OutboxUpdate.apply u r
  | .processedEvents, u, r => Refresh.apply u r
  | .deadLetterMessages, u, r => DeadLetterUpdate.apply u r
  | .deadLetterReplayAttempts, u, r => ReplayUpdate.apply u r

def Tab.check : {t : Tab} → t.Row → Option String
  | .transactions, r => firstViolated (TransactionRow.checks r)
  | .idempotencyKeys, r =>
      firstViolated [("idempotency_keys_key_check", safeToken (IdempotencyRow.key r))]
  | .depositIdempotencyKeys, r =>
      firstViolated [("deposit_idempotency_keys_key_check", safeToken (DepositKeyRow.key r))]
  | .outboxEvents, r =>
      firstViolated [("outbox_events_correlation_id_check", safeToken (OutboxRow.correlationID r))]
  | .ledgerEntries, r => firstViolated (LedgerRow.checks r)
  | .processedEvents, r => firstViolated (ProcessedRow.checks r)
  | .operatorActions, r =>
      firstViolated [("operator_actions_reason_check", charLength 1 256 (ActionRow.reason r))]
  | .deadLetterMessages, r => firstViolated (DeadLetterRow.checks r)
  | .deadLetterReplayAttempts, r => firstViolated (ReplayRow.checks r)

/-- Foreign keys. -/
def Tab.refs : {t : Tab} → t.Row → List ((t' : Tab) × t'.Key)
  | .idempotencyKeys, r => [⟨.transactions, IdempotencyRow.transactionID r⟩]
  | .depositIdempotencyKeys, r => [⟨.transactions, DepositKeyRow.transactionID r⟩]
  | .ledgerEntries, r => [⟨.transactions, LedgerRow.transactionID r⟩]
  | .deadLetterReplayAttempts, r => [⟨.deadLetterMessages, ReplayRow.deadLetterID r⟩]
  | .transactions, _ | .outboxEvents, _ | .processedEvents, _ | .operatorActions, _
  | .deadLetterMessages, _ => []

/-- The committed contents of the tables. -/
structure Db where
  transactions : Table TransactionRow String TransactionRow.id
  idempotencyKeys : Table IdempotencyRow String IdempotencyRow.key
  depositIdempotencyKeys : Table DepositKeyRow String DepositKeyRow.key
  outboxEvents : Table OutboxRow String OutboxRow.id
  ledgerEntries : Table LedgerRow String LedgerRow.id
  processedEvents : Table ProcessedRow (String × String) fun r => (r.consumerName, r.eventID)
  operatorActions : Table ActionRow String ActionRow.id
  deadLetterMessages : Table DeadLetterRow String DeadLetterRow.id
  deadLetterReplayAttempts : Table ReplayRow String ReplayRow.id
  deriving DecidableEq

def Db.empty : Db :=
  ⟨.empty, .empty, .empty, .empty, .empty, .empty, .empty, .empty, .empty⟩

def Db.get (d : Db) : (t : Tab) → Table t.Row t.Key t.key
  | .transactions => d.transactions
  | .idempotencyKeys => d.idempotencyKeys
  | .depositIdempotencyKeys => d.depositIdempotencyKeys
  | .outboxEvents => d.outboxEvents
  | .ledgerEntries => d.ledgerEntries
  | .processedEvents => d.processedEvents
  | .operatorActions => d.operatorActions
  | .deadLetterMessages => d.deadLetterMessages
  | .deadLetterReplayAttempts => d.deadLetterReplayAttempts

def Db.set (d : Db) : (t : Tab) → Table t.Row t.Key t.key → Db
  | .transactions, T => { d with transactions := T }
  | .idempotencyKeys, T => { d with idempotencyKeys := T }
  | .depositIdempotencyKeys, T => { d with depositIdempotencyKeys := T }
  | .outboxEvents, T => { d with outboxEvents := T }
  | .ledgerEntries, T => { d with ledgerEntries := T }
  | .processedEvents, T => { d with processedEvents := T }
  | .operatorActions, T => { d with operatorActions := T }
  | .deadLetterMessages, T => { d with deadLetterMessages := T }
  | .deadLetterReplayAttempts, T => { d with deadLetterReplayAttempts := T }

theorem TransactionRow.entries_tab {r : TransactionRow} {x : Ix} (h : x ∈ r.entries) :
    x.tab = .transactions := by
  unfold TransactionRow.entries at h
  split at h
  · rw [List.mem_singleton.mp h]; rfl
  · cases h

theorem Tab.entries_tab : ∀ {t : Tab} {r : t.Row} {x : Ix}, x ∈ Tab.entries r → x.tab = t
  | .transactions, _, _, h => TransactionRow.entries_tab h
  | .ledgerEntries, _, _, h => by rw [List.mem_singleton.mp h]; rfl
  | .deadLetterMessages, _, _, h => by rw [List.mem_singleton.mp h]; rfl
  | .idempotencyKeys, _, _, h | .depositIdempotencyKeys, _, _, h | .outboxEvents, _, _, h
  | .processedEvents, _, _, h | .operatorActions, _, _, h
  | .deadLetterReplayAttempts, _, _, h => nomatch h

theorem ReplayUpdate.id_apply (u : ReplayUpdate) (r : ReplayRow) : (u.apply r).id = r.id := by
  unfold ReplayUpdate.apply
  split <;> rfl

theorem ReplayUpdate.deadLetterID_apply (u : ReplayUpdate) (r : ReplayRow) :
    (u.apply r).deadLetterID = r.deadLetterID := by
  unfold ReplayUpdate.apply
  split <;> rfl

theorem Tab.key_upd : ∀ {t : Tab} (u : t.Upd) (r : t.Row), t.key (Tab.upd u r) = t.key r
  | .transactions, _, _ => rfl
  | .outboxEvents, u, _ => by cases u <;> rfl
  | .processedEvents, _, _ => rfl
  | .deadLetterMessages, u, _ => by cases u <;> rfl
  | .deadLetterReplayAttempts, u, r => ReplayUpdate.id_apply u r

theorem Tab.entries_upd : ∀ {t : Tab} (u : t.Upd) (r : t.Row),
    Tab.entries (Tab.upd u r) = Tab.entries r
  | .transactions, _, _ => rfl
  | .outboxEvents, _, _ => rfl
  | .processedEvents, _, _ => rfl
  | .deadLetterMessages, u, _ => by cases u <;> rfl
  | .deadLetterReplayAttempts, _, _ => rfl

/-- Rows are deleted from one table only. -/
def Tab.Prunable (t : Tab) : Prop := t = .processedEvents

theorem Tab.entries_prunable {t : Tab} (h : t.Prunable) (r : t.Row) : Tab.entries r = [] := by
  cases h
  rfl

/-- The schema after all migrations. -/
@[reducible] def schema : Schema where
  Tab := Tab
  Row := Tab.Row
  Key := Tab.Key
  key := Tab.key
  Ix := Ix
  ixTab := Ix.tab
  entries := Tab.entries
  entries_tab := Tab.entries_tab
  Upd := Tab.Upd
  upd := Tab.upd
  key_upd := Tab.key_upd
  entries_upd := Tab.entries_upd
  check := Tab.check
  refs := Tab.refs
  Prunable := Tab.Prunable
  entries_prunable := Tab.entries_prunable
  Db := Db
  get := Db.get
  set := Db.set
  get_set_self := by intro d t T; cases t <;> rfl
  get_set_other := by intro d t T t' h; cases t <;> cases t' <;> first | rfl | exact absurd rfl h
  decTab := inferInstance
  decKey := Tab.decKey
  decIx := inferInstance

/-! ## Balances and advisory locks -/

/-- `sum(amount_cents)` of an account and a currency. -/
def Db.balance (d : Db) (accountID currency : String) : Int :=
  ((d.ledgerEntries.rows.filter fun r => r.accountID == accountID && r.currency == currency).map
    LedgerRow.amountCents).sum

/-- The named locks. -/
inductive Latch where
  /-- `pg_advisory_xact_lock(a, b)` -/
  | pair (a b : Int)
  /-- `pg_advisory_xact_lock(a)` -/
  | single (a : Int)
  /-- the pending replay of a dead letter -/
  | pendingReplay (deadLetterID : String)
  deriving DecidableEq

theorem balance_insert (d : Db) (r : LedgerRow) (a c : String)
    (h : d.ledgerEntries.find? r.id = none) :
    Db.balance { d with ledgerEntries := d.ledgerEntries.insert r } a c =
      d.balance a c + if r.accountID = a ∧ r.currency = c then r.amountCents else 0 := by
  simp only [Db.balance, Table.rows_insert h, List.filter_append, List.map_append, List.sum_append]
  by_cases hr : r.accountID = a ∧ r.currency = c
  · simp [hr]
  · have : (r.accountID == a && r.currency == c) = false := by
      simpa only [Bool.and_eq_false_iff, beq_eq_false_iff_ne, ne_eq, not_and_or] using hr
    simp [this, hr]

theorem balance_insert_taken (d : Db) (r r' : LedgerRow) (a c : String)
    (h : d.ledgerEntries.find? r.id = some r') :
    Db.balance { d with ledgerEntries := d.ledgerEntries.insert r } a c = d.balance a c := by
  rw [Table.insert_taken h]

/-- The pending attempts to replay a dead letter, by their ids. -/
def Db.pendingReplay (d : Db) (deadLetterID attemptID : String) : Option ReplayRow :=
  (d.deadLetterReplayAttempts.find? attemptID).filter fun r =>
    r.deadLetterID == deadLetterID && r.result == .pending

/-- What the locks protect: balances, and pending attempts. -/
structure Latched where
  balances : String → String → Int := fun _ _ => 0
  attempts : String → Option ReplayRow := fun _ => none

def Latch.val (hashtext : String → Int) : Latch → Db → Latched
  | .pair h h', d =>
      { balances := fun a c =>
          if ¬ reserved a ∧ hashtext a = h ∧ hashtext c = h' then d.balance a c else 0 }
  | .single _, _ => {}
  | .pendingReplay id, d => { attempts := d.pendingReplay id }

/-- The lock a row has to be inserted under. -/
def Latch.of (hashtext : String → Int) : {t : Tab} → t.Row → List Latch
  | .ledgerEntries, r =>
      if reserved (LedgerRow.accountID r) then []
      else [.pair (hashtext (LedgerRow.accountID r)) (hashtext (LedgerRow.currency r))]
  | .deadLetterReplayAttempts, r => [.pendingReplay (ReplayRow.deadLetterID r)]
  | _, _ => []

/-- The lock an update has to be made under. -/
def Latch.ofUpd : {t : Tab} → t.Upd → List Latch
  | .deadLetterReplayAttempts, u => [.pendingReplay (ReplayUpdate.deadLetterID u)]
  | _, _ => []

/-- Tables whose rows are written under more than the locks on their keys. -/
def Tab.latched : Tab → Bool
  | .ledgerEntries | .deadLetterReplayAttempts => true
  | _ => false

variable {hashtext : String → Int}

theorem Latch.of_eq_nil : ∀ {t : Tab}, t.latched = false → ∀ r : t.Row, Latch.of hashtext r = []
  | .transactions, _, _ | .idempotencyKeys, _, _ | .depositIdempotencyKeys, _, _
  | .outboxEvents, _, _ | .processedEvents, _, _ | .operatorActions, _, _
  | .deadLetterMessages, _, _ => rfl

theorem Latch.ofUpd_eq_nil : ∀ {t : Tab}, t.latched = false → ∀ u : t.Upd, Latch.ofUpd u = []
  | .transactions, _, _ | .outboxEvents, _, _ | .processedEvents, _, _
  | .deadLetterMessages, _, _ => rfl

theorem Latch.val_eq {n : Latch} {d d' : Db}
    (hb : ∀ a c, reserved a = false → n = .pair (hashtext a) (hashtext c) →
      d.balance a c = d'.balance a c)
    (hp : ∀ id, n = .pendingReplay id → d.pendingReplay id = d'.pendingReplay id) :
    n.val hashtext d = n.val hashtext d' := by
  cases n with
  | single _ => rfl
  | pendingReplay id => rw [Latch.val, Latch.val, hp id rfl]
  | pair k k' =>
      simp only [Latch.val, Latched.mk.injEq, and_true]
      funext a c
      by_cases hc : ¬ reserved a ∧ hashtext a = k ∧ hashtext c = k'
      · rw [if_pos hc, if_pos hc]
        exact hb a c (by simpa using hc.1) (by rw [hc.2.1, hc.2.2])
      · rw [if_neg hc, if_neg hc]

theorem Latch.balance_of_val {a c : String} {d d' : Db} (ha : reserved a = false)
    (h : (Latch.pair (hashtext a) (hashtext c)).val hashtext d =
      (Latch.pair (hashtext a) (hashtext c)).val hashtext d') :
    d.balance a c = d'.balance a c := by
  simpa [Latch.val, ha] using congrFun (congrFun (congrArg Latched.balances h) a) c

theorem Latch.pendingReplay_of_val {id : String} {d d' : Db}
    (h : (Latch.pendingReplay id).val hashtext d = (Latch.pendingReplay id).val hashtext d') :
    d.pendingReplay id = d'.pendingReplay id :=
  congrArg Latched.attempts h

/-- A write to another table leaves the ledger alone. -/
theorem balance_of_tab (d : Db) {x : schema.Write} (h : x.tab ≠ .ledgerEntries) (a c : String) :
    (@Schema.apply schema d x).balance a c = d.balance a c := by
  have hl : (@Schema.apply schema d x).ledgerEntries = d.ledgerEntries :=
    @Schema.get_apply_other schema d x .ledgerEntries h.symm
  rw [Db.balance, hl, Db.balance]

/-- A write to another table leaves the attempts alone. -/
theorem pendingReplay_of_tab (d : Db) {x : schema.Write} (h : x.tab ≠ .deadLetterReplayAttempts)
    (id : String) : (@Schema.apply schema d x).pendingReplay id = d.pendingReplay id := by
  have hl : (@Schema.apply schema d x).deadLetterReplayAttempts = d.deadLetterReplayAttempts :=
    @Schema.get_apply_other schema d x .deadLetterReplayAttempts h.symm
  funext attemptID
  rw [Db.pendingReplay, hl, Db.pendingReplay]

theorem Latch.val_of_tab {n : Latch} (d : Db) {x : schema.Write} (h : x.tab.latched = false) :
    n.val hashtext (@Schema.apply schema d x) = n.val hashtext d := by
  refine Latch.val_eq (fun a c _ _ => balance_of_tab d ?_ a c)
    fun id _ => pendingReplay_of_tab d ?_ id
  · intro ht; rw [ht] at h; cases h
  · intro ht; rw [ht] at h; cases h

theorem pendingReplay_insert (d : Db) (r : ReplayRow) (id attemptID : String) :
    Db.pendingReplay (@Schema.apply schema d (.insert .deadLetterReplayAttempts r)) id attemptID =
      if r.id = attemptID then
        (some ((d.deadLetterReplayAttempts.find? attemptID).getD r)).filter fun r =>
          r.deadLetterID == id && r.result == .pending
      else d.pendingReplay id attemptID := by
  have hf : (@Schema.apply schema d
      (.insert .deadLetterReplayAttempts r)).deadLetterReplayAttempts.find? attemptID = _ :=
    @Schema.find?_insert schema d .deadLetterReplayAttempts r attemptID
  rw [Db.pendingReplay, hf]
  split
  · next h => exact (if_pos h).symm
  · next h => exact (if_neg h).symm

theorem pendingReplay_update (d : Db) (u : ReplayUpdate) (k id attemptID : String) :
    Db.pendingReplay (@Schema.apply schema d (.update .deadLetterReplayAttempts k u)) id
        attemptID =
      if attemptID = k then
        ((d.deadLetterReplayAttempts.find? attemptID).map u.apply).filter fun r =>
          r.deadLetterID == id && r.result == .pending
      else d.pendingReplay id attemptID := by
  have hf : (@Schema.apply schema d
      (.update .deadLetterReplayAttempts k u)).deadLetterReplayAttempts.find? attemptID = _ :=
    @Schema.find?_update schema d .deadLetterReplayAttempts k u attemptID
  rw [Db.pendingReplay, hf]
  split
  · rfl
  · rfl

theorem Latch.val_insert {n : Latch} {t : Tab} {r : t.Row} (d : Db)
    (h : n ∉ Latch.of hashtext r) :
    n.val hashtext (@Schema.apply schema d (.insert t r)) = n.val hashtext d := by
  by_cases ht : t.latched = false
  · exact Latch.val_of_tab d ht
  cases t with
  | ledgerEntries =>
      refine Latch.val_eq (fun a c ha hn => ?_) fun id _ =>
        pendingReplay_of_tab d (x := .insert .ledgerEntries r) nofun id
      cases hf : d.ledgerEntries.find? (LedgerRow.id r) with
      | some r' => exact balance_insert_taken d r r' a c hf
      | none =>
          refine (balance_insert d r a c hf).trans ?_
          rw [if_neg, Int.add_zero]
          rintro ⟨rfl, rfl⟩
          exact h (by simp [Latch.of, ha, hn])
  | deadLetterReplayAttempts =>
      refine Latch.val_eq (fun a c _ _ =>
        balance_of_tab d (x := .insert .deadLetterReplayAttempts r) nofun a c) fun id hn => ?_
      subst hn
      have hid : ReplayRow.deadLetterID r ≠ id := by
        rintro rfl
        exact h (List.mem_singleton_self _)
      funext attemptID
      rw [pendingReplay_insert]
      split
      · next hk =>
          cases hf : d.deadLetterReplayAttempts.find? attemptID with
          | none => simp [Db.pendingReplay, hf, hid]
          | some r' => simp [Db.pendingReplay, hf]
      · rfl
  | _ => exact absurd rfl ht

theorem Latch.val_insert_congr {n : Latch} {t : Tab} {r : t.Row} {d d' : Db}
    (h : n.val hashtext d = n.val hashtext d')
    (hf : @Schema.find? schema d t (t.key r) = @Schema.find? schema d' t (t.key r)) :
    n.val hashtext (@Schema.apply schema d (.insert t r)) =
      n.val hashtext (@Schema.apply schema d' (.insert t r)) := by
  by_cases ht : t.latched = false
  · rw [Latch.val_of_tab d (x := .insert t r) ht, Latch.val_of_tab d' (x := .insert t r) ht, h]
  cases t with
  | ledgerEntries =>
      have hf : d.ledgerEntries.find? (LedgerRow.id r) =
        d'.ledgerEntries.find? (LedgerRow.id r) := hf
      refine Latch.val_eq (fun a c ha hn => ?_) fun id hn => ?_
      · subst hn
        have hb : d.balance a c = d'.balance a c := Latch.balance_of_val ha h
        cases hd : d.ledgerEntries.find? (LedgerRow.id r) with
        | some r' =>
            refine (balance_insert_taken d r r' a c hd).trans (hb.trans ?_)
            exact (balance_insert_taken d' r r' a c (hf ▸ hd)).symm
        | none =>
            refine (balance_insert d r a c hd).trans ?_
            rw [hb]
            exact (balance_insert d' r a c (hf ▸ hd)).symm
      · subst hn
        have ht : (@Schema.Write.insert schema .ledgerEntries r).tab ≠ .deadLetterReplayAttempts :=
          nofun
        rw [pendingReplay_of_tab d ht, pendingReplay_of_tab d' ht, Latch.pendingReplay_of_val h]
  | deadLetterReplayAttempts =>
      have hf : d.deadLetterReplayAttempts.find? (ReplayRow.id r) =
        d'.deadLetterReplayAttempts.find? (ReplayRow.id r) := hf
      refine Latch.val_eq (fun a c ha hn => ?_) fun id hn => ?_
      · subst hn
        have ht : (@Schema.Write.insert schema .deadLetterReplayAttempts r).tab ≠ .ledgerEntries :=
          nofun
        rw [balance_of_tab d ht, balance_of_tab d' ht, Latch.balance_of_val ha h]
      · subst hn
        funext attemptID
        rw [pendingReplay_insert, pendingReplay_insert]
        split
        · next hk => rw [← hk, hf]
        · rw [Latch.pendingReplay_of_val h]
  | _ => exact absurd rfl ht

theorem Latch.val_update {n : Latch} {t : Tab} {u : t.Upd} (d : Db) (k : t.Key)
    (h : n ∉ Latch.ofUpd u) :
    n.val hashtext (@Schema.apply schema d (.update t k u)) = n.val hashtext d := by
  by_cases ht : t.latched = false
  · exact Latch.val_of_tab d ht
  cases t with
  | ledgerEntries => cases u
  | deadLetterReplayAttempts =>
      refine Latch.val_eq (fun a c _ _ =>
        balance_of_tab d (x := .update .deadLetterReplayAttempts k u) nofun a c) fun id hn => ?_
      subst hn
      have hid : ReplayUpdate.deadLetterID u ≠ id := by
        rintro rfl
        exact h (List.mem_singleton_self _)
      funext attemptID
      rw [pendingReplay_update]
      split
      · cases hf : d.deadLetterReplayAttempts.find? attemptID with
        | none => simp [Db.pendingReplay, hf]
        | some r =>
            -- the attempt belongs to the dead letter of the update, or is left alone
            by_cases hr : r.deadLetterID = ReplayUpdate.deadLetterID u
            · have hne : r.deadLetterID ≠ id := hr.trans_ne hid
              simp [Db.pendingReplay, hf, Option.filter_some, ReplayUpdate.deadLetterID_apply, hne]
            · simp [Db.pendingReplay, hf, ReplayUpdate.apply, hr]
      · rfl
  | _ => exact absurd rfl ht

theorem Latch.val_update_congr {n : Latch} {t : Tab} {k : t.Key} {u : t.Upd} {d d' : Db}
    (h : n.val hashtext d = n.val hashtext d')
    (hf : @Schema.find? schema d t k = @Schema.find? schema d' t k) :
    n.val hashtext (@Schema.apply schema d (.update t k u)) =
      n.val hashtext (@Schema.apply schema d' (.update t k u)) := by
  by_cases ht : t.latched = false
  · rw [Latch.val_of_tab d (x := .update t k u) ht, Latch.val_of_tab d' (x := .update t k u) ht, h]
  cases t with
  | ledgerEntries => cases u
  | deadLetterReplayAttempts =>
      have hf : d.deadLetterReplayAttempts.find? k = d'.deadLetterReplayAttempts.find? k := hf
      refine Latch.val_eq (fun a c ha hn => ?_) fun id hn => ?_
      · subst hn
        have ht : (@Schema.Write.update schema .deadLetterReplayAttempts k u).tab ≠
          .ledgerEntries := nofun
        rw [balance_of_tab d ht, balance_of_tab d' ht, Latch.balance_of_val ha h]
      · subst hn
        funext attemptID
        rw [pendingReplay_update, pendingReplay_update]
        split
        · next hk => rw [hk, hf]
        · rw [Latch.pendingReplay_of_val h]
  | _ => exact absurd rfl ht

theorem Latch.val_delete (n : Latch) (d : Db) (t : Tab) (k : t.Key) (hp : t.Prunable) :
    n.val hashtext (@Schema.apply schema d (.delete t k hp)) = n.val hashtext d := by
  cases hp
  exact Latch.val_of_tab d rfl

/-- The named locks of the database. -/
@[reducible] def latches (hashtext : String → Int) : Latches schema where
  Name := Latch
  decName := inferInstance
  Val := Latched
  val := Latch.val hashtext
  of := Latch.of hashtext
  ofUpd := Latch.ofUpd
  val_insert := Latch.val_insert
  val_insert_congr := Latch.val_insert_congr
  val_update := Latch.val_update
  val_update_congr := Latch.val_update_congr
  val_delete := Latch.val_delete

end Clearance
