/-
# `Clearance.Migrations.Scripts` — the four migrations

The scripts 001 to 004, statement by statement, over any contents of the tables.  Left out is
what neither reads nor changes a row nor can fail for the rows there are: plain indexes, the
trigger that keeps ledger entries from being changed and its function, defaults of columns for
rows that are written later, and foreign keys, which only new tables get.
-/
import Mathlib.Data.List.MinMax
import Mathlib.Data.String.Basic
import Mathlib.Data.Sum.Order
import Mathlib.Order.WithBot
import Mathlib.Data.Prod.Lex
import Clearance.Ddl
import Clearance.Postgres.Schema

namespace Clearance

namespace Migrations

/-! ## Columns, values, predicates -/

inductive Column where
  | id | accountID | merchantID | amountCents | currency | status | riskLevel | riskReason
  | correlationID | createdAt | updatedAt | key | requestHash | transactionID | responseJSON
  | eventType | aggregateID | payload | attempts | lastError | publishedAt | partitionKey
  | consumerName | eventID | payloadSHA256 | processedAt | kind | fundingSource
  | externalReference | actionType | targetID | reason | sourceTopic | sourcePartition
  | sourceOffset | lastSeenAt | messageKey | headers | errorClass | errorMessage | state
  | firstFailedAt | lastFailedAt | kafkaPublishedAt | replayCount | version | deadLetterID
  | result | completedAt
  deriving DecidableEq

/-- Numbers and times, or texts. -/
abbrev Value := Int ⊕ₗ String

def number (n : Int) : Value := Sum.inlₗ n

def text (s : String) : Value := Sum.inrₗ s

abbrev Row := Ddl.Row Column Value

inductive Predicate where
  /-- `~ '^[A-Za-z0-9._:-]{1,128}$'` -/
  | safeToken
  /-- `~ '^[A-Z]{3}$'` -/
  | currencyCode
  /-- `~ '^[A-Za-z0-9._-]{1,249}$'` -/
  | topicName
  /-- `~ '^[0-9a-f]{64}$'` -/
  | sha256
  | oneOf (texts : List String)
  /-- `char_length` between the two -/
  | charLength (lo hi : Nat)
  | positive | nonnegative | nonzero
  deriving DecidableEq

def isHex (c : Char) : Bool := ('0' ≤ c && c ≤ '9') || ('a' ≤ c && c ≤ 'f')

def Predicate.onText (s : String) : Predicate → Bool
  | .safeToken => Clearance.safeToken s
  | .currencyCode => Clearance.currencyCode s
  | .topicName => Clearance.topicName s
  | .sha256 => s.toList.length == 64 && s.toList.all isHex
  | .oneOf texts => s ∈ texts
  | .charLength lo hi => Clearance.charLength lo hi s
  | .positive | .nonnegative | .nonzero => false

def Predicate.onNumber (n : Int) : Predicate → Bool
  | .positive => 0 < n
  | .nonnegative => 0 ≤ n
  | .nonzero => n ≠ 0
  | .safeToken | .currencyCode | .topicName | .sha256 | .oneOf _ | .charLength _ _ => false

def Predicate.test (p : Predicate) (v : Value) : Bool :=
  match ofLex v with
  | .inl n => p.onNumber n
  | .inr s => p.onText s

abbrev Cond := Ddl.Cond Column Predicate

abbrev TableSchema := Ddl.TableSchema Column Predicate

/-! ## Updates -/

inductive Update where
  /-- 002: `set partition_key = transactions.account_id` -/
  | partitionKeyOfTransaction
  /-- 002: `set partition_key = aggregate_id` -/
  | partitionKeyOfAggregate
  /-- 004: `set last_seen_at = processed_at` -/
  | lastSeen
  /-- 004: the clean-up of pending attempts -/
  | supersede

/-- `=`, which NULL does not even hold of itself. -/
def equal (a b : Option Value) : Bool := a.isSome && a = b

def partitionKeyOfTransaction (transactions : List Row) (outbox : Row) : Row :=
  if outbox .partitionKey = none then
    match transactions.find? fun t => equal (outbox .aggregateID) (t .id) with
    | some t => Function.update outbox .partitionKey (t .accountID)
    | none => outbox
  else outbox

def partitionKeyOfAggregate (outbox : Row) : Row :=
  if outbox .partitionKey = none then
    Function.update outbox .partitionKey (outbox .aggregateID)
  else outbox

def lastSeen (r : Row) : Row :=
  if r .lastSeenAt = none then Function.update r .lastSeenAt (r .processedAt) else r

def isPending (r : Row) : Bool := r .result = some (text "PENDING")

/-- `order by created_at, id`; NULLs come last. -/
def position (r : Row) : WithTop Value ×ₗ WithTop Value := toLex (r .createdAt, r .id)

/-- `row_number() over (partition by dead_letter_id order by created_at, id)` -/
def attemptOrder (pending : List Row) (r : Row) : Nat :=
  1 + (pending.filter fun p =>
    p .deadLetterID = r .deadLetterID && position p < position r).length

def superseded (now : Int) (r : Row) : Row
  | .result => some (text "FAILED")
  | .errorMessage => some (text "superseded while enforcing one pending replay per dead letter")
  | .completedAt => some (number now)
  | c => r c

def supersede (now : Int) (attempts : List Row) (r : Row) : Row :=
  let pending := attempts.filter isPending
  if pending.any fun p => equal (r .id) (p .id) && 1 < attemptOrder pending p then
    superseded now r
  else r

/-- `now()` is the same throughout a statement. -/
def semantics (now : Int) : Ddl.Semantics Tab Column Value Predicate Update where
  test := Predicate.test
  apply
    | .partitionKeyOfTransaction, rows => partitionKeyOfTransaction (rows .transactions)
    | .partitionKeyOfAggregate, _ => partitionKeyOfAggregate
    | .lastSeen, _ => lastSeen
    | .supersede, rows => supersede now (rows .deadLetterReplayAttempts)

/-! ## The scripts -/

abbrev Stmt := Ddl.Stmt Tab Column Value Predicate Update

abbrev Db := Ddl.Db Tab Column Value Predicate

def transactions : TableSchema where
  columns := [.id, .accountID, .merchantID, .amountCents, .currency, .status, .riskLevel,
    .riskReason, .correlationID, .createdAt, .updatedAt]
  notNull := [.id, .accountID, .merchantID, .amountCents, .currency, .status, .correlationID,
    .createdAt, .updatedAt]
  checks :=
    [("transactions_account_id_check", .test .safeToken .accountID),
     ("transactions_merchant_id_check", .test .safeToken .merchantID),
     ("transactions_amount_cents_check", .test .positive .amountCents),
     ("transactions_currency_check", .test .currencyCode .currency),
     ("transactions_status_check", .test (.oneOf ["PENDING", "AUTHORIZED", "FAILED"]) .status),
     ("transactions_risk_level_check", .test (.oneOf ["LOW", "HIGH"]) .riskLevel),
     ("transactions_correlation_id_check", .test .safeToken .correlationID)]
  uniques := [{ name := "transactions_pkey", columns := [.id] }]

def idempotencyKeys : TableSchema where
  columns := [.key, .requestHash, .transactionID, .responseJSON, .createdAt]
  notNull := [.key, .requestHash, .transactionID, .responseJSON, .createdAt]
  checks := [("idempotency_keys_key_check", .test .safeToken .key)]
  uniques := [{ name := "idempotency_keys_pkey", columns := [.key] }]

def outboxEvents : TableSchema where
  columns := [.id, .eventType, .aggregateID, .correlationID, .payload, .status, .attempts,
    .lastError, .publishedAt, .createdAt, .updatedAt]
  notNull := [.id, .eventType, .aggregateID, .correlationID, .payload, .status, .attempts,
    .createdAt, .updatedAt]
  checks :=
    [("outbox_events_event_type_check",
       .test (.oneOf ["TransactionCreated", "RiskEvaluated", "TransactionAuthorized",
         "TransactionFailed"]) .eventType),
     ("outbox_events_correlation_id_check", .test .safeToken .correlationID),
     ("outbox_events_status_check",
       .test (.oneOf ["PENDING", "PROCESSING", "PUBLISHED", "DEAD_LETTERED"]) .status),
     ("outbox_events_attempts_check", .test .nonnegative .attempts)]
  uniques := [{ name := "outbox_events_pkey", columns := [.id] }]

def ledgerEntries : TableSchema where
  columns := [.id, .transactionID, .accountID, .amountCents, .currency, .createdAt]
  notNull := [.id, .transactionID, .accountID, .amountCents, .currency, .createdAt]
  checks :=
    [("ledger_entries_account_id_check", .test .safeToken .accountID),
     ("ledger_entries_amount_cents_check", .test .nonzero .amountCents),
     ("ledger_entries_currency_check", .test .currencyCode .currency)]
  uniques :=
    [{ name := "ledger_entries_pkey", columns := [.id] },
     { name := "ledger_entries_transaction_id_account_id_key",
       columns := [.transactionID, .accountID] }]

/-- `001_init.sql` -/
def init : List Stmt :=
  [.createTable .transactions transactions,
   .createTable .idempotencyKeys idempotencyKeys,
   .createTable .outboxEvents outboxEvents,
   .createTable .ledgerEntries ledgerEntries]

def processedEvents : TableSchema where
  columns := [.consumerName, .eventID, .payloadSHA256, .processedAt]
  notNull := [.consumerName, .eventID, .payloadSHA256, .processedAt]
  checks :=
    [("processed_events_consumer_name_check", .test .safeToken .consumerName),
     ("processed_events_event_id_check", .test .safeToken .eventID),
     ("processed_events_payload_sha256_check", .test .sha256 .payloadSHA256)]
  uniques := [{ name := "processed_events_pkey", columns := [.consumerName, .eventID] }]

def addPartitionKey : Stmt := .addColumn .outboxEvents .partitionKey false none

/-- `002_consumer_reliability.sql` -/
def consumerReliability : List Stmt :=
  [addPartitionKey,
   .update .outboxEvents .partitionKeyOfTransaction,
   .update .outboxEvents .partitionKeyOfAggregate,
   .setNotNull .outboxEvents .partitionKey,
   .createTable .processedEvents processedEvents]

/-- `transactions_kind_fields_check` -/
def kindFields : Cond :=
  .or
    (.and (.test (.oneOf ["PAYMENT"]) .kind) (.and (.not (.isNull .merchantID))
      (.and (.isNull .fundingSource) (.isNull .externalReference))))
    (.and (.test (.oneOf ["DEPOSIT"]) .kind) (.and (.isNull .merchantID)
      (.and (.not (.isNull .fundingSource)) (.not (.isNull .externalReference)))))

def depositIdempotencyKeys : TableSchema where
  columns := [.key, .requestHash, .transactionID, .responseJSON, .createdAt]
  notNull := [.key, .requestHash, .transactionID, .responseJSON, .createdAt]
  checks :=
    [("deposit_idempotency_keys_key_check", .test .safeToken .key),
     ("deposit_idempotency_keys_request_hash_check", .test .sha256 .requestHash)]
  uniques := [{ name := "deposit_idempotency_keys_pkey", columns := [.key] }]

def operatorActions : TableSchema where
  columns := [.id, .actionType, .targetID, .reason, .createdAt]
  notNull := [.id, .actionType, .targetID, .reason, .createdAt]
  checks :=
    [("operator_actions_action_type_check",
       .test (.oneOf ["DEPOSIT", "DLQ_REPLAY", "DLQ_DISCARD", "OUTBOX_REQUEUE",
         "PROCESSED_PRUNE"]) .actionType),
     ("operator_actions_reason_check", .test (.charLength 1 256) .reason)]
  uniques := [{ name := "operator_actions_pkey", columns := [.id] }]

/-- `003_funding_and_queries.sql` -/
def fundingAndQueries : List Stmt :=
  [.addColumn .transactions .kind true (some (text "PAYMENT")),
   .addColumn .transactions .fundingSource false none,
   .addColumn .transactions .externalReference false none,
   .dropNotNull .transactions .merchantID,
   .addCheck .transactions "transactions_kind_check"
     (.test (.oneOf ["PAYMENT", "DEPOSIT"]) .kind) false,
   .addCheck .transactions "transactions_kind_fields_check" kindFields false,
   .addCheck .transactions "transactions_external_account_check"
     (.not (.test (.oneOf ["clearing", "external-settlement"]) .accountID)) true,
   .createUnique .transactions
     { name := "ux_transactions_deposit_source_reference"
       columns := [.fundingSource, .externalReference, .currency]
       only := some (.test (.oneOf ["DEPOSIT"]) .kind) },
   .createTable .depositIdempotencyKeys depositIdempotencyKeys,
   .createTable .operatorActions operatorActions,
   .replaceCheck .outboxEvents "outbox_events_event_type_check"
     (.test (.oneOf ["TransactionCreated", "RiskEvaluated", "TransactionAuthorized",
       "TransactionFailed", "FundsDeposited"]) .eventType)]

def deadLetterMessages : TableSchema where
  columns := [.id, .consumerName, .eventID, .sourceTopic, .sourcePartition, .sourceOffset,
    .messageKey, .headers, .payload, .payloadSHA256, .errorClass, .errorMessage, .state,
    .firstFailedAt, .lastFailedAt, .kafkaPublishedAt, .replayCount, .version]
  notNull := [.id, .consumerName, .sourceTopic, .sourcePartition, .sourceOffset, .messageKey,
    .headers, .payload, .payloadSHA256, .errorClass, .errorMessage, .state, .firstFailedAt,
    .lastFailedAt, .replayCount, .version]
  checks :=
    [("dead_letter_messages_id_check", .test .safeToken .id),
     ("dead_letter_messages_consumer_name_check", .test .safeToken .consumerName),
     ("dead_letter_messages_event_id_check",
       .or (.isNull .eventID) (.test .safeToken .eventID)),
     ("dead_letter_messages_source_topic_check", .test .topicName .sourceTopic),
     ("dead_letter_messages_source_partition_check", .test .nonnegative .sourcePartition),
     ("dead_letter_messages_source_offset_check", .test .nonnegative .sourceOffset),
     ("dead_letter_messages_payload_sha256_check", .test .sha256 .payloadSHA256),
     ("dead_letter_messages_error_class_check",
       .test (.oneOf ["decode_error", "validation_error", "handler_error"]) .errorClass),
     ("dead_letter_messages_error_message_check", .test (.charLength 1 512) .errorMessage),
     ("dead_letter_messages_state_check",
       .test (.oneOf ["OPEN", "REPUBLISHED", "DISCARDED"]) .state),
     ("dead_letter_messages_replay_count_check", .test .nonnegative .replayCount),
     ("dead_letter_messages_version_check", .test .positive .version)]
  uniques :=
    [{ name := "dead_letter_messages_pkey", columns := [.id] },
     { name := "dead_letter_messages_consumer_name_source_topic_source_part_key",
       columns := [.consumerName, .sourceTopic, .sourcePartition, .sourceOffset] }]

def deadLetterReplayAttempts : TableSchema where
  columns := [.id, .deadLetterID, .reason, .result, .errorMessage, .createdAt, .completedAt]
  notNull := [.id, .deadLetterID, .reason, .result, .createdAt]
  checks :=
    [("dead_letter_replay_attempts_reason_check", .test (.charLength 1 256) .reason),
     ("dead_letter_replay_attempts_result_check",
       .test (.oneOf ["PENDING", "PUBLISHED", "FAILED"]) .result),
     ("dead_letter_replay_attempts_error_message_check",
       .or (.isNull .errorMessage) (.test (.charLength 0 512) .errorMessage))]
  uniques := [{ name := "dead_letter_replay_attempts_pkey", columns := [.id] }]

/-- `ux_dead_letter_replay_attempts_pending` -/
def onePending : Ddl.Unique Column Predicate where
  name := "ux_dead_letter_replay_attempts_pending"
  columns := [.deadLetterID]
  only := some (.test (.oneOf ["PENDING"]) .result)

/-- `004_dlq_replay_retention.sql` up to the clean-up -/
def replayTables : List Stmt :=
  [.addColumn .processedEvents .sourceTopic false none,
   .addColumn .processedEvents .sourcePartition false none,
   .addColumn .processedEvents .sourceOffset false none,
   .addColumn .processedEvents .lastSeenAt false none,
   .update .processedEvents .lastSeen,
   .setNotNull .processedEvents .lastSeenAt,
   .createTable .deadLetterMessages deadLetterMessages,
   .createTable .deadLetterReplayAttempts deadLetterReplayAttempts]

/-- `004_dlq_replay_retention.sql` -/
def dlqReplayRetention : List Stmt :=
  replayTables ++
    [.update .deadLetterReplayAttempts .supersede,
     .createUnique .deadLetterReplayAttempts onePending]

def migrations : List Stmt :=
  init ++ consumerReliability ++ fundingAndQueries ++ dlqReplayRetention

end Migrations

end Clearance
