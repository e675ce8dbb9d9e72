/-
# `Clearance.Domain` — payments, deposits, events and errors

The types of `internal/domain` and of the packages around it, with the functions
that only compute: identifiers, risk evaluation, outbox events, the error values
that callers compare with `errors.Is`.

What a call draws at random (`NewID`) or reads off a clock is an argument here.
`Platform` collects the functions the services take from elsewhere: JSON (which
a payload passes on its way into a `jsonb` column and out of it again), SHA-256,
and PostgreSQL's `hashtext`.  Nothing is assumed of them in this file.
-/
import Clearance.Text

namespace Clearance

/-- Nanoseconds. -/
abbrev Time := Int

/-- The 16 random bytes of an identifier, in hexadecimal. -/
abbrev Random := Hex 32

/-- A SHA-256 sum, in hexadecimal. -/
abbrev Digest := Hex 64

abbrev Bytes := List UInt8

inductive TransactionStatus where
  | pending | authorized | failed
  deriving DecidableEq

inductive TransactionKind where
  | payment | deposit
  deriving DecidableEq

/-- A risk level as it occurs in messages: the two that mean something, or any
other text. -/
inductive RiskLevel where
  | low | high
  | other (text : String)
  deriving DecidableEq

inductive EventType where
  | transactionCreated | riskEvaluated | transactionAuthorized | transactionFailed
  | fundsDeposited
  deriving DecidableEq

inductive OutboxStatus where
  | pending | processing | published | deadLettered
  deriving DecidableEq

/-! ## Errors -/

/-- Package-level error values. -/
inductive Sentinel where
  | insufficientFunds | eventIdentityConflict
  | invalidTransactionRequest | transactionIdempotencyConflict
  | invalidDepositRequest | depositIdempotencyConflict | externalReferenceConflict
  | notFound | alreadyProcessed | replayWindowExpired | invalidState | invalidReason
  | unsafeRetention
  deriving DecidableEq

def Sentinel.text : Sentinel → String
  | .insufficientFunds => "insufficient funds"
  | .eventIdentityConflict => "event id reused with different payload"
  | .invalidTransactionRequest => "invalid transaction request"
  | .transactionIdempotencyConflict => "idempotency key reused with different payload"
  | .invalidDepositRequest => "invalid deposit request"
  | .depositIdempotencyConflict => "deposit idempotency key reused with different payload"
  | .externalReferenceConflict => "deposit external reference already used"
  | .notFound => "operation target not found"
  | .alreadyProcessed => "event was already processed"
  | .replayWindowExpired => "replay window expired"
  | .invalidState => "operation target is in an invalid state"
  | .invalidReason => "operator reason is invalid"
  | .unsafeRetention => "processed-event retention is shorter than replay window"

/-- What the database driver reports. -/
inductive DriverError where
  | connection
  | noRows
  | pg (code constraintName : String)
  deriving DecidableEq

/-- An error value: one of the package-level ones, a text, another error with a
text in front (`fmt.Errorf` with `%w`), or two errors (`errors.Join`). -/
inductive Error where
  | sentinel (s : Sentinel)
  | text (message : String)
  | driver (e : DriverError)
  | wrap (message : String) (inner : Error)
  | join (first second : Error)
  deriving DecidableEq

namespace Error

/-- `errors.Is`. -/
def is : Error → Sentinel → Bool
  | .sentinel s, s' => s == s'
  | .text _, _ => false
  | .driver _, _ => false
  | .wrap _ e, s => e.is s
  | .join e e', s => e.is s || e'.is s

/-- `errors.As` for the driver's error. -/
def driver? : Error → Option DriverError
  | .driver e => some e
  | .wrap _ e => e.driver?
  | .join e e' => e.driver? <|> e'.driver?
  | _ => none

/-- `err.Error()`. -/
def string : Error → String
  | .sentinel s => s.text
  | .text m => m
  | .driver .connection => "connection failure"
  | .driver .noRows => "no rows in result set"
  | .driver (.pg code name) => "ERROR: " ++ name ++ " (SQLSTATE " ++ code ++ ")"
  | .wrap m e => m ++ ": " ++ e.string
  | .join e e' => e.string ++ "\n" ++ e'.string

end Error

/-! ## Risk -/

structure RiskEvaluation where
  level : RiskLevel
  approved : Bool
  reason : String
  deriving DecidableEq

def evaluateRisk (amountCents : Int) : RiskEvaluation :=
  if amountCents > 50000 then ⟨.high, false, "amount is greater than 500.00"⟩
  else ⟨.low, true, "amount is at or below 500.00"⟩

/-! ## Transactions and events -/

structure Transaction where
  id : String
  kind : TransactionKind
  accountID : String
  merchantID : String := ""
  fundingSource : String := ""
  externalRef : String := ""
  amountCents : Int
  currency : String
  status : TransactionStatus
  riskLevel : Option RiskLevel := none
  riskReason : String := ""
  correlationID : String
  createdAt : Time
  updatedAt : Time
  deriving DecidableEq

structure RiskEvaluated where
  transactionID : String
  accountID : String
  amountCents : Int
  currency : String
  riskLevel : RiskLevel
  approved : Bool
  reason : String
  correlationID : String
  deriving DecidableEq

structure FundsDeposited where
  depositID : String
  accountID : String
  amountCents : Int
  currency : String
  fundingSource : String
  externalReference : String
  correlationID : String
  deriving DecidableEq

/-- What the services marshal into an event. -/
inductive Payload where
  | transaction (t : Transaction)
  | riskEvaluated (e : RiskEvaluated)
  | fundsDeposited (e : FundsDeposited)
  deriving DecidableEq

structure OutboxEvent where
  id : String
  type : EventType
  aggregateID : String
  partitionKey : String
  correlationID : String
  payload : Payload
  status : OutboxStatus
  attempts : Nat := 0
  lastError : String := ""
  createdAt : Time
  deriving DecidableEq

def newID (kind : String) (random : Random) : String := kind ++ "_" ++ random.text

def newOutboxEvent (type : EventType) (aggregateID partitionKey correlationID : String)
    (payload : Payload) (random : Random) (now : Time) : OutboxEvent where
  id := newID "evt" random
  type := type
  aggregateID := aggregateID
  partitionKey := partitionKey
  correlationID := correlationID
  payload := payload
  status := .pending
  createdAt := now

/-- Identifiers drawn with different random bytes are different, whatever their kind. -/
theorem newID_injective {kind kind' : String} {r r' : Random}
    (h : newID kind r = newID kind' r') : r = r' := by
  have hl : (newID kind r).toList = (newID kind' r').toList := by rw [h]
  simp only [newID, String.toList_append] at hl
  exact Hex.ext (String.toList_inj.mp
    (List.append_inj_right' hl (by rw [r.length_eq, r'.length_eq])))

/-- Where a message came from. -/
structure Delivery where
  consumerName : String
  eventID : String
  sourceTopic : String
  sourcePartition : Int
  sourceOffset : Int
  deriving DecidableEq

/-! ## Records the services keep -/

/-- What a payment request is answered with. -/
structure CreateResponse where
  transactionID : String
  status : TransactionStatus
  correlationID : String
  deriving DecidableEq

/-- What a deposit request is answered with. -/
structure DepositResponse where
  depositID : String
  transactionID : String
  status : TransactionStatus
  accountID : String
  amountCents : Int
  currency : String
  balanceAfterCents : Int
  correlationID : String
  createdAt : Time
  deriving DecidableEq

/-- A payment to be created, under its idempotency key. -/
structure IdempotencyRecord where
  key : String
  requestHash : Digest
  transaction : Transaction
  createResult : CreateResponse
  deriving DecidableEq

/-- What a store finds under an idempotency key. -/
structure FoundKey (ρ : Type) where
  requestHash : Digest
  response : ρ
  deriving DecidableEq

/-- A deposit to be created, under its idempotency key. -/
structure Deposit where
  idempotencyKey : String
  requestHash : Digest
  operatorReason : String
  transaction : Transaction
  deriving DecidableEq

inductive DeadLetterState where
  | opened | republished | discarded
  deriving DecidableEq

inductive ErrorClass where
  | decodeError | validationError | handlerError
  deriving DecidableEq

/-- A rejected message, as `deadletter.Record` keeps it. -/
structure DeadLetter where
  id : String
  consumerName : String
  eventID : String
  sourceTopic : String
  sourcePartition : Int
  sourceOffset : Int
  key : Bytes
  headers : List (String × Bytes)
  payload : Bytes
  payloadSHA256 : Digest
  errorClass : ErrorClass
  errorMessage : String
  state : DeadLetterState
  firstFailedAt : Time
  lastFailedAt : Time
  kafkaPublishedAt : Option Time := none
  replayCount : Nat := 0
  deriving DecidableEq

/-- How a replay ended. -/
inductive ReplayResult where
  | published | failed
  deriving DecidableEq

/-! ## The platform -/

/-- Functions from outside the repository. -/
structure Platform where
  /-- `encoding/json`, through a `jsonb` column and back. -/
  encode : Payload → Bytes
  decodeTransaction : Bytes → Except String Transaction
  decodeRiskEvaluated : Bytes → Except String RiskEvaluated
  /-- `crypto/sha256`, in hexadecimal. -/
  sha256 : Bytes → Digest
  /-- PostgreSQL's `hashtext`. -/
  hashtext : String → Int
  /-- `t.UTC().Format(time.RFC3339)` -/
  formatRFC3339 : Time → String

/-- A platform to evaluate runs on. -/
def Platform.plain : Platform where
  encode _ := []
  decodeTransaction _ := .error "no JSON"
  decodeRiskEvaluated _ := .error "no JSON"
  sha256 _ := .fill 64 0
  hashtext _ := 0
  formatRFC3339 _ := ""

/-- `[]byte(s)`. -/
def utf8 (s : String) : Bytes := s.toByteArray.data.toList

end Clearance
