/-
# `Clearance.Service.Requests` — `transaction.Service` and `funding.Service`

The two services clients talk to, as programs over the operations of the store.
What a call draws (`NewID`, `time.Now`, the time of its database transaction) is
an argument.  `json.Marshal` does not fail on the types it is given here.

Both look up the idempotency key, try to insert, and look the key up again when
the insertion ran into a conflict.
-/
import Clearance.Postgres.Store

namespace Clearance

open Transact

/-- Code of a service. -/
abbrev Service (P : Platform) (α : Type) := Svc (store P.hashtext) α

/-- One operation of the store. -/
def callStore (P : Platform) (c : Call) : Service P (Except Error c.Reply) := .call c .ret

/-! ## `transaction.Service` -/

namespace TransactionService

structure CreateRequest where
  accountID : String
  merchantID : String
  amountCents : Int64
  currency : String
  deriving DecidableEq

structure RequestMetadata where
  idempotencyKey : String
  correlationID : String
  deriving DecidableEq

/-- What `Create` draws. -/
structure Draws where
  transaction : Random
  event : Random
  createdAt : Time
  updatedAt : Time
  eventAt : Time
  now : Time
  deriving DecidableEq

/-- The request with white space removed and the currency in upper case. -/
def normalize (request : CreateRequest) : CreateRequest :=
  { request with
    currency := toUpper (trimSpace request.currency)
    accountID := trimSpace request.accountID
    merchantID := trimSpace request.merchantID }

/-- The metadata with white space removed from the key. -/
def normalizeMetadata (metadata : RequestMetadata) : RequestMetadata :=
  { metadata with idempotencyKey := trimSpace metadata.idempotencyKey }

/-- What `validate` accepts, once normalized. -/
def acceptable (request : CreateRequest) (metadata : RequestMetadata) : Bool :=
  safeToken metadata.idempotencyKey && safeToken request.accountID &&
    !reserved request.accountID && safeToken request.merchantID &&
    currencyCode request.currency && decide (0 < request.amountCents.toInt)

def validate (request : CreateRequest) (metadata : RequestMetadata) :
    Except Error CreateRequest :=
  if acceptable (normalize request) metadata then .ok (normalize request)
  else .error (.sentinel .invalidTransactionRequest)

/-- `fmt.Sprintf("%s|%s|%d|%s", ...)` -/
def fingerprint (request : CreateRequest) : String :=
  request.accountID ++ "|" ++ request.merchantID ++ "|" ++ toString request.amountCents.toInt ++
    "|" ++ request.currency

def hashRequest (P : Platform) (request : CreateRequest) : Digest :=
  P.sha256 (utf8 (fingerprint request))

/-- The payment a request asks for. -/
def newTransaction (request : CreateRequest) (metadata : RequestMetadata) (draws : Draws) :
    Transaction where
  id := newID "txn" draws.transaction
  kind := .payment
  accountID := request.accountID
  merchantID := request.merchantID
  amountCents := request.amountCents.toInt
  currency := request.currency
  status := .pending
  correlationID := metadata.correlationID
  createdAt := draws.createdAt
  updatedAt := draws.updatedAt

def response (t : Transaction) : CreateResponse := ⟨t.id, t.status, t.correlationID⟩

def newRecord (P : Platform) (request : CreateRequest) (metadata : RequestMetadata)
    (draws : Draws) : IdempotencyRecord where
  key := metadata.idempotencyKey
  requestHash := hashRequest P request
  transaction := newTransaction request metadata draws
  createResult := response (newTransaction request metadata draws)

def newEvent (request : CreateRequest) (metadata : RequestMetadata) (draws : Draws) :
    OutboxEvent :=
  let t := newTransaction request metadata draws
  newOutboxEvent .transactionCreated t.id t.accountID metadata.correlationID (.transaction t)
    draws.event draws.eventAt

/-- The key has been inserted by somebody else. -/
def afterConflict (P : Platform) (request : CreateRequest) (metadata : RequestMetadata)
    (conflict : Error) : Service P (Except Error CreateResponse) := do
  match ← callStore P (.findIdempotency metadata.idempotencyKey) with
  | .error e => pure (.error (.wrap "find idempotency key after conflict" e))
  | .ok none => pure (.error (.wrap "create transaction" conflict))
  | .ok (some existing) =>
      if existing.requestHash = hashRequest P request then pure (.ok existing.response)
      else pure (.error (.wrap "create transaction" conflict))

/-- The key is not there yet. -/
def insertNew (P : Platform) (request : CreateRequest) (metadata : RequestMetadata)
    (draws : Draws) : Service P (Except Error CreateResponse) := do
  match ← callStore P (.create (newRecord P request metadata draws)
      (newEvent request metadata draws) draws.now) with
  | .ok () => pure (.ok (response (newTransaction request metadata draws)))
  | .error e =>
      if e.is .transactionIdempotencyConflict then afterConflict P request metadata e
      else pure (.error (.wrap "create transaction" e))

/-- `Create` for a request that is valid. -/
def createNormalized (P : Platform) (request : CreateRequest) (metadata : RequestMetadata)
    (draws : Draws) : Service P (Except Error CreateResponse) := do
  match ← callStore P (.findIdempotency metadata.idempotencyKey) with
  | .error e => pure (.error (.wrap "find idempotency key" e))
  | .ok (some existing) =>
      if existing.requestHash ≠ hashRequest P request then
        pure (.error (.sentinel .transactionIdempotencyConflict))
      else pure (.ok existing.response)
  | .ok none => insertNew P request metadata draws

/-- `Service.Create` -/
def create (P : Platform) (request : CreateRequest) (metadata : RequestMetadata)
    (draws : Draws) : Service P (Except Error CreateResponse) :=
  match validate request (normalizeMetadata metadata) with
  | .error e => pure (.error e)
  | .ok request => createNormalized P request (normalizeMetadata metadata) draws

theorem create_eq (P : Platform) (request : CreateRequest) (metadata : RequestMetadata)
    (draws : Draws) : create P request metadata draws =
      if acceptable (normalize request) (normalizeMetadata metadata) then
        createNormalized P (normalize request) (normalizeMetadata metadata) draws
      else pure (.error (.sentinel .invalidTransactionRequest)) := by
  unfold create validate
  by_cases h : acceptable (normalize request) (normalizeMetadata metadata) = true
  · rw [if_pos h, if_pos h]
  · rw [if_neg h, if_neg h]

end TransactionService

/-! ## `funding.Service` -/

namespace FundingService

structure DepositRequest where
  accountID : String
  amountCents : Int64
  currency : String
  fundingSource : String
  externalReference : String
  deriving DecidableEq

structure RequestMetadata where
  idempotencyKey : String
  correlationID : String
  operatorReason : String
  deriving DecidableEq

/-- What `Deposit` draws. -/
structure Draws where
  trace : Random
  transaction : Random
  event : Random
  store : DepositDraws
  createdAt : Time
  eventAt : Time
  now : Time
  deriving DecidableEq

/-- `NewService`: the largest deposit. -/
def maxAmount (configured : Int64) : Int64 :=
  if configured.toInt ≤ 0 then 100000000 else configured

def normalize (request : DepositRequest) : DepositRequest :=
  { request with
    accountID := trimSpace request.accountID
    currency := toUpper (trimSpace request.currency)
    fundingSource := trimSpace request.fundingSource
    externalReference := trimSpace request.externalReference }

/-- A request without a correlation id is given one. -/
def normalizeMetadata (metadata : RequestMetadata) (trace : Random) : RequestMetadata where
  idempotencyKey := trimSpace metadata.idempotencyKey
  correlationID :=
    if trimSpace metadata.correlationID = "" then newID "trace" trace
    else trimSpace metadata.correlationID
  operatorReason := trimSpace metadata.operatorReason

def acceptable (maxAmountCents : Int64) (request : DepositRequest) (metadata : RequestMetadata) :
    Bool :=
  safeToken request.accountID && !reserved request.accountID &&
    safeToken request.fundingSource && safeToken request.externalReference &&
    safeToken metadata.idempotencyKey && safeToken metadata.correlationID &&
    currencyCode request.currency && decide (0 < request.amountCents.toInt) &&
    decide (request.amountCents.toInt ≤ maxAmountCents.toInt) &&
    validReason metadata.operatorReason

def validate (maxAmountCents : Int64) (request : DepositRequest) (metadata : RequestMetadata)
    (trace : Random) : Except Error (DepositRequest × RequestMetadata) :=
  if acceptable maxAmountCents (normalize request) (normalizeMetadata metadata trace) then
    .ok (normalize request, normalizeMetadata metadata trace)
  else .error (.sentinel .invalidDepositRequest)

/-- `fmt.Sprintf("deposit|%s|%d|%s|%s|%s", ...)` -/
def fingerprint (request : DepositRequest) : String :=
  "deposit|" ++ request.accountID ++ "|" ++ toString request.amountCents.toInt ++ "|" ++
    request.currency ++ "|" ++ request.fundingSource ++ "|" ++ request.externalReference

def hashRequest (P : Platform) (request : DepositRequest) : Digest :=
  P.sha256 (utf8 (fingerprint request))

def newTransaction (request : DepositRequest) (metadata : RequestMetadata) (draws : Draws) :
    Transaction where
  id := newID "dep" draws.transaction
  kind := .deposit
  accountID := request.accountID
  fundingSource := request.fundingSource
  externalRef := request.externalReference
  amountCents := request.amountCents.toInt
  currency := request.currency
  status := .authorized
  correlationID := metadata.correlationID
  createdAt := draws.createdAt
  updatedAt := draws.createdAt

/-- What the event says about a deposit. -/
def fundsDeposited (t : Transaction) : FundsDeposited where
  depositID := t.id
  accountID := t.accountID
  amountCents := t.amountCents
  currency := t.currency
  fundingSource := t.fundingSource
  externalReference := t.externalRef
  correlationID := t.correlationID

def newEvent (t : Transaction) (draws : Draws) : OutboxEvent :=
  newOutboxEvent .fundsDeposited t.id t.accountID t.correlationID
    (.fundsDeposited (fundsDeposited t)) draws.event draws.eventAt

def newDeposit (P : Platform) (request : DepositRequest) (metadata : RequestMetadata)
    (draws : Draws) : Deposit where
  idempotencyKey := metadata.idempotencyKey
  requestHash := hashRequest P request
  operatorReason := metadata.operatorReason
  transaction := newTransaction request metadata draws

/-- The key, or the external reference, has been inserted by somebody else. -/
def afterConflict (P : Platform) (request : DepositRequest) (metadata : RequestMetadata)
    (conflict : Error) : Service P (Except Error DepositResponse) := do
  match ← callStore P (.findDepositIdempotency metadata.idempotencyKey) with
  | .error e => pure (.error (.wrap "find deposit idempotency key after conflict" e))
  | .ok none => pure (.error (.wrap "create deposit" conflict))
  | .ok (some existing) =>
      if existing.requestHash = hashRequest P request then pure (.ok existing.response)
      else pure (.error (.sentinel .depositIdempotencyConflict))

/-- The key is not there yet. -/
def insertNew (P : Platform) (request : DepositRequest) (metadata : RequestMetadata)
    (draws : Draws) : Service P (Except Error DepositResponse) := do
  match ← callStore P (.createDeposit (newDeposit P request metadata draws)
      (newEvent (newTransaction request metadata draws) draws) draws.store draws.now) with
  | .ok response => pure (.ok response)
  | .error e =>
      if e.is .depositIdempotencyConflict || e.is .externalReferenceConflict then
        afterConflict P request metadata e
      else pure (.error (.wrap "create deposit" e))

/-- `Deposit` for a request that is valid. -/
def depositNormalized (P : Platform) (request : DepositRequest) (metadata : RequestMetadata)
    (draws : Draws) : Service P (Except Error DepositResponse) := do
  match ← callStore P (.findDepositIdempotency metadata.idempotencyKey) with
  | .error e => pure (.error (.wrap "find deposit idempotency key" e))
  | .ok (some existing) =>
      if existing.requestHash ≠ hashRequest P request then
        pure (.error (.sentinel .depositIdempotencyConflict))
      else pure (.ok existing.response)
  | .ok none => insertNew P request metadata draws

/-- `Service.Deposit` -/
def deposit (P : Platform) (maxAmountCents : Int64) (request : DepositRequest)
    (metadata : RequestMetadata) (draws : Draws) : Service P (Except Error DepositResponse) :=
  match validate maxAmountCents request metadata draws.trace with
  | .error e => pure (.error e)
  | .ok (request, metadata) => depositNormalized P request metadata draws

theorem deposit_eq (P : Platform) (maxAmountCents : Int64) (request : DepositRequest)
    (metadata : RequestMetadata) (draws : Draws) :
    deposit P maxAmountCents request metadata draws =
      if acceptable maxAmountCents (normalize request) (normalizeMetadata metadata draws.trace) then
        depositNormalized P (normalize request) (normalizeMetadata metadata draws.trace) draws
      else pure (.error (.sentinel .invalidDepositRequest)) := by
  unfold deposit validate
  by_cases h : acceptable maxAmountCents (normalize request)
      (normalizeMetadata metadata draws.trace) = true
  · rw [if_pos h, if_pos h]
  · rw [if_neg h, if_neg h]

end FundingService

end Clearance
