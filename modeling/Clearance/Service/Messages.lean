/-
# `Clearance.Service.Messages` — Kafka messages and the two consumers

`kafkabus`: how an outbox event becomes a message and how a consumer recovers its
identity.  `risk.Service` and `ledger.Service`: what the consumers do with a
message, as programs over the operations of the store.

The bytes of a header or key that are not UTF-8 make a Go string no `text` column
takes; here they make a string no CHECK on event ids accepts.
-/
import Clearance.Service.Requests

namespace Clearance

open Transact

/-! ## `kafkabus` -/

structure Message where
  topic : String
  partition : Int
  offset : Int
  key : Bytes
  value : Bytes
  headers : List (String × Bytes)
  deriving DecidableEq

/-- `string(b)` -/
def goString (b : Bytes) : String := (String.fromUTF8? ⟨b.toArray⟩).getD "�"

/-- Bytes make a string that is not empty. -/
theorem goString_ne_empty {b : Bytes} (h : b ≠ []) : goString b ≠ "" := by
  unfold goString String.fromUTF8?
  split
  · intro he
    have hb : b.toArray.toList = [] := congrArg (fun s : String => s.toByteArray.data.toList) he
    exact h hb
  · decide

namespace KafkaBus

def topicTransactionCreated : String := "transactions.created"
def topicRiskEvaluated : String := "risk.evaluated"
def topicTransactionAuthorized : String := "transactions.authorized"
def topicTransactionFailed : String := "transactions.failed"
def topicFundsDeposited : String := "funding.deposited"

def topicFor : EventType → String
  | .transactionCreated => topicTransactionCreated
  | .riskEvaluated => topicRiskEvaluated
  | .transactionAuthorized => topicTransactionAuthorized
  | .transactionFailed => topicTransactionFailed
  | .fundsDeposited => topicFundsDeposited

/-- The headers of `newMessage`. -/
def newHeaders (eventID correlationID : String) : List (String × Bytes) :=
  [("event_id", utf8 eventID), ("correlation_id", utf8 correlationID)]

/-- `EventID` -/
def eventID (m : Message) : Except Error String :=
  match m.headers.find? fun h => h.1 == "event_id" with
  | some h =>
      if h.2.isEmpty then .error (.text "event_id header is empty") else .ok (goString h.2)
  | none =>
      if (utf8 "evt_").isPrefixOf m.key || (utf8 "msg_").isPrefixOf m.key then .ok (goString m.key)
      else .error (.text "event_id header is required")

end KafkaBus

/-! ## `risk.Service` -/

namespace RiskService

def consumerName : String := "risk-service"

/-- What the handler draws. -/
structure Draws where
  event : Random
  eventAt : Time
  now : Time
  deriving DecidableEq

def incomplete (t : Transaction) : Bool :=
  t.id == "" || t.accountID == "" || decide (t.amountCents ≤ 0) || t.currency == "" ||
    t.correlationID == ""

/-- The evaluation of a transaction. -/
def evaluation (t : Transaction) : RiskEvaluated where
  transactionID := t.id
  accountID := t.accountID
  amountCents := t.amountCents
  currency := t.currency
  riskLevel := (evaluateRisk t.amountCents).level
  approved := (evaluateRisk t.amountCents).approved
  reason := (evaluateRisk t.amountCents).reason
  correlationID := t.correlationID

def newEvent (t : Transaction) (draws : Draws) : OutboxEvent :=
  newOutboxEvent .riskEvaluated t.id t.accountID t.correlationID
    (.riskEvaluated (evaluation t)) draws.event draws.eventAt

/-- `HandleTransactionCreated` -/
def handleTransactionCreated (P : Platform) (delivery : Delivery) (payload : Bytes)
    (draws : Draws) : Service P (Except Error Unit) :=
  match P.decodeTransaction payload with
  | .error m => pure (.error (.wrap "decode transaction created event" (.text m)))
  | .ok t =>
      if incomplete t then pure (.error (.text "transaction created event is incomplete"))
      else do
        match ← callStore P (.saveConsumerOutbox delivery (P.sha256 payload) (newEvent t draws)
            draws.now) with
        | .error e => pure (.error (.wrap "persist risk evaluation" e))
        | .ok _ => pure (.ok ())

end RiskService

/-! ## `ledger.Service` -/

namespace LedgerService

def consumerName : String := "ledger-service"

/-- What is wrong with an evaluation. -/
def defect (event : RiskEvaluated) : Option String :=
  if event.transactionID == "" || event.accountID == "" || decide (event.amountCents ≤ 0) ||
      event.currency == "" then
    some "risk evaluated event is incomplete"
  else if event.approved && event.riskLevel != .low then
    some "approved risk evaluation must be low risk"
  else if !event.approved && event.riskLevel != .high then
    some "failed risk evaluation must be high risk"
  else none

/-- `HandleRiskEvaluated` -/
def handleRiskEvaluated (P : Platform) (delivery : Delivery) (payload : Bytes)
    (draws : LedgerDraws) (now : Time) : Service P (Except Error Unit) :=
  match P.decodeRiskEvaluated payload with
  | .error m => pure (.error (.wrap "decode risk evaluated event" (.text m)))
  | .ok event =>
      match defect event with
      | some m => pure (.error (.text m))
      | none => do
          match ← callStore P (.processRiskEvaluated delivery (P.sha256 payload) event draws
              now) with
          | .error e => pure (.error (.wrap "process risk evaluation" e))
          | .ok _ => pure (.ok ())

end LedgerService

/-! ## What the consumer processes do with a message -/

/-- Where a message came from, for the consumer that got it. -/
def Message.delivery (m : Message) (consumerName eventID : String) : Delivery :=
  ⟨consumerName, eventID, m.topic, m.partition, m.offset⟩

/-- `cmd/risk-service` -/
def RiskService.handleMessage (P : Platform) (m : Message) (draws : Draws) :
    Service P (Except Error Unit) :=
  match KafkaBus.eventID m with
  | .error e => pure (.error e)
  | .ok id => handleTransactionCreated P (m.delivery consumerName id) m.value draws

/-- `cmd/ledger-service` -/
def LedgerService.handleMessage (P : Platform) (m : Message) (draws : LedgerDraws) (now : Time) :
    Service P (Except Error Unit) :=
  match KafkaBus.eventID m with
  | .error e => pure (.error e)
  | .ok id => handleRiskEvaluated P (m.delivery consumerName id) m.value draws now

end Clearance
