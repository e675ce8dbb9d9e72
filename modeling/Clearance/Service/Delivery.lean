/-
# `Clearance.Service.Delivery` — publishing, dead letters, operators

`outbox.Publisher`, `deadletter.Recorder`, `operations.Service` and
`maintenance.ProcessedEventsService`, as programs over the operations of the
store.  What the broker answers to a publication is an argument, like everything
else a call draws from outside.
-/
import Clearance.Service.Messages

namespace Clearance

open Transact

/-! ## `outbox.Publisher` -/

namespace OutboxPublisher

/-- `NewPublisher` -/
def maxAttempts (configured : Int) : Int := if configured ≤ 0 then 3 else configured

/-- What `PublishNext` draws: the times of its two statements, and the broker's answer. -/
structure Draws where
  claimedAt : Time
  publish : OutboxEvent → Option Error
  markedAt : Time

/-- The event has been claimed. -/
def publishClaimed (P : Platform) (attempts : Int) (draws : Draws) (event : OutboxEvent) :
    Service P (Bool × Option Error) :=
  match draws.publish event with
  | some e => do
      match ← callStore P (.markFailedAttempt event.id attempts draws.markedAt) with
      | .error markErr => pure (true, some (.wrap "mark failed outbox event" markErr))
      | .ok () => pure (true, some (.wrap "publish outbox event" e))
  | none => do
      match ← callStore P (.markPublished event.id draws.markedAt) with
      | .error e => pure (true, some (.wrap "mark published outbox event" e))
      | .ok () => pure (true, none)

/-- `PublishNext` -/
def publishNext (P : Platform) (attempts : Int) (draws : Draws) :
    Service P (Bool × Option Error) := do
  match ← callStore P (.nextPending draws.claimedAt) with
  | .error e => pure (false, some (.wrap "load pending outbox event" e))
  | .ok none => pure (false, none)
  | .ok (some event) => publishClaimed P attempts draws event

end OutboxPublisher

/-! ## `deadletter.Recorder` -/

namespace DeadLetterRecorder

def deterministicID (P : Platform) (consumerName : String) (m : Message) : String :=
  "dlq_" ++ firstChars 32 (P.sha256 (utf8 (consumerName ++ "\x00" ++ m.topic ++ "\x00" ++
    toString m.partition ++ "\x00" ++ toString m.offset))).text

/-- `classify`; the cause may be nil. -/
def classify : Option Error → ErrorClass
  | none => .handlerError
  | some cause =>
      let message := toLower cause.string
      if contains message "decode" || contains message "unmarshal" ||
          contains message "invalid byte" then .decodeError
      else if contains message "incomplete" || contains message "must be" ||
          contains message "does not match" then .validationError
      else .handlerError

def sanitize : Option Error → String
  | none => "handler failed"
  | some cause =>
      String.ofList (((trimSpace cause.string).toList.take 512).map fun c =>
        if isControl c then ' ' else c)

def headerValue (headers : List (String × Bytes)) (key : String) : String :=
  match headers.find? fun h => h.1 == key with
  | some h => goString h.2
  | none => ""

def recordFromMessage (P : Platform) (consumerName : String) (m : Message) (cause : Option Error)
    (now : Time) : DeadLetter where
  id := deterministicID P consumerName m
  consumerName := consumerName
  eventID := headerValue m.headers "event_id"
  sourceTopic := m.topic
  sourcePartition := m.partition
  sourceOffset := m.offset
  key := m.key
  headers := m.headers
  payload := m.value
  payloadSHA256 := P.sha256 m.value
  errorClass := classify cause
  errorMessage := sanitize cause
  state := .opened
  firstFailedAt := now
  lastFailedAt := now

/-- The message `Move` publishes. -/
def deadLetterMessage (record : DeadLetter) (m : Message) : Message :=
  { m with
    headers := m.headers ++
      [("dead_letter_id", utf8 record.id), ("failed_consumer", utf8 record.consumerName),
       ("failure_reason", utf8 record.errorMessage)] }

/-- What `Move` draws. -/
structure Draws where
  now : Time
  publish : Message → Option Error
  publishedAt : Time

/-- `Move` -/
def move (P : Platform) (consumerName : String) (m : Message) (cause : Option Error)
    (draws : Draws) : Service P (Except Error Unit) := do
  let record := recordFromMessage P consumerName m cause draws.now
  match ← callStore P (.upsertDeadLetter record) with
  | .error e => pure (.error (.wrap "persist dead letter" e))
  | .ok stored =>
      if stored.kafkaPublishedAt.isSome then pure (.ok ())
      else
        match draws.publish (deadLetterMessage record m) with
        | some e => pure (.error (.wrap "publish dead letter" e))
        | none => do
            match ← callStore P (.markDeadLetterPublished record.id draws.publishedAt) with
            | .error e => pure (.error (.wrap "mark dead letter published" e))
            | .ok () => pure (.ok ())

end DeadLetterRecorder

/-! ## `operations.Service` -/

namespace OperationsService

/-- The reason is trimmed before it is looked at. -/
def reasonOk (reason : String) : Bool := validReason (trimSpace reason)

/-- 24 hours -/
def day : Time := 86400000000000

/-- `NewService` -/
def replayWindow (configured : Time) : Time := if configured ≤ 0 then 14 * day else configured

def boundedError (e : Error) : String := firstChars 512 e.string

/-- The message `ReplayDeadLetter` publishes, and its topic. -/
structure Replayed where
  topic : String
  key : Bytes
  value : Bytes
  headers : List (String × Bytes)
  deriving DecidableEq

def replayed (record : DeadLetter) : Replayed :=
  ⟨record.sourceTopic, record.key, record.payload, record.headers⟩

/-- What `ReplayDeadLetter` draws. -/
structure Draws where
  now : Time
  attempt : Random
  startedAt : Time
  publish : Replayed → Option Error
  action : Random
  finishedAt : Time

/-- The checks that need no further look at the store. -/
def refusal (window : Time) (now : Time) (record : DeadLetter) : Option Sentinel :=
  if record.state ≠ .opened then some .invalidState
  else if record.firstFailedAt < now - window then some .replayWindowExpired
  else none

/-- An attempt to replay the message has been recorded. -/
def publishReplay (P : Platform) (record : DeadLetter) (attemptID : String) (draws : Draws) :
    Service P (Except Error DeadLetter) :=
  match draws.publish (replayed record) with
  | some e => do
      match ← callStore P (.finishDeadLetterReplay attemptID record.id .failed (boundedError e)
          draws.action draws.finishedAt) with
      | .error finishErr =>
          pure (.error (.wrap "publish dead letter replay"
            (.join e (.wrap "record failed replay" finishErr))))
      | .ok () => pure (.error (.wrap "publish dead letter replay" e))
  | none => do
      match ← callStore P (.finishDeadLetterReplay attemptID record.id .published "" draws.action
          draws.finishedAt) with
      | .error e => pure (.error (.wrap "finish dead letter replay" e))
      | .ok () =>
          pure (.ok { record with state := .republished, replayCount := record.replayCount + 1 })

/-- The message may be replayed. -/
def startReplay (P : Platform) (record : DeadLetter) (reason : String) (draws : Draws) :
    Service P (Except Error DeadLetter) := do
  match ← callStore P (.startDeadLetterReplay record.id (trimSpace reason) draws.attempt
      draws.startedAt) with
  | .error e => pure (.error (.wrap "start dead letter replay" e))
  | .ok attemptID => publishReplay P record attemptID draws

/-- The dead letter is open and recent. -/
def replayOpen (P : Platform) (record : DeadLetter) (reason : String) (draws : Draws) :
    Service P (Except Error DeadLetter) :=
  if record.eventID = "" then startReplay P record reason draws
  else do
    match ← callStore P (.isEventProcessed record.eventID) with
    | .error e => pure (.error (.wrap "check processed event" e))
    | .ok true => pure (.error (.sentinel .alreadyProcessed))
    | .ok false => startReplay P record reason draws

/-- The dead letter has been found. -/
def replayFound (P : Platform) (window : Time) (record : DeadLetter) (reason : String)
    (draws : Draws) : Service P (Except Error DeadLetter) :=
  match refusal window draws.now record with
  | some s => pure (.error (.sentinel s))
  | none => replayOpen P record reason draws

/-- `ReplayDeadLetter` -/
def replayDeadLetter (P : Platform) (window : Time) (id reason : String) (draws : Draws) :
    Service P (Except Error DeadLetter) :=
  if !reasonOk reason then pure (.error (.sentinel .invalidReason))
  else do
    match ← callStore P (.getDeadLetter id) with
    | .error e => pure (.error (.wrap "get dead letter" e))
    | .ok none => pure (.error (.sentinel .notFound))
    | .ok (some record) => replayFound P window record reason draws

/-- `RequeueOutbox` -/
def requeueOutbox (P : Platform) (id reason : String) (action : Random) (now : Time) :
    Service P (Except Error OutboxStatus) :=
  if !reasonOk reason then pure (.error (.sentinel .invalidReason))
  else do
    match ← callStore P (.getOutboxStatus id) with
    | .error e => pure (.error (.wrap "get outbox status" e))
    | .ok none => pure (.error (.sentinel .notFound))
    | .ok (some status) =>
        if status ≠ .deadLettered then pure (.error (.sentinel .invalidState))
        else do
          match ← callStore P (.requeueOutbox id (trimSpace reason) action now) with
          | .error e => pure (.error (.wrap "requeue outbox" e))
          | .ok () => pure (.ok .pending)

end OperationsService

/-! ## `maintenance.ProcessedEventsService` -/

namespace ProcessedEventsService

structure Config where
  retention : Time
  replayWindow : Time
  batchSize : Int
  deriving DecidableEq

/-- `NewProcessedEventsService`: the configuration in use. -/
def configure (config : Config) : Except Error Config :=
  let retention := if config.retention ≤ 0 then 30 * OperationsService.day else config.retention
  let replayWindow := OperationsService.replayWindow config.replayWindow
  let batchSize := if config.batchSize ≤ 0 then 1000 else config.batchSize
  if retention < replayWindow then .error (.sentinel .unsafeRetention)
  else .ok ⟨retention, replayWindow, min batchSize 10000⟩

/-- `Prune`: the cutoff and the number of events deleted. -/
def prune (P : Platform) (config : Config) (reason : String) (now : Time) (action : Random) :
    Service P (Except Error (Time × Nat)) :=
  let reason := trimSpace reason
  let cutoff := now - config.retention
  if byteLength reason = 0 ∨ 256 < byteLength reason then
    pure (.error (.text "invalid prune reason"))
  else do
    match ← callStore P (.pruneProcessedEvents cutoff config.batchSize reason
        (P.formatRFC3339 cutoff) action) with
    | .error e => pure (.error (.wrap "prune processed events" e))
    | .ok deleted => pure (.ok (cutoff, deleted))

end ProcessedEventsService

end Clearance
