/-
# `Clearance.System` — all services on one database

Everything that can be asked of the services, as the calls of one application of
`Transact.Machine`: client requests, messages handed to the consumers, the outbox
publisher, operators, and any method of the store called directly.  A `Policy` says
which of them may arrive, and what else moves in the world outside the database.

`Request.Makes` says which operations of the store a request may come to make, and
`books_reach` is how a property of the books is shown of every run: each operation
that can be made has to keep it.
-/
import Clearance.Books
import Clearance.Service.Calls
import Clearance.Transact.Trace

namespace Clearance

open Transact

/-! ## Requests -/

/-- What can be asked of the services. -/
inductive Request where
  | create (request : TransactionService.CreateRequest)
      (metadata : TransactionService.RequestMetadata) (draws : TransactionService.Draws)
  | deposit (maxAmountCents : Int64) (request : FundingService.DepositRequest)
      (metadata : FundingService.RequestMetadata) (draws : FundingService.Draws)
  /-- a message for the risk service -/
  | handleCreated (m : Message) (draws : RiskService.Draws)
  /-- a message for the ledger service -/
  | handleEvaluated (m : Message) (draws : LedgerDraws) (now : Time)
  | publishNext (attempts : Int) (draws : OutboxPublisher.Draws)
  | moveDeadLetter (consumerName : String) (m : Message) (cause : Option Error)
      (draws : DeadLetterRecorder.Draws)
  | replayDeadLetter (window : Time) (id reason : String) (draws : OperationsService.Draws)
  | requeueOutbox (id reason : String) (action : Random) (now : Time)
  | prune (config : ProcessedEventsService.Config) (reason : String) (now : Time)
      (action : Random)
  /-- a method of the store, called directly -/
  | store (c : Call)

@[reducible] def Request.Result : Request → Type
  | .create .. => Except Error CreateResponse
  | .deposit .. => Except Error DepositResponse
  | .handleCreated .. | .handleEvaluated .. | .moveDeadLetter .. => Except Error Unit
  | .publishNext .. => Bool × Option Error
  | .replayDeadLetter .. => Except Error DeadLetter
  | .requeueOutbox .. => Except Error OutboxStatus
  | .prune .. => Except Error (Time × Nat)
  | .store c => Except Error c.Reply

/-- The code behind a request. -/
def Request.program (P : Platform) : (r : Request) → Service P r.Result
  | .create request metadata draws => TransactionService.create P request metadata draws
  | .deposit maxAmountCents request metadata draws =>
      FundingService.deposit P maxAmountCents request metadata draws
  | .handleCreated m draws => RiskService.handleMessage P m draws
  | .handleEvaluated m draws now => LedgerService.handleMessage P m draws now
  | .publishNext attempts draws => OutboxPublisher.publishNext P attempts draws
  | .moveDeadLetter consumerName m cause draws =>
      DeadLetterRecorder.move P consumerName m cause draws
  | .replayDeadLetter window id reason draws =>
      OperationsService.replayDeadLetter P window id reason draws
  | .requeueOutbox id reason action now => OperationsService.requeueOutbox P id reason action now
  | .prune config reason now action => ProcessedEventsService.prune P config reason now action
  | .store c => callStore P c

/-- Which requests arrive, and what moves in the world outside. -/
structure Policy where
  World : Type
  Env : Type
  accept : World → Request → Option World
  evolve : Db → World → Env → Option World

/-- Requests of some kind arrive at any time; nothing else moves. -/
@[reducible] def Policy.only (p : Request → Bool) : Policy where
  World := Unit
  Env := Empty
  accept _ r := if p r then some () else none
  evolve _ _ e := nomatch e

/-- The services under a policy. -/
@[reducible] def system (P : Platform) (policy : Policy) :
    App (dialect P.hashtext).engine (store P.hashtext) where
  Request := Request
  Result := Request.Result
  program := Request.program P
  World := policy.World
  Env := policy.Env
  accept := policy.accept
  evolve := policy.evolve

/-- A state of the services. -/
abbrev SystemState (P : Platform) (policy : Policy) := State (system P policy)

theorem Policy.accept_only {p : Request → Bool} {w w' : Unit} {r : Request}
    (h : (Policy.only p).accept w r = some w') : p r = true := by
  simp only [Policy.only, Option.ite_none_right_eq_some] at h
  exact h.1

/-! ## What a request calls -/

/-- The operations a request may come to make. -/
inductive Request.Makes (P : Platform) : Request → Call → Prop
  | minor {r c} : c.minor = true → Makes P r c
  | create {request metadata draws request' metadata'} :
      request' = TransactionService.normalize request →
      metadata' = TransactionService.normalizeMetadata metadata →
      TransactionService.acceptable request' metadata' = true →
      Makes P (.create request metadata draws)
        (.create (TransactionService.newRecord P request' metadata' draws)
          (TransactionService.newEvent request' metadata' draws) draws.now)
  | deposit {maxAmountCents request metadata draws request' metadata'} :
      request' = FundingService.normalize request →
      metadata' = FundingService.normalizeMetadata metadata draws.trace →
      FundingService.acceptable maxAmountCents request' metadata' = true →
      Makes P (.deposit maxAmountCents request metadata draws)
        (.createDeposit (FundingService.newDeposit P request' metadata' draws)
          (FundingService.newEvent (FundingService.newTransaction request' metadata' draws) draws)
          draws.store draws.now)
  | evaluate {m draws id t} : KafkaBus.eventID m = .ok id → P.decodeTransaction m.value = .ok t →
      RiskService.incomplete t = false →
      Makes P (.handleCreated m draws)
        (.saveConsumerOutbox (m.delivery RiskService.consumerName id) (P.sha256 m.value)
          (RiskService.newEvent t draws) draws.now)
  | settle {m draws now id event} : KafkaBus.eventID m = .ok id →
      P.decodeRiskEvaluated m.value = .ok event → LedgerService.defect event = none →
      Makes P (.handleEvaluated m draws now)
        (.processRiskEvaluated (m.delivery LedgerService.consumerName id) (P.sha256 m.value) event
          draws now)
  | record {consumerName m cause draws} :
      Makes P (.moveDeadLetter consumerName m cause draws)
        (.upsertDeadLetter
          (DeadLetterRecorder.recordFromMessage P consumerName m cause draws.now))
  | prune {config reason now action cutoff batchSize reason' target} :
      Makes P (.prune config reason now action)
        (.pruneProcessedEvents cutoff batchSize reason' target action)
  | store {c} : Makes P (.store c) c

theorem Request.makes {P : Platform} {c : Call} {r : Request} (h : (r.program P).Calls c) :
    r.Makes P c := by
  cases r <;> rw [Request.program] at h
  case create request metadata draws =>
    obtain ⟨hacc, rfl | rfl⟩ := TransactionService.create_calls h
    · exact .create rfl rfl hacc
    · exact .minor rfl
  case deposit maxAmountCents request metadata draws =>
    obtain ⟨_, _, hr, hm, hacc, rfl | rfl⟩ := FundingService.deposit_calls h
    · exact .deposit hr hm hacc
    · exact .minor rfl
  case handleCreated m draws =>
    obtain ⟨_, _, hid, ht, hc, rfl⟩ := RiskService.handleMessage_calls h
    exact .evaluate hid ht hc
  case handleEvaluated m draws now =>
    obtain ⟨_, _, hid, hevent, hc, rfl⟩ := LedgerService.handleMessage_calls h
    exact .settle hid hevent hc
  case publishNext attempts draws =>
    obtain rfl | ⟨_, rfl | rfl⟩ := OutboxPublisher.publishNext_calls h <;> exact .minor rfl
  case moveDeadLetter consumerName m cause draws =>
    obtain rfl | rfl := DeadLetterRecorder.move_calls h
    · exact .record
    · exact .minor rfl
  case replayDeadLetter window id reason draws =>
    exact .minor (Call.minor_of_replays (OperationsService.replayDeadLetter_calls h))
  case requeueOutbox id reason action now =>
    obtain rfl | rfl := OperationsService.requeueOutbox_calls h <;> exact .minor rfl
  case prune config reason now action =>
    obtain ⟨_, _, _, _, rfl⟩ := ProcessedEventsService.prune_calls h
    exact .prune
  case store c' =>
    cases h with
    | here => exact .store
    | later r h => exact (calls_ret h).elim

/-- Operations of a publisher. -/
def Call.publishes : Call → Bool
  | .nextPending .. | .markPublished .. | .markFailedAttempt .. => true
  | _ => false

/-- Which request makes which minor operation. -/
def Request.tends : Request → Call → Bool
  | .create .., .findIdempotency .. | .deposit .., .findDepositIdempotency ..
  | .moveDeadLetter .., .markDeadLetterPublished .. | .requeueOutbox .., .getOutboxStatus ..
  | .requeueOutbox .., .requeueOutbox .. => true
  | .publishNext .., c => c.publishes
  | .replayDeadLetter .., c => c.replays
  | _, _ => false

theorem tends_of_calls {P : Platform} {c : Call} {r : Request} (h : (r.program P).Calls c)
    (hc : c.minor = true) : r.tends c = true ∨ r = .store c := by
  cases r <;> rw [Request.program] at h
  case create request metadata draws =>
    obtain ⟨_, rfl | rfl⟩ := TransactionService.create_calls h
    · cases hc
    · exact Or.inl rfl
  case deposit maxAmountCents request metadata draws =>
    obtain ⟨_, _, _, _, _, rfl | rfl⟩ := FundingService.deposit_calls h
    · cases hc
    · exact Or.inl rfl
  case handleCreated m draws =>
    obtain ⟨_, _, _, _, _, rfl⟩ := RiskService.handleMessage_calls h
    cases hc
  case handleEvaluated m draws now =>
    obtain ⟨_, _, _, _, _, rfl⟩ := LedgerService.handleMessage_calls h
    cases hc
  case publishNext attempts draws =>
    obtain rfl | ⟨_, rfl | rfl⟩ := OutboxPublisher.publishNext_calls h <;> exact Or.inl rfl
  case moveDeadLetter consumerName m cause draws =>
    obtain rfl | rfl := DeadLetterRecorder.move_calls h
    · cases hc
    · exact Or.inl rfl
  case replayDeadLetter window id reason draws =>
    exact Or.inl (OperationsService.replayDeadLetter_calls h)
  case requeueOutbox id reason action now =>
    obtain rfl | rfl := OperationsService.requeueOutbox_calls h <;> exact Or.inl rfl
  case prune config reason now action =>
    obtain ⟨_, _, _, _, rfl⟩ := ProcessedEventsService.prune_calls h
    cases hc
  case store c' =>
    cases h with
    | here => exact Or.inr rfl
    | later r h => exact (calls_ret h).elim

theorem publisher_of_calls {P : Platform} {c : Call} {r : Request} (h : (r.program P).Calls c)
    (hc : c.publishes = true) : (∃ attempts draws, r = .publishNext attempts draws) ∨ r = .store c := by
  have hminor : c.minor = true := by cases c <;> first | rfl | cases hc
  rcases tends_of_calls h hminor with ht | rfl
  · cases r with
    | publishNext attempts draws => exact Or.inl ⟨attempts, draws, rfl⟩
    | _ =>
        cases c with
        | nextPending | markPublished | markFailedAttempt => cases ht
        | _ => cases hc
  · exact Or.inr rfl

/-- Only a replay begins or ends attempts. -/
theorem replay_of_calls {P : Platform} {c : Call} {r : Request} (h : (r.program P).Calls c)
    (hc : .deadLetterReplayAttempts ∈ c.tabs) :
    (∃ window id reason draws, r = .replayDeadLetter window id reason draws) ∨ r = .store c := by
  have hreplays : c.replays = true ∧ c.minor = true := by
    cases c with
    | startDeadLetterReplay | finishDeadLetterReplay => exact ⟨rfl, rfl⟩
    | _ => simp [Call.tabs] at hc
  rcases tends_of_calls h hreplays.2 with ht | rfl
  · cases r with
    | replayDeadLetter window id reason draws => exact Or.inl ⟨window, id, reason, draws, rfl⟩
    | _ =>
        cases c with
        | startDeadLetterReplay | finishDeadLetterReplay => cases ht
        | _ => simp [Call.tabs] at hc
  · exact Or.inr rfl

/-- A line of the log. -/
abbrev LogEntry (P : Platform) := Entry (dialect P.hashtext).engine (store P.hashtext)

/-- A call of the store, then the rest. -/
theorem made_bind {P : Platform} {α : Type} {i : Nat} {c : Call}
    {k : Except Error c.Reply → Service P α} {g : List (LogEntry P)} {q : Service P α}
    (h : (callStore P c >>= k).Made i g q) :
    (g = [] ∧ q = callStore P c >>= k) ∨
      ∃ (o : Op (dialect P.hashtext).engine Error c.Reply) (g' : List (LogEntry P)),
        g = ⟨i, c, o⟩ :: g' ∧ (k o.answer).Made i g' q :=
  Svc.made_call.mp h

/-- The call behind an operation, as the code of its request. -/
theorem entry_made {P : Platform} {policy : Policy} {s : AState (system P policy)}
    (h : Traced (contract P.hashtext) s) {e : LogEntry P} (he : e ∈ s.log) :
    ∃ (r : Request) (q : Service P r.Result), s.tasks[e.task]?.map ATask.request = some r ∧
      e ∈ own e.task s.log ∧ (r.program P).Made e.task (own e.task s.log) q := by
  obtain ⟨t, q, ht, hown, hmade⟩ := h.entry he
  exact ⟨t.request, q, congrArg (Option.map ATask.request) ht, hown, hmade⟩

/-- What a call has done so far, as the code of its request. -/
theorem task_made {P : Platform} {policy : Policy} {s : SystemState P policy}
    (h : Traced (contract P.hashtext) s.abs) {i : Nat} {t : Task (system P policy)}
    (ht : s.tasks[i]? = some t) :
    ∃ q : Service P (Request.Result t.request),
      (Request.program P t.request).Made i (own i s.log) q := by
  obtain ⟨q, hmade, _⟩ := h.made i _ (State.abs_tasks ht)
  exact ⟨q, hmade⟩

/-- What a call that has returned has done. -/
theorem returned_made {P : Platform} {policy : Policy} {s : SystemState P policy}
    (h : Traced (contract P.hashtext) s.abs) {i : Nat} {r : Request} {start : Db} {a : r.Result}
    (ht : s.tasks[i]? = some ⟨r, start, .idle (.ret a)⟩) :
    (r.program P).Made i (own i s.log) (.ret a) := by
  obtain ⟨q, hmade, hq⟩ := h.made i _ (State.abs_tasks ht)
  obtain rfl : (.ret a : Service P r.Result) = q := hq _ rfl
  exact hmade

/-- The call behind an operation. -/
theorem entry_task {P : Platform} {policy : Policy} {s : SystemState P policy}
    (h : Traced (contract P.hashtext) s.abs) {e : LogEntry P} (he : e ∈ s.log) :
    ∃ (t : Task (system P policy)) (q : Service P (Request.Result t.request)),
      s.tasks[e.task]? = some t ∧ e ∈ own e.task s.log ∧
      (Request.program P t.request).Made e.task (own e.task s.log) q := by
  have hlt : e.task < s.tasks.length := by
    have hnamed := h.named e he
    rw [State.abs, List.length_map] at hnamed
    exact hnamed
  have ht : s.tasks[e.task]? = some s.tasks[e.task] := List.getElem?_eq_getElem hlt
  obtain ⟨q, hmade⟩ := task_made h ht
  exact ⟨_, q, ht, List.mem_filter.mpr ⟨he, by simp⟩, hmade⟩

/-! ## What the services put into the books -/

/-- A payment that begins. -/
structure NewPayment (record : IdempotencyRecord) (event : OutboxEvent) : Prop where
  pending : record.transaction.status = .pending
  type : event.type = .transactionCreated
  aggregate : event.aggregateID = record.transaction.id
  payload : event.payload = .transaction record.transaction

/-- A deposit, which is authorized at once. -/
structure NewDeposit (deposit : Deposit) (event : OutboxEvent) : Prop where
  kind : deposit.transaction.kind = .deposit
  authorized : deposit.transaction.status = .authorized
  type : event.type = .fundsDeposited
  aggregate : event.aggregateID = deposit.transaction.id

/-- An evaluation of a transaction. -/
structure NewEvaluation (event : OutboxEvent) : Prop where
  type : event.type = .riskEvaluated
  payload : ∃ e, event.payload = .riskEvaluated e ∧ e.transactionID = event.aggregateID

/-- Operations as the services make them. -/
def Call.Proper : Call → Prop
  | .create record event _ => NewPayment record event
  | .createDeposit deposit event _ _ => NewDeposit deposit event
  | .saveConsumerOutbox _ _ event _ => NewEvaluation event
  | _ => True

theorem Call.Proper.of_minor {c : Call} (h : c.minor = true) : c.Proper := by
  cases c with
  | create | createDeposit | saveConsumerOutbox => cases h
  | _ => trivial

/-- Everything but the methods of the store, of which only `ProcessRiskEvaluated` is
called directly. -/
def services : Request → Bool
  | .store (.processRiskEvaluated ..) => true
  | .store _ => false
  | _ => true

theorem Request.Makes.proper {P : Platform} {r : Request} {c : Call} (h : r.Makes P c)
    (hr : services r = true) : c.Proper := by
  cases h with
  | minor h => exact .of_minor h
  | create _ _ _ => exact ⟨rfl, rfl, rfl, rfl⟩
  | deposit _ _ _ => exact ⟨rfl, rfl, rfl, rfl⟩
  | evaluate _ _ _ => exact ⟨rfl, _, rfl, rfl⟩
  | settle _ _ _ => trivial
  | record => trivial
  | prune => trivial
  | store =>
      cases c with
      | processRiskEvaluated => trivial
      | _ => cases hr

/-! ## Whole runs -/

/-- However an operation ends, it has done what `Outcome` says. -/
theorem allows_outcome {hashtext : String → Int} {c : Call}
    {o : Op (dialect hashtext).engine Error c.Reply} (h : (contract hashtext).Allows c o) :
    Outcome o.before c o.writes := by
  rcases h with h | _ | _ | ⟨h, _⟩
  · exact storeSpec_outcome h
  · exact .nil
  · exact .nil
  · exact storeSpec_outcome h

/-- Minor operations leave the books alone. -/
theorem Books.Step.of_minor {b b' : Books} {c : Call} (h : b.Step c b') (hc : c.minor = true) :
    b' = b := by
  cases h with
  | idle => rfl
  | _ => cases hc

/-- Only such operations are ever made under the policy. -/
def Policy.Admits (P : Platform) (policy : Policy) (ok : Call → Prop) : Prop :=
  ∀ w r w' c, policy.accept w r = some w' → r.Makes P c → ok c

theorem Policy.admits_true (P : Platform) (policy : Policy) : policy.Admits P fun _ => True :=
  fun _ _ _ _ _ _ => trivial

theorem admits_services (P : Platform) : (Policy.only services).Admits P Call.Proper :=
  fun _ _ _ _ hw hm => hm.proper (Policy.accept_only hw)

section

variable {P : Platform} {policy : Policy} {ok : Call → Prop} {I : Books → Prop}

/-- What every operation keeps of the books is safe. -/
theorem safe_books (hok : policy.Admits P ok)
    (hstep : ∀ {b b' c}, I b → ok c → b.Step c b' → I b') :
    Safe (system P policy) (contract P.hashtext) (fun d _ _ => I d.books)
      fun r _ => ∀ c, r.Makes P c → ok c where
  arrive hI hw := ⟨hI, fun c hm => hok _ _ _ c hw hm⟩
  env hI _ := hI
  op _ hI hQ hc ho hb := by
    subst hb
    exact hstep hI (hQ _ (Request.makes hc)) (allows_outcome ho).step
  stable _ _ _ _ _ hQ := hQ

variable {d : Db} {w : policy.World} {es : List (Transact.Event (system P policy))}
  {s : SystemState P policy}

/-- An invariant of the books holds throughout every run. -/
theorem books_reach (hok : policy.Admits P ok)
    (hstep : ∀ {b b' c}, I b → ok c → b.Step c b' → I b') (h₀ : I d.books)
    (h : (State.init d w : SystemState P policy).steps es = some s) : I s.db.books :=
  ((safe_books hok hstep).reach (Kept.init h₀) (State.reach_abs (store_sound P.hashtext) h)).inv

/-- What holds between the books before and after every operation holds between the
books of any two moments of a run. -/
theorem books_later {R : Books → Books → Prop} (hok : policy.Admits P ok) (hrefl : ∀ b, R b b)
    (hstep : ∀ {b₀ b b' c}, R b₀ b → ok c → b.Step c b' → R b₀ b')
    (h : (State.init d w : SystemState P policy).steps es = some s)
    {es' : List (Transact.Event (system P policy))} {s' : SystemState P policy}
    (h' : s.steps es' = some s') : R s.db.books s'.db.books := by
  obtain ⟨hiso, hreach⟩ := State.steps_refine (store_sound P.hashtext)
    (Isolated.init (A := system P policy) d w) h
  have hknown := (safe_books (I := fun _ => True) hok fun _ _ _ => trivial).reach
    (Kept.init trivial) hreach
  have hreach' := (State.steps_refine (store_sound P.hashtext) hiso h').2
  exact ((safe_books hok hstep).reach ⟨hrefl s.db.books, hknown.known⟩ hreach').inv

end

end Clearance
