/-
# `Clearance.Broker` — topics that carry what the outbox says

A broker is honest if a message on a topic is a copy of an event of the outbox, or of a
dead letter that was recorded from such a message.  `Policy.honest` is the world of such a
broker: the messages written so far.  An event may be published at any moment and any
number of times, and so may a dead letter; a message may be handed to its consumer, or
recorded as a dead letter, at any moment and any number of times, in any order.  This is
more than publishers and operators do, so what holds here holds however they are timed.

    outbox_events ──publish──▸ topic ──deliver──▸ consumer ──▸ outbox_events
                                 │  ▴
                           record│  │replay
                                 ▾  │
                          dead_letter_messages

`Topics` is the invariant: messages and dead letters are copies of events, byte for byte.
An operation made for a copy is `Honest`: it claims the event the copy is of, with its
payload.  `honest_reach` is how a property of the books is shown of every such run.
-/
import Clearance.Fidelity
import Clearance.Refusals
import Clearance.Republication

namespace Clearance

open Transact OperationsService

/-! ## Copies -/

/-- What a message says, apart from its place on the topic. -/
def Message.body (m : Message) : Replayed := ⟨m.topic, m.key, m.value, m.headers⟩

/-- A message at a place. -/
def OperationsService.Replayed.at (b : Replayed) (partition offset : Int) : Message :=
  ⟨b.topic, partition, offset, b.key, b.value, b.headers⟩

theorem Message.body_at (b : Replayed) (partition offset : Int) :
    (b.at partition offset).body = b := rfl

/-- What the publisher writes for an event. -/
def Event.body (P : Platform) (x : Event) : Replayed where
  topic := KafkaBus.topicFor x.type
  key := utf8 x.partitionKey
  value := P.encode x.payload
  headers := KafkaBus.newHeaders x.id x.correlationID

theorem KafkaBus.topicFor_injective {type type' : EventType}
    (h : topicFor type = topicFor type') : type = type' := by
  cases type <;> cases type' <;> first | rfl | exact absurd h (by decide)

/-- The event of a copy. -/
theorem eventID_copy {P : Platform} {m : Message} {x : Event} (h : m.body = x.body P)
    {id : String} (hid : KafkaBus.eventID m = .ok id) : id = x.id := by
  have hheaders : m.headers = KafkaBus.newHeaders x.id x.correlationID :=
    congrArg Replayed.headers h
  rw [KafkaBus.eventID, hheaders] at hid
  simp only [KafkaBus.newHeaders, List.find?_cons_of_pos, beq_self_eq_true] at hid
  split at hid
  · cases hid
  · cases hid
    exact goString_utf8 x.id

theorem type_of_topic {P : Platform} {m : Message} {x : Event} (h : m.body = x.body P)
    {type : EventType} (ht : m.topic = KafkaBus.topicFor type) : x.type = type :=
  KafkaBus.topicFor_injective ((congrArg Replayed.topic h).symm.trans ht)

/-! ## The broker -/

/-- What is written to a topic, and where. -/
inductive Publication where
  | event (id : String) (partition offset : Int)
  | deadLetter (id : String) (partition offset : Int)

/-- The message that is written. -/
def Db.publication (P : Platform) (d : Db) : Publication → Option Message
  | .event id partition offset =>
      (d.outboxEvents.find? id).map fun r => (r.content.body P).at partition offset
  | .deadLetter id partition offset =>
      ((d.deadLetterMessages.find? id).bind fun r => (scanDeadLetter r).toOption).map fun record =>
        (replayed record).at partition offset

/-- The consumer of a topic. -/
def consumerOf (consumerName topic : String) : Bool :=
  (consumerName == RiskService.consumerName && topic == KafkaBus.topicTransactionCreated) ||
    (consumerName == LedgerService.consumerName && topic == KafkaBus.topicRiskEvaluated)

/-- Messages come from their topics, and the store is not called directly. -/
def Request.delivered (topics : List Message) : Request → Bool
  | .handleCreated m _ => decide (m ∈ topics) && m.topic == KafkaBus.topicTransactionCreated
  | .handleEvaluated m _ _ => decide (m ∈ topics) && m.topic == KafkaBus.topicRiskEvaluated
  | .moveDeadLetter consumerName m _ _ => decide (m ∈ topics) && consumerOf consumerName m.topic
  | .store _ => false
  | _ => true

/-- An honest broker, and requests of some kind. -/
@[reducible] def Policy.honest (P : Platform) (admits : Request → Bool) : Policy where
  World := List Message
  Env := Publication
  accept topics r := if admits r && r.delivered topics then some topics else none
  evolve d topics p := (d.publication P p).map fun m => topics ++ [m]

/-- Everything that can be asked. -/
def anything (_ : Request) : Bool := true

/-! ## What an honest run consists of -/

/-- Messages that are handed over are copies of events. -/
def Request.Copied (P : Platform) (b : Books) : Request → Prop
  | .handleCreated m _ => ∃ x ∈ b.events, x.type = .transactionCreated ∧ m.body = x.body P
  | .handleEvaluated m _ _ => ∃ x ∈ b.events, x.type = .riskEvaluated ∧ m.body = x.body P
  | .moveDeadLetter _ m _ _ => ∃ x ∈ b.events, m.body = x.body P
  | .store _ => False
  | _ => True

/-- Operations as the services make them for requests, and for copies of events. -/
def Call.Honest (P : Platform) (b : Books) : Call → Prop
  | .create record event _ => ∃ request metadata draws,
      TransactionService.acceptable request metadata = true ∧
      record = TransactionService.newRecord P request metadata draws ∧
      event = TransactionService.newEvent request metadata draws
  | .createDeposit deposit event _ _ => ∃ maxAmountCents request metadata draws,
      FundingService.acceptable maxAmountCents request metadata = true ∧
      deposit = FundingService.newDeposit P request metadata draws ∧
      event = FundingService.newEvent (FundingService.newTransaction request metadata draws) draws
  | .saveConsumerOutbox delivery payloadHash event _ => ∃ x ∈ b.events, ∃ t draws,
      x.type = .transactionCreated ∧ delivery.consumerName = RiskService.consumerName ∧
      delivery.eventID = x.id ∧ payloadHash = P.sha256 (P.encode x.payload) ∧
      P.decodeTransaction (P.encode x.payload) = .ok t ∧ event = RiskService.newEvent t draws
  | .processRiskEvaluated delivery payloadHash event _ _ => ∃ x ∈ b.events,
      x.type = .riskEvaluated ∧ delivery.consumerName = LedgerService.consumerName ∧
      delivery.eventID = x.id ∧ payloadHash = P.sha256 (P.encode x.payload) ∧
      P.decodeRiskEvaluated (P.encode x.payload) = .ok event
  | .upsertDeadLetter record => ∃ x ∈ b.events, ∃ m : Message,
      m.body = x.body P ∧ record.row.Holds m
  | _ => True

section

variable {P : Platform} {b b' : Books} {c : Call} {r : Request}

theorem Call.Honest.of_minor (h : c.minor = true) : c.Honest P b := by
  cases c with
  | create | createDeposit | saveConsumerOutbox | processRiskEvaluated | upsertDeadLetter => cases h
  | _ => trivial

theorem Call.Honest.proper (h : c.Honest P b) : c.Proper := by
  cases c with
  | create record event now =>
      obtain ⟨_, _, _, _, rfl, rfl⟩ := h
      exact ⟨rfl, rfl, rfl, rfl⟩
  | createDeposit deposit event draws now =>
      obtain ⟨_, _, _, _, _, rfl, rfl⟩ := h
      exact ⟨rfl, rfl, rfl, rfl⟩
  | saveConsumerOutbox delivery payloadHash event now =>
      obtain ⟨_, _, _, _, _, _, _, _, _, rfl⟩ := h
      exact ⟨rfl, _, rfl, rfl⟩
  | _ => trivial

theorem recordFromMessage_holds (consumerName : String) (m : Message) (cause : Option Error)
    (now : Time) :
    (DeadLetterRecorder.recordFromMessage P consumerName m cause now).row.Holds m :=
  ⟨rfl, rfl, rfl, rfl⟩

/-- What is called for a copy is honest. -/
theorem Request.Makes.honest (h : r.Makes P c) (hr : r.Copied P b) : c.Honest P b := by
  cases h with
  | minor h => exact .of_minor h
  | create _ _ hacc => exact ⟨_, _, _, hacc, rfl, rfl⟩
  | deposit _ _ hacc => exact ⟨_, _, _, _, hacc, rfl, rfl⟩
  | @evaluate m draws id t hid ht _ =>
      obtain ⟨x, hx, htype, hbody⟩ := hr
      have hvalue : m.value = P.encode x.payload := congrArg Replayed.value hbody
      rw [hvalue] at ht
      exact ⟨x, hx, t, draws, htype, rfl, eventID_copy hbody hid, congrArg P.sha256 hvalue, ht, rfl⟩
  | @settle m draws now id event hid hevent _ =>
      obtain ⟨x, hx, htype, hbody⟩ := hr
      have hvalue : m.value = P.encode x.payload := congrArg Replayed.value hbody
      rw [hvalue] at hevent
      exact ⟨x, hx, htype, rfl, eventID_copy hbody hid, congrArg P.sha256 hvalue, hevent⟩
  | @record consumerName m cause draws =>
      obtain ⟨x, hx, hbody⟩ := hr
      exact ⟨x, hx, m, hbody, recordFromMessage_holds consumerName m cause draws.now⟩
  | prune => trivial
  | store => exact hr.elim

theorem Books.Step.events_subset (h : b.Step c b') : b.events ⊆ b'.events := by
  cases h with
  | idle => exact List.Subset.refl _
  | pruned _ => exact List.Subset.refl _
  | _ => exact List.subset_append_left _ _

/-- Events stay, so a copy stays a copy. -/
theorem Request.Copied.mono (h : r.Copied P b) (hsub : b.events ⊆ b'.events) :
    r.Copied P b' := by
  cases r with
  | handleCreated m draws =>
      obtain ⟨x, hx, hrest⟩ := h
      exact ⟨x, hsub hx, hrest⟩
  | handleEvaluated m draws now =>
      obtain ⟨x, hx, hrest⟩ := h
      exact ⟨x, hsub hx, hrest⟩
  | moveDeadLetter consumerName m cause draws =>
      obtain ⟨x, hx, hrest⟩ := h
      exact ⟨x, hsub hx, hrest⟩
  | store c => exact h
  | _ => trivial

end

/-! ## The invariant of the topics -/

/-- Messages and dead letters are copies of events. -/
structure Topics (P : Platform) (d : Db) (topics : List Message) : Prop where
  messages : ∀ m ∈ topics, ∃ x ∈ d.books.events, m.body = x.body P
  letters : ∀ r ∈ d.deadLetterMessages.rows, ∃ x ∈ d.books.events, ∃ m : Message,
    m.body = x.body P ∧ r.Holds m

section

variable {P : Platform} {d : Db} {topics : List Message}

theorem Topics.empty : Topics P Db.empty [] := ⟨List.forall_mem_nil _, List.forall_mem_nil _⟩

/-- What is published is a copy. -/
theorem Topics.published (h : Topics P d topics) {p : Publication} {m : Message}
    (hm : d.publication P p = some m) : Topics P d (topics ++ [m]) := by
  refine ⟨List.forall_mem_append.mpr ⟨h.messages, List.forall_mem_singleton.mpr ?_⟩, h.letters⟩
  cases p with
  | event id partition offset =>
      obtain ⟨r, hr, rfl⟩ := Option.map_eq_some_iff.mp hm
      exact ⟨r.content, List.mem_map_of_mem (Table.mem_of_find? hr), rfl⟩
  | deadLetter id partition offset =>
      obtain ⟨record, hrecord, rfl⟩ := Option.map_eq_some_iff.mp hm
      obtain ⟨r, hr, hscan⟩ := Option.bind_eq_some_iff.mp hrecord
      obtain ⟨x, hx, m, hbody, hholds⟩ := h.letters r (Table.mem_of_find? hr)
      have hscan : scanDeadLetter r = .ok record := by
        cases hres : scanDeadLetter r with
        | error e =>
            rw [hres] at hscan
            cases hscan
        | ok record' =>
            rw [hres] at hscan
            cases hscan
            rfl
      refine ⟨x, hx, ?_⟩
      rw [Message.body_at, hholds.replayed_eq hscan]
      exact hbody

theorem Topics.copied (h : Topics P d topics) {r : Request} (hr : r.delivered topics = true) :
    r.Copied P d.books := by
  cases r with
  | handleCreated m draws =>
      obtain ⟨hm, htopic⟩ := Bool.and_eq_true_iff.mp hr
      obtain ⟨x, hx, hbody⟩ := h.messages m (of_decide_eq_true hm)
      exact ⟨x, hx, type_of_topic hbody (beq_iff_eq.mp htopic), hbody⟩
  | handleEvaluated m draws now =>
      obtain ⟨hm, htopic⟩ := Bool.and_eq_true_iff.mp hr
      obtain ⟨x, hx, hbody⟩ := h.messages m (of_decide_eq_true hm)
      exact ⟨x, hx, type_of_topic hbody (beq_iff_eq.mp htopic), hbody⟩
  | moveDeadLetter consumerName m cause draws =>
      exact h.messages m (of_decide_eq_true (Bool.and_eq_true_iff.mp hr).1)
  | store c => cases hr
  | _ => trivial

/-- Operations leave the topics alone, and what they record is a copy. -/
theorem Topics.op {c : Call} {o : Op (dialect P.hashtext).engine Error c.Reply}
    (h : Topics P o.before topics) (hc : c.Honest P (Db.books o.before))
    (ho : (contract P.hashtext).Allows c o) : Topics P (view o.before o.writes) topics := by
  have hsub : (Db.books o.before).events ⊆ (Db.books (view o.before o.writes)).events :=
    (allows_outcome ho).step.events_subset
  refine ⟨fun m hm => ?_, fun row hrow => ?_⟩
  · obtain ⟨x, hx, hbody⟩ := h.messages m hm
    exact ⟨x, hsub hx, hbody⟩
  · rcases (allows_letters ho).row hrow with hold | ⟨record, rfl, _, rfl⟩ | ⟨old, u, hold, rfl, _⟩
    · obtain ⟨x, hx, hrest⟩ := h.letters row hold
      exact ⟨x, hsub hx, hrest⟩
    · obtain ⟨x, hx, hrest⟩ := hc
      exact ⟨x, hsub hx, hrest⟩
    · obtain ⟨x, hx, m, hbody, hholds⟩ := h.letters old hold
      exact ⟨x, hsub hx, m, hbody, hholds.apply u⟩

end

/-! ## Whole runs -/

/-- What is known of a run with an honest broker, `I` being kept by every operation and `ok`
holding of each. -/
structure HonestRun {P : Platform} {admits : Request → Bool} (ok : Call → Prop) (I : Books → Prop)
    (s : SystemState P (.honest P admits)) : Prop where
  reach : AReach (contract P.hashtext) ⟨Db.empty, [], [], []⟩ s.abs
  traced : Traced (contract P.hashtext) s.abs
  topics : Topics P s.db s.world
  inv : I s.db.books
  requests : ∀ t ∈ s.tasks, admits t.request = true ∧ Request.Copied P s.db.books t.request
  entries : ∀ e ∈ s.log, I (Db.books e.op.before) ∧ ok e.call ∧
    Call.Honest P (Db.books e.op.before) e.call

section

variable {P : Platform} {admits : Request → Bool} {ok : Call → Prop} {I : Books → Prop}

theorem honest_safe (hok : ∀ {r c}, admits r = true → Request.Makes P r c → ok c)
    (hstep : ∀ {b b' c}, I b → ok c → Call.Honest P b c → b.Step c b' → I b') :
    Safe (system P (.honest P admits)) (contract P.hashtext)
      (fun d topics g => Topics P d topics ∧ I d.books ∧
        ∀ e ∈ g, I (Db.books e.op.before) ∧ ok e.call ∧
          Call.Honest P (Db.books e.op.before) e.call)
      fun r d => admits r = true ∧ Request.Copied P d.books r where
  arrive := by
    rintro d topics g r topics' ⟨ht, hI, hg⟩ hw
    obtain ⟨hr, hw⟩ := Option.ite_none_right_eq_some.mp hw
    cases hw
    obtain ⟨hadmits, hdelivered⟩ := Bool.and_eq_true_iff.mp hr
    exact ⟨⟨ht, hI, hg⟩, hadmits, ht.copied hdelivered⟩
  env := by
    rintro d topics g p topics' ⟨ht, hI, hg⟩ hw
    obtain ⟨m, hm, rfl⟩ := Option.map_eq_some_iff.mp hw
    exact ⟨ht.published hm, hI, hg⟩
  op := by
    rintro d topics g r c o i ⟨ht, hI, hg⟩ ⟨hadmits, hcopied⟩ hc ho rfl
    have hmakes : r.Makes P c := Request.makes hc
    have hhonest := hmakes.honest hcopied
    have hthis := hok hadmits hmakes
    refine ⟨ht.op hhonest ho, hstep hI hthis hhonest (allows_outcome ho).step, ?_⟩
    exact List.forall_mem_append.mpr ⟨hg, List.forall_mem_singleton.mpr ⟨hI, hthis, hhonest⟩⟩
  stable := by
    rintro d topics g r r' c o _ _ _ ho rfl ⟨hadmits, hcopied⟩
    exact ⟨hadmits, hcopied.mono (allows_outcome ho).step.events_subset⟩

/-- What every honest operation keeps of the books holds throughout every honest run. -/
theorem honest_reach (hok : ∀ {r c}, admits r = true → Request.Makes P r c → ok c)
    (hstep : ∀ {b b' c}, I b → ok c → Call.Honest P b c → b.Step c b' → I b')
    (h₀ : I Db.empty.books) {es : List (Transact.Event (system P (.honest P admits)))}
    {s : SystemState P (.honest P admits)}
    (h : (State.init Db.empty [] : SystemState P (.honest P admits)).steps es = some s) :
    HonestRun ok I s := by
  have hreach := State.reach_abs (store_sound P.hashtext) h
  obtain ⟨⟨htopics, hI, hlog⟩, hknown⟩ := (honest_safe hok hstep).reach
    (Kept.init ⟨Topics.empty, h₀, List.forall_mem_nil _⟩) hreach
  refine ⟨hreach, traced_reach hreach, htopics, hI, fun t ht => ?_, hlog⟩
  exact (hknown t.abs (List.mem_map_of_mem ht)).1

end

end Clearance
