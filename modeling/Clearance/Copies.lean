/-
# `Clearance.Copies` — one event, one message

However often an event is published, dead-lettered and replayed, every message about it
is the same, byte for byte: its row in the outbox never changes in what is published, and
what is recorded of a message is replayed as it was.  So a consumer that meets an event
again meets the payload it has claimed it with, and `ErrEventIdentityConflict` is never
reported (`no_identity_conflict`).
-/
import Clearance.Broker
import Clearance.Outbox

namespace Clearance

open Transact OperationsService

/-! ## What is published -/

section

variable {P : Platform} {admits : Request → Bool}

/-- What has been written to a topic, what publishers have been handed out to publish, and
what replays publish. -/
inductive Published (s : SystemState P (.honest P admits)) : Replayed → Prop
  | written {m : Message} : m ∈ s.world → Published s m.body
  | handed {e : LogEntry P} {event : OutboxEvent} : e ∈ s.log →
      handedOut e.call e.op.answer = some event → Published s (event.content.body P)
  | replayed {i : Nat} {id : String} {b : Replayed} {answer : Option Error} :
      republication s i = some (id, b, answer) → Published s b

/-- What an operation hands out is a row. -/
theorem OutboxStep.handed {t t' : OutboxTable} {c : Call} {event : OutboxEvent}
    (h : OutboxStep t c (some event) t') : ∃ row ∈ t.rows, event.content = row.content := by
  cases h with
  | claimed hrow _ => exact ⟨_, Table.mem_of_find? hrow, rfl⟩

/-- What a publisher is handed out is in the outbox. -/
theorem handedOut_content {c : Call} {o : Op (dialect P.hashtext).engine Error c.Reply}
    (ho : (contract P.hashtext).Allows c o) {event : OutboxEvent}
    (h : handedOut c o.answer = some event) : event.content ∈ (Db.books o.before).events := by
  have hreply : handedOut c o.reply = some event := by
    cases hanswer : o.answer with
    | error e =>
        rw [hanswer] at h
        cases c <;> cases h
    | ok a =>
        rw [hanswer] at h
        rw [ho.told hanswer]
        exact h
  have hstep := allows_outbox ho
  rw [hreply] at hstep
  obtain ⟨row, hrow, hcontent⟩ := hstep.handed
  rw [hcontent]
  exact List.mem_map_of_mem hrow

theorem events_since {s : SystemState P (.honest P admits)}
    (h : AReach (contract P.hashtext) ⟨Db.empty, [], [], []⟩ s.abs) {e : LogEntry P}
    (he : e ∈ s.log) : (Db.books e.op.before).events ⊆ s.db.books.events := by
  intro x hx
  obtain ⟨g, g', hlog⟩ := List.append_of_mem he
  obtain ⟨s₁, _, _, hdb, hlater⟩ := h.before rfl hlog
  rw [← hdb] at hx
  exact later_reach (R := fun d d' : Db => d.books.events ⊆ d'.books.events)
    (fun _ => List.Subset.refl _)
    (fun hsub ho => List.Subset.trans hsub (allows_outcome ho).step.events_subset) hlater hx

end

/-! ## What is claimed -/

/-- Events are claimed with their payload. -/
def Booked (P : Platform) (b : Books) : Prop :=
  ∀ c ∈ b.claims, ∃ x ∈ b.events, x.id = c.eventID ∧ c.payloadSHA256 = P.sha256 (P.encode x.payload)

theorem Booked.empty (P : Platform) : Booked P Db.empty.books := List.forall_mem_nil _

theorem Booked.step {P : Platform} {b b' : Books} {c : Call} (h : Booked P b)
    (hc : c.Honest P b) (hs : b.Step c b') : Booked P b' := by
  have hold : ∀ c ∈ b.claims, ∃ x ∈ b'.events, x.id = c.eventID ∧
      c.payloadSHA256 = P.sha256 (P.encode x.payload) := by
    intro c hmem
    obtain ⟨x, hx, hrest⟩ := h c hmem
    exact ⟨x, hs.events_subset hx, hrest⟩
  cases hs with
  | idle => exact hold
  | created _ _ _ _ => exact hold
  | deposited _ _ _ _ _ => exact hold
  | pruned hsub => exact fun c hmem => hold c (hsub.subset hmem)
  | evaluated _ _ =>
      obtain ⟨x, hx, _, _, _, _, hid, hhash, _⟩ := hc
      exact List.forall_mem_append.mpr ⟨hold, List.forall_mem_singleton.mpr
        ⟨x, List.mem_append_left _ hx, hid.symm, hhash⟩⟩
  | settled _ _ _ _ _ _ _ =>
      obtain ⟨x, hx, _, _, hid, hhash, _⟩ := hc
      exact List.forall_mem_append.mpr ⟨hold, List.forall_mem_singleton.mpr
        ⟨x, List.mem_append_left _ hx, hid.symm, hhash⟩⟩

/-- The event and the payload of an honest consumer. -/
theorem Call.Honest.claims {P : Platform} {b : Books} {c : Call} (h : c.Honest P b)
    {delivery : Delivery} {payloadHash : Digest} (hc : c.claim? = some (delivery, payloadHash)) :
    ∃ x ∈ b.events, delivery.eventID = x.id ∧ payloadHash = P.sha256 (P.encode x.payload) := by
  cases c with
  | saveConsumerOutbox =>
      cases hc
      obtain ⟨x, hx, _, _, _, _, hid, hhash, _⟩ := h
      exact ⟨x, hx, hid, hhash⟩
  | processRiskEvaluated =>
      cases hc
      obtain ⟨x, hx, _, _, hid, hhash, _⟩ := h
      exact ⟨x, hx, hid, hhash⟩
  | _ => cases hc

theorem Db.event_eq {d : Db} {x x' : Event} (hx : x ∈ d.books.events) (hx' : x' ∈ d.books.events)
    (hid : x.id = x'.id) : x = x' := by
  obtain ⟨r, hr, rfl⟩ := List.mem_map.mp hx
  obtain ⟨r', hr', rfl⟩ := List.mem_map.mp hx'
  rw [d.outboxEvents.eq_of_key_eq hr hr' hid]

/-- A consumer that finds its event claimed finds its payload. -/
theorem Booked.refused {P : Platform} {d : Db} (h : Booked P d.books) {c : Call} {e : Error}
    (hc : c.Honest P d.books) (hr : Refusal d c e) : e.is .eventIdentityConflict = false := by
  cases hr with
  | driver hdriver => exact hdriver.1
  | @conflict c delivery payloadHash row hclaim hrow hne =>
      obtain ⟨x, hx, hid, hhash⟩ := hc.claims hclaim
      obtain ⟨x', hx', hid', hhash'⟩ := h row.claim (List.mem_map_of_mem (Table.mem_of_find? hrow))
      have hkey := Table.key_of_find? hrow
      obtain ⟨_, heventID⟩ := Prod.mk.inj hkey
      have hsame : x' = x := Db.event_eq hx' hx (hid'.trans (heventID.trans hid))
      subst hsame
      exact absurd (hhash'.trans hhash.symm) hne
  | unmatched hcheck =>
      unfold checkPending at hcheck
      split at hcheck
      · cases hcheck
        rfl
      · split at hcheck
        · cases hcheck
          rfl
        · split at hcheck
          · cases hcheck
            rfl
          · cases hcheck
  | changed => rfl

/-! ## Runs -/

/-- What an honest run says of the identity of events. -/
structure Identified {P : Platform} {admits : Request → Bool}
    (s : SystemState P (.honest P admits)) : Prop where
  /-- Whatever is published is what the outbox says. -/
  copies : ∀ b, Published s b → ∃ r ∈ s.db.outboxEvents.rows, b = r.content.body P
  /-- Messages about one event are the same. -/
  identical : ∀ (m m' : Message) (id : String), Published s m.body → Published s m'.body →
    KafkaBus.eventID m = .ok id → KafkaBus.eventID m' = .ok id →
    m.topic = m'.topic ∧ m.key = m'.key ∧ m.value = m'.value ∧ m.headers = m'.headers
  /-- No consumer reports a conflict. -/
  unconflicted : ∀ e ∈ s.log, e.call.claim?.isSome = true → ∀ err, e.op.answer = .error err →
    err.is .eventIdentityConflict = false

section

variable {P : Platform} {admits : Request → Bool} {s : SystemState P (.honest P admits)}

/-- Whatever is published is a copy. -/
theorem Published.copy {b : Replayed} (hpub : Published s b) {ok : Call → Prop} {I : Books → Prop}
    (h : HonestRun ok I s) : ∃ x ∈ s.db.books.events, b = x.body P := by
  cases hpub with
  | written hm => exact h.topics.messages _ hm
  | handed he hevent =>
      have hx := handedOut_content (h.traced.allowed _ he) hevent
      exact ⟨_, events_since h.reach he hx, rfl⟩
  | replayed hrep =>
      obtain ⟨reason, draws, record, attemptID, hbegun, rfl, _⟩ := begun_of_republication h.traced hrep
      obtain ⟨get, hget, hanswer⟩ := hbegun.found
      have he := mem_of_own hget
      obtain ⟨row, hrow, hscan⟩ := found_of_answer (h.traced.allowed _ he) hanswer
      -- the dead letter was a copy when it was looked up
      obtain ⟨g, g', hlog⟩ := List.append_of_mem he
      obtain ⟨s₁, hreach, _, hdb, _⟩ := h.reach.before rfl hlog
      have hsafe := @honest_safe P admits (fun _ => True) (fun _ => True) (fun _ _ => trivial)
        fun _ _ _ _ => trivial
      have hkept := hsafe.reach (Kept.init ⟨Topics.empty, trivial, List.forall_mem_nil _⟩) hreach
      have htopics : Topics P get.before s₁.world := hdb ▸ hkept.inv.1
      obtain ⟨x, hx, m, hbody, hholds⟩ := htopics.letters row (Table.mem_of_find? hrow)
      exact ⟨x, events_since h.reach he hx, (hholds.replayed_eq hscan).trans hbody⟩

end

/-- With an honest broker, whatever else happens, an event is known by one message only. -/
theorem no_identity_conflict (P : Platform)
    (es : List (Transact.Event (system P (.honest P anything))))
    (s : SystemState P (.honest P anything))
    (h : (State.init Db.empty [] : SystemState P (.honest P anything)).steps es = some s) :
    Identified s := by
  have hrun : HonestRun (fun _ => True) (Booked P) s :=
    honest_reach (fun _ _ => trivial) (fun hb _ hc hs => hb.step hc hs) (Booked.empty P) h
  refine ⟨fun b hb => ?_, ?_, ?_⟩
  · obtain ⟨x, hx, rfl⟩ := hb.copy hrun
    obtain ⟨r, hr, rfl⟩ := List.mem_map.mp hx
    exact ⟨r, hr, rfl⟩
  · intro m m' id hm hm' hid hid'
    obtain ⟨x, hx, hbody⟩ := hm.copy hrun
    obtain ⟨x', hx', hbody'⟩ := hm'.copy hrun
    have hsame : x = x' :=
      Db.event_eq hx hx' ((eventID_copy hbody hid).symm.trans (eventID_copy hbody' hid'))
    have hbodies : m.body = m'.body := by rw [hbody, hbody', hsame]
    exact ⟨congrArg Replayed.topic hbodies, congrArg Replayed.key hbodies,
      congrArg Replayed.value hbodies, congrArg Replayed.headers hbodies⟩
  · intro e he hclaim err herr
    obtain ⟨hbooked, _, hhonest⟩ := hrun.entries e he
    exact hbooked.refused hhonest (consumer_refused (hrun.traced.allowed e he) hclaim herr)

/-- The draws of a payment of 5.00. -/
def copiedDraws : TransactionService.Draws where
  transaction := .fill 32 0
  event := .fill 32 0
  createdAt := 0
  updatedAt := 0
  eventAt := 0
  now := 0

/-- Its event, on its topic. -/
def copiedMessage (offset : Int) : Message :=
  ((TransactionService.newEvent ⟨"alice", "shop", 500, "USD"⟩ ⟨"key-1", "trace-1"⟩
    copiedDraws).content.body .framed).at 0 offset

/-- What becomes of it. -/
def copiedRequests : List Request :=
  [.create ⟨"alice", "shop", 500, "usd"⟩ ⟨"key-1", "trace-1"⟩ copiedDraws,
    .publishNext 3 ⟨0, fun _ => none, 0⟩,
    .handleCreated (copiedMessage 0) ⟨.fill 32 1, 0, 0⟩,
    .moveDeadLetter "risk-service" (copiedMessage 0) none ⟨0, fun _ => none, 0⟩,
    .handleCreated (copiedMessage 1) ⟨.fill 32 2, 0, 0⟩]

/-- The event is published, handled, recorded as a dead letter, replayed, and handled again. -/
def copiedRun : List (Transact.Event (system .framed (.honest .framed anything))) :=
  List.flatten
    [(copiedRequests.take 1).map .arrive, List.replicate 6 (.run 0),
      [.env (.event (newID "evt" (.fill 32 0)) 0 0)],
      ((copiedRequests.drop 1).take 3).map .arrive, List.replicate 2 (.run 1),
      List.replicate 4 (.run 2), List.replicate 2 (.run 3),
      [.env (.deadLetter
        (DeadLetterRecorder.deterministicID .framed "risk-service" (copiedMessage 0)) 0 1)],
      (copiedRequests.drop 4).map .arrive, List.replicate 4 (.run 4)]

theorem no_identity_conflict_copied :
    ∃ s : SystemState .framed (.honest .framed anything),
      (State.init Db.empty []).steps copiedRun = some s ∧
      s.world = [copiedMessage 0, copiedMessage 1] ∧ s.log.length = 8 ∧ Identified s := by
  have h : ((State.init Db.empty [] : SystemState .framed (.honest .framed anything)).steps
      copiedRun).map (fun s => (s.world, s.log.length)) =
        some ([copiedMessage 0, copiedMessage 1], 8) := by
    decide +kernel
  obtain ⟨s, hs, hview⟩ := Option.map_eq_some_iff.mp h
  obtain ⟨hworld, hlength⟩ := Prod.mk.inj hview
  exact ⟨s, hs, hworld, hlength, no_identity_conflict .framed copiedRun s hs⟩

end Clearance
