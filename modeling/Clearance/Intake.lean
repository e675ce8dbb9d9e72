/-
# `Clearance.Intake` — a copy of an event is always taken

A consumer has many reasons to refuse a message.  Of a copy of an event none of them is
left after an honest run in which nothing was pruned:

    the event id      was generated, so the header is there and passes its CHECK
    the payload       can be read, and nothing is missing from it
    the claim         of the event, if there is one, was made with this payload
    the payment       is pending, if its evaluation has not been claimed
    the balance       is a `bigint`
    the entries       of a pending payment have not been made
    the new rows      pass their CHECKs, and their identifiers are new

So the handlers of both services return nil, and leave the event claimed
(`RiskService.takes`, `LedgerService.takes`).
-/
import Clearance.Compatibility
import Clearance.Copies
import Clearance.Ranges
import Clearance.Standing
import Clearance.Successors

namespace Clearance

open Transact OperationsService

/-! ## The books of an honest run -/

/-- What is in order as long as the broker is honest and nothing is pruned. -/
structure Orderly (P : Platform) (b : Books) : Prop where
  balanced : Balanced b
  reported : Reported b
  documented : Documented b
  fitting : Fitting b
  successive : Successive b
  booked : Booked P b
  solvent : Solvent b
  checked : ∀ t ∈ b.transactions, Tab.check (t := .transactions) t = none
  minted : ∀ x ∈ b.events, ∃ r, x.id = newID "evt" r

/-- What the router and the operators see to. -/
def Call.Regular (c : Call) : Prop := c.Traceable ∧ c.keepsClaims = true

theorem Orderly.empty (P : Platform) : Orderly P Db.empty.books where
  balanced := .empty
  reported := .empty
  documented := .empty
  fitting := .empty
  successive := .empty
  booked := .empty P
  solvent _ _ _ := le_rfl
  checked := List.forall_mem_nil _
  minted := List.forall_mem_nil _

section

variable {P : Platform} {b b' : Books} {c : Call}

theorem checked_step (h : ∀ t ∈ b.transactions, Tab.check (t := .transactions) t = none)
    (hs : b.Step c b') : ∀ t ∈ b'.transactions, Tab.check (t := .transactions) t = none := by
  cases hs with
  | idle => exact h
  | evaluated _ _ => exact h
  | pruned _ => exact h
  | created _ _ _ hc =>
      exact List.forall_mem_append.mpr ⟨h, List.forall_mem_singleton.mpr hc⟩
  | deposited _ _ _ _ hc =>
      exact List.forall_mem_append.mpr ⟨h, List.forall_mem_singleton.mpr hc⟩
  | settled _ _ ht _ _ _ hc =>
      rw [ht, List.forall_mem_append, List.forall_mem_cons] at h
      exact List.forall_mem_append.mpr ⟨h.1, List.forall_mem_cons.mpr ⟨hc, h.2.2⟩⟩

/-- The ids of events are generated. -/
theorem minted_step (h : ∀ x ∈ b.events, ∃ r, x.id = newID "evt" r) (hc : c.Honest P b)
    (hs : b.Step c b') : ∀ x ∈ b'.events, ∃ r, x.id = newID "evt" r := by
  cases hs with
  | idle => exact h
  | pruned _ => exact h
  | created _ _ _ _ =>
      obtain ⟨_, _, draws, _, _, rfl⟩ := hc
      exact List.forall_mem_append.mpr ⟨h, List.forall_mem_singleton.mpr ⟨draws.event, rfl⟩⟩
  | deposited _ _ _ _ _ =>
      obtain ⟨_, _, _, draws, _, _, rfl⟩ := hc
      exact List.forall_mem_append.mpr ⟨h, List.forall_mem_singleton.mpr ⟨draws.event, rfl⟩⟩
  | evaluated _ _ =>
      obtain ⟨_, _, _, draws, _, _, _, _, _, rfl⟩ := hc
      exact List.forall_mem_append.mpr ⟨h, List.forall_mem_singleton.mpr ⟨draws.event, rfl⟩⟩
  | @settled _ _ _ draws =>
      exact List.forall_mem_append.mpr ⟨h, List.forall_mem_singleton.mpr ⟨draws.event, rfl⟩⟩

theorem Orderly.step (h : Orderly P b) (hP : P.Truthful) (hok : c.Regular) (hc : c.Honest P b)
    (hs : b.Step c b') : Orderly P b' where
  balanced := h.balanced.step hc.proper hs
  reported := h.reported.step h.balanced hc.proper hs
  documented := h.documented.step hc.proper hs
  fitting := h.fitting.step hP hok.1 hc hs
  successive := h.successive.step h.fitting.routed hP hok.2 hc hs
  booked := h.booked.step hc hs
  solvent := h.solvent.step hs
  checked := checked_step h.checked hs
  minted := minted_step h.minted hc hs

end

/-- Books in order, with balances that can be read. -/
structure Ready (P : Platform) (d : Db) : Prop where
  orderly : Orderly P d.books
  inRange : InRange d.books

section

variable {P : Platform} {d : Db}

theorem Ready.of_books {d' : Db} (h : Ready P d) (hbooks : d'.books = d.books) : Ready P d' := by
  constructor
  · rw [hbooks]
    exact h.orderly
  · rw [hbooks]
    exact h.inRange

/-- Operations as the services make them leave everything ready. -/
theorem Ready.op (h : Ready P d) (hP : P.Truthful) {c : Call} (hok : c.Regular)
    (hc : c.Honest P d.books) {res : Except Error c.Reply} {w : List schema.Write}
    (hspec : (contract P.hashtext).spec c d res w) : Ready P (view d w) where
  orderly := h.orderly.step hP hok hc (storeSpec_outcome hspec).step
  inRange := InRange.op (Contract.Allows.committed hspec) h.inRange

end

/-! ## What follows from what -/

/-- Claims and the events that follow from them, row by row. -/
structure Chained (d : Db) : Prop where
  evaluations : ((d.ofType .riskEvaluated).map OutboxRow.aggregateID).Nodup
  evaluated : OneToOne (fun p r => d.ClaimFor .transactionCreated p (OutboxRow.aggregateID r))
    (d.claimsOf RiskService.consumerName) (d.ofType .riskEvaluated)
  settled : OneToOne (fun p r => d.ClaimFor .riskEvaluated p (OutboxRow.aggregateID r))
    (d.claimsOf LedgerService.consumerName) d.outcomes

section

variable {P : Platform} {d : Db}

theorem Orderly.chained (h : Orderly P d.books) : Chained d := by
  have hcreated : ((d.ofType .transactionCreated).map OutboxRow.aggregateID).Nodup := by
    rw [d.map_ofType, h.documented.created]
    exact d.nodup_ofKind .payment
  obtain ⟨hevaluations, hevaluated⟩ :=
    oneToOne_claims (d.content_ofType .riskEvaluated ▸ h.successive.evaluated) hcreated
  obtain ⟨-, hsettled⟩ := oneToOne_claims (d.content_outcomes ▸ h.successive.settled) hevaluations
  exact ⟨hevaluations, hevaluated, hsettled⟩

/-- Payments are announced. -/
theorem Orderly.mem_created (h : Orderly P d.books) {id : String} :
    (∃ r ∈ d.ofType .transactionCreated, r.aggregateID = id) ↔
      ∃ t ∈ d.ofKind .payment, t.id = id := by
  have hsame : (d.ofType .transactionCreated).map OutboxRow.aggregateID =
      (d.ofKind .payment).map TransactionRow.id := (d.map_ofType _).trans h.documented.created
  rw [← List.mem_map, hsame, List.mem_map]

/-- A transaction with an evaluation is a payment. -/
theorem Orderly.payment (h : Orderly P d.books) {r : OutboxRow}
    (hr : r ∈ d.ofType .riskEvaluated) {t : TransactionRow} (ht : t ∈ d.transactions.rows)
    (hid : r.aggregateID = t.id) : t ∈ d.ofKind .payment := by
  obtain ⟨p, ⟨-, x, hx, -, haggregate⟩, -⟩ := h.chained.evaluated.left r hr
  obtain ⟨t', ht', hid'⟩ := h.mem_created.mp ⟨x, hx, rfl⟩
  have hsame : t' = t := d.transactions.eq_of_key_eq (List.mem_filter.mp ht').1 ht
    (hid'.trans (haggregate.trans hid))
  exact hsame ▸ ht'

/-- An evaluation nobody has claimed is that of a pending payment. -/
theorem Orderly.pending (h : Orderly P d.books) {r : OutboxRow}
    (hr : r ∈ d.ofType .riskEvaluated)
    (hnew : ∀ p ∈ d.claimsOf LedgerService.consumerName, p.eventID ≠ r.id) {t : TransactionRow}
    (ht : t ∈ d.transactions.rows) (hid : r.aggregateID = t.id) : t.status = .pending := by
  by_contra hdecided
  have hmem : t ∈ d.decided :=
    List.mem_filter.mpr ⟨h.payment hr ht hid, by simpa using hdecided⟩
  -- the outcome of a decided payment follows from the claim of an evaluation, and there is but one
  obtain ⟨y, ⟨hy, haggregate⟩, -⟩ := h.reported.oneToOne.left t hmem
  obtain ⟨p, ⟨hp, x, hx, hclaimed, hsame⟩, -⟩ := h.chained.settled.left y hy
  have heq : x = r := List.inj_on_of_nodup_map h.chained.evaluations hx hr
    (hsame.trans (haggregate.trans hid.symm))
  exact hnew p hp (hclaimed.symm.trans (congrArg OutboxRow.id heq))

/-- The consumer has dealt with all events of the type. -/
def Books.Dealt (b : Books) (consumerName : String) (type : EventType) : Prop :=
  ∀ x ∈ b.events, x.type = type → ∃ hash, ⟨consumerName, x.id, hash⟩ ∈ b.claims

theorem Books.Dealt.row {name : String} {type : EventType} (h : d.books.Dealt name type)
    {r : OutboxRow} (hr : r ∈ d.ofType type) : ∃ p ∈ d.claimsOf name, p.eventID = r.id := by
  obtain ⟨hrow, htype⟩ := List.mem_filter.mp hr
  obtain ⟨hash, hclaim⟩ := h r.content (List.mem_map_of_mem hrow) (beq_iff_eq.mp htype)
  obtain ⟨p, hp, heq⟩ := List.mem_map.mp hclaim
  have hname : p.consumerName = name := congrArg Claim.consumerName heq
  exact ⟨p, List.mem_filter.mpr ⟨hp, beq_iff_eq.mpr hname⟩, congrArg Claim.eventID heq⟩

/-- When all events are dealt with, all payments are decided. -/
theorem Orderly.decided (h : Orderly P d.books)
    (hrisk : d.books.Dealt RiskService.consumerName .transactionCreated)
    (hledger : d.books.Dealt LedgerService.consumerName .riskEvaluated) :
    ∀ t ∈ d.transactions.rows, t.status ≠ .pending := by
  intro t ht hpending
  have hkind := h.balanced.payment_of_pending ht hpending
  have hpayment : t ∈ d.ofKind .payment := List.mem_filter.mpr ⟨ht, beq_iff_eq.mpr hkind⟩
  -- from the payment to its evaluation, and on to its outcome
  obtain ⟨x, hx, hxt⟩ := h.mem_created.mpr ⟨t, hpayment, rfl⟩
  obtain ⟨p, hp, hpx⟩ := hrisk.row hx
  obtain ⟨r, ⟨hr, x', hx', hpx', hxr⟩, -⟩ := h.chained.evaluated.right p hp
  have hxx : x' = x := d.outboxEvents.eq_of_key_eq (List.mem_filter.mp hx').1
    (List.mem_filter.mp hx).1 (hpx'.trans hpx)
  obtain ⟨q, hq, hqr⟩ := hledger.row hr
  obtain ⟨y, ⟨hy, r', hr', hqr', hry⟩, -⟩ := h.chained.settled.right q hq
  have hrr : r' = r := d.outboxEvents.eq_of_key_eq (List.mem_filter.mp hr').1
    (List.mem_filter.mp hr).1 (hqr'.trans hqr)
  obtain ⟨t', ⟨ht', hyt⟩, -⟩ := h.reported.oneToOne.right y hy
  have hid : t'.id = t.id :=
    calc t'.id = y.aggregateID := hyt.symm
      _ = r'.aggregateID := hry.symm
      _ = x'.aggregateID := by rw [hrr, hxr]
      _ = t.id := by rw [hxx, hxt]
  obtain ⟨hpayment', hstatus⟩ := List.mem_filter.mp ht'
  have hsame : t' = t := d.transactions.eq_of_key_eq (List.mem_filter.mp hpayment').1 ht hid
  rw [hsame, hpending] at hstatus
  cases hstatus

/-- The events of ready books have correlation ids that pass their CHECK. -/
theorem Orderly.correlation (h : Orderly P d.books) {x : Event} (hx : x ∈ d.books.events) :
    safeToken x.correlationID = true := by
  obtain ⟨t, ht, habout⟩ := h.fitting.routed.about x hx
  rw [habout.correlation]
  have hchecks := firstViolated_eq_none.mp (h.checked t ht)
  simp only [TransactionRow.checks, List.forall_mem_cons] at hchecks
  exact hchecks.2.2.1

end

/-! ## Identifiers -/

theorem safeToken_newID (r : Random) : safeToken (newID "evt" r) = true := by
  have hhex : ∀ c ∈ r.text.toList, isSafeChar c = true := fun c hc =>
    DeadLetterRecorder.isSafeChar_of_isHexDigit (List.all_eq_true.mp r.digits c hc)
  simp only [safeToken, newID, String.toList_append, List.length_append, r.length_eq,
    List.all_append, List.all_eq_true.mpr hhex]
  decide

theorem RiskService.safeToken_consumerName : safeToken RiskService.consumerName = true := by decide

theorem LedgerService.safeToken_consumerName : safeToken LedgerService.consumerName = true := by
  decide

/-- A copy carries the id of its event. -/
theorem eventID_of_copy {P : Platform} {m : Message} {x : Event} (h : m.body = x.body P)
    (hne : x.id ≠ "") : KafkaBus.eventID m = .ok x.id := by
  cases hid : KafkaBus.eventID m with
  | ok id => rw [eventID_copy h hid]
  | error e =>
      have hheaders : m.headers = KafkaBus.newHeaders x.id x.correlationID :=
        congrArg Replayed.headers h
      rw [KafkaBus.eventID, hheaders] at hid
      simp only [KafkaBus.newHeaders, List.find?_cons_of_pos, beq_self_eq_true] at hid
      split at hid
      · next hempty =>
          have hnil : utf8 x.id = [] := List.isEmpty_iff.mp hempty
          have hid := goString_utf8 x.id
          rw [hnil] at hid
          exact absurd hid.symm hne
      · cases hid

/-- None of these random numbers has been used for an event or an entry. -/
structure Books.Unused (b : Books) (random : Set Random) : Prop where
  events : ∀ r ∈ random, ∀ x ∈ b.events, x.id ≠ newID "evt" r
  entries : ∀ r ∈ random, ∀ e ∈ b.ledger, e.id ≠ newID "le" r

/-! ## What a consumer does with a copy -/

/-- All that is new are claims, events that wait and entries, under identifiers that were drawn
for them. -/
structure Grew (P : Platform) (produces : EventType → Bool) (random : Set Random)
    (d d' : Db) : Prop where
  ready : Ready P d'
  claims : d.books.claims ⊆ d'.books.claims
  kept : d.books.events ⊆ d'.books.events
  events : ∀ y ∈ d'.books.events, y ∈ d.books.events ∨
    (produces y.type = true ∧ ∃ r ∈ random, y.id = newID "evt" r)
  entries : ∀ e ∈ d'.books.ledger, e ∈ d.books.ledger ∨ ∃ r ∈ random, e.id = newID "le" r
  rows : ∀ row ∈ d'.outboxEvents.rows, row ∈ d.outboxEvents.rows ∨ row.status = .pending

/-- The copy of `x` has been taken. -/
structure Took (P : Platform) (consumerName : String) (produces : EventType → Bool)
    (random : Set Random) (x : Event) (d d' : Db) : Prop extends Grew P produces random d d' where
  claimed : ∃ hash, ⟨consumerName, x.id, hash⟩ ∈ d'.books.claims

section

variable {P : Platform} {produces : EventType → Bool} {R R' : Set Random} {d d' d'' : Db}

theorem Grew.refl (h : Ready P d) : Grew P produces R d d :=
  ⟨h, List.Subset.refl _, List.Subset.refl _, fun _ hy => Or.inl hy, fun _ he => Or.inl he,
    fun _ hr => Or.inl hr⟩

theorem Grew.trans {R'' : Set Random} (h : Grew P produces R d d')
    (h' : Grew P produces R' d' d'') (hR : R ⊆ R'') (hR' : R' ⊆ R'') :
    Grew P produces R'' d d'' where
  ready := h'.ready
  claims := List.Subset.trans h.claims h'.claims
  kept := List.Subset.trans h.kept h'.kept
  events y hy := by
    rcases h'.events y hy with hold | ⟨htype, r, hr, hid⟩
    · exact (h.events y hold).imp_right fun ⟨htype, r, hr, hid⟩ => ⟨htype, r, hR hr, hid⟩
    · exact Or.inr ⟨htype, r, hR' hr, hid⟩
  entries e he := by
    rcases h'.entries e he with hold | ⟨r, hr, hid⟩
    · exact (h.entries e hold).imp_right fun ⟨r, hr, hid⟩ => ⟨r, hR hr, hid⟩
    · exact Or.inr ⟨r, hR' hr, hid⟩
  rows row hrow := by
    rcases h'.rows row hrow with hold | hwaits
    · exact h.rows row hold
    · exact Or.inr hwaits

/-- Other random numbers have not been used. -/
theorem Grew.unused (h : Grew P produces R d d') (hnew : d.books.Unused R')
    (hapart : Disjoint R R') : d'.books.Unused R' where
  events r hr x hx heq := by
    rcases h.events x hx with hold | ⟨-, r', hr', hid⟩
    · exact hnew.events r hr x hold heq
    · exact hapart.ne_of_mem hr' hr (newID_injective (hid.symm.trans heq))
  entries r hr e he heq := by
    rcases h.entries e he with hold | ⟨r', hr', hid⟩
    · exact hnew.entries r hr e hold heq
    · exact hapart.ne_of_mem hr' hr (newID_injective (hid.symm.trans heq))

end

section

variable {P : Platform} {d : Db} {w : List schema.Write} {delivery : Delivery}
  {payloadHash : Digest} {now : Time}

/-- What a consumer adds to the outbox waits. -/
theorem rows_consumed {c : Call} {res : Except Error c.Reply}
    (hspec : (contract P.hashtext).spec c d res w) (hclaim : c.claim?.isSome = true)
    (hwaits : ∀ row, c.Adds row → row.status = .pending) :
    ∀ row ∈ (view d w).outboxEvents.rows, row ∈ d.outboxEvents.rows ∨ row.status = .pending := by
  have hstep := outbox_step hspec
  generalize (view d w).outboxEvents = t at hstep ⊢
  generalize handedOut c res = handed at hstep
  cases hstep with
  | idle => exact fun row hrow => Or.inl hrow
  | added hfree hadds =>
      intro row hrow
      rw [Table.rows_insert hfree] at hrow
      rcases List.mem_append.mp hrow with hold | hnew
      · exact Or.inl hold
      · rw [List.mem_singleton.mp hnew]
        exact Or.inr (hwaits _ hadds)
  | claimed | published | failed | requeued => cases hclaim

/-- A transaction of the store, run alone. -/
theorem transaction_solo {hashtext : String → Int} {α : Type} {message : String}
    {tx : DbTx hashtext (DbCommit hashtext α)} {m : DbMethod hashtext α}
    (hm : m = inTransaction message tx) (d : Db) :
    ∃ res w, RunsTo tx d [] res w ∧ m.solo (dialect hashtext).engine d = (res, view d w) := by
  rw [hm]
  exact ⟨_, _, Tx.runs_of_solo _ tx [], rfl⟩

/-- A handler returns nil if the store does. -/
theorem passOn_solo {c : Call} {context : String} {d' : Db} {a : c.Reply}
    (h : (methodOf c).solo (dialect P.hashtext).engine d = (.ok a, d')) :
    (.call c (passOn context) : Service P (Except Error Unit)).solo (dialect P.hashtext).engine d =
      (.ok (), d') :=
  callStore_solo (k := passOn context) h

/-- A claim that was made with the payload is refreshed. -/
theorem consume_again {hashtext : String → Int} {duplicate : String}
    {work : DbTx hashtext (DbCommit hashtext Bool)} {res : Except Error Bool} {row : ProcessedRow}
    (hname : safeToken delivery.consumerName = true) (hid : safeToken delivery.eventID = true)
    (hfound : d.processedEvents.find? (delivery.consumerName, delivery.eventID) = some row)
    (hhash : row.payloadSHA256 = payloadHash)
    (h : RunsTo (consume delivery payloadHash now duplicate work) d [] res w) :
    res = .ok false := by
  rcases consume_claimed (Claimed.of_find? hfound hname hid) h with ⟨-, hres, -⟩ | ⟨hne, -⟩
  · exact hres
  · exact absurd hhash hne

/-- A new event is claimed, and what follows from it is written. -/
theorem saveConsumerOutbox_made {hashtext : String → Int} {event : OutboxEvent}
    {res : Except Error Bool} (hname : safeToken delivery.consumerName = true)
    (hid : safeToken delivery.eventID = true)
    (hunclaimed : d.processedEvents.find? (delivery.consumerName, delivery.eventID) = none)
    (hfree : d.outboxEvents.find? event.id = none)
    (hcorrelation : safeToken event.correlationID = true)
    (h : RunsTo (saveConsumerOutbox delivery payloadHash event now : DbTx hashtext _) d [] res w) :
    res = .ok true := by
  have hpasses : Tab.check (t := .processedEvents) (processedRow delivery payloadHash now) = none :=
    checkProcessed_eq_none.mpr ⟨hname, hid⟩
  have hclaimable : ∀ u ∈ @Schema.keys schema .processedEvents
      (processedRow delivery payloadHash now), @Schema.taken schema d u = false := by
    refine List.forall_mem_singleton.mpr (Bool.eq_false_iff.mpr fun htaken => ?_)
    exact not_taken_row (t := .processedEvents) hunclaimed htaken
  rw [saveConsumerOutbox, consume_eq] at h
  have h := RunsTo.exec_ok h fun f => Plan.insertOrSkip_ok.mpr ⟨hpasses, Or.inr ⟨hclaimable, rfl⟩⟩
  obtain ⟨u, hu, htaken, -⟩ | ⟨-, h⟩ := RunsTo.insert_row (t := .outboxEvents) h
    (firstViolated_singleton hcorrelation) rfl
  · obtain rfl := List.mem_singleton.mp hu
    exact (not_taken_row (t := .outboxEvents) hfree htaken).elim
  · exact h.ret.1

/-- A claim of an event was made with its payload. -/
theorem Booked.hash (h : Booked P d.books) {x : Event} (hx : x ∈ d.books.events)
    {name : String} {row : ProcessedRow} (hrow : d.processedEvents.find? (name, x.id) = some row) :
    row.payloadSHA256 = P.sha256 (P.encode x.payload) := by
  obtain ⟨x', hx', hid, hhash⟩ := h row.claim (List.mem_map_of_mem (Table.mem_of_find? hrow))
  have hkey := Table.key_of_find? hrow
  obtain ⟨-, heventID⟩ := Prod.mk.inj hkey
  rw [← Db.event_eq hx' hx (hid.trans heventID)]
  exact hhash

theorem find?_unused {id : String} (h : ∀ x ∈ d.books.events, x.id ≠ id) :
    d.outboxEvents.find? id = none :=
  Table.find?_eq_none.mpr fun r hr => h r.content (List.mem_map_of_mem hr)

/-- What an evaluation that is stored leaves. -/
theorem took_evaluation (h : Ready P d) (hP : P.Truthful) {event : OutboxEvent} {x : Event}
    {r : Random} {taken : Bool}
    (hc : Call.Honest P d.books (.saveConsumerOutbox delivery payloadHash event now))
    (hevent : delivery.eventID = x.id) (hid : event.id = newID "evt" r)
    (htype : event.type = .riskEvaluated) (hwaits : event.status = .pending)
    (hrun : RunsTo (saveConsumerOutbox delivery payloadHash event now : DbTx P.hashtext _) d []
      (.ok taken) w) :
    Took P delivery.consumerName (· == .riskEvaluated) {r} x d (view d w) := by
  have hspec : ConsumerSpec delivery (saveConsumerOutbox delivery payloadHash event now :
    DbTx P.hashtext _) d (.ok taken) w := Or.inl hrun
  have hspec' : (contract P.hashtext).spec (.saveConsumerOutbox delivery payloadHash event now) d
    (.ok taken) w := hspec
  have hends : Ends delivery payloadHash now d (.ok taken) w :=
    ConsumerSpec.ends hspec fun b hb =>
      (saveConsumerOutbox_commits hb).imp_left fun h => ⟨h.1, h.2.claims⟩
  have hstep := (storeSpec_outcome hspec').step
  have hregular : (Call.saveConsumerOutbox delivery payloadHash event now).Regular := ⟨trivial, rfl⟩
  refine ⟨⟨h.op hP hregular hc hspec', hstep.claims_subset rfl, hstep.events_subset, ?_, ?_,
    rows_consumed hspec' rfl ?_⟩, ⟨_, hevent ▸ (hends.claimed _ rfl).1⟩⟩
  · generalize (view d w).books = b at hstep ⊢
    cases hstep with
    | idle => exact fun y hy => Or.inl hy
    | evaluated _ _ =>
        refine List.forall_mem_append.mpr ⟨fun y hy => Or.inl hy, List.forall_mem_singleton.mpr ?_⟩
        exact Or.inr ⟨beq_iff_eq.mpr htype, r, rfl, hid⟩
  · generalize (view d w).books = b at hstep ⊢
    cases hstep with
    | idle => exact fun e he => Or.inl he
    | evaluated _ _ => exact fun e he => Or.inl he
  · rintro row rfl
    exact hwaits

/-- The risk service takes every copy of an announcement. -/
theorem RiskService.takes (hP : P.Faithful) (h : Ready P d) {m : Message} {x : Event}
    (hx : x ∈ d.books.events) (htype : x.type = .transactionCreated) (hbody : m.body = x.body P)
    (draws : RiskService.Draws) (hnew : d.books.Unused {draws.event}) :
    ∃ d', (RiskService.handleMessage P m draws).solo (dialect P.hashtext).engine d =
        (.ok (), d') ∧
      Took P RiskService.consumerName (· == .riskEvaluated) {draws.event} x d d' := by
  obtain ⟨r, hr⟩ := h.orderly.minted x hx
  have hid : safeToken x.id = true := hr ▸ safeToken_newID r
  obtain ⟨v, hdecode, hcomplete⟩ := h.orderly.fitting.announced hP hx htype
  obtain ⟨t, ht, habout, heq⟩ := h.orderly.fitting.routed.announced hP.truthful hx htype hdecode
  have hvalue : m.value = P.encode x.payload := congrArg Replayed.value hbody
  have hcorrelation : safeToken (RiskService.newEvent v draws).correlationID = true := by
    show safeToken v.correlationID = true
    have hsame : v.correlationID = t.correlationID := congrArg RiskEvaluated.correlationID heq
    rw [hsame, ← habout.correlation]
    exact h.orderly.correlation hx
  have hfree : d.outboxEvents.find? (RiskService.newEvent v draws).id = none :=
    find?_unused (hnew.events _ rfl)
  generalize hdelivery : m.delivery RiskService.consumerName x.id = delivery
  have hname : safeToken delivery.consumerName = true := hdelivery ▸ safeToken_consumerName
  have heventID : delivery.eventID = x.id := hdelivery ▸ rfl
  rw [← heventID] at hid
  obtain ⟨res, w, hrun, hsolo⟩ := transaction_solo (m := (methodOf (.saveConsumerOutbox delivery
    (P.sha256 m.value) (RiskService.newEvent v draws) draws.now) : DbMethod P.hashtext _)) rfl d
  obtain ⟨taken, rfl⟩ : ∃ taken, res = .ok taken := by
    cases hrow : d.processedEvents.find? (delivery.consumerName, delivery.eventID) with
    | some row =>
        have hhash := h.orderly.booked.hash hx (heventID ▸ hrow)
        rw [← hvalue] at hhash
        exact ⟨false, consume_again hname hid hrow hhash hrun⟩
    | none =>
        exact ⟨true, saveConsumerOutbox_made hname hid hrow hfree hcorrelation hrun⟩
  refine ⟨view d w, ?_, ?_⟩
  · have hread : P.decodeTransaction m.value = .ok v := hvalue.symm ▸ hdecode
    rw [RiskService.handleMessage, eventID_of_copy hbody (heventID ▸ safeToken_ne_empty hid)]
    dsimp only
    rw [hdelivery, RiskService.handleTransactionCreated_takes hread hcomplete]
    exact passOn_solo hsolo
  · have hconsumer : delivery.consumerName = RiskService.consumerName := hdelivery ▸ rfl
    rw [← hconsumer]
    refine took_evaluation h hP.truthful ?_ heventID rfl rfl rfl hrun
    exact ⟨x, hx, v, draws, htype, hconsumer, heventID, congrArg P.sha256 hvalue, hdecode, rfl⟩

end

/-! ## Pending payments -/

section

variable {P : Platform} {d : Db}

/-- A decision on an evaluation keeps its risk level and its correlation id. -/
theorem decisionOf_outcome (event : RiskEvaluated) (t : TransactionRow) (balance : Int) :
    (decisionOf event t balance).outcome.riskLevel = event.riskLevel ∧
      (decisionOf event t balance).outcome.correlationID = event.correlationID := by
  unfold decisionOf
  split
  · split <;> exact ⟨rfl, rfl⟩
  · exact ⟨rfl, rfl⟩

/-- A decided row passes the CHECKs it has passed before. -/
theorem checked_decided {t : TransactionRow} (h : Tab.check (t := .transactions) t = none)
    (balance : Int) :
    Tab.check (t := .transactions)
      (((decisionOf t.evaluation t.timeless balance).finalize 0).apply t.timeless) = none := by
  have h := firstViolated_eq_none.mp h
  simp only [TransactionRow.checks, List.forall_mem_cons] at h
  obtain ⟨haccount, hamount, hcorrelation, hcurrency, hopen, hkind, hmerchant, -⟩ := h
  refine firstViolated_eq_none.mpr ?_
  simp only [TransactionRow.checks, List.forall_mem_cons]
  refine ⟨haccount, hamount, hcorrelation, hcurrency, hopen, hkind, hmerchant, ?_,
    List.forall_mem_nil _⟩
  have hlevel : (decisionOf t.evaluation t.timeless balance).outcome.riskLevel =
      (evaluateRisk t.amountCents).level := (decisionOf_outcome _ _ _).1
  simp only [Decision.finalize, Finalize.apply, hlevel]
  by_cases hlarge : t.amountCents > 50000
  · rw [evaluateRisk, if_pos hlarge]
  · rw [evaluateRisk, if_neg hlarge]

/-- So do the entries of an authorized payment. -/
theorem checked_debited {t : TransactionRow} (h : Tab.check (t := .transactions) t = none)
    (decision : Decision) :
    ∀ r ∈ debited decision t.timeless, Tab.check (t := .ledgerEntries) r = none := by
  have h := firstViolated_eq_none.mp h
  simp only [TransactionRow.checks, List.forall_mem_cons, Bool.and_eq_true,
    decide_eq_true_eq] at h
  obtain ⟨haccount, ⟨hpositive, hamount⟩, -, hcurrency, -⟩ := h
  have hin : (t.amountCents != 0 && isBigint t.amountCents) = true := by
    simp only [hamount, Bool.and_true, bne_iff_ne]
    omega
  have hout : (-t.amountCents != 0 && isBigint (-t.amountCents)) = true := by
    simp only [isBigint, Bool.and_eq_true, decide_eq_true_eq, bne_iff_ne] at hamount ⊢
    omega
  unfold debited
  split
  · simp only [entries, List.forall_mem_cons]
    refine ⟨firstViolated_eq_none.mpr ?_, firstViolated_eq_none.mpr ?_, List.forall_mem_nil _⟩
    · simp only [LedgerRow.checks, List.forall_mem_cons]
      exact ⟨haccount, hout, hcurrency, List.forall_mem_nil _⟩
    · simp only [LedgerRow.checks, List.forall_mem_cons, Int.neg_neg]
      exact ⟨by decide, hin, hcurrency, List.forall_mem_nil _⟩
  · exact List.forall_mem_nil _

/-- No entry of a pending payment has been made. -/
theorem Balanced.unposted (h : Balanced d.books) {t : TransactionRow}
    (ht : t ∈ d.transactions.rows) (hpending : t.status = .pending) (account : String) :
    @Schema.present schema d (.ledgerAccount t.id account) = false := by
  refine Bool.eq_false_iff.mpr fun hpresent => ?_
  obtain ⟨r, hr, hix⟩ := List.mem_map.mp (present_account.mp hpresent)
  have hid : r.transactionID = t.id := (Ix.ledgerAccount.inj hix).1
  have hlines : t.lines = [] := by
    simp [TransactionRow.lines, hpending, h.payment_of_pending ht hpending]
  have hentries := h.entriesOf ht
  rw [hlines, List.map_nil, List.perm_nil, Db.entriesOf, List.map_eq_nil_iff,
    List.filter_eq_nil_iff] at hentries
  exact hentries r hr (beq_iff_eq.mpr hid)

/-- Nothing is wrong with the evaluation of a pending payment. -/
theorem Ready.settles (h : Ready P d) {t : TransactionRow} (ht : t ∈ d.transactions.rows)
    (hpending : t.status = .pending) {delivery : Delivery} {payloadHash : Digest}
    (hname : safeToken delivery.consumerName = true) (hid : safeToken delivery.eventID = true)
    (hunclaimed : d.processedEvents.find? (delivery.consumerName, delivery.eventID) = none) :
    d.standing.Settles delivery payloadHash t.evaluation t.timeless where
  consumer := hname
  eventID := hid
  entries := checked_debited (h.orderly.checked t ht) _
  row := checked_decided (h.orderly.checked t ht) _
  correlation := by
    have hcheck := firstViolated_eq_none.mp (h.orderly.checked t ht)
    simp only [TransactionRow.checks, List.forall_mem_cons] at hcheck
    rw [Standing.decision, (decisionOf_outcome _ _ _).2]
    exact hcheck.2.2.1
  unclaimed := Option.map_eq_none_iff.mpr hunclaimed
  range _ := by
    have hexternal := h.orderly.balanced.external t ht
    have hlow : 0 ≤ d.balance t.accountID t.currency := h.orderly.solvent _ _ hexternal
    have hhigh : d.balance t.accountID t.currency < 2 ^ 63 := h.inRange _ _ hexternal
    show isBigint (d.balance t.accountID t.currency) = true
    simp only [isBigint, Bool.and_eq_true, decide_eq_true_eq]
    omega
  free := by
    intro y hy
    obtain ⟨r, hr, rfl⟩ := List.mem_map.mp hy
    have hof : r.transactionID = t.id := by
      have hr : r ∈ debited (d.standing.decision t.evaluation t.timeless) t.timeless := hr
      unfold debited at hr
      split at hr
      · rcases List.mem_pair.mp hr with rfl | rfl <;> rfl
      · cases hr
    rw [hof]
    exact h.orderly.balanced.unposted ht hpending r.accountID

/-- The identifiers drawn for a settlement are new. -/
theorem Books.Unused.fresh {x : Drawn} {delivery : Delivery} {payloadHash : Digest}
    {event : RiskEvaluated} (h : d.books.Unused {x.entry, x.contraEntry, x.last})
    (hapart : x.entry ≠ x.contraEntry) :
    (LedgerOp.deliver delivery payloadHash event).Fresh x d where
  unused := by
    have hentry : ∀ r ∈ ({x.entry, x.contraEntry, x.last} : Set Random),
        d.ledgerEntries.find? (newID "le" r) = none :=
      fun r hr => Table.find?_eq_none.mpr (h.entries r hr)
    have hevent : d.outboxEvents.find? (newID "evt" x.last) = none :=
      find?_unused (h.events _ (by simp))
    simp only [LedgerOp.generated, List.forall_mem_cons]
    refine ⟨?_, ?_, ?_, List.forall_mem_nil _⟩
    · exact Bool.eq_false_iff.mpr (not_taken_row (t := .ledgerEntries) (hentry _ (by simp)))
    · exact Bool.eq_false_iff.mpr (not_taken_row (t := .ledgerEntries) (hentry _ (by simp)))
    · exact Bool.eq_false_iff.mpr (not_taken_row (t := .outboxEvents) hevent)
  apart := by
    have hne : newID "le" x.entry ≠ newID "le" x.contraEntry := fun heq =>
      hapart (newID_injective heq)
    simp [LedgerOp.generated, hne]

/-- What a settlement leaves. -/
theorem took_settlement (h : Ready P d) (hP : P.Truthful) {delivery : Delivery}
    {payloadHash : Digest} {event : RiskEvaluated} {draws : LedgerDraws} {now : Time} {x : Event}
    {taken : Bool} {w : List schema.Write}
    (hc : Call.Honest P d.books (.processRiskEvaluated delivery payloadHash event draws now))
    (hevent : delivery.eventID = x.id)
    (hrun : RunsTo (processRiskEvaluated delivery payloadHash event draws now :
      DbTx P.hashtext _) d [] (.ok taken) w) :
    Took P delivery.consumerName EventType.isOutcome
      {draws.entry, draws.contraEntry, draws.event} x d (view d w) := by
  have hspec : ConsumerSpec delivery (processRiskEvaluated delivery payloadHash event draws now :
    DbTx P.hashtext _) d (.ok taken) w := Or.inl hrun
  have hspec' : (contract P.hashtext).spec (.processRiskEvaluated delivery payloadHash event draws
    now) d (.ok taken) w := hspec
  have hends : Ends delivery payloadHash now d (.ok taken) w := by
    refine ConsumerSpec.ends hspec fun b hb => (processRiskEvaluated_commits hb).imp_left ?_
    rintro ⟨hb, t, h⟩
    exact ⟨hb, h.claims⟩
  have hstep := (storeSpec_outcome hspec').step
  have hregular : (Call.processRiskEvaluated delivery payloadHash event draws now).Regular :=
    ⟨trivial, rfl⟩
  refine ⟨⟨h.op hP hregular hc hspec', hstep.claims_subset rfl, hstep.events_subset, ?_, ?_,
    rows_consumed hspec' rfl fun _ hr => hr.1⟩, ⟨_, hevent ▸ (hends.claimed _ rfl).1⟩⟩
  · generalize (view d w).books = b at hstep ⊢
    cases hstep with
    | idle => exact fun y hy => Or.inl hy
    | settled _ _ _ _ _ hdec _ =>
        refine List.forall_mem_append.mpr ⟨fun y hy => Or.inl hy, List.forall_mem_singleton.mpr ?_⟩
        refine Or.inr ⟨?_, draws.event, by simp, rfl⟩
        rw [hdec]
        exact decisionOf_type _ _ _
  · generalize (view d w).books = b at hstep ⊢
    cases hstep with
    | idle => exact fun e he => Or.inl he
    | settled _ _ _ _ _ _ _ =>
        refine List.forall_mem_append.mpr ⟨fun e he => Or.inl he, fun e he => Or.inr ?_⟩
        rcases movedBy_id he with hid | hid
        · exact ⟨draws.entry, by simp, hid⟩
        · exact ⟨draws.contraEntry, by simp, hid⟩

/-- The ledger service takes every copy of an evaluation. -/
theorem LedgerService.takes (hP : P.Faithful) (h : Ready P d) {m : Message} {x : Event}
    (hx : x ∈ d.books.events) (htype : x.type = .riskEvaluated) (hbody : m.body = x.body P)
    (draws : LedgerDraws) (now : Time)
    (hnew : d.books.Unused {draws.entry, draws.contraEntry, draws.event})
    (hapart : draws.entry ≠ draws.contraEntry) :
    ∃ d', (LedgerService.handleMessage P m draws now).solo (dialect P.hashtext).engine d =
        (.ok (), d') ∧
      Took P LedgerService.consumerName EventType.isOutcome
        {draws.entry, draws.contraEntry, draws.event} x d d' := by
  obtain ⟨r, hr⟩ := h.orderly.minted x hx
  have hid : safeToken x.id = true := hr ▸ safeToken_newID r
  obtain ⟨t, ht, haggregate, hpayload, hdecode, hdefect⟩ :=
    h.orderly.fitting.evaluated hP hx htype
  have hvalue : m.value = P.encode x.payload := congrArg Replayed.value hbody
  generalize hdelivery : m.delivery LedgerService.consumerName x.id = delivery
  have hname : safeToken delivery.consumerName = true := hdelivery ▸ safeToken_consumerName
  have hconsumer : delivery.consumerName = LedgerService.consumerName := hdelivery ▸ rfl
  have heventID : delivery.eventID = x.id := hdelivery ▸ rfl
  rw [← heventID] at hid
  obtain ⟨res, w, hrun, hsolo⟩ := transaction_solo (m := (methodOf (.processRiskEvaluated delivery
    (P.sha256 m.value) t.evaluation draws now) : DbMethod P.hashtext _)) rfl d
  obtain ⟨taken, rfl⟩ : ∃ taken, res = .ok taken := by
    cases hrow : d.processedEvents.find? (delivery.consumerName, delivery.eventID) with
    | some row =>
        have hhash := h.orderly.booked.hash hx (heventID ▸ hrow)
        rw [← hvalue] at hhash
        exact ⟨false, consume_again hname hid hrow hhash hrun⟩
    | none =>
        obtain ⟨row, hmem, rfl⟩ := List.mem_map.mp hx
        have hunclaimed : ∀ p ∈ d.claimsOf LedgerService.consumerName, p.eventID ≠ row.id := by
          intro p hp heq
          obtain ⟨hp, hof⟩ := List.mem_filter.mp hp
          refine Table.find?_eq_none.mp hrow p hp (Prod.ext ?_ (heq.trans heventID.symm))
          exact (beq_iff_eq.mp hof).trans hconsumer.symm
        have hpending : t.status = .pending := h.orderly.pending
          (List.mem_filter.mpr ⟨hmem, beq_iff_eq.mpr htype⟩) hunclaimed ht haggregate
        have hcheck : checkPending t.evaluation (d.standing.rows t.evaluation.transactionID) =
            .ok t.timeless := by
          have hfind : d.transactions.find? t.evaluation.transactionID = some t :=
            d.transactions.find?_of_mem ht
          show checkPending _ ((d.transactions.find? t.evaluation.transactionID).map _) = _
          rw [checkPending_timeless, hfind, checkPending_evaluation,
            if_neg (not_not.mpr hpending)]
          rfl
        exact ⟨true, processRiskEvaluated_made (x := ⟨draws.entry, draws.contraEntry, draws.event,
          now⟩) (hnew.fresh hapart) hcheck (h.settles ht hpending hname hid hrow) hrun⟩
  refine ⟨view d w, ?_, ?_⟩
  · have hread : P.decodeRiskEvaluated m.value = .ok t.evaluation := hvalue.symm ▸ hdecode
    rw [LedgerService.handleMessage, eventID_of_copy hbody (heventID ▸ safeToken_ne_empty hid)]
    dsimp only
    rw [hdelivery, LedgerService.handleRiskEvaluated_takes hread hdefect]
    exact passOn_solo hsolo
  · rw [← hconsumer]
    refine took_settlement h hP.truthful ?_ heventID hrun
    exact ⟨x, hx, htype, hconsumer, heventID, congrArg P.sha256 hvalue, hdecode⟩

end

end Clearance
