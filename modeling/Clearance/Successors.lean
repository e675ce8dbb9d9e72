/-
# `Clearance.Successors` — every state change has its successor event

Each thing that happens leaves its records in the same transaction, so records can be
counted against each other.  As long as nothing is pruned and the broker is honest:

    payment                 TransactionCreated, idempotency key
    risk-service claim      RiskEvaluated
    ledger-service claim    decided payment, TransactionAuthorized or TransactionFailed
    deposit                 FundsDeposited, deposit key, DEPOSIT action

every row of the left column goes with exactly one of each kind on its right, and the
other way round (`successors`).  `Documented` has the first line and the last;
`Successive` adds the two consumers, whose claims and events are written side by side.
-/
import Clearance.Origins
import Clearance.Provenance

namespace Clearance

open Transact

/-! ## Claims and the events that follow from them -/

/-- The events a consumer has dealt with. -/
def Books.claimsOf (b : Books) (consumerName : String) : List Claim :=
  b.claims.filter fun c => c.consumerName == consumerName

/-- The events of a type. -/
def Books.ofType (b : Books) (type : EventType) : List Event :=
  b.events.filter fun x => x.type == type

/-- The outcomes of payments. -/
def Books.outcomes (b : Books) : List Event := b.events.filter fun x => x.type.isOutcome

/-- The claim is that of an event about what `y` is about. -/
def Books.Follows (b : Books) (type : EventType) (c : Claim) (y : Event) : Prop :=
  ∃ x ∈ b.events, x.type = type ∧ x.id = c.eventID ∧ x.aggregateID = y.aggregateID

/-- Claims and the events that follow from them are listed side by side. -/
structure Successive (b : Books) : Prop where
  evaluated : List.Forall₂ (b.Follows .transactionCreated)
    (b.claimsOf RiskService.consumerName) (b.ofType .riskEvaluated)
  settled : List.Forall₂ (b.Follows .riskEvaluated)
    (b.claimsOf LedgerService.consumerName) b.outcomes

theorem Successive.empty : Successive Db.empty.books := ⟨.nil, .nil⟩

section

variable {P : Platform} {b b' : Books} {c : Call}

theorem Books.Follows.mono {type : EventType} {k : Claim} {y : Event} (h : b.Follows type k y)
    (hsub : b.events ⊆ b'.events) : b'.Follows type k y := by
  obtain ⟨x, hx, hrest⟩ := h
  exact ⟨x, hsub hx, hrest⟩

theorem Books.claimsOf_append {k : Claim} (h : b'.claims = b.claims ++ [k]) (name : String) :
    b'.claimsOf name = b.claimsOf name ++ if k.consumerName = name then [k] else [] := by
  rw [claimsOf, claimsOf, h, List.filter_append]
  by_cases hk : k.consumerName = name
  · simp [hk]
  · simp [hk]

theorem Books.ofType_append {y : Event} (h : b'.events = b.events ++ [y]) (type : EventType) :
    b'.ofType type = b.ofType type ++ if y.type = type then [y] else [] := by
  rw [ofType, ofType, h, List.filter_append]
  by_cases hy : y.type = type
  · simp [hy]
  · simp [hy]

theorem Books.outcomes_append {y : Event} (h : b'.events = b.events ++ [y]) :
    b'.outcomes = b.outcomes ++ if y.type.isOutcome then [y] else [] := by
  rw [outcomes, outcomes, h, List.filter_append]
  by_cases hy : y.type.isOutcome = true
  · simp [hy]
  · simp [hy]

/-- An event nobody has to claim anything for. -/
theorem Successive.add (h : Successive b) {y : Event} (he : b'.events = b.events ++ [y])
    (hc : b'.claims = b.claims) (hrisk : y.type ≠ .riskEvaluated)
    (hout : y.type.isOutcome = false) : Successive b' := by
  have hsub : b.events ⊆ b'.events := he ▸ List.subset_append_left _ _
  have hclaims : ∀ name, b'.claimsOf name = b.claimsOf name := by
    intro name
    rw [Books.claimsOf, hc]
    rfl
  refine ⟨?_, ?_⟩
  · rw [hclaims, Books.ofType_append he, if_neg hrisk, List.append_nil]
    exact h.evaluated.imp fun _ _ hf => hf.mono hsub
  · rw [hclaims, Books.outcomes_append he, hout, if_neg Bool.false_ne_true, List.append_nil]
    exact h.settled.imp fun _ _ hf => hf.mono hsub

theorem forall₂_concat {α β : Type} {R : α → β → Prop} {l : List α} {l' : List β} {a : α} {y : β}
    (h : List.Forall₂ R l l') (hay : R a y) : List.Forall₂ R (l ++ [a]) (l' ++ [y]) :=
  List.rel_append h (.cons hay .nil)

theorem Successive.step (h : Successive b) (hr : Routed b) (hP : P.Truthful)
    (hkeeps : c.keepsClaims = true) (hc : c.Honest P b) (hs : b.Step c b') : Successive b' := by
  have hsub := hs.events_subset
  cases hs with
  | idle => exact h
  | pruned _ => cases hkeeps
  | created _ _ _ _ =>
      obtain ⟨request, metadata, draws, _, rfl, rfl⟩ := hc
      exact h.add rfl rfl nofun rfl
  | deposited _ _ _ _ _ =>
      obtain ⟨_, request, metadata, draws, _, rfl, rfl⟩ := hc
      exact h.add rfl rfl nofun rfl
  | @evaluated delivery payloadHash event now _ _ =>
      obtain ⟨x, hx, v, draws, htype, hname, hid, _, hdecode, rfl⟩ := hc
      obtain ⟨t, _, habout, heq⟩ := hr.announced hP hx htype hdecode
      have hother : delivery.consumerName ≠ LedgerService.consumerName := by
        rw [hname]
        decide
      have hrisk : (RiskService.newEvent v draws).content.type = .riskEvaluated := rfl
      have hout : (RiskService.newEvent v draws).content.type.isOutcome = false := rfl
      refine ⟨?_, ?_⟩
      · rw [Books.claimsOf_append rfl, if_pos hname, Books.ofType_append rfl, if_pos hrisk]
        refine forall₂_concat (h.evaluated.imp fun _ _ hf => hf.mono hsub) ?_
        refine ⟨x, hsub hx, htype, hid.symm, habout.aggregate.trans ?_⟩
        exact (congrArg RiskEvaluated.transactionID heq).symm
      · rw [Books.claimsOf_append rfl, if_neg hother, Books.outcomes_append rfl, hout,
          if_neg Bool.false_ne_true, List.append_nil, List.append_nil]
        exact h.settled.imp fun _ _ hf => hf.mono hsub
  | @settled delivery payloadHash event draws now l₁ l₂ t decision _ _ ht hid' _ hdec _ =>
      obtain ⟨x, hx, htype, hname, hid, _, hdecode⟩ := hc
      obtain ⟨t', _, habout, rfl⟩ := hr.evaluation hP hx htype hdecode
      have hother : delivery.consumerName ≠ RiskService.consumerName := by
        rw [hname]
        decide
      have hout : (decision.event t draws now).content.type.isOutcome = true := by
        rw [hdec]
        exact decisionOf_type _ t _
      refine ⟨?_, ?_⟩
      · rw [Books.claimsOf_append rfl, if_neg hother, Books.ofType_append rfl,
          if_neg (not_isOutcome hout).2.1, List.append_nil, List.append_nil]
        exact h.evaluated.imp fun _ _ hf => hf.mono hsub
      · rw [Books.claimsOf_append rfl, if_pos hname, Books.outcomes_append rfl, if_pos hout]
        refine forall₂_concat (h.settled.imp fun _ _ hf => hf.mono hsub) ?_
        exact ⟨x, hsub hx, htype, hid.symm, habout.aggregate.trans hid'.symm⟩

end

/-! ## Rows that go together -/

/-- The rows of a consumer. -/
def Db.claimsOf (d : Db) (consumerName : String) : List ProcessedRow :=
  d.processedEvents.rows.filter fun r => r.consumerName == consumerName

/-- The outcomes of payments, as rows. -/
def Db.outcomes (d : Db) : List OutboxRow := d.outboxEvents.rows.filter fun r => r.eventType.isOutcome

/-- Payments that are no longer pending. -/
def Db.decided (d : Db) : List TransactionRow :=
  (d.ofKind .payment).filter fun t => t.status != .pending

/-- The row is the claim of an event of this type about transaction `id`. -/
def Db.ClaimFor (d : Db) (type : EventType) (p : ProcessedRow) (id : String) : Prop :=
  ∃ x ∈ d.ofType type, x.id = p.eventID ∧ x.aggregateID = id

/-- What goes with what. -/
structure Successors (d : Db) : Prop where
  created : OneToOne (fun t r => TransactionRow.id t = OutboxRow.aggregateID r)
    (d.ofKind .payment) (d.ofType .transactionCreated)
  keys : OneToOne (fun t k => TransactionRow.id t = IdempotencyRow.transactionID k)
    (d.ofKind .payment) d.idempotencyKeys.rows
  evaluated : OneToOne (fun p r => d.ClaimFor .transactionCreated p (OutboxRow.aggregateID r))
    (d.claimsOf RiskService.consumerName) (d.ofType .riskEvaluated)
  decided : OneToOne (fun p t => d.ClaimFor .riskEvaluated p (TransactionRow.id t))
    (d.claimsOf LedgerService.consumerName) d.decided
  reported : OneToOne (fun p r => d.ClaimFor .riskEvaluated p (OutboxRow.aggregateID r))
    (d.claimsOf LedgerService.consumerName) d.outcomes
  deposited : OneToOne (fun t r => TransactionRow.id t = OutboxRow.aggregateID r)
    (d.ofKind .deposit) (d.ofType .fundsDeposited)
  depositKeys : OneToOne (fun t k => TransactionRow.id t = DepositKeyRow.transactionID k)
    (d.ofKind .deposit) d.depositIdempotencyKeys.rows
  depositActions : OneToOne (fun t a => TransactionRow.id t = ActionRow.targetID a)
    (d.ofKind .deposit) (d.operatorActions.rows.filter fun a => a.actionType == .deposit)

section

variable {d : Db}

theorem Db.map_claimsOf (d : Db) (name : String) :
    (d.claimsOf name).map ProcessedRow.claim = d.books.claimsOf name := by
  show _ = (d.processedEvents.rows.map ProcessedRow.claim).filter _
  rw [List.filter_map]
  rfl

theorem Db.content_ofType (d : Db) (type : EventType) :
    (d.ofType type).map OutboxRow.content = d.books.ofType type := by
  show _ = (d.outboxEvents.rows.map OutboxRow.content).filter _
  rw [List.filter_map]
  rfl

theorem Db.content_outcomes (d : Db) : d.outcomes.map OutboxRow.content = d.books.outcomes := by
  show _ = (d.outboxEvents.rows.map OutboxRow.content).filter _
  rw [List.filter_map]
  rfl

theorem claimFor_of_follows {type : EventType} {p : ProcessedRow} {r : OutboxRow}
    (h : d.books.Follows type p.claim r.content) : d.ClaimFor type p r.aggregateID := by
  obtain ⟨x, hx, htype, hid, haggregate⟩ := h
  obtain ⟨row, hrow, rfl⟩ := List.mem_map.mp hx
  exact ⟨row, List.mem_filter.mpr ⟨hrow, beq_iff_eq.mpr htype⟩, hid, haggregate⟩

/-- Of one consumer an event has one claim. -/
theorem Db.nodup_claimsOf (d : Db) (name : String) :
    ((d.claimsOf name).map ProcessedRow.eventID).Nodup := by
  have hkeys : ((d.claimsOf name).map fun r => (r.consumerName, r.eventID)).Nodup :=
    d.processedEvents.nodup.sublist (List.filter_sublist.map _)
  refine List.Nodup.map_on (fun p hp p' hp' heq => ?_) (List.Nodup.of_map _ hkeys)
  have hname := beq_iff_eq.mp (List.mem_filter.mp hp).2
  have hname' := beq_iff_eq.mp (List.mem_filter.mp hp').2
  exact List.inj_on_of_nodup_map hkeys hp hp' (Prod.ext (hname.trans hname'.symm) heq)

/-- The claims of a consumer, and the events that follow from them. -/
theorem oneToOne_claims {name : String} {type : EventType} {rows : List OutboxRow}
    (h : List.Forall₂ (d.books.Follows type) (d.books.claimsOf name) (rows.map OutboxRow.content))
    (hnd : ((d.ofType type).map OutboxRow.aggregateID).Nodup) :
    (rows.map OutboxRow.aggregateID).Nodup ∧
      OneToOne (fun p r => d.ClaimFor type p (OutboxRow.aggregateID r)) (d.claimsOf name) rows := by
  rw [← d.map_claimsOf, List.forall₂_map_left_iff, List.forall₂_map_right_iff] at h
  refine OneToOne.of_forall₂ (h.imp fun _ _ hf => claimFor_of_follows hf) (d.nodup_claimsOf name)
    ?_ ?_
  · rintro p r r' ⟨x, hx, hid, hsame⟩ ⟨x', hx', hid', hsame'⟩
    have heq : x = x' := d.outboxEvents.eq_of_key_eq (List.mem_filter.mp hx).1
      (List.mem_filter.mp hx').1 (hid.trans hid'.symm)
    rw [← hsame, ← hsame', heq]
  · rintro p p' r r' ⟨x, hx, hid, hsame⟩ ⟨x', hx', hid', hsame'⟩ heq
    have hxx : x = x' :=
      List.inj_on_of_nodup_map hnd hx hx' (hsame.trans (heq.trans hsame'.symm))
    rw [← hid, ← hid', hxx]

theorem TransactionRow.verdicts_ids (t : TransactionRow) :
    t.verdicts.map Verdict.transactionID =
      if t.kind == .payment && t.status != .pending then [t.id] else [] := by
  unfold TransactionRow.verdicts
  cases t.kind <;> cases t.status <;> rfl

theorem flatMap_verdicts (rows : List TransactionRow) :
    (rows.flatMap TransactionRow.verdicts).map Verdict.transactionID =
      ((rows.filter fun t => t.kind == .payment).filter fun t => t.status != .pending).map
        TransactionRow.id := by
  induction rows with
  | nil => rfl
  | cons t rows ih =>
      rw [List.flatMap_cons, List.map_append, ih, t.verdicts_ids, List.filter_filter,
        List.filter_filter, List.filter_cons, Bool.and_comm]
      cases t.status != .pending && t.kind == .payment <;> rfl

/-- Decided payments, and what is reported of them. -/
theorem Reported.oneToOne (h : Reported d.books) :
    OneToOne (fun r t => OutboxRow.aggregateID r = TransactionRow.id t) d.outcomes d.decided := by
  have hids : (d.outcomes.map OutboxRow.aggregateID).Perm (d.decided.map TransactionRow.id) := by
    have hperm := h.verdicts.map Verdict.transactionID
    rw [show d.books.transactions = d.transactions.rows from rfl, flatMap_verdicts] at hperm
    refine List.Perm.trans (List.Perm.of_eq ?_) hperm
    rw [Books.verdicts, ← Books.outcomes, ← d.content_outcomes, List.map_map, List.map_map]
    rfl
  have hnd : (d.decided.map TransactionRow.id).Nodup :=
    (d.nodup_ofKind .payment).sublist (List.filter_sublist.map _)
  exact .of_perm hids (hids.nodup_iff.mpr hnd)

end

/-! ## Runs -/

theorem unpruned_keeps {P : Platform} {r : Request} {c : Call} (hr : unpruned r = true)
    (h : r.Makes P c) : c.keepsClaims = true :=
  admits_unpruned P () r () c (if_pos hr) h

/-- As long as nothing is pruned, every state change has exactly its successors. -/
theorem successors (P : Platform) (hP : P.Truthful)
    (es : List (Transact.Event (system P (.honest P unpruned))))
    (s : SystemState P (.honest P unpruned))
    (h : (State.init Db.empty [] : SystemState P (.honest P unpruned)).steps es = some s) :
    Successors s.db := by
  have hrun : HonestRun (fun c => c.keepsClaims = true)
      (fun b => (Balanced b ∧ Reported b ∧ Documented b) ∧ Routed b ∧ Successive b) s := by
    refine honest_reach (fun hr hm => unpruned_keeps hr hm) ?_
      ⟨⟨Balanced.empty, Reported.empty, Documented.empty⟩, Routed.empty, Successive.empty⟩ h
    rintro b b' c ⟨⟨hb, hrep, hdoc⟩, hrouted, hsucc⟩ hkeeps hc hs
    exact ⟨⟨hb.step hc.proper hs, hrep.step hb hc.proper hs, hdoc.step hc.proper hs⟩,
      hrouted.step hP hc hs, hsucc.step hrouted hP hkeeps hc hs⟩
  obtain ⟨⟨hb, hrep, hdoc⟩, hrouted, hsucc⟩ := hrun.inv
  have hcreated : ((s.db.ofType .transactionCreated).map OutboxRow.aggregateID).Nodup := by
    rw [s.db.map_ofType, hdoc.created]
    exact s.db.nodup_ofKind .payment
  obtain ⟨hevaluated, hclaims⟩ := oneToOne_claims (s.db.content_ofType .riskEvaluated ▸
    hsucc.evaluated) hcreated
  obtain ⟨_, hreported⟩ := oneToOne_claims (s.db.content_outcomes ▸ hsucc.settled) hevaluated
  refine ⟨?_, Db.oneToOne hdoc.keys, hclaims, ?_, hreported, ?_, Db.oneToOne hdoc.depositKeys,
    Db.oneToOne hdoc.depositActions⟩
  · exact Db.oneToOne ((s.db.map_ofType _).trans hdoc.created)
  · refine (hreported.trans hrep.oneToOne).congr fun p _ t ht => ⟨?_, fun hfor => ?_⟩
    · rintro ⟨r, _, hfor, hid⟩
      rwa [hid] at hfor
    · obtain ⟨r, ⟨hr, hid⟩, _⟩ := hrep.oneToOne.left t ht
      exact ⟨r, hr, hid ▸ hfor, hid⟩
  · exact Db.oneToOne ((s.db.map_ofType _).trans hdoc.deposited)

theorem successors_authorized : ∃ s : SystemState .framed (.honest .framed unpruned),
    (State.init Db.empty []).steps (gateRun unpruned) = some s ∧
      (s.db.claimsOf RiskService.consumerName).length = 1 ∧
      (s.db.claimsOf LedgerService.consumerName).length = 1 ∧ s.db.decided.length = 1 ∧
      Successors s.db := by
  have h : ((State.init Db.empty [] : SystemState .framed (.honest .framed unpruned)).steps
      (gateRun unpruned)).map (fun s => ((s.db.claimsOf RiskService.consumerName).length,
        (s.db.claimsOf LedgerService.consumerName).length, s.db.decided.length)) =
          some (1, 1, 1) := by
    decide +kernel
  obtain ⟨s, hs, hview⟩ := Option.map_eq_some_iff.mp h
  obtain ⟨hrisk, hview⟩ := Prod.mk.inj hview
  obtain ⟨hledger, hdecided⟩ := Prod.mk.inj hview
  exact ⟨s, hs, hrisk, hledger, hdecided,
    successors .framed Platform.framed_faithful.truthful (gateRun unpruned) s hs⟩

end Clearance
