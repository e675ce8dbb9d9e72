/-
# `Clearance.Provenance` — every event is about a transaction, and says the truth

The services take what they know of a transaction from the messages they are handed, not
from its row.  With an honest broker this makes no difference: every event in the outbox
is about a transaction, is kept apart by its account, carries its correlation id, and
describes it as it is.

    TransactionCreated      carries the payment
    RiskEvaluated           carries the evaluation of the payment's amount
    TransactionAuthorized   \
    TransactionFailed        |  carry the outcome
    FundsDeposited          /

Two things follow.  The rule about amounts over 500.00 that the risk service applies is
kept by the ledger service (`risk_gate`).  And whatever is published about an account has
the account as its key, and the correlation id of the request that started it
(`routed_and_traced`).
-/
import Clearance.Copies
import Clearance.Payments

namespace Clearance

open Transact OperationsService

/-! ## What events say -/

/-- What the risk service has to say about a transaction. -/
def TransactionRow.evaluation (t : TransactionRow) : RiskEvaluated where
  transactionID := t.id
  accountID := t.accountID
  amountCents := t.amountCents
  currency := t.currency
  riskLevel := (evaluateRisk t.amountCents).level
  approved := (evaluateRisk t.amountCents).approved
  reason := (evaluateRisk t.amountCents).reason
  correlationID := t.correlationID

/-- The payload of an event describes the transaction. -/
def Event.Describes (x : Event) (t : TransactionRow) : Prop :=
  match x.type with
  | .transactionCreated =>
      ∃ v, x.payload = .transaction v ∧ RiskService.evaluation v = t.evaluation
  | .riskEvaluated => x.payload = .riskEvaluated t.evaluation
  | _ => True

/-- The event is about the transaction. -/
structure Event.About (x : Event) (t : TransactionRow) : Prop where
  aggregate : x.aggregateID = t.id
  key : x.partitionKey = t.accountID
  correlation : x.correlationID = t.correlationID
  describes : x.Describes t

/-- A decision changes nothing of what events say. -/
theorem Event.About.apply {x : Event} {t : TransactionRow} (h : x.About t) (u : Finalize) :
    x.About (u.apply t) := ⟨h.aggregate, h.key, h.correlation, h.describes⟩

/-- Every event is about a transaction. -/
structure Routed (b : Books) : Prop where
  distinct : (b.transactions.map TransactionRow.id).Nodup
  about : ∀ x ∈ b.events, ∃ t ∈ b.transactions, x.About t

theorem Routed.empty : Routed Db.empty.books := ⟨List.nodup_nil, List.forall_mem_nil _⟩

section

variable {P : Platform} {b b' : Books} {c : Call}

theorem Routed.eq_of_id (h : Routed b) {t t' : TransactionRow} (ht : t ∈ b.transactions)
    (ht' : t' ∈ b.transactions) (hid : t.id = t'.id) : t = t' :=
  List.inj_on_of_nodup_map h.distinct ht ht' hid

/-- The transaction an evaluation is about. -/
theorem Routed.evaluation (h : Routed b) (hP : P.Truthful) {x : Event} (hx : x ∈ b.events)
    (htype : x.type = .riskEvaluated) {event : RiskEvaluated}
    (hdecode : P.decodeRiskEvaluated (P.encode x.payload) = .ok event) :
    ∃ t ∈ b.transactions, x.About t ∧ event = t.evaluation := by
  obtain ⟨t, ht, habout⟩ := h.about x hx
  have hpayload := habout.describes
  rw [Event.Describes, htype] at hpayload
  rw [hpayload] at hdecode
  exact ⟨t, ht, habout, hP.riskEvaluated hdecode⟩

/-- The transaction a new payment is announced to be. -/
theorem Routed.announced (h : Routed b) (hP : P.Truthful) {x : Event} (hx : x ∈ b.events)
    (htype : x.type = .transactionCreated) {v : Transaction}
    (hdecode : P.decodeTransaction (P.encode x.payload) = .ok v) :
    ∃ t ∈ b.transactions, x.About t ∧ RiskService.evaluation v = t.evaluation := by
  obtain ⟨t, ht, habout⟩ := h.about x hx
  have hpayload := habout.describes
  rw [Event.Describes, htype] at hpayload
  obtain ⟨v', hv, heq⟩ := hpayload
  rw [hv] at hdecode
  rw [hP.transaction hdecode]
  exact ⟨t, ht, habout, heq⟩

/-- One event more, and perhaps a transaction. -/
theorem Routed.add (h : Routed b) {rows : List TransactionRow} {x : Event}
    (ht : b'.transactions = b.transactions ++ rows) (he : b'.events = b.events ++ [x])
    (hnew : (b'.transactions.map TransactionRow.id).Nodup)
    (hx : ∃ t ∈ b'.transactions, x.About t) : Routed b' := by
  refine ⟨hnew, ?_⟩
  rw [he]
  refine List.forall_mem_append.mpr ⟨fun y hy => ?_, List.forall_mem_singleton.mpr hx⟩
  obtain ⟨t, hmem, habout⟩ := h.about y hy
  exact ⟨t, ht ▸ List.mem_append_left _ hmem, habout⟩

theorem nodup_concat {κ ρ : Type} {f : ρ → κ} {l : List ρ} {r : ρ} (h : (l.map f).Nodup)
    (hr : ∀ a ∈ l, f a ≠ f r) : ((l ++ [r]).map f).Nodup := by
  rw [List.map_append, List.nodup_append]
  refine ⟨h, List.nodup_singleton _, ?_⟩
  intro k hk k' hk' heq
  obtain ⟨a, ha, rfl⟩ := List.mem_map.mp hk
  rw [List.map_singleton, List.mem_singleton] at hk'
  exact hr a ha (heq.trans hk')

theorem Routed.step (h : Routed b) (hP : P.Truthful) (hc : c.Honest P b) (hs : b.Step c b') :
    Routed b' := by
  cases hs with
  | idle => exact h
  | pruned _ => exact ⟨h.distinct, h.about⟩
  | created hid _ _ _ =>
      obtain ⟨request, metadata, draws, _, rfl, rfl⟩ := hc
      refine h.add rfl rfl (nodup_concat h.distinct hid) ?_
      exact ⟨_, List.mem_append_right _ (List.mem_singleton_self _), rfl, rfl, rfl, _, rfl, rfl⟩
  | deposited hid _ _ _ _ =>
      obtain ⟨_, request, metadata, draws, _, rfl, rfl⟩ := hc
      refine h.add rfl rfl (nodup_concat h.distinct hid) ?_
      exact ⟨_, List.mem_append_right _ (List.mem_singleton_self _), rfl, rfl, rfl, trivial⟩
  | evaluated _ _ =>
      obtain ⟨x, hx, v, draws, htype, _, _, _, hdecode, rfl⟩ := hc
      obtain ⟨t, ht, habout, heq⟩ := h.announced hP hx htype hdecode
      refine h.add (List.append_nil _).symm rfl h.distinct ⟨t, ht, ?_⟩
      exact ⟨congrArg RiskEvaluated.transactionID heq, congrArg RiskEvaluated.accountID heq,
        congrArg RiskEvaluated.correlationID heq, congrArg Payload.riskEvaluated heq⟩
  | @settled _ _ event draws now l₁ l₂ t decision _ _ ht hid _ hdec _ =>
      obtain ⟨x, hx, htype, _, _, _, hdecode⟩ := hc
      obtain ⟨t', ht', habout, rfl⟩ := h.evaluation hP hx htype hdecode
      obtain rfl : t = t' := h.eq_of_id (ht ▸ List.mem_append_right _ List.mem_cons_self) ht' hid
      refine ⟨?_, ?_⟩
      · have hids := h.distinct
        rw [ht, List.map_append, List.map_cons] at hids
        rw [List.map_append, List.map_cons]
        exact hids
      · refine List.forall_mem_append.mpr ⟨fun y hy => ?_, List.forall_mem_singleton.mpr ?_⟩
        · obtain ⟨t', hmem, habout'⟩ := h.about y hy
          rw [ht] at hmem
          rcases List.mem_append.mp hmem with hmem | hmem
          · exact ⟨t', List.mem_append_left _ hmem, habout'⟩
          · rcases List.mem_cons.mp hmem with rfl | hmem
            · exact ⟨_, List.mem_append_right _ List.mem_cons_self, habout'.apply _⟩
            · exact ⟨t', List.mem_append_right _ (List.mem_cons_of_mem _ hmem), habout'⟩
        · refine ⟨_, List.mem_append_right _ List.mem_cons_self, rfl, rfl, ?_, ?_⟩
          · show decision.outcome.correlationID = t.correlationID
            rw [hdec, decisionOf]
            split
            · split <;> rfl
            · rfl
          · have hout := decisionOf_type t.evaluation t (b.balance t.accountID t.currency)
            rw [← hdec] at hout
            show match decision.eventType with
              | .transactionCreated => _
              | .riskEvaluated => _
              | _ => True
            cases htype : decision.eventType with
            | transactionCreated | riskEvaluated =>
                rw [htype] at hout
                cases hout
            | _ => trivial

end

/-! ## The risk gate -/

/-- What the rule about amounts says of a payment. -/
structure TransactionRow.Gated (t : TransactionRow) : Prop where
  authorized : t.status = .authorized → t.amountCents ≤ 50000 ∧ t.riskLevel = some .low
  high : 50000 < t.amountCents →
    t.status = .pending ∨ (t.status = .failed ∧ t.riskLevel = some .high)
  poor : t.status = .failed → t.amountCents ≤ 50000 →
    t.riskLevel = some .low ∧ t.riskReason = some "insufficient funds"

theorem TransactionRow.Gated.of_pending {t : TransactionRow} (h : t.status = .pending) :
    t.Gated where
  authorized hs := by
    rw [h] at hs
    cases hs
  high _ := Or.inl h
  poor hs := by
    rw [h] at hs
    cases hs

/-- A decision on the evaluation of a payment keeps the rule. -/
theorem gated_decision (t : TransactionRow) (balance : Int) (now : Time) :
    (((decisionOf t.evaluation t balance).finalize now).apply t).Gated := by
  by_cases hamount : 50000 < t.amountCents
  · have hrisk : evaluateRisk t.amountCents = ⟨.high, false, "amount is greater than 500.00"⟩ := by
      rw [evaluateRisk, if_pos hamount]
    have hdec : decisionOf t.evaluation t balance = rejected t.evaluation := by
      simp only [decisionOf, TransactionRow.evaluation, hrisk, Bool.false_eq_true, if_false]
    rw [hdec]
    refine ⟨(fun h => by cases h), fun _ => Or.inr ⟨rfl, ?_⟩, fun _ hle => absurd hamount (not_lt.mpr hle)⟩
    show some (evaluateRisk t.amountCents).level = some .high
    rw [hrisk]
  · have hrisk : evaluateRisk t.amountCents = ⟨.low, true, "amount is at or below 500.00"⟩ := by
      rw [evaluateRisk, if_neg hamount]
    have hlow : some (evaluateRisk t.amountCents).level = some .low := by rw [hrisk]
    have happ : t.evaluation.approved = true := congrArg RiskEvaluation.approved hrisk
    rw [decisionOf, if_pos happ]
    split
    · exact ⟨(fun h => by cases h), fun h => absurd h hamount, fun _ _ => ⟨hlow, rfl⟩⟩
    · exact ⟨fun _ => ⟨not_lt.mp hamount, hlow⟩, fun h => absurd h hamount, fun h => by cases h⟩

/-- The rule is kept for all payments. -/
structure Gatekept (b : Books) : Prop where
  routed : Routed b
  gated : ∀ t ∈ b.transactions, t.kind = .payment → t.Gated

theorem Gatekept.empty : Gatekept Db.empty.books := ⟨Routed.empty, List.forall_mem_nil _⟩

theorem Gatekept.step {P : Platform} {b b' : Books} {c : Call} (h : Gatekept b) (hP : P.Truthful)
    (hc : c.Honest P b) (hs : b.Step c b') : Gatekept b' := by
  refine ⟨h.routed.step hP hc hs, ?_⟩
  cases hs with
  | idle => exact h.gated
  | pruned _ => exact h.gated
  | evaluated _ _ => exact h.gated
  | created _ _ _ _ =>
      obtain ⟨request, metadata, draws, _, rfl, rfl⟩ := hc
      exact List.forall_mem_append.mpr ⟨h.gated, List.forall_mem_singleton.mpr
        fun _ => .of_pending rfl⟩
  | deposited _ _ _ _ _ =>
      obtain ⟨_, request, metadata, draws, _, rfl, rfl⟩ := hc
      exact List.forall_mem_append.mpr ⟨h.gated, List.forall_mem_singleton.mpr nofun⟩
  | @settled _ _ event draws now l₁ l₂ t decision _ _ ht hid _ hdec _ =>
      obtain ⟨x, hx, htype, _, _, _, hdecode⟩ := hc
      obtain ⟨t', ht', _, rfl⟩ := h.routed.evaluation hP hx htype hdecode
      obtain rfl : t = t' :=
        h.routed.eq_of_id (ht ▸ List.mem_append_right _ List.mem_cons_self) ht' hid
      intro r hr hk
      rcases List.mem_append.mp hr with hr | hr
      · exact h.gated r (ht ▸ List.mem_append_left _ hr) hk
      · rcases List.mem_cons.mp hr with rfl | hr
        · rw [hdec]
          exact gated_decision t _ now
        · exact h.gated r (ht ▸ List.mem_append_right _ (List.mem_cons_of_mem _ hr)) hk

/-- No payment over 500.00 is ever authorized, and none below fails but for lack of money. -/
theorem risk_gate (P : Platform) (hP : P.Truthful)
    (es : List (Transact.Event (system P (.honest P anything))))
    (s : SystemState P (.honest P anything))
    (h : (State.init Db.empty [] : SystemState P (.honest P anything)).steps es = some s)
    (t : TransactionRow) (ht : t ∈ s.db.transactions.rows) (hk : t.kind = .payment) : t.Gated := by
  have hrun : HonestRun (fun _ => True) Gatekept s :=
    honest_reach (fun _ _ => trivial) (fun hb _ hc hs => hb.step hP hc hs) Gatekept.empty h
  exact hrun.inv.gated t ht hk

/-- What a deposit of 7.00 draws. -/
def gateDraws : FundingService.Draws where
  trace := .fill 32 9
  transaction := .fill 32 9
  event := .fill 32 9
  store := ⟨.fill 32 9, .fill 32 8, .fill 32 9⟩
  createdAt := 0
  eventAt := 0
  now := 0

/-- The evaluation of a payment of 5.00, on its topic. -/
def evaluationMessage : Message :=
  ((RiskService.newEvent (TransactionService.newTransaction ⟨"alice", "shop", 500, "USD"⟩
    ⟨"key-1", "trace-1"⟩ copiedDraws) ⟨.fill 32 1, 0, 0⟩).content.body .framed).at 0 0

/-- A deposit of 7.00, and a payment of 5.00 that goes all the way. -/
def gateRequests : List Request :=
  [.deposit 100000 ⟨"alice", 700, "usd", "bank", "ref-1"⟩ ⟨"key-9", "trace-9", "refill"⟩ gateDraws,
    .create ⟨"alice", "shop", 500, "usd"⟩ ⟨"key-1", "trace-1"⟩ copiedDraws,
    .handleCreated (copiedMessage 0) ⟨.fill 32 1, 0, 0⟩,
    .handleEvaluated evaluationMessage ⟨.fill 32 2, .fill 32 3, .fill 32 2⟩ 0]

/-- A payment is published before the risk service gets it, and so is its evaluation. -/
def gateRun (admits : Request → Bool) :
    List (Transact.Event (system .framed (.honest .framed admits))) :=
  List.flatten
    [(gateRequests.take 1).map .arrive, List.replicate 10 (.run 0),
      ((gateRequests.drop 1).take 1).map .arrive, List.replicate 6 (.run 1),
      [.env (.event (newID "evt" (.fill 32 0)) 0 0)],
      ((gateRequests.drop 2).take 1).map .arrive, List.replicate 4 (.run 2),
      [.env (.event (newID "evt" (.fill 32 1)) 0 0)],
      (gateRequests.drop 3).map .arrive, List.replicate 9 (.run 3)]

theorem risk_gate_authorized : ∃ s : SystemState .framed (.honest .framed anything),
    (State.init Db.empty []).steps (gateRun anything) = some s ∧
      ∃ t ∈ s.db.transactions.rows, t.kind = .payment ∧ t.status = .authorized ∧ t.Gated := by
  have h : ((State.init Db.empty [] : SystemState .framed (.honest .framed anything)).steps
      (gateRun anything)).map (fun s => s.db.transactions.rows.map fun t => (t.kind, t.status)) =
        some [(.deposit, .authorized), (.payment, .authorized)] := by
    decide +kernel
  obtain ⟨s, hs, hrows⟩ := Option.map_eq_some_iff.mp h
  have hmem : (TransactionKind.payment, TransactionStatus.authorized) ∈
      s.db.transactions.rows.map fun t => (t.kind, t.status) := by
    rw [hrows]
    simp
  obtain ⟨t, ht, hkind⟩ := List.mem_map.mp hmem
  obtain ⟨hk, hstatus⟩ := Prod.mk.inj hkind
  exact ⟨s, hs, t, ht, hk, hstatus,
    risk_gate .framed Platform.framed_faithful.truthful (gateRun anything) s hs t ht hk⟩

/-! ## Where transactions come from -/

/-- The operation begins the transaction. -/
def Call.Begins (t : TransactionRow) : Call → Prop
  | .create record _ _ => t.kind = .payment ∧ t.id = record.transaction.id ∧
      t.accountID = record.transaction.accountID ∧
      t.correlationID = record.transaction.correlationID
  | .createDeposit deposit _ _ _ => t.kind = deposit.transaction.kind ∧
      t.id = deposit.transaction.id ∧ t.accountID = deposit.transaction.accountID ∧
      t.correlationID = deposit.transaction.correlationID
  | _ => False

/-- Transactions are begun, and keep what they are begun with. -/
theorem Books.Step.begun {b b' : Books} {c : Call} (h : b.Step c b') {t : TransactionRow}
    (ht : t ∈ b'.transactions) :
    c.Begins t ∨ ∃ t₀ ∈ b.transactions, ∀ c : Call, c.Begins t₀ → c.Begins t := by
  have hold : t ∈ b.transactions → ∃ t₀ ∈ b.transactions, ∀ c : Call, c.Begins t₀ → c.Begins t :=
    fun ht => ⟨t, ht, fun _ => id⟩
  cases h with
  | idle => exact Or.inr (hold ht)
  | pruned _ => exact Or.inr (hold ht)
  | evaluated _ _ => exact Or.inr (hold ht)
  | created _ _ _ _ =>
      rcases List.mem_append.mp ht with ht | ht
      · exact Or.inr (hold ht)
      · rw [List.mem_singleton.mp ht]
        exact Or.inl ⟨rfl, rfl, rfl, rfl⟩
  | deposited _ _ _ _ _ =>
      rcases List.mem_append.mp ht with ht | ht
      · exact Or.inr (hold ht)
      · rw [List.mem_singleton.mp ht]
        exact Or.inl ⟨rfl, rfl, rfl, rfl⟩
  | @settled _ _ event draws now l₁ l₂ t₀ decision _ _ hsplit _ _ _ _ =>
      right
      rw [hsplit]
      rcases List.mem_append.mp ht with ht | ht
      · exact ⟨t, List.mem_append_left _ ht, fun _ => id⟩
      · rcases List.mem_cons.mp ht with rfl | ht
        · refine ⟨t₀, List.mem_append_right _ List.mem_cons_self, fun c hc => ?_⟩
          cases c with
          | create | createDeposit => exact hc
          | _ => exact hc.elim
        · exact ⟨t, List.mem_append_right _ (List.mem_cons_of_mem _ ht), fun _ => id⟩

/-- The request starts the transaction, with this account and this correlation id. -/
def Request.Starts (t : TransactionRow) : Request → Prop
  | .create request metadata draws =>
      t.kind = .payment ∧ t.id = newID "txn" draws.transaction ∧
      t.accountID = (TransactionService.normalize request).accountID ∧
      t.correlationID = metadata.correlationID
  | .deposit _ request metadata draws =>
      t.kind = .deposit ∧ t.id = newID "dep" draws.transaction ∧
      t.accountID = (FundingService.normalize request).accountID ∧
      t.correlationID = (FundingService.normalizeMetadata metadata draws.trace).correlationID
  | _ => False

theorem Request.Makes.starts {P : Platform} {r : Request} {c : Call} (h : r.Makes P c)
    (hr : ∀ c, r ≠ .store c) {t : TransactionRow} (hc : c.Begins t) : r.Starts t := by
  cases h with
  | minor h =>
      cases c with
      | create | createDeposit => cases h
      | _ => exact hc.elim
  | create hrequest hmetadata _ =>
      obtain ⟨hkind, hid, haccount, hcorrelation⟩ := hc
      have hkept := congrArg TransactionService.RequestMetadata.correlationID hmetadata
      exact ⟨hkind, hid,
        haccount.trans (congrArg TransactionService.CreateRequest.accountID hrequest),
        hcorrelation.trans hkept⟩
  | deposit hrequest hmetadata _ =>
      obtain ⟨hkind, hid, haccount, hcorrelation⟩ := hc
      exact ⟨hkind, hid,
        haccount.trans (congrArg FundingService.DepositRequest.accountID hrequest),
        hcorrelation.trans (congrArg FundingService.RequestMetadata.correlationID hmetadata)⟩
  | evaluate _ _ _ | settle _ _ _ | record | prune => exact hc.elim
  | store => exact absurd rfl (hr _)

section

variable {P : Platform} {policy : Policy}

/-- Every transaction has been begun by an operation of the log. -/
theorem begun_reach {w : policy.World} {s : AState (system P policy)}
    (h : AReach (contract P.hashtext) ⟨Db.empty, w, [], []⟩ s) :
    ∀ t ∈ s.db.transactions.rows, ∃ e ∈ s.log, e.call.Begins t := by
  have hsafe : Safe (system P policy) (contract P.hashtext)
      (fun d _ g => ∀ t ∈ d.books.transactions, ∃ e ∈ g, Call.Begins t e.call) fun _ _ => True :=
    { arrive := fun hI _ => ⟨hI, trivial⟩
      env := fun hI _ => hI
      op := by
        rintro d w g r c o i hI _ _ ho rfl t ht
        rcases (allows_outcome ho).step.begun ht with hc | ⟨t₀, ht₀, hkept⟩
        · exact ⟨_, List.mem_append_right _ (List.mem_singleton_self _), hc⟩
        · obtain ⟨e, he, hc⟩ := hI t₀ ht₀
          exact ⟨e, List.mem_append_left _ he, hkept _ hc⟩
      stable := fun _ _ _ _ _ hQ => hQ }
  exact (hsafe.reach (Kept.init (List.forall_mem_nil _)) h).inv

end

/-! ## Keys and correlation ids -/

/-- What an honest run says of keys and correlation ids. -/
structure RoutedAndTraced {P : Platform} {admits : Request → Bool}
    (s : SystemState P (.honest P admits)) : Prop where
  /-- Every event about a transaction. -/
  events : ∀ r ∈ s.db.outboxEvents.rows, ∀ t ∈ s.db.transactions.rows, r.aggregateID = t.id →
    r.partitionKey = t.accountID ∧ r.correlationID = t.correlationID
  /-- There are no others. -/
  covered : ∀ r ∈ s.db.outboxEvents.rows, ∃ t ∈ s.db.transactions.rows, r.aggregateID = t.id
  /-- Transactions have been started by requests. -/
  started : ∀ t ∈ s.db.transactions.rows, ∃ (i : Nat) (r : Request),
    s.tasks[i]?.map Task.request = some r ∧ r.Starts t
  /-- Every message is that of an event about a transaction. -/
  messages : ∀ b, Published s b → ∃ r ∈ s.db.outboxEvents.rows, ∃ t ∈ s.db.transactions.rows,
    b = r.content.body P ∧ r.aggregateID = t.id ∧ b.key = utf8 t.accountID ∧
      ("correlation_id", utf8 t.correlationID) ∈ b.headers

theorem routed_and_traced (P : Platform) (hP : P.Truthful)
    (es : List (Transact.Event (system P (.honest P anything))))
    (s : SystemState P (.honest P anything))
    (h : (State.init Db.empty [] : SystemState P (.honest P anything)).steps es = some s) :
    RoutedAndTraced s := by
  have hrun : HonestRun (fun _ => True) (fun b => Booked P b ∧ Routed b) s :=
    honest_reach (fun _ _ => trivial)
      (fun hb _ hc hs => ⟨hb.1.step hc hs, hb.2.step hP hc hs⟩) ⟨Booked.empty P, Routed.empty⟩ h
  have habout : ∀ r ∈ s.db.outboxEvents.rows, ∃ t ∈ s.db.transactions.rows, r.content.About t :=
    fun r hr => hrun.inv.2.about r.content (List.mem_map_of_mem hr)
  refine ⟨fun r hr t ht hid => ?_, fun r hr => ?_, fun t ht => ?_, fun b hb => ?_⟩
  · obtain ⟨t', ht', hx⟩ := habout r hr
    obtain rfl : t = t' := hrun.inv.2.eq_of_id ht ht' (hid.symm.trans hx.aggregate)
    exact ⟨hx.key, hx.correlation⟩
  · obtain ⟨t, ht, hx⟩ := habout r hr
    exact ⟨t, ht, hx.aggregate⟩
  · obtain ⟨e, he, hbegins⟩ := begun_reach (s := s.abs) hrun.reach t ht
    obtain ⟨task, q, htask, hown, hmade⟩ := entry_task hrun.traced he
    have hcopied := (hrun.requests task (List.mem_of_getElem? htask)).2
    refine ⟨e.task, task.request, congrArg (Option.map Task.request) htask, ?_⟩
    refine (Request.makes (hmade.calls hown)).starts (fun c hc => ?_) hbegins
    rw [hc] at hcopied
    exact hcopied
  · obtain ⟨x, hx, rfl⟩ := hb.copy hrun
    obtain ⟨r, hr, rfl⟩ := List.mem_map.mp hx
    obtain ⟨t, ht, hx⟩ := habout r hr
    refine ⟨r, hr, t, ht, rfl, hx.aggregate, congrArg utf8 hx.key, ?_⟩
    rw [← hx.correlation]
    exact List.mem_cons_of_mem _ (List.mem_singleton_self _)

theorem routed_and_traced_authorized : ∃ s : SystemState .framed (.honest .framed anything),
    (State.init Db.empty []).steps (gateRun anything) = some s ∧ s.db.outboxEvents.rows.length = 4 ∧
      s.world.length = 2 ∧ RoutedAndTraced s := by
  have h : ((State.init Db.empty [] : SystemState .framed (.honest .framed anything)).steps
      (gateRun anything)).map (fun s => (s.db.outboxEvents.rows.length, s.world.length)) = some (4, 2) := by
    decide +kernel
  obtain ⟨s, hs, hview⟩ := Option.map_eq_some_iff.mp h
  obtain ⟨hrows, hworld⟩ := Prod.mk.inj hview
  exact ⟨s, hs, hrows, hworld,
    routed_and_traced .framed Platform.framed_faithful.truthful (gateRun anything) s hs⟩

end Clearance
