/-
# `Clearance.Compatibility` — the services' messages fit each other

Three services check what they get, each on its own: `transaction.validate` checks a
request, `HandleTransactionCreated` the payment it reads from a message,
`HandleRiskEvaluated` the evaluation it reads, and `lockPendingTransaction` compares the
evaluation with the row.

    request ─ validate ─▸ TransactionCreated ─ incomplete ─▸ RiskEvaluated ─ defect ─▸ row

What passes the first check passes the others (`Fits`), provided that encoding and
decoding lose nothing (`Platform.Faithful`) and the correlation id is one that the router
lets through: `validate` does not look at it, and the risk service does.

With an honest broker the messages are those of requests that have passed the first
check, so that the consumers have nothing to object to (`messages_fit`).
-/
import Clearance.Provenance

namespace Clearance

open Transact OperationsService

/-! ## What the services ask of a transaction -/

/-- Nothing is missing that a service asks for. -/
structure TransactionRow.Complete (t : TransactionRow) : Prop where
  id : t.id ≠ ""
  account : t.accountID ≠ ""
  amount : 0 < t.amountCents
  currency : t.currency ≠ ""
  correlation : t.correlationID ≠ ""

theorem safeToken_ne_empty {s : String} (h : safeToken s = true) : s ≠ "" := by
  rintro rfl
  exact absurd h (by decide)

theorem newID_ne_empty (kind : String) (r : Random) : newID kind r ≠ "" := by
  intro h
  have hlength := congrArg (fun s => s.toList.length) h
  simp [newID] at hlength

section

variable {P : Platform} {t : TransactionRow} {v : Transaction}

/-- The risk service takes the payment that a complete row was announced with. -/
theorem TransactionRow.Complete.incomplete (h : t.Complete)
    (hv : RiskService.evaluation v = t.evaluation) : RiskService.incomplete v = false := by
  have hid : v.id = t.id := congrArg RiskEvaluated.transactionID hv
  have haccount : v.accountID = t.accountID := congrArg RiskEvaluated.accountID hv
  have hamount : v.amountCents = t.amountCents := congrArg RiskEvaluated.amountCents hv
  have hcurrency : v.currency = t.currency := congrArg RiskEvaluated.currency hv
  have hcorrelation : v.correlationID = t.correlationID := congrArg RiskEvaluated.correlationID hv
  rw [RiskService.incomplete, hid, haccount, hamount, hcurrency, hcorrelation,
    beq_false_of_ne h.id, beq_false_of_ne h.account, decide_eq_false (not_le.mpr h.amount),
    beq_false_of_ne h.currency, beq_false_of_ne h.correlation]
  rfl

/-- An evaluation is approved if the risk is low, and only then. -/
theorem evaluateRisk_approved (amountCents : Int) :
    ((evaluateRisk amountCents).approved && (evaluateRisk amountCents).level != .low) = false ∧
      (!(evaluateRisk amountCents).approved && (evaluateRisk amountCents).level != .high) =
        false := by
  unfold evaluateRisk
  split <;> exact ⟨rfl, rfl⟩

/-- The ledger service takes the evaluation of a complete row. -/
theorem TransactionRow.Complete.defect (h : t.Complete) :
    LedgerService.defect t.evaluation = none := by
  obtain ⟨hlow, hhigh⟩ := evaluateRisk_approved t.amountCents
  have hpresent : (t.id == "" || t.accountID == "" || decide (t.amountCents ≤ 0) ||
      t.currency == "") = false := by
    rw [beq_false_of_ne h.id, beq_false_of_ne h.account, decide_eq_false (not_le.mpr h.amount),
      beq_false_of_ne h.currency]
    rfl
  exact (if_neg (Bool.eq_false_iff.mp hpresent)).trans
    ((if_neg (Bool.eq_false_iff.mp hlow)).trans (if_neg (Bool.eq_false_iff.mp hhigh)))

/-- The comparison with the row finds no difference; only its status can be wrong. -/
theorem checkPending_evaluation (t : TransactionRow) : checkPending t.evaluation (some t) =
    if t.status ≠ .pending then .error (.text "transaction is not pending") else .ok t := by
  have hsame : ¬(t.accountID ≠ t.evaluation.accountID ∨ t.amountCents ≠ t.evaluation.amountCents ∨
      t.currency ≠ t.evaluation.currency) := by
    rintro (h | h | h) <;> exact h rfl
  rw [checkPending, if_neg hsame]

/-- What is done with the answer of the store. -/
def passOn {ρ : Type} (context : String) : Except Error ρ → Service P (Except Error Unit)
  | .error e => .ret (.error (.wrap context e))
  | .ok _ => .ret (.ok ())

/-- The risk service takes a payment it can read and that is complete. -/
theorem RiskService.handleTransactionCreated_takes {payload : Bytes}
    (hdecode : P.decodeTransaction payload = .ok v) (hcomplete : RiskService.incomplete v = false)
    (delivery : Delivery) (draws : RiskService.Draws) :
    RiskService.handleTransactionCreated P delivery payload draws =
      .call (.saveConsumerOutbox delivery (P.sha256 payload) (RiskService.newEvent v draws)
        draws.now) (passOn "persist risk evaluation") := by
  rw [RiskService.handleTransactionCreated, hdecode]
  simp only [hcomplete, Bool.false_eq_true, if_false]
  refine congrArg (Svc.call _) (funext fun answer => ?_)
  cases answer <;> rfl

/-- The ledger service takes an evaluation it can read and finds no fault with. -/
theorem LedgerService.handleRiskEvaluated_takes {payload : Bytes} {event : RiskEvaluated}
    (hdecode : P.decodeRiskEvaluated payload = .ok event)
    (hdefect : LedgerService.defect event = none) (delivery : Delivery) (draws : LedgerDraws)
    (now : Time) :
    LedgerService.handleRiskEvaluated P delivery payload draws now =
      .call (.processRiskEvaluated delivery (P.sha256 payload) event draws now)
        (passOn "process risk evaluation") := by
  rw [LedgerService.handleRiskEvaluated, hdecode]
  simp only [hdefect]
  refine congrArg (Svc.call _) (funext fun answer => ?_)
  cases answer <;> rfl

end

/-! ## One payment -/

/-- The messages about a payment pass the checks on their way, whatever is drawn. -/
structure Fits (P : Platform) (request : TransactionService.CreateRequest)
    (metadata : TransactionService.RequestMetadata) (draws : TransactionService.Draws) : Prop where
  /-- The risk service takes the payment, and goes on to store its evaluation. -/
  created : ∀ delivery draws', ∃ k, RiskService.handleTransactionCreated P delivery
      (P.encode (TransactionService.newEvent request metadata draws).payload) draws' =
    .call (.saveConsumerOutbox delivery
      (P.sha256 (P.encode (TransactionService.newEvent request metadata draws).payload))
      (RiskService.newEvent (TransactionService.newTransaction request metadata draws) draws')
      draws'.now) k
  /-- The ledger service takes the evaluation, and goes on to settle the payment. -/
  evaluated : ∀ delivery draws' draws'' now, ∃ k, LedgerService.handleRiskEvaluated P delivery
      (P.encode (RiskService.newEvent (TransactionService.newTransaction request metadata draws)
        draws').payload) draws'' now =
    .call (.processRiskEvaluated delivery
      (P.sha256 (P.encode (RiskService.newEvent
        (TransactionService.newTransaction request metadata draws) draws').payload))
      (RiskService.evaluation (TransactionService.newTransaction request metadata draws))
      draws'' now) k
  /-- It is the evaluation of the row, as long as that is pending. -/
  pending : ∀ now, checkPending
      (RiskService.evaluation (TransactionService.newTransaction request metadata draws))
      (some (paymentRow (TransactionService.newRecord P request metadata draws).transaction now)) =
    .ok (paymentRow (TransactionService.newRecord P request metadata draws).transaction now)

section

variable {P : Platform} {request : TransactionService.CreateRequest}
  {metadata : TransactionService.RequestMetadata} {draws : TransactionService.Draws}

theorem complete_paymentRow (hacc : TransactionService.acceptable request metadata = true)
    (hcorrelation : safeToken metadata.correlationID = true) (now : Time) :
    (paymentRow (TransactionService.newTransaction request metadata draws) now).Complete := by
  simp only [TransactionService.acceptable, Bool.and_eq_true, decide_eq_true_eq] at hacc
  obtain ⟨⟨⟨⟨⟨_, haccount⟩, _⟩, _⟩, hcurrency⟩, hamount⟩ := hacc
  exact ⟨newID_ne_empty _ _, safeToken_ne_empty haccount, hamount,
    safeToken_ne_empty (safeToken_of_currencyCode hcurrency), safeToken_ne_empty hcorrelation⟩

theorem complete_depositRow {maxAmountCents : Int64} {request : FundingService.DepositRequest}
    {metadata : FundingService.RequestMetadata} {draws : FundingService.Draws}
    (hacc : FundingService.acceptable maxAmountCents request metadata = true) :
    (depositRow (FundingService.newTransaction request metadata draws)).Complete := by
  simp only [FundingService.acceptable, Bool.and_eq_true, decide_eq_true_eq] at hacc
  obtain ⟨⟨⟨⟨⟨⟨⟨⟨⟨haccount, _⟩, _⟩, _⟩, _⟩, hcorrelation⟩, hcurrency⟩, hamount⟩, _⟩, _⟩ := hacc
  exact ⟨newID_ne_empty _ _, safeToken_ne_empty haccount, hamount,
    safeToken_ne_empty (safeToken_of_currencyCode hcurrency), safeToken_ne_empty hcorrelation⟩

theorem Fits.of_acceptable (hP : P.Faithful)
    (hacc : TransactionService.acceptable request metadata = true)
    (hcorrelation : safeToken metadata.correlationID = true) : Fits P request metadata draws where
  created delivery draws' :=
    ⟨_, RiskService.handleTransactionCreated_takes (hP.transaction _)
      ((complete_paymentRow hacc hcorrelation 0).incomplete rfl) delivery draws'⟩
  evaluated delivery draws' draws'' now := by
    have hrow : (paymentRow (TransactionService.newTransaction request metadata draws) 0).Complete :=
      complete_paymentRow hacc hcorrelation 0
    exact ⟨_, LedgerService.handleRiskEvaluated_takes (hP.riskEvaluated _) hrow.defect delivery
      draws'' now⟩
  pending now := checkPending_evaluation _

end

/-! ## Whole runs -/

/-- The errors of a consumer that cannot make sense of a message. -/
def Error.Unfit : Error → Prop
  | .wrap context cause => context = "decode transaction created event" ∨
      context = "decode risk evaluated event" ∨
      (context = "process risk evaluation" ∧
        cause = .text "risk event does not match transaction")
  | .text message => message ∈ ["transaction created event is incomplete",
      "risk evaluated event is incomplete", "approved risk evaluation must be low risk",
      "failed risk evaluation must be high risk"]
  | _ => False

/-- Correlation ids have passed the router. -/
def Request.routed : Request → Bool
  | .create _ metadata _ => safeToken metadata.correlationID
  | .store _ => false
  | _ => true

/-- What the router sees to. -/
def Call.Traceable : Call → Prop
  | .create record _ _ => safeToken record.transaction.correlationID = true
  | _ => True

theorem Request.Makes.traceable {P : Platform} {r : Request} {c : Call} (hr : r.routed = true)
    (h : r.Makes P c) : c.Traceable := by
  cases h with
  | minor h =>
      cases c with
      | create => cases h
      | _ => trivial
  | create _ hmetadata _ =>
      have hkept := congrArg TransactionService.RequestMetadata.correlationID hmetadata
      exact (congrArg safeToken hkept).trans hr
  | store => cases hr
  | _ => trivial

/-- Every event is about a transaction that has everything. -/
structure Fitting (b : Books) : Prop where
  routed : Routed b
  complete : ∀ t ∈ b.transactions, t.Complete

theorem Fitting.empty : Fitting Db.empty.books := ⟨Routed.empty, List.forall_mem_nil _⟩

section

variable {P : Platform} {b b' : Books} {c : Call}

theorem Fitting.step (h : Fitting b) (hP : P.Truthful) (hok : c.Traceable) (hc : c.Honest P b)
    (hs : b.Step c b') : Fitting b' := by
  refine ⟨h.routed.step hP hc hs, ?_⟩
  cases hs with
  | idle => exact h.complete
  | pruned _ => exact h.complete
  | evaluated _ _ => exact h.complete
  | created _ _ _ _ =>
      obtain ⟨request, metadata, draws, hacc, rfl, rfl⟩ := hc
      exact List.forall_mem_append.mpr ⟨h.complete, List.forall_mem_singleton.mpr
        (complete_paymentRow hacc hok _)⟩
  | deposited _ _ _ _ _ =>
      obtain ⟨_, request, metadata, draws, hacc, rfl, rfl⟩ := hc
      exact List.forall_mem_append.mpr ⟨h.complete, List.forall_mem_singleton.mpr
        (complete_depositRow hacc)⟩
  | @settled _ _ event draws now l₁ l₂ t decision _ _ ht hid _ hdec _ =>
      intro r hr
      rcases List.mem_append.mp hr with hr | hr
      · exact h.complete r (ht ▸ List.mem_append_left _ hr)
      · rcases List.mem_cons.mp hr with rfl | hr
        · have hold := h.complete t (ht ▸ List.mem_append_right _ List.mem_cons_self)
          exact ⟨hold.id, hold.account, hold.amount, hold.currency, hold.correlation⟩
        · exact h.complete r (ht ▸ List.mem_append_right _ (List.mem_cons_of_mem _ hr))

/-- The risk service has no objection to a copy. -/
theorem Fitting.announced (h : Fitting b) (hP : P.Faithful) {x : Event} (hx : x ∈ b.events)
    (htype : x.type = .transactionCreated) :
    ∃ v, P.decodeTransaction (P.encode x.payload) = .ok v ∧ RiskService.incomplete v = false := by
  obtain ⟨t, ht, habout⟩ := h.routed.about x hx
  have hpayload := habout.describes
  rw [Event.Describes, htype] at hpayload
  obtain ⟨v, hv, heq⟩ := hpayload
  rw [hv]
  exact ⟨v, hP.transaction v, (h.complete t ht).incomplete heq⟩

/-- Nor has the ledger service. -/
theorem Fitting.evaluated (h : Fitting b) (hP : P.Faithful) {x : Event} (hx : x ∈ b.events)
    (htype : x.type = .riskEvaluated) :
    ∃ t ∈ b.transactions, x.aggregateID = t.id ∧ x.payload = .riskEvaluated t.evaluation ∧
      P.decodeRiskEvaluated (P.encode x.payload) = .ok t.evaluation ∧
      LedgerService.defect t.evaluation = none := by
  obtain ⟨t, ht, habout⟩ := h.routed.about x hx
  have hpayload := habout.describes
  rw [Event.Describes, htype] at hpayload
  rw [hpayload]
  exact ⟨t, ht, habout.aggregate, rfl, hP.riskEvaluated _, (h.complete t ht).defect⟩

/-- The comparison with the row is not what stops the ledger service. -/
theorem Fitting.matched {d : Db} (h : Fitting d.books) (hP : P.Faithful) (hc : c.Honest P d.books)
    {e : Error} (hr : Refusal d c e) : e ≠ .text "risk event does not match transaction" := by
  intro he
  cases hr with
  | driver hdriver =>
      rw [he] at hdriver
      cases hdriver.2
  | conflict => cases he
  | @unmatched _ _ event _ _ _ hcheck =>
      obtain ⟨x, hx, htype, _, _, _, hdecode⟩ := hc
      obtain ⟨t, ht, _, rfl⟩ := h.routed.evaluation hP.truthful hx htype hdecode
      have hfind : d.transactions.find? t.evaluation.transactionID = some t :=
        d.transactions.find?_of_mem ht
      rw [hfind, checkPending_evaluation, he] at hcheck
      split at hcheck
      · exact absurd (Except.error.inj hcheck) (by decide)
      · cases hcheck
  | changed => exact absurd he (by decide)

theorem not_unfit_eventID {m : Message} {e : Error} (h : KafkaBus.eventID m = .error e) :
    ¬e.Unfit := by
  unfold KafkaBus.eventID at h
  split at h
  · split at h
    · cases h
      simp [Error.Unfit]
    · cases h
  · split at h
    · cases h
    · cases h
      simp [Error.Unfit]

/-- An error that is passed on is the answer of the store. -/
theorem made_passOn {i : Nat} {context : String} {g : List (Entry (dialect P.hashtext).engine
    (store P.hashtext))} {e : Error}
    (h : Svc.Made i (.call c (passOn context) : Service P (Except Error Unit)) g
      (.ret (.error e))) :
    ∃ o : Op (dialect P.hashtext).engine Error c.Reply, ⟨i, c, o⟩ ∈ g ∧
      ∃ cause, o.answer = .error cause ∧ e = .wrap context cause := by
  rcases Svc.made_call.mp h with ⟨_, hret⟩ | ⟨o, g', rfl, hrest⟩
  · cases hret
  · refine ⟨o, List.mem_cons_self, ?_⟩
    cases hanswer : o.answer with
    | ok a =>
        rw [hanswer] at hrest
        cases (Svc.made_ret.mp hrest).2
    | error cause =>
        rw [hanswer] at hrest
        cases (Svc.made_ret.mp hrest).2
        exact ⟨cause, rfl, rfl⟩

end

/-- What an honest run says of the consumers' answers. -/
structure Unobjectionable {P : Platform} {admits : Request → Bool}
    (s : SystemState P (.honest P admits)) : Prop where
  risk : ∀ (i : Nat) (m : Message) (draws : RiskService.Draws) (start : Db) (e : Error),
    s.tasks[i]? = some ⟨.handleCreated m draws, start, .idle (.ret (.error e))⟩ → ¬e.Unfit
  ledger : ∀ (i : Nat) (m : Message) (draws : LedgerDraws) (now : Time) (start : Db) (e : Error),
    s.tasks[i]? = some ⟨.handleEvaluated m draws now, start, .idle (.ret (.error e))⟩ → ¬e.Unfit
  /-- The evaluation of a pending payment passes the comparison with its row. -/
  pending : ∀ r ∈ s.db.outboxEvents.rows, r.eventType = .riskEvaluated →
    ∃ t ∈ s.db.transactions.rows, r.aggregateID = t.id ∧ ∃ event, r.payload = .riskEvaluated event ∧
      (t.status = .pending →
        checkPending event (s.db.transactions.find? event.transactionID) = .ok t)

section

variable {P : Platform} {admits : Request → Bool} {s : SystemState P (.honest P admits)}

/-- The risk service fails in the store, if at all. -/
theorem risk_fits (hP : P.Faithful) (hrun : HonestRun Call.Traceable Fitting s) {i : Nat}
    {m : Message} {draws : RiskService.Draws} {start : Db} {e : Error}
    (ht : s.tasks[i]? = some ⟨.handleCreated m draws, start, .idle (.ret (.error e))⟩) :
    ¬e.Unfit := by
  obtain ⟨x, hx, htype, hbody⟩ := (hrun.requests _ (List.mem_of_getElem? ht)).2
  have hvalue : m.value = P.encode x.payload := congrArg Replayed.value hbody
  obtain ⟨v, hdecode, hcomplete⟩ := hrun.inv.announced hP hx htype
  rw [← hvalue] at hdecode
  have hmade := returned_made hrun.traced ht
  rw [Request.program, RiskService.handleMessage] at hmade
  cases hid : KafkaBus.eventID m with
  | error err =>
      rw [hid] at hmade
      cases (Svc.made_ret.mp hmade).2
      exact not_unfit_eventID hid
  | ok id =>
      rw [hid] at hmade
      dsimp only at hmade
      rw [RiskService.handleTransactionCreated_takes hdecode hcomplete] at hmade
      obtain ⟨o, _, cause, _, rfl⟩ := made_passOn hmade
      simp [Error.Unfit]

/-- So does the ledger service, and not for want of a match. -/
theorem ledger_fits (hP : P.Faithful) (hrun : HonestRun Call.Traceable Fitting s) {i : Nat}
    {m : Message} {draws : LedgerDraws} {now : Time} {start : Db} {e : Error}
    (ht : s.tasks[i]? = some ⟨.handleEvaluated m draws now, start, .idle (.ret (.error e))⟩) :
    ¬e.Unfit := by
  obtain ⟨x, hx, htype, hbody⟩ := (hrun.requests _ (List.mem_of_getElem? ht)).2
  have hvalue : m.value = P.encode x.payload := congrArg Replayed.value hbody
  obtain ⟨t, _, _, _, hdecode, hdefect⟩ := hrun.inv.evaluated hP hx htype
  rw [← hvalue] at hdecode
  have hmade := returned_made hrun.traced ht
  rw [Request.program, LedgerService.handleMessage] at hmade
  cases hid : KafkaBus.eventID m with
  | error err =>
      rw [hid] at hmade
      cases (Svc.made_ret.mp hmade).2
      exact not_unfit_eventID hid
  | ok id =>
      rw [hid] at hmade
      dsimp only at hmade
      rw [LedgerService.handleRiskEvaluated_takes hdecode hdefect] at hmade
      obtain ⟨o, ho, cause, hanswer, rfl⟩ := made_passOn hmade
      have he := mem_of_own ho
      obtain ⟨hfitting, _, hhonest⟩ := hrun.entries _ he
      have hcause := hfitting.matched hP hhonest
        (consumer_refused (hrun.traced.allowed _ he) rfl hanswer)
      simp [Error.Unfit, hcause]

end

/-- Accepted requests make messages that every service accepts; so in an honest run no
consumer fails for want of sense in a message. -/
theorem messages_fit (P : Platform) (hP : P.Faithful) :
    (∀ (request request' : TransactionService.CreateRequest)
      (metadata : TransactionService.RequestMetadata) (draws : TransactionService.Draws),
      TransactionService.validate request (TransactionService.normalizeMetadata metadata) =
        .ok request' →
      safeToken metadata.correlationID = true →
      Fits P request' (TransactionService.normalizeMetadata metadata) draws) ∧
    ∀ (es : List (Transact.Event (system P (.honest P Request.routed))))
      (s : SystemState P (.honest P Request.routed)),
      (State.init Db.empty [] : SystemState P (.honest P Request.routed)).steps es = some s →
      Unobjectionable s := by
  refine ⟨fun request request' metadata draws hvalid hcorrelation => ?_, fun es s h => ?_⟩
  · rw [TransactionService.validate] at hvalid
    split at hvalid
    · next hacc =>
        rw [← Except.ok.inj hvalid]
        exact .of_acceptable hP hacc hcorrelation
    · cases hvalid
  · have hrun : HonestRun Call.Traceable Fitting s :=
      honest_reach (fun hr hc => hc.traceable hr)
        (fun hb hok hc hs => hb.step hP.truthful hok hc hs) Fitting.empty h
    refine ⟨fun i m draws start e ht => risk_fits hP hrun ht,
      fun i m draws now start e ht => ledger_fits hP hrun ht, fun r hr htype => ?_⟩
    obtain ⟨t, ht, hid, hpayload, _, _⟩ :=
      hrun.inv.evaluated (P := P) hP (List.mem_map_of_mem hr) htype
    refine ⟨t, ht, hid, t.evaluation, hpayload, fun hpending => ?_⟩
    have hfind : s.db.transactions.find? t.evaluation.transactionID = some t :=
      s.db.transactions.find?_of_mem ht
    rw [hfind, checkPending_evaluation, if_neg (not_not.mpr hpending)]

/-- A payment of 5.00 that goes all the way. -/
theorem messages_fit_authorized :
    Fits .framed ⟨"alice", "shop", 500, "USD"⟩ ⟨"key-1", "trace-1"⟩ copiedDraws ∧
      ∃ s : SystemState .framed (.honest .framed Request.routed),
        (State.init Db.empty []).steps (gateRun Request.routed) = some s ∧ s.world.length = 2 ∧
          Unobjectionable s := by
  have hfit := messages_fit .framed Platform.framed_faithful
  refine ⟨?_, ?_⟩
  · exact hfit.1 ⟨" alice", "shop", 500, "usd"⟩ _ ⟨" key-1 ", "trace-1"⟩ copiedDraws
      (by decide +kernel) (by decide +kernel)
  · have h : ((State.init Db.empty [] :
        SystemState .framed (.honest .framed Request.routed)).steps
          (gateRun Request.routed)).map (fun s => s.world.length) = some 2 := by
      decide +kernel
    obtain ⟨s, hs, hworld⟩ := Option.map_eq_some_iff.mp h
    exact ⟨s, hs, hworld, hfit.2 (gateRun Request.routed) s hs⟩

end Clearance
