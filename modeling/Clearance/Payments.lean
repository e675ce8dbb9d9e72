/-
# `Clearance.Payments` — one outcome per payment

However often the messages about a payment are delivered, in whatever order, and
whatever else happens in between: a payment is decided at most once, it moves money
exactly if it was authorized, and it has exactly one event saying how it ended
(`one_outcome`).

Claims of events do not carry this, since a prune forgets them.  What carries it is
that the ledger and the outcome events are in step with the transactions: `Balanced`
from `Clearance.Accounts`, and `Reported` here.
-/
import Clearance.Accounts

namespace Clearance

open Transact

/-! ## Outcomes -/

/-- Events that say how a payment ended. -/
def EventType.isOutcome : EventType → Bool
  | .transactionAuthorized | .transactionFailed => true
  | _ => false

/-- What such an event says. -/
structure Verdict where
  type : EventType
  transactionID : String
  riskLevel : Option RiskLevel
  riskReason : Option String
  deriving DecidableEq

def Payload.riskEvaluated? : Payload → Option RiskEvaluated
  | .riskEvaluated e => some e
  | _ => none

def Event.verdict (e : Event) : Verdict where
  type := e.type
  transactionID := e.aggregateID
  riskLevel := e.payload.riskEvaluated?.map RiskEvaluated.riskLevel
  riskReason := e.payload.riskEvaluated?.map RiskEvaluated.reason

/-- What has to be said about a transaction. -/
def TransactionRow.verdicts (t : TransactionRow) : List Verdict :=
  match t.kind, t.status with
  | .payment, .authorized => [⟨.transactionAuthorized, t.id, t.riskLevel, t.riskReason⟩]
  | .payment, .failed => [⟨.transactionFailed, t.id, t.riskLevel, t.riskReason⟩]
  | _, _ => []

/-- What has been said. -/
def Books.verdicts (b : Books) : List Verdict :=
  (b.events.filter fun e => e.type.isOutcome).map Event.verdict

/-- The outcomes reported are those of the transactions. -/
structure Reported (b : Books) : Prop where
  verdicts : b.verdicts.Perm (b.transactions.flatMap TransactionRow.verdicts)
  payloads : ∀ e ∈ b.events, e.type.isOutcome = true → ∃ x, e.payload = .riskEvaluated x

theorem Reported.empty : Reported Db.empty.books := ⟨List.Perm.refl _, List.forall_mem_nil _⟩

/-- An event that is no outcome, with or without a transaction that calls for none. -/
theorem Reported.add {b b' : Books} {e : Event} {ts : List TransactionRow} (h : Reported b)
    (he : b'.events = b.events ++ [e]) (hout : e.type.isOutcome = false)
    (ht : b'.transactions = b.transactions ++ ts)
    (hnil : ts.flatMap TransactionRow.verdicts = []) : Reported b' where
  verdicts := by
    simp only [Books.verdicts, he, ht, List.filter_append, List.flatMap_append, hnil,
      List.append_nil]
    rw [List.filter_cons_of_neg (by simp [hout]), List.filter_nil, List.append_nil]
    exact h.verdicts
  payloads := by
    rw [he]
    refine List.forall_mem_append.mpr ⟨h.payloads, List.forall_mem_singleton.mpr fun hx => ?_⟩
    rw [hout] at hx
    cases hx

theorem decisionOf_type (event : RiskEvaluated) (t : TransactionRow) (balance : Int) :
    (decisionOf event t balance).eventType.isOutcome = true := by
  unfold decisionOf
  split
  · split <;> rfl
  · rfl

/-- The event of a decision says what the decided payment calls for. -/
theorem verdict_decided {event : RiskEvaluated} {t : TransactionRow} {balance : Int}
    {draws : LedgerDraws} {now : Time} (hk : t.kind = .payment) :
    [((decisionOf event t balance).event t draws now).content.verdict] =
      (((decisionOf event t balance).finalize now).apply t).verdicts := by
  have hk' : (((decisionOf event t balance).finalize now).apply t).kind = .payment := hk
  unfold TransactionRow.verdicts
  rw [hk']
  unfold decisionOf
  split
  · split <;> rfl
  · rfl

theorem Reported.step {b b' : Books} {c : Call} (h : Reported b) (hb : Balanced b) (hc : c.Proper)
    (hs : b.Step c b') : Reported b' := by
  cases hs with
  | idle => exact h
  | pruned _ => exact ⟨h.verdicts, h.payloads⟩
  | @created record event now _ _ _ _ =>
      refine h.add (e := event.content) rfl ?_ rfl ?_
      · show event.type.isOutcome = false
        rw [NewPayment.type hc]
        rfl
      · simp [TransactionRow.verdicts, paymentRow, NewPayment.pending hc]
  | @deposited deposit event draws now _ _ _ _ _ _ =>
      refine h.add (e := event.content) rfl ?_ rfl ?_
      · show event.type.isOutcome = false
        rw [NewDeposit.type hc]
        rfl
      · simp [TransactionRow.verdicts, depositRow, NewDeposit.kind hc]
  | @evaluated _ _ event _ _ _ =>
      refine h.add (e := event.content) rfl ?_ (List.append_nil _).symm rfl
      show event.type.isOutcome = false
      rw [NewEvaluation.type hc]
      rfl
  | @settled _ _ event draws now l₁ l₂ t decision _ _ ht _ hpending hdec _ =>
      have hk : t.kind = .payment := hb.payment_of_pending (by rw [ht]; simp) hpending
      have hnil : t.verdicts = [] := by simp [TransactionRow.verdicts, hpending]
      have htype : (decision.event t draws now).content.type.isOutcome = true := by
        rw [hdec]
        exact decisionOf_type event t _
      refine ⟨?_, ?_⟩
      · show ((((b.events ++ [(decision.event t draws now).content]).filter _).map _)).Perm
          ((l₁ ++ (decision.finalize now).apply t :: l₂).flatMap _)
        refine List.Perm.trans ?_ (flatMap_replace hnil l₁ l₂).symm
        rw [List.filter_append, List.map_append,
          List.filter_cons_of_pos (p := fun e : Event => e.type.isOutcome) htype, List.filter_nil,
          List.map_cons, List.map_nil, ← ht]
        subst hdec
        rw [verdict_decided hk]
        exact h.verdicts.append_right _
      · show ∀ e ∈ b.events ++ [(decision.event t draws now).content], _
        exact List.forall_mem_append.mpr
          ⟨h.payloads, List.forall_mem_singleton.mpr fun _ => ⟨_, rfl⟩⟩

/-! ## A decision is final -/

/-- Transactions stay, and decided ones stay as they are. -/
def Decides (b b' : Books) : Prop :=
  ∀ t ∈ b.transactions, ∃ t' ∈ b'.transactions, t'.id = t.id ∧ t'.kind = t.kind ∧
    (t.status ≠ .pending → t' = t)

theorem Decides.refl (b : Books) : Decides b b := fun t ht => ⟨t, ht, rfl, rfl, fun _ => rfl⟩

/-- Transactions that stay where they are. -/
theorem Decides.append {b₀ b b' : Books} (h : Decides b₀ b)
    (hsub : b.transactions ⊆ b'.transactions) : Decides b₀ b' := by
  intro t ht
  obtain ⟨t', ht', hrest⟩ := h t ht
  exact ⟨t', hsub ht', hrest⟩

theorem Decides.step {b₀ b b' : Books} {c : Call} (h : Decides b₀ b) (hs : b.Step c b') :
    Decides b₀ b' := by
  cases hs with
  | idle => exact h
  | pruned _ => exact h
  | evaluated _ _ => exact h
  | created _ _ _ _ => exact h.append (List.subset_append_left _ _)
  | deposited _ _ _ _ _ => exact h.append (List.subset_append_left _ _)
  | @settled _ _ event draws now l₁ l₂ t decision _ _ ht _ hpending _ _ =>
      intro t₀ ht₀
      obtain ⟨t', ht', hid, hkind, hfinal⟩ := h t₀ ht₀
      rw [ht] at ht'
      rcases List.mem_append.mp ht' with hl | hr
      · exact ⟨t', List.mem_append_left _ hl, hid, hkind, hfinal⟩
      · rcases List.mem_cons.mp hr with rfl | hr
        · -- the payment that is decided now was pending until now
          refine ⟨(decision.finalize now).apply t', List.mem_append_right _ List.mem_cons_self, hid,
            hkind, fun hne => absurd ?_ hne⟩
          rw [← hfinal hne]
          exact hpending
        · exact ⟨t', List.mem_append_right _ (List.mem_cons_of_mem _ hr), hid, hkind, hfinal⟩

/-! ## What a run shows -/

/-- Account, amount and currency of the entries of a transaction. -/
def Db.entriesOf (d : Db) (t : TransactionRow) : List (String × Int × String) :=
  (d.ledgerEntries.rows.filter fun r => r.transactionID == t.id).map fun r =>
    (r.accountID, r.amountCents, r.currency)

/-- The events that say how a payment ended. -/
def Db.outcomesOf (d : Db) (t : TransactionRow) : List OutboxRow :=
  d.outboxEvents.rows.filter fun r => r.eventType.isOutcome && r.aggregateID == t.id

/-- There is one event for the outcome, of the right type and with the recorded risk. -/
def Db.ReportedOnce (d : Db) (t : TransactionRow) (type : EventType) : Prop :=
  ∃ r e, d.outcomesOf t = [r] ∧ r.eventType = type ∧ r.payload = .riskEvaluated e ∧
    t.riskLevel = some e.riskLevel ∧ t.riskReason = some e.reason

/-- Money and events of a payment are what its status says. -/
def Db.OneOutcome (d : Db) (t : TransactionRow) : Prop :=
  match t.status with
  | .pending => d.entriesOf t = [] ∧ d.outcomesOf t = []
  | .failed => d.entriesOf t = [] ∧ d.ReportedOnce t .transactionFailed
  | .authorized =>
      (d.entriesOf t).Perm
        [(t.accountID, -t.amountCents, t.currency), ("clearing", t.amountCents, t.currency)] ∧
      d.ReportedOnce t .transactionAuthorized

theorem transactionID_lines (t : TransactionRow) : ∀ x ∈ t.lines, x.transactionID = t.id := by
  unfold TransactionRow.lines
  split
  · exact List.forall_mem_cons.mpr ⟨rfl, List.forall_mem_singleton.mpr rfl⟩
  · exact List.forall_mem_cons.mpr ⟨rfl, List.forall_mem_singleton.mpr rfl⟩
  · exact List.forall_mem_nil _

theorem transactionID_verdicts (t : TransactionRow) :
    ∀ x ∈ t.verdicts, x.transactionID = t.id := by
  unfold TransactionRow.verdicts
  split
  · exact List.forall_mem_singleton.mpr rfl
  · exact List.forall_mem_singleton.mpr rfl
  · exact List.forall_mem_nil _

/-- The entries of a transaction are those it calls for. -/
theorem Balanced.entriesOf {d : Db} (h : Balanced d.books) {t : TransactionRow}
    (ht : t ∈ d.transactions.rows) :
    (d.entriesOf t).Perm (t.lines.map fun x => (x.accountID, x.amountCents, x.currency)) := by
  have hposted : (d.ledgerEntries.rows.map LedgerRow.line).Perm
    (d.transactions.rows.flatMap TransactionRow.lines) := h.posted
  have hperm := hposted.filter fun x => x.transactionID == t.id
  rw [filter_flatMap_key transactionID_lines d.transactions.nodup ht, List.filter_map] at hperm
  have hmap := hperm.map fun x : Line => (x.accountID, x.amountCents, x.currency)
  rw [List.map_map] at hmap
  exact hmap

/-- The outcomes reported for a transaction are those it calls for. -/
theorem Reported.outcomesOf {d : Db} (h : Reported d.books) {t : TransactionRow}
    (ht : t ∈ d.transactions.rows) :
    ((d.outcomesOf t).map fun r => r.content.verdict).Perm t.verdicts := by
  have hverdicts : d.books.verdicts.Perm
    (d.transactions.rows.flatMap TransactionRow.verdicts) := h.verdicts
  have hperm := hverdicts.filter fun x => x.transactionID == t.id
  rw [filter_flatMap_key transactionID_verdicts d.transactions.nodup ht] at hperm
  refine List.Perm.trans (List.Perm.of_eq ?_) hperm
  show _ = (((d.outboxEvents.rows.map OutboxRow.content).filter _).map _).filter _
  rw [List.filter_map, List.filter_filter, List.filter_map, List.map_map, Db.outcomesOf]
  simp only [Function.comp_def, Bool.and_comm]
  rfl

theorem Reported.reportedOnce {d : Db} (h : Reported d.books) {t : TransactionRow}
    (ht : t ∈ d.transactions.rows) {type : EventType}
    (hv : t.verdicts = [⟨type, t.id, t.riskLevel, t.riskReason⟩]) : d.ReportedOnce t type := by
  have hperm := h.outcomesOf ht
  rw [hv, List.perm_singleton, List.map_eq_singleton_iff] at hperm
  obtain ⟨r, hr, hverdict⟩ := hperm
  have hmem : r ∈ d.outcomesOf t := by rw [hr]; exact List.mem_singleton_self r
  obtain ⟨hrow, hout⟩ := List.mem_filter.mp hmem
  obtain ⟨x, hx⟩ := h.payloads r.content (List.mem_map_of_mem hrow)
    (Bool.and_eq_true_iff.mp hout).1
  have hx : r.payload = .riskEvaluated x := hx
  simp only [Event.verdict, OutboxRow.content, hx, Payload.riskEvaluated?, Option.map_some,
    Verdict.mk.injEq] at hverdict
  exact ⟨r, x, hr, hverdict.1, hx, hverdict.2.2.1.symm, hverdict.2.2.2.symm⟩

theorem Reported.oneOutcome {d : Db} (h : Reported d.books) (hb : Balanced d.books)
    {t : TransactionRow} (ht : t ∈ d.transactions.rows) (hk : t.kind = .payment) :
    d.OneOutcome t := by
  have hentries := hb.entriesOf ht
  unfold Db.OneOutcome
  cases hs : t.status with
  | pending =>
      have hl : t.lines = [] := by simp [TransactionRow.lines, hk, hs]
      have hv : t.verdicts = [] := by simp [TransactionRow.verdicts, hs]
      have houtcomes := h.outcomesOf ht
      rw [hl] at hentries
      rw [hv] at houtcomes
      exact ⟨hentries.eq_nil, List.map_eq_nil_iff.mp houtcomes.eq_nil⟩
  | failed =>
      have hl : t.lines = [] := by simp [TransactionRow.lines, hk, hs]
      rw [hl] at hentries
      exact ⟨hentries.eq_nil, h.reportedOnce ht (by simp [TransactionRow.verdicts, hk, hs])⟩
  | authorized =>
      refine ⟨?_, h.reportedOnce ht (by simp [TransactionRow.verdicts, hk, hs])⟩
      simpa [TransactionRow.lines, hk, hs] using hentries

/-- Whatever is delivered, a payment has one outcome: at every moment `s` of a run its money
and its events are those of its status, and at every later moment `s'` a decision stands. -/
theorem one_outcome (P : Platform) (es es' : List (Transact.Event (system P (.only services))))
    (s s' : SystemState P (.only services))
    (h : (State.init Db.empty () : SystemState P (.only services)).steps es = some s)
    (h' : s.steps es' = some s') (t : TransactionRow) (ht : t ∈ s.db.transactions.rows)
    (hk : t.kind = .payment) :
    s.db.OneOutcome t ∧
      ∃ t', s'.db.transactions.find? t.id = some t' ∧ t'.kind = .payment ∧
        (t.status ≠ .pending → t'.status = t.status) := by
  obtain ⟨hb, hr⟩ : Balanced s.db.books ∧ Reported s.db.books :=
    books_reach (I := fun b => Balanced b ∧ Reported b) (admits_services P)
      (fun hb hc hs => ⟨hb.1.step hc hs, hb.2.step hb.1 hc hs⟩) ⟨Balanced.empty, Reported.empty⟩ h
  refine ⟨hr.oneOutcome hb ht hk, ?_⟩
  have hlater : Decides s.db.books s'.db.books :=
    books_later (admits_services P) Decides.refl (fun hd _ hs => hd.step hs) h h'
  obtain ⟨t', ht', hid, hkind, hfinal⟩ := hlater t ht
  refine ⟨t', ?_, hkind.trans hk, fun hne => by rw [hfinal hne]⟩
  rw [← hid]
  exact Table.find?_of_mem _ ht'

/-- A payment of 5.00 a client asks for. -/
def paymentRequestRun : List (Transact.Event (system .plain (.only services))) :=
  .arrive (.create ⟨"alice", "shop", 500, "usd"⟩ ⟨"key-1", "trace-1"⟩
    { transaction := .fill 32 0
      event := .fill 32 0
      createdAt := 0
      updatedAt := 0
      eventAt := 0
      now := 0 }) :: List.replicate 6 (.run 0)

/-- The row it leaves. -/
def requestedPayment : TransactionRow where
  id := newID "txn" (.fill 32 0)
  kind := .payment
  accountID := "alice"
  merchantID := some "shop"
  fundingSource := none
  externalReference := none
  amountCents := 500
  currency := "USD"
  status := .pending
  correlationID := "trace-1"
  createdAt := 0
  updatedAt := 0

theorem one_outcome_paymentRequest : ∃ s : SystemState .plain (.only services),
    (State.init Db.empty ()).steps paymentRequestRun = some s ∧
      requestedPayment ∈ s.db.transactions.rows ∧ s.db.OneOutcome requestedPayment := by
  have h : ((State.init Db.empty () : SystemState .plain (.only services)).steps
      paymentRequestRun).map (fun s => s.db.transactions.rows) = some [requestedPayment] := by
    decide +kernel
  obtain ⟨s, hs, hrows⟩ := Option.map_eq_some_iff.mp h
  have hmem : requestedPayment ∈ s.db.transactions.rows := by
    rw [hrows]
    exact List.mem_singleton_self _
  exact ⟨s, hs, hmem,
    (one_outcome .plain paymentRequestRun [] s s hs rfl requestedPayment hmem rfl).1⟩

end Clearance
