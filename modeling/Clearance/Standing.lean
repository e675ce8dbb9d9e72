/-
# `Clearance.Standing` — what deposits and deliveries make of the accounts

`Standing` is what a database says about accounts once generated identifiers and times are
left out: the transactions, the balances, the events that are claimed, the idempotency keys
and index entries that are taken, and the events in the outbox, as a multiset.

    fund       the key and the reference are free, the new balance is a `bigint`
    deliver    the event is not claimed, its transaction is pending and matches,
               the balance decides

An operation either makes one `Change` or none (`LedgerOp.effect`), and which one follows
from the standing.  The transactions of the store do exactly that when they are run alone
(`standing_solo`), and so do sequences of them (`standing_finish`), as long as the
identifiers they draw are new.
-/
import Clearance.Constraints
import Clearance.Origins
import Clearance.Serial
import Clearance.Transact.Reorder

namespace Clearance

open Transact

/-! ## Standings -/

/-- A transaction, the time of its last change left out. -/
def TransactionRow.timeless (r : TransactionRow) : TransactionRow := { r with updatedAt := 0 }

/-- An event, its identifier and its times left out. -/
def OutboxRow.anonymous (r : OutboxRow) : OutboxRow :=
  { r with id := "", createdAt := 0, updatedAt := 0 }

/-- What a database says about accounts. -/
@[ext] structure Standing where
  rows : String → Option TransactionRow
  balance : String → String → Int
  claims : String × String → Option Digest
  keys : String → Bool
  taken : Ix → Bool
  events : Multiset OutboxRow

def Db.standing (d : Db) : Standing where
  rows id := (d.transactions.find? id).map TransactionRow.timeless
  balance := d.balance
  claims k := (d.processedEvents.find? k).map ProcessedRow.payloadSHA256
  keys k := (d.depositIdempotencyKeys.find? k).isSome
  taken := @Schema.present schema d
  events := d.outboxEvents.rows.map OutboxRow.anonymous

/-- What an operation changes: a transaction that is new or decided, and what goes with it. -/
structure Change where
  row : TransactionRow
  claim : Option ((String × String) × Digest)
  key : Option String
  references : List Ix
  entries : List LedgerRow
  event : OutboxRow

/-- The index entries that are taken by a change. -/
def Change.taken (δ : Change) : List Ix :=
  δ.references ++ δ.entries.map fun r => .ledgerAccount r.transactionID r.accountID

def Standing.apply (v : Standing) (δ : Change) : Standing where
  rows := Function.update v.rows δ.row.id (some δ.row)
  balance a c := v.balance a c + total δ.entries a c
  claims k := if δ.claim.map Prod.fst = some k then δ.claim.map Prod.snd else v.claims k
  keys k := v.keys k || decide (δ.key = some k)
  taken x := v.taken x || decide (x ∈ δ.taken)
  events := δ.event ::ₘ v.events

/-! ## Operations -/

/-- A deposit, or an evaluation that is delivered to the ledger service. -/
inductive LedgerOp where
  | fund (deposit : Deposit) (event : OutboxEvent)
  | deliver (delivery : Delivery) (payloadHash : Digest) (event : RiskEvaluated)
  deriving DecidableEq

/-- What the store draws for an operation; `last` is an action or an event. -/
structure Drawn where
  entry : Random
  contraEntry : Random
  last : Random
  now : Time

/-- The operation of the store. -/
def LedgerOp.call : LedgerOp → Drawn → Call
  | .fund deposit event, x => .createDeposit deposit event ⟨x.entry, x.contraEntry, x.last⟩ x.now
  | .deliver delivery payloadHash event, x =>
      .processRiskEvaluated delivery payloadHash event ⟨x.entry, x.contraEntry, x.last⟩ x.now

/-- The identifiers that are generated for an operation. -/
def LedgerOp.generated : LedgerOp → Drawn → List schema.UniqueKey
  | .fund deposit event, x =>
      [.row .transactions deposit.transaction.id, .row .ledgerEntries (newID "le" x.entry),
        .row .ledgerEntries (newID "le" x.contraEntry), .row .operatorActions (newID "act" x.last),
        .row .outboxEvents event.id]
  | .deliver _ _ _, x =>
      [.row .ledgerEntries (newID "le" x.entry), .row .ledgerEntries (newID "le" x.contraEntry),
        .row .outboxEvents (newID "evt" x.last)]

/-! ## Deposits -/

/-- The entries of a deposit, without their identifiers. -/
def credited (t : Transaction) : List LedgerRow :=
  entries "" "" t.id t.accountID "external-settlement" t.amountCents t.currency

def Deposit.change (deposit : Deposit) (event : OutboxEvent) : Change where
  row := (depositRow deposit.transaction).timeless
  claim := none
  key := some deposit.idempotencyKey
  references := (depositRow deposit.transaction).entries
  entries := credited deposit.transaction
  event := (outboxRow event 0).anonymous

/-- The deposit is made: its rows pass their CHECKs, and nothing it needs is taken. -/
structure Standing.Accepts (v : Standing) (deposit : Deposit) (event : OutboxEvent) : Prop where
  row : Tab.check (t := .transactions) (depositRow deposit.transaction) = none
  entries : ∀ r ∈ credited deposit.transaction, Tab.check (t := .ledgerEntries) r = none
  key : safeToken deposit.idempotencyKey = true
  reason : charLength 1 256 deposit.operatorReason = true
  correlation : safeToken event.correlationID = true
  unused : v.rows deposit.transaction.id = none
  free : ∀ y ∈ (deposit.change event).taken, v.taken y = false
  keyFree : v.keys deposit.idempotencyKey = false
  range : isBigint (v.balance deposit.transaction.accountID deposit.transaction.currency +
    deposit.transaction.amountCents) = true

/-! ## Deliveries -/

/-- The entries of a payment that is authorized, without their identifiers. -/
def debited (decision : Decision) (t : TransactionRow) : List LedgerRow :=
  if decision.status = .authorized then
    entries "" "" t.id t.accountID "clearing" (-t.amountCents) t.currency
  else []

def Decision.change (decision : Decision) (delivery : Delivery) (payloadHash : Digest)
    (t : TransactionRow) : Change where
  row := (decision.finalize 0).apply t
  claim := some ((delivery.consumerName, delivery.eventID), payloadHash)
  key := none
  references := []
  entries := debited decision t
  event :=
    { id := ""
      eventType := decision.eventType
      aggregateID := t.id
      partitionKey := t.accountID
      correlationID := decision.outcome.correlationID
      payload := .riskEvaluated decision.outcome
      status := .pending
      createdAt := 0
      updatedAt := 0 }

/-- The decision about a transaction that is pending. -/
def Standing.decision (v : Standing) (event : RiskEvaluated) (t : TransactionRow) : Decision :=
  decisionOf event t (v.balance t.accountID t.currency)

def Standing.settlement (v : Standing) (delivery : Delivery) (payloadHash : Digest)
    (event : RiskEvaluated) (t : TransactionRow) : Change :=
  (v.decision event t).change delivery payloadHash t

/-- It is made: the rows pass their CHECKs, and nothing that is needed is taken. -/
structure Standing.Settles (v : Standing) (delivery : Delivery) (payloadHash : Digest)
    (event : RiskEvaluated) (t : TransactionRow) : Prop where
  consumer : safeToken delivery.consumerName = true
  eventID : safeToken delivery.eventID = true
  entries : ∀ r ∈ (v.settlement delivery payloadHash event t).entries,
    Tab.check (t := .ledgerEntries) r = none
  row : Tab.check (t := .transactions) (v.settlement delivery payloadHash event t).row = none
  correlation : safeToken (v.decision event t).outcome.correlationID = true
  unclaimed : v.claims (delivery.consumerName, delivery.eventID) = none
  range : event.approved = true → isBigint (v.balance t.accountID t.currency) = true
  free : ∀ y ∈ (v.settlement delivery payloadHash event t).taken, v.taken y = false

open Classical in
/-- What an operation changes, if anything. -/
noncomputable def LedgerOp.effect (v : Standing) : LedgerOp → Option Change
  | .fund deposit event =>
      if v.Accepts deposit event then some (deposit.change event) else none
  | .deliver delivery payloadHash event =>
      match checkPending event (v.rows event.transactionID) with
      | .error _ => none
      | .ok t =>
          if v.Settles delivery payloadHash event t then
            some (v.settlement delivery payloadHash event t)
          else none

noncomputable def Standing.act (v : Standing) (op : LedgerOp) : Standing :=
  match op.effect v with
  | none => v
  | some δ => v.apply δ

/-! ## What is committed -/

section

variable {d : Db} {w : List schema.Write}

theorem present_posted {r : LedgerRow} (hid : d.ledgerEntries.find? r.id = none)
    (account : String) :
    @Schema.present schema (@Schema.apply schema d (.insert .ledgerEntries r))
        (.ledgerAccount r.transactionID account) =
      (@Schema.present schema d (.ledgerAccount r.transactionID account) ||
        decide (account = r.accountID)) := by
  refine (@Schema.present_insert schema d .ledgerEntries r _).trans ?_
  have hfree : @Schema.find? schema d .ledgerEntries (Tab.key .ledgerEntries r) = none := hid
  have hmem : Ix.ledgerAccount r.transactionID account ∈ Tab.entries (t := .ledgerEntries) r ↔
      account = r.accountID := by
    simp [Tab.entries]
  rw [decide_eq_true hfree, Bool.true_and, decide_eq_decide.mpr hmem]

/-- Two entries can be inserted, if their identifiers are new. -/
theorem entries_insertable {id contraID transactionID account contra currency : String}
    {amount : Int} (hid : d.ledgerEntries.find? id = none)
    (hcontraID : d.ledgerEntries.find? contraID = none) (hapart : id ≠ contraID) :
    Plan.Insertable d ((entries id contraID transactionID account contra amount currency).map
        fun r => (⟨.ledgerEntries, r⟩ : Row)) ↔
      (∀ r ∈ entries "" "" transactionID account contra amount currency,
        Tab.check (t := .ledgerEntries) r = none) ∧
      @Schema.present schema d (.ledgerAccount transactionID account) = false ∧
      @Schema.present schema d (.ledgerAccount transactionID contra) = false ∧
      contra ≠ account := by
  simp only [entries, List.forall_mem_cons]
  have hposted := present_posted (r := ⟨id, transactionID, account, amount, currency⟩) hid contra
  constructor
  · rintro ⟨hcheck, hkeys, hcheck', hkeys', -⟩
    have hcontra := hposted.symm.trans
      (hkeys' (.entry _) (List.mem_cons_of_mem _ (List.mem_singleton_self _)))
    obtain ⟨hcontra, hne⟩ := Bool.or_eq_false_iff.mp hcontra
    exact ⟨⟨hcheck, hcheck', List.forall_mem_nil _⟩,
      hkeys (.entry _) (List.mem_cons_of_mem _ (List.mem_singleton_self _)), hcontra,
      of_decide_eq_false hne⟩
  · rintro ⟨⟨hcheck, hcheck', -⟩, hentry, hcontra, hne⟩
    refine ⟨hcheck, ledger_keys_free hid hentry, hcheck', ledger_keys_free ?_ ?_, trivial⟩
    · show (d.ledgerEntries.insert _).find? contraID = none
      rw [Table.find?_insert, if_neg hapart, hcontraID]
    · exact hposted.trans (Bool.or_eq_false_iff.mpr ⟨hcontra, decide_eq_false hne⟩)

/-- The identifiers that are generated for the operation are new. -/
structure LedgerOp.Fresh (op : LedgerOp) (x : Drawn) (d : Db) : Prop where
  unused : ∀ u ∈ op.generated x, @Schema.taken schema d u = false
  apart : (op.generated x).Nodup

theorem LedgerOp.Fresh.find? {op : LedgerOp} {x : Drawn} (h : op.Fresh x d) {t : Tab} {k : t.Key}
    (hk : .row t k ∈ op.generated x) : @Schema.find? schema d t k = none :=
  Option.not_isSome_iff_eq_none.mp (Bool.eq_false_iff.mp (h.unused _ hk))

theorem mem_depositEntries {t : Transaction} {x : Ix} (h : x ∈ (depositRow t).entries) :
    x = t.reference := by
  rcases depositRow_entries t with hrow | hrow
  · rw [hrow] at h
    cases h
  · rw [hrow] at h
    exact List.mem_singleton.mp h

variable {hashtext : String → Int} {deposit : Deposit} {event : OutboxEvent} {x : Drawn}

theorem Deposit.mem_taken {y : Ix} : y ∈ (deposit.change event).taken ↔
    y ∈ (depositRow deposit.transaction).entries ∨
      y = .ledgerAccount deposit.transaction.id deposit.transaction.accountID ∨
      y = .ledgerAccount deposit.transaction.id "external-settlement" := by
  simp [Change.taken, Deposit.change, credited, entries]

theorem present_of_ledger {d' : Db} (hsame : d'.ledgerEntries = d.ledgerEntries)
    (id account : String) : @Schema.present schema d' (.ledgerAccount id account) =
      @Schema.present schema d (.ledgerAccount id account) := by
  show d'.ledgerEntries.rows.any _ = d.ledgerEntries.rows.any _
  rw [hsame]

/-- Entries with the identifiers that were drawn for them can be inserted. -/
theorem LedgerOp.Fresh.insertable {op : LedgerOp} (h : op.Fresh x d) (d' : Db)
    (hsame : d'.ledgerEntries = d.ledgerEntries) {transactionID account contra currency : String}
    {amount : Int} :
    Plan.Insertable d' ((entries (newID "le" x.entry) (newID "le" x.contraEntry) transactionID
        account contra amount currency).map fun r => (⟨.ledgerEntries, r⟩ : Row)) ↔
      (∀ r ∈ entries "" "" transactionID account contra amount currency,
        Tab.check (t := .ledgerEntries) r = none) ∧
      @Schema.present schema d (.ledgerAccount transactionID account) = false ∧
      @Schema.present schema d (.ledgerAccount transactionID contra) = false ∧
      contra ≠ account := by
  have hentry : d.ledgerEntries.find? (newID "le" x.entry) = none :=
    h.find? (t := .ledgerEntries) (by cases op <;> simp [LedgerOp.generated])
  have hcontra : d.ledgerEntries.find? (newID "le" x.contraEntry) = none :=
    h.find? (t := .ledgerEntries) (by cases op <;> simp [LedgerOp.generated])
  have hapart : newID "le" x.entry ≠ newID "le" x.contraEntry := by
    intro heq
    have hapart := h.apart
    cases op <;> simp [LedgerOp.generated, heq] at hapart
  rw [← present_of_ledger hsame, ← present_of_ledger hsame]
  rw [← hsame] at hentry hcontra
  exact entries_insertable hentry hcontra hapart

/-- A deposit that is committed has been accepted. -/
theorem createDeposit_accepts (hfresh : (LedgerOp.fund deposit event).Fresh x d)
    {response : DepositResponse}
    (h : Commits (createDeposit deposit event ⟨x.entry, x.contraEntry, x.last⟩ x.now :
      DbTx hashtext _) d [] response w) : d.standing.Accepts deposit event := by
  have hdeposited := createDeposit_commits h
  have h := Commits.latch h
  obtain ⟨hcheck, -, h⟩ := Commits.insert_row (t := .transactions) h
  obtain ⟨hi, h⟩ := Commits.insert h
  obtain ⟨hrange, h⟩ := Commits.sumLedger h
  obtain ⟨hkey, -, h⟩ := Commits.insert_row (t := .depositIdempotencyKeys) h
  obtain ⟨hreason, -, h⟩ := Commits.insert_row (t := .operatorActions) h
  obtain ⟨hcorrelation, -, h⟩ := Commits.insert_row (t := .outboxEvents) h
  obtain ⟨hentries, haccount, hcontra, hne⟩ := (hfresh.insertable (view d
    [.insert .transactions (depositRow deposit.transaction)]) rfl).mp hi
  rw [view, List.foldl_append] at hrange
  have hbalance := balance_credited hi hne.symm
  refine ⟨hcheck, hentries, ?_, ?_, ?_, ?_, fun y hy => ?_, ?_, ?_⟩
  · exact firstViolated_eq_none.mp hkey _ (List.mem_singleton_self _)
  · exact firstViolated_eq_none.mp hreason _ (List.mem_singleton_self _)
  · exact firstViolated_eq_none.mp hcorrelation _ (List.mem_singleton_self _)
  · show Option.map _ (d.transactions.find? _) = none
    rw [hdeposited.freshTransaction]
    rfl
  · rcases Deposit.mem_taken.mp hy with hy | rfl | rfl
    · exact hdeposited.freshReference y hy
    · exact haccount
    · exact hcontra
  · show (d.depositIdempotencyKeys.find? _).isSome = false
    rw [hdeposited.freshKey]
    rfl
  · exact (congrArg isBigint hbalance).symm.trans hrange

/-- A deposit that is acceptable is committed. -/
theorem createDeposit_made (hfresh : (LedgerOp.fund deposit event).Fresh x d)
    (hacc : d.standing.Accepts deposit event) {res : Except Error DepositResponse}
    (h : RunsTo (createDeposit deposit event ⟨x.entry, x.contraEntry, x.last⟩ x.now :
      DbTx hashtext _) d [] res w) : ∃ response, res = .ok response := by
  have haction : d.operatorActions.find? (newID "act" x.last) = none :=
    hfresh.find? (t := .operatorActions) (by simp [LedgerOp.generated])
  have hevent : d.outboxEvents.find? event.id = none :=
    hfresh.find? (t := .outboxEvents) (by simp [LedgerOp.generated])
  have htransaction : d.transactions.find? deposit.transaction.id = none :=
    hfresh.find? (t := .transactions) (by simp [LedgerOp.generated])
  have hfound := find?_insert_isSome d.transactions (depositRow deposit.transaction)
  have hne : deposit.transaction.accountID ≠ "external-settlement" :=
    (reserved_eq_false.mp (TransactionRow.of_check hacc.row).2).2
  have h := RunsTo.latch h
  obtain ⟨u, hu, htaken, -⟩ | ⟨-, h⟩ := RunsTo.insert_row (t := .transactions) h hacc.row rfl
  · rcases List.mem_cons.mp hu with rfl | hu
    · exact (not_taken_row (t := .transactions) htransaction htaken).elim
    · obtain ⟨y, hy, rfl⟩ := List.mem_map.mp hu
      have hfree := hacc.free y (Deposit.mem_taken.mpr (Or.inl hy))
      cases htaken.symm.trans hfree
  have hi : Plan.Insertable (view d [.insert .transactions (depositRow deposit.transaction)])
      ((credit deposit.transaction ⟨x.entry, x.contraEntry, x.last⟩).map
        fun r => (⟨.ledgerEntries, r⟩ : Row)) :=
    (hfresh.insertable (view d [.insert .transactions (depositRow deposit.transaction)])
      rfl).mpr ⟨hacc.entries,
      hacc.free _ (Deposit.mem_taken.mpr (Or.inr (Or.inl rfl))),
      hacc.free _ (Deposit.mem_taken.mpr (Or.inr (Or.inr rfl))), hne.symm⟩
  have hrefs : ∀ r ∈ (credit deposit.transaction ⟨x.entry, x.contraEntry, x.last⟩).map
      (fun r => (⟨.ledgerEntries, r⟩ : Row)),
        Tab.refs r.2 = [⟨.transactions, deposit.transaction.id⟩] := by
    simp only [credit, entries, List.map_cons, List.map_nil, List.forall_mem_cons]
    exact ⟨rfl, rfl, List.forall_mem_nil _⟩
  have h := RunsTo.insert h hi (refers_transaction hrefs hfound)
  obtain ⟨hrange, -, -⟩ | ⟨-, h⟩ := RunsTo.sumLedger h
  · have hbalance := balance_credited hi hne
    have hout := (congrArg isBigint hbalance).symm.trans hrange
    cases hacc.range.symm.trans hout
  obtain ⟨u, hu, htaken, -⟩ | ⟨-, h⟩ := RunsTo.insert_row (t := .depositIdempotencyKeys) h
    (firstViolated_singleton hacc.key) (refers_transaction (List.forall_mem_singleton.mpr rfl) hfound)
  · obtain rfl := List.mem_singleton.mp hu
    cases htaken.symm.trans hacc.keyFree
  obtain ⟨u, hu, htaken, -⟩ | ⟨-, h⟩ := RunsTo.insert_row (t := .operatorActions) h
    (firstViolated_singleton hacc.reason) rfl
  · obtain rfl := List.mem_singleton.mp hu
    exact (not_taken_row (t := .operatorActions) haction htaken).elim
  obtain ⟨u, hu, htaken, -⟩ | ⟨-, h⟩ := RunsTo.insert_row (t := .outboxEvents) h
    (firstViolated_singleton hacc.correlation) rfl
  · obtain rfl := List.mem_singleton.mp hu
    exact (not_taken_row (t := .outboxEvents) hevent htaken).elim
  exact ⟨_, h.ret.1⟩

/-- The entries of a deposit and their amounts do not depend on what is drawn. -/
theorem total_credit (t : Transaction) (draws : DepositDraws) (a c : String) :
    total (credit t draws) a c = total (credited t) a c := by
  rw [credit, credited, total_entries, total_entries]

/-- The row of a transaction that is new. -/
theorem find?_entered {r : TransactionRow} (h : d.transactions.find? r.id = none) (id : String) :
    ((d.transactions.insert r).find? id).map TransactionRow.timeless =
      Function.update (fun id => (d.transactions.find? id).map TransactionRow.timeless) r.id
        (some r.timeless) id := by
  rw [Table.find?_insert, Function.update_apply]
  by_cases hid : r.id = id
  · subst hid
    rw [if_pos rfl, if_pos rfl, h]
    rfl
  · rw [if_neg hid, if_neg (Ne.symm hid)]

theorem events_announced {r : OutboxRow} (h : d.outboxEvents.find? r.id = none) :
    (((d.outboxEvents.insert r).rows.map OutboxRow.anonymous : List OutboxRow) :
      Multiset OutboxRow) = r.anonymous ::ₘ (d.outboxEvents.rows.map OutboxRow.anonymous : List _) := by
  rw [Table.rows_insert h, List.map_append, ← Multiset.coe_add, add_comm]
  rfl

theorem isSome_find?_insert {ρ κ : Type} [DecidableEq κ] {key : ρ → κ} (T : Table ρ κ key) (r : ρ)
    (k : κ) : ((T.insert r).find? k).isSome = ((T.find? k).isSome || decide (key r = k)) := by
  rw [Table.find?_insert]
  by_cases hk : key r = k
  · simp [hk]
  · simp [hk]

theorem present_reference {source reference currency : String} :
    @Schema.present schema d (.depositReference source reference currency) = true ↔
      .depositReference source reference currency ∈
        d.transactions.rows.flatMap TransactionRow.entries :=
  Schema.present_iff.trans List.mem_flatMap.symm

theorem present_account {id account : String} :
    @Schema.present schema d (.ledgerAccount id account) = true ↔
      .ledgerAccount id account ∈
        d.ledgerEntries.rows.map fun r => Ix.ledgerAccount r.transactionID r.accountID := by
  refine Schema.present_iff.trans (Iff.trans ?_ List.mem_map.symm)
  exact exists_congr fun r => and_congr_right fun _ => List.mem_singleton.trans eq_comm

/-- The index entries that new references and new ledger entries make. -/
theorem present_grown {d' : Db} {δ : Change} (hreferences : ∀ y ∈ δ.references, y.tab = .transactions)
    (htransactions : d'.transactions.rows.flatMap TransactionRow.entries =
      d.transactions.rows.flatMap TransactionRow.entries ++ δ.references)
    (hledger : (d'.ledgerEntries.rows.map fun r => Ix.ledgerAccount r.transactionID r.accountID) =
      (d.ledgerEntries.rows.map fun r => Ix.ledgerAccount r.transactionID r.accountID) ++
        δ.entries.map fun r => Ix.ledgerAccount r.transactionID r.accountID)
    (hletters : d'.deadLetterMessages = d.deadLetterMessages) (y : Ix) :
    @Schema.present schema d' y = (@Schema.present schema d y || decide (y ∈ δ.taken)) := by
  rw [Bool.eq_iff_iff, Bool.or_eq_true, decide_eq_true_iff, Change.taken, List.mem_append]
  cases y with
  | depositReference source reference currency =>
      rw [present_reference, present_reference, htransactions, List.mem_append]
      simp
  | ledgerAccount id account =>
      rw [present_account, present_account, hledger, List.mem_append]
      refine or_congr_right (Iff.symm (or_iff_right fun hy => ?_))
      cases hreferences _ hy
  | deadLetterSource consumerName topic partition offset =>
      have hsame : @Schema.present schema d' (.deadLetterSource consumerName topic partition offset) =
          @Schema.present schema d (.deadLetterSource consumerName topic partition offset) := by
        show d'.deadLetterMessages.rows.any _ = d.deadLetterMessages.rows.any _
        rw [hletters]
      rw [hsame]
      refine (or_iff_left ?_).symm
      rintro (hy | hy)
      · cases hreferences _ hy
      · simp at hy

theorem Deposited.standing {draws : DepositDraws} {now : Time} {response : DepositResponse}
    (h : Deposited deposit event draws now d response w) :
    (view d w).standing = d.standing.apply (deposit.change event) := by
  have hrows := h.posted
  obtain rfl := h.writes
  refine Standing.ext ?_ ?_ ?_ ?_ ?_ ?_
  · funext id
    exact find?_entered h.freshTransaction id
  · funext a c
    show (view d _).balance a c = d.balance a c + total (credited deposit.transaction) a c
    rw [Db.balance_books, Db.balance_books, ← total_credit _ draws]
    exact (congrArg (total · a c) hrows).trans (total_append _ _ a c)
  · rfl
  · funext k
    refine (isSome_find?_insert d.depositIdempotencyKeys _ k).trans ?_
    exact congrArg _ (decide_eq_decide.mpr (Option.some_inj).symm)
  · funext y
    show @Schema.present schema _ y =
      (@Schema.present schema d y || decide (y ∈ (deposit.change event).taken))
    refine present_grown ?_ ?_ ?_ ?_ y
    · exact fun y hy => TransactionRow.entries_tab hy
    · show (d.transactions.insert (depositRow deposit.transaction)).rows.flatMap _ = _
      rw [Table.rows_insert h.freshTransaction, List.flatMap_append]
      exact congrArg _ (List.append_nil _)
    · rw [hrows, List.map_append]
      rfl
    · rfl
  · exact events_announced h.freshEvent

/-! ## What is settled -/

variable {α : Type} {res : Except Error α} {w' : List schema.Write}

/-- A statement that does not fail. -/
theorem RunsTo.exec_ok {s : Stmt} {e : Fault schema → Error}
    {k : s.Reply → DbTx hashtext (DbCommit hashtext α)}
    (h : RunsTo (.exec s e k) d w res w')
    {r : Effect schema.Write (DbLock hashtext) s.Reply}
    (hx : ∀ f, (s.plan f (view d w) : DbPlan hashtext s.Reply).result = .ok r) :
    RunsTo (k r.reply) d (w ++ r.writes) res w' := by
  obtain ⟨f, ⟨x, hfault, -, -⟩ | ⟨r', hr', hk⟩⟩ := Tx.Runs.cases _ h
  · cases (hx f).symm.trans hfault
  · cases (hx f).symm.trans hr'
    exact hk

variable {delivery : Delivery} {payloadHash : Digest} {evaluated : RiskEvaluated}
  {row : TransactionRow} {decision : Decision}

/-- The decision is recorded. -/
theorem finalizeTransaction_made (hrow : (view d w).transactions.find? row.id = some row)
    (hpending : row.status = .pending)
    (hcheck : Tab.check (t := .transactions) ((decision.finalize 0).apply row) = none)
    (hcorrelation : safeToken decision.outcome.correlationID = true)
    (hevent : (view d w).outboxEvents.find? (newID "evt" x.last) = none) {res : Except Error Bool}
    (h : RunsTo (finalizeTransaction row decision ⟨x.entry, x.contraEntry, x.last⟩ x.now :
      DbTx hashtext _) d w res w') : res = .ok true := by
  have h := RunsTo.exec_ok h fun f => Plan.updateRow_ok.mpr
    (Or.inr ⟨row, hrow, by simp [hpending], hcheck, rfl⟩)
  obtain ⟨u, hu, htaken, -⟩ | ⟨-, h⟩ := RunsTo.insert_row (t := .outboxEvents) h
    (firstViolated_singleton hcorrelation) rfl
  · obtain rfl := List.mem_singleton.mp hu
    refine (not_taken_row (t := .outboxEvents) ?_ htaken).elim
    rw [view, List.foldl_append]
    exact hevent
  exact h.ret.1

/-- A transaction that is locked is decided, unless its balance cannot be read: the entries
of the decision are made, if there are any, and then it is recorded. -/
theorem settle_runs {draws : LedgerDraws} {now : Time} {res : Except Error Bool}
    (h : RunsTo (settle evaluated draws now row : DbTx hashtext _) d w res w')
    (hdecision : decisionOf evaluated row ((view d w).balance row.accountID row.currency) =
      decision) :
    (evaluated.approved = true ∧ isBigint ((view d w).balance row.accountID row.currency) = false ∧
        ∃ e, res = .error e) ∨
      ((evaluated.approved = true → isBigint ((view d w).balance row.accountID row.currency) = true) ∧
        RunsTo (.exec (insertEntries (movedBy decision row draws)) (failing "insert ledger entries")
          fun _ => finalizeTransaction row decision draws now : DbTx hashtext _) d w res w') := by
  -- a decision without entries
  have hnothing : ∀ {decision : Decision}, decision.status = .failed →
      RunsTo (finalizeTransaction row decision draws now : DbTx hashtext _) d w res w' →
      RunsTo (.exec (insertEntries (movedBy decision row draws)) (failing "insert ledger entries")
        fun _ => finalizeTransaction row decision draws now : DbTx hashtext _) d w res w' := by
    intro decision hfailed h
    refine (Tx.runs_exec _).mpr ⟨fun _ => false, ?_⟩
    rw [movedBy, hfailed]
    show RunsTo (finalizeTransaction row decision draws now : DbTx hashtext _) d (w ++ []) res w'
    rw [List.append_nil]
    exact h
  rw [decisionOf] at hdecision
  cases happ : evaluated.approved with
  | false =>
      rw [settle_rejected happ] at h
      rw [happ] at hdecision
      exact Or.inr ⟨(fun h => by cases h), hdecision ▸ hnothing rfl h⟩
  | true =>
      rw [settle_approved happ] at h
      rw [if_pos happ] at hdecision
      obtain ⟨hrange, rfl, -⟩ | ⟨hrange, h⟩ := RunsTo.sumLedger (RunsTo.latch h)
      · exact Or.inl ⟨rfl, hrange, _, rfl⟩
      · refine Or.inr ⟨fun _ => hrange, ?_⟩
        split at h
        · next hlt =>
            rw [if_pos hlt] at hdecision
            exact hdecision ▸ hnothing rfl h
        · next hge =>
            rw [if_neg hge] at hdecision
            exact hdecision ▸ h

/-- The entries of a decision can be inserted. -/
theorem movedBy_insertable
    (hfresh : (LedgerOp.deliver delivery payloadHash evaluated).Fresh x d) (d' : Db)
    (hsame : d'.ledgerEntries = d.ledgerEntries) :
    Plan.Insertable d' ((movedBy decision row ⟨x.entry, x.contraEntry, x.last⟩).map
        fun r => (⟨.ledgerEntries, r⟩ : Row)) ↔
      (∀ r ∈ (decision.change delivery payloadHash row.timeless).entries,
        Tab.check (t := .ledgerEntries) r = none) ∧
      (∀ y ∈ (decision.change delivery payloadHash row.timeless).taken,
        d.standing.taken y = false) ∧
      (decision.status = .authorized → "clearing" ≠ row.accountID) := by
  unfold Change.taken Decision.change debited movedBy
  split
  · next hauthorized =>
      refine (hfresh.insertable d' hsame).trans (and_congr_right fun _ => ?_)
      simp only [entries, List.nil_append, List.map_cons, List.map_nil, List.forall_mem_cons]
      constructor
      · rintro ⟨haccount, hclearing, hne⟩
        exact ⟨⟨haccount, hclearing, List.forall_mem_nil _⟩, fun _ => hne⟩
      · rintro ⟨⟨haccount, hclearing, -⟩, hne⟩
        exact ⟨haccount, hclearing, hne hauthorized⟩
  · next hnot =>
      refine iff_of_true trivial ⟨List.forall_mem_nil _, List.forall_mem_nil _, fun h => ?_⟩
      exact absurd h hnot

theorem movedBy_refs (decision : Decision) (row : TransactionRow) (draws : LedgerDraws) :
    ∀ r ∈ (movedBy decision row draws).map (fun r => (⟨.ledgerEntries, r⟩ : Row)),
      Tab.refs r.2 = [⟨.transactions, row.id⟩] := by
  unfold movedBy
  split
  · simp only [debit, entries, List.map_cons, List.map_nil, List.forall_mem_cons]
    exact ⟨rfl, rfl, List.forall_mem_nil _⟩
  · exact List.forall_mem_nil _

/-- Entries that are made leave the other tables alone. -/
theorem get_posted {t : Tab} (ht : t ≠ .ledgerEntries) (d : Db) (rows : List LedgerRow) :
    Db.get (view d (Plan.inserts (rows.map fun r => (⟨.ledgerEntries, r⟩ : Row)))) t = d.get t := by
  refine @Schema.get_foldl_other schema t _ (fun x hx => ?_) d
  obtain ⟨r, hr, rfl⟩ := List.mem_map.mp hx
  obtain ⟨row, -, rfl⟩ := List.mem_map.mp hr
  exact ht

/-- A decision about a transaction that is locked. -/
theorem settle_made (hfresh : (LedgerOp.deliver delivery payloadHash evaluated).Fresh x d)
    (hrow : d.transactions.find? row.id = some row) (hpending : row.status = .pending)
    (hs : d.standing.Settles delivery payloadHash evaluated row.timeless)
    {res : Except Error Bool}
    (h : RunsTo (settle evaluated ⟨x.entry, x.contraEntry, x.last⟩ x.now row : DbTx hashtext _) d
      [claimWrite delivery payloadHash x.now] res w) : res = .ok true := by
  have hne : "clearing" ≠ row.accountID :=
    (reserved_eq_false.mp (TransactionRow.of_check hs.row).2).1.symm
  have hdecision : decisionOf evaluated row ((view d [claimWrite delivery payloadHash
      x.now]).balance row.accountID row.currency) = d.standing.decision evaluated row.timeless := rfl
  obtain ⟨happ, hrange, -⟩ | ⟨-, h⟩ := settle_runs h hdecision
  · cases (hs.range happ).symm.trans hrange
  have hi : Plan.Insertable (view d [claimWrite delivery payloadHash x.now])
      ((movedBy (d.standing.decision evaluated row.timeless) row
        ⟨x.entry, x.contraEntry, x.last⟩).map fun r => (⟨.ledgerEntries, r⟩ : Row)) :=
    (movedBy_insertable hfresh (view d [claimWrite delivery payloadHash x.now]) rfl).mpr
      ⟨hs.entries, hs.free, fun _ => hne⟩
  have hrefs := movedBy_refs (d.standing.decision evaluated row.timeless) row
    ⟨x.entry, x.contraEntry, x.last⟩
  have hkept : ∀ {t : Tab}, t ≠ .ledgerEntries → ∀ d' : Db, Db.get (view d' (Plan.inserts
      ((movedBy (d.standing.decision evaluated row.timeless) row
        ⟨x.entry, x.contraEntry, x.last⟩).map fun r => (⟨.ledgerEntries, r⟩ : Row)))) t = d'.get t :=
    fun ht d' => get_posted ht d' _
  have hfound : (view (view d [claimWrite delivery payloadHash x.now]) (Plan.inserts
      ((movedBy (d.standing.decision evaluated row.timeless) row
        ⟨x.entry, x.contraEntry, x.last⟩).map fun r => (⟨.ledgerEntries, r⟩ : Row)))).transactions.find?
          row.id = some row :=
    (congrArg (Table.find? · row.id) (hkept (t := .transactions) (by decide) _)).trans hrow
  have h := RunsTo.insert h hi (refers_transaction hrefs (Option.isSome_of_eq_some hfound))
  refine finalizeTransaction_made ?_ hpending hs.row hs.correlation ?_ h
  · rw [view, List.foldl_append]
    exact hfound
  · rw [view, List.foldl_append]
    refine (congrArg (Table.find? · _) (hkept (t := .outboxEvents) (by decide) _)).trans ?_
    exact hfresh.find? (t := .outboxEvents) (by simp [LedgerOp.generated])

/-- Times do not matter to the comparison. -/
theorem checkPending_timeless (event : RiskEvaluated) (r : Option TransactionRow) :
    checkPending event (r.map TransactionRow.timeless) =
      (checkPending event r).map TransactionRow.timeless := by
  cases r with
  | none => rfl
  | some t =>
      rw [checkPending]
      split
      · next hstatus => exact (if_pos hstatus).trans rfl
      · next hstatus =>
          split
          · next hdiffers => exact (if_neg hstatus).trans (if_pos hdiffers)
          · next hsame => exact (if_neg hstatus).trans (if_neg hsame)

/-- The row behind a pending transaction. -/
theorem pending_row {t : TransactionRow}
    (h : checkPending evaluated (d.standing.rows evaluated.transactionID) = .ok t) :
    ∃ row, checkPending evaluated (d.transactions.find? evaluated.transactionID) = .ok row ∧
      t = row.timeless := by
  have h := (checkPending_timeless _ _).symm.trans h
  cases hrow : checkPending evaluated (d.transactions.find? evaluated.transactionID) with
  | error e =>
      rw [hrow] at h
      cases h
  | ok row =>
      rw [hrow] at h
      cases h
      exact ⟨row, rfl, rfl⟩

/-- An evaluation of a pending transaction that nothing is wrong with is settled. -/
theorem processRiskEvaluated_made
    (hfresh : (LedgerOp.deliver delivery payloadHash evaluated).Fresh x d) {t : TransactionRow}
    (hpending : checkPending evaluated (d.standing.rows evaluated.transactionID) = .ok t)
    (hs : d.standing.Settles delivery payloadHash evaluated t) {res : Except Error Bool}
    (h : RunsTo (processRiskEvaluated delivery payloadHash evaluated
      ⟨x.entry, x.contraEntry, x.last⟩ x.now : DbTx hashtext _) d [] res w) : res = .ok true := by
  obtain ⟨row, hcheck, rfl⟩ := pending_row hpending
  obtain ⟨hrow, hstatus, -⟩ := checkPending_ok.mp hcheck
  have hid : row.id = evaluated.transactionID := Table.key_of_find? hrow
  have hunclaimed : d.processedEvents.find? (delivery.consumerName, delivery.eventID) = none :=
    Option.map_eq_none_iff.mp hs.unclaimed
  have hpasses : Tab.check (t := .processedEvents) (processedRow delivery payloadHash x.now) =
      none := by
    refine firstViolated_eq_none.mpr ?_
    simp only [ProcessedRow.checks, List.forall_mem_cons]
    exact ⟨hs.consumer, hs.eventID, List.forall_mem_nil _⟩
  have hfree : ∀ u ∈ @Schema.keys schema .processedEvents (processedRow delivery payloadHash x.now),
      @Schema.taken schema d u = false := by
    refine List.forall_mem_singleton.mpr (Bool.eq_false_iff.mpr fun htaken => ?_)
    exact not_taken_row (t := .processedEvents) hunclaimed htaken
  rw [processRiskEvaluated, consume_eq] at h
  have h := RunsTo.exec_ok h fun f => Plan.insertOrSkip_ok.mpr ⟨hpasses, Or.inr ⟨hfree, rfl⟩⟩
  have h : RunsTo (lockPendingTransaction evaluated >>= settle evaluated
      ⟨x.entry, x.contraEntry, x.last⟩ x.now : DbTx hashtext _) d
      [claimWrite delivery payloadHash x.now] res w := h
  rw [lockPendingTransaction_bind] at h
  have h := RunsTo.exec_ok h fun f => Plan.lockRow_ok.mpr rfl
  have h : RunsTo (whenPending evaluated (settle evaluated ⟨x.entry, x.contraEntry, x.last⟩ x.now :
      _ → DbTx hashtext _) (d.transactions.find? evaluated.transactionID)) d
      [claimWrite delivery payloadHash x.now] res w := h
  rw [whenPending_ok hcheck] at h
  exact settle_made hfresh (hid ▸ hrow) hstatus hs h

/-- The CHECKs of a decision that is recorded. -/
theorem finalizeTransaction_checked (hrow : (view d w).transactions.find? row.id = some row)
    {b : Bool}
    (h : Commits (finalizeTransaction row decision ⟨x.entry, x.contraEntry, x.last⟩ x.now :
      DbTx hashtext _) d w b w') :
    Tab.check (t := .transactions) ((decision.finalize 0).apply row) = none ∧
      safeToken decision.outcome.correlationID = true := by
  obtain ⟨row', hrow', -, hcheck, h⟩ := Commits.update (t := .transactions) h rfl
  obtain rfl : row' = row := Option.some.inj (hrow'.symm.trans hrow)
  obtain ⟨hcorrelation, -, -⟩ := Commits.insert_row (t := .outboxEvents) h
  exact ⟨hcheck, firstViolated_eq_none.mp hcorrelation _ (List.mem_singleton_self _)⟩

/-- What a decision that is committed has found. -/
theorem settle_found (hfresh : (LedgerOp.deliver delivery payloadHash evaluated).Fresh x d)
    (hrow : d.transactions.find? row.id = some row) {b : Bool}
    (hconsumer : safeToken delivery.consumerName = true)
    (heventID : safeToken delivery.eventID = true)
    (hunclaimed : d.processedEvents.find? (delivery.consumerName, delivery.eventID) = none)
    (h : Commits (settle evaluated ⟨x.entry, x.contraEntry, x.last⟩ x.now row : DbTx hashtext _) d
      [claimWrite delivery payloadHash x.now] b w) :
    d.standing.Settles delivery payloadHash evaluated row.timeless := by
  have hdecision : decisionOf evaluated row ((view d [claimWrite delivery payloadHash
      x.now]).balance row.accountID row.currency) = d.standing.decision evaluated row.timeless := rfl
  obtain ⟨-, -, e, he⟩ | ⟨hrange, h⟩ := settle_runs h hdecision
  · cases he
  obtain ⟨hi, h⟩ := Commits.insert h
  obtain ⟨hentries, hfree, -⟩ := (movedBy_insertable hfresh
    (view d [claimWrite delivery payloadHash x.now]) rfl).mp hi
  have hkept : (view d ([claimWrite delivery payloadHash x.now] ++ Plan.inserts
      ((movedBy (d.standing.decision evaluated row.timeless) row
        ⟨x.entry, x.contraEntry, x.last⟩).map fun r => (⟨.ledgerEntries, r⟩ : Row)))).transactions =
      d.transactions := by
    rw [view, List.foldl_append]
    exact get_posted (t := .transactions) (by decide) _ _
  obtain ⟨hcheck, hcorrelation⟩ := finalizeTransaction_checked (hkept ▸ hrow) h
  have hclaims : d.standing.claims (delivery.consumerName, delivery.eventID) = none :=
    Option.map_eq_none_iff.mpr hunclaimed
  exact ⟨hconsumer, heventID, hentries, hcheck, hcorrelation, hclaims, hrange, hfree⟩

/-- An evaluation that is settled was one nothing is wrong with. -/
theorem processRiskEvaluated_found
    (hfresh : (LedgerOp.deliver delivery payloadHash evaluated).Fresh x d)
    (h : Commits (processRiskEvaluated delivery payloadHash evaluated
      ⟨x.entry, x.contraEntry, x.last⟩ x.now : DbTx hashtext _) d [] true w) :
    ∃ t, checkPending evaluated (d.standing.rows evaluated.transactionID) = .ok t ∧
      d.standing.Settles delivery payloadHash evaluated t := by
  have hpasses : Tab.check (t := .processedEvents) (processedRow delivery payloadHash x.now) =
      none := by
    rw [processRiskEvaluated, consume_eq] at h
    obtain ⟨f, r, hx, -⟩ := Tx.Runs.of_ok _ h
    exact (Plan.insertOrSkip_ok.mp hx).1
  have hpasses := firstViolated_eq_none.mp hpasses
  simp only [ProcessedRow.checks, List.forall_mem_cons] at hpasses
  obtain ⟨hconsumer, heventID, -⟩ := hpasses
  rcases consume_commits h with ⟨hunclaimed, h⟩ | ⟨_, _, _, hb, _⟩
  · rw [lockPendingTransaction_bind] at h
    obtain ⟨f, r, hx, h⟩ := Tx.Runs.of_ok _ h
    cases Plan.lockRow_ok.mp hx
    have h : Commits (whenPending evaluated (settle evaluated ⟨x.entry, x.contraEntry, x.last⟩
      x.now : _ → DbTx hashtext _) (d.transactions.find? evaluated.transactionID)) d
        [claimWrite delivery payloadHash x.now] true w := h
    cases hcheck : checkPending evaluated (d.transactions.find? evaluated.transactionID) with
    | error e =>
        rw [whenPending_error hcheck] at h
        cases h.1
    | ok row =>
        rw [whenPending_ok hcheck] at h
        obtain ⟨hrow, -⟩ := checkPending_ok.mp hcheck
        have hid : row.id = evaluated.transactionID := Table.key_of_find? hrow
        refine ⟨row.timeless, ?_, settle_found hfresh (hid ▸ hrow) hconsumer heventID hunclaimed h⟩
        exact (checkPending_timeless _ _).trans (congrArg (Except.map _) hcheck)
  · cases hb

theorem total_movedBy (decision : Decision) (row : TransactionRow) (draws : LedgerDraws)
    (a c : String) : total (movedBy decision row draws) a c = total (debited decision row) a c := by
  unfold movedBy debited
  split
  · rw [debit, total_entries, total_entries]
  · rfl

theorem accounts_movedBy (decision : Decision) (row : TransactionRow) (draws : LedgerDraws) :
    (movedBy decision row draws).map (fun r => Ix.ledgerAccount r.transactionID r.accountID) =
      (debited decision row).map fun r => Ix.ledgerAccount r.transactionID r.accountID := by
  unfold movedBy debited
  split <;> rfl

/-- A decision leaves the index entries of transactions as they are. -/
theorem entries_modified (T : Table TransactionRow String TransactionRow.id) (id : String)
    (u : Finalize) (hu : ∀ r, (u.apply r).id = r.id) :
    (T.modify id u.apply hu).rows.flatMap TransactionRow.entries =
      T.rows.flatMap TransactionRow.entries := by
  rw [Table.rows_modify, List.flatMap_map]
  refine List.flatMap_congr fun r _ => ?_
  split <;> rfl

/-- The row of a transaction that is decided. -/
theorem find?_finalized {T : Table TransactionRow String TransactionRow.id}
    (h : T.find? row.id = some row) (u : Finalize) (hu : ∀ r, (u.apply r).id = r.id) (id : String) :
    ((T.modify row.id u.apply hu).find? id).map TransactionRow.timeless =
      Function.update (fun id => (T.find? id).map TransactionRow.timeless) row.id
        (some (u.apply row).timeless) id := by
  rw [Table.find?_modify, Function.update_apply]
  by_cases hid : id = row.id
  · rw [if_pos hid, if_pos hid, hid, h]
    rfl
  · rw [if_neg hid, if_neg hid]

theorem Settled.standing {draws : LedgerDraws} {now : Time}
    (h : Settled delivery payloadHash evaluated draws now d row w) :
    (view d w).standing = d.standing.apply
      (d.standing.settlement delivery payloadHash evaluated row.timeless) := by
  obtain ⟨decision, hdecision⟩ : ∃ decision, decision = decisionOf evaluated row
    (d.balance row.accountID row.currency) := ⟨_, rfl⟩
  have hdecided := h.decided
  rw [← hdecision] at hdecided
  obtain ⟨d₂, hd₂⟩ : ∃ d₂, d₂ = view (view d [claimWrite delivery payloadHash now])
    (ledgerWrites (movedBy decision row draws)) := ⟨_, rfl⟩
  have hview : view d w = view d₂ [.update .transactions row.id (decision.finalize now),
      .insert .outboxEvents (outboxRow (decision.event row draws now) now)] := by
    rw [hdecided.writes, hd₂, view, List.foldl_append, List.foldl_append]
  -- the tables after the claim and the entries
  have hkept : ∀ {t : Tab}, t ≠ .ledgerEntries →
      Db.get d₂ t = Db.get (view d [claimWrite delivery payloadHash now]) t := by
    intro t ht
    rw [hd₂]
    refine @Schema.get_foldl_other schema t _ (fun x hx => ?_) _
    obtain ⟨r, -, rfl⟩ := List.mem_map.mp hx
    exact ht
  have htransactions : d₂.transactions = d.transactions := hkept (t := .transactions) (by decide)
  have hevents : d₂.outboxEvents = d.outboxEvents := hkept (t := .outboxEvents) (by decide)
  have hclaims : d₂.processedEvents =
      d.processedEvents.insert (processedRow delivery payloadHash now) :=
    hkept (t := .processedEvents) (by decide)
  have hkeys : d₂.depositIdempotencyKeys = d.depositIdempotencyKeys :=
    hkept (t := .depositIdempotencyKeys) (by decide)
  have hletters : d₂.deadLetterMessages = d.deadLetterMessages :=
    hkept (t := .deadLetterMessages) (by decide)
  have hledger : d₂.ledgerEntries.rows = d.ledgerEntries.rows ++ movedBy decision row draws := by
    have hposted := hdecided.posted
    rw [hview] at hposted
    exact hposted
  have hsettlement : d.standing.settlement delivery payloadHash evaluated row.timeless =
      decision.change delivery payloadHash row.timeless := by
    rw [hdecision]
    rfl
  have hid : row.id = evaluated.transactionID := Table.key_of_find? h.found
  rw [hview, hsettlement]
  refine Standing.ext ?_ ?_ ?_ ?_ ?_ ?_
  · funext id
    refine (@find?_finalized row d₂.transactions ?_ (decision.finalize now) (fun _ => rfl)
      id).trans ?_
    · rw [htransactions, hid]
      exact h.found
    · rw [htransactions]
      rfl
  · funext a c
    show d₂.balance a c = d.balance a c + total (debited decision row.timeless) a c
    rw [Db.balance_books, Db.balance_books]
    refine (congrArg (total · a c) hledger).trans ((total_append _ _ a c).trans ?_)
    rw [total_movedBy]
    rfl
  · funext k
    show (d₂.processedEvents.find? k).map ProcessedRow.payloadSHA256 =
      if some (delivery.consumerName, delivery.eventID) = some k then some payloadHash
      else (d.processedEvents.find? k).map ProcessedRow.payloadSHA256
    rw [hclaims, Table.find?_insert]
    by_cases hk : (delivery.consumerName, delivery.eventID) = k
    · subst hk
      rw [if_pos rfl, h.unclaimed]
      exact congrArg _ (if_pos rfl)
    · rw [if_neg (fun heq => hk (Option.some.inj heq))]
      exact congrArg _ (if_neg hk)
  · funext k
    show (d₂.depositIdempotencyKeys.find? k).isSome = ((d.depositIdempotencyKeys.find? k).isSome || _)
    rw [hkeys]
    exact (Bool.or_false _).symm
  · funext y
    show @Schema.present schema _ y = (@Schema.present schema d y ||
      decide (y ∈ (decision.change delivery payloadHash row.timeless).taken))
    refine present_grown ?_ ?_ ?_ ?_ y
    · exact List.forall_mem_nil _
    · refine (entries_modified d₂.transactions row.id (decision.finalize now) fun _ => rfl).trans ?_
      rw [htransactions]
      exact (List.append_nil _).symm
    · refine (congrArg (List.map _) hledger).trans ?_
      rw [List.map_append, accounts_movedBy]
      rfl
    · exact hletters
  · refine (events_announced (d := d₂)
      (r := outboxRow (decision.event row draws now) now) ?_).trans ?_
    · exact hevents ▸ hdecided.freshEvent
    · rw [hevents]
      rfl

theorem Refreshed.standing {now : Time} (h : Refreshed delivery payloadHash now d w) :
    (view d w).standing = d.standing := by
  obtain ⟨⟨claim, hclaim, -⟩, rfl⟩ := h
  refine Standing.ext rfl rfl ?_ rfl (funext fun y => ?_) rfl
  on_goal 2 => exact @Schema.present_update schema d .processedEvents _ _ y
  funext k
  refine (congrArg (Option.map _) (@Schema.find?_update schema d .processedEvents _ _ k)).trans ?_
  split
  · exact Option.map_map ..
  · rfl

/-! ## One operation -/

theorem find?_apply_isSome {t : Tab} {k : t.Key} {y : schema.Write}
    (h : (@Schema.find? schema (@Schema.apply schema d y) t k).isSome) :
    (@Schema.find? schema d t k).isSome ∨ ∃ r, .insert t r = y ∧ Tab.key t r = k := by
  by_cases ht : t = y.tab
  · cases y with
    | insert t' r =>
        obtain rfl : t = t' := ht
        rw [Schema.find?_insert] at h
        split at h
        · next hk => exact Or.inr ⟨r, rfl, hk⟩
        · exact Or.inl h
    | update t' k' u =>
        obtain rfl : t = t' := ht
        rw [Schema.find?_update] at h
        split at h
        · exact Or.inl (Option.isSome_map ▸ h)
        · exact Or.inl h
    | delete t' k' hp =>
        obtain rfl : t = t' := ht
        rw [Schema.find?_delete] at h
        split at h
        · cases h
        · exact Or.inl h
  · rw [Schema.find?_other d y ht] at h
    exact Or.inl h

/-- The keys of the rows after some writes: there before, or written. -/
theorem find?_view_isSome {t : Tab} {k : t.Key}
    (h : (@Schema.find? schema (view d w) t k).isSome) :
    (@Schema.find? schema d t k).isSome ∨ ∃ r, .insert t r ∈ w ∧ Tab.key t r = k := by
  induction w generalizing d with
  | nil => exact Or.inl h
  | cons x w ih =>
      rcases ih h with h | ⟨r, hr, hk⟩
      · rcases find?_apply_isSome h with h | ⟨r, rfl, hk⟩
        · exact Or.inl h
        · exact Or.inr ⟨r, List.mem_cons_self, hk⟩
      · exact Or.inr ⟨r, List.mem_cons_of_mem _ hr, hk⟩

variable (hashtext) in
/-- The database after the operation, which runs alone. -/
def LedgerOp.after (op : LedgerOp) (x : Drawn) (d : Db) : Db :=
  (((store hashtext).method (op.call x)).solo (dialect hashtext).engine d).2

/-- It changes what the effect says, and the identifiers of new rows were drawn for it. -/
structure LedgerOp.Carried (op : LedgerOp) (x : Drawn) (d d' : Db) : Prop where
  standing : d'.standing = d.standing.act op
  keys : ∀ {t : Tab} {k : t.Key}, t ≠ .processedEvents → t ≠ .depositIdempotencyKeys →
    (@Schema.find? schema d' t k).isSome →
      (@Schema.find? schema d t k).isSome ∨ .row t k ∈ op.generated x

theorem LedgerOp.Carried.of_writes {op : LedgerOp} (hstanding : (view d w).standing = d.standing.act op)
    (hw : ∀ t r, t ≠ .processedEvents → t ≠ .depositIdempotencyKeys → .insert t r ∈ w →
      .row t (Tab.key t r) ∈ op.generated x) : op.Carried x d (view d w) where
  standing := hstanding
  keys := by
    intro t k ht ht' h
    rcases find?_view_isSome h with h | ⟨r, hr, rfl⟩
    · exact Or.inl h
    · exact Or.inr (hw t r ht ht' hr)

theorem fund_carried (hfresh : (LedgerOp.fund deposit event).Fresh x d) :
    (LedgerOp.fund deposit event).Carried x d ((LedgerOp.fund deposit event).after hashtext x d) := by
  have hruns := Tx.runs_of_solo (dialect hashtext).engine (d := d)
    (createDeposit deposit event ⟨x.entry, x.contraEntry, x.last⟩ x.now : DbTx hashtext _) []
  show LedgerOp.Carried _ _ _ (view d (Tx.outcome (dialect hashtext).engine ((createDeposit deposit event
    ⟨x.entry, x.contraEntry, x.last⟩ x.now : DbTx hashtext _).solo _ d [])).2)
  generalize Tx.outcome _ _ = o at hruns ⊢
  obtain ⟨res, w⟩ := o
  cases res with
  | error e =>
      obtain rfl : w = [] := Tx.Runs.writes_nil _ hruns
      refine .of_writes ?_ (fun t r _ _ hr => by cases hr)
      have hrefused : ¬ d.standing.Accepts deposit event := by
        intro hacc
        obtain ⟨response, hres⟩ := createDeposit_made hfresh hacc hruns
        cases hres
      simp only [Standing.act, LedgerOp.effect, if_neg hrefused]
      rfl
  | ok response =>
      have hdone := createDeposit_commits hruns
      refine .of_writes ?_ ?_
      · simp only [Standing.act, LedgerOp.effect, if_pos (createDeposit_accepts hfresh hruns)]
        exact hdone.standing
      · obtain rfl := hdone.writes
        intro t r ht ht' hr
        simp only [ledgerWrites, credit, entries, List.map_cons, List.map_nil, List.cons_append,
          List.nil_append, List.mem_cons, List.not_mem_nil, or_false] at hr
        rcases hr with hr | hr | hr | hr | hr | hr
        all_goals cases hr
        · simp [LedgerOp.generated, Tab.key, depositRow]
        · simp [LedgerOp.generated, Tab.key]
        · simp [LedgerOp.generated, Tab.key]
        · exact absurd rfl ht'
        · simp [LedgerOp.generated, Tab.key, depositAction]
        · simp [LedgerOp.generated, Tab.key, outboxRow]

theorem movedBy_id {decision : Decision} {draws : LedgerDraws} {r : LedgerRow}
    (h : r ∈ movedBy decision row draws) :
    r.id = newID "le" draws.entry ∨ r.id = newID "le" draws.contraEntry := by
  unfold movedBy at h
  split at h
  · rcases List.mem_pair.mp h with rfl | rfl
    · exact Or.inl rfl
    · exact Or.inr rfl
  · cases h

theorem deliver_carried (hfresh : (LedgerOp.deliver delivery payloadHash evaluated).Fresh x d) :
    (LedgerOp.deliver delivery payloadHash evaluated).Carried x d
      ((LedgerOp.deliver delivery payloadHash evaluated).after hashtext x d) := by
  have hruns := Tx.runs_of_solo (dialect hashtext).engine (d := d)
    (processRiskEvaluated delivery payloadHash evaluated ⟨x.entry, x.contraEntry, x.last⟩ x.now :
      DbTx hashtext _) []
  show LedgerOp.Carried _ _ _ (view d (Tx.outcome (dialect hashtext).engine
    ((processRiskEvaluated delivery payloadHash evaluated ⟨x.entry, x.contraEntry, x.last⟩ x.now :
      DbTx hashtext _).solo _ d [])).2)
  generalize Tx.outcome _ _ = o at hruns ⊢
  obtain ⟨res, w⟩ := o
  -- what is not settled has no effect
  have hnothing : res ≠ .ok true →
      d.standing.act (.deliver delivery payloadHash evaluated) = d.standing := by
    intro hres
    simp only [Standing.act, LedgerOp.effect]
    cases hpending : checkPending evaluated (d.standing.rows evaluated.transactionID) with
    | error e => rfl
    | ok t =>
        have hnot : ¬ d.standing.Settles delivery payloadHash evaluated t :=
          fun hs => hres (processRiskEvaluated_made hfresh hpending hs hruns)
        simp only [if_neg hnot]
  cases res with
  | error e =>
      obtain rfl : w = [] := Tx.Runs.writes_nil _ hruns
      exact .of_writes (hnothing fun h => by cases h).symm (fun t r _ _ hr => by cases hr)
  | ok b =>
      rcases processRiskEvaluated_commits hruns with ⟨rfl, t, ht⟩ | ⟨rfl, ht⟩
      · obtain ⟨t', hpending, hs⟩ := processRiskEvaluated_found hfresh hruns
        obtain ⟨row, hcheck, rfl⟩ := pending_row hpending
        obtain rfl : t = row :=
          Option.some.inj (ht.found.symm.trans (checkPending_ok.mp hcheck).1)
        refine .of_writes ?_ ?_
        · simp only [Standing.act, LedgerOp.effect, hpending, if_pos hs]
          exact ht.standing
        · obtain rfl := ht.decided.writes
          intro t r ht ht' hr
          simp only [List.mem_append, List.mem_cons, List.not_mem_nil, or_false] at hr
          rcases hr with (hr | hr) | hr | hr
          · cases hr
            exact absurd rfl ht
          · obtain ⟨entry, hentry, hr⟩ := List.mem_map.mp hr
            cases hr
            rcases movedBy_id hentry with hid | hid
            · simp [LedgerOp.generated, Tab.key, hid]
            · simp [LedgerOp.generated, Tab.key, hid]
          · cases hr
          · cases hr
            exact List.mem_cons_of_mem _ (List.mem_cons_of_mem _ (List.mem_singleton_self _))
      · refine .of_writes (ht.standing.trans (hnothing fun h => by cases h).symm) ?_
        obtain rfl := ht.writes
        intro t r _ _ hr
        cases List.mem_singleton.mp hr

theorem LedgerOp.Fresh.carried {op : LedgerOp} (h : op.Fresh x d) :
    op.Carried x d (op.after hashtext x d) := by
  cases op with
  | fund deposit event => exact fund_carried h
  | deliver delivery payloadHash evaluated => exact deliver_carried h

/-! ## Runs -/

/-- The identifiers that are generated in a run. -/
def generatedBy (r : List (LedgerOp × Drawn)) : List schema.UniqueKey :=
  r.flatMap fun o => o.1.generated o.2

/-- They are new. -/
structure New (d : Db) (r : List (LedgerOp × Drawn)) : Prop where
  unused : ∀ u ∈ generatedBy r, @Schema.taken schema d u = false
  apart : (generatedBy r).Nodup

variable (hashtext) in
/-- The database after a run, one operation after the other. -/
def finish (d : Db) (r : List (LedgerOp × Drawn)) : Db :=
  (serial (dialect hashtext).engine (store hashtext) d (r.map fun o => o.1.call o.2)).2

variable {r : List (LedgerOp × Drawn)} {op : LedgerOp}

/-- What is generated is a key of a row, and no one else writes such a row. -/
theorem generated_row {u : schema.UniqueKey} (h : u ∈ op.generated x) :
    ∃ t k, u = .row t k ∧ t ≠ .processedEvents ∧ t ≠ .depositIdempotencyKeys := by
  cases op with
  | fund deposit event =>
      simp only [LedgerOp.generated, List.mem_cons, List.not_mem_nil, or_false] at h
      rcases h with rfl | rfl | rfl | rfl | rfl <;> exact ⟨_, _, rfl, by decide, by decide⟩
  | deliver delivery payloadHash event =>
      simp only [LedgerOp.generated, List.mem_cons, List.not_mem_nil, or_false] at h
      rcases h with rfl | rfl | rfl <;> exact ⟨_, _, rfl, by decide, by decide⟩

theorem New.head (h : New d ((op, x) :: r)) : op.Fresh x d where
  unused u hu := h.unused u (List.mem_append_left _ hu)
  apart := (List.nodup_append.mp h.apart).1

variable (hashtext) in
theorem New.tail (h : New d ((op, x) :: r)) : New (op.after hashtext x d) r where
  unused u hu := by
    obtain ⟨o, ho, hgenerated⟩ := List.mem_flatMap.mp hu
    obtain ⟨t, k, rfl, ht, ht'⟩ := generated_row hgenerated
    refine Bool.eq_false_iff.mpr fun htaken => ?_
    rcases h.head.carried.keys ht ht' htaken with hbefore | hown
    · exact Bool.eq_false_iff.mp (h.unused _ (List.mem_append_right _ hu)) hbefore
    · exact (List.nodup_append.mp h.apart).2.2 _ hown _ hu rfl
  apart := (List.nodup_append.mp h.apart).2.1

/-- A run has the effects of its operations, in turn. -/
theorem finish_standing (h : New d r) :
    (finish hashtext d r).standing = (r.map Prod.fst).foldl Standing.act d.standing := by
  induction r generalizing d with
  | nil => rfl
  | cons o r ih =>
      obtain ⟨op, x⟩ := o
      refine (ih (h.tail hashtext)).trans ?_
      rw [h.head.carried.standing]
      rfl

end

end Clearance
