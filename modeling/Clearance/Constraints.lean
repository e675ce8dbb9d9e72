/-
# `Clearance.Constraints` — requests that are accepted fit the schema

The schema checks again what `validate` has checked, in other terms: regular expressions
of PostgreSQL against those of Go, characters against bytes, the kinds of transactions
against two methods.  A request that was accepted passes all of it (`payment_fits`,
`deposit_fits`), and refers to rows that are inserted with it.

What is left are the unique keys.  The identifiers are drawn at random and taken to be new,
so that an insertion fails on the idempotency key or on the external reference, which
callers are told in errors of their own (`accepted_fits_schema`).
-/
import Clearance.Accounts
import Clearance.Fingerprints
import Clearance.Requesting

namespace Clearance

open Transact

/-! ## Rows that can be inserted together -/

/-- Every row passes its CHECKs, and refers to rows of the list. -/
structure RowsFit (rows : List Row) : Prop where
  checked : ∀ r ∈ rows, Tab.check r.2 = none
  referred : ∀ r ∈ rows, ∀ k ∈ Tab.refs r.2, ∃ r' ∈ rows, k = ⟨r'.1, Tab.key r'.1 r'.2⟩

/-- The rows of `Store.Create`. -/
def paymentRows (record : IdempotencyRecord) (event : OutboxEvent) (now : Time) : List Row :=
  [⟨.transactions, paymentRow record.transaction now⟩, ⟨.idempotencyKeys, idempotencyRow record⟩,
    ⟨.outboxEvents, outboxRow event now⟩]

/-- The rows of `Store.CreateDeposit`, which stores what it returns. -/
def depositRows (deposit : Deposit) (event : OutboxEvent) (draws : DepositDraws) (now : Time)
    (response : DepositResponse) : List Row :=
  [⟨.transactions, depositRow deposit.transaction⟩] ++
    (credit deposit.transaction draws).map (fun r => ⟨.ledgerEntries, r⟩) ++
    [⟨.depositIdempotencyKeys, depositKeyRow deposit response⟩,
      ⟨.operatorActions, depositAction deposit draws⟩, ⟨.outboxEvents, outboxRow event now⟩]

/-! ## What `validate` implies -/

theorem isBigint_toInt (n : Int64) : isBigint n.toInt = true := by
  have hlo := Int64.le_toInt n
  have hhi := Int64.toInt_lt n
  simp only [isBigint, Bool.and_eq_true, decide_eq_true_eq]
  exact ⟨hlo, hhi⟩

theorem isBigint_neg {n : Int64} (h : 0 < n.toInt) : isBigint (-n.toInt) = true := by
  have hhi := Int64.toInt_lt n
  simp only [isBigint, Bool.and_eq_true, decide_eq_true_eq]
  omega

/-- A text has at most as many characters as bytes. -/
theorem length_le_byteLength (s : String) : s.toList.length ≤ byteLength s := by
  rw [byteLength]
  induction s.toList with
  | nil => exact Nat.le_refl _
  | cons c cs ih =>
      have hc := Char.utf8Size_pos c
      simp only [List.length_cons, List.map_cons, List.sum_cons]
      omega

theorem charLength_of_validReason {reason : String} (h : validReason reason = true) :
    charLength 1 256 reason = true := by
  simp only [validReason, Bool.and_eq_true, bne_iff_ne, decide_eq_true_eq] at h
  obtain ⟨⟨hne, hle⟩, -⟩ := h
  have hlength := length_le_byteLength reason
  have hpos : reason.toList ≠ [] := by
    intro hnil
    exact hne (by rw [byteLength, hnil]; rfl)
  simp only [charLength, Bool.and_eq_true, decide_eq_true_eq]
  exact ⟨List.length_pos_of_ne_nil hpos, hlength.trans hle⟩

/-- A CHECK of one condition. -/
theorem firstViolated_singleton {name : String} {b : Bool} (h : b = true) :
    firstViolated [(name, b)] = none :=
  firstViolated_eq_none.mpr (List.forall_mem_singleton.mpr h)

theorem payment_fits {P : Platform} {request : TransactionService.CreateRequest}
    {metadata : TransactionService.RequestMetadata} {draws : TransactionService.Draws} {now : Time}
    (h : TransactionService.Accepted request metadata)
    (hcorrelation : safeToken metadata.correlationID = true) :
    RowsFit (paymentRows (TransactionService.newRecord P request metadata draws)
      (TransactionService.newEvent request metadata draws) now) := by
  have hamount : (decide (0 < request.amountCents.toInt) && isBigint request.amountCents.toInt) =
      true := by simp [h.amount, isBigint_toInt]
  have hopen : (!reserved request.accountID) = true := by simp [h.open_]
  constructor
  · simp only [paymentRows, List.forall_mem_cons]
    refine ⟨firstViolated_eq_none.mpr ?_, firstViolated_singleton h.key,
      firstViolated_singleton hcorrelation, List.forall_mem_nil _⟩
    simp only [TransactionRow.checks, List.forall_mem_cons]
    exact ⟨h.account, hamount, hcorrelation, h.currency, hopen, rfl, h.merchant, rfl,
      List.forall_mem_nil _⟩
  · simp only [paymentRows, List.forall_mem_cons]
    exact ⟨List.forall_mem_nil _,
      List.forall_mem_singleton.mpr ⟨_, List.mem_cons_self, rfl⟩,
      List.forall_mem_nil _, List.forall_mem_nil _⟩

theorem safeToken_externalSettlement : safeToken "external-settlement" = true := by decide

theorem deposit_fits {P : Platform} {maxAmountCents : Int64}
    {request : FundingService.DepositRequest} {metadata : FundingService.RequestMetadata}
    {draws : FundingService.Draws} {entries : DepositDraws} {now : Time}
    {response : DepositResponse} (h : FundingService.Accepted maxAmountCents request metadata) :
    RowsFit (depositRows (FundingService.newDeposit P request metadata draws)
      (FundingService.newEvent (FundingService.newTransaction request metadata draws) draws)
      entries now response) := by
  have hamount : (decide (0 < request.amountCents.toInt) && isBigint request.amountCents.toInt) =
      true := by simp [h.amount, isBigint_toInt]
  have hopen : (!reserved request.accountID) = true := by simp [h.open_]
  have hpos := h.amount
  have hentry : (request.amountCents.toInt != 0 && isBigint request.amountCents.toInt) = true := by
    simp only [isBigint_toInt, Bool.and_true, bne_iff_ne]
    omega
  have hcontra : (-request.amountCents.toInt != 0 && isBigint (-request.amountCents.toInt)) =
      true := by
    simp only [isBigint_neg h.amount, Bool.and_true, bne_iff_ne]
    omega
  constructor
  · simp only [depositRows, credit, Clearance.entries, List.map_cons, List.map_nil,
      List.cons_append, List.nil_append, List.forall_mem_cons]
    refine ⟨firstViolated_eq_none.mpr ?_, firstViolated_eq_none.mpr ?_,
      firstViolated_eq_none.mpr ?_, firstViolated_singleton h.key,
      firstViolated_singleton (charLength_of_validReason h.reason),
      firstViolated_singleton h.correlation, List.forall_mem_nil _⟩
    · simp only [TransactionRow.checks, List.forall_mem_cons]
      exact ⟨h.account, hamount, h.correlation, h.currency, hopen, rfl, rfl, rfl,
        List.forall_mem_nil _⟩
    · simp only [LedgerRow.checks, List.forall_mem_cons]
      exact ⟨h.account, hentry, h.currency, List.forall_mem_nil _⟩
    · simp only [LedgerRow.checks, List.forall_mem_cons]
      exact ⟨safeToken_externalSettlement, hcontra, h.currency, List.forall_mem_nil _⟩
  · -- the ledger entries and the key refer to the deposit
    simp only [depositRows, credit, Clearance.entries, List.map_cons, List.map_nil,
      List.cons_append, List.nil_append, List.forall_mem_cons]
    exact ⟨List.forall_mem_nil _, List.forall_mem_singleton.mpr ⟨_, List.mem_cons_self, rfl⟩,
      List.forall_mem_singleton.mpr ⟨_, List.mem_cons_self, rfl⟩,
      List.forall_mem_singleton.mpr ⟨_, List.mem_cons_self, rfl⟩,
      List.forall_mem_nil _, List.forall_mem_nil _, List.forall_mem_nil _⟩

/-! ## Statements of a transaction -/

section

variable {hashtext : String → Int} {α : Type} {d : Db} {w w' : List schema.Write}
  {res : Except Error α}

/-- The transaction, executed in one go, comes to `res`. -/
abbrev RunsTo (tx : DbTx hashtext (DbCommit hashtext α)) (d : Db) (w : List schema.Write)
    (res : Except Error α) (w' : List schema.Write) : Prop :=
  tx.Runs (dialect hashtext).engine d w res w'

theorem RunsTo.latch {b c : String} {e : Fault schema → Error}
    {k : Unit → DbTx hashtext (DbCommit hashtext α)}
    (h : RunsTo (.exec (.advisoryXactLock b c) e k) d w res w') : RunsTo (k ()) d w res w' := by
  obtain ⟨f, ⟨x, hx, -, -⟩ | ⟨r, hx, hk⟩⟩ := Tx.Runs.cases _ h
  · cases hx
  · cases hx
    simpa using hk

/-- Rows that can be inserted are inserted. -/
theorem RunsTo.insert {rows : List Row} {e : Fault schema → Error}
    {k : Unit → DbTx hashtext (DbCommit hashtext α)}
    (h : RunsTo (.exec (.insert rows) e k) d w res w')
    (hi : Plan.Insertable (view d w) rows)
    (href : Plan.refsExist (view (view d w) (Plan.inserts rows)) rows = true) :
    RunsTo (k ()) d (w ++ Plan.inserts rows) res w' := by
  obtain ⟨f, ⟨x, hx, -, -⟩ | ⟨r, hx, hk⟩⟩ := Tx.Runs.cases _ h
  · have hok := (Plan.insert_ok (L := latches hashtext)).mpr ⟨hi, href, rfl⟩
    cases hx.symm.trans hok
  · obtain ⟨-, -, rfl⟩ := Plan.insert_ok.mp hx
    exact hk

/-- A row that passes its CHECKs is inserted, if no other has one of its keys. -/
theorem RunsTo.insert_row {t : Tab} {row : t.Row} {e : Fault schema → Error}
    {k : Unit → DbTx hashtext (DbCommit hashtext α)}
    (h : RunsTo (.exec (.insert [⟨t, row⟩]) e k) d w res w') (hc : Tab.check row = none)
    (href : Plan.refsExist (view (view d w) [.insert t row]) ([⟨t, row⟩] : List Row) = true) :
    (∃ u ∈ @Schema.keys schema t row, Schema.taken (view d w) u = true ∧
        res = .error (e (.unique u)) ∧ w' = []) ∨
      ((∀ u ∈ @Schema.keys schema t row, Schema.taken (view d w) u = false) ∧
        RunsTo (k ()) d (w ++ [.insert t row]) res w') := by
  cases hk : (@Schema.keys schema t row).find? (Schema.taken (view d w)) with
  | some u =>
      have hfault : ∀ f, (dialect hashtext).engine.exec (.insert [⟨t, row⟩]) f (view d w) =
          .error (.unique u) :=
        fun _ => @Plan.insert_taken schema _ t _ row u hc hk
      obtain ⟨f, ⟨x, hx, hres, hw⟩ | ⟨r, hx, -⟩⟩ := Tx.Runs.cases _ h
      · cases (hfault f).symm.trans hx
        exact Or.inl ⟨u, List.mem_of_find?_eq_some hk, List.find?_some hk, hres, hw⟩
      · cases (hfault f).symm.trans hx
  | none =>
      have hfree : ∀ u ∈ @Schema.keys schema t row, Schema.taken (view d w) u = false := by
        simpa using hk
      exact Or.inr ⟨hfree, h.insert ⟨hc, hfree, trivial⟩ href⟩

theorem RunsTo.sumLedger {b c : String} {e : Fault schema → Error}
    {k : Int → DbTx hashtext (DbCommit hashtext α)}
    (h : RunsTo (.exec (.sumLedger b c) e k) d w res w') :
    (isBigint ((view d w).balance b c) = false ∧ res = .error (e (.data "bigint out of range")) ∧
        w' = []) ∨
      (isBigint ((view d w).balance b c) = true ∧
        RunsTo (k ((view d w).balance b c)) d w res w') := by
  have hexec : ∀ f, (dialect hashtext).engine.exec (.sumLedger b c) f (view d w) =
      if isBigint ((view d w).balance b c) then .ok { reply := (view d w).balance b c }
      else .error (.data "bigint out of range") := by
    intro f
    show (Plan.read (if _ then _ else _) : DbPlan hashtext Int).result = _
    split <;> rfl
  obtain ⟨f, ⟨x, hx, hres, hw⟩ | ⟨r, hx, hk⟩⟩ := Tx.Runs.cases _ h
  · have hx := (hexec f).symm.trans hx
    split at hx
    · cases hx
    · next hnot =>
        cases hx
        exact Or.inl ⟨Bool.not_eq_true _ ▸ hnot, hres, hw⟩
  · have hx := (hexec f).symm.trans hx
    split at hx
    · next hin =>
        cases hx
        rw [List.append_nil] at hk
        exact Or.inr ⟨hin, hk⟩
    · cases hx

theorem RunsTo.ret {v : α} {e : Fault schema → Error}
    (h : RunsTo (.ret ⟨v, e⟩ : DbTx hashtext (DbCommit hashtext α)) d w res w') :
    res = .ok v ∧ w' = w := h

/-! ## Payments -/

/-- The identifiers drawn for a payment occur nowhere. -/
structure FreshPayment (d : Db) (record : IdempotencyRecord) (event : OutboxEvent) : Prop where
  transaction : d.transactions.find? record.transaction.id = none
  event : d.outboxEvents.find? event.id = none

theorem find?_insert_isSome {ρ κ : Type} [DecidableEq κ] {key : ρ → κ} (T : Table ρ κ key)
    (r : ρ) : ((T.insert r).find? (key r)).isSome = true := by
  rw [Table.find?_insert, if_pos rfl]
  rfl

/-- The foreign keys of the key tables and of the ledger. -/
theorem refers_transaction {rows : List Row} {id : String}
    (hrefs : ∀ r ∈ rows, Tab.refs r.2 = [⟨.transactions, id⟩])
    (h : (d.transactions.find? id).isSome = true) : Plan.refsExist d rows = true := by
  refine List.all_eq_true.mpr fun r hr => List.all_eq_true.mpr fun k hk => ?_
  have hk : k ∈ Tab.refs r.2 := hk
  rw [hrefs r hr] at hk
  rw [List.mem_singleton.mp hk]
  exact h

theorem not_taken_row {t : Tab} {k : t.Key} (hnone : @Schema.find? schema d t k = none)
    (h : @Schema.taken schema d (.row t k) = true) : False := by
  rw [Schema.taken, hnone] at h
  cases h

theorem find?_ne_none_of_taken {t : Tab} {k : t.Key}
    (h : @Schema.taken schema d (.row t k) = true) : @Schema.find? schema d t k ≠ none :=
  fun hnone => not_taken_row hnone h

/-- What `Create` can come to. -/
inductive PaymentEnds (record : IdempotencyRecord) (event : OutboxEvent) (now : Time) (d : Db) :
    Except Error Unit → List schema.Write → Prop
  | made : PaymentEnds record event now d (.ok ()) (Plan.inserts (paymentRows record event now))
  | keyTaken : d.idempotencyKeys.find? record.key ≠ none →
      PaymentEnds record event now d (.error (.sentinel .transactionIdempotencyConflict)) []

theorem create_runs {record : IdempotencyRecord} {event : OutboxEvent} {now : Time}
    {res : Except Error Unit} (hfit : RowsFit (paymentRows record event now))
    (hfresh : FreshPayment d record event)
    (h : RunsTo (create record event now : DbTx hashtext _) d [] res w) :
    PaymentEnds record event now d res w := by
  have hchecked := hfit.checked
  simp only [paymentRows, List.forall_mem_cons] at hchecked
  obtain ⟨htransaction, hkey, hevent, -⟩ := hchecked
  obtain ⟨u, hu, htaken, -⟩ | ⟨-, h⟩ := RunsTo.insert_row (t := .transactions) h htransaction rfl
  · obtain rfl := List.mem_singleton.mp hu
    exact (not_taken_row (t := .transactions) hfresh.transaction htaken).elim
  obtain ⟨u, hu, htaken, rfl, rfl⟩ | ⟨-, h⟩ := RunsTo.insert_row (t := .idempotencyKeys) h hkey
    (refers_transaction (List.forall_mem_singleton.mpr rfl)
      (find?_insert_isSome d.transactions (paymentRow record.transaction now)))
  · obtain rfl := List.mem_singleton.mp hu
    exact .keyTaken (find?_ne_none_of_taken (t := .idempotencyKeys) htaken)
  obtain ⟨u, hu, htaken, -⟩ | ⟨-, h⟩ := RunsTo.insert_row (t := .outboxEvents) h hevent rfl
  · obtain rfl := List.mem_singleton.mp hu
    exact (not_taken_row (t := .outboxEvents) hfresh.event htaken).elim
  obtain ⟨rfl, rfl⟩ := h.ret
  exact .made

/-! ## Deposits -/

/-- The identifiers drawn for a deposit occur nowhere. -/
structure FreshDeposit (d : Db) (deposit : Deposit) (event : OutboxEvent) (draws : DepositDraws) :
    Prop where
  transaction : d.transactions.find? deposit.transaction.id = none
  postings : ∀ r ∈ d.ledgerEntries.rows, r.transactionID ≠ deposit.transaction.id
  entry : d.ledgerEntries.find? (newID "le" draws.entry) = none
  contraEntry : d.ledgerEntries.find? (newID "le" draws.contraEntry) = none
  apart : newID "le" draws.entry ≠ newID "le" draws.contraEntry
  action : d.operatorActions.find? (newID "act" draws.action) = none
  event : d.outboxEvents.find? event.id = none

theorem depositReference_of_mem {r : TransactionRow} {x : Ix} (h : x ∈ r.entries) :
    ∃ source reference currency, x = .depositReference source reference currency := by
  unfold TransactionRow.entries at h
  split at h
  · exact ⟨_, _, _, List.mem_singleton.mp h⟩
  · cases h

/-- Nothing is posted for the transaction. -/
theorem present_ledgerAccount {id account : String}
    (h : ∀ r ∈ d.ledgerEntries.rows, r.transactionID ≠ id) :
    @Schema.present schema d (.ledgerAccount id account) = false := by
  rw [← Bool.not_eq_true, Schema.present_iff]
  rintro ⟨r, hr, hx⟩
  have hx : Ix.ledgerAccount id account ∈ [Ix.ledgerAccount r.transactionID r.accountID] := hx
  simp only [List.mem_singleton, Ix.ledgerAccount.injEq] at hx
  exact h r hr hx.1.symm

theorem ledger_keys_free {r : LedgerRow} (hid : d.ledgerEntries.find? r.id = none)
    (hx : @Schema.present schema d (.ledgerAccount r.transactionID r.accountID) = false) :
    ∀ u ∈ @Schema.keys schema .ledgerEntries r, Schema.taken d u = false := by
  intro u hu
  rcases List.mem_cons.mp hu with rfl | hu
  · show (d.ledgerEntries.find? r.id).isSome = false
    rw [hid]
    rfl
  · obtain rfl := List.mem_singleton.mp hu
    exact hx

/-- The two entries of a deposit can be inserted. -/
theorem credit_insertable {t : Transaction} {draws : DepositDraws}
    (hchecked : ∀ r ∈ credit t draws, Tab.check (t := .ledgerEntries) r = none)
    (hpostings : ∀ r ∈ d.ledgerEntries.rows, r.transactionID ≠ t.id)
    (hentry : d.ledgerEntries.find? (newID "le" draws.entry) = none)
    (hcontra : d.ledgerEntries.find? (newID "le" draws.contraEntry) = none)
    (hapart : newID "le" draws.entry ≠ newID "le" draws.contraEntry)
    (haccount : t.accountID ≠ "external-settlement") :
    Plan.Insertable d ((credit t draws).map fun r => (⟨.ledgerEntries, r⟩ : Row)) := by
  obtain ⟨hcheck, hcheck', -⟩ : _ ∧ _ ∧ _ := by
    simpa only [credit, entries, List.forall_mem_cons] using hchecked
  refine ⟨hcheck, ledger_keys_free hentry (present_ledgerAccount hpostings), hcheck',
    ledger_keys_free ?_ ?_, trivial⟩
  · -- the second identifier is not that of the first entry
    show (d.ledgerEntries.insert _).find? (newID "le" draws.contraEntry) = none
    rw [Table.find?_insert, if_neg hapart, hcontra]
  · -- and the accounts are not the same
    refine (@Schema.present_insert schema d .ledgerEntries _ _).trans ?_
    rw [present_ledgerAccount hpostings, Bool.false_or, Bool.and_eq_false_iff]
    right
    rw [decide_eq_false_iff_not]
    intro hx
    have hx : Ix.ledgerAccount t.id "external-settlement" ∈ [Ix.ledgerAccount t.id t.accountID] :=
      hx
    simp only [List.mem_singleton, Ix.ledgerAccount.injEq, true_and] at hx
    exact haccount hx.symm

theorem balance_credited {t : Transaction} {draws : DepositDraws}
    (hi : Plan.Insertable d ((credit t draws).map fun r => (⟨.ledgerEntries, r⟩ : Row)))
    (haccount : t.accountID ≠ "external-settlement") :
    (view d (Plan.inserts ((credit t draws).map fun r => (⟨.ledgerEntries, r⟩ : Row)))).balance
      t.accountID t.currency = d.balance t.accountID t.currency + t.amountCents := by
  have hrows := @Plan.Insertable.rows schema .ledgerEntries _ _ hi
  have hne : ¬ ("external-settlement" = t.accountID ∧ t.currency = t.currency) :=
    fun h => haccount h.1.symm
  rw [Db.balance_books, Db.balance_books]
  show total (Table.rows (Db.ledgerEntries _)) _ _ = total d.ledgerEntries.rows _ _ + _
  rw [show Table.rows (Db.ledgerEntries _) = _ from hrows, total_append, credit, total_entries,
    if_pos ⟨rfl, rfl⟩, if_neg hne, Int.sub_zero]
  rfl

/-- What `CreateDeposit` can come to. -/
inductive DepositEnds (deposit : Deposit) (event : OutboxEvent) (draws : DepositDraws)
    (now : Time) (d : Db) : Except Error DepositResponse → List schema.Write → Prop
  | made {response} : DepositEnds deposit event draws now d (.ok response)
      (Plan.inserts (depositRows deposit event draws now response))
  | keyTaken : d.depositIdempotencyKeys.find? deposit.idempotencyKey ≠ none →
      DepositEnds deposit event draws now d (.error (.sentinel .depositIdempotencyConflict)) []
  | referenceTaken : (∃ x ∈ (depositRow deposit.transaction).entries,
        @Schema.present schema d x = true) →
      DepositEnds deposit event draws now d (.error (.sentinel .externalReferenceConflict)) []
  | outOfRange : isBigint (d.balance deposit.transaction.accountID deposit.transaction.currency +
        deposit.transaction.amountCents) = false →
      DepositEnds deposit event draws now d
        (.error (failing "query balance after deposit" (.data "bigint out of range"))) []

theorem createDeposit_runs {deposit : Deposit} {event : OutboxEvent} {draws : DepositDraws}
    {now : Time} {res : Except Error DepositResponse}
    (hfit : ∀ response, RowsFit (depositRows deposit event draws now response))
    (hfresh : FreshDeposit d deposit event draws)
    (haccount : deposit.transaction.accountID ≠ "external-settlement")
    (h : RunsTo (createDeposit deposit event draws now : DbTx hashtext _) d [] res w) :
    DepositEnds deposit event draws now d res w := by
  have hchecked := fun balance => (hfit (depositResponse deposit.transaction balance)).checked
  simp only [depositRows, List.forall_mem_append, List.forall_mem_cons, List.forall_mem_map]
    at hchecked
  have hfound := find?_insert_isSome d.transactions (depositRow deposit.transaction)
  have h := RunsTo.latch h
  obtain ⟨u, hu, htaken, rfl, rfl⟩ | ⟨-, h⟩ :=
    RunsTo.insert_row (t := .transactions) h (hchecked 0).1.1.1 rfl
  · -- the identifier is new, so it is the external reference
    rcases List.mem_cons.mp hu with rfl | hu
    · exact (not_taken_row (t := .transactions) hfresh.transaction htaken).elim
    · obtain ⟨x, hx, rfl⟩ := List.mem_map.mp hu
      obtain ⟨_, _, _, rfl⟩ := depositReference_of_mem hx
      exact .referenceTaken ⟨_, hx, htaken⟩
  have hi : Plan.Insertable (view d [.insert .transactions (depositRow deposit.transaction)])
      ((credit deposit.transaction draws).map fun r => (⟨.ledgerEntries, r⟩ : Row)) :=
    credit_insertable (hchecked 0).1.2 hfresh.postings hfresh.entry hfresh.contraEntry hfresh.apart
      haccount
  have hrefs : ∀ r ∈ (credit deposit.transaction draws).map (fun r => (⟨.ledgerEntries, r⟩ : Row)),
      Tab.refs r.2 = [⟨.transactions, deposit.transaction.id⟩] := by
    simp only [credit, entries, List.map_cons, List.map_nil, List.forall_mem_cons]
    exact ⟨rfl, rfl, List.forall_mem_nil _⟩
  have h := RunsTo.insert h hi (refers_transaction hrefs hfound)
  obtain ⟨hrange, rfl, rfl⟩ | ⟨-, h⟩ := RunsTo.sumLedger h
  · have hbalance := balance_credited hi haccount
    exact .outOfRange ((congrArg isBigint hbalance).symm.trans hrange)
  obtain ⟨u, hu, htaken, rfl, rfl⟩ | ⟨-, h⟩ :=
    RunsTo.insert_row (t := .depositIdempotencyKeys) h (hchecked _).2.1
      (refers_transaction (List.forall_mem_singleton.mpr rfl) hfound)
  · obtain rfl := List.mem_singleton.mp hu
    exact .keyTaken (find?_ne_none_of_taken (t := .depositIdempotencyKeys) htaken)
  obtain ⟨u, hu, htaken, -⟩ | ⟨-, h⟩ :=
    RunsTo.insert_row (t := .operatorActions) h (hchecked 0).2.2.1 rfl
  · obtain rfl := List.mem_singleton.mp hu
    exact (not_taken_row (t := .operatorActions) hfresh.action htaken).elim
  obtain ⟨u, hu, htaken, -⟩ | ⟨-, h⟩ :=
    RunsTo.insert_row (t := .outboxEvents) h (hchecked 0).2.2.2.1 rfl
  · obtain rfl := List.mem_singleton.mp hu
    exact (not_taken_row (t := .outboxEvents) hfresh.event htaken).elim
  obtain ⟨rfl, rfl⟩ := h.ret
  exact .made

end

/-! ## What a caller is told -/

/-- An error of the driver about a constraint. -/
def Error.violation (e : Error) : Bool :=
  match e.driver? with
  | some (.pg code _) => ["23502", "23503", "23505", "23514"].contains code
  | _ => false

theorem violation_wrap {e : Error} (h : e.violation = false) (message : String) :
    (Error.wrap message e).violation = false := h

theorem IsOutage.violation_eq {e : Error} (h : IsOutage e) : e.violation = false := by
  obtain ⟨_, rfl⟩ := h
  rfl

/-- An operation ends in an outage, or as `ends` says. -/
def Concludes {α : Type} (ends : Except Error α → List schema.Write → Prop)
    (answer : Except Error α)
    (writes : List schema.Write) : Prop :=
  (∃ e, answer = .error e ∧ IsOutage e) ∨ ends answer writes

theorem Concludes.violation_eq {record : IdempotencyRecord} {event : OutboxEvent} {now : Time}
    {d : Db} {answer : Except Error Unit} {w : List schema.Write} {e : Error}
    (h : Concludes (PaymentEnds record event now d) answer w) (he : answer = .error e) :
    e.violation = false := by
  subst he
  rcases h with ⟨_, he, hout⟩ | h
  · cases he
    exact hout.violation_eq
  · cases h
    rfl

theorem Concludes.deposit_violation_eq {deposit : Deposit} {event : OutboxEvent}
    {draws : DepositDraws}
    {now : Time} {d : Db} {answer : Except Error DepositResponse} {w : List schema.Write}
    {e : Error} (h : Concludes (DepositEnds deposit event draws now d) answer w)
    (he : answer = .error e) : e.violation = false := by
  subst he
  rcases h with ⟨_, he, hout⟩ | h
  · cases he
    exact hout.violation_eq
  · cases h
    · rfl
    · rfl
    · rfl

theorem violation_of_find {hashtext : String → Int} {key : String} {e : Error}
    {o : Op (dialect hashtext).engine Error (Call.findIdempotency key).Reply}
    (h : (contract hashtext).Allows (.findIdempotency key) o) (he : o.answer = .error e) :
    e.violation = false := by
  rcases findIdempotency_answer h with ⟨_, he', hout⟩ | hok
  · cases he.symm.trans he'
    exact hout.violation_eq
  · cases he.symm.trans hok

theorem violation_of_findDeposit {hashtext : String → Int} {key : String} {e : Error}
    {o : Op (dialect hashtext).engine Error (Call.findDepositIdempotency key).Reply}
    (h : (contract hashtext).Allows (.findDepositIdempotency key) o) (he : o.answer = .error e) :
    e.violation = false := by
  rcases findDepositIdempotency_answer h with ⟨_, he', hout⟩ | hok
  · cases he.symm.trans he'
    exact hout.violation_eq
  · cases he.symm.trans hok

section

variable {P : Platform} {policy : Policy} {s : SystemState P policy}

/-- Operation `c` ends as it should, and request `r` never returns an error about a
constraint, as long as what was drawn is `fresh`. -/
structure Mapped (s : SystemState P policy) (r : Request) (c : Call) (fresh : Db → Prop)
    (ends : Db → Except Error c.Reply → List schema.Write → Prop) (returned : Error → r.Result) :
    Prop where
  ends : ∀ i o, (⟨i, c, o⟩ : LogEntry P) ∈ s.log → fresh o.before →
    Concludes (ends o.before) o.answer o.writes
  returns : ∀ i start e, s.tasks[i]? = some ⟨r, start, .idle (.ret (returned e))⟩ →
    (∀ o, (⟨i, c, o⟩ : LogEntry P) ∈ s.log → fresh o.before) → e.violation = false

/-- What a payment that was accepted returns. -/
theorem payment_returns (htraced : Traced (contract P.hashtext) s.abs)
    {request : TransactionService.CreateRequest}
    {metadata : TransactionService.RequestMetadata} {draws : TransactionService.Draws} {i : Nat}
    {start : Db} {e : Error}
    (hends : ∀ o, (⟨i, TransactionService.createCall P (TransactionService.normalize request)
        (TransactionService.normalizeMetadata metadata) draws, o⟩ : LogEntry P) ∈ s.log →
      ∀ e, o.answer = .error e → e.violation = false)
    (hacc : TransactionService.acceptable (TransactionService.normalize request)
      (TransactionService.normalizeMetadata metadata) = true)
    (ht : s.tasks[i]? = some ⟨.create request metadata draws, start, .idle (.ret (.error e))⟩) :
    e.violation = false := by
  have hmade := returned_made htraced ht
  rw [Request.program, TransactionService.create_eq, if_pos hacc] at hmade
  have hmem : ∀ x ∈ own i s.log, x ∈ s.log := fun x hx => mem_of_own hx
  generalize own i s.log = g at hmade hmem
  generalize hq : (.ret (.error e) : Service P (Except Error CreateResponse)) = q at hmade
  cases TransactionService.createNormalized_trace hmade with
  | begun => cases hq
  | unfound hfind =>
      cases hq
      exact violation_wrap
        (violation_of_find (htraced.allowed _ (hmem _ List.mem_cons_self)) hfind) _
  | met _ =>
      rw [TransactionService.metResult_error (Svc.ret.inj hq).symm]
      rfl
  | free _ => cases hq
  | created _ _ => cases hq
  | failed _ hinsert _ =>
      cases hq
      exact violation_wrap
        (hends _ (hmem _ (List.mem_cons_of_mem _ List.mem_cons_self)) _ hinsert) _
  | beaten _ _ _ => cases hq
  | raced _ hinsert _ =>
      rcases TransactionService.racedResult_error (Svc.ret.inj hq).symm with ⟨e', hagain, rfl⟩ | rfl
      · exact violation_wrap (violation_of_find (htraced.allowed _ (hmem _
          (List.mem_cons_of_mem _ (List.mem_cons_of_mem _ List.mem_cons_self)))) hagain) _
      · exact violation_wrap
          (hends _ (hmem _ (List.mem_cons_of_mem _ List.mem_cons_self)) _ hinsert) _

theorem deposit_returns (htraced : Traced (contract P.hashtext) s.abs) {maxAmountCents : Int64}
    {request : FundingService.DepositRequest} {metadata : FundingService.RequestMetadata}
    {draws : FundingService.Draws} {i : Nat} {start : Db} {e : Error}
    (hends : ∀ o, (⟨i, FundingService.depositCall P (FundingService.normalize request)
        (FundingService.normalizeMetadata metadata draws.trace) draws, o⟩ : LogEntry P) ∈ s.log →
      ∀ e, o.answer = .error e → e.violation = false)
    (hacc : FundingService.acceptable maxAmountCents (FundingService.normalize request)
      (FundingService.normalizeMetadata metadata draws.trace) = true)
    (ht : s.tasks[i]? =
      some ⟨.deposit maxAmountCents request metadata draws, start, .idle (.ret (.error e))⟩) :
    e.violation = false := by
  have hmade := returned_made htraced ht
  rw [Request.program, FundingService.deposit_eq, if_pos hacc] at hmade
  have hmem : ∀ x ∈ own i s.log, x ∈ s.log := fun x hx => mem_of_own hx
  generalize own i s.log = g at hmade hmem
  generalize hq : (.ret (.error e) : Service P (Except Error DepositResponse)) = q at hmade
  cases FundingService.depositNormalized_trace hmade with
  | begun => cases hq
  | unfound hfind =>
      cases hq
      exact violation_wrap
        (violation_of_findDeposit (htraced.allowed _ (hmem _ List.mem_cons_self)) hfind) _
  | met _ =>
      rw [FundingService.metResult_error (Svc.ret.inj hq).symm]
      rfl
  | free _ => cases hq
  | created _ _ => cases hq
  | failed _ hinsert _ =>
      cases hq
      exact violation_wrap
        (hends _ (hmem _ (List.mem_cons_of_mem _ List.mem_cons_self)) _ hinsert) _
  | beaten _ _ _ => cases hq
  | raced _ hinsert _ =>
      rcases FundingService.racedResult_error (Svc.ret.inj hq).symm with
        ⟨e', hagain, rfl⟩ | rfl | rfl
      · exact violation_wrap (violation_of_findDeposit (htraced.allowed _ (hmem _
          (List.mem_cons_of_mem _ (List.mem_cons_of_mem _ List.mem_cons_self)))) hagain) _
      · exact violation_wrap
          (hends _ (hmem _ (List.mem_cons_of_mem _ List.mem_cons_self)) _ hinsert) _
      · rfl

theorem payment_mapped (htraced : Traced (contract P.hashtext) s.abs)
    {request : TransactionService.CreateRequest} {metadata : TransactionService.RequestMetadata}
    {draws : TransactionService.Draws} {normalized : TransactionService.CreateRequest}
    (hvalid : TransactionService.validate request (TransactionService.normalizeMetadata metadata) =
      .ok normalized)
    {record : IdempotencyRecord} {event : OutboxEvent}
    (hrecord : record = TransactionService.newRecord P normalized
      (TransactionService.normalizeMetadata metadata) draws)
    (hevent : event = TransactionService.newEvent normalized
      (TransactionService.normalizeMetadata metadata) draws)
    (hfit : RowsFit (paymentRows record event draws.now)) :
    Mapped s (.create request metadata draws) (.create record event draws.now)
      (fun d => FreshPayment d record event) (PaymentEnds record event draws.now) .error := by
  have hends : ∀ i o, (⟨i, .create record event draws.now, o⟩ : LogEntry P) ∈ s.log →
      FreshPayment o.before record event →
      Concludes (PaymentEnds record event draws.now o.before) o.answer o.writes := by
    intro i o ho hfresh
    rcases (htraced.allowed _ ho).outage_or_spec with hout | hspec
    · exact Or.inl hout
    · exact Or.inr (create_runs hfit hfresh hspec)
  obtain ⟨rfl, haccepted⟩ := TransactionService.validate_eq_ok.mp hvalid
  subst hrecord hevent
  refine ⟨hends, fun i start e ht hfresh => ?_⟩
  exact payment_returns htraced (fun o ho _ he => (hends i o ho (hfresh o ho)).violation_eq he)
    (TransactionService.acceptable_iff.mpr haccepted) ht

theorem deposit_mapped (htraced : Traced (contract P.hashtext) s.abs) {maxAmountCents : Int64}
    {request : FundingService.DepositRequest} {metadata : FundingService.RequestMetadata}
    {draws : FundingService.Draws}
    {normalized : FundingService.DepositRequest × FundingService.RequestMetadata}
    (hvalid : FundingService.validate maxAmountCents request metadata draws.trace = .ok normalized)
    {deposit : Deposit} {event : OutboxEvent}
    (hdeposit : deposit = FundingService.newDeposit P normalized.1 normalized.2 draws)
    (hevent : event = FundingService.newEvent
      (FundingService.newTransaction normalized.1 normalized.2 draws) draws)
    (hfit : ∀ response, RowsFit (depositRows deposit event draws.store draws.now response)) :
    Mapped s (.deposit maxAmountCents request metadata draws)
      (.createDeposit deposit event draws.store draws.now)
      (fun d => FreshDeposit d deposit event draws.store)
      (DepositEnds deposit event draws.store draws.now) .error := by
  obtain ⟨rfl, haccepted⟩ := FundingService.validate_eq_ok.mp hvalid
  have haccount : deposit.transaction.accountID ≠ "external-settlement" := by
    rw [hdeposit]
    exact (reserved_eq_false.mp haccepted.open_).2
  have hends : ∀ i o,
      (⟨i, .createDeposit deposit event draws.store draws.now, o⟩ : LogEntry P) ∈ s.log →
      FreshDeposit o.before deposit event draws.store →
      Concludes (DepositEnds deposit event draws.store draws.now o.before) o.answer o.writes := by
    intro i o ho hfresh
    rcases (htraced.allowed _ ho).outage_or_spec with hout | hspec
    · exact Or.inl hout
    · exact Or.inr (createDeposit_runs hfit hfresh haccount hspec)
  subst hdeposit hevent
  refine ⟨hends, fun i start e ht hfresh => ?_⟩
  exact deposit_returns htraced
    (fun o ho _ he => (hends i o ho (hfresh o ho)).deposit_violation_eq he)
    (FundingService.acceptable_iff.mpr haccepted) ht

end

/-- Of a request that was accepted, every row passes the CHECKs and refers to rows of the same
request.  In every run, from whatever database, its operation inserts all of them unless the
idempotency key or the external reference is taken, the new balance is out of range, or the
database fails; so a client is never told of a constraint. -/
theorem accepted_fits_schema (P : Platform) (policy : Policy) (d : Db) (w : policy.World)
    (es : List (Transact.Event (system P policy))) (s : SystemState P policy)
    (h : (State.init d w : SystemState P policy).steps es = some s) :
    (∀ request metadata draws normalized record event,
      TransactionService.validate request (TransactionService.normalizeMetadata metadata) =
        .ok normalized →
      safeToken metadata.correlationID = true →
      record = TransactionService.newRecord P normalized
        (TransactionService.normalizeMetadata metadata) draws →
      event = TransactionService.newEvent normalized
        (TransactionService.normalizeMetadata metadata) draws →
      RowsFit (paymentRows record event draws.now) ∧
        Mapped s (.create request metadata draws) (.create record event draws.now)
          (fun d => FreshPayment d record event) (PaymentEnds record event draws.now) .error) ∧
    ∀ maxAmountCents request metadata draws normalized deposit event,
      FundingService.validate maxAmountCents request metadata draws.trace = .ok normalized →
      deposit = FundingService.newDeposit P normalized.1 normalized.2 draws →
      event = FundingService.newEvent
        (FundingService.newTransaction normalized.1 normalized.2 draws) draws →
      (∀ response, RowsFit (depositRows deposit event draws.store draws.now response)) ∧
        Mapped s (.deposit maxAmountCents request metadata draws)
          (.createDeposit deposit event draws.store draws.now)
          (fun d => FreshDeposit d deposit event draws.store)
          (DepositEnds deposit event draws.store draws.now) .error := by
  have htraced := traced_reach (State.reach_abs (store_sound P.hashtext) h)
  constructor
  · intro request metadata draws normalized record event hvalid hcorrelation hrecord hevent
    have hfit : RowsFit (paymentRows record event draws.now) := by
      rw [hrecord, hevent]
      exact payment_fits (TransactionService.validate_eq_ok.mp hvalid).2 hcorrelation
    exact ⟨hfit, payment_mapped htraced hvalid hrecord hevent hfit⟩
  · intro maxAmountCents request metadata draws normalized deposit event hvalid hdeposit hevent
    have hfit : ∀ response, RowsFit (depositRows deposit event draws.store draws.now response) := by
      intro response
      rw [hdeposit, hevent]
      exact deposit_fits (FundingService.validate_eq_ok.mp hvalid).2
    exact ⟨hfit, deposit_mapped htraced hvalid hdeposit hevent hfit⟩

/-- A payment and a deposit, written with blanks and in lower case. -/
def shopping : TransactionService.CreateRequest := ⟨" alice", "shop ", 500, "usd"⟩

def refill : FundingService.DepositRequest := ⟨" alice", 700, "usd", "bank", " ref-1"⟩

def shoppingDraws : TransactionService.Draws where
  transaction := .fill 32 0
  event := .fill 32 0
  createdAt := 0
  updatedAt := 0
  eventAt := 0
  now := 0

def refillDraws : FundingService.Draws where
  trace := .fill 32 0
  transaction := .fill 32 0
  event := .fill 32 1
  store := ⟨.fill 32 0, .fill 32 1, .fill 32 0⟩
  createdAt := 0
  eventAt := 0
  now := 0

/-- Both are made, one after the other. -/
def shoppingRun : List (Transact.Event (system .plain (.only services))) :=
  .arrive (.create shopping ⟨"key-1", "trace-1"⟩ shoppingDraws) ::
    .arrive (.deposit 1000 refill ⟨"key-1", "", "refill"⟩ refillDraws) ::
      List.replicate 6 (.run 0) ++ List.replicate 10 (.run 1)

theorem accepted_fits_schema_shopping : ∃ s : SystemState .plain (.only services),
    (State.init Db.empty ()).steps shoppingRun = some s ∧ s.db.outboxEvents.rows.length = 2 ∧
      RowsFit (paymentRows
        (TransactionService.newRecord .plain (TransactionService.normalize shopping)
          ⟨"key-1", "trace-1"⟩ shoppingDraws)
        (TransactionService.newEvent (TransactionService.normalize shopping)
          ⟨"key-1", "trace-1"⟩ shoppingDraws) shoppingDraws.now) ∧
      ∀ response, RowsFit (depositRows
        (FundingService.newDeposit .plain (FundingService.normalize refill)
          ⟨"key-1", newID "trace" refillDraws.trace, "refill"⟩ refillDraws)
        (FundingService.newEvent (FundingService.newTransaction (FundingService.normalize refill)
          ⟨"key-1", newID "trace" refillDraws.trace, "refill"⟩ refillDraws) refillDraws)
        refillDraws.store refillDraws.now response) := by
  have h : ((State.init Db.empty () : SystemState .plain (.only services)).steps
      shoppingRun).map (fun s => s.db.outboxEvents.rows.length) = some 2 := by decide +kernel
  obtain ⟨s, hs, hrows⟩ := Option.map_eq_some_iff.mp h
  obtain ⟨hpayments, hdeposits⟩ :=
    accepted_fits_schema .plain (.only services) Db.empty () shoppingRun s hs
  have hpayment := hpayments shopping ⟨"key-1", "trace-1"⟩ shoppingDraws
    (TransactionService.normalize shopping) _ _ (by decide +kernel) (by decide) rfl rfl
  have hdeposit := hdeposits 1000 refill ⟨"key-1", "", "refill"⟩ refillDraws
    (FundingService.normalize refill, ⟨"key-1", newID "trace" refillDraws.trace, "refill"⟩) _ _
    (by decide +kernel) rfl rfl
  exact ⟨s, hs, hrows, hpayment.1, hdeposit.1⟩

end Clearance
