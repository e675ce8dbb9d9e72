/-
# `Clearance.Accounts` — no account is overdrawn, and no money is lost

Two invariants of the books, and what they say of every run of the services.

* `Solvent`: no account but the two contra accounts has a negative balance.  A deposit
  only adds to an account; a payment takes what is there, because the balance it is
  checked against is the balance it is taken from (this is where the isolation proved
  in `Clearance.Postgres.Isolation` goes in).

* `Balanced`: the ledger holds exactly the entries its transactions call for, two for a
  deposit, two for an authorized payment, none for any other payment.  All balances
  follow from that (`conservation`).
-/
import Clearance.System

namespace Clearance

open Transact

/-! ## Entries -/

theorem total_append (rows rows' : List LedgerRow) (a c : String) :
    total (rows ++ rows') a c = total rows a c + total rows' a c :=
  tally_append _ _ _ _

/-- What two entries add to a balance. -/
theorem total_entries (id contraID transactionID account contra : String) (amount : Int)
    (currency a c : String) :
    total (entries id contraID transactionID account contra amount currency) a c =
      (if account = a ∧ currency = c then amount else 0) -
        (if contra = a ∧ currency = c then amount else 0) := by
  simp only [total, entries, tally_cons, tally_nil, Bool.and_eq_true, beq_iff_eq, Int.add_zero]
  split <;> split <;> omega

theorem reserved_eq_false {a : String} :
    reserved a = false ↔ a ≠ "clearing" ∧ a ≠ "external-settlement" := by
  simp [reserved]

/-- What the CHECKs of a transaction say about money. -/
theorem TransactionRow.of_check {r : TransactionRow} (h : Tab.check (t := .transactions) r = none) :
    0 < r.amountCents ∧ reserved r.accountID = false := by
  have h := firstViolated_eq_none.mp h
  have hamount := h ("transactions_amount_cents_check", 0 < r.amountCents && isBigint r.amountCents)
    (by simp [TransactionRow.checks])
  have haccount := h ("transactions_external_account_check", !reserved r.accountID)
    (by simp [TransactionRow.checks])
  simp only [Bool.and_eq_true, decide_eq_true_eq, Bool.not_eq_true'] at hamount haccount
  exact ⟨hamount.1, haccount⟩

/-! ## No overdraft -/

/-- No account of a customer is overdrawn. -/
def Solvent (b : Books) : Prop := ∀ a c, reserved a = false → 0 ≤ b.balance a c

theorem decisionOf_authorized {event : RiskEvaluated} {t : TransactionRow} {balance : Int}
    (h : (decisionOf event t balance).status = .authorized) :
    event.approved = true ∧ t.amountCents ≤ balance := by
  unfold decisionOf at h
  split at h
  · next happ =>
      split at h
      · cases h
      · next hge => exact ⟨happ, by omega⟩
  · cases h

theorem Solvent.step {b b' : Books} {c : Call} (h : Solvent b) (hs : b.Step c b') :
    Solvent b' := by
  cases hs with
  | idle => exact h
  | created _ _ _ _ => exact h
  | evaluated _ _ => exact h
  | pruned _ => exact h
  | @deposited deposit _ draws _ _ _ _ _ _ hc =>
      intro a c ha
      show 0 ≤ total (b.ledger ++ credit deposit.transaction draws) a c
      obtain ⟨hpos, _⟩ := TransactionRow.of_check hc
      have hpos : 0 < deposit.transaction.amountCents := hpos
      have hne : ¬ ("external-settlement" = a ∧ deposit.transaction.currency = c) :=
        fun h => (reserved_eq_false.mp ha).2 h.1.symm
      have hb : 0 ≤ total b.ledger a c := h a c ha
      rw [total_append, credit, total_entries, if_neg hne]
      split <;> omega
  | @settled _ _ event draws _ _ _ t decision _ _ _ _ _ hdec hc =>
      intro a c ha
      show 0 ≤ total (b.ledger ++ movedBy decision t draws) a c
      have hb : 0 ≤ total b.ledger a c := h a c ha
      unfold movedBy
      split
      · next hauth =>
          -- The money was there when the payment was checked, and still is.
          rw [hdec] at hauth
          obtain ⟨_, hfunds⟩ := decisionOf_authorized hauth
          have hne : ¬ ("clearing" = a ∧ t.currency = c) :=
            fun h => (reserved_eq_false.mp ha).1 h.1.symm
          rw [total_append, debit, total_entries, if_neg hne]
          split
          · next hac =>
              obtain ⟨rfl, rfl⟩ := hac
              have hfunds : t.amountCents ≤ total b.ledger t.accountID t.currency := hfunds
              omega
          · omega
      · rwa [List.append_nil]

/-- Database transactions that make ledger entries. -/
def ledgerTransactions : Request → Bool
  | .store (.createDeposit ..) | .store (.processRiskEvaluated ..) => true
  | _ => false

/-- However deposits and payments are interleaved, no account is ever overdrawn. -/
theorem no_overdraft (P : Platform) (d : Db) (hd : d.ledgerEntries.rows = [])
    (es : List (Transact.Event (system P (.only ledgerTransactions))))
    (s : SystemState P (.only ledgerTransactions))
    (h : (State.init d () : SystemState P (.only ledgerTransactions)).steps es = some s)
    (accountID currency : String) (hclearing : accountID ≠ "clearing")
    (hsettlement : accountID ≠ "external-settlement") : 0 ≤ s.db.balance accountID currency := by
  have h₀ : Solvent d.books := by
    intro a c _
    show 0 ≤ total d.ledgerEntries.rows a c
    rw [hd]
    exact Int.le_refl 0
  have hsolvent : Solvent s.db.books :=
    books_reach (Policy.admits_true P _) (fun hb _ hs => hb.step hs) h₀ h
  exact hsolvent accountID currency (reserved_eq_false.mpr ⟨hclearing, hsettlement⟩)

/-- A deposit of 5.00. -/
def smallDeposit : Transaction where
  id := "dep_1"
  kind := .deposit
  accountID := "alice"
  fundingSource := "bank"
  externalRef := "ref-1"
  amountCents := 500
  currency := "USD"
  status := .authorized
  correlationID := "trace-1"
  createdAt := 0
  updatedAt := 0

/-- It is made from BEGIN to COMMIT. -/
def smallDepositRun : List (Transact.Event (system .plain (.only ledgerTransactions))) :=
  .arrive (.store (.createDeposit ⟨"key-1", .fill 64 0, "refill", smallDeposit⟩
    (newOutboxEvent .fundsDeposited "dep_1" "alice" "trace-1"
      (.fundsDeposited (FundingService.fundsDeposited smallDeposit)) (.fill 32 0) 0)
    ⟨.fill 32 0, .fill 32 1, .fill 32 0⟩ 0)) :: List.replicate 9 (.run 0)

theorem no_overdraft_smallDeposit : ∃ s : SystemState .plain (.only ledgerTransactions),
    (State.init Db.empty ()).steps smallDepositRun = some s ∧ 0 ≤ s.db.balance "alice" "USD" := by
  have h : ((State.init Db.empty () : SystemState .plain (.only ledgerTransactions)).steps
    smallDepositRun).isSome = true := by decide +kernel
  obtain ⟨s, hs⟩ := Option.isSome_iff_exists.mp h
  exact ⟨s, hs, no_overdraft .plain Db.empty rfl smallDepositRun s hs "alice" "USD" (by decide)
    (by decide)⟩

/-! ## Conservation of money -/

/-- A ledger entry without its id. -/
structure Line where
  transactionID : String
  accountID : String
  amountCents : Int
  currency : String
  deriving DecidableEq

def LedgerRow.line (r : LedgerRow) : Line :=
  ⟨r.transactionID, r.accountID, r.amountCents, r.currency⟩

/-- The entries a transaction calls for. -/
def TransactionRow.lines (t : TransactionRow) : List Line :=
  match t.kind, t.status with
  | .deposit, _ =>
      [⟨t.id, t.accountID, t.amountCents, t.currency⟩,
       ⟨t.id, "external-settlement", -t.amountCents, t.currency⟩]
  | .payment, .authorized =>
      [⟨t.id, t.accountID, -t.amountCents, t.currency⟩,
       ⟨t.id, "clearing", t.amountCents, t.currency⟩]
  | .payment, _ => []

/-- The ledger holds what its transactions call for. -/
structure Balanced (b : Books) : Prop where
  posted : (b.ledger.map LedgerRow.line).Perm (b.transactions.flatMap TransactionRow.lines)
  external : ∀ t ∈ b.transactions, reserved t.accountID = false
  deposits : ∀ t ∈ b.transactions, t.kind = .deposit → t.status = .authorized

theorem Balanced.empty : Balanced Db.empty.books :=
  ⟨List.Perm.refl _, List.forall_mem_nil _, List.forall_mem_nil _⟩

/-- A transaction comes in, with the entries it calls for. -/
theorem Balanced.add {b : Books} {t : TransactionRow} {rows : List LedgerRow} {b' : Books}
    (h : Balanced b) (ht : b'.transactions = b.transactions ++ [t])
    (hl : b'.ledger = b.ledger ++ rows) (hrows : rows.map LedgerRow.line = t.lines)
    (hc : Tab.check (t := .transactions) t = none)
    (hd : t.kind = .deposit → t.status = .authorized) : Balanced b' where
  posted := by
    rw [ht, hl, List.map_append, flatMap_concat, hrows]
    exact h.posted.append_right _
  external := by
    rw [ht]
    exact List.forall_mem_append.mpr
      ⟨h.external, List.forall_mem_singleton.mpr (TransactionRow.of_check hc).2⟩
  deposits := by
    rw [ht]
    exact List.forall_mem_append.mpr ⟨h.deposits, List.forall_mem_singleton.mpr hd⟩

/-- The entries a decision makes are those the decided payment calls for. -/
theorem lines_decided {t : TransactionRow} {decision : Decision} {draws : LedgerDraws} {now : Time}
    (hk : t.kind = .payment) : (movedBy decision t draws).map LedgerRow.line =
      ((decision.finalize now).apply t).lines := by
  have hk' : ((decision.finalize now).apply t).kind = .payment := hk
  unfold movedBy TransactionRow.lines
  rw [hk']
  show _ = match TransactionKind.payment, decision.status with
    | .deposit, _ => _
    | .payment, .authorized => _
    | .payment, _ => _
  cases decision.status with
  | authorized => simp [debit, entries, LedgerRow.line, Finalize.apply]
  | pending => rfl
  | failed => rfl

/-- Deposits are never pending. -/
theorem Balanced.payment_of_pending {b : Books} (h : Balanced b) {t : TransactionRow}
    (ht : t ∈ b.transactions) (hpending : t.status = .pending) : t.kind = .payment := by
  cases hk : t.kind with
  | payment => rfl
  | deposit =>
      have hauth := h.deposits t ht hk
      rw [hpending] at hauth
      cases hauth

theorem Balanced.step {b b' : Books} {c : Call} (h : Balanced b) (hc : c.Proper)
    (hs : b.Step c b') : Balanced b' := by
  cases hs with
  | idle => exact h
  | evaluated _ _ => exact ⟨h.posted, h.external, h.deposits⟩
  | pruned _ => exact ⟨h.posted, h.external, h.deposits⟩
  | @created record _ now _ _ _ hcheck =>
      have hnil : (paymentRow record.transaction now).lines = [] := by
        simp [TransactionRow.lines, paymentRow, NewPayment.pending hc]
      exact h.add rfl (List.append_nil _).symm hnil.symm hcheck nofun
  | @deposited deposit _ draws _ _ _ _ _ _ hcheck =>
      refine h.add rfl rfl ?_ hcheck fun _ => NewDeposit.authorized hc
      simp [TransactionRow.lines, depositRow, NewDeposit.kind hc, credit, entries, LedgerRow.line]
  | @settled _ _ event draws now l₁ l₂ t decision _ _ ht _ hpending _ hcheck =>
      have hk : t.kind = .payment := h.payment_of_pending (by rw [ht]; simp) hpending
      have hnil : t.lines = [] := by simp [TransactionRow.lines, hk, hpending]
      refine ⟨?_, ?_, ?_⟩
      · show ((b.ledger ++ movedBy decision t draws).map _).Perm
          ((l₁ ++ (decision.finalize now).apply t :: l₂).flatMap _)
        refine List.Perm.trans ?_ (flatMap_replace hnil l₁ l₂).symm
        rw [List.map_append, lines_decided hk, ← ht]
        exact h.posted.append_right _
      · show ∀ x ∈ l₁ ++ (decision.finalize now).apply t :: l₂, reserved x.accountID = false
        have hext := h.external
        rw [ht, List.forall_mem_append, List.forall_mem_cons] at hext
        exact List.forall_mem_append.mpr
          ⟨hext.1, List.forall_mem_cons.mpr ⟨(TransactionRow.of_check hcheck).2, hext.2.2⟩⟩
      · show ∀ x ∈ l₁ ++ (decision.finalize now).apply t :: l₂, x.kind = .deposit →
          x.status = .authorized
        have hdep := h.deposits
        rw [ht, List.forall_mem_append, List.forall_mem_cons] at hdep
        refine List.forall_mem_append.mpr ⟨hdep.1, List.forall_mem_cons.mpr ⟨fun hx => ?_, hdep.2.2⟩⟩
        have hx : t.kind = .deposit := hx
        rw [hk] at hx
        cases hx

/-- An authorized payment in a currency. -/
def TransactionRow.pays (currency : String) (t : TransactionRow) : Bool :=
  t.kind == .payment && t.status == .authorized && t.currency == currency

/-- A deposit in a currency. -/
def TransactionRow.deposits (currency : String) (t : TransactionRow) : Bool :=
  t.kind == .deposit && t.currency == currency

/-- What the entries of a transaction add up to over some accounts. -/
theorem tally_lines (p : String → Bool) (c : String) (t : TransactionRow) :
    tally (fun x => p x.accountID && x.currency == c) Line.amountCents t.lines =
      (if t.deposits c && p t.accountID then t.amountCents else 0) -
        (if t.deposits c && p "external-settlement" then t.amountCents else 0) +
        (if t.pays c && p "clearing" then t.amountCents else 0) -
        (if t.pays c && p t.accountID then t.amountCents else 0) := by
  cases hk : t.kind with
  | deposit =>
      have hpays : t.pays c = false := by simp [TransactionRow.pays, hk]
      simp only [TransactionRow.lines, hk, tally_cons, tally_nil, TransactionRow.deposits, hpays,
        beq_self_eq_true, Bool.true_and, Bool.false_and, Bool.and_comm (t.currency == c)]
      split <;> split <;> simp
  | payment =>
      have hdep : t.deposits c = false := by simp [TransactionRow.deposits, hk]
      cases hs : t.status with
      | authorized =>
          simp only [TransactionRow.lines, hk, hs, tally_cons, tally_nil, TransactionRow.pays, hdep,
            beq_self_eq_true, Bool.true_and, Bool.false_and, Bool.and_comm (t.currency == c)]
          split <;> split <;> simp
      | pending | failed =>
          have hpays : t.pays c = false := by simp [TransactionRow.pays, hs]
          simp [TransactionRow.lines, hk, hs, hpays, hdep]

theorem tally_flatMap_lines (p : String → Bool) (c : String) (l : List TransactionRow) :
    tally (fun x => p x.accountID && x.currency == c) Line.amountCents
        (l.flatMap TransactionRow.lines) =
      tally (fun t => t.deposits c && p t.accountID) TransactionRow.amountCents l -
        tally (fun t => t.deposits c && p "external-settlement") TransactionRow.amountCents l +
        tally (fun t => t.pays c && p "clearing") TransactionRow.amountCents l -
        tally (fun t => t.pays c && p t.accountID) TransactionRow.amountCents l := by
  induction l with
  | nil => rfl
  | cons t l ih =>
      rw [List.flatMap_cons, tally_append, ih, tally_lines]
      simp only [tally_cons]
      omega

/-- The entries of some accounts, summed by what they are for. -/
theorem Balanced.tally_ledger {b : Books} (h : Balanced b) (p : String → Bool) (c : String) :
    tally (fun r => p r.accountID && r.currency == c) LedgerRow.amountCents b.ledger =
      tally (fun t => t.deposits c && p t.accountID) TransactionRow.amountCents b.transactions -
        tally (fun t => t.deposits c && p "external-settlement") TransactionRow.amountCents
          b.transactions +
        tally (fun t => t.pays c && p "clearing") TransactionRow.amountCents b.transactions -
        tally (fun t => t.pays c && p t.accountID) TransactionRow.amountCents b.transactions := by
  rw [← tally_flatMap_lines, ← tally_perm _ _ h.posted, tally_map]
  rfl

theorem Balanced.clearing {b : Books} (h : Balanced b) (c : String) :
    b.balance "clearing" c = tally (·.pays c) TransactionRow.amountCents b.transactions := by
  have hne : ∀ t ∈ b.transactions, (t.accountID == "clearing") = false := fun t ht =>
    beq_eq_false_iff_ne.mpr (reserved_eq_false.mp (h.external t ht)).1
  have hcontra : ("external-settlement" == "clearing") = false := rfl
  have hsum := h.tally_ledger (· == "clearing") c
  simp only [tally_and_none (·.deposits c) _ hne, tally_and_none (·.pays c) _ hne, hcontra,
    beq_self_eq_true, Bool.and_false, Bool.and_true, tally_false] at hsum
  simpa [Books.balance, total] using hsum

theorem Balanced.settlement {b : Books} (h : Balanced b) (c : String) :
    b.balance "external-settlement" c =
      -tally (·.deposits c) TransactionRow.amountCents b.transactions := by
  have hne : ∀ t ∈ b.transactions, (t.accountID == "external-settlement") = false := fun t ht =>
    beq_eq_false_iff_ne.mpr (reserved_eq_false.mp (h.external t ht)).2
  have hcontra : ("clearing" == "external-settlement") = false := rfl
  have hsum := h.tally_ledger (· == "external-settlement") c
  simp only [tally_and_none (·.deposits c) _ hne, tally_and_none (·.pays c) _ hne, hcontra,
    beq_self_eq_true, Bool.and_false, Bool.and_true, tally_false] at hsum
  simpa [Books.balance, total] using hsum

theorem Balanced.account {b : Books} (h : Balanced b) {a : String} (c : String)
    (ha : reserved a = false) :
    b.balance a c =
      tally (fun t => t.deposits c && t.accountID == a) TransactionRow.amountCents
          b.transactions -
        tally (fun t => t.pays c && t.accountID == a) TransactionRow.amountCents
          b.transactions := by
  obtain ⟨hc, hs⟩ := reserved_eq_false.mp ha
  have hsum := h.tally_ledger (· == a) c
  simp only [beq_eq_false_iff_ne.mpr (Ne.symm hc), beq_eq_false_iff_ne.mpr (Ne.symm hs),
    Bool.and_false, tally_false] at hsum
  simpa [Books.balance, total] using hsum

/-- Money comes in by deposits and goes out by authorized payments, and nothing is lost. -/
theorem conservation (P : Platform) (es : List (Transact.Event (system P (.only services))))
    (s : SystemState P (.only services))
    (h : (State.init Db.empty () : SystemState P (.only services)).steps es = some s)
    (currency : String) :
    tally (fun r => r.currency == currency) LedgerRow.amountCents s.db.ledgerEntries.rows = 0 ∧
    s.db.balance "clearing" currency =
      tally (·.pays currency) TransactionRow.amountCents s.db.transactions.rows ∧
    s.db.balance "external-settlement" currency =
      -tally (·.deposits currency) TransactionRow.amountCents s.db.transactions.rows ∧
    ∀ accountID, accountID ≠ "clearing" → accountID ≠ "external-settlement" →
      s.db.balance accountID currency =
        tally (fun t => t.deposits currency && t.accountID == accountID)
            TransactionRow.amountCents s.db.transactions.rows -
          tally (fun t => t.pays currency && t.accountID == accountID)
            TransactionRow.amountCents s.db.transactions.rows := by
  have hb : Balanced s.db.books :=
    books_reach (admits_services P) (fun hb hc hs => hb.step hc hs) Balanced.empty h
  refine ⟨?_, hb.clearing currency, hb.settlement currency, fun a hc hs =>
    hb.account currency (reserved_eq_false.mpr ⟨hc, hs⟩)⟩
  have hsum := hb.tally_ledger (fun _ => true) currency
  simpa [Db.books] using hsum

/-- The same deposit, asked for by a client. -/
def depositRequestRun : List (Transact.Event (system .plain (.only services))) :=
  .arrive (.deposit 100000000 ⟨"alice", 500, "usd", "bank", "ref-1"⟩ ⟨"key-1", "trace-1", "refill"⟩
    { trace := .fill 32 0
      transaction := .fill 32 0
      event := .fill 32 0
      store := ⟨.fill 32 0, .fill 32 1, .fill 32 0⟩
      createdAt := 0
      eventAt := 0
      now := 0 }) :: List.replicate 10 (.run 0)

theorem conservation_depositRequest : ∃ s : SystemState .plain (.only services),
    (State.init Db.empty ()).steps depositRequestRun = some s ∧
      s.db.balance "alice" "USD" =
        tally (fun t => t.deposits "USD" && t.accountID == "alice")
            TransactionRow.amountCents s.db.transactions.rows -
          tally (fun t => t.pays "USD" && t.accountID == "alice")
            TransactionRow.amountCents s.db.transactions.rows := by
  have h : ((State.init Db.empty () : SystemState .plain (.only services)).steps
    depositRequestRun).isSome = true := by decide +kernel
  obtain ⟨s, hs⟩ := Option.isSome_iff_exists.mp h
  exact ⟨s, hs, (conservation .plain depositRequestRun s hs "USD").2.2.2 "alice" (by decide)
    (by decide)⟩

end Clearance
