/-
# `Clearance.Ranges` — balances fit into a `bigint`

Nothing limits what can be deposited in an account altogether.  What keeps a balance below
`2^63` is that `CreateDeposit` reads it back before it commits: a balance the driver cannot
return is an error, and the deposit is rolled back.  So every committed balance of a customer
is a `bigint` (`InRange.step`), and `ensureAvailableFunds`, which reads the balance of a
committed transaction's account, never meets another one (`processRiskEvaluated_scans`).
-/
import Clearance.Accounts
import Clearance.Transact.Deadlock

namespace Clearance

open Transact

/-! ## Committed balances -/

/-- The balances of customers are amounts the driver can return. -/
def InRange (b : Books) : Prop := ∀ a c, reserved a = false → b.balance a c < 2 ^ 63

/-- No transaction is on an account of the service. -/
def External (b : Books) : Prop := ∀ t ∈ b.transactions, reserved t.accountID = false

section

variable {hashtext : String → Int} {d : Db} {w : List schema.Write}

/-- A deposit that commits has read its balance. -/
theorem createDeposit_isBigint {deposit : Deposit} {event : OutboxEvent} {draws : DepositDraws}
    {now : Time} {response : DepositResponse}
    (h : Commits (createDeposit deposit event draws now : DbTx hashtext _) d [] response w) :
    isBigint ((view d w).balance deposit.transaction.accountID deposit.transaction.currency) =
      true := by
  have h := Commits.latch h
  obtain ⟨-, -, h⟩ := Commits.insert_row (t := .transactions) h
  obtain ⟨-, h⟩ := Commits.insert h
  obtain ⟨hrange, h⟩ := Commits.sumLedger h
  obtain ⟨-, -, h⟩ := Commits.insert_row (t := .depositIdempotencyKeys) h
  obtain ⟨-, -, h⟩ := Commits.insert_row (t := .operatorActions) h
  obtain ⟨-, -, h⟩ := Commits.insert_row (t := .outboxEvents) h
  obtain ⟨-, rfl⟩ := h.ret
  exact hrange

/-- What a deposit that commits adds to the balance. -/
theorem Deposited.balance {deposit : Deposit} {event : OutboxEvent} {draws : DepositDraws}
    {now : Time} {response : DepositResponse}
    (h : Deposited deposit event draws now d response w) :
    (view d w).balance deposit.transaction.accountID deposit.transaction.currency =
      d.balance deposit.transaction.accountID deposit.transaction.currency +
        deposit.transaction.amountCents := by
  have hexternal : reserved deposit.transaction.accountID = false :=
    (TransactionRow.of_check h.checked).2
  have hne : ¬ ("external-settlement" = deposit.transaction.accountID ∧
      deposit.transaction.currency = deposit.transaction.currency) :=
    fun heq => (reserved_eq_false.mp hexternal).2 heq.1.symm
  rw [Db.balance_books, Db.balance_books]
  show total (view d w).ledgerEntries.rows _ _ = total d.ledgerEntries.rows _ _ + _
  rw [h.posted, total_append, credit, total_entries, if_pos ⟨rfl, rfl⟩, if_neg hne, Int.sub_zero]

/-- A deposit that writes has read its balance. -/
theorem Contract.Allows.isBigint {deposit : Deposit} {event : OutboxEvent} {draws : DepositDraws}
    {now : Time}
    {o : Op (dialect hashtext).engine Error (Call.createDeposit deposit event draws now).Reply}
    (h : (contract hashtext).Allows (.createDeposit deposit event draws now) o)
    (hw : o.writes ≠ []) :
    Clearance.isBigint ((view o.before o.writes).balance deposit.transaction.accountID
      deposit.transaction.currency) = true := by
  rcases h.did with hspec | ⟨-, hnil, -⟩
  · cases hreply : o.reply with
    | error e =>
        rw [hreply] at hspec
        exact absurd (Tx.Runs.writes_nil _ hspec) hw
    | ok response =>
        rw [hreply] at hspec
        exact createDeposit_isBigint hspec
  · exact absurd hnil hw

/-- Deposits are made within the range, and payments only take money away. -/
theorem InRange.op {c : Call} {o : Op (dialect hashtext).engine Error c.Reply}
    (ho : (contract hashtext).Allows c o) (h : InRange (Db.books o.before)) :
    InRange (view o.before o.writes).books := by
  by_cases hw : o.writes = []
  · rw [hw]
    exact h
  have hstep := (allows_outcome ho).step
  generalize hafter : (view o.before o.writes).books = b at hstep ⊢
  cases hstep with
  | idle => exact h
  | created _ _ _ _ => exact h
  | evaluated _ _ => exact h
  | pruned _ => exact h
  | @deposited deposit _ draws _ _ _ _ _ _ hc =>
      intro a c ha
      have hold : total (Db.books o.before).ledger a c < 2 ^ 63 := h a c ha
      have hne : ¬ ("external-settlement" = a ∧ deposit.transaction.currency = c) :=
        fun heq => (reserved_eq_false.mp ha).2 heq.1.symm
      by_cases hac : deposit.transaction.accountID = a ∧ deposit.transaction.currency = c
      · -- this is the balance the deposit has read
        obtain ⟨rfl, rfl⟩ := hac
        have hread := Contract.Allows.isBigint ho hw
        rw [Db.balance_books, hafter] at hread
        simp only [Clearance.isBigint, Bool.and_eq_true, decide_eq_true_eq] at hread
        exact hread.2
      · show total (_ ++ credit deposit.transaction draws) a c < 2 ^ 63
        rw [total_append, credit, total_entries, if_neg hac, if_neg hne]
        simpa using hold
  | @settled _ _ event draws _ _ _ t decision _ _ _ _ _ hdec hc =>
      intro a c ha
      have hold : total (Db.books o.before).ledger a c < 2 ^ 63 := h a c ha
      show total (_ ++ movedBy decision t draws) a c < 2 ^ 63
      have hpositive : 0 < t.amountCents := (TransactionRow.of_check hc).1
      have hne : ¬ ("clearing" = a ∧ t.currency = c) :=
        fun heq => (reserved_eq_false.mp ha).1 heq.1.symm
      unfold movedBy
      split
      · rw [total_append, debit, total_entries, if_neg hne]
        split <;> omega
      · rwa [List.append_nil]

theorem External.step {b b' : Books} {c : Call} (h : External b) (hs : b.Step c b') :
    External b' := by
  cases hs with
  | idle => exact h
  | evaluated _ _ => exact h
  | pruned _ => exact h
  | created _ _ _ hc =>
      exact List.forall_mem_append.mpr
        ⟨h, List.forall_mem_singleton.mpr (TransactionRow.of_check hc).2⟩
  | deposited _ _ _ _ hc =>
      exact List.forall_mem_append.mpr
        ⟨h, List.forall_mem_singleton.mpr (TransactionRow.of_check hc).2⟩
  | settled _ _ ht _ _ _ hc =>
      have hall : ∀ t ∈ b.transactions, reserved t.accountID = false := h
      rw [ht, List.forall_mem_append, List.forall_mem_cons] at hall
      exact List.forall_mem_append.mpr
        ⟨hall.1, List.forall_mem_cons.mpr ⟨(TransactionRow.of_check hc).2, hall.2.2⟩⟩

end

/-- What holds of the balances in every state of a run. -/
theorem inRange_reach {P : Platform} {policy : Policy} {d : Db} {w : policy.World}
    {es : List (Transact.Event (system P policy))} {s : SystemState P policy}
    (h : (State.init d w : SystemState P policy).steps es = some s)
    (hd : InRange d.books) : InRange s.db.books := by
  have hsafe : Safe (system P policy) (contract P.hashtext) (fun d _ _ => InRange d.books)
      fun _ _ => True :=
    { arrive := fun hI _ => ⟨hI, trivial⟩
      env := fun hI _ => hI
      op := fun _ hI _ _ ho hb => by
        subst hb
        exact hI.op ho
      stable := fun _ _ _ _ _ hQ => hQ }
  exact (hsafe.reach (Kept.init hd) (State.reach_abs (store_sound P.hashtext) h)).inv

/-! ## The balance of a pending payment -/

/-- A statement that reads a balance reads the committed one, of the account of a committed
transaction. -/
def ReadsCommitted (q : Stmt) (w : List schema.Write) (d : Db) : Prop :=
  ∀ a c, q = .sumLedger a c → (view d w).balance a c = d.balance a c ∧
    ∃ t ∈ d.transactions.rows, t.accountID = a ∧ t.currency = c

section

variable {hashtext : String → Int} {l : List (DbLock hashtext)} {w : List schema.Write} {d : Db}
  {α : Type} {e : Fault schema → Error}

abbrev Scans (tx : DbTx hashtext α) (l : List (DbLock hashtext)) (w : List schema.Write)
    (d : Db) : Prop :=
  Throughout (dialect hashtext).rely ReadsCommitted tx l w d

/-- A statement that reads no balance. -/
theorem scans_exec {q : Stmt} {k : q.Reply → DbTx hashtext α} (hq : ∀ a c, q ≠ .sumLedger a c)
    (hk : ∀ d' f r, (dialect hashtext).engine.exec q f (view d' w) = .ok r →
      Scans (k r.reply) (l ++ r.locks) (w ++ r.writes) d') : Scans (.exec q e k) l w d :=
  fun d' _ => ⟨fun a c heq => absurd heq (hq a c), hk d'⟩

theorem finalizeTransaction_scans (t : TransactionRow) (decision : Decision) (draws : LedgerDraws)
    (now : Time) : Scans (finalizeTransaction t decision draws now : DbTx hashtext _) l w d := by
  refine scans_exec nofun fun d' f r _ => ?_
  cases hreply : r.reply with
  | none => trivial
  | some row => exact scans_exec nofun fun _ _ _ _ => trivial

/-- The transaction is locked, so its row is still there when the balance is read. -/
theorem settle_scans {delivery : Delivery} {payloadHash : Digest} {event : RiskEvaluated}
    {draws : LedgerDraws} {now : Time} {t : TransactionRow}
    (hlock : rowLock .transactions t.id ∈ l) (hfound : d.transactions.find? t.id = some t) :
    Scans (settle event draws now t : DbTx hashtext _) l
      [claimWrite delivery payloadHash now] d := by
  cases happ : event.approved with
  | false =>
      rw [settle_rejected happ]
      exact finalizeTransaction_scans t _ draws now
  | true =>
      rw [settle_approved happ]
      intro d₁ hd₁
      refine ⟨nofun, fun f r hr => ?_⟩
      cases hr
      intro d₂ hd₂
      refine ⟨?_, fun f r hr => ?_⟩
      · intro a c heq
        cases heq
        have hrel : AgreeOn (L := latches hashtext) l d d₂ :=
          (dialect hashtext).rely.trans hd₁ (hd₂.mono (List.subset_append_left _ _))
        have hrow : d₂.transactions.find? t.id = some t :=
          (hrel.find? (t := .transactions) hlock).symm.trans hfound
        exact ⟨rfl, t, Table.mem_of_find? hrow, rfl, rfl⟩
      · obtain ⟨balance, -, rfl⟩ := Plan.read_ok.mp hr
        beta_reduce
        split
        · exact finalizeTransaction_scans t _ draws now
        · exact scans_exec nofun fun _ _ _ _ => finalizeTransaction_scans t _ draws now

theorem processRiskEvaluated_scans (delivery : Delivery) (payloadHash : Digest)
    (event : RiskEvaluated) (draws : LedgerDraws) (now : Time) (d : Db) :
    Scans (processRiskEvaluated delivery payloadHash event draws now : DbTx hashtext _)
      [] [] d := by
  unfold processRiskEvaluated
  rw [consume_eq]
  refine scans_exec nofun fun d₁ f r hr => ?_
  obtain ⟨_, ⟨_, rfl⟩ | ⟨_, rfl⟩⟩ := Plan.insertOrSkip_ok.mp hr
  · refine scans_exec nofun fun d₂ f r _ => ?_
    cases hreply : r.reply with
    | none => trivial
    | some row =>
        show Scans ((if _ then _ else _) >>= _) _ _ _
        split
        · trivial
        · trivial
  · show Scans (lockPendingTransaction event >>= _) _ _ _
    rw [lockPendingTransaction_bind]
    refine scans_exec nofun fun d₂ f r hr => ?_
    cases Plan.lockRow_ok.mp hr
    show Scans (whenPending event _ (d₂.transactions.find? event.transactionID)) _ _ _
    cases hc : checkPending event (d₂.transactions.find? event.transactionID) with
    | error x =>
        rw [whenPending_error hc]
        trivial
    | ok t =>
        rw [whenPending_ok hc]
        have hfound := (checkPending_ok.mp hc).1
        have hid : t.id = event.transactionID := Table.key_of_find? hfound
        rw [← hid] at hfound ⊢
        refine settle_scans (List.mem_append_right _ ?_) hfound
        show rowLock .transactions t.id ∈
          if (d₂.transactions.find? t.id).isSome then [rowLock .transactions t.id] else []
        rw [hfound]
        exact List.mem_singleton_self _

end

/-! ## Runs -/

/-- What is exact about the balances of a state. -/
structure Exact {P : Platform} {policy : Policy} (s : SystemState P policy) : Prop where
  /-- The balances of customers. -/
  inRange : ∀ accountID currency, accountID ≠ "clearing" → accountID ≠ "external-settlement" →
    0 ≤ s.db.balance accountID currency ∧ s.db.balance accountID currency ≤ 2 ^ 63 - 1
  /-- `ensureAvailableFunds` is about to read a balance: it is read, and it is the balance. -/
  scanned : ∀ (i : Nat) (task : Task (system P policy)) delivery payloadHash event draws now
    (x : Session (dialect P.hashtext).engine Error
      (Call.processRiskEvaluated delivery payloadHash event draws now).Reply) k accountID currency
    onFault next, s.tasks[i]? = some task →
    task.proc = .busy (.processRiskEvaluated delivery payloadHash event draws now) x k →
    x.tx = .exec (.sumLedger accountID currency) onFault next →
    ∀ held, (dialect P.hashtext).engine.exec (.sumLedger accountID currency) held
        (view s.db x.writes) = .ok { reply := s.db.balance accountID currency }
  /-- The balance a deposit returns. -/
  returned : ∀ i deposit event draws now o response,
    (⟨i, .createDeposit deposit event draws now, o⟩ : LogEntry P) ∈ s.log →
    o.reply = .ok response →
    response.balanceAfterCents = (view o.before o.writes).balance deposit.transaction.accountID
        deposit.transaction.currency ∧
      response.balanceAfterCents = Db.balance o.before deposit.transaction.accountID
        deposit.transaction.currency + deposit.transaction.amountCents
  /-- A deposit that would be too much. -/
  refused : ∀ i deposit event draws now o,
    (⟨i, .createDeposit deposit event draws now, o⟩ : LogEntry P) ∈ s.log →
    2 ^ 63 - 1 < Db.balance o.before deposit.transaction.accountID
      deposit.transaction.currency + deposit.transaction.amountCents →
    (∃ e, o.answer = .error e) ∧ o.writes = []

section

variable {hashtext : String → Int} {deposit : Deposit} {event : OutboxEvent}
  {draws : DepositDraws} {now : Time}
  {o : Op (dialect hashtext).engine Error (Call.createDeposit deposit event draws now).Reply}

theorem deposit_returned (h : (contract hashtext).Allows (.createDeposit deposit event draws now) o)
    {response : DepositResponse} (hreply : o.reply = .ok response) :
    response.balanceAfterCents = (view o.before o.writes).balance deposit.transaction.accountID
        deposit.transaction.currency ∧
      response.balanceAfterCents = Db.balance o.before deposit.transaction.accountID
        deposit.transaction.currency + deposit.transaction.amountCents := by
  have hmade : Deposited deposit event draws now o.before response o.writes :=
    @createDeposit_commits hashtext _ _ _ _ _ _ _ (h.spec hreply)
  have hresponse : response.balanceAfterCents = (view o.before o.writes).balance
      deposit.transaction.accountID deposit.transaction.currency := by
    rw [hmade.returned]
    rfl
  exact ⟨hresponse, hresponse.trans hmade.balance⟩

theorem deposit_refused (h : (contract hashtext).Allows (.createDeposit deposit event draws now) o)
    (hmuch : 2 ^ 63 - 1 < Db.balance o.before deposit.transaction.accountID
      deposit.transaction.currency + deposit.transaction.amountCents) :
    (∃ e, o.answer = .error e) ∧ o.writes = [] := by
  obtain ⟨e, he⟩ : ∃ e, o.reply = .error e := by
    cases hreply : o.reply with
    | error e => exact ⟨e, rfl⟩
    | ok response =>
        -- what was returned was read, and is no more than a `bigint`
        have hread := createDeposit_isBigint (h.spec hreply)
        obtain ⟨hafter, hsum⟩ := deposit_returned h hreply
        simp only [isBigint, Bool.and_eq_true, decide_eq_true_eq] at hread
        omega
  constructor
  · cases hanswer : o.answer with
    | error e => exact ⟨e, rfl⟩
    | ok response =>
        rw [h.told hanswer] at he
        cases he
  · exact h.writes_nil (fun hs => Tx.Runs.writes_nil _ hs) he

end

/-- Whatever is deposited and paid, the balances are exact. -/
theorem balances_exact (P : Platform) (policy : Policy) (d : Db) (w : policy.World)
    (hledger : d.ledgerEntries.rows = [])
    (hexternal : ∀ t ∈ d.transactions.rows, reserved t.accountID = false)
    (es : List (Transact.Event (system P policy))) (s : SystemState P policy)
    (h : (State.init d w : SystemState P policy).steps es = some s) : Exact s := by
  have hzero : ∀ a c, d.books.balance a c = 0 := by
    intro a c
    show total d.ledgerEntries.rows a c = 0
    rw [hledger]
    rfl
  have hsolvent : Solvent s.db.books :=
    books_reach (Policy.admits_true P policy) (fun hb _ hs => hb.step hs)
      (fun a c _ => (hzero a c).ge) h
  have hrange : InRange s.db.books := inRange_reach h fun a c _ => (hzero a c).trans_lt (by decide)
  have hcustomers : External s.db.books :=
    books_reach (Policy.admits_true P policy) (fun hb _ hs => hb.step hs) hexternal h
  have htraced := traced_reach (State.reach_abs (store_sound P.hashtext) h)
  refine ⟨?_, ?_, ?_, ?_⟩
  · intro a c hclearing hsettlement
    have ha := reserved_eq_false.mpr ⟨hclearing, hsettlement⟩
    exact ⟨hsolvent a c ha, Int.le_sub_one_of_lt (hrange a c ha)⟩
  · intro i task delivery payloadHash event draws now x k a c onFault next htask hbusy hx held
    have hstart : ∀ c' : Call, c' = .processRiskEvaluated delivery payloadHash event draws now →
        ∀ e tx, methodOf c' = .transaction e tx →
          ∀ d, Throughout (dialect P.hashtext).rely ReadsCommitted tx [] [] d := by
      rintro c' rfl e tx hm d
      cases hm
      exact processRiskEvaluated_scans delivery payloadHash event draws now d
    obtain ⟨hcommitted, t, ht, rfl, rfl⟩ := Throughout.reach
      (fun c' : Call => c' = .processRiskEvaluated delivery payloadHash event draws now)
      (store_sound P.hashtext) hstart h htask hbusy rfl hx a c rfl
    have ha := hcustomers t ht
    have hfits : isBigint ((view s.db x.writes).balance t.accountID t.currency) = true := by
      have hlow : 0 ≤ s.db.balance t.accountID t.currency := hsolvent _ _ ha
      have hhigh : s.db.balance t.accountID t.currency < 2 ^ 63 := hrange _ _ ha
      rw [hcommitted]
      simp only [isBigint, Bool.and_eq_true, decide_eq_true_eq]
      omega
    show (Plan.read (if _ then _ else _) : DbPlan P.hashtext Int).result = _
    rw [if_pos hfits, hcommitted]
    rfl
  · intro i deposit event draws now o response hlog hreply
    exact deposit_returned (htraced.allowed _ hlog) hreply
  · intro i deposit event draws now o hlog hmuch
    exact deposit_refused (htraced.allowed _ hlog) hmuch

/-- The account is filled, and then 5.00 more are deposited. -/
def overfullRun : List (Transact.Event (system .plain (.only ledgerTransactions))) :=
  .arrive (depositOf "1" (2 ^ 63 - 1) (.fill 32 1) (.fill 32 0xa)) ::
    List.replicate 9 (.run 0) ++
    .arrive (depositOf "2" 500 (.fill 32 2) (.fill 32 0xb)) :: List.replicate 5 (.run 1)
where
  depositOf (name : String) (amount : Int) (r r' : Random) : Request :=
    .store (.createDeposit ⟨"key-" ++ name, .fill 64 0, "refill",
        { smallDeposit with
          id := "dep_" ++ name, externalRef := "ref-" ++ name, amountCents := amount }⟩
      (newOutboxEvent .fundsDeposited ("dep_" ++ name) "alice" "trace-1"
        (.fundsDeposited (FundingService.fundsDeposited smallDeposit)) r 0) ⟨r, r', r⟩ 0)

theorem balances_exact_overfull : ∃ s : SystemState .plain (.only ledgerTransactions),
    (State.init Db.empty ()).steps overfullRun = some s ∧ s.log.length = 2 ∧
      s.db.balance "alice" "USD" = 2 ^ 63 - 1 ∧ Exact s := by
  have h : ((State.init Db.empty () : SystemState .plain (.only ledgerTransactions)).steps
      overfullRun).map (fun s => (s.log.length, s.db.balance "alice" "USD")) =
        some (2, 2 ^ 63 - 1) := by
    decide +kernel
  obtain ⟨s, hs, hview⟩ := Option.map_eq_some_iff.mp h
  obtain ⟨hlength, hbalance⟩ := Prod.mk.inj hview
  exact ⟨s, hs, hlength, hbalance,
    balances_exact .plain _ Db.empty () rfl (List.forall_mem_nil _) overfullRun s hs⟩

end Clearance
