/-
# `Clearance.Banking` — the services are a bank

A payment is entered by one service, evaluated by a second and decided by a third; between
them are an outbox, a broker that may deliver a message late, twice or again after years,
and processes that may be gone at any statement.  For all a client can tell this is the
bank of `Bank`, which decides payments one at a time.

    the database           the state of a bank
    create                 request
    createDeposit          deposit, with the balance it returns
    processRiskEvaluated   decide, if the event was not claimed before
    findIdempotency        recall, with what is found
    anything else          nothing

The committed operations of a run, in the order of their commits, are actions of the bank
with the answers the bank gives (`runs_as_bank`), the database stands for the state they
lead to, and what has been announced in the outbox is what the bank has announced, in this
order.  Whoever has been answered was answered by one of the actions of their own call.
-/
import Clearance.Bank
import Clearance.Deposits
import Clearance.Idempotency
import Clearance.Provenance
import Clearance.Ranges
import Clearance.Standing
import Clearance.Transact.Specification

namespace Clearance

open Transact

/-! ## The state of the bank -/

/-- Payments and deposits have keys of their own. -/
inductive RequestKey where
  | payment (key : String)
  | deposit (key : String)
  deriving DecidableEq

/-- What is kept under a key. -/
inductive Receipt where
  | payment (found : FoundKey CreateResponse)
  | deposit (found : FoundKey DepositResponse)
  deriving DecidableEq

abbrev BankState := Bank.State String String String RequestKey Receipt

abbrev BankAction := Bank.Action String String String RequestKey Receipt

def TransactionStatus.status : TransactionStatus → Bank.Status
  | .pending => .pending
  | .authorized => .authorized
  | .failed => .failed

def TransactionRow.money (t : TransactionRow) : Bank.Sum String String :=
  ⟨t.accountID, t.currency, t.amountCents⟩

def Transaction.money (t : Transaction) : Bank.Sum String String :=
  ⟨t.accountID, t.currency, t.amountCents⟩

def TransactionRow.record (t : TransactionRow) : Bank.Record String String :=
  match t.kind with
  | .deposit => .deposit t.money
  | .payment => .payment t.money t.status.status

/-- What is announced; evaluations are between the services. -/
def Event.notice (e : Event) : Option (Bank.Notice String) :=
  match e.type with
  | .transactionCreated => some (.requested e.aggregateID)
  | .fundsDeposited => some (.deposited e.aggregateID)
  | .transactionAuthorized => some (.authorized e.aggregateID)
  | .transactionFailed => some (.failed e.aggregateID)
  | .riskEvaluated => none

/-- What is found under a key, of what is listed. -/
def lookup {ρ κ σ : Type} [DecidableEq κ] (key : ρ → κ) (value : ρ → σ) (l : List ρ) (k : κ) :
    Option σ :=
  (l.find? fun r => decide (key r = k)).map value

/-- The accounts of the service are not shown. -/
def Books.bank (b : Books) : BankState where
  balance a c := if reserved a then 0 else b.balance a c
  record := lookup TransactionRow.id TransactionRow.record b.transactions
  receipt
    | .payment k =>
        lookup IdempotencyRow.key (fun r => .payment ⟨r.requestHash, r.response⟩) b.keys k
    | .deposit k =>
        lookup DepositKeyRow.key (fun r => .deposit ⟨r.requestHash, r.response⟩) b.depositKeys k
  notices := b.events.filterMap Event.notice

/-- The action of an operation that was committed. -/
def Call.bankAction : (c : Call) → Except Error c.Reply → Option BankAction
  | .create record _ _, .ok _ =>
      some (.request record.transaction.id record.transaction.money (.payment record.key)
        (.payment ⟨record.requestHash, record.createResult⟩))
  | .createDeposit deposit _ _ _, .ok response =>
      some (.deposit deposit.transaction.id deposit.transaction.money
        (.deposit deposit.idempotencyKey) (.deposit ⟨deposit.requestHash, response⟩)
        response.balanceAfterCents)
  | .processRiskEvaluated _ _ event _ _, .ok true => some (.decide event.transactionID)
  | .findIdempotency key, .ok found => some (.recall (.payment key) (found.map .payment))
  | .findDepositIdempotency key, .ok found => some (.recall (.deposit key) (found.map .deposit))
  | _, _ => none

/-- The limit is 500.00. -/
@[reducible] def banking (hashtext : String → Int) :
    Specification (dialect hashtext).engine (store hashtext) BankState where
  Action := BankAction
  step := Bank.State.step 50000
  action := Call.bankAction
  view d := (Db.books d).bank

/-! ## Lists of rows -/

section

variable {ρ κ σ : Type} [DecidableEq κ] {key : ρ → κ} {value : ρ → σ} {l : List ρ}

theorem lookup_eq_none {k : κ} (h : ∀ r ∈ l, key r ≠ k) : lookup key value l k = none := by
  rw [lookup, List.find?_eq_none.mpr, Option.map_none]
  simpa using h

theorem lookup_concat {r : ρ} (h : ∀ r' ∈ l, key r' ≠ key r) :
    lookup key value (l ++ [r]) =
      Function.update (lookup key value l) (key r) (some (value r)) := by
  funext k
  rw [lookup, List.find?_append, Option.map_or, Function.update_apply, List.find?_singleton]
  by_cases hk : k = key r
  · subst hk
    have hnone : (l.find? fun r' => decide (key r' = key r)).map value = none := lookup_eq_none h
    simp [hnone]
  · simp [lookup, hk, Ne.symm hk]

/-- A row that is changed where it stands. -/
theorem lookup_middle {l' : List ρ} {r r' : ρ} (hkey : key r' = key r)
    (hnd : ((l ++ r :: l').map key).Nodup) :
    lookup key value (l ++ r' :: l') =
      Function.update (lookup key value (l ++ r :: l')) (key r) (some (value r')) := by
  have hbefore : ∀ x ∈ l, key x ≠ key r := by
    rw [List.map_append, List.map_cons, List.nodup_middle, List.nodup_cons] at hnd
    exact fun x hx heq => hnd.1 (List.mem_append_left _ (List.mem_map.mpr ⟨x, hx, heq⟩))
  funext k
  rw [lookup, List.find?_append, Option.map_or, Function.update_apply, List.find?_cons, hkey]
  by_cases hk : k = key r
  · subst hk
    have hnone : (l.find? fun x => decide (key x = key r)).map value = none :=
      lookup_eq_none hbefore
    simp [hnone]
  · simp [lookup, hk, Ne.symm hk, List.find?_append, Option.map_or]

theorem lookup_of_mem {l' : List ρ} {r : ρ} (hnd : ((l ++ r :: l').map key).Nodup) :
    lookup key value (l ++ r :: l') (key r) = some (value r) := by
  rw [lookup_middle (r := r) rfl hnd, Function.update_self]

end

/-! ## One operation -/

section

variable {b b' : Books}

theorem bank_balance {a : String} (h : reserved a = false) (c : String) :
    b.bank.balance a c = b.balance a c := by
  show (if reserved a then _ else _) = _
  rw [h]
  rfl

/-- Entries on an account of a customer, against an account of the service. -/
theorem bank_moved {id contraID transactionID contra : String} (money : Bank.Sum String String)
    {amount : Int} (haccount : reserved money.account = false) (hcontra : reserved contra = true)
    (hledger : b'.ledger = b.ledger ++
      entries id contraID transactionID money.account contra amount money.currency) :
    b'.bank.balance = b.bank.moved money amount := by
  funext a c
  show (if reserved a then _ else total b'.ledger a c) =
    (if reserved a then 0 else total b.ledger a c) +
      if money.account = a ∧ money.currency = c then amount else 0
  cases ha : reserved a with
  | true =>
      have hne : ¬ (money.account = a ∧ money.currency = c) := by
        rintro ⟨rfl, -⟩
        rw [ha] at haccount
        cases haccount
      rw [if_pos rfl, if_pos rfl, if_neg hne, Int.add_zero]
  | false =>
      have hne : ¬ (contra = a ∧ money.currency = c) := by
        rintro ⟨rfl, -⟩
        rw [ha] at hcontra
        cases hcontra
      rw [if_neg (by decide), if_neg (by decide), hledger, total_append, total_entries, if_neg hne,
        Int.sub_zero]

/-- A transaction is entered. -/
theorem bank_entered {t : TransactionRow} (hid : ∀ t' ∈ b.transactions, t'.id ≠ t.id)
    (h : b'.transactions = b.transactions ++ [t]) :
    b'.bank.record = Function.update b.bank.record t.id (some t.record) := by
  show lookup _ _ b'.transactions = _
  rw [h, lookup_concat hid]
  rfl

/-- The key of a payment is taken. -/
theorem bank_payment_key {r : IdempotencyRow} (hkey : ∀ r' ∈ b.keys, r'.key ≠ r.key)
    (h : b'.keys = b.keys ++ [r]) (hother : b'.depositKeys = b.depositKeys) :
    b'.bank.receipt = Function.update b.bank.receipt (.payment r.key)
      (some (.payment ⟨r.requestHash, r.response⟩)) := by
  funext k
  rw [Function.update_apply]
  cases k with
  | payment k =>
      show lookup _ _ b'.keys k = _
      rw [h, lookup_concat hkey, Function.update_apply]
      simp only [RequestKey.payment.injEq]
      rfl
  | deposit k =>
      rw [if_neg fun heq => by cases heq]
      show lookup _ _ b'.depositKeys k = lookup _ _ b.depositKeys k
      rw [hother]

/-- The key of a deposit is taken. -/
theorem bank_deposit_key {r : DepositKeyRow} (hkey : ∀ r' ∈ b.depositKeys, r'.key ≠ r.key)
    (h : b'.depositKeys = b.depositKeys ++ [r]) (hother : b'.keys = b.keys) :
    b'.bank.receipt = Function.update b.bank.receipt (.deposit r.key)
      (some (.deposit ⟨r.requestHash, r.response⟩)) := by
  funext k
  rw [Function.update_apply]
  cases k with
  | deposit k =>
      show lookup _ _ b'.depositKeys k = _
      rw [h, lookup_concat hkey, Function.update_apply]
      simp only [RequestKey.deposit.injEq]
      rfl
  | payment k =>
      rw [if_neg fun heq => by cases heq]
      show lookup _ _ b'.keys k = lookup _ _ b.keys k
      rw [hother]

theorem bank_notices {e : Event} {n : Bank.Notice String} (h : b'.events = b.events ++ [e])
    (hn : e.notice = some n) : b'.bank.notices = b.bank.notices ++ [n] := by
  show b'.events.filterMap _ = b.events.filterMap _ ++ [n]
  rw [h, List.filterMap_append, List.filterMap_cons_some hn, List.filterMap_nil]

/-- A payment is requested. -/
theorem bank_request {record : IdempotencyRecord} {event : OutboxEvent} {now : Time}
    (hnew : NewPayment record event) (hid : ∀ t ∈ b.transactions, t.id ≠ record.transaction.id)
    (hkey : ∀ k ∈ b.keys, k.key ≠ record.key)
    (hc : Tab.check (t := .transactions) (paymentRow record.transaction now) = none)
    (hb' : b' = { b with
      transactions := b.transactions ++ [paymentRow record.transaction now]
      keys := b.keys ++ [idempotencyRow record]
      events := b.events ++ [event.content] }) :
    b.bank.step 50000 (.request record.transaction.id record.transaction.money (.payment record.key)
      (.payment ⟨record.requestHash, record.createResult⟩)) = some b'.bank := by
  have hrecord : b.bank.record record.transaction.id = none := lookup_eq_none hid
  have hreceipt : b.bank.receipt (.payment record.key) = none := lookup_eq_none hkey
  rw [Bank.State.step, if_pos ⟨hrecord, hreceipt, (TransactionRow.of_check hc).1⟩]
  refine congrArg some (Bank.State.ext (by rw [hb']; rfl) ?_ ?_ ?_)
  · have hrow : (paymentRow record.transaction now).record =
        .payment record.transaction.money .pending :=
      congrArg (fun status => Bank.Record.payment _ (TransactionStatus.status status)) hnew.pending
    have htransactions : b'.transactions =
        b.transactions ++ [paymentRow record.transaction now] := by rw [hb']
    rw [bank_entered (t := paymentRow record.transaction now) hid htransactions, hrow]
    rfl
  · exact (bank_payment_key (r := idempotencyRow record) hkey (by rw [hb']) (by rw [hb'])).symm
  · refine (bank_notices (e := event.content) (by rw [hb']) ?_).symm
    show Event.notice ⟨_, event.type, event.aggregateID, _, _, _⟩ = _
    rw [hnew.type, hnew.aggregate]
    rfl

/-- A deposit is made. -/
theorem bank_deposit {deposit : Deposit} {event : OutboxEvent} {draws : DepositDraws}
    {response : DepositResponse} (hnew : NewDeposit deposit event)
    (hid : ∀ t ∈ b.transactions, t.id ≠ deposit.transaction.id)
    (hkey : ∀ k ∈ b.depositKeys, k.key ≠ deposit.idempotencyKey)
    (hc : Tab.check (t := .transactions) (depositRow deposit.transaction) = none)
    (hresponse : response.balanceAfterCents =
      b.balance deposit.transaction.accountID deposit.transaction.currency +
        deposit.transaction.amountCents)
    (hb' : b' = { b with
      transactions := b.transactions ++ [depositRow deposit.transaction]
      ledger := b.ledger ++ credit deposit.transaction draws
      depositKeys := b.depositKeys ++ [depositKeyRow deposit response]
      events := b.events ++ [event.content]
      depositActions := b.depositActions ++ [depositAction deposit draws] }) :
    b.bank.step 50000 (.deposit deposit.transaction.id deposit.transaction.money
      (.deposit deposit.idempotencyKey) (.deposit ⟨deposit.requestHash, response⟩)
      response.balanceAfterCents) = some b'.bank := by
  obtain ⟨hpositive, hexternal⟩ := TransactionRow.of_check hc
  have hrecord : b.bank.record deposit.transaction.id = none := lookup_eq_none hid
  have hreceipt : b.bank.receipt (.deposit deposit.idempotencyKey) = none := lookup_eq_none hkey
  have hbalance : response.balanceAfterCents =
      b.bank.balance deposit.transaction.accountID deposit.transaction.currency +
        deposit.transaction.amountCents := by
    rw [hresponse, bank_balance (a := deposit.transaction.accountID) hexternal]
  rw [Bank.State.step, if_pos ⟨hrecord, hreceipt, hpositive, hbalance⟩]
  refine congrArg some (Bank.State.ext ?_ ?_ ?_ ?_)
  · have hledger : b'.ledger = b.ledger ++ credit deposit.transaction draws := by rw [hb']
    exact (bank_moved deposit.transaction.money hexternal (by decide) hledger).symm
  · have hrow : (depositRow deposit.transaction).record = .deposit deposit.transaction.money := by
      show (match deposit.transaction.kind with | .deposit => _ | .payment => _) = _
      rw [hnew.kind]
      rfl
    have htransactions : b'.transactions = b.transactions ++ [depositRow deposit.transaction] := by
      rw [hb']
    rw [bank_entered (t := depositRow deposit.transaction) hid htransactions, hrow]
    rfl
  · exact (bank_deposit_key (r := depositKeyRow deposit response) hkey (by rw [hb'])
      (by rw [hb'])).symm
  · refine (bank_notices (e := event.content) (by rw [hb']) ?_).symm
    show Event.notice ⟨_, event.type, event.aggregateID, _, _, _⟩ = _
    rw [hnew.type, hnew.aggregate]
    rfl

/-- A payment is decided. -/
theorem bank_decide {t : TransactionRow} {l₁ l₂ : List TransactionRow} {draws : LedgerDraws}
    {now : Time} {decision : Decision} {claims : List Claim}
    (hnd : (b.transactions.map TransactionRow.id).Nodup) (ht : b.transactions = l₁ ++ t :: l₂)
    (hkind : t.kind = .payment) (hpending : t.status = .pending)
    (hexternal : reserved t.accountID = false)
    (hdec : decision = decisionOf t.evaluation t (b.balance t.accountID t.currency))
    (hb' : b' = { b with
      transactions := l₁ ++ (decision.finalize now).apply t :: l₂
      ledger := b.ledger ++ movedBy decision t draws
      events := b.events ++ [(decision.event t draws now).content]
      claims := claims }) :
    b.bank.step 50000 (.decide t.id) = some b'.bank := by
  have hrecord : b.bank.record t.id = some (.payment t.money .pending) := by
    have hrow : t.record = .payment t.money .pending := by
      rw [TransactionRow.record, hkind, hpending]
      rfl
    show lookup _ _ b.transactions t.id = _
    rw [ht, lookup_of_mem (ht ▸ hnd), hrow]
  have hafter : b'.bank.record = Function.update b.bank.record t.id
      (some (.payment t.money decision.status.status)) := by
    have hrow : ((decision.finalize now).apply t).record =
        .payment t.money decision.status.status := by
      rw [TransactionRow.record]
      show (match t.kind with | .deposit => _ | .payment => _) = _
      rw [hkind]
      rfl
    show lookup _ _ b'.transactions = Function.update (lookup _ _ b.transactions) _ _
    rw [hb', ht, ← hrow]
    exact lookup_middle (r := t) rfl (ht ▸ hnd)
  have hreceipt : b'.bank.receipt = b.bank.receipt := by rw [hb']; rfl
  have hevents : b'.events = b.events ++ [(decision.event t draws now).content] := by rw [hb']
  have hledger : b'.ledger = b.ledger ++ movedBy decision t draws := by rw [hb']
  rw [Bank.State.step, hrecord]
  show (if t.amountCents ≤ 50000 ∧ t.amountCents ≤ b.bank.balance t.accountID t.currency then _
    else _) = _
  rw [bank_balance hexternal]
  by_cases hfunds : t.amountCents ≤ 50000 ∧ t.amountCents ≤ b.balance t.accountID t.currency
  · have hauthorized : decision = ⟨.authorized, .transactionAuthorized, t.evaluation⟩ := by
      have happroved : t.evaluation.approved = true := by
        rw [TransactionRow.evaluation, evaluateRisk, if_neg (not_lt.mpr hfunds.1)]
      rw [hdec, decisionOf, if_pos happroved, if_neg (not_lt.mpr hfunds.2)]
    rw [if_pos hfunds]
    rw [hauthorized] at hafter hledger hevents
    refine congrArg some (Bank.State.ext ?_ hafter.symm hreceipt.symm ?_)
    · exact (bank_moved t.money hexternal (by decide) hledger).symm
    · exact (bank_notices hevents rfl).symm
  · have hfailed : ∃ e, decision = rejected e := by
      rw [hdec, decisionOf]
      split
      · next happroved =>
          split
          · exact ⟨_, rfl⟩
          · next hbalance =>
              -- the risk service has approved of it, so it is within the limit
              refine absurd ⟨?_, not_lt.mp hbalance⟩ hfunds
              by_contra hlimit
              rw [TransactionRow.evaluation, evaluateRisk, if_pos (not_le.mp hlimit)] at happroved
              cases happroved
      · exact ⟨_, rfl⟩
    obtain ⟨e, rfl⟩ := hfailed
    rw [if_neg hfunds]
    refine congrArg some (Bank.State.ext ?_ hafter.symm hreceipt.symm ?_)
    · funext a c
      show (if reserved a then 0 else total b.ledger a c) =
        if reserved a then 0 else total b'.ledger a c
      rw [hledger]
      exact congrArg (fun l => if reserved a then 0 else total l a c) (List.append_nil _).symm
    · exact (bank_notices hevents rfl).symm

/-- Operations that have no action, and no business with money. -/
theorem Books.Step.bank_eq {c : Call} (hs : b.Step c b') (hc : c.Proper)
    (hcreate : ∀ record event now, c ≠ .create record event now)
    (hdeposit : ∀ deposit event draws now, c ≠ .createDeposit deposit event draws now)
    (hsettle : ∀ delivery hash event draws now,
      c ≠ .processRiskEvaluated delivery hash event draws now) : b'.bank = b.bank := by
  cases hs with
  | idle => rfl
  | pruned _ => rfl
  | created _ _ _ _ => exact absurd rfl (hcreate _ _ _)
  | deposited _ _ _ _ _ => exact absurd rfl (hdeposit _ _ _ _)
  | settled _ _ _ _ _ _ _ => exact absurd rfl (hsettle _ _ _ _ _)
  | @evaluated _ _ event _ _ _ =>
      refine Bank.State.ext rfl rfl rfl ?_
      have hnone : event.content.notice = none := by
        show Event.notice ⟨_, event.type, _, _, _, _⟩ = none
        rw [NewEvaluation.type hc]
        rfl
      show (b.events ++ [event.content]).filterMap _ = b.events.filterMap _
      rw [List.filterMap_append, List.filterMap_cons_none hnone, List.filterMap_nil,
        List.append_nil]

end

section

variable {hashtext : String → Int} {d : Db} {w : List schema.Write}

/-- An event more is something that happened. -/
theorem books_ne_of_standing {δ : Change} (h : (view d w).standing = d.standing.apply δ) :
    (view d w).books ≠ d.books := by
  intro heq
  have hcard : (view d w).outboxEvents.rows.length = d.outboxEvents.rows.length + 1 := by
    simpa [Db.standing, Standing.apply] using congrArg (fun v => Multiset.card v.events) h
  have hlength : (view d w).outboxEvents.rows.length = d.outboxEvents.rows.length := by
    simpa [Db.books] using congrArg (fun b => b.events.length) heq
  omega

theorem Created.books_ne {record : IdempotencyRecord} {event : OutboxEvent} {now : Time}
    (h : Created record event now d w) : (view d w).books ≠ d.books := by
  intro heq
  have hrows : (view d w).transactions.rows = d.transactions.rows :=
    congrArg Books.transactions heq
  have hinsert : (view d w).transactions.rows =
      d.transactions.rows ++ [paymentRow record.transaction now] := by
    rw [h.writes]
    exact Table.rows_insert h.freshTransaction
  rw [hinsert] at hrows
  simp at hrows

/-- What is committed is what the bank would do. -/
theorem Created.follows {record : IdempotencyRecord} {event : OutboxEvent} {now : Time}
    (h : Created record event now d w) (hnew : NewPayment record event) :
    d.books.bank.step 50000 (.request record.transaction.id record.transaction.money
      (.payment record.key) (.payment ⟨record.requestHash, record.createResult⟩)) =
      some (view d w).books.bank := by
  have hstep := h.step
  have hne := h.books_ne
  generalize (view d w).books = b' at hstep hne
  cases hstep with
  | idle => exact absurd rfl hne
  | created hid hkey _ hc => exact bank_request hnew hid hkey hc rfl

theorem Deposited.follows {deposit : Deposit} {event : OutboxEvent} {draws : DepositDraws}
    {now : Time} {response : DepositResponse} (h : Deposited deposit event draws now d response w)
    (hnew : NewDeposit deposit event) :
    d.books.bank.step 50000 (.deposit deposit.transaction.id deposit.transaction.money
      (.deposit deposit.idempotencyKey) (.deposit ⟨deposit.requestHash, response⟩)
      response.balanceAfterCents) = some (view d w).books.bank := by
  have hbalance : response.balanceAfterCents =
      d.books.balance deposit.transaction.accountID deposit.transaction.currency +
        deposit.transaction.amountCents :=
    (congrArg DepositResponse.balanceAfterCents h.returned).trans h.balance
  have hkeys : (view d w).books.depositKeys =
      d.books.depositKeys ++ [depositKeyRow deposit response] := by
    rw [h.writes]
    exact Table.rows_insert h.freshKey
  have hstep := h.step
  have hne := books_ne_of_standing h.standing
  generalize (view d w).books = b' at hstep hne hkeys
  cases hstep with
  | idle => exact absurd rfl hne
  | @deposited _ _ _ _ response' hid _ hkey _ hc =>
      -- the rule of the books does not say which response is kept
      obtain rfl : response' = response := by
        have hrow := List.append_cancel_left hkeys
        injection hrow with hrow
        exact congrArg DepositKeyRow.response hrow
      exact bank_deposit hnew hid hkey hc hbalance rfl

theorem Settled.follows {delivery : Delivery} {payloadHash : Digest} {event : RiskEvaluated}
    {draws : LedgerDraws} {now : Time} {t : TransactionRow} {P : Platform}
    (h : Settled delivery payloadHash event draws now d t w) (hP : P.Truthful)
    (hbalanced : Balanced d.books) (hrouted : Routed d.books)
    (hc : (Call.processRiskEvaluated delivery payloadHash event draws now).Honest P d.books) :
    d.books.bank.step 50000 (.decide event.transactionID) = some (view d w).books.bank := by
  obtain ⟨x, hx, htype, -, -, -, hdecode⟩ := hc
  obtain ⟨t', ht', -, rfl⟩ := hrouted.evaluation hP hx htype hdecode
  have hstep := h.step
  have hne := books_ne_of_standing h.standing
  generalize (view d w).books = b' at hstep hne
  cases hstep with
  | idle => exact absurd rfl hne
  | @settled _ _ _ _ _ _ _ t'' decision _ _ ht hid hpending hdec _ =>
      have hmem : t'' ∈ d.books.transactions := ht ▸ List.mem_append_right _ List.mem_cons_self
      obtain rfl : t'' = t' := hrouted.eq_of_id hmem ht' hid
      exact bank_decide hrouted.distinct ht (hbalanced.payment_of_pending hmem hpending) hpending
        (hbalanced.external _ hmem) hdec rfl

theorem Refreshed.bank_eq {delivery : Delivery} {payloadHash : Digest} {now : Time}
    (h : Refreshed delivery payloadHash now d w) : (view d w).books.bank = d.books.bank := by
  rw [h.books_eq]

/-- Every operation of the services follows the bank. -/
theorem follows_bank {P : Platform} (hP : P.Truthful) {c : Call}
    {o : Op (dialect P.hashtext).engine Error c.Reply} (hbalanced : Balanced (Db.books o.before))
    (hrouted : Routed (Db.books o.before)) (hc : c.Honest P (Db.books o.before))
    (ho : (contract P.hashtext).Allows c o) : (banking P.hashtext).Follows o := by
  have hnothing : (banking P.hashtext).action c o.reply = none → o.writes = [] →
      (banking P.hashtext).Follows o := by
    intro hnone hw
    refine .of_none hnone ?_
    rw [hw]
    rfl
  cases c with
  | create record event now =>
      cases hreply : o.reply with
      | ok u =>
          have hcreated : Created record event now o.before o.writes :=
            create_commits (ho.spec hreply)
          exact .of_action (by rw [hreply]; rfl) (hcreated.follows hc.proper)
      | error e =>
          refine hnothing (by rw [hreply]; rfl) (ho.writes_nil ?_ hreply)
          exact fun h => Tx.Runs.writes_nil _ h
  | createDeposit deposit event draws now =>
      cases hreply : o.reply with
      | ok response =>
          have hdeposited : Deposited deposit event draws now o.before response o.writes :=
            createDeposit_commits (ho.spec hreply)
          exact .of_action (by rw [hreply]; rfl) (hdeposited.follows hc.proper)
      | error e =>
          refine hnothing (by rw [hreply]; rfl) (ho.writes_nil ?_ hreply)
          exact fun h => Tx.Runs.writes_nil _ h
  | processRiskEvaluated delivery payloadHash event draws now =>
      cases hreply : o.reply with
      | ok fresh =>
          rcases ho.spec hreply with hcommits | ⟨_, he, _⟩
          · rcases processRiskEvaluated_commits hcommits with ⟨rfl, t, hsettled⟩ | ⟨rfl, hrefreshed⟩
            · exact .of_action (by rw [hreply]; rfl) (hsettled.follows hP hbalanced hrouted hc)
            · exact .of_none (by rw [hreply]; rfl) hrefreshed.bank_eq
          · cases he
      | error e =>
          refine hnothing (by rw [hreply]; rfl) (ho.writes_nil ?_ hreply)
          rintro _ _ _ (h | ⟨_, _, hw, _⟩)
          · exact Tx.Runs.writes_nil _ h
          · exact hw
  | findIdempotency key =>
      have hw : o.writes = [] := TransactionService.find_writes ho
      cases hreply : o.reply with
      | error e => exact hnothing (by rw [hreply]; rfl) hw
      | ok found =>
          obtain ⟨_, hfound, -⟩ := ho.spec hreply
          have hreceipt : found.map Receipt.payment =
              (Db.books o.before).bank.receipt (.payment key) :=
            (congrArg (Option.map Receipt.payment) (Except.ok.inj hfound)).trans (Option.map_map ..)
          refine .of_action (by rw [hreply]; rfl) ?_
          rw [hw]
          exact if_pos hreceipt
  | findDepositIdempotency key =>
      have hw : o.writes = [] := FundingService.find_writes ho
      cases hreply : o.reply with
      | error e => exact hnothing (by rw [hreply]; rfl) hw
      | ok found =>
          obtain ⟨_, hfound, -⟩ := ho.spec hreply
          have hreceipt : found.map Receipt.deposit =
              (Db.books o.before).bank.receipt (.deposit key) :=
            (congrArg (Option.map Receipt.deposit) (Except.ok.inj hfound)).trans (Option.map_map ..)
          refine .of_action (by rw [hreply]; rfl) ?_
          rw [hw]
          exact if_pos hreceipt
  | _ =>
      refine .of_none ?_ ((allows_outcome ho).step.bank_eq hc.proper ?_ ?_ ?_)
      · rfl
      · exact fun _ _ _ h => by cases h
      · exact fun _ _ _ _ h => by cases h
      · exact fun _ _ _ _ _ h => by cases h

end

/-! ## Whole runs -/

section

variable {P : Platform} {policy : Policy} {s : SystemState P policy} {i : Nat}

/-- The bank has answered the call of a client. -/
def Gave (s : SystemState P policy) (i : Nat) (key : RequestKey) (receipt : Receipt) : Prop :=
  ∃ a ∈ (banking P.hashtext).history (own i s.log), a.given = some (key, receipt)

theorem Gave.of_mem {e : LogEntry P} {a : BankAction} {key : RequestKey} {receipt : Receipt}
    (he : e ∈ own i s.log) (ha : e.call.bankAction e.op.reply = some a)
    (hgiven : a.given = some (key, receipt)) : Gave s i key receipt :=
  ⟨a, List.mem_filterMap.mpr ⟨e, he, ha⟩, hgiven⟩

namespace TransactionService

variable {key : String} {request : CreateRequest} {response : CreateResponse}

/-- The key was looked up. -/
theorem gave_found {find : Op (dialect P.hashtext).engine Error (Call.findIdempotency key).Reply}
    {existing : FoundKey CreateResponse} {conflict : Error}
    (htraced : Traced (contract P.hashtext) s.abs)
    (he : (⟨i, .findIdempotency key, find⟩ : LogEntry P) ∈ own i s.log)
    (hfind : find.answer = .ok (some existing))
    (hmet : metResult P request existing conflict = .ok response) :
    Gave s i (.payment key) (.payment ⟨hashRequest P request, response⟩) := by
  obtain ⟨hhash, rfl⟩ := metResult_ok hmet
  have hreply := (htraced.allowed _ (mem_of_own he)).told hfind
  refine .of_mem he (congrArg (Call.bankAction (.findIdempotency key)) hreply) ?_
  rw [← hhash]
  rfl

/-- A client whose payment was accepted has got the receipt of the bank. -/
theorem gave_response (htraced : Traced (contract P.hashtext) s.abs) (hasks : Asks s i key request)
    (hreturned : Returned s i (.ok response)) :
    Gave s i (.payment key) (.payment ⟨hashRequest P request, response⟩) := by
  obtain ⟨metadata, draws, rfl, -, htrace⟩ := hasks.trace_ok htraced hreturned
  generalize hg : own i s.log = g at htrace
  generalize hq : (.ret (.ok response) : Service P (Except Error CreateResponse)) = q at htrace
  cases htrace with
  | begun => cases hq
  | unfound _ => cases hq
  | free _ => cases hq
  | failed _ _ _ => cases hq
  | beaten _ _ _ => cases hq
  | met hfind =>
      refine gave_found htraced ?_ hfind (Svc.ret.inj hq).symm
      rw [hg]
      exact List.mem_cons_self
  | @created find insert _ hinsert =>
      cases hq
      have he : (⟨i, createCall P request metadata draws, insert⟩ : LogEntry P) ∈ own i s.log := by
        rw [hg]
        exact List.mem_cons_of_mem _ List.mem_cons_self
      have hreply := (htraced.allowed _ (mem_of_own he)).told hinsert
      exact .of_mem he (congrArg (Call.bankAction (.create _ _ _)) hreply) rfl
  | @raced _ _ e again _ _ _ =>
      have hresult : racedResult P request e again.answer = .ok response := (Svc.ret.inj hq).symm
      cases hagain : again.answer with
      | error e' =>
          rw [hagain] at hresult
          cases hresult
      | ok found =>
          rw [hagain] at hresult
          cases found with
          | none => cases hresult
          | some existing =>
              refine gave_found htraced ?_ hagain hresult
              rw [hg]
              exact List.mem_cons_of_mem _ (List.mem_cons_of_mem _ List.mem_cons_self)

end TransactionService

namespace FundingService

variable {key : String} {request : DepositRequest} {response : DepositResponse}

/-- The key was looked up. -/
theorem gave_found
    {find : Op (dialect P.hashtext).engine Error (Call.findDepositIdempotency key).Reply}
    {existing : FoundKey DepositResponse} (htraced : Traced (contract P.hashtext) s.abs)
    (he : (⟨i, .findDepositIdempotency key, find⟩ : LogEntry P) ∈ own i s.log)
    (hfind : find.answer = .ok (some existing))
    (hmet : metResult P request existing = .ok response) :
    Gave s i (.deposit key) (.deposit ⟨hashRequest P request, response⟩) := by
  obtain ⟨hhash, rfl⟩ := metResult_ok hmet
  have hreply := (htraced.allowed _ (mem_of_own he)).told hfind
  refine .of_mem he (congrArg (Call.bankAction (.findDepositIdempotency key)) hreply) ?_
  rw [← hhash]
  rfl

/-- A client whose deposit was made has got the receipt of the bank. -/
theorem gave_response (htraced : Traced (contract P.hashtext) s.abs) (hasks : Asks s i key request)
    (hreturned : Returned s i (.ok response)) :
    Gave s i (.deposit key) (.deposit ⟨hashRequest P request, response⟩) := by
  obtain ⟨_, metadata, draws, rfl, -, htrace⟩ := hasks.trace htraced hreturned
  generalize hg : own i s.log = g at htrace
  generalize hq : (.ret (.ok response) : Service P (Except Error DepositResponse)) = q at htrace
  cases htrace with
  | begun => cases hq
  | unfound _ => cases hq
  | free _ => cases hq
  | failed _ _ _ => cases hq
  | beaten _ _ _ => cases hq
  | met hfind =>
      refine gave_found htraced ?_ hfind (Svc.ret.inj hq).symm
      rw [hg]
      exact List.mem_cons_self
  | @created find insert _ _ hinsert =>
      cases hq
      have he : (⟨i, depositCall P request metadata draws, insert⟩ : LogEntry P) ∈ own i s.log := by
        rw [hg]
        exact List.mem_cons_of_mem _ List.mem_cons_self
      have hreply := (htraced.allowed _ (mem_of_own he)).told hinsert
      exact .of_mem he (congrArg (Call.bankAction (.createDeposit _ _ _ _)) hreply) rfl
  | @raced _ _ e again _ _ _ =>
      have hresult : racedResult P request e again.answer = .ok response := (Svc.ret.inj hq).symm
      cases hagain : again.answer with
      | error e' =>
          rw [hagain] at hresult
          cases hresult
      | ok found =>
          rw [hagain] at hresult
          cases found with
          | none => cases hresult
          | some existing =>
              refine gave_found htraced ?_ hagain hresult
              rw [hg]
              exact List.mem_cons_of_mem _ (List.mem_cons_of_mem _ List.mem_cons_self)

end FundingService

end

theorem bank_empty : Db.empty.books.bank = Bank.State.empty := by
  refine Bank.State.ext ?_ rfl ?_ rfl
  · funext a c
    exact ite_self _
  · funext k
    cases k <;> rfl

/-- What a run looks like from outside. -/
structure AsBank {P : Platform} {policy : Policy} (s : SystemState P policy) : Prop where
  /-- What was committed is what the bank would have done, one thing after the other. -/
  replayed : (banking P.hashtext).replay Bank.State.empty ((banking P.hashtext).history s.log) =
    some s.db.books.bank
  /-- Whoever was answered, was answered by the bank. -/
  payments : ∀ i key request response, TransactionService.Asks s i key request →
    TransactionService.Returned s i (.ok response) →
    Gave s i (.payment key) (.payment ⟨TransactionService.hashRequest P request, response⟩)
  deposits : ∀ i key request response, FundingService.Asks s i key request →
    FundingService.Returned s i (.ok response) →
    Gave s i (.deposit key) (.deposit ⟨FundingService.hashRequest P request, response⟩)

/-- However calls, consumers, publishers and operators are interleaved, and whatever is
delivered again, the services are a bank. -/
theorem runs_as_bank (P : Platform) (hP : P.Truthful)
    (es : List (Transact.Event (system P (.honest P anything))))
    (s : SystemState P (.honest P anything))
    (h : (State.init Db.empty [] : SystemState P (.honest P anything)).steps es = some s) :
    AsBank s := by
  have hreach := State.reach_abs (store_sound P.hashtext) h
  have hsafe := @honest_safe P anything (fun _ => True) (fun b => Balanced b ∧ Routed b)
    (fun _ _ => trivial) fun hb _ hc hs => ⟨hb.1.step hc.proper hs, hb.2.step hP hc hs⟩
  refine ⟨?_, fun _ _ _ _ => TransactionService.gave_response (traced_reach hreach),
    fun _ _ _ _ => FundingService.gave_response (traced_reach hreach)⟩
  rw [← bank_empty]
  refine hsafe.replays (Z := banking P.hashtext) ?_
    ⟨Topics.empty, ⟨Balanced.empty, Routed.empty⟩, List.forall_mem_nil _⟩ hreach
  rintro d topics g r c o ⟨-, ⟨hbalanced, hrouted⟩, -⟩ ⟨-, hcopied⟩ hcalls ho rfl
  exact follows_bank hP hbalanced hrouted ((Request.makes hcalls).honest hcopied) ho

/-- A deposit of 7.00, and a payment of 5.00 that goes all the way. -/
theorem runs_as_bank_authorized : ∃ s : SystemState .framed (.honest .framed anything),
    (State.init Db.empty []).steps (gateRun anything) = some s ∧
      ((banking Platform.framed.hashtext).history s.log).length = 5 ∧
      s.db.books.bank.balance "alice" "USD" = 200 ∧
      s.db.books.bank.notices = [.deposited (newID "dep" (.fill 32 9)),
        .requested (newID "txn" (.fill 32 0)), .authorized (newID "txn" (.fill 32 0))] ∧
      AsBank s := by
  have h : ((State.init Db.empty [] : SystemState .framed (.honest .framed anything)).steps
      (gateRun anything)).map (fun s =>
        (((banking Platform.framed.hashtext).history s.log).length,
          s.db.books.bank.balance "alice" "USD", s.db.books.bank.notices)) =
        some (5, 200, [.deposited (newID "dep" (.fill 32 9)),
          .requested (newID "txn" (.fill 32 0)), .authorized (newID "txn" (.fill 32 0))]) := by
    decide +kernel
  obtain ⟨s, hs, hview⟩ := Option.map_eq_some_iff.mp h
  obtain ⟨hlength, hview⟩ := Prod.mk.inj hview
  obtain ⟨hbalance, hnotices⟩ := Prod.mk.inj hview
  exact ⟨s, hs, hlength, hbalance, hnotices,
    runs_as_bank .framed Platform.framed_faithful.truthful (gateRun anything) s hs⟩

end Clearance
