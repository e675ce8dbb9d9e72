/-
# `Clearance.Serial` — deposits and authorizations are serializable

`CreateDeposit` and `ProcessRiskEvaluated` read a balance in one statement and write
entries in another, at READ COMMITTED.  Still, the transactions that commit do what
they would have done one at a time in the order of their commits (`serializable`):
the advisory lock keeps every balance that was read as it was.
-/
import Clearance.Accounts
import Clearance.Transact.Serial

namespace Clearance

open Transact

section

variable {hashtext : String → Int}

/-- Statements that do not skip locked rows do not look at locks. -/
theorem exec_quiet {s : Stmt} (h : s.skips = false) (f g : DbLock hashtext → Bool) (d : Db) :
    (dialect hashtext).engine.exec s f d = (dialect hashtext).engine.exec s g d :=
  congrArg Plan.result (Stmt.plan_quiet h f g d)

abbrev QuietTx {α : Type} (tx : DbTx hashtext α) : Prop := tx.Quiet (dialect hashtext).engine

theorem createDeposit_quiet (deposit : Deposit) (event : OutboxEvent) (draws : DepositDraws)
    (now : Time) : QuietTx (createDeposit deposit event draws now : DbTx hashtext _) :=
  ⟨exec_quiet rfl, fun _ => ⟨exec_quiet rfl, fun _ => ⟨exec_quiet rfl, fun _ =>
    ⟨exec_quiet rfl, fun _ => ⟨exec_quiet rfl, fun _ => ⟨exec_quiet rfl, fun _ =>
      ⟨exec_quiet rfl, fun _ => trivial⟩⟩⟩⟩⟩⟩⟩

theorem finalizeTransaction_quiet (t : TransactionRow) (decision : Decision)
    (draws : LedgerDraws) (now : Time) :
    QuietTx (finalizeTransaction t decision draws now : DbTx hashtext _) := by
  refine ⟨exec_quiet rfl, fun row => ?_⟩
  cases row with
  | none => trivial
  | some row => exact ⟨exec_quiet rfl, fun _ => trivial⟩

theorem settle_quiet (event : RiskEvaluated) (draws : LedgerDraws) (now : Time)
    (t : TransactionRow) : QuietTx (settle event draws now t : DbTx hashtext _) := by
  cases happ : event.approved with
  | false => rw [settle_rejected happ]; exact finalizeTransaction_quiet t _ draws now
  | true =>
      rw [settle_approved happ]
      refine ⟨exec_quiet rfl, fun _ => ⟨exec_quiet rfl, fun balance => ?_⟩⟩
      beta_reduce
      split
      · exact finalizeTransaction_quiet t _ draws now
      · exact ⟨exec_quiet rfl, fun _ => finalizeTransaction_quiet t _ draws now⟩

theorem consume_quiet {delivery : Delivery} {payloadHash : Digest} {now : Time}
    {duplicate : String} {work : DbTx hashtext (DbCommit hashtext Bool)} (hwork : QuietTx work) :
    QuietTx (consume delivery payloadHash now duplicate work) := by
  rw [consume_eq]
  refine ⟨exec_quiet rfl, fun claimed => ?_⟩
  cases claimed with
  | true => exact hwork
  | false =>
      refine ⟨exec_quiet rfl, fun row => ?_⟩
      cases row with
      | none => trivial
      | some row =>
          show Tx.Quiet _ ((if _ then _ else _) >>= _)
          split
          · trivial
          · trivial

theorem processRiskEvaluated_quiet (delivery : Delivery) (payloadHash : Digest)
    (event : RiskEvaluated) (draws : LedgerDraws) (now : Time) :
    QuietTx (processRiskEvaluated delivery payloadHash event draws now : DbTx hashtext _) := by
  refine consume_quiet ?_
  rw [lockPendingTransaction_bind]
  refine ⟨exec_quiet rfl, fun r => ?_⟩
  cases hc : checkPending event r with
  | error e => rw [whenPending_error hc]; trivial
  | ok t => rw [whenPending_ok hc]; exact settle_quiet event draws now t

/-- What a quiet transaction commits, it commits alone. -/
theorem Commits.solo {α : Type} {tx : DbTx hashtext (DbCommit hashtext α)} {d : Db} {a : α}
    {w : List schema.Write} (hq : QuietTx tx) (h : Commits tx d [] a w) (message : String) :
    (inTransaction message tx).solo (dialect hashtext).engine d =
      (.ok a, (dialect hashtext).engine.view d w) := by
  have hsolo := (Tx.runs_iff_solo (dialect hashtext).engine hq).mp h
  show (let o := Tx.outcome _ (tx.solo _ d []); (o.1, (dialect hashtext).engine.view d o.2)) = _
  rw [hsolo]

theorem createDeposit_serializes (deposit : Deposit) (event : OutboxEvent)
    (draws : DepositDraws) (now : Time) :
    Serializes (contract hashtext) (.createDeposit deposit event draws now) where
  alone h := Commits.solo (createDeposit_quiet deposit event draws now) h _
  nothing h := Tx.Runs.writes_nil _ h

theorem processRiskEvaluated_serializes (delivery : Delivery) (payloadHash : Digest)
    (event : RiskEvaluated) (draws : LedgerDraws) (now : Time) :
    Serializes (contract hashtext)
      (.processRiskEvaluated delivery payloadHash event draws now) where
  alone := by
    rintro d a w (h | ⟨_, he, _⟩)
    · exact Commits.solo (processRiskEvaluated_quiet delivery payloadHash event draws now) h _
    · cases he
  nothing := by
    rintro d e w (h | ⟨_, _, hw, _⟩)
    · exact Tx.Runs.writes_nil _ h
    · exact hw

theorem ledgerTransactions_serialize {P : Platform} {r : Request} {c : Call}
    (hr : ledgerTransactions r = true) (hc : (r.program P).Calls c) :
    Serializes (contract P.hashtext) c := by
  cases r with
  | store c' =>
      have hcc : c = c' := by
        cases hc with
        | here => rfl
        | later r h => exact (calls_ret h).elim
      subst hcc
      cases c with
      | createDeposit deposit event draws now =>
          exact createDeposit_serializes deposit event draws now
      | processRiskEvaluated delivery payloadHash event draws now =>
          exact processRiskEvaluated_serializes delivery payloadHash event draws now
      | _ => cases hr
  | _ => cases hr

end

/-- The transactions that commit, run one at a time in the order of their commits, reach
the same database and return the same values.  The balance a deposit returns is the
balance right after its commit. -/
theorem serializable (P : Platform) (d : Db)
    (es : List (Transact.Event (system P (.only ledgerTransactions))))
    (s : SystemState P (.only ledgerTransactions))
    (h : (State.init d () : SystemState P (.only ledgerTransactions)).steps es = some s) :
    serial (dialect P.hashtext).engine (store P.hashtext) d ((committed s.log).map Entry.call) =
        ((committed s.log).map Entry.returned, s.db) ∧
      ∀ e deposit event draws now response, s.log.getLast? = some e →
        e.returned = ⟨.createDeposit deposit event draws now, .ok response⟩ →
        response.balanceAfterCents =
          s.db.balance deposit.transaction.accountID deposit.transaction.currency := by
  have hreach := State.reach_abs (store_sound P.hashtext) h
  refine ⟨serial_reach (fun hw hc =>
    ledgerTransactions_serialize (Policy.accept_only (w := ()) hw) hc) hreach, ?_⟩
  rintro ⟨i, c, o⟩ deposit event draws now response he hret
  obtain ⟨ho, hdb⟩ := last_reach hreach he
  obtain ⟨rfl, hreply⟩ := Sigma.mk.inj_iff.mp hret
  have hdep : Deposited deposit event draws now o.before response o.writes :=
    @createDeposit_commits P.hashtext _ _ _ _ _ _ _ (ho.spec (eq_of_heq hreply))
  have hdb : s.db = view o.before o.writes := hdb
  rw [hdep.returned, hdb]
  rfl

/-- Two deposits to one account, their statements interleaved: the second waits for the
lock, and both are committed. -/
def twoDepositsRun : List (Transact.Event (system .plain (.only ledgerTransactions))) :=
  [.arrive (depositOf "1" (.fill 32 1) (.fill 32 0xa)),
   .arrive (depositOf "2" (.fill 32 2) (.fill 32 0xb)), .run 0, .run 1, .run 0, .run 0] ++
    List.replicate 6 (.run 0) ++ List.replicate 8 (.run 1)
where
  depositOf (name : String) (r r' : Random) : Request :=
    .store (.createDeposit ⟨"key-" ++ name, .fill 64 0, "refill",
        { smallDeposit with id := "dep_" ++ name, externalRef := "ref-" ++ name }⟩
      (newOutboxEvent .fundsDeposited ("dep_" ++ name) "alice" "trace-1"
        (.fundsDeposited (FundingService.fundsDeposited smallDeposit)) r 0) ⟨r, r', r⟩ 0)

theorem serializable_twoDeposits : ∃ s : SystemState .plain (.only ledgerTransactions),
    (State.init Db.empty ()).steps twoDepositsRun = some s ∧ (committed s.log).length = 2 ∧
      (serial (dialect Platform.plain.hashtext).engine (store Platform.plain.hashtext) Db.empty
        ((committed s.log).map Entry.call)).2 = s.db := by
  have h : ((State.init Db.empty () : SystemState .plain (.only ledgerTransactions)).steps
      twoDepositsRun).map (fun s => (committed s.log).length) = some 2 := by
    decide +kernel
  obtain ⟨s, hs, hlen⟩ := Option.map_eq_some_iff.mp h
  exact ⟨s, hs, hlen,
    congrArg Prod.snd (serializable .plain Db.empty twoDepositsRun s hs).1⟩

end Clearance
