/-
# `Clearance.Postgres.Contract` — what callers of the store may rely on

`contract` says what every method of `postgres.Store` may return and write, given
the committed database of the moment it ends, and `store_sound` that the methods
keep to it in every interleaving.  With it `Transact.Atomic` applies, and the rest
of the development looks at whole operations only.

An outage of the database surfaces as an error of the driver (`IsOutage`), which
is none of the errors callers compare with.
-/
import Clearance.Postgres.Replay

namespace Clearance

open Transact

section

variable {hashtext : String → Int}

/-! ## Outages -/

/-- The errors of a lost connection. -/
def IsOutage (e : Error) : Prop := ∃ message, e = failing message .outage

theorem IsOutage.of_failing (message : String) : IsOutage (failing message .outage) :=
  ⟨message, rfl⟩

theorem IsOutage.is_eq_false {e : Error} (h : IsOutage e) (s : Sentinel) : e.is s = false := by
  obtain ⟨_, rfl⟩ := h
  rfl

/-- An outage during the transaction is reported as one. -/
abbrev ReportsOutage {α : Type} (tx : DbTx hashtext (DbCommit hashtext α)) : Prop :=
  tx.FaultsIn (dialect hashtext).engine IsOutage fun c =>
    IsOutage (c.onFault (dialect hashtext).engine.outage)

theorem create_outage (record : IdempotencyRecord) (event : OutboxEvent) (now : Time) :
    ReportsOutage (create record event now : DbTx hashtext _) :=
  ⟨⟨_, rfl⟩, fun _ => ⟨⟨_, rfl⟩, fun _ => ⟨⟨_, rfl⟩, fun _ => ⟨_, rfl⟩⟩⟩⟩

theorem createDeposit_outage (deposit : Deposit) (event : OutboxEvent) (draws : DepositDraws)
    (now : Time) : ReportsOutage (createDeposit deposit event draws now : DbTx hashtext _) :=
  ⟨⟨_, rfl⟩, fun _ => ⟨⟨_, rfl⟩, fun _ => ⟨⟨_, rfl⟩, fun _ => ⟨⟨_, rfl⟩, fun _ => ⟨⟨_, rfl⟩, fun _ => ⟨⟨_, rfl⟩, fun _ =>
    ⟨⟨_, rfl⟩, fun _ => ⟨_, rfl⟩⟩⟩⟩⟩⟩⟩⟩

theorem consume_outage {delivery : Delivery} {payloadHash : Digest} {now : Time}
    {duplicate : String} {work : DbTx hashtext (DbCommit hashtext Bool)}
    (hwork : ReportsOutage work) :
    ReportsOutage (consume delivery payloadHash now duplicate work) := by
  rw [consume_eq]
  refine ⟨⟨_, rfl⟩, fun claimed => ?_⟩
  cases claimed with
  | true => exact hwork
  | false =>
      refine ⟨⟨_, rfl⟩, fun row => ?_⟩
      cases row with
      | none => trivial
      | some row =>
          show Tx.FaultsIn _ _ _ ((if _ then _ else _) >>= _)
          split
          · trivial
          · exact ⟨_, rfl⟩

theorem finalizeTransaction_outage (t : TransactionRow) (decision : Decision)
    (draws : LedgerDraws) (now : Time) :
    ReportsOutage (finalizeTransaction t decision draws now : DbTx hashtext _) := by
  refine ⟨⟨_, rfl⟩, fun row => ?_⟩
  cases row with
  | none => trivial
  | some row => exact ⟨⟨_, rfl⟩, fun _ => ⟨_, rfl⟩⟩

theorem processRiskEvaluated_outage (delivery : Delivery) (payloadHash : Digest)
    (event : RiskEvaluated) (draws : LedgerDraws) (now : Time) :
    ReportsOutage (processRiskEvaluated delivery payloadHash event draws now : DbTx hashtext _) := by
  refine consume_outage ?_
  rw [lockPendingTransaction_bind]
  refine ⟨⟨_, rfl⟩, fun r => ?_⟩
  cases hc : checkPending event r with
  | error e => rw [whenPending_error hc]; trivial
  | ok t =>
      rw [whenPending_ok hc]
      cases happ : event.approved with
      | false => rw [settle_rejected happ]; exact finalizeTransaction_outage t _ draws now
      | true =>
          rw [settle_approved happ]
          refine ⟨⟨_, rfl⟩, fun _ => ⟨⟨_, rfl⟩, fun balance => ?_⟩⟩
          beta_reduce
          split
          · exact finalizeTransaction_outage t _ draws now
          · exact ⟨⟨_, rfl⟩, fun _ => finalizeTransaction_outage t _ draws now⟩

theorem requeueOutbox_outage (id reason : String) (action : Random) (now : Time) :
    ReportsOutage (requeueOutbox id reason action now : DbTx hashtext _) := by
  refine ⟨⟨_, rfl⟩, fun row => ?_⟩
  cases row with
  | none => trivial
  | some row => exact ⟨⟨_, rfl⟩, fun _ => ⟨_, rfl⟩⟩

theorem startDeadLetterReplay_outage (id reason : String) (attempt : Random) (now : Time) :
    ReportsOutage (startDeadLetterReplay id reason attempt now : DbTx hashtext _) := by
  rw [startDeadLetterReplay_eq]
  refine ⟨⟨_, rfl⟩, fun _ => ⟨⟨_, rfl⟩, fun found => ?_⟩⟩
  cases found with
  | false => trivial
  | true =>
      refine ⟨⟨_, rfl⟩, fun inserted => ?_⟩
      cases inserted with
      | false => trivial
      | true => exact ⟨_, rfl⟩

theorem finishDeadLetterReplay_outage (attemptID deadLetterID : String) (result : ReplayResult)
    (errorMessage : String) (action : Random) (now : Time) :
    ReportsOutage (finishDeadLetterReplay attemptID deadLetterID result errorMessage action now :
      DbTx hashtext _) := by
  refine ⟨⟨_, rfl⟩, fun attempt => ?_⟩
  cases attempt with
  | none => trivial
  | some attempt =>
      cases result with
      | failed => exact ⟨_, rfl⟩
      | published =>
          refine ⟨⟨_, rfl⟩, fun row => ?_⟩
          cases row with
          | none => trivial
          | some row => exact ⟨⟨_, rfl⟩, fun _ => ⟨_, rfl⟩⟩

/-! ## The contract of the store -/

/-- What the methods of the store come to. -/
def storeSpec : (c : Call) → Spec (dialect hashtext).engine Error c.Reply
  | .saveConsumerOutbox delivery payloadHash event now =>
      ConsumerSpec delivery (saveConsumerOutbox delivery payloadHash event now)
  | .processRiskEvaluated delivery payloadHash event draws now =>
      ConsumerSpec delivery (processRiskEvaluated delivery payloadHash event draws now)
  | .pruneProcessedEvents .. => WritesSpec PruneWrite
  | .startDeadLetterReplay id reason attempt now =>
      StartSpec (attemptRow id reason attempt now) now
  | c => (methodOf c).Runs (dialect hashtext).engine

variable (hashtext) in
@[reducible] def contract : Contract (dialect hashtext).engine (store hashtext) where
  spec := storeSpec
  outage := IsOutage

theorem single_sound {ρ : Type} {m : DbMethod hashtext ρ} {s : Stmt} {message : String}
    {k : s.Reply → Except Error ρ} (hm : m = single s message k)
    (ht : ∀ f d r, (s.plan f d : DbPlan hashtext _).result = .ok r →
      ∀ x ∈ r.writes, x.tab.latched = false) :
    m.Sound (dialect hashtext).rely (m.Runs (dialect hashtext).engine) IsOutage := by
  subst hm
  refine ⟨.of_failing message, fun d f => ?_⟩
  split
  · next x hx => exact ⟨f, by rw [hx]; exact ⟨rfl, rfl⟩⟩
  · next r hx =>
      refine ⟨⟨f, by rw [hx]; exact ⟨rfl, rfl⟩⟩, ?_⟩
      exact Stmt.writes_guar hx (ht f d r hx) []

theorem read_sound {ρ : Type} {m : DbMethod hashtext ρ} {s : Stmt} {message : String}
    {k : s.Reply → Except Error ρ} (hm : m = single s message k)
    (hs : ∀ f d, ∃ a, (s.plan f d : DbPlan hashtext _) = .read a) :
    m.Sound (dialect hashtext).rely (m.Runs (dialect hashtext).engine) IsOutage := by
  refine single_sound hm fun f d r hr => ?_
  obtain ⟨a, ha⟩ := hs f d
  rw [ha] at hr
  obtain ⟨v, _, rfl⟩ := Plan.read_ok.mp hr
  exact List.forall_mem_nil _

theorem update_sound {ρ : Type} {m : DbMethod hashtext ρ} {t : Tab} {key : t.Key}
    {g : t.Row → Bool} {u : t.Upd} {message : String} {k : Option t.Row → Except Error ρ}
    (hm : m = single (.update t key g u) message k) (ht : t.latched = false) :
    m.Sound (dialect hashtext).rely (m.Runs (dialect hashtext).engine) IsOutage := by
  refine single_sound hm fun f d r hr => ?_
  rcases Plan.updateRow_ok.mp hr with ⟨_, rfl⟩ | ⟨row, _, _, _, rfl⟩
  · exact List.forall_mem_nil _
  · intro x hx
    rw [List.mem_singleton.mp hx]
    exact ht

theorem transaction_sound {ρ : Type} {message : String} {tx : DbTx hashtext (DbCommit hashtext ρ)}
    (hfault : ReportsOutage tx)
    (hg : Guarded (dialect hashtext).rely tx [] [] fun _ _ _ => True) :
    (inTransaction message tx).Sound (dialect hashtext).rely
      ((inTransaction message tx).Runs (dialect hashtext).engine) IsOutage :=
  ⟨⟨_, rfl⟩, hfault, hg.conforms, fun _ _ _ h => h⟩

theorem consumer_sound {delivery : Delivery} {message : String}
    {tx : DbTx hashtext (DbCommit hashtext Bool)} (hfault : ReportsOutage tx)
    (hc : ∀ d, Conforms (dialect hashtext).rely (ConsumerSpec delivery tx) tx [] [] d) :
    (inTransaction message tx).Sound (dialect hashtext).rely (ConsumerSpec delivery tx)
      IsOutage :=
  ⟨⟨_, rfl⟩, hfault, hc, fun _ _ _ h => Or.inl h⟩

theorem writes_sound {ρ : Type} {P : schema.Write → Prop} {message : String}
    {tx : DbTx hashtext (DbCommit hashtext ρ)} (hfault : ReportsOutage tx)
    (hw : Writes (dialect hashtext).rely P tx [] []) :
    (inTransaction message tx).Sound (dialect hashtext).rely (WritesSpec P) IsOutage :=
  ⟨⟨_, rfl⟩, hfault, hw.conforms (List.forall_mem_nil _),
    fun _ _ _ h => hw.runs_spec (List.forall_mem_nil _) h⟩

theorem planClaimOutbox_tab {f : DbLock hashtext → Bool} {d : Db} {now : Time}
    {r : Effect schema.Write (DbLock hashtext) (Option OutboxRow)}
    (h : (planClaimOutbox f d now).result = .ok r) :
    ∀ x ∈ r.writes, x.tab.latched = false := by
  rcases planClaimOutbox_ok h with rfl | ⟨row, _, rfl⟩
  · exact List.forall_mem_nil _
  · intro x hx
    rw [List.mem_singleton.mp hx]
    rfl

theorem planUpsertDeadLetter_tab {d : Db} {row : DeadLetterRow}
    {r : Effect schema.Write (DbLock hashtext) DeadLetterRow}
    (h : (planUpsertDeadLetter d row).result = .ok r) :
    ∀ x ∈ r.writes, x.tab.latched = false := by
  have hw : ∃ x : schema.Write, x.tab = .deadLetterMessages ∧ r.writes = [x] := by
    unfold planUpsertDeadLetter at h
    split at h
    · cases h
    · split at h
      · split at h
        · cases h
        · cases h; exact ⟨_, rfl, rfl⟩
      · split at h
        · cases h
        · cases h; exact ⟨_, rfl, rfl⟩
  obtain ⟨y, hy, hw⟩ := hw
  intro x hx
  rw [hw] at hx
  rw [List.mem_singleton.mp hx, hy]
  rfl

variable (hashtext) in
/-- Every method of the store meets its contract, also when others are interleaved. -/
theorem store_sound : (store hashtext).Sound (dialect hashtext).rely (contract hashtext) := by
  intro c
  cases c with
  | findIdempotency key =>
      exact read_sound (m := methodOf (.findIdempotency key)) rfl fun _ _ => ⟨_, rfl⟩
  | findDepositIdempotency key =>
      exact read_sound (m := methodOf (.findDepositIdempotency key)) rfl fun _ _ => ⟨_, rfl⟩
  | isEventProcessed eventID =>
      exact read_sound (m := methodOf (.isEventProcessed eventID)) rfl fun _ _ => ⟨_, rfl⟩
  | getOutboxStatus id =>
      exact read_sound (m := methodOf (.getOutboxStatus id)) rfl fun _ _ => ⟨_, rfl⟩
  | getDeadLetter id =>
      exact read_sound (m := methodOf (.getDeadLetter id)) rfl fun _ _ => ⟨_, rfl⟩
  | markPublished eventID now =>
      exact update_sound (m := methodOf (.markPublished eventID now)) rfl rfl
  | markFailedAttempt eventID maxAttempts now =>
      exact update_sound (m := methodOf (.markFailedAttempt eventID maxAttempts now)) rfl rfl
  | markDeadLetterPublished id at_ =>
      exact update_sound (m := methodOf (.markDeadLetterPublished id at_)) rfl rfl
  | nextPending now =>
      exact single_sound (m := methodOf (.nextPending now)) rfl fun f d r hr => planClaimOutbox_tab hr
  | upsertDeadLetter record =>
      exact single_sound (m := methodOf (.upsertDeadLetter record)) rfl fun f d r hr => planUpsertDeadLetter_tab hr
  | create record event now =>
      exact transaction_sound (create_outage record event now) (create_guarded record event now)
  | createDeposit deposit event draws now =>
      exact transaction_sound (createDeposit_outage deposit event draws now)
        (createDeposit_guarded deposit event draws now)
  | requeueOutbox id reason action now =>
      exact transaction_sound (requeueOutbox_outage id reason action now)
        (requeueOutbox_guarded id reason action now)
  | finishDeadLetterReplay attemptID deadLetterID result errorMessage action now =>
      exact transaction_sound
        (finishDeadLetterReplay_outage attemptID deadLetterID result errorMessage action now)
        (finishDeadLetterReplay_guarded attemptID deadLetterID result errorMessage action now)
  | saveConsumerOutbox delivery payloadHash event now =>
      exact consumer_sound (consume_outage ⟨⟨_, rfl⟩, fun _ => ⟨_, rfl⟩⟩) (saveConsumerOutbox_conforms event)
  | processRiskEvaluated delivery payloadHash event draws now =>
      exact consumer_sound (processRiskEvaluated_outage delivery payloadHash event draws now)
        (processRiskEvaluated_conforms event draws)
  | pruneProcessedEvents cutoff batchSize reason target action =>
      exact writes_sound
        ⟨⟨_, rfl⟩, fun _ => ⟨⟨_, rfl⟩, fun _ => ⟨⟨_, rfl⟩, fun _ => ⟨_, rfl⟩⟩⟩⟩
        (pruneProcessedEvents_writes cutoff batchSize reason target action)
  | startDeadLetterReplay id reason attempt now =>
      exact ⟨⟨_, rfl⟩, startDeadLetterReplay_outage id reason attempt now,
        startDeadLetterReplay_conforms id reason attempt now,
        fun _ _ _ h => startDeadLetterReplay_runs h⟩

end

end Clearance
