/-
# `Clearance.Postgres.Isolation` — every operation of the store is atomic

Which locks fix which statement, and from that: each transaction of the store, run
between the statements of any others, comes to what it would have come to in one
go at the moment it ended.  `Clearance.Postgres.Contract` puts this together.

Two kinds of operation are not quite atomic, and their specifications say so.

* A consumer that finds its event claimed does not hold the claim yet.  A prune
  may delete it before the refresh, which then finds nothing; and a payment from a
  contra account (older than the CHECK that excludes them) reads a balance no lock
  protects.  Both end in an error, with the event unclaimed (`ConsumerSpec`).
* `PruneProcessedEvents` chooses rows by a condition nobody is kept from changing.
  Of it we only say what it writes.

`StartDeadLetterReplay` has a module of its own (`Clearance.Postgres.Replay`).
-/
import Clearance.Postgres.Store
import Clearance.Transact.Atomic

namespace Clearance

open Transact

section

variable {hashtext : String → Int}

/-- Locks on rows and balances. -/
abbrev rowLock (t : Tab) (k : t.Key) : DbLock hashtext := .unique (.row t k)

abbrev balanceLock (accountID currency : String) : DbLock hashtext :=
  .named (.pair (hashtext accountID) (hashtext currency))

@[simp] theorem send_bind {β : Type} (s : Stmt) (m : String) (k : s.Reply → DbTx hashtext β) :
    (send s m >>= k) = .exec s (failing m) k := rfl

@[simp] theorem insertOutbox_bind {β : Type} (event : OutboxEvent) (now : Time) (m : String)
    (k : Unit → DbTx hashtext β) :
    (insertOutbox event now m >>= k) =
      .exec (.insert [⟨.outboxEvents, outboxRow event now⟩]) (failing m) k := rfl

@[simp] theorem insertAction_bind {β : Type} (row : ActionRow) (m : String)
    (k : Unit → DbTx hashtext β) :
    (insertAction row m >>= k) = .exec (.insert [⟨.operatorActions, row⟩]) (failing m) k := rfl

variable {α : Type} {l : List (DbLock hashtext)} {w : List schema.Write}
  {Q : α → List (DbLock hashtext) → List schema.Write → Prop}

/-! ## Statements -/

/-- Rows of most tables are written under the locks on their keys only. -/
theorem footprint_eq {x : schema.Write} (h : x.tab.latched = false) :
    x.footprint (latches hashtext) = x.uniques (latches hashtext) := by
  cases x with
  | insert t r =>
      have hof : Latch.of hashtext r = [] := Latch.of_eq_nil h r
      simp [Schema.Write.footprint, hof]
  | update t k u =>
      have hof : Latch.ofUpd u = [] := Latch.ofUpd_eq_nil h u
      simp [Schema.Write.footprint, hof]
  | delete t k hp => rfl

theorem Stmt.writes_guar {s : Stmt} {f : DbLock hashtext → Bool} {d : Db}
    {r : Effect schema.Write (DbLock hashtext) s.Reply} (hr : (s.plan f d).result = .ok r)
    (ht : ∀ x ∈ r.writes, x.tab.latched = false) (l : List (DbLock hashtext)) :
    Guar (dialect hashtext).rely (l ++ r.locks) r.writes := by
  refine Held.guar fun x hx => ?_
  rw [footprint_eq (ht x hx)]
  exact List.Subset.trans ((dialect hashtext).writes_locked hr x hx)
    (List.subset_append_right _ _)

theorem guarded_latch {a b : String} {e : Fault schema → Error} {k : Unit → DbTx hashtext α}
    (hw : Held l w)
    (hk : Held (l ++ [balanceLock a b]) w →
      Guarded (dialect hashtext).rely (k ()) (l ++ [balanceLock a b]) w Q) :
    Guarded (dialect hashtext).rely (.exec (.advisoryXactLock a b) e k) l w Q := by
  refine Guarded.exec hw fun d f r hr => ?_
  cases hr
  refine ⟨Held.nil _, Or.inr fun d' _ => rfl, fun hh => ?_⟩
  rw [List.append_nil] at hh ⊢
  exact hk hh

/-- Rows are written under the locks on their keys and balances. -/
theorem inserts_held {rows : List Row}
    (hn : ∀ r ∈ rows, ∀ n ∈ Latch.of hashtext r.2, .named n ∈ l) :
    Held (l ++ Plan.locksOf (Plan.inserts rows)) (Plan.inserts rows) := by
  intro x hx
  obtain ⟨row, hrow, rfl⟩ := List.mem_map.mp hx
  refine List.append_subset.mpr ⟨?_, fun k hk => ?_⟩
  · exact List.Subset.trans (Plan.uniques_subset_locksOf hx) (List.subset_append_right _ _)
  · obtain ⟨n, hn', rfl⟩ := List.mem_map.mp hk
    exact List.mem_append_left _ (hn row hrow n hn')

/-- An insertion is made under the locks on the new keys; the rows it refers to
and the balances it changes have to be locked. -/
theorem guarded_insert {rows : List Row} {e : Fault schema → Error} {k : Unit → DbTx hashtext α}
    (hw : Held l w) (hn : ∀ r ∈ rows, ∀ n ∈ Latch.of hashtext r.2, .named n ∈ l)
    (href : ∀ r ∈ rows, ∀ k ∈ Tab.refs r.2,
      rowLock k.1 k.2 ∈ l ++ Plan.locksOf (Plan.inserts rows))
    (hk : (∀ r ∈ rows, Tab.check r.2 = none) →
      Held (l ++ Plan.locksOf (Plan.inserts rows)) (w ++ Plan.inserts rows) →
      Guarded (dialect hashtext).rely (k ()) (l ++ Plan.locksOf (Plan.inserts rows))
        (w ++ Plan.inserts rows) Q) :
    Guarded (dialect hashtext).rely (.exec (.insert rows) e k) l w Q := by
  refine Guarded.exec hw fun d f r hr => ?_
  have hr' : (Plan.insert rows d).result = .ok r := hr
  obtain ⟨hi, _, rfl⟩ := Plan.insert_ok.mp hr'
  refine ⟨inserts_held hn, Or.inr fun d' hd => ?_, fun hh => hk (Plan.Insertable.check hi) hh⟩
  exact Plan.insert_fixed hr' hd (List.subset_append_right _ _) href

theorem guarded_sumLedger {a c : String} {e : Fault schema → Error} {k : Int → DbTx hashtext α}
    (hw : Held l w) (ha : reserved a = false) (hl : balanceLock a c ∈ l)
    (hk : ∀ v, Guarded (dialect hashtext).rely (k v) l w Q) :
    Guarded (dialect hashtext).rely (.exec (.sumLedger a c) e k) l w Q := by
  refine Guarded.exec hw fun d f r hr => ?_
  obtain ⟨v, hv, rfl⟩ := Plan.read_ok.mp hr
  refine ⟨Held.nil _, Or.inr fun d' hd => ?_, fun _ => ?_⟩
  · have hb : d.balance a c = d'.balance a c :=
      Latch.balance_of_val ha (hd _ (List.mem_append_left _ hl))
    rw [hb] at hv
    exact Plan.read_ok.mpr ⟨v, hv, rfl⟩
  · simpa using hk v

/-- An update by primary key, in a program that gives up when there is no row. -/
theorem guarded_update {t : Tab} {key : t.Key} {g : t.Row → Bool} {u : t.Upd}
    {e : Fault schema → Error} {e' : Error} {k : Option t.Row → DbTx hashtext α}
    (ht : t.latched = false) (hw : Held l w) (hnone : k none = .throw e')
    (hk : ∀ row, Held (l ++ [rowLock t key]) (w ++ [.update t key u]) →
      Guarded (dialect hashtext).rely (k (some row)) (l ++ [rowLock t key])
        (w ++ [.update t key u]) Q) :
    Guarded (dialect hashtext).rely (.exec (.update t key g u) e k) l w Q := by
  refine Guarded.exec hw fun d f r hr => ?_
  rcases Plan.updateRow_ok.mp hr with ⟨_, rfl⟩ | ⟨row, _, _, _, rfl⟩
  · exact ⟨Held.nil _, Or.inl ⟨e', hnone⟩, fun _ => by rw [hnone]; trivial⟩
  · refine ⟨fun x hx => ?_, Or.inr fun d' hd => ?_, fun hh => hk _ hh⟩
    · rw [List.mem_singleton.mp hx, footprint_eq (x := .update t key u) ht]
      exact List.subset_append_right _ _
    · exact Plan.updateRow_fixed hr hd (List.subset_append_right _ _) rfl

/-- The key of an inserted row is locked. -/
theorem rowLock_mem_inserts {t : Tab} {row : t.Row} {rows : List Row} (h : ⟨t, row⟩ ∈ rows) :
    (rowLock t (t.key row) : DbLock hashtext) ∈ Plan.locksOf (Plan.inserts rows) :=
  Plan.uniques_subset_locksOf (List.mem_map_of_mem (f := fun r => .insert r.1 r.2) h)
    (List.mem_map_of_mem (f := Lock.unique) List.mem_cons_self)

/-- A row of a table without balances. -/
theorem guarded_insert_row {t : Tab} {row : t.Row} {e : Fault schema → Error}
    {k : Unit → DbTx hashtext α} (hw : Held l w) (hn : Latch.of hashtext row = [])
    (href : ∀ k ∈ Tab.refs row, rowLock k.1 k.2 ∈ l)
    (hk : Tab.check row = none →
      Held (l ++ Plan.locksOf (Plan.inserts [⟨t, row⟩])) (w ++ Plan.inserts [⟨t, row⟩]) →
      Guarded (dialect hashtext).rely (k ()) (l ++ Plan.locksOf (Plan.inserts [⟨t, row⟩]))
        (w ++ Plan.inserts [⟨t, row⟩]) Q) :
    Guarded (dialect hashtext).rely (.exec (.insert [⟨t, row⟩]) e k) l w Q := by
  refine guarded_insert hw ?_ ?_ fun hc => hk (hc _ (List.mem_singleton_self _))
  · intro r hr n hn'
    rw [List.mem_singleton.mp hr, hn] at hn'
    cases hn'
  · intro r hr k hk'
    rw [List.mem_singleton.mp hr] at hk'
    exact List.mem_append_left _ (href k hk')

/-- The two entries of a movement are written under the lock on the account, unless
that is a contra account itself. -/
theorem entries_latch {id contraID transactionID account contra currency : String} {amount : Int}
    (hc : reserved contra = true) (hb : reserved account = false → balanceLock account currency ∈ l) :
    ∀ r ∈ (entries id contraID transactionID account contra amount currency).map
        (⟨.ledgerEntries, ·⟩ : LedgerRow → Row),
      ∀ n ∈ Latch.of hashtext r.2, .named n ∈ l := by
  intro r hr n hn
  rcases List.mem_pair.mp hr with rfl | rfl
  · simp only [Latch.of] at hn
    split at hn
    · cases hn
    · next ha =>
        rw [List.mem_singleton.mp hn]
        exact hb (by simpa using ha)
  · simp [Latch.of, hc] at hn

theorem guarded_entries {id contraID transactionID account contra currency : String}
    {amount : Int} {e : Fault schema → Error} {k : Unit → DbTx hashtext α} (hw : Held l w)
    (hc : reserved contra = true) (hb : balanceLock account currency ∈ l)
    (ht : rowLock .transactions transactionID ∈ l)
    (hk : ∀ l' w', Held (l ++ l') (w ++ w') →
      Guarded (dialect hashtext).rely (k ()) (l ++ l') (w ++ w') Q) :
    Guarded (dialect hashtext).rely
      (.exec (insertEntries (entries id contraID transactionID account contra amount currency)) e k)
      l w Q := by
  refine guarded_insert hw (entries_latch hc fun _ => hb) ?_ fun _ => hk _ _
  intro r hr k hk'
  refine List.mem_append_left _ ?_
  rcases List.mem_pair.mp hr with rfl | rfl
  · rw [List.mem_singleton.mp hk']; exact ht
  · rw [List.mem_singleton.mp hk']; exact ht

/-! ## Operations whose result is fixed -/

theorem create_guarded (record : IdempotencyRecord) (event : OutboxEvent) (now : Time) :
    Guarded (dialect hashtext).rely (create record event now) [] [] fun _ _ _ => True := by
  refine guarded_insert_row (Held.nil _) rfl (List.forall_mem_nil _) fun _ h₁ => ?_
  refine guarded_insert_row h₁ rfl ?_ fun _ h₂ => ?_
  · intro k hk
    rw [List.mem_singleton.mp hk]
    exact rowLock_mem_inserts (t := .transactions) (List.mem_singleton_self _)
  refine guarded_insert_row h₂ rfl (List.forall_mem_nil _) fun _ _ => ?_
  trivial

theorem nonreserved_of_check {r : TransactionRow} (h : Tab.check (t := .transactions) r = none) :
    reserved r.accountID = false := by
  have := firstViolated_eq_none.mp h ("transactions_external_account_check", !reserved r.accountID)
    (by simp [TransactionRow.checks])
  simpa using this

theorem createDeposit_guarded (deposit : Deposit) (event : OutboxEvent) (draws : DepositDraws)
    (now : Time) :
    Guarded (dialect hashtext).rely (createDeposit deposit event draws now) [] []
      fun _ _ _ => True := by
  refine guarded_latch (Held.nil _) fun h₁ => ?_
  refine guarded_insert_row h₁ rfl (List.forall_mem_nil _) fun hc h₂ => ?_
  have hbal : balanceLock deposit.transaction.accountID deposit.transaction.currency ∈
      [] ++ [balanceLock deposit.transaction.accountID deposit.transaction.currency] ++
        Plan.locksOf (L := latches hashtext)
          (Plan.inserts [⟨Tab.transactions, depositRow deposit.transaction⟩]) :=
    List.mem_append_left _ (List.mem_singleton_self _)
  have hrow : rowLock .transactions deposit.transaction.id ∈
      [] ++ [balanceLock deposit.transaction.accountID deposit.transaction.currency] ++
        Plan.locksOf (L := latches hashtext)
          (Plan.inserts [⟨Tab.transactions, depositRow deposit.transaction⟩]) :=
    List.mem_append_right _
      (rowLock_mem_inserts (t := .transactions) (List.mem_singleton_self _))
  -- From here on only these two locks matter.
  generalize [] ++ [balanceLock _ _] ++ Plan.locksOf (L := latches hashtext) _ = l at *
  refine guarded_entries h₂ (by decide) hbal hrow fun _ _ h₃ => ?_
  refine guarded_sumLedger h₃ (nonreserved_of_check hc) (List.mem_append_left _ hbal) fun v => ?_
  refine guarded_insert_row h₃ rfl ?_ fun _ h₄ => ?_
  · intro k hk
    rw [List.mem_singleton.mp hk]
    exact List.mem_append_left _ hrow
  refine guarded_insert_row h₄ rfl (List.forall_mem_nil _) fun _ h₅ => ?_
  refine guarded_insert_row h₅ rfl (List.forall_mem_nil _) fun _ _ => ?_
  trivial

theorem requeueOutbox_guarded (id reason : String) (action : Random) (now : Time) :
    Guarded (dialect hashtext).rely (requeueOutbox id reason action now) [] []
      fun _ _ _ => True := by
  refine guarded_update (t := .outboxEvents) rfl (Held.nil _) rfl fun row h₁ => ?_
  refine guarded_insert_row h₁ rfl (List.forall_mem_nil _) fun _ _ => ?_
  trivial

theorem planFinishReplay_ok {d : Db} {id : String} {u : String → ReplayUpdate}
    {r : Effect schema.Write (DbLock hashtext) (Option ReplayRow)} :
    (planFinishReplay d id u).result = .ok r ↔
      ((d.deadLetterReplayAttempts.find? id).filter (fun x => x.result == .pending) = none ∧
        r = { reply := none }) ∨
      ∃ x, (d.deadLetterReplayAttempts.find? id).filter (fun x => x.result == .pending) =
          some x ∧ firstViolated ((u x.deadLetterID).apply x).checks = none ∧
        r = { reply := some ((u x.deadLetterID).apply x)
              writes := [.update .deadLetterReplayAttempts id (u x.deadLetterID)]
              locks := [.named (.pendingReplay x.deadLetterID),
                .unique (.row .deadLetterReplayAttempts id)] } := by
  unfold planFinishReplay
  cases (d.deadLetterReplayAttempts.find? id).filter fun x => x.result == .pending with
  | none =>
      simp only [reduceCtorEq, false_and, exists_false, or_false, true_and]
      exact ⟨fun h => by cases h; rfl, fun h => by cases h; rfl⟩
  | some x =>
      cases hc : firstViolated ((u x.deadLetterID).apply x).checks with
      | some c => simp [hc]
      | none =>
          simp only [hc, reduceCtorEq, false_and, false_or, Option.some.injEq, exists_eq_left',
            true_and]
          exact ⟨fun h => by cases h; rfl, fun h => by cases h; rfl⟩

theorem guarded_finishReplay {id : String} {result : AttemptResult} {message : Option String}
    {now : Time} {e : Fault schema → Error} {e' : Error} {k : Option ReplayRow → DbTx hashtext α}
    (hw : Held l w) (hnone : k none = .throw e')
    (hk : ∀ row l' w', Held (l ++ l') (w ++ w') →
      Guarded (dialect hashtext).rely (k (some row)) (l ++ l') (w ++ w') Q) :
    Guarded (dialect hashtext).rely (.exec (.finishReplay id result message now) e k) l w Q := by
  refine Guarded.exec hw fun d f r hr => ?_
  rcases planFinishReplay_ok.mp hr with ⟨_, rfl⟩ | ⟨x, hx, hc, rfl⟩
  · exact ⟨Held.nil _, Or.inl ⟨e', hnone⟩, fun _ => by rw [hnone]; trivial⟩
  · refine ⟨fun y hy => ?_, Or.inr fun d' hd => ?_, fun hh => hk _ _ _ hh⟩
    · rw [List.mem_singleton.mp hy]
      intro k hk
      rcases List.mem_pair.mp hk with rfl | rfl
      · simp
      · simp
    · have hrow : d.deadLetterReplayAttempts.find? id = d'.deadLetterReplayAttempts.find? id :=
        hd (.unique (.row .deadLetterReplayAttempts id)) (by simp)
      exact planFinishReplay_ok.mpr (Or.inr ⟨x, hrow ▸ hx, hc, rfl⟩)

theorem finishDeadLetterReplay_guarded (attemptID deadLetterID : String) (result : ReplayResult)
    (errorMessage : String) (action : Random) (now : Time) :
    Guarded (dialect hashtext).rely
      (finishDeadLetterReplay attemptID deadLetterID result errorMessage action now) [] []
      fun _ _ _ => True := by
  refine guarded_finishReplay (Held.nil _) rfl fun attempt l' w' h₁ => ?_
  cases result with
  | failed => trivial
  | published =>
      refine guarded_update (t := .deadLetterMessages) rfl h₁ rfl fun row h₂ => ?_
      refine guarded_insert_row h₂ rfl (List.forall_mem_nil _) fun _ _ => ?_
      trivial

/-! ## Consumers -/

/-- What the consumers come to: what they would have come to in one go, or an error
with the event unclaimed. -/
def ConsumerSpec (delivery : Delivery) (tx : DbTx hashtext (DbCommit hashtext Bool)) :
    Spec (dialect hashtext).engine Error Bool := fun d res w =>
  tx.Runs (dialect hashtext).engine d [] res w ∨
    ∃ e, res = .error e ∧ w = [] ∧
      d.processedEvents.find? (delivery.consumerName, delivery.eventID) = none ∧
      e.is .eventIdentityConflict = false ∧ e.driver?.isSome = true

section

variable {delivery : Delivery} {payloadHash : Digest} {now : Time}

/-- The lock on the claim of an event. -/
abbrev claimLock (delivery : Delivery) : DbLock hashtext :=
  rowLock .processedEvents (delivery.consumerName, delivery.eventID)

/-- The write that claims an event. -/
abbrev claimWrite (delivery : Delivery) (payloadHash : Digest) (now : Time) : schema.Write :=
  .insert .processedEvents (processedRow delivery payloadHash now)

theorem claim_held :
    Held (L := latches hashtext) [claimLock delivery] [claimWrite delivery payloadHash now] := by
  intro x hx
  rw [List.mem_singleton.mp hx]
  exact List.Subset.refl _

theorem refresh_guarded {β : Type} {k : Bool → DbTx hashtext β} {P : β → _ → _ → Prop}
    (hw : Held l w)
    (hk : ∀ l' w', Held l' w' → Guarded (dialect hashtext).rely (k false) l' w' P) :
    Guarded (dialect hashtext).rely (refreshProcessedEvent delivery payloadHash now >>= k)
      l w P := by
  refine guarded_update (t := .processedEvents) rfl hw rfl fun row h₁ => ?_
  show Guarded _ ((if _ then _ else _) >>= k) _ _ P
  split
  · trivial
  · exact hk _ _ h₁

theorem consume_eq (duplicate : String) (work : DbTx hashtext (DbCommit hashtext Bool)) :
    consume delivery payloadHash now duplicate work =
      .exec (.claimProcessed (processedRow delivery payloadHash now))
        (failing "claim processed event") fun claimed =>
          if claimed then work
          else refreshProcessedEvent delivery payloadHash now >>= fun claimed =>
            if claimed then work else commit false duplicate := by
  show Tx.exec _ _ _ = _
  congr 1
  funext claimed
  cases claimed <;> rfl

/-- An update by primary key of a row that is not there. -/
theorem runs_update_none {t : Tab} {key : t.Key} {g : t.Row → Bool} {u : t.Upd}
    {e : Fault schema → Error} {k : Option t.Row → DbTx hashtext (DbCommit hashtext α)} {d : Db}
    {res : Except Error α} {w' : List schema.Write}
    (h : (Tx.exec (Stmt.update t key g u) e k : DbTx hashtext _).Runs (dialect hashtext).engine d w
      res w')
    (hnone : @Schema.find? schema ((dialect hashtext).engine.view d w) t key = none) :
    (k none).Runs (dialect hashtext).engine d w res w' := by
  obtain ⟨f, h⟩ := (Tx.runs_exec _).mp h
  have hx : (dialect hashtext).engine.exec (.update t key g u) f
      ((dialect hashtext).engine.view d w) = .ok { reply := none } :=
    Plan.updateRow_ok.mpr (Or.inl ⟨by rw [hnone]; rfl, rfl⟩)
  rw [hx] at h
  simpa using h

theorem consume_conforms {duplicate : String} {work : DbTx hashtext (DbCommit hashtext Bool)}
    (hwork : ∀ d, d.processedEvents.find? (delivery.consumerName, delivery.eventID) = none →
      Conforms (dialect hashtext).rely
        (ConsumerSpec delivery (consume delivery payloadHash now duplicate work)) work
        [claimLock delivery] [claimWrite delivery payloadHash now] d) (d₀ : Db) :
    Conforms (dialect hashtext).rely
      (ConsumerSpec delivery (consume delivery payloadHash now duplicate work))
      (consume delivery payloadHash now duplicate work) [] [] d₀ := by
  simp only [consume_eq] at hwork ⊢
  intro d f r _ hr
  have hr' : (@Plan.insertOrSkip schema (latches hashtext) .processedEvents
    (processedRow delivery payloadHash now) d).result = .ok r := hr
  obtain ⟨hc, ⟨_, rfl⟩ | ⟨hk, rfl⟩⟩ := Plan.insertOrSkip_ok.mp hr'
  · refine ⟨Guar.nil _ _, fun _ => Sim.after fun d' _ res w' hrun => ?_, ?_⟩
    · rw [ConsumerSpec]
      cases hf : d'.processedEvents.find? (delivery.consumerName, delivery.eventID) with
      | none =>
          -- A prune came between: the refresh finds nothing.
          right
          obtain ⟨rfl, rfl⟩ := runs_update_none (t := .processedEvents) hrun hf
          exact ⟨_, rfl, rfl, rfl, rfl, rfl⟩
      | some row =>
          left
          rw [Tx.runs_exec]
          have hx : (dialect hashtext).engine.exec
              (.claimProcessed (processedRow delivery payloadHash now)) f
              ((dialect hashtext).engine.view d' []) = .ok { reply := false } := by
            refine Plan.insertOrSkip_ok.mpr ⟨hc, Or.inl ⟨?_, rfl⟩⟩
            exact ne_of_eq_of_ne hf (Option.some_ne_none row)
          exact ⟨f, by rw [hx]; exact hrun⟩
    · refine Guarded.conforms ?_ d
      exact refresh_guarded (Held.nil _) fun _ _ _ => trivial
  · refine ⟨?_, fun hsim => After.protected (f := f) hsim fun d' hd => ?_, ?_⟩
    · exact claim_held.guar
    · exact Plan.insertOrSkip_fixed hr' hd (List.Subset.refl _) rfl
    · exact hwork d (Schema.find?_of_free hk)

theorem saveConsumerOutbox_conforms (event : OutboxEvent) (d₀ : Db) :
    Conforms (dialect hashtext).rely
      (ConsumerSpec delivery (saveConsumerOutbox delivery payloadHash event now))
      (saveConsumerOutbox delivery payloadHash event now) [] [] d₀ := by
  refine consume_conforms (fun d _ => ?_) d₀
  refine Guarded.conforms (guarded_insert_row ?_ rfl (List.forall_mem_nil _) fun _ _ => ?_) d
  · exact claim_held
  · trivial

theorem finalizeTransaction_guarded (t : TransactionRow) (decision : Decision)
    (draws : LedgerDraws) (now : Time) (hw : Held l w) :
    Guarded (dialect hashtext).rely (finalizeTransaction t decision draws now) l w
      fun _ _ _ => True := by
  refine guarded_update (t := .transactions) rfl hw rfl fun row h₁ => ?_
  refine guarded_insert_row h₁ rfl (List.forall_mem_nil _) fun _ _ => ?_
  trivial

theorem settle_rejected {event : RiskEvaluated} (h : event.approved = false) (draws : LedgerDraws)
    (t : TransactionRow) :
    (settle event draws now t : DbTx hashtext _) =
      finalizeTransaction t (rejected event) draws now := by
  unfold settle
  rw [h]
  rfl

theorem settle_approved {event : RiskEvaluated} (h : event.approved = true) (draws : LedgerDraws)
    (t : TransactionRow) :
    (settle event draws now t : DbTx hashtext _) =
      .exec (.advisoryXactLock t.accountID t.currency) (failing "lock account balance") fun _ =>
      .exec (.sumLedger t.accountID t.currency) (failing "query account balance") fun balance =>
        if balance < t.amountCents then
          finalizeTransaction t (rejected (insufficient event)) draws now
        else
          .exec (insertEntries (debit t draws)) (failing "insert ledger entries") fun _ =>
            finalizeTransaction t ⟨.authorized, .transactionAuthorized, event⟩ draws now := by
  unfold settle
  rw [h]
  show Tx.exec _ _ _ = _
  congr 1
  funext _
  show Tx.exec _ _ _ = _
  congr 1
  funext balance
  show Tx.bind (Tx.bind (Tx.ret (if balance < t.amountCents then
    Except.error (Error.sentinel .insufficientFunds) else Except.ok ())) _) _ = _
  by_cases hb : balance < t.amountCents
  · rw [if_pos hb, if_pos hb]
    rfl
  · rw [if_neg hb, if_neg hb]
    rfl

theorem settle_guarded {event : RiskEvaluated} {draws : LedgerDraws} {t : TransactionRow}
    (hw : Held l w) (hrow : rowLock .transactions t.id ∈ l)
    (ha : event.approved = true → reserved t.accountID = false) :
    Guarded (dialect hashtext).rely (settle event draws now t) l w fun _ _ _ => True := by
  cases happ : event.approved with
  | false =>
      rw [settle_rejected happ]
      exact finalizeTransaction_guarded t _ draws now hw
  | true =>
      rw [settle_approved happ]
      have hbal : ∀ l : List (DbLock hashtext), balanceLock t.accountID t.currency ∈
          l ++ [balanceLock t.accountID t.currency] :=
        fun l => List.mem_append_right _ (List.mem_singleton_self _)
      refine guarded_latch hw fun h₁ => ?_
      refine guarded_sumLedger h₁ (ha happ) (hbal l) fun balance => ?_
      split
      · exact finalizeTransaction_guarded t _ draws now h₁
      · refine guarded_entries h₁ (by decide) (hbal l) (List.mem_append_left _ hrow) fun _ _ h₂ => ?_
        exact finalizeTransaction_guarded t _ draws now h₂

/-- A transaction of a contra account, locked by a session that claims an event. -/
def Frozen (delivery : Delivery) (t : TransactionRow) (d : Db) : Prop :=
  d.processedEvents.find? (delivery.consumerName, delivery.eventID) = none ∧
    d.transactions.find? t.id = some t

/-- The UPDATE checks what older rows may violate. -/
theorem finalizeTransaction_fails {t : TransactionRow} (hp : t.status = .pending)
    (ha : reserved t.accountID = true) (decision : Decision) (draws : LedgerDraws)
    (hw : ∀ x ∈ w, x.tab ≠ .transactions) :
    Fails (dialect hashtext).rely (Frozen delivery t)
      (fun e => e.is .eventIdentityConflict = false ∧ e.driver?.isSome = true)
      (finalizeTransaction t decision draws now) l w := by
  intro d f hd
  have hview : @Schema.find? schema ((dialect hashtext).engine.view d w) .transactions t.id =
      some t := by
    refine Eq.trans ?_ hd.2
    exact congrArg (Table.find? · t.id)
      (@Schema.get_foldl_other schema .transactions w (fun x hx => (hw x hx).symm) d)
  split
  · exact ⟨rfl, rfl⟩
  · next r hx =>
      exfalso
      rcases Plan.updateRow_ok.mp hx with ⟨hnone, _⟩ | ⟨row, hrow, _, hc, _⟩
      · rw [hview] at hnone
        simp [hp] at hnone
      · rw [hview] at hrow
        cases hrow
        have hn : reserved t.accountID = false :=
          nonreserved_of_check (r := Finalize.apply _ t) hc
        rw [hn] at ha
        cases ha

theorem settle_fails {event : RiskEvaluated} {draws : LedgerDraws} {t : TransactionRow}
    (happ : event.approved = true) (hp : t.status = .pending) (ha : reserved t.accountID = true)
    (hw : ∀ x ∈ w, x.tab ≠ .transactions) :
    Fails (dialect hashtext).rely (Frozen delivery t)
      (fun e => e.is .eventIdentityConflict = false ∧ e.driver?.isSome = true)
      (settle event draws now t) l w := by
  rw [settle_approved happ]
  intro d f _
  refine ⟨Guar.nil _ _, fun d f _ => ?_⟩
  split
  · exact ⟨rfl, rfl⟩
  · next r hx =>
      obtain ⟨balance, _, rfl⟩ := Plan.read_ok.mp hx
      refine ⟨Guar.nil _ _, ?_⟩
      simp only [List.append_nil]
      split
      · exact finalizeTransaction_fails hp ha _ draws hw
      · intro d f _
        split
        · exact ⟨rfl, rfl⟩
        · next r hx =>
            obtain ⟨_, _, rfl⟩ := Plan.insert_ok.mp hx
            refine ⟨Held.guar (inserts_held (entries_latch (by decide) fun hn => ?_)),
              finalizeTransaction_fails hp ha _ draws fun x hx => ?_⟩
            · rw [hn] at ha
              cases ha
            · rcases List.mem_append.mp hx with hx | hx
              · exact hw x hx
              · rcases List.mem_pair.mp hx with rfl | rfl
                · exact nofun
                · exact nofun

theorem checkPending_ok {event : RiskEvaluated} {r : Option TransactionRow} {t : TransactionRow} :
    checkPending event r = .ok t ↔ r = some t ∧ t.status = .pending ∧
      t.accountID = event.accountID ∧ t.amountCents = event.amountCents ∧
      t.currency = event.currency := by
  cases r with
  | none => simp [checkPending]
  | some t' =>
      by_cases hp : t'.status = .pending
      · by_cases hm : t'.accountID ≠ event.accountID ∨ t'.amountCents ≠ event.amountCents ∨
            t'.currency ≠ event.currency
        · simp only [checkPending, hp, hm, ne_eq, not_true_eq_false, if_true, if_false,
            reduceCtorEq, Option.some.injEq, false_iff]
          rintro ⟨rfl, _, h₁, h₂, h₃⟩
          simp [h₁, h₂, h₃] at hm
        · simp only [checkPending, hp, hm, ne_eq, not_true_eq_false, if_false, Except.ok.injEq,
            Option.some.injEq]
          simp only [ne_eq, not_or, not_not] at hm
          exact ⟨by rintro rfl; exact ⟨rfl, hp, hm⟩, And.left⟩
      · simp only [checkPending, hp, ne_eq, not_false_eq_true, if_true, reduceCtorEq,
          Option.some.injEq, false_iff]
        rintro ⟨rfl, h, _⟩
        exact hp h

/-- What follows the lock on a transaction. -/
def whenPending {β : Type} (event : RiskEvaluated) (k : TransactionRow → DbTx hashtext β)
    (r : Option TransactionRow) : DbTx hashtext β :=
  match checkPending event r with
  | .error e => .throw e
  | .ok t => k t

theorem whenPending_error {β : Type} {event : RiskEvaluated} {r : Option TransactionRow}
    {e : Error} (h : checkPending event r = .error e) (k : TransactionRow → DbTx hashtext β) :
    whenPending event k r = .throw e := by
  rw [whenPending, h]

theorem whenPending_ok {β : Type} {event : RiskEvaluated} {r : Option TransactionRow}
    {t : TransactionRow} (h : checkPending event r = .ok t) (k : TransactionRow → DbTx hashtext β) :
    whenPending event k r = k t := by
  rw [whenPending, h]

theorem lockPendingTransaction_bind {β : Type} (event : RiskEvaluated)
    (k : TransactionRow → DbTx hashtext β) :
    (lockPendingTransaction event >>= k) =
      .exec (.selectTransactionForUpdate event.transactionID) (failing "lock transaction")
        (whenPending event k) := by
  show Tx.exec _ _ _ = _
  congr 1
  funext r
  show Tx.bind (match checkPending event r with | .error e => _ | .ok t => _) k = _
  unfold whenPending
  cases checkPending event r <;> rfl

theorem settle_conforms {event : RiskEvaluated} {draws : LedgerDraws} {t : TransactionRow} {d : Db}
    {tx : DbTx hashtext (DbCommit hashtext Bool)} (hp : t.status = .pending)
    (hF : Frozen delivery t d) (hw : Held l w) (ht : ∀ x ∈ w, x.tab ≠ .transactions)
    (hclaim : claimLock delivery ∈ l) (hrow : rowLock .transactions t.id ∈ l) :
    Conforms (dialect hashtext).rely (ConsumerSpec delivery tx) (settle event draws now t) l w
      d := by
  by_cases hdoom : event.approved = true ∧ reserved t.accountID = true
  · refine Fails.conforms (settle_fails hdoom.1 hp hdoom.2 ht) (fun d d' hr hd => ?_) hF
      fun d e hd he => Or.inr ⟨e, rfl, rfl, hd.1, he⟩
    exact ⟨(AgreeOn.find? hr hclaim).symm.trans hd.1, (AgreeOn.find? hr hrow).symm.trans hd.2⟩
  · refine Guarded.conforms (settle_guarded hw hrow fun happ => ?_) d
    simpa [happ] using hdoom

theorem processRiskEvaluated_conforms (event : RiskEvaluated) (draws : LedgerDraws) (d₀ : Db) :
    Conforms (dialect hashtext).rely
      (ConsumerSpec delivery (processRiskEvaluated delivery payloadHash event draws now))
      (processRiskEvaluated delivery payloadHash event draws now) [] [] d₀ := by
  refine consume_conforms (fun d hclaim => ?_) d₀
  rw [lockPendingTransaction_bind]
  intro d' f r hd hr
  have hr' : (@Plan.lockRow schema (latches hashtext) .transactions event.transactionID
    ((dialect hashtext).engine.view d' [claimWrite delivery payloadHash now])).result = .ok r := hr
  have hw : r.writes = [] := by rw [Plan.lockRow_ok.mp hr']
  rw [hw]
  cases hc : checkPending event r.reply with
  | error e =>
      have hk := whenPending_error hc (settle event draws now : _ → DbTx hashtext _)
      refine ⟨Guar.nil _ _, fun hsim => After.thrown hsim hr hk, ?_⟩
      rw [hk]
      trivial
  | ok t =>
      have hk := whenPending_ok hc (settle event draws now : _ → DbTx hashtext _)
      obtain ⟨hsome, hp, _⟩ := checkPending_ok.mp hc
      have hrow : d'.transactions.find? event.transactionID = some t := by
        rw [Plan.lockRow_ok.mp hr'] at hsome
        exact (@Schema.find?_other schema d' (claimWrite delivery payloadHash now) .transactions
          nofun event.transactionID).symm.trans hsome
      have hid : t.id = event.transactionID := Table.key_of_find? hrow
      have hl : r.locks = [rowLock .transactions t.id] := by
        rw [Plan.lockRow_ok.mp hr'] at hsome ⊢
        simp [show Schema.find? _ _ _ = _ from hsome, hid]
      have hheld : Held ([claimLock delivery] ++ r.locks)
          [claimWrite delivery payloadHash now] := fun x hx =>
        List.Subset.trans (claim_held x hx) (List.subset_append_left _ _)
      refine ⟨Guar.nil _ _, fun hsim => ?_, ?_⟩
      · have hafter := After.protected (f := f) (r := r) hsim fun d'' hd'' =>
          Plan.lockRow_fixed hr' (hheld.view hd'') (List.subset_append_right _ _)
            (by rw [hsome]; rfl)
        rwa [hw] at hafter
      · rw [hk]
        refine settle_conforms hp ⟨?_, hid ▸ hrow⟩ hheld ?_ ?_ ?_
        · exact (AgreeOn.find? hd (List.mem_singleton_self _)).symm.trans hclaim
        · intro x hx
          rw [List.mem_singleton.mp hx]
          exact nofun
        · exact List.mem_append_left _ (List.mem_singleton_self _)
        · rw [hl]
          exact List.mem_append_right _ (List.mem_singleton_self _)

end
/-! ## Operators -/

theorem writes_exec {P : schema.Write → Prop} (hP : ∀ x, P x → x.tab.latched = false) {s : Stmt}
    {e : Fault schema → Error} {k : s.Reply → DbTx hashtext α}
    (h : ∀ d f r, (s.plan f d : DbPlan hashtext _).result = .ok r → ∀ x ∈ r.writes, P x)
    (hk : ∀ reply l w, Writes (dialect hashtext).rely P (k reply) l w) :
    Writes (dialect hashtext).rely P (.exec s e k) l w := by
  intro d f r hr
  have hw := h _ f r hr
  exact ⟨Stmt.writes_guar hr (fun x hx => hP x (hw x hx)) l, hw, hk _ _ _⟩

/-- Writes of `PruneProcessedEvents`. -/
def PruneWrite : schema.Write → Prop
  | .delete .processedEvents _ _ => True
  | .insert .operatorActions r => ActionRow.actionType r = .processedPrune
  | _ => False

theorem PruneWrite.latched {x : schema.Write} (h : PruneWrite x) : x.tab.latched = false := by
  unfold PruneWrite at h
  split at h
  · rfl
  · rfl
  · exact h.elim

theorem pruneProcessedEvents_writes (cutoff : Time) (batchSize : Int) (reason target : String)
    (action : Random) :
    Writes (dialect hashtext).rely PruneWrite
      (pruneProcessedEvents cutoff batchSize reason target action) [] [] := by
  refine writes_exec (fun _ => PruneWrite.latched) ?_ fun _ l w => ?_
  · intro d f r hr x hx
    cases hr
    cases hx
  refine writes_exec (fun _ => PruneWrite.latched) ?_ fun deleted l w => ?_
  · intro d f r hr x hx
    obtain ⟨rows, _, hw, _⟩ := planPrune_ok hr
    rw [hw] at hx
    obtain ⟨row, _, rfl⟩ := List.mem_map.mp hx
    trivial
  refine writes_exec (fun _ => PruneWrite.latched) ?_ fun _ l w => trivial
  intro d f r hr x hx
  obtain ⟨_, _, rfl⟩ := Plan.insert_ok.mp hr
  rw [List.mem_singleton.mp hx]
  rfl

end

end Clearance
