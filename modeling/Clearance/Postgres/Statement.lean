/-
# `Clearance.Postgres.Statement` — the SQL the store sends

The statements of `internal/postgres` with their parameters; `now` is the value of
`now()` in the transaction.  Insertions are one constructor, and so are updates by
primary key, each under its own name as an instance of it.  `plan` says what a
statement does at READ COMMITTED, in terms of the plans of `Transact.Sql`, and
`dialect` packs them into an engine.

`INSERT ... SELECT` is two steps, since the rows it selects come from the snapshot
taken when it starts and the unique indexes are looked at later: another
transaction may commit in between.

Texts are ordered by code point.  `RowsAffected()` of an UPDATE by primary key is
whether a row came back.
-/
import Clearance.Postgres.Schema

namespace Clearance

open Transact

/-- A row of any table. -/
abbrev Row := Plan.AnyRow schema

inductive Stmt where
  /-- `select pg_advisory_xact_lock(hashtext($1), hashtext($2))` -/
  | advisoryXactLock (a b : String)
  /-- `select pg_advisory_xact_lock(hashtext($1))` -/
  | advisoryXactLockOne (a : String)
  /-- `insert into ... values ...` -/
  | insert (rows : List Row)
  /-- `update ... where <primary key> and <guard>`, with its new values -/
  | update (t : Tab) (k : t.Key) (guard : t.Row → Bool) (u : t.Upd)
  | claimProcessed (row : ProcessedRow)
  | existsProcessed (eventID : String)
  | pruneProcessed (cutoff : Time) (batchSize : Int)
  | selectTransactionForUpdate (id : String)
  | sumLedger (accountID currency : String)
  | selectIdempotency (key : String)
  | selectDepositIdempotency (key : String)
  | claimOutbox (now : Time)
  | selectOutboxStatus (id : String)
  | upsertDeadLetter (row : DeadLetterRow)
  | selectDeadLetter (id : String)
  | failStaleReplays (deadLetterID : String) (now : Time)
  /-- `select ... from dead_letter_messages where id = $2 and state = 'OPEN'` -/
  | selectOpenDeadLetter (id : String)
  /-- `insert into dead_letter_replay_attempts ... on conflict do nothing` -/
  | insertReplay (row : ReplayRow)
  | finishReplay (id : String) (result : AttemptResult) (errorMessage : Option String) (now : Time)

@[reducible] def Stmt.Reply : Stmt → Type
  | .advisoryXactLock .. | .advisoryXactLockOne .. | .insert .. | .failStaleReplays .. => Unit
  | .update t .. => Option t.Row
  | .claimProcessed .. | .existsProcessed .. | .selectOpenDeadLetter .. | .insertReplay .. => Bool
  | .pruneProcessed .. => Nat
  | .selectTransactionForUpdate .. => Option TransactionRow
  | .sumLedger .. => Int
  | .selectIdempotency .. => Option IdempotencyRow
  | .selectDepositIdempotency .. => Option DepositKeyRow
  | .claimOutbox .. => Option OutboxRow
  | .selectOutboxStatus .. => Option OutboxStatus
  | .upsertDeadLetter .. => DeadLetterRow
  | .selectDeadLetter .. => Option DeadLetterRow
  | .finishReplay .. => Option ReplayRow

namespace Stmt

/-- `update processed_events set last_seen_at = now() ... returning payload_sha256` -/
abbrev refreshProcessed (consumerName eventID : String) (now : Time) : Stmt :=
  .update .processedEvents (consumerName, eventID) (fun _ => true) ⟨now⟩

/-- `update transactions set status = $2, ... where id = $1 and status = $5` -/
abbrev finalizeTransaction (id : String) (u : Finalize) : Stmt :=
  .update .transactions id (fun r => TransactionRow.status r == .pending) u

abbrev markOutboxPublished (id : String) (now : Time) : Stmt :=
  .update .outboxEvents id (fun r => OutboxRow.status r == .processing) (.publish now)

abbrev markOutboxFailed (id : String) (maxAttempts : Int) (now : Time) : Stmt :=
  .update .outboxEvents id (fun r => OutboxRow.status r == .processing) (.fail maxAttempts now)

abbrev requeueOutbox (id : String) (now : Time) : Stmt :=
  .update .outboxEvents id (fun r => OutboxRow.status r == .deadLettered) (.requeue now)

abbrev markDeadLetterPublished (id : String) (publishedAt : Time) : Stmt :=
  .update .deadLetterMessages id (fun _ => true) (.published publishedAt)

abbrev republishDeadLetter (id : String) : Stmt :=
  .update .deadLetterMessages id (fun r => DeadLetterRow.state r == .opened) .republished

end Stmt

/-- `interval '5 minutes'` -/
def fiveMinutes : Time := 300000000000

/-! ## Statements over many rows -/

/-- `where processed.last_seen_at < $1 and not exists (...)` -/
def prunable (d : Db) (cutoff : Time) (r : ProcessedRow) : Bool :=
  decide (r.lastSeenAt < cutoff) &&
    !d.deadLetterMessages.rows.any fun dead =>
      dead.eventID == some r.eventID &&
        (dead.state == .opened || decide (cutoff ≤ dead.firstFailedAt))

/-- `order by last_seen_at, consumer_name, event_id` -/
def ProcessedRow.le (r s : ProcessedRow) : Bool :=
  decide (r.lastSeenAt < s.lastSeenAt) ||
    (r.lastSeenAt == s.lastSeenAt &&
      (decide (r.consumerName < s.consumerName) ||
        (r.consumerName == s.consumerName && decide (r.eventID ≤ s.eventID))))

/-- The rows `PruneProcessedEvents` deletes: the oldest that nobody has locked. -/
def pruneBatch (free : String × String → Bool) (d : Db) (cutoff : Time) (batchSize : Int) :
    List ProcessedRow :=
  (((d.processedEvents.rows.filter (prunable d cutoff)).insertionSort fun r s => r.le s).filter
    fun r => free (r.consumerName, r.eventID)).take batchSize.toNat

/-- `where status = $1 or (status = $2 and updated_at < now() - interval '5 minutes')` -/
def claimable (now : Time) (r : OutboxRow) : Bool :=
  r.status == .pending || (r.status == .processing && decide (r.updatedAt < now - fiveMinutes))

/-- `order by created_at, id` -/
def OutboxRow.le (r s : OutboxRow) : Bool :=
  decide (r.createdAt < s.createdAt) || (r.createdAt == s.createdAt && decide (r.id ≤ s.id))

/-- The row `NextPending` claims: the first that nobody has locked. -/
def nextEvent (free : String → Bool) (d : Db) (now : Time) : Option OutboxRow :=
  ((d.outboxEvents.rows.filter (claimable now)).insertionSort fun r s => r.le s).find?
    fun r => free r.id

/-- The record of the same message. -/
def sameSource (r s : DeadLetterRow) : Bool :=
  r.consumerName == s.consumerName && r.sourceTopic == s.sourceTopic &&
    r.sourcePartition == s.sourcePartition && r.sourceOffset == s.sourceOffset

/-- `do update set last_failed_at = excluded.last_failed_at, ...` -/
def excluded (row : DeadLetterRow) : DeadLetterUpdate :=
  .failedAgain row.lastFailedAt row.errorClass row.errorMessage

/-- The pending attempts to replay a dead letter. -/
def pendingReplays (d : Db) (deadLetterID : String) : List ReplayRow :=
  d.deadLetterReplayAttempts.rows.filter fun r =>
    r.deadLetterID == deadLetterID && r.result == .pending

/-- An attempt that has been pending for too long. -/
def stale (now : Time) (r : ReplayRow) : Bool := decide (r.createdAt < now - fiveMinutes)

/-- `set result = 'FAILED', error_message = 'stale pending replay recovered', ...` -/
def recoverStale (deadLetterID : String) (now : Time) (r : ReplayRow) : schema.Write :=
  .update .deadLetterReplayAttempts r.id
    ⟨deadLetterID, .failed, some "stale pending replay recovered", now⟩

/-! ## Plans -/

section

variable (hashtext : String → Int)

/-- Plans of the database's statements. -/
abbrev DbPlan (α : Type) := Plan (latches hashtext) α

abbrev DbLock := Lock (latches hashtext)

variable {hashtext}

def planPrune (f : DbLock hashtext → Bool) (d : Db) (cutoff : Time) (batchSize : Int) :
    DbPlan hashtext Nat :=
  if batchSize < 0 then ⟨[], .error (.data "LIMIT must not be negative")⟩
  else
    let rows := pruneBatch (fun k => !f (.unique (.row .processedEvents k))) d cutoff batchSize
    .skip rows.length
      (rows.map fun r => .delete .processedEvents (r.consumerName, r.eventID) rfl)

def planClaimOutbox (f : DbLock hashtext → Bool) (d : Db) (now : Time) :
    DbPlan hashtext (Option OutboxRow) :=
  match nextEvent (fun k => !f (.unique (.row .outboxEvents k))) d now with
  | none => ⟨[], .ok { reply := none }⟩
  | some r =>
      .skip (some ((OutboxUpdate.claim now).apply r)) [.update .outboxEvents r.id (.claim now)]

/-- What keeps a dead letter out of the table: a header `jsonb` does not take, a NULL,
or a CHECK. -/
def DeadLetterRow.fault? (row : DeadLetterRow) : Option (Fault schema) :=
  if row.headers.any fun h => !jsonText h.key then
    some (.data "unsupported Unicode escape sequence")
  else
    match row.null? with
    | some c => some (.notNull c)
    | none => (firstViolated row.checks).map .check

def planUpsertDeadLetter (d : Db) (row : DeadLetterRow) : DbPlan hashtext DeadLetterRow :=
  match row.fault? with
  | some e => ⟨[], .error e⟩
  | none =>
      match d.deadLetterMessages.rows.find? (sameSource row) with
      | some old =>
          match firstViolated ((excluded row).apply old).checks with
          | some c => ⟨[], .error (.check c)⟩
          | none =>
              .write ((excluded row).apply old)
                [.update .deadLetterMessages old.id (excluded row)]
      | none =>
          if (d.deadLetterMessages.find? row.id).isSome then
            ⟨[], .error (.unique (.row .deadLetterMessages row.id))⟩
          else .write row [.insert .deadLetterMessages row]

def planFailStaleReplays (d : Db) (deadLetterID : String) (now : Time) : DbPlan hashtext Unit :=
  match (pendingReplays d deadLetterID).filter (stale now) with
  | [] => ⟨[], .ok { reply := () }⟩
  | rows =>
      .writeUnder (.pendingReplay deadLetterID) () (rows.map (recoverStale deadLetterID now))

/-- The foreign key holds: the dead letter has been selected, and none is ever deleted. -/
def planInsertReplay (d : Db) (row : ReplayRow) : DbPlan hashtext Bool :=
  match firstViolated row.checks with
  | some c => ⟨[], .error (.check c)⟩
  | none =>
      if (d.deadLetterReplayAttempts.find? row.id).isSome ||
          !(pendingReplays d row.deadLetterID).isEmpty then
        ⟨[.named (.pendingReplay row.deadLetterID)], .ok { reply := false }⟩
      else
        .writeUnder (.pendingReplay row.deadLetterID) true
          [.insert .deadLetterReplayAttempts row]

def planFinishReplay (d : Db) (id : String) (u : String → ReplayUpdate) :
    DbPlan hashtext (Option ReplayRow) :=
  match (d.deadLetterReplayAttempts.find? id).filter fun r => r.result == .pending with
  | none => ⟨[], .ok { reply := none }⟩
  | some r =>
      match firstViolated ((u r.deadLetterID).apply r).checks with
      | some c => ⟨[], .error (.check c)⟩
      | none =>
          .writeUnder (.pendingReplay r.deadLetterID) (some ((u r.deadLetterID).apply r))
            [.update .deadLetterReplayAttempts id (u r.deadLetterID)]

/-- What each statement does. -/
def Stmt.plan : (s : Stmt) → (DbLock hashtext → Bool) → Db → DbPlan hashtext s.Reply
  | .advisoryXactLock a b, _, _ => .latch (.pair (hashtext a) (hashtext b))
  | .advisoryXactLockOne a, _, _ => .latch (.single (hashtext a))
  | .insert rows, _, d => .insert rows d
  | .update t k g u, _, d => @Plan.updateRow schema _ t k g u d
  | .claimProcessed row, _, d => @Plan.insertOrSkip schema _ .processedEvents row d
  | .existsProcessed e, _, d => .read (.ok (d.processedEvents.rows.any fun r => r.eventID == e))
  | .pruneProcessed cutoff batchSize, f, d => planPrune f d cutoff batchSize
  | .selectTransactionForUpdate id, _, d => @Plan.lockRow schema _ .transactions id d
  | .sumLedger a c, _, d =>
      .read (if isBigint (d.balance a c) then .ok (d.balance a c)
        else .error (.data "bigint out of range"))
  | .selectIdempotency k, _, d => .read (.ok (d.idempotencyKeys.find? k))
  | .selectDepositIdempotency k, _, d => .read (.ok (d.depositIdempotencyKeys.find? k))
  | .claimOutbox now, f, d => planClaimOutbox f d now
  | .selectOutboxStatus id, _, d => .read (.ok ((d.outboxEvents.find? id).map OutboxRow.status))
  | .upsertDeadLetter row, _, d => planUpsertDeadLetter d row
  | .selectDeadLetter id, _, d => .read (.ok (d.deadLetterMessages.find? id))
  | .failStaleReplays id now, _, d => planFailStaleReplays d id now
  | .selectOpenDeadLetter id, _, d =>
      .read (.ok ((d.deadLetterMessages.find? id).any fun r => r.state == .opened))
  | .insertReplay row, _, d => planInsertReplay d row
  | .finishReplay id result errorMessage now, _, d =>
      planFinishReplay d id fun deadLetterID => ⟨deadLetterID, result, errorMessage, now⟩

/-! ## The dialect -/

/-- Statements that skip locked rows. -/
def Stmt.skips : Stmt → Bool
  | .pruneProcessed .. | .claimOutbox .. => true
  | _ => false

/-- Only these look at the locks of others. -/
theorem Stmt.plan_quiet {s : Stmt} (h : s.skips = false) (f g : DbLock hashtext → Bool) (d : Db) :
    s.plan f d = s.plan g d := by
  cases s <;> first | rfl | cases h

theorem planUpsertDeadLetter_sane (d : Db) (row : DeadLetterRow) :
    (planUpsertDeadLetter d row : DbPlan hashtext DeadLetterRow).Sane := by
  unfold planUpsertDeadLetter
  split
  · exact Plan.error_sane _ _
  · split
    · split
      · exact Plan.error_sane _ _
      · exact Plan.write_sane _ _
    · split
      · exact Plan.error_sane _ _
      · exact Plan.write_sane _ _

theorem planFailStaleReplays_sane (d : Db) (deadLetterID : String) (now : Time) :
    (planFailStaleReplays d deadLetterID now : DbPlan hashtext Unit).Sane := by
  unfold planFailStaleReplays
  split
  · exact Plan.idle_sane _ _
  · exact Plan.writeUnder_sane _ _ _

theorem planInsertReplay_sane (d : Db) (row : ReplayRow) :
    (planInsertReplay d row : DbPlan hashtext Bool).Sane := by
  unfold planInsertReplay
  split
  · exact Plan.error_sane _ _
  · split
    · exact Plan.idle_sane _ _
    · exact Plan.writeUnder_sane _ _ _

theorem planFinishReplay_sane (d : Db) (id : String) (u : String → ReplayUpdate) :
    (planFinishReplay d id u : DbPlan hashtext (Option ReplayRow)).Sane := by
  unfold planFinishReplay
  split
  · exact Plan.idle_sane _ _
  · split
    · exact Plan.error_sane _ _
    · exact Plan.writeUnder_sane _ _ _

theorem Stmt.plan_sane {s : Stmt} (h : s.skips = false) (f : DbLock hashtext → Bool) (d : Db) :
    (s.plan f d).Sane := by
  cases s with
  | advisoryXactLock _ _ => exact Plan.latch_sane _
  | advisoryXactLockOne _ => exact Plan.latch_sane _
  | insert rows => exact Plan.insert_sane rows
  | update t k g u => exact @Plan.updateRow_sane schema _ _ t k g u
  | claimProcessed row => exact @Plan.insertOrSkip_sane schema _ _ .processedEvents row
  | existsProcessed _ => exact Plan.read_sane _
  | pruneProcessed _ _ => cases h
  | selectTransactionForUpdate _ => exact @Plan.lockRow_sane schema _ _ .transactions _
  | sumLedger _ _ => exact Plan.read_sane _
  | selectIdempotency _ => exact Plan.read_sane _
  | selectDepositIdempotency _ => exact Plan.read_sane _
  | claimOutbox _ => cases h
  | selectOutboxStatus _ => exact Plan.read_sane _
  | upsertDeadLetter row => exact planUpsertDeadLetter_sane d row
  | selectDeadLetter _ => exact Plan.read_sane _
  | failStaleReplays id now => exact planFailStaleReplays_sane d id now
  | selectOpenDeadLetter _ => exact Plan.read_sane _
  | insertReplay row => exact planInsertReplay_sane d row
  | finishReplay id result errorMessage now => exact planFinishReplay_sane d id _

theorem pruneBatch_free {free : String × String → Bool} {d : Db} {cutoff : Time}
    {batchSize : Int} {r : ProcessedRow} (h : r ∈ pruneBatch free d cutoff batchSize) :
    free (r.consumerName, r.eventID) = true :=
  (List.mem_filter.mp (List.mem_of_mem_take h)).2

/-- A successful prune: the batch is deleted, and locked until the commit. -/
theorem planPrune_ok {f : DbLock hashtext → Bool} {d : Db} {cutoff : Time} {batchSize : Int}
    {r : Effect schema.Write (DbLock hashtext) Nat}
    (h : (planPrune f d cutoff batchSize).result = .ok r) :
    ∃ rows : List ProcessedRow,
      (∀ row ∈ rows,
        f (.unique (.row .processedEvents (row.consumerName, row.eventID))) = false) ∧
      r.writes = rows.map (fun row =>
        .delete .processedEvents (row.consumerName, row.eventID) rfl) ∧
      r.locks = Plan.locksOf r.writes := by
  unfold planPrune at h
  split at h
  · cases h
  · cases h
    refine ⟨_, fun row hrow => ?_, rfl, rfl⟩
    simpa using pruneBatch_free hrow

/-- A successful claim: nothing, or one row that was free. -/
theorem planClaimOutbox_ok {f : DbLock hashtext → Bool} {d : Db} {now : Time}
    {r : Effect schema.Write (DbLock hashtext) (Option OutboxRow)}
    (h : (planClaimOutbox f d now).result = .ok r) :
    r = { reply := none } ∨
      ∃ row, nextEvent (fun k => !f (.unique (.row .outboxEvents k))) d now = some row ∧
        r = { reply := some ((OutboxUpdate.claim now).apply row)
              writes := [.update .outboxEvents row.id (.claim now)]
              locks := [.unique (.row .outboxEvents row.id)] } := by
  unfold planClaimOutbox at h
  split at h
  · cases h; exact Or.inl rfl
  · next row hrow =>
      cases h
      exact Or.inr ⟨row, hrow, rfl⟩

theorem Stmt.plan_waits {s : Stmt} {f : DbLock hashtext → Bool} {d : Db}
    {r : Effect schema.Write (DbLock hashtext) s.Reply} (h : (s.plan f d).result = .ok r) :
    ∀ k ∈ r.locks, k ∈ (s.plan (fun _ => false) d : DbPlan hashtext s.Reply).waits ∨
      f k = false := by
  intro k hk
  cases hs : s.skips with
  | false =>
      left
      rw [Stmt.plan_quiet hs f (fun _ => false)] at h
      exact (Stmt.plan_sane hs _ d r h).1 hk
  | true =>
      right
      cases s with
      | pruneProcessed cutoff batchSize =>
          obtain ⟨rows, hfree, hw, hl⟩ := planPrune_ok h
          rw [hl, hw, Plan.locksOf, List.flatMap_map] at hk
          obtain ⟨row, hrow, hk⟩ := List.mem_flatMap.mp hk
          rw [List.mem_singleton.mp hk]
          exact hfree row hrow
      | claimOutbox now =>
          rcases planClaimOutbox_ok h with rfl | ⟨row, hrow, rfl⟩
          · cases hk
          · rw [List.mem_singleton.mp hk]
            simpa using List.find?_some hrow
      | _ => cases hs

theorem Stmt.plan_writes {s : Stmt} {f : DbLock hashtext → Bool} {d : Db}
    {r : Effect schema.Write (DbLock hashtext) s.Reply} (h : (s.plan f d).result = .ok r) :
    ∀ x ∈ r.writes, x.uniques (latches hashtext) ⊆ r.locks := by
  intro x hx
  cases hs : s.skips with
  | false => exact (Stmt.plan_sane hs f d r h).2 x hx
  | true =>
      cases s with
      | pruneProcessed cutoff batchSize =>
          obtain ⟨_, _, _, hl⟩ := planPrune_ok h
          rw [hl]
          exact Plan.uniques_subset_locksOf hx
      | claimOutbox now =>
          rcases planClaimOutbox_ok h with rfl | ⟨row, _, rfl⟩
          · cases hx
          · rw [List.mem_singleton.mp hx]
            exact List.Subset.refl _
      | _ => cases hs

variable (hashtext) in
/-- The statements of the store. -/
@[reducible] def dialect : Dialect (latches hashtext) where
  Stmt := Stmt
  Reply := Stmt.Reply
  plan := Stmt.plan
  waits_locks := Stmt.plan_waits
  writes_locked := Stmt.plan_writes

end

end Clearance
