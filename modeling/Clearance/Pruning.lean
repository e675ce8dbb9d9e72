/-
# `Clearance.Pruning` — forgetting processed events

`PruneProcessedEvents` deletes the oldest claims that are past the cutoff, unless a dead
letter could still be replayed with their event: one that is open, or that failed at the
cutoff or later.  `PreviewProcessedPrune` counts the claims by a query of its own.

One prune is described in one go, on any database, while others may hold any locks
(`alone`); the database may fail it at any point.  `pruneTimes` repeats it with nobody
else around: `eligible` is cut into batches.
-/
import Clearance.Paging
import Clearance.Postgres.Outcome
import Clearance.Service.Delivery
import Clearance.Transact.Serial
import Clearance.Transact.Trace

namespace Clearance

open Transact Paging

/-! ## The preview -/

/-- `processedPruneCountSQL` -/
def Db.previewProcessedPrune (d : Db) (cutoff : Time) : Nat :=
  d.processedEvents.rows.countP fun processed =>
    decide (processed.lastSeenAt < cutoff) &&
      !d.deadLetterMessages.rows.any fun dead =>
        dead.eventID == some processed.eventID &&
          (dead.state == .opened || decide (cutoff ≤ dead.firstFailedAt))

/-- The claims that may be deleted, the oldest first. -/
def Db.eligible (d : Db) (cutoff : Time) : List ProcessedRow :=
  (d.processedEvents.rows.filter (prunable d cutoff)).insertionSort fun r s => r.le s

theorem mem_eligible {d : Db} {cutoff : Time} {r : ProcessedRow} :
    r ∈ d.eligible cutoff ↔ r ∈ d.processedEvents.rows ∧ prunable d cutoff r = true := by
  rw [Db.eligible, List.mem_insertionSort, List.mem_filter]

/-- The two queries agree. -/
theorem previewProcessedPrune_eq (d : Db) (cutoff : Time) :
    d.previewProcessedPrune cutoff = (d.eligible cutoff).length := by
  rw [Db.eligible, List.length_insertionSort, ← List.countP_eq_length_filter]
  rfl

theorem prunable_iff {d : Db} {cutoff : Time} {r : ProcessedRow} :
    prunable d cutoff r = true ↔ r.lastSeenAt < cutoff ∧
      ∀ dead ∈ d.deadLetterMessages.rows, dead.eventID = some r.eventID →
        dead.state ≠ .opened ∧ dead.firstFailedAt < cutoff := by
  simp [prunable]

/-! ## The order of the claims -/

/-- What claims are sorted by, upside down. -/
abbrev PruneKey := (Time ×ₗ String ×ₗ String)ᵒᵈ

def ProcessedRow.pruneKey (r : ProcessedRow) : PruneKey :=
  OrderDual.toDual (toLex (r.lastSeenAt, toLex (r.consumerName, r.eventID)))

theorem le_iff_pruneKey (r s : ProcessedRow) : r.le s = true ↔ s.pruneKey ≤ r.pruneKey := by
  simp [ProcessedRow.le, ProcessedRow.pruneKey, Prod.Lex.toLex_le_toLex]

theorem pruneKey_nodup (d : Db) : (d.processedEvents.rows.map ProcessedRow.pruneKey).Nodup := by
  refine List.Nodup.of_map (fun k => ofLex (ofLex (OrderDual.ofDual k)).2) ?_
  rw [List.map_map]
  exact d.processedEvents.nodup

theorem eligible_descending (d : Db) (cutoff : Time) :
    Descending ProcessedRow.pruneKey (d.eligible cutoff) := by
  refine insertionSort_descending le_iff_pruneKey ?_
  exact (pruneKey_nodup d).sublist (List.filter_sublist.map _)

theorem eligible_nodup (d : Db) (cutoff : Time) : (d.eligible cutoff).Nodup := by
  refine (eligible_descending d cutoff).imp ?_
  intro r s hlt heq
  rw [heq] at hlt
  exact lt_irrefl _ hlt

theorem pruneBatch_eq (free : String × String → Bool) (d : Db) (cutoff : Time)
    (batchSize : Int) :
    pruneBatch free d cutoff batchSize =
      ((d.eligible cutoff).filter fun r => free (r.consumerName, r.eventID)).take
        batchSize.toNat := rfl

/-- A batch is part of what may be deleted. -/
theorem pruneBatch_sublist (free : String × String → Bool) (d : Db) (cutoff : Time)
    (batchSize : Int) : (pruneBatch free d cutoff batchSize).Sublist (d.eligible cutoff) :=
  (List.take_sublist _ _).trans List.filter_sublist

theorem pruneBatch_subset {free : String × String → Bool} {d : Db} {cutoff : Time}
    {batchSize : Int} : pruneBatch free d cutoff batchSize ⊆ d.processedEvents.rows :=
  fun _ hr => (mem_eligible.mp ((pruneBatch_sublist free d cutoff batchSize).mem hr)).1

/-! ## One transaction -/

/-- The database without some claims, and with one more operator action. -/
def Db.pruned (d : Db) (rows : List ProcessedRow) (action : ActionRow) : Db :=
  { d with
    processedEvents := d.processedEvents.without rows
    operatorActions := d.operatorActions.insert action }

/-- The record of a prune. -/
def pruneAction (reason target : String) (action : Random) : ActionRow :=
  ⟨newID "act" action, .processedPrune, target, reason⟩

/-- `delete from processed_events` -/
def deleteClaim (r : ProcessedRow) : schema.Write :=
  .delete .processedEvents (r.consumerName, r.eventID) rfl

/-- The writes of a prune. -/
def pruneWrites (rows : List ProcessedRow) (action : ActionRow) : List schema.Write :=
  rows.map deleteClaim ++ [.insert .operatorActions action]

theorem view_deletes (d : Db) (rows : List ProcessedRow) :
    view d (rows.map deleteClaim) =
      { d with
        processedEvents :=
          rows.foldl (fun t r => t.erase (r.consumerName, r.eventID)) d.processedEvents } := by
  induction rows generalizing d with
  | nil => rfl
  | cons r rows ih => exact ih (Schema.apply d (deleteClaim r))

theorem view_pruneWrites {d : Db} {rows : List ProcessedRow} (h : rows ⊆ d.processedEvents.rows)
    (action : ActionRow) : view d (pruneWrites rows action) = d.pruned rows action := by
  have herase : rows.foldl (fun t r => t.erase (r.consumerName, r.eventID)) d.processedEvents =
      d.processedEvents.without rows := Table.foldl_erase h
  have happend : view d (pruneWrites rows action) =
      view (view d (rows.map deleteClaim)) [.insert .operatorActions action] :=
    List.foldl_append ..
  rw [happend, view_deletes, herase]
  rfl

section

variable {hashtext : String → Int} {cutoff : Time} {batchSize : Int} {reason target : String}
  {action : Random} {d : Db}

/-- A prune that commits has deleted a batch. -/
theorem pruneProcessedEvents_commits {n : Nat} {w : List schema.Write}
    (h : Commits (pruneProcessedEvents cutoff batchSize reason target action :
      DbTx hashtext _) d [] n w) :
    ∃ free, n = (pruneBatch free d cutoff batchSize).length ∧
      d.operatorActions.find? (newID "act" action) = none ∧
      w = pruneWrites (pruneBatch free d cutoff batchSize) (pruneAction reason target action) := by
  obtain ⟨_, r, hx, h⟩ := Tx.Runs.of_ok _ h
  cases hx
  obtain ⟨f, r, hx, h⟩ := Tx.Runs.of_ok _ h
  have hx : (planPrune f d cutoff batchSize : DbPlan hashtext Nat).result = .ok r := hx
  unfold planPrune at hx
  split at hx
  · cases hx
  · cases hx
    obtain ⟨_, hkey, h⟩ := Commits.insert_row (t := .operatorActions) h
    obtain ⟨rfl, rfl⟩ := h.ret
    have hfree := Schema.find?_of_free hkey
    refine ⟨_, rfl, ?_, rfl⟩
    exact (congrArg (fun d : Db => d.operatorActions.find? (newID "act" action))
      (view_deletes d _)).symm.trans hfree

/-- The batch when nobody holds a lock. -/
theorem planPrune_alone (hb : 0 ≤ batchSize) :
    (planPrune (fun _ => false) d cutoff batchSize : DbPlan hashtext Nat).result =
      .ok { reply := ((d.eligible cutoff).take batchSize.toNat).length
            writes := ((d.eligible cutoff).take batchSize.toNat).map deleteClaim
            locks := Plan.locksOf (((d.eligible cutoff).take batchSize.toNat).map deleteClaim) } := by
  have hall : pruneBatch (fun _ => true) d cutoff batchSize =
      (d.eligible cutoff).take batchSize.toNat := by
    rw [pruneBatch_eq, List.filter_true]
  unfold planPrune
  rw [if_neg (not_lt.mpr hb)]
  simp only [Bool.not_false, hall]
  rfl

/-- The action can be recorded. -/
theorem insert_action {d : Db} {row : ActionRow} (hreason : charLength 1 256 row.reason = true)
    (hid : d.operatorActions.find? row.id = none) :
    (Plan.insert [⟨.operatorActions, row⟩] d : DbPlan hashtext Unit).result =
      .ok { reply := (), writes := [.insert .operatorActions row]
            locks := Plan.locksOf [.insert .operatorActions row] } := by
  refine Plan.insert_ok.mpr ⟨⟨?_, ?_, trivial⟩, rfl, rfl⟩
  · show firstViolated [("operator_actions_reason_check", charLength 1 256 row.reason)] = none
    rw [hreason]
    rfl
  · intro k hk
    rw [List.mem_singleton.mp hk]
    show (d.operatorActions.find? row.id).isSome = false
    rw [hid]
    rfl

/-- The transaction alone on the database. -/
theorem pruneProcessedEvents_tx_solo (hb : 0 ≤ batchSize)
    (hreason : charLength 1 256 reason = true)
    (hid : d.operatorActions.find? (newID "act" action) = none) :
    (pruneProcessedEvents cutoff batchSize reason target action).solo (dialect hashtext).engine
        d [] =
      .ok (⟨((d.eligible cutoff).take batchSize.toNat).length,
          failing "commit processed-event prune"⟩,
        pruneWrites ((d.eligible cutoff).take batchSize.toNat)
          (pruneAction reason target action)) := by
  have hid' : (view d (((d.eligible cutoff).take batchSize.toNat).map
      deleteClaim)).operatorActions.find? (newID "act" action) = none := by
    rw [view_deletes]
    exact hid
  refine (Tx.solo_exec _ rfl).trans ?_
  refine (Tx.solo_exec _ (planPrune_alone hb)).trans ?_
  show (Tx.exec (Stmt.insert [⟨.operatorActions, pruneAction reason target action⟩])
    (failing "audit processed-event prune") fun _ =>
      commit ((d.eligible cutoff).take batchSize.toNat).length
        "commit processed-event prune").solo (dialect hashtext).engine d
          (((d.eligible cutoff).take batchSize.toNat).map deleteClaim) = _
  generalize (d.eligible cutoff).take batchSize.toNat = rows at hid' ⊢
  have haction : (dialect hashtext).engine.exec
      (.insert [⟨.operatorActions, pruneAction reason target action⟩]) (fun _ => false)
      ((dialect hashtext).engine.view d (rows.map deleteClaim)) = _ :=
    @insert_action hashtext (view d (rows.map deleteClaim)) (pruneAction reason target action)
      hreason hid'
  exact (Tx.solo_exec (dialect hashtext).engine haction).trans rfl

theorem pruneProcessedEvents_solo (hb : 0 ≤ batchSize) (hreason : charLength 1 256 reason = true)
    (hid : d.operatorActions.find? (newID "act" action) = none) :
    ((store hashtext).method (.pruneProcessedEvents cutoff batchSize reason target action)).solo
        (dialect hashtext).engine d =
      (.ok ((d.eligible cutoff).take batchSize.toNat).length,
        d.pruned ((d.eligible cutoff).take batchSize.toNat)
          (pruneAction reason target action)) := by
  have hsub : (d.eligible cutoff).take batchSize.toNat ⊆ d.processedEvents.rows :=
    fun r hr => (mem_eligible.mp (List.mem_of_mem_take hr)).1
  show (let o := Tx.outcome _ (Tx.solo _ _ d []); (o.1, (dialect hashtext).engine.view d o.2)) = _
  rw [pruneProcessedEvents_tx_solo hb hreason hid]
  exact congrArg (Prod.mk _) (view_pruneWrites hsub _)

end

/-! ## Prune after prune -/

/-- What an operator gives for a prune, and what it draws. -/
structure Audit where
  reason : String
  target : String
  action : Random
  deriving DecidableEq

def Audit.row (a : Audit) : ActionRow := pruneAction a.reason a.target a.action

/-- One prune after the other with nobody else around: what each returns, and the database
after them. -/
def pruneTimes (hashtext : String → Int) (cutoff : Time) (batchSize : Int) :
    List Audit → Db → List (Except Error Nat) × Db
  | [], d => ([], d)
  | a :: as, d =>
      let o := ((store hashtext).method (.pruneProcessedEvents cutoff batchSize a.reason a.target
        a.action)).solo (dialect hashtext).engine d
      (o.1 :: (pruneTimes hashtext cutoff batchSize as o.2).1,
        (pruneTimes hashtext cutoff batchSize as o.2).2)

/-- The actions can be recorded: their reasons are of a length the table takes, and their
identifiers are new. -/
structure Recordable (as : List Audit) (d : Db) : Prop where
  reasons : ∀ a ∈ as, charLength 1 256 a.reason = true
  fresh : ∀ a ∈ as, d.operatorActions.find? a.row.id = none
  distinct : (as.map fun a => a.row.id).Nodup

/-- What is left once the first has been recorded. -/
theorem Recordable.tail {a : Audit} {as : List Audit} {d : Db} (h : Recordable (a :: as) d)
    (rows : List ProcessedRow) : Recordable as (d.pruned rows a.row) where
  reasons := (List.forall_mem_cons.mp h.reasons).2
  fresh := by
    intro b hb
    have hne : b.row.id ≠ a.row.id := by
      intro heq
      have hmem : a.row.id ∈ as.map fun a => a.row.id := heq ▸ List.mem_map_of_mem hb
      exact (List.nodup_cons.mp h.distinct).1 hmem
    show (d.operatorActions.insert a.row).find? b.row.id = none
    rw [Table.find?_insert, if_neg fun h => hne h.symm]
    exact (List.forall_mem_cons.mp h.fresh).2 b hb
  distinct := (List.nodup_cons.mp h.distinct).2

/-- What a batch leaves to delete. -/
theorem eligible_pruned (d : Db) (cutoff : Time) (n : Nat) (action : ActionRow) :
    (d.pruned ((d.eligible cutoff).take n) action).eligible cutoff =
      (d.eligible cutoff).drop n := by
  have hsub : ((d.processedEvents.rows.filter (prunable d cutoff)).map
      ProcessedRow.pruneKey).Nodup := (pruneKey_nodup d).sublist (List.filter_sublist.map _)
  have hrows : (d.processedEvents.rows.filter fun r => decide (r ∉ (d.eligible cutoff).take n)).filter
      (prunable d cutoff) = (d.processedEvents.rows.filter (prunable d cutoff)).filter
        fun r => decide (r ∉ (d.eligible cutoff).take n) := by
    rw [List.filter_filter, List.filter_filter]
    simp only [Bool.and_comm]
  calc (d.pruned ((d.eligible cutoff).take n) action).eligible cutoff
      = ((d.processedEvents.rows.filter (prunable d cutoff)).filter
          fun r => decide (r ∉ (d.eligible cutoff).take n)).insertionSort (fun r s => r.le s) :=
        congrArg (List.insertionSort fun r s : ProcessedRow => r.le s) hrows
    _ = (d.eligible cutoff).filter fun r => decide (r ∉ (d.eligible cutoff).take n) :=
        insertionSort_filter le_iff_pruneKey hsub _
    _ = (d.eligible cutoff).drop n := filter_notMem_take (eligible_nodup d cutoff) n

/-- Repeated prunes delete what may be deleted, batch by batch. -/
theorem pruneTimes_eq {hashtext : String → Int} {cutoff : Time} {b : Nat} {as : List Audit}
    {d : Db} (h : Recordable as d) :
    pruneTimes hashtext cutoff b as d =
      ((List.range as.length).map fun k =>
          .ok (((d.eligible cutoff).drop (k * b)).take b).length,
        { d with
          processedEvents := d.processedEvents.without ((d.eligible cutoff).take (as.length * b))
          operatorActions := as.foldl (fun t a => t.insert a.row) d.operatorActions }) := by
  induction as generalizing d with
  | nil =>
      have hnone : d.processedEvents.without [] = d.processedEvents := by
        refine Table.ext ?_
        show d.processedEvents.rows.filter _ = _
        simp
      rw [List.length_nil, Nat.zero_mul, List.take_zero, hnone]
      rfl
  | cons a as ih =>
      have hsolo := @pruneProcessedEvents_solo hashtext cutoff b a.reason a.target a.action d
        (Int.natCast_nonneg b) (h.reasons a List.mem_cons_self) (h.fresh a List.mem_cons_self)
      rw [Int.toNat_natCast] at hsolo
      have hrest := ih (h.tail ((d.eligible cutoff).take b))
      rw [eligible_pruned] at hrest
      have hone : d.pruned ((d.eligible cutoff).take b) (pruneAction a.reason a.target a.action) =
        d.pruned ((d.eligible cutoff).take b) a.row := rfl
      simp only [pruneTimes, hsolo, hone, hrest]
      refine Prod.ext ?_ ?_
      · rw [List.length_cons, List.range_succ_eq_map, List.map_cons, List.map_map]
        simp only [Nat.zero_mul, List.drop_zero, Function.comp_def, List.drop_drop, Nat.succ_mul,
          Nat.add_comm]
      · have htake : (d.eligible cutoff).take b ++ ((d.eligible cutoff).drop b).take (as.length * b) =
            (d.eligible cutoff).take ((as.length + 1) * b) := by
          rw [Nat.succ_mul, Nat.add_comm, List.take_add]
        have hwithout := d.processedEvents.without_append ((d.eligible cutoff).take b)
          (((d.eligible cutoff).drop b).take (as.length * b))
        rw [htake] at hwithout
        simp only [Db.pruned, hwithout, List.length_cons, List.foldl_cons]

/-! ## The service -/

open ProcessedEventsService

/-- Operations executed in one go, while others may hold any locks. -/
def alone (hashtext : String → Int) : Contract (dialect hashtext).engine (store hashtext) where
  spec c := (methodOf c).Runs (dialect hashtext).engine
  outage := IsOutage

/-- The prune a service asks for. -/
def pruneCall (P : Platform) (config : Config) (reason : String) (now : Time) (action : Random) :
    Call :=
  .pruneProcessedEvents (now - config.retention) config.batchSize (trimSpace reason)
    (P.formatRFC3339 (now - config.retention)) action

/-- `d'` is `d` without the rows, of which there are not too many and none that could be
needed, and with one more action. -/
structure SafelyPruned (config : Config) (now cutoff : Time) (rows : List ProcessedRow)
    (action : ActionRow) (d d' : Db) : Prop where
  present : rows ⊆ d.processedEvents.rows
  nodup : rows.Nodup
  bounded : (rows.length : Int) ≤
    if config.batchSize ≤ 0 then 1000 else min config.batchSize 10000
  old : ∀ r ∈ rows, r.lastSeenAt < now -
    if config.replayWindow ≤ 0 then 14 * OperationsService.day else config.replayWindow
  unneeded : ∀ r ∈ rows, ∀ dead ∈ d.deadLetterMessages.rows, dead.eventID = some r.eventID →
    dead.state ≠ .opened ∧ dead.firstFailedAt < cutoff
  after : d' = d.pruned rows action
  recorded : d'.operatorActions.rows = d.operatorActions.rows ++ [action]

/-- The configuration in use. -/
theorem configure_ok {config effective : Config} (h : configure config = .ok effective) :
    OperationsService.replayWindow config.replayWindow ≤ effective.retention ∧
      effective.batchSize =
        if config.batchSize ≤ 0 then 1000 else min config.batchSize 10000 := by
  unfold configure at h
  generalize (if config.retention ≤ 0 then 30 * OperationsService.day else config.retention) =
    retention at h
  dsimp only at h
  split at h
  · cases h
  · next hsafe =>
      cases h
      refine ⟨not_lt.mp hsafe, ?_⟩
      dsimp only
      split <;> rfl

theorem safelyPruned_of_commits {hashtext : String → Int} {config effective : Config}
    (hconfig : configure config = .ok effective) {reason target : String} {now : Time}
    {action : Random} {d : Db} {n : Nat} {w : List schema.Write}
    (h : Commits (pruneProcessedEvents (now - effective.retention) effective.batchSize reason
      target action : DbTx hashtext _) d [] n w) :
    ∃ rows, n = rows.length ∧
      SafelyPruned config now (now - effective.retention) rows (pruneAction reason target action) d
        (view d w) := by
  obtain ⟨free, rfl, hfresh, rfl⟩ := pruneProcessedEvents_commits h
  obtain ⟨hwindow, hbatch⟩ := configure_ok hconfig
  have hpruned := fun r hr => prunable_iff.mp (mem_eligible.mp ((pruneBatch_sublist free d
    (now - effective.retention) effective.batchSize).mem (a := r) hr)).2
  have hpos : 0 ≤ effective.batchSize := by
    rw [hbatch]
    split <;> omega
  refine ⟨_, rfl, pruneBatch_subset, ?_, ?_, ?_, fun r hr => (hpruned r hr).2, ?_, ?_⟩
  · exact (eligible_nodup d _).sublist (pruneBatch_sublist ..)
  · rw [← hbatch]
    have hlen := List.length_take_le effective.batchSize.toNat
      ((d.eligible (now - effective.retention)).filter fun r => free (r.consumerName, r.eventID))
    rw [← pruneBatch_eq] at hlen
    omega
  · intro r hr
    have hold := (hpruned r hr).1
    exact hold.trans_le (sub_le_sub_left hwindow now)
  · exact view_pruneWrites pruneBatch_subset _
  · rw [view_pruneWrites pruneBatch_subset]
    exact Table.rows_insert hfresh

/-- A prune refuses its reason, or asks the store once. -/
theorem prune_made {P : Platform} {config : Config} {reason : String} {now : Time}
    {action : Random} {i : Nat} {g : List (Entry (dialect P.hashtext).engine (store P.hashtext))}
    {res : Except Error (Time × Nat)}
    (h : (prune P config reason now action).Made i g (.ret res)) :
    (g = [] ∧ ∃ e, res = .error e) ∨
      ∃ o : Op (dialect P.hashtext).engine Error Nat,
        g = [⟨i, pruneCall P config reason now action, o⟩] ∧
        ((∃ e, o.answer = .error e ∧ ∃ e', res = .error e') ∨
          ∃ n, o.answer = .ok n ∧ res = .ok (now - config.retention, n)) := by
  unfold prune at h
  dsimp only at h
  split at h
  · obtain ⟨rfl, heq⟩ := Svc.made_ret.mp h
    cases heq
    exact Or.inl ⟨rfl, _, rfl⟩
  · rcases Svc.made_call.mp h with ⟨_, heq⟩ | ⟨o, g', rfl, hrest⟩
    · cases heq
    · right
      cases ha : o.answer with
      | error e =>
          rw [ha] at hrest
          obtain ⟨rfl, heq⟩ := Svc.made_ret.mp hrest
          cases heq
          exact ⟨o, rfl, Or.inl ⟨e, ha, _, rfl⟩⟩
      | ok n =>
          rw [ha] at hrest
          obtain ⟨rfl, heq⟩ := Svc.made_ret.mp hrest
          cases heq
          exact ⟨o, rfl, Or.inr ⟨n, ha, rfl⟩⟩

/-- What the operation did, and what its caller was told. -/
theorem prune_allowed {P : Platform} {config effective : Config}
    (hconfig : configure config = .ok effective) {reason : String} {now : Time} {action : Random}
    {o : Op (dialect P.hashtext).engine Error Nat}
    (h : (alone P.hashtext).Allows (pruneCall P effective reason now action) o) :
    (view o.before o.writes = o.before ∧ ∃ e, o.answer = .error e) ∨
      ∃ rows, SafelyPruned config now (now - effective.retention) rows
          (pruneAction (trimSpace reason) (P.formatRFC3339 (now - effective.retention)) action)
          o.before (view o.before o.writes) ∧
        (o.answer = .ok rows.length ∨ o.outage = true ∧ ∃ e, o.answer = .error e) := by
  cases hreply : o.reply with
  | error e =>
      left
      have hw : o.writes = [] := h.writes_nil (fun hs => Tx.Runs.writes_nil _ hs) hreply
      refine ⟨by rw [hw]; rfl, ?_⟩
      cases ha : o.answer with
      | error e' => exact ⟨e', rfl⟩
      | ok n =>
          have htold := h.told ha
          rw [hreply] at htold
          cases htold
  | ok n =>
      right
      obtain ⟨rows, rfl, hsafe⟩ := safelyPruned_of_commits hconfig (h.spec hreply)
      refine ⟨rows, hsafe, ?_⟩
      cases hout : o.outage with
      | false => exact Or.inl ((h.answered hout).trans hreply)
      | true =>
          cases ha : o.answer with
          | error e' => exact Or.inr ⟨rfl, e', rfl⟩
          | ok m => exact Or.inl (ha ▸ (h.told ha).symm.trans hreply)

/-- A prune whose action can be recorded succeeds, on every database. -/
theorem prune_succeeds {P : Platform} {config : Config} {reason : String} {now : Time}
    {action : Random} {d : Db} (hb : 0 ≤ config.batchSize)
    (hreason : ¬ (byteLength (trimSpace reason) = 0 ∨ 256 < byteLength (trimSpace reason)))
    (hrec : charLength 1 256 (trimSpace reason) = true)
    (hid : d.operatorActions.find? (newID "act" action) = none) (i : Nat) :
    ∃ (o : Op (dialect P.hashtext).engine Error Nat) (n : Nat), o.before = d ∧
      (alone P.hashtext).Allows (pruneCall P config reason now action) o ∧
      (prune P config reason now action).Made i [⟨i, pruneCall P config reason now action, o⟩]
        (.ret (.ok (now - config.retention, n))) := by
  have hruns := Tx.runs_of_solo (dialect P.hashtext).engine (d := d)
    (pruneProcessedEvents (now - config.retention) config.batchSize (trimSpace reason)
      (P.formatRFC3339 (now - config.retention)) action) []
  rw [pruneProcessedEvents_tx_solo hb hrec hid] at hruns
  refine ⟨.committed d _ _, ((d.eligible (now - config.retention)).take
    config.batchSize.toNat).length, rfl, .committed hruns, ?_⟩
  unfold prune
  dsimp only
  rw [if_neg hreason]
  exact .cons .nil

/-- Pruning is safe, bounded, and agrees with its preview. -/
theorem prune_agrees (P : Platform) :
    (∀ (config effective : Config) (reason : String) (now : Time) (action : Random) (i : Nat)
      (g : List (Entry (dialect P.hashtext).engine (store P.hashtext)))
      (res : Except Error (Time × Nat)),
      configure config = .ok effective →
      (prune P effective reason now action).Made i g (.ret res) →
      (∀ e ∈ g, (alone P.hashtext).Allows e.call e.op) →
      (g = [] ∧ ∃ e, res = .error e) ∨
      ∃ o : Op (dialect P.hashtext).engine Error Nat,
        g = [⟨i, pruneCall P effective reason now action, o⟩] ∧
        ((view o.before o.writes = o.before ∧ ∃ e, res = .error e) ∨
          ∃ rows, SafelyPruned config now (now - effective.retention) rows
              (pruneAction (trimSpace reason) (P.formatRFC3339 (now - effective.retention)) action)
              o.before (view o.before o.writes) ∧
            (res = .ok (now - effective.retention, rows.length) ∨
              o.outage = true ∧ ∃ e, res = .error e))) ∧
    ∀ (cutoff : Time) (b : Nat) (as : List Audit) (d : Db), 0 < b → Recordable as d →
      (pruneTimes P.hashtext cutoff b as d).1 = ((List.range as.length).map fun k =>
        .ok (((d.eligible cutoff).drop (k * b)).take b).length) ∧
      (pruneTimes P.hashtext cutoff b as d).2 =
        { d with
          processedEvents := d.processedEvents.without ((d.eligible cutoff).take (as.length * b))
          operatorActions := as.foldl (fun t a => t.insert a.row) d.operatorActions } ∧
      (d.eligible cutoff).length = d.previewProcessedPrune cutoff ∧
      (∀ k n, (d.previewProcessedPrune cutoff + b - 1) / b ≤ k →
        (pruneTimes P.hashtext cutoff b as d).1[k]? = some (.ok n) → n = 0) := by
  refine ⟨?_, ?_⟩
  · intro config effective reason now action i g res hconfig hmade hallowed
    rcases prune_made hmade with hrefused | ⟨o, rfl, hanswer⟩
    · exact Or.inl hrefused
    · refine Or.inr ⟨o, rfl, ?_⟩
      have hdone := prune_allowed hconfig (hallowed _ (List.mem_singleton_self _))
      rcases hanswer with ⟨e, ha, hres⟩ | ⟨n, ha, hres⟩
      · rcases hdone with ⟨hsame, _⟩ | ⟨rows, hsafe, hok | ⟨hout, _⟩⟩
        · exact Or.inl ⟨hsame, hres⟩
        · rw [ha] at hok
          cases hok
        · exact Or.inr ⟨rows, hsafe, Or.inr ⟨hout, hres⟩⟩
      · rcases hdone with ⟨_, e, he⟩ | ⟨rows, hsafe, hok | ⟨_, e, he⟩⟩
        · rw [ha] at he
          cases he
        · rw [ha] at hok
          cases hok
          exact Or.inr ⟨rows, hsafe, Or.inl hres⟩
        · rw [ha] at he
          cases he
  · intro cutoff b as d hb has
    have htimes := @pruneTimes_eq P.hashtext cutoff b as d has
    refine ⟨congrArg Prod.fst htimes, congrArg Prod.snd htimes,
      (previewProcessedPrune_eq d cutoff).symm, fun k n hk hn => ?_⟩
    rw [htimes, List.getElem?_map] at hn
    obtain ⟨j, hj, heq⟩ := Option.map_eq_some_iff.mp hn
    obtain rfl : k = j := by
      obtain ⟨hlt, hget⟩ := List.getElem?_eq_some_iff.mp hj
      rwa [List.getElem_range] at hget
    cases heq
    rw [previewProcessedPrune_eq] at hk
    have hdone : (d.eligible cutoff).length ≤ k * b := by
      have hle := (Nat.div_le_iff_le_mul_add_pred hb).mp hk
      rw [Nat.mul_comm] at hle
      omega
    rw [List.drop_eq_nil_of_le hdone, List.take_nil, List.length_nil]

/-- A claim of an event. -/
def seen (consumerName eventID : String) (lastSeenAt : Time) : ProcessedRow :=
  ⟨consumerName, eventID, .fill 64 0, none, 0, 0, lastSeenAt⟩

/-- Two claims long ago, and one of today. -/
def threeClaims : Db :=
  { Db.empty with
    processedEvents :=
      ⟨[seen "ledger-service" "evt_1" 0,
        seen "ledger-service" "evt_2" (100 * OperationsService.day),
        seen "risk-service" "evt_1" 0], by decide⟩ }

theorem prune_agrees_threeClaims :
    (∃ rows, SafelyPruned ⟨0, 0, 0⟩ (100 * OperationsService.day) (70 * OperationsService.day)
        rows (pruneAction "tidy" "" (.fill 32 0xa)) threeClaims
        (threeClaims.pruned rows (pruneAction "tidy" "" (.fill 32 0xa)))) ∧
    (pruneTimes (fun _ => 0) (70 * OperationsService.day) 1
        [⟨"tidy", "", .fill 32 0xa⟩, ⟨"tidy", "", .fill 32 0xb⟩,
          ⟨"tidy", "", .fill 32 0xc⟩] threeClaims).1 = [.ok 1, .ok 1, .ok 0] := by
  obtain ⟨hone, hall⟩ := prune_agrees .plain
  have hrec : Recordable [⟨"tidy", "", .fill 32 0xa⟩, ⟨"tidy", "", .fill 32 0xb⟩,
      ⟨"tidy", "", .fill 32 0xc⟩] threeClaims :=
    ⟨by decide +kernel, by decide +kernel, by decide +kernel⟩
  constructor
  · -- the first of the prunes, as the service makes it
    have hconfig : configure ⟨0, 0, 0⟩ =
        .ok ⟨30 * OperationsService.day, 14 * OperationsService.day, 1000⟩ := by decide +kernel
    have hcutoff : 100 * OperationsService.day - 30 * OperationsService.day =
        70 * OperationsService.day := by decide +kernel
    have hreason : trimSpace "tidy" = "tidy" := by decide +kernel
    obtain ⟨o, n, hbefore, hallows, hmade⟩ := @prune_succeeds .plain
      ⟨30 * OperationsService.day, 14 * OperationsService.day, 1000⟩ "tidy"
      (100 * OperationsService.day) (.fill 32 0xa) threeClaims (by decide)
      (by decide +kernel) (by decide +kernel) (by decide +kernel) 0
    obtain ⟨hnil, _⟩ | ⟨o', ho, hdone⟩ := hone _ _ _ _ _ 0 _ _ hconfig hmade
      (List.forall_mem_singleton.mpr hallows)
    · cases hnil
    · cases ho
      obtain ⟨_, e, he⟩ | ⟨rows, hsafe, _⟩ := hdone
      · cases he
      · rw [hsafe.after, hbefore, hreason] at hsafe
        exact ⟨rows, hcutoff ▸ hsafe⟩
  · refine (hall (70 * OperationsService.day) 1 _ threeClaims Nat.one_pos hrec).1.trans ?_
    decide +kernel

end Clearance
