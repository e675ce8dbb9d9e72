/-
# `Clearance.Draining` — the publisher alone

`PublishAvailable` publishes one event after the other until there is none left, or one
cannot be published.  That event goes back to the head of the queue, so the next call meets it
again, until it has failed as often as it may.

The publisher is alone on the database here, and the broker either always takes an event or
never does.  Which events it then hands to the broker, and in which order, is what the queue of
the pending rows says (`RetryQueue`), for the rows and for the queue take the same steps
(`publishAvailable_call`).
-/
import Clearance.Fingerprints
import Clearance.Outbox
import Clearance.Paging
import Clearance.RetryQueue
import Clearance.Service.Delivery

namespace Clearance

open Transact Paging

namespace OutboxPublisher

/-! ## `PublishAvailable` -/

/-- The event `PublishNext` hands to the broker, if it finds one. -/
def handed (P : Platform) (draws : Draws) (d : Db) : Option OutboxEvent :=
  match ((methodOf (.nextPending draws.claimedAt)).solo (dialect P.hashtext).engine d).1 with
  | .ok event => event
  | .error _ => none

/-- What is left by the calls so far: how often `PublishNext` ran, and the ids of the events
that were handed to the broker. -/
structure Progress where
  db : Db
  turns : Nat := 0
  handed : List String := []

/-- `PublishAvailable`, alone on the database. -/
def publishAvailable (P : Platform) (attempts : Int) (draws : Nat → Draws) :
    Nat → Progress → Option (Option Error × Progress)
  | 0, _ => none
  | fuel + 1, s =>
      let next := (publishNext P attempts (draws s.turns)).solo (dialect P.hashtext).engine s.db
      let s' : Progress :=
        { db := next.2
          turns := s.turns + 1
          handed := s.handed ++ ((handed P (draws s.turns) s.db).map OutboxEvent.id).toList }
      match next.1 with
      | (_, some e) => some (some e, s')
      | (false, none) => some (none, s')
      | (true, none) => publishAvailable P attempts draws fuel s'

/-- Several calls. -/
def poll (P : Platform) (attempts : Int) (draws : Nat → Draws) (fuel : Nat) :
    Nat → Progress → Option Progress
  | 0, s => some s
  | n + 1, s =>
      (publishAvailable P attempts draws fuel s).bind fun r => poll P attempts draws fuel n r.2

end OutboxPublisher

/-! ## The pending rows -/

/-- `order by created_at, id`, the first one greatest. -/
def OutboxRow.place (r : OutboxRow) : (Time ×ₗ String)ᵒᵈ :=
  OrderDual.toDual (toLex (r.createdAt, r.id))

def OutboxRow.isPending (r : OutboxRow) : Bool := r.status == .pending

/-- The rows in the order they are claimed in. -/
def Db.pendingEvents (d : Db) : List OutboxRow :=
  (d.outboxEvents.rows.filter OutboxRow.isPending).insertionSort fun r s => r.le s

theorem le_iff_place (r s : OutboxRow) : r.le s = true ↔ s.place ≤ r.place := by
  simp [OutboxRow.le, OutboxRow.place, Prod.Lex.toLex_le_toLex]

theorem place_nodup (t : Table OutboxRow String OutboxRow.id) :
    (t.rows.map OutboxRow.place).Nodup := by
  refine List.Nodup.of_map (fun k => (ofLex (OrderDual.ofDual k)).2) ?_
  rw [List.map_map]
  exact t.nodup

theorem pendingEvents_descending (d : Db) : Descending OutboxRow.place d.pendingEvents :=
  insertionSort_descending le_iff_place
    ((place_nodup d.outboxEvents).sublist (List.filter_sublist.map _))

theorem mem_pendingEvents {d : Db} {r : OutboxRow} :
    r ∈ d.pendingEvents ↔ r ∈ d.outboxEvents.rows ∧ r.status = .pending := by
  simp [Db.pendingEvents, OutboxRow.isPending, List.mem_insertionSort]

/-- The first pending row is rewritten, and keeps its place. -/
theorem pendingEvents_modify {d : Db} {r : OutboxRow} {rest : List OutboxRow}
    (h : d.pendingEvents = r :: rest) {f : OutboxRow → OutboxRow} (hf : ∀ r, (f r).id = r.id)
    (hplace : (f r).place = r.place) :
    ({ d with outboxEvents := d.outboxEvents.modify r.id f hf } : Db).pendingEvents =
      if (f r).isPending then f r :: rest else rest := by
  obtain ⟨hrow, hpending⟩ := mem_pendingEvents.mp (h ▸ List.mem_cons_self)
  have hr : r.isPending = true := by simp [OutboxRow.isPending, hpending]
  obtain ⟨l₁, l₂, hrows, hrows'⟩ := Table.modify_split (d.outboxEvents.find?_of_mem hrow) f hf
  have hdesc : Descending OutboxRow.place (r :: rest) := h ▸ pendingEvents_descending d
  have hrest : ((l₁ ++ l₂).filter OutboxRow.isPending).Perm rest := by
    refine List.Perm.cons_inv (a := r) ?_
    rw [← h, Db.pendingEvents, hrows]
    refine List.Perm.trans ?_ (List.perm_insertionSort _ _).symm
    simpa [List.filter_append, List.filter_cons, hr] using List.perm_middle.symm
  refine (pendingEvents_descending _).eq_of_perm ?_ ?_
  · split
    · obtain ⟨hhead, htail⟩ := List.pairwise_cons.mp hdesc
      exact List.pairwise_cons.mpr ⟨hplace ▸ hhead, htail⟩
    · exact hdesc.of_cons
  · refine (List.perm_insertionSort _ _).trans ?_
    show ((d.outboxEvents.modify r.id f hf).rows.filter _).Perm _
    rw [hrows', List.filter_append, List.filter_cons]
    split
    · refine List.perm_middle.trans (.cons _ ?_)
      rwa [← List.filter_append]
    · rwa [← List.filter_append]

/-! ## One event -/

namespace OutboxPublisher

/-- The outbox between two calls of the publisher: no row is claimed, and every pending one may
be tried. -/
structure Idle (attempts : Int) (d : Db) : Prop where
  unclaimed : ∀ r ∈ d.outboxEvents.rows, r.status ≠ .processing
  tries : ∀ r ∈ d.outboxEvents.rows, r.status = .pending → (r.attempts : Int) < attempts
  checked : ∀ r ∈ d.outboxEvents.rows, safeToken r.correlationID = true

theorem nextEvent_eq {attempts : Int} {d : Db} (h : Idle attempts d) (now : Time) :
    nextEvent (fun _ => true) d now = d.pendingEvents.head? := by
  have hfilter : d.outboxEvents.rows.filter (claimable now) =
      d.outboxEvents.rows.filter OutboxRow.isPending := by
    refine List.filter_congr fun r hr => ?_
    simp [claimable, OutboxRow.isPending, h.unclaimed r hr]
  rw [nextEvent, hfilter, ← Db.pendingEvents]
  cases d.pendingEvents with
  | nil => rfl
  | cons r rest => rfl

/-- What becomes of the row of an event that was handed to the broker. -/
def settle (attempts : Int) (draws : Draws) (failed : Bool) (r : OutboxRow) : OutboxRow :=
  let claimed := (OutboxUpdate.claim draws.claimedAt).apply r
  if failed then (OutboxUpdate.fail attempts draws.markedAt).apply claimed
  else (OutboxUpdate.publish draws.markedAt).apply claimed

section

variable {P : Platform} {attempts : Int} {draws : Draws} {d : Db}

@[simp] theorem settle_id (failed : Bool) (r : OutboxRow) :
    (settle attempts draws failed r).id = r.id := by
  cases failed <;> rfl

/-- A method of one statement, alone. -/
theorem single_solo {α : Type} {s : Stmt} {message : String} {k : s.Reply → Except Error α}
    {e : Effect schema.Write (DbLock P.hashtext) s.Reply}
    (h : (s.plan (fun _ => false) d).result = .ok e) :
    (single s message k).solo (dialect P.hashtext).engine d = (k e.reply, view d e.writes) := by
  simp only [single, Method.solo]
  rw [h]
  rfl

/-- `NextPending` finds nothing. -/
theorem nextPending_nothing {now : Time} (hnext : nextEvent (fun _ => true) d now = none) :
    (methodOf (.nextPending now)).solo (dialect P.hashtext).engine d = (.ok none, d) := by
  refine single_solo (s := .claimOutbox now) (e := { reply := none }) ?_
  show (planClaimOutbox _ d now).result = _
  unfold planClaimOutbox
  have hnext : nextEvent (fun _ => !false) d now = none := hnext
  rw [hnext]

theorem nextEvent_none (h : Idle attempts d) (hnone : d.pendingEvents = []) (now : Time) :
    nextEvent (fun _ => true) d now = none := by
  rw [nextEvent_eq h, hnone]
  rfl

/-- `NextPending` claims the row that is next. -/
theorem nextPending_next {r : OutboxRow} {now : Time}
    (hnext : nextEvent (fun _ => true) d now = some r) :
    (methodOf (.nextPending now)).solo (dialect P.hashtext).engine d =
      (.ok (some ((OutboxUpdate.claim now).apply r).event),
        { d with outboxEvents := OutboxTable.update d.outboxEvents r.id (.claim now) }) := by
  refine single_solo (s := .claimOutbox now)
    (e := { reply := some ((OutboxUpdate.claim now).apply r)
            writes := [.update .outboxEvents r.id (.claim now)]
            locks := [.unique (.row .outboxEvents r.id)] }) ?_
  show (planClaimOutbox _ d now).result = _
  unfold planClaimOutbox
  have hnext : nextEvent (fun _ => !false) d now = some r := hnext
  rw [hnext]
  rfl

theorem nextEvent_some (h : Idle attempts d) {r : OutboxRow} {rest : List OutboxRow}
    (hsome : d.pendingEvents = r :: rest) (now : Time) :
    nextEvent (fun _ => true) d now = some r := by
  rw [nextEvent_eq h, hsome]
  rfl

/-- A claimed row is marked. -/
theorem mark_solo {α : Type} {r : OutboxRow} {message : String}
    {k : Option OutboxRow → Except Error α} (hrow : d.outboxEvents.find? r.id = some r)
    (hstatus : r.status = .processing) (hcheck : safeToken r.correlationID = true)
    {u : OutboxUpdate} (hu : (u.apply r).correlationID = r.correlationID) :
    (single (.update .outboxEvents r.id (fun r => OutboxRow.status r == .processing) u)
        message k).solo (dialect P.hashtext).engine d =
      (k (some (u.apply r)),
        { d with outboxEvents := OutboxTable.update d.outboxEvents r.id u }) := by
  refine single_solo (s := .update .outboxEvents r.id
    (fun r => OutboxRow.status r == .processing) u)
    (Plan.updateRow_ok.mpr (Or.inr ⟨r, hrow, by simp [hstatus], ?_, rfl⟩))
  show firstViolated
    [("outbox_events_correlation_id_check", safeToken (u.apply r).correlationID)] = none
  rw [hu, hcheck]
  rfl

theorem update_update (t : OutboxTable) (id : String) (u v : OutboxUpdate) :
    (t.update id u).update id v = t.modify id (fun r => v.apply (u.apply r))
      fun r => (Tab.key_upd (t := .outboxEvents) v _).trans
        (Tab.key_upd (t := .outboxEvents) u r) :=
  Table.modify_modify ..

/-- The database after an event was handed to the broker. -/
def settled (attempts : Int) (draws : Draws) (failed : Bool) (r : OutboxRow) (d : Db) : Db :=
  { d with
    outboxEvents := d.outboxEvents.modify r.id (settle attempts draws failed) (settle_id failed) }

/-- The broker's answer to a row that has been claimed. -/
def answer (draws : Draws) (r : OutboxRow) : Option Error :=
  draws.publish ((OutboxUpdate.claim draws.claimedAt).apply r).event

/-- `PublishNext` finds nothing. -/
theorem publishNext_nothing (hnext : nextEvent (fun _ => true) d draws.claimedAt = none) :
    (publishNext P attempts draws).solo (dialect P.hashtext).engine d = ((false, none), d) :=
  callStore_solo (nextPending_nothing hnext)

theorem publishNext_none (h : Idle attempts d) (hnone : d.pendingEvents = []) :
    (publishNext P attempts draws).solo (dialect P.hashtext).engine d = ((false, none), d) :=
  publishNext_nothing (nextEvent_none h hnone draws.claimedAt)

/-- `PublishNext` takes the row that is next. -/
theorem publishNext_next {r : OutboxRow} (hrow : r ∈ d.outboxEvents.rows)
    (hcorrelation : safeToken r.correlationID = true)
    (hnext : nextEvent (fun _ => true) d draws.claimedAt = some r) :
    (publishNext P attempts draws).solo (dialect P.hashtext).engine d =
      ((true, (answer draws r).map (.wrap "publish outbox event")),
        settled attempts draws (answer draws r).isSome r d) := by
  refine (callStore_solo (nextPending_next hnext)).trans ?_
  let r' := (OutboxUpdate.claim draws.claimedAt).apply r
  have hrow' : (OutboxTable.update d.outboxEvents r.id (.claim draws.claimedAt)).find? r'.id =
      some r' := by
    rw [OutboxTable.find?_update]
    simp [r', OutboxUpdate.apply, d.outboxEvents.find?_of_mem hrow]
  have hcheck : safeToken r'.correlationID = true := hcorrelation
  show (publishClaimed P attempts draws r'.event).solo _ _ = _
  unfold publishClaimed answer
  cases hanswer : draws.publish r'.event with
  | some e =>
      refine (callStore_solo (mark_solo
        (d := { d with outboxEvents := OutboxTable.update d.outboxEvents r.id _ })
        (r := r') (u := .fail attempts draws.markedAt) hrow' rfl hcheck rfl)).trans ?_
      exact congrArg (fun t => ((true, some (Error.wrap "publish outbox event" e)),
        ({ d with outboxEvents := t } : Db)))
        (update_update d.outboxEvents r.id (.claim _) (.fail _ _))
  | none =>
      refine (callStore_solo (mark_solo
        (d := { d with outboxEvents := OutboxTable.update d.outboxEvents r.id _ })
        (r := r') (u := .publish draws.markedAt) hrow' rfl hcheck rfl)).trans ?_
      exact congrArg (fun t => ((true, (none : Option Error)),
        ({ d with outboxEvents := t } : Db)))
        (update_update d.outboxEvents r.id (.claim _) (.publish _))

/-- `PublishNext` takes the first pending row. -/
theorem publishNext_some (h : Idle attempts d) {r : OutboxRow} {rest : List OutboxRow}
    (hsome : d.pendingEvents = r :: rest) :
    (publishNext P attempts draws).solo (dialect P.hashtext).engine d =
      ((true, (answer draws r).map (.wrap "publish outbox event")),
        settled attempts draws (answer draws r).isSome r d) := by
  obtain ⟨hrow, -⟩ := mem_pendingEvents.mp (hsome ▸ List.mem_cons_self)
  exact publishNext_next hrow (h.checked r hrow) (nextEvent_some h hsome draws.claimedAt)

theorem handed_nothing (hnext : nextEvent (fun _ => true) d draws.claimedAt = none) :
    handed P draws d = none := by
  unfold handed
  rw [nextPending_nothing hnext]

theorem handed_none (h : Idle attempts d) (hnone : d.pendingEvents = []) :
    handed P draws d = none :=
  handed_nothing (nextEvent_none h hnone draws.claimedAt)

theorem handed_next {r : OutboxRow}
    (hnext : nextEvent (fun _ => true) d draws.claimedAt = some r) :
    (handed P draws d).map OutboxEvent.id = some r.id := by
  unfold handed
  rw [nextPending_next hnext]
  rfl

theorem handed_some (h : Idle attempts d) {r : OutboxRow} {rest : List OutboxRow}
    (hsome : d.pendingEvents = r :: rest) : (handed P draws d).map OutboxEvent.id = some r.id :=
  handed_next (nextEvent_some h hsome draws.claimedAt)

/-! ## The queue of the rows -/

/-- How often a row may still be tried. -/
def left (attempts : Int) (r : OutboxRow) : Nat := (attempts - r.attempts).toNat

/-- The pending rows as a queue. -/
def queue (attempts : Int) (d : Db) : RetryQueue.Queue String :=
  d.pendingEvents.map fun r => (r.id, left attempts r)

theorem length_queue (attempts : Int) (d : Db) :
    (queue attempts d).length = d.pendingEvents.length := List.length_map _

theorem place_settle (failed : Bool) (r : OutboxRow) :
    (settle attempts draws failed r).place = r.place := by
  cases failed <;> rfl

theorem status_settle (failed : Bool) (r : OutboxRow) :
    (settle attempts draws failed r).status =
      if failed then (if left attempts r ≤ 1 then .deadLettered else .pending) else .published := by
  cases failed with
  | false => rfl
  | true =>
      have hlast : (r.attempts + 1 : Int) ≥ attempts ↔ left attempts r ≤ 1 := by
        unfold left
        omega
      simp [settle, OutboxUpdate.apply, hlast]

theorem left_settle (r : OutboxRow) :
    left attempts (settle attempts draws true r) = left attempts r - 1 := by
  simp only [left, settle, OutboxUpdate.apply, if_true]
  omega

theorem correlationID_settle (failed : Bool) (r : OutboxRow) :
    (settle attempts draws failed r).correlationID = r.correlationID := by
  cases failed <;> rfl

theorem mem_settled {failed : Bool} {r r' : OutboxRow}
    (h : r' ∈ (settled attempts draws failed r d).outboxEvents.rows) :
    r' ∈ d.outboxEvents.rows ∨
      ∃ r₀ ∈ d.outboxEvents.rows, r' = settle attempts draws failed r₀ := by
  obtain ⟨r₀, hr₀, rfl⟩ := List.mem_map.mp h
  split
  · exact .inr ⟨r₀, hr₀, rfl⟩
  · exact .inl hr₀

theorem Idle.live (h : Idle attempts d) : RetryQueue.Live (queue attempts d) := by
  refine List.forall_mem_map.mpr fun r hr => ?_
  obtain ⟨hrow, hstatus⟩ := mem_pendingEvents.mp hr
  have htries := h.tries r hrow hstatus
  show 1 ≤ left attempts r
  unfold left
  omega

theorem Idle.settled (h : Idle attempts d) (failed : Bool) (r : OutboxRow) :
    Idle attempts (settled attempts draws failed r d) where
  unclaimed := by
    intro r' hr'
    rcases mem_settled hr' with hold | ⟨r₀, -, rfl⟩
    · exact h.unclaimed r' hold
    · rw [status_settle]
      split_ifs <;> decide
  tries := by
    intro r' hr' hpending
    rcases mem_settled hr' with hold | ⟨r₀, -, rfl⟩
    · exact h.tries r' hold hpending
    · rw [status_settle] at hpending
      split_ifs at hpending with hfailed hlast
      subst hfailed
      have hleft : left attempts (settle attempts draws true r₀) = left attempts r₀ - 1 :=
        left_settle r₀
      unfold left at hleft hlast
      omega
  checked := by
    intro r' hr'
    rcases mem_settled hr' with hold | ⟨r₀, hr₀, rfl⟩
    · exact h.checked r' hold
    · rw [correlationID_settle]
      exact h.checked r₀ hr₀

/-- One event, on the queue. -/
theorem queue_settled {r : OutboxRow} {rest : List OutboxRow} (hsome : d.pendingEvents = r :: rest)
    (failed : Bool) :
    queue attempts (settled attempts draws failed r d) =
      if failed then RetryQueue.again r.id (left attempts r)
        (rest.map fun r => (r.id, left attempts r))
      else rest.map fun r => (r.id, left attempts r) := by
  unfold queue settled
  rw [pendingEvents_modify hsome (settle_id failed) (place_settle failed r), OutboxRow.isPending,
    status_settle]
  cases failed with
  | false => rfl
  | true =>
      unfold RetryQueue.again
      by_cases hlast : left attempts r ≤ 1
      · simp [hlast]
      · simp [hlast, left_settle]

/-- What becomes of the rows: nothing, or what the broker decides. -/
def Fate (fails : String → Bool) (d d' : Db) : Prop :=
  ∀ r ∈ d.outboxEvents.rows, ∃ r' ∈ d'.outboxEvents.rows, r'.id = r.id ∧
    (r'.status = r.status ∨
      (r.status = .pending ∧ r'.status = if fails r.id then .deadLettered else .published))

theorem Fate.refl (fails : String → Bool) (d : Db) : Fate fails d d :=
  fun r hr => ⟨r, hr, rfl, .inl rfl⟩

theorem Fate.trans {fails : String → Bool} {d d' d'' : Db} (h : Fate fails d d')
    (h' : Fate fails d' d'') : Fate fails d d'' := by
  intro r hr
  obtain ⟨r', hr', hid, hstatus⟩ := h r hr
  obtain ⟨r'', hr'', hid', hstatus'⟩ := h' r' hr'
  refine ⟨r'', hr'', hid'.trans hid, ?_⟩
  rcases hstatus with hsame | ⟨hpending, hfinal⟩
  · rw [← hsame, ← hid]
    exact hstatus'
  · rcases hstatus' with hsame' | ⟨hpending', -⟩
    · exact .inr ⟨hpending, hsame'.trans hfinal⟩
    · rw [hfinal] at hpending'
      split at hpending' <;> cases hpending'

theorem Fate.settled {fails : String → Bool} {r : OutboxRow} (hr : r ∈ d.outboxEvents.rows)
    (hpending : r.status = .pending) : Fate fails d (settled attempts draws (fails r.id) r d) := by
  intro r₀ hr₀
  by_cases hid : r₀.id = r.id
  · obtain rfl := d.outboxEvents.eq_of_key_eq hr₀ hr hid
    refine ⟨settle attempts draws (fails r₀.id) r₀, ?_, settle_id _ _, ?_⟩
    · exact List.mem_map.mpr ⟨r₀, hr₀, if_pos rfl⟩
    · rw [status_settle, hpending]
      cases fails r₀.id with
      | false => exact .inr ⟨rfl, rfl⟩
      | true =>
          by_cases hlast : left attempts r₀ ≤ 1
          · exact .inr ⟨rfl, by simp [hlast]⟩
          · exact .inl (by simp [hlast])
  · exact ⟨r₀, List.mem_map.mpr ⟨r₀, hr₀, if_neg hid⟩, rfl, .inl rfl⟩

end

/-! ## The calls -/

section

variable {P : Platform} {attempts : Int} {draws : Nat → Draws} {fails : String → Bool}

/-- A call of `PublishAvailable` returns, and does to the rows what a call does to the queue. -/
theorem publishAvailable_call
    (hbroker : ∀ n event, ((draws n).publish event).isSome = fails event.id)
    {fuel : Nat} {s : Progress} (h : Idle attempts s.db)
    (hfuel : s.db.pendingEvents.length < fuel) :
    ∃ e s', publishAvailable P attempts draws fuel s = some (e, s') ∧ Idle attempts s'.db ∧
      s'.handed = s.handed ++ (RetryQueue.call fails (queue attempts s.db)).1 ∧
      queue attempts s'.db = (RetryQueue.call fails (queue attempts s.db)).2 ∧
      Fate fails s.db s'.db := by
  induction fuel generalizing s with
  | zero => exact absurd hfuel (Nat.not_lt_zero _)
  | succ fuel ih =>
      cases hpending : s.db.pendingEvents with
      | nil =>
          have hqueue : queue attempts s.db = [] := by rw [queue, hpending]; rfl
          refine ⟨none, { s with turns := s.turns + 1 }, ?_, h, ?_, ?_, Fate.refl _ _⟩
          · rw [publishAvailable, publishNext_none h hpending, handed_none h hpending]
            simp
          · simp [hqueue, RetryQueue.call]
          · simp [hqueue, RetryQueue.call]
      | cons r rest =>
          obtain ⟨hrow, hstatus⟩ := mem_pendingEvents.mp (hpending ▸ List.mem_cons_self)
          have hanswer : (answer (draws s.turns) r).isSome = fails r.id := hbroker _ _
          have hqueue : queue attempts s.db =
              (r.id, left attempts r) :: rest.map fun r => (r.id, left attempts r) := by
            rw [queue, hpending]
            rfl
          have hfate : Fate fails s.db (settled attempts (draws s.turns) (fails r.id) r s.db) :=
            Fate.settled hrow hstatus
          have hidle : Idle attempts (settled attempts (draws s.turns) (fails r.id) r s.db) :=
            h.settled (fails r.id) r
          have hafter : queue attempts (settled attempts (draws s.turns) (fails r.id) r s.db) = _ :=
            queue_settled hpending (fails r.id)
          rw [publishAvailable, publishNext_some h hpending, handed_some h hpending, hqueue,
            RetryQueue.call, hanswer]
          cases hfails : fails r.id with
          | true =>
              obtain ⟨e, he⟩ := Option.isSome_iff_exists.mp (hanswer.trans hfails)
              rw [hfails] at hfate hidle hafter
              rw [he]
              exact ⟨_, _, rfl, hidle, rfl, hafter, hfate⟩
          | false =>
              have he : answer (draws s.turns) r = none := by
                rw [← Option.not_isSome_iff_eq_none, hanswer, hfails]
                decide
              rw [hfails] at hfate hidle hafter
              rw [he]
              have hlength : (settled attempts (draws s.turns) false r s.db).pendingEvents.length <
                  fuel := by
                rw [← length_queue attempts, hafter]
                simp only [hpending, List.length_cons] at hfuel
                simpa using hfuel
              obtain ⟨e, s', hcall, hidle', hhanded, hqueue', hfate'⟩ :=
                ih (s := ⟨settled attempts (draws s.turns) false r s.db, s.turns + 1,
                  s.handed ++ [r.id]⟩) hidle hlength
              rw [hafter] at hhanded hqueue'
              refine ⟨e, s', hcall, hidle', ?_, hqueue', hfate.trans hfate'⟩
              rw [hhanded]
              simp

/-- Several calls. -/
theorem poll_calls (hbroker : ∀ n event, ((draws n).publish event).isSome = fails event.id)
    {fuel : Nat} (n : Nat) {s : Progress} (h : Idle attempts s.db)
    (hfuel : s.db.pendingEvents.length < fuel) :
    ∃ s', poll P attempts draws fuel n s = some s' ∧ Idle attempts s'.db ∧
      s'.handed = s.handed ++ (RetryQueue.calls fails n (queue attempts s.db)).1 ∧
      queue attempts s'.db = (RetryQueue.calls fails n (queue attempts s.db)).2 ∧
      Fate fails s.db s'.db := by
  induction n generalizing s with
  | zero => exact ⟨s, rfl, h, (List.append_nil _).symm, rfl, Fate.refl _ _⟩
  | succ n ih =>
      obtain ⟨e, s₁, hcall, hidle, hhanded, hqueue, hfate⟩ :=
        publishAvailable_call (P := P) hbroker h hfuel
      have hlength : s₁.db.pendingEvents.length < fuel := by
        rw [← length_queue attempts, hqueue]
        refine lt_of_le_of_lt (RetryQueue.length_call_le _) ?_
        rwa [length_queue]
      obtain ⟨s₂, hpoll, hidle', hhanded', hqueue', hfate'⟩ := ih hidle hlength
      refine ⟨s₂, ?_, hidle', ?_, ?_, hfate.trans hfate'⟩
      · rw [poll, hcall]
        exact hpoll
      · rw [hhanded', hhanded, hqueue, RetryQueue.calls, List.append_assoc]
      · rw [hqueue', hqueue, RetryQueue.calls]

/-! ## Draining the outbox -/

/-- All that is left of the outbox `d`: every event the broker takes was handed to it once, in
the order of the rows, every other one as often as it could be. -/
structure Drained (attempts : Int) (fails : String → Bool) (d : Db) (s : Progress) : Prop where
  settled : ∀ r ∈ s.db.outboxEvents.rows, r.status ≠ .pending ∧ r.status ≠ .processing
  published : ∀ r ∈ d.outboxEvents.rows, r.status = .pending → fails r.id = false →
    s.handed.count r.id = 1 ∧
      (s.db.outboxEvents.find? r.id).map OutboxRow.status = some .published
  deadLettered : ∀ r ∈ d.outboxEvents.rows, r.status = .pending → fails r.id = true →
    (s.handed.count r.id : Int) = attempts - r.attempts ∧
      (s.db.outboxEvents.find? r.id).map OutboxRow.status = some .deadLettered
  ordered : s.handed.filter (fun id => !fails id) =
    (d.pendingEvents.filter fun r => !fails r.id).map OutboxRow.id

variable (attempts fails) in
theorem count_handed {d : Db} {r : OutboxRow} (hr : r ∈ d.pendingEvents) :
    (RetryQueue.tries fails (queue attempts d)).count r.id =
      if fails r.id then left attempts r else 1 := by
  have hkeys : (queue attempts d).map Prod.fst = d.pendingEvents.map OutboxRow.id := by
    rw [queue, List.map_map]
    rfl
  refine RetryQueue.count_tries ?_ (List.mem_map.mpr ⟨r, hr, rfl⟩)
  rw [hkeys]
  exact (List.perm_insertionSort _ _ |>.map OutboxRow.id).nodup_iff.mpr
    (d.outboxEvents.nodup.sublist (List.filter_sublist.map _))

/-- The row an event ends with. -/
theorem Fate.final {d d' : Db} (h : Fate fails d d')
    (hd' : ∀ r ∈ d'.outboxEvents.rows, r.status ≠ .pending)
    {r : OutboxRow} (hr : r ∈ d.outboxEvents.rows) (hpending : r.status = .pending) :
    (d'.outboxEvents.find? r.id).map OutboxRow.status =
      some (if fails r.id then .deadLettered else .published) := by
  obtain ⟨r', hr', hid, hsame | ⟨-, hfinal⟩⟩ := h r hr
  · exact absurd (hsame.trans hpending) (hd' r' hr')
  · rw [← hid, d'.outboxEvents.find?_of_mem hr', Option.map_some, hfinal, hid]

/-- Every call returns, and after one call more than the broker has to refuse, the outbox is
drained. -/
theorem drained (P : Platform) (configured : Int) (draws : Nat → Draws) (fails : String → Bool)
    (hbroker : ∀ n event, ((draws n).publish event).isSome = fails event.id) (d : Db)
    (hidle : Idle (maxAttempts configured) d) (fuel : Nat) (hfuel : d.pendingEvents.length < fuel)
    (n : Nat) :
    ∃ s, poll P (maxAttempts configured) draws fuel n { db := d } = some s ∧
      (1 + ((d.pendingEvents.filter fun r => fails r.id).map fun r =>
          (maxAttempts configured - r.attempts).toNat).sum ≤ n →
        Drained (maxAttempts configured) fails d s) := by
  obtain ⟨s, hpoll, hidle', hhanded, hqueue, hfate⟩ :=
    poll_calls (P := P) (s := { db := d }) hbroker n hidle hfuel
  refine ⟨s, hpoll, fun hn => ?_⟩
  have hbudget : RetryQueue.budget fails (queue (maxAttempts configured) d) < n := by
    rw [RetryQueue.budget_eq, queue, List.filter_map, List.map_map]
    exact Nat.lt_of_succ_le ((Nat.add_comm _ 1).le.trans hn)
  have hempty := RetryQueue.calls_eq_nil hidle.live hbudget
  have htries : s.handed = RetryQueue.tries fails (queue (maxAttempts configured) d) := by
    rw [RetryQueue.tries_calls n hidle.live, hempty, hhanded]
    exact (List.append_nil _).symm
  have hpending : s.db.pendingEvents = [] := by
    refine List.eq_nil_of_length_eq_zero ?_
    rw [← length_queue (maxAttempts configured), hqueue, hempty]
    rfl
  have hsettled : ∀ r ∈ s.db.outboxEvents.rows, r.status ≠ .pending := by
    intro r hr hstatus
    have hmem := mem_pendingEvents.mpr ⟨hr, hstatus⟩
    rw [hpending] at hmem
    cases hmem
  refine ⟨fun r hr => ⟨hsettled r hr, hidle'.unclaimed r hr⟩, ?_, ?_, ?_⟩
  · intro r hr hstatus hfails
    have hcount := count_handed (maxAttempts configured) fails
      (mem_pendingEvents.mpr ⟨hr, hstatus⟩)
    have hfinal := hfate.final hsettled hr hstatus
    rw [hfails] at hcount hfinal
    exact ⟨htries ▸ hcount, hfinal⟩
  · intro r hr hstatus hfails
    have hcount := count_handed (maxAttempts configured) fails
      (mem_pendingEvents.mpr ⟨hr, hstatus⟩)
    have hfinal := hfate.final hsettled hr hstatus
    have htried := hidle.tries r hr hstatus
    rw [hfails] at hcount hfinal
    refine ⟨?_, hfinal⟩
    rw [htries, hcount, if_pos rfl, left]
    omega
  · rw [htries, RetryQueue.filter_tries, queue, List.map_map, List.filter_map]
    rfl

end

/-- A row that waits. -/
def waiting (id : String) (attempts : Nat) (createdAt : Time) : OutboxRow :=
  ⟨id, .fundsDeposited, "dep_1", "acct_1", "trace-1",
    .fundsDeposited ⟨"dep_1", "acct_1", 10, "USD", "bank", "ref-1", "trace-1"⟩, .pending, attempts,
    none, none, createdAt, createdAt⟩

/-- The event before has been refused once. -/
def oneRefused : Db :=
  { Db.empty with outboxEvents := ⟨[waiting "evt_2" 0 7, waiting "evt_1" 1 5], by decide⟩ }

/-- The broker refuses it again. -/
def refusing (_ : Nat) : Draws :=
  ⟨9, fun event => if event.id == "evt_1" then some (.text "refused") else none, 9⟩

theorem drained_oneRefused :
    ∃ s, poll .plain (maxAttempts 2) refusing 3 2 { db := oneRefused } = some s ∧
      Drained (maxAttempts 2) (· == "evt_1") oneRefused s := by
  have hbroker : ∀ n event, ((refusing n).publish event).isSome = (event.id == "evt_1") := by
    intro n event
    simp only [refusing]
    split <;> simp_all
  have hidle : Idle (maxAttempts 2) oneRefused := ⟨by decide, by decide, by decide +kernel⟩
  obtain ⟨s, hpoll, hdrained⟩ :=
    drained .plain 2 refusing (· == "evt_1") hbroker oneRefused hidle 3 (by decide +kernel) 2
  exact ⟨s, hpoll, hdrained (by decide +kernel)⟩

end OutboxPublisher

end Clearance
