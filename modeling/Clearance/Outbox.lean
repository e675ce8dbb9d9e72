/-
# `Clearance.Outbox` — the state machine of the outbox

An event waits in the outbox until a publisher has sent it.  `OutboxStep` says what
the operations of the store do to the table, whoever else is at work:

    added       a new event, waiting                         → PENDING
    claimed     PENDING, or PROCESSING for five minutes      → PROCESSING
    published   PROCESSING                                   → PUBLISHED
    failed      PROCESSING, one attempt more                 → PENDING or DEAD_LETTERED
    requeued    DEAD_LETTERED, no attempts                   → PENDING

Nothing leads out of PUBLISHED.  The updates of a publisher look at the status of the
row only, not at who claimed it: a publisher that took more than five minutes may
find the row claimed by another, or already back in the queue, and `MarkPublished`
does not tell (`published_iff_processing`).
-/
import Clearance.System

namespace Clearance

open Transact

/-! ## The machine -/

abbrev OutboxTable := Table OutboxRow String OutboxRow.id

/-- Rewrites a row. -/
def OutboxTable.update (t : OutboxTable) (id : String) (u : OutboxUpdate) : OutboxTable :=
  t.modify id u.apply (Tab.key_upd (t := .outboxEvents) u)

theorem OutboxTable.find?_update (t : OutboxTable) (id' id : String) (u : OutboxUpdate) :
    (t.update id' u).find? id = if id = id' then (t.find? id).map u.apply else t.find? id :=
  Table.find?_modify t id' id _ _

/-- Operations that put a row into the outbox. -/
def Call.Adds (row : OutboxRow) : Call → Prop
  | .create _ event now | .createDeposit _ event _ now | .saveConsumerOutbox _ _ event now =>
      row = outboxRow event now
  | .processRiskEvaluated .. => row.status = .pending ∧ row.attempts = 0
  | _ => False

/-- What the operations of the store do to the outbox; the second index is the event
`NextPending` hands out. -/
inductive OutboxStep (t : OutboxTable) : Call → Option OutboxEvent → OutboxTable → Prop
  | idle {c} : OutboxStep t c none t
  | added {c row} : t.find? row.id = none → c.Adds row → OutboxStep t c none (t.insert row)
  | claimed {now row} : t.find? row.id = some row → claimable now row = true →
      OutboxStep t (.nextPending now) (some ((OutboxUpdate.claim now).apply row).event)
        (t.update row.id (.claim now))
  | published {id now row} : t.find? id = some row → row.status = .processing →
      OutboxStep t (.markPublished id now) none (t.update id (.publish now))
  | failed {id maxAttempts now row} : t.find? id = some row → row.status = .processing →
      OutboxStep t (.markFailedAttempt id maxAttempts now) none (t.update id (.fail maxAttempts now))
  | requeued {id reason action now row} : t.find? id = some row → row.status = .deadLettered →
      OutboxStep t (.requeueOutbox id reason action now) none (t.update id (.requeue now))

/-- The event an operation hands out. -/
def handedOut : (c : Call) → Except Error c.Reply → Option OutboxEvent
  | .nextPending _, .ok event => event
  | _, _ => none

section

variable {hashtext : String → Int} {d : Db} {w : List schema.Write}

theorem outbox_other (h : ∀ x ∈ w, Tab.outboxEvents ≠ x.tab) :
    (view d w).outboxEvents = d.outboxEvents :=
  @Schema.get_foldl_other schema .outboxEvents w h d

/-- An update of one row, or nothing. -/
theorem outbox_update {ρ : Type} {m : DbMethod hashtext ρ} {id : String} {g : OutboxRow → Bool}
    {u : OutboxUpdate} {message : String} {k : Option OutboxRow → Except Error ρ}
    {res : Except Error ρ} (hm : m = single (.update .outboxEvents id g u) message k)
    (h : m.Runs (dialect hashtext).engine d res w) :
    w = [] ∨ ∃ row, d.outboxEvents.find? id = some row ∧ g row = true ∧
      w = [.update .outboxEvents id u] := by
  rcases single_runs hm h with ⟨_, _, _, _, rfl⟩ | ⟨f, r, hx, _, rfl⟩
  · exact Or.inl rfl
  · rcases Plan.updateRow_ok.mp hx with ⟨_, rfl⟩ | ⟨row, hrow, hg, _, rfl⟩
    · exact Or.inl rfl
    · exact Or.inr ⟨row, hrow, hg, rfl⟩

theorem outbox_nil {c : Call} (h : w = []) :
    OutboxStep d.outboxEvents c none (view d w).outboxEvents := by
  rw [h]
  exact .idle

/-- Operations that write elsewhere. -/
theorem outbox_untouched {c : Call} {res : Except Error c.Reply}
    (h : (contract hashtext).spec c d res w) (hc : .outboxEvents ∉ c.tabs) :
    OutboxStep d.outboxEvents c none (view d w).outboxEvents := by
  have hget : (view d w).outboxEvents = d.outboxEvents :=
    get_of_touches (t := .outboxEvents) (storeSpec_touches h) hc nofun
  rw [hget]
  exact .idle

theorem outbox_tx {c : Call} {ρ : Type} {tx : DbTx hashtext (DbCommit hashtext ρ)}
    {res : Except Error ρ} (h : tx.Runs (dialect hashtext).engine d [] res w)
    (hok : ∀ a, Commits tx d [] a w →
      OutboxStep d.outboxEvents c none (view d w).outboxEvents) :
    OutboxStep d.outboxEvents c none (view d w).outboxEvents := by
  cases res with
  | error e => exact outbox_nil (Tx.Runs.writes_nil _ h)
  | ok a => exact hok a h

/-- Writes that end with a new event. -/
theorem outbox_insert {row : OutboxRow} {c : Call} {v : List schema.Write}
    (hw : w = v ++ [.insert .outboxEvents row]) (hv : ∀ x ∈ v, Tab.outboxEvents ≠ x.tab)
    (hf : d.outboxEvents.find? row.id = none) (hc : c.Adds row) :
    OutboxStep d.outboxEvents c none (view d w).outboxEvents := by
  have hview : (view d w).outboxEvents = d.outboxEvents.insert row := by
    rw [hw, view, List.foldl_append]
    show (List.foldl _ d v).outboxEvents.insert row = _
    rw [show (List.foldl _ d v).outboxEvents = d.outboxEvents from outbox_other hv]
  rw [hview]
  exact .added hf hc

theorem outbox_settled {delivery : Delivery} {payloadHash : Digest} {event : RiskEvaluated}
    {draws : LedgerDraws} {now : Time} {t : TransactionRow}
    (h : Settled delivery payloadHash event draws now d t w) :
    OutboxStep d.outboxEvents (.processRiskEvaluated delivery payloadHash event draws now) none
      (view d w).outboxEvents := by
  have hw := h.decided.writes
  rw [show ∀ a b : schema.Write, [a, b] = [a] ++ [b] from fun _ _ => rfl,
    ← List.append_assoc] at hw
  refine outbox_insert hw (fun x hx => ?_) h.decided.freshEvent ⟨rfl, rfl⟩
  rcases List.mem_append.mp hx with hx | hx
  · rcases List.mem_append.mp hx with hx | hx
    · rw [List.mem_singleton.mp hx]
      exact nofun
    · obtain ⟨row, _, rfl⟩ := List.mem_map.mp hx
      exact nofun
  · rw [List.mem_singleton.mp hx]
    exact nofun

/-- What `NextPending` hands out is what it claims. -/
theorem outbox_claim {now : Time} {res : Except Error (Option OutboxEvent)}
    (h : (methodOf (.nextPending now)).Runs (dialect hashtext).engine d res w) :
    OutboxStep d.outboxEvents (.nextPending now) (handedOut (.nextPending now) res)
      (view d w).outboxEvents := by
  rcases single_runs (m := methodOf (.nextPending now)) rfl h with
    ⟨_, _, _, rfl, rfl⟩ | ⟨f, r, hx, rfl, rfl⟩
  · exact .idle
  · rcases planClaimOutbox_ok hx with rfl | ⟨row, hrow, rfl⟩
    · exact .idle
    · have hmem := List.mem_of_find?_eq_some hrow
      rw [List.mem_insertionSort, List.mem_filter] at hmem
      exact .claimed (Table.find?_of_mem _ hmem.1) hmem.2

/-- What any operation of the store does to the outbox. -/
theorem outbox_step {c : Call} {res : Except Error c.Reply}
    (h : (contract hashtext).spec c d res w) :
    OutboxStep d.outboxEvents c (handedOut c res) (view d w).outboxEvents := by
  cases c with
  | nextPending now => exact outbox_claim h
  | markPublished eventID now =>
      rcases outbox_update (m := methodOf (.markPublished eventID now)) rfl h with
        hw | ⟨row, hrow, hg, rfl⟩
      · exact outbox_nil hw
      · exact .published hrow (by simpa using hg)
  | markFailedAttempt eventID maxAttempts now =>
      rcases outbox_update (m := methodOf (.markFailedAttempt eventID maxAttempts now)) rfl h with
        hw | ⟨row, hrow, hg, rfl⟩
      · exact outbox_nil hw
      · exact .failed hrow (by simpa using hg)
  | requeueOutbox id reason action now =>
      refine outbox_tx h fun _ h => ?_
      obtain ⟨⟨row, hrow, hs⟩, rfl⟩ := requeueOutbox_commits h
      exact .requeued hrow hs
  | create record event now =>
      refine outbox_tx h fun _ h => ?_
      have hc := create_commits h
      refine outbox_insert (v := [_, _]) hc.writes (fun x hx => ?_) hc.freshEvent rfl
      rcases List.mem_pair.mp hx with rfl | rfl
      · exact nofun
      · exact nofun
  | createDeposit deposit event draws now =>
      refine outbox_tx h fun _ h => ?_
      have hc := createDeposit_commits h
      have hw := hc.writes
      rw [show ∀ a b c : schema.Write, [a, b, c] = [a, b] ++ [c] from fun _ _ _ => rfl,
        ← List.append_assoc] at hw
      refine outbox_insert hw (fun x hx => ?_) hc.freshEvent rfl
      rcases List.mem_append.mp hx with hx | hx
      · rcases List.mem_append.mp hx with hx | hx
        · rw [List.mem_singleton.mp hx]
          exact nofun
        · obtain ⟨row, _, rfl⟩ := List.mem_map.mp hx
          exact nofun
      · rcases List.mem_pair.mp hx with rfl | rfl
        · exact nofun
        · exact nofun
  | saveConsumerOutbox delivery payloadHash event now =>
      rcases h with h | ⟨_, _, hw, _⟩
      · refine outbox_tx h fun _ h => ?_
        rcases saveConsumerOutbox_commits h with ⟨_, h⟩ | ⟨_, h⟩
        · refine outbox_insert (v := [_]) h.writes (fun x hx => ?_) h.freshEvent rfl
          rw [List.mem_singleton.mp hx]
          exact nofun
        · rw [h.writes]
          exact .idle
      · exact outbox_nil hw
  | processRiskEvaluated delivery payloadHash event draws now =>
      rcases h with h | ⟨_, _, hw, _⟩
      · refine outbox_tx h fun _ h => ?_
        rcases processRiskEvaluated_commits h with ⟨_, t, h⟩ | ⟨_, h⟩
        · exact outbox_settled h
        · rw [h.writes]
          exact .idle
      · exact outbox_nil hw
  | _ => exact outbox_untouched h (by simp [Call.tabs])

/-- However an operation ends. -/
theorem allows_outbox {c : Call} {o : Op (dialect hashtext).engine Error c.Reply}
    (h : (contract hashtext).Allows c o) :
    OutboxStep (Db.outboxEvents o.before) c (handedOut c o.reply)
      (view o.before o.writes).outboxEvents := by
  rcases h.did with h | ⟨⟨e, he⟩, hw, _⟩
  · exact outbox_step h
  · have hnone : handedOut c o.reply = none := by
      rw [he]
      cases c <;> rfl
    rw [hnone]
    exact outbox_nil hw

end

/-! ## Publishers -/

section

variable {P : Platform}

open OutboxPublisher in
/-- The operations of `PublishNext`: a claim, and what is made of the broker's answer. -/
theorem publishNext_made {i : Nat} {attempts : Int} {draws : Draws} {g : List (LogEntry P)}
    {q : Service P (Bool × Option Error)} (h : (publishNext P attempts draws).Made i g q) :
    g = [] ∨ ∃ claim, (g = [⟨i, .nextPending draws.claimedAt, claim⟩] ∧ q ≠ .ret (true, none)) ∨
      ∃ event, claim.answer = .ok (some event) ∧
        ((∃ mark, (draws.publish event).isSome = true ∧
          g = [⟨i, .nextPending draws.claimedAt, claim⟩,
            ⟨i, .markFailedAttempt event.id attempts draws.markedAt, mark⟩] ∧
          q ≠ .ret (true, none)) ∨
        ∃ mark, draws.publish event = none ∧
          g = [⟨i, .nextPending draws.claimedAt, claim⟩,
            ⟨i, .markPublished event.id draws.markedAt, mark⟩] ∧
          (q = .ret (true, none) → mark.answer = .ok ())) := by
  rcases made_bind h with ⟨rfl, _⟩ | ⟨claim, g', rfl, hk⟩
  · exact Or.inl rfl
  refine Or.inr ⟨claim, ?_⟩
  cases hclaim : claim.answer with
  | error e =>
      rw [hclaim] at hk
      obtain ⟨rfl, rfl⟩ := Svc.made_ret.mp hk
      exact Or.inl ⟨rfl, by simp⟩
  | ok found =>
      rw [hclaim] at hk
      cases found with
      | none =>
          obtain ⟨rfl, rfl⟩ := Svc.made_ret.mp hk
          exact Or.inl ⟨rfl, by simp⟩
      | some event =>
          change (publishClaimed P attempts draws event).Made i g' q at hk
          unfold publishClaimed at hk
          cases hpub : draws.publish event with
          | some e =>
              rw [hpub] at hk
              rcases made_bind hk with ⟨rfl, rfl⟩ | ⟨mark, g'', rfl, hm⟩
              · exact Or.inl ⟨rfl, nofun⟩
              · refine Or.inr ⟨event, rfl, Or.inl ⟨mark, by rw [hpub]; rfl, ?_⟩⟩
                cases hmark : mark.answer with
                | error e =>
                    rw [hmark] at hm
                    obtain ⟨rfl, rfl⟩ := Svc.made_ret.mp hm
                    exact ⟨rfl, by simp⟩
                | ok u =>
                    rw [hmark] at hm
                    obtain ⟨rfl, rfl⟩ := Svc.made_ret.mp hm
                    exact ⟨rfl, by simp⟩
          | none =>
              rw [hpub] at hk
              rcases made_bind hk with ⟨rfl, rfl⟩ | ⟨mark, g'', rfl, hm⟩
              · exact Or.inl ⟨rfl, nofun⟩
              · refine Or.inr ⟨event, rfl, Or.inr ⟨mark, hpub, ?_⟩⟩
                cases hmark : mark.answer with
                | error e =>
                    rw [hmark] at hm
                    obtain ⟨rfl, rfl⟩ := Svc.made_ret.mp hm
                    exact ⟨rfl, by simp⟩
                | ok u =>
                    rw [hmark] at hm
                    obtain ⟨rfl, rfl⟩ := Svc.made_ret.mp hm
                    exact ⟨rfl, fun _ => rfl⟩

/-- The status of an event. -/
def Db.outboxStatus (d : Db) (id : String) : Option OutboxStatus :=
  (d.outboxEvents.find? id).map OutboxRow.status

/-- Nothing leads out of PUBLISHED. -/
theorem OutboxStep.published_stays {t t' : OutboxTable} {c : Call} {event : Option OutboxEvent}
    (h : OutboxStep t c event t') {id : String} {row : OutboxRow} (hrow : t.find? id = some row)
    (hs : row.status = .published) : t'.find? id = some row := by
  -- The row an update of another status is about is another row.
  have hother : ∀ {id' : String} {row' : OutboxRow}, t.find? id' = some row' →
      row'.status ≠ .published → ∀ u, (t.update id' u).find? id = some row := by
    intro id' row' hrow' hne u
    rw [OutboxTable.find?_update, if_neg, hrow]
    rintro rfl
    rw [hrow] at hrow'
    cases hrow'
    exact hne hs
  cases h with
  | idle => exact hrow
  | added hf _ =>
      rw [Table.find?_insert, if_neg, hrow]
      rintro rfl
      rw [hrow] at hf
      cases hf
  | claimed hrow' hc =>
      refine hother hrow' (fun hp => ?_) _
      simp [claimable, hp] at hc
  | published hrow' hp => exact hother hrow' (by simp [hp]) _
  | failed hrow' hp => exact hother hrow' (by simp [hp]) _
  | requeued hrow' hp => exact hother hrow' (by simp [hp]) _

/-- `MarkPublished` hits a row that is being processed, and no other. -/
theorem markPublished_status {hashtext : String → Int} {id : String} {now : Time}
    {o : Op (dialect hashtext).engine Error Unit}
    (h : (contract hashtext).Allows (.markPublished id now) o) (hans : o.answer = .ok ()) :
    (view o.before o.writes).outboxStatus id = some .published ↔
      Db.outboxStatus o.before id = some .processing ∨
        Db.outboxStatus o.before id = some .published := by
  have hspec : (methodOf (.markPublished id now)).Runs (dialect hashtext).engine o.before
    (.ok ()) o.writes := h.spec (h.told hans)
  rcases single_runs (m := methodOf (.markPublished id now)) rfl hspec with
    ⟨_, _, _, he, _⟩ | ⟨f, r, hx, _, hw⟩
  · cases he
  · rw [hw]
    rcases Plan.updateRow_ok.mp hx with ⟨hnone, rfl⟩ | ⟨row, hrow, hg, _, rfl⟩
    · have hnot : Db.outboxStatus o.before id ≠ some .processing := by
        intro hp
        obtain ⟨row, hrow, hs⟩ := Option.map_eq_some_iff.mp hp
        have hnone : ((Db.outboxEvents o.before).find? id).filter
          (fun r => r.status == .processing) = none := hnone
        rw [hrow] at hnone
        simp [hs] at hnone
      simp [hnot]
    · have hrow : (Db.outboxEvents o.before).find? id = some row := hrow
      have hs : row.status = .processing := by simpa using hg
      have hafter : (view o.before [.update .outboxEvents id (.publish now)]).outboxStatus id =
          some .published := by
        show ((OutboxTable.update (Db.outboxEvents o.before) id (.publish now)).find? id).map
          OutboxRow.status = _
        rw [OutboxTable.find?_update, if_pos rfl, hrow]
        rfl
      have hbefore : Db.outboxStatus o.before id = some .processing := by
        rw [Db.outboxStatus, hrow, Option.map_some, hs]
      exact ⟨fun _ => Or.inl hbefore, fun _ => hafter⟩

end

/-- A publisher that returns success has left its event published for good exactly when it
was being processed, or had been published, as the publisher marked it. -/
theorem published_iff_processing (P : Platform) (policy : Policy) (d : Db) (w : policy.World)
    (es : List (Transact.Event (system P policy))) (s : SystemState P policy)
    (h : (State.init d w : SystemState P policy).steps es = some s) (i : Nat) (attempts : Int)
    (draws : OutboxPublisher.Draws) (start : Db)
    (ht : s.tasks[i]? = some ⟨.publishNext attempts draws, start, .idle (.ret (true, none))⟩) :
    ∃ event claim mark,
      ⟨i, .nextPending draws.claimedAt, claim⟩ ∈ s.log ∧ claim.reply = .ok (some event) ∧
      ⟨i, .markPublished event.id draws.markedAt, mark⟩ ∈ s.log ∧
      ((view mark.before mark.writes).outboxStatus event.id = some .published ∧
          s.db.outboxStatus event.id = some .published ↔
        Db.outboxStatus mark.before event.id = some .processing ∨
          Db.outboxStatus mark.before event.id = some .published) := by
  have hreach := State.reach_abs (store_sound P.hashtext) h
  have htrace := traced_reach hreach
  obtain ⟨q, hmade, hq⟩ := htrace.made i _ (State.abs_tasks ht)
  have hq : (.ret (true, none) : Service P _) = q := hq _ rfl
  have hmade : (OutboxPublisher.publishNext P attempts draws).Made i (own i s.log) q := hmade
  subst hq
  rcases publishNext_made hmade with hnil | ⟨claim, ⟨_, hne⟩ | ⟨event, hclaim, ⟨_, _, _, hne⟩ |
    ⟨mark, _, hown, hmark⟩⟩⟩
  · rw [hnil] at hmade
    cases hmade
  · exact absurd rfl hne
  · exact absurd rfl hne
  · have hlog : ∀ e ∈ own i s.log, e ∈ s.log := fun e he => (List.mem_filter.mp he).1
    rw [hown] at hlog
    have hclaimed := hlog _ List.mem_cons_self
    have hmarked := hlog _ (List.mem_cons_of_mem _ (List.mem_singleton_self _))
    refine ⟨event, claim, mark, hclaimed, (htrace.allowed _ hclaimed).told hclaim, hmarked, ?_⟩
    rw [← markPublished_status (htrace.allowed _ hmarked) (hmark rfl), and_iff_left_iff_imp]
    intro hpub
    obtain ⟨row, hrow, hs⟩ := Option.map_eq_some_iff.mp hpub
    have hstays : s.db.outboxEvents.find? event.id = some row := by
      refine since_reach (Q := fun d : Db => d.outboxEvents.find? event.id = some row) ?_ hreach
        hmarked hrow
      exact fun hrow ho => (allows_outbox ho).published_stays hrow hs
    rw [Db.outboxStatus, hstays]
    exact congrArg some hs

/-- What a call of `PublishNext` has returned. -/
def publisherResult {P : Platform} {policy : Policy} :
    Task (system P policy) → Option (Bool × Option Error)
  | ⟨.publishNext _ _, _, .idle (.ret r)⟩ => some r
  | _ => none

theorem of_publisherResult {P : Platform} {policy : Policy} {t : Task (system P policy)}
    {r : Bool × Option Error} (h : publisherResult t = some r) :
    ∃ attempts draws start, t = ⟨.publishNext attempts draws, start, .idle (.ret r)⟩ := by
  unfold publisherResult at h
  split at h
  · cases h
    exact ⟨_, _, _, rfl⟩
  · cases h

/-- Only publishers are at work. -/
def publishing : Request → Bool
  | .publishNext .. => true
  | _ => false

/-- An event in the queue. -/
def queuedEvent : OutboxRow where
  id := "evt_1"
  eventType := .riskEvaluated
  aggregateID := "txn_1"
  partitionKey := "alice"
  correlationID := "trace-1"
  payload := .riskEvaluated ⟨"txn_1", "alice", 500, "USD", .low, true, "amount within limit",
    "trace-1"⟩
  status := .pending
  createdAt := 0
  updatedAt := 0

def queuedDb : Db := view Db.empty [.insert .outboxEvents queuedEvent]

/-- A publisher claims the event and takes six minutes.  Another one claims it too, cannot
send it, and puts it back.  Then the first has sent it. -/
def stalledRun : List (Transact.Event (system .plain (.only publishing))) :=
  [.arrive (.publishNext 3 ⟨0, fun _ => none, 2 * fiveMinutes⟩), .run 0,
   .arrive (.publishNext 3 ⟨fiveMinutes + 1, fun _ => some (.text "no broker"), fiveMinutes + 2⟩),
   .run 1, .run 1, .run 0]

/-- It returns success, and the event is back in the queue. -/
theorem published_not_durable : ∃ s : SystemState .plain (.only publishing),
    (State.init queuedDb ()).steps stalledRun = some s ∧
      s.tasks[0]?.bind publisherResult = some (true, none) ∧
      (s.log.filterMap fun e => (handedOut e.call e.op.answer).map fun event =>
        (e.task, event.id)) = [(0, "evt_1"), (1, "evt_1")] ∧
      s.db.outboxStatus "evt_1" = some .pending := by
  have h : ((State.init queuedDb () : SystemState .plain (.only publishing)).steps stalledRun).map
      (fun s => (s.tasks[0]?.bind publisherResult, s.log.filterMap fun e =>
        (handedOut e.call e.op.answer).map fun event => (e.task, event.id),
        s.db.outboxStatus "evt_1")) =
      some (some (true, none), [(0, "evt_1"), (1, "evt_1")], some .pending) := by
    decide +kernel
  obtain ⟨s, hs, hres⟩ := Option.map_eq_some_iff.mp h
  simp only [Prod.mk.injEq] at hres
  exact ⟨s, hs, hres.1, hres.2.1, hres.2.2⟩

/-- A publisher that is left alone. -/
def aloneRun : List (Transact.Event (system .plain (.only publishing))) :=
  [.arrive (.publishNext 3 ⟨0, fun _ => none, 1⟩), .run 0, .run 0]

theorem published_iff_processing_alone :
    ∃ (s : SystemState .plain (.only publishing)) (draws : OutboxPublisher.Draws),
    (State.init queuedDb ()).steps aloneRun = some s ∧
      ∃ event claim mark, ⟨0, .nextPending draws.claimedAt, claim⟩ ∈ s.log ∧
        claim.reply = .ok (some event) ∧ ⟨0, .markPublished event.id draws.markedAt, mark⟩ ∈ s.log ∧
        ((view mark.before mark.writes).outboxStatus event.id = some .published ∧
            s.db.outboxStatus event.id = some .published ↔
          Db.outboxStatus mark.before event.id = some .processing ∨
            Db.outboxStatus mark.before event.id = some .published) := by
  have h : ((State.init queuedDb () : SystemState .plain (.only publishing)).steps aloneRun).map
      (fun s => s.tasks[0]?.bind publisherResult) = some (some (true, none)) := by
    decide +kernel
  obtain ⟨s, hs, hres⟩ := Option.map_eq_some_iff.mp h
  obtain ⟨t, ht, hr⟩ := Option.bind_eq_some_iff.mp hres
  obtain ⟨attempts, draws, start, rfl⟩ := of_publisherResult hr
  exact ⟨s, draws, hs, published_iff_processing .plain (.only publishing) queuedDb () aloneRun s hs 0
    attempts draws start ht⟩

end Clearance
