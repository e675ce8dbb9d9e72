/-
# `Clearance.OutboxHistory` — what publishers have done to an event

The log of a run tells the history of every event in the outbox, and the rows of the
outbox agree with it:

    PUBLISHED           somebody has sent exactly this event
    attempts            each one is a publication that failed, and there are fewer than
                        the limit, or as many, and the event is DEAD_LETTERED
    a second claim      the event was put back, or the first claim is older than five
                        minutes

`RowStep` is `Clearance.OutboxStep` seen from one row, and all of it follows from
`RowStep` case by case.
-/
import Clearance.Outbox

namespace Clearance

open Transact

/-! ## One row -/

/-- What an operation does to the row of event `id`. -/
inductive RowStep (id : String) : Call → Option OutboxEvent → Option OutboxRow →
    Option OutboxRow → Prop
  | same {c event row} : (∀ e, event = some e → e.id ≠ id) → RowStep id c event row row
  | added {c row} : c.Adds row → RowStep id c none none (some row)
  | claimed {now row} : claimable now row = true → row.id = id →
      RowStep id (.nextPending now) (some ((OutboxUpdate.claim now).apply row).event) (some row)
        (some ((OutboxUpdate.claim now).apply row))
  | published {now row} : row.status = .processing →
      RowStep id (.markPublished id now) none (some row)
        (some ((OutboxUpdate.publish now).apply row))
  | failed {maxAttempts now row} : row.status = .processing →
      RowStep id (.markFailedAttempt id maxAttempts now) none (some row)
        (some ((OutboxUpdate.fail maxAttempts now).apply row))
  | requeued {reason action now row} : row.status = .deadLettered →
      RowStep id (.requeueOutbox id reason action now) none (some row)
        (some ((OutboxUpdate.requeue now).apply row))

theorem RowStep.refl {id : String} {c : Call} {row : Option OutboxRow} :
    RowStep id c none row row :=
  .same fun _ he => nomatch he

theorem OutboxStep.row {t t' : OutboxTable} {c : Call} {event : Option OutboxEvent}
    (h : OutboxStep t c event t') (id : String) :
    RowStep id c event (t.find? id) (t'.find? id) := by
  cases h with
  | idle => exact .refl
  | @added c row hf hc =>
      rw [Table.find?_insert]
      split
      · next hid =>
          subst hid
          rw [hf]
          exact .added hc
      · exact .refl
  | @claimed now row hrow hc =>
      rw [OutboxTable.find?_update]
      split
      · next hid =>
          subst hid
          rw [hrow]
          exact .claimed hc rfl
      · next hid =>
          refine .same fun e he => ?_
          cases he
          exact Ne.symm hid
  | published hrow hs =>
      rw [OutboxTable.find?_update]
      split
      · next hid =>
          subst hid
          rw [hrow]
          exact .published hs
      · exact .refl
  | failed hrow hs =>
      rw [OutboxTable.find?_update]
      split
      · next hid =>
          subst hid
          rw [hrow]
          exact .failed hs
      · exact .refl
  | requeued hrow hs =>
      rw [OutboxTable.find?_update]
      split
      · next hid =>
          subst hid
          rw [hrow]
          exact .requeued hs
      · exact .refl

/-- The content of a row stays. -/
theorem RowStep.content {id : String} {c : Call} {event : Option OutboxEvent} {row : OutboxRow}
    {row' : Option OutboxRow} (h : RowStep id c event (some row) row') :
    row'.map OutboxRow.content = some row.content := by
  cases h with
  | same _ => rfl
  | claimed _ _ => rfl
  | published _ => rfl
  | failed _ => rfl
  | requeued _ => rfl

/-- Only `MarkFailedAttempt` counts attempts. -/
theorem RowStep.attempts {id : String} {c : Call} {event : Option OutboxEvent}
    {row row' : Option OutboxRow} (h : RowStep id c event row row')
    (hlt : (row.map OutboxRow.attempts).getD 0 < (row'.map OutboxRow.attempts).getD 0)
    (hadd : ∀ r, c.Adds r → r.attempts = 0) : ∃ m now, c = .markFailedAttempt id m now := by
  cases h with
  | same _ => exact absurd hlt (Nat.lt_irrefl _)
  | added hc => simp [hadd _ hc] at hlt
  | claimed _ _ => exact absurd hlt (Nat.lt_irrefl _)
  | published _ => exact absurd hlt (Nat.lt_irrefl _)
  | failed _ => exact ⟨_, _, rfl⟩
  | requeued _ => simp [OutboxUpdate.apply] at hlt

/-- The number of attempts fits the status, for publishers that try `M` times. -/
structure OutboxRow.Fits (M : Int) (row : OutboxRow) : Prop where
  exhausted : row.status = .deadLettered → (row.attempts : Int) = M
  left : row.status ≠ .deadLettered → (row.attempts : Int) < M

/-- Operations of services whose publishers try `M` times. -/
def Call.Shares (M : Int) : Call → Prop
  | .markFailedAttempt _ m _ => m = M
  | .create _ event _ | .createDeposit _ event _ _ | .saveConsumerOutbox _ _ event _ =>
      event.status = .pending
  | _ => True

theorem Call.Adds.fresh {M : Int} {c : Call} {row : OutboxRow} (h : c.Adds row)
    (hc : c.Shares M) : row.status = .pending ∧ row.attempts = 0 := by
  cases c with
  | create | createDeposit | saveConsumerOutbox =>
      rw [show row = outboxRow _ _ from h]
      exact ⟨hc, rfl⟩
  | processRiskEvaluated => exact h
  | _ => exact h.elim

theorem RowStep.fits {M : Int} (hM : 1 ≤ M) {id : String} {c : Call} {event : Option OutboxEvent}
    {row row' : Option OutboxRow} (h : RowStep id c event row row') (hc : c.Shares M)
    (hrow : ∀ r, row = some r → r.Fits M) : ∀ r, row' = some r → r.Fits M := by
  intro r hr
  cases h with
  | same _ => exact hrow r hr
  | added ha =>
      cases hr
      obtain ⟨hs, hz⟩ := ha.fresh hc
      exact ⟨fun hd => by simp [hs] at hd, fun _ => by rw [hz]; exact_mod_cast hM⟩
  | @claimed now row hcl _ =>
      cases hr
      refine ⟨(fun h => by cases h), fun _ => (hrow row rfl).left fun hs => ?_⟩
      simp [claimable, hs] at hcl
  | @published now row hs =>
      cases hr
      exact ⟨(fun h => by cases h), fun _ => (hrow row rfl).left (by simp [hs])⟩
  | @failed m now row hs =>
      cases hr
      obtain rfl : m = M := hc
      have hlt := (hrow row rfl).left (by simp [hs])
      simp only [OutboxUpdate.apply]
      by_cases hd : (row.attempts + 1 : Int) ≥ m
      · refine ⟨fun _ => ?_, fun hne => by simp [hd] at hne⟩
        push_cast
        omega
      · refine ⟨fun heq => by simp [hd] at heq, fun _ => ?_⟩
        push_cast
        omega
  | @requeued reason action now row hs =>
      cases hr
      exact ⟨(fun h => by cases h), fun _ => by exact_mod_cast hM⟩

/-! ## The log -/

section

variable {P : Platform}

def Call.claimTime : Call → Time
  | .nextPending now => now
  | _ => 0

/-- The claim of an event, and its time. -/
def claimOf? (e : LogEntry P) : Option (String × Time) :=
  (handedOut e.call e.op.reply).map fun event => (event.id, e.call.claimTime)

/-- The status of an event right after an operation. -/
def statusAfter (id : String) (e : LogEntry P) : Option OutboxStatus :=
  (view e.op.before e.op.writes).outboxStatus id

/-- Who holds an event, after one operation more: the time of the claim. -/
def holdStep (id : String) (held : Option Time) (e : LogEntry P) : Option Time :=
  match claimOf? e with
  | some (id', now) => if id' = id then some now else held
  | none => if statusAfter id e = some .pending then none else held

/-- The time of the last claim of an event, unless the event has been put back since. -/
def holding (id : String) (g : List (LogEntry P)) : Option Time := g.foldl (holdStep id) none

theorem holding_concat (id : String) (g : List (LogEntry P)) (e : LogEntry P) :
    holding id (g ++ [e]) = holdStep id (holding id g) e := by
  simp [holding]

/-- A claim is held as long as nobody else claims the event or puts it back. -/
theorem holding_of_claim {id : String} {t : Time} (g₁ : List (LogEntry P)) {e : LogEntry P}
    {g₂ : List (LogEntry P)} (he : claimOf? e = some (id, t))
    (hclaim : ∀ e ∈ g₂, ∀ t, claimOf? e ≠ some (id, t))
    (hback : ∀ e ∈ g₂, statusAfter id e ≠ some .pending) :
    holding id (g₁ ++ e :: g₂) = some t := by
  induction g₂ using List.reverseRecOn with
  | nil =>
      rw [holding_concat, holdStep, he]
      exact if_pos rfl
  | append_singleton g₂ e' ih =>
      have hlast : e' ∈ g₂ ++ [e'] := List.mem_append_right _ (List.mem_singleton_self _)
      have hsub : ∀ x ∈ g₂, x ∈ g₂ ++ [e'] := fun x hx => List.mem_append_left _ hx
      rw [← List.cons_append, ← List.append_assoc, holding_concat,
        ih (fun x hx => hclaim x (hsub x hx)) (fun x hx => hback x (hsub x hx)), holdStep]
      split
      · next id' now hc =>
          rw [if_neg]
          rintro rfl
          exact hclaim e' hlast now hc
      · exact if_neg (hback e' hlast)

/-- The outbox agrees with the log. -/
structure History (M : Int) (d : Db) (g : List (LogEntry P)) : Prop where
  fits : ∀ id row, d.outboxEvents.find? id = some row → row.Fits M
  /-- A published event has been marked. -/
  marked : ∀ id row, d.outboxEvents.find? id = some row → row.status = .published →
    ∃ e ∈ g, ∃ now, e.call = .markPublished id now
  /-- What has been handed out is still there. -/
  handed : ∀ e ∈ g, ∀ event, handedOut e.call e.op.reply = some event →
    ∃ row, d.outboxEvents.find? event.id = some row ∧ row.content = event.content
  /-- An event that is held waits for its publisher, or the publisher is done with it. -/
  held : ∀ id t, holding id g = some t → ∃ row, d.outboxEvents.find? id = some row ∧
    row.status ≠ .pending ∧ (row.status = .processing → row.updatedAt = t)
  /-- An event that is held is claimed only when the claim has become old. -/
  spaced : ∀ g₁ e g₂, g = g₁ ++ e :: g₂ → ∀ id t t', claimOf? e = some (id, t') →
    holding id g₁ = some t → t + fiveMinutes < t'

theorem History.empty (M : Int) : History M Db.empty ([] : List (LogEntry P)) := by
  have hnone : ∀ id row, Db.empty.outboxEvents.find? id ≠ some row := fun id row h => by
    rw [show Db.empty.outboxEvents.find? id = none from rfl] at h
    cases h
  refine ⟨?_, ?_, ?_, ?_, ?_⟩
  · exact fun id row h => absurd h (hnone id row)
  · exact fun id row h => absurd h (hnone id row)
  · exact fun e he => absurd he List.not_mem_nil
  · intro id t h
    rw [holding, List.foldl_nil] at h
    cases h
  · intro g₁ e g₂ h
    simp at h

variable {M : Int} {d : Db} {g : List (LogEntry P)} {i : Nat} {c : Call}
  {o : Op (dialect P.hashtext).engine Error c.Reply}

theorem History.marked_step (h : History M d g) {id : String} {row : OutboxRow} {d' : Db}
    (hstep : RowStep id c (handedOut c o.reply) (d.outboxEvents.find? id)
      (d'.outboxEvents.find? id))
    (hc : c.Shares M) (hrow : d'.outboxEvents.find? id = some row) (hs : row.status = .published) :
    ∃ e ∈ g ++ [⟨i, c, o⟩], ∃ now, e.call = .markPublished id now := by
  have hold : d.outboxEvents.find? id = some row →
      ∃ e ∈ g ++ [⟨i, c, o⟩], ∃ now, e.call = .markPublished id now := by
    intro hrow
    obtain ⟨e, he, hcall⟩ := h.marked id row hrow hs
    exact ⟨e, List.mem_append_left _ he, hcall⟩
  rw [hrow] at hstep
  generalize hev : handedOut c o.reply = event at hstep
  generalize hbefore : d.outboxEvents.find? id = before at hstep
  cases hstep with
  | same _ => exact hold hbefore
  | added ha =>
      rw [(ha.fresh hc).1] at hs
      cases hs
  | claimed _ _ => cases hs
  | @published now _ _ =>
      exact ⟨_, List.mem_append_right _ (List.mem_singleton_self _), now, rfl⟩
  | failed _ =>
      simp only [OutboxUpdate.apply] at hs
      split at hs <;> cases hs
  | requeued _ => cases hs

theorem RowStep.handed {id : String} {c : Call} {event : OutboxEvent} {row row' : Option OutboxRow}
    (h : RowStep id c (some event) row row') (hid : event.id = id) :
    ∃ now r, c = .nextPending now ∧ row = some r ∧ claimable now r = true ∧
      event = ((OutboxUpdate.claim now).apply r).event ∧
      row' = some ((OutboxUpdate.claim now).apply r) := by
  cases h with
  | same hne => exact absurd hid (hne event rfl)
  | claimed hc _ => exact ⟨_, _, rfl, rfl, hc, rfl, rfl⟩

theorem History.handed_step (h : History M d g) {d' : Db}
    (hstep : ∀ id, RowStep id c (handedOut c o.reply) (d.outboxEvents.find? id)
      (d'.outboxEvents.find? id)) {e : LogEntry P} (he : e ∈ g ++ [⟨i, c, o⟩])
    {event : OutboxEvent} (hev : handedOut e.call e.op.reply = some event) :
    ∃ row, d'.outboxEvents.find? event.id = some row ∧ row.content = event.content := by
  have hstep := hstep event.id
  rcases List.mem_append.mp he with he | he
  · obtain ⟨row, hrow, hcontent⟩ := h.handed e he event hev
    rw [hrow] at hstep
    obtain ⟨row', hrow', hsame⟩ := Option.map_eq_some_iff.mp hstep.content
    exact ⟨row', hrow', hsame.trans hcontent⟩
  · rw [List.mem_singleton.mp he] at hev
    rw [show handedOut c o.reply = some event from hev] at hstep
    obtain ⟨now, r, _, _, _, hevent, hrow⟩ := hstep.handed rfl
    refine ⟨_, hrow, ?_⟩
    rw [hevent]
    rfl

theorem History.held_step (h : History M d g) {id : String}
    (hstep : RowStep id c (handedOut c o.reply) (d.outboxEvents.find? id)
      ((view o.before o.writes).outboxEvents.find? id)) {t : Time}
    (ht : holding id (g ++ [⟨i, c, o⟩]) = some t) :
    ∃ row, (view o.before o.writes).outboxEvents.find? id = some row ∧ row.status ≠ .pending ∧
      (row.status = .processing → row.updatedAt = t) := by
  rw [holding_concat, holdStep] at ht
  cases hev : handedOut c o.reply with
  | some event =>
      rw [hev] at hstep
      have hclaim : claimOf? (⟨i, c, o⟩ : LogEntry P) = some (event.id, c.claimTime) := by
        rw [claimOf?, hev]
        rfl
      rw [hclaim] at ht
      by_cases hid : event.id = id
      · obtain ⟨now, r, rfl, _, _, _, hrow⟩ := hstep.handed hid
        simp only [hid, if_true, Call.claimTime, Option.some.injEq] at ht
        exact ⟨_, hrow, nofun, fun _ => ht⟩
      · simp only [hid, if_false] at ht
        have hsame : d.outboxEvents.find? id = (view o.before o.writes).outboxEvents.find? id := by
          generalize d.outboxEvents.find? id = before at hstep ⊢
          generalize (view o.before o.writes).outboxEvents.find? id = after at hstep ⊢
          cases hstep with
          | same _ => rfl
          | claimed _ hrow => exact absurd hrow hid
        rw [← hsame]
        exact h.held id t ht
  | none =>
      rw [hev] at hstep
      have hclaim : claimOf? (⟨i, c, o⟩ : LogEntry P) = none := by
        rw [claimOf?, hev]
        rfl
      have hback : statusAfter id (⟨i, c, o⟩ : LogEntry P) ≠ some .pending := by
        intro hp
        rw [hclaim] at ht
        simp [hp] at ht
      rw [hclaim] at ht
      simp only [hback, if_false] at ht
      obtain ⟨row, hrow, hne, hat⟩ := h.held id t ht
      have hback : ((view o.before o.writes).outboxEvents.find? id).map OutboxRow.status ≠
        some .pending := hback
      rw [hrow] at hstep
      generalize (view o.before o.writes).outboxEvents.find? id = after at hstep hback ⊢
      cases hstep with
      | same _ => exact ⟨row, rfl, hne, hat⟩
      | published _ => exact ⟨_, rfl, nofun, nofun⟩
      | failed _ =>
          refine ⟨_, rfl, fun hp => hback (congrArg some hp), fun hp => ?_⟩
          simp only [OutboxUpdate.apply] at hp
          split at hp <;> cases hp
      | requeued _ => exact absurd rfl hback

/-- An event is claimed when it waits, or when its claim has become old. -/
theorem History.spaced_step (h : History M d g) {id : String}
    (hstep : RowStep id c (handedOut c o.reply) (d.outboxEvents.find? id)
      ((view o.before o.writes).outboxEvents.find? id)) {t t' : Time}
    (hclaim : claimOf? (⟨i, c, o⟩ : LogEntry P) = some (id, t')) (ht : holding id g = some t) :
    t + fiveMinutes < t' := by
  obtain ⟨event, hev, hpair⟩ := Option.map_eq_some_iff.mp hclaim
  obtain ⟨hid, hat⟩ := Prod.mk.inj hpair
  rw [show handedOut c o.reply = some event from hev] at hstep
  obtain ⟨now, r, rfl, hrow, hc, _, _⟩ := hstep.handed hid
  obtain ⟨row, hrow', hne, hupd⟩ := h.held id t ht
  rw [hrow] at hrow'
  cases hrow'
  have hc : r.status = .pending ∨ (r.status = .processing ∧ r.updatedAt < now - fiveMinutes) := by
    simpa [claimable] using hc
  rcases hc with hp | ⟨hp, hlt⟩
  · exact absurd hp hne
  · rw [hupd hp] at hlt
    rw [← show now = t' from hat]
    exact Int.add_lt_of_lt_sub_right hlt

theorem History.step (h : History M d g) (hM : 1 ≤ M) (hc : c.Shares M)
    (ho : (contract P.hashtext).Allows c o) (hb : o.before = d) :
    History M (view d o.writes) (g ++ [⟨i, c, o⟩]) := by
  subst hb
  have hstep := fun id => (allows_outbox ho).row id
  refine ⟨fun id row hrow => ?_, fun id row hrow hs => ?_, fun e he event hev => ?_,
    fun id t ht => ?_, fun g₁ e g₂ hg id t t' hclaim ht => ?_⟩
  · exact (hstep id).fits hM hc (h.fits id) row hrow
  · exact h.marked_step (hstep id) hc hrow hs
  · exact h.handed_step hstep he hev
  · exact h.held_step (hstep id) ht
  · rcases List.eq_nil_or_concat g₂ with rfl | ⟨g₃, e', rfl⟩
    · obtain ⟨rfl, he⟩ := List.append_inj' hg rfl
      cases he
      exact h.spaced_step (hstep id) hclaim ht
    · refine h.spaced g₁ e g₃ ?_ id t t' hclaim ht
      rw [List.concat_eq_append, ← List.cons_append, ← List.append_assoc] at hg
      exact (List.append_inj' hg rfl).1

end

/-! ## Whole runs -/

/-- The services, with publishers that try `M` times. -/
def sharing (M : Int) (r : Request) : Bool :=
  services r &&
    match r with
    | .publishNext attempts _ => attempts == M
    | _ => true

theorem shares_of_calls {P : Platform} {M : Int} {r : Request} {c : Call}
    (hr : sharing M r = true) (hc : (r.program P).Calls c) : c.Shares M := by
  obtain ⟨hserv, hlimit⟩ := Bool.and_eq_true_iff.mp hr
  cases hm : Request.makes hc with
  | create _ _ _ => rfl
  | deposit _ _ _ => rfl
  | evaluate _ _ _ => rfl
  | settle _ _ _ => trivial
  | record => trivial
  | prune => trivial
  | store =>
      cases c with
      | processRiskEvaluated => trivial
      | _ => cases hserv
  | minor hminor =>
      cases c with
      | markFailedAttempt id m now =>
          rcases publisher_of_calls hc rfl with ⟨attempts, draws, rfl⟩ | rfl
          · rcases OutboxPublisher.publishNext_calls hc with h | ⟨_, h | h⟩
            · cases h
            · cases h
              exact beq_iff_eq.mp hlimit
            · cases h
          · cases hserv
      | create | createDeposit | saveConsumerOutbox => cases hminor
      | _ => trivial

section

variable {P : Platform} {policy : Policy}

/-- What call `i` has published, and what the broker answered.  A call that crashed right
after its claim may not have come so far. -/
def publication (s : SystemState P policy) (i : Nat) : Option (OutboxEvent × Option Error) :=
  match s.tasks[i]? with
  | some ⟨.publishNext _ draws, _, proc⟩ =>
      ((own i s.log).findSome? fun e => handedOut e.call e.op.answer).bind fun event =>
        if proc.gone && decide ((own i s.log).length ≤ 1) then none
        else some (event, draws.publish event)
  | _ => none

/-- The number of attempts counted for an event. -/
def Db.attempts (d : Db) (id : String) : Nat :=
  ((d.outboxEvents.find? id).map OutboxRow.attempts).getD 0

/-- The operations that counted one attempt more for an event. -/
def increments (id : String) (g : List (LogEntry P)) : List (LogEntry P) :=
  g.filter fun e => decide (Db.attempts e.op.before id < (view e.op.before e.op.writes).attempts id)

/-- The calls that could not publish an event. -/
def failedPublications (s : SystemState P policy) (id : String) : List Nat :=
  (List.range s.tasks.length).filter fun i =>
    match publication s i with
    | some (event, some _) => event.id == id
    | _ => false

end

section

variable {P : Platform} {M : Int} {es : List (Transact.Event (system P (.only (sharing M))))}
  {s : SystemState P (.only (sharing M))}

theorem history_reach (hM : 1 ≤ M)
    (h : (State.init Db.empty () : SystemState P (.only (sharing M))).steps es = some s) :
    History M s.db s.log ∧ ∀ t ∈ s.abs.tasks, sharing M t.request = true := by
  have hsafe : Safe (system P (.only (sharing M))) (contract P.hashtext)
      (fun d _ g => History M d g) fun r _ => sharing M r = true :=
    { arrive := fun hI hw => ⟨hI, Policy.accept_only (w := ()) hw⟩
      env := fun hI _ => hI
      op := fun i hI hQ hcall ho hb => hI.step hM (shares_of_calls hQ hcall) ho hb
      stable := fun _ _ _ _ _ hQ => hQ }
  have hkept := hsafe.reach (Kept.init (History.empty M))
    (State.reach_abs (store_sound P.hashtext) h)
  exact ⟨hkept.inv, fun t ht => (hkept.known t ht).1⟩

/-- Behind every mark there is a publisher. -/
theorem publisher_of_entry (htrace : Traced (contract P.hashtext) s.abs)
    (hserv : ∀ t ∈ s.abs.tasks, sharing M t.request = true) {e : LogEntry P} (he : e ∈ s.log)
    (hc : e.call.publishes = true) :
    ∃ attempts draws start proc q,
      s.tasks[e.task]? = some ⟨.publishNext attempts draws, start, proc⟩ ∧
      (OutboxPublisher.publishNext P attempts draws).Made e.task (own e.task s.log) q := by
  obtain ⟨t, q, ht, hown, hmade⟩ := htrace.entry he
  obtain ⟨t', ht', rfl⟩ := State.tasks_of_abs ht
  have hs := hserv t'.abs (List.mem_of_getElem? ht)
  obtain ⟨request, start, proc⟩ := t'
  rcases publisher_of_calls (hmade.calls hown) hc with ⟨attempts, draws, rfl⟩ | rfl
  · exact ⟨attempts, draws, start, proc, q, ht', hmade⟩
  · have hs : sharing M (.store e.call) = true := hs
    cases hcall : e.call with
    | nextPending | markPublished | markFailedAttempt =>
        rw [hcall] at hs
        cases hs
    | _ =>
        rw [hcall] at hc
        cases hc

theorem publication_eq {i : Nat} {attempts : Int} {draws : OutboxPublisher.Draws} {start : Db}
    {proc : Proc (dialect P.hashtext).engine (store P.hashtext) (Bool × Option Error)}
    (ht : s.tasks[i]? = some ⟨.publishNext attempts draws, start, proc⟩) {now : Time}
    {claim : Op (dialect P.hashtext).engine Error (Option OutboxEvent)} {mark : LogEntry P}
    (hown : own i s.log = [⟨i, .nextPending now, claim⟩, mark]) {event : OutboxEvent}
    (hclaim : claim.answer = .ok (some event)) :
    publication s i = some (event, draws.publish event) := by
  rw [publication, ht, hown]
  simp [handedOut, hclaim]

/-- What a mark in the log says of its publisher. -/
structure MarkedBy (s : SystemState P (.only (sharing M))) (e : LogEntry P) (event : OutboxEvent)
    (answer : Option Error) : Prop where
  published : publication s e.task = some (event, answer)
  claimed : ∃ now o, own e.task s.log = [⟨e.task, .nextPending now, o⟩, e] ∧
    o.reply = .ok (some event)

theorem markedBy_of_entry (htrace : Traced (contract P.hashtext) s.abs)
    (hserv : ∀ t ∈ s.abs.tasks, sharing M t.request = true) {e : LogEntry P} (he : e ∈ s.log)
    {id : String} (hc : (∃ now, e.call = .markPublished id now) ∨
      ∃ m now, e.call = .markFailedAttempt id m now) :
    ∃ event answer, MarkedBy s e event answer ∧ event.id = id ∧
      ((∃ now, e.call = .markPublished id now) ↔ answer = none) := by
  have hpub : e.call.publishes = true := by
    rcases hc with ⟨_, hc⟩ | ⟨_, _, hc⟩ <;> rw [hc] <;> rfl
  obtain ⟨attempts, draws, start, proc, q, ht, hmade⟩ := publisher_of_entry htrace hserv he hpub
  have hown : e ∈ own e.task s.log := List.mem_filter.mpr ⟨he, by simp⟩
  have htold : ∀ {i : Nat} {now : Time} {claim : Op (dialect P.hashtext).engine Error
      (Option OutboxEvent)} {event : OutboxEvent}, ⟨i, .nextPending now, claim⟩ ∈ own e.task s.log →
      claim.answer = .ok (some event) → claim.reply = .ok (some event) :=
    fun hmem hans => (htrace.allowed _ (List.mem_filter.mp hmem).1).told hans
  have hnot : ∀ {i : Nat} {now : Time} {claim : Op (dialect P.hashtext).engine Error
      (Option OutboxEvent)}, e ≠ ⟨i, .nextPending now, claim⟩ := by
    intro i now claim heq
    rw [heq] at hc
    rcases hc with ⟨_, hc⟩ | ⟨_, _, hc⟩ <;> cases hc
  rcases publishNext_made hmade with hg | ⟨claim, ⟨hg, _⟩ | ⟨event, hans, ⟨mark, hfail, hg, _⟩ |
    ⟨mark, hnone, hg, _⟩⟩⟩
  · rw [hg] at hown
    cases hown
  · rw [hg] at hown
    exact absurd (List.mem_singleton.mp hown) hnot
  · have hmark : e = ⟨e.task, .markFailedAttempt event.id attempts draws.markedAt, mark⟩ := by
      rw [hg] at hown
      exact (List.mem_pair.mp hown).resolve_left hnot
    have hcall : e.call = .markFailedAttempt event.id attempts draws.markedAt := by
      rw [hmark]
    refine ⟨event, draws.publish event, ⟨publication_eq ht hg hans, _, claim, hmark ▸ hg, ?_⟩, ?_, ?_⟩
    · exact htold (hg ▸ List.mem_cons_self) hans
    · rcases hc with ⟨_, hc⟩ | ⟨_, _, hc⟩ <;> rw [hcall] at hc <;> cases hc
      rfl
    · rw [hcall]
      refine ⟨fun ⟨_, h⟩ => (nomatch h), fun h => ?_⟩
      rw [h] at hfail
      cases hfail
  · have hmark : e = ⟨e.task, .markPublished event.id draws.markedAt, mark⟩ := by
      rw [hg] at hown
      exact (List.mem_pair.mp hown).resolve_left hnot
    have hcall : e.call = .markPublished event.id draws.markedAt := by
      rw [hmark]
    refine ⟨event, draws.publish event, ⟨publication_eq ht hg hans, _, claim, hmark ▸ hg, ?_⟩, ?_, ?_⟩
    · exact htold (hg ▸ List.mem_cons_self) hans
    · rcases hc with ⟨_, hc⟩ | ⟨_, _, hc⟩ <;> rw [hcall] at hc <;> cases hc
      rfl
    · have hid : event.id = id := by
        rcases hc with ⟨_, hc⟩ | ⟨_, _, hc⟩ <;> rw [hcall] at hc <;> cases hc
        rfl
      exact ⟨fun _ => hnone, fun _ => ⟨_, hid ▸ hcall⟩⟩

/-- Only publishers that failed count attempts. -/
theorem increment_call (htrace : Traced (contract P.hashtext) s.abs)
    (hserv : ∀ t ∈ s.abs.tasks, sharing M t.request = true) {e : LogEntry P} {id : String}
    (he : e ∈ increments id s.log) : ∃ m now, e.call = .markFailedAttempt id m now := by
  obtain ⟨hlog, hlt⟩ := List.mem_filter.mp he
  obtain ⟨t, _, ht, hown, hmade⟩ := htrace.entry hlog
  have hshares : e.call.Shares M :=
    shares_of_calls (hserv t (List.mem_of_getElem? ht)) (hmade.calls hown)
  exact ((allows_outbox (htrace.allowed e hlog)).row id).attempts (of_decide_eq_true hlt)
    fun r hr => (hr.fresh hshares).2

theorem increment_markedBy (htrace : Traced (contract P.hashtext) s.abs)
    (hserv : ∀ t ∈ s.abs.tasks, sharing M t.request = true) {e : LogEntry P} {id : String}
    (he : e ∈ increments id s.log) :
    ∃ event err, MarkedBy s e event (some err) ∧ event.id = id := by
  obtain ⟨m, now, hcall⟩ := increment_call htrace hserv he
  obtain ⟨event, answer, hby, hid, hnone⟩ :=
    markedBy_of_entry htrace hserv (List.mem_filter.mp he).1 (Or.inr ⟨m, now, hcall⟩)
  cases answer with
  | none =>
      obtain ⟨_, h⟩ := hnone.mpr rfl
      rw [hcall] at h
      cases h
  | some err => exact ⟨event, err, hby, hid⟩

/-- The attempts a call has counted. -/
theorem filter_increments (id : String) (i : Nat) (g : List (LogEntry P)) :
    (increments id g).filter (fun e => e.task == i) = increments id (own i g) := by
  simp only [increments, own, List.filter_filter, Bool.and_comm]

/-- Every call counts one attempt at most. -/
theorem increments_nodup (htrace : Traced (contract P.hashtext) s.abs)
    (hserv : ∀ t ∈ s.abs.tasks, sharing M t.request = true) (id : String) :
    ((increments id s.log).map Entry.task).Nodup := by
  refine List.nodup_iff_count_le_one.mpr fun i => ?_
  rw [List.count_eq_countP, List.countP_map, List.countP_eq_length_filter]
  show ((increments id s.log).filter fun e => e.task == i).length ≤ 1
  cases hl : (increments id s.log).filter fun e => e.task == i with
  | nil => exact Nat.zero_le 1
  | cons e l =>
      have he : e ∈ (increments id s.log).filter fun e => e.task == i := by
        rw [hl]
        exact List.mem_cons_self
      obtain ⟨hinc, htask⟩ := List.mem_filter.mp he
      obtain rfl : e.task = i := by simpa using htask
      obtain ⟨event, err, hby, _⟩ := increment_markedBy htrace hserv hinc
      obtain ⟨now, o, hown, _⟩ := hby.claimed
      -- The other operation of the call is its claim, which counts nothing.
      have hclaim : (⟨e.task, .nextPending now, o⟩ : LogEntry P) ∉ increments id s.log := by
        intro hmem
        obtain ⟨_, _, hcall⟩ := increment_call htrace hserv hmem
        cases hcall
      have hmem : (⟨e.task, .nextPending now, o⟩ : LogEntry P) ∈ s.log := by
        have : (⟨e.task, .nextPending now, o⟩ : LogEntry P) ∈ own e.task s.log := by
          rw [hown]
          exact List.mem_cons_self
        exact (List.mem_filter.mp this).1
      rw [← hl, filter_increments, hown, increments, List.filter_cons_of_neg]
      · exact List.length_filter_le _ [e]
      · exact fun h => hclaim (List.mem_filter.mpr ⟨hmem, h⟩)

theorem increments_le_failed (htrace : Traced (contract P.hashtext) s.abs)
    (hserv : ∀ t ∈ s.abs.tasks, sharing M t.request = true) (id : String) :
    (increments id s.log).length ≤ (failedPublications s id).length := by
  rw [← List.length_map (f := Entry.task)]
  refine (List.subperm_of_subset (increments_nodup htrace hserv id) fun i hi => ?_).length_le
  obtain ⟨e, he, rfl⟩ := List.mem_map.mp hi
  obtain ⟨event, err, hby, hid⟩ := increment_markedBy htrace hserv he
  have hlt := htrace.named e (List.mem_filter.mp he).1
  refine List.mem_filter.mpr ⟨List.mem_range.mpr ?_, ?_⟩
  · simpa [State.abs] using hlt
  · rw [hby.published]
    simp [hid]

end

/-- The state machine of the outbox, under any number of publishers that try `M` times: at
every moment `s` of a run, and at every later moment `s'`. -/
theorem outbox_history (P : Platform) (M : Int) (hM : 1 ≤ M)
    (es es' : List (Transact.Event (system P (.only (sharing M)))))
    (s s' : SystemState P (.only (sharing M)))
    (h : (State.init Db.empty () : SystemState P (.only (sharing M))).steps es = some s)
    (h' : s.steps es' = some s') :
    (∀ row ∈ s.db.outboxEvents.rows, row.Fits M ∧
      (row.status = .published →
        (∃ i event, publication s i = some (event, none) ∧ event.content = row.content) ∧
        s'.db.outboxEvents.find? row.id = some row)) ∧
    (∀ id, (increments id s.log).length ≤ (failedPublications s id).length) ∧
    ∀ g₁ e g₂ e' g₃ id t t', s.log = g₁ ++ e :: g₂ ++ e' :: g₃ → claimOf? e = some (id, t) →
      claimOf? e' = some (id, t') → (∀ x ∈ g₂, ∀ t, claimOf? x ≠ some (id, t)) →
      (∃ x ∈ g₂, statusAfter id x = some .pending) ∨ t + fiveMinutes < t' := by
  obtain ⟨hiso, hreach⟩ := State.steps_refine (store_sound P.hashtext)
    (Isolated.init (A := system P (.only (sharing M))) Db.empty ()) h
  have htrace := traced_reach hreach
  obtain ⟨hhist, hserv⟩ := history_reach hM h
  refine ⟨fun row hrow => ?_, increments_le_failed htrace hserv, ?_⟩
  · have hfind := Table.find?_of_mem s.db.outboxEvents hrow
    refine ⟨hhist.fits _ row hfind, fun hs => ⟨?_, ?_⟩⟩
    · obtain ⟨e, he, now, hcall⟩ := hhist.marked _ row hfind hs
      obtain ⟨event, answer, hby, hid, hnone⟩ :=
        markedBy_of_entry htrace hserv he (Or.inl ⟨now, hcall⟩)
      obtain ⟨now', o, hown, hreply⟩ := hby.claimed
      have hmem : (⟨e.task, .nextPending now', o⟩ : LogEntry P) ∈ own e.task s.log := by
        rw [hown]
        exact List.mem_cons_self
      obtain ⟨row', hrow', hcontent⟩ := hhist.handed _ (List.mem_filter.mp hmem).1 event
        (by rw [hreply]; rfl)
      rw [hid, hfind] at hrow'
      cases hrow'
      exact ⟨e.task, event, (hnone.mp ⟨now, hcall⟩) ▸ hby.published, hcontent.symm⟩
    · refine later_reach (R := fun d d' : Db => d.outboxEvents.find? row.id = some row →
        d'.outboxEvents.find? row.id = some row) (fun _ => id) ?_
        (State.steps_refine (store_sound P.hashtext) hiso h').2 hfind
      exact fun hR ho hd => (allows_outbox ho).published_stays (hR hd) hs
  · intro g₁ e g₂ e' g₃ id t t' hlog he he' hbetween
    by_cases hback : ∃ x ∈ g₂, statusAfter id x = some .pending
    · exact Or.inl hback
    · refine Or.inr (hhist.spaced _ e' g₃ hlog id t t' he' ?_)
      refine holding_of_claim g₁ he hbetween fun x hx hp => hback ⟨x, hx, hp⟩

/-- A payment is asked for; its event is sent at the second attempt. -/
def secondAttemptRun : List (Transact.Event (system .plain (.only (sharing 3)))) :=
  [.arrive (.create ⟨"alice", "shop", 500, "usd"⟩ ⟨"key-1", "trace-1"⟩
    { transaction := .fill 32 0
      event := .fill 32 0
      createdAt := 0
      updatedAt := 0
      eventAt := 0
      now := 0 }), .run 0, .run 0, .run 0, .run 0, .run 0, .run 0,
   .arrive (.publishNext 3 ⟨1, fun _ => some (.text "no broker"), 2⟩), .run 1, .run 1,
   .arrive (.publishNext 3 ⟨3, fun _ => none, 4⟩), .run 2, .run 2]

theorem outbox_history_secondAttempt : ∃ s : SystemState .plain (.only (sharing 3)),
    (State.init Db.empty ()).steps secondAttemptRun = some s ∧
      (s.db.outboxEvents.rows.map fun r => (r.status, r.attempts)) = [(.published, 1)] ∧
      ∀ row ∈ s.db.outboxEvents.rows, row.status = .published →
        ∃ i event, publication s i = some (event, none) ∧ event.content = row.content := by
  have h : ((State.init Db.empty () : SystemState .plain (.only (sharing 3))).steps
      secondAttemptRun).map (fun s => s.db.outboxEvents.rows.map fun r => (r.status, r.attempts)) =
        some [(.published, 1)] := by
    decide +kernel
  obtain ⟨s, hs, hrows⟩ := Option.map_eq_some_iff.mp h
  refine ⟨s, hs, hrows, fun row hrow hp => ?_⟩
  exact (((outbox_history .plain 3 (by decide) secondAttemptRun [] s s hs rfl).1 row hrow).2 hp).1

end Clearance
