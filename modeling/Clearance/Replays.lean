/-
# `Clearance.Replays` — replaying a dead letter

`ReplayDeadLetter` looks the message up, records an attempt, publishes the message to
the topic it came from, and records how that went.
-/
import Clearance.DeadLetters

namespace Clearance

open Transact OperationsService

/-! ## The operations of a replay -/

section

variable {P : Platform} {i : Nat} {draws : Draws} {g : List (LogEntry P)}
  {q : Service P (Except Error DeadLetter)}

/-- An attempt is recorded, the message is published, and the attempt ends accordingly. -/
theorem startReplay_made {record : DeadLetter} {reason : String}
    (h : (startReplay P record reason draws).Made i g q) :
    g = [] ∨ ∃ start, g = [⟨i, .startDeadLetterReplay record.id (trimSpace reason) draws.attempt
        draws.startedAt, start⟩] ∨
      ∃ attemptID result message finish, start.answer = .ok attemptID ∧
        (result = .published ↔ draws.publish (replayed record) = none) ∧
        g = [⟨i, .startDeadLetterReplay record.id (trimSpace reason) draws.attempt
            draws.startedAt, start⟩,
          ⟨i, .finishDeadLetterReplay attemptID record.id result message draws.action
            draws.finishedAt, finish⟩] := by
  rcases made_bind h with ⟨rfl, _⟩ | ⟨start, g', rfl, hk⟩
  · exact Or.inl rfl
  refine Or.inr ⟨start, ?_⟩
  cases hstart : start.answer with
  | error e =>
      rw [hstart] at hk
      obtain ⟨rfl, _⟩ := Svc.made_ret.mp hk
      exact Or.inl rfl
  | ok attemptID =>
      rw [hstart] at hk
      change (publishReplay P record attemptID draws).Made i g' q at hk
      unfold publishReplay at hk
      cases hpub : draws.publish (replayed record) with
      | some e =>
          rw [hpub] at hk
          rcases made_bind hk with ⟨rfl, _⟩ | ⟨finish, g'', rfl, hm⟩
          · exact Or.inl rfl
          · refine Or.inr ⟨attemptID, .failed, boundedError e, finish, rfl, by simp, ?_⟩
            rcases hfinish : finish.answer with e | _ <;> rw [hfinish] at hm <;>
              rw [(Svc.made_ret.mp hm).1]
      | none =>
          rw [hpub] at hk
          rcases made_bind hk with ⟨rfl, _⟩ | ⟨finish, g'', rfl, hm⟩
          · exact Or.inl rfl
          · refine Or.inr ⟨attemptID, .published, "", finish, rfl, by simp, ?_⟩
            rcases hfinish : finish.answer with e | _ <;> rw [hfinish] at hm <;>
              rw [(Svc.made_ret.mp hm).1]

/-- The operations of `ReplayDeadLetter`: it looks the message up, perhaps asks whether its
event has been processed, and goes on. -/
theorem replayDeadLetter_made {window : Time} {id reason : String}
    (h : (replayDeadLetter P window id reason draws).Made i g q) :
    g = [] ∨ ∃ get, g = [⟨i, .getDeadLetter id, get⟩] ∨
      ∃ record asked rest q', get.answer = .ok (some record) ∧ record.state = .opened ∧
        g = ⟨i, .getDeadLetter id, get⟩ :: (asked ++ rest) ∧
        (∀ e ∈ asked, ∃ eventID, e.call = .isEventProcessed eventID) ∧
        (startReplay P record reason draws).Made i rest q' := by
  unfold replayDeadLetter at h
  split at h
  · exact Or.inl (Svc.made_ret.mp h).1
  rcases made_bind h with ⟨rfl, _⟩ | ⟨get, g', rfl, hk⟩
  · exact Or.inl rfl
  refine Or.inr ⟨get, ?_⟩
  cases hget : get.answer with
  | error e =>
      rw [hget] at hk
      obtain ⟨rfl, _⟩ := Svc.made_ret.mp hk
      exact Or.inl rfl
  | ok found =>
      rw [hget] at hk
      cases found with
      | none =>
          obtain ⟨rfl, _⟩ := Svc.made_ret.mp hk
          exact Or.inl rfl
      | some record =>
          change (replayFound P window record reason draws).Made i g' q at hk
          unfold replayFound at hk
          cases href : refusal window draws.now record with
          | some e =>
              rw [href] at hk
              obtain ⟨rfl, _⟩ := Svc.made_ret.mp hk
              exact Or.inl rfl
          | none =>
              rw [href] at hk
              have hopen : record.state = .opened := by
                unfold refusal at href
                split at href
                · cases href
                · next hs => exact not_not.mp hs
              change (replayOpen P record reason draws).Made i g' q at hk
              unfold replayOpen at hk
              split at hk
              · exact Or.inr ⟨record, [], g', q, rfl, hopen, rfl, List.forall_mem_nil _, hk⟩
              · rcases made_bind hk with ⟨rfl, _⟩ | ⟨seen, g'', rfl, hm⟩
                · exact Or.inl rfl
                · have hasked : ∀ e ∈ [(⟨i, .isEventProcessed record.eventID, seen⟩ : LogEntry P)],
                      ∃ eventID, e.call = .isEventProcessed eventID :=
                    List.forall_mem_singleton.mpr ⟨_, rfl⟩
                  rcases hseen : seen.answer with e | _ | _
                  · rw [hseen] at hm
                    obtain ⟨rfl, _⟩ := Svc.made_ret.mp hm
                    exact Or.inr ⟨record, _, [], _, rfl, hopen, rfl, hasked, .nil⟩
                  · rw [hseen] at hm
                    exact Or.inr ⟨record, _, g'', q, rfl, hopen, rfl, hasked, hm⟩
                  · rw [hseen] at hm
                    obtain ⟨rfl, _⟩ := Svc.made_ret.mp hm
                    exact Or.inr ⟨record, _, [], _, rfl, hopen, rfl, hasked, .nil⟩

/-- The dead letter a replay has found. -/
def lookedUp : (c : Call) → Except Error c.Reply → Option DeadLetter
  | .getDeadLetter _, .ok found => found
  | _, _ => none

/-- The attempt a replay has begun: for which dead letter, its id, and when. -/
def beginning : (c : Call) → Except Error c.Reply → Option (String × String × Time)
  | .startDeadLetterReplay id _ _ now, .ok attemptID => some (id, attemptID, now)
  | _, _ => none

/-- The end of an attempt. -/
def Call.ends : Call → Bool
  | .finishDeadLetterReplay .. => true
  | _ => false

/-- A replay that has begun an attempt: the record it found, the attempt, and how it ends. -/
structure Begun (i : Nat) (id reason : String) (draws : Draws) (g : List (LogEntry P))
    (record : DeadLetter) (attemptID : String) : Prop where
  found : ∃ get, (⟨i, .getDeadLetter id, get⟩ : LogEntry P) ∈ g ∧ get.answer = .ok (some record)
  looked : (g.findSome? fun e => lookedUp e.call e.op.answer) = some record
  started : ∃ start, (⟨i, .startDeadLetterReplay record.id (trimSpace reason) draws.attempt
    draws.startedAt, start⟩ : LogEntry P) ∈ g ∧ start.answer = .ok attemptID
  once : ∀ e ∈ g, ∀ x, beginning e.call e.op.answer = some x →
    x = (record.id, attemptID, draws.startedAt)
  ended : ∀ e ∈ g, e.call.ends = true → ∃ result message,
    e.call = .finishDeadLetterReplay attemptID record.id result message draws.action
      draws.finishedAt ∧ (result = .published ↔ draws.publish (replayed record) = none)

theorem beginning_of_answer {id reason : String} {attempt : Random} {now : Time}
    {start : Op (dialect P.hashtext).engine Error String} {attemptID : String}
    (h : start.answer = .ok attemptID) :
    beginning (.startDeadLetterReplay id reason attempt now) start.answer =
      some (id, attemptID, now) := by
  rw [h]
  rfl

/-- Either a replay has begun an attempt, or it has not come so far. -/
theorem begun_of_made {window : Time} {id reason : String}
    (h : (replayDeadLetter P window id reason draws).Made i g q) :
    (∃ record attemptID, Begun i id reason draws g record attemptID) ∨
      ∀ e ∈ g, beginning e.call e.op.answer = none ∧ e.call.ends = false := by
  rcases replayDeadLetter_made h with rfl | ⟨get, rfl | ⟨record, asked, rest, q', hget, _, rfl,
    hasked, hrest⟩⟩
  · exact Or.inr (List.forall_mem_nil _)
  · exact Or.inr (List.forall_mem_singleton.mpr ⟨rfl, rfl⟩)
  have hother : ∀ e ∈ (⟨i, .getDeadLetter id, get⟩ : LogEntry P) :: asked,
      beginning e.call e.op.answer = none ∧ e.call.ends = false := by
    intro e he
    rcases List.mem_cons.mp he with rfl | he
    · exact ⟨rfl, rfl⟩
    · obtain ⟨eventID, hcall⟩ := hasked e he
      obtain ⟨_, _, op⟩ := e
      subst hcall
      exact ⟨rfl, rfl⟩
  have hlooked : ∀ rest : List (LogEntry P), ((⟨i, .getDeadLetter id, get⟩ :: (asked ++ rest) :
      List (LogEntry P)).findSome? fun e => lookedUp e.call e.op.answer) = some record := by
    intro rest
    rw [List.findSome?_cons, hget]
    rfl
  have hbegun : ∀ {start : Op (dialect P.hashtext).engine Error String} {attemptID : String}
      {tail : List (LogEntry P)}, start.answer = .ok attemptID →
      (∀ e ∈ tail, beginning e.call e.op.answer = none ∧ ∃ result message,
        e.call = .finishDeadLetterReplay attemptID record.id result message draws.action
          draws.finishedAt ∧ (result = .published ↔ draws.publish (replayed record) = none)) →
      Begun i id reason draws (⟨i, .getDeadLetter id, get⟩ :: (asked ++
        ⟨i, .startDeadLetterReplay record.id (trimSpace reason) draws.attempt draws.startedAt,
          start⟩ :: tail)) record attemptID := by
    intro start attemptID tail hstart htail
    refine ⟨⟨get, List.mem_cons_self, hget⟩, hlooked _, ⟨start, by simp, hstart⟩, ?_, ?_⟩
    · intro e he x hx
      rw [← List.cons_append] at he
      rcases List.mem_append.mp he with he | he
      · rw [(hother e he).1] at hx
        cases hx
      rcases List.mem_cons.mp he with rfl | he
      · rw [hstart] at hx
        cases hx
        rfl
      · rw [(htail e he).1] at hx
        cases hx
    · intro e he hends
      rw [← List.cons_append] at he
      rcases List.mem_append.mp he with he | he
      · rw [(hother e he).2] at hends
        cases hends
      rcases List.mem_cons.mp he with rfl | he
      · cases hends
      · exact (htail e he).2
  rcases startReplay_made hrest with rfl | ⟨start, rfl | ⟨attemptID, result, message, finish,
    hstart, hresult, rfl⟩⟩
  · rw [List.append_nil]
    exact Or.inr hother
  · cases hstart : start.answer with
    | error e =>
        refine Or.inr fun e' he' => ?_
        rw [← List.cons_append] at he'
        rcases List.mem_append.mp he' with he' | he'
        · exact hother e' he'
        · rw [List.mem_singleton.mp he', hstart]
          exact ⟨rfl, rfl⟩
    | ok attemptID => exact Or.inl ⟨record, attemptID, hbegun hstart (List.forall_mem_nil _)⟩
  · refine Or.inl ⟨record, attemptID, hbegun hstart (List.forall_mem_singleton.mpr ?_)⟩
    exact ⟨rfl, result, message, rfl, hresult⟩

end

/-! ## Bookkeeping -/

/-- Dead letters are recorded, published and replayed. -/
def replaying : Request → Bool
  | .store (.upsertDeadLetter record) => decide (record.state = .opened)
  | .store (.markDeadLetterPublished ..) => true
  | r => services r

/-- An attempt to replay the dead letter, with this result. -/
def ReplayRow.of (id : String) (result : AttemptResult) (r : ReplayRow) : Bool :=
  r.deadLetterID == id && r.result == result

namespace Letters

/-- How many attempts to replay a dead letter have this result. -/
def attemptCount (l : Letters) (id : String) (result : AttemptResult) : Nat :=
  l.attempts.rows.countP (ReplayRow.of id result)

/-- How many replays of a dead letter are on record. -/
def actionCount (l : Letters) (id : String) : Nat := l.replays.countP fun r => r.targetID == id

/-- How often a dead letter has been replayed. -/
def replayCount (l : Letters) (id : String) : Nat :=
  ((l.messages.find? id).map DeadLetterRow.replayCount).getD 0

/-- The three ways to count agree, and nothing is replayed twice. -/
structure Sound (l : Letters) : Prop where
  published : ∀ id, l.attemptCount id .published = l.replayCount id
  actions : ∀ id, l.actionCount id = l.replayCount id
  state : ∀ id row, l.messages.find? id = some row →
    (row.state = .opened ∧ row.replayCount = 0) ∨ (row.state = .republished ∧ row.replayCount = 1)
  pending : ∀ id, l.attemptCount id .pending ≤ 1

theorem Sound.empty : Db.empty.letters.Sound := by
  have hmessages : ∀ id, Db.empty.letters.messages.find? id = none := fun _ => rfl
  have hattempts : Db.empty.letters.attempts.rows = [] := rfl
  have hreplays : Db.empty.letters.replays = [] := rfl
  constructor <;> intro id
  · rw [attemptCount, hattempts, replayCount, hmessages]
    rfl
  · rw [actionCount, hreplays, replayCount, hmessages]
    rfl
  · intro row hrow
    rw [hmessages] at hrow
    cases hrow
  · rw [attemptCount, hattempts]
    exact Nat.zero_le 1

end Letters

/-- The end of an attempt, seen from any dead letter. -/
theorem ReplayUpdate.of_apply {u : ReplayUpdate} {id : String} {result : AttemptResult}
    {r : ReplayRow} (h : u.deadLetterID ≠ id ∨ (u.result ≠ result ∧ r.result ≠ result)) :
    (u.apply r).of id result = r.of id result := by
  unfold ReplayUpdate.apply
  split
  · next hid =>
      rcases h with hne | ⟨hu, hr⟩
      · simp [ReplayRow.of, hid, beq_eq_false_iff_ne.mpr hne]
      · simp [ReplayRow.of, beq_eq_false_iff_ne.mpr hu, beq_eq_false_iff_ne.mpr hr]
  · rfl

/-- Attempts that were pending are given up: nothing is published by that. -/
theorem AttemptTable.countP_recover {id : String} {result : AttemptResult} {deadLetterID : String}
    {now : Time} {rows : List ReplayRow} {t : AttemptTable}
    (h : deadLetterID ≠ id ∨ (result ≠ .failed ∧
      ∀ r ∈ rows, ∀ row, t.find? r.id = some row → row.result ≠ result)) :
    (t.recover deadLetterID now rows).rows.countP (ReplayRow.of id result) =
      t.rows.countP (ReplayRow.of id result) := by
  induction rows generalizing t with
  | nil => rfl
  | cons r rows ih =>
      refine (ih (h.imp_right fun h => ⟨h.1, ?_⟩)).trans ?_
      · intro r' hr' row hrow
        rw [AttemptTable.find?_update] at hrow
        split at hrow
        · obtain ⟨row', hrow', rfl⟩ := Option.map_eq_some_iff.mp hrow
          unfold ReplayUpdate.apply
          split
          · exact Ne.symm h.1
          · exact h.2 r' (List.mem_cons_of_mem _ hr') row' hrow'
        · exact h.2 r' (List.mem_cons_of_mem _ hr') row hrow
      · refine Table.countP_modify_eq t _ _ _ fun row hrow => ReplayUpdate.of_apply ?_
        exact h.imp_right fun h => ⟨Ne.symm h.1, h.2 r List.mem_cons_self row hrow⟩

section

variable {d : Db} {c : Call} {l : Letters}

theorem recover_eq (d : Db) (deadLetterID : String) (now : Time) (rows : List ReplayRow) :
    ((rows.map (recoverStale deadLetterID now)).foldl (@Schema.apply schema)
      d).deadLetterReplayAttempts =
      AttemptTable.recover d.deadLetterReplayAttempts deadLetterID now rows := by
  induction rows generalizing d with
  | nil => rfl
  | cons r rows ih => exact ih (@Schema.apply schema d (recoverStale deadLetterID now r))

/-- What a start gives up is all that was pending. -/
theorem Started.pending_recover {row : ReplayRow} {now : Time} {rows : List ReplayRow}
    (h : Started d row now rows) :
    (AttemptTable.recover d.deadLetterReplayAttempts row.deadLetterID now rows).rows.countP
      (ReplayRow.of row.deadLetterID .pending) = 0 := by
  have hnone : ∀ attemptID, ((rows.map (recoverStale row.deadLetterID now)).foldl
      (@Schema.apply schema) d).pendingReplay row.deadLetterID attemptID = none := by
    intro attemptID
    rw [pendingReplay_recovered]
    split
    · rfl
    · next hnot =>
        cases hp : d.pendingReplay row.deadLetterID attemptID with
        | none => rfl
        | some r =>
            exact absurd (pendingReplay_id hp ▸ List.mem_map_of_mem (h.all attemptID r hp)) hnot
  have hnil := pendingReplays_eq_nil.mpr hnone
  rw [pendingReplays, recover_eq] at hnil
  rw [List.countP_eq_length_filter]
  exact List.length_eq_zero_iff.mpr hnil

/-- A start: one attempt more is pending, and nothing else changes. -/
theorem Started.sound {row : ReplayRow} {now : Time} {rows : List ReplayRow}
    (h : Started d row now rows) (hrow : row.result = .pending) (hs : d.letters.Sound) :
    Letters.Sound { d.letters with
      attempts := (AttemptTable.recover d.deadLetterReplayAttempts row.deadLetterID now
        rows).insert row } := by
  have hpend : ∀ r ∈ rows, ∀ row', d.deadLetterReplayAttempts.find? r.id = some row' →
      row'.result = .pending := by
    intro r hr row' hrow'
    obtain ⟨hfound, hp⟩ := Option.filter_eq_some_iff.mp (h.recovered r hr).1
    rw [hrow'] at hfound
    cases hfound
    simp only [Bool.and_eq_true, beq_iff_eq] at hp
    exact hp.2
  have hfresh : (AttemptTable.recover d.deadLetterReplayAttempts row.deadLetterID now rows).find?
      row.id = none := by
    rw [← recover_eq]
    exact (find?_recovered _ _ _ _ _).mpr h.fresh
  have hcount : ∀ id result, (Letters.mk d.deadLetterMessages
      ((AttemptTable.recover d.deadLetterReplayAttempts row.deadLetterID now rows).insert row)
        d.letters.replays).attemptCount id result =
      (AttemptTable.recover d.deadLetterReplayAttempts row.deadLetterID now rows).rows.countP
        (ReplayRow.of id result) + if row.of id result then 1 else 0 :=
    fun id result => Table.countP_insert hfresh _
  refine ⟨fun id => ?_, hs.actions, hs.state, fun id => ?_⟩
  · have hof : row.of id .published = false := by simp [ReplayRow.of, hrow]
    have hsame : (AttemptTable.recover d.deadLetterReplayAttempts row.deadLetterID now
        rows).rows.countP (ReplayRow.of id .published) = d.letters.attemptCount id .published := by
      refine AttemptTable.countP_recover (Or.inr ⟨nofun, fun r hr row' hrow' => ?_⟩)
      rw [hpend r hr row' hrow']
      nofun
    refine (hcount id .published).trans ?_
    rw [hof, hsame]
    exact hs.published id
  · refine (hcount id .pending).trans_le ?_
    by_cases hid : row.deadLetterID = id
    · subst hid
      rw [h.pending_recover]
      split <;> omega
    · have hof : row.of id .pending = false := by simp [ReplayRow.of, hid]
      rw [hof, AttemptTable.countP_recover (Or.inl hid)]
      exact hs.pending id

/-- An update of a dead letter that is no replay. -/
theorem Letters.Sound.update {id : String} {u : DeadLetterUpdate} (hs : d.letters.Sound)
    (hstate : ∀ r, (u.apply r).state = r.state) (hcount : ∀ r, (u.apply r).replayCount = r.replayCount) :
    Letters.Sound { d.letters with messages := LetterTable.update d.deadLetterMessages id u } := by
  have hreplay : ∀ id', (Letters.mk (LetterTable.update d.deadLetterMessages id u)
      d.deadLetterReplayAttempts d.letters.replays).replayCount id' = d.letters.replayCount id' := by
    intro id'
    simp only [Letters.replayCount, LetterTable.find?_update]
    split
    · rw [Option.map_map]
      exact congrArg (Option.getD · 0) (congrArg (Option.map · _) (funext hcount))
    · rfl
  refine ⟨fun id' => (hs.published id').trans (hreplay id').symm,
    fun id' => (hs.actions id').trans (hreplay id').symm, fun id' row hrow => ?_, hs.pending⟩
  change (LetterTable.update d.deadLetterMessages id u).find? id' = some row at hrow
  rw [LetterTable.find?_update] at hrow
  split at hrow
  · obtain ⟨row', hrow', rfl⟩ := Option.map_eq_some_iff.mp hrow
    rw [hstate, hcount]
    exact hs.state id' row' hrow'
  · exact hs.state id' row hrow

/-- A new dead letter. -/
theorem Letters.Sound.insert {row : DeadLetterRow} (hs : d.letters.Sound)
    (hfresh : d.deadLetterMessages.find? row.id = none) (hstate : row.state = .opened)
    (hcount : row.replayCount = 0) :
    Letters.Sound { d.letters with messages := d.deadLetterMessages.insert row } := by
  have hreplay : ∀ id, (Letters.mk (d.deadLetterMessages.insert row) d.deadLetterReplayAttempts
      d.letters.replays).replayCount id = d.letters.replayCount id := by
    intro id
    simp only [Letters.replayCount, Table.find?_insert]
    split
    · next hid =>
        subst hid
        rw [show d.letters.messages.find? row.id = none from hfresh, hfresh]
        exact hcount
    · rfl
  refine ⟨fun id => (hs.published id).trans (hreplay id).symm,
    fun id => (hs.actions id).trans (hreplay id).symm, fun id row' hrow' => ?_, hs.pending⟩
  change (d.deadLetterMessages.insert row).find? id = some row' at hrow'
  rw [Table.find?_insert] at hrow'
  split at hrow'
  · next hid =>
      subst hid
      rw [hfresh] at hrow'
      cases hrow'
      exact Or.inl ⟨hstate, hcount⟩
  · exact hs.state id row' hrow'

variable {attemptID : String} {attempt : ReplayRow} {u : ReplayUpdate}

/-- An attempt that ends is not pending any more. -/
theorem pending_update (hfound : d.deadLetterReplayAttempts.find? attemptID = some attempt)
    (hu : u.deadLetterID = attempt.deadLetterID) (hne : u.result ≠ .pending) (id : String) :
    (AttemptTable.update d.deadLetterReplayAttempts attemptID u).rows.countP
      (ReplayRow.of id .pending) ≤ d.letters.attemptCount id .pending := by
  have hcount := Table.countP_modify hfound u.apply u.id_apply (ReplayRow.of id .pending)
  have hof : (u.apply attempt).of id .pending = false := by
    simp [ReplayUpdate.apply, hu, ReplayRow.of, hne]
  rw [hof, if_neg Bool.false_ne_true, Nat.add_zero] at hcount
  exact (Nat.le_add_right _ _).trans hcount.le

/-- An attempt is given up by the call that made it. -/
theorem Letters.Sound.failed (hs : d.letters.Sound)
    (hfound : d.deadLetterReplayAttempts.find? attemptID = some attempt)
    (hpend : attempt.result = .pending) (hu : u.deadLetterID = attempt.deadLetterID)
    (hfailed : u.result = .failed) :
    Letters.Sound { d.letters with
      attempts := AttemptTable.update d.deadLetterReplayAttempts attemptID u } := by
  refine ⟨fun id => ?_, hs.actions, hs.state, fun id => ?_⟩
  · refine Eq.trans ?_ (hs.published id)
    refine Table.countP_modify_eq _ _ _ u.id_apply fun r hr =>
      ReplayUpdate.of_apply (Or.inr ⟨?_, ?_⟩)
    · rw [hfailed]
      nofun
    · have hr : d.deadLetterReplayAttempts.find? attemptID = some r := hr
      rw [hfound] at hr
      cases hr
      rw [hpend]
      nofun
  · exact (pending_update hfound hu (by rw [hfailed]; nofun) id).trans (hs.pending id)

/-- The message has been published: all counts go up by one. -/
theorem Letters.Sound.republished {row : DeadLetterRow} {action : ActionRow}
    (hs : d.letters.Sound) (hfound : d.deadLetterReplayAttempts.find? attemptID = some attempt)
    (hpend : attempt.result = .pending) (hu : u.deadLetterID = attempt.deadLetterID)
    (hpub : u.result = .published) (haction : action.targetID = attempt.deadLetterID)
    (hrow : d.deadLetterMessages.find? attempt.deadLetterID = some row)
    (hopen : row.state = .opened) :
    Letters.Sound
      { messages := LetterTable.update d.deadLetterMessages attempt.deadLetterID .republished
        attempts := AttemptTable.update d.deadLetterReplayAttempts attemptID u
        replays := d.letters.replays ++ [action] } := by
  have hzero : row.replayCount = 0 := by
    rcases hs.state _ row hrow with h | h
    · exact h.2
    · rw [hopen] at h
      cases h.1
  have hreplay : ∀ id, (Letters.mk
      (LetterTable.update d.deadLetterMessages attempt.deadLetterID .republished)
      (AttemptTable.update d.deadLetterReplayAttempts attemptID u)
      (d.letters.replays ++ [action])).replayCount id =
      d.letters.replayCount id + if attempt.deadLetterID = id then 1 else 0 := by
    intro id
    simp only [Letters.replayCount, LetterTable.find?_update]
    by_cases hid : id = attempt.deadLetterID
    · subst hid
      rw [if_pos rfl, if_pos rfl, show d.letters.messages.find? attempt.deadLetterID = some row
        from hrow, hrow]
      rfl
    · rw [if_neg hid, if_neg (Ne.symm hid)]
      rfl
  refine ⟨fun id => ?_, fun id => ?_, fun id row' hrow' => ?_, fun id => ?_⟩
  · have hcount := Table.countP_modify hfound u.apply u.id_apply (ReplayRow.of id .published)
    have hbefore : attempt.of id .published = false := by simp [ReplayRow.of, hpend]
    have hafter : (u.apply attempt).of id .published = decide (attempt.deadLetterID = id) := by
      simp [ReplayUpdate.apply, hu, ReplayRow.of, hpub]
      rfl
    rw [hbefore, hafter, if_neg Bool.false_ne_true, Nat.add_zero] at hcount
    rw [hreplay, ← hs.published id]
    refine hcount.trans ?_
    simp only [decide_eq_true_eq]
    rfl
  · rw [hreplay, ← hs.actions id]
    simp [Letters.actionCount, List.countP_append, List.countP_singleton, haction]
  · change (LetterTable.update d.deadLetterMessages attempt.deadLetterID .republished).find? id =
      some row' at hrow'
    rw [LetterTable.find?_update] at hrow'
    split at hrow'
    · next hid =>
        subst hid
        rw [hrow] at hrow'
        cases hrow'
        exact Or.inr ⟨rfl, congrArg (· + 1) hzero⟩
    · exact hs.state id row' hrow'
  · exact (pending_update hfound hu (by rw [hpub]; decide) id).trans (hs.pending id)

/-- What replays do keeps the counts in step, if an attempt ends for the dead letter it was
made for. -/
theorem LetterStep.sound (h : LetterStep d c l) (hs : d.letters.Sound)
    (hopened : ∀ record, c = .upsertDeadLetter record → record.state = .opened)
    (hown : ∀ attemptID id result message action now attempt,
      c = .finishDeadLetterReplay attemptID id result message action now →
      d.deadLetterReplayAttempts.find? attemptID = some attempt → attempt.deadLetterID = id) :
    l.Sound := by
  cases h with
  | idle => exact hs
  | recorded _ _ hf => exact hs.insert hf (hopened _ rfl) rfl
  | failedAgain _ _ => exact hs.update (fun _ => rfl) fun _ => rfl
  | sent _ => exact hs.update (fun _ => rfl) fun _ => rfl
  | started hstart => exact hstart.sound rfl hs
  | failed hfound hpend => exact hs.failed hfound hpend rfl rfl
  | republished hfound hpend hrow hopen =>
      obtain rfl := hown _ _ _ _ _ _ _ rfl hfound
      exact hs.republished hfound hpend rfl rfl rfl hrow hopen

end

/-! ## Whole runs -/

section

variable {P : Platform}

/-- An attempt that has begun is on record. -/
theorem Started.found {d : Db} {row : ReplayRow} {now : Time} {rows : List ReplayRow}
    (h : Started d row now rows) :
    (view d (startWrites row now rows)).deadLetterReplayAttempts.find? row.id = some row := by
  have hattempts := congrArg Letters.attempts (view_startWrites d row now rows)
  have hattempts : (view d (startWrites row now rows)).deadLetterReplayAttempts =
    (AttemptTable.recover d.deadLetterReplayAttempts row.deadLetterID now rows).insert row :=
    hattempts
  rw [hattempts, Table.find?_insert, if_pos rfl, ← recover_eq, (find?_recovered _ _ _ _ _).mpr h.fresh]
  rfl

/-- What the beginning of an attempt found, and wrote. -/
theorem started_of_beginning {e : LogEntry P} (ho : (contract P.hashtext).Allows e.call e.op)
    {id attemptID : String} {now : Time}
    (hbegun : beginning e.call e.op.answer = some (id, attemptID, now)) :
    ∃ row rows, row.deadLetterID = id ∧ row.id = attemptID ∧ row.createdAt = now ∧
      row.result = .pending ∧ Started e.op.before row now rows ∧
      e.op.writes = startWrites row now rows := by
  obtain ⟨i, c, o⟩ := e
  cases c with
  | startDeadLetterReplay id' reason attempt now' =>
      cases hans : o.answer with
      | error e =>
          rw [hans] at hbegun
          cases hbegun
      | ok attemptID' =>
          rw [beginning_of_answer hans] at hbegun
          cases hbegun
          rcases ho.spec (ho.told hans) with ⟨_, he, _⟩ | ⟨hok, rows, hstart, hw⟩
          · cases he
          · cases hok
            exact ⟨attemptRow id reason attempt now, rows, rfl, rfl, rfl, rfl, hstart, hw⟩
  | _ => cases hbegun

/-- The attempt is there from then on. -/
theorem attempt_of_beginning {policy : Policy} {d : Db} {w : policy.World}
    {s : AState (system P policy)} (h : AReach (contract P.hashtext) ⟨d, w, [], []⟩ s)
    {e : LogEntry P} (he : e ∈ s.log) {id attemptID : String} {now : Time}
    (hbegun : beginning e.call e.op.answer = some (id, attemptID, now)) :
    ∃ row, s.db.deadLetterReplayAttempts.find? attemptID = some row ∧ row.deadLetterID = id := by
  obtain ⟨row, rows, rfl, rfl, _, _, hstart, hw⟩ :=
    started_of_beginning ((traced_reach h).allowed e he) hbegun
  have hfound := hstart.found
  rw [← hw] at hfound
  refine since_reach (Q := fun d : Db => ∃ row', d.deadLetterReplayAttempts.find? row.id =
    some row' ∧ row'.deadLetterID = row.deadLetterID) ?_ h he ⟨row, hfound, rfl⟩
  intro c o hrow ho
  refine (allows_letters ho).attempt_stays (fun u r hr => ?_) hrow
  rw [u.deadLetterID_apply]
  exact hr

/-- Only replays begin or end attempts. -/
theorem replay_of_tab {c : Call} {r : Request} (h : (r.program P).Calls c)
    (hc : .deadLetterReplayAttempts ∈ c.tabs) (hr : replaying r = true) :
    ∃ window id reason draws, r = .replayDeadLetter window id reason draws := by
  rcases replay_of_calls h hc with h | rfl
  · exact h
  · cases c with
    | startDeadLetterReplay | finishDeadLetterReplay => cases hr
    | _ => simp [Call.tabs] at hc

/-- Every call is one of those that `replaying` admits. -/
def Replaying {policy : Policy} (s : AState (system P policy)) : Prop :=
  ∀ t ∈ s.tasks, replaying t.request = true

theorem Replaying.of_entry {policy : Policy} {s : AState (system P policy)}
    (h : Replaying s) {i : Nat} {r : Request} (hr : s.tasks[i]?.map ATask.request = some r) :
    replaying r = true := by
  obtain ⟨t, ht, rfl⟩ := Option.map_eq_some_iff.mp hr
  exact h t (List.mem_of_getElem? ht)

/-- The call behind an operation on attempts is a replay. -/
theorem replay_entry {policy : Policy} {s : AState (system P policy)}
    (h : Traced (contract P.hashtext) s)
    (hreq : Replaying s) {e : LogEntry P} (he : e ∈ s.log)
    (hc : .deadLetterReplayAttempts ∈ e.call.tabs) :
    ∃ window id reason draws q,
      s.tasks[e.task]?.map ATask.request = some (.replayDeadLetter window id reason draws) ∧
      (replayDeadLetter P window id reason draws).Made e.task (own e.task s.log) q := by
  obtain ⟨r, q, hr, hown, hmade⟩ := entry_made h he
  obtain ⟨window, id, reason, draws, rfl⟩ :=
    replay_of_tab (hmade.calls hown) hc (hreq.of_entry hr)
  exact ⟨window, id, reason, draws, q, hr, hmade⟩

/-- An attempt that ends is about the dead letter it was made for. -/
theorem finish_attempt {policy : Policy} {d : Db} {w : policy.World} {s : AState (system P policy)}
    (h : AReach (contract P.hashtext) ⟨d, w, [], []⟩ s)
    (hreq : Replaying s) {j : Nat} {attemptID id : String}
    {result : ReplayResult} {message : String} {action : Random} {now : Time}
    {finish : Op (dialect P.hashtext).engine Error Unit}
    (he : ⟨j, .finishDeadLetterReplay attemptID id result message action now, finish⟩ ∈ s.log) :
    ∃ row, s.db.deadLetterReplayAttempts.find? attemptID = some row ∧ row.deadLetterID = id := by
  have htrace := traced_reach h
  obtain ⟨window, _, reason, draws, q, _, hmade⟩ := replay_entry htrace hreq he (.head _)
  have hown : ⟨j, .finishDeadLetterReplay attemptID id result message action now, finish⟩ ∈
      own j s.log := List.mem_filter.mpr ⟨he, by simp⟩
  rcases begun_of_made hmade with ⟨record, begun, hbegun⟩ | hnot
  swap
  · cases (hnot _ hown).2
  obtain ⟨_, _, hcall, _⟩ := hbegun.ended _ hown rfl
  cases hcall
  obtain ⟨start, hstart, hans⟩ := hbegun.started
  exact attempt_of_beginning h (mem_of_own hstart) (beginning_of_answer hans)

theorem opened_of_calls {record : DeadLetter} {r : Request}
    (h : (r.program P).Calls (.upsertDeadLetter record)) (hr : replaying r = true) :
    record.state = .opened := by
  cases Request.makes h with
  | minor h => cases h
  | record => rfl
  | store => exact of_decide_eq_true hr

theorem replaying_reach {s : AState (system P (.only replaying))} {d : Db}
    (h : AReach (contract P.hashtext) ⟨d, (), [], []⟩ s) : Replaying s := by
  have hreq := requests_reach (p := fun r : Request => replaying r = true)
    (fun hw => Policy.accept_only (w := ()) hw) h
  exact hreq

/-- The counts are in step in every state that is reached. -/
theorem sound_reach {s : AState (system P (.only replaying))}
    (h : AReach (contract P.hashtext) ⟨Db.empty, (), [], []⟩ s) : (Db.letters s.db).Sound := by
  refine h.induct (P := fun s => (Db.letters s.db).Sound) Letters.Sound.empty
    fun s s' hr hs hstep => ?_
  have hr' := hr.step hstep
  have hreq' := replaying_reach hr'
  have htrace := traced_reach hr'
  cases hstep with
  | arrive _ => exact hs
  | env _ => exact hs
  | crash _ => exact hs
  | @op i t c k o ht hp ho hb =>
      have hmem : (⟨i, c, o⟩ : LogEntry P) ∈ s.log ++ [⟨i, c, o⟩] :=
        List.mem_append_right _ (List.mem_singleton_self _)
      have hstep := allows_letters ho
      rw [hb] at hstep
      refine hstep.sound hs ?_ ?_
      · rintro record rfl
        obtain ⟨r, q, hr, hown, hmade⟩ := entry_made htrace hmem
        have hcalls := hmade.calls hown
        exact opened_of_calls hcalls (hreq'.of_entry hr)
      · rintro attemptID id result message action now attempt rfl hfound
        obtain ⟨row, hrow, hid⟩ := finish_attempt hr' hreq' hmem
        obtain ⟨row', hrow', hid'⟩ := hstep.attempt_stays
          (p := fun r => r.deadLetterID = attempt.deadLetterID)
          (fun u r hr => (u.deadLetterID_apply r).trans hr) ⟨attempt, hfound, rfl⟩
        have hfound' : (some row : Option ReplayRow) = some row' := hrow.symm.trans hrow'
        rw [← hid', ← Option.some.inj hfound', hid]

end

/-- Replays in any interleaving, with dead letters recorded and published meanwhile: what is
on record of them agrees, a dead letter is replayed once at most, and attempts that have come
to an end stay as they are. -/
theorem replay_bookkeeping (P : Platform) (es es' : List (Transact.Event (system P (.only replaying))))
    (s s' : SystemState P (.only replaying))
    (h : (State.init Db.empty () : SystemState P (.only replaying)).steps es = some s)
    (h' : s.steps es' = some s') :
    (∀ row ∈ s.db.deadLetterMessages.rows,
      s.db.letters.attemptCount row.id .published = row.replayCount ∧
      s.db.letters.actionCount row.id = row.replayCount ∧
      (row.replayCount = 0 ∨ row.replayCount = 1) ∧
      (row.replayCount = 1 ↔ row.state = .republished) ∧
      s.db.letters.attemptCount row.id .pending ≤ 1) ∧
    ∀ attempt ∈ s.db.deadLetterReplayAttempts.rows, attempt.result ≠ .pending →
      s'.db.deadLetterReplayAttempts.find? attempt.id = some attempt := by
  obtain ⟨hiso, hreach⟩ := State.steps_refine (store_sound P.hashtext)
    (Isolated.init (A := system P (.only replaying)) Db.empty ()) h
  have hsound : s.db.letters.Sound := sound_reach hreach
  refine ⟨fun row hrow => ?_, fun attempt hattempt hended => ?_⟩
  · have hfind : s.db.letters.messages.find? row.id = some row :=
      Table.find?_of_mem s.db.deadLetterMessages hrow
    have hcount : s.db.letters.replayCount row.id = row.replayCount := by
      rw [Letters.replayCount, hfind]
      rfl
    refine ⟨(hsound.published _).trans hcount, (hsound.actions _).trans hcount, ?_, ?_,
      hsound.pending _⟩ <;> rcases hsound.state _ _ hfind with ⟨hs, hn⟩ | ⟨hs, hn⟩ <;> simp [hs, hn]
  · refine later_reach (R := fun d d' : Db =>
      d.deadLetterReplayAttempts.find? attempt.id = some attempt →
        d'.deadLetterReplayAttempts.find? attempt.id = some attempt) (fun _ => id) ?_
      (State.steps_refine (store_sound P.hashtext) hiso h').2
      (Table.find?_of_mem s.db.deadLetterReplayAttempts hattempt)
    exact fun hR ho hd => (allows_letters ho).finished_stays (hR hd) hended

/-- A message is recorded, and cannot be replayed. -/
def failedReplayRun : List (Transact.Event (system .plain (.only replaying))) :=
  [.arrive (.moveDeadLetter "risk-service" keyed (some (.text "decode failed"))
    ⟨0, fun _ => none, 1⟩), .run 0, .run 0,
   .arrive (.replayDeadLetter day (DeadLetterRecorder.deterministicID .plain "risk-service" keyed)
    "fixed" ⟨2, .fill 32 0, 3, fun _ => some (.text "no broker"), .fill 32 0, 4⟩),
   .run 1, .run 1, .run 1, .run 1, .run 1, .run 1, .run 1, .run 1, .run 1, .run 1]

/-- It is replayed after all. -/
def secondReplayRun : List (Transact.Event (system .plain (.only replaying))) :=
  [.arrive (.replayDeadLetter day (DeadLetterRecorder.deterministicID .plain "risk-service" keyed)
    "fixed" ⟨5, .fill 32 1, 6, fun _ => none, .fill 32 1, 7⟩),
   .run 2, .run 2, .run 2, .run 2, .run 2, .run 2, .run 2, .run 2, .run 2, .run 2, .run 2, .run 2]

theorem replay_bookkeeping_secondReplay : ∃ s s' : SystemState .plain (.only replaying),
    (State.init Db.empty ()).steps failedReplayRun = some s ∧ s.steps secondReplayRun = some s' ∧
      s.db.deadLetterReplayAttempts.rows.map ReplayRow.result = [.failed] ∧
      s'.db.deadLetterReplayAttempts.rows.map ReplayRow.result = [.failed, .published] ∧
      s'.db.deadLetterMessages.rows.map DeadLetterRow.state = [.republished] ∧
      ∀ attempt ∈ s.db.deadLetterReplayAttempts.rows, attempt.result ≠ .pending →
        s'.db.deadLetterReplayAttempts.find? attempt.id = some attempt := by
  have h : (((State.init Db.empty () : SystemState .plain (.only replaying)).steps
      failedReplayRun).bind fun s => (s.steps secondReplayRun).map fun s' =>
        (s.db.deadLetterReplayAttempts.rows.map ReplayRow.result,
          s'.db.deadLetterReplayAttempts.rows.map ReplayRow.result,
          s'.db.deadLetterMessages.rows.map DeadLetterRow.state)) =
      some ([.failed], [.failed, .published], [.republished]) := by
    decide +kernel
  obtain ⟨s, hs, h⟩ := Option.bind_eq_some_iff.mp h
  obtain ⟨s', hs', h⟩ := Option.map_eq_some_iff.mp h
  simp only [Prod.mk.injEq] at h
  obtain ⟨hfailed, hboth, hstate⟩ := h
  exact ⟨s, s', hs, hs', hfailed, hboth, hstate,
    (replay_bookkeeping .plain failedReplayRun secondReplayRun s s' hs hs').2⟩

end Clearance
