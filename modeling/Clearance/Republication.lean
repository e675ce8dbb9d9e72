/-
# `Clearance.Republication` — what replays publish

A replay publishes the message of its dead letter to the topic it came from.  What it
publishes is what was recorded, byte for byte: nothing that happens to a dead letter
touches its content (`replay_round_trip`).

How often it is published is another matter.  `StartDeadLetterReplay` finds the dead
letter open and inserts an attempt; the attempt waits for another one to end, and it is
recorded even if that one has republished the message meanwhile.  `republished_once` is
what holds when this does not happen.
-/
import Clearance.Replays

namespace Clearance

open Transact OperationsService

section

variable {P : Platform} {policy : Policy}

/-- What call `i` publishes once its attempt has begun: for which dead letter, and what the
broker answers.  A call that crashed in between may not have come so far. -/
def republication (s : SystemState P policy) (i : Nat) :
    Option (String × Replayed × Option Error) :=
  match s.tasks[i]? with
  | some ⟨.replayDeadLetter _ id _ draws, _, _⟩ =>
      ((own i s.log).findSome? fun e => beginning e.call e.op.answer).bind fun _ =>
        ((own i s.log).findSome? fun e => lookedUp e.call e.op.answer).map fun record =>
          (id, replayed record, draws.publish (replayed record))
  | _ => none

/-- The replay behind a publication. -/
theorem begun_of_republication {s : SystemState P policy}
    (h : Traced (contract P.hashtext) s.abs) {i : Nat} {id : String} {msg : Replayed}
    {answer : Option Error} (hpub : republication s i = some (id, msg, answer)) :
    ∃ reason draws record attemptID, Begun i id reason draws (own i s.log) record attemptID ∧
      msg = replayed record ∧ answer = draws.publish (replayed record) := by
  unfold republication at hpub
  split at hpub
  · next window id' reason draws start proc ht =>
      obtain ⟨attemptID, hattempt, hpub⟩ := Option.bind_eq_some_iff.mp hpub
      obtain ⟨record, hlooked, hpub⟩ := Option.map_eq_some_iff.mp hpub
      cases hpub
      obtain ⟨q, hmade⟩ := task_made h ht
      rcases begun_of_made hmade with ⟨record', attemptID', hbegun⟩ | hnot
      · rw [hbegun.looked] at hlooked
        cases hlooked
        exact ⟨reason, draws, record, attemptID', hbegun, rfl, rfl⟩
      · obtain ⟨e, he, hsome⟩ := List.exists_of_findSome?_eq_some hattempt
        rw [(hnot e he).1] at hsome
        cases hsome
  · cases hpub

end

/-! ## The content of a dead letter -/

/-- A dead letter with the content of a message. -/
structure DeadLetterRow.Holds (m : Message) (r : DeadLetterRow) : Prop where
  topic : r.sourceTopic = m.topic
  key : r.messageKey = nullIfNil m.key
  headers : r.headers = encodeHeaders m.headers
  payload : r.payload = nullIfNil m.value

theorem DeadLetterRow.Holds.apply {m : Message} {r : DeadLetterRow} (h : r.Holds m)
    (u : DeadLetterUpdate) : (u.apply r).Holds m := by
  cases u with
  | failedAgain _ _ _ => exact ⟨h.topic, h.key, h.headers, h.payload⟩
  | published _ => exact ⟨h.topic, h.key, h.headers, h.payload⟩
  | republished => exact ⟨h.topic, h.key, h.headers, h.payload⟩

theorem getD_nullIfNil (b : Bytes) : (nullIfNil b).getD [] = b := by
  cases b with
  | nil => rfl
  | cons _ _ => rfl

/-- What is read back of it. -/
theorem DeadLetterRow.Holds.replayed_eq {m : Message} {r : DeadLetterRow} (h : r.Holds m)
    {record : DeadLetter} (hscan : scanDeadLetter r = .ok record) :
    replayed record = ⟨m.topic, m.key, m.value, m.headers⟩ := by
  rw [scanDeadLetter, h.headers, decodeHeaders_encodeHeaders] at hscan
  cases hscan
  rw [replayed, DeadLetterRow.record, h.topic, h.key, h.payload, getD_nullIfNil, getD_nullIfNil]

section

variable {hashtext : String → Int}

/-- A dead letter stays, with what updates keep of it. -/
theorem letter_stays {p : DeadLetterRow → Prop}
    (hp : ∀ u r, p r → p (DeadLetterUpdate.apply u r)) {id : String} {c : Call}
    {o : Op (dialect hashtext).engine Error c.Reply}
    (hrow : ∃ row, (Db.deadLetterMessages o.before).find? id = some row ∧ p row)
    (ho : (contract hashtext).Allows c o) :
    ∃ row, (Db.deadLetterMessages (view o.before o.writes)).find? id = some row ∧ p row :=
  (allows_letters ho).stays hp hrow

/-- What `GetDeadLetter` reads. -/
theorem found_of_answer {id : String} {o : Op (dialect hashtext).engine Error (Option DeadLetter)}
    {record : DeadLetter} (ho : (contract hashtext).Allows (.getDeadLetter id) o)
    (hans : o.answer = .ok (some record)) :
    ∃ row, (Db.deadLetterMessages o.before).find? id = some row ∧
      scanDeadLetter row = .ok record := by
  have h := ho.spec (ho.told hans)
  rcases single_runs (m := methodOf (.getDeadLetter id)) rfl h with
    ⟨_, _, _, he, _⟩ | ⟨_, r, hr, hk, _⟩
  · cases he
  obtain ⟨v, hv, rfl⟩ := Plan.read_ok.mp hr
  cases hv
  cases hfind : (Db.deadLetterMessages o.before).find? id with
  | none =>
      rw [hfind] at hk
      cases hk
  | some row =>
      rw [hfind] at hk
      change .ok (some record) = wrapError "get dead letter" ((scanDeadLetter row).map some) at hk
      cases hscan : scanDeadLetter row with
      | error e =>
          rw [hscan] at hk
          cases hk
      | ok record' =>
          rw [hscan] at hk
          cases hk
          exact ⟨row, rfl, hscan⟩

/-- A dead letter that has just been recorded. -/
theorem recorded_of_writes {record : DeadLetter}
    {o : Op (dialect hashtext).engine Error DeadLetter}
    (ho : (contract hashtext).Allows (.upsertDeadLetter record) o)
    (hw : o.writes = [.insert .deadLetterMessages record.row]) :
    (Db.deadLetterMessages o.before).find? record.id = none ∧
      (Db.deadLetterMessages (view o.before o.writes)).find? record.id = some record.row := by
  have hfresh : (Db.deadLetterMessages o.before).find? record.id = none := by
    rcases ho.did with h | ⟨_, hnil, _⟩
    swap
    · rw [hw] at hnil
      cases hnil
    rcases single_runs (m := methodOf (.upsertDeadLetter record)) rfl h with
      ⟨_, _, _, _, hnil⟩ | ⟨f, r, hr, _, hwrites⟩
    · rw [hw] at hnil
      cases hnil
    · rw [hw] at hwrites
      rcases planUpsertDeadLetter_ok hr with h | ⟨old, h⟩
      · exact h.freshID
      · rw [h.writes] at hwrites
        cases hwrites
  refine ⟨hfresh, ?_⟩
  rw [hw]
  change ((Db.deadLetterMessages o.before).insert record.row).find? record.row.id = _
  rw [Table.find?_insert, if_pos rfl, show record.row.id = record.id from rfl, hfresh]
  rfl

end

/-- Whatever is done to a dead letter once it is recorded, a replay publishes the message it
was recorded from, to the topic that message came from. -/
theorem replay_round_trip (P : Platform) (policy : Policy) (d : Db) (w : policy.World)
    (es : List (Transact.Event (system P policy))) (s : SystemState P policy)
    (h : (State.init d w : SystemState P policy).steps es = some s)
    (consumerName : String) (m : Message) (cause : Option Error) (now : Time) (i : Nat)
    (up : Op (dialect P.hashtext).engine Error DeadLetter)
    (hmoved : ⟨i, .upsertDeadLetter (DeadLetterRecorder.recordFromMessage P consumerName m cause
      now), up⟩ ∈ s.log)
    (hpersisted : up.writes = [.insert .deadLetterMessages
      (DeadLetterRecorder.recordFromMessage P consumerName m cause now).row]) :
    (∀ j msg answer, republication s j =
      some (DeadLetterRecorder.deterministicID P consumerName m, msg, answer) →
        msg = ⟨m.topic, m.key, m.value, m.headers⟩) ∧
    decodeHeaders (encodeHeaders m.headers) = .ok m.headers := by
  refine ⟨fun j msg answer hpub => ?_, decodeHeaders_encodeHeaders m.headers⟩
  have hreach := State.reach_abs (store_sound P.hashtext) h
  have htrace := traced_reach hreach
  obtain ⟨reason, draws, record, attemptID, hbegun, rfl, _⟩ := begun_of_republication htrace hpub
  obtain ⟨get, hget, hans⟩ := hbegun.found
  have hget := mem_of_own hget
  have hallowed := htrace.allowed _ hget
  obtain ⟨row, hrow, hscan⟩ := found_of_answer hallowed hans
  obtain ⟨hfresh, hrecorded⟩ := recorded_of_writes (htrace.allowed _ hmoved) hpersisted
  obtain ⟨g, g', hlog⟩ := List.append_of_mem hmoved
  rw [hlog] at hget
  rcases List.mem_append.mp hget with hbefore | hafter
  · -- what is found before it is recorded would still be there
    obtain ⟨s₁, h₁, hg, hdb, _⟩ := hreach.before rfl hlog
    rw [← hg] at hbefore
    obtain ⟨row', hrow', _⟩ := since_reach (Q := fun d : Db => ∃ row,
      d.deadLetterMessages.find? (DeadLetterRecorder.deterministicID P consumerName m) = some row ∧
        True) (letter_stays fun _ _ _ => trivial) h₁ hbefore
      (letter_stays (fun _ _ _ => trivial) ⟨row, hrow, trivial⟩ hallowed)
    rw [hdb] at hrow'
    exact absurd (hfresh.symm.trans hrow') nofun
  rcases List.mem_cons.mp hafter with heq | hafter
  · cases heq
  · obtain ⟨row', hrow', hholds⟩ := between_reach (Q := fun d : Db => ∃ row,
      d.deadLetterMessages.find? (DeadLetterRecorder.deterministicID P consumerName m) = some row ∧
        row.Holds m)
      (letter_stays fun u r hr => hr.apply u) hreach hlog hafter
      ⟨_, hrecorded, rfl, rfl, rfl, rfl⟩
    rw [hrow] at hrow'
    cases hrow'
    exact hholds.replayed_eq hscan

/-- The operation that recorded a message, if it is this one. -/
def recording {P : Platform} (record : DeadLetter) :
    LogEntry P → Option (Nat × Op (dialect P.hashtext).engine Error DeadLetter)
  | ⟨i, .upsertDeadLetter record', o⟩ =>
      match o.writes with
      | [.insert .deadLetterMessages row] =>
          if record' = record ∧ row = record.row then some (i, o) else none
      | _ => none
  | _ => none

theorem of_recording {P : Platform} {record : DeadLetter} {e : LogEntry P} {i : Nat}
    {o : Op (dialect P.hashtext).engine Error DeadLetter} (h : recording record e = some (i, o)) :
    e = ⟨i, .upsertDeadLetter record, o⟩ ∧ o.writes = [.insert .deadLetterMessages record.row] := by
  unfold recording at h
  split at h
  · split at h
    · next hw =>
        split at h
        · next heq =>
            obtain ⟨rfl, rfl⟩ := heq
            cases h
            exact ⟨rfl, hw⟩
        · cases h
    · cases h
  · cases h

/-- A message is delivered twice, fails each time, and is replayed. -/
def redeliveredRun : List (Transact.Event (system .plain (.only replaying))) :=
  [.arrive (.moveDeadLetter "risk-service" keyed (some (.text "decode failed"))
    ⟨0, fun _ => some (.text "no broker"), 1⟩), .run 0,
   .arrive (.moveDeadLetter "risk-service" keyed (some (.text "amount must be positive"))
    ⟨2, fun _ => none, 3⟩), .run 1, .run 1,
   .arrive (.replayDeadLetter day (DeadLetterRecorder.deterministicID .plain "risk-service" keyed)
    "fixed" ⟨4, .fill 32 0, 5, fun _ => none, .fill 32 0, 6⟩),
   .run 2, .run 2, .run 2, .run 2, .run 2, .run 2, .run 2, .run 2, .run 2, .run 2, .run 2, .run 2]

theorem replay_round_trip_redelivered : ∃ s : SystemState .plain (.only replaying),
    (State.init Db.empty ()).steps redeliveredRun = some s ∧
      ∃ msg answer, republication s 2 =
        some (DeadLetterRecorder.deterministicID .plain "risk-service" keyed, msg, answer) ∧
        msg = ⟨"transactions.created", utf8 "alice", utf8 "x", [("event_id", utf8 "evt_1")]⟩ := by
  have h : ((State.init Db.empty () : SystemState .plain (.only replaying)).steps
      redeliveredRun).map (fun s => ((republication s 2).map Prod.fst,
        (s.log.findSome? (recording (DeadLetterRecorder.recordFromMessage .plain "risk-service" keyed
          (some (.text "decode failed")) 0))).isSome)) =
      some (some (DeadLetterRecorder.deterministicID .plain "risk-service" keyed), true) := by
    decide +kernel
  obtain ⟨s, hs, h⟩ := Option.map_eq_some_iff.mp h
  simp only [Prod.mk.injEq] at h
  obtain ⟨hpub, hrecording⟩ := h
  obtain ⟨⟨id, msg, answer⟩, hpub, rfl⟩ := Option.map_eq_some_iff.mp hpub
  obtain ⟨⟨i, o⟩, hrecording⟩ := Option.isSome_iff_exists.mp hrecording
  obtain ⟨e, he, hrecording⟩ := List.exists_of_findSome?_eq_some hrecording
  obtain ⟨rfl, hw⟩ := of_recording hrecording
  exact ⟨s, hs, msg, answer, hpub, (replay_round_trip .plain _ Db.empty () redeliveredRun s hs
    "risk-service" keyed _ 0 i o he hw).1 2 msg answer hpub⟩

/-! ## How often a dead letter is published -/

/-- When an attempt is asked for, and for which dead letter. -/
def Call.starts : Call → Option (String × Time)
  | .startDeadLetterReplay id _ _ now => some (id, now)
  | _ => none

/-- An error of the database itself, or of the connection to it. -/
def Error.ofDatabase (e : Error) : Bool :=
  match e.driver? with
  | some .connection | some (.pg ..) => true
  | _ => false

theorem ofDatabase_failing (message : String) (x : Fault schema) :
    (failing message x).ofDatabase = true := by
  cases x <;> rfl

/-- An attempt that is pending stays so until it is ended, or found stale by another. -/
theorem LetterStep.pending_stays {d : Db} {c : Call} {l : Letters} (h : LetterStep d c l)
    {attemptID : String} {row : ReplayRow}
    (hrow : d.deadLetterReplayAttempts.find? attemptID = some row) (hpend : row.result = .pending) :
    l.attempts.find? attemptID = some row ∨
      (∃ id result message action now,
        c = .finishDeadLetterReplay attemptID id result message action now) ∨
      ∃ now, c.starts = some (row.deadLetterID, now) ∧ stale now row = true := by
  have hupdate : ∀ {id'} u, attemptID ≠ id' →
      (AttemptTable.update d.deadLetterReplayAttempts id' u).find? attemptID = some row := by
    intro id' u hne
    rw [AttemptTable.find?_update, if_neg hne, hrow]
  cases h with
  | idle => exact Or.inl hrow
  | recorded _ _ _ => exact Or.inl hrow
  | failedAgain _ _ => exact Or.inl hrow
  | sent _ => exact Or.inl hrow
  | @started id' reason attempt now rows hstart =>
      by_cases hid : row.deadLetterID = id'
      · refine Or.inr (Or.inr ⟨now, by rw [hid]; rfl, ?_⟩)
        have hpending : d.pendingReplay id' attemptID = some row := by
          simp [Db.pendingReplay, hrow, Option.filter_some, hid, hpend]
        exact (hstart.recovered row (hstart.all attemptID row hpending)).2
      · left
        have hnot : attemptID ∉ rows.map ReplayRow.id := by
          intro hmem
          obtain ⟨r, hr, rfl⟩ := List.mem_map.mp hmem
          obtain ⟨hfound, hof⟩ := Option.filter_eq_some_iff.mp (hstart.recovered r hr).1
          rw [hrow] at hfound
          cases hfound
          simp only [Bool.and_eq_true, beq_iff_eq] at hof
          exact hid hof.1
        rw [Table.find?_insert, AttemptTable.find?_recover hnot, hrow]
        split <;> rfl
  | @failed id' _ _ _ _ _ _ _ =>
      by_cases hid : attemptID = id'
      · exact Or.inr (Or.inl ⟨_, _, _, _, _, by rw [hid]⟩)
      · exact Or.inl (hupdate _ hid)
  | @republished id' _ _ _ _ _ _ _ _ _ _ =>
      by_cases hid : attemptID = id'
      · exact Or.inr (Or.inl ⟨_, _, _, _, _, by rw [hid]⟩)
      · exact Or.inl (hupdate _ hid)

/-- A dead letter that is open no more stays so. -/
theorem closed_apply (u : DeadLetterUpdate) (r : DeadLetterRow) (h : r.state ≠ .opened) :
    (u.apply r).state ≠ .opened := by
  cases u with
  | failedAgain _ _ _ => exact h
  | published _ => exact h
  | republished => exact nofun

/-- The end of a pending attempt that published closes the dead letter, if the database does
not fail. -/
theorem finish_closes {hashtext : String → Int} {attemptID id message : String} {action : Random}
    {now : Time} {o : Op (dialect hashtext).engine Error Unit}
    (ho : (contract hashtext).Allows
      (.finishDeadLetterReplay attemptID id .published message action now) o)
    (hans : ∀ x, o.answer = .error x → x.ofDatabase = false) {attempt : ReplayRow}
    (hfound : (Db.deadLetterReplayAttempts o.before).find? attemptID = some attempt)
    (hpend : attempt.result = .pending) {row : DeadLetterRow}
    (hrow : (Db.deadLetterMessages o.before).find? id = some row) :
    ∃ row, (Db.deadLetterMessages (view o.before o.writes)).find? id = some row ∧
      row.state ≠ .opened := by
  rcases ho.outage_or_spec with ⟨e, he, message, rfl⟩ | hspec
  · have hfail := hans _ he
    rw [ofDatabase_failing] at hfail
    cases hfail
  cases hres : o.answer with
  | error e =>
      rw [hres] at hspec
      rw [Tx.Runs.writes_nil _ hspec]
      rcases finishDeadLetterReplay_refused hspec hfound hpend hrow with
        ⟨message, x, rfl⟩ | hclosed
      · have hfail := hans _ hres
        rw [ofDatabase_failing] at hfail
        cases hfail
      · exact ⟨row, hrow, hclosed⟩
  | ok u =>
      rw [hres] at hspec
      obtain ⟨_, h⟩ := finishDeadLetterReplay_commits hspec
      rw [h.writes]
      refine ⟨DeadLetterUpdate.apply .republished row, ?_, nofun⟩
      change (LetterTable.update (Db.deadLetterMessages o.before) id .republished).find? id = _
      rw [LetterTable.find?_update, if_pos rfl, hrow]
      rfl

section

variable {P : Platform}

/-- No attempt to replay the dead letter is still under way five minutes after it began, when
another is asked for. -/
def Timely (id : String) (g : List (LogEntry P)) (e : LogEntry P) : Prop :=
  ∀ now, e.call.starts = some (id, now) → ∀ x ∈ g, ∀ attemptID began,
    beginning x.call x.op.answer = some (id, attemptID, began) →
    (∀ y ∈ g, y.task = x.task → y.call.ends = false) → now ≤ began + fiveMinutes

/-- An attempt that has begun is under way, has closed the dead letter, or has failed to
publish it. -/
def Accounted (id : String) (s : AState (system P (.only replaying))) (e : LogEntry P)
    (attemptID : String) (began : Time) : Prop :=
  ((∃ row, s.db.deadLetterReplayAttempts.find? attemptID = some row ∧ row.result = .pending ∧
      row.deadLetterID = id ∧ row.createdAt = began) ∧
    (∃ row, s.db.deadLetterMessages.find? id = some row) ∧
    ∀ y ∈ s.log, y.task = e.task → y.call.ends = false) ∨
  (∃ row, s.db.deadLetterMessages.find? id = some row ∧ row.state ≠ .opened) ∨
  ∃ y ∈ s.log, y.task = e.task ∧ ∃ message action now,
    y.call = .finishDeadLetterReplay attemptID id .failed message action now

variable {d : Db} {s : AState (system P (.only replaying))}

/-- The replay behind the beginning of an attempt. -/
theorem begun_of_beginning (h : AReach (contract P.hashtext) ⟨d, (), [], []⟩ s) {e : LogEntry P}
    (he : e ∈ s.log) {id attemptID : String} {began : Time}
    (hbegun : beginning e.call e.op.answer = some (id, attemptID, began)) :
    ∃ window id' reason draws record q,
      (replayDeadLetter P window id' reason draws).Made e.task (own e.task s.log) q ∧
      Begun e.task id' reason draws (own e.task s.log) record attemptID ∧ record.id = id ∧
      draws.startedAt = began := by
  have hown : e ∈ own e.task s.log := List.mem_filter.mpr ⟨he, by simp⟩
  have htab : .deadLetterReplayAttempts ∈ e.call.tabs := by
    obtain ⟨_, c, _⟩ := e
    cases c with
    | startDeadLetterReplay _ _ _ _ => exact .head _
    | _ => cases hbegun
  obtain ⟨window, id', reason, draws, q, _, hmade⟩ :=
    replay_entry (traced_reach h) (replaying_reach h) he htab
  rcases begun_of_made hmade with ⟨record, attemptID', hb⟩ | hnot
  · have heq := hb.once e hown _ hbegun
    cases heq
    exact ⟨window, id', reason, draws, record, q, hmade, hb, rfl, rfl⟩
  · rw [(hnot e hown).1] at hbegun
    cases hbegun

/-- An attempt begins once. -/
theorem beginning_fresh {id attemptID : String} {began : Time} {id' : String} {began' : Time}
    (h : AReach (contract P.hashtext) ⟨d, (), [], []⟩ s) {g g' : List (LogEntry P)}
    {e e' : LogEntry P} (hlog : s.log = g ++ e :: g') (he' : e' ∈ g')
    (hbegun : beginning e.call e.op.answer = some (id, attemptID, began))
    (hbegun' : beginning e'.call e'.op.answer = some (id', attemptID, began')) : False := by
  have htrace := traced_reach h
  have hmem : e ∈ s.log := by
    rw [hlog]
    exact List.mem_append_right _ List.mem_cons_self
  have hmem' : e' ∈ s.log := by
    rw [hlog]
    exact List.mem_append_right _ (List.mem_cons_of_mem _ he')
  obtain ⟨row, rows, _, rfl, _, _, hstart, hw⟩ :=
    started_of_beginning (htrace.allowed e hmem) hbegun
  obtain ⟨row', rows', _, hid, _, _, hstart', _⟩ :=
    started_of_beginning (htrace.allowed e' hmem') hbegun'
  have hfound := hstart.found
  rw [← hw] at hfound
  obtain ⟨_, hthere, _⟩ := between_reach (Q := fun d : Db => ∃ r,
    d.deadLetterReplayAttempts.find? row.id = some r ∧ True)
    (fun hQ ho => (allows_letters ho).attempt_stays (fun _ _ _ => trivial) hQ) h hlog he'
    ⟨row, hfound, trivial⟩
  have hfresh := hstart'.fresh
  rw [hid] at hfresh
  exact absurd (hfresh.symm.trans hthere) nofun

theorem beginning_unique {id attemptID : String} {began : Time} {id' : String} {began' : Time}
    (h : AReach (contract P.hashtext) ⟨d, (), [], []⟩ s) {e e' : LogEntry P} (he : e ∈ s.log)
    (he' : e' ∈ s.log) (hbegun : beginning e.call e.op.answer = some (id, attemptID, began))
    (hbegun' : beginning e'.call e'.op.answer = some (id', attemptID, began')) : e = e' := by
  obtain ⟨g, g', hlog⟩ := List.append_of_mem he
  rw [hlog] at he'
  rcases List.mem_append.mp he' with hbefore | hafter
  · obtain ⟨g₁, g₂, rfl⟩ := List.append_of_mem hbefore
    rw [List.append_assoc, List.cons_append] at hlog
    have hlater : e ∈ g₂ ++ e :: g' := List.mem_append_right _ List.mem_cons_self
    exact (beginning_fresh h hlog hlater hbegun' hbegun).elim
  rcases List.mem_cons.mp hafter with heq | hafter
  · exact heq.symm
  · exact (beginning_fresh h hlog hafter hbegun hbegun').elim

/-- The replays of a dead letter run into nothing but each other, and one that begins finds the
dead letter open. -/
structure Calm (id : String) (log : List (LogEntry P)) : Prop where
  answered : ∀ e ∈ log, e.call.ends = true → ∀ x, e.op.answer = .error x → x.ofDatabase = false
  timely : Always (Timely id) log
  opened : ∀ e ∈ log, ∀ attemptID began,
    beginning e.call e.op.answer = some (id, attemptID, began) →
    ∃ row, (Db.deadLetterMessages e.op.before).find? id = some row ∧ row.state = .opened

theorem Calm.of_append {id : String} {g g' : List (LogEntry P)} (h : Calm id (g ++ g')) :
    Calm id g :=
  ⟨fun x hx => h.answered x (List.mem_append_left _ hx), h.timely.of_append,
    fun x hx => h.opened x (List.mem_append_left _ hx)⟩

/-- The operation that begins an attempt. -/
theorem accounted_new {id : String} {f : LogEntry P} {s' : AState (system P (.only replaying))}
    (h : AReach (contract P.hashtext) ⟨d, (), [], []⟩ s)
    (h' : AReach (contract P.hashtext) ⟨d, (), [], []⟩ s')
    (hdb : s'.db = view f.op.before f.op.writes) (hlog : s'.log = s.log ++ [f])
    (hb : f.op.before = s.db) (hcalm : Calm id s'.log) {attemptID : String} {began : Time}
    (hbegun : beginning f.call f.op.answer = some (id, attemptID, began)) :
    Accounted id s' f attemptID began := by
  have hmem : f ∈ s'.log := by
    rw [hlog]
    exact List.mem_append_right _ (List.mem_singleton_self _)
  have hallowed := (traced_reach h').allowed f hmem
  obtain ⟨row, rows, hid, rfl, hcreated, hpend, hstart, hw⟩ :=
    started_of_beginning hallowed hbegun
  have hfound := hstart.found
  rw [← hw, ← hdb] at hfound
  refine Or.inl ⟨⟨row, hfound, hpend, hid, hcreated⟩, ?_, fun y hy htask => ?_⟩
  · obtain ⟨letter, hletter, _⟩ := hcalm.opened f hmem _ _ hbegun
    obtain ⟨letter', hletter', _⟩ :=
      letter_stays (p := fun _ => True) (fun _ _ _ => trivial) ⟨letter, hletter, trivial⟩ hallowed
    rw [← hdb] at hletter'
    exact ⟨letter', hletter'⟩
  · rw [hlog] at hy
    rcases List.mem_append.mp hy with hy | hy
    swap
    · rw [List.mem_singleton.mp hy]
      obtain ⟨_, c, _⟩ := f
      cases c <;> first | rfl | cases hbegun
    obtain ⟨window, id', reason, draws, record, q, hmade, hsofar, _, _⟩ :=
      begun_of_beginning h' hmem hbegun
    rw [hlog, own_append_self] at hmade hsofar
    obtain ⟨q', hmade'⟩ := hmade.of_append
    rcases begun_of_made hmade' with ⟨record', attemptID', hearlier⟩ | hnot
    · -- an earlier attempt of the same call would have the same id
      obtain ⟨start, hstart', hans⟩ := hearlier.started
      have hsame := hsofar.once _ (List.mem_append_left _ hstart') _ (beginning_of_answer hans)
      have hid' : attemptID' = row.id := congrArg (fun x => x.2.1) hsame
      subst hid'
      obtain ⟨_, hthere, _⟩ :=
        attempt_of_beginning h (mem_of_own hstart') (beginning_of_answer hans)
      have hfresh := hstart.fresh
      rw [hb] at hfresh
      exact absurd (hfresh.symm.trans hthere) nofun
    · exact (hnot y (List.mem_filter.mpr ⟨hy, by simp [htask]⟩)).2

/-- Any other operation. -/
theorem accounted_old {id : String} {f : LogEntry P} {s' : AState (system P (.only replaying))}
    (h' : AReach (contract P.hashtext) ⟨d, (), [], []⟩ s')
    (hdb : s'.db = view f.op.before f.op.writes) (hlog : s'.log = s.log ++ [f])
    (hb : f.op.before = s.db) (hcalm : Calm id s'.log) {e : LogEntry P} (he : e ∈ s.log)
    {attemptID : String} {began : Time}
    (hbegun : beginning e.call e.op.answer = some (id, attemptID, began))
    (hacc : Accounted id s e attemptID began) : Accounted id s' e attemptID began := by
  have hmem : f ∈ s'.log := by
    rw [hlog]
    exact List.mem_append_right _ (List.mem_singleton_self _)
  have he' : e ∈ s'.log := by
    rw [hlog]
    exact List.mem_append_left _ he
  have hallowed := (traced_reach h').allowed f hmem
  rcases hacc with ⟨⟨row, hrow, hpend, hid, hcreated⟩, ⟨letter, hletter⟩, hnoend⟩ | hclosed |
    ⟨y, hy, hfailed⟩
  rotate_left
  · rw [← hb] at hclosed
    have hclosed' := letter_stays closed_apply hclosed hallowed
    rw [← hdb] at hclosed'
    exact Or.inr (Or.inl hclosed')
  · refine Or.inr (Or.inr ⟨y, ?_, hfailed⟩)
    rw [hlog]
    exact List.mem_append_left _ hy
  rw [← hb] at hrow hletter
  by_cases hfin : f.task = e.task ∧ f.call.ends = true
  · -- the attempt ends
    obtain ⟨_, _, _, draws, record, _, _, hsofar, rfl, _⟩ := begun_of_beginning h' he' hbegun
    have hown : f ∈ own e.task s'.log := List.mem_filter.mpr ⟨hmem, by simp [hfin.1]⟩
    obtain ⟨result, message, hcall, _⟩ := hsofar.ended f hown hfin.2
    cases result with
    | failed => exact Or.inr (Or.inr ⟨f, hmem, hfin.1, message, _, _, hcall⟩)
    | published =>
        have hans := hcalm.answered f hmem hfin.2
        obtain ⟨i, c, o⟩ := f
        subst hcall
        have hclosed := finish_closes hallowed hans hrow hpend hletter
        rw [← hdb] at hclosed
        exact Or.inr (Or.inl hclosed)
  · rcases (allows_letters hallowed).pending_stays hrow hpend with
      hrow' | ⟨_, result, message, action, now, hcall⟩ | ⟨now, hstarts, hstale⟩
    · obtain ⟨letter', hletter', _⟩ :=
        letter_stays (p := fun _ => True) (fun _ _ _ => trivial) ⟨letter, hletter, trivial⟩ hallowed
      have hrow'' : (Db.deadLetterReplayAttempts (view f.op.before f.op.writes)).find? attemptID =
        some row := hrow'
      rw [← hdb] at hletter' hrow''
      refine Or.inl ⟨⟨row, hrow'', hpend, hid, hcreated⟩, ⟨letter', hletter'⟩, fun y hy htask => ?_⟩
      rw [hlog] at hy
      rcases List.mem_append.mp hy with hy | hy
      · exact hnoend y hy htask
      · rw [List.mem_singleton.mp hy] at htask ⊢
        exact Bool.eq_false_iff.mpr fun hends => hfin ⟨htask, hends⟩
    · -- only the call that began the attempt ends it
      refine absurd ⟨?_, by rw [hcall]; rfl⟩ hfin
      have htab : .deadLetterReplayAttempts ∈ f.call.tabs := by
        rw [hcall]
        exact .head _
      obtain ⟨_, _, _, _, _, _, hmade⟩ :=
        replay_entry (traced_reach h') (replaying_reach h') hmem htab
      have hown : f ∈ own f.task s'.log := List.mem_filter.mpr ⟨hmem, by simp⟩
      rcases begun_of_made hmade with ⟨record, attemptID', hbegun'⟩ | hnot
      · obtain ⟨_, _, hcall', _⟩ := hbegun'.ended f hown (by rw [hcall]; rfl)
        rw [hcall] at hcall'
        cases hcall'
        obtain ⟨start, hstart, hans⟩ := hbegun'.started
        have heq := beginning_unique h' (mem_of_own hstart) he' (beginning_of_answer hans) hbegun
        rw [← heq]
      · have hends := (hnot f hown).2
        rw [hcall] at hends
        cases hends
    · -- another attempt does not find it stale yet
      rw [hid] at hstarts
      have hle := hcalm.timely s.log f [] hlog now hstarts e he attemptID began hbegun hnoend
      have hlt : row.createdAt < now - fiveMinutes := of_decide_eq_true hstale
      rw [hcreated] at hlt
      exact absurd hle (not_le.mpr (lt_sub_iff_add_lt.mp hlt))

theorem accounted_reach {id : String} (h : AReach (contract P.hashtext) ⟨d, (), [], []⟩ s)
    (hcalm : Calm id s.log) {e : LogEntry P} (he : e ∈ s.log) {attemptID : String} {began : Time}
    (hbegun : beginning e.call e.op.answer = some (id, attemptID, began)) :
    Accounted id s e attemptID began := by
  have hall : Calm id s.log → ∀ e ∈ s.log, ∀ attemptID began,
      beginning e.call e.op.answer = some (id, attemptID, began) →
      Accounted id s e attemptID began := by
    refine h.induct (P := fun s => Calm id s.log → ∀ e ∈ s.log, ∀ attemptID began,
      beginning e.call e.op.answer = some (id, attemptID, began) →
      Accounted id s e attemptID began) ?_ fun s s' hr ih hstep => ?_
    · exact fun _ e he => absurd he List.not_mem_nil
    · have hr' := hr.step hstep
      cases hstep with
      | arrive _ => exact ih
      | env _ => exact ih
      | crash _ => exact ih
      | @op i t c k o _ _ _ hb =>
          intro hcalm e he attemptID began hbegun
          have hdb : view s.db o.writes = view o.before o.writes := by rw [hb]
          rcases List.mem_append.mp he with he | he
          · exact accounted_old (f := ⟨i, c, o⟩) hr' hdb rfl hb hcalm he hbegun
              (ih hcalm.of_append e he attemptID began hbegun)
          · cases List.mem_singleton.mp he
            exact accounted_new (f := ⟨i, c, o⟩) hr hr' hdb rfl hb hcalm hbegun
  exact hall hcalm e he attemptID began hbegun

/-- A dead letter for which another attempt begins has not been published by the first. -/
theorem failed_of_beginning {id : String} (h : AReach (contract P.hashtext) ⟨d, (), [], []⟩ s)
    (hcalm : Calm id s.log) {g g' : List (LogEntry P)} {e f : LogEntry P}
    (hlog : s.log = g ++ f :: g') (he : e ∈ g) {attemptID attemptID' : String}
    {began began' : Time}
    (hbegun : beginning e.call e.op.answer = some (id, attemptID, began))
    (hbegun' : beginning f.call f.op.answer = some (id, attemptID', began')) :
    ∃ y ∈ s.log, y.task = e.task ∧ ∃ message action now,
      y.call = .finishDeadLetterReplay attemptID id .failed message action now := by
  have hmem : f ∈ s.log := by
    rw [hlog]
    exact List.mem_append_right _ List.mem_cons_self
  obtain ⟨s₁, h₁, rfl, hdb, _⟩ := h.before rfl hlog
  have hcalm₁ : Calm id s₁.log := (hlog ▸ hcalm).of_append
  rcases accounted_reach h₁ hcalm₁ he hbegun with
    ⟨⟨row, hrow, hpend, hid, hcreated⟩, _, hnoend⟩ | ⟨letter, hletter, hclosed⟩ | ⟨y, hy, hfailed⟩
  · obtain ⟨new, rows, hnew, _, _, _, hstart, _⟩ :=
      started_of_beginning ((traced_reach h).allowed f hmem) hbegun'
    have hstarts : f.call.starts = some (id, began') := by
      obtain ⟨_, c, o⟩ := f
      cases c with
      | startDeadLetterReplay _ _ _ _ =>
          cases hans : o.answer with
          | error _ =>
              rw [hans] at hbegun'
              cases hbegun'
          | ok _ =>
              rw [beginning_of_answer hans] at hbegun'
              cases hbegun'
              rfl
      | _ => cases hbegun'
    have hle := hcalm.timely _ f g' hlog began' hstarts e he attemptID began hbegun hnoend
    have hpending : (Db.pendingReplay f.op.before new.deadLetterID attemptID) = some row := by
      rw [hdb] at hrow
      simp [Db.pendingReplay, hrow, Option.filter_some, hid, hnew, hpend]
    have hlt : row.createdAt < began' - fiveMinutes :=
      of_decide_eq_true (hstart.recovered row (hstart.all attemptID row hpending)).2
    rw [hcreated] at hlt
    exact absurd hle (not_le.mpr (lt_sub_iff_add_lt.mp hlt))
  · obtain ⟨letter', hletter', hopen⟩ := hcalm.opened f hmem _ _ hbegun'
    rw [hdb, hletter'] at hletter
    cases hletter
    exact absurd hopen hclosed
  · refine ⟨y, ?_, hfailed⟩
    rw [hlog]
    exact List.mem_append_left _ hy

end

/-- The calls that have published a dead letter. -/
def republications {P : Platform} {policy : Policy} (s : SystemState P policy) (id : String) :
    List Nat :=
  (List.range s.tasks.length).filter fun i =>
    (republication s i).any fun p => p.1 == id && p.2.2.isNone

section

variable {P : Platform} {s : SystemState P (.only replaying)} {d : Db}

/-- The attempt behind a publication. -/
theorem beginning_of_republication (h : Traced (contract P.hashtext) s.abs) {i : Nat}
    {id : String} {msg : Replayed} (hpub : republication s i = some (id, msg, none)) :
    ∃ e ∈ s.log, e.task = i ∧ ∃ attemptID began,
      beginning e.call e.op.answer = some (id, attemptID, began) ∧
      ∀ y ∈ s.log, y.task = i → ∀ message action now,
        y.call ≠ .finishDeadLetterReplay attemptID id .failed message action now := by
  obtain ⟨reason, draws, record, attemptID, hbegun, _, hnone⟩ := begun_of_republication h hpub
  obtain ⟨get, hget, hans⟩ := hbegun.found
  obtain ⟨row, hrow, hscan⟩ := found_of_answer (h.allowed _ (mem_of_own hget)) hans
  have hid : record.id = id := by
    have hkey : row.id = id := Table.key_of_find? hrow
    rw [← hkey]
    unfold scanDeadLetter at hscan
    split at hscan
    · cases hscan
    · cases hscan
      rfl
  subst hid
  obtain ⟨start, hstart, hans⟩ := hbegun.started
  refine ⟨_, mem_of_own hstart, rfl, attemptID, _, beginning_of_answer hans, ?_⟩
  intro y hy htask message action now hcall
  obtain ⟨result, _, hcall', hresult⟩ :=
    hbegun.ended y (List.mem_filter.mpr ⟨hy, by simp [htask]⟩) (by rw [hcall]; rfl)
  rw [hcall] at hcall'
  cases hcall'
  exact absurd (hresult.mpr hnone.symm) nofun

theorem republication_unique (h : AReach (contract P.hashtext) ⟨d, (), [], []⟩ s.abs)
    {id : String} (hcalm : Calm id s.log) {i j : Nat} {msg msg' : Replayed}
    (hi : republication s i = some (id, msg, none))
    (hj : republication s j = some (id, msg', none)) : i = j := by
  have htrace := traced_reach h
  obtain ⟨e, he, rfl, attemptID, began, hbegun, hend⟩ := beginning_of_republication htrace hi
  obtain ⟨f, hf, rfl, attemptID', began', hbegun', hend'⟩ := beginning_of_republication htrace hj
  obtain ⟨g, g', hlog⟩ := List.append_of_mem hf
  rw [hlog] at he
  rcases List.mem_append.mp he with hbefore | hafter
  · obtain ⟨y, hy, htask, message, action, now, hcall⟩ :=
      failed_of_beginning h hcalm hlog hbefore hbegun hbegun'
    exact absurd hcall (hend y hy htask message action now)
  rcases List.mem_cons.mp hafter with rfl | hafter
  · rfl
  · obtain ⟨g₁, g₂, rfl⟩ := List.append_of_mem hafter
    have hlog' : s.log = (g ++ f :: g₁) ++ e :: g₂ := by
      rw [hlog, List.append_assoc, List.cons_append]
    have hbefore : f ∈ g ++ f :: g₁ := List.mem_append_right _ List.mem_cons_self
    obtain ⟨y, hy, htask, message, action, now, hcall⟩ :=
      failed_of_beginning h hcalm hlog' hbefore hbegun' hbegun
    exact absurd hcall (hend' y hy htask message action now)

end

/-- As long as the database does not fail them and none is found stale, the replays of a dead
letter publish it once at most, if each attempt begins while the dead letter is open. -/
theorem republished_once (P : Platform) (id : String)
    (es : List (Transact.Event (system P (.only replaying))))
    (s : SystemState P (.only replaying))
    (h : (State.init Db.empty () : SystemState P (.only replaying)).steps es = some s)
    (hanswered : ∀ e ∈ s.log, e.call.ends = true →
      ∀ x, e.op.answer = .error x → x.ofDatabase = false)
    (htimely : Always (Timely id) s.log)
    (hopened : ∀ e ∈ s.log, ∀ attemptID began,
      beginning e.call e.op.answer = some (id, attemptID, began) →
      ∃ row, (Db.deadLetterMessages e.op.before).find? id = some row ∧ row.state = .opened) :
    (republications s id).length ≤ 1 := by
  have hreach := State.reach_abs (store_sound P.hashtext) h
  have hnone : ∀ i ∈ republications s id, ∃ msg, republication s i = some (id, msg, none) := by
    intro i hi
    obtain ⟨⟨id', msg, answer⟩, hpub, hp⟩ := (Option.any_eq_true _ _).mp (List.mem_filter.mp hi).2
    simp only [Bool.and_eq_true, beq_iff_eq, Option.isNone_iff_eq_none] at hp
    obtain ⟨rfl, rfl⟩ := hp
    exact ⟨msg, hpub⟩
  have hnodup : (republications s id).Nodup := List.nodup_range.filter _
  match hlist : republications s id with
  | [] => exact Nat.zero_le 1
  | [_] => exact le_rfl
  | i :: j :: rest =>
      rw [hlist] at hnone hnodup
      obtain ⟨msg, hi⟩ := hnone i List.mem_cons_self
      obtain ⟨msg', hj⟩ := hnone j (List.mem_cons_of_mem _ List.mem_cons_self)
      have hij := republication_unique hreach ⟨hanswered, htimely, hopened⟩ hi hj
      rw [hij] at hnodup
      exact absurd List.mem_cons_self (List.nodup_cons.mp hnodup).1

/-- Two replays of one dead letter: the second finds it open, then the first publishes it and
ends, then the second records its attempt and publishes it again. -/
def raceRun : List (Transact.Event (system .plain (.only replaying))) :=
  [.arrive (.moveDeadLetter "risk-service" keyed (some (.text "decode failed"))
    ⟨0, fun _ => none, 1⟩), .run 0, .run 0,
   .arrive (.replayDeadLetter day (DeadLetterRecorder.deterministicID .plain "risk-service" keyed)
    "fixed" ⟨2, .fill 32 0, 4, fun _ => none, .fill 32 0, 6⟩),
   .arrive (.replayDeadLetter day (DeadLetterRecorder.deterministicID .plain "risk-service" keyed)
    "fixed" ⟨3, .fill 32 1, 5, fun _ => none, .fill 32 1, 7⟩),
   .run 1, .run 1, .run 1, .run 1, .run 1, .run 1, .run 1,
   .run 2, .run 2, .run 2, .run 2, .run 2,
   .run 1, .run 1, .run 1, .run 1, .run 1,
   .run 2, .run 2, .run 2, .run 2, .run 2]

theorem republished_twice : ∃ s : SystemState .plain (.only replaying),
    (State.init Db.empty ()).steps raceRun = some s ∧ (∀ e ∈ s.log, e.op.outage = false) ∧
      republications s (DeadLetterRecorder.deterministicID .plain "risk-service" keyed) = [1, 2] := by
  have h : ((State.init Db.empty () : SystemState .plain (.only replaying)).steps raceRun).map
      (fun s => (s.log.all fun e => !e.op.outage,
        republications s (DeadLetterRecorder.deterministicID .plain "risk-service" keyed))) =
      some (true, [1, 2]) := by
    decide +kernel
  obtain ⟨s, hs, h⟩ := Option.map_eq_some_iff.mp h
  simp only [Prod.mk.injEq] at h
  refine ⟨s, hs, fun e he => ?_, h.2⟩
  simpa using List.all_eq_true.mp h.1 e he

/-- The line is no failed end of an attempt, and begins none unless the dead letter is open. -/
def undisturbed {P : Platform} (id : String) (e : LogEntry P) : Bool :=
  (!e.call.ends || e.op.answer.isOk) &&
    ((beginning e.call e.op.answer).isNone ||
      ((Db.deadLetterMessages e.op.before).find? id).any fun row => row.state == .opened)

theorem republished_once_redelivered : ∃ s : SystemState .plain (.only replaying),
    (State.init Db.empty ()).steps redeliveredRun = some s ∧
      republications s (DeadLetterRecorder.deterministicID .plain "risk-service" keyed) = [2] ∧
      (republications s
        (DeadLetterRecorder.deterministicID .plain "risk-service" keyed)).length ≤ 1 := by
  have h : ((State.init Db.empty () : SystemState .plain (.only replaying)).steps
      redeliveredRun).map (fun s =>
        (republications s (DeadLetterRecorder.deterministicID .plain "risk-service" keyed),
          s.log.all (undisturbed (DeadLetterRecorder.deterministicID .plain "risk-service" keyed)),
          decide (s.log.Pairwise fun x e =>
            (beginning x.call x.op.answer).isNone = true ∨ e.call.starts.isNone = true))) =
      some ([2], true, true) := by
    decide +kernel
  obtain ⟨s, hs, h⟩ := Option.map_eq_some_iff.mp h
  simp only [Prod.mk.injEq, decide_eq_true_eq] at h
  obtain ⟨hrepublications, hundisturbed, hpairs⟩ := h
  refine ⟨s, hs, hrepublications, republished_once .plain _ redeliveredRun s hs ?_ ?_ ?_⟩
  · intro e he hends x hx
    have hok := List.all_eq_true.mp hundisturbed e he
    rw [undisturbed, hends, hx] at hok
    cases hok
  · intro g e g' hlog now hstarts x hx attemptID began hbegun
    rw [hlog] at hpairs
    rcases (List.pairwise_append.mp hpairs).2.2 x hx e List.mem_cons_self with hnone | hnone
    · rw [hbegun] at hnone
      cases hnone
    · rw [hstarts] at hnone
      cases hnone
  · intro e he attemptID began hbegun
    have hopen := (Bool.and_eq_true_iff.mp (List.all_eq_true.mp hundisturbed e he)).2
    rw [hbegun] at hopen
    obtain ⟨row, hrow, hstate⟩ := (Option.any_eq_true _ _).mp hopen
    exact ⟨row, hrow, beq_iff_eq.mp hstate⟩

end Clearance
