/-
# `Clearance.DeadLetters` — messages no handler wants

A message whose handler keeps failing is recorded in `dead_letter_messages`, published
to a topic of its own, and can be replayed by an operator.  `LetterStep` says what the
operations of the store do to the three tables involved:

    recorded      a message fails for the first time         → OPEN
    failedAgain   it fails again                             last failure, error
    sent          it has been published                      kafka_published_at
    started       stale attempts given up                    → FAILED
                  and a new one                              → PENDING
    failed        a pending attempt                          → FAILED
    republished   a pending attempt                          → PUBLISHED
                  of an OPEN dead letter                     → REPUBLISHED, and an action

Not every message can be recorded: the columns of the table refuse an empty key or
value, an `event_id` that is no token, and header keys with NUL in them
(`move_ok_iff`).
-/
import Clearance.System

namespace Clearance

open Transact

/-! ## The machine -/

abbrev LetterTable := Table DeadLetterRow String DeadLetterRow.id

abbrev AttemptTable := Table ReplayRow String ReplayRow.id

/-- Rewrites a dead letter. -/
def LetterTable.update (t : LetterTable) (id : String) (u : DeadLetterUpdate) : LetterTable :=
  t.modify id u.apply (Tab.key_upd (t := .deadLetterMessages) u)

theorem LetterTable.find?_update (t : LetterTable) (id' id : String) (u : DeadLetterUpdate) :
    (t.update id' u).find? id = if id = id' then (t.find? id).map u.apply else t.find? id :=
  Table.find?_modify t id' id _ _

/-- Rewrites an attempt. -/
def AttemptTable.update (t : AttemptTable) (id : String) (u : ReplayUpdate) : AttemptTable :=
  t.modify id u.apply u.id_apply

theorem AttemptTable.find?_update (t : AttemptTable) (id' id : String) (u : ReplayUpdate) :
    (t.update id' u).find? id = if id = id' then (t.find? id).map u.apply else t.find? id :=
  Table.find?_modify t id' id _ _

/-- Gives up attempts. -/
def AttemptTable.recover (t : AttemptTable) (deadLetterID : String) (now : Time)
    (rows : List ReplayRow) : AttemptTable :=
  rows.foldl (fun t r => t.update r.id
    ⟨deadLetterID, .failed, some "stale pending replay recovered", now⟩) t

/-- The other attempts stay. -/
theorem AttemptTable.find?_recover {t : AttemptTable} {deadLetterID : String} {now : Time}
    {rows : List ReplayRow} {id : String} (h : id ∉ rows.map ReplayRow.id) :
    (t.recover deadLetterID now rows).find? id = t.find? id := by
  induction rows generalizing t with
  | nil => rfl
  | cons r rows ih =>
      rw [List.map_cons, List.mem_cons, not_or] at h
      refine (ih h.2).trans ?_
      rw [AttemptTable.find?_update, if_neg h.1]

/-- Giving up attempts is a matter of updates. -/
theorem AttemptTable.recover_stays {p : ReplayRow → Prop}
    (hp : ∀ u r, p r → p (ReplayUpdate.apply u r)) {t : AttemptTable} {deadLetterID : String}
    {now : Time} {rows : List ReplayRow} {id : String} (h : ∃ r, t.find? id = some r ∧ p r) :
    ∃ r, (t.recover deadLetterID now rows).find? id = some r ∧ p r := by
  induction rows generalizing t with
  | nil => exact h
  | cons r rows ih =>
      refine ih ?_
      obtain ⟨row, hrow, hprow⟩ := h
      rw [AttemptTable.find?_update, hrow]
      split
      · exact ⟨_, rfl, hp _ row hprow⟩
      · exact ⟨row, rfl, hprow⟩

/-- The dead letters, the attempts to replay them, and the replays on record. -/
structure Letters where
  messages : LetterTable
  attempts : AttemptTable
  replays : List ActionRow

def Db.letters (d : Db) : Letters where
  messages := d.deadLetterMessages
  attempts := d.deadLetterReplayAttempts
  replays := d.operatorActions.rows.filter fun r => r.actionType == .dlqReplay

/-- What the operations of the store do to dead letters. -/
inductive LetterStep (d : Db) : Call → Letters → Prop
  | idle {c} : LetterStep d c d.letters
  | recorded {record : DeadLetter} : record.row.fault? = none →
      d.deadLetterMessages.rows.find? (sameSource record.row) = none →
      d.deadLetterMessages.find? record.id = none →
      LetterStep d (.upsertDeadLetter record)
        { d.letters with messages := d.deadLetterMessages.insert record.row }
  | failedAgain {record : DeadLetter} {old : DeadLetterRow} :
      d.deadLetterMessages.rows.find? (sameSource record.row) = some old →
      firstViolated ((excluded record.row).apply old).checks = none →
      LetterStep d (.upsertDeadLetter record)
        { d.letters with
          messages := LetterTable.update d.deadLetterMessages old.id (excluded record.row) }
  | sent {id publishedAt row} : d.deadLetterMessages.find? id = some row →
      LetterStep d (.markDeadLetterPublished id publishedAt)
        { d.letters with
          messages := LetterTable.update d.deadLetterMessages id (.published publishedAt) }
  | started {id reason attempt now rows} : Started d (attemptRow id reason attempt now) now rows →
      LetterStep d (.startDeadLetterReplay id reason attempt now)
        { d.letters with
          attempts := (AttemptTable.recover d.deadLetterReplayAttempts id now rows).insert
            (attemptRow id reason attempt now) }
  | failed {attemptID id message action now attempt} :
      d.deadLetterReplayAttempts.find? attemptID = some attempt → attempt.result = .pending →
      LetterStep d (.finishDeadLetterReplay attemptID id .failed message action now)
        { d.letters with
          attempts := AttemptTable.update d.deadLetterReplayAttempts attemptID
            ⟨attempt.deadLetterID, .failed, nullIfEmpty message, now⟩ }
  | republished {attemptID id message action now attempt row} :
      d.deadLetterReplayAttempts.find? attemptID = some attempt → attempt.result = .pending →
      d.deadLetterMessages.find? id = some row → row.state = .opened →
      LetterStep d (.finishDeadLetterReplay attemptID id .published message action now)
        { messages := LetterTable.update d.deadLetterMessages id .republished
          attempts := AttemptTable.update d.deadLetterReplayAttempts attemptID
            ⟨attempt.deadLetterID, .published, nullIfEmpty message, now⟩
          replays := d.letters.replays ++
            [⟨newID "act" action, .dlqReplay, id, attempt.reason⟩] }

section

variable {hashtext : String → Int} {d : Db} {w : List schema.Write}

/-- Operations that write elsewhere. -/
theorem letters_untouched {c : Call} {res : Except Error c.Reply}
    (h : (contract hashtext).spec c d res w) (hm : .deadLetterMessages ∉ c.tabs)
    (ha : .deadLetterReplayAttempts ∉ c.tabs) (hr : c.action ≠ some .dlqReplay) :
    LetterStep d c (view d w).letters := by
  have htouch := storeSpec_touches h
  have hmessages : (view d w).deadLetterMessages = d.deadLetterMessages :=
    get_of_touches (t := .deadLetterMessages) htouch hm nofun
  have hattempts : (view d w).deadLetterReplayAttempts = d.deadLetterReplayAttempts :=
    get_of_touches (t := .deadLetterReplayAttempts) htouch ha nofun
  have hletters : (view d w).letters = d.letters := by
    rw [Db.letters, hmessages, hattempts, actions_of_touches htouch hr]
    rfl
  rw [hletters]
  exact .idle

theorem letters_nil {c : Call} (h : w = []) : LetterStep d c (view d w).letters := by
  rw [h]
  exact .idle

theorem view_startWrites (d : Db) (row : ReplayRow) (now : Time) (rows : List ReplayRow) :
    (view d (startWrites row now rows)).letters =
      { d.letters with
        attempts := (AttemptTable.recover d.deadLetterReplayAttempts row.deadLetterID now
          rows).insert row } := by
  rw [startWrites, view, List.foldl_append]
  induction rows generalizing d with
  | nil => rfl
  | cons r rows ih => exact ih (@Schema.apply schema d (recoverStale row.deadLetterID now r))

/-- What any operation of the store does to dead letters. -/
theorem letter_step {c : Call} {res : Except Error c.Reply}
    (h : (contract hashtext).spec c d res w) : LetterStep d c (view d w).letters := by
  cases c with
  | upsertDeadLetter record =>
      rcases single_runs (m := methodOf (.upsertDeadLetter record)) rfl h with
        ⟨_, _, _, _, hw⟩ | ⟨f, r, hr, _, rfl⟩
      · exact letters_nil hw
      · rcases planUpsertDeadLetter_ok hr with h | ⟨old, h⟩
        · rw [h.writes]
          exact .recorded h.valid h.freshSource h.freshID
        · rw [h.writes]
          exact .failedAgain h.found h.checked
  | markDeadLetterPublished id publishedAt =>
      rcases single_runs (m := methodOf (.markDeadLetterPublished id publishedAt)) rfl h with
        ⟨_, _, _, _, hw⟩ | ⟨f, r, hr, _, rfl⟩
      · exact letters_nil hw
      · rcases Plan.updateRow_ok.mp hr with ⟨_, rfl⟩ | ⟨row, hrow, _, _, rfl⟩
        · exact .idle
        · exact .sent hrow
  | startDeadLetterReplay id reason attempt now =>
      rcases h with ⟨_, _, hw⟩ | ⟨_, rows, hstart, rfl⟩
      · exact letters_nil hw
      · rw [view_startWrites]
        exact .started hstart
  | finishDeadLetterReplay attemptID deadLetterID result errorMessage action now =>
      cases res with
      | error e => exact letters_nil (Tx.Runs.writes_nil _ h)
      | ok _ =>
          obtain ⟨attempt, h⟩ := finishDeadLetterReplay_commits h
          rw [h.writes]
          cases result with
          | failed => exact .failed h.found h.pending
          | published =>
              obtain ⟨row, hrow, hopen⟩ := h.opened rfl
              have hletters : (view d (.update .deadLetterReplayAttempts attemptID
                  ⟨attempt.deadLetterID, .published, nullIfEmpty errorMessage, now⟩ ::
                  [.update .deadLetterMessages deadLetterID .republished,
                    .insert .operatorActions
                      ⟨newID "act" action, .dlqReplay, deadLetterID, attempt.reason⟩])).letters =
                  { messages := LetterTable.update d.deadLetterMessages deadLetterID .republished
                    attempts := AttemptTable.update d.deadLetterReplayAttempts attemptID
                      ⟨attempt.deadLetterID, .published, nullIfEmpty errorMessage, now⟩
                    replays := (d.operatorActions.insert ⟨newID "act" action, .dlqReplay,
                      deadLetterID, attempt.reason⟩).rows.filter
                        fun r => r.actionType == .dlqReplay } := rfl
              refine cast (congrArg _ (Eq.trans ?_ hletters.symm))
                (LetterStep.republished h.found h.pending hrow hopen)
              rw [Table.rows_insert (h.freshAction rfl), List.filter_append]
              rfl
  | _ => exact letters_untouched h (by simp [Call.tabs]) (by simp [Call.tabs]) (by simp [Call.action])

/-- However an operation ends. -/
theorem allows_letters {c : Call} {o : Op (dialect hashtext).engine Error c.Reply}
    (h : (contract hashtext).Allows c o) :
    LetterStep o.before c (Db.letters (view o.before o.writes)) := by
  rcases h.did with h | ⟨_, hw, _⟩
  · exact letter_step h
  · exact letters_nil hw

/-- What updates keep of a dead letter is kept. -/
theorem LetterStep.stays {c : Call} {l : Letters} (h : LetterStep d c l)
    {p : DeadLetterRow → Prop} (hp : ∀ u r, p r → p (DeadLetterUpdate.apply u r)) {id : String}
    (hrow : ∃ row, d.deadLetterMessages.find? id = some row ∧ p row) :
    ∃ row, l.messages.find? id = some row ∧ p row := by
  obtain ⟨row, hrow, hprow⟩ := hrow
  have hupdate : ∀ id' u, ∃ row,
      (LetterTable.update d.deadLetterMessages id' u).find? id = some row ∧ p row := by
    intro id' u
    rw [LetterTable.find?_update, hrow]
    split
    · exact ⟨u.apply row, rfl, hp u row hprow⟩
    · exact ⟨row, rfl, hprow⟩
  cases h with
  | idle => exact ⟨row, hrow, hprow⟩
  | @recorded record _ _ hf =>
      refine ⟨row, ?_, hprow⟩
      rw [Table.find?_insert, if_neg, hrow]
      rintro rfl
      rw [show d.deadLetterMessages.find? record.row.id = none from hf] at hrow
      cases hrow
  | failedAgain _ _ => exact hupdate _ _
  | sent _ => exact hupdate _ _
  | started _ => exact ⟨row, hrow, hprow⟩
  | failed _ _ => exact ⟨row, hrow, hprow⟩
  | republished _ _ _ _ => exact hupdate _ _

/-- The dead letters an operation leaves: those there were, perhaps updated, and the one it
records. -/
theorem LetterStep.row {c : Call} {l : Letters} (h : LetterStep d c l) {row : DeadLetterRow}
    (hrow : row ∈ l.messages.rows) :
    row ∈ d.deadLetterMessages.rows ∨
      (∃ record, c = .upsertDeadLetter record ∧ record.row.fault? = none ∧ row = record.row) ∨
      ∃ old u, old ∈ d.deadLetterMessages.rows ∧ row = DeadLetterUpdate.apply u old ∧
        (firstViolated old.checks = none → firstViolated row.checks = none) := by
  have hupdate : ∀ {id' u}, row ∈ (LetterTable.update d.deadLetterMessages id' u).rows →
      (∀ old, old ∈ d.deadLetterMessages.rows → old.id = id' →
        firstViolated old.checks = none → firstViolated (u.apply old).checks = none) →
      row ∈ d.deadLetterMessages.rows ∨ ∃ old u, old ∈ d.deadLetterMessages.rows ∧
        row = DeadLetterUpdate.apply u old ∧
        (firstViolated old.checks = none → firstViolated row.checks = none) := by
    intro id' u hrow hc
    rcases Table.mem_modify hrow with ⟨hrow, _⟩ | ⟨old, hold, hid, rfl⟩
    · exact Or.inl hrow
    · exact Or.inr ⟨old, u, hold, rfl, hc old hold hid⟩
  cases h with
  | idle => exact Or.inl hrow
  | recorded hv _ _ =>
      rcases Table.mem_insert hrow with hrow | rfl
      · exact Or.inl hrow
      · exact Or.inr (Or.inl ⟨_, rfl, hv, rfl⟩)
  | @failedAgain record old hold hc =>
      have hchecked : ∀ old', old' ∈ d.deadLetterMessages.rows → old'.id = old.id →
          firstViolated old'.checks = none →
          firstViolated ((excluded record.row).apply old').checks = none := by
        intro old' hold' hid _
        rw [d.deadLetterMessages.eq_of_key_eq hold' (List.mem_of_find?_eq_some hold) hid]
        exact hc
      rcases hupdate hrow hchecked with h | h
      · exact Or.inl h
      · exact Or.inr (Or.inr h)
  | sent _ =>
      rcases hupdate hrow fun old _ _ hc => hc with h | h
      · exact Or.inl h
      · exact Or.inr (Or.inr h)
  | started _ => exact Or.inl hrow
  | failed _ _ => exact Or.inl hrow
  | republished _ _ _ _ =>
      rcases hupdate hrow fun old _ _ hc => hc with h | h
      · exact Or.inl h
      · exact Or.inr (Or.inr h)

/-- What updates keep of an attempt is kept. -/
theorem LetterStep.attempt_stays {c : Call} {l : Letters} (h : LetterStep d c l)
    {p : ReplayRow → Prop} (hp : ∀ u r, p r → p (ReplayUpdate.apply u r)) {id : String}
    (hrow : ∃ r, d.deadLetterReplayAttempts.find? id = some r ∧ p r) :
    ∃ r, l.attempts.find? id = some r ∧ p r := by
  have hupdate : ∀ id' u, ∃ r,
      (AttemptTable.update d.deadLetterReplayAttempts id' u).find? id = some r ∧ p r := by
    intro id' u
    obtain ⟨row, hrow, hprow⟩ := hrow
    rw [AttemptTable.find?_update, hrow]
    split
    · exact ⟨_, rfl, hp u row hprow⟩
    · exact ⟨row, rfl, hprow⟩
  cases h with
  | idle => exact hrow
  | recorded _ _ _ => exact hrow
  | failedAgain _ _ => exact hrow
  | sent _ => exact hrow
  | @started id' reason attempt now rows hstart =>
      obtain ⟨row, hfound, hprow⟩ :=
        @AttemptTable.recover_stays p hp d.deadLetterReplayAttempts id' now rows id hrow
      refine ⟨row, ?_, hprow⟩
      rw [Table.find?_insert, hfound]
      split <;> rfl
  | failed _ _ => exact hupdate _ _
  | republished _ _ _ _ => exact hupdate _ _

/-- An attempt that has come to an end never changes. -/
theorem LetterStep.finished_stays {c : Call} {l : Letters} (h : LetterStep d c l) {id : String}
    {r : ReplayRow} (hrow : d.deadLetterReplayAttempts.find? id = some r)
    (hr : r.result ≠ .pending) : l.attempts.find? id = some r := by
  have hupdate : ∀ {id' attempt} u, d.deadLetterReplayAttempts.find? id' = some attempt →
      attempt.result = .pending →
      (AttemptTable.update d.deadLetterReplayAttempts id' u).find? id = some r := by
    intro id' attempt u hfound hpend
    rw [AttemptTable.find?_update, if_neg, hrow]
    rintro rfl
    rw [hrow] at hfound
    cases hfound
    exact hr hpend
  cases h with
  | idle => exact hrow
  | recorded _ _ _ => exact hrow
  | failedAgain _ _ => exact hrow
  | sent _ => exact hrow
  | @started id' reason attempt now rows hstart =>
      have hnot : id ∉ rows.map ReplayRow.id := by
        intro hmem
        obtain ⟨r', hr', rfl⟩ := List.mem_map.mp hmem
        obtain ⟨hfound, hpend⟩ := Option.filter_eq_some_iff.mp (hstart.recovered r' hr').1
        rw [hrow] at hfound
        cases hfound
        simp only [Bool.and_eq_true, beq_iff_eq] at hpend
        exact hr hpend.2
      rw [Table.find?_insert, AttemptTable.find?_recover hnot, hrow]
      split <;> rfl
  | failed hfound hpend => exact hupdate _ hfound hpend
  | republished hfound hpend _ _ => exact hupdate _ hfound hpend

end

/-! ## Messages that can be recorded -/

namespace DeadLetterRecorder

/-- Messages whose record the table takes. -/
structure Storable (m : Message) : Prop where
  key : m.key ≠ []
  value : m.value ≠ []
  eventID : headerValue m.headers "event_id" = "" ∨
    safeToken (headerValue m.headers "event_id") = true
  headers : ∀ h ∈ m.headers, jsonText h.1 = true

theorem length_sanitize (cause : Error) :
    (sanitize (some cause)).toList.length = min 512 (trimSpace cause.string).toList.length := by
  simp [sanitize]

theorem isSafeChar_of_isHexDigit {c : Char} (h : isHexDigit c = true) : isSafeChar c = true := by
  simp only [isHexDigit, Bool.or_eq_true, Bool.and_eq_true, decide_eq_true_eq] at h
  simp only [isSafeChar, Bool.or_eq_true, Bool.and_eq_true, decide_eq_true_eq]
  rcases h with h | ⟨hlo, hhi⟩
  · exact Or.inl (Or.inl (Or.inl (Or.inl (Or.inr h))))
  · exact Or.inl (Or.inl (Or.inl (Or.inl (Or.inl (Or.inr ⟨hlo, hhi.trans (by decide)⟩)))))

/-- The id of a record is a token. -/
theorem safeToken_deterministicID (P : Platform) (consumerName : String) (m : Message) :
    safeToken (deterministicID P consumerName m) = true := by
  obtain ⟨sum, hid⟩ : ∃ sum : Digest, (deterministicID P consumerName m).toList =
      "dlq_".toList ++ sum.text.toList.take 32 := by
    simp only [deterministicID, firstChars, String.toList_append, String.toList_ofList]
    exact ⟨_, rfl⟩
  have hhex : ∀ c ∈ sum.text.toList.take 32, isSafeChar c = true := fun c hc =>
    isSafeChar_of_isHexDigit (List.all_eq_true.mp sum.digits c (List.mem_of_mem_take hc))
  simp only [safeToken, hid, List.length_append, List.length_take, sum.length_eq, List.all_append,
    List.all_eq_true.mpr hhex]
  decide

/-- What the columns refuse. -/
theorem fault?_eq_none {P : Platform} {consumerName : String} {m : Message} {cause : Error}
    {now : Time} (hname : safeToken consumerName = true) (htopic : topicName m.topic = true)
    (hpartition : 0 ≤ m.partition) (hoffset : 0 ≤ m.offset)
    (hcause : trimSpace cause.string ≠ "") :
    (recordFromMessage P consumerName m (some cause) now).row.fault? = none ↔ Storable m := by
  generalize hrow : (recordFromMessage P consumerName m (some cause) now).row = row
  have hheaders : (row.headers.any fun h => !jsonText h.key) = true ↔
      ¬ ∀ h ∈ m.headers, jsonText h.1 = true := by
    simp [← hrow, DeadLetter.row, recordFromMessage, encodeHeaders, encodeHeader]
  have hnull : row.null? = none ↔ m.key ≠ [] ∧ m.value ≠ [] := by
    by_cases hk : m.key = [] <;> by_cases hv : m.value = [] <;>
      simp [← hrow, DeadLetter.row, recordFromMessage, DeadLetterRow.null?, nullIfNil, hk, hv]
  have hmessage : charLength 1 512 row.errorMessage = true := by
    have hpos : 0 < (trimSpace cause.string).toList.length :=
      List.length_pos_iff.mpr fun hnil => hcause (String.toList_eq_nil_iff.mp hnil)
    have hlen := length_sanitize cause
    simp only [← hrow, DeadLetter.row, recordFromMessage, charLength, Bool.and_eq_true,
      decide_eq_true_eq]
    omega
  have hid : safeToken row.id = true := by
    rw [← hrow]
    exact safeToken_deterministicID P consumerName m
  have hchecks : firstViolated row.checks = none ↔
      headerValue m.headers "event_id" = "" ∨
        safeToken (headerValue m.headers "event_id") = true := by
    have hevent : row.eventID.all safeToken = true ↔ headerValue m.headers "event_id" = "" ∨
        safeToken (headerValue m.headers "event_id") = true := by
      by_cases he : headerValue m.headers "event_id" = ""
      · simp [← hrow, DeadLetter.row, recordFromMessage, nullIfEmpty, he]
      · simp [← hrow, DeadLetter.row, recordFromMessage, nullIfEmpty, he]
    rw [firstViolated_eq_none, ← hevent]
    simp only [DeadLetterRow.checks, List.forall_mem_cons, hmessage, hid]
    simp [← hrow, DeadLetter.row, recordFromMessage, hname, htopic, hpartition, hoffset]
  unfold DeadLetterRow.fault?
  by_cases hh : ∀ h ∈ m.headers, jsonText h.1 = true
  · rw [if_neg fun h => hheaders.mp h hh]
    cases hn : row.null? with
    | some c =>
        have hkv := hnull.not.mp (by simp [hn])
        exact ⟨(fun h => by cases h), fun h => absurd ⟨h.key, h.value⟩ hkv⟩
    | none =>
        obtain ⟨hk, hv⟩ := hnull.mp hn
        rw [Option.map_eq_none_iff, hchecks]
        exact ⟨fun he => ⟨hk, hv, he, hh⟩, fun h => h.eventID⟩
  · rw [if_pos (hheaders.mpr hh)]
    exact ⟨(fun h => by cases h), fun h => absurd h.headers hh⟩

/-- The operations of `Move` so far, and how it goes on. -/
inductive MoveTrace (P : Platform) (consumerName : String) (m : Message) (cause : Option Error)
    (draws : Draws) (i : Nat) : List (LogEntry P) → Service P (Except Error Unit) → Prop
  | begun : MoveTrace P consumerName m cause draws i [] (move P consumerName m cause draws)
  /-- the record is not taken -/
  | refused {up e e'} : up.answer = .error e →
      MoveTrace P consumerName m cause draws i
        [⟨i, .upsertDeadLetter (recordFromMessage P consumerName m cause draws.now), up⟩]
        (.ret (.error e'))
  /-- a copy has been published before -/
  | settled {up stored} : up.answer = .ok stored → stored.kafkaPublishedAt.isSome = true →
      MoveTrace P consumerName m cause draws i
        [⟨i, .upsertDeadLetter (recordFromMessage P consumerName m cause draws.now), up⟩]
        (.ret (.ok ()))
  /-- the broker does not take the copy -/
  | unsent {up stored e e'} : up.answer = .ok stored → stored.kafkaPublishedAt = none →
      draws.publish (deadLetterMessage (recordFromMessage P consumerName m cause draws.now) m) =
        some e →
      MoveTrace P consumerName m cause draws i
        [⟨i, .upsertDeadLetter (recordFromMessage P consumerName m cause draws.now), up⟩]
        (.ret (.error e'))
  /-- it does, and the mark is to come -/
  | sent {up stored q} : up.answer = .ok stored → stored.kafkaPublishedAt = none →
      draws.publish (deadLetterMessage (recordFromMessage P consumerName m cause draws.now) m) =
        none → (∀ r, q ≠ .ret r) →
      MoveTrace P consumerName m cause draws i
        [⟨i, .upsertDeadLetter (recordFromMessage P consumerName m cause draws.now), up⟩] q
  /-- the mark has been made -/
  | marked {up stored mark r} : up.answer = .ok stored → stored.kafkaPublishedAt = none →
      draws.publish (deadLetterMessage (recordFromMessage P consumerName m cause draws.now) m) =
        none → (mark.answer = .ok () ↔ r = .ok ()) →
      MoveTrace P consumerName m cause draws i
        [⟨i, .upsertDeadLetter (recordFromMessage P consumerName m cause draws.now), up⟩,
         ⟨i, .markDeadLetterPublished (recordFromMessage P consumerName m cause draws.now).id
          draws.publishedAt, mark⟩] (.ret r)

theorem move_trace {P : Platform} {consumerName : String} {m : Message} {cause : Option Error}
    {draws : Draws} {i : Nat} {g : List (LogEntry P)} {q : Service P (Except Error Unit)}
    (h : (move P consumerName m cause draws).Made i g q) :
    MoveTrace P consumerName m cause draws i g q := by
  rcases made_bind h with ⟨rfl, rfl⟩ | ⟨up, g', rfl, hk⟩
  · exact .begun
  cases hup : up.answer with
  | error e =>
      rw [hup] at hk
      obtain ⟨rfl, rfl⟩ := Svc.made_ret.mp hk
      exact .refused hup
  | ok stored =>
      rw [hup] at hk
      cases hdone : stored.kafkaPublishedAt with
      | some t =>
          simp only [hdone, Option.isSome_some, if_true] at hk
          obtain ⟨rfl, rfl⟩ := Svc.made_ret.mp hk
          exact .settled hup (by rw [hdone]; rfl)
      | none =>
          simp only [hdone, Option.isSome_none, Bool.false_eq_true, if_false] at hk
          cases hpub : draws.publish
              (deadLetterMessage (recordFromMessage P consumerName m cause draws.now) m) with
          | some e =>
              rw [hpub] at hk
              obtain ⟨rfl, rfl⟩ := Svc.made_ret.mp hk
              exact .unsent hup hdone hpub
          | none =>
              rw [hpub] at hk
              rcases made_bind hk with ⟨rfl, rfl⟩ | ⟨mark, g'', rfl, hm⟩
              · exact .sent hup hdone hpub nofun
              · cases hmark : mark.answer with
                | error e =>
                    rw [hmark] at hm
                    obtain ⟨rfl, rfl⟩ := Svc.made_ret.mp hm
                    exact .marked hup hdone hpub (by rw [hmark]; exact ⟨nofun, nofun⟩)
                | ok u =>
                    rw [hmark] at hm
                    obtain ⟨rfl, rfl⟩ := Svc.made_ret.mp hm
                    exact .marked hup hdone hpub ⟨fun _ => rfl, fun _ => hmark⟩

/-- The operations of `Move`, once it has returned, with the broker at hand. -/
theorem move_made {P : Platform} {consumerName : String} {m : Message} {cause : Option Error}
    {draws : Draws} {i : Nat} {g : List (LogEntry P)} {r : Except Error Unit}
    (h : (move P consumerName m cause draws).Made i g (.ret r))
    (hpublish : ∀ m', draws.publish m' = none) :
    ∃ up g', g = ⟨i, .upsertDeadLetter (recordFromMessage P consumerName m cause draws.now), up⟩ ::
        g' ∧
      ((∃ e, up.answer = .error e ∧ r ≠ .ok ()) ∨ ∃ stored, up.answer = .ok stored ∧
        (r = .ok () ∨ ∃ mark, g' = [⟨i, .markDeadLetterPublished
          (recordFromMessage P consumerName m cause draws.now).id draws.publishedAt, mark⟩] ∧
          (mark.answer = .ok () → r = .ok ()))) := by
  generalize hq : (.ret r : Service P (Except Error Unit)) = q at h
  cases move_trace h with
  | begun => cases hq
  | refused hup =>
      cases hq
      exact ⟨_, _, rfl, Or.inl ⟨_, hup, nofun⟩⟩
  | settled hup _ =>
      cases hq
      exact ⟨_, _, rfl, Or.inr ⟨_, hup, Or.inl rfl⟩⟩
  | unsent _ _ hpub =>
      rw [hpublish] at hpub
      cases hpub
  | sent _ _ _ hnot => exact absurd hq.symm (hnot r)
  | marked hup _ _ hmark =>
      cases hq
      exact ⟨_, _, rfl, Or.inr ⟨_, hup, Or.inr ⟨_, rfl, hmark.mp⟩⟩⟩

end DeadLetterRecorder

/-! ## What `Move` leaves behind -/

open DeadLetterRecorder

/-- Where a dead letter came from. -/
def DeadLetterRow.origin (r : DeadLetterRow) : Message :=
  ⟨r.sourceTopic, r.sourcePartition, r.sourceOffset, [], [], []⟩

/-- The record is about the message of this dead letter. -/
structure DeadLetter.About (record : DeadLetter) (r : DeadLetterRow) : Prop where
  id : record.id = r.id
  consumerName : record.consumerName = r.consumerName
  sourceTopic : record.sourceTopic = r.sourceTopic
  sourcePartition : record.sourcePartition = r.sourcePartition
  sourceOffset : record.sourceOffset = r.sourceOffset

/-- Dead letters as `Move` records them. -/
structure DeadLetterRow.Genuine (P : Platform) (r : DeadLetterRow) : Prop where
  checked : firstViolated r.checks = none
  id : r.id = deterministicID P r.consumerName r.origin
  headers : ∃ headers, r.headers = encodeHeaders headers

/-- Every dead letter has been recorded by `Move`. -/
def MovedIn (P : Platform) (d : Db) (g : List (LogEntry P)) : Prop :=
  ∀ row ∈ d.deadLetterMessages.rows, row.Genuine P ∧
    ∃ e ∈ g, ∃ record, e.call = .upsertDeadLetter record ∧ record.About row

theorem checks_of_fault? {row : DeadLetterRow} (h : row.fault? = none) :
    firstViolated row.checks = none := by
  unfold DeadLetterRow.fault? at h
  split at h
  · cases h
  · split at h
    · cases h
    · exact Option.map_eq_none_iff.mp h

section

variable {P : Platform}

theorem recordFromMessage_of_calls {record : DeadLetter} {r : Request}
    (h : (r.program P).Calls (.upsertDeadLetter record)) (hr : services r = true) :
    ∃ consumerName m cause now, record = recordFromMessage P consumerName m cause now := by
  cases Request.makes h with
  | minor h => cases h
  | record => exact ⟨_, _, _, _, rfl⟩
  | store => cases hr

/-- Updates keep what `Move` has recorded, and what it is about. -/
theorem DeadLetterRow.Genuine.apply {row : DeadLetterRow} (h : row.Genuine P)
    {u : DeadLetterUpdate} (hc : firstViolated (u.apply row).checks = none) :
    (u.apply row).Genuine P := by
  cases u <;> exact ⟨hc, h.id, h.headers⟩

theorem DeadLetter.About.apply {record : DeadLetter} {row : DeadLetterRow} (h : record.About row)
    (u : DeadLetterUpdate) : record.About (u.apply row) := by
  cases u <;> exact ⟨h.id, h.consumerName, h.sourceTopic, h.sourcePartition, h.sourceOffset⟩

theorem safe_movedIn (P : Platform) :
    Safe (system P (.only services)) (contract P.hashtext) (fun d _ g => MovedIn P d g)
      fun r _ => services r = true where
  arrive hI hw := ⟨hI, Policy.accept_only (w := ()) hw⟩
  env hI hw := hI
  op := by
    intro d w g r c o i hI hQ hc ho hb row hrow
    subst hb
    rcases (allows_letters ho).row hrow with hrow | ⟨record, rfl, hv, rfl⟩ | ⟨old, u, hold, rfl, hch⟩
    · obtain ⟨hgen, e, he, hrec⟩ := hI row hrow
      exact ⟨hgen, e, List.mem_append_left _ he, hrec⟩
    · obtain ⟨consumerName, m, cause, now, rfl⟩ := recordFromMessage_of_calls hc hQ
      refine ⟨⟨checks_of_fault? hv, rfl, _, rfl⟩, _, List.mem_append_right _ (List.mem_singleton_self _),
        _, rfl, rfl, rfl, rfl, rfl, rfl⟩
    · obtain ⟨hgen, e, he, record, hcall, habout⟩ := hI old hold
      exact ⟨hgen.apply (hch hgen.checked), e, List.mem_append_left _ he, record, hcall,
        habout.apply u⟩
  stable _ _ _ _ _ hQ := hQ

theorem movedIn_reach {s : AState (system P (.only services))}
    (h : AReach (contract P.hashtext) ⟨Db.empty, (), [], []⟩ s) : MovedIn P s.db s.log :=
  ((safe_movedIn P).reach (Kept.init fun _ hrow => absurd hrow List.not_mem_nil) h).inv

/-- The old record of a message has the id of the new one. -/
theorem DeadLetterRow.Genuine.id_eq {consumerName : String} {m : Message} {cause : Option Error}
    {now : Time} {old : DeadLetterRow} (h : old.Genuine P)
    (hsame : sameSource (recordFromMessage P consumerName m cause now).row old = true) :
    old.id = (recordFromMessage P consumerName m cause now).id := by
  simp only [sameSource, Bool.and_eq_true, beq_iff_eq] at hsame
  obtain ⟨⟨⟨hname, htopic⟩, hpartition⟩, hoffset⟩ := hsame
  rw [h.id, ← hname]
  show deterministicID P _ _ = deterministicID P consumerName m
  rw [deterministicID, deterministicID, DeadLetterRow.origin, ← htopic, ← hpartition, ← hoffset]
  rfl

/-- A failure more does not make a dead letter invalid. -/
theorem checks_failedAgain {row old : DeadLetterRow} (hrow : firstViolated row.checks = none)
    (hold : firstViolated old.checks = none) :
    firstViolated ((excluded row).apply old).checks = none := by
  rw [firstViolated_eq_none] at hrow hold ⊢
  simp only [DeadLetterRow.checks, List.forall_mem_cons] at hrow hold ⊢
  exact ⟨hold.1, hrow.2.1, hold.2.2⟩

/-- A record that fits the table is taken, unless another message has its id. -/
theorem upsert_answered {record : DeadLetter} (hv : record.row.fault? = none)
    {o : Op (dialect P.hashtext).engine Error DeadLetter}
    (ho : (contract P.hashtext).Allows (.upsertDeadLetter record) o) (hout : o.outage = false)
    (hgen : ∀ row ∈ (Db.deadLetterMessages o.before).rows, row.Genuine P)
    (hfree : ∀ row ∈ (Db.deadLetterMessages o.before).rows, row.id = record.id →
      sameSource record.row row = true) :
    ∃ stored, o.answer = .ok stored := by
  rw [ho.answered hout]
  rcases ho.did with hspec | ⟨_, _, h⟩
  · rcases single_runs (m := methodOf (.upsertDeadLetter record)) rfl hspec with
      ⟨f, x, hx, _, _⟩ | ⟨f, r, hr, hres, _⟩
    · rcases planUpsertDeadLetter_error hx with hf | ⟨old, c, hold, hc⟩ | ⟨hsource, hid⟩
      · rw [hv] at hf
        cases hf
      · rw [checks_failedAgain (checks_of_fault? hv)
          (hgen old (List.mem_of_find?_eq_some hold)).checked] at hc
        cases hc
      · obtain ⟨row, hrow⟩ := Option.isSome_iff_exists.mp hid
        have hmem : row ∈ (Db.deadLetterMessages o.before).rows := Table.mem_of_find? hrow
        have hkey : row.id = record.id := Table.key_of_find? hrow
        have hnot := List.find?_eq_none.mp hsource row hmem
        exact absurd (hfree row hmem hkey) hnot
    · have hscan : ∃ headers, r.reply.headers = encodeHeaders headers := by
        rcases planUpsertDeadLetter_ok hr with h | ⟨old, h⟩
        · rw [h.reply]
          exact ⟨_, rfl⟩
        · rw [h.reply]
          exact (hgen old (List.mem_of_find?_eq_some h.found)).headers
      obtain ⟨headers, hheaders⟩ := hscan
      refine ⟨r.reply.record headers, hres.trans ?_⟩
      rw [scanDeadLetter, hheaders, decodeHeaders_encodeHeaders]
      rfl
  · rw [hout] at h
    cases h

theorem scanDeadLetter_published {row : DeadLetterRow} {record : DeadLetter}
    (h : scanDeadLetter row = .ok record) : record.kafkaPublishedAt = row.kafkaPublishedAt := by
  unfold scanDeadLetter at h
  split at h
  · cases h
  · cases h
    rfl

/-- The record is there afterwards, and as far as published as it was. -/
theorem upsert_stored {consumerName : String} {m : Message} {cause : Option Error} {now : Time}
    {record : DeadLetter} (hrecord : record = recordFromMessage P consumerName m cause now)
    {o : Op (dialect P.hashtext).engine Error DeadLetter}
    (ho : (contract P.hashtext).Allows (.upsertDeadLetter record) o) {stored : DeadLetter}
    (hans : o.answer = .ok stored)
    (hgen : ∀ row ∈ (Db.deadLetterMessages o.before).rows, row.Genuine P) :
    (∃ row, (view o.before o.writes).deadLetterMessages.find? record.id = some row ∧
      sameSource record.row row = true ∧ row.kafkaPublishedAt = stored.kafkaPublishedAt) ∧
    ∀ old, (Db.deadLetterMessages o.before).find? record.id = some old →
      old.kafkaPublishedAt = stored.kafkaPublishedAt := by
  rcases single_runs (m := methodOf (.upsertDeadLetter record)) rfl (ho.spec (ho.told hans)) with
    ⟨_, _, _, he, _⟩ | ⟨f, r, hr, hres, hw⟩
  · cases he
  have hpub : stored.kafkaPublishedAt = r.reply.kafkaPublishedAt := by
    change .ok stored = wrapError "upsert dead letter" (scanDeadLetter r.reply) at hres
    cases hscan : scanDeadLetter r.reply with
    | error e =>
        rw [hscan] at hres
        cases hres
    | ok stored' =>
        rw [hscan] at hres
        cases hres
        exact scanDeadLetter_published hscan
  rw [hw, hpub]
  rcases planUpsertDeadLetter_ok hr with h | ⟨old, h⟩
  · rw [h.writes, h.reply]
    refine ⟨⟨record.row, ?_, by simp [sameSource], rfl⟩, fun old hold => ?_⟩
    · show ((Db.deadLetterMessages o.before).insert record.row).find? record.row.id = _
      rw [Table.find?_insert, if_pos rfl, h.freshID]
      rfl
    · exact absurd (h.freshID.symm.trans hold) nofun
  · have hold := List.mem_of_find?_eq_some h.found
    have hsame := List.find?_some h.found
    have hid : old.id = record.id := by
      rw [hrecord]
      exact (hgen old hold).id_eq (hrecord ▸ hsame)
    have hfind : (Db.deadLetterMessages o.before).find? record.id = some old := by
      rw [← hid]
      exact Table.find?_of_mem _ hold
    rw [h.writes, h.reply]
    refine ⟨⟨(excluded record.row).apply old, ?_, hsame, rfl⟩, fun old' hold' => ?_⟩
    · show (LetterTable.update (Db.deadLetterMessages o.before) old.id
        (excluded record.row)).find? record.id = _
      rw [LetterTable.find?_update, if_pos hid.symm, hfind]
      rfl
    · rw [hfind] at hold'
      cases hold'
      rfl

/-- A dead letter that is there can be marked. -/
theorem mark_answered {id : String} {publishedAt : Time}
    {o : Op (dialect P.hashtext).engine Error Unit}
    (ho : (contract P.hashtext).Allows (.markDeadLetterPublished id publishedAt) o)
    (hout : o.outage = false) {row : DeadLetterRow}
    (hrow : (Db.deadLetterMessages o.before).find? id = some row) (hgen : row.Genuine P) :
    o.answer = .ok () := by
  have hplan : ∀ f, ((Stmt.markDeadLetterPublished id publishedAt).plan f o.before :
      DbPlan P.hashtext _).result =
      .ok { reply := some ((DeadLetterUpdate.published publishedAt).apply row)
            writes := [.update .deadLetterMessages id (.published publishedAt)]
            locks := [.unique (.row .deadLetterMessages id)] } := fun f =>
    Plan.updateRow_ok.mpr (Or.inr ⟨row, hrow, rfl, hgen.checked, rfl⟩)
  rw [ho.answered hout]
  rcases ho.did with hspec | ⟨_, _, h⟩
  · rcases single_runs (m := methodOf (.markDeadLetterPublished id publishedAt)) rfl hspec with
      ⟨f, x, hx, _, _⟩ | ⟨f, r, hr, hres, _⟩
    · rw [hplan f] at hx
      cases hx
    · rw [hplan f] at hr
      cases hr
      exact hres
  · rw [hout] at h
    cases h

end

/-- The records of a run tell messages apart from this one by their ids. -/
def DistinctID (P : Platform) (consumerName : String) (m : Message) (g : List (LogEntry P)) :
    Prop :=
  ∀ e ∈ g, ∀ record, e.call = .upsertDeadLetter record →
    record.id = deterministicID P consumerName m →
    record.consumerName = consumerName ∧ record.sourceTopic = m.topic ∧
      record.sourcePartition = m.partition ∧ record.sourceOffset = m.offset

/-- Which messages can be recorded: the constraints of the table are met, and `Move` returns
nil, for those with a key, a value, no `event_id` but a token, and no NUL in a header key. -/
theorem move_ok_iff (P : Platform) (consumerName : String) (m : Message) (cause : Error)
    (draws : Draws) (hname : safeToken consumerName = true) (htopic : topicName m.topic = true)
    (hpartition : 0 ≤ m.partition) (hoffset : 0 ≤ m.offset)
    (hcause : trimSpace cause.string ≠ "") :
    ((recordFromMessage P consumerName m (some cause) draws.now).row.fault? = none ↔ Storable m) ∧
      ∀ (es : List (Transact.Event (system P (.only services))))
        (s : SystemState P (.only services)), (State.init Db.empty ()).steps es = some s →
        DistinctID P consumerName m s.log →
        ∀ i start r, s.tasks[i]? = some ⟨.moveDeadLetter consumerName m (some cause) draws, start,
          .idle (.ret r)⟩ →
        (∀ e ∈ s.log, e.task = i → e.op.outage = false) → (∀ m', draws.publish m' = none) →
        (r = .ok () ↔ Storable m) := by
  have hfault := @fault?_eq_none P consumerName m cause draws.now hname htopic hpartition hoffset
    hcause
  refine ⟨hfault, fun es s h hdistinct i start r ht hout hpublish => ?_⟩
  have hreach := State.reach_abs (store_sound P.hashtext) h
  have htrace := traced_reach hreach
  obtain ⟨q, hmade, hq⟩ := htrace.made i _ (State.abs_tasks ht)
  obtain rfl : (.ret r : Service P _) = q := hq _ rfl
  have hmade : (move P consumerName m (some cause) draws).Made i (own i s.log) (.ret r) := hmade
  obtain ⟨up, g', hown, hanswer⟩ := move_made hmade hpublish
  obtain ⟨g₁, g₂, hlog, hown₂⟩ := own_eq_cons hown
  generalize hrecord : recordFromMessage P consumerName m (some cause) draws.now = record at *
  have hmem : ⟨i, .upsertDeadLetter record, up⟩ ∈ s.log := by
    rw [hlog]
    exact List.mem_append_right _ List.mem_cons_self
  have hup := htrace.allowed _ hmem
  rw [← hfault]
  constructor
  · intro hr
    rcases hanswer with ⟨e, _, hne⟩ | ⟨stored, hans, _⟩
    · exact absurd hr hne
    · rcases single_runs (m := methodOf (.upsertDeadLetter record)) rfl
        (hup.spec (hup.told hans)) with ⟨_, _, _, he, _⟩ | ⟨f, x, hx, _, _⟩
      · cases he
      · rcases planUpsertDeadLetter_ok hx with h | ⟨old, h⟩ <;> exact h.valid
  · intro hv
    -- The dead letters of the moment were recorded by earlier operations of the log.
    obtain ⟨s₁, h₁, hg₁, hdb₁, _⟩ := hreach.before rfl hlog
    have hmoved := movedIn_reach h₁
    rw [hdb₁, hg₁] at hmoved
    have hfree : ∀ row ∈ (Db.deadLetterMessages up.before).rows, row.id = record.id →
        sameSource record.row row = true := by
      intro row hrow hid
      obtain ⟨_, e, he, record', hcall, habout⟩ := hmoved row hrow
      have he : e ∈ s.log := by
        rw [hlog]
        exact List.mem_append_left _ he
      have hid' : record'.id = deterministicID P consumerName m := by
        rw [habout.id, hid, ← hrecord]
        rfl
      obtain ⟨hn, ht, hp, ho⟩ := hdistinct e he record' hcall hid'
      have hn := habout.consumerName.symm.trans hn
      have ht := habout.sourceTopic.symm.trans ht
      have hp := habout.sourcePartition.symm.trans hp
      have ho := habout.sourceOffset.symm.trans ho
      simp [sameSource, ← hrecord, DeadLetter.row, recordFromMessage, hn, ht, hp, ho]
    have hgen : ∀ row ∈ (Db.deadLetterMessages up.before).rows, row.Genuine P :=
      fun row hrow => (hmoved row hrow).1
    obtain ⟨stored, hans⟩ := upsert_answered hv hup (hout _ hmem rfl) hgen hfree
    rcases hanswer with ⟨e, he, _⟩ | ⟨stored', _, hr | ⟨mark, rfl, hr⟩⟩
    · rw [hans] at he
      cases he
    · exact hr
    · have hmark₂ : ⟨i, .markDeadLetterPublished record.id draws.publishedAt, mark⟩ ∈ g₂ := by
        refine mem_of_own (i := i) ?_
        rw [hown₂]
        exact List.mem_singleton_self _
      have hmark : ⟨i, .markDeadLetterPublished record.id draws.publishedAt, mark⟩ ∈ s.log := by
        rw [hlog]
        exact List.mem_append_right _ (List.mem_cons_of_mem _ hmark₂)
      obtain ⟨⟨row₁, hrow₁, _⟩, _⟩ := upsert_stored hrecord.symm hup hans hgen
      have hfound : ∃ row, (view up.before up.writes).deadLetterMessages.find? record.id =
        some row := ⟨row₁, hrow₁⟩
      obtain ⟨row, hrow⟩ : ∃ row, (Db.deadLetterMessages mark.before).find? record.id = some row := by
        refine between_reach (Q := fun d : Db => ∃ row, d.deadLetterMessages.find? record.id = some row)
          (fun hrow ho => ?_) hreach hlog hmark₂ hfound
        obtain ⟨row, hrow⟩ := hrow
        obtain ⟨row', hrow', _⟩ := (allows_letters ho).stays (p := fun _ => True)
          (fun _ _ _ => trivial) ⟨row, hrow, trivial⟩
        exact ⟨row', hrow'⟩
      obtain ⟨g₃, g₄, hlog'⟩ := List.append_of_mem hmark
      obtain ⟨s₂, h₂, _, hdb₂, _⟩ := hreach.before rfl hlog'
      have hgen₂ := (movedIn_reach h₂ row (by rw [hdb₂]; exact Table.mem_of_find? hrow)).1
      exact hr (mark_answered (htrace.allowed _ hmark) (hout _ hmark rfl) hrow hgen₂)

/-- Whether a call of `Move` has returned nil. -/
def movedOk {P : Platform} {policy : Policy} : Task (system P policy) → Option Bool
  | ⟨.moveDeadLetter _ _ _ _, _, .idle (.ret r)⟩ => some r.isOk
  | _ => none

/-- A message without a key. -/
def keyless : Message := ⟨"transactions.created", 0, 7, [], utf8 "x", []⟩

def keylessRun : List (Transact.Event (system .plain (.only services))) :=
  [.arrive (.moveDeadLetter "risk-service" keyless (some (.text "event_id header is required"))
    ⟨0, fun _ => none, 1⟩), .run 0]

/-- It cannot be recorded, with nothing else going on. -/
theorem move_keyless :
    (recordFromMessage .plain "risk-service" keyless
      (some (.text "event_id header is required")) 0).row.fault? = some (.notNull "message_key") ∧
    ∃ s : SystemState .plain (.only services), (State.init Db.empty ()).steps keylessRun = some s ∧
      s.tasks[0]?.bind movedOk = some false := by
  have h : ((State.init Db.empty () : SystemState .plain (.only services)).steps keylessRun).map
      (fun s => s.tasks[0]?.bind movedOk) = some (some false) := by
    decide +kernel
  obtain ⟨s, hs, hres⟩ := Option.map_eq_some_iff.mp h
  exact ⟨rfl, s, hs, hres⟩

/-- A message with everything. -/
def keyed : Message := ⟨"transactions.created", 0, 7, utf8 "alice", utf8 "x", [("event_id", utf8 "evt_1")]⟩

def keyedRun : List (Transact.Event (system .plain (.only services))) :=
  [.arrive (.moveDeadLetter "risk-service" keyed (some (.text "decode failed"))
    ⟨0, fun _ => none, 1⟩), .run 0, .run 0]

theorem of_movedOk {P : Platform} {policy : Policy} {t : Task (system P policy)} {b : Bool}
    (h : movedOk t = some b) : ∃ consumerName m cause draws start r,
      t = ⟨.moveDeadLetter consumerName m cause draws, start, .idle (.ret r)⟩ ∧ r.isOk = b := by
  unfold movedOk at h
  split at h
  · cases h
    exact ⟨_, _, _, _, _, _, rfl, rfl⟩
  · cases h

/-- The operation records no other message. -/
def Call.recordsOnly (consumerName : String) (m : Message) : Call → Bool
  | .upsertDeadLetter r => r.consumerName == consumerName && r.sourceTopic == m.topic &&
      r.sourcePartition == m.partition && r.sourceOffset == m.offset
  | _ => true

theorem move_ok_iff_keyed : ∃ (s : SystemState .plain (.only services)) (r : Except Error Unit),
    (State.init Db.empty ()).steps keyedRun = some s ∧ r.isOk = true ∧
      (r = .ok () ↔ Storable keyed) := by
  have h : ((State.init Db.empty () : SystemState .plain (.only services)).steps keyedRun).map
      (fun s => (s.tasks[0]?.bind movedOk, s.log.map fun e => e.op.outage,
        s.log.all fun e => e.call.recordsOnly "risk-service" keyed)) =
      some (some true, [false, false], true) := by
    decide +kernel
  obtain ⟨s, hs, hres⟩ := Option.map_eq_some_iff.mp h
  simp only [Prod.mk.injEq] at hres
  obtain ⟨hok, houtages, hsources⟩ := hres
  obtain ⟨t, ht, hok⟩ := Option.bind_eq_some_iff.mp hok
  obtain ⟨consumerName, m, cause, draws, start, r, rfl, hr⟩ := of_movedOk hok
  obtain ⟨t', ht', hreq⟩ := State.task_of_arrived hs (i := 0) rfl
  rw [ht] at ht'
  cases ht'
  cases hreq
  have hdistinct : DistinctID .plain "risk-service" keyed s.log := by
    intro e he record hcall _
    have honly := List.all_eq_true.mp hsources e he
    rw [hcall] at honly
    simpa [Call.recordsOnly, and_assoc] using honly
  have hout : ∀ e ∈ s.log, e.op.outage = false := by
    intro e he
    have hmem : e.op.outage ∈ [false, false] := houtages ▸ List.mem_map_of_mem he
    simpa using hmem
  have hiff := (move_ok_iff .plain "risk-service" keyed (.text "decode failed")
    ⟨0, fun _ => none, 1⟩ (by decide +kernel) (by decide +kernel) (by decide) (by decide) (by decide +kernel)).2
    keyedRun s hs hdistinct 0 start r ht (fun e he _ => hout e he) fun _ => rfl
  exact ⟨s, r, hs, hr, hiff⟩

/-! ## The event of a dead letter -/

/-- The record names the event the consumer goes by, unless that is the key of the message. -/
theorem record_eventID_iff (P : Platform) (consumerName : String) (m : Message)
    (cause : Option Error) (now : Time) (id : String) (h : KafkaBus.eventID m = .ok id) :
    ((recordFromMessage P consumerName m cause now).eventID = id ↔
      ∃ value, ("event_id", value) ∈ m.headers) ∧
    ((recordFromMessage P consumerName m cause now).row.eventID = some id ↔
      ∃ value, ("event_id", value) ∈ m.headers) := by
  change (headerValue m.headers "event_id" = id ↔ _) ∧
    (nullIfEmpty (headerValue m.headers "event_id") = some id ↔ _)
  unfold KafkaBus.eventID at h
  unfold headerValue
  cases hfind : m.headers.find? fun h => h.1 == "event_id" with
  | some header =>
      rw [hfind] at h
      have hmem : ∃ value, ("event_id", value) ∈ m.headers := by
        have hkey : header.1 = "event_id" := by simpa using List.find?_some hfind
        refine ⟨header.2, ?_⟩
        rw [← hkey]
        exact List.mem_of_find?_eq_some hfind
      simp only at h
      split at h
      · cases h
      · next hvalue =>
          cases h
          have hne : goString header.2 ≠ "" :=
            goString_ne_empty fun hnil => hvalue (by rw [hnil]; rfl)
          simp [hmem, nullIfEmpty, hne]
  | none =>
      rw [hfind] at h
      have hmem : ¬ ∃ value, ("event_id", value) ∈ m.headers := by
        rintro ⟨value, hvalue⟩
        exact List.find?_eq_none.mp hfind _ hvalue (beq_self_eq_true "event_id")
      simp only at h
      split at h
      · next hkey =>
          cases h
          have hne : goString m.key ≠ "" := by
            refine goString_ne_empty fun hnil => ?_
            rw [hnil] at hkey
            revert hkey
            decide +kernel
          simp [hmem, nullIfEmpty, hne.symm]
      · cases h

/-- A message whose key is the event. -/
def legacy : Message := ⟨"transactions.created", 0, 8, utf8 "evt_1", utf8 "x", []⟩

theorem record_eventID_legacy : KafkaBus.eventID legacy = .ok "evt_1" ∧
    (recordFromMessage .plain "risk-service" legacy (some (.text "decode failed")) 0).eventID = "" := by
  decide +kernel

theorem record_eventID_keyed :
    (recordFromMessage .plain "risk-service" keyed (some (.text "decode failed")) 0).eventID =
      "evt_1" :=
  (record_eventID_iff .plain "risk-service" keyed (some (.text "decode failed")) 0 "evt_1"
    (by decide +kernel)).1.mpr ⟨utf8 "evt_1", List.mem_singleton_self _⟩

end Clearance
