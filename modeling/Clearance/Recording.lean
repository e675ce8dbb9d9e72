/-
# `Clearance.Recording` — dead letters are recorded once, and for good

`Move` records a message that a consumer could not handle, publishes a copy of it to the
dead-letter topic, and marks the record as published.  Any of these may fail, and the
message is delivered again.

What is on record is never changed but for the failure it tells of (`Kept`), a copy that
the record is marked for has been acknowledged (`marked_by`), and as long as the calls for
one message come one after the other, there is one copy more than marks that failed at most
(`unfailed_unique`).
-/
import Clearance.DeadLetters
import Clearance.Fields

namespace Clearance

open Transact DeadLetterRecorder

/-! ## Ids -/

/-- What the id of a record is the hash of. -/
def DeadLetterRecorder.preimage (consumerName : String) (m : Message) : String :=
  consumerName ++ "\x00" ++ m.topic ++ "\x00" ++ toString m.partition ++ "\x00" ++
    toString m.offset

theorem deterministicID_eq (P : Platform) (consumerName : String) (m : Message) :
    deterministicID P consumerName m =
      "dlq_" ++ firstChars 32 (P.sha256 (utf8 (preimage consumerName m))).text := rfl

/-- Messages that come from different places have different texts hashed. -/
theorem preimage_inj {consumerName consumerName' : String} {m m' : Message}
    (hname : '\x00' ∉ consumerName.toList) (hname' : '\x00' ∉ consumerName'.toList)
    (htopic : '\x00' ∉ m.topic.toList) (htopic' : '\x00' ∉ m'.topic.toList)
    (h : preimage consumerName m = preimage consumerName' m') :
    consumerName = consumerName' ∧ m.topic = m'.topic ∧ m.partition = m'.partition ∧
      m.offset = m'.offset := by
  have hfields : ∀ (name : String) (m : Message), (preimage name m).toList =
      ['\x00'].intercalate [name.toList, m.topic.toList, (toString m.partition).toList,
        (toString m.offset).toList] := by
    intro name m
    simp [preimage, List.intercalate]
  have hnumber := Fields.notMem_toString_int (c := '\x00') (by decide) (by decide)
  have hfree : ∀ (name : String) (m : Message), '\x00' ∉ name.toList → '\x00' ∉ m.topic.toList →
      ∀ x ∈ [name.toList, m.topic.toList, (toString m.partition).toList,
        (toString m.offset).toList], '\x00' ∉ x := by
    intro name m hn ht
    simp only [List.forall_mem_cons]
    exact ⟨hn, ht, hnumber _, hnumber _, List.forall_mem_nil _⟩
  have hlists := congrArg String.toList h
  rw [hfields, hfields] at hlists
  have hsame := Fields.intercalate_inj (hfree _ _ hname htopic) (hfree _ _ hname' htopic') hlists rfl
  simp only [List.cons.injEq, String.toList_inj, and_true] at hsame
  obtain ⟨hn, ht, hp, ho⟩ := hsame
  exact ⟨hn, ht, Int.repr_injective hp, Int.repr_injective ho⟩

/-! ## What is never changed -/

/-- A dead letter and what has become of it. -/
structure DeadLetterRow.Kept (old new : DeadLetterRow) : Prop where
  id : new.id = old.id
  consumerName : new.consumerName = old.consumerName
  eventID : new.eventID = old.eventID
  sourceTopic : new.sourceTopic = old.sourceTopic
  sourcePartition : new.sourcePartition = old.sourcePartition
  sourceOffset : new.sourceOffset = old.sourceOffset
  messageKey : new.messageKey = old.messageKey
  headers : new.headers = old.headers
  payload : new.payload = old.payload
  payloadSHA256 : new.payloadSHA256 = old.payloadSHA256
  firstFailedAt : new.firstFailedAt = old.firstFailedAt
  publishedAt : ∀ t, old.kafkaPublishedAt = some t → new.kafkaPublishedAt = some t
  state : new.state = old.state ∨ (old.state = .opened ∧ new.state = .republished)

theorem DeadLetterRow.Kept.refl (r : DeadLetterRow) : r.Kept r :=
  ⟨rfl, rfl, rfl, rfl, rfl, rfl, rfl, rfl, rfl, rfl, rfl, fun _ h => h, Or.inl rfl⟩

theorem DeadLetterRow.Kept.trans {r r' r'' : DeadLetterRow} (h : r.Kept r') (h' : r'.Kept r'') :
    r.Kept r'' where
  id := h'.id.trans h.id
  consumerName := h'.consumerName.trans h.consumerName
  eventID := h'.eventID.trans h.eventID
  sourceTopic := h'.sourceTopic.trans h.sourceTopic
  sourcePartition := h'.sourcePartition.trans h.sourcePartition
  sourceOffset := h'.sourceOffset.trans h.sourceOffset
  messageKey := h'.messageKey.trans h.messageKey
  headers := h'.headers.trans h.headers
  payload := h'.payload.trans h.payload
  payloadSHA256 := h'.payloadSHA256.trans h.payloadSHA256
  firstFailedAt := h'.firstFailedAt.trans h.firstFailedAt
  publishedAt t ht := h'.publishedAt t (h.publishedAt t ht)
  state := by
    rcases h.state with hs | ⟨ho, hs⟩ <;> rcases h'.state with hs' | ⟨ho', hs'⟩
    · exact Or.inl (hs'.trans hs)
    · exact Or.inr ⟨hs.symm.trans ho', hs'⟩
    · exact Or.inr ⟨ho, hs'.trans hs⟩
    · exact Or.inr ⟨ho, hs'⟩

/-- Updates keep all of that; a dead letter is republished when it is open. -/
theorem DeadLetterRow.kept_apply (r : DeadLetterRow) {u : DeadLetterUpdate}
    (h : u = .republished → r.state = .opened) : r.Kept (u.apply r) := by
  cases u with
  | failedAgain _ _ _ => exact { DeadLetterRow.Kept.refl r with }
  | published t =>
      refine { DeadLetterRow.Kept.refl r with publishedAt := fun t' ht' => ?_ }
      rw [DeadLetterUpdate.apply, ht']
      rfl
  | republished => exact { DeadLetterRow.Kept.refl r with state := Or.inr ⟨h rfl, rfl⟩ }

section

variable {d : Db} {c : Call} {l : Letters}

theorem LetterStep.kept (h : LetterStep d c l) {id : String} {row : DeadLetterRow}
    (hrow : d.deadLetterMessages.find? id = some row) :
    ∃ row', l.messages.find? id = some row' ∧ row.Kept row' := by
  have hupdate : ∀ {id' u}, (id = id' → u = .republished → row.state = .opened) → ∃ row',
      (LetterTable.update d.deadLetterMessages id' u).find? id = some row' ∧ row.Kept row' := by
    intro id' u hu
    rw [LetterTable.find?_update, hrow]
    split
    · next hid => exact ⟨u.apply row, rfl, row.kept_apply (hu hid)⟩
    · exact ⟨row, rfl, .refl row⟩
  cases h with
  | idle => exact ⟨row, hrow, .refl row⟩
  | @recorded record _ _ hf =>
      refine ⟨row, ?_, .refl row⟩
      rw [Table.find?_insert, if_neg, hrow]
      rintro rfl
      exact absurd (hf.symm.trans hrow) nofun
  | failedAgain _ _ => exact hupdate nofun
  | sent _ => exact hupdate nofun
  | started _ => exact ⟨row, hrow, .refl row⟩
  | failed _ _ => exact ⟨row, hrow, .refl row⟩
  | republished _ _ hfound hopen =>
      refine hupdate ?_
      rintro rfl _
      rw [hrow] at hfound
      cases hfound
      exact hopen

/-- A dead letter is published only by a mark. -/
theorem LetterStep.published (h : LetterStep d c l) {id : String} {row : DeadLetterRow}
    (hrow : l.messages.find? id = some row) (hpub : row.kafkaPublishedAt.isSome = true) :
    (∃ old, d.deadLetterMessages.find? id = some old ∧ old.kafkaPublishedAt.isSome = true) ∨
      ∃ publishedAt, c = .markDeadLetterPublished id publishedAt := by
  have hupdate : ∀ {id' u}, (∀ r, (DeadLetterUpdate.apply u r).kafkaPublishedAt =
      r.kafkaPublishedAt) → (LetterTable.update d.deadLetterMessages id' u).find? id = some row →
      ∃ old, d.deadLetterMessages.find? id = some old ∧ old.kafkaPublishedAt.isSome = true := by
    intro id' u hu hrow
    rw [LetterTable.find?_update] at hrow
    split at hrow
    · obtain ⟨old, hold, rfl⟩ := Option.map_eq_some_iff.mp hrow
      rw [hu] at hpub
      exact ⟨old, hold, hpub⟩
    · exact ⟨row, hrow, hpub⟩
  cases h with
  | idle => exact Or.inl ⟨row, hrow, hpub⟩
  | @recorded record _ _ hf =>
      have hf : d.deadLetterMessages.find? record.row.id = none := hf
      rw [Table.find?_insert] at hrow
      split at hrow
      · next hid =>
          subst hid
          rw [hf] at hrow
          cases hrow
          cases hpub
      · exact Or.inl ⟨row, hrow, hpub⟩
  | failedAgain _ _ => exact Or.inl (hupdate (fun _ => rfl) hrow)
  | @sent id' publishedAt _ _ =>
      by_cases hid : id = id'
      · exact Or.inr ⟨publishedAt, by rw [hid]⟩
      · rw [LetterTable.find?_update, if_neg hid] at hrow
        exact Or.inl ⟨row, hrow, hpub⟩
  | started _ => exact Or.inl ⟨row, hrow, hpub⟩
  | failed _ _ => exact Or.inl ⟨row, hrow, hpub⟩
  | republished _ _ _ _ => exact Or.inl (hupdate (fun _ => rfl) hrow)

end

/-! ## Copies -/

/-- The record an operation marks. -/
def Call.marks : Call → Option String
  | .markDeadLetterPublished id _ => some id
  | _ => none

/-- The record an operation is about to take down. -/
def Call.records : Call → Option String
  | .upsertDeadLetter record => some record.id
  | _ => none

/-- What an upsert tells its caller. -/
def storedBy : (c : Call) → Except Error c.Reply → Option DeadLetter
  | .upsertDeadLetter _, .ok stored => some stored
  | _, _ => none

section

variable {P : Platform} {policy : Policy}

/-- The copy call `i` sends to the dead-letter topic: of which record, and what the broker
answers. -/
def copy (s : SystemState P policy) (i : Nat) : Option (String × Option Error) :=
  match s.tasks[i]? with
  | some ⟨.moveDeadLetter consumerName m cause draws, _, _⟩ =>
      ((own i s.log).findSome? fun e => storedBy e.call e.op.answer).bind fun stored =>
        if stored.kafkaPublishedAt.isSome then none
        else some (deterministicID P consumerName m,
          draws.publish (deadLetterMessage (recordFromMessage P consumerName m cause draws.now) m))
  | _ => none

/-- The mark step of call `i` failed, or the call is gone before it. -/
def failedMark (s : SystemState P policy) (i : Nat) : Bool :=
  ((own i s.log).any fun e => (e.call.marks.isSome && !e.op.answer.isOk)) ||
    (s.tasks[i]?).any fun t => t.proc.gone

end

section

variable {P : Platform}

/-- Only `Move` records dead letters and marks them. -/
theorem mover_of_calls {c : Call} {r : Request} (h : (r.program P).Calls c)
    (hr : services r = true) (hc : c.records.isSome = true ∨ c.marks.isSome = true) :
    ∃ consumerName m cause draws, r = .moveDeadLetter consumerName m cause draws := by
  cases c with
  | upsertDeadLetter record =>
      cases Request.makes h with
      | minor h => cases h
      | record => exact ⟨_, _, _, _, rfl⟩
      | store => cases hr
  | markDeadLetterPublished id publishedAt =>
      rcases tends_of_calls h rfl with ht | rfl
      · cases r with
        | moveDeadLetter consumerName m cause draws => exact ⟨_, _, _, _, rfl⟩
        | _ => cases ht
      · cases hr
  | _ => rcases hc with hc | hc <;> cases hc

/-- A dead letter is marked by an operation of the log. -/
theorem marked_reach {s : AState (system P (.only services))}
    (h : AReach (contract P.hashtext) ⟨Db.empty, (), [], []⟩ s) {id : String}
    {row : DeadLetterRow} (hrow : s.db.deadLetterMessages.find? id = some row)
    (hpub : row.kafkaPublishedAt.isSome = true) : ∃ e ∈ s.log, e.call.marks = some id := by
  have hsafe : Safe (system P (.only services)) (contract P.hashtext)
      (fun d _ g => ∀ id row, d.deadLetterMessages.find? id = some row →
        row.kafkaPublishedAt.isSome = true → ∃ e ∈ g, e.call.marks = some id) fun _ _ => True :=
    { arrive := fun hI _ => ⟨hI, trivial⟩
      env := fun hI _ => hI
      op := by
        intro d w g r c o i hI _ _ ho hb id row hrow hpub
        subst hb
        rcases (allows_letters ho).published hrow hpub with ⟨old, hold, hpub'⟩ | ⟨_, rfl⟩
        · obtain ⟨e, he, hmarks⟩ := hI id old hold hpub'
          exact ⟨e, List.mem_append_left _ he, hmarks⟩
        · exact ⟨_, List.mem_append_right _ (List.mem_singleton_self _), rfl⟩
      stable := fun _ _ _ _ _ hQ => hQ }
  have hempty : ∀ id row, Db.empty.deadLetterMessages.find? id = some row →
      row.kafkaPublishedAt.isSome = true → ∃ e ∈ ([] : List (LogEntry P)), e.call.marks = some id :=
    fun _ _ hrow => absurd hrow nofun
  exact (hsafe.reach (Kept.init hempty) h).inv id row hrow hpub

/-- A mark that is answered has taken place. -/
theorem published_of_mark {id : String} {publishedAt : Time}
    {o : Op (dialect P.hashtext).engine Error Unit}
    (ho : (contract P.hashtext).Allows (.markDeadLetterPublished id publishedAt) o)
    (hans : o.answer = .ok ()) :
    ∃ row, (Db.deadLetterMessages (view o.before o.writes)).find? id = some row ∧
      row.kafkaPublishedAt.isSome = true := by
  rcases single_runs (m := methodOf (.markDeadLetterPublished id publishedAt)) rfl
    (ho.spec (ho.told hans)) with ⟨_, _, _, he, _⟩ | ⟨f, r, hr, hres, hw⟩
  · cases he
  rcases Plan.updateRow_ok.mp hr with ⟨_, rfl⟩ | ⟨row, hrow, _, _, rfl⟩
  · cases hres
  · rw [hw]
    refine ⟨DeadLetterUpdate.apply (.published publishedAt) row, ?_, rfl⟩
    change (LetterTable.update (Db.deadLetterMessages o.before) id (.published publishedAt)).find? id =
      _
    rw [LetterTable.find?_update, if_pos rfl, show (Db.deadLetterMessages o.before).find? id =
      some row from hrow]
    rfl

/-- What is kept of a dead letter, from one moment to the next. -/
theorem letter_kept {p : DeadLetterRow → Prop} (hp : ∀ {r r' : DeadLetterRow}, r.Kept r' → p r → p r')
    {id : String} {c : Call} {o : Op (dialect P.hashtext).engine Error c.Reply}
    (hrow : ∃ row, (Db.deadLetterMessages o.before).find? id = some row ∧ p row)
    (ho : (contract P.hashtext).Allows c o) :
    ∃ row, (Db.deadLetterMessages (view o.before o.writes)).find? id = some row ∧ p row := by
  obtain ⟨row, hrow, hprow⟩ := hrow
  obtain ⟨row', hrow', hkept⟩ := (allows_letters ho).kept hrow
  exact ⟨row', hrow', hp hkept hprow⟩

theorem DeadLetterRow.Kept.isSome {r r' : DeadLetterRow} (h : r.Kept r')
    (hr : r.kafkaPublishedAt.isSome = true) : r'.kafkaPublishedAt.isSome = true := by
  obtain ⟨t, ht⟩ := Option.isSome_iff_exists.mp hr
  rw [h.publishedAt t ht]
  rfl

theorem DeadLetterRow.Kept.sameSource {r r' r₀ : DeadLetterRow} (h : r.Kept r')
    (hr : sameSource r₀ r = true) : sameSource r₀ r' = true := by
  rw [Clearance.sameSource, h.consumerName, h.sourceTopic, h.sourcePartition, h.sourceOffset]
  exact hr

/-- Once a mark has been answered, the dead letter is published. -/
theorem published_since {d : Db} {s : AState (system P (.only services))}
    (h : AReach (contract P.hashtext) ⟨d, (), [], []⟩ s) {i : Nat} {id : String}
    {publishedAt : Time} {mark : Op (dialect P.hashtext).engine Error Unit}
    (hmem : ⟨i, .markDeadLetterPublished id publishedAt, mark⟩ ∈ s.log)
    (hans : mark.answer = .ok ()) :
    ∃ row, s.db.deadLetterMessages.find? id = some row ∧ row.kafkaPublishedAt.isSome = true :=
  since_reach (Q := fun d : Db => ∃ row, d.deadLetterMessages.find? id = some row ∧
    row.kafkaPublishedAt.isSome = true) (letter_kept fun hk hr => hk.isSome hr) h hmem
    (published_of_mark ((traced_reach h).allowed _ hmem) hans)

variable {s : SystemState P (.only services)}

/-- The copy a record is marked for has been acknowledged. -/
theorem copy_of_mark (h : AReach (contract P.hashtext) ⟨Db.empty, (), [], []⟩ s.abs)
    {e : LogEntry P} (he : e ∈ s.log) {id : String} (hmarks : e.call.marks = some id) :
    copy s e.task = some (id, none) := by
  obtain ⟨⟨r, start, proc⟩, q, ht, hown, hmade⟩ := entry_task (traced_reach h) he
  have hserv : services r = true :=
    requests_reach (p := fun r : Request => services r = true)
      (fun hw => Policy.accept_only (w := ()) hw) h _ (List.mem_of_getElem? (State.abs_tasks ht))
  obtain ⟨consumerName, m, cause, draws, rfl⟩ :=
    mover_of_calls (hmade.calls hown) hserv (Or.inr (by rw [hmarks]; rfl))
  unfold copy
  rw [ht]
  have htrace : MoveTrace P consumerName m cause draws e.task (own e.task s.log) q :=
    move_trace hmade
  generalize own e.task s.log = g at htrace hown
  cases htrace with
  | begun => cases hown
  | refused _ =>
      rw [List.mem_singleton.mp hown] at hmarks
      cases hmarks
  | settled _ _ =>
      rw [List.mem_singleton.mp hown] at hmarks
      cases hmarks
  | unsent _ _ _ =>
      rw [List.mem_singleton.mp hown] at hmarks
      cases hmarks
  | sent _ _ _ _ =>
      rw [List.mem_singleton.mp hown] at hmarks
      cases hmarks
  | marked hup hnone hpub _ =>
      have hid : deterministicID P consumerName m = id := by
        rcases List.mem_pair.mp hown with heq | heq
        · rw [heq] at hmarks
          cases hmarks
        · rw [heq] at hmarks
          exact Option.some.inj hmarks
      simp only [List.findSome?_cons, hup, storedBy, Option.bind_some, hnone, Option.isSome_none,
        Bool.false_eq_true, if_false, hpub, hid]

end

/-! ## One after the other -/

/-- The calls that have had a copy of the record acknowledged. -/
def copies {P : Platform} {policy : Policy} (s : SystemState P policy) (id : String) : List Nat :=
  (List.range s.tasks.length).filter fun i => copy s i == some (id, none)

/-- Whenever a message is recorded, the calls that recorded it before are over. -/
def OneByOne {P : Platform} {policy : Policy} (s : SystemState P policy) (id : String) : Prop :=
  ∀ g e g', s.log = g ++ e :: g' → e.call.records = some id →
    ∀ x ∈ g, x.task ≠ e.task → x.call.records = some id →
      (∀ y ∈ g', y.task ≠ x.task) ∧ (s.tasks[x.task]?).any (fun t : Task (system P policy) => t.proc.over) = true

section

variable {P : Platform} {s : SystemState P (.only services)}

/-- A copy that is acknowledged: the record was taken down, not published yet, and the call is
still to mark it, has marked it, or its mark has failed. -/
theorem recorded_of_copy (h : AReach (contract P.hashtext) ⟨Db.empty, (), [], []⟩ s.abs) {i : Nat}
    {id : String} (hcopy : copy s i = some (id, none)) :
    ∃ consumerName m cause now up stored,
      (recordFromMessage P consumerName m cause now).id = id ∧
      ⟨i, .upsertDeadLetter (recordFromMessage P consumerName m cause now), up⟩ ∈ s.log ∧
      up.answer = .ok stored ∧ stored.kafkaPublishedAt = none ∧
      ((s.tasks[i]?).any (fun t : Task (system P (.only services)) => t.proc.over) = true →
        failedMark s i = false →
        ∃ publishedAt mark, ⟨i, .markDeadLetterPublished id publishedAt, mark⟩ ∈ s.log ∧
          mark.answer = .ok ()) := by
  unfold copy at hcopy
  split at hcopy
  swap
  · cases hcopy
  next consumerName m cause draws start proc ht =>
  obtain ⟨stored, hstored, hcopy⟩ := Option.bind_eq_some_iff.mp hcopy
  split at hcopy
  · cases hcopy
  next hnone =>
  obtain ⟨rfl, hacked⟩ := Prod.mk.inj (Option.some.inj hcopy)
  obtain ⟨q, hmade, hq⟩ := (traced_reach h).made i _ (State.abs_tasks ht)
  have htrace : MoveTrace P consumerName m cause draws i (own i s.log) q := move_trace hmade
  have hmem : ∀ {e : LogEntry P}, e ∈ own i s.log → e ∈ s.log := mem_of_own
  have hfailed : failedMark s i = ((own i s.log).any
      (fun e => e.call.marks.isSome && !e.op.answer.isOk) || proc.gone) := by
    rw [failedMark, ht]
    rfl
  rw [ht, hfailed]
  generalize own i s.log = g at htrace hstored hmem
  cases htrace with
  | begun => cases hstored
  | refused hup =>
      rw [List.findSome?_cons, hup] at hstored
      cases hstored
  | settled hup hsome =>
      rw [List.findSome?_cons, hup] at hstored
      cases hstored
      exact absurd hsome hnone
  | unsent _ _ hpub =>
      rw [hacked] at hpub
      cases hpub
  | sent hup hnone' hpub hnot =>
      refine ⟨consumerName, m, cause, draws.now, _, _, rfl, hmem (List.mem_singleton_self _), hup,
        hnone', fun hover hgone => ?_⟩
      cases proc with
      | idle p =>
          cases p with
          | ret r => exact absurd (hq _ rfl).symm (hnot r)
          | call c k => cases hover
      | busy c x k => cases hover
      | crashed => cases hgone
  | @marked up stored' mark r hup hnone' hpub _ =>
      refine ⟨consumerName, m, cause, draws.now, _, _, rfl, hmem List.mem_cons_self, hup, hnone',
        fun _ hgone => ⟨_, mark, hmem (List.mem_cons_of_mem _ (List.mem_singleton_self _)), ?_⟩⟩
      cases hmark : mark.answer with
      | ok u => rfl
      | error e =>
          exfalso
          simp [Call.marks, hmark, Except.isOk, Except.toBool] at hgone

/-- A copy that is acknowledged and marked is the last one. -/
theorem marked_last (h : AReach (contract P.hashtext) ⟨Db.empty, (), [], []⟩ s.abs) {id : String}
    (hseq : OneByOne s id) {i j : Nat} (hne : i ≠ j) (hi : copy s i = some (id, none))
    (hfailed : failedMark s i = false) {consumerName : String} {m : Message}
    {cause : Option Error} {now : Time} {up : Op (dialect P.hashtext).engine Error DeadLetter}
    {stored : DeadLetter} (hid : (recordFromMessage P consumerName m cause now).id = id)
    (hans : up.answer = .ok stored) (hnone : stored.kafkaPublishedAt = none)
    {g g' : List (LogEntry P)}
    (hlog : s.log =
      g ++ ⟨j, .upsertDeadLetter (recordFromMessage P consumerName m cause now), up⟩ :: g')
    {x : LogEntry P} (hx : x ∈ g) (htask : x.task = i) (hrecords : x.call.records = some id) :
    False := by
  obtain ⟨hlater, hover⟩ := hseq g _ g' hlog (congrArg some hid) x hx (htask ▸ hne) hrecords
  rw [htask] at hover hlater
  obtain ⟨_, _, _, _, _, _, _, _, _, _, hmarked⟩ := recorded_of_copy h hi
  obtain ⟨publishedAt, mark, hmark, hok⟩ := hmarked hover hfailed
  have hbefore : ⟨i, .markDeadLetterPublished id publishedAt, mark⟩ ∈ g := by
    rw [hlog] at hmark
    rcases List.mem_append.mp hmark with hmark | hmark
    · exact hmark
    rcases List.mem_cons.mp hmark with heq | hmark
    · cases heq
    · exact absurd rfl (hlater _ hmark)
  obtain ⟨s₁, h₁, rfl, hdb, _⟩ := h.before rfl hlog
  obtain ⟨row, hrow, hpub⟩ := published_since h₁ hbefore hok
  have hallowed := (traced_reach h).allowed
    ⟨j, .upsertDeadLetter (recordFromMessage P consumerName m cause now), up⟩ (by
      show _ ∈ s.log
      rw [hlog]
      exact List.mem_append_right _ List.mem_cons_self)
  have hgen : ∀ row ∈ (Db.deadLetterMessages up.before).rows, row.Genuine P := by
    intro row hrow
    have hmoved := movedIn_reach h₁
    rw [hdb] at hmoved
    exact (hmoved row hrow).1
  rw [hdb, ← hid] at hrow
  have hstored := (upsert_stored rfl hallowed hans hgen).2 row hrow
  rw [hstored, hnone] at hpub
  cases hpub

/-- Of two calls with an acknowledged copy, the mark of one has failed. -/
theorem unfailed_unique (h : AReach (contract P.hashtext) ⟨Db.empty, (), [], []⟩ s.abs)
    {id : String} (hseq : OneByOne s id) {i j : Nat} (hi : copy s i = some (id, none))
    (hj : copy s j = some (id, none)) (hfi : failedMark s i = false)
    (hfj : failedMark s j = false) : i = j := by
  obtain ⟨_, _, _, _, upi, _, hidi, hupi, hansi, hnonei, _⟩ := recorded_of_copy h hi
  obtain ⟨_, _, _, _, upj, _, hidj, hupj, hansj, hnonej, _⟩ := recorded_of_copy h hj
  by_contra hne
  obtain ⟨g, g', hlog⟩ := List.append_of_mem hupj
  rw [hlog] at hupi
  rcases List.mem_append.mp hupi with hbefore | hafter
  · exact marked_last h hseq hne hi hfi hidj hansj hnonej hlog hbefore rfl (congrArg some hidi)
  rcases List.mem_cons.mp hafter with heq | hafter
  · exact hne (congrArg Entry.task heq)
  · obtain ⟨g₁, g₂, rfl⟩ := List.append_of_mem hafter
    rw [← List.cons_append, ← List.append_assoc] at hlog
    exact marked_last h hseq (Ne.symm hne) hj hfj hidi hansi hnonei hlog
      (List.mem_append_right _ List.mem_cons_self) rfl (congrArg some hidj)

end

/-- A copy of the record has been acknowledged, and marked. -/
def Acknowledged {P : Platform} {policy : Policy} (s : SystemState P policy) (id : String) : Prop :=
  ∃ e ∈ s.log, e.call.marks = some id ∧ copy s e.task = some (id, none)

section

variable {P : Platform} {s : SystemState P (.only services)}

theorem acknowledged_of_published (h : AReach (contract P.hashtext) ⟨Db.empty, (), [], []⟩ s.abs)
    {row : DeadLetterRow} (hrow : row ∈ s.db.deadLetterMessages.rows)
    (hpub : row.kafkaPublishedAt.isSome = true) : Acknowledged s row.id := by
  obtain ⟨e, he, hmarks⟩ := marked_reach h (Table.find?_of_mem s.db.deadLetterMessages hrow) hpub
  exact ⟨e, he, hmarks, copy_of_mark h he hmarks⟩

/-- The operations of a `Move` that has returned nil. -/
theorem move_returned {consumerName : String} {m : Message} {cause : Option Error} {draws : Draws}
    {i : Nat} {g : List (LogEntry P)}
    (h : (move P consumerName m cause draws).Made i g (.ret (.ok ()))) :
    ∃ up stored,
      ⟨i, .upsertDeadLetter (recordFromMessage P consumerName m cause draws.now), up⟩ ∈ g ∧
      up.answer = .ok stored ∧ (stored.kafkaPublishedAt.isSome = true ∨ ∃ mark,
        ⟨i, .markDeadLetterPublished (recordFromMessage P consumerName m cause draws.now).id
          draws.publishedAt, mark⟩ ∈ g ∧ mark.answer = .ok ()) := by
  generalize hq : (.ret (.ok ()) : Service P (Except Error Unit)) = q at h
  cases move_trace h with
  | begun => cases hq
  | refused _ => cases hq
  | settled hup hsome => exact ⟨_, _, List.mem_cons_self, hup, Or.inl hsome⟩
  | unsent _ _ _ => cases hq
  | sent _ _ _ hnot => exact absurd hq.symm (hnot _)
  | marked hup _ _ hmark =>
      cases hq
      exact ⟨_, _, List.mem_cons_self, hup,
        Or.inr ⟨_, List.mem_cons_of_mem _ (List.mem_singleton_self _), hmark.mpr rfl⟩⟩

theorem published_of_returned (h : AReach (contract P.hashtext) ⟨Db.empty, (), [], []⟩ s.abs)
    {i : Nat} {start : Db} {consumerName : String} {m : Message} {cause : Option Error}
    {draws : Draws} (ht : s.tasks[i]? = some ⟨.moveDeadLetter consumerName m cause draws, start,
      .idle (.ret (.ok ()))⟩) :
    ∃ row ∈ s.db.deadLetterMessages.rows,
      sameSource (recordFromMessage P consumerName m cause draws.now).row row = true ∧
      row.kafkaPublishedAt.isSome = true := by
  have htraced := traced_reach h
  obtain ⟨up, stored, hup, hans, hdone⟩ := move_returned (returned_made htraced ht)
  have hup := mem_of_own hup
  obtain ⟨g, g', hlog⟩ := List.append_of_mem hup
  obtain ⟨s₁, h₁, _, hdb, _⟩ := h.before rfl hlog
  have hgen : ∀ row ∈ (Db.deadLetterMessages up.before).rows, row.Genuine P := by
    intro row hrow
    have hmoved := movedIn_reach h₁
    rw [hdb] at hmoved
    exact (hmoved row hrow).1
  obtain ⟨⟨row₁, hrow₁, hsame₁, hpub₁⟩, _⟩ := upsert_stored rfl (htraced.allowed _ hup) hans hgen
  obtain ⟨row, hrow, hsame, hkept⟩ := since_reach (Q := fun d : Db => ∃ row,
    d.deadLetterMessages.find? (recordFromMessage P consumerName m cause draws.now).id = some row ∧
      sameSource (recordFromMessage P consumerName m cause draws.now).row row = true ∧
      (row₁.kafkaPublishedAt.isSome = true → row.kafkaPublishedAt.isSome = true))
    (letter_kept fun hk hr => ⟨hk.sameSource hr.1, fun hp => hk.isSome (hr.2 hp)⟩) h hup
    ⟨row₁, hrow₁, hsame₁, id⟩
  refine ⟨row, Table.mem_of_find? hrow, hsame, ?_⟩
  rcases hdone with hdone | ⟨mark, hmark, hok⟩
  · exact hkept (by rw [hpub₁]; exact hdone)
  · obtain ⟨row', hrow', hpub'⟩ := published_since h (mem_of_own hmark) hok
    rw [hrow] at hrow'
    cases hrow'
    exact hpub'

theorem copies_le (h : AReach (contract P.hashtext) ⟨Db.empty, (), [], []⟩ s.abs) {id : String}
    (hseq : OneByOne s id) :
    (copies s id).length ≤ 1 + ((copies s id).filter (failedMark s)).length := by
  have hcopy : ∀ i ∈ (copies s id).filter (fun i => !failedMark s i),
      copy s i = some (id, none) ∧ failedMark s i = false := by
    intro i hi
    obtain ⟨hmem, hfailed⟩ := List.mem_filter.mp hi
    exact ⟨beq_iff_eq.mp (List.mem_filter.mp hmem).2, by simpa using hfailed⟩
  have hnodup : ((copies s id).filter (fun i => !failedMark s i)).Nodup :=
    (List.nodup_range.filter _).filter _
  have hunfailed : ((copies s id).filter (fun i => !failedMark s i)).length ≤ 1 := by
    match hlist : (copies s id).filter (fun i => !failedMark s i) with
    | [] => exact Nat.zero_le 1
    | [_] => exact le_rfl
    | i :: j :: rest =>
        rw [hlist] at hcopy hnodup
        obtain ⟨hi, hfi⟩ := hcopy i List.mem_cons_self
        obtain ⟨hj, hfj⟩ := hcopy j (List.mem_cons_of_mem _ List.mem_cons_self)
        rw [unfailed_unique h hseq hi hj hfi hfj] at hnodup
        exact absurd List.mem_cons_self (List.nodup_cons.mp hnodup).1
  have hsplit := List.length_eq_length_filter_add (l := copies s id) (failedMark s)
  omega

end

/-- Dead letters are recorded for good: a `Move` that returns nil leaves the record of its
message, published; a record is marked only for a copy that has been acknowledged; what it
tells of the message never changes; different messages have different texts hashed to ids; and
as long as the calls for a message come one after the other, there is at most one acknowledged
copy more than marks that failed. -/
theorem recorded_for_good (P : Platform) (es es' : List (Transact.Event (system P (.only services))))
    (s s' : SystemState P (.only services))
    (h : (State.init Db.empty () : SystemState P (.only services)).steps es = some s)
    (h' : s.steps es' = some s') :
    (∀ (i : Nat) (start : Db) (consumerName : String) (m : Message) (cause : Option Error)
        (draws : Draws), s.tasks[i]? = some
        ⟨.moveDeadLetter consumerName m cause draws, start, .idle (.ret (.ok ()))⟩ →
      ∃ row ∈ s.db.deadLetterMessages.rows, row.consumerName = consumerName ∧
        row.sourceTopic = m.topic ∧ row.sourcePartition = m.partition ∧
        row.sourceOffset = m.offset ∧ row.kafkaPublishedAt.isSome = true ∧
        Acknowledged s row.id) ∧
    (∀ row ∈ s.db.deadLetterMessages.rows, row.kafkaPublishedAt.isSome = true →
      Acknowledged s row.id) ∧
    (∀ row ∈ s.db.deadLetterMessages.rows, ∃ row' ∈ s'.db.deadLetterMessages.rows, row.Kept row') ∧
    (∀ (consumerName consumerName' : String) (m m' : Message), '\x00' ∉ consumerName.toList →
      '\x00' ∉ consumerName'.toList → '\x00' ∉ m.topic.toList → '\x00' ∉ m'.topic.toList →
      preimage consumerName m = preimage consumerName' m' → consumerName = consumerName' ∧
        m.topic = m'.topic ∧ m.partition = m'.partition ∧ m.offset = m'.offset) ∧
    ∀ id, OneByOne s id →
      (copies s id).length ≤ 1 + ((copies s id).filter (failedMark s)).length := by
  obtain ⟨hiso, hreach⟩ := State.steps_refine (store_sound P.hashtext)
    (Isolated.init (A := system P (.only services)) Db.empty ()) h
  refine ⟨?_, fun row hrow hpub => acknowledged_of_published hreach hrow hpub, ?_, ?_,
    fun id hseq => copies_le hreach hseq⟩
  · intro i start consumerName m cause draws ht
    obtain ⟨row, hrow, hsame, hpub⟩ := published_of_returned hreach ht
    simp only [sameSource, Bool.and_eq_true, beq_iff_eq] at hsame
    obtain ⟨⟨⟨hname, htopic⟩, hpartition⟩, hoffset⟩ := hsame
    exact ⟨row, hrow, hname.symm, htopic.symm, hpartition.symm, hoffset.symm, hpub,
      acknowledged_of_published hreach hrow hpub⟩
  · intro row hrow
    obtain ⟨row', hrow', hkept⟩ := later_reach (R := fun d d' : Db =>
      d.deadLetterMessages.find? row.id = some row → ∃ row',
        d'.deadLetterMessages.find? row.id = some row' ∧ row.Kept row')
      (fun _ hd => ⟨row, hd, .refl row⟩)
      (fun hR ho hd => letter_kept (fun hk hr => hr.trans hk) (hR hd) ho)
      (State.steps_refine (store_sound P.hashtext) hiso h').2
      (Table.find?_of_mem s.db.deadLetterMessages hrow)
    exact ⟨row', Table.mem_of_find? hrow', hkept⟩
  · intro _ _ _ _ hname hname' htopic htopic' heq
    exact preimage_inj hname hname' htopic htopic' heq

/-- A message is delivered twice: the first time the mark of its copy fails. -/
def secondMoveRun : List (Transact.Event (system .plain (.only services))) :=
  [.arrive (.moveDeadLetter "risk-service" keyed (some (.text "decode failed"))
    ⟨0, fun _ => none, 1⟩), .run 0, .fault 0,
   .arrive (.moveDeadLetter "risk-service" keyed (some (.text "amount must be positive"))
    ⟨2, fun _ => none, 3⟩), .run 1, .run 1]

/-- Then it is replayed. -/
def replayedRun : List (Transact.Event (system .plain (.only services))) :=
  [.arrive (.replayDeadLetter OperationsService.day
    (deterministicID .plain "risk-service" keyed) "fixed"
    ⟨4, .fill 32 0, 5, fun _ => none, .fill 32 0, 6⟩),
   .run 2, .run 2, .run 2, .run 2, .run 2, .run 2, .run 2, .run 2, .run 2, .run 2, .run 2, .run 2]

theorem recorded_for_good_secondMove : ∃ s s' : SystemState .plain (.only services),
    (State.init Db.empty ()).steps secondMoveRun = some s ∧ s.steps replayedRun = some s' ∧
      s'.db.deadLetterMessages.rows.map DeadLetterRow.state = [.republished] ∧
      copies s (deterministicID .plain "risk-service" keyed) = [0, 1] ∧
      (copies s (deterministicID .plain "risk-service" keyed)).length ≤
        1 + ((copies s (deterministicID .plain "risk-service" keyed)).filter (failedMark s)).length ∧
      ∀ row ∈ s.db.deadLetterMessages.rows,
        ∃ row' ∈ s'.db.deadLetterMessages.rows, row.Kept row' := by
  have h : ((State.init Db.empty () : SystemState .plain (.only services)).steps
      secondMoveRun).bind (fun s => (s.steps replayedRun).map fun s' =>
        (s'.db.deadLetterMessages.rows.map DeadLetterRow.state,
          copies s (deterministicID .plain "risk-service" keyed),
          s.log.map (fun e => (e.task, e.call.records.isSome)),
          (s.tasks[0]?).any fun t : Task (system .plain (.only services)) => t.proc.over)) =
      some ([.republished], [0, 1], [(0, true), (0, false), (1, true), (1, false)], true) := by
    decide +kernel
  obtain ⟨s, hs, h⟩ := Option.bind_eq_some_iff.mp h
  obtain ⟨s', hs', h⟩ := Option.map_eq_some_iff.mp h
  simp only [Prod.mk.injEq] at h
  obtain ⟨hstate, hcopies, hlog, hover⟩ := h
  have hall := recorded_for_good .plain secondMoveRun replayedRun s s' hs hs'
  refine ⟨s, s', hs, hs', hstate, hcopies, hall.2.2.2.2 _ ?_, hall.2.2.1⟩
  intro g e g' hg hrecords x hx hne hrecords'
  rw [hg, List.map_append, List.map_cons] at hlog
  match g with
  | [] => cases hx
  | [a] => simp [hrecords] at hlog
  | [a, b] =>
      simp only [List.map_cons, List.map_nil, List.cons_append, List.nil_append, List.cons.injEq,
        Prod.mk.injEq] at hlog
      obtain ⟨⟨ha, _⟩, ⟨hb, _⟩, ⟨he, _⟩, hg'⟩ := hlog
      have hxtask : x.task = 0 := by
        rcases List.mem_pair.mp hx with rfl | rfl
        · exact ha
        · exact hb
      refine ⟨fun y hy htask => ?_, by rw [hxtask]; exact hover⟩
      have hmem : (y.task, y.call.records.isSome) ∈ [((1 : Nat), false)] :=
        hg' ▸ List.mem_map_of_mem hy
      rw [htask, hxtask] at hmem
      simp at hmem
  | [a, b, c] => simp [hrecords] at hlog
  | a :: b :: c :: d :: g => simp at hlog

end Clearance
