/-
# `Clearance.Transport` — the identity of an event on its way through Kafka

An event is known by the first header `event_id`; messages without one, from before there
were headers, by their key.  `newMessage` writes the header, and a message that is moved to
the dead letters has six headers added to its own: three by `Recorder.Move`, three by
`Publisher.Move`.  None of them is an `event_id`, and they come last, so whatever the message
was known by it is known by still, and if it was not known it is not known now
(`event_identity_survives`).

Strings of Go are bytes, which need not be UTF-8, so identities are bytes here;
`KafkaBus.eventID` is the text of them (`eventID_eq`).
-/
import Clearance.Service.Delivery

namespace Clearance

namespace KafkaBus

/-! ## `bus.go` -/

def topicDeadLetter : String := "dead-letter"

/-- `newMessage`; the topic, the partition and the offset are given later. -/
def newMessage (partitionKey eventID correlationID payload : Bytes) : Message where
  topic := ""
  partition := 0
  offset := 0
  key := partitionKey
  value := payload
  headers := [("event_id", eventID), ("correlation_id", correlationID)]

/-- `EventID`, as bytes. -/
def eventIDBytes (m : Message) : Except Error Bytes :=
  match m.headers.find? fun h => h.1 == "event_id" with
  | some h => if h.2.isEmpty then .error (.text "event_id header is empty") else .ok h.2
  | none =>
      if (utf8 "evt_").isPrefixOf m.key || (utf8 "msg_").isPrefixOf m.key then .ok m.key
      else .error (.text "event_id header is required")

/-- What `moveToDeadLetter` writes. -/
def moveToDeadLetter (m : Message) : Message where
  topic := topicDeadLetter
  partition := 0
  offset := 0
  key := m.key
  value := m.value
  headers := m.headers ++
    [("source_topic", utf8 m.topic), ("source_partition", utf8 (toString m.partition)),
      ("source_offset", utf8 (toString m.offset))]

theorem eventID_eq (m : Message) : eventID m = (eventIDBytes m).map goString := by
  unfold eventID eventIDBytes
  cases m.headers.find? fun h => h.1 == "event_id" with
  | some h =>
      dsimp only
      split <;> rfl
  | none =>
      dsimp only
      split <;> rfl

/-- Headers of other names, added at the end, make no difference. -/
theorem eventIDBytes_append {m m' : Message} {added : List (String × Bytes)}
    (hkey : m'.key = m.key) (hheaders : m'.headers = m.headers ++ added)
    (hadded : ∀ h ∈ added, h.1 ≠ "event_id") : eventIDBytes m' = eventIDBytes m := by
  have hnone : added.find? (fun h => h.1 == "event_id") = none :=
    List.find?_eq_none.mpr fun h hh => by simpa using hadded h hh
  unfold eventIDBytes
  rw [hkey, hheaders, List.find?_append, hnone, Option.or_none]

end KafkaBus

open KafkaBus DeadLetterRecorder

/-- The headers of a message that was moved. -/
theorem headers_moved (record : DeadLetter) (m : Message) :
    ∃ added, (moveToDeadLetter (deadLetterMessage record m)).headers = m.headers ++ added ∧
      ∀ h ∈ added, h.1 ≠ "event_id" := by
  refine ⟨_, List.append_assoc .., ?_⟩
  simp

/-- A new message is known by its event, and a message that is moved to the dead letters by
what it was known by. -/
theorem event_identity_survives :
    (∀ partitionKey eventID correlationID payload, eventID ≠ [] →
      eventIDBytes (newMessage partitionKey eventID correlationID payload) = .ok eventID) ∧
    ∀ (P : Platform) (consumerName : String) (m moved : Message) (cause : Option Error)
      (now : Time),
      moved = moveToDeadLetter
        (deadLetterMessage (recordFromMessage P consumerName m cause now) m) →
      moved.key = m.key ∧ moved.value = m.value ∧ m.headers <+: moved.headers ∧
        eventIDBytes moved = eventIDBytes m ∧ eventID moved = eventID m := by
  constructor
  · intro partitionKey eventID correlationID payload hne
    simp [eventIDBytes, newMessage, hne]
  · intro P consumerName m moved cause now hmoved
    have hkey : moved.key = m.key := by
      rw [hmoved]
      rfl
    have hvalue : moved.value = m.value := by
      rw [hmoved]
      rfl
    obtain ⟨added, hheaders, hadded⟩ :=
      headers_moved (recordFromMessage P consumerName m cause now) m
    rw [← hmoved] at hheaders
    have hsame : eventIDBytes moved = eventIDBytes m := eventIDBytes_append hkey hheaders hadded
    refine ⟨hkey, hvalue, ?_, hsame, ?_⟩
    · rw [hheaders]
      exact List.prefix_append _ _
    · rw [eventID_eq, eventID_eq, hsame]

/-- A key that looks like an old event, and a message that has no identity. -/
theorem event_identity_survives_legacy :
    eventIDBytes (newMessage (utf8 "evt_0") (utf8 "evt_1") [] []) = .ok (utf8 "evt_1") ∧
      eventIDBytes (moveToDeadLetter (deadLetterMessage
        (recordFromMessage .plain "risk-service" (newMessage (utf8 "evt_0") [] [] []) none 0)
        (newMessage (utf8 "evt_0") [] [] []))) = .error (.text "event_id header is empty") :=
  ⟨event_identity_survives.1 _ _ _ _ (by decide),
    (event_identity_survives.2 .plain "risk-service" _ _ none 0 rfl).2.2.2.1⟩

end Clearance
