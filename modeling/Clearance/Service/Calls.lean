/-
# `Clearance.Service.Calls` — the operations a service may come to call

For every service, `*_calls` lists the operations of the store its code may reach,
with their arguments.  Everything later proofs need to know of the code of a service,
apart from what it returns, is here.
-/
import Clearance.Service.Delivery

namespace Clearance

open Transact

section

variable {P : Platform} {c : Call}

theorem calls_ret {α : Type} {a : α} (h : (Svc.ret a : Service P α).Calls c) : False := by
  cases h

/-- A call of the store, then the rest. -/
theorem calls_bind {α : Type} {c' : Call} {k : Except Error c'.Reply → Service P α}
    (h : (callStore P c' >>= k).Calls c) : c = c' ∨ ∃ r, (k r).Calls c := by
  cases h with
  | here => exact Or.inl rfl
  | later r h => exact Or.inr ⟨r, h⟩

theorem calls_ite {α : Type} {p : Prop} [Decidable p] {x y : Service P α}
    (h : (if p then x else y).Calls c) : x.Calls c ∨ y.Calls c := by
  split at h
  · exact Or.inl h
  · exact Or.inr h

namespace TransactionService

variable {request : CreateRequest} {metadata : RequestMetadata} {draws : Draws}

theorem afterConflict_calls {e : Error} (h : (afterConflict P request metadata e).Calls c) :
    c = .findIdempotency metadata.idempotencyKey := by
  rcases calls_bind h with rfl | ⟨r, h⟩
  · rfl
  · rcases r with e | _ | existing
    · exact (calls_ret h).elim
    · exact (calls_ret h).elim
    · rcases calls_ite h with h | h <;> exact (calls_ret h).elim

theorem insertNew_calls (h : (insertNew P request metadata draws).Calls c) :
    c = .create (newRecord P request metadata draws) (newEvent request metadata draws) draws.now ∨
      c = .findIdempotency metadata.idempotencyKey := by
  rcases calls_bind h with rfl | ⟨r, h⟩
  · exact Or.inl rfl
  · rcases r with e | _
    · rcases calls_ite h with h | h
      · exact Or.inr (afterConflict_calls h)
      · exact (calls_ret h).elim
    · exact (calls_ret h).elim

theorem create_calls (h : (create P request metadata draws).Calls c) :
    acceptable (normalize request) (normalizeMetadata metadata) = true ∧
      (c = .create (newRecord P (normalize request) (normalizeMetadata metadata) draws)
          (newEvent (normalize request) (normalizeMetadata metadata) draws) draws.now ∨
        c = .findIdempotency (normalizeMetadata metadata).idempotencyKey) := by
  rw [create_eq] at h
  split at h
  · next hacc =>
      refine ⟨hacc, ?_⟩
      rcases calls_bind h with rfl | ⟨r, h⟩
      · exact Or.inr rfl
      · rcases r with e | _ | existing
        · exact (calls_ret h).elim
        · exact insertNew_calls h
        · rcases calls_ite h with h | h <;> exact (calls_ret h).elim
  · exact (calls_ret h).elim

end TransactionService

namespace FundingService

variable {request : DepositRequest} {metadata : RequestMetadata} {draws : Draws}

theorem afterConflict_calls {e : Error} (h : (afterConflict P request metadata e).Calls c) :
    c = .findDepositIdempotency metadata.idempotencyKey := by
  rcases calls_bind h with rfl | ⟨r, h⟩
  · rfl
  · rcases r with e | _ | existing
    · exact (calls_ret h).elim
    · exact (calls_ret h).elim
    · rcases calls_ite h with h | h <;> exact (calls_ret h).elim

theorem insertNew_calls (h : (insertNew P request metadata draws).Calls c) :
    c = .createDeposit (newDeposit P request metadata draws)
        (newEvent (newTransaction request metadata draws) draws) draws.store draws.now ∨
      c = .findDepositIdempotency metadata.idempotencyKey := by
  rcases calls_bind h with rfl | ⟨r, h⟩
  · exact Or.inl rfl
  · rcases r with e | _
    · rcases calls_ite h with h | h
      · exact Or.inr (afterConflict_calls h)
      · exact (calls_ret h).elim
    · exact (calls_ret h).elim

theorem deposit_calls {maxAmountCents : Int64}
    (h : (deposit P maxAmountCents request metadata draws).Calls c) :
    ∃ request' metadata', request' = normalize request ∧
      metadata' = normalizeMetadata metadata draws.trace ∧
      acceptable maxAmountCents request' metadata' = true ∧
      (c = .createDeposit (newDeposit P request' metadata' draws)
          (newEvent (newTransaction request' metadata' draws) draws) draws.store draws.now ∨
        c = .findDepositIdempotency metadata'.idempotencyKey) := by
  rw [deposit_eq] at h
  split at h
  · next hacc =>
      refine ⟨_, _, rfl, rfl, hacc, ?_⟩
      rcases calls_bind h with rfl | ⟨r, h⟩
      · exact Or.inr rfl
      · rcases r with e | _ | existing
        · exact (calls_ret h).elim
        · exact insertNew_calls h
        · rcases calls_ite h with h | h <;> exact (calls_ret h).elim
  · exact (calls_ret h).elim

end FundingService

theorem RiskService.handleMessage_calls {m : Message} {draws : Draws}
    (h : (handleMessage P m draws).Calls c) :
    ∃ id t, KafkaBus.eventID m = .ok id ∧ P.decodeTransaction m.value = .ok t ∧
      incomplete t = false ∧
      c = .saveConsumerOutbox (m.delivery consumerName id) (P.sha256 m.value) (newEvent t draws)
        draws.now := by
  unfold handleMessage at h
  split at h
  · exact (calls_ret h).elim
  · next id hid =>
      unfold handleTransactionCreated at h
      split at h
      · exact (calls_ret h).elim
      · next t ht =>
          split at h
          · exact (calls_ret h).elim
          · next hc =>
              rcases calls_bind h with rfl | ⟨r, h⟩
              · exact ⟨id, t, hid, ht, Bool.eq_false_iff.mpr hc, rfl⟩
              · rcases r with e | _ <;> exact (calls_ret h).elim

theorem LedgerService.handleMessage_calls {m : Message} {draws : LedgerDraws} {now : Time}
    (h : (handleMessage P m draws now).Calls c) :
    ∃ id event, KafkaBus.eventID m = .ok id ∧ P.decodeRiskEvaluated m.value = .ok event ∧
      defect event = none ∧
      c = .processRiskEvaluated (m.delivery consumerName id) (P.sha256 m.value) event draws
        now := by
  unfold handleMessage at h
  split at h
  · exact (calls_ret h).elim
  · next id hid =>
      unfold handleRiskEvaluated at h
      split at h
      · exact (calls_ret h).elim
      · next event hevent =>
          split at h
          · exact (calls_ret h).elim
          · next hc =>
              rcases calls_bind h with rfl | ⟨r, h⟩
              · exact ⟨id, event, hid, hevent, hc, rfl⟩
              · rcases r with e | _ <;> exact (calls_ret h).elim

/-- Operations that look something up, or only concern delivery and operators. -/
def Call.minor : Call → Bool
  | .create .. | .createDeposit .. | .saveConsumerOutbox .. | .processRiskEvaluated ..
  | .pruneProcessedEvents .. | .upsertDeadLetter .. => false
  | _ => true

/-- Operations of a replay. -/
def Call.replays : Call → Bool
  | .getDeadLetter .. | .isEventProcessed .. | .startDeadLetterReplay ..
  | .finishDeadLetterReplay .. => true
  | _ => false

theorem Call.minor_of_replays {c : Call} (h : c.replays = true) : c.minor = true := by
  cases c <;> first | rfl | cases h

theorem OutboxPublisher.publishNext_calls {attempts : Int} {draws : Draws}
    (h : (publishNext P attempts draws).Calls c) :
    c = .nextPending draws.claimedAt ∨ ∃ id, c = .markFailedAttempt id attempts draws.markedAt ∨
      c = .markPublished id draws.markedAt := by
  rcases calls_bind h with rfl | ⟨r, h⟩
  · exact Or.inl rfl
  · right
    rcases r with e | _ | event
    · exact (calls_ret h).elim
    · exact (calls_ret h).elim
    · refine ⟨event.id, ?_⟩
      change (publishClaimed P attempts draws event).Calls c at h
      unfold publishClaimed at h
      split at h
      · rcases calls_bind h with rfl | ⟨r, h⟩
        · exact Or.inl rfl
        · rcases r with e | _ <;> exact (calls_ret h).elim
      · rcases calls_bind h with rfl | ⟨r, h⟩
        · exact Or.inr rfl
        · rcases r with e | _ <;> exact (calls_ret h).elim

theorem DeadLetterRecorder.move_calls {consumerName : String} {m : Message} {cause : Option Error}
    {draws : Draws} (h : (move P consumerName m cause draws).Calls c) :
    c = .upsertDeadLetter (recordFromMessage P consumerName m cause draws.now) ∨
      c = .markDeadLetterPublished (recordFromMessage P consumerName m cause draws.now).id
        draws.publishedAt := by
  rcases calls_bind h with rfl | ⟨r, h⟩
  · exact Or.inl rfl
  · right
    rcases r with e | stored
    · exact (calls_ret h).elim
    · rcases calls_ite h with h | h
      · exact (calls_ret h).elim
      · split at h
        · exact (calls_ret h).elim
        · rcases calls_bind h with rfl | ⟨r, h⟩
          · rfl
          · rcases r with e | _ <;> exact (calls_ret h).elim

namespace OperationsService

theorem startReplay_calls {record : DeadLetter} {reason : String} {draws : Draws}
    (h : (startReplay P record reason draws).Calls c) : c.replays = true := by
  rcases calls_bind h with rfl | ⟨r, h⟩
  · rfl
  · rcases r with e | attemptID
    · exact (calls_ret h).elim
    · change (publishReplay P record attemptID draws).Calls c at h
      unfold publishReplay at h
      split at h <;>
      · rcases calls_bind h with rfl | ⟨r, h⟩
        · rfl
        · rcases r with e | _ <;> exact (calls_ret h).elim

theorem replayDeadLetter_calls {window : Time} {id reason : String} {draws : Draws}
    (h : (replayDeadLetter P window id reason draws).Calls c) : c.replays = true := by
  unfold replayDeadLetter at h
  rcases calls_ite h with h | h
  · exact (calls_ret h).elim
  rcases calls_bind h with rfl | ⟨r, h⟩
  · rfl
  · rcases r with e | _ | record
    · exact (calls_ret h).elim
    · exact (calls_ret h).elim
    · change (replayFound P window record reason draws).Calls c at h
      unfold replayFound at h
      split at h
      · exact (calls_ret h).elim
      · rcases calls_ite h with h | h
        · exact startReplay_calls h
        · rcases calls_bind h with rfl | ⟨r, h⟩
          · rfl
          · rcases r with e | _ | _
            · exact (calls_ret h).elim
            · exact startReplay_calls h
            · exact (calls_ret h).elim

theorem requeueOutbox_calls {id reason : String} {action : Random} {now : Time}
    (h : (requeueOutbox P id reason action now).Calls c) :
    c = .getOutboxStatus id ∨ c = .requeueOutbox id (trimSpace reason) action now := by
  unfold requeueOutbox at h
  rcases calls_ite h with h | h
  · exact (calls_ret h).elim
  rcases calls_bind h with rfl | ⟨r, h⟩
  · exact Or.inl rfl
  · rcases r with e | _ | status
    · exact (calls_ret h).elim
    · exact (calls_ret h).elim
    · rcases calls_ite h with h | h
      · exact (calls_ret h).elim
      · rcases calls_bind h with rfl | ⟨r, h⟩
        · exact Or.inr rfl
        · rcases r with e | _ <;> exact (calls_ret h).elim

end OperationsService

theorem ProcessedEventsService.prune_calls {config : Config} {reason : String} {now : Time}
    {action : Random} (h : (prune P config reason now action).Calls c) :
    ∃ cutoff batchSize reason target,
      c = .pruneProcessedEvents cutoff batchSize reason target action := by
  unfold prune at h
  rcases calls_ite h with h | h
  · exact (calls_ret h).elim
  rcases calls_bind h with rfl | ⟨r, h⟩
  · exact ⟨_, _, _, _, rfl⟩
  · rcases r with e | _ <;> exact (calls_ret h).elim

end

end Clearance
