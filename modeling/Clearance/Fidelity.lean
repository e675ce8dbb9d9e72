/-
# `Clearance.Fidelity` — platforms that keep what they are given

What one service marshals another one reads, after it has been through a `jsonb` column
and a topic.  Two things may be asked of the way:

    Truthful    what is read is what was written, if anything can be read at all
    Faithful    what was written is read

Safety needs the first only.  `Platform.framed` is a platform that has both, to evaluate
runs on.
-/
import Clearance.Fingerprints
import Clearance.Framing
import Clearance.Service.Messages
import Clearance.Service.Query

namespace Clearance

open Framing

/-- What is read is what was written. -/
structure Platform.Truthful (P : Platform) : Prop where
  transaction : ∀ {t t'}, P.decodeTransaction (P.encode (.transaction t)) = .ok t' → t' = t
  riskEvaluated : ∀ {e e'},
    P.decodeRiskEvaluated (P.encode (.riskEvaluated e)) = .ok e' → e' = e

/-- What was written is read. -/
structure Platform.Faithful (P : Platform) : Prop where
  transaction : ∀ t, P.decodeTransaction (P.encode (.transaction t)) = .ok t
  riskEvaluated : ∀ e, P.decodeRiskEvaluated (P.encode (.riskEvaluated e)) = .ok e

theorem Platform.Faithful.truthful {P : Platform} (h : P.Faithful) : P.Truthful where
  transaction {t t'} ht := by
    rw [h.transaction t] at ht
    cases ht
    rfl
  riskEvaluated {e e'} he := by
    rw [h.riskEvaluated e] at he
    cases he
    rfl

/-- What `goString` reads of a string. -/
theorem goString_utf8 (s : String) : goString (utf8 s) = s := by
  rw [goString, fromUTF8?_utf8, Option.getD_some]

/-! ## A platform with frames -/

def stringCode : Code String :=
  Code.bytes.via utf8 (fun b => some (goString b)) fun s => by rw [goString_utf8]

def kindCode : Code TransactionKind :=
  Code.nat.via
    (fun | .payment => 0 | .deposit => 1)
    (fun | 0 => some .payment | 1 => some .deposit | _ => none)
    fun k => by cases k <;> rfl

def statusCode : Code TransactionStatus :=
  Code.nat.via
    (fun | .pending => 0 | .authorized => 1 | .failed => 2)
    (fun | 0 => some .pending | 1 => some .authorized | 2 => some .failed | _ => none)
    fun s => by cases s <;> rfl

def boolCode : Code Bool :=
  Code.nat.via (fun | false => 0 | true => 1) (fun n => some (n == 1)) fun b => by cases b <;> rfl

def riskLevelCode : Code RiskLevel :=
  (Code.nat.pair stringCode).via
    (fun | .low => (0, "") | .high => (1, "") | .other text => (2, text))
    (fun | (0, _) => some .low | (1, _) => some .high | (_, text) => some (.other text))
    fun l => by cases l <;> rfl

def optionCode {α : Type} (c : Code α) (default : α) : Code (Option α) :=
  (boolCode.pair c).via
    (fun | none => (false, default) | some a => (true, a))
    (fun p => some (if p.1 then some p.2 else none))
    fun o => by cases o <;> rfl

def transactionCode : Code Transaction :=
  (((((stringCode.pair kindCode).pair (stringCode.pair stringCode)).pair
      ((stringCode.pair stringCode).pair (Code.int.pair stringCode))).pair
    ((statusCode.pair (optionCode riskLevelCode .low)).pair (stringCode.pair stringCode))).pair
      (Code.int.pair Code.int)).via
    (fun t => (((((t.id, t.kind), t.accountID, t.merchantID),
        (t.fundingSource, t.externalRef), t.amountCents, t.currency),
      (t.status, t.riskLevel), t.riskReason, t.correlationID), t.createdAt, t.updatedAt))
    (fun (((((id, kind), accountID, merchantID), (fundingSource, externalRef), amountCents,
        currency), (status, riskLevel), riskReason, correlationID), createdAt, updatedAt) =>
      some ⟨id, kind, accountID, merchantID, fundingSource, externalRef, amountCents, currency,
        status, riskLevel, riskReason, correlationID, createdAt, updatedAt⟩)
    fun _ => rfl

def riskEvaluatedCode : Code RiskEvaluated :=
  (((stringCode.pair stringCode).pair (Code.int.pair stringCode)).pair
    ((riskLevelCode.pair boolCode).pair (stringCode.pair stringCode))).via
    (fun e => (((e.transactionID, e.accountID), e.amountCents, e.currency),
      (e.riskLevel, e.approved), e.reason, e.correlationID))
    (fun (((transactionID, accountID), amountCents, currency), (riskLevel, approved), reason,
        correlationID) =>
      some ⟨transactionID, accountID, amountCents, currency, riskLevel, approved, reason,
        correlationID⟩)
    fun _ => rfl

/-- A platform that writes every field in a frame of its own. -/
def Platform.framed : Platform :=
  { Platform.parity with
    encode := fun
      | .transaction t => 0 :: transactionCode.put t
      | .riskEvaluated e => 1 :: riskEvaluatedCode.put e
      | .fundsDeposited e => 2 :: stringCode.put e.depositID
    decodeTransaction := fun
      | 0 :: b => (transactionCode.read b).elim (.error "no transaction") .ok
      | _ => .error "no transaction"
    decodeRiskEvaluated := fun
      | 1 :: b => (riskEvaluatedCode.read b).elim (.error "no evaluation") .ok
      | _ => .error "no evaluation" }

theorem Platform.framed_faithful : Platform.framed.Faithful where
  transaction t := by
    show (transactionCode.read (transactionCode.put t)).elim _ _ = _
    rw [Code.read_put]
    rfl
  riskEvaluated e := by
    show (riskEvaluatedCode.read (riskEvaluatedCode.put e)).elim _ _ = _
    rw [Code.read_put]
    rfl

end Clearance
