/-
# `Clearance.OrderIndependence` — accounts do not see each other's operations

Deposits and evaluations of payments are carried out one after the other.  Those of one
account and currency depend on their order: a payment is authorized if the deposit came
before it.  Those of different pairs do not, though they share the accounts `clearing`
and `external-settlement`, the index of deposit references and the table of claimed
events: in another order, with the order of each pair kept, the payments end up with the
same status and the accounts with the same balance (`order_independent`).

The argument is about the effects on a `Standing`.  An effect of one pair leaves alone
whatever an operation of another pair reads (`effect_after`), so that the two commute
(`act_comm`); the order of what commutes makes no difference (`Reordering.foldl_eq`).
-/
import Clearance.Standing

namespace Clearance

open Transact

/-! ## What an operation is about -/

def LedgerOp.transactionID : LedgerOp → String
  | .fund deposit _ => deposit.transaction.id
  | .deliver _ _ event => event.transactionID

/-- The account and the currency; a delivery counts for the stored ones. -/
def LedgerOp.pair (stored : String → Option (String × String)) :
    LedgerOp → Option (String × String)
  | .fund deposit _ => some (deposit.transaction.accountID, deposit.transaction.currency)
  | .deliver _ _ event => stored event.transactionID

def LedgerOp.key : LedgerOp → Option String
  | .fund deposit _ => some deposit.idempotencyKey
  | .deliver _ _ _ => none

def LedgerOp.reference : LedgerOp → Option Ix
  | .fund deposit _ => some deposit.transaction.reference
  | .deliver _ _ _ => none

def LedgerOp.eventID : LedgerOp → Option String
  | .fund _ _ => none
  | .deliver delivery _ _ => some delivery.eventID

/-- Deposits have keys and references of their own; the deliveries of different transactions have
different events. -/
structure LedgerOp.Distinct (a b : LedgerOp) : Prop where
  key : Apart LedgerOp.key a b
  reference : Apart LedgerOp.reference a b
  eventID : a.transactionID ≠ b.transactionID → Apart LedgerOp.eventID a b

theorem LedgerOp.distinct_iff {a b : LedgerOp} : a.Distinct b ↔ Apart LedgerOp.key a b ∧
    Apart LedgerOp.reference a b ∧
    (a.transactionID ≠ b.transactionID → Apart LedgerOp.eventID a b) :=
  ⟨fun h => ⟨h.key, h.reference, h.eventID⟩, fun h => ⟨h.1, h.2.1, h.2.2⟩⟩

instance {a b : LedgerOp} : Decidable (a.Distinct b) := decidable_of_iff _ LedgerOp.distinct_iff.symm

theorem LedgerOp.Distinct.symm {a b : LedgerOp} (h : a.Distinct b) : b.Distinct a :=
  ⟨h.key.symm, h.reference.symm, fun hid => (h.eventID hid.symm).symm⟩

/-! ## What an effect touches -/

section

variable {stored : String → Option (String × String)} {v v' : Standing} {op a b : LedgerOp}
  {δ δ' : Change}

/-- The transactions have the pairs that are said to be stored. -/
def Standing.Agrees (v : Standing) (stored : String → Option (String × String)) : Prop :=
  ∀ id t, v.rows id = some t → t.id = id ∧ stored id = some (t.accountID, t.currency)

/-- The pair of the operation is the one of its transaction. -/
def LedgerOp.Known (stored : String → Option (String × String)) (op : LedgerOp) : Prop :=
  op.pair stored = stored op.transactionID

theorem reference_account {y : Ix} (h : op.reference = some y) {id account : String} :
    y ≠ .ledgerAccount id account := by
  cases op with
  | fund deposit event => cases h; exact fun h => by cases h
  | deliver delivery payloadHash event => cases h

structure LedgerOp.Touches (op : LedgerOp) (stored : String → Option (String × String))
    (δ : Change) : Prop where
  id : δ.row.id = op.transactionID
  pair : op.pair stored = some (δ.row.accountID, δ.row.currency)
  outside : ∀ a c, reserved a = false → (a, c) ≠ (δ.row.accountID, δ.row.currency) →
    total δ.entries a c = 0
  taken : ∀ y ∈ δ.taken,
    (∃ account, y = .ledgerAccount op.transactionID account) ∨ op.reference = some y
  key : ∀ k, δ.key = some k → op.key = some k
  claim : ∀ k, δ.claim.map Prod.fst = some k → op.eventID = some k.2

/-- Entries are of the pair, or of an account that is reserved. -/
theorem total_outside {id account contra currency a c : String} {amount : Int}
    (hcontra : reserved contra = true) (ha : reserved a = false) (hne : (a, c) ≠ (account, currency)) :
    total (entries "" "" id account contra amount currency) a c = 0 := by
  rw [total_entries, if_neg, if_neg]
  · rfl
  · rintro ⟨rfl, -⟩
    cases hcontra.symm.trans ha
  · rintro ⟨rfl, rfl⟩
    exact hne rfl

theorem fund_touches {deposit : Deposit} {event : OutboxEvent} :
    (LedgerOp.fund deposit event).Touches stored (deposit.change event) where
  id := rfl
  pair := rfl
  outside _ _ := total_outside (by decide)
  taken y hy := by
    rcases Deposit.mem_taken.mp hy with hy | rfl | rfl
    · exact Or.inr (congrArg some (mem_depositEntries hy).symm)
    · exact Or.inl ⟨_, rfl⟩
    · exact Or.inl ⟨_, rfl⟩
  key _ hk := hk
  claim _ hk := by cases hk

theorem deliver_touches {delivery : Delivery} {payloadHash : Digest} {event : RiskEvaluated}
    {decision : Decision} {t : TransactionRow} (hid : t.id = event.transactionID)
    (hstored : stored event.transactionID = some (t.accountID, t.currency)) :
    (LedgerOp.deliver delivery payloadHash event).Touches stored
      (decision.change delivery payloadHash t) where
  id := hid
  pair := hstored
  outside a c ha hne := by
    show total (debited decision t) a c = 0
    unfold debited
    split
    · exact total_outside (by decide) ha hne
    · rfl
  taken y hy := by
    obtain ⟨entry, hentry, rfl⟩ := List.mem_map.mp hy
    refine Or.inl ⟨entry.accountID, congrArg (Ix.ledgerAccount · _) ?_⟩
    have hentry : entry ∈ debited decision t := hentry
    unfold debited at hentry
    split at hentry
    · rcases List.mem_pair.mp hentry with rfl | rfl
      · exact hid
      · exact hid
    · cases hentry
  key _ hk := by cases hk
  claim k hk := by cases hk; rfl

/-- The cases of an effect. -/
theorem effect_cases (h : op.effect v = some δ) :
    (∃ deposit event, op = .fund deposit event ∧ v.Accepts deposit event ∧
      δ = deposit.change event) ∨
    ∃ delivery payloadHash event t, op = .deliver delivery payloadHash event ∧
      checkPending event (v.rows event.transactionID) = .ok t ∧
      v.Settles delivery payloadHash event t ∧ δ = v.settlement delivery payloadHash event t := by
  cases op with
  | fund deposit event =>
      simp only [LedgerOp.effect] at h
      split at h
      · next hacc => exact Or.inl ⟨deposit, event, rfl, hacc, (Option.some.inj h).symm⟩
      · cases h
  | deliver delivery payloadHash event =>
      simp only [LedgerOp.effect] at h
      cases hpending : checkPending event (v.rows event.transactionID) with
      | error e =>
          rw [hpending] at h
          cases h
      | ok t =>
          rw [hpending] at h
          simp only at h
          split at h
          · next hs =>
              exact Or.inr ⟨delivery, payloadHash, event, t, rfl, hpending, hs,
                (Option.some.inj h).symm⟩
          · cases h

theorem effect_touches (hv : v.Agrees stored) (h : op.effect v = some δ) :
    op.Touches stored δ := by
  rcases effect_cases h with ⟨deposit, event, rfl, -, rfl⟩ | ⟨delivery, hash, event, t, rfl, ht, -, rfl⟩
  · exact fund_touches
  · obtain ⟨hid, hstored⟩ := hv _ _ (checkPending_ok.mp ht).1
    exact deliver_touches hid hstored

/-- What is known about pairs stays known. -/
theorem Standing.Agrees.act (hv : v.Agrees stored) (hop : op.Known stored) :
    (v.act op).Agrees stored := by
  unfold Standing.act
  cases heffect : op.effect v with
  | none => exact hv
  | some δ =>
      have htouches := effect_touches hv heffect
      intro id t ht
      have ht : Function.update v.rows δ.row.id (some δ.row) id = some t := ht
      rw [Function.update_apply] at ht
      split at ht
      · next hid =>
          cases ht
          refine ⟨hid.symm, ?_⟩
          rw [hid, htouches.id, ← hop, htouches.pair]
      · exact hv id t ht

/-! ## What an operation reads -/

/-- Nothing that the operation reads differs. -/
structure Standing.SameFor (op : LedgerOp) (stored : String → Option (String × String))
    (v v' : Standing) : Prop where
  rows : v.rows op.transactionID = v'.rows op.transactionID
  balance : ∀ a c, reserved a = false → op.pair stored = some (a, c) →
    v.balance a c = v'.balance a c
  accounts : ∀ account, v.taken (.ledgerAccount op.transactionID account) =
    v'.taken (.ledgerAccount op.transactionID account)
  reference : ∀ y, op.reference = some y → v.taken y = v'.taken y
  key : ∀ k, op.key = some k → v.keys k = v'.keys k
  claim : ∀ k, op.eventID = some k.2 → v.claims k = v'.claims k

theorem Standing.SameFor.symm (h : Standing.SameFor op stored v v') :
    Standing.SameFor op stored v' v where
  rows := h.rows.symm
  balance a c ha hp := (h.balance a c ha hp).symm
  accounts account := (h.accounts account).symm
  reference y hy := (h.reference y hy).symm
  key k hk := (h.key k hk).symm
  claim k hk := (h.claim k hk).symm

theorem Standing.Accepts.transfer {deposit : Deposit} {event : OutboxEvent}
    (h : v.Accepts deposit event)
    (hsame : Standing.SameFor (.fund deposit event) stored v v') : v'.Accepts deposit event where
  row := h.row
  entries := h.entries
  key := h.key
  reason := h.reason
  correlation := h.correlation
  unused := hsame.rows.symm.trans h.unused
  free y hy := by
    refine Eq.trans (Eq.symm ?_) (h.free y hy)
    rcases Deposit.mem_taken.mp hy with hy | rfl | rfl
    · exact hsame.reference y (congrArg some (mem_depositEntries hy).symm)
    · exact hsame.accounts _
    · exact hsame.accounts _
  keyFree := (hsame.key _ rfl).symm.trans h.keyFree
  range := by
    have hbalance : v.balance deposit.transaction.accountID deposit.transaction.currency =
        v'.balance deposit.transaction.accountID deposit.transaction.currency :=
      hsame.balance _ _ (TransactionRow.of_check h.row).2 rfl
    exact hbalance ▸ h.range

theorem Standing.Settles.transfer {delivery : Delivery} {payloadHash : Digest}
    {event : RiskEvaluated} {t : TransactionRow} (h : v.Settles delivery payloadHash event t)
    (hid : t.id = event.transactionID)
    (hstored : stored event.transactionID = some (t.accountID, t.currency))
    (hsame : Standing.SameFor (.deliver delivery payloadHash event) stored v v') :
    v'.settlement delivery payloadHash event t = v.settlement delivery payloadHash event t ∧
      v'.Settles delivery payloadHash event t := by
  have hbalance : v.balance t.accountID t.currency = v'.balance t.accountID t.currency :=
    hsame.balance _ _ (TransactionRow.of_check h.row).2 hstored
  have hdecision : v'.decision event t = v.decision event t := by
    rw [Standing.decision, ← hbalance, Standing.decision]
  have hsettlement : v'.settlement delivery payloadHash event t =
      v.settlement delivery payloadHash event t := by
    rw [Standing.settlement, hdecision, Standing.settlement]
  refine ⟨hsettlement, ?_⟩
  constructor
  · exact h.consumer
  · exact h.eventID
  · exact hsettlement ▸ h.entries
  · exact hsettlement ▸ h.row
  · exact hdecision ▸ h.correlation
  · exact (hsame.claim (delivery.consumerName, delivery.eventID) rfl).symm.trans h.unclaimed
  · exact hbalance ▸ h.range
  · rw [hsettlement]
    intro y hy
    have htouches : (LedgerOp.deliver delivery payloadHash event).Touches stored
      (v.settlement delivery payloadHash event t) := deliver_touches hid hstored
    rcases htouches.taken y hy with ⟨account, rfl⟩ | hy'
    · exact (hsame.accounts account).symm.trans (h.free _ hy)
    · cases hy'

/-- The effect depends on nothing else. -/
theorem Standing.SameFor.effect (h : Standing.SameFor op stored v v') (hv : v.Agrees stored) :
    op.effect v = op.effect v' := by
  cases op with
  | fund deposit event =>
      simp only [LedgerOp.effect]
      by_cases hacc : v.Accepts deposit event
      · rw [if_pos hacc, if_pos (hacc.transfer h)]
      · rw [if_neg hacc, if_neg fun hacc' => hacc (hacc'.transfer h.symm)]
  | deliver delivery payloadHash event =>
      have hrows : v.rows event.transactionID = v'.rows event.transactionID := h.rows
      simp only [LedgerOp.effect, ← hrows]
      cases hpending : checkPending event (v.rows event.transactionID) with
      | error e => rfl
      | ok t =>
          obtain ⟨hid, hstored⟩ := hv _ _ (checkPending_ok.mp hpending).1
          simp only
          by_cases hs : v.Settles delivery payloadHash event t
          · obtain ⟨hsettlement, hs'⟩ := hs.transfer hid hstored h
            rw [if_pos hs, if_pos hs', hsettlement]
          · have hs' : ¬ v'.Settles delivery payloadHash event t :=
              fun hs' => hs (hs'.transfer hid hstored h.symm).2
            rw [if_neg hs, if_neg hs']

/-! ## Operations commute -/

theorem transactions_apart (h : Apart (LedgerOp.pair stored) a b) (ha : a.Known stored)
    (hb : b.Known stored) {p : String × String} (hp : a.pair stored = some p) :
    a.transactionID ≠ b.transactionID := by
  intro hid
  refine h p hp ?_
  rw [hb, ← hid, ← ha, hp]

theorem LedgerOp.Touches.sameFor (h : a.Touches stored δ) (ha : a.Known stored)
    (hb : b.Known stored) (hdistinct : a.Distinct b) (hapart : Apart (LedgerOp.pair stored) a b) :
    Standing.SameFor b stored v (v.apply δ) := by
  have hid : a.transactionID ≠ b.transactionID := transactions_apart hapart ha hb h.pair
  constructor
  · refine (Function.update_of_ne ?_ _ _).symm
    rw [h.id]
    exact hid.symm
  · intro account currency hreserved hpair
    have hne : (account, currency) ≠ (δ.row.accountID, δ.row.currency) := by
      intro heq
      exact hapart _ h.pair (hpair.trans (congrArg some heq))
    show _ = v.balance account currency + total δ.entries account currency
    rw [h.outside account currency hreserved hne, Int.add_zero]
  · intro account
    refine (Bool.or_eq_left_iff_imp.mpr fun hy => ?_).symm
    rcases h.taken _ (of_decide_eq_true hy) with ⟨account', hy⟩ | hy
    · exact absurd (Ix.ledgerAccount.inj hy).1.symm hid
    · exact absurd rfl (reference_account hy)
  · intro y hy
    refine (Bool.or_eq_left_iff_imp.mpr fun hmem => ?_).symm
    rcases h.taken _ (of_decide_eq_true hmem) with ⟨account', rfl⟩ | hy'
    · exact absurd rfl (reference_account hy)
    · exact absurd hy (hdistinct.reference y hy')
  · intro k hk
    refine (Bool.or_eq_left_iff_imp.mpr fun hmem => ?_).symm
    exact absurd hk (hdistinct.key k (h.key k (of_decide_eq_true hmem)))
  · intro k hk
    refine (if_neg fun hclaim => ?_).symm
    exact hdistinct.eventID hid _ (h.claim k hclaim) hk

/-- An effect is not changed by one of another pair. -/
theorem effect_after (hv : v.Agrees stored) (ha : a.Known stored) (hb : b.Known stored)
    (hdistinct : a.Distinct b) (hapart : Apart (LedgerOp.pair stored) a b)
    (heffect : a.effect v = some δ) : b.effect (v.apply δ) = b.effect v :=
  (((effect_touches hv heffect).sameFor ha hb hdistinct hapart).effect hv).symm

theorem apply_comm (hid : δ.row.id ≠ δ'.row.id)
    (hclaim : ∀ k, δ.claim.map Prod.fst = some k → δ'.claim.map Prod.fst ≠ some k) :
    (v.apply δ).apply δ' = (v.apply δ').apply δ := by
  refine Standing.ext ?_ ?_ ?_ ?_ ?_ ?_
  · exact (Function.update_comm hid _ _ v.rows)
  · funext account currency
    exact Int.add_right_comm _ _ _
  · funext k
    show (if δ'.claim.map Prod.fst = some k then _ else if δ.claim.map Prod.fst = some k then _ else _) =
      if δ.claim.map Prod.fst = some k then _ else if δ'.claim.map Prod.fst = some k then _ else _
    by_cases hk : δ.claim.map Prod.fst = some k
    · rw [if_neg (hclaim k hk), if_pos hk, if_pos hk]
    · rw [if_neg hk, if_neg hk]
  · funext k
    exact Bool.or_right_comm _ _ _
  · funext y
    exact Bool.or_right_comm _ _ _
  · exact Multiset.cons_swap _ _ _

theorem act_none (h : op.effect v = none) : v.act op = v := by
  rw [Standing.act, h]

theorem act_some (h : op.effect v = some δ) : v.act op = v.apply δ := by
  rw [Standing.act, h]

/-- Operations of different pairs commute. -/
theorem act_comm (hv : v.Agrees stored) (ha : a.Known stored) (hb : b.Known stored)
    (hdistinct : a.Distinct b) (hapart : Apart (LedgerOp.pair stored) a b) :
    (v.act a).act b = (v.act b).act a := by
  cases heffect : a.effect v with
  | none =>
      rw [act_none heffect]
      cases heffect' : b.effect v with
      | none => rw [act_none heffect', act_none heffect]
      | some δ' =>
          have hafter := effect_after hv hb ha hdistinct.symm hapart.symm heffect'
          rw [act_some heffect', act_none (hafter.trans heffect)]
  | some δ =>
      have hafter := effect_after hv ha hb hdistinct hapart heffect
      rw [act_some heffect]
      cases heffect' : b.effect v with
      | none => rw [act_none heffect', act_none (hafter.trans heffect'), act_some heffect]
      | some δ' =>
          have hafter' := effect_after hv hb ha hdistinct.symm hapart.symm heffect'
          have htouches := effect_touches hv heffect
          have htouches' := effect_touches hv heffect'
          have hid := transactions_apart hapart ha hb htouches.pair
          rw [act_some heffect', act_some (hafter.trans heffect'), act_some (hafter'.trans heffect)]
          refine apply_comm ?_ fun k hk hk' => ?_
          · rw [htouches.id, htouches'.id]
            exact hid
          · exact hdistinct.eventID hid _ (htouches.claim k hk) (htouches'.claim k hk')

end

/-! ## Runs in another order -/

/-- The pair of a transaction that the operation creates. -/
def LedgerOp.opens (id : String) : LedgerOp → Option (String × String)
  | .fund deposit _ =>
      if deposit.transaction.id = id then
        some (deposit.transaction.accountID, deposit.transaction.currency)
      else none
  | .deliver _ _ _ => none

/-- The stored pair of a transaction: it is in the database, or a deposit puts it there. -/
def storedPair (d : Db) (ops : List LedgerOp) (id : String) : Option (String × String) :=
  match d.transactions.find? id with
  | some t => some (t.accountID, t.currency)
  | none => ops.findSome? (LedgerOp.opens id)

theorem storedPair_agrees (d : Db) (ops : List LedgerOp) :
    d.standing.Agrees (storedPair d ops) := by
  intro id t ht
  obtain ⟨row, hrow, rfl⟩ := Option.map_eq_some_iff.mp ht
  have hid : row.id = id := Table.key_of_find? hrow
  refine ⟨hid, ?_⟩
  rw [storedPair, hrow]
  rfl

section

variable {d : Db} {r : List (LedgerOp × Drawn)}

/-- Deposits have transactions of their own. -/
theorem New.deposit_unique (h : New d r) {deposit deposit' : Deposit} {event event' : OutboxEvent}
    {x x' : Drawn} (hr : (LedgerOp.fund deposit event, x) ∈ r)
    (hr' : (LedgerOp.fund deposit' event', x') ∈ r)
    (hid : deposit.transaction.id = deposit'.transaction.id) : deposit = deposit' := by
  have hpairs := (List.nodup_flatMap.mp h.apart).2
  have hall := @List.Pairwise.forall_of_forall _
    (fun o o' : LedgerOp × Drawn => ∀ u, u ∈ o.1.generated o.2 → u ∈ o'.1.generated o'.2 → o = o') r
    ⟨fun o o' ho u hu hu' => (ho u hu' hu).symm⟩ (fun _ _ _ _ _ => rfl)
    (hpairs.imp fun hdisjoint u hu hu' => (hdisjoint hu hu').elim)
  have heq := hall hr hr' (.row .transactions deposit.transaction.id) List.mem_cons_self
    (hid ▸ List.mem_cons_self)
  cases heq
  rfl

theorem New.known (h : New d r) {op : LedgerOp} (hop : op ∈ r.map Prod.fst) :
    op.Known (storedPair d (r.map Prod.fst)) := by
  cases op with
  | deliver delivery payloadHash event => rfl
  | fund deposit event =>
      obtain ⟨⟨-, x⟩, hr, rfl⟩ := List.mem_map.mp hop
      have hfresh : d.transactions.find? deposit.transaction.id = none := by
        refine Option.not_isSome_iff_eq_none.mp (Bool.eq_false_iff.mp ?_)
        exact h.unused (.row .transactions deposit.transaction.id)
          (List.mem_flatMap.mpr ⟨_, hr, List.mem_cons_self⟩)
      show some _ = storedPair d (r.map Prod.fst) deposit.transaction.id
      rw [storedPair, hfresh]
      have hopens : (LedgerOp.fund deposit event).opens deposit.transaction.id =
        some (deposit.transaction.accountID, deposit.transaction.currency) := if_pos rfl
      have hfound : ((r.map Prod.fst).findSome? (LedgerOp.opens deposit.transaction.id)).isSome :=
        List.findSome?_isSome_iff.mpr ⟨_, hop, Option.isSome_of_mem hopens⟩
      obtain ⟨p, hp⟩ := Option.isSome_iff_exists.mp hfound
      obtain ⟨op', hop', hp'⟩ := List.exists_of_findSome?_eq_some hp
      -- it is found at the deposit itself
      obtain ⟨⟨op', x'⟩, hr', rfl⟩ := List.mem_map.mp hop'
      cases op' with
      | deliver delivery payloadHash event => cases hp'
      | fund deposit' event' =>
          simp only [LedgerOp.opens, Option.ite_none_right_eq_some] at hp'
          obtain rfl := h.deposit_unique hr hr' hp'.1.symm
          exact hp'.2.trans hp.symm

end

/-- Two databases that say the same about payments, balances, claims and events. -/
structure SameOutcome (d d' : Db) : Prop where
  payments : ∀ id, (d.transactions.find? id).map (fun t => (t.status, t.riskLevel, t.riskReason)) =
    (d'.transactions.find? id).map fun t => (t.status, t.riskLevel, t.riskReason)
  balances : ∀ account currency, d.balance account currency = d'.balance account currency
  claims : ∀ k, (d.processedEvents.find? k).isSome = (d'.processedEvents.find? k).isSome
  events : (d.outboxEvents.rows.map OutboxRow.anonymous).Perm
    (d'.outboxEvents.rows.map OutboxRow.anonymous)

theorem SameOutcome.of_standing {d d' : Db} (h : d.standing = d'.standing) : SameOutcome d d' where
  payments id := by
    have hrow : (d.transactions.find? id).map TransactionRow.timeless =
      (d'.transactions.find? id).map TransactionRow.timeless := congrFun (congrArg Standing.rows h) id
    have hread := congrArg (Option.map fun t : TransactionRow => (t.status, t.riskLevel, t.riskReason))
      hrow
    rw [Option.map_map, Option.map_map] at hread
    exact hread
  balances account currency := congrFun (congrFun (congrArg Standing.balance h) account) currency
  claims k := by
    have hclaim : (d.processedEvents.find? k).map ProcessedRow.payloadSHA256 =
      (d'.processedEvents.find? k).map ProcessedRow.payloadSHA256 :=
        congrFun (congrArg Standing.claims h) k
    have hsome := congrArg Option.isSome hclaim
    rw [Option.isSome_map, Option.isSome_map] at hsome
    exact hsome
  events := Multiset.coe_eq_coe.mp (congrArg Standing.events h)

/-- Deposits and deliveries, run one after the other, in two orders that agree on the operations of
each account and currency, come to the same.  Identifiers that are generated are new. -/
theorem order_independent (hashtext : String → Int) (d : Db) (r r' : List (LedgerOp × Drawn))
    (hnew : New d r) (hnew' : New d r')
    (hdistinct : (r.map Prod.fst).Pairwise LedgerOp.Distinct)
    (h : Reordering (LedgerOp.pair (storedPair d (r.map Prod.fst))) (r.map Prod.fst)
      (r'.map Prod.fst)) :
    SameOutcome (finish hashtext d r) (finish hashtext d r') := by
  refine .of_standing ?_
  rw [finish_standing hnew, finish_standing hnew']
  refine h.foldl_eq (I := fun v => v.Agrees (storedPair d (r.map Prod.fst)))
    (fun op hop v hv => hv.act (hnew.known hop)) ?_ (storedPair_agrees d _)
  refine hdistinct.imp_of_mem fun ha hb hab hapart v hv => ?_
  exact act_comm hv (hnew.known ha) (hnew.known hb) hab hapart

/-- A payment of bob's is still to be decided. -/
def bobPays : Db :=
  { Db.empty with
    transactions :=
      ⟨[{ id := "txn_1", kind := .payment, accountID := "bob", merchantID := some "shop"
          fundingSource := none, externalReference := none, amountCents := 60, currency := "USD"
          status := .pending, correlationID := "cor_1", createdAt := 0, updatedAt := 0 }],
        by decide⟩ }

/-- A deposit for an account. -/
def fundAccount (name account : String) : LedgerOp :=
  .fund ⟨"key-" ++ name, .fill 64 0, "refill",
      { smallDeposit with id := "dep_" ++ name, externalRef := name, accountID := account }⟩
    { id := "evt_" ++ name, type := .fundsDeposited, aggregateID := "dep_" ++ name
      partitionKey := account, correlationID := "trace-1"
      payload := .fundsDeposited (FundingService.fundsDeposited smallDeposit)
      status := .pending, createdAt := 0 }

/-- Bob's payment was approved. -/
def approveBob : LedgerOp :=
  .deliver ⟨"ledger-service", "evt_risk", "risk.evaluated", 0, 0⟩ (.fill 64 0)
    { transactionID := "txn_1", accountID := "bob", amountCents := 60, currency := "USD"
      riskLevel := .low, approved := true, reason := "ok", correlationID := "cor_1" }

/-- Alice's deposit comes between a delivery and its duplicate. -/
def aliceBetween : List (LedgerOp × Drawn) :=
  [(fundAccount "b" "bob", ⟨.fill 32 0, .fill 32 1, .fill 32 0, 1⟩),
    (approveBob, ⟨.fill 32 2, .fill 32 3, .fill 32 2, 2⟩),
    (fundAccount "a" "alice", ⟨.fill 32 4, .fill 32 5, .fill 32 4, 3⟩),
    (approveBob, ⟨.fill 32 6, .fill 32 7, .fill 32 6, 4⟩)]

/-- It comes first. -/
def aliceFirst : List (LedgerOp × Drawn) :=
  [(fundAccount "a" "alice", ⟨.fill 32 8, .fill 32 9, .fill 32 8, 5⟩),
    (fundAccount "b" "bob", ⟨.fill 32 0xa, .fill 32 0xb, .fill 32 0xa, 6⟩),
    (approveBob, ⟨.fill 32 0xc, .fill 32 0xd, .fill 32 0xc, 7⟩),
    (approveBob, ⟨.fill 32 0xe, .fill 32 0xf, .fill 32 0xe, 8⟩)]

theorem order_independent_aliceFirst :
    SameOutcome (finish Platform.plain.hashtext bobPays aliceBetween)
        (finish Platform.plain.hashtext bobPays aliceFirst) ∧
      (finish Platform.plain.hashtext bobPays aliceFirst).balance "clearing" "USD" = 60 := by
  refine ⟨order_independent _ _ _ _ ⟨?_, ?_⟩ ⟨?_, ?_⟩ ?_ ?_, ?_⟩
  all_goals decide +kernel

end Clearance
