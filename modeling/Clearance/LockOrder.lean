/-
# `Clearance.LockOrder` — the transactions of the services do not deadlock

The five transactions ask for locks in one order (`lockRank`):

    pg_advisory_xact_lock(hashtext('processed-event-prune'))
    processed_events
    transactions, rows that are committed
    pg_advisory_xact_lock(hashtext(account), hashtext(currency))
    transactions, rows that are being inserted
    ux_transactions_deposit_source_reference
    ledger_entries: the first row with its index entry, then the second
    idempotency_keys, deposit_idempotency_keys
    operator_actions
    outbox_events

`ProcessRiskEvaluated` locks a committed payment and then the balance, `CreateDeposit`
the balance and then a transaction that it inserts itself; so where a transaction stands
in the order depends on the committed database.

A foreign key asks for no lock that counts: what the rows refer to has been inserted or
locked by the same transaction.  Nothing is assumed of identifiers, except that none is
drawn for the first entry of one transaction and for the second of another.
-/
import Clearance.System
import Clearance.Transact.Deadlock

namespace Clearance

open Transact

section

variable {hashtext : String → Int}

/-! ## The order -/

/-- The entry is the one of the transaction's own account. -/
def ownSide (d : Db) (transactionID accountID : String) : Bool :=
  match d.transactions.find? transactionID with
  | some t => t.accountID == accountID
  | none => !reserved accountID

theorem ownSide_of_none {d : Db} {id : String} (h : d.transactions.find? id = none)
    (accountID : String) : ownSide d id accountID = !reserved accountID := by
  simp [ownSide, h]

theorem ownSide_of_some {d : Db} {id : String} {t : TransactionRow}
    (h : d.transactions.find? id = some t) (accountID : String) :
    ownSide d id accountID = (t.accountID == accountID) := by
  simp [ownSide, h]

/-- The place of a lock in the order.  `first` tells the identifiers of first entries. -/
def lockRank (first : String → Bool) (d : Db) : DbLock hashtext → Nat
  | .unique (.row .processedEvents _) => 1
  | .unique (.row .transactions id) => if (d.transactions.find? id).isSome then 2 else 4
  | .named (.pair _ _) => 3
  | .unique (.entry (.depositReference _ _ _)) => 5
  | .unique (.row .ledgerEntries id) => if first id then 6 else 8
  | .unique (.entry (.ledgerAccount t a)) => if ownSide d t a then 7 else 9
  | .unique (.row .idempotencyKeys _) => 10
  | .unique (.row .depositIdempotencyKeys _) => 10
  | .unique (.row .operatorActions _) => 11
  | .unique (.row .outboxEvents _) => 12
  | _ => 0

/-- The highest place of a lock, on whatever database. -/
def lockTop : DbLock hashtext → Nat
  | .unique (.row .processedEvents _) => 1
  | .unique (.row .transactions _) => 4
  | .named (.pair _ _) => 3
  | .unique (.entry (.depositReference _ _ _)) => 5
  | .unique (.row .ledgerEntries _) => 8
  | .unique (.entry (.ledgerAccount _ _)) => 9
  | .unique (.row .idempotencyKeys _) => 10
  | .unique (.row .depositIdempotencyKeys _) => 10
  | .unique (.row .operatorActions _) => 11
  | .unique (.row .outboxEvents _) => 12
  | _ => 0

theorem lockRank_le_lockTop (first : String → Bool) (d : Db) (l : DbLock hashtext) :
    lockRank first d l ≤ lockTop l := by
  unfold lockRank lockTop
  split <;> first | exact le_rfl | (split <;> decide)

/-- All locks stand below the place. -/
def Under (n : Nat) (l : List (DbLock hashtext)) : Prop := ∀ b ∈ l, lockTop b < n

theorem under_nil (n : Nat) : Under n ([] : List (DbLock hashtext)) := List.forall_mem_nil _

theorem under_singleton {n : Nat} {b : DbLock hashtext} (h : lockTop b < n) : Under n [b] :=
  List.forall_mem_singleton.mpr h

theorem Under.append {n : Nat} {l l' : List (DbLock hashtext)} (h : Under n l)
    (h' : Under n l') : Under n (l ++ l') := by
  intro b hb
  rcases List.mem_append.mp hb with hb | hb
  · exact h b hb
  · exact h' b hb

theorem Under.mono {m n : Nat} {l : List (DbLock hashtext)} (h : Under m l) (hmn : m ≤ n) :
    Under n l :=
  fun b hb => (h b hb).trans_le hmn

theorem Orderly.sublist {Lock : Type} {rank : Lock → Nat} {held asked asked' : List Lock}
    (h : Orderly rank held asked) (hsub : asked'.Sublist asked) : Orderly rank held asked' :=
  ⟨fun a ha => h.above a (hsub.mem ha), h.climbing.sublist hsub⟩

/-- Locks that stand above all that is held, one above the other. -/
theorem orderly_of_under {first : String → Bool} {d : Db} {n : Nat}
    {l asked : List (DbLock hashtext)} (hl : Under n l)
    (habove : ∀ a ∈ asked, n ≤ lockRank first d a)
    (hclimbing : asked.Pairwise fun a b => lockRank first d a < lockRank first d b) :
    Orderly (lockRank first d) l asked where
  above a ha _ b hb := calc
    lockRank first d b ≤ lockTop b := lockRank_le_lockTop first d b
    _ < n := hl b hb
    _ ≤ lockRank first d a := habove a ha
  climbing := hclimbing

/-! ## What insertions ask for -/

theorem insertAll_waits_sublist {d : Db} {rows : List Row} :
    (Plan.insertAll (L := latches hashtext) d rows).1.Sublist
      (Plan.locksOf (Plan.inserts rows)) := by
  have hrow : ∀ (d : Db) (t : Tab) (r : t.Row),
      (Plan.insertWaits (L := latches hashtext) d r).Sublist
        ((@Schema.Write.insert schema t r).uniques (latches hashtext)) :=
    fun d t r => (List.takeWhile_sublist _).map _
  induction rows generalizing d with
  | nil => exact List.Sublist.refl _
  | cons row rows ih =>
      obtain ⟨t, r⟩ := row
      unfold Plan.insertAll
      show List.Sublist _ ((@Schema.Write.insert schema t r).uniques _ ++
        Plan.locksOf (Plan.inserts rows))
      split
      · exact (hrow d t r).trans (List.sublist_append_left _ _)
      · exact (hrow d t r).append ih

/-! ## Statements -/

variable {first : String → Bool} {α : Type} {l : List (DbLock hashtext)} {w : List schema.Write}
  {d : Db} {e : Fault schema → Error}

/-- The transaction asks for locks in order. -/
abbrev InOrder (first : String → Bool) (tx : DbTx hashtext α) (l : List (DbLock hashtext))
    (w : List schema.Write) (d : Db) : Prop :=
  Climbs (dialect hashtext).rely (lockRank first) tx l w d

/-- An insertion. -/
theorem inOrder_insert {rows : List Row} {k : Unit → DbTx hashtext α}
    (hasks : ∀ d', AgreeOn l d d' → Orderly (lockRank first d') l
      (Plan.insertAll (L := latches hashtext) (view d' w) rows).1)
    (hk : ∀ d', AgreeOn l d d' → Plan.Insertable (view d' w) rows →
      InOrder first (k ()) (l ++ Plan.locksOf (Plan.inserts rows)) (w ++ Plan.inserts rows) d') :
    InOrder first (.exec (.insert rows) e k) l w d := by
  intro d' hd
  refine ⟨hasks d' hd, fun f r hr => ?_⟩
  obtain ⟨hins, _, rfl⟩ := Plan.insert_ok.mp hr
  exact hk d' hd hins

/-- A row of a table where keys stand at one place, whatever the database. -/
theorem inOrder_insert_row {t : Tab} {row : t.Row} {k : Unit → DbTx hashtext α} {n : Nat}
    (hl : Under n l) (hentries : Tab.entries row = [])
    (hrank : ∀ d', lockRank first d' (@rowLock hashtext t (t.key row)) = n)
    (hk : ∀ d', AgreeOn l d d' → InOrder first (k ()) (l ++ [rowLock t (t.key row)])
      (w ++ [.insert t row]) d') :
    InOrder first (.exec (.insert [⟨t, row⟩]) e k) l w d := by
  have hlocks : Plan.locksOf (L := latches hashtext) (Plan.inserts [⟨t, row⟩]) =
      [rowLock t (t.key row)] := by
    show List.map _ (_ :: List.map _ (Tab.entries row)) ++ [] = _
    rw [hentries]
    rfl
  refine inOrder_insert (fun d' _ => ?_) fun d' hd _ => ?_
  · refine Orderly.sublist (orderly_of_under hl ?_ (List.pairwise_singleton _ _))
      (hlocks ▸ insertAll_waits_sublist)
    intro a ha
    rw [List.mem_singleton.mp ha, hrank]
  · rw [hlocks]
    exact hk d' hd

/-- An event for the outbox, which is where every transaction ends. -/
theorem inOrder_insertOutbox {event : OutboxEvent} {now : Time} {c : DbCommit hashtext α}
    (hl : Under 12 l) :
    InOrder first (.exec (.insert [⟨.outboxEvents, outboxRow event now⟩]) e fun _ => .ret c)
      l w d :=
  inOrder_insert_row hl rfl (fun _ => rfl) fun _ _ => trivial

/-- A lock on a balance. -/
theorem inOrder_latch {a c : String} {k : Unit → DbTx hashtext α}
    (hl : ∀ d', AgreeOn l d d' → ∀ b ∈ l, lockRank first d' b < 3)
    (hk : ∀ d', AgreeOn l d d' → InOrder first (k ()) (l ++ [balanceLock a c]) w d') :
    InOrder first (.exec (.advisoryXactLock a c) e k) l w d := by
  intro d' hd
  refine ⟨⟨fun x hx _ b hb => ?_, List.pairwise_singleton _ _⟩, fun f r hr => ?_⟩
  · rw [List.mem_singleton.mp hx]
    exact hl d' hd b hb
  · cases hr
    rw [List.append_nil]
    exact hk d' hd

/-- A balance is read without a lock. -/
theorem inOrder_sumLedger {a c : String} {k : Int → DbTx hashtext α}
    (hk : ∀ v d', AgreeOn l d d' → InOrder first (k v) l w d') :
    InOrder first (.exec (.sumLedger a c) e k) l w d := by
  intro d' hd
  refine ⟨⟨nofun, .nil⟩, fun f r hr => ?_⟩
  obtain ⟨v, _, rfl⟩ := Plan.read_ok.mp hr
  rw [List.append_nil, List.append_nil]
  exact hk v d' hd

/-- Whatever is asked for is in one lock that nothing stands in the way of. -/
theorem orderly_of_single {d : Db} {a : DbLock hashtext} {asked : List (DbLock hashtext)}
    (h : a ∈ l ∨ ∀ b ∈ l, lockRank first d b < lockRank first d a) (hsub : asked.Sublist [a]) :
    Orderly (lockRank first d) l asked := by
  refine Orderly.sublist ⟨fun x hx hnot b hb => ?_, List.pairwise_singleton _ _⟩ hsub
  rw [List.mem_singleton.mp hx] at hnot ⊢
  rcases h with h | h
  · exact absurd h hnot
  · exact h b hb

/-- An update of a row that is locked, or by a transaction that holds no lock. -/
theorem inOrder_update {t : Tab} {key : t.Key} {g : t.Row → Bool} {u : t.Upd}
    {k : Option t.Row → DbTx hashtext α} (hl : rowLock t key ∈ l ∨ l = [])
    (hk : ∀ reply d' l' w', l' ⊆ [rowLock t key] → InOrder first (k reply) (l ++ l') w' d') :
    InOrder first (.exec (.update t key g u) e k) l w d := by
  intro d' hd
  refine ⟨orderly_of_single (hl.imp_right fun h => h ▸ List.forall_mem_nil _) ?_,
    fun f r hr => hk _ _ _ _ ?_⟩
  · show (@Plan.updateRow schema (latches hashtext) t key g u (view d' w)).waits.Sublist _
    unfold Plan.updateRow
    split
    · exact List.nil_sublist _
    · exact List.Sublist.refl _
  · rcases Plan.updateRow_ok.mp hr with ⟨_, rfl⟩ | ⟨_, _, _, _, rfl⟩
    · exact List.nil_subset _
    · exact List.Subset.refl _

/-- A committed transaction is locked. -/
theorem inOrder_lockTransaction {id : String} {k : Option TransactionRow → DbTx hashtext α}
    (hl : Under 2 l)
    (hview : ∀ d' : Db, @Schema.find? schema (view d' w) .transactions id =
      d'.transactions.find? id)
    (hk : ∀ d' : Db, InOrder first (k (d'.transactions.find? id))
      (l ++ if (d'.transactions.find? id).isSome then [rowLock .transactions id] else []) w d') :
    InOrder first (.exec (.selectTransactionForUpdate id) e k) l w d := by
  intro d' _
  refine ⟨?_, fun f r hr => ?_⟩
  · show Orderly _ l (@Plan.lockRow schema (latches hashtext) .transactions id (view d' w)).waits
    unfold Plan.lockRow
    rw [hview]
    cases hfind : d'.transactions.find? id with
    | none => exact ⟨nofun, .nil⟩
    | some t =>
        have hrank : lockRank first d' (@rowLock hashtext .transactions id) = 2 := by
          simp [lockRank, hfind]
        refine orderly_of_under hl ?_ (List.pairwise_singleton _ _)
        intro a ha
        rw [List.mem_singleton.mp ha, hrank]
  · obtain rfl := Plan.lockRow_ok.mp hr
    show InOrder first (k (@Schema.find? schema (view d' w) .transactions id))
      (l ++ if (@Schema.find? schema (view d' w) .transactions id).isSome then _ else _)
      (w ++ []) d'
    rw [hview, List.append_nil]
    exact hk d'

/-- The locks on an entry. -/
def entryLocks (r : LedgerRow) : List (DbLock hashtext) :=
  [rowLock .ledgerEntries r.id, .unique (.entry (.ledgerAccount r.transactionID r.accountID))]

theorem under_entryLocks (r : LedgerRow) :
    Under 10 (entryLocks r : List (DbLock hashtext)) := by
  intro b hb
  rcases List.mem_cons.mp hb with rfl | hb
  · show 8 < 10
    decide
  · rw [List.mem_singleton.mp hb]
    show 9 < 10
    decide

/-- Two entries of one account: the second is not waited for, once the first is there. -/
theorem insertWaits_second {d : Db} {r s : LedgerRow}
    (hr : @Plan.violation schema .ledgerEntries d r = none)
    (ht : s.transactionID = r.transactionID) (ha : s.accountID = r.accountID) :
    (@Plan.insertWaits schema (latches hashtext) .ledgerEntries
      (Schema.apply d (.insert .ledgerEntries r)) s).Sublist [rowLock .ledgerEntries s.id] := by
  have hfree : @Schema.find? schema d .ledgerEntries r.id = none :=
    Schema.find?_of_free (Plan.violation_eq_none.mp hr).2
  have htaken : @Schema.present schema (Schema.apply d (.insert .ledgerEntries r))
      (.ledgerAccount s.transactionID s.accountID) = true := by
    rw [Schema.present_insert, ht, ha]
    have hmem : Ix.ledgerAccount r.transactionID r.accountID ∈
        @Schema.entries schema .ledgerEntries r := List.mem_singleton_self _
    simp only [Bool.or_eq_true, Bool.and_eq_true, decide_eq_true_eq]
    exact Or.inr ⟨hfree, hmem⟩
  show (List.map _ (List.takeWhile _ [Schema.UniqueKey.row _ _, .entry _])).Sublist _
  rw [List.takeWhile_cons]
  split
  · rw [List.takeWhile_cons_of_neg (by simpa [Schema.taken] using htaken)]
    exact List.Sublist.refl _
  · exact List.nil_sublist _

theorem insertAll_entries_sublist {d : Db} {r s : LedgerRow}
    (ht : s.transactionID = r.transactionID) (ha : s.accountID = r.accountID) :
    (Plan.insertAll (L := latches hashtext) d [⟨.ledgerEntries, r⟩, ⟨.ledgerEntries, s⟩]).1.Sublist
      (entryLocks r ++ [rowLock .ledgerEntries s.id]) := by
  have hrow : ∀ d : Db, (@Plan.insertWaits schema (latches hashtext) .ledgerEntries d r).Sublist
      (entryLocks r) := fun d => (List.takeWhile_sublist _).map _
  unfold Plan.insertAll
  split
  · exact (hrow d).trans (List.sublist_append_left _ _)
  · next hr =>
      refine (hrow d).append ?_
      have hsecond := @insertWaits_second hashtext d r s hr ht ha
      unfold Plan.insertAll
      split
      · exact hsecond
      · show (_ ++ []).Sublist _
        rwa [List.append_nil]

/-- The two entries of a transaction. -/
theorem inOrder_entries {id contraID transactionID account contra currency : String}
    {amount : Int} {k : Unit → DbTx hashtext α} (hl : Under 6 l) (hfirst : first id = true)
    (hsecond : first contraID = false)
    (hown : ∀ d', AgreeOn l d d' → ownSide d' transactionID account = true ∧
      (contra ≠ account → ownSide d' transactionID contra = false))
    (hk : ∀ d' l' w', AgreeOn l d d' → Under 10 l' → InOrder first (k ()) (l ++ l') w' d') :
    InOrder first (.exec (insertEntries (entries id contraID transactionID account contra amount
      currency)) e k) l w d := by
  have hlocks : Plan.locksOf (L := latches hashtext) (Plan.inserts ((entries id contraID
      transactionID account contra amount currency).map fun r => ⟨Tab.ledgerEntries, r⟩)) =
        entryLocks ⟨id, transactionID, account, amount, currency⟩ ++
          entryLocks ⟨contraID, transactionID, contra, -amount, currency⟩ := rfl
  refine inOrder_insert (fun d' hd => ?_) fun d' hd _ => hk d' _ _ hd ?_
  · obtain ⟨haccount, hcontra⟩ := hown d' hd
    have h₁ : lockRank first d' (@rowLock hashtext .ledgerEntries id) = 6 := by
      simp [lockRank, hfirst]
    have h₂ : lockRank first d' (.unique (.entry (.ledgerAccount transactionID account)) :
        DbLock hashtext) = 7 := by
      simp [lockRank, haccount]
    have h₃ : lockRank first d' (@rowLock hashtext .ledgerEntries contraID) = 8 := by
      simp [lockRank, hsecond]
    by_cases hsame : contra = account
    · refine Orderly.sublist (orderly_of_under hl ?_ ?_)
        (insertAll_entries_sublist rfl hsame)
      · simp [entryLocks, h₁, h₂, h₃]
      · simp [entryLocks, h₁, h₂, h₃]
    · have h₄ : lockRank first d' (.unique (.entry (.ledgerAccount transactionID contra)) :
          DbLock hashtext) = 9 := by
        simp [lockRank, hcontra hsame]
      refine Orderly.sublist (orderly_of_under hl ?_ ?_) (hlocks ▸ insertAll_waits_sublist)
      · simp [entryLocks, h₁, h₂, h₃, h₄]
      · simp [entryLocks, h₁, h₂, h₃, h₄]
  · rw [hlocks]
    exact (under_entryLocks _).append (under_entryLocks _)

theorem transaction_entries (row : TransactionRow) :
    row.entries = [] ∨ ∃ a b c, row.entries = [.depositReference a b c] := by
  unfold TransactionRow.entries
  split
  · exact Or.inr ⟨_, _, _, rfl⟩
  · exact Or.inl rfl

/-- A row that is there is not waited for. -/
theorem insertAll_taken {d : Db} {t : Tab} {row old : t.Row}
    (h : @Schema.find? schema d t (t.key row) = some old) :
    (Plan.insertAll (L := latches hashtext) d [⟨t, row⟩]).1 = [] := by
  have hnone : (@Plan.insertWaits schema (latches hashtext) t d row) = [] := by
    have htaken : @Schema.taken schema d (.row t (t.key row)) = true := by
      rw [Schema.taken, h]
      rfl
    show List.map _ (List.takeWhile _ (@Schema.keys schema t row)) = []
    unfold Schema.keys
    rw [List.takeWhile_cons_of_neg]
    · rfl
    · show ¬ (!@Schema.taken schema d (.row t (t.key row))) = true
      rw [htaken]
      decide
  unfold Plan.insertAll
  split
  · exact hnone
  · rw [hnone]
    rfl

/-- A transaction that is inserted stands above the balances. -/
theorem inOrder_insertTransaction {row : TransactionRow} {k : Unit → DbTx hashtext α}
    (hl : Under 4 l)
    (hk : ∀ d' l' w', AgreeOn l d d' → Under 6 l' → rowLock .transactions row.id ∈ l' →
      Tab.check (t := .transactions) row = none → d'.transactions.find? row.id = none →
      InOrder first (k ()) (l ++ l') w' d') :
    InOrder first (.exec (.insert [⟨.transactions, row⟩]) e k) l [] d := by
  have hlocks : Plan.locksOf (L := latches hashtext) (Plan.inserts [⟨Tab.transactions, row⟩]) =
      rowLock .transactions row.id :: row.entries.map fun x => .unique (.entry x) := by
    show List.map _ (_ :: List.map _ row.entries) ++ [] = _
    rw [List.append_nil, List.map_cons, List.map_map]
    rfl
  refine inOrder_insert (fun d' hd => ?_) fun d' hd hins => hk d' _ _ hd ?_ ?_ hins.1
    (Schema.find?_of_free hins.2.1)
  · cases hfind : d'.transactions.find? row.id with
    | some old =>
        -- the row is there: the insertion fails without waiting
        have hwaits : (Plan.insertAll (L := latches hashtext) d' [⟨Tab.transactions, row⟩]).1 =
            [] := insertAll_taken hfind
        show Orderly _ l (Plan.insertAll (L := latches hashtext) d' [⟨Tab.transactions, row⟩]).1
        rw [hwaits]
        exact ⟨nofun, .nil⟩
    | none =>
        have hrank : lockRank first d' (@rowLock hashtext .transactions row.id) = 4 := by
          simp [lockRank, hfind]
        have hentry : ∀ a b c, lockRank first d' (.unique (.entry (.depositReference a b c)) :
            DbLock hashtext) = 5 := fun _ _ _ => rfl
        refine Orderly.sublist (orderly_of_under hl ?_ ?_) (hlocks ▸ insertAll_waits_sublist)
        · rcases transaction_entries row with hnone | ⟨a, b, c, hone⟩
          · simp [hnone, hrank]
          · simp [hone, hrank, hentry]
        · rcases transaction_entries row with hnone | ⟨a, b, c, hone⟩
          · simp [hnone]
          · simp [hone, hrank, hentry]
  · rw [hlocks]
    rcases transaction_entries row with hnone | ⟨a, b, c, hone⟩
    · simp [hnone, Under, lockTop]
    · simp [hone, Under, lockTop]
  · rw [hlocks]
    exact List.mem_cons_self

/-! ## The transactions -/

theorem create_inOrder (record : IdempotencyRecord) (event : OutboxEvent) (now : Time) (d : Db) :
    InOrder first (create record event now : DbTx hashtext _) [] [] d := by
  refine inOrder_insertTransaction (under_nil 4) fun d₁ l₁ w₁ _ hl₁ _ _ _ => ?_
  rw [List.nil_append]
  refine inOrder_insert_row (n := 10) (hl₁.mono (by decide)) rfl (fun _ => rfl) fun d₂ _ => ?_
  have hkey : Under 12 [@rowLock hashtext .idempotencyKeys record.key] :=
    under_singleton (by show 10 < 12; decide)
  exact inOrder_insertOutbox ((hl₁.mono (by decide)).append hkey)

theorem createDeposit_inOrder (deposit : Deposit) (event : OutboxEvent) (draws : DepositDraws)
    (now : Time) (hfirst : first (newID "le" draws.entry) = true)
    (hsecond : first (newID "le" draws.contraEntry) = false) (d : Db) :
    InOrder first (createDeposit deposit event draws now : DbTx hashtext _) [] [] d := by
  refine inOrder_latch (fun _ _ => List.forall_mem_nil _) fun d₁ _ => ?_
  have hbalance : Under 4 ([] ++ [@balanceLock hashtext deposit.transaction.accountID
      deposit.transaction.currency]) := under_singleton (by show 3 < 4; decide)
  refine inOrder_insertTransaction hbalance fun d₂ l₂ w₂ _ hl₂ hlock hcheck hnew => ?_
  -- nobody else can commit a transaction with this identifier any more
  have hown : ∀ d', AgreeOn ([] ++ [@balanceLock hashtext deposit.transaction.accountID
        deposit.transaction.currency] ++ l₂) d₂ d' →
      ownSide d' deposit.transaction.id deposit.transaction.accountID = true ∧
        ("external-settlement" ≠ deposit.transaction.accountID →
          ownSide d' deposit.transaction.id "external-settlement" = false) := by
    intro d' hd
    have hsame : d₂.transactions.find? deposit.transaction.id =
        d'.transactions.find? deposit.transaction.id :=
      hd.find? (t := .transactions) (List.mem_append_right _ hlock)
    have hnone : d'.transactions.find? deposit.transaction.id = none := hsame.symm.trans hnew
    have hfree : reserved deposit.transaction.accountID = false := nonreserved_of_check hcheck
    rw [ownSide_of_none hnone, ownSide_of_none hnone, hfree]
    exact ⟨rfl, fun _ => by decide⟩
  refine inOrder_entries ((hbalance.mono (by decide)).append hl₂) hfirst hsecond hown
    fun d₃ l₃ w₃ _ hl₃ => ?_
  have hl : Under 10 ([] ++ [@balanceLock hashtext deposit.transaction.accountID
      deposit.transaction.currency] ++ l₂ ++ l₃) :=
    ((hbalance.mono (by decide)).append (hl₂.mono (by decide))).append hl₃
  refine inOrder_sumLedger fun v d₄ _ => ?_
  refine inOrder_insert_row (n := 10) hl rfl (fun _ => rfl) fun d₅ _ => ?_
  have hkey : Under 11 [@rowLock hashtext .depositIdempotencyKeys deposit.idempotencyKey] :=
    under_singleton (by show 10 < 11; decide)
  have hl' := (hl.mono (by decide : 10 ≤ 11)).append hkey
  refine inOrder_insert_row (n := 11) hl' rfl (fun _ => rfl) fun d₆ _ => ?_
  have haction : Under 12 [@rowLock hashtext .operatorActions (newID "act" draws.action)] :=
    under_singleton (by show 11 < 12; decide)
  exact inOrder_insertOutbox ((hl'.mono (by decide)).append haction)

theorem claim_waits (delivery : Delivery) (payloadHash : Digest) (now : Time) (d : Db) :
    (@Plan.insertOrSkip schema (latches hashtext) .processedEvents
      (processedRow delivery payloadHash now) d).waits.Sublist [claimLock delivery] := by
  unfold Plan.insertOrSkip
  split
  · exact List.nil_sublist _
  · split
    · exact List.Sublist.refl _
    · split
      · exact List.Sublist.refl _
      · exact List.Sublist.refl _

/-- Claiming an event, and what follows once it has been claimed. -/
theorem consume_inOrder {delivery : Delivery} {payloadHash : Digest} {now : Time}
    {duplicate : String} {work : DbTx hashtext (DbCommit hashtext Bool)}
    (hwork : ∀ d, InOrder first work [claimLock delivery]
      [claimWrite delivery payloadHash now] d) (d : Db) :
    InOrder first (consume delivery payloadHash now duplicate work) [] [] d := by
  rw [consume_eq]
  intro d' hd
  refine ⟨orderly_of_single (Or.inr (List.forall_mem_nil _)) (claim_waits ..), fun f r hr => ?_⟩
  obtain ⟨_, ⟨_, rfl⟩ | ⟨_, rfl⟩⟩ := Plan.insertOrSkip_ok.mp hr
  · refine inOrder_update (t := .processedEvents) (Or.inr rfl) fun row d'' l' w' _ => ?_
    cases row with
    | none => trivial
    | some row =>
        show InOrder first ((if _ then _ else _) >>= _) _ _ _
        split
        · trivial
        · trivial
  · exact hwork d'

theorem saveConsumerOutbox_inOrder (delivery : Delivery) (payloadHash : Digest)
    (event : OutboxEvent) (now : Time) (d : Db) :
    InOrder first (saveConsumerOutbox delivery payloadHash event now : DbTx hashtext _) [] [] d :=
  consume_inOrder (fun _ => inOrder_insertOutbox (under_singleton (by show 1 < 12; decide))) d

/-- The end of `ProcessRiskEvaluated`. -/
theorem finalizeTransaction_inOrder {t : TransactionRow} {decision : Decision}
    {draws : LedgerDraws} {now : Time} (hl : Under 12 l) (hlock : rowLock .transactions t.id ∈ l) :
    InOrder first (finalizeTransaction t decision draws now : DbTx hashtext _) l w d := by
  refine inOrder_update (t := .transactions) (Or.inl hlock) fun row d' l' w' hl' => ?_
  cases row with
  | none => trivial
  | some row =>
      refine inOrder_insertOutbox (hl.append fun b hb => ?_)
      rw [List.mem_singleton.mp (hl' hb)]
      show 4 < 12
      decide

/-- What is left to do once the transaction is locked. -/
theorem settle_inOrder {delivery : Delivery} {event : RiskEvaluated} {draws : LedgerDraws}
    {now : Time} {t : TransactionRow} (hfirst : first (newID "le" draws.entry) = true)
    (hsecond : first (newID "le" draws.contraEntry) = false)
    (hfound : d.transactions.find? t.id = some t) :
    InOrder first (settle event draws now t : DbTx hashtext _)
      [claimLock delivery, rowLock .transactions t.id] w d := by
  have hl : Under 6 [claimLock delivery, @rowLock hashtext .transactions t.id] :=
    (under_singleton (by show 1 < 6; decide)).append (under_singleton (by show 4 < 6; decide))
  have hlock : @rowLock hashtext .transactions t.id ∈
      [claimLock delivery, rowLock .transactions t.id] :=
    List.mem_cons_of_mem _ List.mem_cons_self
  -- the row stays as it is: it is locked
  have hkept : ∀ {d₁ d₂ : Db} {l'}, rowLock .transactions t.id ∈ l' →
      d₁.transactions.find? t.id = some t → AgreeOn (L := latches hashtext) l' d₁ d₂ →
      d₂.transactions.find? t.id = some t := by
    intro d₁ d₂ l' hmem hfound hd
    exact (hd.find? (t := .transactions) hmem).symm.trans hfound
  cases happ : event.approved with
  | false =>
      rw [settle_rejected happ]
      exact finalizeTransaction_inOrder (hl.mono (by decide)) hlock
  | true =>
      rw [settle_approved happ]
      refine inOrder_latch (fun d₁ hd₁ b hb => ?_) fun d₁ hd₁ => ?_
      · rcases List.mem_cons.mp hb with rfl | hb
        · show 1 < 3
          decide
        · rw [List.mem_singleton.mp hb]
          simp [lockRank, hkept hlock hfound hd₁]
      have hl₁ : Under 6 ([claimLock delivery, @rowLock hashtext .transactions t.id] ++
          [balanceLock t.accountID t.currency]) :=
        hl.append (under_singleton (by show 3 < 6; decide))
      have hlock₁ := List.mem_append_left [@balanceLock hashtext t.accountID t.currency] hlock
      have hfound₁ := hkept hlock hfound hd₁
      refine inOrder_sumLedger fun balance d₂ hd₂ => ?_
      have hfound₂ := hkept hlock₁ hfound₁ hd₂
      split
      · exact finalizeTransaction_inOrder (hl₁.mono (by decide)) hlock₁
      · refine inOrder_entries hl₁ hfirst hsecond (fun d₃ hd₃ => ?_) fun d₃ l₃ w₃ _ hl₃ => ?_
        · have hfound₃ := hkept hlock₁ hfound₂ hd₃
          rw [ownSide_of_some hfound₃, ownSide_of_some hfound₃]
          exact ⟨beq_self_eq_true _, fun hne => beq_eq_false_iff_ne.mpr hne.symm⟩
        · exact finalizeTransaction_inOrder
            ((hl₁.mono (by decide)).append (hl₃.mono (by decide))) (List.mem_append_left _ hlock₁)

theorem processRiskEvaluated_inOrder (delivery : Delivery) (payloadHash : Digest)
    (event : RiskEvaluated) (draws : LedgerDraws) (now : Time)
    (hfirst : first (newID "le" draws.entry) = true)
    (hsecond : first (newID "le" draws.contraEntry) = false) (d : Db) :
    InOrder first (processRiskEvaluated delivery payloadHash event draws now : DbTx hashtext _)
      [] [] d := by
  refine consume_inOrder (fun d => ?_) d
  rw [lockPendingTransaction_bind]
  have hclaim : Under 2 [@claimLock hashtext delivery] := under_singleton (by show 1 < 2; decide)
  refine inOrder_lockTransaction hclaim (fun _ => rfl) fun d' => ?_
  cases hc : checkPending event (d'.transactions.find? event.transactionID) with
  | error x =>
      rw [whenPending_error hc]
      trivial
  | ok t =>
      rw [whenPending_ok hc]
      have hfound := (checkPending_ok.mp hc).1
      have hid : t.id = event.transactionID := Table.key_of_find? hfound
      rw [hfound, ← hid]
      rw [← hid] at hfound
      exact settle_inOrder hfirst hsecond hfound

theorem planPrune_waits (f : DbLock hashtext → Bool) (d : Db) (cutoff : Time) (batchSize : Int) :
    (planPrune f d cutoff batchSize : DbPlan hashtext Nat).waits = [] := by
  unfold planPrune
  split <;> rfl

theorem pruneProcessedEvents_inOrder (cutoff : Time) (batchSize : Int) (reason target : String)
    (action : Random) (d : Db) :
    InOrder first (pruneProcessedEvents cutoff batchSize reason target action :
      DbTx hashtext _) [] [] d := by
  intro d₁ _
  refine ⟨⟨fun _ _ _ => List.forall_mem_nil _, List.pairwise_singleton _ _⟩, fun f r hr => ?_⟩
  cases hr
  intro d₂ _
  refine ⟨?_, fun f r hr => ?_⟩
  · -- locked claims are skipped
    show Orderly _ _ (planPrune (fun _ => false) (view d₂ []) cutoff batchSize :
      DbPlan hashtext Nat).waits
    rw [planPrune_waits]
    exact ⟨nofun, .nil⟩
  · obtain ⟨rows, _, hwrites, hlocks⟩ := planPrune_ok hr
    have hsingle : Under 11 ([] ++ [(.named (.single (hashtext "processed-event-prune")) :
        DbLock hashtext)]) := under_singleton (by show 0 < 11; decide)
    have hclaims : Under 11 r.locks := by
      rw [hlocks, hwrites]
      intro b hb
      obtain ⟨x, hx, hb⟩ := List.mem_flatMap.mp hb
      obtain ⟨row, _, rfl⟩ := List.mem_map.mp hx
      rw [List.mem_singleton.mp hb]
      show 1 < 11
      decide
    refine inOrder_insert_row (n := 11) (hsingle.append hclaims) rfl (fun _ => rfl) ?_
    exact fun _ _ => trivial

end

/-! ## No deadlock -/

/-- The transactions of the services; `first` tells the identifiers of first entries. -/
def transactions (first : String → Bool) : Call → Bool
  | .create .. | .saveConsumerOutbox .. | .pruneProcessedEvents .. => true
  | .createDeposit _ _ draws _ =>
      first (newID "le" draws.entry) && !first (newID "le" draws.contraEntry)
  | .processRiskEvaluated _ _ _ draws _ =>
      first (newID "le" draws.entry) && !first (newID "le" draws.contraEntry)
  | _ => false

theorem transactions_inOrder {hashtext : String → Int} {first : String → Bool} {c : Call}
    (hc : transactions first c = true) {e : Fault schema → Error}
    {tx : DbTx hashtext (DbCommit hashtext c.Reply)}
    (hm : (store hashtext).method c = .transaction e tx) (d : Db) : InOrder first tx [] [] d := by
  cases c with
  | create record event now =>
      cases hm
      exact create_inOrder record event now d
  | createDeposit deposit event draws now =>
      cases hm
      simp only [transactions, Bool.and_eq_true, Bool.not_eq_true'] at hc
      exact createDeposit_inOrder deposit event draws now hc.1 hc.2 d
  | saveConsumerOutbox delivery payloadHash event now =>
      cases hm
      exact saveConsumerOutbox_inOrder delivery payloadHash event now d
  | processRiskEvaluated delivery payloadHash event draws now =>
      cases hm
      simp only [transactions, Bool.and_eq_true, Bool.not_eq_true'] at hc
      exact processRiskEvaluated_inOrder delivery payloadHash event draws now hc.1 hc.2 d
  | pruneProcessedEvents cutoff batchSize reason target action =>
      cases hm
      exact pruneProcessedEvents_inOrder cutoff batchSize reason target action d
  | _ => cases hc

/-- The transactions, called directly. -/
def onlyTransactions (first : String → Bool) : Request → Bool
  | .store c => transactions first c
  | _ => false

/-- In no state of any run do transactions wait for each other in a circle. -/
theorem waits_acyclic (P : Platform) (first : String → Bool) (d : Db)
    (es : List (Transact.Event (system P (.only (onlyTransactions first)))))
    (s : SystemState P (.only (onlyTransactions first)))
    (h : (State.init d () : SystemState P (.only (onlyTransactions first))).steps es = some s)
    (waits : Nat → Option (DbLock P.hashtext)) (hw : s.Waiting waits) (i : Nat) :
    ¬ Relation.TransGen (s.WaitsFor waits) i i := by
  refine acyclic_reach (fun c => transactions first c = true) (store_sound P.hashtext)
    (fun c hc e tx hm d => transactions_inOrder hc hm d) ?_ h hw i
  intro w r w' hr c hc
  have honly : onlyTransactions first r = true := @Policy.accept_only _ w w' r hr
  cases r with
  | store c' =>
      cases hc with
      | here => exact honly
      | later _ hlater => exact (calls_ret hlater).elim
  | _ => cases honly

/-- A deposit to an account. -/
def bankTransfer (id key : String) : Transaction :=
  { id, kind := .deposit, accountID := "alice", fundingSource := "bank", externalRef := key
    amountCents := 100, currency := "USD", status := .authorized, correlationID := "cor_1"
    createdAt := 0, updatedAt := 0 }

/-- The deposit, stored directly. -/
def depositing (id key : String) (entry contraEntry : Random) : Request :=
  .store (.createDeposit
    { idempotencyKey := key, requestHash := .fill 64 0, operatorReason := "top up"
      transaction := bankTransfer id key }
    { id := "evt_" ++ id, type := .fundsDeposited, aggregateID := id, partitionKey := "alice"
      correlationID := "cor_1", payload := .transaction (bankTransfer id key)
      status := .pending, createdAt := 0 }
    ⟨entry, contraEntry, .fill 32 0xe⟩ 0)

/-- The identifiers of first entries. -/
def firstEntries (id : String) : Bool :=
  id == newID "le" (.fill 32 0xa) || id == newID "le" (.fill 32 0xb)

/-- Two deposits to one account; the first has locked the balance. -/
def twoDeposits : List (Transact.Event (system .plain (.only (onlyTransactions firstEntries)))) :=
  [.arrive (depositing "txn_1" "key_1" (.fill 32 0xa) (.fill 32 0xc)),
   .arrive (depositing "txn_2" "key_2" (.fill 32 0xb) (.fill 32 0xd)),
   .run 0, .run 1, .run 0]

theorem waits_acyclic_twoDeposits :
    ∃ (s : SystemState .plain (.only (onlyTransactions firstEntries)))
      (waits : Nat → Option (DbLock Platform.plain.hashtext)),
      s.WaitsFor waits 1 0 ∧ ∀ i, ¬ Relation.TransGen (s.WaitsFor waits) i i := by
  have hrun : ((State.init Db.empty () :
      SystemState .plain (.only (onlyTransactions firstEntries))).steps twoDeposits).map (fun s =>
        (s.tasks[0]?.any fun t => decide (balanceLock "alice" "USD" ∈ t.proc.locks),
          s.tasks[1]?.any fun t => decide (balanceLock "alice" "USD" ∈ t.proc.asks s.db ∧
            balanceLock "alice" "USD" ∉ t.proc.locks))) = some (true, true) := by
    decide +kernel
  obtain ⟨s, hs, heq⟩ := Option.map_eq_some_iff.mp hrun
  obtain ⟨hholds, hasks⟩ := Prod.mk.inj heq
  obtain ⟨t₀, ht₀, hheld⟩ := Option.any_eq_true _ _ |>.mp hholds
  obtain ⟨t₁, ht₁, hasks⟩ := Option.any_eq_true _ _ |>.mp hasks
  have hasks := of_decide_eq_true hasks
  let waits : Nat → Option (DbLock Platform.plain.hashtext) := fun i =>
    if i = 1 then some (balanceLock "alice" "USD") else none
  have hwaiting : s.Waiting waits := by
    intro i a ha
    obtain ⟨rfl, rfl⟩ : i = 1 ∧ balanceLock "alice" "USD" = a := by
      simpa [waits] using ha
    exact ⟨t₁, ht₁, hasks⟩
  refine ⟨s, waits, ⟨balanceLock "alice" "USD", rfl, t₀, ht₀, Or.inl (of_decide_eq_true hheld)⟩, ?_⟩
  exact waits_acyclic .plain firstEntries Db.empty twoDeposits s hs waits hwaiting

end Clearance
