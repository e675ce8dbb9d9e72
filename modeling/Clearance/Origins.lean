/-
# `Clearance.Origins` — where transactions come from

A transaction comes with the records of the request behind it: a payment with its
idempotency key and the event that announces it, a deposit with its key, its event and
the operator's action.  `Documented` says that the books list them side by side, so each
transaction has exactly one of each.

Keys and external references are never given up.  The two key tables and the index of
external references are registers (`Transact.Register`), filled by `Create` and
`CreateDeposit`.
-/
import Clearance.Payments
import Clearance.Transact.Register

namespace Clearance

open Transact

/-! ## Records that come with a transaction -/

/-- The transactions of a kind. -/
def Books.ids (b : Books) (kind : TransactionKind) : List String :=
  (b.transactions.filter fun t => t.kind == kind).map TransactionRow.id

/-- What the events of a type are about. -/
def Books.subjects (b : Books) (type : EventType) : List String :=
  (b.events.filter fun e => e.type == type).map Event.aggregateID

/-- Every transaction comes with the records of its request. -/
structure Documented (b : Books) : Prop where
  created : b.subjects .transactionCreated = b.ids .payment
  keys : b.keys.map IdempotencyRow.transactionID = b.ids .payment
  deposited : b.subjects .fundsDeposited = b.ids .deposit
  depositKeys : b.depositKeys.map DepositKeyRow.transactionID = b.ids .deposit
  depositActions : b.depositActions.map ActionRow.targetID = b.ids .deposit

theorem Documented.empty : Documented Db.empty.books := ⟨rfl, rfl, rfl, rfl, rfl⟩

section

variable {b b' : Books}

theorem Books.ids_append {rows : List TransactionRow} (h : b'.transactions = b.transactions ++ rows)
    (kind : TransactionKind) : b'.ids kind =
      b.ids kind ++ (rows.filter fun t => t.kind == kind).map TransactionRow.id := by
  rw [ids, ids, h, List.filter_append, List.map_append]

theorem Books.subjects_append {e : Event} (h : b'.events = b.events ++ [e]) (type : EventType) :
    b'.subjects type = b.subjects type ++ if e.type = type then [e.aggregateID] else [] := by
  rw [subjects, subjects, h, List.filter_append, List.map_append]
  by_cases he : e.type = type
  · simp [he]
  · simp [he]

/-- A decision changes neither the kind of a transaction nor its id. -/
theorem Books.ids_settled {l₁ l₂ : List TransactionRow} {t : TransactionRow} {u : Finalize}
    (h : b.transactions = l₁ ++ t :: l₂) (h' : b'.transactions = l₁ ++ u.apply t :: l₂)
    (kind : TransactionKind) : b'.ids kind = b.ids kind := by
  have hkind : (u.apply t).kind = t.kind := rfl
  have hid : (u.apply t).id = t.id := rfl
  simp only [ids, h, h', List.filter_append, List.filter_cons, hkind, List.map_append]
  split
  · simp only [List.map_cons, hid]
  · rfl

theorem not_isOutcome {type : EventType} (h : type.isOutcome = true) :
    type ≠ .transactionCreated ∧ type ≠ .riskEvaluated ∧ type ≠ .fundsDeposited := by
  cases type with
  | transactionAuthorized => exact ⟨nofun, nofun, nofun⟩
  | transactionFailed => exact ⟨nofun, nofun, nofun⟩
  | _ => cases h

theorem Documented.step {c : Call} (h : Documented b) (hc : c.Proper) (hs : b.Step c b') :
    Documented b' := by
  cases hs with
  | idle => exact h
  | pruned _ => exact ⟨h.created, h.keys, h.deposited, h.depositKeys, h.depositActions⟩
  | @created record event now _ _ _ _ =>
      have hc : NewPayment record event := hc
      have htype : event.content.type = .transactionCreated := hc.type
      have hsubject : event.content.aggregateID = record.transaction.id := hc.aggregate
      constructor
      · rw [Books.ids_append rfl, Books.subjects_append rfl, h.created, htype, if_pos rfl, hsubject]
        rfl
      · rw [Books.ids_append rfl, List.map_append, h.keys]
        rfl
      · rw [Books.ids_append rfl, Books.subjects_append rfl, h.deposited, htype]
        rfl
      · rw [Books.ids_append rfl, h.depositKeys]
        exact (List.append_nil _).symm
      · rw [Books.ids_append rfl, h.depositActions]
        exact (List.append_nil _).symm
  | @deposited deposit event draws now response _ _ _ _ _ =>
      have hc : NewDeposit deposit event := hc
      have htype : event.content.type = .fundsDeposited := hc.type
      have hsubject : event.content.aggregateID = deposit.transaction.id := hc.aggregate
      have hkind : (depositRow deposit.transaction).kind = .deposit := hc.kind
      have hother : ([depositRow deposit.transaction].filter fun t => t.kind == .payment) = [] := by
        simp [hkind]
      have hself : ([depositRow deposit.transaction].filter fun t => t.kind == .deposit) =
          [depositRow deposit.transaction] := by simp [hkind]
      constructor
      · rw [Books.ids_append rfl, Books.subjects_append rfl, h.created, htype, hother]
        rfl
      · rw [Books.ids_append rfl, h.keys, hother]
        exact (List.append_nil _).symm
      · rw [Books.ids_append rfl, Books.subjects_append rfl, h.deposited, htype, if_pos rfl,
          hsubject, hself]
        rfl
      · rw [Books.ids_append rfl, List.map_append, h.depositKeys, hself]
        rfl
      · rw [Books.ids_append rfl, List.map_append, h.depositActions, hself]
        rfl
  | @evaluated _ _ event _ _ _ =>
      have hc : NewEvaluation event := hc
      have htype : event.content.type = .riskEvaluated := hc.type
      refine ⟨?_, h.keys, ?_, h.depositKeys, h.depositActions⟩
      · rw [Books.subjects_append rfl, htype]
        exact (List.append_nil _).trans h.created
      · rw [Books.subjects_append rfl, htype]
        exact (List.append_nil _).trans h.deposited
  | @settled _ _ event draws now l₁ l₂ t decision _ _ ht _ _ hdec _ =>
      have hout : (decision.event t draws now).content.type.isOutcome = true := by
        rw [hdec]
        exact decisionOf_type event t _
      obtain ⟨hcreated, -, hdeposited⟩ := not_isOutcome hout
      have hids : ∀ kind, Books.ids { b with
          transactions := l₁ ++ (decision.finalize now).apply t :: l₂ } kind = b.ids kind :=
        Books.ids_settled ht rfl
      refine ⟨?_, h.keys.trans (hids _).symm, ?_, h.depositKeys.trans (hids _).symm,
        h.depositActions.trans (hids _).symm⟩
      · rw [Books.subjects_append rfl, if_neg hcreated, List.append_nil]
        exact h.created.trans (hids _).symm
      · rw [Books.subjects_append rfl, if_neg hdeposited, List.append_nil]
        exact h.deposited.trans (hids _).symm

/-- The transactions of a kind, as rows. -/
def Db.ofKind (d : Db) (kind : TransactionKind) : List TransactionRow :=
  d.transactions.rows.filter fun t => t.kind == kind

/-- The events of a type, as rows. -/
def Db.ofType (d : Db) (type : EventType) : List OutboxRow :=
  d.outboxEvents.rows.filter fun r => r.eventType == type

theorem Db.map_ofType (d : Db) (type : EventType) :
    (d.ofType type).map OutboxRow.aggregateID = d.books.subjects type := by
  show _ = ((d.outboxEvents.rows.map OutboxRow.content).filter _).map Event.aggregateID
  rw [List.filter_map, List.map_map]
  rfl

theorem Db.nodup_ofKind (d : Db) (kind : TransactionKind) :
    ((d.ofKind kind).map TransactionRow.id).Nodup :=
  d.transactions.nodup.sublist (List.filter_sublist.map _)

/-- Transactions of a kind go with rows that name them. -/
theorem Db.oneToOne {d : Db} {kind : TransactionKind} {ρ : Type} {rows : List ρ} {f : ρ → String}
    (h : rows.map f = d.books.ids kind) :
    OneToOne (fun t r => TransactionRow.id t = f r) (d.ofKind kind) rows :=
  .of_perm (List.Perm.of_eq h.symm) (d.nodup_ofKind kind)

/-! ## Registers -/

theorem Books.Step.keys_grow {c : Call} (h : b.Step c b') : b'.keys = b.keys ∨
    ∃ record event now, c = .create record event now ∧
      b'.keys = b.keys ++ [idempotencyRow record] := by
  cases h with
  | created _ _ _ _ => exact Or.inr ⟨_, _, _, rfl, rfl⟩
  | _ => exact Or.inl rfl

theorem Books.Step.depositKeys_grow {c : Call} (h : b.Step c b') : b'.depositKeys = b.depositKeys ∨
    ∃ deposit event draws now response, c = .createDeposit deposit event draws now ∧
      b'.depositKeys = b.depositKeys ++ [depositKeyRow deposit response] := by
  cases h with
  | deposited _ _ _ _ _ => exact Or.inr ⟨_, _, _, _, _, rfl, rfl⟩
  | _ => exact Or.inl rfl

/-- External references, each with its deposit. -/
def TransactionRow.references (t : TransactionRow) : List (Ix × String) :=
  t.entries.map fun x => (x, t.id)

def Books.references (b : Books) : List (Ix × String) :=
  b.transactions.flatMap TransactionRow.references

theorem Books.mem_references {x : Ix} {id : String} :
    (x, id) ∈ b.references ↔ ∃ t ∈ b.transactions, x ∈ t.entries ∧ t.id = id := by
  simp only [references, TransactionRow.references, List.mem_flatMap, List.mem_map, Prod.mk.injEq]
  constructor
  · rintro ⟨t, ht, x', hx, rfl, rfl⟩
    exact ⟨t, ht, hx, rfl⟩
  · rintro ⟨t, ht, hx, rfl⟩
    exact ⟨t, ht, x, hx, rfl, rfl⟩

/-- The external reference of a deposit. -/
def Transaction.reference (t : Transaction) : Ix :=
  .depositReference t.fundingSource t.externalRef t.currency

theorem depositRow_entries (t : Transaction) :
    (depositRow t).entries = [] ∨ (depositRow t).entries = [t.reference] := by
  unfold TransactionRow.entries depositRow
  cases t.kind with
  | payment => exact Or.inl rfl
  | deposit => exact Or.inr rfl

theorem Books.Step.references_grow {c : Call} (h : b.Step c b') : b'.references = b.references ∨
    ∃ deposit event draws now, c = .createDeposit deposit event draws now ∧
      (∀ r ∈ b.references, r.1 ≠ deposit.transaction.reference) ∧
      b'.references = b.references ++ [(deposit.transaction.reference, deposit.transaction.id)] := by
  cases h with
  | idle | evaluated _ _ | pruned _ => exact Or.inl rfl
  | created _ _ _ _ =>
      left
      rw [Books.references, List.flatMap_append]
      exact List.append_nil _
  | @deposited deposit _ _ _ _ _ hdisjoint _ _ _ =>
      rw [Books.references, List.flatMap_append, List.flatMap_singleton, TransactionRow.references]
      rcases depositRow_entries deposit.transaction with hnil | hone
      · rw [hnil]
        exact Or.inl (List.append_nil _)
      · rw [hone]
        refine Or.inr ⟨_, _, _, _, rfl, fun r hr heq => ?_, rfl⟩
        obtain ⟨t, ht, hx, -⟩ := Books.mem_references.mp hr
        refine hdisjoint t ht (a := deposit.transaction.reference) ?_ (heq ▸ hx)
        rw [hone]
        exact List.mem_singleton_self _
  | settled _ _ ht _ _ _ _ =>
      left
      rw [Books.references, Books.references, ht, List.flatMap_append, List.flatMap_append]
      rfl

/-- No external reference is used twice. -/
def Books.Distinct (b : Books) : Prop := (b.references.map Prod.fst).Nodup

theorem Books.Distinct.step {c : Call} (h : b.Distinct) (hs : b.Step c b') : b'.Distinct := by
  unfold Books.Distinct
  rcases hs.references_grow with heq | ⟨deposit, _, _, _, _, hfresh, heq⟩
  · rw [heq]
    exact h
  · rw [heq, List.map_append, List.nodup_append]
    refine ⟨h, List.nodup_singleton _, fun x hx y hy => ?_⟩
    obtain ⟨r, hr, rfl⟩ := List.mem_map.mp hx
    rw [List.mem_singleton.mp hy]
    exact hfresh r hr

/-- So it says which deposit it is. -/
theorem Books.Distinct.eq {d : Db} (h : d.books.Distinct) {t t' : TransactionRow} {x : Ix}
    (ht : t ∈ d.transactions.rows) (ht' : t' ∈ d.transactions.rows) (hx : x ∈ t.entries)
    (hx' : x ∈ t'.entries) : t = t' := by
  have hr : (x, t.id) ∈ d.books.references := Books.mem_references.mpr ⟨t, ht, hx, rfl⟩
  have hr' : (x, t'.id) ∈ d.books.references := Books.mem_references.mpr ⟨t', ht', hx', rfl⟩
  have heq := List.inj_on_of_nodup_map h hr hr' rfl
  exact d.transactions.eq_of_key_eq ht ht' (Prod.mk.inj heq).2

end

section

variable (hashtext : String → Int)

/-- The idempotency keys of payments. -/
def paymentKeys : Register (contract hashtext) String IdempotencyRow :=
  .appended (fun d => Db.books d |>.keys) IdempotencyRow.key
    (fun c r => ∃ record event now, c = .create record event now ∧ r = idempotencyRow record)
    fun ho => (allows_outcome ho).step.keys_grow.imp id
      fun ⟨record, event, now, hc, hrows⟩ => ⟨_, ⟨record, event, now, hc, rfl⟩, hrows⟩

/-- The idempotency keys of deposits. -/
def depositKeys : Register (contract hashtext) String DepositKeyRow :=
  .appended (fun d => Db.books d |>.depositKeys) DepositKeyRow.key
    (fun c r => ∃ deposit event draws now response, c = .createDeposit deposit event draws now ∧
      r = depositKeyRow deposit response)
    fun ho => (allows_outcome ho).step.depositKeys_grow.imp id
      fun ⟨deposit, event, draws, now, response, hc, hrows⟩ =>
        ⟨_, ⟨deposit, event, draws, now, response, hc, rfl⟩, hrows⟩

/-- The external references of deposits. -/
def depositReferences : Register (contract hashtext) Ix (Ix × String) :=
  .appended (fun d => Db.books d |>.references) Prod.fst
    (fun c r => ∃ deposit event draws now, c = .createDeposit deposit event draws now ∧
      r = (deposit.transaction.reference, deposit.transaction.id))
    fun ho => (allows_outcome ho).step.references_grow.imp id
      fun ⟨deposit, event, draws, now, hc, _, hrows⟩ =>
        ⟨_, ⟨deposit, event, draws, now, hc, rfl⟩, hrows⟩

variable {hashtext}

/-- A reference is taken if a deposit has it. -/
theorem depositReferences_look {d : Db} {x : Ix} {r : Ix × String}
    (h : (depositReferences hashtext).look d x = some r) :
    ∃ t ∈ d.transactions.rows, x ∈ t.entries := by
  have hr := List.mem_of_find?_eq_some h
  have hx : r.1 = x := by simpa using List.find?_some h
  obtain ⟨t, ht, hentry, -⟩ := Books.mem_references.mp hr
  exact ⟨t, ht, hx ▸ hentry⟩

variable (hashtext) in
theorem depositReferences_look_isSome {d : Db} {x : Ix} {t : TransactionRow}
    (ht : t ∈ d.transactions.rows) (hx : x ∈ t.entries) :
    ∃ r, (depositReferences hashtext).look d x = some r := by
  refine Option.isSome_iff_exists.mp (List.find?_isSome.mpr ⟨(x, t.id), ?_, by simp⟩)
  exact Books.mem_references.mpr ⟨t, ht, hx, rfl⟩

end

/-! ## Runs of the services -/

/-- The error an operation has reported to its caller. -/
def told {P : Platform} (e : LogEntry P) : Option Error :=
  match e.op.answer with
  | .ok _ => none
  | .error err => some err

theorem told_eq_some {P : Platform} {e : LogEntry P} {err : Error} (h : e.op.answer = .error err) :
    told e = some err := by
  rw [told, h]

/-- Call `i` has found this database when it was made. -/
def Began {P : Platform} {policy : Policy} (s : SystemState P policy) (i : Nat) (start : Db) :
    Prop :=
  s.tasks[i]?.map Task.start = some start

section

variable {P : Platform} {s : SystemState P (.only services)}

/-- What is known of every run of the services. -/
structure Run (s : SystemState P (.only services)) : Prop where
  reach : AReach (contract P.hashtext) ⟨Db.empty, (), [], []⟩ s.abs
  traced : Traced (contract P.hashtext) s.abs
  served : ∀ t ∈ s.abs.tasks, services t.request = true
  balanced : Balanced s.db.books
  documented : Documented s.db.books
  distinct : s.db.books.Distinct

theorem Run.of_steps {es : List (Transact.Event (system P (.only services)))}
    (h : (State.init Db.empty () : SystemState P (.only services)).steps es = some s) :
    Run s := by
  have hreach := State.reach_abs (store_sound P.hashtext) h
  have hbooks : ∀ {I : Books → Prop}, I Db.empty.books →
      (∀ {b b' c}, I b → Call.Proper c → b.Step c b' → I b') → I s.db.books :=
    fun h₀ hstep => books_reach (admits_services P) hstep h₀ h
  refine ⟨hreach, traced_reach hreach, ?_, ?_, ?_, ?_⟩
  · exact requests_reach (fun {w _ _} hw => Policy.accept_only (w := w) hw) hreach
  · exact hbooks Balanced.empty fun hb hc hs => hb.step hc hs
  · exact hbooks Documented.empty fun hb hc hs => hb.step hc hs
  · exact hbooks List.nodup_nil fun hb _ hs => hb.step hs

theorem Run.allowed (h : Run s) (i : Nat) :
    ∀ x ∈ own i s.log, (contract P.hashtext).Allows x.call x.op :=
  fun x hx => h.traced.allowed x (mem_of_own hx)

/-- What was there when a call began is there at each of its operations. -/
theorem Run.began {κ β : Type} (h : Run s) {R : Register (contract P.hashtext) κ β} {i : Nat}
    {start : Db} (hbegan : Began s i start) {k : κ} {v : β} (hv : R.look start k = some v) :
    R.look s.db k = some v ∧ ∀ x ∈ own i s.log, R.look x.op.before k = some v := by
  obtain ⟨t, ht, rfl⟩ := Option.map_eq_some_iff.mp hbegan
  have hstarted := Register.started (R := R) h.reach i t.abs (State.abs_tasks ht)
  exact ⟨hstarted.now hv, hstarted.before hv⟩

end

end Clearance
