/-
# `Clearance.Deposits` — one deposit per key and per external reference

`Deposit` can lose a race twice: for its idempotency key, and for its external reference.
`CreateDeposit` meets the reference first, so a second call for the same deposit is told
that the reference is taken, and only the key says that it was taken by the same request.
Both are registers, filled by the same commit: whoever finds the reference of a deposit
taken by this deposit finds its key, too.

`deposit_idempotent` is what follows for callers.
-/
import Clearance.Constraints
import Clearance.Origins

namespace Clearance

open Transact

/-! ## What a conflict means -/

section

variable {hashtext : String → Int} {α : Type} {d : Db} {w w' : List schema.Write}
  {res : Except Error α}

/-- An insertion fails, or goes through. -/
theorem RunsTo.insert_cases {rows : List Row} {e : Fault schema → Error}
    {k : Unit → DbTx hashtext (DbCommit hashtext α)}
    (h : RunsTo (.exec (.insert rows) e k) d w res w') :
    (∃ x, (Plan.insert rows (view d w) : DbPlan hashtext Unit).result = .error x ∧
        res = .error (e x)) ∨
      RunsTo (k ()) d (w ++ Plan.inserts rows) res w' := by
  obtain ⟨f, ⟨x, hx, hres, -⟩ | ⟨r, hx, hk⟩⟩ := Tx.Runs.cases _ h
  · exact Or.inl ⟨x, hx, hres⟩
  · obtain ⟨-, -, rfl⟩ := Plan.insert_ok.mp hx
    exact Or.inr hk

theorem failing_is (message : String) (x : Fault schema) (s : Sentinel) :
    (failing message x).is s = false := rfl

/-- The CHECKs of a transaction are not named like the index of external references. -/
theorem check_ne_reference {r : TransactionRow} {c : String}
    (h : Tab.check (t := .transactions) r = some c) :
    c ≠ "ux_transactions_deposit_source_reference" := by
  have hmem : c ∈ r.checks.map Prod.fst := by
    have h : firstViolated r.checks = some c := h
    unfold firstViolated at h
    obtain ⟨x, hx, rfl⟩ := Option.map_eq_some_iff.mp h
    exact List.mem_map_of_mem (List.mem_of_find?_eq_some hx)
  rintro rfl
  simp [TransactionRow.checks] at hmem

/-- Only the external reference is reported as such. -/
theorem depositError_is {t : Transaction} {x : Fault schema}
    (hx : (Plan.insert [⟨.transactions, depositRow t⟩] d : DbPlan hashtext Unit).result = .error x) :
    (depositError x).is .depositIdempotencyConflict = false ∧
      ((depositError x).is .externalReferenceConflict = true →
        ∃ u ∈ (depositRow t).entries, @Schema.present schema d u = true) := by
  unfold depositError
  split
  · next hname =>
      refine ⟨rfl, fun _ => ?_⟩
      rcases @Plan.insert_error schema _ .transactions _ _ _ hx with
        ⟨c, rfl, hc⟩ | ⟨u, hu, rfl, htaken⟩ | rfl
      · exact absurd (beq_iff_eq.mp hname) (check_ne_reference hc)
      · rcases List.mem_cons.mp hu with rfl | hu
        · cases hname
        · obtain ⟨y, hy, rfl⟩ := List.mem_map.mp hu
          exact ⟨y, hy, htaken⟩
      · cases hname
  · exact ⟨rfl, nofun⟩

/-- Only the idempotency key is reported as such. -/
theorem keyError_is {row : DepositKeyRow} {x : Fault schema}
    (hx : (Plan.insert [⟨.depositIdempotencyKeys, row⟩] d : DbPlan hashtext Unit).result = .error x)
    (message : String) :
    (keyError .depositIdempotencyConflict message x).is .externalReferenceConflict = false ∧
      ((keyError .depositIdempotencyConflict message x).is .depositIdempotencyConflict = true →
        d.depositIdempotencyKeys.find? row.key ≠ none) := by
  unfold keyError
  split
  · next hunique =>
      refine ⟨rfl, fun _ => ?_⟩
      rcases @Plan.insert_error schema _ .depositIdempotencyKeys _ _ _ hx with
        ⟨c, rfl, -⟩ | ⟨u, hu, rfl, htaken⟩ | rfl
      · cases hunique
      · obtain rfl := List.mem_singleton.mp hu
        exact find?_ne_none_of_taken (t := .depositIdempotencyKeys) htaken
      · cases hunique
  · exact ⟨rfl, fun h => by cases h⟩

/-- What the two conflicts mean. -/
structure DepositConflict (deposit : Deposit) (d : Db) (e : Error) : Prop where
  key : e.is .depositIdempotencyConflict = true →
    d.depositIdempotencyKeys.find? deposit.idempotencyKey ≠ none
  reference : e.is .externalReferenceConflict = true →
    ∃ x ∈ (depositRow deposit.transaction).entries, @Schema.present schema d x = true

theorem DepositConflict.failing (deposit : Deposit) (d : Db) (message : String) (x : Fault schema) :
    DepositConflict deposit d (failing message x) :=
  ⟨nofun, nofun⟩

theorem createDeposit_conflict {deposit : Deposit} {event : OutboxEvent} {draws : DepositDraws}
    {now : Time} {e : Error}
    (h : RunsTo (createDeposit deposit event draws now : DbTx hashtext _) d [] (.error e) w) :
    DepositConflict deposit d e := by
  have h := RunsTo.latch h
  obtain ⟨x, hx, herr⟩ | h := RunsTo.insert_cases h
  · cases herr
    obtain ⟨hkey, href⟩ := depositError_is hx
    exact ⟨fun h => absurd h (by rw [hkey]; nofun), href⟩
  obtain ⟨x, hx, herr⟩ | h := RunsTo.insert_cases h
  · cases herr
    exact .failing deposit d _ x
  obtain ⟨-, herr, -⟩ | ⟨-, h⟩ := RunsTo.sumLedger h
  · cases herr
    exact .failing deposit d _ _
  obtain ⟨x, hx, herr⟩ | h := RunsTo.insert_cases h
  · cases herr
    obtain ⟨href, hkey⟩ := keyError_is hx "insert deposit idempotency key"
    exact ⟨hkey, fun h => absurd h (by rw [href]; nofun)⟩
  obtain ⟨x, hx, herr⟩ | h := RunsTo.insert_cases h
  · cases herr
    exact .failing deposit d _ x
  obtain ⟨x, hx, herr⟩ | h := RunsTo.insert_cases h
  · cases herr
    exact .failing deposit d _ x
  cases h.ret.1

end

namespace FundingService

section

variable {P : Platform} {policy : Policy}

/-! ## Calls -/

/-- The key of a request and the request, both as they are normalized, if they are valid. -/
def accepted (maxAmountCents : Int64) (request : DepositRequest) (metadata : RequestMetadata)
    (trace : Random) : Option (String × DepositRequest) :=
  (validate maxAmountCents request metadata trace).toOption.map fun n => (n.2.idempotencyKey, n.1)

/-- What a call asks for. -/
def asked : Task (system P policy) → Option (String × DepositRequest)
  | ⟨.deposit maxAmountCents request metadata draws, _, _⟩ =>
      accepted maxAmountCents request metadata draws.trace
  | _ => none

/-- What a call has returned. -/
def returned : Task (system P policy) → Option (Except Error DepositResponse)
  | ⟨.deposit _ _ _ _, _, .idle (.ret result)⟩ => some result
  | _ => none

/-- Call `i` asks for `request` under `key`. -/
def Asks (s : SystemState P policy) (i : Nat) (key : String) (request : DepositRequest) : Prop :=
  s.tasks[i]?.bind asked = some (key, request)

/-- Call `i` has returned. -/
def Returned (s : SystemState P policy) (i : Nat) (result : Except Error DepositResponse) : Prop :=
  s.tasks[i]?.bind returned = some result

/-- The deposit an operation has committed, whatever its caller was told. -/
def credited : LogEntry P → Option Deposit
  | ⟨_, .createDeposit deposit _ _ _, ⟨_, .ok _, _, _, _, _⟩⟩ => some deposit
  | _ => none

/-- Call `i` has committed a deposit. -/
def Credited (s : SystemState P policy) (i : Nat) : Prop :=
  ∃ e ∈ s.log, e.task = i ∧ (credited e).isSome = true

/-- The store has not failed call `i`: it has been told of nothing worse than a key or a
reference that is taken. -/
def Unfailed (s : SystemState P policy) (i : Nat) : Prop :=
  ∀ e ∈ own i s.log, ∀ err, e.op.answer = .error err → beatenBy err = true

/-- No two requests of the run have the same SHA-256. -/
def CollisionFree (s : SystemState P policy) : Prop :=
  ∀ i j key key' request request', Asks s i key request → Asks s j key' request' →
    P.sha256 (utf8 (fingerprint request)) = P.sha256 (utf8 (fingerprint request')) →
    fingerprint request = fingerprint request'

variable {s : SystemState P policy} {e : LogEntry P} {deposit : Deposit} {i : Nat}
  {key : String} {request : DepositRequest}

theorem Asks.inj {key' : String} {request' : DepositRequest} (h : Asks s i key request)
    (h' : Asks s i key' request') : key = key' ∧ request = request' := by
  cases h.symm.trans h'
  exact ⟨rfl, rfl⟩

theorem accepted_eq_some {maxAmountCents : Int64} {metadata : RequestMetadata} {trace : Random}
    (h : acceptable maxAmountCents (normalize request) (normalizeMetadata metadata trace) = true) :
    accepted maxAmountCents request metadata trace =
      some ((normalizeMetadata metadata trace).idempotencyKey, normalize request) := by
  rw [accepted, validate_eq_ok.mpr ⟨rfl, acceptable_iff.mp h⟩]
  rfl

theorem accepted_eq_none {maxAmountCents : Int64} {metadata : RequestMetadata} {trace : Random}
    (h : ¬ acceptable maxAmountCents (normalize request) (normalizeMetadata metadata trace) =
      true) : accepted maxAmountCents request metadata trace = none := by
  have herror : validate maxAmountCents request metadata trace =
      .error (.sentinel .invalidDepositRequest) := by
    unfold validate
    exact if_neg h
  rw [accepted, herror]
  rfl

theorem asked_eq {maxAmountCents : Int64} {metadata : RequestMetadata} {draws : Draws} {start : Db}
    {proc : Proc (dialect P.hashtext).engine (store P.hashtext) (Except Error DepositResponse)}
    (h : s.tasks[i]? = some ⟨.deposit maxAmountCents request metadata draws, start, proc⟩) :
    s.tasks[i]?.bind asked = accepted maxAmountCents request metadata draws.trace := by
  rw [h, Option.bind_some, asked]

theorem credited_eq_some (h : credited e = some deposit) : ∃ (i : Nat) (event : OutboxEvent)
    (draws : DepositDraws) (now : Time)
    (o : Op (dialect P.hashtext).engine Error (Call.createDeposit deposit event draws now).Reply)
    (response : DepositResponse),
    e = ⟨i, .createDeposit deposit event draws now, o⟩ ∧ o.reply = .ok response := by
  unfold credited at h
  split at h
  · cases h
    exact ⟨_, _, _, _, _, _, rfl, rfl⟩
  · cases h

theorem credited_of_reply {event : OutboxEvent} {draws : DepositDraws} {now : Time}
    {o : Op (dialect P.hashtext).engine Error (Call.createDeposit deposit event draws now).Reply}
    {response : DepositResponse} (h : o.reply = .ok response) :
    credited (⟨i, .createDeposit deposit event draws now, o⟩ : LogEntry P) = some deposit := by
  cases o
  cases h
  rfl

/-- A deposit that is committed has taken its key. -/
theorem deposited_sets {event : OutboxEvent} {draws : DepositDraws} {now : Time}
    {o : Op (dialect P.hashtext).engine Error (Call.createDeposit deposit event draws now).Reply}
    (ho : (contract P.hashtext).Allows (.createDeposit deposit event draws now) o)
    {response : DepositResponse} (h : o.reply = .ok response) :
    (depositKeys P.hashtext).Sets ⟨i, .createDeposit deposit event draws now, o⟩
      deposit.idempotencyKey (depositKeyRow deposit response) := by
  have hdone : Deposited deposit event draws now o.before response o.writes :=
    createDeposit_commits (ho.spec h)
  refine ⟨⟨⟨deposit, event, draws, now, response, rfl, rfl⟩, rfl⟩, hdone.freshKey, ?_⟩
  show (Db.depositIdempotencyKeys (view o.before o.writes)).find? deposit.idempotencyKey = _
  rw [hdone.writes]
  show ((Db.depositIdempotencyKeys o.before).insert (depositKeyRow deposit response)).find?
    deposit.idempotencyKey = _
  rw [Table.find?_insert]
  exact (if_pos rfl).trans (congrArg (fun r => some (Option.getD r _)) hdone.freshKey)

theorem credited_sets (ho : (contract P.hashtext).Allows e.call e.op)
    (h : credited e = some deposit) :
    ∃ response, (depositKeys P.hashtext).Sets e deposit.idempotencyKey
      (depositKeyRow deposit response) := by
  obtain ⟨i, event, draws, now, o, response, rfl, hreply⟩ := credited_eq_some h
  exact ⟨response, deposited_sets ho hreply⟩

theorem reference_mem {t : Transaction} (h : t.kind = .deposit) :
    t.reference ∈ (depositRow t).entries := by
  have hrow : (depositRow t).entries = [t.reference] := by
    unfold TransactionRow.entries depositRow
    rw [h]
    rfl
  rw [hrow]
  exact List.mem_singleton_self _

/-- It has also taken its external reference. -/
theorem credited_references (ho : (contract P.hashtext).Allows e.call e.op)
    (h : credited e = some deposit) (hkind : deposit.transaction.kind = .deposit) :
    (depositReferences P.hashtext).Sets e deposit.transaction.reference
      (deposit.transaction.reference, deposit.transaction.id) := by
  obtain ⟨i, event, draws, now, o, response, rfl, hreply⟩ := credited_eq_some h
  have hdone : Deposited deposit event draws now o.before response o.writes :=
    createDeposit_commits (ho.spec hreply)
  have hfresh : ∀ t ∈ (Db.transactions o.before).rows, deposit.transaction.reference ∉ t.entries := by
    intro t ht hx
    have hpresent : @Schema.present schema o.before deposit.transaction.reference = true :=
      Schema.present_iff.mpr ⟨t, ht, hx⟩
    rw [hdone.freshReference _ (reference_mem hkind)] at hpresent
    cases hpresent
  have hrows : (Db.transactions (view o.before o.writes)).rows =
      (Db.transactions o.before).rows ++ [depositRow deposit.transaction] := by
    rw [hdone.writes]
    exact Table.rows_insert hdone.freshTransaction
  refine ⟨⟨⟨deposit, event, draws, now, rfl, rfl⟩, rfl⟩, ?_, ?_⟩
  · cases hlook : (depositReferences P.hashtext).look o.before deposit.transaction.reference with
    | none => rfl
    | some r =>
        obtain ⟨t, ht, hx⟩ := depositReferences_look hlook
        exact absurd hx (hfresh t ht)
  · have hmem : depositRow deposit.transaction ∈ (Db.transactions (view o.before o.writes)).rows := by
      rw [hrows]
      exact List.mem_append_right _ (List.mem_singleton_self _)
    obtain ⟨⟨x, id⟩, hlook⟩ := depositReferences_look_isSome P.hashtext hmem
      (reference_mem hkind)
    obtain rfl : x = deposit.transaction.reference := by simpa using List.find?_some hlook
    obtain ⟨t, ht, hx, rfl⟩ := Books.mem_references.mp (List.mem_of_find?_eq_some hlook)
    have ht : t ∈ (Db.transactions (view o.before o.writes)).rows := ht
    rw [hrows] at ht
    rcases List.mem_append.mp ht with ht | ht
    · exact absurd hx (hfresh t ht)
    · rw [List.mem_singleton.mp ht] at hlook
      exact hlook

/-- The call behind a deposit that is committed. -/
theorem credited_asks (htraced : Traced (contract P.hashtext) s.abs)
    (hservices : ∀ t ∈ s.abs.tasks, services t.request = true) (he : e ∈ s.log)
    (h : credited e = some deposit) :
    ∃ request metadata draws, Asks s e.task deposit.idempotencyKey request ∧
      deposit = newDeposit P request metadata draws ∧
      ∃ maxAmountCents, Accepted maxAmountCents request metadata := by
  obtain ⟨i, event, entries, now, o, response, rfl, -⟩ := credited_eq_some h
  obtain ⟨⟨r, start, proc⟩, q, ht, hown, hmade⟩ := entry_task htraced he
  have hserves : services r = true := hservices _ (List.mem_of_getElem? (State.abs_tasks ht))
  have hmakes : r.Makes P (.createDeposit deposit event entries now) :=
    Request.makes (hmade.calls hown)
  cases hmakes with
  | minor hminor => cases hminor
  | @deposit maxAmountCents request metadata draws _ _ hrequest hmetadata hacc =>
      subst hrequest hmetadata
      exact ⟨normalize request, normalizeMetadata metadata draws.trace, draws,
        (asked_eq ht).trans (accepted_eq_some hacc), rfl, maxAmountCents, acceptable_iff.mp hacc⟩
  | store => cases hserves

theorem Returned.task {result : Except Error DepositResponse} (h : Returned s i result) :
    ∃ maxAmountCents request metadata draws start, s.tasks[i]? =
      some ⟨.deposit maxAmountCents request metadata draws, start, .idle (.ret result)⟩ := by
  obtain ⟨t, ht, hresult⟩ := Option.bind_eq_some_iff.mp h
  unfold returned at hresult
  split at hresult
  · cases hresult
    exact ⟨_, _, _, _, _, ht⟩
  · cases hresult

/-- A call that has returned has not got past `validate`, or has made the operations of its
code. -/
theorem Returned.trace (htraced : Traced (contract P.hashtext) s.abs)
    {result : Except Error DepositResponse} (hreturned : Returned s i result) :
    (own i s.log = [] ∧ result = .error (.sentinel .invalidDepositRequest) ∧
        ∀ key request, ¬ Asks s i key request) ∨
      ∃ maxAmountCents request metadata draws, Asks s i metadata.idempotencyKey request ∧
        Accepted maxAmountCents request metadata ∧
        Trace P request metadata draws i (own i s.log) (.ret result) := by
  obtain ⟨maxAmountCents, request, metadata, draws, start, ht⟩ := hreturned.task
  have hasked := asked_eq ht
  have hmade := returned_made htraced ht
  rw [Request.program, deposit_eq] at hmade
  split at hmade
  · next hacc =>
      exact Or.inr ⟨maxAmountCents, normalize request, normalizeMetadata metadata draws.trace, draws,
        hasked.trans (accepted_eq_some hacc), acceptable_iff.mp hacc, depositNormalized_trace hmade⟩
  · next hacc =>
      rw [accepted_eq_none hacc] at hasked
      obtain ⟨hnil, hresult⟩ := Svc.made_ret.mp hmade
      exact Or.inl ⟨hnil, Svc.ret.inj hresult, fun key request h => by cases hasked.symm.trans h⟩

/-- A call whose request is valid has made the operations of its code. -/
theorem Asks.trace (htraced : Traced (contract P.hashtext) s.abs) (hasks : Asks s i key request)
    {result : Except Error DepositResponse} (hreturned : Returned s i result) :
    ∃ maxAmountCents metadata draws, key = metadata.idempotencyKey ∧
      Accepted maxAmountCents request metadata ∧
      Trace P request metadata draws i (own i s.log) (.ret result) := by
  rcases hreturned.trace htraced with ⟨-, -, hnone⟩ | ⟨_, _, metadata, draws, hasks', hacc, htrace⟩
  · exact absurd hasks (hnone key request)
  · obtain ⟨rfl, rfl⟩ := hasks.inj hasks'
    exact ⟨_, metadata, draws, rfl, hacc, htrace⟩

/-! ## Answers -/

/-- A key that was found is a row of the table. -/
theorem found_row {o : Op (dialect P.hashtext).engine Error (Call.findDepositIdempotency key).Reply}
    (ho : (contract P.hashtext).Allows (.findDepositIdempotency key) o)
    {existing : FoundKey DepositResponse} (h : o.answer = .ok (some existing)) :
    ∃ row : DepositKeyRow, (depositKeys P.hashtext).look o.before key = some row ∧
      row.requestHash = existing.requestHash ∧ row.response = existing.response := by
  rcases findDepositIdempotency_answer ho with ⟨e, he, -⟩ | hok
  · rw [h] at he
    cases he
  · rw [h] at hok
    obtain ⟨row, hrow, rfl⟩ := Option.map_eq_some_iff.mp (Except.ok.inj hok).symm
    exact ⟨row, hrow, rfl, rfl⟩

/-- A row that is there is found. -/
theorem row_found {o : Op (dialect P.hashtext).engine Error (Call.findDepositIdempotency key).Reply}
    (ho : (contract P.hashtext).Allows (.findDepositIdempotency key) o) {row : DepositKeyRow}
    (hrow : (depositKeys P.hashtext).look o.before key = some row) :
    (∃ e, o.answer = .error e ∧ IsOutage e) ∨
      o.answer = .ok (some ⟨row.requestHash, row.response⟩) := by
  refine (findDepositIdempotency_answer ho).imp id fun hok => hok.trans ?_
  have hrow : (Db.depositIdempotencyKeys o.before).find? key = some row := hrow
  rw [hrow]
  rfl

/-- A lookup only fails if the database does. -/
theorem find_outage {o : Op (dialect P.hashtext).engine Error (Call.findDepositIdempotency key).Reply}
    (ho : (contract P.hashtext).Allows (.findDepositIdempotency key) o) {err : Error}
    (h : o.answer = .error err) : IsOutage err := by
  rcases findDepositIdempotency_answer ho with ⟨e, he, hout⟩ | hok
  · rw [h] at he
    cases he
    exact hout
  · rw [h] at hok
    cases hok

theorem find_writes {o : Op (dialect P.hashtext).engine Error (Call.findDepositIdempotency key).Reply}
    (ho : (contract P.hashtext).Allows (.findDepositIdempotency key) o) : o.writes = [] := by
  rcases ho.did with ⟨_, -, hw⟩ | ⟨-, hw, -⟩
  · exact hw
  · exact hw

theorem beatenBy_outage {err : Error} (h : IsOutage err) : beatenBy err = false := by
  rw [beatenBy, h.is_eq_false, h.is_eq_false]
  rfl

theorem beatenBy_wrap (message : String) (err : Error) :
    beatenBy (.wrap message err) = beatenBy err := rfl

/-- The key is taken, by a request with this hash which is answered with `response`. -/
def Taken (d : Db) (key : String) (hash : Digest) (response : DepositResponse) : Prop :=
  ∃ row, d.depositIdempotencyKeys.find? key = some row ∧ row.requestHash = hash ∧
    row.response = response

theorem metResult_ok {existing : FoundKey DepositResponse} {response : DepositResponse}
    (h : metResult P request existing = .ok response) :
    existing.requestHash = hashRequest P request ∧ existing.response = response := by
  unfold metResult at h
  split at h
  · next hhash => exact ⟨hhash, Except.ok.inj h⟩
  · cases h

variable {d : Db} {w : policy.World} {metadata : RequestMetadata} {draws : Draws}

/-- Whoever is answered, is answered with what the key says. -/
theorem Trace.answered (h : AReach (contract P.hashtext) ⟨d, w, [], []⟩ s.abs)
    {response : DepositResponse}
    (htrace : Trace P request metadata draws i (own i s.log) (.ret (.ok response))) :
    Taken s.db metadata.idempotencyKey (hashRequest P request) response := by
  have hmem : ∀ x ∈ own i s.log, x ∈ s.abs.log := fun x hx => mem_of_own hx
  have hallowed := (traced_reach h).allowed
  -- a row that was found by one of its operations
  have hmet : ∀ {find existing},
      (⟨i, .findDepositIdempotency metadata.idempotencyKey, find⟩ : LogEntry P) ∈ s.abs.log →
      find.answer = .ok (some existing) → metResult P request existing = .ok response →
      Taken s.db metadata.idempotencyKey (hashRequest P request) response := by
    intro find existing hin hfind hresult
    obtain ⟨row, hrow, hhash, hresponse⟩ := found_row (hallowed _ hin) hfind
    obtain ⟨hhash', hresponse'⟩ := metResult_ok hresult
    exact ⟨row, Register.still (R := depositKeys P.hashtext) h hin hrow, hhash.trans hhash',
      hresponse.trans hresponse'⟩
  generalize own i s.log = g at htrace hmem
  generalize hq : (.ret (.ok response) : Service P (Except Error DepositResponse)) = q at htrace
  cases htrace with
  | begun => cases hq
  | unfound _ => cases hq
  | met hfind => exact hmet (hmem _ List.mem_cons_self) hfind (Svc.ret.inj hq).symm
  | free _ => cases hq
  | created _ hinsert =>
      cases hq
      have hin := hmem _ (List.mem_cons_of_mem _ List.mem_cons_self)
      have hset := deposited_sets (i := i) (hallowed _ hin)
        (Contract.Allows.told (hallowed _ hin) hinsert)
      exact ⟨_, hset.now h hin, rfl, rfl⟩
  | failed _ _ _ => cases hq
  | beaten _ _ _ => cases hq
  | @raced _ _ e again _ _ _ =>
      have hresult : racedResult P request e again.answer = .ok response := (Svc.ret.inj hq).symm
      have hin := hmem _ (List.mem_cons_of_mem _ (List.mem_cons_of_mem _ List.mem_cons_self))
      cases hagain : again.answer with
      | error e' =>
          rw [hagain] at hresult
          cases hresult
      | ok found =>
          rw [hagain] at hresult
          cases found with
          | none => cases hresult
          | some existing => exact hmet hin hagain hresult

/-! ## Conflicts -/

theorem eq_of_hash_eq (hsha : CollisionFree s) {i j : Nat} {key' : String}
    {request' : DepositRequest} {maxAmountCents maxAmountCents' : Int64}
    {metadata metadata' : RequestMetadata} (hasks : Asks s i key request)
    (hasks' : Asks s j key' request') (hacc : Accepted maxAmountCents request metadata)
    (hacc' : Accepted maxAmountCents' request' metadata')
    (heq : hashRequest P request = hashRequest P request') : request = request' :=
  fingerprint_inj hacc hacc' (hsha i j key key' request request' hasks hasks' heq)

/-- The key was taken by somebody else before the call was made. -/
theorem Trace.key_conflict (hallowed : ∀ x ∈ own i s.log, (contract P.hashtext).Allows x.call x.op)
    {result : Except Error DepositResponse}
    (htrace : Trace P request metadata draws i (own i s.log) (.ret result))
    (hunfailed : Unfailed s i) {row : DepositKeyRow}
    (hrow : ∀ x ∈ own i s.log,
      (depositKeys P.hashtext).look x.op.before metadata.idempotencyKey = some row)
    (hhash : row.requestHash ≠ hashRequest P request) :
    result = .error (.sentinel .depositIdempotencyConflict) := by
  unfold Unfailed at hunfailed
  generalize own i s.log = g at htrace hallowed hunfailed hrow
  generalize hq : (.ret result : Service P (Except Error DepositResponse)) = q at htrace
  -- the first operation finds the row
  have hfound : ∀ {find : Op (dialect P.hashtext).engine Error
        (Call.findDepositIdempotency metadata.idempotencyKey).Reply},
      (⟨i, .findDepositIdempotency metadata.idempotencyKey, find⟩ : LogEntry P) ∈ g →
      find.answer = .ok (some ⟨row.requestHash, row.response⟩) := by
    intro find hin
    rcases row_found (hallowed _ hin) (hrow _ hin) with ⟨e, he, hout⟩ | hok
    · have his := hunfailed _ hin e he
      rw [beatenBy_outage hout] at his
      cases his
    · exact hok
  cases htrace with
  | begun => cases hq
  | unfound hfind => cases (hfound List.mem_cons_self).symm.trans hfind
  | met hfind =>
      cases (hfound List.mem_cons_self).symm.trans hfind
      cases hq
      exact if_neg hhash
  | free _ => cases hq
  | created hfind _ => cases (hfound List.mem_cons_self).symm.trans hfind
  | failed hfind _ _ => cases (hfound List.mem_cons_self).symm.trans hfind
  | beaten _ _ _ => cases hq
  | raced hfind _ _ => cases (hfound List.mem_cons_self).symm.trans hfind

/-- An operation that has met a conflict found the key or the reference taken. -/
theorem insert_conflict
    {o : Op (dialect P.hashtext).engine Error (depositCall P request metadata draws).Reply}
    (ho : (contract P.hashtext).Allows (depositCall P request metadata draws) o) {err : Error}
    (h : o.answer = .error err) (hbeaten : beatenBy err = true) :
    DepositConflict (newDeposit P request metadata draws) o.before err := by
  rcases ho.outage_or_spec with ⟨e, he, hout⟩ | hspec
  · rw [h] at he
    cases he
    rw [beatenBy_outage hout] at hbeaten
    cases hbeaten
  · rw [h] at hspec
    exact createDeposit_conflict hspec

/-- The external reference a request gives. -/
def DepositRequest.reference (request : DepositRequest) : Ix :=
  .depositReference request.fundingSource request.externalReference request.currency

/-- The external reference was taken before the call was made, and the key never is. -/
theorem Trace.reference_conflict (hallowed : ∀ x ∈ own i s.log, (contract P.hashtext).Allows x.call x.op)
    {result : Except Error DepositResponse}
    (htrace : Trace P request metadata draws i (own i s.log) (.ret result))
    (hunfailed : Unfailed s i)
    (hfree : ∀ x ∈ own i s.log,
      (depositKeys P.hashtext).look x.op.before metadata.idempotencyKey = none)
    {r : Ix × String}
    (href : ∀ x ∈ own i s.log,
      (depositReferences P.hashtext).look x.op.before request.reference = some r) :
    ∃ err, result = .error err ∧ err.is .externalReferenceConflict = true := by
  unfold Unfailed at hunfailed
  generalize own i s.log = g at htrace hallowed hunfailed hfree href
  generalize hq : (.ret result : Service P (Except Error DepositResponse)) = q at htrace
  have hnone : ∀ {find : Op (dialect P.hashtext).engine Error
        (Call.findDepositIdempotency metadata.idempotencyKey).Reply},
      (⟨i, .findDepositIdempotency metadata.idempotencyKey, find⟩ : LogEntry P) ∈ g →
      find.answer = .ok none := by
    intro find hin
    rcases findDepositIdempotency_answer (hallowed _ hin) with ⟨e, he, hout⟩ | hok
    · have his := hunfailed _ hin e he
      rw [beatenBy_outage hout] at his
      cases his
    · have hlook : (Db.depositIdempotencyKeys find.before).find? metadata.idempotencyKey = none :=
        hfree _ hin
      rw [hok, hlook]
      rfl
  cases htrace with
  | begun => cases hq
  | unfound hfind => cases (hnone List.mem_cons_self).symm.trans hfind
  | met hfind => cases (hnone List.mem_cons_self).symm.trans hfind
  | free _ => cases hq
  | created _ hinsert =>
      have ho := hallowed _ (List.mem_cons_of_mem _ List.mem_cons_self)
      have hset := credited_references ho (credited_of_reply (ho.told hinsert)) rfl
      cases hset.free.symm.trans (href _ (List.mem_cons_of_mem _ List.mem_cons_self))
  | failed _ hinsert hbeaten =>
      rw [hunfailed _ (List.mem_cons_of_mem _ List.mem_cons_self) _ hinsert] at hbeaten
      cases hbeaten
  | beaten _ _ _ => cases hq
  | @raced find insert e again hfind hinsert hbeaten =>
      cases hq
      have hagain : again.answer = .ok none :=
        hnone (List.mem_cons_of_mem _ (List.mem_cons_of_mem _ List.mem_cons_self))
      rw [hagain]
      refine ⟨_, rfl, ?_⟩
      -- it is not the key that was taken
      have hin := List.mem_cons_of_mem (⟨i, .findDepositIdempotency metadata.idempotencyKey,
        find⟩ : LogEntry P) (List.mem_cons_self (a := (⟨i, depositCall P request metadata draws,
          insert⟩ : LogEntry P)) (l := [⟨i, .findDepositIdempotency metadata.idempotencyKey, again⟩]))
      have hconflict := insert_conflict (hallowed _ hin) hinsert hbeaten
      have hnotkey : e.is .depositIdempotencyConflict = false := by
        rw [← Bool.not_eq_true]
        exact fun hkey => hconflict.key hkey (hfree _ hin)
      rw [beatenBy, hnotkey] at hbeaten
      exact hbeaten

/-- A call that reports a conflict, or that its request is not valid, has changed nothing. -/
theorem Trace.writes_nil (hallowed : ∀ x ∈ own i s.log, (contract P.hashtext).Allows x.call x.op)
    {err : Error} (htrace : Trace P request metadata draws i (own i s.log) (.ret (.error err)))
    (hreported : (err.is .invalidDepositRequest || beatenBy err) = true) :
    ∀ x ∈ own i s.log, x.op.writes = [] := by
  generalize own i s.log = g at htrace hallowed
  generalize hq : (.ret (.error err) : Service P (Except Error DepositResponse)) = q at htrace
  cases htrace with
  | begun => cases hq
  | unfound _ => exact List.forall_mem_singleton.mpr (find_writes (hallowed _ List.mem_cons_self))
  | met _ => exact List.forall_mem_singleton.mpr (find_writes (hallowed _ List.mem_cons_self))
  | free _ => cases hq
  | created _ _ => cases hq
  | @failed find insert e _ hinsert hbeaten =>
      cases hq
      simp only [List.forall_mem_cons] at hallowed ⊢
      obtain ⟨hofind, hoinsert, -⟩ := hallowed
      refine ⟨find_writes hofind, ?_, List.forall_mem_nil _⟩
      refine hoinsert.refused_writes (fun hs => Tx.Runs.writes_nil _ hs) hinsert fun hout => ?_
      have hreported : (e.is .invalidDepositRequest || beatenBy e) = true := hreported
      rw [hout.is_eq_false, hbeaten] at hreported
      cases hreported
  | beaten _ _ _ => cases hq
  | raced _ hinsert hbeaten =>
      simp only [List.forall_mem_cons] at hallowed ⊢
      obtain ⟨hofind, hoinsert, hoagain, -⟩ := hallowed
      refine ⟨find_writes hofind, ?_, find_writes hoagain, List.forall_mem_nil _⟩
      refine hoinsert.refused_writes (fun hs => Tx.Runs.writes_nil _ hs) hinsert fun hout => ?_
      rw [beatenBy_outage hout] at hbeaten
      cases hbeaten

/-- A deposit that was committed for the same request under the same key. -/
structure Twin (deposit : Deposit) (request : DepositRequest) (metadata : RequestMetadata)
    (P : Platform) : Prop where
  key : deposit.idempotencyKey = metadata.idempotencyKey
  hash : deposit.requestHash = hashRequest P request
  reference : deposit.transaction.reference = request.reference
  kind : deposit.transaction.kind = .deposit

/-- Nobody reports a conflict with the same request. -/
theorem Trace.no_conflict (h : AReach (contract P.hashtext) ⟨Db.empty, w, [], []⟩ s.abs) (he : e ∈ s.log)
    (hcredited : credited e = some deposit) (htwin : Twin deposit request metadata P) {err : Error}
    (htrace : Trace P request metadata draws i (own i s.log) (.ret (.error err))) :
    beatenBy err = false := by
  have hallowed := (traced_reach h).allowed
  have hmem : ∀ x ∈ own i s.log, x ∈ s.abs.log := fun x hx => mem_of_own hx
  obtain ⟨response, hset⟩ := credited_sets (hallowed e he) hcredited
  rw [htwin.key] at hset
  -- whoever finds the key taken finds the same request
  have hmet : ∀ {find existing},
      (⟨i, .findDepositIdempotency metadata.idempotencyKey, find⟩ : LogEntry P) ∈ s.abs.log →
      find.answer = .ok (some existing) → metResult P request existing = .ok existing.response := by
    intro find existing hin hfind
    obtain ⟨row, hrow, hhash, -⟩ := found_row (hallowed _ hin) hfind
    have hrow' := Register.still (R := depositKeys P.hashtext) h hin hrow
    rw [hset.now h he] at hrow'
    cases hrow'
    exact if_pos (hhash.symm.trans htwin.hash)
  -- whoever finds its reference taken comes after the commit
  have hlater : ∀ {g x g'}, s.abs.log = g ++ x :: g' →
      (∃ r, (depositReferences P.hashtext).look x.op.before request.reference = some r) →
      (depositKeys P.hashtext).look x.op.before metadata.idempotencyKey =
        some (depositKeyRow deposit response) := by
    rintro g x g' hlog ⟨r, hr⟩
    obtain ⟨f, hf, hrefset⟩ := Register.origin_before h rfl hlog hr
    have hrefset' := credited_references (hallowed e he) hcredited htwin.kind
    rw [htwin.reference] at hrefset'
    have hflog : f ∈ s.abs.log := by
      rw [hlog]
      exact List.mem_append_left _ hf
    obtain rfl := hrefset'.eq hrefset h he hflog
    obtain ⟨a, b, rfl⟩ := List.append_of_mem hf
    have hsplit : s.abs.log = a ++ e :: (b ++ x :: g') := by
      rw [hlog, List.append_assoc, List.cons_append]
    exact Register.later h hsplit hset (List.mem_append_right _ List.mem_cons_self)
  generalize hown : own i s.log = g at htrace hmem
  generalize hq : (.ret (.error err) : Service P (Except Error DepositResponse)) = q at htrace
  cases htrace with
  | begun => cases hq
  | unfound hfind =>
      cases hq
      rw [beatenBy_wrap]
      exact beatenBy_outage (find_outage (hallowed _ (hmem _ List.mem_cons_self)) hfind)
  | met hfind =>
      cases (Svc.ret.inj hq).trans (hmet (hmem _ List.mem_cons_self) hfind)
  | free _ => cases hq
  | created _ _ => cases hq
  | failed _ _ hbeaten =>
      cases hq
      exact hbeaten
  | beaten _ _ _ => cases hq
  | @raced find insert e' again hfind hinsert hbeaten =>
      have hresult : racedResult P request e' again.answer = .error err := (Svc.ret.inj hq).symm
      obtain ⟨g₁, g₂, hlog, hown₂⟩ := own_split (l := [_]) hown
      have hagain : ⟨i, .findDepositIdempotency metadata.idempotencyKey, again⟩ ∈ g₂ := by
        refine mem_of_own (i := i) ?_
        rw [hown₂]
        exact List.mem_singleton_self _
      have hin := hmem _ (List.mem_cons_of_mem _ (List.mem_cons_of_mem _ List.mem_cons_self))
      -- either way the key was taken when the insertion failed
      have htaken : ∃ row, (depositKeys P.hashtext).look insert.before metadata.idempotencyKey =
          some row := by
        have hconflict := insert_conflict
          (hallowed _ (hmem _ (List.mem_cons_of_mem _ List.mem_cons_self))) hinsert hbeaten
        rcases Bool.or_eq_true_iff.mp hbeaten with hkey | href
        · exact Option.ne_none_iff_exists'.mp (hconflict.key hkey)
        · obtain ⟨x, hx, hpresent⟩ := hconflict.reference href
          obtain rfl : x = request.reference := List.mem_singleton.mp hx
          obtain ⟨t, ht, hentry⟩ := Schema.present_iff.mp hpresent
          exact ⟨_, hlater hlog (depositReferences_look_isSome _ ht hentry)⟩
      obtain ⟨row, hrow⟩ := htaken
      have hrow' := Register.next (R := depositKeys P.hashtext) h hlog hrow hagain
      rcases row_found (hallowed _ hin) hrow' with ⟨e'', he'', hout⟩ | hok
      · rw [he''] at hresult
        cases hresult
        rw [beatenBy_wrap]
        exact beatenBy_outage hout
      · rw [hok] at hresult
        cases hresult.symm.trans (hmet hin hok)

end

/-! ## One deposit -/

/-- A deposit made under a key. -/
def Deposits (d : Db) (key : String) (t : TransactionRow) : Prop :=
  t ∈ d.ofKind .deposit ∧
    ∃ k ∈ d.depositIdempotencyKeys.rows, k.key = key ∧ k.transactionID = t.id

/-- A row has the external reference of the request. -/
def DepositRequest.Refers (request : DepositRequest) (t : TransactionRow) : Prop :=
  t.fundingSource = some request.fundingSource ∧
    t.externalReference = some request.externalReference ∧ t.currency = request.currency

instance (request : DepositRequest) (t : TransactionRow) : Decidable (request.Refers t) :=
  inferInstanceAs (Decidable (_ ∧ _ ∧ _))

/-- What the database, the log and the callers show. -/
structure Idempotent {P : Platform} {policy : Policy} (s : SystemState P policy) : Prop where
  /-- One deposit per key, in the database and among what was ever committed. -/
  key_unique : ∀ key t t', Deposits s.db key t → Deposits s.db key t' → t = t'
  key_commits : ∀ key,
    (s.log.filter fun e => (credited e).any fun x => x.idempotencyKey == key).length ≤ 1
  /-- One deposit per external reference, as well. -/
  reference_unique : ∀ request t t', t ∈ s.db.ofKind .deposit → t' ∈ s.db.ofKind .deposit →
    DepositRequest.Refers request t → DepositRequest.Refers request t' → t = t'
  reference_commits : ∀ reference,
    (s.log.filter fun e => (credited e).any fun x => x.transaction.reference == reference).length ≤ 1
  /-- Each deposit has its key and was credited once. -/
  credit : ∀ t ∈ s.db.ofKind .deposit, (∃! key, Deposits s.db key t) ∧
    (s.db.entriesOf t).Perm [(t.accountID, t.amountCents, t.currency),
      ("external-settlement", -t.amountCents, t.currency)]
  /-- Calls that succeed ask for the same, and are told the same. -/
  answers : ∀ i j key request request' response response', Asks s i key request →
    Asks s j key request' → Returned s i (.ok response) → Returned s j (.ok response') →
    response = response' ∧ request = request'
  /-- The key was there when call `i` began, committed by call `j` for something else. -/
  key_conflict : ∀ i j key request request' start result, Asks s i key request →
    Asks s j key request' → request ≠ request' → Credited s j → Began s i start →
    start.depositIdempotencyKeys.find? key ≠ none → Unfailed s i → Returned s i result →
    ∃ err, result = .error err ∧ err.is .depositIdempotencyConflict = true
  /-- The reference was there when call `i` began, and the key never is. -/
  reference_conflict : ∀ i key request start t result, Asks s i key request →
    s.db.depositIdempotencyKeys.find? key = none → Began s i start → t ∈ start.ofKind .deposit →
    DepositRequest.Refers request t → Unfailed s i → Returned s i result →
    ∃ err, result = .error err ∧ err.is .externalReferenceConflict = true
  /-- Of two calls for the same, one is not committed while the other reports a conflict. -/
  same_request : ∀ i j key request err, Asks s i key request → Asks s j key request →
    Credited s j → Returned s i (.error err) → beatenBy err = false
  /-- Nothing has changed when a conflict or an invalid request is reported. -/
  unchanged : ∀ i err, Returned s i (.error err) →
    (err.is .invalidDepositRequest || beatenBy err) = true → ∀ x ∈ own i s.log, x.op.writes = []

theorem Deposits.unique {d : Db} (h : Documented d.books) {key : String} {t t' : TransactionRow}
    (ht : Deposits d key t) (ht' : Deposits d key t') : t = t' := by
  obtain ⟨hmem, k, hk, hkey, hid⟩ := ht
  obtain ⟨hmem', k', hk', hkey', hid'⟩ := ht'
  obtain rfl := d.depositIdempotencyKeys.eq_of_key_eq hk hk' (hkey.trans hkey'.symm)
  exact ((Db.oneToOne h.depositKeys).left k hk).unique ⟨hmem, hid.symm⟩ ⟨hmem', hid'.symm⟩

theorem Deposits.key {d : Db} (h : Documented d.books) {t : TransactionRow}
    (ht : t ∈ d.ofKind .deposit) : ∃! key, Deposits d key t := by
  obtain ⟨k, ⟨hk, hid⟩, hunique⟩ := (Db.oneToOne h.depositKeys).right t ht
  refine ⟨k.key, ⟨ht, k, hk, rfl, hid.symm⟩, ?_⟩
  rintro key ⟨-, k', hk', rfl, hid'⟩
  rw [hunique k' ⟨hk', hid'.symm⟩]

/-- A deposit with the reference of the request has its entry in the index. -/
theorem DepositRequest.Refers.mem {request : DepositRequest} {d : Db} {t : TransactionRow}
    (h : request.Refers t) (ht : t ∈ d.ofKind .deposit) :
    t ∈ d.transactions.rows ∧ request.reference ∈ t.entries := by
  obtain ⟨hmem, hkind⟩ := List.mem_filter.mp ht
  obtain ⟨hsource, hreference, hcurrency⟩ := h
  have hentries : t.entries = [request.reference] := by
    unfold TransactionRow.entries
    rw [beq_iff_eq.mp hkind, hsource, hreference, hcurrency]
    rfl
  rw [hentries]
  exact ⟨hmem, List.mem_singleton_self _⟩

section

variable {P : Platform} {s : SystemState P (.only services)} {i j : Nat} {key : String}
  {request request' : DepositRequest}

/-- A call that is committed, and the operation that did it. -/
theorem winner (h : Run s) (hasks : Asks s j key request) (hcredited : Credited s j) :
    ∃ e ∈ s.log, ∃ deposit metadata draws, credited e = some deposit ∧
      deposit.idempotencyKey = key ∧ deposit = newDeposit P request metadata draws ∧
      ∃ maxAmountCents, Accepted maxAmountCents request metadata := by
  obtain ⟨e, he, rfl, hsome⟩ := hcredited
  obtain ⟨deposit, hdeposit⟩ := Option.isSome_iff_exists.mp hsome
  obtain ⟨_, metadata, draws, hasks', hnew, hacc⟩ :=
    credited_asks h.traced h.served he hdeposit
  obtain ⟨rfl, rfl⟩ := hasks'.inj hasks
  exact ⟨e, he, deposit, metadata, draws, hdeposit, rfl, hnew, hacc⟩

theorem key_commits (h : Run s) (key : String) :
    (s.log.filter fun e => (credited e).any fun x => x.idempotencyKey == key).length ≤ 1 := by
  refine Register.length_filter_le (R := depositKeys P.hashtext) (k := key) h.reach
    fun e he hp => ?_
  obtain ⟨deposit, hdeposit, hkey⟩ := (Option.any_eq_true _ _).mp hp
  obtain ⟨response, hset⟩ := credited_sets (h.traced.allowed e he) hdeposit
  exact ⟨_, beq_iff_eq.mp hkey ▸ hset⟩

theorem reference_commits (h : Run s) (reference : Ix) :
    (s.log.filter fun e => (credited e).any fun x => x.transaction.reference == reference).length ≤
      1 := by
  refine Register.length_filter_le (R := depositReferences P.hashtext) (k := reference) h.reach
    fun e he hp => ?_
  obtain ⟨deposit, hdeposit, hreference⟩ := (Option.any_eq_true _ _).mp hp
  obtain ⟨_, metadata, draws, -, rfl, -⟩ := credited_asks h.traced h.served he hdeposit
  exact ⟨_, beq_iff_eq.mp hreference ▸ credited_references (h.traced.allowed e he) hdeposit rfl⟩

theorem answers (h : Run s) (hsha : CollisionFree s) {response response' : DepositResponse}
    (hasks : Asks s i key request) (hasks' : Asks s j key request')
    (hreturned : Returned s i (.ok response)) (hreturned' : Returned s j (.ok response')) :
    response = response' ∧ request = request' := by
  obtain ⟨_, metadata, draws, rfl, hacc, htrace⟩ := hasks.trace h.traced hreturned
  obtain ⟨_, metadata', draws', hkey, hacc', htrace'⟩ := hasks'.trace h.traced hreturned'
  obtain ⟨row, hrow, hhash, rfl⟩ := Trace.answered h.reach htrace
  obtain ⟨row', hrow', hhash', rfl⟩ := Trace.answered h.reach htrace'
  rw [← hkey, hrow] at hrow'
  cases hrow'
  exact ⟨rfl, eq_of_hash_eq hsha hasks hasks' hacc hacc' (hhash.symm.trans hhash')⟩

theorem key_conflict (h : Run s) (hsha : CollisionFree s) {start : Db}
    {result : Except Error DepositResponse} (hasks : Asks s i key request)
    (hasks' : Asks s j key request') (hne : request ≠ request') (hcredited : Credited s j)
    (hbegan : Began s i start) (htaken : start.depositIdempotencyKeys.find? key ≠ none)
    (hunfailed : Unfailed s i) (hreturned : Returned s i result) :
    ∃ err, result = .error err ∧ err.is .depositIdempotencyConflict = true := by
  obtain ⟨_, metadata, draws, rfl, hacc, htrace⟩ := hasks.trace h.traced hreturned
  obtain ⟨e, he, deposit, metadata', draws', hdeposit, hkey, rfl, _, hacc'⟩ :=
    winner h hasks' hcredited
  obtain ⟨response, hset⟩ := credited_sets (h.traced.allowed e he) hdeposit
  obtain ⟨row, hrow⟩ := Option.ne_none_iff_exists'.mp htaken
  obtain ⟨hnow, hbefore⟩ := h.began (R := depositKeys P.hashtext) hbegan hrow
  -- the row that was there is the winner's
  rw [hkey] at hset
  cases hnow.symm.trans (hset.now h.reach he)
  refine ⟨_, Trace.key_conflict (h.allowed i) htrace hunfailed hbefore ?_, rfl⟩
  intro hhash
  exact hne (eq_of_hash_eq hsha hasks hasks' hacc hacc' hhash.symm)

theorem reference_conflict (h : Run s) {start : Db} {t : TransactionRow}
    {result : Except Error DepositResponse} (hasks : Asks s i key request)
    (hfree : s.db.depositIdempotencyKeys.find? key = none) (hbegan : Began s i start)
    (ht : t ∈ start.ofKind .deposit) (hrefers : request.Refers t) (hunfailed : Unfailed s i)
    (hreturned : Returned s i result) :
    ∃ err, result = .error err ∧ err.is .externalReferenceConflict = true := by
  obtain ⟨_, metadata, draws, rfl, hacc, htrace⟩ := hasks.trace h.traced hreturned
  obtain ⟨hmem, hentry⟩ := hrefers.mem ht
  obtain ⟨r, hr⟩ := depositReferences_look_isSome P.hashtext hmem hentry
  obtain ⟨-, hbefore⟩ := h.began (R := depositReferences P.hashtext) hbegan hr
  refine Trace.reference_conflict (h.allowed i) htrace hunfailed (fun x hx => ?_) hbefore
  -- a key that had been taken would still be
  cases hlook : (depositKeys P.hashtext).look x.op.before metadata.idempotencyKey with
  | none => rfl
  | some row =>
      have hnow := Register.still (R := depositKeys P.hashtext) h.reach (mem_of_own hx) hlook
      cases hfree.symm.trans hnow

theorem same_request (h : Run s) {err : Error} (hasks : Asks s i key request)
    (hasks' : Asks s j key request) (hcredited : Credited s j)
    (hreturned : Returned s i (.error err)) : beatenBy err = false := by
  obtain ⟨_, metadata, draws, rfl, hacc, htrace⟩ := hasks.trace h.traced hreturned
  obtain ⟨e, he, deposit, metadata', draws', hdeposit, hkey, rfl, -⟩ := winner h hasks' hcredited
  exact Trace.no_conflict h.reach he hdeposit ⟨hkey, rfl, rfl, rfl⟩ htrace

theorem unchanged (h : Run s) {err : Error} (hreturned : Returned s i (.error err))
    (hreported : (err.is .invalidDepositRequest || beatenBy err) = true) :
    ∀ x ∈ own i s.log, x.op.writes = [] := by
  rcases hreturned.trace h.traced with ⟨hnil, -⟩ | ⟨_, _, _, _, -, -, htrace⟩
  · rw [hnil]
    exact List.forall_mem_nil _
  · exact Trace.writes_nil (h.allowed i) htrace hreported

end

/-- However calls of `Deposit` are interleaved, and wherever they fail: a key and an external
reference are good for one deposit, those who succeed get one answer to one request, and
whoever is told of a conflict has a conflict and has changed nothing. -/
theorem deposit_idempotent (P : Platform) (es : List (Transact.Event (system P (.only services))))
    (s : SystemState P (.only services))
    (h : (State.init Db.empty () : SystemState P (.only services)).steps es = some s)
    (hsha : CollisionFree s) : Idempotent s := by
  have h := Run.of_steps h
  constructor
  case key_unique => exact fun key t t' ht ht' => ht.unique h.documented ht'
  case key_commits => exact key_commits h
  case reference_unique =>
    intro request t t' ht ht' hrefers hrefers'
    obtain ⟨hmem, hentry⟩ := hrefers.mem ht
    obtain ⟨hmem', hentry'⟩ := hrefers'.mem ht'
    exact h.distinct.eq hmem hmem' hentry hentry'
  case reference_commits => exact reference_commits h
  case credit =>
    intro t ht
    refine ⟨Deposits.key h.documented ht, ?_⟩
    obtain ⟨hmem, hkind⟩ := List.mem_filter.mp ht
    simpa [TransactionRow.lines, beq_iff_eq.mp hkind] using h.balanced.entriesOf hmem
  case answers =>
    exact fun i j key request request' response response' => answers h hsha
  case key_conflict =>
    exact fun i j key request request' start result => key_conflict h hsha
  case reference_conflict =>
    exact fun i key request start t result => reference_conflict h
  case same_request => exact fun i j key request err => same_request h
  case unchanged => exact fun i err => unchanged h

def raceDraws (c : Nat) : Draws where
  trace := .fill 32 c
  transaction := .fill 32 c
  event := .fill 32 c
  store := ⟨.fill 32 c, .fill 32 0xf, .fill 32 c⟩
  createdAt := 0
  eventAt := 0
  now := 0

/-- Somebody deposits 5.00. -/
def firstDeposit : Request :=
  .deposit 10000 ⟨"alice", 500, "usd", "bank", "ref-1"⟩ ⟨"key-1", "trace-1", "refill"⟩
    (raceDraws 0)

/-- The same deposit, written differently. -/
def sameDeposit : Request :=
  .deposit 10000 ⟨"alice ", 500, "USD", "bank", "ref-1"⟩ ⟨" key-1", "trace-2", "refill"⟩
    (raceDraws 1)

/-- Another one, under the same key. -/
def otherDeposit : Request :=
  .deposit 10000 ⟨"alice", 5000, "usd", "bank", "ref-2"⟩ ⟨"key-1", "trace-3", "refill"⟩
    (raceDraws 2)

/-- Another one, with the same reference. -/
def againDeposit : Request :=
  .deposit 10000 ⟨"alice", 500, "usd", "bank", "ref-1"⟩ ⟨"key-2", "trace-4", "refill"⟩
    (raceDraws 3)

/-- The first two calls both find the key free; the others come later. -/
def raceRun : List (Transact.Event (system .parity (.only services))) :=
  [.arrive firstDeposit, .arrive sameDeposit, .run 0, .run 1, .run 1, .run 0, .run 0, .run 0,
    .run 0, .run 0, .run 0, .run 0, .run 0, .run 0, .run 1, .run 1, .run 1, .arrive otherDeposit,
    .run 2, .arrive againDeposit, .run 3, .run 3, .run 3, .run 3, .run 3]

/-- The calls of a run: what they ask for, and what they have returned. -/
def calls {P : Platform} {policy : Policy} (s : SystemState P policy) :
    List (Option (String × DepositRequest) × Option (Except Error DepositResponse)) :=
  s.tasks.map fun t => (asked t, returned t)

/-- Its operations: whose they are, whether a deposit was committed, what they reported. -/
def operations {P : Platform} {policy : Policy} (s : SystemState P policy) :
    List (Nat × Bool × Option Error) :=
  s.log.map fun e => (e.task, (credited e).isSome, told e)

/-- What they found when they began: whether the key was taken, and which deposits there were. -/
def beginnings {P : Platform} {policy : Policy} (s : SystemState P policy) :
    List (Bool × List TransactionRow) :=
  s.tasks.map fun t => ((t.start.depositIdempotencyKeys.find? "key-1").isSome,
    t.start.ofKind .deposit)

def paid : DepositRequest := ⟨"alice", 500, "USD", "bank", "ref-1"⟩

def other : DepositRequest := ⟨"alice", 5000, "USD", "bank", "ref-2"⟩

/-- The deposit that is made. -/
def paidDeposit : Transaction :=
  newTransaction paid ⟨"key-1", "trace-1", "refill"⟩ (raceDraws 0)

theorem raceRun_shows : ((State.init Db.empty () : SystemState .parity (.only services)).steps
    raceRun).any (fun s =>
      decide (calls s = [(some ("key-1", paid), some (.ok (depositResponse paidDeposit 500))),
        (some ("key-1", paid), some (.ok (depositResponse paidDeposit 500))),
        (some ("key-1", other), some (.error (.sentinel .depositIdempotencyConflict))),
        (some ("key-2", paid), some (.error (.wrap "create deposit"
          (.sentinel .externalReferenceConflict))))]) &&
      decide (operations s = [(0, false, none), (1, false, none), (0, true, none),
        (1, false, some (.sentinel .externalReferenceConflict)), (1, false, none),
        (2, false, none), (3, false, none),
        (3, false, some (.sentinel .externalReferenceConflict)), (3, false, none)]) &&
      decide (beginnings s = [(false, []), (false, []), (true, [depositRow paidDeposit]),
        (true, [depositRow paidDeposit])]) &&
      decide (s.db.depositIdempotencyKeys.find? "key-2" = none)) = true := by
  decide +kernel

section

variable {P : Platform} {policy : Policy} {s : SystemState P policy} {i : Nat}

theorem asks_iff {key : String} {request : DepositRequest} :
    Asks s i key request ↔ ∃ r, (calls s)[i]? = some (some (key, request), r) := by
  rw [Asks, calls, List.getElem?_map]
  cases s.tasks[i]? with
  | none => simp
  | some t => simp

theorem returned_of_calls {a : Option (String × DepositRequest)}
    {result : Except Error DepositResponse} (h : (calls s)[i]? = some (a, some result)) :
    Returned s i result := by
  rw [calls, List.getElem?_map] at h
  obtain ⟨t, ht, h⟩ := Option.map_eq_some_iff.mp h
  rw [Returned, ht]
  exact congrArg Prod.snd h

theorem began_of_beginnings {x : Bool × List TransactionRow} (h : (beginnings s)[i]? = some x) :
    ∃ start, Began s i start ∧ (start.depositIdempotencyKeys.find? "key-1").isSome = x.1 ∧
      start.ofKind .deposit = x.2 := by
  rw [beginnings, List.getElem?_map] at h
  obtain ⟨t, ht, rfl⟩ := Option.map_eq_some_iff.mp h
  exact ⟨t.start, congrArg (Option.map Task.start) ht, rfl, rfl⟩

theorem unfailed_of_operations
    (h : ∀ x ∈ operations s, x.1 = i → ∀ err, x.2.2 = some err → beatenBy err = true) :
    Unfailed s i := by
  intro e he err herr
  have htask : e.task = i := by simpa using (List.mem_filter.mp he).2
  exact h _ (List.mem_map_of_mem (mem_of_own he)) htask err (told_eq_some herr)

end

theorem deposit_idempotent_race : ∃ s : SystemState .parity (.only services),
    (State.init Db.empty ()).steps raceRun = some s ∧
      (∀ response response', Returned s 0 (.ok response) → Returned s 1 (.ok response') →
        response = response') ∧
      (∃ err, Returned s 2 (.error err) ∧ err.is .depositIdempotencyConflict = true) ∧
      ∃ err, Returned s 3 (.error err) ∧ err.is .externalReferenceConflict = true := by
  obtain ⟨s, hs, hshows⟩ := (Option.any_eq_true _ _).mp raceRun_shows
  simp only [Bool.and_eq_true, decide_eq_true_eq] at hshows
  obtain ⟨⟨⟨hcalls, hops⟩, hbegin⟩, hfree⟩ := hshows
  have hrequest : ∀ {i key request}, Asks s i key request → request = paid ∨ request = other := by
    intro i key request hasks
    obtain ⟨r, hi⟩ := asks_iff.mp hasks
    have hmem := List.mem_of_getElem? hi
    rw [hcalls] at hmem
    simp only [List.mem_cons, Prod.mk.injEq, Option.some.injEq, List.not_mem_nil, or_false] at hmem
    tauto
  have hsha : CollisionFree s := by
    intro i j key key' request request' hasks hasks' heq
    rcases hrequest hasks with rfl | rfl <;> rcases hrequest hasks' with rfl | rfl
    · rfl
    · exact absurd heq (by decide +kernel)
    · exact absurd heq (by decide +kernel)
    · rfl
  have hone := deposit_idempotent .parity raceRun s hs hsha
  have hasks : ∀ {i key request r}, (calls s)[i]? = some (some (key, request), r) →
      Asks s i key request := fun h => asks_iff.mpr ⟨_, h⟩
  have hzero : (calls s)[0]? = some (some ("key-1", paid),
      some (.ok (depositResponse paidDeposit 500))) := by
    rw [hcalls]
    rfl
  have hfirst : (calls s)[1]? = some (some ("key-1", paid),
      some (.ok (depositResponse paidDeposit 500))) := by
    rw [hcalls]
    rfl
  have hsecond : (calls s)[2]? = some (some ("key-1", other),
      some (.error (.sentinel .depositIdempotencyConflict))) := by
    rw [hcalls]
    rfl
  have hthird : (calls s)[3]? = some (some ("key-2", paid), some (.error (.wrap "create deposit"
      (.sentinel .externalReferenceConflict)))) := by
    rw [hcalls]
    rfl
  have hcredited : Credited s 0 := by
    have hmem : ((0, true, none) : Nat × Bool × Option Error) ∈ operations s := by
      rw [hops]
      decide
    obtain ⟨e, he, hop⟩ := List.mem_map.mp hmem
    simp only [Prod.mk.injEq] at hop
    exact ⟨e, he, hop.1, hop.2.1⟩
  have hunfailed : ∀ i, Unfailed s i := by
    intro i
    refine unfailed_of_operations fun x hx _ err herr => ?_
    rw [hops] at hx
    simp only [List.mem_cons, List.not_mem_nil, or_false] at hx
    rcases hx with rfl | rfl | rfl | rfl | rfl | rfl | rfl | rfl | rfl <;> cases herr <;> rfl
  obtain ⟨start₂, hbegan₂, htaken, -⟩ := began_of_beginnings (i := 2)
    (x := (true, [depositRow paidDeposit])) (by rw [hbegin]; rfl)
  obtain ⟨start₃, hbegan₃, -, hdeposits⟩ := began_of_beginnings (i := 3)
    (x := (true, [depositRow paidDeposit])) (by rw [hbegin]; rfl)
  obtain ⟨err₂, herr₂, his₂⟩ := hone.key_conflict 2 0 "key-1" other paid start₂ _ (hasks hsecond)
    (hasks hzero) (by decide) hcredited hbegan₂ (Option.isSome_iff_ne_none.mp htaken)
    (hunfailed 2) (returned_of_calls hsecond)
  obtain ⟨err₃, herr₃, his₃⟩ := hone.reference_conflict 3 "key-2" paid start₃
    (depositRow paidDeposit) _ (hasks hthird) hfree hbegan₃
    (by rw [hdeposits]; exact List.mem_singleton_self _) (by decide) (hunfailed 3)
    (returned_of_calls hthird)
  refine ⟨s, hs, fun response response' h h' => ?_, ⟨err₂, herr₂ ▸ returned_of_calls hsecond, his₂⟩,
    err₃, herr₃ ▸ returned_of_calls hthird, his₃⟩
  exact (hone.answers 0 1 "key-1" paid paid response response' (hasks hzero) (hasks hfirst) h h').1

end FundingService

end Clearance
