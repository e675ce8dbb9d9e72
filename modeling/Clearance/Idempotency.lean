/-
# `Clearance.Idempotency` — one payment per idempotency key

`Create` looks for the key, inserts, and looks again if the insertion was in vain; other
calls may come in between, and any of them may fail or be gone.  The table of keys is a
register, so whoever fills a key first has won it: everybody who is answered under this key
is answered with the winner's response (`Answered`), and somebody who asks for something
else is told of a conflict (`create_idempotent`).
-/
import Clearance.Fingerprints
import Clearance.Origins
import Clearance.Requesting

namespace Clearance

open Transact

namespace TransactionService

section

variable {P : Platform} {policy : Policy}

/-! ## Calls -/

/-- The key a call is made under and the payment it asks for, both as they are normalized. -/
def asked : Task (system P policy) → Option (String × CreateRequest)
  | ⟨.create request metadata _, _, _⟩ =>
      some ((normalizeMetadata metadata).idempotencyKey, normalize request)
  | _ => none

/-- What a call has returned. -/
def returned : Task (system P policy) → Option (Except Error CreateResponse)
  | ⟨.create _ _ _, _, .idle (.ret result)⟩ => some result
  | _ => none

/-- Call `i` asks for `request` under `key`. -/
def Asks (s : SystemState P policy) (i : Nat) (key : String) (request : CreateRequest) : Prop :=
  s.tasks[i]?.bind asked = some (key, request)

/-- Call `i` has returned. -/
def Returned (s : SystemState P policy) (i : Nat) (result : Except Error CreateResponse) : Prop :=
  s.tasks[i]?.bind returned = some result

/-- The payment an operation has committed, whatever its caller was told. -/
def committed : LogEntry P → Option IdempotencyRecord
  | ⟨_, .create record _ _, ⟨_, .ok _, _, _, _, _⟩⟩ => some record
  | _ => none

/-- The store has not failed call `i`: it has been told of nothing worse than a key that is
taken. -/
def Unfailed (s : SystemState P policy) (i : Nat) : Prop :=
  ∀ e ∈ own i s.log, ∀ err, e.op.answer = .error err →
    err.is .transactionIdempotencyConflict = true

/-- No two requests of the run have the same SHA-256. -/
def CollisionFree (s : SystemState P policy) : Prop :=
  ∀ i j key key' request request', Asks s i key request → Asks s j key' request' →
    P.sha256 (utf8 (fingerprint request)) = P.sha256 (utf8 (fingerprint request')) →
    fingerprint request = fingerprint request'

variable {s : SystemState P policy} {e : LogEntry P} {record : IdempotencyRecord} {i : Nat}
  {key : String} {request : CreateRequest}

theorem committed_eq_some (h : committed e = some record) : ∃ (i : Nat) (event : OutboxEvent)
    (now : Time) (o : Op (dialect P.hashtext).engine Error (Call.create record event now).Reply),
    e = ⟨i, .create record event now, o⟩ ∧ o.reply = .ok () := by
  unfold committed at h
  split at h
  · cases h
    exact ⟨_, _, _, _, rfl, rfl⟩
  · cases h

theorem committed_of_reply {event : OutboxEvent} {now : Time}
    {o : Op (dialect P.hashtext).engine Error (Call.create record event now).Reply}
    (h : o.reply = .ok ()) : committed (⟨i, .create record event now, o⟩ : LogEntry P) =
      some record := by
  cases o
  cases h
  rfl

/-- A payment that is committed has taken its key. -/
theorem committed_sets (ho : (contract P.hashtext).Allows e.call e.op)
    (h : committed e = some record) :
    (paymentKeys P.hashtext).Sets e record.key (idempotencyRow record) := by
  obtain ⟨i, event, now, o, rfl, hreply⟩ := committed_eq_some h
  have hcreated : Created record event now o.before o.writes := create_commits (ho.spec hreply)
  refine ⟨⟨⟨record, event, now, rfl, rfl⟩, rfl⟩, hcreated.freshKey, ?_⟩
  show (Db.idempotencyKeys (view o.before o.writes)).find? record.key = some (idempotencyRow record)
  rw [hcreated.writes]
  show ((Db.idempotencyKeys o.before).insert (idempotencyRow record)).find? record.key = _
  rw [Table.find?_insert]
  exact (if_pos rfl).trans (congrArg (fun r => some (Option.getD r _)) hcreated.freshKey)

/-- The call behind a payment that is committed. -/
theorem committed_asks (htraced : Traced (contract P.hashtext) s.abs)
    (hservices : ∀ t ∈ s.abs.tasks, services t.request = true) (he : e ∈ s.log)
    (h : committed e = some record) :
    ∃ request, Asks s e.task record.key request ∧ record.requestHash = hashRequest P request ∧
      ∃ metadata, Accepted request metadata := by
  obtain ⟨i, event, now, o, rfl, -⟩ := committed_eq_some h
  obtain ⟨t, q, ht, hown, hmade⟩ := entry_task htraced he
  have hserves : services t.request = true :=
    hservices t.abs (List.mem_of_getElem? (State.abs_tasks ht))
  have hmakes : t.request.Makes P (.create record event now) := Request.makes (hmade.calls hown)
  obtain ⟨r, start, proc⟩ := t
  have hserves : services r = true := hserves
  have hmakes : r.Makes P (.create record event now) := hmakes
  cases hmakes with
  | minor hminor => cases hminor
  | @create request metadata draws _ _ hrequest hmetadata hacc =>
      subst hrequest hmetadata
      have hasks : Asks s i (normalizeMetadata metadata).idempotencyKey (normalize request) :=
        congrArg (fun t => Option.bind t asked) ht
      exact ⟨normalize request, hasks, rfl, normalizeMetadata metadata, acceptable_iff.mp hacc⟩
  | store => cases hserves

theorem Asks.inj {key' : String} {request' : CreateRequest} (h : Asks s i key request)
    (h' : Asks s i key' request') : key = key' ∧ request = request' := by
  cases h.symm.trans h'
  exact ⟨rfl, rfl⟩

theorem Returned.task {result : Except Error CreateResponse} (h : Returned s i result) :
    ∃ request metadata draws start,
      s.tasks[i]? = some ⟨.create request metadata draws, start, .idle (.ret result)⟩ := by
  obtain ⟨t, ht, hresult⟩ := Option.bind_eq_some_iff.mp h
  unfold returned at hresult
  split at hresult
  · cases hresult
    exact ⟨_, _, _, _, ht⟩
  · cases hresult

/-- A call that has returned has not got past `validate`, or has made the operations of its
code. -/
theorem Asks.trace (htraced : Traced (contract P.hashtext) s.abs) (hasks : Asks s i key request)
    {result : Except Error CreateResponse} (hreturned : Returned s i result) :
    (own i s.log = [] ∧ result = .error (.sentinel .invalidTransactionRequest)) ∨
      ∃ metadata draws, key = metadata.idempotencyKey ∧ Accepted request metadata ∧
        Trace P request metadata draws i (own i s.log) (.ret result) := by
  obtain ⟨request₀, metadata, draws, start, ht⟩ := hreturned.task
  unfold Asks at hasks
  rw [ht, Option.bind_some, asked] at hasks
  obtain ⟨rfl, rfl⟩ := Prod.mk.inj (Option.some.inj hasks)
  have hmade := returned_made htraced ht
  rw [Request.program, create_eq] at hmade
  split at hmade
  · next hacc =>
      exact Or.inr ⟨normalizeMetadata metadata, draws, rfl, acceptable_iff.mp hacc,
        createNormalized_trace hmade⟩
  · obtain ⟨hnil, hresult⟩ := Svc.made_ret.mp hmade
    exact Or.inl ⟨hnil, Svc.ret.inj hresult⟩

theorem Asks.trace_ok (htraced : Traced (contract P.hashtext) s.abs) (hasks : Asks s i key request)
    {response : CreateResponse} (hreturned : Returned s i (.ok response)) :
    ∃ metadata draws, key = metadata.idempotencyKey ∧ Accepted request metadata ∧
      Trace P request metadata draws i (own i s.log) (.ret (.ok response)) :=
  (hasks.trace htraced hreturned).resolve_left fun h => nomatch h.2

/-! ## Answers -/

/-- A key that was found is a row of the table. -/
theorem found_row {o : Op (dialect P.hashtext).engine Error (Call.findIdempotency key).Reply}
    (ho : (contract P.hashtext).Allows (.findIdempotency key) o)
    {existing : FoundKey CreateResponse} (h : o.answer = .ok (some existing)) :
    ∃ row : IdempotencyRow, (paymentKeys P.hashtext).look o.before key = some row ∧
      row.requestHash = existing.requestHash ∧ row.response = existing.response := by
  rcases findIdempotency_answer ho with ⟨e, he, -⟩ | hok
  · rw [h] at he
    cases he
  · rw [h] at hok
    obtain ⟨row, hrow, rfl⟩ := Option.map_eq_some_iff.mp (Except.ok.inj hok).symm
    exact ⟨row, hrow, rfl, rfl⟩

/-- A row that is there is found. -/
theorem row_found {o : Op (dialect P.hashtext).engine Error (Call.findIdempotency key).Reply}
    (ho : (contract P.hashtext).Allows (.findIdempotency key) o) {row : IdempotencyRow}
    (hrow : (paymentKeys P.hashtext).look o.before key = some row) :
    (∃ e, o.answer = .error e ∧ IsOutage e) ∨
      o.answer = .ok (some ⟨row.requestHash, row.response⟩) := by
  refine (findIdempotency_answer ho).imp id fun hok => hok.trans ?_
  have hrow : (Db.idempotencyKeys o.before).find? key = some row := hrow
  rw [hrow]
  rfl

theorem find_writes {o : Op (dialect P.hashtext).engine Error (Call.findIdempotency key).Reply}
    (ho : (contract P.hashtext).Allows (.findIdempotency key) o) : o.writes = [] := by
  rcases ho.did with ⟨_, -, hw⟩ | ⟨-, hw, -⟩
  · exact hw
  · exact hw

/-- The key is taken, by a request with this hash which is answered with `response`. -/
def Taken (d : Db) (key : String) (hash : Digest) (response : CreateResponse) : Prop :=
  ∃ row, d.idempotencyKeys.find? key = some row ∧ row.requestHash = hash ∧ row.response = response

theorem metResult_ok {existing : FoundKey CreateResponse} {conflict : Error}
    {response : CreateResponse} (h : metResult P request existing conflict = .ok response) :
    existing.requestHash = hashRequest P request ∧ existing.response = response := by
  unfold metResult at h
  split at h
  · next hhash => exact ⟨hhash, Except.ok.inj h⟩
  · cases h

variable {d : Db} {w : policy.World}

/-- Whoever is answered, is answered with what the key says. -/
theorem answered (h : AReach (contract P.hashtext) ⟨d, w, [], []⟩ s.abs)
    {metadata : RequestMetadata} {draws : Draws} {response : CreateResponse}
    (htrace : Trace P request metadata draws i (own i s.log) (.ret (.ok response))) :
    Taken s.db metadata.idempotencyKey (hashRequest P request) response := by
  have hmem : ∀ x ∈ own i s.log, x ∈ s.abs.log := fun x hx => mem_of_own hx
  have hallowed := (traced_reach h).allowed
  -- a row that was found by one of its operations
  have hmet : ∀ {find existing conflict},
      (⟨i, .findIdempotency metadata.idempotencyKey, find⟩ : LogEntry P) ∈ s.abs.log →
      find.answer = .ok (some existing) → metResult P request existing conflict = .ok response →
      Taken s.db metadata.idempotencyKey (hashRequest P request) response := by
    intro find existing conflict hin hfind hresult
    obtain ⟨row, hrow, hhash, hresponse⟩ := found_row (hallowed _ hin) hfind
    obtain ⟨hhash', hresponse'⟩ := metResult_ok hresult
    exact ⟨row, Register.still (R := paymentKeys P.hashtext) h hin hrow, hhash.trans hhash',
      hresponse.trans hresponse'⟩
  generalize own i s.log = g at htrace hmem
  generalize hq : (.ret (.ok response) : Service P (Except Error CreateResponse)) = q at htrace
  cases htrace with
  | begun => cases hq
  | unfound _ => cases hq
  | met hfind => exact hmet (hmem _ List.mem_cons_self) hfind (Svc.ret.inj hq).symm
  | free _ => cases hq
  | created _ hinsert =>
      cases hq
      have hin := hmem _ (List.mem_cons_of_mem _ List.mem_cons_self)
      have hreply := Contract.Allows.told (hallowed _ hin) hinsert
      have hset := committed_sets (hallowed _ hin) (committed_of_reply hreply)
      exact ⟨_, hset.now h hin, rfl, rfl⟩
  | failed _ _ _ => cases hq
  | beaten _ _ _ => cases hq
  | @raced _ _ e again _ _ _ =>
      have hresult : racedResult P request e again.answer = .ok response := (Svc.ret.inj hq).symm
      have hin := hmem _ (List.mem_cons_of_mem _ (List.mem_cons_of_mem _ List.mem_cons_self))
      cases hagain : again.answer with
      | error e' =>
          rw [hagain] at hresult
          cases hresult
      | ok found =>
          rw [hagain] at hresult
          cases found with
          | none => cases hresult
          | some existing => exact hmet hin hagain hresult

/-! ## Conflicts -/

theorem eq_of_hash_eq (hsha : CollisionFree s) {i j : Nat} {key' : String}
    {request' : CreateRequest} {metadata metadata' : RequestMetadata}
    (hasks : Asks s i key request) (hasks' : Asks s j key' request')
    (hacc : Accepted request metadata) (hacc' : Accepted request' metadata')
    (heq : hashRequest P request = hashRequest P request') : request = request' :=
  fingerprint_inj hacc hacc' (hsha i j key key' request request' hasks hasks' heq)

/-- The last operation of the call has found its key taken by somebody else. -/
theorem conflicting (hallowed : ∀ x ∈ own i s.log, (contract P.hashtext).Allows x.call x.op)
    {metadata : RequestMetadata} {draws : Draws} {result : Except Error CreateResponse}
    (htrace : Trace P request metadata draws i (own i s.log) (.ret result))
    (hunfailed : Unfailed s i) {row : IdempotencyRow}
    (hrow : ∀ l x, own i s.log = l ++ [x] →
      (paymentKeys P.hashtext).look x.op.before metadata.idempotencyKey = some row)
    (hhash : row.requestHash ≠ hashRequest P request) :
    (∃ err, result = .error err ∧ err.is .transactionIdempotencyConflict = true) ∧
      ∀ x ∈ own i s.log, x.op.writes = [] := by
  unfold Unfailed at hunfailed
  generalize own i s.log = g at htrace hallowed hunfailed hrow
  generalize hq : (.ret result : Service P (Except Error CreateResponse)) = q at htrace
  -- an operation that reports an outage is not among those of this call
  have hfound : ∀ {find : Op (dialect P.hashtext).engine Error
        (Call.findIdempotency metadata.idempotencyKey).Reply},
      (⟨i, .findIdempotency metadata.idempotencyKey, find⟩ : LogEntry P) ∈ g →
      (paymentKeys P.hashtext).look find.before metadata.idempotencyKey = some row →
      find.answer = .ok (some ⟨row.requestHash, row.response⟩) := by
    intro find hin hlook
    rcases row_found (hallowed _ hin) hlook with ⟨e, he, hout⟩ | hok
    · have his := hunfailed _ hin e he
      rw [hout.is_eq_false] at his
      cases his
    · exact hok
  cases htrace with
  | begun => cases hq
  | unfound hfind =>
      cases (hfound List.mem_cons_self (hrow [] _ rfl)).symm.trans hfind
  | @met find existing hfind =>
      cases (hfound List.mem_cons_self (hrow [] _ rfl)).symm.trans hfind
      cases hq
      refine ⟨⟨_, if_neg hhash, rfl⟩, List.forall_mem_singleton.mpr ?_⟩
      exact find_writes (hallowed _ List.mem_cons_self)
  | free _ => cases hq
  | @created find insert _ hinsert =>
      -- the key was free when the payment was committed
      have ho := hallowed _ (List.mem_cons_of_mem _ List.mem_cons_self)
      have hset := committed_sets ho (committed_of_reply (ho.told hinsert))
      cases hset.free.symm.trans (hrow [_] _ rfl)
  | failed _ hinsert his =>
      rw [hunfailed _ (List.mem_cons_of_mem _ List.mem_cons_self) _ hinsert] at his
      cases his
  | beaten _ _ _ => cases hq
  | @raced find insert e again hfind hinsert his =>
      cases hq
      have hagain : again.answer = .ok (some ⟨row.requestHash, row.response⟩) :=
        hfound (List.mem_cons_of_mem _ (List.mem_cons_of_mem _ List.mem_cons_self))
          (hrow [_, _] _ rfl)
      simp only [List.forall_mem_cons] at hallowed
      obtain ⟨hofind, hoinsert, hoagain, -⟩ := hallowed
      constructor
      · rw [hagain]
        exact ⟨_, if_neg hhash, his⟩
      · simp only [List.forall_mem_cons]
        refine ⟨find_writes hofind, ?_, find_writes hoagain, List.forall_mem_nil _⟩
        refine hoinsert.refused_writes (fun hs => Tx.Runs.writes_nil _ hs) hinsert fun hout => ?_
        rw [hout.is_eq_false] at his
        cases his

end

/-! ## One payment -/

/-- A payment made under a key. -/
def Pays (d : Db) (key : String) (t : TransactionRow) : Prop :=
  t ∈ d.ofKind .payment ∧ ∃ k ∈ d.idempotencyKeys.rows, k.key = key ∧ k.transactionID = t.id

/-- What the database, the log and the callers show of a key. -/
structure Idempotent {P : Platform} {policy : Policy} (s : SystemState P policy) (key : String) :
    Prop where
  unique : ∀ t t', Pays s.db key t → Pays s.db key t' → t = t'
  announced : ∀ t, Pays s.db key t → ∃! e, e ∈ s.db.ofType .transactionCreated ∧ t.id = e.aggregateID
  /-- At most one `Create` is committed, and its payment is there. -/
  commits : (s.log.filter fun e => (committed e).any fun r => r.key == key).length ≤ 1
  kept : ∀ e ∈ s.log, ∀ record, committed e = some record → record.key = key →
    ∃ t, Pays s.db key t ∧ t.id = record.transaction.id
  /-- Calls that succeed ask for the same, and are told the same. -/
  answers : ∀ i j request request' response response', Asks s i key request →
    Asks s j key request' → Returned s i (.ok response) → Returned s j (.ok response') →
    response = response' ∧ request = request'
  /-- Call `j` is committed and asks for something else; call `i` does something after that. -/
  conflicts : ∀ i j request request' g e g' result, Asks s i key request → Asks s j key request' →
    request ≠ request' → s.log = g ++ e :: g' → e.task = j → (committed e).isSome = true →
    (∃ x ∈ g', x.task = i) → Unfailed s i → Returned s i result →
    (∃ err, result = .error err ∧ err.is .transactionIdempotencyConflict = true) ∧
      ∀ x ∈ own i s.log, x.op.writes = []

theorem Pays.unique {d : Db} (h : Documented d.books) {key : String} {t t' : TransactionRow}
    (ht : Pays d key t) (ht' : Pays d key t') : t = t' := by
  obtain ⟨hmem, k, hk, hkey, hid⟩ := ht
  obtain ⟨hmem', k', hk', hkey', hid'⟩ := ht'
  obtain rfl := d.idempotencyKeys.eq_of_key_eq hk hk' (hkey.trans hkey'.symm)
  exact ((Db.oneToOne h.keys).left k hk).unique ⟨hmem, hid.symm⟩ ⟨hmem', hid'.symm⟩

theorem Pays.key {d : Db} (h : Documented d.books) {t : TransactionRow}
    (ht : t ∈ d.ofKind .payment) : ∃! key, Pays d key t := by
  obtain ⟨k, ⟨hk, hid⟩, hunique⟩ := (Db.oneToOne h.keys).right t ht
  refine ⟨k.key, ⟨ht, k, hk, rfl, hid.symm⟩, ?_⟩
  rintro key ⟨-, k', hk', rfl, hid'⟩
  rw [hunique k' ⟨hk', hid'.symm⟩]

/-- However calls of `Create` are interleaved, and wherever they fail: there is one payment under
a key, announced once; those who succeed get one answer to one request; and whoever meets
another request under the key is told so, and has changed nothing. -/
theorem create_idempotent (P : Platform) (es : List (Transact.Event (system P (.only services))))
    (s : SystemState P (.only services))
    (h : (State.init Db.empty () : SystemState P (.only services)).steps es = some s)
    (hsha : CollisionFree s) :
    (∀ t ∈ s.db.ofKind .payment, ∃! key, Pays s.db key t) ∧ ∀ key, Idempotent s key := by
  obtain ⟨hreach, htraced, hservices, -, hdoc, -⟩ := Run.of_steps h
  refine ⟨fun t ht => Pays.key hdoc ht, fun key => ?_⟩
  constructor
  case unique => exact fun t t' ht ht' => ht.unique hdoc ht'
  case announced =>
    refine fun t ht => (Db.oneToOne ?_).right t ht.1
    rw [Db.map_ofType]
    exact hdoc.created
  case commits =>
    refine Register.length_filter_le (R := paymentKeys P.hashtext) (k := key) hreach
      fun e he hp => ?_
    obtain ⟨record, hrecord, hkey⟩ := (Option.any_eq_true _ _).mp hp
    exact ⟨_, beq_iff_eq.mp hkey ▸ committed_sets (htraced.allowed e he) hrecord⟩
  case kept =>
    rintro e he record hrecord rfl
    have hrow := (committed_sets (htraced.allowed e he) hrecord).now hreach he
    have hrow : s.db.idempotencyKeys.find? record.key = some (idempotencyRow record) := hrow
    have hk := Table.mem_of_find? hrow
    obtain ⟨t, ⟨ht, hid⟩, -⟩ := (Db.oneToOne hdoc.keys).left _ hk
    exact ⟨t, ⟨ht, _, hk, rfl, hid.symm⟩, hid⟩
  case answers =>
    intro i j request request' response response' hasks hasks' hreturned hreturned'
    obtain ⟨metadata, draws, rfl, hacc, htrace⟩ := hasks.trace_ok htraced hreturned
    obtain ⟨metadata', draws', hkey, hacc', htrace'⟩ := hasks'.trace_ok htraced hreturned'
    obtain ⟨row, hrow, hhash, rfl⟩ := answered hreach htrace
    obtain ⟨row', hrow', hhash', rfl⟩ := answered hreach htrace'
    rw [← hkey, hrow] at hrow'
    cases hrow'
    exact ⟨rfl, eq_of_hash_eq hsha hasks hasks' hacc hacc' (hhash.symm.trans hhash')⟩
  case conflicts =>
    intro i j request request' g e g' result hasks hasks' hne hlog hj hcommitted hafter hunfailed
      hreturned
    have he : e ∈ s.log := by
      rw [hlog]
      exact List.mem_append_right _ List.mem_cons_self
    obtain ⟨record, hrecord⟩ := Option.isSome_iff_exists.mp hcommitted
    obtain ⟨request'', hasks'', hhash, metadata', hacc'⟩ :=
      committed_asks htraced hservices he hrecord
    obtain ⟨rfl, rfl⟩ := hasks'.inj (hj ▸ hasks'')
    rcases hasks.trace htraced hreturned with ⟨hnil, -⟩ | ⟨metadata, draws, hkey, hacc, htrace⟩
    · -- call `i` has made an operation
      obtain ⟨x, hx, rfl⟩ := hafter
      have hown : x ∈ own x.task s.log := by
        refine List.mem_filter.mpr ⟨?_, by simp⟩
        rw [hlog]
        exact List.mem_append_right _ (List.mem_cons_of_mem _ hx)
      rw [hnil] at hown
      cases hown
    · have hrow : ∀ l x, own i s.log = l ++ [x] →
          (paymentKeys P.hashtext).look x.op.before metadata.idempotencyKey =
            some (idempotencyRow record) := by
        intro l x hx
        rw [hlog] at hx
        rw [← hkey]
        exact Register.later hreach hlog (committed_sets (htraced.allowed e he) hrecord)
          (mem_of_last hx hafter)
      refine conflicting (fun x hx => htraced.allowed x (mem_of_own hx)) htrace hunfailed hrow
        fun heq => hne ?_
      exact eq_of_hash_eq hsha hasks hasks' hacc hacc' (heq.symm.trans hhash)

def raceDraws (c : Nat) : Draws where
  transaction := .fill 32 c
  event := .fill 32 c
  createdAt := 0
  updatedAt := 0
  eventAt := 0
  now := 0

/-- Somebody pays 5.00. -/
def firstPayment : Request :=
  .create ⟨"alice", "shop", 500, "usd"⟩ ⟨"key-1", "trace-1"⟩ (raceDraws 0)

/-- The same payment, written differently. -/
def samePayment : Request :=
  .create ⟨"alice ", "shop", 500, "USD"⟩ ⟨" key-1", "trace-2"⟩ (raceDraws 1)

/-- Another one, under the same key. -/
def otherPayment : Request :=
  .create ⟨"alice", "shop", 5000, "usd"⟩ ⟨"key-1", "trace-3"⟩ (raceDraws 2)

/-- The first two calls both find the key free; the third comes later. -/
def raceRun : List (Transact.Event (system .parity (.only services))) :=
  [.arrive firstPayment, .arrive samePayment, .run 0, .run 1, .run 1, .run 1, .run 0, .run 0,
    .run 0, .run 0, .run 0, .run 1, .run 1, .arrive otherPayment, .run 2]

/-- The calls of a run: what they ask for, and what they have returned. -/
def calls {P : Platform} {policy : Policy} (s : SystemState P policy) :
    List (Option (String × CreateRequest) × Option (Except Error CreateResponse)) :=
  s.tasks.map fun t => (asked t, returned t)

/-- Its operations: whose they are, whether a payment was committed, what they reported. -/
def operations {P : Platform} {policy : Policy} (s : SystemState P policy) :
    List (Nat × Bool × Option Error) :=
  s.log.map fun e => (e.task, (committed e).isSome, told e)

def paid : CreateRequest := ⟨"alice", "shop", 500, "USD"⟩

def other : CreateRequest := ⟨"alice", "shop", 5000, "USD"⟩

def paidResponse : CreateResponse := ⟨newID "txn" (.fill 32 0), .pending, "trace-1"⟩

theorem raceRun_shows : ((State.init Db.empty () : SystemState .parity (.only services)).steps
    raceRun).any (fun s =>
      decide (calls s = [(some ("key-1", paid), some (.ok paidResponse)),
        (some ("key-1", paid), some (.ok paidResponse)),
        (some ("key-1", other), some (.error (.sentinel .transactionIdempotencyConflict)))]) &&
      decide (operations s = [(0, false, none), (1, false, none), (0, true, none),
        (1, false, some (.sentinel .transactionIdempotencyConflict)), (1, false, none),
        (2, false, none)])) = true := by
  decide +kernel

theorem asks_iff {P : Platform} {policy : Policy} {s : SystemState P policy} {i : Nat}
    {key : String} {request : CreateRequest} :
    Asks s i key request ↔ ∃ r, (calls s)[i]? = some (some (key, request), r) := by
  rw [Asks, calls, List.getElem?_map]
  cases s.tasks[i]? with
  | none => simp
  | some t => simp

theorem returned_of_calls {P : Platform} {policy : Policy} {s : SystemState P policy} {i : Nat}
    {a : Option (String × CreateRequest)} {result : Except Error CreateResponse}
    (h : (calls s)[i]? = some (a, some result)) : Returned s i result := by
  rw [calls, List.getElem?_map] at h
  obtain ⟨t, ht, h⟩ := Option.map_eq_some_iff.mp h
  rw [Returned, ht]
  exact congrArg Prod.snd h

theorem unfailed_of_operations {P : Platform} {policy : Policy} {s : SystemState P policy} {i : Nat}
    (h : ∀ x ∈ operations s, x.1 = i → x.2.2 = none) : Unfailed s i := by
  intro e he err herr
  have htask : e.task = i := by simpa using (List.mem_filter.mp he).2
  have hnone : told e = none := h _ (List.mem_map_of_mem (mem_of_own he)) htask
  rw [told_eq_some herr] at hnone
  cases hnone

theorem create_idempotent_race : ∃ s : SystemState .parity (.only services),
    (State.init Db.empty ()).steps raceRun = some s ∧
      (∀ response response', Returned s 0 (.ok response) → Returned s 1 (.ok response') →
        response = response') ∧
      Returned s 0 (.ok paidResponse) ∧ Returned s 1 (.ok paidResponse) ∧
      ∃ err, Returned s 2 (.error err) ∧ err.is .transactionIdempotencyConflict = true := by
  obtain ⟨s, hs, hshows⟩ := (Option.any_eq_true _ _).mp raceRun_shows
  simp only [Bool.and_eq_true, decide_eq_true_eq] at hshows
  obtain ⟨hcalls, hops⟩ := hshows
  have hrequest : ∀ {i key request}, Asks s i key request → request = paid ∨ request = other := by
    intro i key request hasks
    obtain ⟨r, hi⟩ := asks_iff.mp hasks
    have hmem := List.mem_of_getElem? hi
    rw [hcalls] at hmem
    simp only [List.mem_cons, Prod.mk.injEq, Option.some.injEq, List.not_mem_nil, or_false] at hmem
    tauto
  have hsha : CollisionFree s := by
    intro i j key key' request request' hasks hasks' heq
    rcases hrequest hasks with rfl | rfl <;> rcases hrequest hasks' with rfl | rfl
    · rfl
    · exact absurd heq (by decide +kernel)
    · exact absurd heq (by decide +kernel)
    · rfl
  have hasks : ∀ {i request r}, (calls s)[i]? = some (some ("key-1", request), r) →
      Asks s i "key-1" request := fun h => asks_iff.mpr ⟨_, h⟩
  obtain ⟨-, hone⟩ := create_idempotent .parity raceRun s hs hsha
  have hzero : (calls s)[0]? = some (some ("key-1", paid), some (.ok paidResponse)) := by
    rw [hcalls]
    rfl
  have hfirst : (calls s)[1]? = some (some ("key-1", paid), some (.ok paidResponse)) := by
    rw [hcalls]
    rfl
  have hsecond : (calls s)[2]? = some (some ("key-1", other),
      some (.error (.sentinel .transactionIdempotencyConflict))) := by
    rw [hcalls]
    rfl
  have hop : ∀ {n : Nat} {x}, (operations s)[n]? = some x → ∃ e, s.log[n]? = some e ∧
      (e.task, (committed e).isSome, told e) = x := by
    intro n x hx
    rw [operations, List.getElem?_map] at hx
    exact Option.map_eq_some_iff.mp hx
  obtain ⟨e, he, hcommitted⟩ := hop (n := 2) (x := (0, true, none)) (by rw [hops]; rfl)
  obtain ⟨x, hx, hlast⟩ := hop (n := 5) (x := (2, false, none)) (by rw [hops]; rfl)
  simp only [Prod.mk.injEq] at hcommitted hlast
  have hlog : s.log = s.log.take 2 ++ e :: s.log.drop 3 := by
    obtain ⟨hlt, rfl⟩ := List.getElem?_eq_some_iff.mp he
    rw [← List.drop_eq_getElem_cons, List.take_append_drop]
  have hafter : x ∈ s.log.drop 3 := by
    refine List.mem_of_getElem? (i := 2) ?_
    rw [List.getElem?_drop]
    exact hx
  have hunfailed : Unfailed s 2 := by
    refine unfailed_of_operations ?_
    rw [hops]
    decide
  obtain ⟨⟨err, herr, his⟩, -⟩ := (hone "key-1").conflicts 2 0 other paid _ e _ _ (hasks hsecond)
    (hasks hzero) (by decide) hlog hcommitted.1 hcommitted.2.1 ⟨x, hafter, hlast.1⟩ hunfailed
    (returned_of_calls hsecond)
  refine ⟨s, hs, fun response response' h h' => ?_, returned_of_calls hzero,
    returned_of_calls hfirst, err, herr ▸ returned_of_calls hsecond, his⟩
  exact ((hone "key-1").answers 0 1 paid paid response response' (hasks hzero) (hasks hfirst) h
    h').1

end TransactionService

end Clearance
