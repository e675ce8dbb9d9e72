/-
# `Clearance.Fingerprints` — what the hash of a request stands for

`hashRequest` hashes the fields of a normalized request with `|` between them.  None of
the fields of a request that was accepted contains a `|`, and numbers are written in one
way only, so the text that is hashed is that of one request (`fingerprint_inj`).  What has
been normalized and accepted is normal: validating it again changes nothing.

For a key that is taken, then, a request is a replay exactly if it normalizes to the request
the key was taken by, and a conflict otherwise (`fingerprint_identifies`).
-/
import Clearance.Fields
import Clearance.Service.Requests
import Clearance.Transact.Serial

namespace Clearance

open Transact

/-- A call of the store, alone, and the rest. -/
theorem callStore_solo {P : Platform} {α : Type} {c : Call}
    {k : Except Error c.Reply → Service P α} {d d' : Db} {answer : Except Error c.Reply}
    (h : (methodOf c).solo (dialect P.hashtext).engine d = (answer, d')) :
    (callStore P c >>= k).solo (dialect P.hashtext).engine d =
      (k answer).solo (dialect P.hashtext).engine d' := by
  show (k ((methodOf c).solo (dialect P.hashtext).engine d).1).solo _
    ((methodOf c).solo (dialect P.hashtext).engine d).2 = _
  rw [h]

/-- A platform whose hash tells texts of even length from those of odd length. -/
def Platform.parity : Platform :=
  { Platform.plain with
    sha256 := fun b => if b.length % 2 = 0 then .fill 64 0 else .fill 64 1 }

theorem bar_notMem_of_safeToken {s : String} (h : safeToken s = true) : '|' ∉ s.toList := by
  intro hmem
  have hsafe := (safeToken_iff.mp h).2 _ hmem
  exact absurd hsafe (by decide)

theorem bar_notMem_amount (n : Int64) : '|' ∉ (toString n.toInt).toList :=
  Fields.notMem_toString_int (by decide) (by decide) n.toInt

theorem amount_inj {m n : Int64} (h : (toString m.toInt).toList = (toString n.toInt).toList) :
    m = n := by
  have htext := String.toList_inj.mp h
  rw [Int.toString_eq_repr, Int.toString_eq_repr] at htext
  exact Int64.toInt_inj.mp (Int.repr_injective htext)

/-! ## Payments -/

namespace TransactionService

variable {request request' : CreateRequest} {metadata metadata' : RequestMetadata}

/-- What `validate` lets pass. -/
structure Accepted (request : CreateRequest) (metadata : RequestMetadata) : Prop where
  key : safeToken metadata.idempotencyKey = true
  account : safeToken request.accountID = true
  open_ : reserved request.accountID = false
  merchant : safeToken request.merchantID = true
  currency : currencyCode request.currency = true
  amount : 0 < request.amountCents.toInt

theorem acceptable_iff : acceptable request metadata = true ↔ Accepted request metadata := by
  simp only [acceptable, Bool.and_eq_true, Bool.not_eq_true', decide_eq_true_eq]
  constructor
  · rintro ⟨⟨⟨⟨⟨hkey, haccount⟩, hopen⟩, hmerchant⟩, hcurrency⟩, hamount⟩
    exact ⟨hkey, haccount, hopen, hmerchant, hcurrency, hamount⟩
  · rintro ⟨hkey, haccount, hopen, hmerchant, hcurrency, hamount⟩
    exact ⟨⟨⟨⟨⟨hkey, haccount⟩, hopen⟩, hmerchant⟩, hcurrency⟩, hamount⟩

theorem validate_eq_ok {normalized : CreateRequest} :
    validate request metadata = .ok normalized ↔
      normalized = normalize request ∧ Accepted normalized metadata := by
  unfold validate
  split
  · next h =>
      constructor
      · intro heq
        cases heq
        exact ⟨rfl, acceptable_iff.mp h⟩
      · rintro ⟨rfl, -⟩
        rfl
  · next h =>
      constructor
      · intro heq
        cases heq
      · rintro ⟨rfl, haccepted⟩
        exact absurd (acceptable_iff.mpr haccepted) h

/-- A request that was accepted is normal. -/
theorem Accepted.normalize_eq (h : Accepted request metadata) : normalize request = request := by
  simp only [normalize, trimSpace_of_safeToken h.account, trimSpace_of_safeToken h.merchant,
    trimSpace_of_safeToken (safeToken_of_currencyCode h.currency),
    toUpper_of_currencyCode h.currency]

theorem fingerprint_toList (request : CreateRequest) : (fingerprint request).toList =
    ['|'].intercalate [request.accountID.toList, request.merchantID.toList,
      (toString request.amountCents.toInt).toList, request.currency.toList] := by
  simp [fingerprint, List.intercalate]

theorem Accepted.fields_separate (h : Accepted request metadata) :
    ∀ field ∈ [request.accountID.toList, request.merchantID.toList,
      (toString request.amountCents.toInt).toList, request.currency.toList], '|' ∉ field := by
  simp only [List.forall_mem_cons]
  exact ⟨bar_notMem_of_safeToken h.account, bar_notMem_of_safeToken h.merchant,
    bar_notMem_amount _, bar_notMem_of_safeToken (safeToken_of_currencyCode h.currency),
    List.forall_mem_nil _⟩

theorem fingerprint_inj (h : Accepted request metadata) (h' : Accepted request' metadata')
    (heq : fingerprint request = fingerprint request') : request = request' := by
  have hlist := congrArg String.toList heq
  rw [fingerprint_toList, fingerprint_toList] at hlist
  have hfields := Fields.intercalate_inj h.fields_separate h'.fields_separate hlist rfl
  simp only [List.cons.injEq, and_true] at hfields
  obtain ⟨haccount, hmerchant, hamount, hcurrency⟩ := hfields
  cases request
  cases request'
  simp only [CreateRequest.mk.injEq]
  exact ⟨String.toList_inj.mp haccount, String.toList_inj.mp hmerchant, amount_inj hamount,
    String.toList_inj.mp hcurrency⟩

/-- `Create` with a key that is taken. -/
theorem create_solo_taken {P : Platform} {normalized : CreateRequest} {draws : Draws} {d : Db}
    {row : IdempotencyRow} (h : validate request (normalizeMetadata metadata) = .ok normalized)
    (hrow : d.idempotencyKeys.find? (normalizeMetadata metadata).idempotencyKey = some row) :
    (create P request metadata draws).solo (dialect P.hashtext).engine d =
      (if row.requestHash = hashRequest P normalized then .ok row.response
        else .error (.sentinel .transactionIdempotencyConflict), d) := by
  have hfind : (methodOf (.findIdempotency (normalizeMetadata metadata).idempotencyKey)).solo
      (dialect P.hashtext).engine d = (.ok (some ⟨row.requestHash, row.response⟩), d) := by
    show (Except.ok ((d.idempotencyKeys.find? _).map _), d) = _
    rw [hrow]
    rfl
  unfold create
  rw [h]
  refine (callStore_solo hfind).trans ?_
  show Svc.solo (dialect P.hashtext).engine (if _ then _ else _) d = _
  by_cases hhash : row.requestHash = hashRequest P normalized
  · rw [if_neg (not_not.mpr hhash), if_pos hhash]
    rfl
  · rw [if_pos hhash, if_neg hhash]
    rfl

/-- What the fingerprint says about two requests that were accepted.  `request'` may find its
key taken by `normalized`: it is a replay of it, or a conflict. -/
structure Identified (P : Platform) (d : Db) (metadata : RequestMetadata)
    (normalized : CreateRequest) (request' : CreateRequest) (metadata' : RequestMetadata)
    (normalized' : CreateRequest) : Prop where
  fingerprint_eq_iff : fingerprint normalized = fingerprint normalized' ↔ normalized = normalized'
  validate_again : validate normalized (normalizeMetadata metadata) = .ok normalized
  taken : ∀ draws row,
    d.idempotencyKeys.find? (normalizeMetadata metadata').idempotencyKey = some row →
    row.requestHash = hashRequest P normalized →
    (hashRequest P normalized = hashRequest P normalized' →
      fingerprint normalized = fingerprint normalized') →
    (create P request' metadata' draws).solo (dialect P.hashtext).engine d =
      (if normalized = normalized' then .ok row.response
        else .error (.sentinel .transactionIdempotencyConflict), d)

theorem identified {P : Platform} {d : Db} {normalized normalized' : CreateRequest}
    (h : validate request (normalizeMetadata metadata) = .ok normalized)
    (h' : validate request' (normalizeMetadata metadata') = .ok normalized') :
    Identified P d metadata normalized request' metadata' normalized' := by
  obtain ⟨-, haccepted⟩ := validate_eq_ok.mp h
  obtain ⟨-, haccepted'⟩ := validate_eq_ok.mp h'
  have hiff : fingerprint normalized = fingerprint normalized' ↔ normalized = normalized' :=
    ⟨fingerprint_inj haccepted haccepted', congrArg fingerprint⟩
  refine ⟨hiff, validate_eq_ok.mpr ⟨haccepted.normalize_eq.symm, haccepted⟩, ?_⟩
  intro draws row hrow hhash hfree
  have hsame : row.requestHash = hashRequest P normalized' ↔ normalized = normalized' := by
    rw [hhash]
    exact ⟨fun he => hiff.mp (hfree he), congrArg (hashRequest P)⟩
  rw [create_solo_taken h' hrow]
  simp only [hsame]

end TransactionService

/-! ## Deposits -/

namespace FundingService

variable {request request' : DepositRequest} {metadata metadata' : RequestMetadata}
  {maxAmountCents maxAmountCents' : Int64} {trace : Random}

/-- What `validate` lets pass. -/
structure Accepted (maxAmountCents : Int64) (request : DepositRequest)
    (metadata : RequestMetadata) : Prop where
  account : safeToken request.accountID = true
  open_ : reserved request.accountID = false
  source : safeToken request.fundingSource = true
  reference : safeToken request.externalReference = true
  key : safeToken metadata.idempotencyKey = true
  correlation : safeToken metadata.correlationID = true
  currency : currencyCode request.currency = true
  amount : 0 < request.amountCents.toInt
  amount_le : request.amountCents.toInt ≤ maxAmountCents.toInt
  reason : validReason metadata.operatorReason = true

theorem acceptable_iff : acceptable maxAmountCents request metadata = true ↔
    Accepted maxAmountCents request metadata := by
  simp only [acceptable, Bool.and_eq_true, Bool.not_eq_true', decide_eq_true_eq]
  constructor
  · rintro ⟨⟨⟨⟨⟨⟨⟨⟨⟨haccount, hopen⟩, hsource⟩, hreference⟩, hkey⟩, hcorrelation⟩, hcurrency⟩,
      hamount⟩, hle⟩, hreason⟩
    exact ⟨haccount, hopen, hsource, hreference, hkey, hcorrelation, hcurrency, hamount, hle,
      hreason⟩
  · rintro ⟨haccount, hopen, hsource, hreference, hkey, hcorrelation, hcurrency, hamount, hle,
      hreason⟩
    exact ⟨⟨⟨⟨⟨⟨⟨⟨⟨haccount, hopen⟩, hsource⟩, hreference⟩, hkey⟩, hcorrelation⟩, hcurrency⟩,
      hamount⟩, hle⟩, hreason⟩

theorem validate_eq_ok {normalized : DepositRequest × RequestMetadata} :
    validate maxAmountCents request metadata trace = .ok normalized ↔
      normalized = (normalize request, normalizeMetadata metadata trace) ∧
        Accepted maxAmountCents normalized.1 normalized.2 := by
  unfold validate
  split
  · next h =>
      constructor
      · intro heq
        cases heq
        exact ⟨rfl, acceptable_iff.mp h⟩
      · rintro ⟨rfl, -⟩
        rfl
  · next h =>
      constructor
      · intro heq
        cases heq
      · rintro ⟨rfl, haccepted⟩
        exact absurd (acceptable_iff.mpr haccepted) h

/-- A request that was accepted is normal. -/
theorem Accepted.normalize_eq (h : Accepted maxAmountCents request metadata) :
    normalize request = request := by
  simp only [normalize, trimSpace_of_safeToken h.account, trimSpace_of_safeToken h.source,
    trimSpace_of_safeToken h.reference,
    trimSpace_of_safeToken (safeToken_of_currencyCode h.currency),
    toUpper_of_currencyCode h.currency]

/-- And so is its metadata: nothing is drawn. -/
theorem Accepted.normalizeMetadata_eq
    (h : Accepted maxAmountCents request (normalizeMetadata metadata trace)) (trace' : Random) :
    normalizeMetadata (normalizeMetadata metadata trace) trace' =
      normalizeMetadata metadata trace := by
  have hcorrelation := trimSpace_of_safeToken h.correlation
  have hne : (normalizeMetadata metadata trace).correlationID ≠ "" := by
    intro hempty
    have hsafe := h.correlation
    rw [hempty] at hsafe
    exact absurd hsafe (by decide)
  rw [normalizeMetadata, hcorrelation, if_neg hne, trimSpace_of_safeToken h.key]
  simp [normalizeMetadata]

theorem fingerprint_toList (request : DepositRequest) : (fingerprint request).toList =
    ['|'].intercalate ["deposit".toList, request.accountID.toList,
      (toString request.amountCents.toInt).toList, request.currency.toList,
      request.fundingSource.toList, request.externalReference.toList] := by
  have h : fingerprint request = "deposit" ++ "|" ++ request.accountID ++ "|" ++
      toString request.amountCents.toInt ++ "|" ++ request.currency ++ "|" ++
      request.fundingSource ++ "|" ++ request.externalReference := rfl
  rw [h]
  generalize "deposit" = kind
  simp [List.intercalate]

theorem Accepted.fields_separate (h : Accepted maxAmountCents request metadata) :
    ∀ field ∈ ["deposit".toList, request.accountID.toList,
      (toString request.amountCents.toInt).toList, request.currency.toList,
      request.fundingSource.toList, request.externalReference.toList], '|' ∉ field := by
  simp only [List.forall_mem_cons]
  exact ⟨by decide, bar_notMem_of_safeToken h.account, bar_notMem_amount _,
    bar_notMem_of_safeToken (safeToken_of_currencyCode h.currency),
    bar_notMem_of_safeToken h.source, bar_notMem_of_safeToken h.reference,
    List.forall_mem_nil _⟩

theorem fingerprint_inj (h : Accepted maxAmountCents request metadata)
    (h' : Accepted maxAmountCents' request' metadata')
    (heq : fingerprint request = fingerprint request') : request = request' := by
  have hlist := congrArg String.toList heq
  rw [fingerprint_toList, fingerprint_toList] at hlist
  have hfields := Fields.intercalate_inj h.fields_separate h'.fields_separate hlist rfl
  simp only [List.cons.injEq, true_and, and_true] at hfields
  obtain ⟨haccount, hamount, hcurrency, hsource, hreference⟩ := hfields
  cases request
  cases request'
  simp only [DepositRequest.mk.injEq]
  exact ⟨String.toList_inj.mp haccount, amount_inj hamount, String.toList_inj.mp hcurrency,
    String.toList_inj.mp hsource, String.toList_inj.mp hreference⟩

/-- `Deposit` with a key that is taken. -/
theorem deposit_solo_taken {P : Platform} {normalized : DepositRequest × RequestMetadata}
    {draws : Draws} {d : Db} {row : DepositKeyRow}
    (h : validate maxAmountCents request metadata draws.trace = .ok normalized)
    (hrow : d.depositIdempotencyKeys.find? normalized.2.idempotencyKey = some row) :
    (deposit P maxAmountCents request metadata draws).solo (dialect P.hashtext).engine d =
      (if row.requestHash = hashRequest P normalized.1 then .ok row.response
        else .error (.sentinel .depositIdempotencyConflict), d) := by
  have hfind : (methodOf (.findDepositIdempotency normalized.2.idempotencyKey)).solo
      (dialect P.hashtext).engine d = (.ok (some ⟨row.requestHash, row.response⟩), d) := by
    show (Except.ok ((d.depositIdempotencyKeys.find? _).map _), d) = _
    rw [hrow]
    rfl
  unfold deposit
  rw [h]
  refine (callStore_solo hfind).trans ?_
  show Svc.solo (dialect P.hashtext).engine (if _ then _ else _) d = _
  by_cases hhash : row.requestHash = hashRequest P normalized.1
  · rw [if_neg (not_not.mpr hhash), if_pos hhash]
    rfl
  · rw [if_pos hhash, if_neg hhash]
    rfl

/-- What the fingerprint says about two requests that were accepted. -/
structure Identified (P : Platform) (d : Db) (maxAmountCents : Int64)
    (normalized : DepositRequest × RequestMetadata) (maxAmountCents' : Int64)
    (request' : DepositRequest) (metadata' : RequestMetadata) (draws : Draws)
    (normalized' : DepositRequest × RequestMetadata) : Prop where
  fingerprint_eq_iff :
    fingerprint normalized.1 = fingerprint normalized'.1 ↔ normalized.1 = normalized'.1
  validate_again : ∀ trace, validate maxAmountCents normalized.1 normalized.2 trace = .ok normalized
  taken : ∀ row, d.depositIdempotencyKeys.find? normalized'.2.idempotencyKey = some row →
    row.requestHash = hashRequest P normalized.1 →
    (hashRequest P normalized.1 = hashRequest P normalized'.1 →
      fingerprint normalized.1 = fingerprint normalized'.1) →
    (deposit P maxAmountCents' request' metadata' draws).solo (dialect P.hashtext).engine d =
      (if normalized.1 = normalized'.1 then .ok row.response
        else .error (.sentinel .depositIdempotencyConflict), d)

theorem identified {P : Platform} {d : Db} {draws : Draws}
    {normalized normalized' : DepositRequest × RequestMetadata}
    (h : validate maxAmountCents request metadata trace = .ok normalized)
    (h' : validate maxAmountCents' request' metadata' draws.trace = .ok normalized') :
    Identified P d maxAmountCents normalized maxAmountCents' request' metadata' draws
      normalized' := by
  obtain ⟨rfl, haccepted⟩ := validate_eq_ok.mp h
  obtain ⟨-, haccepted'⟩ := validate_eq_ok.mp h'
  have hiff : fingerprint (normalize request) = fingerprint normalized'.1 ↔
      normalize request = normalized'.1 :=
    ⟨fingerprint_inj haccepted haccepted', congrArg fingerprint⟩
  refine ⟨hiff, fun trace' => validate_eq_ok.mpr ⟨?_, haccepted⟩, ?_⟩
  · exact Prod.ext haccepted.normalize_eq.symm (haccepted.normalizeMetadata_eq trace').symm
  · intro row hrow hhash hfree
    have hsame : row.requestHash = hashRequest P normalized'.1 ↔
        normalize request = normalized'.1 := by
      rw [hhash]
      exact ⟨fun he => hiff.mp (hfree he), congrArg (hashRequest P)⟩
    rw [deposit_solo_taken h' hrow]
    simp only [hsame]

end FundingService

/-! ## Replays and conflicts -/

/-- Requests that were accepted are told apart by what is hashed, and validating them again
changes nothing.  A request that finds its key taken is a replay if it is the same request
once normalized, and a conflict otherwise, where the two hashes do not collide. -/
theorem fingerprint_identifies (P : Platform) (d : Db) :
    (∀ request metadata normalized request' metadata' normalized',
      TransactionService.validate request (TransactionService.normalizeMetadata metadata) =
        .ok normalized →
      TransactionService.validate request' (TransactionService.normalizeMetadata metadata') =
        .ok normalized' →
      TransactionService.Identified P d metadata normalized request' metadata' normalized') ∧
    ∀ maxAmountCents request metadata trace normalized maxAmountCents' request' metadata' draws
      normalized',
      FundingService.validate maxAmountCents request metadata trace = .ok normalized →
      FundingService.validate maxAmountCents' request' metadata' draws.trace = .ok normalized' →
      FundingService.Identified P d maxAmountCents normalized maxAmountCents' request' metadata'
        draws normalized' := by
  constructor
  · intro request metadata normalized request' metadata' normalized' h h'
    exact TransactionService.identified h h'
  · intro maxAmountCents request metadata trace normalized maxAmountCents' request' metadata' draws
      normalized' h h'
    exact FundingService.identified h h'

/-- The same payment twice, written in two ways, and the same deposit twice. -/
theorem fingerprint_identifies_blanks :
    TransactionService.fingerprint ⟨"alice", "shop", 100, "EUR"⟩ = "alice|shop|100|EUR" ∧
      TransactionService.Identified .plain Db.empty ⟨" key-1", "trace-1"⟩
        ⟨"alice", "shop", 100, "EUR"⟩ ⟨"alice\t", "shop", 100, "EUR"⟩ ⟨"key-1", "trace-2"⟩
        ⟨"alice", "shop", 100, "EUR"⟩ := by
  refine ⟨by decide +kernel, ?_⟩
  exact (fingerprint_identifies .plain Db.empty).1 ⟨" alice", "shop ", 100, "eur"⟩
    ⟨" key-1", "trace-1"⟩ _ ⟨"alice\t", "shop", 100, "EUR"⟩ ⟨"key-1", "trace-2"⟩ _
    (by rfl) (by rfl)

end Clearance
