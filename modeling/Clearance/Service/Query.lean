/-
# `Clearance.Service.Query` — `transaction.QueryService`

Looking up one transaction and listing the transactions of an account, page by page.
A page says where the next one begins: `NextCursor` is the creation time and the
identifier of its last transaction, as JSON, in base64.

The queries of `internal/postgres` read one snapshot and change nothing, so they are
functions of the database here (`Db.queryStore`).  Texts are compared as PostgreSQL does
under the collation `C`.

`CursorJSON` is `encoding/json` on cursors: what has been written is read back, for
instants that `time.Time` can write.  Nothing else is assumed of it.
-/
import Clearance.Base64
import Clearance.Fields
import Clearance.Postgres.Schema

namespace Clearance

/-! ## Texts of the enumerations -/

def TransactionStatus.text : TransactionStatus → String
  | .pending => "PENDING"
  | .authorized => "AUTHORIZED"
  | .failed => "FAILED"

def TransactionKind.text : TransactionKind → String
  | .payment => "PAYMENT"
  | .deposit => "DEPOSIT"

def RiskLevel.text : RiskLevel → String
  | .low => "LOW"
  | .high => "HIGH"
  | .other text => text

/-! ## Cursors -/

/-- The zero `time.Time`: the first instant of the year 1. -/
def zeroTime : Time := -62135596800000000000

/-- The first instant of the year 10000. -/
def endOfYears : Time := 253402300800000000000

/-- An instant of the years 1 to 9999, and not the zero one. -/
def writtenInstant (t : Time) : Bool := decide (zeroTime < t) && decide (t < endOfYears)

/-- `cursor` -/
structure Cursor where
  createdAt : Time
  id : String
  deriving DecidableEq

/-- `encoding/json` on cursors. -/
structure CursorJSON where
  marshal : Cursor → Bytes
  unmarshal : Bytes → Except String Cursor
  marshal_ne_nil : ∀ c, writtenInstant c.createdAt = true → marshal c ≠ []
  unmarshal_marshal : ∀ c, writtenInstant c.createdAt = true → unmarshal (marshal c) = .ok c

def encodeCursor (J : CursorJSON) (value : Cursor) : String :=
  String.ofList (Base64.encodeURL (J.marshal value))

def decodeCursor (J : CursorJSON) (value : String) : Except String Cursor :=
  match Base64.decodeURL value.toList with
  | none => .error "illegal base64 data"
  | some payload =>
      match J.unmarshal payload with
      | .error e => .error e
      | .ok decoded =>
          if decoded.createdAt = zeroTime || !safeToken decoded.id then
            .error "invalid transaction query"
          else .ok decoded

theorem decodeCursor_encodeCursor (J : CursorJSON) {c : Cursor}
    (ht : writtenInstant c.createdAt = true) (hid : safeToken c.id = true) :
    decodeCursor J (encodeCursor J c) = .ok c := by
  have hne : c.createdAt ≠ zeroTime := by
    intro he
    rw [he] at ht
    exact absurd ht (by decide)
  simp [decodeCursor, encodeCursor, Base64.decodeURL_encodeURL, J.unmarshal_marshal c ht, hne, hid]

theorem encodeCursor_ne_empty (J : CursorJSON) {c : Cursor}
    (ht : writtenInstant c.createdAt = true) : encodeCursor J c ≠ "" := by
  intro he
  have hnil : Base64.encodeURL (J.marshal c) = [] := by
    rw [← String.toList_ofList (l := Base64.encodeURL (J.marshal c))]
    exact congrArg String.toList he
  have hback := Base64.decodeURL_encodeURL (J.marshal c)
  rw [hnil] at hback
  exact J.marshal_ne_nil c ht (Option.some.inj hback).symm

theorem decodeCursor_ok {J : CursorJSON} {value : String} {c : Cursor}
    (h : decodeCursor J value = .ok c) : c.createdAt ≠ zeroTime ∧ safeToken c.id = true := by
  unfold decodeCursor at h
  split at h
  · cases h
  · split at h
    · cases h
    · split at h
      · cases h
      · rename_i hguard
        cases h
        simpa using hguard

/-- What stands for itself in a URL: letters, digits, the hyphen and the underscore. -/
def urlSafe (c : Char) : Bool := c.isAlphanum || c == '-' || c == '_'

theorem urlSafe_encodeCursor (J : CursorJSON) (c : Cursor) :
    ∀ x ∈ (encodeCursor J c).toList, urlSafe x = true := by
  rw [encodeCursor, String.toList_ofList]
  exact Base64.forall_mem_encodeURL (by decide) _

/-! ## A codec to evaluate -/

/-- The instant in decimal, a blank, and the identifier. -/
def plainCursor (c : Cursor) : String := toString c.createdAt ++ " " ++ c.id

def parsePlainCursor (b : Bytes) : Except String Cursor :=
  match String.fromUTF8? ⟨b.toArray⟩ with
  | none => .error "invalid UTF-8"
  | some s =>
      match (String.ofList (s.toList.takeWhile fun c => c != ' ')).toInt? with
      | none => .error "invalid instant"
      | some t => .ok ⟨t, String.ofList (s.toList.dropWhile fun c => c != ' ').tail⟩

theorem fromUTF8?_utf8 (s : String) : String.fromUTF8? ⟨(utf8 s).toArray⟩ = some s := by
  have hbytes : (⟨(utf8 s).toArray⟩ : ByteArray) = s.toByteArray := rfl
  rw [hbytes, String.fromUTF8?, dif_pos s.isValidUTF8]
  rfl

theorem toList_plainCursor (c : Cursor) :
    (plainCursor c).toList = (toString c.createdAt).toList ++ ' ' :: c.id.toList := by
  simp [plainCursor]

theorem parsePlainCursor_plainCursor (c : Cursor) :
    parsePlainCursor (utf8 (plainCursor c)) = .ok c := by
  have hfield : ∀ x ∈ (toString c.createdAt).toList, (x != ' ') = true := by
    intro x hx
    refine bne_iff_ne.mpr fun he => ?_
    rw [he] at hx
    exact Fields.notMem_toString_int (by decide) (by decide) _ hx
  have htake : (plainCursor c).toList.takeWhile (fun x => x != ' ') =
      (toString c.createdAt).toList := by
    rw [toList_plainCursor, List.takeWhile_append_of_pos hfield]
    simp
  have hdrop : (plainCursor c).toList.dropWhile (fun x => x != ' ') = ' ' :: c.id.toList := by
    rw [toList_plainCursor, List.dropWhile_append_of_pos hfield]
    simp
  simp only [parsePlainCursor, fromUTF8?_utf8, htake, hdrop, String.ofList_toList,
    Int.toString_eq_repr, Int.toInt?_repr, List.tail_cons]

def CursorJSON.plain : CursorJSON where
  marshal c := utf8 (plainCursor c)
  unmarshal := parsePlainCursor
  marshal_ne_nil c _ h := by
    have hback := fromUTF8?_utf8 (plainCursor c)
    have hempty : String.fromUTF8? ⟨([] : Bytes).toArray⟩ = some "" := fromUTF8?_utf8 ""
    rw [h, hempty] at hback
    have htext := toList_plainCursor c
    rw [← Option.some.inj hback] at htext
    simp at htext
  unmarshal_marshal c _ := parsePlainCursor_plainCursor c

/-- What `encodeCursor` writes is never empty and can stand in a URL, and `decodeCursor` reads
it back; whatever else `decodeCursor` is given, it returns proper cursors only. -/
theorem cursor_codec (J : CursorJSON) :
    (∀ t id, writtenInstant t = true → safeToken id = true →
      decodeCursor J (encodeCursor J ⟨t, id⟩) = .ok ⟨t, id⟩ ∧ encodeCursor J ⟨t, id⟩ ≠ "" ∧
        ∀ x ∈ (encodeCursor J ⟨t, id⟩).toList, urlSafe x = true) ∧
    ∀ value c, decodeCursor J value = .ok c → c.createdAt ≠ zeroTime ∧ safeToken c.id = true := by
  constructor
  · intro t id ht hid
    exact ⟨decodeCursor_encodeCursor J ht hid, encodeCursor_ne_empty J ht,
      urlSafe_encodeCursor J ⟨t, id⟩⟩
  · intro value c h
    exact decodeCursor_ok h

theorem cursor_codec_payment :
    decodeCursor .plain (encodeCursor .plain ⟨1700000000000000001, "txn_1"⟩) =
        .ok ⟨1700000000000000001, "txn_1"⟩ ∧
      encodeCursor .plain ⟨1700000000000000001, "txn_1"⟩ ≠ "" := by
  have h := (cursor_codec .plain).1 1700000000000000001 "txn_1" (by decide) (by decide)
  exact ⟨h.1, h.2.1⟩

/-! ## The store -/

/-- `transaction.Detail` -/
structure Detail where
  id : String
  kind : TransactionKind
  accountID : String
  merchantID : String
  fundingSource : String
  externalReference : String
  amountCents : Int
  currency : String
  status : TransactionStatus
  riskLevel : String
  riskReason : String
  correlationID : String
  createdAt : Time
  updatedAt : Time
  deriving DecidableEq

/-- `transactionDetailColumns`: NULL becomes the empty text. -/
def TransactionRow.detail (r : TransactionRow) : Detail :=
  { id := r.id
    kind := r.kind
    accountID := r.accountID
    merchantID := r.merchantID.getD ""
    fundingSource := r.fundingSource.getD ""
    externalReference := r.externalReference.getD ""
    amountCents := r.amountCents
    currency := r.currency
    status := r.status
    riskLevel := (r.riskLevel.map RiskLevel.text).getD ""
    riskReason := r.riskReason.getD ""
    correlationID := r.correlationID
    createdAt := r.createdAt
    updatedAt := r.updatedAt }

structure StoreListFilter where
  accountID : String
  status : String
  kind : String
  limit : Int
  beforeCreatedAt : Time := zeroTime
  beforeID : String := ""
  deriving DecidableEq

/-- `transaction.QueryStore` -/
structure QueryStore where
  getTransaction : String → Except Error (Option Detail)
  listTransactions : StoreListFilter → Except Error (List Detail)

/-- `where account_id = $1 and ($2 = '' or status = $2) and ($3 = '' or kind = $3)` -/
def TransactionRow.matching (accountID status kind : String) (r : TransactionRow) : Bool :=
  r.accountID == accountID && (status == "" || r.status.text == status) &&
    (kind == "" || r.kind.text == kind)

/-- `nullTime` -/
def nullTime (value : Time) : Option Time := if value = zeroTime then none else some value

/-- `$4::timestamptz is null or (created_at, id) < ($4, $5)` -/
def TransactionRow.before (t : Option Time) (id : String) (r : TransactionRow) : Bool :=
  match t with
  | none => true
  | some t => decide (r.createdAt < t) || (r.createdAt == t && decide (r.id < id))

/-- `order by created_at desc, id desc` -/
def TransactionRow.newestFirst (r s : TransactionRow) : Bool :=
  decide (s.createdAt < r.createdAt) || (s.createdAt == r.createdAt && decide (s.id ≤ r.id))

/-- `Store.ListTransactions` -/
def Db.listTransactions (d : Db) (filter : StoreListFilter) : List Detail :=
  ((((d.transactions.rows.filter fun r =>
      r.matching filter.accountID filter.status filter.kind &&
        r.before (nullTime filter.beforeCreatedAt) filter.beforeID).insertionSort
      fun r s => r.newestFirst s).take (filter.limit + 1).toNat).map TransactionRow.detail)

def Db.queryStore (d : Db) : QueryStore where
  getTransaction id := .ok ((d.transactions.find? id).map TransactionRow.detail)
  listTransactions filter := .ok (d.listTransactions filter)

/-! ## The service -/

namespace QueryService

/-- `ErrInvalidQuery`, `ErrNotFound`, or what the store reports. -/
inductive QueryError where
  | invalidQuery
  | notFound
  | store (e : Error)
  deriving DecidableEq

structure ListFilter where
  accountID : String
  status : String
  kind : String
  limit : Int
  cursor : String
  deriving DecidableEq

structure Page where
  items : List Detail
  nextCursor : String := ""
  deriving DecidableEq

/-- `QueryService.Get` -/
def get (store : QueryStore) (id : String) : Except QueryError Detail :=
  if !safeToken id then .error .invalidQuery
  else
    match store.getTransaction id with
    | .error e => .error (.store (.wrap "get transaction" e))
    | .ok none => .error .notFound
    | .ok (some detail) => .ok detail

def validStatus (status : String) : Bool :=
  status == "" || status == TransactionStatus.pending.text ||
    status == TransactionStatus.authorized.text || status == TransactionStatus.failed.text

def validKind (kind : String) : Bool :=
  kind == "" || kind == TransactionKind.payment.text || kind == TransactionKind.deposit.text

/-- What `List` accepts, but for the cursor. -/
def validFilter (filter : ListFilter) : Bool :=
  safeToken filter.accountID && decide (1 ≤ filter.limit) && decide (filter.limit ≤ 100) &&
    validStatus filter.status && validKind filter.kind

/-- The page with what the store returned, which is one item too many if more follows. -/
def paginate (J : CursorJSON) (limit : Int) (items : List Detail) : Page :=
  if limit < items.length then
    let items := items.take limit.toNat
    match items.getLast? with
    | none => { items }
    | some last => { items, nextCursor := encodeCursor J ⟨last.createdAt, last.id⟩ }
  else { items }

/-- `QueryService.List` -/
def list (J : CursorJSON) (store : QueryStore) (filter : ListFilter) : Except QueryError Page :=
  let filter := if filter.limit = 0 then { filter with limit := 25 } else filter
  if !validFilter filter then .error .invalidQuery
  else
    let storeFilter : StoreListFilter :=
      { accountID := filter.accountID, status := filter.status, kind := filter.kind
        limit := filter.limit }
    let storeFilter? : Except QueryError StoreListFilter :=
      if filter.cursor ≠ "" then
        match decodeCursor J filter.cursor with
        | .error _ => .error .invalidQuery
        | .ok cursor =>
            .ok { storeFilter with beforeCreatedAt := cursor.createdAt, beforeID := cursor.id }
      else .ok storeFilter
    match storeFilter? with
    | .error e => .error e
    | .ok storeFilter =>
        match store.listTransactions storeFilter with
        | .error e => .error (.store (.wrap "list transactions" e))
        | .ok items => .ok (paginate J filter.limit items)

/-- A client that follows `NextCursor` for `fuel` requests at most, the first of which is
request `k` to the store: its pages, and whether the last of them names no other. -/
def follow (J : CursorJSON) (store : Nat → QueryStore) (filter : ListFilter) :
    (fuel k : Nat) → (cursor : String) → Except QueryError (List Page × Bool)
  | 0, _, _ => .ok ([], false)
  | fuel + 1, k, cursor =>
      match list J (store k) { filter with cursor } with
      | .error e => .error e
      | .ok page =>
          if page.nextCursor = "" then .ok ([page], true)
          else
            match follow J store filter fuel (k + 1) page.nextCursor with
            | .error e => .error e
            | .ok (pages, ended) => .ok (page :: pages, ended)

end QueryService

end Clearance
