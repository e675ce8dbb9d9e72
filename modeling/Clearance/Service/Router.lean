/-
# `Clearance.Service.Router` — `internal/httpapi`

The HTTP server of the API: which handler a request gets to, and what the handlers ask of
the rate limiter and of the services.  A handler is a dialogue (`Dialogue.Prog`) with
them; a value it returns is the response.

Paths, header values, bearers and the keys of the limiter are Go strings, which need not
be UTF-8, and so they are bytes here.  What is handed to a service is a text: bytes that
are not UTF-8 make a text that no validation of a service lets pass (`goString`).

`Library` is what the handlers take from Go's own: addresses (`net`, `net/netip`) and
`json.Decoder` with `DisallowUnknownFields`, which reads the first JSON value of a body.
Nothing is assumed of it in this file.  `Metrics` are not modelled but for the labels of a
request (`Observation`).
-/
import Clearance.Dialogue
import Clearance.Service.Messages
import Clearance.Service.Query
import Clearance.Transact.Serial

namespace Clearance

namespace HttpApi

/-! ## Requests and responses -/

/-- What can be read of a body before the end, or before an error. -/
structure Body where
  data : Bytes
  broken : Bool := false
  deriving DecidableEq

/-- `http.MaxBytesReader` -/
def maxBytesReader (body : Body) (n : Nat) : Body where
  data := body.data.take n
  broken := body.broken || decide (n < body.data.length)

/-- `http.Request`.  The names of the headers are in canonical form, and `query` is
`URL.Query()`. -/
structure HttpRequest where
  method : String
  path : Bytes
  query : List (String × Bytes) := []
  headers : List (String × Bytes) := []
  body : Body := ⟨[], false⟩
  remoteAddr : Bytes := []
  deriving DecidableEq

/-- The first value of a name, or the empty text. -/
def lookup (name : String) (values : List (String × Bytes)) : Bytes :=
  ((values.find? fun v => v.1 == name).map Prod.snd).getD []

/-- `request.Header.Get` -/
def HttpRequest.header (request : HttpRequest) (name : String) : Bytes :=
  lookup name request.headers

/-- `request.URL.Query().Get` -/
def HttpRequest.parameter (request : HttpRequest) (name : String) : Bytes :=
  lookup name request.query

/-- What is written as JSON. -/
inductive Content where
  | empty
  | status (text : String)
  | error (message : String)
  | created (response : CreateResponse)
  | deposited (response : DepositResponse)
  | detail (detail : Detail)
  | page (page : QueryService.Page)
  /-- the page of `promhttp` -/
  | metrics
  deriving DecidableEq

/-- What a handler writes. -/
structure Reply where
  status : Nat
  content : Content
  deriving DecidableEq

def writeError (status : Nat) (message : String) : Reply := ⟨status, .error message⟩

structure Response where
  status : Nat
  headers : List (String × Bytes)
  content : Content
  deriving DecidableEq

/-! ## What the handlers use -/

/-- The body of `POST /transactions`. -/
structure PaymentPayload where
  accountID : String
  merchantID : String
  amountCents : Int64
  currency : String
  deriving DecidableEq

/-- The body of `POST /accounts/{id}/deposits`. -/
structure DepositPayload where
  amountCents : Int64
  currency : String
  fundingSource : String
  externalReference : String
  operatorReason : String
  deriving DecidableEq

/-- What is taken from Go's library. -/
structure Library where
  /-- `net.SplitHostPort`: the host -/
  splitHostPort : Bytes → Option Bytes
  /-- `netip.ParseAddr`, written out again -/
  parseAddr : String → Option String
  /-- `decoder.Decode(&payload)` -/
  decodePayment : Body → Option PaymentPayload
  decodeDeposit : Body → Option DepositPayload

structure Config where
  /-- whether there is a `QueryService` -/
  queryService : Bool
  /-- whether there is a `FundingService` -/
  fundingService : Bool
  authValue : Bytes
  fundingAuthValue : Bytes
  operatorAuthValue : Bytes
  allowedOrigins : List Bytes
  maxBodyBytes : Int
  trustForwardedFor : Bool
  metricsEnabled : Bool

def defaultMaxBodyBytes : Int := 2 ^ 20

/-- `NewRouter` -/
def newRouter (config : Config) : Config :=
  if config.maxBodyBytes ≤ 0 then { config with maxBodyBytes := defaultMaxBodyBytes } else config

/-- What the handlers ask of the limiter and of the services. -/
inductive Question where
  | allow (key : Bytes)
  | create (request : TransactionService.CreateRequest)
      (metadata : TransactionService.RequestMetadata)
  | deposit (request : FundingService.DepositRequest) (metadata : FundingService.RequestMetadata)
  | get (id : String)
  | list (filter : QueryService.ListFilter)
  deriving DecidableEq

@[reducible] def Question.Answer : Question → Type
  | .allow _ => Except Error Bool
  | .create .. => Except Error CreateResponse
  | .deposit .. => Except Error DepositResponse
  | .get _ => Except QueryService.QueryError Detail
  | .list _ => Except QueryService.QueryError QueryService.Page

@[reducible] def interface : Dialogue.Interface := ⟨Question, Question.Answer⟩

abbrev Handler := Dialogue.Prog interface

def ask (q : Question) : Handler q.Answer := Dialogue.Prog.question (I := interface) q

/-! ## `router.go` -/

/-- `strings.TrimPrefix` -/
def trimPrefix (front s : Bytes) : Bytes := if front.isPrefixOf s then s.drop front.length else s

/-- `strings.TrimSuffix` -/
def trimSuffix (back s : Bytes) : Bytes :=
  if back.isSuffixOf s then s.take (s.length - back.length) else s

/-- The byte of `/`. -/
def slash : UInt8 := 0x2f

def transactionIDFromPath (path : Bytes) : Bytes × Bool :=
  if !(utf8 "/transactions/").isPrefixOf path then ([], false)
  else
    let id := trimPrefix (utf8 "/transactions/") path
    (id, id != [] && !id.contains slash)

def depositAccountFromPath (path : Bytes) : Bytes × Bool :=
  if !(utf8 "/accounts/").isPrefixOf path || !(utf8 "/deposits").isSuffixOf path then ([], false)
  else
    let accountID := trimSuffix (utf8 "/deposits") (trimPrefix (utf8 "/accounts/") path)
    (accountID, accountID != [] && !accountID.contains slash)

def authorized (header expected : Bytes) : Bool :=
  if expected = [] || !(utf8 "Bearer ").isPrefixOf header then false
  else trimPrefix (utf8 "Bearer ") header == expected

def firstForwardedFor (L : Library) (header : Bytes) : Bytes :=
  match L.parseAddr (trimSpace (goString (header.takeWhile fun b => b != 0x2c))) with
  | none => []
  | some address => utf8 address

def rateLimitKey (L : Library) (request : HttpRequest) (trustForwardedFor : Bool) : Bytes :=
  let forwarded := firstForwardedFor L (request.header "X-Forwarded-For")
  if trustForwardedFor && forwarded != [] then forwarded
  else
    match L.splitHostPort request.remoteAddr with
    | none => request.remoteAddr
    | some host => if host != [] then host else request.remoteAddr

/-- `allowRequest`, and what the handler does if it may go on. -/
def allowRequest (L : Library) (config : Config) (request : HttpRequest) (next : Handler Reply) :
    Handler Reply := do
  match ← ask (.allow (rateLimitKey L request config.trustForwardedFor)) with
  | .error _ => pure (writeError 500 "internal error")
  | .ok false => pure (writeError 429 "rate limit exceeded")
  | .ok true => next

/-- `setBaseHeaders` -/
def baseHeaders (config : Config) (request : HttpRequest) : List (String × Bytes) :=
  [("Content-Type", utf8 "application/json"), ("Cache-Control", utf8 "no-store"),
    ("X-Content-Type-Options", utf8 "nosniff"), ("X-Frame-Options", utf8 "DENY")] ++
    if config.allowedOrigins.contains (request.header "Origin") then
      [("Access-Control-Allow-Origin", request.header "Origin"), ("Vary", utf8 "Origin"),
        ("Access-Control-Allow-Headers",
          utf8 "Authorization, Content-Type, Idempotency-Key, X-Correlation-ID"),
        ("Access-Control-Allow-Methods", utf8 "GET, POST, OPTIONS")]
    else []

/-! ## `transactions.go` -/

def writeServiceError (e : Error) : Reply :=
  if e.is .invalidTransactionRequest then writeError 400 "invalid request"
  else if e.is .transactionIdempotencyConflict then writeError 409 "idempotency key conflict"
  else writeError 500 "internal error"

/-- The correlation id of a payment: the client's, or a new one. -/
def correlationID (request : HttpRequest) (trace : Random) : String :=
  if request.header "X-Correlation-Id" = [] then newID "trace" trace
  else goString (request.header "X-Correlation-Id")

/-- `createTransaction`, once the body has been read. -/
def createDecoded (request : HttpRequest) (trace : Random) (payload : PaymentPayload) :
    Handler Reply :=
  if !safeToken (correlationID request trace) then pure (writeError 400 "invalid request")
  else do
    match ← ask (.create
        ⟨payload.accountID, payload.merchantID, payload.amountCents, payload.currency⟩
        ⟨goString (request.header "Idempotency-Key"), correlationID request trace⟩) with
    | .error e => pure (writeServiceError e)
    | .ok result => pure ⟨202, .created result⟩

def createTransaction (L : Library) (config : Config) (request : HttpRequest) (trace : Random) :
    Handler Reply :=
  if !authorized (request.header "Authorization") config.authValue then
    pure (writeError 401 "unauthorized")
  else allowRequest L config request <|
    match L.decodePayment (maxBytesReader request.body config.maxBodyBytes.toNat) with
    | none => pure (writeError 400 "invalid request")
    | some payload => createDecoded request trace payload

def getTransaction (L : Library) (config : Config) (request : HttpRequest)
    (transactionID : Bytes) : Handler Reply :=
  if !config.queryService then pure (writeError 404 "not found")
  else if !authorized (request.header "Authorization") config.authValue &&
      !authorized (request.header "Authorization") config.operatorAuthValue then
    pure (writeError 401 "unauthorized")
  else allowRequest L config request do
    match ← ask (.get (goString transactionID)) with
    | .error .invalidQuery => pure (writeError 400 "invalid request")
    | .error .notFound => pure (writeError 404 "transaction not found")
    | .error (.store _) => pure (writeError 500 "internal error")
    | .ok detail => pure ⟨200, .detail detail⟩

/-- The `limit` of a listing: 0 if there is none. -/
def listLimit (request : HttpRequest) : Option Int :=
  if request.parameter "limit" = [] then some 0 else atoi (goString (request.parameter "limit"))

def listTransactions (L : Library) (config : Config) (request : HttpRequest) : Handler Reply :=
  if !config.queryService then pure (writeError 404 "not found")
  else if !authorized (request.header "Authorization") config.operatorAuthValue then
    pure (writeError 401 "unauthorized")
  else allowRequest L config request <|
    match listLimit request with
    | none => pure (writeError 400 "invalid request")
    | some limit => do
        match ← ask (.list
            { accountID := goString (request.parameter "account_id")
              status := goString (request.parameter "status")
              kind := goString (request.parameter "kind")
              limit
              cursor := goString (request.parameter "cursor") }) with
        | .error .invalidQuery => pure (writeError 400 "invalid request")
        | .error _ => pure (writeError 500 "internal error")
        | .ok page => pure ⟨200, .page page⟩

/-! ## `funding.go` -/

def writeDepositError (e : Error) : Reply :=
  if e.is .invalidDepositRequest then writeError 400 "invalid request"
  else if e.is .depositIdempotencyConflict || e.is .externalReferenceConflict then
    writeError 409 "deposit conflict"
  else writeError 500 "internal error"

def createDeposit (L : Library) (config : Config) (request : HttpRequest) (accountID : Bytes) :
    Handler Reply :=
  if !config.fundingService then pure (writeError 404 "not found")
  else if !authorized (request.header "Authorization") config.fundingAuthValue then
    pure (writeError 401 "unauthorized")
  else allowRequest L config request <|
    match L.decodeDeposit (maxBytesReader request.body config.maxBodyBytes.toNat) with
    | none => pure (writeError 400 "invalid request")
    | some payload => do
        match ← ask (.deposit
            ⟨goString accountID, payload.amountCents, payload.currency, payload.fundingSource,
              payload.externalReference⟩
            ⟨goString (request.header "Idempotency-Key"),
              goString (request.header "X-Correlation-Id"), payload.operatorReason⟩) with
        | .error e => pure (writeDepositError e)
        | .ok result => pure ⟨201, .deposited result⟩

/-! ## The server -/

/-- The handler of `/transactions`. -/
def transactions (L : Library) (config : Config) (request : HttpRequest) (trace : Random) :
    Handler Reply :=
  if request.method = "POST" then createTransaction L config request trace
  else if request.method = "GET" then listTransactions L config request
  else pure (writeError 404 "not found")

/-- `serveHTTP`, but for the headers. -/
def route (L : Library) (config : Config) (request : HttpRequest) (trace : Random) :
    Handler Reply :=
  if request.method = "OPTIONS" then pure ⟨204, .empty⟩
  else if request.path = utf8 "/healthz" ∧ request.method = "GET" then pure ⟨200, .status "ok"⟩
  else if request.path = utf8 "/transactions" then transactions L config request trace
  else if (transactionIDFromPath request.path).2 ∧ request.method = "GET" then
    getTransaction L config request (transactionIDFromPath request.path).1
  else if (depositAccountFromPath request.path).2 ∧ request.method = "POST" then
    createDeposit L config request (depositAccountFromPath request.path).1
  else pure (writeError 404 "not found")

/-- `metricPath` -/
def metricPath (path : Bytes) : String :=
  if path = utf8 "/healthz" then "/healthz"
  else if path = utf8 "/transactions" then "/transactions"
  else if (transactionIDFromPath path).2 then "/transactions/\x7bid\x7d"
  else if (depositAccountFromPath path).2 then "/accounts/\x7bid\x7d/deposits"
  else "/unknown"

/-- The labels of `ObserveHTTPRequest`. -/
structure Observation where
  method : String
  path : String
  status : String
  deriving DecidableEq

/-- `ServeHTTP`: the response, and what is counted. -/
def serveHTTP (L : Library) (config : Config) (request : HttpRequest) (trace : Random) :
    Handler (Response × Option Observation) :=
  if config.metricsEnabled ∧ request.path = utf8 "/metrics" ∧ request.method = "GET" then
    pure (⟨200, [], .metrics⟩, none)
  else do
    let reply ← route L config request trace
    pure (⟨reply.status, baseHeaders config request, reply.content⟩,
      some ⟨request.method, metricPath request.path, toString reply.status⟩)

/-! ## The services behind the server -/

/-- What is left by the requests that have been answered. -/
structure Deployment (Limiter : Type) where
  db : Db
  limiter : Limiter
  /-- the requests the services have got -/
  served : Nat := 0

/-- The services answer one request at a time; what they draw is given. -/
def services (P : Platform) (J : CursorJSON) (maxAmountCents : Int64) {Limiter : Type}
    (allow : Bytes → Limiter → Except Error Bool × Limiter)
    (paymentDraws : Nat → TransactionService.Draws) (depositDraws : Nat → FundingService.Draws) :
    Dialogue.Responder interface (Deployment Limiter)
  | .allow key, s =>
      let (answer, limiter) := allow key s.limiter
      (answer, { s with limiter })
  | .create request metadata, s =>
      let (answer, db) := (TransactionService.create P request metadata
        (paymentDraws s.served)).solo (dialect P.hashtext).engine s.db
      (answer, { s with db, served := s.served + 1 })
  | .deposit request metadata, s =>
      let (answer, db) := (FundingService.deposit P maxAmountCents request metadata
        (depositDraws s.served)).solo (dialect P.hashtext).engine s.db
      (answer, { s with db, served := s.served + 1 })
  | .get id, s => (QueryService.get s.db.queryStore id, s)
  | .list filter, s => (QueryService.list J s.db.queryStore filter, s)

end HttpApi

end Clearance
