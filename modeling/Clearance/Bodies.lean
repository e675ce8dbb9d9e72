/-
# `Clearance.Bodies` — the bodies of requests

`decoder.Decode` of `encoding/json` for the two bodies the API takes.  It reads the first
JSON text of the body and stores its members in a `struct`; what follows that text is not
read.  A member `null` leaves the field as it is, and so does a body `null`: the fields have
their zero values then.

A body is a single object with known fields only (`OneObject`) whenever a service is called
with it, exactly if the text the decoder stops after is an object that nothing but white
space follows (`one_object_iff`).

Go gives up on texts that are nested deeper than 10000; those are not among the bodies the
handlers take, so that limit is not modelled.
-/
import Clearance.Console.Utf16
import Clearance.Json
import Clearance.Routing

namespace Clearance

namespace HttpApi

open Dialogue Dialogue.Prog Json

/-! ## Strings -/

/-- The first character of a text in UTF-8. -/
def rune? (b : Bytes) : Option (Char × Bytes) :=
  [1, 2, 3, 4].findSome? fun n =>
    match String.fromUTF8? ⟨(b.take n).toArray⟩ with
    | none => none
    | some s => s.toList.head?.map fun c => (c, b.drop n)

def hexDigit (b : UInt8) : Nat :=
  if Json.isDigit b then b.toNat - 0x30 else if b < 0x61 then b.toNat - 0x37 else b.toNat - 0x57

/-- `getu4`, after the backslash and the `u` -/
def unit (a b c d : UInt8) : UInt16 :=
  (((hexDigit a * 16 + hexDigit b) * 16 + hexDigit c) * 16 + hexDigit d).toUInt16

def escaped (b : UInt8) : Char :=
  if b = 0x62 then '\x08'
  else if b = 0x66 then '\x0c'
  else if b = 0x6e then '\n'
  else if b = 0x72 then '\r'
  else if b = 0x74 then '\t'
  else Char.ofNat b.toNat

/-- `unquoteBytes`, between the quotes.  Bytes that are not UTF-8 and surrogates that are alone
become U+FFFD. -/
def unquoted : Nat → Bytes → List Char
  | 0, _ | _, [] => []
  | n + 1, 0x5c :: 0x75 :: a :: b :: c :: d :: rest =>
      match rest with
      | 0x5c :: 0x75 :: e :: f :: g :: h :: rest' =>
          if Utf16.isHigh (unit a b c d) && Utf16.isLow (unit e f g h) then
            Utf16.pair (unit a b c d) (unit e f g h) :: unquoted n rest'
          else Utf16.alone (unit a b c d) :: unquoted n rest
      | _ => Utf16.alone (unit a b c d) :: unquoted n rest
  | n + 1, 0x5c :: b :: rest => escaped b :: unquoted n rest
  | n + 1, b :: rest =>
      match rune? (b :: rest) with
      | some (c, rest') => c :: unquoted n rest'
      | none => '\ufffd' :: unquoted n rest

/-- The text of a string literal. -/
def unquote (lit : Bytes) : String :=
  String.ofList (unquoted lit.length (lit.drop 1).dropLast)

/-! ## Structs -/

/-- A field of a `struct`. -/
inductive Target (α : Type) where
  | text (set : String → α → α)
  | int64 (set : Int64 → α → α)

structure Field (α : Type) where
  name : String
  target : Target α

/-- `foldName`: of the characters that are not ASCII, two are the same as a letter. -/
def foldName (s : String) : String :=
  s.map fun c =>
    if 'a' ≤ c ∧ c ≤ 'z' then Char.ofNat (c.toNat - 32)
    else if c = '\u017f' then 'S'
    else if c = '\u212a' then 'K'
    else c

section

variable {α : Type}

/-- The field a key stands for. -/
def fieldNamed (fields : List (Field α)) (key : String) : Option (Field α) :=
  (fields.find? fun f => f.name = key) <|>
    fields.find? fun f => foldName f.name = foldName key

/-- `literalStore`; `null` changes nothing. -/
def Target.store (target : Target α) (v : Json.Value) (a : α) : Option α :=
  match v with
  | .array _ | .object _ => none
  | .literal lit =>
      if lit.head? = some 0x6e then some a
      else
        match target with
        | .text set => if lit.head? = some 0x22 then some (set (unquote lit) a) else none
        | .int64 set => (atoi (goString lit)).map fun n => set (Int64.ofInt n) a

/-- A member of the object; an unknown field is an error. -/
def storeMember (fields : List (Field α)) (a : α) (m : Bytes × Json.Value) : Option α := do
  let field ← fieldNamed fields (unquote m.1)
  field.target.store m.2 a

/-- `unmarshal` -/
def unmarshal (fields : List (Field α)) (zero : α) : Json.Value → Option α
  | .object ms => ms.foldlM (storeMember fields) zero
  | .array _ => none
  | .literal lit => if lit.head? = some 0x6e then some zero else none

/-- `Decode`.  The end of a literal shows only when something follows it, or the body ends. -/
def decode (fields : List (Field α)) (zero : α) (body : Body) : Option α :=
  match first body.data with
  | none => none
  | some (.literal lit, rest) =>
      if rest = [] ∧ body.broken then none else unmarshal fields zero (.literal lit)
  | some (v, _) => unmarshal fields zero v

end

def paymentFields : List (Field PaymentPayload) :=
  [⟨"account_id", .text fun s p => { p with accountID := s }⟩,
   ⟨"merchant_id", .text fun s p => { p with merchantID := s }⟩,
   ⟨"amount_cents", .int64 fun n p => { p with amountCents := n }⟩,
   ⟨"currency", .text fun s p => { p with currency := s }⟩]

def depositFields : List (Field DepositPayload) :=
  [⟨"amount_cents", .int64 fun n p => { p with amountCents := n }⟩,
   ⟨"currency", .text fun s p => { p with currency := s }⟩,
   ⟨"funding_source", .text fun s p => { p with fundingSource := s }⟩,
   ⟨"external_reference", .text fun s p => { p with externalReference := s }⟩,
   ⟨"operator_reason", .text fun s p => { p with operatorReason := s }⟩]

/-- Go's library with its decoder. -/
def library (splitHostPort : Bytes → Option Bytes) (parseAddr : String → Option String) :
    Library where
  splitHostPort
  parseAddr
  decodePayment := decode paymentFields ⟨"", "", 0, ""⟩
  decodeDeposit := decode depositFields ⟨0, "", "", "", ""⟩

/-! ## Whole bodies -/

section

variable {α : Type}

/-- The field takes the value. -/
def Target.takes (target : Target α) : Json.Value → Bool
  | .array _ | .object _ => false
  | .literal lit =>
      lit.head? = some 0x6e ||
        match target with
        | .text _ => lit.head? = some 0x22
        | .int64 _ => (atoi (goString lit)).isSome

/-- Every member is a known field with a value of its type. -/
def Fits (fields : List (Field α)) (ms : List (Bytes × Json.Value)) : Prop :=
  ∀ m ∈ ms, ∃ field, fieldNamed fields (unquote m.1) = some field ∧ field.target.takes m.2 = true

/-- The whole body is one object of the expected shape. -/
def OneObject (fields : List (Field α)) (data : Bytes) : Prop :=
  ∃ w text w' ms, data = w ++ text ++ w' ∧ White w ∧ White w' ∧ IsValue (.object ms) text ∧
    Fits fields ms

/-- The text a decoder stops after is an object, and nothing but white space follows. -/
def Tight (fields : List (Field α)) (zero : α) (data : Bytes) : Prop :=
  ∀ v rest, first data = some (v, rest) → (unmarshal fields zero v).isSome →
    (∃ ms, v = .object ms) ∧ White rest

theorem isSome_store (target : Target α) (v : Json.Value) (a : α) :
    (target.store v a).isSome = target.takes v := by
  cases v with
  | array _ | object _ => rfl
  | literal lit =>
      by_cases hnull : lit.head? = some 0x6e
      · simp [Target.store, Target.takes, hnull]
      · cases target with
        | text set =>
            by_cases hquote : lit.head? = some 0x22
            · simp [Target.store, Target.takes, hquote]
            · simp [Target.store, Target.takes, hnull, hquote]
        | int64 set => simp [Target.store, Target.takes, hnull]

theorem isSome_storeMember {fields : List (Field α)} {m : Bytes × Json.Value} {a : α} :
    (storeMember fields a m).isSome = true ↔
      ∃ field, fieldNamed fields (unquote m.1) = some field ∧ field.target.takes m.2 = true := by
  unfold storeMember
  cases fieldNamed fields (unquote m.1) with
  | none => simp
  | some field => simp [isSome_store]

theorem isSome_unmarshal {fields : List (Field α)} {zero : α} {ms : List (Bytes × Json.Value)} :
    (unmarshal fields zero (.object ms)).isSome = true ↔ Fits fields ms := by
  simp only [unmarshal, Fits]
  induction ms generalizing zero with
  | nil => simp
  | cons m ms ih =>
      rw [List.foldlM_cons, List.forall_mem_cons, ← isSome_storeMember (a := zero)]
      cases hm : storeMember fields zero m with
      | none => simp
      | some a => simpa using ih

/-- A body is decoded up to the end of its first text. -/
theorem isSome_decode {fields : List (Field α)} {zero : α} {data : Bytes} :
    (decode fields zero ⟨data, false⟩).isSome = true ↔
      ∃ v rest, first data = some (v, rest) ∧ (unmarshal fields zero v).isSome = true := by
  unfold decode
  cases hfirst : first data with
  | none => simp
  | some r =>
      obtain ⟨v, rest⟩ := r
      cases v <;> simp

theorem oneObject_iff {fields : List (Field α)} (zero : α) {data : Bytes} :
    OneObject fields data ↔
      ∃ ms rest, first data = some (.object ms, rest) ∧ White rest ∧
        (unmarshal fields zero (.object ms)).isSome = true := by
  constructor
  · rintro ⟨w, text, w', ms, rfl, hw, hw', htext, hfits⟩
    exact ⟨ms, w', first_eq_object.mpr ⟨w, text, hw, htext, rfl⟩, hw', isSome_unmarshal.mpr hfits⟩
  · rintro ⟨ms, rest, hfirst, hrest, hfits⟩
    obtain ⟨w, text, hw, htext, rfl⟩ := first_eq_object.mp hfirst
    exact ⟨w, text, rest, ms, rfl, hw, hrest, htext, isSome_unmarshal.mp hfits⟩

/-- What is decoded is one object exactly if the text ends where the body does. -/
theorem decoded_oneObject_iff {fields : List (Field α)} {zero : α} {data : Bytes} :
    ((decode fields zero ⟨data, false⟩).isSome = true → OneObject fields data) ↔
      Tight fields zero data := by
  rw [isSome_decode, oneObject_iff zero]
  constructor
  · intro h v rest hfirst hfits
    obtain ⟨ms, rest', hfirst', hrest, -⟩ := h ⟨v, rest, hfirst, hfits⟩
    obtain ⟨rfl, rfl⟩ := Prod.mk.inj (Option.some.inj (hfirst.symm.trans hfirst'))
    exact ⟨⟨ms, rfl⟩, hrest⟩
  · rintro h ⟨v, rest, hfirst, hfits⟩
    obtain ⟨⟨ms, rfl⟩, hrest⟩ := h v rest hfirst hfits
    exact ⟨ms, rest, hfirst, hrest, hfits⟩

/-- An object that is taken on its own is taken with anything behind it. -/
theorem isSome_decode_append {fields : List (Field α)} {zero : α} {data : Bytes}
    (h : OneObject fields data) (extra : Bytes) :
    (decode fields zero ⟨data ++ extra, false⟩).isSome = true := by
  obtain ⟨w, text, w', ms, rfl, hw, hw', htext, hfits⟩ := h
  have hfirst : first (w ++ text ++ w' ++ extra) = some (.object ms, w' ++ extra) :=
    first_eq_object.mpr ⟨w, text, hw, htext, by rw [List.append_assoc]⟩
  exact isSome_decode.mpr ⟨_, _, hfirst, isSome_unmarshal.mpr hfits⟩

end

/-! ## Calls of a service -/

section

variable {L : Library} {config : Config} {request : HttpRequest} {trace : Random}
  {op : Operation} {g : List (Exchange interface)} {e : Exchange interface}

/-- A service is asked for the operation of the request only. -/
theorem Course.operation_eq (h : Course config request g) (he : e ∈ g)
    (hop : e.question.operation = some op) : request.operation = some op := by
  cases h with
  | nothing => cases he
  | limited _ =>
      obtain rfl := List.mem_singleton.mp he
      cases hop
  | served hadmitted hq =>
      simp only [List.mem_cons, List.not_mem_nil, or_false] at he
      rcases he with rfl | rfl
      · cases hop
      · rw [hadmitted.asked, ← hq]
        exact hop

theorem operation_create (h : request.operation = some .create) :
    request.path = utf8 "/transactions" ∧ request.method = "POST" := by
  unfold HttpRequest.operation at h
  split_ifs at h with hpath hpost
  · exact ⟨hpath, hpost⟩
  · cases h
  · cases h
  · cases h

theorem operation_deposit (h : request.operation = some .deposit) :
    request.path ≠ utf8 "/transactions" ∧
      ¬((transactionIDFromPath request.path).2 ∧ request.method = "GET") ∧
      (depositAccountFromPath request.path).2 ∧ request.method = "POST" := by
  unfold HttpRequest.operation at h
  split_ifs at h with hpath hpost hget htransaction hdeposit
  · cases h
  · cases h
  · cases h
  · exact ⟨hpath, htransaction, hdeposit⟩

theorem route_create (h : request.operation = some .create) :
    route L config request trace = createTransaction L config request trace := by
  obtain ⟨hpath, hpost⟩ := operation_create h
  simp [route, transactions, hpath, hpost]

theorem route_deposit (h : request.operation = some .deposit) :
    route L config request trace =
      createDeposit L config request (depositAccountFromPath request.path).1 := by
  obtain ⟨hpath, htransaction, hdeposit, hpost⟩ := operation_deposit h
  simp [route, hpath, hdeposit, hpost]

/-- What a request says that is posted is what its handler says. -/
theorem talks_serveHTTP_iff (hpost : request.method = "POST") :
    (∃ served, (serveHTTP L config request trace).Talks g served) ↔
      ∃ reply, (route L config request trace).Talks g reply := by
  have hmetrics : ¬(config.metricsEnabled ∧ request.path = utf8 "/metrics" ∧
      request.method = "GET") := by
    simp [hpost]
  rw [serveHTTP, if_neg hmetrics]
  constructor
  · rintro ⟨served, h⟩
    obtain ⟨reply, -, h⟩ := Talks.of_map h
    exact ⟨reply, h⟩
  · rintro ⟨reply, h⟩
    exact ⟨_, h.map _⟩

/-- Nothing but the limiter is asked. -/
theorem question_allow {reply reply' : Reply} (h : (allowRequest L config request (pure reply)).Talks g reply')
    (he : e ∈ g) : e.question.operation = none := by
  obtain ⟨x, g', rfl, hx⟩ := talks_question.mp h
  have hg : g' = [] := by
    rcases x with _ | _ | _
    · exact (talks_pure.mp hx).1
    · exact (talks_pure.mp hx).1
    · exact (talks_pure.mp hx).1
  rw [hg, List.mem_singleton] at he
  rw [he]
  rfl

theorem decoded_of_create {served : Response × Option Observation}
    (h : (serveHTTP L config request trace).Talks g served) (he : e ∈ g)
    (hop : e.question.operation = some .create) :
    (L.decodePayment (maxBytesReader request.body config.maxBodyBytes.toNat)).isSome = true := by
  have hasked := (serveHTTP_course h).operation_eq he hop
  obtain ⟨reply, hroute⟩ := (talks_serveHTTP_iff (operation_create hasked).2).mp ⟨_, h⟩
  rw [route_create hasked] at hroute
  unfold createTransaction at hroute
  split at hroute
  · rw [(talks_pure.mp hroute).1] at he
    cases he
  · cases hdecode : L.decodePayment (maxBytesReader request.body config.maxBodyBytes.toNat) with
    | some payload => rfl
    | none =>
        rw [hdecode] at hroute
        rw [question_allow hroute he] at hop
        cases hop

theorem decoded_of_deposit {served : Response × Option Observation}
    (h : (serveHTTP L config request trace).Talks g served) (he : e ∈ g)
    (hop : e.question.operation = some .deposit) :
    (L.decodeDeposit (maxBytesReader request.body config.maxBodyBytes.toNat)).isSome = true := by
  have hasked := (serveHTTP_course h).operation_eq he hop
  obtain ⟨reply, hroute⟩ := (talks_serveHTTP_iff (operation_deposit hasked).2.2.2).mp ⟨_, h⟩
  rw [route_deposit hasked] at hroute
  unfold createDeposit at hroute
  split at hroute
  · rw [(talks_pure.mp hroute).1] at he
    cases he
  split at hroute
  · rw [(talks_pure.mp hroute).1] at he
    cases he
  · cases hdecode : L.decodeDeposit (maxBytesReader request.body config.maxBodyBytes.toNat) with
    | some payload => rfl
    | none =>
        rw [hdecode] at hroute
        rw [question_allow hroute he] at hop
        cases hop

/-- A body within the limit is read as it is. -/
theorem maxBytesReader_eq {data : Bytes} {n : Nat} (h : data.length ≤ n) :
    maxBytesReader ⟨data, false⟩ n = ⟨data, false⟩ := by
  simp [maxBytesReader, List.take_of_length_le h, h]

end

/-- A service is called with the body, by some request that is within the limits. -/
def Called (op : Operation) (data : Bytes) : Prop :=
  ∃ splitHostPort parseAddr config request trace, ∃ g served,
    request.body = ⟨data, false⟩ ∧ (data.length : Int) ≤ (newRouter config).maxBodyBytes ∧
      (serveHTTP (library splitHostPort parseAddr) (newRouter config) request trace).Talks g served ∧
      ∃ e ∈ g, e.question.operation = some op

/-- A server with room for the body. -/
def roomFor (data : Bytes) : Config := { clientConfig with maxBodyBytes := data.length + 1 }

theorem newRouter_roomFor (data : Bytes) : newRouter (roomFor data) = roomFor data :=
  if_neg (by simp only [roomFor]; omega)

def post (path bearer : String) (data : Bytes) : HttpRequest where
  method := "POST"
  path := utf8 path
  headers := [("Authorization", utf8 bearer), ("X-Correlation-Id", utf8 "c")]
  body := ⟨data, false⟩

theorem authorization_post (path bearer : String) (data : Bytes) :
    (post path bearer data).header "Authorization" = utf8 bearer := by
  simp [HttpRequest.header, lookup, post]

theorem safeToken_correlationID (path bearer : String) (data : Bytes) (trace : Random) :
    safeToken (correlationID (post path bearer data) trace) = true := by
  have hheader : (post path bearer data).header "X-Correlation-Id" = utf8 "c" := by
    simp [HttpRequest.header, lookup, post]
  have hsafe : safeToken (goString (utf8 "c")) = true := by decide +kernel
  rw [correlationID, hheader, if_neg (by decide)]
  exact hsafe

/-- Go's library where no address is used. -/
def plainLibrary : Library := library (fun _ => none) fun _ => none

theorem called_of_route {op : Operation} {path bearer : String} {data : Bytes} {q : Question}
    {next : Handler Reply} {x : q.Answer} {reply : Reply}
    (hroute : route plainLibrary (roomFor data) (post path bearer data) (.fill 32 0) =
      allowRequest plainLibrary (roomFor data) (post path bearer data) next)
    (hnext : next.Talks [⟨q, x⟩] reply) (hq : q.operation = some op) : Called op data := by
  have htalk : (route plainLibrary (roomFor data) (post path bearer data) (.fill 32 0)).Talks
      [⟨.allow (rateLimitKey plainLibrary (post path bearer data) false), .ok true⟩, ⟨q, x⟩] reply := by
    rw [hroute]
    exact talks_question.mpr ⟨.ok true, _, rfl, hnext⟩
  have hlimit : (data.length : Int) ≤ (newRouter (roomFor data)).maxBodyBytes := by
    rw [newRouter_roomFor]
    simp only [roomFor]
    omega
  obtain ⟨served, hserved⟩ := (talks_serveHTTP_iff rfl).mpr ⟨reply, htalk⟩
  rw [← newRouter_roomFor] at hserved
  exact ⟨_, _, roomFor data, post path bearer data, .fill 32 0, _, served,
    rfl, hlimit, hserved, ⟨q, x⟩, List.mem_cons_of_mem _ List.mem_cons_self, hq⟩

theorem maxBytesReader_roomFor (data : Bytes) :
    maxBytesReader ⟨data, false⟩ (roomFor data).maxBodyBytes.toNat = ⟨data, false⟩ :=
  maxBytesReader_eq (by simp only [roomFor]; omega)

theorem called_create_iff {data : Bytes} :
    Called .create data ↔ (decode paymentFields ⟨"", "", 0, ""⟩ ⟨data, false⟩).isSome = true := by
  constructor
  · rintro ⟨splitHostPort, parseAddr, config, request, trace, g, served, hbody, hlimit, htalks, e, he,
      hop⟩
    have hdecoded := decoded_of_create htalks he hop
    rw [hbody, maxBytesReader_eq (by omega)] at hdecoded
    exact hdecoded
  · intro h
    obtain ⟨payload, hpayload⟩ := Option.isSome_iff_exists.mp h
    have hdecoded : plainLibrary.decodePayment
        (maxBytesReader (post "/transactions" "Bearer client" data).body
          (roomFor data).maxBodyBytes.toNat) = some payload := by
      rw [← hpayload]
      exact congrArg plainLibrary.decodePayment (maxBytesReader_roomFor data)
    have hauthorized : authorized ((post "/transactions" "Bearer client" data).header "Authorization")
        (roomFor data).authValue = true := by
      have hclient : authorized (utf8 "Bearer client") (utf8 "client") = true := by decide +kernel
      rw [authorization_post]
      exact hclient
    have hroute : route plainLibrary (roomFor data) (post "/transactions" "Bearer client" data)
        (.fill 32 0) = allowRequest plainLibrary (roomFor data)
          (post "/transactions" "Bearer client" data)
          (createDecoded (post "/transactions" "Bearer client" data) (.fill 32 0) payload) := by
      rw [route_create rfl, createTransaction, if_neg (by simp [hauthorized]), hdecoded]
    rw [createDecoded, if_neg (by simp [safeToken_correlationID])] at hroute
    exact called_of_route hroute
      (talks_question.mpr ⟨.error (.text "unavailable"), [], rfl, talks_pure.mpr ⟨rfl, rfl⟩⟩) rfl

theorem called_deposit_iff {data : Bytes} :
    Called .deposit data ↔ (decode depositFields ⟨0, "", "", "", ""⟩ ⟨data, false⟩).isSome = true := by
  constructor
  · rintro ⟨splitHostPort, parseAddr, config, request, trace, g, served, hbody, hlimit, htalks, e, he,
      hop⟩
    have hdecoded := decoded_of_deposit htalks he hop
    rw [hbody, maxBytesReader_eq (by omega)] at hdecoded
    exact hdecoded
  · intro h
    obtain ⟨payload, hpayload⟩ := Option.isSome_iff_exists.mp h
    have hdecoded : plainLibrary.decodeDeposit
        (maxBytesReader (post "/accounts/a/deposits" "Bearer funding" data).body
          (roomFor data).maxBodyBytes.toNat) = some payload := by
      rw [← hpayload]
      exact congrArg plainLibrary.decodeDeposit (maxBytesReader_roomFor data)
    have hauthorized : authorized
        ((post "/accounts/a/deposits" "Bearer funding" data).header "Authorization")
        (roomFor data).fundingAuthValue = true := by
      have hfunding : authorized (utf8 "Bearer funding") (utf8 "funding") = true := by
        decide +kernel
      rw [authorization_post]
      exact hfunding
    have hoperation : (post "/accounts/a/deposits" "Bearer funding" data).operation =
        some .deposit := rfl
    have hroute := @route_deposit plainLibrary (roomFor data) _ (.fill 32 0) hoperation
    rw [createDeposit, if_neg (by simp [roomFor, clientConfig]), if_neg (by simp [hauthorized]),
      hdecoded] at hroute
    exact called_of_route hroute
      (talks_question.mpr ⟨.error (.text "unavailable"), [], rfl, talks_pure.mpr ⟨rfl, rfl⟩⟩) rfl

/-- A body that a service is called with is one object of the expected shape, exactly if the
text its decoder stops after is an object, with nothing but white space behind it. -/
theorem one_object_iff (data : Bytes) :
    ((Called .create data → OneObject paymentFields data) ↔
      Tight paymentFields ⟨"", "", 0, ""⟩ data) ∧
    ((Called .deposit data → OneObject depositFields data) ↔
      Tight depositFields ⟨0, "", "", "", ""⟩ data) := by
  rw [called_create_iff, called_deposit_iff]
  exact ⟨decoded_oneObject_iff, decoded_oneObject_iff⟩

/-- A payment, and something else behind it. -/
def paymentAndMore : Bytes :=
  utf8 "\x7b\"account_id\":\"a\",\"merchant_id\":\"m\",\"amount_cents\":1,\"currency\":\"EUR\"\x7d]"

/-- The payment is created, whatever stands behind it, and so is one from `null`. -/
theorem one_object_trailing :
    (Called .create paymentAndMore ∧ ¬OneObject paymentFields paymentAndMore) ∧
      Called .create (utf8 "null") ∧ ¬OneObject paymentFields (utf8 "null") := by
  refine ⟨⟨called_create_iff.mpr (by decide +kernel), ?_⟩,
    called_create_iff.mpr (by decide +kernel), ?_⟩
  · rw [oneObject_iff ⟨"", "", 0, ""⟩]
    rintro ⟨ms, rest, hfirst, hrest, -⟩
    have hleft : (first paymentAndMore).map Prod.snd = some [0x5d] := by decide +kernel
    rw [hfirst] at hleft
    obtain rfl := Option.some.inj hleft
    exact absurd (hrest 0x5d List.mem_cons_self) (by decide)
  · rw [oneObject_iff ⟨"", "", 0, ""⟩]
    rintro ⟨ms, rest, hfirst, -⟩
    have hnull : first (utf8 "null") = some (.literal (utf8 "null"), []) := rfl
    rw [hfirst] at hnull
    cases hnull

end HttpApi

end Clearance
