/-
# `Clearance.Console.Validators` — what the console checks before it asks

`lib/transaction.ts` and `lib/funding.ts` check what is typed into the console, as the
services will check it again.  Texts of JavaScript are code units; `text` is what arrives at
a service, which is also what `TextEncoder` writes.

`trim` takes off another set of characters than `strings.TrimSpace`: not U+0085, which is a
control character no field may have, but U+FEFF, which the services leave alone.  Nothing is
assumed of `toUpperCase`: what it returns is matched against ASCII letters.

A request the console makes is accepted as it is, unless the account is one of the ledger's
own or the amount is above the limit of the deployment, which the console does not know
(`validators_agree`).
-/
import Clearance.Binary64
import Clearance.Console.Utf16
import Clearance.Fingerprints

namespace Clearance

namespace Console

open Utf16

/-! ## JavaScript -/

/-- A text of ASCII characters. -/
def ascii (s : String) : Units := s.toList.map fun c => UInt16.ofNat c.toNat

/-- What `trim` takes off: white space and line terminators. -/
def isWhite (u : UInt16) : Bool :=
  (0x09 ≤ u.toNat && u.toNat ≤ 0x0d) || u.toNat == 0x20 || u.toNat == 0xa0 ||
    u.toNat == 0x1680 || (0x2000 ≤ u.toNat && u.toNat ≤ 0x200a) || u.toNat == 0x2028 ||
    u.toNat == 0x2029 || u.toNat == 0x202f || u.toNat == 0x205f || u.toNat == 0x3000 ||
    u.toNat == 0xfeff

/-- `s.trim()` -/
def trim (s : Units) : Units := (s.dropWhile isWhite).rdropWhile isWhite

/-- `[lo-hi]` -/
def within (lo hi : Char) (u : UInt16) : Bool := lo.toNat ≤ u.toNat && u.toNat ≤ hi.toNat

/-- `[A-Za-z0-9._:-]` -/
def isSafeUnit (u : UInt16) : Bool :=
  within 'A' 'Z' u || within 'a' 'z' u || within '0' '9' u || within '.' '.' u ||
    within '_' '_' u || within ':' ':' u || within '-' '-' u

/-- `SAFE_TOKEN_PATTERN.test(s)`: `/^[A-Za-z0-9._:-]{1,128}$/` -/
def safeTokenPattern (s : Units) : Bool := 1 ≤ s.length && s.length ≤ 128 && s.all isSafeUnit

/-- `/^\d+$/.test(s)` -/
def wholeNumberPattern (s : Units) : Bool := !s.isEmpty && s.all (within '0' '9')

/-- `/^[A-Z]{3}$/.test(s)` -/
def currencyPattern (s : Units) : Bool := s.length == 3 && s.all (within 'A' 'Z')

/-- `/[\u0000-\u001f\u007f-\u009f]/.test(s)` -/
def hasControl (s : Units) : Bool :=
  s.any fun u => u.toNat ≤ 0x1f || (0x7f ≤ u.toNat && u.toNat ≤ 0x9f)

/-- What a service reads of a text that was sent as JSON; also what `TextEncoder` encodes. -/
def text (s : Units) : String := String.ofList (scalars s)

/-- `Number(s)`, for digits. -/
def number (s : Units) : ℚ := Binary64.round (decimal (scalars s))

/-- `Number.isSafeInteger` -/
def isSafeInteger (x : ℚ) : Bool := x.den == 1 && x.num.natAbs ≤ 2 ^ 53 - 1

/-! ## `lib/transaction.ts` -/

structure TransactionInput where
  accountId : Units
  merchantId : Units
  amountCents : Units
  currency : Units

structure TransactionPayload where
  accountId : Units
  merchantId : Units
  amountCents : Int
  currency : Units
  deriving DecidableEq

/-- The check of an amount, which deposits share. -/
def checkAmount (amountText : Units) : Except String Int :=
  if !wholeNumberPattern amountText then .error "amount cents must be a whole number"
  else if !isSafeInteger (number amountText) || (number amountText).num ≤ 0 then
    .error "amount cents must be greater than zero"
  else .ok (number amountText).num

variable (toUpperCase : Units → Units)

def buildTransactionPayload (input : TransactionInput) : Except String TransactionPayload :=
  let accountId := trim input.accountId
  let merchantId := trim input.merchantId
  let amountText := trim input.amountCents
  let currency := toUpperCase (trim input.currency)
  if accountId.isEmpty then .error "account id is required"
  else if merchantId.isEmpty then .error "merchant id is required"
  else if !safeTokenPattern accountId || !safeTokenPattern merchantId then
    .error "ids must use safe characters only"
  else
    match checkAmount amountText with
    | .error e => .error e
    | .ok amountCents =>
        if !currencyPattern currency then .error "currency must be a three-letter code"
        else .ok { accountId, merchantId, amountCents, currency }

def assertSafeToken (value : Units) (label : String) : Except String Units :=
  if !safeTokenPattern (trim value) then .error (label ++ " must use safe characters only")
  else .ok (trim value)

/-! ## `lib/funding.ts` -/

structure DepositInput where
  accountId : Units
  fundingSource : Units
  externalReference : Units
  amountCents : Units
  currency : Units
  operatorReason : Units

structure DepositPayload where
  amountCents : Int
  currency : Units
  fundingSource : Units
  externalReference : Units
  operatorReason : Units
  deriving DecidableEq

def badReason (reason : Units) : Bool :=
  reason.isEmpty || decide (byteLength (text reason) > 256) || hasControl reason

def buildDepositRequest (input : DepositInput) : Except String (Units × DepositPayload) := do
  let accountId ← assertSafeToken input.accountId "account id"
  let fundingSource ← assertSafeToken input.fundingSource "funding source"
  let externalReference ← assertSafeToken input.externalReference "external reference"
  let amountCents ← checkAmount (trim input.amountCents)
  let currency := toUpperCase (trim input.currency)
  if !currencyPattern currency then .error "currency must be a three-letter code"
  else
    let operatorReason := trim input.operatorReason
    if badReason operatorReason then
      .error "operator reason must be 1–256 bytes without control characters"
    else
      .ok (accountId, { amountCents, currency, fundingSource, externalReference, operatorReason })

/-! ## What arrives at a service -/

section

variable {s : Units} {u : UInt16}

theorem toList_text (s : Units) : (text s).toList = scalars s := String.toList_ofList

theorem within_iff {lo hi : Char} :
    within lo hi u = true ↔ lo.toNat ≤ u.toNat ∧ u.toNat ≤ hi.toNat := by
  simp [within]

/-- An ASCII text arrives unit by unit. -/
theorem scalars_of_ascii (h : ∀ u ∈ s, u.toNat < 0x80) : scalars s = s.map alone :=
  scalars_of_plain fun u hu => (h u hu).trans (by decide)

theorem ascii_of_isSafeUnit (h : isSafeUnit u = true) : u.toNat < 0x80 := by
  simp only [isSafeUnit, Bool.or_eq_true, within_iff] at h
  rcases h with (((((h | h) | h) | h) | h) | h) | h
  all_goals exact h.2.trans_lt (by decide)

theorem isSafeChar_alone (h : isSafeUnit u = true) : isSafeChar (alone u) = true := by
  have hn : (alone u).toNat = u.toNat :=
    toNat_alone ((ascii_of_isSafeUnit h).trans (by decide))
  simp only [isSafeUnit, Bool.or_eq_true, within_iff, ← hn] at h
  simp only [isSafeChar, Bool.or_eq_true, Bool.and_eq_true, decide_eq_true_eq, beq_iff_eq]
  have heq : ∀ c : Char, c.toNat ≤ (alone u).toNat ∧ (alone u).toNat ≤ c.toNat → alone u = c :=
    fun c hc => Char.toNat_inj.mp (le_antisymm hc.2 hc.1)
  rcases h with (((((h | h) | h) | h) | h) | h) | h
  · exact Or.inl (Or.inl (Or.inl (Or.inl (Or.inl (Or.inl h)))))
  · exact Or.inl (Or.inl (Or.inl (Or.inl (Or.inl (Or.inr h)))))
  · exact Or.inl (Or.inl (Or.inl (Or.inl (Or.inr h))))
  · exact Or.inl (Or.inl (Or.inl (Or.inr (heq _ h))))
  · exact Or.inl (Or.inl (Or.inr (heq _ h)))
  · exact Or.inl (Or.inr (heq _ h))
  · exact Or.inr (heq _ h)

theorem safeToken_text (h : safeTokenPattern s = true) : safeToken (text s) = true := by
  simp only [safeTokenPattern, Bool.and_eq_true, decide_eq_true_eq, List.all_eq_true] at h
  obtain ⟨hlength, hsafe⟩ := h
  rw [safeToken_iff, toList_text, scalars_of_ascii fun u hu => ascii_of_isSafeUnit (hsafe u hu),
    List.length_map]
  refine ⟨hlength, fun c hc => ?_⟩
  obtain ⟨u, hu, rfl⟩ := List.mem_map.mp hc
  exact isSafeChar_alone (hsafe u hu)

theorem currencyCode_text (h : currencyPattern s = true) : currencyCode (text s) = true := by
  simp only [currencyPattern, Bool.and_eq_true, beq_iff_eq, List.all_eq_true, within_iff] at h
  obtain ⟨hlength, hletters⟩ := h
  have hascii : ∀ u ∈ s, u.toNat < 0x80 := fun u hu => (hletters u hu).2.trans_lt (by decide)
  rw [currencyCode_iff, toList_text, scalars_of_ascii hascii, List.length_map]
  refine ⟨hlength, fun c hc => ?_⟩
  obtain ⟨u, hu, rfl⟩ := List.mem_map.mp hc
  rw [toNat_alone ((hascii u hu).trans (by decide))]
  exact hletters u hu

/-! ## Reasons -/

/-- What the services take for white space is taken off, but for U+0085. -/
theorem isSpace_of_stems {c : Char} (hstems : Stems u c) (hwhite : isWhite u = false)
    (hcontrol : u.toNat ≠ 0x85) : isSpace c = false := by
  simp only [isWhite, Bool.or_eq_false_iff, Bool.and_eq_false_iff, decide_eq_false_iff_not,
    beq_eq_false_iff_ne] at hwhite
  simp only [isSpace, Bool.or_eq_false_iff, Bool.and_eq_false_iff, decide_eq_false_iff_not,
    beq_eq_false_iff_ne]
  unfold Stems at hstems
  omega

theorem isControl_of_stems {c : Char} (hstems : Stems u c)
    (h : ¬ (u.toNat ≤ 0x1f ∨ 0x7f ≤ u.toNat ∧ u.toNat ≤ 0x9f)) : isControl c = false := by
  simp only [isControl, Bool.or_eq_false_iff, Bool.and_eq_false_iff, decide_eq_false_iff_not]
  unfold Stems at hstems
  omega

theorem front_of_trim {l : Units} (h : trim s = u :: l) : isWhite u = false := by
  have hfront : (trim s).dropWhile isWhite = trim s := dropWhile_rdropWhile isWhite s
  rw [h] at hfront
  by_contra hwhite
  rw [List.dropWhile_cons_of_pos (by simpa using hwhite)] at hfront
  have hlength := congrArg List.length hfront
  have hle := (List.dropWhile_sublist isWhite (l := l)).length_le
  rw [List.length_cons] at hlength
  omega

theorem back_of_trim {l : Units} (h : trim s = l ++ [u]) : isWhite u = false := by
  have hback : (trim s).rdropWhile isWhite = trim s := List.rdropWhile_idempotent ..
  rw [h, List.rdropWhile_eq_self_iff] at hback
  simpa using hback (by simp)

theorem hasControl_eq_false (h : hasControl s = false) (hu : u ∈ s) :
    ¬ (u.toNat ≤ 0x1f ∨ 0x7f ≤ u.toNat ∧ u.toNat ≤ 0x9f) := by
  have hunit := List.any_eq_false.mp h u hu
  simpa using hunit

/-- The services trim nothing more. -/
theorem trimSpace_text (hcontrol : hasControl (trim s) = false) :
    trimSpace (text (trim s)) = text (trim s) := by
  refine trimSpace_of_ends ?_ ?_
  · intro c cs hc
    rw [toList_text] at hc
    cases hs : trim s with
    | nil =>
        rw [hs] at hc
        cases hc
    | cons u l =>
        obtain ⟨c', cs', hscalars, hstems⟩ := scalars_cons u l
        rw [hs, hscalars] at hc
        cases hc
        have hplain := hasControl_eq_false hcontrol (hs ▸ List.mem_cons_self)
        exact isSpace_of_stems hstems (front_of_trim hs) (by omega)
  · intro cs c hc
    rw [toList_text] at hc
    rcases List.eq_nil_or_concat' (trim s) with hs | ⟨l, u, hs⟩
    · rw [hs] at hc
      exact absurd hc (by simp [scalars])
    · obtain ⟨cs', c', hscalars, hstems⟩ := scalars_concat l u
      rw [hs, hscalars] at hc
      obtain ⟨-, hlast⟩ := List.append_inj' hc rfl
      cases hlast
      have hplain := hasControl_eq_false hcontrol (hs ▸ List.mem_append_right l (List.mem_singleton_self u))
      exact isSpace_of_stems hstems (back_of_trim hs) (by omega)

theorem validReason_text (h : badReason s = false) : validReason (text s) = true := by
  simp only [badReason, Bool.or_eq_false_iff, decide_eq_false_iff_not] at h
  obtain ⟨⟨hempty, hbytes⟩, hcontrol⟩ := h
  simp only [validReason, Bool.and_eq_true, bne_iff_ne, decide_eq_true_eq, List.all_eq_true,
    Bool.not_eq_true']
  refine ⟨⟨?_, by omega⟩, fun c hc => ?_⟩
  · cases s with
    | nil => cases hempty
    | cons u l =>
        obtain ⟨c, cs, hscalars, -⟩ := scalars_cons u l
        have hpos := Char.utf8Size_pos c
        rw [byteLength, toList_text, hscalars, List.map_cons, List.sum_cons]
        omega
  · rw [toList_text] at hc
    obtain ⟨u, hu, hstems⟩ := mem_scalars hc
    exact isControl_of_stems hstems (hasControl_eq_false hcontrol hu)

end

/-! ## The two sides -/

theorem reserved_iff {accountID : String} :
    reserved accountID = true ↔ accountID = "clearing" ∨ accountID = "external-settlement" := by
  simp [reserved]

/-- The payment as the service gets it. -/
def TransactionPayload.wire (p : TransactionPayload) : TransactionService.CreateRequest where
  accountID := text p.accountId
  merchantID := text p.merchantId
  amountCents := Int64.ofInt p.amountCents
  currency := text p.currency

/-- The deposit as the service gets it; the account is in the path. -/
def DepositPayload.wire (p : DepositPayload) (accountId : Units) :
    FundingService.DepositRequest where
  accountID := text accountId
  amountCents := Int64.ofInt p.amountCents
  currency := text p.currency
  fundingSource := text p.fundingSource
  externalReference := text p.externalReference

/-- An amount the console lets through. -/
def SafeAmount (n : Int) : Prop := 0 < n ∧ n < 2 ^ 53

section

variable {toUpperCase}

theorem checkAmount_ok {s : Units} {n : Int} (h : checkAmount s = .ok n) : SafeAmount n := by
  unfold checkAmount at h
  split at h
  · cases h
  · split at h
    · cases h
    · rename_i hsafe
      cases h
      simp only [isSafeInteger, Bool.or_eq_true, Bool.not_eq_true', Bool.and_eq_false_iff,
        decide_eq_true_eq, decide_eq_false_iff_not, not_or, not_le] at hsafe
      unfold SafeAmount
      omega

theorem toInt_of_safeAmount {n : Int} (h : SafeAmount n) : (Int64.ofInt n).toInt = n := by
  obtain ⟨hpos, hlt⟩ := h
  exact Int64.toInt_ofInt_of_le (by omega) (by omega)

theorem assertSafeToken_ok {s t : Units} {label : String} (h : assertSafeToken s label = .ok t) :
    safeTokenPattern t = true := by
  unfold assertSafeToken at h
  split at h
  · cases h
  · rename_i hsafe
    cases h
    simpa using hsafe

/-- What is known of a payment the console sends. -/
structure Checked (p : TransactionPayload) : Prop where
  account : safeTokenPattern p.accountId = true
  merchant : safeTokenPattern p.merchantId = true
  amount : SafeAmount p.amountCents
  currency : currencyPattern p.currency = true

theorem buildTransactionPayload_ok {input : TransactionInput} {p : TransactionPayload}
    (h : buildTransactionPayload toUpperCase input = .ok p) : Checked p := by
  unfold buildTransactionPayload at h
  dsimp only at h
  split at h
  · cases h
  split at h
  · cases h
  split at h
  · cases h
  rename_i hids
  split at h
  · cases h
  rename_i n hn
  split at h
  · cases h
  rename_i hcurrency
  cases h
  simp only [Bool.or_eq_true, Bool.not_eq_true', not_or, Bool.not_eq_false] at hids
  exact ⟨hids.1, hids.2, checkAmount_ok hn, by simpa using hcurrency⟩

theorem exists_of_bind_eq_ok {ε α β : Type} {x : Except ε α} {f : α → Except ε β} {b : β}
    (h : (x >>= f) = .ok b) : ∃ a, x = .ok a ∧ f a = .ok b := by
  cases x with
  | error e => cases h
  | ok a => exact ⟨a, rfl, h⟩

/-- What is known of a deposit the console sends. -/
structure CheckedDeposit (accountId : Units) (p : DepositPayload) : Prop where
  account : safeTokenPattern accountId = true
  source : safeTokenPattern p.fundingSource = true
  reference : safeTokenPattern p.externalReference = true
  amount : SafeAmount p.amountCents
  currency : currencyPattern p.currency = true
  reason : badReason p.operatorReason = false
  trimmed : ∃ s, p.operatorReason = trim s

theorem buildDepositRequest_ok {input : DepositInput} {accountId : Units} {p : DepositPayload}
    (h : buildDepositRequest toUpperCase input = .ok (accountId, p)) :
    CheckedDeposit accountId p := by
  unfold buildDepositRequest at h
  obtain ⟨account, haccount, h⟩ := exists_of_bind_eq_ok h
  obtain ⟨source, hsource, h⟩ := exists_of_bind_eq_ok h
  obtain ⟨reference, hreference, h⟩ := exists_of_bind_eq_ok h
  obtain ⟨amount, hamount, h⟩ := exists_of_bind_eq_ok h
  dsimp only at h
  split at h
  · cases h
  rename_i hcurrency
  split at h
  · cases h
  rename_i hreason
  cases h
  exact ⟨assertSafeToken_ok haccount, assertSafeToken_ok hsource, assertSafeToken_ok hreference,
    checkAmount_ok hamount, by simpa using hcurrency, by simpa using hreason, _, rfl⟩

theorem CheckedDeposit.trimSpace_reason {accountId : Units} {p : DepositPayload}
    (h : CheckedDeposit accountId p) :
    trimSpace (text p.operatorReason) = text p.operatorReason := by
  obtain ⟨s, hs⟩ := h.trimmed
  have hreason := h.reason
  rw [hs, badReason, Bool.or_eq_false_iff] at hreason
  rw [hs]
  exact trimSpace_text hreason.2

/-- A payment is taken as it is, unless it is the ledger's own account. -/
theorem Checked.validate_eq {p : TransactionPayload} (h : Checked p)
    {metadata : TransactionService.RequestMetadata}
    (hkey : safeToken metadata.idempotencyKey = true) :
    TransactionService.validate p.wire metadata =
      if reserved p.wire.accountID then .error (.sentinel .invalidTransactionRequest)
      else .ok p.wire := by
  have haccount : safeToken p.wire.accountID = true := safeToken_text h.account
  have hmerchant : safeToken p.wire.merchantID = true := safeToken_text h.merchant
  have hcurrency : currencyCode p.wire.currency = true := currencyCode_text h.currency
  have hamount : 0 < p.wire.amountCents.toInt := by
    rw [TransactionPayload.wire, toInt_of_safeAmount h.amount]
    exact h.amount.1
  cases hreserved : reserved p.wire.accountID with
  | true =>
      refine if_neg fun hacceptable => ?_
      have hopen := (TransactionService.acceptable_iff.mp hacceptable).open_
      rw [TransactionService.normalize, trimSpace_of_safeToken haccount, hreserved] at hopen
      cases hopen
  | false =>
      have haccepted : TransactionService.Accepted p.wire metadata :=
        ⟨hkey, haccount, hreserved, hmerchant, hcurrency, hamount⟩
      exact TransactionService.validate_eq_ok.mpr ⟨haccepted.normalize_eq.symm, haccepted⟩

/-- A deposit is taken as it is, unless it is the ledger's own account or too much. -/
theorem CheckedDeposit.validate_eq {accountId : Units} {p : DepositPayload}
    (h : CheckedDeposit accountId p) {maxAmountCents : Int64} {key correlation : String}
    (hkey : safeToken key = true) (hcorrelation : safeToken correlation = true) (trace : Random) :
    FundingService.validate maxAmountCents (p.wire accountId)
        ⟨key, correlation, text p.operatorReason⟩ trace =
      if reserved (p.wire accountId).accountID ∨ maxAmountCents.toInt < p.amountCents then
        .error (.sentinel .invalidDepositRequest)
      else .ok (p.wire accountId, ⟨key, correlation, text p.operatorReason⟩) := by
  have haccount : safeToken (p.wire accountId).accountID = true := safeToken_text h.account
  have hsource : safeToken (p.wire accountId).fundingSource = true := safeToken_text h.source
  have hreference : safeToken (p.wire accountId).externalReference = true :=
    safeToken_text h.reference
  have hcurrency : currencyCode (p.wire accountId).currency = true := currencyCode_text h.currency
  have hamount : (p.wire accountId).amountCents.toInt = p.amountCents := by
    rw [DepositPayload.wire, toInt_of_safeAmount h.amount]
  have hreason := validReason_text h.reason
  have hmetadata : FundingService.normalizeMetadata ⟨key, correlation, text p.operatorReason⟩
      trace = ⟨key, correlation, text p.operatorReason⟩ := by
    have hne : correlation ≠ "" := by
      rintro rfl
      exact absurd hcorrelation (by decide)
    rw [FundingService.normalizeMetadata, trimSpace_of_safeToken hkey,
      trimSpace_of_safeToken hcorrelation, if_neg hne, h.trimSpace_reason]
  by_cases hrefused : reserved (p.wire accountId).accountID ∨ maxAmountCents.toInt < p.amountCents
  · rw [if_pos hrefused]
    refine if_neg fun hacceptable => ?_
    have haccepted := FundingService.acceptable_iff.mp hacceptable
    rcases hrefused with hreserved | hlarge
    · have hopen := haccepted.open_
      rw [FundingService.normalize, trimSpace_of_safeToken haccount, hreserved] at hopen
      cases hopen
    · have hle : (p.wire accountId).amountCents.toInt ≤ maxAmountCents.toInt :=
        haccepted.amount_le
      omega
  · rw [if_neg hrefused]
    simp only [not_or, Bool.not_eq_true, not_lt] at hrefused
    have haccepted : FundingService.Accepted maxAmountCents (p.wire accountId)
        ⟨key, correlation, text p.operatorReason⟩ :=
      ⟨haccount, hrefused.1, hsource, hreference, hkey, hcorrelation, hcurrency,
        hamount ▸ h.amount.1, hamount ▸ hrefused.2, hreason⟩
    exact FundingService.validate_eq_ok.mpr
      ⟨by rw [haccepted.normalize_eq, hmetadata], haccepted⟩

end

/-- What the console sends, the services take as it is, unless the account is one of the
ledger's own or a deposit is above the limit. -/
theorem validators_agree (toUpperCase : Units → Units) :
    (∀ input p metadata, buildTransactionPayload toUpperCase input = .ok p →
      safeToken metadata.idempotencyKey = true →
      TransactionService.validate p.wire metadata =
        if p.wire.accountID = "clearing" ∨ p.wire.accountID = "external-settlement" then
          .error (.sentinel .invalidTransactionRequest)
        else .ok p.wire) ∧
    ∀ input accountId p (maxAmountCents : Int64) key correlation trace,
      buildDepositRequest toUpperCase input = .ok (accountId, p) →
      safeToken key = true → safeToken correlation = true →
      FundingService.validate maxAmountCents (p.wire accountId)
          ⟨key, correlation, text p.operatorReason⟩ trace =
        if ((p.wire accountId).accountID = "clearing" ∨
            (p.wire accountId).accountID = "external-settlement") ∨
            maxAmountCents.toInt < p.amountCents then
          .error (.sentinel .invalidDepositRequest)
        else .ok (p.wire accountId, ⟨key, correlation, text p.operatorReason⟩) := by
  constructor
  · intro input p metadata h hkey
    rw [(buildTransactionPayload_ok h).validate_eq hkey]
    simp only [reserved_iff]
  · intro input accountId p maxAmountCents key correlation trace h hkey hcorrelation
    rw [(buildDepositRequest_ok h).validate_eq hkey hcorrelation]
    simp only [reserved_iff]

/-- A deposit that was typed with blanks of several kinds. -/
def typedDeposit : DepositInput where
  accountId := 0xfeff :: ascii " alice "
  fundingSource := ascii "bank"
  externalReference := ascii "ref-1"
  amountCents := ascii "0500"
  currency := ascii "USD"
  operatorReason := ascii "  monthly refill" ++ [0x3000]

theorem validators_agree_typed :
    TransactionService.validate
        (TransactionPayload.wire ⟨ascii "clearing", ascii "shop", 5, ascii "EUR"⟩)
        ⟨"key-1", ""⟩ = .error (.sentinel .invalidTransactionRequest) ∧
      FundingService.validate 1000 ⟨"alice", 500, "USD", "bank", "ref-1"⟩
          ⟨"key-1", "trace-1", "monthly refill"⟩ (.fill 32 0) =
        .ok (⟨"alice", 500, "USD", "bank", "ref-1"⟩,
          ⟨"key-1", "trace-1", "monthly refill"⟩) := by
  have hpayment : buildTransactionPayload id
      ⟨ascii "clearing", ascii "shop ", ascii "5", ascii "EUR"⟩ =
        .ok ⟨ascii "clearing", ascii "shop", 5, ascii "EUR"⟩ := by decide +kernel
  have hdeposit : buildDepositRequest id typedDeposit = .ok (ascii "alice",
      ⟨500, ascii "USD", ascii "bank", ascii "ref-1", ascii "monthly refill"⟩) := by
    decide +kernel
  have hpayments := (validators_agree id).1 _ _ ⟨"key-1", ""⟩ hpayment (by decide)
  have hdeposits := (validators_agree id).2 _ _ _ 1000 "key-1" "trace-1" (.fill 32 0)
    hdeposit (by decide) (by decide)
  exact ⟨hpayments, hdeposits⟩

end Console

end Clearance
