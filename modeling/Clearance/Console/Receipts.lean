/-
# `Clearance.Console.Receipts` — the receipts of the console

`state/useConsole.ts` keeps the last twelve receipts.  A submission that was answered puts its
receipt in front, or the one that is there already; an effect of React polls the payments that
are still pending, all of them at once, and starts over when all have been answered.

The machine below has an event for each thing that happens in between: the server answers
(`serve`) and its answer arrives (`deliver`) at different times, and React runs the effects of
an update later than the update (`commit`), so that polls of the old effect may still write.
When the payments that are pending have changed, `commit` stops the polls that are under way;
what they return is thrown away, so they are forgotten here.

Two things are taken from React and the browser.  A submission begins with an update of its
own, which React commits before the answer is there, so a submission is recorded only after
a `commit`.  And polls that have not been stopped are those of the last effect.

The invariant is `Tidy` for the list, whatever is answered.  That no payment goes back to
pending needs the order in which polls may write (`Polled`), and a server that does not take
a decision back (`receipts_invariant`).
-/
import Clearance.Console.Validators

namespace Clearance

namespace Console

open Utf16

/-! ## Answers -/

/-- A value of a JSON object. -/
inductive Value where
  | undefined
  | text (s : Units)
  | number (x : ℚ)
  | other
  deriving DecidableEq

/-- A value that may be missing, but is a text otherwise. -/
def Value.optionalText : Value → Option (Option Units)
  | .undefined => some none
  | .text s => some (some s)
  | .number _ | .other => none

/-- `isTransactionStatus` -/
def isTransactionStatus : Value → Option TransactionStatus
  | .text s =>
      if s = ascii "PENDING" then some .pending
      else if s = ascii "AUTHORIZED" then some .authorized
      else if s = ascii "FAILED" then some .failed
      else none
  | _ => none

structure TransactionResponse where
  transactionId : Value
  status : Value
  correlationId : Value

structure DepositResponse where
  transactionId : Value
  status : Value
  accountId : Value
  amountCents : Value
  currency : Value
  balanceAfterCents : Value
  correlationId : Value

structure TransactionDetail where
  transactionId : Value
  kind : Value
  status : Value
  riskLevel : Value
  riskReason : Value
  deriving DecidableEq

/-! ## Receipts -/

inductive Details where
  | payment (merchantId : Units) (previewRisk previewOutcome previewReason : String)
      (riskLevel riskReason : Option Units)
  | deposit (fundingSource : Units) (balanceAfterCents : Int)
  deriving DecidableEq

structure Receipt where
  transactionId : Units
  status : TransactionStatus
  correlationId : Units
  idempotencyKey : Units
  accountId : Units
  amountCents : Int
  currency : Units
  createdAt : Units
  statusError : Option String := none
  details : Details
  deriving DecidableEq

def Receipt.isPayment (r : Receipt) : Bool :=
  match r.details with
  | .payment .. => true
  | .deposit .. => false

/-- `riskPreview`: the level, the outcome and the reason. -/
def riskPreview (amountCents : Int) : String × String × String :=
  if amountCents > 50000 then ("HIGH", "likely failed", "Amount is greater than 500.00.")
  else ("LOW", "likely authorized", "Amount is at or below 500.00.")

structure SubmitFields extends TransactionInput where
  idempotencyKey : Units
  correlationId : Units

structure DepositFields extends DepositInput where
  idempotencyKey : Units
  correlationId : Units

section

variable (toUpperCase : Units → Units)

/-- The receipt of `submit`, from what was typed and what was answered. -/
def submitReceipt (fields : SubmitFields) (response : TransactionResponse) (createdAt : Units) :
    Except String Receipt := do
  let payload ← buildTransactionPayload toUpperCase fields.toTransactionInput
  let idempotencyKey ← assertSafeToken fields.idempotencyKey "idempotency key"
  let correlationId ← assertSafeToken fields.correlationId "correlation id"
  match response.transactionId, isTransactionStatus response.status,
      response.correlationId.optionalText with
  | .text id, some status, some correlation =>
      let preview := riskPreview payload.amountCents
      let transactionId ← assertSafeToken id "transaction id"
      -- an empty text counts as none
      let answered := correlation.getD []
      let resolvedCorrelation ← assertSafeToken
        (if answered.isEmpty then correlationId else answered) "correlation id"
      .ok
        { transactionId
          status
          correlationId := resolvedCorrelation
          idempotencyKey
          accountId := payload.accountId
          amountCents := payload.amountCents
          currency := payload.currency
          createdAt
          details :=
            .payment payload.merchantId preview.1 preview.2.1 preview.2.2 none none }
  | _, _, _ => .error "The API returned an invalid transaction response."

/-- The receipt of `deposit`. -/
def depositReceipt (fundingAuthValue : Units) (fields : DepositFields)
    (response : DepositResponse) (createdAt : Units) : Except String Receipt :=
  if fundingAuthValue.isEmpty then .error "Set the funding bearer in Connection first."
  else do
    let (accountId, payload) ← buildDepositRequest toUpperCase fields.toDepositInput
    let idempotencyKey ← assertSafeToken fields.idempotencyKey "idempotency key"
    let _ ← assertSafeToken fields.correlationId "correlation id"
    match response.transactionId, response.balanceAfterCents, response.correlationId with
    | .text id, .number balance, .text correlation =>
        if response.status = .text (ascii "AUTHORIZED") ∧ response.accountId = .text accountId ∧
            response.amountCents = .number payload.amountCents ∧
            response.currency = .text payload.currency ∧ isSafeInteger balance ∧ 0 ≤ balance then
          let transactionId ← assertSafeToken id "transaction id"
          let correlationId ← assertSafeToken correlation "correlation id"
          .ok
            { transactionId
              status := .authorized
              correlationId
              idempotencyKey
              accountId
              amountCents := payload.amountCents
              currency := payload.currency
              createdAt
              details := .deposit payload.fundingSource balance.num }
        else .error "The API returned an invalid deposit response."
    | _, _, _ => .error "The API returned an invalid deposit response."

end

def maxReceipts : Nat := 12

/-- `recordReceipt`: the receipts after it. -/
def recordReceipt (receipt : Receipt) (receipts : List Receipt) : List Receipt :=
  let previous := receipts.find? fun item => item.transactionId == receipt.transactionId
  (previous.getD receipt ::
    receipts.filter fun item => item.transactionId != receipt.transactionId).take maxReceipts

/-! ## Polls -/

/-- What is taken from an answer. -/
structure Update where
  status : TransactionStatus
  riskLevel : Option Units
  riskReason : Option Units

/-- The check of an answer to a poll. -/
def checkDetail (transactionId : Units) (detail : TransactionDetail) : Except String Update :=
  match isTransactionStatus detail.status, detail.riskLevel.optionalText,
      detail.riskReason.optionalText with
  | some status, some riskLevel, some riskReason =>
      if detail.transactionId = .text transactionId ∧ detail.kind = .text (ascii "PAYMENT") ∧
          (riskLevel = none ∨ riskLevel = some (ascii "LOW") ∨ riskLevel = some (ascii "HIGH")) then
        .ok { status, riskLevel, riskReason }
      else .error "The API returned an invalid transaction status response."
  | _, _, _ => .error "The API returned an invalid transaction status response."

/-- How a poll ends: with an answer, or an error. -/
abbrev Answer := Except String TransactionDetail

/-- What is made of it. -/
def Answer.check (transactionId : Units) : Answer → Except String Update
  | .error e => .error e
  | .ok detail => checkDetail transactionId detail

/-- A poll that has ended changes a receipt. -/
def Receipt.polled (transactionId : Units) (result : Except String Update) (receipt : Receipt) :
    Receipt :=
  match result, receipt.details with
  | .ok update, .payment merchantId risk outcome reason _ _ =>
      if receipt.transactionId = transactionId then
        { receipt with
          status := update.status
          statusError := none
          details :=
            .payment merchantId risk outcome reason update.riskLevel update.riskReason }
      else receipt
  | .ok _, .deposit .. => receipt
  | .error e, _ =>
      if receipt.transactionId = transactionId then { receipt with statusError := some e }
      else receipt

/-- A poll that is under way, and the answer of the server, once there is one. -/
structure Poll where
  transactionId : Units
  answer : Option Answer

/-- What the effect depends on. -/
structure Deps where
  apiBaseUrl : Units
  authValue : Units
  pendingTransactionKey : Units
  deriving DecidableEq

/-- The unit of `|`. -/
def bar : UInt16 := 0x7c

/-- `pendingTransactionIds` -/
def Deps.ids (d : Deps) : List Units :=
  if d.pendingTransactionKey.isEmpty then [] else d.pendingTransactionKey.splitOn bar

/-! ## The console -/

structure State where
  receipts : List Receipt := []
  apiBaseUrl : Units
  authValue : Units
  fundingAuthValue : Units
  /-- the dependencies of the effect that was run last -/
  effect : Deps
  /-- the polls of the effect that are under way; there are none when it can poll again -/
  polls : List Poll := []
  /-- the effects of the last receipt have run -/
  committed : Bool := true
  /-- the receipt that was recorded last -/
  latest : Option Units := none
  /-- what the server has answered to polls -/
  served : List (Units × TransactionStatus) := []

/-- The payments that are pending. -/
def pendingIds (receipts : List Receipt) : List Units :=
  (receipts.filter fun r => r.isPayment && decide (r.status = .pending)).map Receipt.transactionId

def State.deps (s : State) : Deps where
  apiBaseUrl := s.apiBaseUrl
  authValue := s.authValue
  pendingTransactionKey := [bar].intercalate (pendingIds s.receipts)

def State.init (apiBaseUrl authValue : Units) : State where
  apiBaseUrl
  authValue
  fundingAuthValue := []
  effect := ⟨apiBaseUrl, authValue, []⟩

inductive Event where
  /-- a payment was answered -/
  | submit (fields : SubmitFields) (response : TransactionResponse) (createdAt : Units)
  /-- a deposit was answered -/
  | deposit (fields : DepositFields) (response : DepositResponse) (createdAt : Units)
  | configureConnection (apiBaseUrl authValue fundingAuthValue : Units)
  /-- React runs the effects -/
  | commit
  /-- `refresh` is called -/
  | refresh
  /-- the server answers a poll -/
  | serve (transactionId : Units) (answer : Answer)
  /-- the answer arrives -/
  | deliver (transactionId : Units)
  /-- a poll fails before there is an answer, or after -/
  | fail (transactionId : Units) (message : String)

def State.record (s : State) (receipt : Receipt) : State :=
  { s with
    receipts := recordReceipt receipt s.receipts
    committed := false
    latest := some receipt.transactionId }

/-- A submission that was answered; if it failed, nothing is recorded. -/
def State.submitted (s : State) : Except String Receipt → State
  | .error _ => s
  | .ok receipt => s.record receipt

/-- A poll has ended. -/
def State.polled (s : State) (transactionId : Units) (result : Except String Update) : State :=
  { s with
    receipts := s.receipts.map (Receipt.polled transactionId result)
    polls := s.polls.filter fun p => p.transactionId != transactionId }

/-- The server answers the polls of a payment. -/
def State.serve (s : State) (transactionId : Units) (answer : Answer) : State :=
  { s with
    polls := s.polls.map fun p =>
      if p.transactionId = transactionId then { p with answer := some answer } else p
    served := s.served ++
      match answer.check transactionId with
      | .error _ => []
      | .ok update => [(transactionId, update.status)] }

def State.poll? (s : State) (transactionId : Units) : Option Poll :=
  s.polls.find? fun p => p.transactionId == transactionId

def State.step (toUpperCase : Units → Units) (s : State) : Event → Option State
  | .submit fields response createdAt =>
      if s.committed then some (s.submitted (submitReceipt toUpperCase fields response createdAt))
      else none
  | .deposit fields response createdAt =>
      if s.committed then
        some (s.submitted
          (depositReceipt toUpperCase s.fundingAuthValue fields response createdAt))
      else none
  | .configureConnection apiBaseUrl authValue fundingAuthValue =>
      some { s with apiBaseUrl, authValue, fundingAuthValue }
  | .commit =>
      if s.deps = s.effect then some { s with committed := true }
      else some { s with effect := s.deps, polls := [], committed := true }
  | .refresh =>
      if s.effect.ids.isEmpty || s.effect.authValue.isEmpty then none
      else if s.polls.isEmpty then some { s with polls := s.effect.ids.map fun id => ⟨id, none⟩ }
      else some s
  | .serve transactionId answer =>
      match s.poll? transactionId with
      | some ⟨_, none⟩ => some (s.serve transactionId answer)
      | _ => none
  | .deliver transactionId =>
      match s.poll? transactionId with
      | some ⟨_, some answer⟩ => some (s.polled transactionId (answer.check transactionId))
      | _ => none
  | .fail transactionId message =>
      match s.poll? transactionId with
      | some _ => some (s.polled transactionId (.error message))
      | none => none

def State.steps (toUpperCase : Units → Units) : State → List Event → Option State
  | s, [] => some s
  | s, e :: es => (s.step toUpperCase e).bind fun s' => s'.steps toUpperCase es

/-- The receipt of a submission that was successful. -/
def Event.receipt (toUpperCase : Units → Units) (s : State) : Event → Option Receipt
  | .submit fields response createdAt =>
      (submitReceipt toUpperCase fields response createdAt).toOption
  | .deposit fields response createdAt =>
      (depositReceipt toUpperCase s.fundingAuthValue fields response createdAt).toOption
  | _ => none

/-- The payment whose poll ends. -/
def Event.ends : Event → Option Units
  | .deliver transactionId | .fail transactionId _ => some transactionId
  | _ => none

/-! ## What a step can do -/

section

variable {toUpperCase : Units → Units} {s s' : State} {e : Event}

theorem submitReceipt_safe {fields : SubmitFields} {response : TransactionResponse}
    {createdAt : Units} {r : Receipt}
    (h : submitReceipt toUpperCase fields response createdAt = .ok r) :
    safeTokenPattern r.transactionId = true := by
  unfold submitReceipt at h
  obtain ⟨payload, -, h⟩ := exists_of_bind_eq_ok h
  obtain ⟨idempotencyKey, -, h⟩ := exists_of_bind_eq_ok h
  obtain ⟨correlationId, -, h⟩ := exists_of_bind_eq_ok h
  split at h
  · obtain ⟨transactionId, hid, h⟩ := exists_of_bind_eq_ok h
    obtain ⟨resolved, -, h⟩ := exists_of_bind_eq_ok h
    cases h
    exact assertSafeToken_ok hid
  · cases h

theorem depositReceipt_safe {fundingAuthValue : Units} {fields : DepositFields}
    {response : DepositResponse} {createdAt : Units} {r : Receipt}
    (h : depositReceipt toUpperCase fundingAuthValue fields response createdAt = .ok r) :
    safeTokenPattern r.transactionId = true := by
  unfold depositReceipt at h
  split at h
  · cases h
  obtain ⟨⟨accountId, payload⟩, -, h⟩ := exists_of_bind_eq_ok h
  obtain ⟨idempotencyKey, -, h⟩ := exists_of_bind_eq_ok h
  obtain ⟨_, -, h⟩ := exists_of_bind_eq_ok h
  split at h
  · split at h
    · obtain ⟨transactionId, hid, h⟩ := exists_of_bind_eq_ok h
      obtain ⟨correlationId, -, h⟩ := exists_of_bind_eq_ok h
      cases h
      exact assertSafeToken_ok hid
    · cases h
  · cases h

/-- What an event does to the console. -/
inductive Step (s : State) : State → Prop
  | idle : Step s s
  | record {r : Receipt} : s.committed = true → safeTokenPattern r.transactionId = true →
      Step s (s.record r)
  | connect {apiBaseUrl authValue fundingAuthValue : Units} :
      Step s { s with apiBaseUrl, authValue, fundingAuthValue }
  | settle : s.deps = s.effect → Step s { s with committed := true }
  | restart : Step s { s with effect := s.deps, polls := [], committed := true }
  | refresh : s.polls = [] → Step s { s with polls := s.effect.ids.map fun id => ⟨id, none⟩ }
  | serve {id : Units} {p : Poll} {answer : Answer} : s.poll? id = some p →
      Step s (s.serve id answer)
  | polled {id : Units} {p : Poll} {result : Except String Update} : s.poll? id = some p →
      (∀ update, result = .ok update → ∃ answer, p.answer = some answer ∧
        answer.check id = .ok update) → Step s (s.polled id result)

theorem State.submitted_cases (hcommitted : s.committed = true) {result : Except String Receipt}
    (hsafe : ∀ r, result = .ok r → safeTokenPattern r.transactionId = true) :
    Step s (s.submitted result) := by
  cases result with
  | error message => exact .idle
  | ok r => exact .record hcommitted (hsafe r rfl)

theorem State.step_cases (h : s.step toUpperCase e = some s') : Step s s' := by
  cases e with
  | submit fields response createdAt =>
      simp only [State.step, Option.ite_none_right_eq_some, Option.some.injEq] at h
      obtain ⟨hcommitted, rfl⟩ := h
      exact s.submitted_cases hcommitted fun _ => submitReceipt_safe
  | deposit fields response createdAt =>
      simp only [State.step, Option.ite_none_right_eq_some, Option.some.injEq] at h
      obtain ⟨hcommitted, rfl⟩ := h
      exact s.submitted_cases hcommitted fun _ => depositReceipt_safe
  | configureConnection apiBaseUrl authValue fundingAuthValue =>
      cases h
      exact .connect
  | commit =>
      simp only [State.step] at h
      split at h
      · next hdeps =>
          cases h
          exact .settle hdeps
      · cases h
        exact .restart
  | refresh =>
      simp only [State.step] at h
      split at h
      · cases h
      · split at h
        · next hpolls =>
            cases h
            exact .refresh (List.isEmpty_iff.mp hpolls)
        · cases h
          exact .idle
  | serve id answer =>
      simp only [State.step] at h
      split at h
      · next hpoll =>
          cases h
          exact .serve hpoll
      · cases h
  | deliver id =>
      simp only [State.step] at h
      split at h
      · next answer hpoll =>
          cases h
          exact .polled hpoll fun update hupdate => ⟨answer, rfl, hupdate⟩
      · cases h
  | fail id message =>
      simp only [State.step] at h
      split at h
      · next p hpoll =>
          cases h
          exact .polled hpoll nofun
      · cases h

theorem State.step_record (h : s.step toUpperCase e = some s') {r : Receipt}
    (hr : e.receipt toUpperCase s = some r) : s' = s.record r := by
  have hsubmitted : ∀ result : Except String Receipt, result.toOption = some r →
      s.submitted result = s.record r := by
    intro result hresult
    cases result with
    | error message => cases hresult
    | ok r' =>
        cases hresult
        rfl
  cases e with
  | submit fields response createdAt =>
      simp only [State.step, Option.ite_none_right_eq_some, Option.some.injEq] at h
      rw [← h.2]
      exact hsubmitted _ hr
  | deposit fields response createdAt =>
      simp only [State.step, Option.ite_none_right_eq_some, Option.some.injEq] at h
      rw [← h.2]
      exact hsubmitted _ hr
  | _ => cases hr

theorem State.step_ends (h : s.step toUpperCase e = some s') {id : Units}
    (hid : e.ends = some id) : ∃ result, s' = s.polled id result := by
  cases e with
  | deliver id' =>
      cases hid
      simp only [State.step] at h
      split at h
      · cases h
        exact ⟨_, rfl⟩
      · cases h
  | fail id' message =>
      cases hid
      simp only [State.step] at h
      split at h
      · cases h
        exact ⟨_, rfl⟩
      · cases h
  | _ => cases hid

end

/-! ## The list -/

section

variable {r r' : Receipt} {l : List Receipt} {id : Units} {result : Except String Update}

theorem transactionId_previous (r : Receipt) (l : List Receipt) :
    ((l.find? fun item => item.transactionId == r.transactionId).getD r).transactionId =
      r.transactionId := by
  cases h : l.find? fun item => item.transactionId == r.transactionId with
  | none => rfl
  | some previous => simpa using List.find?_some h

theorem mem_recordReceipt (h : r' ∈ recordReceipt r l) :
    r' ∈ l ∨ r' = r ∧ ∀ item ∈ l, item.transactionId ≠ r.transactionId := by
  rcases List.mem_cons.mp (List.mem_of_mem_take h) with h | h
  · cases hprevious : l.find? fun item => item.transactionId == r.transactionId with
    | none =>
        rw [hprevious] at h
        refine Or.inr ⟨h, fun item hitem => ?_⟩
        simpa using List.find?_eq_none.mp hprevious item hitem
    | some previous =>
        rw [hprevious] at h
        exact Or.inl (h ▸ List.mem_of_find?_eq_some hprevious)
  · exact Or.inl (List.mem_of_mem_filter h)

theorem head_recordReceipt (r : Receipt) (l : List Receipt) :
    (recordReceipt r l).head? =
      some ((l.find? fun item => item.transactionId == r.transactionId).getD r) := rfl

/-- A receipt that is there already stays as it is. -/
theorem head_recordReceipt_of_mem (hnodup : (l.map Receipt.transactionId).Nodup) (h : r' ∈ l)
    (hid : r'.transactionId = r.transactionId) : (recordReceipt r l).head? = some r' := by
  rw [head_recordReceipt]
  cases hprevious : l.find? fun item => item.transactionId == r.transactionId with
  | none => exact absurd hid (by simpa using List.find?_eq_none.mp hprevious r' h)
  | some previous =>
      have hsame : previous.transactionId = r'.transactionId := by
        rw [hid]
        simpa using List.find?_some hprevious
      rw [Option.getD_some,
        List.inj_on_of_nodup_map hnodup (List.mem_of_find?_eq_some hprevious) h hsame]

theorem nodup_recordReceipt (h : (l.map Receipt.transactionId).Nodup) :
    ((recordReceipt r l).map Receipt.transactionId).Nodup := by
  refine List.Nodup.sublist ((List.take_sublist _ _).map _) ?_
  rw [List.map_cons, List.nodup_cons, transactionId_previous]
  refine ⟨fun hmem => ?_, h.sublist (List.filter_sublist.map _)⟩
  obtain ⟨item, hitem, hid⟩ := List.mem_map.mp hmem
  simpa [hid] using (List.mem_filter.mp hitem).2

@[simp] theorem transactionId_polled :
    (r.polled id result).transactionId = r.transactionId := by
  unfold Receipt.polled
  split
  · split <;> rfl
  · rfl
  · split <;> rfl

theorem polled_other (h : r.transactionId ≠ id) : r.polled id result = r := by
  unfold Receipt.polled
  split
  · exact if_neg h
  · rfl
  · exact if_neg h

/-- The status after a poll: the one before, or the one that was answered. -/
theorem status_polled : (r.polled id result).status = r.status ∨
    ∃ update, result = .ok update ∧ r.transactionId = id ∧
      (r.polled id result).status = update.status := by
  unfold Receipt.polled
  split
  · next update _ _ _ _ _ _ hdetails =>
      split
      · next hid => exact Or.inr ⟨update, rfl, hid, rfl⟩
      · exact Or.inl rfl
  · exact Or.inl rfl
  · split
    · exact Or.inl rfl
    · exact Or.inl rfl

end

/-- The receipts: twelve at most, one for each transaction, the latest one first. -/
structure Tidy (s : State) : Prop where
  nodup : (s.receipts.map Receipt.transactionId).Nodup
  length_le : s.receipts.length ≤ maxReceipts
  safe : ∀ r ∈ s.receipts, safeTokenPattern r.transactionId = true
  latest : s.receipts.head?.map Receipt.transactionId = s.latest

theorem Tidy.step {s s' : State} (h : Tidy s) (hstep : Step s s') : Tidy s' := by
  cases hstep with
  | idle | connect | settle | restart | refresh | serve => exact ⟨h.1, h.2, h.3, h.4⟩
  | @record r _ hsafe =>
      refine ⟨nodup_recordReceipt h.nodup, List.length_take_le _ _, fun r' hr' => ?_, ?_⟩
      · rcases mem_recordReceipt hr' with hr' | ⟨rfl, -⟩
        · exact h.safe r' hr'
        · exact hsafe
      · rw [State.record, head_recordReceipt, Option.map_some, transactionId_previous]
  | @polled id p result =>
      have hids : (s.receipts.map (Receipt.polled id result)).map Receipt.transactionId =
          s.receipts.map Receipt.transactionId := by
        simp [Function.comp_def]
      refine ⟨hids ▸ h.nodup, ?_, fun r hr => ?_, ?_⟩
      · rw [State.polled, List.length_map]
        exact h.length_le
      · obtain ⟨r', hr', rfl⟩ := List.mem_map.mp hr
        rw [transactionId_polled]
        exact h.safe r' hr'
      · rw [State.polled, ← List.head?_map, hids, List.head?_map]
        exact h.latest

/-! ## The polls -/

theorem mem_pendingIds {receipts : List Receipt} {id : Units} (h : id ∈ pendingIds receipts) :
    ∃ r ∈ receipts, r.transactionId = id ∧ r.status = .pending := by
  obtain ⟨r, hr, rfl⟩ := List.mem_map.mp h
  obtain ⟨hr, hpending⟩ := List.mem_filter.mp hr
  exact ⟨r, hr, rfl, of_decide_eq_true (Bool.and_eq_true_iff.mp hpending).2⟩

theorem bar_notMem_of_safe {s : Units} (h : safeTokenPattern s = true) : bar ∉ s := by
  intro hmem
  simp only [safeTokenPattern, Bool.and_eq_true, List.all_eq_true] at h
  exact absurd (h.2 bar hmem) (by decide)

/-- The identifiers are recovered from the key. -/
theorem Tidy.ids_deps {s : State} (h : Tidy s) : s.deps.ids = pendingIds s.receipts := by
  have hsafe : ∀ id ∈ pendingIds s.receipts, safeTokenPattern id = true := by
    intro id hid
    obtain ⟨r, hr, rfl, -⟩ := mem_pendingIds hid
    exact h.safe r hr
  unfold Deps.ids State.deps
  dsimp only
  cases hids : pendingIds s.receipts with
  | nil => rfl
  | cons id ids =>
      have hne : id ≠ [] := by
        intro hempty
        have hid := hsafe id (hids ▸ List.mem_cons_self)
        rw [hempty] at hid
        cases hid
      have hkey : ([bar].intercalate (id :: ids)).isEmpty = false := by
        cases ids <;> simp [List.intercalate, hne]
      rw [hkey, if_neg Bool.false_ne_true]
      refine List.splitOn_intercalate bar (fun l hl => ?_) (List.cons_ne_nil _ _)
      exact bar_notMem_of_safe (hsafe l (hids ▸ hl))

/-- No answer takes a decision back. -/
def Lasting (served : List (Units × TransactionStatus)) : Prop :=
  served.Pairwise fun a b => a.1 = b.1 → a.2 ≠ .pending → b.2 ≠ .pending

/-- How the polls stand to the receipts.  A payment that is polled was there when the effect ran
(`present`); if it has been decided, the server has said so (`decided`), and an answer that says
otherwise is not under way (`undecided`). -/
structure Polled (s : State) : Prop where
  subset : ∀ p ∈ s.polls, p.transactionId ∈ s.effect.ids
  present : s.committed = true → ∀ id ∈ s.effect.ids, ∃ r ∈ s.receipts, r.transactionId = id
  logged : ∀ p ∈ s.polls, ∀ answer update, p.answer = some answer →
    answer.check p.transactionId = .ok update → (p.transactionId, update.status) ∈ s.served
  decided : ∀ r ∈ s.receipts, r.transactionId ∈ s.effect.ids → r.status ≠ .pending →
    ∃ status, (r.transactionId, status) ∈ s.served ∧ status ≠ .pending
  undecided : ∀ p ∈ s.polls, ∀ answer update, p.answer = some answer →
    answer.check p.transactionId = .ok update → update.status = .pending →
    ∀ r ∈ s.receipts, r.transactionId = p.transactionId → r.status = .pending

section

variable {s s' : State} {id : Units}

theorem State.poll?_some {p : Poll} (h : s.poll? id = some p) :
    p ∈ s.polls ∧ p.transactionId = id :=
  ⟨List.mem_of_find?_eq_some h, by simpa using List.find?_some h⟩

/-- A receipt of a payment that is polled was there before. -/
theorem Polled.mem_of_record {r r' : Receipt} (h : Polled s) (hcommitted : s.committed = true)
    (hr' : r' ∈ recordReceipt r s.receipts) (hid : r'.transactionId ∈ s.effect.ids) :
    r' ∈ s.receipts := by
  rcases mem_recordReceipt hr' with hr' | ⟨rfl, hnew⟩
  · exact hr'
  · obtain ⟨item, hitem, hitemID⟩ := h.present hcommitted _ hid
    exact absurd hitemID (hnew item hitem)

theorem Polled.record {r : Receipt} (h : Polled s) (hcommitted : s.committed = true) :
    Polled (s.record r) where
  subset := h.subset
  present := nofun
  logged := h.logged
  decided r' hr' hid := h.decided r' (h.mem_of_record hcommitted hr' hid) hid
  undecided p hp answer update hanswer hupdate hpending r' hr' hid :=
    h.undecided p hp answer update hanswer hupdate hpending r'
      (h.mem_of_record hcommitted hr' (hid ▸ h.subset p hp)) hid

/-- A new effect polls payments that are pending. -/
theorem Polled.restart (ht : Tidy s) :
    Polled { s with effect := s.deps, polls := [], committed := true } where
  subset _ hp := absurd hp List.not_mem_nil
  present _ id hid := by
    rw [ht.ids_deps] at hid
    obtain ⟨r, hr, hrid, -⟩ := mem_pendingIds hid
    exact ⟨r, hr, hrid⟩
  logged _ hp := absurd hp List.not_mem_nil
  decided r hr hid hne := by
    rw [ht.ids_deps] at hid
    obtain ⟨r', hr', hr'id, hpending⟩ := mem_pendingIds hid
    obtain rfl := List.inj_on_of_nodup_map ht.nodup hr' hr hr'id
    exact absurd hpending hne
  undecided _ hp := absurd hp List.not_mem_nil

/-- The polls once the server has answered. -/
theorem State.mem_serve {answer : Answer} {p : Poll} (h : p ∈ (s.serve id answer).polls) :
    p ∈ s.polls ∨ (∃ p' ∈ s.polls, p'.transactionId = id) ∧ p = ⟨id, some answer⟩ := by
  obtain ⟨p', hp', rfl⟩ := List.mem_map.mp h
  split
  · next hid => exact Or.inr ⟨⟨p', hp', hid⟩, by rw [← hid]⟩
  · exact Or.inl hp'

theorem State.served_serve {answer : Answer} {update : Update}
    (h : answer.check id = .ok update) :
    (s.serve id answer).served = s.served ++ [(id, update.status)] := by
  unfold State.serve
  dsimp only
  rw [h]

theorem Polled.serve {answer : Answer} (h : Polled s)
    (hlasting : Lasting (s.serve id answer).served) : Polled (s.serve id answer) where
  subset p hp := by
    rcases s.mem_serve hp with hp | ⟨⟨p', hp', rfl⟩, rfl⟩
    · exact h.subset p hp
    · exact h.subset p' hp'
  present := h.present
  logged p hp answer' update hanswer hupdate := by
    rcases s.mem_serve hp with hp | ⟨-, rfl⟩
    · exact List.mem_append_left _ (h.logged p hp answer' update hanswer hupdate)
    · cases hanswer
      rw [s.served_serve hupdate]
      exact List.mem_append_right _ (List.mem_singleton_self _)
  decided r hr hid hne := by
    obtain ⟨status, hserved, hstatus⟩ := h.decided r hr hid hne
    exact ⟨status, List.mem_append_left _ hserved, hstatus⟩
  undecided p hp answer' update hanswer hupdate hpending r hr hid := by
    rcases s.mem_serve hp with hp | ⟨⟨p', hp', hp'id⟩, rfl⟩
    · exact h.undecided p hp answer' update hanswer hupdate hpending r hr hid
    · -- the server would take back what it has said
      cases hanswer
      by_contra hne
      have hpolled : r.transactionId ∈ s.effect.ids := by
        rw [hid, ← hp'id]
        exact h.subset p' hp'
      obtain ⟨status, hserved, hstatus⟩ := h.decided r hr hpolled hne
      rw [s.served_serve hupdate] at hlasting
      exact (List.pairwise_append.mp hlasting).2.2 _ hserved _ (List.mem_singleton_self _) hid
        hstatus hpending

theorem Polled.polled {p : Poll} {result : Except String Update} (h : Polled s)
    (hp : s.poll? id = some p)
    (hresult : ∀ update, result = .ok update → ∃ answer, p.answer = some answer ∧
      answer.check id = .ok update) : Polled (s.polled id result) where
  subset p hp := h.subset p (List.mem_of_mem_filter hp)
  present hcommitted id' hid' := by
    obtain ⟨r, hr, hrid⟩ := h.present hcommitted id' hid'
    exact ⟨r.polled id result, List.mem_map_of_mem hr, by rw [transactionId_polled, hrid]⟩
  logged p hp := h.logged p (List.mem_of_mem_filter hp)
  decided r' hr' hid hne := by
    obtain ⟨r, hr, rfl⟩ := List.mem_map.mp hr'
    rw [transactionId_polled] at hid ⊢
    rcases status_polled with hstatus | ⟨update, hupdate, hrid, hstatus⟩
    · exact h.decided r hr hid (hstatus ▸ hne)
    · -- what has been decided was in the answer, and so in what was served
      obtain ⟨answer, hanswer, hcheck⟩ := hresult update hupdate
      obtain ⟨hmem, hpid⟩ := s.poll?_some hp
      refine ⟨update.status, ?_, hstatus ▸ hne⟩
      rw [hrid, ← hpid]
      exact h.logged p hmem answer update hanswer (hpid ▸ hcheck)
  undecided p' hp' answer update hanswer hupdate hpending r' hr' hid := by
    obtain ⟨r, hr, rfl⟩ := List.mem_map.mp hr'
    obtain ⟨hp', hother⟩ := List.mem_filter.mp hp'
    rw [transactionId_polled] at hid
    have hne : r.transactionId ≠ id := by
      rw [hid]
      simpa using hother
    rw [polled_other hne]
    exact h.undecided p' hp' answer update hanswer hupdate hpending r hr hid

theorem Polled.step (ht : Tidy s) (h : Polled s) (hstep : Step s s')
    (hlasting : Lasting s'.served) : Polled s' := by
  cases hstep with
  | idle => exact h
  | connect => exact ⟨h.1, h.2, h.3, h.4, h.5⟩
  | record hcommitted _ => exact h.record hcommitted
  | settle hdeps =>
      refine ⟨h.1, fun _ id hid => ?_, h.3, h.4, h.5⟩
      rw [← hdeps, ht.ids_deps] at hid
      obtain ⟨r, hr, hrid, -⟩ := mem_pendingIds hid
      exact ⟨r, hr, hrid⟩
  | restart => exact .restart ht
  | refresh _ =>
      have hunanswered : ∀ p ∈ s.effect.ids.map fun id => (⟨id, none⟩ : Poll),
          p.transactionId ∈ s.effect.ids ∧ p.answer = none := by
        intro p hp
        obtain ⟨id, hid, rfl⟩ := List.mem_map.mp hp
        exact ⟨hid, rfl⟩
      refine ⟨fun p hp => (hunanswered p hp).1, h.2, fun p hp answer update hanswer => ?_, h.4,
        fun p hp answer update hanswer => ?_⟩
      · rw [(hunanswered p hp).2] at hanswer
        cases hanswer
      · rw [(hunanswered p hp).2] at hanswer
        cases hanswer
  | serve _ => exact h.serve hlasting
  | polled hp hresult => exact h.polled hp hresult

/-- A decision stays as long as its receipt. -/
theorem Polled.keeps (ht : Tidy s) (h : Polled s) (hstep : Step s s') {r r' : Receipt}
    (hr : r ∈ s.receipts) (hne : r.status ≠ .pending) (hr' : r' ∈ s'.receipts)
    (hid : r'.transactionId = r.transactionId) : r'.status ≠ .pending := by
  have hsame : ∀ item ∈ s.receipts, item.transactionId = r.transactionId →
      item.status ≠ .pending := by
    intro item hitem hitemID
    rwa [List.inj_on_of_nodup_map ht.nodup hitem hr hitemID]
  cases hstep with
  | idle | connect | settle | restart | refresh | serve => exact hsame r' hr' hid
  | record _ _ =>
      rcases mem_recordReceipt hr' with hr' | ⟨rfl, hnew⟩
      · exact hsame r' hr' hid
      · exact absurd hid.symm (hnew r hr)
  | @polled id p result hp hresult =>
      obtain ⟨item, hitem, rfl⟩ := List.mem_map.mp hr'
      rw [transactionId_polled] at hid
      have hitemNe := hsame item hitem hid
      rcases status_polled with hstatus | ⟨update, hupdate, hitemID, hstatus⟩
      · rwa [hstatus]
      · rw [hstatus]
        intro hpending
        obtain ⟨answer, hanswer, hcheck⟩ := hresult update hupdate
        obtain ⟨hmem, hpid⟩ := s.poll?_some hp
        exact hitemNe (h.undecided p hmem answer update hanswer (hpid ▸ hcheck) hpending item hitem
          (hitemID.trans hpid.symm))

end

/-! ## Runs -/

section

variable {toUpperCase : Units → Units} {s s' : State}

theorem Step.served_prefix (h : Step s s') : s.served <+: s'.served := by
  cases h with
  | serve _ => exact List.prefix_append _ _
  | _ => exact List.prefix_rfl

theorem Lasting.of_prefix {served served' : List (Units × TransactionStatus)}
    (h : Lasting served') (hfront : served <+: served') : Lasting served :=
  List.Pairwise.sublist hfront.sublist h

theorem steps_kept {es : List Event} (ht : Tidy s) (h : Lasting s.served → Polled s)
    (hsteps : s.steps toUpperCase es = some s') : Tidy s' ∧ (Lasting s'.served → Polled s') := by
  induction es generalizing s with
  | nil =>
      cases hsteps
      exact ⟨ht, h⟩
  | cons e es ih =>
      obtain ⟨s₁, hstep, hrest⟩ := Option.bind_eq_some_iff.mp hsteps
      have hchange := State.step_cases hstep
      refine ih (ht.step hchange) (fun hlasting => ?_) hrest
      exact (h (hlasting.of_prefix hchange.served_prefix)).step ht hchange hlasting

theorem tidy_init (apiBaseUrl authValue : Units) : Tidy (.init apiBaseUrl authValue) :=
  ⟨List.nodup_nil, Nat.zero_le _, List.forall_mem_nil _, rfl⟩

theorem polled_init (apiBaseUrl authValue : Units) : Polled (.init apiBaseUrl authValue) where
  subset := List.forall_mem_nil _
  present _ := List.forall_mem_nil _
  logged := List.forall_mem_nil _
  decided := List.forall_mem_nil _
  undecided := List.forall_mem_nil _

end

/-- At every moment of a run there are twelve receipts at most, one for each transaction, and
that of the latest submission is the first.  Whatever happens next, a submission that was made
before keeps what is known of it, a poll changes the receipt of its own payment only, and a
payment that was decided is not pending again, unless the server takes the decision back. -/
theorem receipts_invariant (toUpperCase : Units → Units) (apiBaseUrl authValue : Units)
    (es : List Event) (s : State)
    (h : (State.init apiBaseUrl authValue).steps toUpperCase es = some s) :
    (s.receipts.map Receipt.transactionId).Nodup ∧ s.receipts.length ≤ 12 ∧
      s.receipts.head?.map Receipt.transactionId = s.latest ∧
      ∀ e s', s.step toUpperCase e = some s' →
        (∀ r, e.receipt toUpperCase s = some r →
          s'.receipts.head?.map Receipt.transactionId = some r.transactionId ∧
            ∀ r₀ ∈ s.receipts, r₀.transactionId = r.transactionId →
              s'.receipts.head? = some r₀) ∧
        (∀ id, e.ends = some id → ∃ f : Receipt → Receipt, s'.receipts = s.receipts.map f ∧
          ∀ r, (f r).transactionId = r.transactionId ∧ (r.transactionId ≠ id → f r = r)) ∧
        (Lasting s'.served → ∀ r ∈ s.receipts, r.status ≠ .pending →
          ∀ r' ∈ s'.receipts, r'.transactionId = r.transactionId → r'.status ≠ .pending) := by
  obtain ⟨ht, hpolled⟩ := steps_kept (tidy_init apiBaseUrl authValue)
    (fun _ => polled_init apiBaseUrl authValue) h
  refine ⟨ht.nodup, ht.length_le, ht.latest, fun e s' hstep => ⟨?_, ?_, ?_⟩⟩
  · intro r hr
    obtain rfl := State.step_record hstep hr
    refine ⟨?_, fun r₀ hr₀ hid => head_recordReceipt_of_mem ht.nodup hr₀ hid⟩
    rw [State.record, head_recordReceipt, Option.map_some, transactionId_previous]
  · intro id hid
    obtain ⟨result, rfl⟩ := State.step_ends hstep hid
    exact ⟨Receipt.polled id result, rfl, fun r => ⟨transactionId_polled, polled_other⟩⟩
  · intro hlasting r hr hne r' hr' hid
    have hchange := State.step_cases hstep
    exact (hpolled (hlasting.of_prefix hchange.served_prefix)).keeps ht hchange hr hne hr' hid

/-- A payment of 5.00, and what is answered at first. -/
def typedPayment : Event :=
  .submit
    { accountId := ascii "alice", merchantId := ascii "shop", amountCents := ascii "500",
      currency := ascii "USD", idempotencyKey := ascii "key-1", correlationId := ascii "trace-1" }
    ⟨.text (ascii "txn_1"), .text (ascii "PENDING"), .undefined⟩ (ascii "2026-01-01")

/-- It is authorized, and submitted once more. -/
def typedTwice : List Event :=
  [typedPayment, .commit, .refresh,
    .serve (ascii "txn_1") (.ok ⟨.text (ascii "txn_1"), .text (ascii "PAYMENT"),
      .text (ascii "AUTHORIZED"), .text (ascii "LOW"), .undefined⟩),
    .deliver (ascii "txn_1"), .commit, typedPayment]

theorem receipts_invariant_typedTwice : ∃ s : State,
    (State.init (ascii "http://localhost") (ascii "bearer")).steps id typedTwice = some s ∧
      s.receipts.map Receipt.status = [.authorized] ∧ s.receipts.length ≤ 12 := by
  have h : ((State.init (ascii "http://localhost") (ascii "bearer")).steps id typedTwice).map
      (fun s => s.receipts.map Receipt.status) = some [.authorized] := by decide +kernel
  obtain ⟨s, hs, hstatus⟩ := Option.map_eq_some_iff.mp h
  exact ⟨s, hs, hstatus, (receipts_invariant id _ _ typedTwice s hs).2.1⟩

end Console

end Clearance
