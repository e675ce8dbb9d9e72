/-
# `Clearance.Routing` — which requests reach a service

`depositAccountFromPath` takes a prefix and a suffix off a path, each on its own, and the
two have a `/` in common: `/accounts/deposits` has both, and so a deposit is made to the
account `deposits`, which no path of the documented form names.  It is the only such path
(`path_grammar_iff`).

Every handler asks for a bearer first, then the limiter, and a service last.  `Course` says
it once for all of them, and `bearer_separation` is what follows: nothing is reached
without the bearer of the operation, and wrong bearers cannot be told apart.
-/
import Clearance.Service.Router

namespace Clearance

namespace HttpApi

open Dialogue Dialogue.Prog

/-! ## Prefixes and suffixes -/

theorem isPrefixOf_iff {front s : Bytes} :
    front.isPrefixOf s = true ↔ ∃ rest, s = front ++ rest := by
  rw [List.isPrefixOf_iff_prefix]
  constructor
  · rintro ⟨rest, rfl⟩
    exact ⟨rest, rfl⟩
  · rintro ⟨rest, rfl⟩
    exact ⟨rest, rfl⟩

@[simp] theorem trimPrefix_append (front rest : Bytes) : trimPrefix front (front ++ rest) = rest := by
  rw [trimPrefix, if_pos (isPrefixOf_iff.mpr ⟨rest, rfl⟩), List.drop_left]

@[simp] theorem trimSuffix_append (back rest : Bytes) : trimSuffix back (rest ++ back) = rest := by
  have hsuffix : back.isSuffixOf (rest ++ back) = true :=
    List.isSuffixOf_iff_suffix.mpr (List.suffix_append rest back)
  rw [trimSuffix, if_pos hsuffix, List.length_append, Nat.add_sub_cancel, List.take_left]

theorem trimSuffix_of_not {back s : Bytes} (h : ¬ back <:+ s) : trimSuffix back s = s := by
  rw [trimSuffix, if_neg]
  rwa [List.isSuffixOf_iff_suffix]

/-! ## Paths -/

/-- The segment of a path: not empty, and without a `/`. -/
def Segment (s : Bytes) : Prop := s ≠ [] ∧ slash ∉ s

theorem segment_iff {s : Bytes} : (s != [] && !s.contains slash) = true ↔ Segment s := by
  simp [Segment]

theorem transactionIDFromPath_iff {p t : Bytes} :
    transactionIDFromPath p = (t, true) ↔ p = utf8 "/transactions/" ++ t ∧ Segment t := by
  unfold transactionIDFromPath
  by_cases h : (utf8 "/transactions/").isPrefixOf p = true
  · obtain ⟨rest, rfl⟩ := isPrefixOf_iff.mp h
    simp only [h, Bool.not_true, Bool.false_eq_true, if_false, trimPrefix_append, Prod.mk.injEq,
      segment_iff, List.append_cancel_left_eq]
    constructor
    · rintro ⟨rfl, hs⟩
      exact ⟨rfl, hs⟩
    · rintro ⟨rfl, hs⟩
      exact ⟨rfl, hs⟩
  · simp only [Bool.not_eq_true] at h
    simp only [h, Bool.not_false, if_true, Prod.mk.injEq, Bool.false_eq_true, and_false, false_iff]
    rintro ⟨rfl, -⟩
    rw [isPrefixOf_iff.mpr ⟨t, rfl⟩] at h
    cases h

/-- The path that has the suffix only because the prefix ends in a `/`. -/
def overlapping : Bytes := utf8 "/accounts/deposits"

/-- Where the suffix may begin. -/
theorem suffix_cases {s : Bytes} (h : utf8 "/deposits" <:+ utf8 "/accounts/" ++ s) :
    utf8 "/deposits" <:+ s ∨ s = utf8 "deposits" := by
  rcases Nat.lt_or_ge s.length (utf8 "/deposits").length with hlt | hge
  · -- the rest of the path is one of the ten ends of the suffix
    have hshort : s <:+ utf8 "/deposits" :=
      List.suffix_of_suffix_length_le (List.suffix_append _ s) h hlt.le
    have hends : ∀ s ∈ (utf8 "/deposits").tails,
        (utf8 "/deposits").isSuffixOf (utf8 "/accounts/" ++ s) = true →
          (utf8 "/deposits").isSuffixOf s = true ∨ s = utf8 "deposits" := by decide
    rcases hends s ((List.mem_tails s _).mpr hshort) (List.isSuffixOf_iff_suffix.mpr h) with h | h
    · exact Or.inl (List.isSuffixOf_iff_suffix.mp h)
    · exact Or.inr h
  · exact Or.inl (List.suffix_of_suffix_length_le h (List.suffix_append _ s) hge)

theorem depositAccountFromPath_iff {p a : Bytes} :
    depositAccountFromPath p = (a, true) ↔
      (p = utf8 "/accounts/" ++ a ++ utf8 "/deposits" ∧ Segment a) ∨
        (p = overlapping ∧ a = utf8 "deposits") := by
  unfold depositAccountFromPath
  constructor
  · intro h
    split at h
    · cases h
    · next hcond =>
        simp only [Bool.or_eq_true, Bool.not_eq_true', not_or, Bool.not_eq_false] at hcond
        obtain ⟨s, rfl⟩ := isPrefixOf_iff.mp hcond.1
        rw [trimPrefix_append] at h
        obtain ⟨rfl, hs⟩ := Prod.mk.inj h
        by_cases hsuffix : utf8 "/deposits" <:+ s
        · obtain ⟨a, rfl⟩ := hsuffix
          rw [trimSuffix_append] at hs ⊢
          exact Or.inl ⟨(List.append_assoc ..).symm, segment_iff.mp hs⟩
        · rw [trimSuffix_of_not hsuffix]
          rcases suffix_cases (List.isSuffixOf_iff_suffix.mp hcond.2) with h | rfl
          · exact absurd h hsuffix
          · exact Or.inr ⟨by decide, rfl⟩
  · rintro (⟨rfl, ha⟩ | ⟨rfl, rfl⟩)
    · have hfront : (utf8 "/accounts/").isPrefixOf (utf8 "/accounts/" ++ a ++ utf8 "/deposits") =
          true := isPrefixOf_iff.mpr ⟨_, List.append_assoc ..⟩
      have hsuffix : (utf8 "/deposits").isSuffixOf (utf8 "/accounts/" ++ a ++ utf8 "/deposits") =
          true := List.isSuffixOf_iff_suffix.mpr (List.suffix_append ..)
      rw [hfront, hsuffix, List.append_assoc, trimPrefix_append, trimSuffix_append]
      exact Prod.ext rfl (segment_iff.mpr ha)
    · decide

/-- The two forms of paths with a segment of the client's. -/
structure PathGrammar (p : Bytes) : Prop where
  deposit : ∀ a, depositAccountFromPath p = (a, true) ↔
    p = utf8 "/accounts/" ++ a ++ utf8 "/deposits" ∧ a ≠ [] ∧ slash ∉ a
  transaction : ∀ t, transactionIDFromPath p = (t, true) ↔
    p = utf8 "/transactions/" ++ t ∧ t ≠ [] ∧ slash ∉ t
  apart : ((depositAccountFromPath p).2 && (transactionIDFromPath p).2) = false

theorem accepted_apart (p : Bytes) :
    ((depositAccountFromPath p).2 && (transactionIDFromPath p).2) = false := by
  by_contra h
  obtain ⟨hdeposit, htransaction⟩ := Bool.and_eq_true_iff.mp (Bool.not_eq_false _ ▸ h)
  -- the two begin with different letters
  have hsecond : p[1]? = some 0x61 := by
    rcases depositAccountFromPath_iff.mp (Prod.ext rfl hdeposit) with ⟨hp, -⟩ | ⟨hp, -⟩
    · rw [hp]; rfl
    · rw [hp]; rfl
  obtain ⟨hp, -⟩ := transactionIDFromPath_iff.mp (Prod.ext rfl htransaction)
  rw [hp] at hsecond
  exact absurd hsecond (by decide : some (0x74 : UInt8) ≠ some 0x61)

theorem path_grammar_iff (p : Bytes) : PathGrammar p ↔ p ≠ utf8 "/accounts/deposits" := by
  constructor
  · rintro h rfl
    obtain ⟨hp, -⟩ := (h.deposit (utf8 "deposits")).mp (by decide)
    exact absurd hp (by decide)
  · intro hp
    refine ⟨fun a => ?_, fun t => transactionIDFromPath_iff, accepted_apart p⟩
    rw [depositAccountFromPath_iff]
    exact or_iff_left fun h => hp h.1

/-- A deposit to `/accounts/deposits` is one to the account `deposits`. -/
theorem path_grammar_overlapping :
    depositAccountFromPath (utf8 "/accounts/deposits") = (utf8 "deposits", true) ∧
      ¬ ∃ a, utf8 "/accounts/deposits" = utf8 "/accounts/" ++ a ++ utf8 "/deposits" := by
  refine ⟨by decide, ?_⟩
  rintro ⟨a, ha⟩
  have hlen := congrArg List.length ha
  simp only [List.length_append] at hlen
  have h : (utf8 "/accounts/deposits").length = 18 ∧ (utf8 "/accounts/").length = 10 ∧
      (utf8 "/deposits").length = 9 := by decide
  omega

/-! ## Operations and their bearers -/

/-- What a client can ask for. -/
inductive Operation where
  | create | deposit | list | get
  deriving DecidableEq

/-- The operation of a method and a path. -/
def HttpRequest.operation (request : HttpRequest) : Option Operation :=
  if request.path = utf8 "/transactions" then
    if request.method = "POST" then some .create
    else if request.method = "GET" then some .list
    else none
  else if (transactionIDFromPath request.path).2 ∧ request.method = "GET" then some .get
  else if (depositAccountFromPath request.path).2 ∧ request.method = "POST" then some .deposit
  else none

/-- The values that let a client do it. -/
def Config.bearers (config : Config) : Operation → List Bytes
  | .create => [config.authValue]
  | .deposit => [config.fundingAuthValue]
  | .list => [config.operatorAuthValue]
  | .get => [config.authValue, config.operatorAuthValue]

/-- The operation a service is asked for. -/
def Question.operation : Question → Option Operation
  | .allow _ => none
  | .create .. => some .create
  | .deposit .. => some .deposit
  | .get _ => some .get
  | .list _ => some .list

/-- The request asks for the operation and carries a bearer for it. -/
structure Admitted (config : Config) (request : HttpRequest) (op : Operation) : Prop where
  asked : request.operation = some op
  bearer : ∃ value ∈ config.bearers op, value ≠ [] ∧
    request.header "Authorization" = utf8 "Bearer " ++ value

theorem authorized_iff {header expected : Bytes} :
    authorized header expected = true ↔ expected ≠ [] ∧ header = utf8 "Bearer " ++ expected := by
  unfold authorized
  by_cases hempty : expected = []
  · simp [hempty]
  by_cases h : (utf8 "Bearer ").isPrefixOf header = true
  · obtain ⟨rest, rfl⟩ := isPrefixOf_iff.mp h
    simp [hempty, h]
  · simp only [Bool.not_eq_true] at h
    simp only [h, hempty, decide_false, Bool.not_false, Bool.or_true, if_true, Bool.false_eq_true,
      ne_eq, not_false_eq_true, true_and, false_iff]
    rintro rfl
    rw [isPrefixOf_iff.mpr ⟨expected, rfl⟩] at h
    cases h

/-! ## The course of a request -/

section

variable {L : Library} {config : Config} {request : HttpRequest} {trace : Random}
  {op : Operation} {next : Handler Reply} {g : List (Exchange interface)} {reply : Reply}

/-- Nothing is asked; or the limiter; or the limiter, which agrees, and the service. -/
inductive Course (config : Config) (request : HttpRequest) : List (Exchange interface) → Prop
  | nothing : Course config request []
  | limited {op key x} : Admitted config request op → Course config request [⟨.allow key, x⟩]
  | served {op key q x} : Admitted config request op → q.operation = some op →
      Course config request [⟨.allow key, .ok true⟩, ⟨q, x⟩]

/-- Nothing but the service of the operation is asked. -/
def Serves (op : Operation) (next : Handler Reply) : Prop :=
  ∀ g reply, next.Talks g reply → g = [] ∨ ∃ q x, q.operation = some op ∧ g = [⟨q, x⟩]

theorem serves_pure (op : Operation) (reply : Reply) : Serves op (pure reply) := by
  intro g reply' h
  exact Or.inl (talks_pure.mp h).1

theorem serves_ask {q : Question} {k : q.Answer → Handler Reply} (hq : q.operation = some op)
    (hk : ∀ x, ∃ reply, k x = pure reply) : Serves op (ask q >>= k) := by
  intro g reply h
  obtain ⟨x, g', rfl, hx⟩ := talks_question.mp h
  obtain ⟨reply', hreply⟩ := hk x
  rw [hreply] at hx
  obtain ⟨rfl, -⟩ := talks_pure.mp hx
  exact Or.inr ⟨q, x, hq, rfl⟩

theorem course_pure {r : Reply} (h : (pure r : Handler Reply).Talks g reply) :
    Course config request g := by
  obtain ⟨rfl, -⟩ := talks_pure.mp h
  exact .nothing

/-- The limiter comes before the service. -/
theorem course_allowRequest (hadmitted : Admitted config request op) (hnext : Serves op next)
    (h : (allowRequest L config request next).Talks g reply) : Course config request g := by
  obtain ⟨x, g', rfl, hx⟩ := talks_question.mp h
  rcases x with e | _ | _
  · obtain ⟨rfl, -⟩ := talks_pure.mp hx
    exact .limited hadmitted
  · obtain ⟨rfl, -⟩ := talks_pure.mp hx
    exact .limited hadmitted
  · rcases hnext g' reply hx with rfl | ⟨q, x, hq, rfl⟩
    · exact .limited hadmitted
    · exact .served hadmitted hq

theorem admitted_of_authorized {value : Bytes} (hop : request.operation = some op)
    (hvalue : value ∈ config.bearers op)
    (h : authorized (request.header "Authorization") value = true) :
    Admitted config request op := by
  obtain ⟨hne, hheader⟩ := authorized_iff.mp h
  exact ⟨hop, value, hvalue, hne, hheader⟩

theorem createTransaction_course (hop : request.operation = some .create)
    (h : (createTransaction L config request trace).Talks g reply) : Course config request g := by
  unfold createTransaction at h
  split at h
  · exact course_pure h
  · next hauth =>
      refine course_allowRequest (admitted_of_authorized hop List.mem_cons_self
        (by simpa using hauth)) ?_ h
      split
      · exact serves_pure _ _
      · unfold createDecoded
        split
        · exact serves_pure _ _
        · refine serves_ask rfl fun x => ?_
          rcases x with e | result
          · exact ⟨_, rfl⟩
          · exact ⟨_, rfl⟩

theorem getTransaction_course {id : Bytes} (hop : request.operation = some .get)
    (h : (getTransaction L config request id).Talks g reply) : Course config request g := by
  unfold getTransaction at h
  split at h
  · exact course_pure h
  split at h
  · exact course_pure h
  · next hauth =>
      have hadmitted : Admitted config request .get := by
        simp only [Bool.and_eq_true, Bool.not_eq_true', not_and_or, Bool.not_eq_false] at hauth
        rcases hauth with hauth | hauth
        · exact admitted_of_authorized hop List.mem_cons_self hauth
        · exact admitted_of_authorized hop (List.mem_cons_of_mem _ List.mem_cons_self) hauth
      refine course_allowRequest hadmitted (serves_ask rfl fun x => ?_) h
      rcases x with (_ | _ | e) | detail
      · exact ⟨_, rfl⟩
      · exact ⟨_, rfl⟩
      · exact ⟨_, rfl⟩
      · exact ⟨_, rfl⟩

theorem listTransactions_course (hop : request.operation = some .list)
    (h : (listTransactions L config request).Talks g reply) : Course config request g := by
  unfold listTransactions at h
  split at h
  · exact course_pure h
  split at h
  · exact course_pure h
  · next hauth =>
      refine course_allowRequest (admitted_of_authorized hop List.mem_cons_self
        (by simpa using hauth)) ?_ h
      split
      · exact serves_pure _ _
      · refine serves_ask rfl fun x => ?_
        rcases x with (_ | _ | e) | page
        · exact ⟨_, rfl⟩
        · exact ⟨_, rfl⟩
        · exact ⟨_, rfl⟩
        · exact ⟨_, rfl⟩

theorem createDeposit_course {account : Bytes} (hop : request.operation = some .deposit)
    (h : (createDeposit L config request account).Talks g reply) : Course config request g := by
  unfold createDeposit at h
  split at h
  · exact course_pure h
  split at h
  · exact course_pure h
  · next hauth =>
      refine course_allowRequest (admitted_of_authorized hop List.mem_cons_self
        (by simpa using hauth)) ?_ h
      split
      · exact serves_pure _ _
      · refine serves_ask rfl fun x => ?_
        rcases x with e | result
        · exact ⟨_, rfl⟩
        · exact ⟨_, rfl⟩

theorem route_course (h : (route L config request trace).Talks g reply) :
    Course config request g := by
  unfold route transactions at h
  split_ifs at h with hoptions hhealth hpath hpost hget htransaction hdeposit
  · exact course_pure h
  · exact course_pure h
  · exact createTransaction_course (by simp [HttpRequest.operation, hpath, hpost]) h
  · exact listTransactions_course (by simp [HttpRequest.operation, hpath, hget]) h
  · exact course_pure h
  · refine getTransaction_course ?_ h
    rw [HttpRequest.operation, if_neg hpath, if_pos htransaction]
  · refine createDeposit_course ?_ h
    rw [HttpRequest.operation, if_neg hpath, if_neg htransaction, if_pos hdeposit]
  · exact course_pure h

theorem serveHTTP_course {served : Response × Option Observation}
    (h : (serveHTTP L config request trace).Talks g served) : Course config request g := by
  unfold serveHTTP at h
  split at h
  · obtain ⟨rfl, -⟩ := talks_pure.mp h
    exact .nothing
  · obtain ⟨reply, -, h⟩ := Talks.of_map h
    exact route_course h

end

/-! ## Wrong bearers -/

/-- No bearer for what is asked. -/
def Unadmitted (config : Config) (request : HttpRequest) : Prop :=
  ∀ op, ¬ Admitted config request op

/-- The two differ in the header `Authorization` only. -/
structure SameButAuthorization (request request' : HttpRequest) : Prop where
  method : request.method = request'.method
  path : request.path = request'.path
  query : request.query = request'.query
  header : ∀ name, name ≠ "Authorization" → request.header name = request'.header name
  body : request.body = request'.body
  remoteAddr : request.remoteAddr = request'.remoteAddr

section

variable {L : Library} {config : Config} {request : HttpRequest} {trace : Random}
  {op : Operation}

theorem Unadmitted.not_authorized (h : Unadmitted config request)
    (hop : request.operation = some op) {value : Bytes} (hvalue : value ∈ config.bearers op) :
    authorized (request.header "Authorization") value = false := by
  rw [← Bool.not_eq_true]
  intro hauth
  exact h op (admitted_of_authorized hop hvalue hauth)

/-- What is answered to a request without a bearer. -/
def refusal (config : Config) : Operation → Reply
  | .create => writeError 401 "unauthorized"
  | .deposit =>
      if config.fundingService then writeError 401 "unauthorized" else writeError 404 "not found"
  | .list | .get =>
      if config.queryService then writeError 401 "unauthorized" else writeError 404 "not found"

/-- The reply to a request without a bearer depends on its method and path alone. -/
def refused (config : Config) (request : HttpRequest) : Reply :=
  if request.method = "OPTIONS" then ⟨204, .empty⟩
  else if request.path = utf8 "/healthz" ∧ request.method = "GET" then ⟨200, .status "ok"⟩
  else
    match request.operation with
    | some op => refusal config op
    | none => writeError 404 "not found"

theorem route_unadmitted (h : Unadmitted config request) :
    route L config request trace = pure (refused config request) := by
  unfold route transactions refused
  split_ifs with hoptions hhealth hpath hpost hget htransaction hdeposit
  · rfl
  · rfl
  · have hop : request.operation = some .create := by simp [HttpRequest.operation, hpath, hpost]
    simp [hop, refusal, createTransaction, h.not_authorized hop List.mem_cons_self]
  · have hop : request.operation = some .list := by simp [HttpRequest.operation, hpath, hget]
    simp only [hop, refusal, listTransactions, h.not_authorized hop List.mem_cons_self]
    cases config.queryService <;> rfl
  · simp [HttpRequest.operation, hpath, hpost, hget]
  · have hop : request.operation = some .get := by
      rw [HttpRequest.operation, if_neg hpath, if_pos htransaction]
    simp only [hop, refusal, getTransaction, h.not_authorized hop List.mem_cons_self,
      h.not_authorized hop (List.mem_cons_of_mem _ List.mem_cons_self)]
    cases config.queryService <;> rfl
  · have hop : request.operation = some .deposit := by
      rw [HttpRequest.operation, if_neg hpath, if_neg htransaction, if_pos hdeposit]
    simp only [hop, refusal, createDeposit, h.not_authorized hop List.mem_cons_self]
    cases config.fundingService <;> rfl
  · rw [HttpRequest.operation, if_neg hpath, if_neg htransaction, if_neg hdeposit]

theorem SameButAuthorization.refused_eq {request' : HttpRequest}
    (h : SameButAuthorization request request') :
    refused config request = refused config request' := by
  simp only [refused, HttpRequest.operation, h.method, h.path]

theorem SameButAuthorization.serveHTTP_eq {request' : HttpRequest} {trace' : Random}
    (h : SameButAuthorization request request') (hrequest : Unadmitted config request)
    (hrequest' : Unadmitted config request') :
    serveHTTP L config request trace = serveHTTP L config request' trace' := by
  have hheaders : baseHeaders config request = baseHeaders config request' := by
    simp only [baseHeaders, h.header "Origin" (by decide)]
  simp only [serveHTTP, route_unadmitted hrequest, route_unadmitted hrequest', h.refused_eq,
    hheaders, h.method, h.path]

/-- Nothing is asked for a request without a bearer. -/
theorem serveHTTP_unadmitted (h : Unadmitted config request) :
    ∃ served, serveHTTP L config request trace = pure served := by
  unfold serveHTTP
  split
  · exact ⟨_, rfl⟩
  · rw [route_unadmitted h]
    exact ⟨_, rfl⟩

theorem bearers_newRouter (config : Config) (op : Operation) :
    (newRouter config).bearers op = config.bearers op := by
  unfold newRouter
  split <;> cases op <;> rfl

theorem admitted_newRouter :
    Admitted (newRouter config) request op ↔ Admitted config request op := by
  constructor
  · rintro ⟨hop, h⟩
    exact ⟨hop, bearers_newRouter config op ▸ h⟩
  · rintro ⟨hop, h⟩
    exact ⟨hop, (bearers_newRouter config op).symm ▸ h⟩

end

/-- What is asked, one thing after the other. -/
theorem Course.split {config : Config} {request : HttpRequest} {g : List (Exchange interface)}
    (h : Course config request g) {before after : List (Exchange interface)}
    {e : Exchange interface} (hg : g = before ++ e :: after) :
    match e.question.operation with
    | none => ∃ op, Admitted config request op
    | some op => Admitted config request op ∧ ∃ key, ⟨.allow key, .ok true⟩ ∈ before := by
  cases h with
  | nothing => simp at hg
  | limited hadmitted =>
      cases before with
      | nil =>
          obtain ⟨rfl, -⟩ := List.cons.inj hg
          exact ⟨_, hadmitted⟩
      | cons b before => simp at hg
  | @served op key q x hadmitted hq =>
      cases before with
      | nil =>
          obtain ⟨rfl, -⟩ := List.cons.inj hg
          exact ⟨_, hadmitted⟩
      | cons b before =>
          obtain ⟨rfl, hrest⟩ := List.cons.inj hg
          cases before with
          | nil =>
              obtain ⟨rfl, -⟩ := List.cons.inj hrest
              simp only [hq]
              exact ⟨hadmitted, key, List.mem_cons_self⟩
          | cons b before => simp at hg

/-- Whoever answers, and in whatever state.  What is asked of the limiter or of a service is
asked for a request that carries a bearer for the operation it asks for, of a service only
after the limiter has agreed; and two requests with wrong bearers get the same response and
leave everything as it was. -/
theorem bearer_separation {σ : Type} (R : Responder interface σ) (L : Library) (config : Config)
    (request : HttpRequest) (trace : Random) (s : σ) :
    (∀ before after e,
      ((serveHTTP L (newRouter config) request trace).run R s).log = before ++ e :: after →
        match e.question.operation with
        | none => ∃ op, Admitted config request op
        | some op => Admitted config request op ∧ ∃ key, ⟨.allow key, .ok true⟩ ∈ before) ∧
      ∀ request' trace', SameButAuthorization request request' → Unadmitted config request →
        Unadmitted config request' →
        (serveHTTP L (newRouter config) request trace).run R s =
            (serveHTTP L (newRouter config) request' trace').run R s ∧
          ((serveHTTP L (newRouter config) request trace).run R s).state = s := by
  constructor
  · intro before after e hlog
    have hcourse := (serveHTTP_course (run_talks R _ s)).split hlog
    simpa only [admitted_newRouter] using hcourse
  · intro request' trace' hsame hrequest hrequest'
    have h : Unadmitted (newRouter config) request := fun op hop =>
      hrequest op (admitted_newRouter.mp hop)
    have h' : Unadmitted (newRouter config) request' := fun op hop =>
      hrequest' op (admitted_newRouter.mp hop)
    refine ⟨by rw [hsame.serveHTTP_eq h h'], ?_⟩
    obtain ⟨served, hserved⟩ := @serveHTTP_unadmitted L _ _ trace h
    rw [hserved]
    rfl

/-- A server that takes payments from one client. -/
def clientConfig : Config where
  queryService := true
  fundingService := true
  authValue := utf8 "client"
  fundingAuthValue := utf8 "funding"
  operatorAuthValue := []
  allowedOrigins := []
  maxBodyBytes := 0
  trustForwardedFor := false
  metricsEnabled := true

/-- Every body is the same payment. -/
def onePayment : Library where
  splitHostPort _ := none
  parseAddr _ := none
  decodePayment _ := some ⟨"alice", "shop", 100, "EUR"⟩
  decodeDeposit _ := none

/-- A payment, with the bearer given. -/
def paymentWith (bearer : Bytes) : HttpRequest where
  method := "POST"
  path := utf8 "/transactions"
  headers := [("Idempotency-Key", utf8 "key-1"), ("Authorization", utf8 "Bearer " ++ bearer)]

/-- The services on an empty database, with a limiter that counts. -/
def countingServices : Responder interface (Deployment Nat) :=
  services .plain .plain 1000 (fun _ n => (.ok true, n + 1))
    (fun n => ⟨.fill 32 0xa, .fill 32 0xb, n, n, n, n⟩)
    (fun n => ⟨.fill 32 0xc, .fill 32 0xd, .fill 32 0xe,
      ⟨.fill 32 0xf, .fill 32 1, .fill 32 2⟩, n, n, n⟩)

theorem unadmitted_paymentWith {bearer : Bytes} (h : bearer ≠ utf8 "client") :
    Unadmitted clientConfig (paymentWith bearer) := by
  rintro op ⟨hop, value, hvalue, -, hheader⟩
  have hcreate : (paymentWith bearer).operation = some .create := by
    simp [HttpRequest.operation, paymentWith]
  obtain rfl : op = .create := Option.some.inj (hop.symm.trans hcreate)
  obtain rfl : value = utf8 "client" := List.mem_singleton.mp hvalue
  exact h (List.append_cancel_left hheader)

theorem bearer_separation_payment :
    ((serveHTTP onePayment (newRouter clientConfig) (paymentWith (utf8 "client"))
      (.fill 32 0)).run countingServices ⟨.empty, 0, 0⟩).log.length = 2 ∧
    (∃ op, Admitted clientConfig (paymentWith (utf8 "client")) op) ∧
    (serveHTTP onePayment (newRouter clientConfig) (paymentWith (utf8 "klient"))
        (.fill 32 0)).run countingServices ⟨.empty, 0, 0⟩ =
      (serveHTTP onePayment (newRouter clientConfig) (paymentWith [])
        (.fill 32 0)).run countingServices ⟨.empty, 0, 0⟩ := by
  have hlen : ((serveHTTP onePayment (newRouter clientConfig) (paymentWith (utf8 "client"))
      (.fill 32 0)).run countingServices ⟨.empty, 0, 0⟩).log.length = 2 := by
    decide +kernel
  refine ⟨hlen, ?_, ?_⟩
  · have hreached := (bearer_separation countingServices onePayment clientConfig
      (paymentWith (utf8 "client")) (.fill 32 0) ⟨.empty, 0, 0⟩).1
    obtain ⟨limiter, service, hlog⟩ := List.length_eq_two.mp hlen
    have hservice := hreached [limiter] [] service hlog
    split at hservice
    · exact hservice
    · exact ⟨_, hservice.1⟩
  · refine ((bearer_separation countingServices onePayment clientConfig
      (paymentWith (utf8 "klient")) (.fill 32 0) ⟨.empty, 0, 0⟩).2 (paymentWith [])
      (.fill 32 0) ⟨rfl, rfl, rfl, ?_, rfl, rfl⟩ (unadmitted_paymentWith (by decide))
      (unadmitted_paymentWith (by decide))).1
    intro name hname
    simp [HttpRequest.header, lookup, paymentWith, List.find?_cons, hname.symm]

end HttpApi

end Clearance
