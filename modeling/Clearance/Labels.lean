/-
# `Clearance.Labels` — what the requests are counted under

`ServeHTTP` counts every request under its method, its route and its status.  Routes are
normalised and statuses are few (`serveHTTP_ensures`), but the method is taken from the
request as it is.  So there are as many labels as there are methods that clients use
(`labels_bounded_iff`), and any token is a method.
-/
import Clearance.Service.Router

namespace Clearance

namespace HttpApi

open Dialogue Dialogue.Prog

/-! ## Routes and statuses -/

/-- What `metricPath` can return. -/
def metricPaths : List String :=
  ["/healthz", "/transactions", "/transactions/\x7bid\x7d", "/accounts/\x7bid\x7d/deposits",
    "/unknown"]

/-- The statuses the handlers write. -/
def statuses : List Nat := [200, 201, 202, 204, 400, 401, 404, 409, 429, 500]

theorem metricPath_mem (path : Bytes) : metricPath path ∈ metricPaths := by
  unfold metricPath
  split_ifs
  all_goals decide

section

variable {L : Library} {config : Config} {request : HttpRequest} {trace : Random}

/-- A handler that writes one of the statuses. -/
def Replies (p : Handler Reply) : Prop := p.Ensures fun reply => reply.status ∈ statuses

theorem replies_error {status : Nat} (h : status ∈ statuses) (message : String) :
    Replies (pure (writeError status message)) :=
  ensures_pure (I := interface) h

theorem replies_ask {q : Question} {k : q.Answer → Handler Reply} (h : ∀ x, Replies (k x)) :
    Replies (ask q >>= k) :=
  ensures_question (I := interface) h

theorem replies_allowRequest {next : Handler Reply} (h : Replies next) :
    Replies (allowRequest L config request next) := by
  refine replies_ask fun x => ?_
  rcases x with e | _ | _
  · exact replies_error (by decide) _
  · exact replies_error (by decide) _
  · exact h

theorem writeServiceError_status (e : Error) : (writeServiceError e).status ∈ statuses := by
  unfold writeServiceError
  split_ifs
  all_goals decide

theorem writeDepositError_status (e : Error) : (writeDepositError e).status ∈ statuses := by
  unfold writeDepositError
  split_ifs
  all_goals decide

theorem createTransaction_replies : Replies (createTransaction L config request trace) := by
  unfold createTransaction
  split
  · exact replies_error (by decide) _
  refine replies_allowRequest ?_
  split
  · exact replies_error (by decide) _
  unfold createDecoded
  split
  · exact replies_error (by decide) _
  refine replies_ask fun x => ?_
  rcases x with e | result
  · exact ensures_pure (I := interface) (writeServiceError_status e)
  · exact ensures_pure (I := interface) (by decide : 202 ∈ statuses)

theorem getTransaction_replies {id : Bytes} : Replies (getTransaction L config request id) := by
  unfold getTransaction
  split
  · exact replies_error (by decide) _
  split
  · exact replies_error (by decide) _
  refine replies_allowRequest (replies_ask fun x => ?_)
  rcases x with (_ | _ | e) | detail
  · exact replies_error (by decide) _
  · exact replies_error (by decide) _
  · exact replies_error (by decide) _
  · exact ensures_pure (I := interface) (by decide : 200 ∈ statuses)

theorem listTransactions_replies : Replies (listTransactions L config request) := by
  unfold listTransactions
  split
  · exact replies_error (by decide) _
  split
  · exact replies_error (by decide) _
  refine replies_allowRequest ?_
  split
  · exact replies_error (by decide) _
  refine replies_ask fun x => ?_
  rcases x with (_ | _ | e) | page
  · exact replies_error (by decide) _
  · exact replies_error (by decide) _
  · exact replies_error (by decide) _
  · exact ensures_pure (I := interface) (by decide : 200 ∈ statuses)

theorem createDeposit_replies {account : Bytes} :
    Replies (createDeposit L config request account) := by
  unfold createDeposit
  split
  · exact replies_error (by decide) _
  split
  · exact replies_error (by decide) _
  refine replies_allowRequest ?_
  split
  · exact replies_error (by decide) _
  refine replies_ask fun x => ?_
  rcases x with e | result
  · exact ensures_pure (I := interface) (writeDepositError_status e)
  · exact ensures_pure (I := interface) (by decide : 201 ∈ statuses)

theorem route_replies : Replies (route L config request trace) := by
  unfold route transactions
  split_ifs
  · exact ensures_pure (I := interface) (by decide : 204 ∈ statuses)
  · exact ensures_pure (I := interface) (by decide : 200 ∈ statuses)
  · exact createTransaction_replies
  · exact listTransactions_replies
  · exact replies_error (by decide) _
  · exact getTransaction_replies
  · exact createDeposit_replies
  · exact replies_error (by decide) _

/-- Counted under the method, with one of the routes and one of the statuses. -/
structure Labelled (method : String) (o : Observation) : Prop where
  method_eq : o.method = method
  path : o.path ∈ metricPaths
  status : o.status ∈ statuses.map toString

theorem serveHTTP_ensures : (serveHTTP L config request trace).Ensures
    fun served => ∀ o ∈ served.2, Labelled request.method o := by
  unfold serveHTTP
  split
  · exact ensures_pure (I := interface) nofun
  · refine route_replies.bind fun reply hreply => ensures_pure (I := interface) ?_
    intro o ho
    cases ho
    exact ⟨rfl, metricPath_mem _, List.mem_map_of_mem hreply⟩

theorem serveHTTP_counts (h : config.metricsEnabled = false) :
    (serveHTTP L config request trace).Ensures fun served => served.2.isSome = true := by
  unfold serveHTTP
  rw [if_neg (by simp [h])]
  exact route_replies.bind fun reply _ => ensures_pure (I := interface) rfl

end

/-! ## Sequences of requests -/

/-- What is counted while the requests are served one after the other. -/
def observations (L : Library) (config : Config) {σ : Type} (R : Responder interface σ) :
    σ → List (HttpRequest × Random) → List Observation
  | _, [] => []
  | s, (request, trace) :: rest =>
      let served := (serveHTTP L config request trace).run R s
      served.value.2.toList ++ observations L config R served.state rest

theorem observations_labelled (L : Library) (config : Config) {σ : Type}
    (R : Responder interface σ) (requests : List (HttpRequest × Random)) :
    ∀ s, ∀ o ∈ observations L config R s requests, ∃ r ∈ requests, Labelled r.1.method o := by
  induction requests with
  | nil => exact fun _ _ ho => absurd ho List.not_mem_nil
  | cons r rest ih =>
      intro s o ho
      rcases List.mem_append.mp ho with ho | ho
      · have hlabelled := serveHTTP_ensures.value R s o (Option.mem_toList.mp ho)
        exact ⟨r, List.mem_cons_self, hlabelled⟩
      · obtain ⟨r', hr', ho⟩ := ih _ o ho
        exact ⟨r', List.mem_cons_of_mem _ hr', ho⟩

/-- Whoever asks with the methods of `M`, of whatever server: what is counted is in a set
that is known beforehand and finite. -/
def LabelsBounded (M : Set String) : Prop :=
  ∃ S : Set Observation, S.Finite ∧ ∀ (L : Library) (config : Config) (σ : Type)
    (R : Responder interface σ) (s : σ) (requests : List (HttpRequest × Random)),
    (∀ r ∈ requests, r.1.method ∈ M) → ∀ o ∈ observations L config R s requests, o ∈ S

/-- The labels there can be for the methods of `M`. -/
def labelsOf (M : Set String) : Set Observation :=
  {o | o.method ∈ M ∧ o.path ∈ metricPaths ∧ o.status ∈ statuses.map toString}

theorem labelsOf_finite {M : Set String} (h : M.Finite) : (labelsOf M).Finite := by
  have hpaths : {p | p ∈ metricPaths}.Finite := List.finite_toSet _
  have hstatuses : {t | t ∈ statuses.map toString}.Finite := List.finite_toSet _
  refine ((h.prod (hpaths.prod hstatuses)).image fun x => ⟨x.1, x.2.1, x.2.2⟩).subset ?_
  rintro o ⟨hmethod, hpath, hstatus⟩
  exact ⟨(o.method, o.path, o.status), ⟨hmethod, hpath, hstatus⟩, rfl⟩

/-- A library that reads no body. -/
def nothingRead : Library where
  splitHostPort _ := none
  parseAddr _ := none
  decodePayment _ := none
  decodeDeposit _ := none

/-- A server without services. -/
def bareConfig : Config where
  queryService := false
  fundingService := false
  authValue := []
  fundingAuthValue := []
  operatorAuthValue := []
  allowedOrigins := []
  maxBodyBytes := 0
  trustForwardedFor := false
  metricsEnabled := false

/-- Services that are down. -/
def unavailable : Responder interface Unit
  | .allow _, s => (.error (.text "unavailable"), s)
  | .create .., s => (.error (.text "unavailable"), s)
  | .deposit .., s => (.error (.text "unavailable"), s)
  | .get _, s => (.error (.store (.text "unavailable")), s)
  | .list _, s => (.error (.store (.text "unavailable")), s)

/-- A request of the method, counted under it. -/
theorem exists_observed (method : String) :
    ∃ o ∈ observations nothingRead bareConfig unavailable ()
      [({ method, path := utf8 "/healthz" }, .fill 32 0)], o.method = method := by
  have hcounted := (@serveHTTP_counts nothingRead bareConfig { method, path := utf8 "/healthz" }
    (.fill 32 0) rfl).value unavailable ()
  obtain ⟨o, ho⟩ := Option.isSome_iff_exists.mp hcounted
  have hmem : o ∈ observations nothingRead bareConfig unavailable ()
      [({ method, path := utf8 "/healthz" }, .fill 32 0)] :=
    List.mem_append_left _ (Option.mem_toList.mpr ho)
  obtain ⟨r, hr, hlabelled⟩ := observations_labelled _ _ _ _ _ o hmem
  obtain rfl := List.mem_singleton.mp hr
  exact ⟨o, hmem, hlabelled.method_eq⟩

theorem LabelsBounded.finite {M : Set String} (h : LabelsBounded M) : M.Finite := by
  obtain ⟨S, hfinite, hall⟩ := h
  refine (hfinite.image Observation.method).subset fun method hmethod => ?_
  obtain ⟨o, ho, rfl⟩ := exists_observed method
  refine ⟨o, hall _ _ _ unavailable () _ (fun r hr => ?_) o ho, rfl⟩
  obtain rfl := List.mem_singleton.mp hr
  exact hmethod

/-- The labels are bounded as long as the methods are. -/
theorem labels_bounded_iff (M : Set String) : LabelsBounded M ↔ M.Finite := by
  refine ⟨LabelsBounded.finite, fun hfinite => ⟨labelsOf M, labelsOf_finite hfinite, ?_⟩⟩
  intro L config σ R s requests hmethods o ho
  obtain ⟨r, hr, hlabelled⟩ := observations_labelled L config R requests s o ho
  refine ⟨?_, hlabelled.path, hlabelled.status⟩
  rw [hlabelled.method_eq]
  exact hmethods r hr

/-- What `net/http` takes for a method: a token of RFC 9110. -/
def methodToken (s : String) : Bool :=
  s.toList != [] && s.toList.all fun c => c.isAlphanum || "!#$%&'*+-.^_`|~".toList.contains c

/-- Clients can make up as many methods as they like. -/
theorem labels_unbounded : ¬ LabelsBounded {method | methodToken method = true} := by
  intro h
  refine Set.infinite_of_injective_forall_mem
    (f := fun n => String.ofList (List.replicate (n + 1) 'X')) ?_ ?_ h.finite
  · intro m n heq
    have hlength := congrArg (fun s => s.toList.length) heq
    simpa using hlength
  · intro n
    simp [methodToken, List.replicate_succ]

end HttpApi

end Clearance
