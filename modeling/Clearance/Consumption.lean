/-
# `Clearance.Consumption` — every event takes effect once

Kafka delivers at least once, so `SaveConsumerOutbox` and `ProcessRiskEvaluated` are
called again for events they have dealt with.  `consumptions` lists the calls of both
that have come to an end, in the order they did, and `effectively_once` says of any
two of them that concern one event and one consumer: once the first has committed,

    same payload        the second commits nothing but a new `last_seen_at`
    another payload     the second commits nothing at all, and reports the conflict

The claim of an event is what carries the argument.  It is written by the commit that
takes effect, it is never taken away unless events are pruned, and whoever finds it
goes no further (`consume_claimed`).
-/
import Clearance.System

namespace Clearance

open Transact

section

variable {hashtext : String → Int}

/-- The end of a call of one of the two consumers. -/
structure Consumption (hashtext : String → Int) where
  delivery : Delivery
  payloadHash : Digest
  now : Time
  op : Op (dialect hashtext).engine Error Bool

namespace Consumption

/-- The consumer and the event. -/
def key (c : Consumption hashtext) : String × String :=
  (c.delivery.consumerName, c.delivery.eventID)

/-- The database after the call. -/
def after (c : Consumption hashtext) : Db := view c.op.before c.op.writes

/-- The call committed. -/
def Committed (c : Consumption hashtext) : Prop := ∃ b, c.op.reply = .ok b

/-- What holds of every call. -/
structure Sound (c : Consumption hashtext) : Prop where
  /-- What it returns without an error is what it did. -/
  told : ∀ b, c.op.answer = .ok b → c.op.reply = .ok b
  /-- If it returns false, the claim has been seen again, and that is all. -/
  duplicate : c.op.reply = .ok false →
    c.after = { c.op.before with
      processedEvents := c.op.before.processedEvents.modify c.key
        (fun r => { r with lastSeenAt := c.now }) fun _ => rfl }
  /-- An error undoes everything. -/
  failed : ¬ c.Committed → c.after = c.op.before
  /-- So does every way to end without having sent a COMMIT. -/
  unsent : c.op.sent = false → c.after = c.op.before

/-- What `c` comes to after a commit for the same event with this payload. -/
structure Repeats (payloadHash : Digest) (c : Consumption hashtext) : Prop where
  idle : c.op.reply ≠ .ok true
  conflict : c.payloadHash ≠ payloadHash →
    c.after = c.op.before ∧
      (c.op.outage = false → c.op.answer = .error (.sentinel .eventIdentityConflict))

end Consumption

/-- The call of a consumer a line of the log is about. -/
def consumption? : Entry (dialect hashtext).engine (store hashtext) → Option (Consumption hashtext)
  | ⟨_, .saveConsumerOutbox delivery payloadHash _ now, o⟩ => some ⟨delivery, payloadHash, now, o⟩
  | ⟨_, .processRiskEvaluated delivery payloadHash _ _ now, o⟩ =>
      some ⟨delivery, payloadHash, now, o⟩
  | _ => none

/-- The calls of the consumers that have come to an end, in the order they did. -/
def consumptions (g : List (Entry (dialect hashtext).engine (store hashtext))) :
    List (Consumption hashtext) := g.filterMap consumption?

/-! ## One delivery -/

/-- The event has been claimed with this payload, under names the table accepts. -/
def Claimed (d : Db) (key : String × String) (payloadHash : Digest) : Prop :=
  ⟨key.1, key.2, payloadHash⟩ ∈ d.books.claims ∧ safeToken key.1 = true ∧ safeToken key.2 = true

theorem Claimed.find? {d : Db} {key : String × String} {payloadHash : Digest}
    (h : Claimed d key payloadHash) :
    ∃ row, d.processedEvents.find? key = some row ∧ row.payloadSHA256 = payloadHash := by
  obtain ⟨row, hrow, hclaim⟩ := List.mem_map.mp h.1
  rw [ProcessedRow.claim, Claim.mk.injEq] at hclaim
  obtain ⟨hc, he, hp⟩ := hclaim
  refine ⟨row, ?_, hp⟩
  have hfind := Table.find?_of_mem d.processedEvents hrow
  rwa [hc, he] at hfind

theorem Claimed.of_find? {d : Db} {key : String × String} {row : ProcessedRow}
    (h : d.processedEvents.find? key = some row) (h₁ : safeToken key.1 = true)
    (h₂ : safeToken key.2 = true) : Claimed d key row.payloadSHA256 := by
  refine ⟨List.mem_map.mpr ⟨row, Table.mem_of_find? h, ?_⟩, h₁, h₂⟩
  have hkey := Table.key_of_find? h
  rw [← hkey]
  rfl

theorem checkProcessed_eq_none {r : ProcessedRow} :
    Tab.check (t := .processedEvents) r = none ↔
      safeToken r.consumerName = true ∧ safeToken r.eventID = true := by
  refine firstViolated_eq_none.trans ?_
  simp [ProcessedRow.checks]

variable {delivery : Delivery} {payloadHash : Digest} {now : Time} {duplicate : String}
  {work : DbTx hashtext (DbCommit hashtext Bool)} {d : Db} {res : Except Error Bool}
  {w : List schema.Write}

/-- The write that refreshes a claim. -/
abbrev refreshWrite (delivery : Delivery) (now : Time) : schema.Write :=
  .update .processedEvents (delivery.consumerName, delivery.eventID) ⟨now⟩

/-- Whoever finds the claim goes no further. -/
theorem consume_claimed {hash : Digest}
    (hd : Claimed d (delivery.consumerName, delivery.eventID) hash)
    (h : (consume delivery payloadHash now duplicate work).Runs (dialect hashtext).engine d []
      res w) :
    (hash = payloadHash ∧ res = .ok false ∧ w = [refreshWrite delivery now]) ∨
      (hash ≠ payloadHash ∧ res = .error (.sentinel .eventIdentityConflict) ∧ w = []) := by
  obtain ⟨row, hrow, rfl⟩ := hd.find?
  obtain ⟨_, h₁, h₂⟩ := hd
  have hkey := Table.key_of_find? hrow
  obtain ⟨hc, he⟩ := Prod.mk.inj hkey
  rw [consume_eq] at h
  obtain ⟨f, h⟩ := (Tx.runs_exec _).mp h
  have hclaim : (dialect hashtext).engine.exec
      (.claimProcessed (processedRow delivery payloadHash now)) f
      ((dialect hashtext).engine.view d []) = .ok { reply := false } := by
    refine Plan.insertOrSkip_ok.mpr ⟨checkProcessed_eq_none.mpr ⟨h₁, h₂⟩, Or.inl ⟨?_, rfl⟩⟩
    exact ne_of_eq_of_ne hrow (Option.some_ne_none row)
  rw [hclaim] at h
  obtain ⟨f', h⟩ := (Tx.runs_exec _).mp h
  have hrefresh : (dialect hashtext).engine.exec
      (.refreshProcessed delivery.consumerName delivery.eventID now) f'
      ((dialect hashtext).engine.view d []) =
      .ok { reply := some { row with lastSeenAt := now }
            writes := [refreshWrite delivery now]
            locks := [claimLock delivery] } := by
    refine Plan.updateRow_ok.mpr (Or.inr ⟨row, hrow, rfl, ?_, rfl⟩)
    exact checkProcessed_eq_none.mpr ⟨hc ▸ h₁, he ▸ h₂⟩
  rw [List.append_nil, hrefresh] at h
  change Tx.Runs (dialect hashtext).engine
    ((if row.payloadSHA256 ≠ payloadHash then .throw _ else pure false) >>= _) d _ res w at h
  split at h
  · next hne =>
      obtain ⟨rfl, rfl⟩ := h
      exact Or.inr ⟨hne, rfl, rfl⟩
  · next heq =>
      obtain ⟨rfl, rfl⟩ := h
      exact Or.inl ⟨not_not.mp heq, rfl, rfl⟩

/-- The call claims the event first, and keeps the claim. -/
def Claims (delivery : Delivery) (payloadHash : Digest) (now : Time) (w : List schema.Write) :
    Prop :=
  ∃ rest, w = claimWrite delivery payloadHash now :: rest ∧ ∀ x ∈ rest, Tab.processedEvents ≠ x.tab

theorem Claims.find? (hw : Claims delivery payloadHash now w)
    (hd : d.processedEvents.find? (delivery.consumerName, delivery.eventID) = none) :
    (view d w).processedEvents.find? (delivery.consumerName, delivery.eventID) =
      some (processedRow delivery payloadHash now) := by
  obtain ⟨rest, rfl, hrest⟩ := hw
  have hother : (view d (claimWrite delivery payloadHash now :: rest)).processedEvents =
      d.processedEvents.insert (processedRow delivery payloadHash now) :=
    @Schema.get_foldl_other schema .processedEvents rest hrest
      (@Schema.apply schema d (claimWrite delivery payloadHash now))
  rw [hother, Table.find?_insert, hd]
  simp [processedRow]

theorem Evaluated.claims {event : OutboxEvent} (h : Evaluated delivery payloadHash event now d w) :
    Claims delivery payloadHash now w := by
  refine ⟨_, h.writes, fun x hx => ?_⟩
  rw [List.mem_singleton.mp hx]
  exact nofun

theorem Settled.claims {event : RiskEvaluated} {draws : LedgerDraws} {t : TransactionRow}
    (h : Settled delivery payloadHash event draws now d t w) :
    Claims delivery payloadHash now w := by
  refine ⟨_, h.decided.writes, fun x hx => ?_⟩
  rcases List.mem_append.mp hx with hx | hx
  · obtain ⟨row, _, rfl⟩ := List.mem_map.mp hx
    exact nofun
  · rcases List.mem_pair.mp hx with rfl | rfl
    · exact nofun
    · exact nofun

/-- How a call of a consumer ends. -/
structure Ends (delivery : Delivery) (payloadHash : Digest) (now : Time) (d : Db)
    (res : Except Error Bool) (w : List schema.Write) : Prop where
  failed : ∀ e, res = .error e → w = []
  duplicate : res = .ok false → w = [refreshWrite delivery now]
  claimed : ∀ b, res = .ok b →
    Claimed (view d w) (delivery.consumerName, delivery.eventID) payloadHash
  again : ∀ hash, Claimed d (delivery.consumerName, delivery.eventID) hash →
    (hash = payloadHash ∧ res = .ok false) ∨
      (hash ≠ payloadHash ∧ res = .error (.sentinel .eventIdentityConflict) ∧ w = [])

theorem consume_safe {b : Bool}
    (h : Commits (consume delivery payloadHash now duplicate work) d [] b w) :
    safeToken delivery.consumerName = true ∧ safeToken delivery.eventID = true := by
  rw [consume_eq] at h
  obtain ⟨f, r, hx, _⟩ := Tx.Runs.of_ok _ h
  have hsafe := checkProcessed_eq_none.mp (Plan.insertOrSkip_ok.mp hx).1
  exact hsafe

theorem ConsumerSpec.ends
    (h : ConsumerSpec delivery (consume delivery payloadHash now duplicate work) d res w)
    (hwork : ∀ b, Commits (consume delivery payloadHash now duplicate work) d [] b w →
      (b = true ∧ Claims delivery payloadHash now w) ∨
        (b = false ∧ Refreshed delivery payloadHash now d w)) :
    Ends delivery payloadHash now d res w := by
  rcases h with h | ⟨e, rfl, rfl, hnone, _⟩
  · refine ⟨?_, ?_, ?_, fun hash hd => ?_⟩
    · rintro e rfl
      exact Tx.Runs.writes_nil _ h
    · rintro rfl
      rcases hwork false h with ⟨hb, _⟩ | ⟨_, hr⟩
      · cases hb
      · exact hr.writes
    · rintro b rfl
      have hsafe := consume_safe h
      rcases consume_commits h with ⟨hnone, _⟩ | ⟨row, hrow, rfl, rfl, rfl⟩
      · rcases hwork b h with ⟨_, hw⟩ | ⟨_, ⟨⟨row, hrow, _⟩, _⟩⟩
        · have hrow := hw.find? hnone
          exact Claimed.of_find? hrow hsafe.1 hsafe.2
        · rw [hnone] at hrow
          cases hrow
      · have hr : Refreshed delivery row.payloadSHA256 now d [refreshWrite delivery now] :=
          ⟨⟨row, hrow, rfl⟩, rfl⟩
        rw [Claimed, hr.books_eq]
        exact Claimed.of_find? hrow hsafe.1 hsafe.2
    · rcases consume_claimed hd h with ⟨heq, hres, _⟩ | hne
      · exact Or.inl ⟨heq, hres⟩
      · exact Or.inr hne
  · refine ⟨fun _ _ => rfl, nofun, nofun, fun hash hd => ?_⟩
    obtain ⟨row, hrow, _⟩ := hd.find?
    rw [hnone] at hrow
    cases hrow

/-- What a line of the log says of a call of a consumer. -/
structure Consumption.Ended (c : Consumption hashtext) : Prop where
  sound : c.Sound
  claimed : c.Committed → Claimed c.after c.key c.payloadHash
  again : ∀ hash, Claimed c.op.before c.key hash → c.Repeats hash

theorem Consumption.Ended.of_ends {c : Consumption hashtext}
    (h : Ends c.delivery c.payloadHash c.now c.op.before c.op.reply c.op.writes ∨
      ((∃ e, c.op.reply = .error e) ∧ c.op.writes = [] ∧ c.op.outage = true))
    (htold : ∀ b, c.op.answer = .ok b → c.op.reply = .ok b)
    (hans : c.op.outage = false → c.op.answer = c.op.reply)
    (hsent : c.op.sent = false → c.op.writes = []) : c.Ended := by
  have hafter : c.op.writes = [] → c.after = c.op.before := by
    intro hw
    rw [Consumption.after, hw]
    rfl
  rcases h with h | ⟨⟨e, he⟩, hw, hout⟩
  · refine ⟨⟨htold, fun hr => ?_, fun hc => ?_, fun hs => hafter (hsent hs)⟩, ?_, ?_⟩
    · rw [Consumption.after, h.duplicate hr]
      rfl
    · cases hr : c.op.reply with
      | error e => exact hafter (h.failed e hr)
      | ok b => exact absurd ⟨b, hr⟩ hc
    · rintro ⟨b, hb⟩
      exact h.claimed b hb
    · intro hash hd
      rcases h.again hash hd with ⟨heq, hr⟩ | ⟨_, hr, hw⟩
      · exact ⟨by simp [hr], fun hne => absurd heq.symm hne⟩
      · refine ⟨by simp [hr], fun _ => ⟨hafter hw, fun hout => ?_⟩⟩
        rw [hans hout, hr]
  · refine ⟨⟨htold, ?_, fun _ => hafter hw, fun _ => hafter hw⟩, ?_, ?_⟩
    · intro hr
      rw [he] at hr
      cases hr
    · rintro ⟨b, hb⟩
      rw [he] at hb
      cases hb
    · intro hash _
      refine ⟨by simp [he], fun _ => ⟨hafter hw, fun h => ?_⟩⟩
      rw [hout] at h
      cases h

theorem consumption_ended {i : Nat} {call : Call} {o : Op (dialect hashtext).engine Error call.Reply}
    {c : Consumption hashtext} (hc : consumption? ⟨i, call, o⟩ = some c)
    (ho : (contract hashtext).Allows call o) : o.before = c.op.before ∧
      o.writes = c.op.writes ∧ c.Ended := by
  cases call with
  | saveConsumerOutbox delivery payloadHash event now =>
      cases hc
      refine ⟨rfl, rfl, .of_ends (ho.did.imp_left fun h => ?_) (fun _ => ho.told) ho.answered
        ho.unsent⟩
      refine ConsumerSpec.ends h fun b hb => ?_
      exact (saveConsumerOutbox_commits hb).imp_left fun h => ⟨h.1, h.2.claims⟩
  | processRiskEvaluated delivery payloadHash event draws now =>
      cases hc
      refine ⟨rfl, rfl, .of_ends (ho.did.imp_left fun h => ?_) (fun _ => ho.told) ho.answered
        ho.unsent⟩
      refine ConsumerSpec.ends h fun b hb => ?_
      refine (processRiskEvaluated_commits hb).imp_left ?_
      rintro ⟨hb, t, h⟩
      exact ⟨hb, h.claims⟩
  | _ => cases hc

end

/-! ## All deliveries -/

/-- Everything but pruning. -/
def unpruned : Request → Bool
  | .prune .. | .store (.pruneProcessedEvents ..) => false
  | _ => true

/-- Operations that keep every claim. -/
def Call.keepsClaims : Call → Bool
  | .pruneProcessedEvents .. => false
  | _ => true

theorem admits_unpruned (P : Platform) :
    (Policy.only unpruned).Admits P fun c => c.keepsClaims = true := by
  intro w r w' c hw hm
  have hr : unpruned r = true := Policy.accept_only hw
  cases hm with
  | minor h =>
      cases c with
      | pruneProcessedEvents => cases h
      | _ => rfl
  | prune => cases hr
  | store =>
      cases c with
      | pruneProcessedEvents => cases hr
      | _ => rfl
  | _ => rfl

theorem Books.Step.claims_subset {b b' : Books} {c : Call} (h : b.Step c b')
    (hc : c.keepsClaims = true) : b.claims ⊆ b'.claims := by
  cases h with
  | evaluated _ _ => exact List.subset_append_left _ _
  | settled _ _ _ _ _ _ _ => exact List.subset_append_left _ _
  | pruned _ => cases hc
  | _ => exact List.Subset.refl _

/-- What the log says of the consumers, and what the database still knows of it. -/
structure Once {hashtext : String → Int} (d : Db) (l : List (Consumption hashtext)) : Prop where
  sound : ∀ c ∈ l, c.Sound
  claimed : ∀ c ∈ l, c.Committed → Claimed d c.key c.payloadHash
  pairwise : l.Pairwise fun a b => a.key = b.key → a.Committed → b.Repeats a.payloadHash

theorem Once.keep {hashtext : String → Int} {d d' : Db} {l : List (Consumption hashtext)}
    (h : Once d l) (hsub : d.books.claims ⊆ d'.books.claims) : Once d' l where
  sound := h.sound
  claimed c hc hcom := ⟨hsub (h.claimed c hc hcom).1, (h.claimed c hc hcom).2⟩
  pairwise := h.pairwise

theorem Once.add {hashtext : String → Int} {d d' : Db} {l : List (Consumption hashtext)}
    {c : Consumption hashtext} (h : Once d l) (hsub : d.books.claims ⊆ d'.books.claims)
    (hc : c.Ended) (hb : c.op.before = d) (ha : c.after = d') : Once d' (l ++ [c]) where
  sound := by
    intro c' hc'
    rcases List.mem_append.mp hc' with hc' | hc'
    · exact h.sound c' hc'
    · rw [List.mem_singleton.mp hc']
      exact hc.sound
  claimed := by
    intro c' hc' hcom
    rcases List.mem_append.mp hc' with hc' | hc'
    · exact (h.keep hsub).claimed c' hc' hcom
    · rw [List.mem_singleton.mp hc'] at hcom ⊢
      exact ha ▸ hc.claimed hcom
  pairwise := by
    refine List.pairwise_append.mpr ⟨h.pairwise, List.pairwise_singleton _ _, ?_⟩
    intro a hl b hb' hkey hcom
    rw [List.mem_singleton.mp hb'] at hkey ⊢
    refine hc.again _ ?_
    rw [hb, ← hkey]
    exact h.claimed a hl hcom

theorem once_safe (P : Platform) :
    Safe (system P (.only unpruned)) (contract P.hashtext) (fun d _ g => Once d (consumptions g))
      fun r _ => ∀ c, r.Makes P c → c.keepsClaims = true where
  arrive hI hw := ⟨hI, fun c hm => admits_unpruned P () _ () c hw hm⟩
  env hI _ := hI
  stable _ _ _ _ _ hQ := hQ
  op := by
    intro d w g r call o i hI hQ hcall ho hb
    subst hb
    have hsub : o.before.books.claims ⊆ (view o.before o.writes).books.claims :=
      (allows_outcome ho).step.claims_subset (hQ _ (Request.makes hcall))
    rw [consumptions, List.filterMap_append]
    cases hc : @consumption? P.hashtext ⟨i, call, o⟩ with
    | none =>
        simp only [List.filterMap_cons, hc, List.filterMap_nil, List.append_nil]
        exact hI.keep hsub
    | some c =>
        obtain ⟨hbefore, hwrites, hended⟩ := consumption_ended hc ho
        simp only [List.filterMap_cons, hc, List.filterMap_nil]
        refine Once.add hI hsub hended hbefore.symm ?_
        rw [Consumption.after, ← hbefore, ← hwrites]
        rfl

/-- Whatever is delivered, and however often, an event takes effect once. -/
theorem effectively_once (P : Platform) (d : Db)
    (es : List (Transact.Event (system P (.only unpruned)))) (s : SystemState P (.only unpruned))
    (h : (State.init d () : SystemState P (.only unpruned)).steps es = some s) :
    s.db = view d (s.log.flatMap fun e => e.op.writes) ∧
      (∀ c ∈ consumptions s.log, c.Sound) ∧
      (consumptions s.log).Pairwise fun a b =>
        a.key = b.key → a.Committed → b.Repeats a.payloadHash := by
  have hreach := State.reach_abs (store_sound P.hashtext) h
  have honce : Once s.db (consumptions s.log) := by
    refine ((once_safe P).reach (Kept.init ?_) hreach).inv
    exact ⟨fun c hc => absurd hc List.not_mem_nil, fun c hc => absurd hc List.not_mem_nil, .nil⟩
  exact ⟨db_reach hreach, honce.sound, honce.pairwise⟩

/-- An event delivered twice at the same time, and then with another payload. -/
def redeliveryRun : List (Transact.Event (system .plain (.only unpruned))) :=
  [.arrive (deliveryOf (.fill 64 0) (.fill 32 1)),
   .arrive (deliveryOf (.fill 64 0) (.fill 32 2)),
   .arrive (deliveryOf (.fill 64 9) (.fill 32 3)),
   .run 0, .run 1, .run 0, .run 0, .run 0, .run 1, .run 1, .run 1, .run 2, .run 2, .run 2]
where
  deliveryOf (payloadHash : Digest) (event : Random) : Request :=
    .store (.saveConsumerOutbox ⟨"risk-service", "evt_1", "transactions.created", 0, 7⟩ payloadHash
      (newOutboxEvent .riskEvaluated "txn_1" "alice" "trace-1" (.riskEvaluated
        ⟨"txn_1", "alice", 500, "USD", .low, true, "amount within limit", "trace-1"⟩) event 0) 0)

theorem effectively_once_redelivery : ∃ s : SystemState .plain (.only unpruned),
    (State.init Db.empty ()).steps redeliveryRun = some s ∧
      (consumptions s.log).map (fun c => c.op.answer.toOption) = [some true, some false, none] ∧
      (consumptions s.log).Pairwise fun a b =>
        a.key = b.key → a.Committed → b.Repeats a.payloadHash := by
  have h : ((State.init Db.empty () : SystemState .plain (.only unpruned)).steps
      redeliveryRun).map (fun s => (consumptions s.log).map fun c => c.op.answer.toOption) =
        some [some true, some false, none] := by
    decide +kernel
  obtain ⟨s, hs, hanswers⟩ := Option.map_eq_some_iff.mp h
  exact ⟨s, hs, hanswers, (effectively_once .plain Db.empty redeliveryRun s hs).2.2⟩

end Clearance
