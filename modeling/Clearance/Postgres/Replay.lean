/-
# `Clearance.Postgres.Replay` — `StartDeadLetterReplay` between other transactions

The transaction gives up stale attempts, looks whether the dead letter is open, and
records a new attempt unless another is pending.  The lock on the pending attempts
of the dead letter makes most of that atomic: when the transaction commits, the
attempts it gave up are the ones that were pending, and nothing else is pending
(`Started`).

What no lock protects is the state of the dead letter.  It was open when the
`SELECT` looked, which may be before another replay finished; `StartSpec` says
nothing about it.
-/
import Clearance.Postgres.Isolation

namespace Clearance

open Transact

/-! ## Pending attempts -/

theorem mem_pendingReplays {d : Db} {id : String} {r : ReplayRow} :
    r ∈ pendingReplays d id ↔ d.pendingReplay id r.id = some r := by
  rw [pendingReplays, List.mem_filter, Db.pendingReplay, Option.filter_eq_some_iff]
  refine and_congr_left fun _ => ⟨fun h => Table.find?_of_mem _ h, Table.mem_of_find?⟩

theorem pendingReplay_id {d : Db} {id attemptID : String} {r : ReplayRow}
    (h : d.pendingReplay id attemptID = some r) : r.id = attemptID :=
  Table.key_of_find? (Option.filter_eq_some_iff.mp h).1

theorem pendingReplays_eq_nil {d : Db} {id : String} :
    pendingReplays d id = [] ↔ ∀ attemptID, d.pendingReplay id attemptID = none := by
  constructor
  · intro h attemptID
    cases hp : d.pendingReplay id attemptID with
    | none => rfl
    | some r =>
        have hr : r ∈ pendingReplays d id :=
          mem_pendingReplays.mpr (by rw [pendingReplay_id hp]; exact hp)
        rw [h] at hr
        cases hr
  · intro h
    refine List.eq_nil_iff_forall_not_mem.mpr fun r hr => ?_
    have hp := mem_pendingReplays.mp hr
    rw [h r.id] at hp
    cases hp

/-- An attempt that was given up is not pending. -/
theorem pendingReplay_recoverStale (d : Db) (id : String) (now : Time) (r : ReplayRow)
    (attemptID : String) :
    (@Schema.apply schema d (recoverStale id now r)).pendingReplay id attemptID =
      if attemptID = r.id then none else d.pendingReplay id attemptID := by
  rw [recoverStale, pendingReplay_update]
  refine if_congr Iff.rfl ?_ rfl
  cases d.deadLetterReplayAttempts.find? attemptID with
  | none => rfl
  | some r =>
      by_cases hr : r.deadLetterID = id
      · simp [ReplayUpdate.apply, hr, Option.filter_some]
      · simp [ReplayUpdate.apply, hr, Option.filter_some]

theorem pendingReplay_recovered (id : String) (now : Time) (rows : List ReplayRow) (d : Db)
    (attemptID : String) :
    ((rows.map (recoverStale id now)).foldl (@Schema.apply schema) d).pendingReplay id attemptID =
      if attemptID ∈ rows.map ReplayRow.id then none else d.pendingReplay id attemptID := by
  induction rows generalizing d with
  | nil => rfl
  | cons r rows ih =>
      refine (ih (@Schema.apply schema d (recoverStale id now r))).trans ?_
      rw [pendingReplay_recoverStale]
      by_cases h : attemptID = r.id
      · simp [h]
      · simp [h]

/-- Giving up attempts neither adds nor removes any. -/
theorem find?_recovered (id : String) (now : Time) (rows : List ReplayRow) (d : Db)
    (attemptID : String) :
    ((rows.map (recoverStale id now)).foldl (@Schema.apply schema)
        d).deadLetterReplayAttempts.find? attemptID = none ↔
      d.deadLetterReplayAttempts.find? attemptID = none := by
  induction rows generalizing d with
  | nil => exact Iff.rfl
  | cons r rows ih =>
      refine (ih (@Schema.apply schema d (recoverStale id now r))).trans ?_
      have hf : (@Schema.apply schema d
          (recoverStale id now r)).deadLetterReplayAttempts.find? attemptID = _ :=
        @Schema.find?_update schema d .deadLetterReplayAttempts r.id _ attemptID
      rw [hf]
      split
      · exact Option.map_eq_none_iff
      · exact Iff.rfl

/-! ## What the transaction comes to -/

/-- The attempts given up are pending, and stale. -/
def Recovered (d : Db) (id : String) (now : Time) (rows : List ReplayRow) : Prop :=
  ∀ r ∈ rows, d.pendingReplay id r.id = some r ∧ stale now r = true

/-- A replay has been started: every pending attempt was stale and is given up, and
the new one is recorded. -/
structure Started (d : Db) (row : ReplayRow) (now : Time) (rows : List ReplayRow) : Prop where
  recovered : Recovered d row.deadLetterID now rows
  all : ∀ id r, d.pendingReplay row.deadLetterID id = some r → r ∈ rows
  fresh : d.deadLetterReplayAttempts.find? row.id = none
  check : firstViolated row.checks = none

section

variable {hashtext : String → Int}

/-- The writes of a replay that starts. -/
def startWrites (row : ReplayRow) (now : Time) (rows : List ReplayRow) : List schema.Write :=
  rows.map (recoverStale row.deadLetterID now) ++ [.insert .deadLetterReplayAttempts row]

def StartSpec (row : ReplayRow) (now : Time) : Spec (dialect hashtext).engine Error String :=
  fun d res w =>
    (∃ e, res = .error e ∧ w = []) ∨
      (res = .ok row.id ∧ ∃ rows, Started d row now rows ∧ w = startWrites row now rows)

/-- The lock on the pending attempts. -/
abbrev replayLock (id : String) : DbLock hashtext := .named (.pendingReplay id)

theorem planFailStaleReplays_ok {d : Db} {id : String} {now : Time}
    {r : Effect schema.Write (DbLock hashtext) Unit}
    (h : (planFailStaleReplays d id now).result = .ok r) :
    ∃ rows, Recovered d id now rows ∧ r.writes = rows.map (recoverStale id now) ∧
      (rows ≠ [] → replayLock id ∈ r.locks) ∧ Held (L := latches hashtext) r.locks r.writes := by
  have hrec : Recovered d id now ((pendingReplays d id).filter (stale now)) := fun x hx =>
    ⟨mem_pendingReplays.mp (List.mem_filter.mp hx).1, (List.mem_filter.mp hx).2⟩
  unfold planFailStaleReplays at h
  split at h
  · cases h
    exact ⟨[], List.forall_mem_nil _, rfl, fun hne => absurd rfl hne, Held.nil _⟩
  · cases h
    refine ⟨_, hrec, rfl, fun _ => List.mem_cons_self, fun x hx => ?_⟩
    obtain ⟨row, _, rfl⟩ := List.mem_map.mp hx
    intro k hk
    rcases List.mem_pair.mp hk with rfl | rfl
    · exact List.mem_cons_of_mem _ (Plan.uniques_subset_locksOf hx (List.mem_singleton_self _))
    · exact List.mem_cons_self

theorem planInsertReplay_ok {d : Db} {row : ReplayRow}
    {r : Effect schema.Write (DbLock hashtext) Bool}
    (h : (planInsertReplay d row).result = .ok r) :
    r = { reply := false } ∨
      (firstViolated row.checks = none ∧ d.deadLetterReplayAttempts.find? row.id = none ∧
        (∀ id, d.pendingReplay row.deadLetterID id = none) ∧
        r = { reply := true
              writes := [.insert .deadLetterReplayAttempts row]
              locks := [replayLock row.deadLetterID,
                rowLock .deadLetterReplayAttempts row.id] }) := by
  unfold planInsertReplay at h
  split at h
  · cases h
  · next hc =>
      split at h
      · cases h
        exact Or.inl rfl
      · next hfree =>
          cases h
          simp only [Bool.or_eq_true, Option.isSome_iff_ne_none, Bool.not_eq_true',
            List.isEmpty_eq_false_iff, not_or, not_not] at hfree
          exact Or.inr ⟨hc, hfree.1, pendingReplays_eq_nil.mp hfree.2, rfl⟩

theorem planSelectOpen_ok {d : Db} {id : String} {f : DbLock hashtext → Bool}
    {r : Effect schema.Write (DbLock hashtext) Bool}
    (h : ((Stmt.selectOpenDeadLetter id).plan f d).result = .ok r) :
    ∃ found, r = { reply := found } := by
  obtain ⟨found, _, hr⟩ := Plan.read_ok.mp h
  exact ⟨found, hr⟩

/-- The new attempt goes in when nothing else is pending. -/
theorem Recovered.started {d : Db} {row : ReplayRow} {now : Time} {rows : List ReplayRow}
    (hrec : Recovered d row.deadLetterID now rows) (hc : firstViolated row.checks = none)
    (hf : ((rows.map (recoverStale row.deadLetterID now)).foldl (@Schema.apply schema)
      d).deadLetterReplayAttempts.find? row.id = none)
    (hp : ∀ id, ((rows.map (recoverStale row.deadLetterID now)).foldl (@Schema.apply schema)
      d).pendingReplay row.deadLetterID id = none) : Started d row now rows where
  recovered := hrec
  check := hc
  fresh := (find?_recovered _ _ _ _ _).mp hf
  all := by
    intro id r hr
    have hid := hp id
    rw [pendingReplay_recovered] at hid
    split at hid
    · next hmem =>
        obtain ⟨r', hr', rfl⟩ := List.mem_map.mp hmem
        have := (hrec r' hr').1
        rw [hr] at this
        cases this
        exact hr'
    · rw [hid] at hr
      cases hr

theorem Recovered.rely {d d' : Db} {id : String} {now : Time} {rows : List ReplayRow}
    {l : List (DbLock hashtext)} (h : Recovered d id now rows)
    (hl : rows ≠ [] → replayLock id ∈ l) (hd : AgreeOn l d d') : Recovered d' id now rows := by
  intro r hr
  have hval : d.pendingReplay id = d'.pendingReplay id :=
    @Latch.pendingReplay_of_val hashtext _ _ _ (hd _ (hl (List.ne_nil_of_mem hr)))
  rw [← hval]
  exact h r hr

theorem Started.rely {d d' : Db} {row : ReplayRow} {now : Time} {rows : List ReplayRow}
    {l : List (DbLock hashtext)} (h : Started d row now rows)
    (hl : replayLock row.deadLetterID ∈ l)
    (hl' : rowLock .deadLetterReplayAttempts row.id ∈ l) (hd : AgreeOn l d d') :
    Started d' row now rows where
  recovered := h.recovered.rely (fun _ => hl) hd
  check := h.check
  fresh := by
    have hf : d.deadLetterReplayAttempts.find? row.id =
      d'.deadLetterReplayAttempts.find? row.id := hd _ hl'
    rw [← hf]
    exact h.fresh
  all := by
    have hval : d.pendingReplay row.deadLetterID = d'.pendingReplay row.deadLetterID :=
      @Latch.pendingReplay_of_val hashtext _ _ _ (hd _ hl)
    rw [← hval]
    exact h.all

/-! ## Statement by statement -/

/-- The end of the transaction: the insertion, and the commit. -/
def recordAttempt (row : ReplayRow) : DbTx hashtext (DbCommit hashtext String) :=
  .exec (.insertReplay row) (failing "insert dead letter replay attempt") fun inserted =>
    if inserted then commit row.id "commit dead letter replay attempt"
    else .throw (.sentinel .invalidState)

/-- The transaction after stale attempts have been given up. -/
def recordIfOpen (row : ReplayRow) : DbTx hashtext (DbCommit hashtext String) :=
  .exec (.selectOpenDeadLetter row.deadLetterID) (failing "insert dead letter replay attempt")
    fun found => if found then recordAttempt row else .throw (.sentinel .invalidState)

theorem startDeadLetterReplay_eq (id reason : String) (attempt : Random) (now : Time) :
    (startDeadLetterReplay id reason attempt now : DbTx hashtext _) =
      .exec (.failStaleReplays id now) (failing "recover stale dead letter replay attempt")
        fun _ => recordIfOpen (attemptRow id reason attempt now) := rfl

variable {d : Db} {row : ReplayRow} {now : Time} {rows : List ReplayRow}
  {l : List (DbLock hashtext)}

theorem recordAttempt_runs {res : Except Error String} {w' : List schema.Write}
    (hrec : Recovered d row.deadLetterID now rows)
    (hrun : (recordAttempt row).Runs (dialect hashtext).engine d
      (rows.map (recoverStale row.deadLetterID now)) res w') :
    @StartSpec hashtext row now d res w' := by
  obtain ⟨f, ⟨x, _, rfl, rfl⟩ | ⟨r, hx, hrun⟩⟩ := hrun.cases
  · exact Or.inl ⟨_, rfl, rfl⟩
  · rcases planInsertReplay_ok hx with rfl | ⟨hc, hf, hp, rfl⟩
    · obtain ⟨rfl, rfl⟩ := hrun
      exact Or.inl ⟨_, rfl, rfl⟩
    · obtain ⟨rfl, rfl⟩ := hrun
      exact Or.inr ⟨rfl, rows, hrec.started hc hf hp, rfl⟩

theorem recordIfOpen_runs {res : Except Error String} {w' : List schema.Write}
    (hrec : Recovered d row.deadLetterID now rows)
    (hrun : (recordIfOpen row).Runs (dialect hashtext).engine d
      (rows.map (recoverStale row.deadLetterID now)) res w') :
    @StartSpec hashtext row now d res w' := by
  obtain ⟨f, ⟨x, _, rfl, rfl⟩ | ⟨r, hx, hrun⟩⟩ := hrun.cases
  · exact Or.inl ⟨_, rfl, rfl⟩
  · obtain ⟨found, rfl⟩ := planSelectOpen_ok (f := f) hx
    rw [List.append_nil] at hrun
    cases found with
    | false =>
        obtain ⟨rfl, rfl⟩ := hrun
        exact Or.inl ⟨_, rfl, rfl⟩
    | true => exact recordAttempt_runs hrec hrun

theorem startDeadLetterReplay_runs {id reason : String} {attempt : Random}
    {res : Except Error String} {w' : List schema.Write}
    (hrun : (startDeadLetterReplay id reason attempt now).Runs (dialect hashtext).engine d []
      res w') :
    @StartSpec hashtext (attemptRow id reason attempt now) now d res w' := by
  rw [startDeadLetterReplay_eq] at hrun
  obtain ⟨f, ⟨x, _, rfl, rfl⟩ | ⟨r, hx, hrun⟩⟩ := hrun.cases
  · exact Or.inl ⟨_, rfl, rfl⟩
  · obtain ⟨rows, hrec, hw, _⟩ := planFailStaleReplays_ok hx
    rw [hw] at hrun
    exact recordIfOpen_runs hrec hrun

theorem recordAttempt_conforms (hrec : Recovered d row.deadLetterID now rows)
    (hl : rows ≠ [] → replayLock row.deadLetterID ∈ l) :
    Conforms (dialect hashtext).rely (StartSpec row now) (recordAttempt row) l
      (rows.map (recoverStale row.deadLetterID now)) d := by
  intro d₁ f r hd hx
  have hrec₁ := hrec.rely hl hd
  rcases planInsertReplay_ok hx with rfl | ⟨hc, hf, hp, rfl⟩
  · exact ⟨Guar.nil _ _, fun _ => Or.inl ⟨_, rfl, rfl⟩, trivial⟩
  · refine ⟨Held.guar fun x hx => ?_, fun _ => Sim.after fun d₂ hd₂ res w' hrun => ?_, trivial⟩
    · rw [List.mem_singleton.mp hx]
      intro k hk
      rcases List.mem_pair.mp hk with rfl | rfl
      · exact List.mem_append_right _ (List.mem_cons_of_mem _ (List.mem_singleton_self _))
      · exact List.mem_append_right _ List.mem_cons_self
    · obtain ⟨rfl, rfl⟩ := hrun
      refine Or.inr ⟨rfl, rows, ?_, rfl⟩
      exact (hrec₁.started hc hf hp).rely (by simp) (by simp) hd₂

theorem recordIfOpen_conforms (hrec : Recovered d row.deadLetterID now rows)
    (hl : rows ≠ [] → replayLock row.deadLetterID ∈ l) :
    Conforms (dialect hashtext).rely (StartSpec row now) (recordIfOpen row) l
      (rows.map (recoverStale row.deadLetterID now)) d := by
  intro d₁ f r hd hx
  have hrec₁ := hrec.rely hl hd
  obtain ⟨found, rfl⟩ := planSelectOpen_ok (f := f) hx
  simp only [List.append_nil]
  cases found with
  | false => exact ⟨Guar.nil _ _, fun _ => Or.inl ⟨_, rfl, rfl⟩, trivial⟩
  | true =>
      refine ⟨Guar.nil _ _, fun _ => Sim.after fun d₂ hd₂ res w' hrun => ?_,
        recordAttempt_conforms hrec₁ hl⟩
      exact recordAttempt_runs (hrec₁.rely hl hd₂) hrun

theorem startDeadLetterReplay_conforms (id reason : String) (attempt : Random) (now : Time)
    (d : Db) :
    Conforms (dialect hashtext).rely (StartSpec (attemptRow id reason attempt now) now)
      (startDeadLetterReplay id reason attempt now) [] [] d := by
  rw [startDeadLetterReplay_eq]
  intro d₁ f r _ hx
  obtain ⟨rows, hrec, hw, hl, hheld⟩ := planFailStaleReplays_ok hx
  rw [List.nil_append, List.nil_append, hw]
  refine ⟨hw ▸ hheld.guar, fun _ => Sim.after fun d₂ hd₂ res w' hrun => ?_,
    recordIfOpen_conforms hrec hl⟩
  exact recordIfOpen_runs (hrec.rely hl hd₂) hrun

end

end Clearance
