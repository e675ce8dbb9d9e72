/-
# `Clearance.Migrations.Contents` — what the migrations do to the rows

002 fills in the partition keys of outbox rows (`Keyed`).  004 leaves a dead letter the first
of its pending replay attempts (`Cleaned`), so that its unique index can be created.  Once all
four ran they find their work done, on any contents that the schema then allows: the columns
they fill in are NOT NULL, and no two attempts of a dead letter are pending.
-/
import Clearance.Migrations.Scripts

namespace Clearance

namespace Migrations

open Ddl (At Leads Runs)

variable {now : Int} {db db' : Db} {script : List Stmt}

/-- A column the schema has as NOT NULL. -/
theorem ne_none_of_notNull (h : At (semantics now) script db) {n : Tab} {c : Column}
    (hc : ∃ t, Ddl.catalog script n = some t ∧ c ∈ t.notNull) : ∀ r ∈ db.rows n, r c ≠ none := by
  intro r hr
  obtain ⟨t, ht, hmem⟩ := hc
  exact ((h.admits n t ht).row r hr).notNull c hmem

theorem test_oneOf {texts : List String} {v : Value} :
    Predicate.test (.oneOf texts) v = true ↔ ∃ s ∈ texts, v = text s := by
  constructor
  · intro h
    cases v with
    | inl n => exact absurd h Bool.false_ne_true
    | inr s => exact ⟨s, of_decide_eq_true h, rfl⟩
  · rintro ⟨s, hs, rfl⟩
    exact decide_eq_true hs

/-! ## Partition keys -/

structure Keyed (db : Db) (r r' : Row) : Prop where
  rest : ∀ c, c ≠ .partitionKey → r' c = r c
  kept : ∀ v, db.read .outboxEvents r .partitionKey = some v → r' .partitionKey = some v
  ofTransaction : db.read .outboxEvents r .partitionKey = none →
    ∀ t ∈ db.rows .transactions, t .id = r .aggregateID → r' .partitionKey = t .accountID
  ofAggregate : db.read .outboxEvents r .partitionKey = none →
    (∀ t ∈ db.rows .transactions, t .id ≠ r .aggregateID) → r' .partitionKey = r .aggregateID

/-- What 002 does to the rows. -/
structure Backfilled (db db' : Db) : Prop where
  others : ∀ n, n ≠ .outboxEvents → db'.rows n = db.rows n
  outbox : ∃ f : Row → Row, db'.rows .outboxEvents = (db.rows .outboxEvents).map f ∧
    ∀ r ∈ db.rows .outboxEvents, Keyed db r (f r)

section

variable {ts : List Row} {r : Row} {c : Column}

theorem partitionKeyOfTransaction_of_ne (hc : c ≠ .partitionKey) :
    partitionKeyOfTransaction ts r c = r c := by
  unfold partitionKeyOfTransaction
  split
  · cases ts.find? fun t => equal (r .aggregateID) (t .id) with
    | none => rfl
    | some t => exact Function.update_of_ne hc _ _
  · rfl

theorem partitionKeyOfAggregate_of_ne (hc : c ≠ .partitionKey) :
    partitionKeyOfAggregate r c = r c := by
  unfold partitionKeyOfAggregate
  split
  · exact Function.update_of_ne hc _ _
  · rfl

theorem partitionKeyOfAggregate_ne_none (hr : r .aggregateID ≠ none) :
    partitionKeyOfAggregate r .partitionKey ≠ none := by
  unfold partitionKeyOfAggregate
  split
  · rwa [Function.update_self]
  · assumption

/-- The partition key of an outbox row, where `given` is the one it had. -/
def keyOf (ts : List Row) (given : Option Value) (r : Row) : Option Value :=
  if given = none then
    match ts.find? fun t => equal (r .aggregateID) (t .id) with
    | some t => t .accountID
    | none => r .aggregateID
  else given

/-- The two updates together. -/
theorem partitionKey_eq (hts : ∀ t ∈ ts, t .accountID ≠ none) (given : Option Value) :
    partitionKeyOfAggregate
        (partitionKeyOfTransaction ts (Function.update r .partitionKey given)) =
      Function.update r .partitionKey (keyOf ts given r) := by
  cases given with
  | some v => simp [partitionKeyOfTransaction, partitionKeyOfAggregate, keyOf]
  | none =>
      cases hfind : ts.find? fun t => equal (r .aggregateID) (t .id) with
      | none => simp [partitionKeyOfTransaction, partitionKeyOfAggregate, keyOf, hfind]
      | some t =>
          have ht := hts t (List.mem_of_find?_eq_some hfind)
          simp [partitionKeyOfTransaction, partitionKeyOfAggregate, keyOf, hfind, ht]

theorem equal_iff {a b : Option Value} : equal a b = true ↔ a = b ∧ b ≠ none := by
  cases a <;> cases b <;> simp [equal]

theorem eq_of_id (h : transactions.Admits Predicate.test ts) {t t' : Row} (ht : t ∈ ts)
    (ht' : t' ∈ ts) (hid : t .id = t' .id) : t = t' := by
  have hkey : ∀ t ∈ ts, Ddl.Unique.key Predicate.test
      { name := "transactions_pkey", columns := [.id] } t = some [t .id] := fun t ht =>
    Ddl.Unique.key_eq _ rfl (by simpa using (h.row t ht).notNull .id (by decide))
  exact h.eq_of_key _ (List.mem_singleton.mpr rfl) ht ht' (hkey t ht) (by rw [hkey t' ht', hid])

theorem keyed (h : transactions.Admits Predicate.test (db.rows .transactions)) (r : Row) :
    Keyed db r (Function.update r .partitionKey
      (keyOf (db.rows .transactions) (db.read .outboxEvents r .partitionKey) r)) where
  rest c hc := Function.update_of_ne hc _ _
  kept v hv := by
    rw [Function.update_self, hv]
    rfl
  ofTransaction hnone t ht hid := by
    rw [Function.update_self, hnone, keyOf, if_pos rfl]
    split
    · rename_i t' hfind
      have hequal := List.find?_some hfind
      rw [eq_of_id h ht (List.mem_of_find?_eq_some hfind) (hid.trans (equal_iff.mp hequal).1)]
    · rename_i hfind
      refine absurd (equal_iff.mpr ⟨hid.symm, ?_⟩) (List.find?_eq_none.mp hfind t ht)
      exact (h.row t ht).notNull .id (by decide)
  ofAggregate hnone hother := by
    have hfind : (db.rows .transactions).find? (fun t => equal (r .aggregateID) (t .id)) = none :=
      List.find?_eq_none.mpr fun t ht heq => hother t ht (equal_iff.mp heq).1.symm
    rw [Function.update_self, hnone, keyOf, if_pos rfl, hfind]

end

/-- 002 succeeds, also when it is repeated after it had added its column. -/
theorem consumerReliability_runs {stage : List Stmt}
    (hstage : stage = init ∨ stage = init ++ [addPartitionKey]) (h : At (semantics now) stage db) :
    Runs (semantics now) consumerReliability db fun db' =>
      At (semantics now) (init ++ consumerReliability) db' ∧ Backfilled db db' := by
  have htransactions : transactions.Admits Predicate.test (db.rows .transactions) := by
    rcases hstage with rfl | rfl <;> exact h.admits _ _ rfl
  have hcatalog : Ddl.catalog (stage ++ [addPartitionKey]) =
      Ddl.catalog (init ++ [addPartitionKey]) := by
    rcases hstage with rfl | rfl
    · rfl
    · funext n
      cases n <;> rfl
  have hadd : Leads (semantics now) stage db addPartitionKey (Function.update db.rows .outboxEvents
      ((db.rows .outboxEvents).map fun r => Function.update r .partitionKey
        (db.read .outboxEvents r .partitionKey))) := by
    rcases hstage with rfl | rfl
    · exact h.addNullable rfl (.inr (by decide))
    · exact h.addNullable rfl (.inl (by decide))
  apply hadd.runs
  intro db₁ h₁ hrows₁
  replace h₁ := h₁.congr hcatalog
  apply (h₁.update rfl .partitionKeyOfTransaction ((h₁.admits .outboxEvents _ rfl).map_ignored _ (by decide)
    fun r _ c hc => partitionKeyOfTransaction_of_ne hc)).runs
  intro db₂ h₂ hrows₂
  apply (h₂.update rfl .partitionKeyOfAggregate ((h₂.admits .outboxEvents _ rfl).map_ignored _ (by decide)
    fun r _ c hc => partitionKeyOfAggregate_of_ne hc)).runs
  intro db₃ h₃ hrows₃
  have hkeys : ∀ r ∈ db₃.rows .outboxEvents, r .partitionKey ≠ none := by
    rw [hrows₃, Function.update_self, List.forall_mem_map]
    intro r hr
    exact partitionKeyOfAggregate_ne_none
      (ne_none_of_notNull h₂ ⟨_, rfl, by decide⟩ r hr)
  apply (h₃.constrain rfl (.setNotNull .outboxEvents .partitionKey) rfl hkeys).runs
  intro db₄ h₄ hrows₄
  apply (h₄.createTable processedEvents).runs
  intro db₅ h₅ hrows₅
  refine ⟨db₅, rfl, h₅, ?_, ?_⟩
  · intro n hn
    simp only [hrows₅, hrows₄, hrows₃, hrows₂, hrows₁, Function.update_of_ne hn]
  · refine ⟨_, ?_, fun r _ => keyed htransactions r⟩
    simp only [hrows₅, hrows₄, hrows₃, hrows₂, hrows₁, Function.update_self, List.map_map]
    apply List.map_congr_left
    intro r hr
    exact partitionKey_eq (fun t ht => (htransactions.row t ht).notNull .accountID (by decide)) _

/-! ## Pending attempts -/

/-- No pending attempt for the same dead letter comes before it. -/
def First (attempts : List Row) (a : Row) : Prop :=
  ∀ r ∈ attempts, isPending r → r .deadLetterID = a .deadLetterID → position a ≤ position r

structure Cleaned (now : Int) (attempts : List Row) (r r' : Row) : Prop where
  kept : ¬isPending r ∨ First attempts r → r' = r
  failed : isPending r → ¬First attempts r → r' = superseded now r

def pendingFor (d : Option Value) (r : Row) : Bool := isPending r && r .deadLetterID = d

/-- What 004 does to the rows; it also fills in when processed events were last seen. -/
structure Superseded (now : Int) (db db' : Db) : Prop where
  others : ∀ n, n ≠ .deadLetterReplayAttempts → n ≠ .processedEvents → db'.rows n = db.rows n
  attempts : ∃ f : Row → Row,
    db'.rows .deadLetterReplayAttempts = (db.rows .deadLetterReplayAttempts).map f ∧
      ∀ r ∈ db.rows .deadLetterReplayAttempts, Cleaned now (db.rows .deadLetterReplayAttempts) r (f r)
  first : ∀ r ∈ db.rows .deadLetterReplayAttempts, isPending r →
    ∃ a ∈ db.rows .deadLetterReplayAttempts, First (db.rows .deadLetterReplayAttempts) a ∧
      (db'.rows .deadLetterReplayAttempts).filter (pendingFor (r .deadLetterID)) = [a]
  atMostOne : ∀ d, ((db'.rows .deadLetterReplayAttempts).filter (pendingFor d)).length ≤ 1

section

variable {attempts : List Row} {r : Row}

theorem one_lt_attemptOrder_iff :
    1 < attemptOrder (attempts.filter isPending) r ↔ ¬First attempts r := by
  rw [attemptOrder, Nat.lt_add_right_iff_pos, List.length_pos_iff_exists_mem]
  simp only [First, List.mem_filter, Bool.and_eq_true, decide_eq_true_eq, not_forall, not_le]
  constructor
  · rintro ⟨p, ⟨hp, hpending⟩, hd, hlt⟩
    exact ⟨p, hp, hpending, hd, hlt⟩
  · rintro ⟨p, hp, hpending, hd, hlt⟩
    exact ⟨p, ⟨hp, hpending⟩, hd, hlt⟩

theorem attempt_key (h : deadLetterReplayAttempts.Admits Predicate.test attempts) :
    attempts.Pairwise fun r r' => r .id ≠ r' .id := by
  apply (h.pairwise _ (List.mem_singleton.mpr rfl) rfl (by decide)).imp
  intro r r' hne heq
  exact hne (by simp [heq])

theorem eq_of_attempt (h : deadLetterReplayAttempts.Admits Predicate.test attempts) {p : Row}
    (hr : r ∈ attempts) (hp : p ∈ attempts) (hid : r .id = p .id) : r = p := by
  by_contra hne
  have hsymm : Std.Symm fun r r' : Row => r .id ≠ r' .id := ⟨fun _ _ h => h.symm⟩
  exact (attempt_key h).forall hr hp hne hid

theorem supersede_eq (h : deadLetterReplayAttempts.Admits Predicate.test attempts)
    (hr : r ∈ attempts) [Decidable (isPending r ∧ ¬First attempts r)] :
    supersede now attempts r =
      if isPending r ∧ ¬First attempts r then superseded now r else r := by
  have hiff : ((attempts.filter isPending).any fun p =>
      equal (r .id) (p .id) && 1 < attemptOrder (attempts.filter isPending) p) = true ↔
      isPending r ∧ ¬First attempts r := by
    simp only [List.any_eq_true, List.mem_filter, Bool.and_eq_true, decide_eq_true_eq,
      one_lt_attemptOrder_iff, equal_iff]
    constructor
    · rintro ⟨p, ⟨hp, hpending⟩, ⟨hid, -⟩, hlater⟩
      rw [eq_of_attempt h hr hp hid]
      exact ⟨hpending, hlater⟩
    · rintro ⟨hpending, hlater⟩
      exact ⟨r, ⟨hr, hpending⟩, ⟨rfl, (h.row r hr).notNull .id (by decide)⟩, hlater⟩
  simp only [supersede, hiff]

theorem cleaned (h : deadLetterReplayAttempts.Admits Predicate.test attempts)
    (hr : r ∈ attempts) : Cleaned now attempts r (supersede now attempts r) := by
  classical
  rw [supersede_eq h hr]
  constructor
  · intro hkept
    apply if_neg
    rintro ⟨hpending, hlater⟩
    exact hkept.elim (· hpending) hlater
  · intro hpending hlater
    exact if_pos ⟨hpending, hlater⟩

theorem superseded_ok (h : deadLetterReplayAttempts.RowOk Predicate.test r) :
    deadLetterReplayAttempts.RowOk Predicate.test (superseded now r) := by
  constructor
  · intro c hc
    have hold := h.notNull c hc
    cases c with
    | result | errorMessage | completedAt => exact Option.some_ne_none _
    | _ => exact hold
  · intro k hk
    have hreason := h.checks _ (List.mem_of_getElem? (i := 0) rfl)
    simp only [deadLetterReplayAttempts, List.mem_cons, List.not_mem_nil, or_false] at hk
    have hresult : Predicate.test (.oneOf ["PENDING", "PUBLISHED", "FAILED"]) (text "FAILED") =
        true := by decide +kernel
    have hmessage : Predicate.test (.charLength 0 512)
        (text "superseded while enforcing one pending replay per dead letter") = true := by
      decide +kernel
    rcases hk with rfl | rfl | rfl
    · exact hreason
    · simp [Ddl.Cond.eval, superseded, hresult]
    · simp [Ddl.Cond.eval, superseded, hmessage]

/-- The rows that are left pending are the first ones. -/
theorem pendingFor_supersede (h : deadLetterReplayAttempts.Admits Predicate.test attempts)
    (hr : r ∈ attempts) (d : Option Value) :
    pendingFor d (supersede now attempts r) = true ↔
      isPending r ∧ r .deadLetterID = d ∧ First attempts r := by
  classical
  have hfailed : isPending (superseded now r) = false := by
    simp [isPending, superseded, text]
  rw [supersede_eq h hr]
  split
  · rename_i hlater
    simp [pendingFor, hfailed, hlater.2]
  · rename_i hkept
    simp only [pendingFor, Bool.and_eq_true, decide_eq_true_eq]
    tauto

/-- Two attempts cannot both be the first. -/
theorem First.eq (h : deadLetterReplayAttempts.Admits Predicate.test attempts) {a b : Row}
    (ha : a ∈ attempts) (hb : b ∈ attempts) (hpa : isPending a) (hpb : isPending b)
    (hd : a .deadLetterID = b .deadLetterID) (hfa : First attempts a) (hfb : First attempts b) :
    a = b := by
  have hposition : position a = position b := le_antisymm (hfa b hb hpb hd.symm) (hfb a ha hpa hd)
  have hid : a .id = b .id := congrArg (fun p => (ofLex p).2) hposition
  exact eq_of_attempt h ha hb hid

theorem exists_first {p : Row} (hp : p ∈ attempts) (hpending : isPending p) :
    ∃ a ∈ attempts, isPending a ∧ a .deadLetterID = p .deadLetterID ∧ First attempts a := by
  have hmem : ∀ a, a ∈ attempts.filter (pendingFor (p .deadLetterID)) ↔
      a ∈ attempts ∧ isPending a ∧ a .deadLetterID = p .deadLetterID := by
    simp [pendingFor]
  cases hmin : (attempts.filter (pendingFor (p .deadLetterID))).argmin position with
  | none =>
      have hnil := List.argmin_eq_none.mp hmin
      exact absurd ((hmem p).mpr ⟨hp, hpending, rfl⟩) (by simp [hnil])
  | some a =>
      obtain ⟨ha, hpa, hda⟩ := (hmem a).mp (List.argmin_mem hmin)
      refine ⟨a, ha, hpa, hda, ?_⟩
      intro r hr hpr hdr
      exact List.le_of_mem_argmin ((hmem r).mpr ⟨hr, hpr, hdr.trans hda⟩) hmin

end

theorem filter_eq_singleton {α : Type} {l : List α} {p : α → Bool} {a : α} (hl : l.Nodup)
    (ha : a ∈ l) (hp : ∀ x ∈ l, p x = true ↔ x = a) : l.filter p = [a] := by
  have hall : l.filter p = List.replicate (l.filter p).length a := by
    apply List.eq_replicate_of_mem
    intro x hx
    obtain ⟨hmem, hpx⟩ := List.mem_filter.mp hx
    exact (hp x hmem).mp hpx
  have hle : (l.filter p).length ≤ 1 := by
    have hnodup := hl.filter p
    rw [hall] at hnodup
    exact List.nodup_replicate.mp hnodup
  have hpos := List.length_pos_of_mem (List.mem_filter.mpr ⟨ha, (hp a ha).mpr rfl⟩)
  rw [hall, Nat.le_antisymm hle hpos]
  rfl

section

variable {attempts : List Row} (h : deadLetterReplayAttempts.Admits Predicate.test attempts)

include h

theorem supersede_first (now : Int) {r : Row} (hr : r ∈ attempts) (hpending : isPending r) :
    ∃ a ∈ attempts, First attempts a ∧
      (attempts.map (supersede now attempts)).filter (pendingFor (r .deadLetterID)) = [a] := by
  obtain ⟨a, ha, hpa, hda, hfirst⟩ := exists_first hr hpending
  have hfilter : attempts.filter (pendingFor (r .deadLetterID) ∘ supersede now attempts) = [a] := by
    apply filter_eq_singleton ((attempt_key h).imp fun hne heq => hne (by rw [heq])) ha
    intro x hx
    rw [Function.comp_apply, pendingFor_supersede h hx]
    constructor
    · rintro ⟨hpx, hdx, hfx⟩
      exact First.eq h hx ha hpx hpa (hdx.trans hda.symm) hfx hfirst
    · rintro rfl
      exact ⟨hpa, hda, hfirst⟩
  refine ⟨a, ha, hfirst, ?_⟩
  rw [List.filter_map, hfilter, List.map_singleton, (cleaned h ha).kept (.inr hfirst)]

theorem supersede_atMostOne (d : Option Value) :
    ((attempts.map (supersede now attempts)).filter (pendingFor d)).length ≤ 1 := by
  cases hleft : (attempts.map (supersede now attempts)).filter (pendingFor d) with
  | nil => exact Nat.zero_le 1
  | cons x rest =>
      have hx : x ∈ (attempts.map (supersede now attempts)).filter (pendingFor d) := by
        rw [hleft]
        exact List.mem_cons_self
      obtain ⟨hmem, hpx⟩ := List.mem_filter.mp hx
      obtain ⟨r, hr, rfl⟩ := List.mem_map.mp hmem
      obtain ⟨hpending, rfl, -⟩ := (pendingFor_supersede h hr d).mp hpx
      obtain ⟨a, -, -, hsingle⟩ := supersede_first h now hr hpending
      rw [← hleft, hsingle]
      exact Nat.le_refl 1

omit h in
theorem isPending_of_key {r : Row} {k : List (Option Value)}
    (hk : onePending.key Predicate.test r = some k) : isPending r ∧ k = [r .deadLetterID] := by
  unfold Ddl.Unique.key at hk
  split at hk
  · rename_i hcovered
    have hresult : (r .result).map (Predicate.test (.oneOf ["PENDING"])) = some true :=
      of_decide_eq_true hcovered.1
    obtain ⟨v, hv, htest⟩ := Option.map_eq_some_iff.mp hresult
    obtain ⟨s, hs, rfl⟩ := test_oneOf.mp htest
    rw [List.mem_singleton.mp hs] at hv
    exact ⟨decide_eq_true hv, (Option.some.inj hk).symm⟩
  · exact absurd hk.symm (Option.some_ne_none _)

/-- The unique index can be created. -/
theorem supersede_unique (now : Int) :
    ((attempts.map (supersede now attempts)).filterMap (onePending.key Predicate.test)).Nodup := by
  rw [List.filterMap_map]
  apply List.pairwise_filterMap.mpr
  apply (attempt_key h).imp_of_mem
  intro r r' hr hr' hid k hk k' hk' hsame
  obtain ⟨hpending, rfl⟩ := isPending_of_key hk
  obtain ⟨hpending', rfl⟩ := isPending_of_key hk'
  have hd : supersede now attempts r' .deadLetterID = supersede now attempts r .deadLetterID :=
    (List.cons.inj hsame).1.symm
  obtain ⟨hp, hdr, hfirst⟩ := (pendingFor_supersede h hr _).mp
    (Bool.and_eq_true_iff.mpr ⟨hpending, decide_eq_true rfl⟩)
  obtain ⟨hp', hdr', hfirst'⟩ := (pendingFor_supersede h hr' _).mp
    (Bool.and_eq_true_iff.mpr ⟨hpending', decide_eq_true hd⟩)
  exact hid (by rw [First.eq h hr hr' hp hp' (hdr.trans hdr'.symm) hfirst hfirst'])

theorem supersede_admits (now : Int) :
    deadLetterReplayAttempts.Admits Predicate.test (attempts.map (supersede now attempts)) := by
  classical
  apply h.map
  · intro r hr
    rw [supersede_eq h hr]
    split
    · exact superseded_ok (h.row r hr)
    · exact h.row r hr
  · intro u hu r hr c hc
    rw [List.mem_singleton.mp hu] at hc
    rw [List.mem_singleton.mp hc, supersede_eq h hr]
    split <;> rfl

end

/-! ## The scripts succeed -/

/-- The schema 003 leaves. -/
def funded : List Stmt := init ++ consumerReliability ++ fundingAndQueries

theorem lastSeen_of_ne {r : Row} {c : Column} (hc : c ≠ .lastSeenAt) : lastSeen r c = r c := by
  unfold lastSeen
  split
  · exact Function.update_of_ne hc _ _
  · rfl

theorem lastSeen_ne_none {r : Row} (hr : r .processedAt ≠ none) : lastSeen r .lastSeenAt ≠ none := by
  unfold lastSeen
  split
  · rwa [Function.update_self]
  · assumption

theorem replayTables_runs (h : At (semantics now) funded db) :
    Runs (semantics now) replayTables db fun db' =>
      At (semantics now) (funded ++ replayTables) db' ∧
        ∀ n, n ≠ .processedEvents → db'.rows n = db.rows n := by
  apply (h.addNullable (n := .processedEvents) rfl (.inr (by decide))).runs
  intro db₁ h₁ hrows₁
  apply (h₁.addNullable (n := .processedEvents) rfl (.inr (by decide))).runs
  intro db₂ h₂ hrows₂
  apply (h₂.addNullable (n := .processedEvents) rfl (.inr (by decide))).runs
  intro db₃ h₃ hrows₃
  apply (h₃.addNullable (n := .processedEvents) rfl (.inr (by decide))).runs
  intro db₄ h₄ hrows₄
  apply (h₄.update rfl .lastSeen ((h₄.admits .processedEvents _ rfl).map_ignored _ (by decide)
    fun r _ c hc => lastSeen_of_ne hc)).runs
  intro db₅ h₅ hrows₅
  have hseen : ∀ r ∈ db₅.rows .processedEvents, r .lastSeenAt ≠ none := by
    rw [hrows₅, Function.update_self, List.forall_mem_map]
    intro r hr
    exact lastSeen_ne_none (ne_none_of_notNull h₄ ⟨_, rfl, by decide⟩ r hr)
  apply (h₅.constrain rfl (.setNotNull .processedEvents .lastSeenAt) rfl hseen).runs
  intro db₆ h₆ hrows₆
  apply (h₆.createTable deadLetterMessages).runs
  intro db₇ h₇ hrows₇
  apply (h₇.createTable deadLetterReplayAttempts).runs
  intro db₈ h₈ hrows₈
  refine ⟨db₈, rfl, h₈, ?_⟩
  intro n hn
  simp only [hrows₈, hrows₇, hrows₆, hrows₅, hrows₄, hrows₃, hrows₂, hrows₁,
    Function.update_of_ne hn]

theorem supersede_runs (h : At (semantics now) (funded ++ replayTables) db) :
    Runs (semantics now) [.update .deadLetterReplayAttempts .supersede,
        .createUnique .deadLetterReplayAttempts onePending] db fun db' =>
      At (semantics now) migrations db' ∧ Superseded now db db' := by
  have hattempts : deadLetterReplayAttempts.Admits Predicate.test
      (db.rows .deadLetterReplayAttempts) := h.admits _ _ rfl
  apply (h.update rfl .supersede (supersede_admits hattempts now)).runs
  intro db₁ h₁ hrows₁
  have hrows : db₁.rows .deadLetterReplayAttempts = (db.rows .deadLetterReplayAttempts).map
      (supersede now (db.rows .deadLetterReplayAttempts)) := by
    rw [hrows₁, Function.update_self]
    rfl
  have hunique := supersede_unique hattempts now
  rw [← hrows] at hunique
  apply (h₁.constrain rfl (.createUnique .deadLetterReplayAttempts onePending) rfl hunique).runs
  intro db₂ h₂ hrows₂
  rw [← hrows₂] at hrows
  refine ⟨db₂, rfl, h₂, ?_, ?_, ?_, ?_⟩
  · intro n hn _
    rw [hrows₂, hrows₁, Function.update_of_ne hn]
  · exact ⟨_, hrows, fun r hr => cleaned hattempts hr⟩
  · intro r hr hpending
    rw [hrows]
    exact supersede_first hattempts now hr hpending
  · intro d
    rw [hrows]
    exact supersede_atMostOne hattempts d

/-- Payments are all there was before 003. -/
structure IsPayment (r : Row) : Prop where
  kind : r .kind = some (text "PAYMENT")
  merchantID : r .merchantID ≠ none
  fundingSource : r .fundingSource = none
  externalReference : r .externalReference = none

section

variable {r : Row} (h : IsPayment r)

include h

theorem IsPayment.kind_check :
    Ddl.Cond.eval Predicate.test r (.test (.oneOf ["PAYMENT", "DEPOSIT"]) .kind) ≠ some false := by
  have htest : Predicate.test (.oneOf ["PAYMENT", "DEPOSIT"]) (text "PAYMENT") = true := by
    decide +kernel
  simp [Ddl.Cond.eval, h.kind, htest]

theorem IsPayment.kind_fields_check : kindFields.eval Predicate.test r ≠ some false := by
  have htest : Predicate.test (.oneOf ["PAYMENT"]) (text "PAYMENT") = true := by decide +kernel
  obtain ⟨merchantID, hmerchant⟩ := Option.ne_none_iff_exists'.mp h.merchantID
  simp [kindFields, Ddl.Cond.eval, h.kind, h.fundingSource, h.externalReference, hmerchant, htest]

theorem IsPayment.key_eq_none {u : Ddl.Unique Column Predicate}
    (hu : u.only = some (.test (.oneOf ["DEPOSIT"]) .kind)) : u.key Predicate.test r = none := by
  have htest : Predicate.test (.oneOf ["DEPOSIT"]) (text "PAYMENT") = false := by decide +kernel
  simp [Ddl.Unique.key, Ddl.Unique.covers, hu, Ddl.Cond.eval, h.kind, htest]

end

/-- More event types are allowed than before. -/
theorem oneOf_check_mono {r : Row} {c : Column} {texts texts' : List String} (hsub : texts ⊆ texts')
    (h : Ddl.Cond.eval Predicate.test r (.test (.oneOf texts) c) ≠ some false) :
    Ddl.Cond.eval Predicate.test r (.test (.oneOf texts') c) ≠ some false := by
  cases hv : r c with
  | none => simp [Ddl.Cond.eval, hv]
  | some v =>
      have htest : Predicate.test (.oneOf texts) v = true := by
        simpa [Ddl.Cond.eval, hv] using h
      obtain ⟨s, hs, rfl⟩ := test_oneOf.mp htest
      have htest' : Predicate.test (.oneOf texts') (text s) = true :=
        test_oneOf.mpr ⟨s, hsub hs, rfl⟩
      simp [Ddl.Cond.eval, hv, htest']

theorem fundingAndQueries_runs (h : At (semantics now) (init ++ consumerReliability) db) :
    Runs (semantics now) fundingAndQueries db fun db' => At (semantics now) funded db' := by
  have hmerchant := ne_none_of_notNull h (n := .transactions) (c := .merchantID)
    ⟨_, rfl, by decide⟩
  apply (h.addColumn (n := .transactions) rfl (by decide) (by decide) (by simp)).runs
  intro db₁ h₁ hrows₁
  apply (h₁.addColumn (n := .transactions) rfl (by decide) (by decide) (by simp)).runs
  intro db₂ h₂ hrows₂
  apply (h₂.addColumn (n := .transactions) rfl (by decide) (by decide) (by simp)).runs
  intro db₃ h₃ hrows₃
  have hpayments : ∀ r ∈ db₃.rows .transactions, IsPayment r := by
    rw [hrows₃, hrows₂, hrows₁]
    simp only [Function.update_self, List.map_map, List.forall_mem_map]
    intro r hr
    exact ⟨by simp, by simpa using hmerchant r hr, by simp, by simp⟩
  apply (h₃.constrain rfl (.dropNotNull .transactions .merchantID) rfl trivial).runs
  intro db₄ h₄ hrows₄
  rw [← hrows₄] at hpayments
  apply (h₄.constrain rfl (.addCheck .transactions _ _ false) rfl
    fun r hr => (hpayments r hr).kind_check).runs
  intro db₅ h₅ hrows₅
  rw [← hrows₅] at hpayments
  apply (h₅.constrain rfl (.addCheck .transactions _ _ false) rfl
    fun r hr => (hpayments r hr).kind_fields_check).runs
  intro db₆ h₆ hrows₆
  rw [← hrows₆] at hpayments
  apply (h₆.constrain rfl (.addCheck .transactions _ _ true) rfl trivial).runs
  intro db₇ h₇ hrows₇
  rw [← hrows₇] at hpayments
  have hunique : ∀ u : Ddl.Unique Column Predicate,
      u.only = some (.test (.oneOf ["DEPOSIT"]) .kind) →
        ((db₇.rows .transactions).filterMap (u.key Predicate.test)).Nodup := by
    intro u hu
    rw [List.filterMap_eq_nil_iff.mpr fun r hr => (hpayments r hr).key_eq_none hu]
    exact List.nodup_nil
  apply (h₇.constrain rfl (.createUnique .transactions _) rfl (hunique _ rfl)).runs
  intro db₈ h₈ hrows₈
  apply (h₈.createTable depositIdempotencyKeys).runs
  intro db₉ h₉ hrows₉
  apply (h₉.createTable operatorActions).runs
  intro db₁₀ h₁₀ hrows₁₀
  have htypes : ∀ r ∈ db₁₀.rows .outboxEvents, Ddl.Cond.eval Predicate.test r
      (.test (.oneOf ["TransactionCreated", "RiskEvaluated", "TransactionAuthorized",
        "TransactionFailed"]) .eventType) ≠ some false := fun r hr =>
    ((h₁₀.admits .outboxEvents _ rfl).row r hr).checks _ List.mem_cons_self
  apply (h₁₀.constrain rfl (.replaceCheck .outboxEvents _ _) rfl
    fun r hr => oneOf_check_mono (by decide) (htypes r hr)).runs
  intro db₁₁ h₁₁ _
  exact ⟨db₁₁, rfl, h₁₁⟩

/-! ## Scripts that find their work done -/

theorem onePending_key {r : Row} (hpending : isPending r) (hd : r .deadLetterID ≠ none) :
    onePending.key Predicate.test r = some [r .deadLetterID] := by
  have hresult : r .result = some (text "PENDING") := of_decide_eq_true hpending
  have htest : Predicate.test (.oneOf ["PENDING"]) (text "PENDING") = true := by decide +kernel
  apply Ddl.Unique.key_eq
  · simp [Ddl.Unique.covers, onePending, Ddl.Cond.eval, hresult, htest]
  · simpa [onePending] using hd

/-- The table of attempts with its unique index. -/
def uniqueAttempts : TableSchema :=
  { deadLetterReplayAttempts with uniques := deadLetterReplayAttempts.uniques ++ [onePending] }

/-- The unique index leaves nothing to clean up. -/
theorem supersede_settled {attempts : List Row} (h : uniqueAttempts.Admits Predicate.test attempts) :
    ∀ r ∈ attempts, supersede now attempts r = r := by
  classical
  have hattempts : deadLetterReplayAttempts.Admits Predicate.test attempts :=
    h.alter _ (fun _ => .inl) (fun _ => .inl) fun _ hu => .inl (List.mem_append_left _ hu)
  have hkey : ∀ r ∈ attempts, isPending r →
      onePending.key Predicate.test r = some [r .deadLetterID] := fun r hr hpending =>
    onePending_key hpending ((h.row r hr).notNull .deadLetterID (by decide))
  intro r hr
  rw [supersede_eq hattempts hr]
  apply if_neg
  rintro ⟨hpending, hlater⟩
  apply hlater
  intro q hq hpending' hd
  have hsame : q = r := h.eq_of_key _ (List.mem_append_right _ (List.mem_singleton.mpr rfl)) hq hr
    (hkey q hq hpending') (hd ▸ hkey r hr hpending)
  rw [hsame]

def hasNotNull (S : Tab → Option TableSchema) (n : Tab) (c : Column) : Bool :=
  (S n).any fun t => c ∈ t.notNull

/-- A schema under which an update finds nothing to do. -/
def idle (S : Tab → Option TableSchema) : Stmt → Bool
  | .update n .partitionKeyOfTransaction | .update n .partitionKeyOfAggregate =>
      hasNotNull S n .partitionKey
  | .update n .lastSeen => hasNotNull S n .lastSeenAt
  | .update n .supersede => n = .deadLetterReplayAttempts && S n = some uniqueAttempts
  | _ => true

theorem apply_idle {stage : List Stmt} (h : At (semantics now) stage db) {n : Tab} {u : Update}
    (hidle : idle (Ddl.catalog stage) (.update n u) = true) :
    ∀ r ∈ db.rows n, (semantics now).apply u db.rows r = r := by
  have hnotNull : ∀ c, hasNotNull (Ddl.catalog stage) n c = true → ∀ r ∈ db.rows n, r c ≠ none := by
    intro c hc
    obtain ⟨t, ht, hmem⟩ := (Option.any_eq_true _ _).mp hc
    exact ne_none_of_notNull h ⟨t, ht, of_decide_eq_true hmem⟩
  intro r hr
  cases u with
  | partitionKeyOfTransaction | partitionKeyOfAggregate => exact if_neg (hnotNull _ hidle r hr)
  | lastSeen => exact if_neg (hnotNull _ hidle r hr)
  | supersede =>
      obtain ⟨hn, hunique⟩ := Bool.and_eq_true_iff.mp hidle
      obtain rfl := of_decide_eq_true hn
      exact supersede_settled (h.admits _ _ (of_decide_eq_true hunique)) r hr

/-- A part of the migrations that a later schema was made by. -/
theorem settled_run {stage part : List Stmt} (h : At (semantics now) stage db)
    (hpart : ∀ s ∈ part, s.Settled (Ddl.catalog stage) ∧ idle (Ddl.catalog stage) s = true) :
    Ddl.run (semantics now) part db = .ok db := by
  apply Ddl.run_settled
  intro s hs
  apply h.exec_settled (hpart s hs).1
  rintro n u rfl
  exact apply_idle h (hpart _ hs).2

/-! ## All four -/

/-- The schemas the migrations may be applied to: where each of them ends, and where 002 and
004 have added what they then fill in and clean up. -/
def stages : List (List Stmt) :=
  [[], init, init ++ [addPartitionKey], init ++ consumerReliability, funded,
    funded ++ replayTables, migrations]

theorem init_runs (h : At (semantics now) [] db) :
    Runs (semantics now) init db fun db' => At (semantics now) init db' := by
  apply (h.createTable transactions).runs
  intro db₁ h₁ _
  apply (h₁.createTable idempotencyKeys).runs
  intro db₂ h₂ _
  apply (h₂.createTable outboxEvents).runs
  intro db₃ h₃ _
  apply (h₃.createTable ledgerEntries).runs
  intro db₄ h₄ _
  exact ⟨db₄, rfl, h₄⟩

theorem dlqReplayRetention_runs
    (h : At (semantics now) funded db ∨ At (semantics now) (funded ++ replayTables) db) :
    Runs (semantics now) dlqReplayRetention db fun db' =>
      At (semantics now) migrations db' ∧ Superseded now db db' := by
  have htables : Runs (semantics now) replayTables db fun db' =>
      At (semantics now) (funded ++ replayTables) db' ∧
        ∀ n, n ≠ .processedEvents → db'.rows n = db.rows n := by
    rcases h with h | h
    · exact replayTables_runs h
    · exact ⟨db, settled_run h (by decide +kernel), h, fun _ _ => rfl⟩
  apply htables.append
  rintro db₁ ⟨h₁, hrows⟩
  obtain ⟨db₂, hrun, h₂, hsuperseded⟩ := supersede_runs h₁
  have hattempts := hrows .deadLetterReplayAttempts (by decide)
  refine ⟨db₂, hrun, h₂, ?_, ?_, ?_, hsuperseded.atMostOne⟩
  · intro n hn hprocessed
    rw [hsuperseded.others n hn hprocessed, hrows n hprocessed]
  · rw [← hattempts]
    exact hsuperseded.attempts
  · rw [← hattempts]
    exact hsuperseded.first

theorem migrations_settled (h : At (semantics now) migrations db) :
    Ddl.run (semantics now) migrations db = .ok db :=
  settled_run h (by decide +kernel)

/-- A part of the migrations leads past its stages; from there on it has nothing to do. -/
theorem runs_stages {stage : List Stmt} (part : List Stmt) (before after : List (List Stmt))
    (hstage : stage ∈ before ++ after) (h : At (semantics now) stage db)
    (hadvance : stage ∈ before → Runs (semantics now) part db fun db' =>
      ∃ stage' ∈ after, At (semantics now) stage' db')
    (hsettled : ∀ stage ∈ after, ∀ s ∈ part,
      s.Settled (Ddl.catalog stage) ∧ idle (Ddl.catalog stage) s = true) :
    Runs (semantics now) part db fun db' => ∃ stage' ∈ after, At (semantics now) stage' db' := by
  rcases List.mem_append.mp hstage with hbefore | hafter
  · exact hadvance hbefore
  · exact ⟨db, settled_run h (hsettled stage hafter), stage, hafter, h⟩

/-- The migrations succeed on any contents of any of the schemas. -/
theorem migrations_runs {stage : List Stmt} (hstage : stage ∈ stages)
    (h : At (semantics now) stage db) :
    Runs (semantics now) migrations db fun db' => At (semantics now) migrations db' := by
  have hinit := runs_stages init (stages.take 1) (stages.drop 1) hstage h (by
    intro hmem
    obtain rfl := List.mem_singleton.mp hmem
    obtain ⟨db', hrun, h'⟩ := init_runs h
    exact ⟨db', hrun, init, List.mem_cons_self, h'⟩) (by decide +kernel)
  have hconsumer : Runs (semantics now) (init ++ consumerReliability) db fun db' =>
      ∃ stage' ∈ stages.drop 3, At (semantics now) stage' db' := by
    apply hinit.append
    rintro db₁ ⟨stage₁, hstage₁, h₁⟩
    apply runs_stages consumerReliability ((stages.drop 1).take 2) (stages.drop 3) hstage₁ h₁ _
      (by decide +kernel)
    intro hmem
    have hstage₁ : stage₁ = init ∨ stage₁ = init ++ [addPartitionKey] := by
      simpa [stages] using hmem
    obtain ⟨db', hrun, h', -⟩ := consumerReliability_runs hstage₁ h₁
    exact ⟨db', hrun, _, List.mem_cons_self, h'⟩
  have hfunding : Runs (semantics now) funded db fun db' =>
      ∃ stage' ∈ stages.drop 4, At (semantics now) stage' db' := by
    apply hconsumer.append
    rintro db₁ ⟨stage₁, hstage₁, h₁⟩
    apply runs_stages fundingAndQueries ((stages.drop 3).take 1) (stages.drop 4) hstage₁ h₁ _
      (by decide +kernel)
    intro hmem
    obtain rfl := List.mem_singleton.mp hmem
    obtain ⟨db', hrun, h'⟩ := fundingAndQueries_runs h₁
    exact ⟨db', hrun, _, List.mem_cons_self, h'⟩
  apply hfunding.append
  rintro db₁ ⟨stage₁, hstage₁, h₁⟩
  have hreplay := runs_stages dlqReplayRetention ((stages.drop 4).take 2) [migrations] hstage₁ h₁ (by
    intro hmem
    have hbefore : At (semantics now) funded db₁ ∨ At (semantics now) (funded ++ replayTables) db₁ := by
      have hstage₁ : stage₁ = funded ∨ stage₁ = funded ++ replayTables := by
        simpa [stages] using hmem
      rcases hstage₁ with rfl | rfl
      · exact .inl h₁
      · exact .inr h₁
    obtain ⟨db', hrun, h', -⟩ := dlqReplayRetention_runs hbefore
    exact ⟨db', hrun, _, List.mem_cons_self, h'⟩) (by decide +kernel)
  obtain ⟨db', hrun, stage', hstage', h'⟩ := hreplay
  exact ⟨db', hrun, List.mem_singleton.mp hstage' ▸ h'⟩

/-- Which rows a schema allows does not depend on the time. -/
theorem at_any_time (h : At (semantics now) script db) (now' : Int) :
    At (semantics now') script db :=
  ⟨h.schema, h.empty, h.admits⟩

/-- The data migrations are right on any contents of the tables, and idempotent. -/
theorem data_migrated {now : Int} {before002 before004 before after : Db}
    (h002 : At (semantics now) init before002 ∨
      At (semantics now) (init ++ [addPartitionKey]) before002)
    (h004 : At (semantics now) funded before004 ∨
      At (semantics now) (funded ++ replayTables) before004)
    (hbefore : ∃ stage ∈ stages, At (semantics now) stage before)
    (hafter : At (semantics now) migrations after) :
    (∃ db', Ddl.run (semantics now) consumerReliability before002 = .ok db' ∧
      Backfilled before002 db') ∧
    (∃ db', Ddl.run (semantics now) dlqReplayRetention before004 = .ok db' ∧
      Superseded now before004 db') ∧
    (∃ db', Ddl.run (semantics now) migrations before = .ok db' ∧
      ∀ now', Ddl.run (semantics now') migrations db' = .ok db') ∧
    ∀ now', Ddl.run (semantics now') migrations after = .ok after := by
  refine ⟨?_, ?_, ?_, fun now' => migrations_settled (at_any_time hafter now')⟩
  · obtain ⟨db', hrun, -, hbackfilled⟩ :
        Runs (semantics now) consumerReliability before002 fun db' =>
          At (semantics now) (init ++ consumerReliability) db' ∧ Backfilled before002 db' := by
      rcases h002 with h | h
      · exact consumerReliability_runs (.inl rfl) h
      · exact consumerReliability_runs (.inr rfl) h
    exact ⟨db', hrun, hbackfilled⟩
  · obtain ⟨db', hrun, -, hsuperseded⟩ := dlqReplayRetention_runs h004
    exact ⟨db', hrun, hsuperseded⟩
  · obtain ⟨stage, hstage, h⟩ := hbefore
    obtain ⟨db', hrun, h'⟩ := migrations_runs hstage h
    exact ⟨db', hrun, fun now' => migrations_settled (at_any_time h' now')⟩

/-- Rows of one table, the others are empty. -/
theorem at_of_rows {n : Tab} {rows : List Row} {t : TableSchema}
    (ht : Ddl.catalog script n = some t) (hrows : t.Admits Predicate.test rows) :
    At (semantics now) script ⟨Ddl.catalog script, Function.update (fun _ => []) n rows⟩ := by
  refine ⟨rfl, fun n' hn' => ?_, fun n' t' ht' => ?_⟩
  · have hne : n' ≠ n := by
      rintro rfl
      rw [ht] at hn'
      exact Option.some_ne_none t hn'
    simp only [Function.update_of_ne hne]
  · by_cases hn : n' = n
    · subst hn
      obtain rfl := Option.some.inj (ht.symm.trans ht')
      simp only [Function.update_self]
      exact hrows
    · simp only [Function.update_of_ne hn]
      exact t'.admits_nil Predicate.test

def row (cells : List (Column × Value)) : Row := fun c => (cells.find? (·.1 = c)).map Prod.snd

def pendingAttempt (id : String) (createdAt : Int) : Row :=
  row [(.id, text id), (.deadLetterID, text "d"), (.reason, text "again"),
    (.result, text "PENDING"), (.createdAt, number createdAt)]

def unkeyedEvent : Row :=
  row [(.id, text "e"), (.eventType, text "TransactionCreated"), (.aggregateID, text "gone"),
    (.correlationID, text "c"), (.payload, text "\x7b\x7d"), (.status, text "PENDING"),
    (.attempts, number 0), (.createdAt, number 1), (.updatedAt, number 1)]

theorem data_migrated_twoPending :
    ∃ db', Ddl.run (semantics 9) dlqReplayRetention
        ⟨Ddl.catalog (funded ++ replayTables), Function.update (fun _ => [])
          .deadLetterReplayAttempts [pendingAttempt "b" 5, pendingAttempt "a" 7]⟩ = .ok db' ∧
      ((db'.rows .deadLetterReplayAttempts).filter (pendingFor (some (text "d")))).length = 1 := by
  have h002 : At (semantics 9) (init ++ [addPartitionKey])
      ⟨Ddl.catalog (init ++ [addPartitionKey]),
        Function.update (fun _ => []) .outboxEvents [unkeyedEvent]⟩ :=
    at_of_rows rfl (by decide +kernel)
  have h004 : At (semantics 9) (funded ++ replayTables)
      ⟨Ddl.catalog (funded ++ replayTables), Function.update (fun _ => [])
        .deadLetterReplayAttempts [pendingAttempt "b" 5, pendingAttempt "a" 7]⟩ :=
    at_of_rows rfl (by decide +kernel)
  have hafter : At (semantics 9) migrations
      ⟨Ddl.catalog migrations, Function.update (fun _ => [])
        .deadLetterReplayAttempts [pendingAttempt "b" 5]⟩ :=
    at_of_rows rfl (by decide +kernel)
  obtain ⟨-, ⟨db', hrun, hsuperseded⟩, -, -⟩ :=
    data_migrated (.inr h002) (.inr h004) ⟨migrations, by simp [stages], hafter⟩ hafter
  obtain ⟨a, -, -, hsingle⟩ :=
    hsuperseded.first (pendingAttempt "b" 5) List.mem_cons_self (by decide +kernel)
  exact ⟨db', hrun, congrArg List.length hsingle⟩

end Migrations

end Clearance
