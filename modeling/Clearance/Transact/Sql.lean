/-
# `Transact.Sql` — statements over a schema

A statement is planned on what its session sees: the locks it waits for, and
either a fault or its reply, its writes and the locks it keeps (`Plan`).  The
plans of the usual statements are here:

    insert rows          INSERT ... VALUES, one row after the other, then the foreign keys
    insertOrSkip r       INSERT ... ON CONFLICT (primary key) DO NOTHING
    lockRow t k          SELECT ... FOR UPDATE by primary key
    updateRow t k g u    UPDATE ... WHERE key = k AND g, with the CHECKs of the new row
    read q               a plain SELECT
    latch n              an advisory lock
    write, writeUnder,   statements that write a list of rows they have computed
    skip

Each has an inversion lemma (`*_ok`), and a lemma saying which locks fix its
result (`*_fixed`).  A `Dialect` is a set of statements with plans; it is an
`Engine`, and locks mean for it what `Schema.agree` says (`Dialect.rely`).
-/
import Clearance.Transact.Schema

namespace Transact

/-- Why a statement fails. -/
inductive Fault (Sc : Schema) where
  | outage
  | notNull (column : String)
  | check (constraint : String)
  | unique (key : Sc.UniqueKey)
  | foreignKey
  | data (text : String)

variable {Sc : Schema} (L : Latches Sc)

/-- What a statement waits for, and what it comes to. -/
structure Plan (α : Type) where
  waits : List (Lock L)
  result : Except (Fault Sc) (Effect Sc.Write (Lock L) α)

variable {L}

open Schema

namespace Plan

variable {α : Type}

/-! ## Statements without writes -/

/-- A plain SELECT. -/
def read (a : Except (Fault Sc) α) : Plan L α :=
  ⟨[], a.map fun a => { reply := a }⟩

theorem read_ok {a : Except (Fault Sc) α} {r : Effect Sc.Write (Lock L) α} :
    (read a : Plan L α).result = .ok r ↔ ∃ v, a = .ok v ∧ r = { reply := v } := by
  cases a with
  | error e => simp [read, Except.map]
  | ok v => simp [read, Except.map, eq_comm]

/-- Takes an advisory lock. -/
def latch (n : L.Name) : Plan L Unit :=
  ⟨[.named n], .ok { reply := (), locks := [.named n] }⟩

/-- SELECT ... FOR UPDATE by primary key. -/
def lockRow (t : Sc.Tab) (k : Sc.Key t) (d : Sc.Db) : Plan L (Option (Sc.Row t)) :=
  match find? d t k with
  | none => ⟨[], .ok { reply := none }⟩
  | some r => ⟨[.unique (.row t k)], .ok { reply := some r, locks := [.unique (.row t k)] }⟩

theorem lockRow_ok {t : Sc.Tab} {k : Sc.Key t} {d : Sc.Db}
    {r : Effect Sc.Write (Lock L) (Option (Sc.Row t))} :
    (lockRow t k d).result = .ok r ↔
      r = { reply := find? d t k,
            locks := if (find? d t k).isSome then [.unique (.row t k)] else [] } := by
  unfold lockRow
  cases find? d t k with
  | none => simp [eq_comm]
  | some v => simp [eq_comm]

/-! ## Insertion -/

/-- Why a row cannot be inserted. -/
def violation {t : Sc.Tab} (d : Sc.Db) (r : Sc.Row t) : Option (Fault Sc) :=
  match Sc.check r with
  | some c => some (.check c)
  | none => ((keys r).find? (taken d)).map .unique

theorem violation_eq_none {t : Sc.Tab} {d : Sc.Db} {r : Sc.Row t} :
    violation d r = none ↔ Sc.check r = none ∧ ∀ k ∈ keys r, taken d k = false := by
  unfold violation
  cases Sc.check r with
  | some c => simp
  | none => simp

/-- The keys an insertion waits for: those before the first that is taken. -/
def insertWaits {t : Sc.Tab} (d : Sc.Db) (r : Sc.Row t) : List (Lock L) :=
  ((keys r).takeWhile fun k => !taken d k).map .unique

/-- A row with its table. -/
abbrev AnyRow (Sc : Schema) := (t : Sc.Tab) × Sc.Row t

/-- One row after the other; the foreign keys are left for the end. -/
def insertAll (d : Sc.Db) : List (AnyRow Sc) → List (Lock L) × Except (Fault Sc) Unit
  | [] => ([], .ok ())
  | ⟨t, r⟩ :: rs =>
      match violation d r with
      | some e => (insertWaits d r, .error e)
      | none =>
          let p := insertAll (apply d (.insert t r)) rs
          (insertWaits d r ++ p.1, p.2)

/-- The writes of an insertion. -/
def inserts (rs : List (AnyRow Sc)) : List Sc.Write := rs.map fun r => .insert r.1 r.2

/-- All rows referred to exist. -/
def refsExist (d : Sc.Db) (rs : List (AnyRow Sc)) : Bool :=
  rs.all fun r => (Sc.refs r.2).all fun k => (find? d k.1 k.2).isSome

/-- The rows can be inserted one after the other. -/
def Insertable (d : Sc.Db) : List (AnyRow Sc) → Prop
  | [] => True
  | ⟨t, r⟩ :: rs => Sc.check r = none ∧ (∀ k ∈ keys r, taken d k = false) ∧
      Insertable (apply d (.insert t r)) rs

theorem Insertable.check {d : Sc.Db} {rs : List (AnyRow Sc)} (h : Insertable d rs) :
    ∀ r ∈ rs, Sc.check r.2 = none := by
  induction rs generalizing d with
  | nil => exact fun r hr => absurd hr List.not_mem_nil
  | cons a rs ih =>
      obtain ⟨hc, _, hrs⟩ := h
      intro r hr
      rcases List.mem_cons.mp hr with rfl | hr
      · exact hc
      · exact ih hrs r hr

/-- Rows of one table are added at its end. -/
theorem Insertable.rows {t : Sc.Tab} {rs : List (Sc.Row t)} {d : Sc.Db}
    (h : Insertable d (rs.map fun r => ⟨t, r⟩)) :
    (Sc.get ((inserts (rs.map fun r => ⟨t, r⟩)).foldl apply d) t).rows =
      (Sc.get d t).rows ++ rs := by
  induction rs generalizing d with
  | nil => exact (List.append_nil _).symm
  | cons r rs ih =>
      obtain ⟨_, hk, hrs⟩ := h
      refine (ih hrs).trans ?_
      simp only [apply, Sc.get_set_self]
      rw [Table.rows_insert (find?_of_free hk), List.append_assoc, List.singleton_append]

theorem insertAll_ok {d : Sc.Db} {rs : List (AnyRow Sc)} {u : Unit} :
    (insertAll (L := L) d rs).2 = .ok u ↔ Insertable d rs := by
  induction rs generalizing d with
  | nil => simp [insertAll, Insertable]
  | cons a rs ih =>
      obtain ⟨t, r⟩ := a
      rw [insertAll, Insertable, ← and_assoc, ← violation_eq_none]
      cases violation d r with
      | some e => simp
      | none => simpa using ih

/-- The locks of a list of writes. -/
def locksOf (ws : List Sc.Write) : List (Lock L) := ws.flatMap fun x => x.uniques L

/-- INSERT ... VALUES. -/
def insert (rs : List (AnyRow Sc)) (d : Sc.Db) : Plan L Unit :=
  { waits := (insertAll (L := L) d rs).1
    result :=
      match (insertAll (L := L) d rs).2 with
      | .error e => .error e
      | .ok _ =>
          if refsExist ((inserts rs).foldl apply d) rs then
            .ok { reply := (), writes := inserts rs, locks := locksOf (inserts rs) }
          else .error .foreignKey }

theorem insert_ok {rs : List (AnyRow Sc)} {d : Sc.Db} {r : Effect Sc.Write (Lock L) Unit} :
    (insert rs d).result = .ok r ↔ Insertable d rs ∧
      refsExist ((inserts rs).foldl apply d) rs = true ∧
      r = { reply := (), writes := inserts rs, locks := locksOf (inserts rs) } := by
  unfold insert
  have hiff : (insertAll (L := L) d rs).2 = .ok () ↔ Insertable d rs := insertAll_ok
  cases hp : (insertAll (L := L) d rs).2 with
  | error e =>
      rw [hp] at hiff
      simp only [reduceCtorEq, false_iff] at hiff ⊢
      exact fun h => hiff h.1
  | ok u =>
      rw [hp] at hiff
      have hins : Insertable d rs := hiff.mp rfl
      by_cases href : refsExist ((inserts rs).foldl apply d) rs = true
      · simp [hins, href, eq_comm]
      · simp [href]

/-- A key that is taken keeps a row out. -/
theorem insert_taken {t : Sc.Tab} {d : Sc.Db} {r : Sc.Row t} {u : Sc.UniqueKey}
    (hc : Sc.check r = none) (hu : (keys r).find? (taken d) = some u) :
    (insert [⟨t, r⟩] d : Plan L Unit).result = .error (.unique u) := by
  simp [insert, insertAll, violation, hc, hu]

/-- A row is kept out by its CHECKs, by a key that is taken, or by a row it refers to. -/
theorem insert_error {t : Sc.Tab} {d : Sc.Db} {r : Sc.Row t} {x : Fault Sc}
    (h : (insert [⟨t, r⟩] d : Plan L Unit).result = .error x) :
    (∃ c, x = .check c ∧ Sc.check r = some c) ∨
      (∃ u ∈ keys r, x = .unique u ∧ taken d u = true) ∨ x = .foreignKey := by
  cases hc : Sc.check r with
  | some c =>
      simp only [insert, insertAll, violation, hc, Except.error.injEq] at h
      exact Or.inl ⟨c, h.symm, rfl⟩
  | none =>
      cases hk : (keys r).find? (taken d) with
      | some u =>
          rw [insert_taken hc hk] at h
          exact Or.inr (Or.inl ⟨u, List.mem_of_find?_eq_some hk, (Except.error.inj h).symm,
            List.find?_some hk⟩)
      | none =>
          simp only [insert, insertAll, violation, hc, hk, Option.map_none] at h
          split at h
          · cases h
          · exact Or.inr (Or.inr (Except.error.inj h).symm)

/-- INSERT ... ON CONFLICT (primary key) DO NOTHING; whether the row went in. -/
def insertOrSkip {t : Sc.Tab} (r : Sc.Row t) (d : Sc.Db) : Plan L Bool :=
  match Sc.check r with
  | some c => ⟨[], .error (.check c)⟩
  | none =>
      match find? d t (Sc.key t r) with
      | some _ => ⟨[.unique (.row t (Sc.key t r))], .ok { reply := false }⟩
      | none =>
          match (keys r).find? (taken d) with
          | some k => ⟨[.unique (.row t (Sc.key t r))], .error (.unique k)⟩
          | none =>
              ⟨(keys r).map .unique,
                .ok { reply := true, writes := [.insert t r], locks := (keys r).map .unique }⟩

theorem insertOrSkip_ok {t : Sc.Tab} {r : Sc.Row t} {d : Sc.Db}
    {e : Effect Sc.Write (Lock L) Bool} :
    (insertOrSkip r d).result = .ok e ↔ Sc.check r = none ∧
      ((find? d t (Sc.key t r) ≠ none ∧ e = { reply := false }) ∨
        ((∀ k ∈ keys r, taken d k = false) ∧
          e = { reply := true, writes := [.insert t r], locks := (keys r).map .unique })) := by
  have hhead : find? d t (Sc.key t r) ≠ none → ¬ ∀ k ∈ keys r, taken d k = false := by
    intro hf hall
    exact hf (find?_of_free hall)
  unfold insertOrSkip
  cases Sc.check r with
  | some c => simp
  | none =>
      cases hf : find? d t (Sc.key t r) with
      | some v =>
          have := hhead (by rw [hf]; exact Option.some_ne_none v)
          simp only [Except.ok.injEq, ne_eq, reduceCtorEq, not_false_eq_true, true_and, this,
            false_and, or_false]
          exact eq_comm
      | none =>
          cases hk : (keys r).find? (taken d) with
          | some k =>
              have hmem := List.mem_of_find?_eq_some hk
              have htk := List.find?_some hk
              simp only [reduceCtorEq, ne_eq, not_true_eq_false, false_and, false_or, true_and,
                false_iff, not_and]
              intro hall
              rw [hall k hmem] at htk
              cases htk
          | none =>
              have hall : ∀ k ∈ keys r, taken d k = false := by simpa using hk
              simp only [Except.ok.injEq, ne_eq, not_true_eq_false, false_and, false_or, true_and]
              exact ⟨fun h => ⟨hall, h.symm⟩, fun h => h.2.symm⟩

/-! ## Updates -/

/-- UPDATE ... WHERE key = k AND g; the new row, if there was one to update. -/
def updateRow (t : Sc.Tab) (k : Sc.Key t) (g : Sc.Row t → Bool) (u : Sc.Upd t) (d : Sc.Db) :
    Plan L (Option (Sc.Row t)) :=
  match (find? d t k).filter g with
  | none => ⟨[], .ok { reply := none }⟩
  | some r =>
      ⟨[.unique (.row t k)],
        match Sc.check (Sc.upd u r) with
        | some c => .error (.check c)
        | none =>
            .ok { reply := some (Sc.upd u r)
                  writes := [.update t k u]
                  locks := [.unique (.row t k)] }⟩

theorem updateRow_ok {t : Sc.Tab} {k : Sc.Key t} {g : Sc.Row t → Bool} {u : Sc.Upd t} {d : Sc.Db}
    {e : Effect Sc.Write (Lock L) (Option (Sc.Row t))} :
    (updateRow t k g u d).result = .ok e ↔
      ((find? d t k).filter g = none ∧ e = { reply := none }) ∨
      ∃ r, find? d t k = some r ∧ g r = true ∧ Sc.check (Sc.upd u r) = none ∧
        e = { reply := some (Sc.upd u r)
              writes := [.update t k u]
              locks := [.unique (.row t k)] } := by
  unfold updateRow
  cases hf : (find? d t k).filter g with
  | none =>
      have hno : ∀ r, find? d t k = some r → ¬ g r = true := by
        intro r hr hg
        rw [hr, Option.filter_some, if_pos hg] at hf
        cases hf
      simp only [Except.ok.injEq, true_and]
      constructor
      · exact fun h => Or.inl h.symm
      · rintro (h | ⟨r, hr, hg, _⟩)
        · exact h.symm
        · exact absurd hg (hno r hr)
  | some r =>
      obtain ⟨hr, hg⟩ := Option.filter_eq_some_iff.mp hf
      cases hc : Sc.check (Sc.upd u r) with
      | some c => simp [hr, hc]
      | none =>
          simp only [hc]
          constructor
          · intro h
            cases h
            exact Or.inr ⟨r, hr, hg, hc, rfl⟩
          · rintro (⟨h, _⟩ | ⟨r', hr', _, _, rfl⟩)
            · cases h
            · rw [hr] at hr'
              cases hr'
              rfl

/-- A statement that writes rows it has computed, waiting for their locks. -/
def write (a : α) (ws : List Sc.Write) : Plan L α :=
  ⟨locksOf ws, .ok { reply := a, writes := ws, locks := locksOf ws }⟩

/-- The same under an advisory lock. -/
def writeUnder (n : L.Name) (a : α) (ws : List Sc.Write) : Plan L α :=
  ⟨.named n :: locksOf ws,
    .ok { reply := a, writes := ws, locks := .named n :: locksOf ws }⟩

/-- The same, having skipped the rows that are locked. -/
def skip (a : α) (ws : List Sc.Write) : Plan L α :=
  ⟨[], .ok { reply := a, writes := ws, locks := locksOf ws }⟩

end Plan

/-! ## What fixes the result of a statement -/

/-- The databases do not differ in what the locks protect. -/
def AgreeOn (l : List (Lock L)) (d d' : Sc.Db) : Prop := ∀ k ∈ l, agree k d d'

theorem AgreeOn.mono {l l' : List (Lock L)} {d d' : Sc.Db} (hl : l ⊆ l') (h : AgreeOn l' d d') :
    AgreeOn l d d' :=
  fun k hk => h k (hl hk)

theorem AgreeOn.find? {l : List (Lock L)} {d d' : Sc.Db} (h : AgreeOn l d d') {t : Sc.Tab}
    {k : Sc.Key t} (hk : .unique (.row t k) ∈ l) : find? d t k = find? d' t k :=
  h _ hk

theorem AgreeOn.taken {l : List (Lock L)} {d d' : Sc.Db} (h : AgreeOn l d d')
    {u : Sc.UniqueKey} (hu : .unique u ∈ l) : taken d u = taken d' u :=
  (h _ hu).taken

theorem AgreeOn.apply {l : List (Lock L)} {d d' : Sc.Db} (h : AgreeOn l d d') {x : Sc.Write}
    (hx : x.uniques L ⊆ l) : AgreeOn l (apply d x) (apply d' x) :=
  fun k hk => Schema.congr (h k hk) fun u hu => h u (hx hu)

theorem AgreeOn.foldl {l : List (Lock L)} {w : List Sc.Write} :
    ∀ {d d' : Sc.Db}, AgreeOn l d d' → (∀ x ∈ w, x.uniques L ⊆ l) →
      AgreeOn l (w.foldl Schema.apply d) (w.foldl Schema.apply d') := by
  induction w with
  | nil => exact fun h _ => h
  | cons x w ih =>
      intro d d' h hw
      exact ih (h.apply (hw x List.mem_cons_self)) fun y hy => hw y (List.mem_cons_of_mem x hy)

namespace Plan

variable {l : List (Lock L)} {d d' : Sc.Db}

theorem uniques_subset_locksOf {ws : List Sc.Write} {x : Sc.Write} (hx : x ∈ ws) :
    x.uniques L ⊆ locksOf ws :=
  fun _ hk => List.mem_flatMap.mpr ⟨x, hx, hk⟩

theorem Insertable.fixed {rs : List (AnyRow Sc)} (h : AgreeOn l d d')
    (hl : locksOf (inserts rs) ⊆ l) (hi : Insertable d rs) : Insertable d' rs := by
  induction rs generalizing d d' with
  | nil => trivial
  | cons a rs ih =>
      obtain ⟨t, r⟩ := a
      obtain ⟨hc, hk, hrs⟩ := hi
      have hx : (Schema.Write.insert t r).uniques L ⊆ l :=
        fun k hk => hl (List.mem_append_left _ hk)
      refine ⟨hc, fun k hk' => ?_, ih (h.apply hx) (fun k hk => ?_) hrs⟩
      · rw [← h.taken (hx (List.mem_map_of_mem hk')), hk k hk']
      · exact hl (List.mem_append_right _ hk)

theorem refsExist_fixed {rs : List (AnyRow Sc)} (h : AgreeOn l d d')
    (hl : ∀ r ∈ rs, ∀ k ∈ Sc.refs r.2, .unique (.row k.1 k.2) ∈ l) :
    refsExist d rs = refsExist d' rs := by
  unfold refsExist
  rw [Bool.eq_iff_iff]
  simp only [List.all_eq_true]
  constructor
  · intro hd r hr k hk
    rw [← h.find? (hl r hr k hk)]
    exact hd r hr k hk
  · intro hd r hr k hk
    rw [h.find? (hl r hr k hk)]
    exact hd r hr k hk

/-- An insertion is fixed by the locks on its keys and on the rows it refers to. -/
theorem insert_fixed {rs : List (AnyRow Sc)} {r : Effect Sc.Write (Lock L) Unit}
    (hr : (insert rs d).result = .ok r) (h : AgreeOn l d d') (hl : r.locks ⊆ l)
    (href : ∀ r ∈ rs, ∀ k ∈ Sc.refs r.2, .unique (.row k.1 k.2) ∈ l) :
    (insert rs d').result = .ok r := by
  obtain ⟨hi, hx, rfl⟩ := insert_ok.mp hr
  refine insert_ok.mpr ⟨hi.fixed h hl, ?_, rfl⟩
  have hw : AgreeOn l ((inserts rs).foldl Schema.apply d) ((inserts rs).foldl Schema.apply d') :=
    h.foldl fun x hx => List.Subset.trans (uniques_subset_locksOf hx) hl
  rw [← refsExist_fixed hw href]
  exact hx

theorem insertOrSkip_fixed {t : Sc.Tab} {r : Sc.Row t} {e : Effect Sc.Write (Lock L) Bool}
    (hr : (insertOrSkip r d).result = .ok e) (h : AgreeOn l d d') (hl : e.locks ⊆ l)
    (hnew : e.reply = true) : (insertOrSkip r d').result = .ok e := by
  obtain ⟨hc, ⟨_, rfl⟩ | ⟨hk, rfl⟩⟩ := insertOrSkip_ok.mp hr
  · cases hnew
  · refine insertOrSkip_ok.mpr ⟨hc, Or.inr ⟨fun k hk' => ?_, rfl⟩⟩
    rw [← h.taken (hl (List.mem_map_of_mem hk')), hk k hk']

theorem lockRow_fixed {t : Sc.Tab} {k : Sc.Key t}
    {e : Effect Sc.Write (Lock L) (Option (Sc.Row t))} (hr : (lockRow t k d).result = .ok e)
    (h : AgreeOn l d d') (hl : e.locks ⊆ l) (hsome : e.reply.isSome = true) :
    (lockRow t k d').result = .ok e := by
  cases lockRow_ok.mp hr
  rw [if_pos hsome] at hl
  have heq : Schema.find? d t k = Schema.find? d' t k := h.find? (hl (List.mem_singleton_self _))
  rw [lockRow_ok, heq]

theorem updateRow_fixed {t : Sc.Tab} {k : Sc.Key t} {g : Sc.Row t → Bool} {u : Sc.Upd t}
    {e : Effect Sc.Write (Lock L) (Option (Sc.Row t))}
    (hr : (updateRow t k g u d).result = .ok e) (h : AgreeOn l d d') (hl : e.locks ⊆ l)
    (hsome : e.reply.isSome = true) : (updateRow t k g u d').result = .ok e := by
  obtain ⟨_, rfl⟩ | ⟨r, hf, hg, hc, rfl⟩ := updateRow_ok.mp hr
  · cases hsome
  · have heq : Schema.find? d t k = Schema.find? d' t k := h.find? (hl (List.mem_singleton_self _))
    exact updateRow_ok.mpr (Or.inr ⟨r, heq ▸ hf, hg, hc, rfl⟩)

end Plan

end Transact
