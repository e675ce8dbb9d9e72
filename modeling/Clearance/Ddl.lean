/-
# `Clearance.Ddl` — schemas that change under the rows they hold

A database has a catalog, which says which tables exist and what each asks of its rows, and
the rows.  A statement of a migration changes the catalog entry of one table, or the rows of
that table, or both; it fails when the rows then do not meet the entry.  `create … if not
exists` and its kin leave an entry alone that has what they would add.

The catalog after a script does not depend on the rows (`catalog`), and a statement which
finds its work done changes nothing (`exec_settled`).
-/
import Mathlib.Data.List.Pairwise
import Mathlib.Data.List.Nodup
import Mathlib.Logic.Function.Basic

namespace Ddl

/-- A row gives each column a value or NULL. -/
abbrev Row (C V : Type) := C → Option V

/-! ## Conditions -/

/-- A condition on a row, where `P` names predicates of values. -/
inductive Cond (C P : Type) where
  | isNull (c : C)
  | test (p : P) (c : C)
  | not (a : Cond C P)
  | and (a b : Cond C P)
  | or (a b : Cond C P)
  deriving DecidableEq

section

variable {C V P : Type} (test : P → V → Bool)

/-- Three-valued: `none` is the unknown a NULL leads to. -/
def Cond.eval (r : Row C V) : Cond C P → Option Bool
  | .isNull c => some (r c).isNone
  | .test p c => (r c).map (test p)
  | .not a => (a.eval r).map (!·)
  | .and a b =>
      match a.eval r, b.eval r with
      | some false, _ | _, some false => some false
      | some true, some true => some true
      | _, _ => none
  | .or a b =>
      match a.eval r, b.eval r with
      | some true, _ | _, some true => some true
      | some false, some false => some false
      | _, _ => none

def Cond.columns : Cond C P → List C
  | .isNull c | .test _ c => [c]
  | .not a => a.columns
  | .and a b | .or a b => a.columns ++ b.columns

theorem Cond.eval_congr {r r' : Row C V} {k : Cond C P} (h : ∀ c ∈ k.columns, r' c = r c) :
    k.eval test r' = k.eval test r := by
  induction k with
  | isNull c => simp only [eval, h c (by simp [columns])]
  | test p c => simp only [eval, h c (by simp [columns])]
  | not a iha => simp only [eval, iha h]
  | and a b iha ihb | or a b iha ihb =>
      have ha := iha fun c hc => h c (List.mem_append_left _ hc)
      have hb := ihb fun c hc => h c (List.mem_append_right _ hc)
      simp only [eval, ha, hb]

end

/-! ## Tables -/

/-- A unique index, a partial one if it ranges `only` over some rows. -/
structure Unique (C P : Type) where
  name : String
  columns : List C
  only : Option (Cond C P) := none
  deriving DecidableEq

/-- The entry of the catalog for one table.  CHECKs added as NOT VALID say nothing about
the rows there are. -/
structure TableSchema (C P : Type) where
  columns : List C
  notNull : List C
  checks : List (String × Cond C P)
  notValid : List (String × Cond C P) := []
  uniques : List (Unique C P)
  deriving DecidableEq

section

variable {C V P : Type} (test : P → V → Bool)

def Unique.covers (u : Unique C P) (r : Row C V) : Bool :=
  match u.only with
  | none => true
  | some k => k.eval test r = some true

/-- What a row is indexed under; NULLs never collide. -/
def Unique.key (u : Unique C P) (r : Row C V) : Option (List (Option V)) :=
  if u.covers test r ∧ ∀ v ∈ u.columns.map r, v.isSome then some (u.columns.map r) else none

def Unique.reads (u : Unique C P) : List C := u.columns ++ (u.only.map Cond.columns).getD []

theorem Unique.key_congr {r r' : Row C V} {u : Unique C P} (h : ∀ c ∈ u.reads, r' c = r c) :
    u.key test r' = u.key test r := by
  have hcolumns : u.columns.map r' = u.columns.map r :=
    List.map_congr_left fun c hc => h c (List.mem_append_left _ hc)
  have hcovers : u.covers test r' = u.covers test r := by
    unfold covers
    cases honly : u.only with
    | none => rfl
    | some k =>
        have hk : k.eval test r' = k.eval test r := Cond.eval_congr test fun c hc =>
          h c (List.mem_append_right _ (by rw [honly]; exact hc))
        simp only [hk]
  simp only [key, hcolumns, hcovers]

theorem Unique.key_eq {u : Unique C P} {r : Row C V} (hcovers : u.covers test r)
    (hcolumns : ∀ c ∈ u.columns, r c ≠ none) : u.key test r = some (u.columns.map r) := by
  have hsome : ∀ v ∈ u.columns.map r, v.isSome := by
    intro v hv
    obtain ⟨c, hc, rfl⟩ := List.mem_map.mp hv
    exact Option.isSome_iff_ne_none.mpr (hcolumns c hc)
  exact if_pos ⟨hcovers, hsome⟩

/-- A CHECK is violated when it is false, not when it is unknown. -/
structure TableSchema.RowOk (t : TableSchema C P) (r : Row C V) : Prop where
  notNull : ∀ c ∈ t.notNull, r c ≠ none
  checks : ∀ k ∈ t.checks, k.2.eval test r ≠ some false

structure TableSchema.Admits (t : TableSchema C P) (rows : List (Row C V)) : Prop where
  row : ∀ r ∈ rows, t.RowOk test r
  unique : ∀ u ∈ t.uniques, (rows.filterMap (u.key test)).Nodup

theorem TableSchema.admits_nil (t : TableSchema C P) : t.Admits test ([] : List (Row C V)) :=
  ⟨fun _ h => absurd h List.not_mem_nil, fun _ _ => List.nodup_nil⟩

/-- Constraints may be dropped, and those may be added that the rows meet. -/
theorem TableSchema.Admits.alter {t t' : TableSchema C P} {rows : List (Row C V)}
    (h : t.Admits test rows) (hnull : ∀ c ∈ t'.notNull, c ∈ t.notNull ∨ ∀ r ∈ rows, r c ≠ none)
    (hchecks : ∀ k ∈ t'.checks, k ∈ t.checks ∨ ∀ r ∈ rows, k.2.eval test r ≠ some false)
    (huniques : ∀ u ∈ t'.uniques, u ∈ t.uniques ∨ (rows.filterMap (u.key test)).Nodup) :
    t'.Admits test rows := by
  refine ⟨fun r hr => ⟨fun c hc => ?_, fun k hk => ?_⟩, fun u hu => ?_⟩
  · rcases hnull c hc with hold | hnew
    · exact (h.row r hr).notNull c hold
    · exact hnew r hr
  · rcases hchecks k hk with hold | hnew
    · exact (h.row r hr).checks k hold
    · exact hnew r hr
  · rcases huniques u hu with hold | hnew
    · exact h.unique u hold
    · exact hnew

/-- Rows may change one by one, outside the unique indexes. -/
theorem TableSchema.Admits.map {t : TableSchema C P} {rows : List (Row C V)}
    (h : t.Admits test rows) {f : Row C V → Row C V} (hrow : ∀ r ∈ rows, t.RowOk test (f r))
    (hkey : ∀ u ∈ t.uniques, ∀ r ∈ rows, ∀ c ∈ u.reads, f r c = r c) :
    t.Admits test (rows.map f) where
  row := List.forall_mem_map.mpr hrow
  unique := by
    intro u hu
    have hsame : (rows.map f).filterMap (u.key test) = rows.filterMap (u.key test) := by
      rw [List.filterMap_map]
      exact List.filterMap_congr fun r hr => Unique.key_congr test (hkey u hu r hr)
    rw [hsame]
    exact h.unique u hu

/-- A unique index tells rows apart. -/
theorem TableSchema.Admits.eq_of_key {t : TableSchema C P} {rows : List (Row C V)}
    (h : t.Admits test rows) {u : Unique C P} (hu : u ∈ t.uniques) {r r' : Row C V}
    (hr : r ∈ rows) (hr' : r' ∈ rows) {k : List (Option V)} (hk : u.key test r = some k)
    (hk' : u.key test r' = some k) : r = r' := by
  by_contra hne
  have hpairs := List.pairwise_filterMap.mp (h.unique u hu)
  have hsymm : Std.Symm fun r r' : Row C V =>
      ∀ k, u.key test r = some k → ∀ k', u.key test r' = some k' → k ≠ k' :=
    ⟨fun r r' hrr' k hk k' hk' => (hrr' k' hk' k hk).symm⟩
  exact hpairs.forall hr hr' hne k hk k hk' rfl

/-- A primary key. -/
theorem TableSchema.Admits.pairwise {t : TableSchema C P} {rows : List (Row C V)}
    (h : t.Admits test rows) {u : Unique C P} (hu : u ∈ t.uniques) (honly : u.only = none)
    (hcolumns : u.columns ⊆ t.notNull) :
    rows.Pairwise fun r r' => u.columns.map r ≠ u.columns.map r' := by
  have hkey : ∀ r ∈ rows, u.key test r = some (u.columns.map r) := fun r hr =>
    Unique.key_eq test (by simp only [Unique.covers, honly]) fun c hc =>
      (h.row r hr).notNull c (hcolumns hc)
  apply (List.pairwise_filterMap.mp (h.unique u hu)).imp_of_mem
  intro r r' hr hr' hne
  exact hne _ (hkey r hr) _ (hkey r' hr')

/-- No constraint is about the column. -/
def TableSchema.Ignores (t : TableSchema C P) (c : C) : Prop :=
  c ∉ t.notNull ∧ (∀ k ∈ t.checks, c ∉ k.2.columns) ∧ ∀ u ∈ t.uniques, c ∉ u.reads

instance [DecidableEq C] (t : TableSchema C P) (c : C) : Decidable (t.Ignores c) :=
  inferInstanceAs (Decidable (_ ∧ _ ∧ _))

theorem TableSchema.Admits.map_ignored {t : TableSchema C P} {rows : List (Row C V)}
    (h : t.Admits test rows) {f : Row C V → Row C V} {c : C} (hc : t.Ignores c)
    (hf : ∀ r ∈ rows, ∀ c', c' ≠ c → f r c' = r c') : t.Admits test (rows.map f) := by
  obtain ⟨hnull, hchecks, huniques⟩ := hc
  apply h.map test
  · intro r hr
    constructor
    · intro c' hc'
      rw [hf r hr c' (ne_of_mem_of_not_mem hc' hnull)]
      exact (h.row r hr).notNull c' hc'
    · intro k hk
      have hsame := Cond.eval_congr test (k := k.2) fun c' hc' =>
        hf r hr c' (ne_of_mem_of_not_mem hc' (hchecks k hk))
      rw [hsame]
      exact (h.row r hr).checks k hk
  · intro u hu r hr c' hc'
    exact hf r hr c' (ne_of_mem_of_not_mem hc' (huniques u hu))

instance [DecidableEq V] (t : TableSchema C P) (rows : List (Row C V)) :
    Decidable (t.Admits test rows) :=
  decidable_of_iff
    ((∀ r ∈ rows, (∀ c ∈ t.notNull, (r c).isSome) ∧
        ∀ k ∈ t.checks, k.2.eval test r ≠ some false) ∧
      ∀ u ∈ t.uniques, (rows.filterMap (u.key test)).Nodup)
    ⟨fun h => ⟨fun r hr => ⟨fun c hc => Option.isSome_iff_ne_none.mp ((h.1 r hr).1 c hc),
        (h.1 r hr).2⟩, h.2⟩,
      fun h => ⟨fun r hr => ⟨fun c hc => Option.isSome_iff_ne_none.mpr ((h.row r hr).notNull c hc),
        (h.row r hr).checks⟩, h.unique⟩⟩

end

/-! ## Statements -/

/-- `N` names the tables and `U` the updates. -/
inductive Stmt (N C V P U : Type) where
  /-- `create table if not exists` -/
  | createTable (n : N) (t : TableSchema C P)
  /-- `alter table … add column if not exists` -/
  | addColumn (n : N) (c : C) (notNull : Bool) (default_ : Option V)
  | setNotNull (n : N) (c : C)
  | dropNotNull (n : N) (c : C)
  /-- `add constraint` unless there is one of this name -/
  | addCheck (n : N) (name : String) (k : Cond C P) (notValid : Bool)
  /-- `drop constraint if exists`, then `add constraint` -/
  | replaceCheck (n : N) (name : String) (k : Cond C P)
  /-- `create unique index if not exists` -/
  | createUnique (n : N) (u : Unique C P)
  | update (n : N) (u : U)

/-- The meaning of predicates and of updates; a row is updated in view of all tables. -/
structure Semantics (N C V P U : Type) where
  test : P → V → Bool
  apply : U → (N → List (Row C V)) → Row C V → Row C V

section

variable {N C V P U : Type}

def Stmt.table : Stmt N C V P U → N
  | .createTable n _ | .addColumn n _ _ _ | .setNotNull n _ | .dropNotNull n _
  | .addCheck n _ _ _ | .replaceCheck n _ _ | .createUnique n _ | .update n _ => n

variable [DecidableEq N] [DecidableEq C]

def Stmt.alter (t : TableSchema C P) : Stmt N C V P U → TableSchema C P
  | .createTable _ _ | .update _ _ => t
  | .addColumn _ c notNull _ =>
      if c ∈ t.columns then t
      else
        { t with
          columns := t.columns ++ [c]
          notNull := if notNull then t.notNull ++ [c] else t.notNull }
  | .setNotNull _ c => if c ∈ t.notNull then t else { t with notNull := t.notNull ++ [c] }
  | .dropNotNull _ c => { t with notNull := t.notNull.filter (· ≠ c) }
  | .addCheck _ name k notValid =>
      if name ∈ (t.checks ++ t.notValid).map Prod.fst then t
      else if notValid then { t with notValid := t.notValid ++ [(name, k)] }
      else { t with checks := t.checks ++ [(name, k)] }
  | .replaceCheck _ name k =>
      { t with checks := t.checks.filter (·.1 ≠ name) ++ [(name, k)] }
  | .createUnique _ u =>
      if u.name ∈ t.uniques.map Unique.name then t else { t with uniques := t.uniques ++ [u] }

/-- The new entry of the table, if the table exists now. -/
def Stmt.define : Stmt N C V P U → Option (TableSchema C P) → Option (TableSchema C P)
  | .createTable _ t, old => some (old.getD t)
  | s, old => old.map fun t => s.alter t

/-- The catalog a script leaves, from no tables. -/
def catalog (script : List (Stmt N C V P U)) : N → Option (TableSchema C P) :=
  script.foldl (fun S s => Function.update S s.table (s.define (S s.table))) fun _ => none

theorem catalog_concat (script : List (Stmt N C V P U)) (s : Stmt N C V P U) :
    catalog (script ++ [s]) =
      Function.update (catalog script) s.table (s.define (catalog script s.table)) := by
  rw [catalog, List.foldl_append]
  rfl

def Stmt.added : Stmt N C V P U → Option C
  | .addColumn _ c _ _ => some c
  | _ => none

/-- A statement that finds its work done, as far as the catalog goes. -/
structure Stmt.Settled (S : N → Option (TableSchema C P)) (s : Stmt N C V P U) : Prop where
  exists_ : (S s.table).isSome
  define : s.define (S s.table) = S s.table
  added : ∀ c ∈ s.added, ∀ t ∈ S s.table, c ∈ t.columns

instance [DecidableEq P] (S : N → Option (TableSchema C P)) (s : Stmt N C V P U) :
    Decidable (s.Settled S) :=
  decidable_of_iff
    ((S s.table).isSome ∧ s.define (S s.table) = S s.table ∧
      ∀ c ∈ s.added, ∀ t ∈ S s.table, c ∈ t.columns)
    ⟨fun h => ⟨h.1, h.2.1, h.2.2⟩, fun h => ⟨h.exists_, h.define, h.added⟩⟩

structure Db (N C V P : Type) where
  schema : N → Option (TableSchema C P)
  rows : N → List (Row C V)

/-- The value of a column that the table may not have yet. -/
def Db.read (db : Db N C V P) (n : N) (r : Row C V) (c : C) : Option V :=
  if ∃ t ∈ db.schema n, c ∈ t.columns then r c else none

/-- The rows meet the constraint a statement adds; only statements about constraints. -/
def Stmt.Meets (test : P → V → Bool) (rows : List (Row C V)) : Stmt N C V P U → Prop
  | .setNotNull _ c => ∀ r ∈ rows, r c ≠ none
  | .addCheck _ _ k false | .replaceCheck _ _ k => ∀ r ∈ rows, k.eval test r ≠ some false
  | .createUnique _ u => (rows.filterMap (u.key test)).Nodup
  | .dropNotNull _ _ | .addCheck _ _ _ true => True
  | .createTable _ _ | .addColumn _ _ _ _ | .update _ _ => False

variable (M : Semantics N C V P U)

/-- The rows of the table after a statement.  A new column has its default everywhere. -/
def Stmt.write (db : Db N C V P) : Stmt N C V P U → List (Row C V)
  | .addColumn n c _ default_ =>
      if ∃ t ∈ db.schema n, c ∈ t.columns then db.rows n
      else (db.rows n).map fun r => Function.update r c default_
  | .update n u => (db.rows n).map (M.apply u db.rows)
  | s => db.rows s.table

variable [DecidableEq V]

/-- A statement either succeeds or changes nothing. -/
def exec (db : Db N C V P) (s : Stmt N C V P U) : Except N (Db N C V P) :=
  match s.define (db.schema s.table) with
  | none => .error s.table
  | some t =>
      if t.Admits M.test (s.write M db) then
        .ok ⟨Function.update db.schema s.table (some t),
          Function.update db.rows s.table (s.write M db)⟩
      else .error s.table

def run (script : List (Stmt N C V P U)) (db : Db N C V P) : Except N (Db N C V P) :=
  script.foldlM (exec M) db

/-! ### Constraints -/

omit M [DecidableEq N] [DecidableEq V] in
theorem TableSchema.Admits.constrain {test : P → V → Bool} {t : TableSchema C P}
    {rows : List (Row C V)} (h : t.Admits test rows) {s : Stmt N C V P U}
    (hmeets : s.Meets test rows) : (s.alter t).Admits test rows := by
  cases s with
  | createTable _ _ | addColumn _ _ _ _ | update _ _ => exact hmeets.elim
  | setNotNull n c =>
      simp only [Stmt.alter]
      split
      · exact h
      · apply h.alter test
        · intro c' hc'
          rcases List.mem_append.mp hc' with hold | hnew
          · exact .inl hold
          · exact .inr (List.mem_singleton.mp hnew ▸ hmeets)
        · exact fun _ => .inl
        · exact fun _ => .inl
  | dropNotNull n c =>
      exact h.alter test (fun _ hc => .inl (List.mem_filter.mp hc).1) (fun _ => .inl)
        (fun _ => .inl)
  | addCheck n name k notValid =>
      simp only [Stmt.alter]
      split
      · exact h
      · cases notValid with
        | true => exact h.alter test (fun _ => .inl) (fun _ => .inl) (fun _ => .inl)
        | false =>
            apply h.alter test
            · exact fun _ => .inl
            · intro k' hk'
              rcases List.mem_append.mp hk' with hold | hnew
              · exact .inl hold
              · exact .inr (List.mem_singleton.mp hnew ▸ hmeets)
            · exact fun _ => .inl
  | replaceCheck n name k =>
      apply h.alter test
      · exact fun _ => .inl
      · intro k' hk'
        rcases List.mem_append.mp hk' with hold | hnew
        · exact .inl (List.mem_filter.mp hold).1
        · exact .inr (List.mem_singleton.mp hnew ▸ hmeets)
      · exact fun _ => .inl
  | createUnique n u =>
      simp only [Stmt.alter]
      split
      · exact h
      · apply h.alter test
        · exact fun _ => .inl
        · exact fun _ => .inl
        · intro u' hu'
          rcases List.mem_append.mp hu' with hold | hnew
          · exact .inl hold
          · exact .inr (List.mem_singleton.mp hnew ▸ hmeets)

/-! ### Executing one statement after the other -/

theorem run_cons (s : Stmt N C V P U) (script : List (Stmt N C V P U)) (db : Db N C V P) :
    run M (s :: script) db = exec M db s >>= run M script := by
  simp only [run, List.foldlM_cons]
  rfl

theorem run_append (script script' : List (Stmt N C V P U)) (db : Db N C V P) :
    run M (script ++ script') db = run M script db >>= run M script' := by
  simp only [run, List.foldlM_append]
  rfl

variable {M} {db db' : Db N C V P} {s : Stmt N C V P U} {t : TableSchema C P}

theorem exec_ok (hdefine : s.define (db.schema s.table) = some t)
    (hadmits : t.Admits M.test (s.write M db)) :
    exec M db s = .ok ⟨Function.update db.schema s.table (some t),
      Function.update db.rows s.table (s.write M db)⟩ := by
  simp only [exec, hdefine]
  rw [if_pos hadmits]

theorem run_settled {script : List (Stmt N C V P U)} (h : ∀ s ∈ script, exec M db s = .ok db) :
    run M script db = .ok db := by
  induction script with
  | nil => rfl
  | cons s script ih =>
      rw [run_cons, h s List.mem_cons_self]
      exact ih fun s' hs' => h s' (List.mem_cons_of_mem _ hs')

/-! ### Databases of a known schema -/

variable (M) in
/-- Any contents that the catalog after a script allows. -/
structure At (script : List (Stmt N C V P U)) (db : Db N C V P) : Prop where
  schema : db.schema = catalog script
  empty : ∀ n, catalog script n = none → db.rows n = []
  admits : ∀ n t, catalog script n = some t → t.Admits M.test (db.rows n)

omit [DecidableEq V] in
theorem At.congr {script script' : List (Stmt N C V P U)} (h : At M script db)
    (heq : catalog script = catalog script') : At M script' db :=
  ⟨heq ▸ h.schema, heq ▸ h.empty, heq ▸ h.admits⟩

variable (M) in
/-- The statement succeeds after the script and leaves these rows. -/
def Leads (script : List (Stmt N C V P U)) (db : Db N C V P) (s : Stmt N C V P U)
    (rows : N → List (Row C V)) : Prop :=
  ∃ db', exec M db s = .ok db' ∧ At M (script ++ [s]) db' ∧ db'.rows = rows

variable (M) in
/-- The script succeeds and its result is such. -/
def Runs (script : List (Stmt N C V P U)) (db : Db N C V P) (Q : Db N C V P → Prop) : Prop :=
  ∃ db', run M script db = .ok db' ∧ Q db'

theorem Leads.runs {script rest : List (Stmt N C V P U)} {rows : N → List (Row C V)}
    {Q : Db N C V P → Prop} (h : Leads M script db s rows)
    (hrest : ∀ db', At M (script ++ [s]) db' → db'.rows = rows → Runs M rest db' Q) :
    Runs M (s :: rest) db Q := by
  obtain ⟨db', hexec, hat, hrows⟩ := h
  obtain ⟨db'', hrun, hq⟩ := hrest db' hat hrows
  refine ⟨db'', ?_, hq⟩
  rw [run_cons, hexec]
  exact hrun

theorem Runs.append {script rest : List (Stmt N C V P U)} {Q R : Db N C V P → Prop}
    (h : Runs M script db Q) (hrest : ∀ db', Q db' → Runs M rest db' R) :
    Runs M (script ++ rest) db R := by
  obtain ⟨db', hrun, hq⟩ := h
  obtain ⟨db'', hrun', hr⟩ := hrest db' hq
  refine ⟨db'', ?_, hr⟩
  rw [run_append, hrun]
  exact hrun'

theorem At.leads {script : List (Stmt N C V P U)} (h : At M script db)
    (hdefine : s.define (catalog script s.table) = some t)
    (hadmits : t.Admits M.test (s.write M db)) :
    Leads M script db s (Function.update db.rows s.table (s.write M db)) := by
  have hcatalog : catalog (script ++ [s]) = Function.update (catalog script) s.table (some t) := by
    rw [catalog_concat, hdefine]
  refine ⟨_, exec_ok (h.schema ▸ hdefine) hadmits, ⟨?_, ?_, ?_⟩, rfl⟩
  · rw [hcatalog, h.schema]
  · intro n hn
    rw [hcatalog] at hn
    by_cases htable : n = s.table
    · subst htable
      simp at hn
    · simp only [Function.update_of_ne htable] at hn ⊢
      exact h.empty n hn
  · intro n t' ht'
    rw [hcatalog] at ht'
    by_cases htable : n = s.table
    · subst htable
      simp only [Function.update_self, Option.some.injEq] at ht' ⊢
      exact ht' ▸ hadmits
    · simp only [Function.update_of_ne htable] at ht' ⊢
      exact h.admits n t' ht'

section

variable {script : List (Stmt N C V P U)} (h : At M script db)

include h

/-- A statement that leaves the rows alone. -/
theorem At.leads_rows (hwrite : s.write M db = db.rows s.table)
    (hdefine : s.define (catalog script s.table) = some t)
    (hadmits : t.Admits M.test (db.rows s.table)) : Leads M script db s db.rows := by
  have hleads := h.leads hdefine (hwrite ▸ hadmits)
  rwa [hwrite, Function.update_eq_self] at hleads

/-- An update has to find its work done in the rows, too. -/
theorem At.exec_settled (hs : s.Settled (catalog script))
    (hupdate : ∀ n u, s = .update n u → ∀ r ∈ db.rows n, M.apply u db.rows r = r) :
    exec M db s = .ok db := by
  obtain ⟨t, ht⟩ := Option.isSome_iff_exists.mp hs.exists_
  have hwrite : s.write M db = db.rows s.table := by
    cases s with
    | createTable _ _ | setNotNull _ _ | dropNotNull _ _ | addCheck _ _ _ _ | replaceCheck _ _ _
    | createUnique _ _ => rfl
    | addColumn n c notNull default_ =>
        exact if_pos ⟨t, h.schema ▸ ht, hs.added c rfl t ht⟩
    | update n u => exact (List.map_congr_left (g := id) (hupdate n u rfl)).trans (List.map_id _)
  have hdefine : s.define (db.schema s.table) = some t := by rw [h.schema, hs.define, ht]
  rw [exec_ok hdefine (hwrite ▸ h.admits _ t ht), hwrite, ← ht, ← h.schema]
  simp only [Function.update_eq_self]

variable {n : N}

theorem At.createTable (t : TableSchema C P) : Leads M script db (.createTable n t) db.rows := by
  cases hn : catalog script n with
  | none =>
      apply h.leads_rows (t := t) rfl
      · simp [Stmt.define, Stmt.table, hn]
      · rw [Stmt.table, h.empty n hn]
        exact t.admits_nil M.test
  | some t' =>
      apply h.leads_rows (t := t') rfl
      · simp [Stmt.define, Stmt.table, hn]
      · exact h.admits n t' hn

variable (ht : catalog script n = some t)

include ht

/-- A column may be added that no constraint is about. -/
theorem At.addColumn {c : C} {notNull : Bool} {default_ : Option V} (hc : c ∉ t.columns)
    (hignored : t.Ignores c) (hdefault : notNull = true → default_ ≠ none) :
    Leads M script db (.addColumn n c notNull default_) (Function.update db.rows n
      ((db.rows n).map fun r => Function.update r c default_)) := by
  have hmissing : ¬∃ t' ∈ db.schema n, c ∈ t'.columns := by simp [h.schema, ht, hc]
  have hwrite : Stmt.write M db (.addColumn n c notNull default_) =
      (db.rows n).map fun r => Function.update r c default_ := if_neg hmissing
  rw [← hwrite]
  apply h.leads (t := Stmt.alter t (.addColumn n c notNull default_ : Stmt N C V P U))
  · simp [Stmt.define, Stmt.table, ht]
  · have hrows := (h.admits n t ht).map_ignored M.test hignored
      (f := fun r => Function.update r c default_) fun r _ c' hne => Function.update_of_ne hne _ _
    rw [hwrite]
    simp only [Stmt.alter, if_neg hc]
    apply hrows.alter M.test
    · intro c' hc'
      cases notNull with
      | false => exact .inl hc'
      | true =>
          rcases List.mem_append.mp hc' with hold | hnew
          · exact .inl hold
          · rw [List.mem_singleton.mp hnew]
            simp [hdefault rfl]
    · exact fun _ => .inl
    · exact fun _ => .inl

/-- A column that may be there already, and has its values then. -/
theorem At.addNullable {c : C} (hc : c ∈ t.columns ∨ t.Ignores c) :
    Leads M script db (.addColumn n c false none) (Function.update db.rows n
      ((db.rows n).map fun r => Function.update r c (db.read n r c))) := by
  have hmem : (∃ t' ∈ db.schema n, c ∈ t'.columns) ↔ c ∈ t.columns := by
    simp [h.schema, ht]
  by_cases hcolumn : c ∈ t.columns
  · have hvalue : ∀ r : Row C V, db.read n r c = r c := fun r => if_pos (hmem.mpr hcolumn)
    simp only [hvalue, Function.update_eq_self, List.map_id']
    apply h.leads_rows (t := t)
    · exact if_pos (hmem.mpr hcolumn)
    · simp [Stmt.define, Stmt.alter, Stmt.table, ht, hcolumn]
    · exact h.admits n t ht
  · have hvalue : ∀ r : Row C V, db.read n r c = none := fun r => if_neg (hcolumn ∘ hmem.mp)
    simp only [hvalue]
    exact h.addColumn ht hcolumn (hc.resolve_left hcolumn) (by simp)

theorem At.update (u : U) (hadmits : t.Admits M.test ((db.rows n).map (M.apply u db.rows))) :
    Leads M script db (.update n u)
      (Function.update db.rows n ((db.rows n).map (M.apply u db.rows))) := by
  apply h.leads (t := t)
  · simp [Stmt.define, Stmt.alter, Stmt.table, ht]
  · exact hadmits

/-- Constraints may be changed as far as the rows meet them. -/
theorem At.constrain (s : Stmt N C V P U) (hs : s.table = n) (hmeets : s.Meets M.test (db.rows n)) :
    Leads M script db s db.rows := by
  subst hs
  have hadmits := h.admits _ t ht
  have hwrite : s.write M db = db.rows s.table := by
    cases s with
    | createTable _ _ | addColumn _ _ _ _ | update _ _ => exact hmeets.elim
    | setNotNull _ _ | dropNotNull _ _ | addCheck _ _ _ _ | replaceCheck _ _ _
    | createUnique _ _ => rfl
  have hdefine : s.define (catalog script s.table) = some (s.alter t) := by
    cases s with
    | createTable _ _ | addColumn _ _ _ _ | update _ _ => exact hmeets.elim
    | setNotNull _ _ | dropNotNull _ _ | addCheck _ _ _ _ | replaceCheck _ _ _
    | createUnique _ _ =>
        rw [ht]
        rfl
  exact h.leads_rows hwrite hdefine (hadmits.constrain hmeets)

end

end

end Ddl
