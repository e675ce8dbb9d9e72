/-
# `Transact.Schema` — tables, unique indexes, and what a lock protects

A `Schema` lists the tables of a database with their rows, primary keys, entries
in unique indexes, CHECK constraints and foreign keys.  The database itself is
any type from which the tables can be read and in which they can be replaced
(`get`, `set`), so that a development may write it as a record.

A committed transaction is a list of `Write`s.  Each write has a footprint, the
locks it has to be made under, and a lock protects something:

    row t k     the row of table `t` with primary key `k`, also its absence
    entry x     whether the unique index has the entry `x`
    named n     the value `val n` of an application-level lock

`agree k d d'` says that `d` and `d'` do not differ in what `k` protects.  Two
facts make locking work, and the rest of the library uses no others:

    frame   a write changes nothing outside its footprint
    congr   databases that agree on a write's footprint still agree after it
-/
import Clearance.Transact.Locking

namespace Transact

/-- Tables with primary keys, unique indexes and constraints. -/
structure Schema where
  Tab : Type
  Row : Tab → Type
  Key : Tab → Type
  key : (t : Tab) → Row t → Key t
  /-- Entries of the unique indexes other than primary keys. -/
  Ix : Type
  ixTab : Ix → Tab
  entries : {t : Tab} → Row t → List Ix
  entries_tab : ∀ {t : Tab} {r : Row t} {x : Ix}, x ∈ entries r → ixTab x = t
  /-- The updates statements make to single rows. -/
  Upd : Tab → Type
  upd : {t : Tab} → Upd t → Row t → Row t
  key_upd : ∀ {t : Tab} (u : Upd t) (r : Row t), key t (upd u r) = key t r
  entries_upd : ∀ {t : Tab} (u : Upd t) (r : Row t), entries (upd u r) = entries r
  /-- The CHECK constraint a row violates, if any. -/
  check : {t : Tab} → Row t → Option String
  /-- The rows a row refers to. -/
  refs : {t : Tab} → Row t → List ((t' : Tab) × Key t')
  /-- Tables rows are deleted from. -/
  Prunable : Tab → Prop
  entries_prunable : ∀ {t : Tab}, Prunable t → ∀ r : Row t, entries r = []
  Db : Type
  get : Db → (t : Tab) → Table (Row t) (Key t) (key t)
  set : Db → (t : Tab) → Table (Row t) (Key t) (key t) → Db
  get_set_self : ∀ d t T, get (set d t T) t = T
  get_set_other : ∀ d t T t', t' ≠ t → get (set d t T) t' = get d t'
  decTab : DecidableEq Tab
  decKey : (t : Tab) → DecidableEq (Key t)
  decIx : DecidableEq Ix

namespace Schema

variable (Sc : Schema)

instance : DecidableEq Sc.Tab := Sc.decTab
instance (t : Sc.Tab) : DecidableEq (Sc.Key t) := Sc.decKey t
instance : DecidableEq Sc.Ix := Sc.decIx

/-- What a unique constraint ranges over: a primary key or an index entry. -/
inductive UniqueKey where
  | row (t : Sc.Tab) (k : Sc.Key t)
  | entry (x : Sc.Ix)

instance : DecidableEq Sc.UniqueKey
  | .row t k, .row t' k' =>
      if h : t = t' then
        if hk : h ▸ k = k' then .isTrue (by subst h; subst hk; rfl)
        else .isFalse (by intro e; cases e; exact hk rfl)
      else .isFalse (by intro e; cases e; exact h rfl)
  | .entry x, .entry x' =>
      if h : x = x' then .isTrue (by rw [h]) else .isFalse (by intro e; cases e; exact h rfl)
  | .row _ _, .entry _ => .isFalse (by intro e; cases e)
  | .entry _, .row _ _ => .isFalse (by intro e; cases e)

/-- Writes of a transaction. -/
inductive Write where
  | insert (t : Sc.Tab) (r : Sc.Row t)
  | update (t : Sc.Tab) (k : Sc.Key t) (u : Sc.Upd t)
  | delete (t : Sc.Tab) (k : Sc.Key t) (prunable : Sc.Prunable t)

variable {Sc}

/-- The row with key `k` of table `t`. -/
def find? (d : Sc.Db) (t : Sc.Tab) (k : Sc.Key t) : Option (Sc.Row t) := (Sc.get d t).find? k

/-- The effect of a write. -/
def apply (d : Sc.Db) : Sc.Write → Sc.Db
  | .insert t r => Sc.set d t ((Sc.get d t).insert r)
  | .update t k u => Sc.set d t ((Sc.get d t).modify k (Sc.upd u) (Sc.key_upd u))
  | .delete t k _ => Sc.set d t ((Sc.get d t).erase k)

/-- A row with the index entry exists. -/
def present (d : Sc.Db) (x : Sc.Ix) : Bool :=
  (Sc.get d (Sc.ixTab x)).rows.any fun r => decide (x ∈ Sc.entries r)

/-- The key is taken. -/
def taken (d : Sc.Db) : Sc.UniqueKey → Bool
  | .row t k => (find? d t k).isSome
  | .entry x => present d x

/-- The keys of a row, in the order the indexes are checked. -/
def keys {t : Sc.Tab} (r : Sc.Row t) : List Sc.UniqueKey :=
  .row t (Sc.key t r) :: (Sc.entries r).map .entry

theorem find?_of_free {d : Sc.Db} {t : Sc.Tab} {r : Sc.Row t}
    (h : ∀ k ∈ keys r, taken d k = false) : find? d t (Sc.key t r) = none := by
  have := h (.row t (Sc.key t r)) List.mem_cons_self
  simpa [taken] using this

/-! ## Reading after a write -/

theorem find?_insert (d : Sc.Db) (t : Sc.Tab) (r : Sc.Row t) (k : Sc.Key t) :
    find? (apply d (.insert t r)) t k =
      if Sc.key t r = k then some ((find? d t k).getD r) else find? d t k := by
  simp only [find?, apply, Sc.get_set_self]
  exact Table.find?_insert _ r k

theorem find?_update (d : Sc.Db) (t : Sc.Tab) (k' : Sc.Key t) (u : Sc.Upd t) (k : Sc.Key t) :
    find? (apply d (.update t k' u)) t k =
      if k = k' then (find? d t k).map (Sc.upd u) else find? d t k := by
  simp only [find?, apply, Sc.get_set_self]
  exact Table.find?_modify _ k' k _ _

theorem find?_delete (d : Sc.Db) (t : Sc.Tab) (k' : Sc.Key t) (hp : Sc.Prunable t)
    (k : Sc.Key t) :
    find? (apply d (.delete t k' hp)) t k = if k = k' then none else find? d t k := by
  simp only [find?, apply, Sc.get_set_self]
  exact Table.find?_erase _ k' k

/-- The table a write goes to. -/
def Write.tab : Sc.Write → Sc.Tab
  | .insert t _ => t
  | .update t _ _ => t
  | .delete t _ _ => t

theorem get_apply_other (d : Sc.Db) (x : Sc.Write) {t : Sc.Tab} (h : t ≠ x.tab) :
    Sc.get (apply d x) t = Sc.get d t := by
  cases x with
  | insert t' r => exact Sc.get_set_other d t' _ t h
  | update t' k u => exact Sc.get_set_other d t' _ t h
  | delete t' k hp => exact Sc.get_set_other d t' _ t h

theorem find?_other (d : Sc.Db) (x : Sc.Write) {t : Sc.Tab} (h : t ≠ x.tab) (k : Sc.Key t) :
    find? (apply d x) t k = find? d t k := by
  rw [find?, get_apply_other d x h, find?]

/-- Writes to other tables leave a table alone. -/
theorem get_foldl_other {t : Sc.Tab} {w : List Sc.Write} (h : ∀ x ∈ w, t ≠ x.tab) (d : Sc.Db) :
    Sc.get (w.foldl apply d) t = Sc.get d t := by
  induction w generalizing d with
  | nil => rfl
  | cons x w ih =>
      refine (ih (fun y hy => h y (List.mem_cons_of_mem x hy)) (apply d x)).trans ?_
      exact get_apply_other d x (h x List.mem_cons_self)

theorem present_iff {d : Sc.Db} {x : Sc.Ix} :
    present d x = true ↔ ∃ r ∈ (Sc.get d (Sc.ixTab x)).rows, x ∈ Sc.entries r := by
  simp [present]

theorem present_insert (d : Sc.Db) (t : Sc.Tab) (r : Sc.Row t) (x : Sc.Ix) :
    present (apply d (.insert t r)) x =
      (present d x || (decide (find? d t (Sc.key t r) = none) && decide (x ∈ Sc.entries r))) := by
  by_cases ht : Sc.ixTab x = t
  · subst ht
    simp only [present, apply, Sc.get_set_self]
    cases hf : find? d (Sc.ixTab x) (Sc.key _ r) with
    | none => rw [Table.rows_insert hf, List.any_append]; simp
    | some r' => rw [Table.insert_taken hf]; simp
  · have hx : x ∉ Sc.entries r := fun hx => ht (Sc.entries_tab hx)
    rw [present, get_apply_other d (.insert t r) (by exact ht)]
    simp [present, hx]

theorem present_update (d : Sc.Db) (t : Sc.Tab) (k : Sc.Key t) (u : Sc.Upd t) (x : Sc.Ix) :
    present (apply d (.update t k u)) x = present d x := by
  by_cases ht : Sc.ixTab x = t
  · subst ht
    simp only [present, apply, Sc.get_set_self, Table.rows_modify, List.any_map]
    congr 1
    funext r
    by_cases hk : Sc.key _ r = k <;> simp [hk, Sc.entries_upd]
  · rw [present, get_apply_other d (.update t k u) (by exact ht), present]

theorem present_delete (d : Sc.Db) (t : Sc.Tab) (k : Sc.Key t) (hp : Sc.Prunable t)
    (x : Sc.Ix) :
    present (apply d (.delete t k hp)) x = present d x := by
  by_cases ht : Sc.ixTab x = t
  · subst ht
    have hnone : ∀ d' : Sc.Db, present d' x = false := by
      intro d'
      rw [present, List.any_eq_false]
      intro r _
      simp [Sc.entries_prunable hp r]
    rw [hnone, hnone]
  · rw [present, get_apply_other d (.delete t k hp) (by exact ht), present]

end Schema

/-! ## Application-level locks -/

/-- Named locks.  `val n` is what holding `n` protects; `of r` and `ofUpd u` are the
locks under which a row `r` has to be inserted and an update `u` to be made. -/
structure Latches (Sc : Schema) where
  Name : Type
  decName : DecidableEq Name
  Val : Type
  val : Name → Sc.Db → Val
  of : {t : Sc.Tab} → Sc.Row t → List Name
  ofUpd : {t : Sc.Tab} → Sc.Upd t → List Name
  val_insert : ∀ {n : Name} {t : Sc.Tab} {r : Sc.Row t} (d : Sc.Db), n ∉ of r →
    val n (Schema.apply d (.insert t r)) = val n d
  val_insert_congr : ∀ {n : Name} {t : Sc.Tab} {r : Sc.Row t} {d d' : Sc.Db},
    val n d = val n d' →
    Schema.find? d t (Sc.key t r) = Schema.find? d' t (Sc.key t r) →
    val n (Schema.apply d (.insert t r)) = val n (Schema.apply d' (.insert t r))
  val_update : ∀ {n : Name} {t : Sc.Tab} {u : Sc.Upd t} (d : Sc.Db) (k : Sc.Key t), n ∉ ofUpd u →
    val n (Schema.apply d (.update t k u)) = val n d
  val_update_congr : ∀ {n : Name} {t : Sc.Tab} {k : Sc.Key t} {u : Sc.Upd t} {d d' : Sc.Db},
    val n d = val n d' →
    Schema.find? d t k = Schema.find? d' t k →
    val n (Schema.apply d (.update t k u)) = val n (Schema.apply d' (.update t k u))
  val_delete : ∀ (n : Name) (d : Sc.Db) (t : Sc.Tab) (k : Sc.Key t) (hp : Sc.Prunable t),
    val n (Schema.apply d (.delete t k hp)) = val n d

attribute [instance] Latches.decName

variable {Sc : Schema} (L : Latches Sc)

/-- Locks held to the end of a transaction. -/
inductive Lock where
  | unique (u : Sc.UniqueKey)
  | named (n : L.Name)
  deriving DecidableEq

namespace Schema

variable {L}

/-- The databases do not differ in what the lock protects. -/
def agree : Lock L → Sc.Db → Sc.Db → Prop
  | .unique (.row t k), d, d' => find? d t k = find? d' t k
  | .unique (.entry x), d, d' => present d x = present d' x
  | .named n, d, d' => L.val n d = L.val n d'

theorem agree.refl (k : Lock L) (d : Sc.Db) : agree k d d := by
  rcases k with (⟨t, k⟩ | x) | n <;> rfl

theorem agree.trans {k : Lock L} {d d' d'' : Sc.Db} (h : agree k d d') (h' : agree k d' d'') :
    agree k d d'' := by
  rcases k with (⟨t, k⟩ | x) | n
  · exact Eq.trans (b := find? d' t k) h h'
  · exact Eq.trans (b := present d' x) h h'
  · exact Eq.trans (b := L.val n d') h h'

variable (L) in
/-- The unique keys a write may change. -/
def Write.uniques : Sc.Write → List (Lock L)
  | .insert _ r => (keys r).map .unique
  | .update t k _ => [.unique (.row t k)]
  | .delete t k _ => [.unique (.row t k)]

variable (L) in
/-- The locks a write has to be made under. -/
def Write.footprint : Sc.Write → List (Lock L)
  | .insert t r => Write.uniques L (.insert t r) ++ (L.of r).map .named
  | .update t k u => Write.uniques L (.update t k u) ++ (L.ofUpd u).map .named
  | .delete t k hp => Write.uniques L (.delete t k hp)

theorem uniques_subset (x : Sc.Write) : x.uniques L ⊆ x.footprint L := by
  cases x with
  | insert t r => exact List.subset_append_left _ _
  | update t k u => exact List.subset_append_left _ _
  | delete t k hp => exact List.Subset.refl _

theorem find?_frame {x : Sc.Write} {t : Sc.Tab} {k : Sc.Key t} (d : Sc.Db)
    (h : .unique (.row t k) ∉ x.uniques L) : find? (apply d x) t k = find? d t k := by
  by_cases ht : t = x.tab
  · cases x with
    | insert t' r =>
        obtain rfl : t = t' := ht
        have hk : Sc.key t r ≠ k := by
          rintro rfl; exact h (by simp [Write.uniques, keys])
        rw [find?_insert, if_neg hk]
    | update t' k' u =>
        obtain rfl : t = t' := ht
        have hk : k ≠ k' := by
          rintro rfl; exact h (by simp [Write.uniques])
        rw [find?_update, if_neg hk]
    | delete t' k' hp =>
        obtain rfl : t = t' := ht
        have hk : k ≠ k' := by
          rintro rfl; exact h (by simp [Write.uniques])
        rw [find?_delete, if_neg hk]
  · exact find?_other d x ht k

theorem find?_congr {x : Sc.Write} {t : Sc.Tab} {k : Sc.Key t} {d d' : Sc.Db}
    (h : find? d t k = find? d' t k) : find? (apply d x) t k = find? (apply d' x) t k := by
  by_cases ht : t = x.tab
  · cases x with
    | insert t' r =>
        obtain rfl : t = t' := ht
        rw [find?_insert, find?_insert, h]
    | update t' k' u =>
        obtain rfl : t = t' := ht
        rw [find?_update, find?_update, h]
    | delete t' k' hp =>
        obtain rfl : t = t' := ht
        rw [find?_delete, find?_delete, h]
  · rw [find?_other d x ht, find?_other d' x ht, h]

/-- A write changes nothing outside its footprint. -/
theorem frame {x : Sc.Write} {k : Lock L} (d : Sc.Db) (h : k ∉ x.footprint L) :
    agree k d (apply d x) := by
  rcases k with (⟨t, k⟩ | i) | n
  · exact (find?_frame d fun hk => h (uniques_subset x hk)).symm
  · show present d i = present (apply d x) i
    cases x with
    | insert t r =>
        have hi : i ∉ Sc.entries r := by
          intro hi; exact h (by simp [Write.footprint, Write.uniques, keys, hi])
        simp [present_insert, hi]
    | update t k u => rw [present_update]
    | delete t k hp => rw [present_delete]
  · show L.val n d = L.val n (apply d x)
    cases x with
    | insert t r =>
        have hn : n ∉ L.of r := by
          intro hn; exact h (by simp [Write.footprint, hn])
        rw [L.val_insert d hn]
    | update t k u =>
        have hn : n ∉ L.ofUpd u := by
          intro hn; exact h (by simp [Write.footprint, hn])
        rw [L.val_update d k hn]
    | delete t k hp => rw [L.val_delete]

/-- Databases that agree on a write's keys still agree after it. -/
theorem congr {x : Sc.Write} {k : Lock L} {d d' : Sc.Db} (h : agree k d d')
    (hx : ∀ u ∈ x.uniques L, agree u d d') : agree k (apply d x) (apply d' x) := by
  have hkey : ∀ {t : Sc.Tab} {r : Sc.Row t}, x = .insert t r →
      find? d t (Sc.key t r) = find? d' t (Sc.key t r) := by
    rintro t r rfl
    exact hx (.unique (.row t (Sc.key t r))) (by simp [Write.uniques, keys])
  rcases k with (⟨t, k⟩ | i) | n
  · exact find?_congr h
  · have h : present d i = present d' i := h
    show present (apply d x) i = present (apply d' x) i
    cases x with
    | insert t r => rw [present_insert, present_insert, h, hkey rfl]
    | update t k u => rw [present_update, present_update, h]
    | delete t k hp => rw [present_delete, present_delete, h]
  · have h : L.val n d = L.val n d' := h
    show L.val n (apply d x) = L.val n (apply d' x)
    cases x with
    | insert t r => exact L.val_insert_congr h (hkey rfl)
    | update t k u =>
        exact L.val_update_congr h (hx (.unique (.row t k)) (by simp [Write.uniques]))
    | delete t k hp => rw [L.val_delete, L.val_delete, h]

theorem agree.taken {u : Sc.UniqueKey} {d d' : Sc.Db} (h : agree (.unique u : Lock L) d d') :
    taken d u = taken d' u := by
  cases u with
  | row t k =>
      have h : find? d t k = find? d' t k := h
      rw [Schema.taken, Schema.taken, h]
  | entry x => exact h

end Schema

end Transact
