/-
# `Transact.Table` — a relation with a primary key

A table is a list of rows no two of which share a key, so a primary-key
violation is not a state a table can be in: `insert` leaves the table alone
when the key is taken.  Rows keep their order of insertion.

Every operation has one closed formula for `find?`, and that formula is how
the rest of a development meets it:

    (t.insert r).find? k      = if key r = k then some ((t.find? k).getD r) else t.find? k
    (t.modify k' f).find? k   = if k = k' then (t.find? k).map f else t.find? k
    (t.erase k').find? k      = if k = k' then none else t.find? k
-/
import Mathlib

namespace Transact

/-- Rows with pairwise distinct keys. -/
structure Table (ρ κ : Type) (key : ρ → κ) where
  rows : List ρ
  nodup : (rows.map key).Nodup

namespace Table

variable {ρ κ : Type} {key : ρ → κ}

@[ext] theorem ext {t t' : Table ρ κ key} (h : t.rows = t'.rows) : t = t' := by
  cases t; cases t'; cases h; rfl

instance [DecidableEq ρ] : DecidableEq (Table ρ κ key) := fun t t' =>
  decidable_of_iff (t.rows = t'.rows) ⟨ext, fun h => h ▸ rfl⟩

/-- The table without rows. -/
def empty : Table ρ κ key := ⟨[], List.nodup_nil⟩

@[simp] theorem rows_empty : (empty : Table ρ κ key).rows = [] := rfl

/-- Two rows of a table with the same key are the same row. -/
theorem eq_of_key_eq (t : Table ρ κ key) {r r' : ρ} (h : r ∈ t.rows) (h' : r' ∈ t.rows)
    (hk : key r = key r') : r = r' :=
  List.inj_on_of_nodup_map t.nodup h h' hk

variable [DecidableEq κ]

/-- The row with key `k`. -/
def find? (t : Table ρ κ key) (k : κ) : Option ρ :=
  t.rows.find? (fun r => decide (key r = k))

/-! ## Lookup -/

theorem find?_eq_none {t : Table ρ κ key} {k : κ} :
    t.find? k = none ↔ ∀ r ∈ t.rows, key r ≠ k := by
  simp [find?]

theorem key_of_find? {t : Table ρ κ key} {k : κ} {r : ρ} (h : t.find? k = some r) :
    key r = k := by
  simpa using List.find?_some h

theorem mem_of_find? {t : Table ρ κ key} {k : κ} {r : ρ} (h : t.find? k = some r) :
    r ∈ t.rows :=
  List.mem_of_find?_eq_some h

theorem find?_of_mem (t : Table ρ κ key) {r : ρ} (h : r ∈ t.rows) :
    t.find? (key r) = some r := by
  cases hf : t.find? (key r) with
  | none => exact absurd rfl (find?_eq_none.mp hf r h)
  | some r' =>
      exact congrArg some (t.eq_of_key_eq (mem_of_find? hf) h (key_of_find? hf))

theorem find?_eq_some {t : Table ρ κ key} {k : κ} {r : ρ} :
    t.find? k = some r ↔ r ∈ t.rows ∧ key r = k := by
  constructor
  · intro h; exact ⟨mem_of_find? h, key_of_find? h⟩
  · rintro ⟨h, rfl⟩; exact t.find?_of_mem h

@[simp] theorem find?_empty (k : κ) : (empty : Table ρ κ key).find? k = none := rfl

/-! ## Insertion -/

/-- Adds a row at the end, unless its key is taken. -/
def insert (t : Table ρ κ key) (r : ρ) : Table ρ κ key :=
  if h : t.find? (key r) = none then
    ⟨t.rows ++ [r], by
      rw [List.map_append, List.nodup_append]
      refine ⟨t.nodup, by simp, ?_⟩
      intro a ha b hb
      obtain ⟨r', hr', rfl⟩ := List.mem_map.mp ha
      simp only [List.map_cons, List.map_nil, List.mem_singleton] at hb
      subst hb
      exact find?_eq_none.mp h r' hr'⟩
  else t

theorem rows_insert {t : Table ρ κ key} {r : ρ} (h : t.find? (key r) = none) :
    (t.insert r).rows = t.rows ++ [r] := by
  simp [insert, h]

theorem insert_taken {t : Table ρ κ key} {r r' : ρ} (h : t.find? (key r) = some r') :
    t.insert r = t := by
  simp [insert, h]

theorem find?_insert (t : Table ρ κ key) (r : ρ) (k : κ) :
    (t.insert r).find? k = if key r = k then some ((t.find? k).getD r) else t.find? k := by
  cases h : t.find? (key r) with
  | none =>
      rw [find?, rows_insert h, List.find?_append]
      by_cases hk : key r = k
      · subst hk
        have h' : t.rows.find? (fun r' => decide (key r' = key r)) = none := h
        simp [h', h]
      · simp [hk, find?]
  | some r' =>
      rw [insert_taken h]
      by_cases hk : key r = k
      · subst hk; simp [h]
      · simp [hk]

/-- An insertion that does not show. -/
theorem filter_insert {t : Table ρ κ key} {r : ρ} {p : ρ → Bool} (h : p r = false) :
    (t.insert r).rows.filter p = t.rows.filter p := by
  cases hf : t.find? (key r) with
  | none => rw [rows_insert hf, List.filter_append]; simp [h]
  | some _ => rw [insert_taken hf]

theorem mem_insert {t : Table ρ κ key} {r r' : ρ} (h : r' ∈ (t.insert r).rows) :
    r' ∈ t.rows ∨ r' = r := by
  cases hf : t.find? (key r) with
  | none => rw [rows_insert hf] at h; simpa using h
  | some _ => rw [insert_taken hf] at h; exact Or.inl h

theorem mem_insert_of_mem {t : Table ρ κ key} {r r' : ρ} (h : r' ∈ t.rows) :
    r' ∈ (t.insert r).rows := by
  cases hf : t.find? (key r) with
  | none => rw [rows_insert hf]; exact List.mem_append_left _ h
  | some _ => rwa [insert_taken hf]

/-! ## Update and deletion by key -/

/-- Rewrites the row with key `k`; the key itself stays. -/
def modify (t : Table ρ κ key) (k : κ) (f : ρ → ρ) (hf : ∀ r, key (f r) = key r) :
    Table ρ κ key :=
  ⟨t.rows.map (fun r => if key r = k then f r else r), by
    have : (t.rows.map (fun r => if key r = k then f r else r)).map key = t.rows.map key := by
      rw [List.map_map]
      refine List.map_congr_left fun r _ => ?_
      by_cases h : key r = k <;> simp [h, hf]
    rw [this]; exact t.nodup⟩

theorem rows_modify (t : Table ρ κ key) (k : κ) (f : ρ → ρ) (hf : ∀ r, key (f r) = key r) :
    (t.modify k f hf).rows = t.rows.map (fun r => if key r = k then f r else r) := rfl

theorem find?_modify (t : Table ρ κ key) (k' k : κ) (f : ρ → ρ)
    (hf : ∀ r, key (f r) = key r) :
    (t.modify k' f hf).find? k = if k = k' then (t.find? k).map f else t.find? k := by
  have hkey : ∀ r, key (if key r = k' then f r else r) = key r := by
    intro r; by_cases h : key r = k' <;> simp [h, hf]
  simp only [find?, rows_modify, List.find?_map, Function.comp_def, hkey]
  by_cases hk : k = k'
  · subst hk
    rw [if_pos rfl]
    cases h : t.rows.find? (fun r => decide (key r = k)) with
    | none => rfl
    | some r =>
        have : key r = k := by simpa using List.find?_some h
        simp [this]
  · rw [if_neg hk]
    cases h : t.rows.find? (fun r => decide (key r = k)) with
    | none => rfl
    | some r =>
        have : key r = k := by simpa using List.find?_some h
        simp [this, hk]

/-- Two updates of one row. -/
theorem modify_modify (t : Table ρ κ key) (k : κ) {f g : ρ → ρ} (hf : ∀ r, key (f r) = key r)
    (hg : ∀ r, key (g r) = key r) :
    (t.modify k f hf).modify k g hg = t.modify k (fun r => g (f r)) fun r => (hg _).trans (hf r) := by
  refine Table.ext ?_
  rw [rows_modify, rows_modify, rows_modify, List.map_map]
  refine List.map_congr_left fun r _ => ?_
  by_cases hk : key r = k
  · simp [hk, hf]
  · simp [hk]

/-- An update that does not show. -/
theorem map_modify {β : Type} (t : Table ρ κ key) (k : κ) {f : ρ → ρ}
    (hf : ∀ r, key (f r) = key r) {g : ρ → β} (hg : ∀ r, g (f r) = g r) :
    (t.modify k f hf).rows.map g = t.rows.map g := by
  rw [rows_modify, List.map_map]
  refine List.map_congr_left fun r _ => ?_
  by_cases hk : key r = k
  · simp [hk, hg]
  · simp [hk]

/-- The row is rewritten where it stands. -/
theorem modify_split {t : Table ρ κ key} {k : κ} {r : ρ} (h : t.find? k = some r) (f : ρ → ρ)
    (hf : ∀ r, key (f r) = key r) :
    ∃ l₁ l₂, t.rows = l₁ ++ r :: l₂ ∧ (t.modify k f hf).rows = l₁ ++ f r :: l₂ := by
  obtain ⟨l₁, l₂, hrows⟩ := List.append_of_mem (mem_of_find? h)
  refine ⟨l₁, l₂, hrows, ?_⟩
  have hother : ∀ r' ∈ l₁ ++ l₂, key r' ≠ k := by
    have hnd := t.nodup
    rw [hrows, List.map_append, List.map_cons, List.nodup_middle, List.nodup_cons,
      ← List.map_append, key_of_find? h] at hnd
    exact fun r' hr' hk => hnd.1 (List.mem_map.mpr ⟨r', hr', hk⟩)
  have hmap : ∀ l, l ⊆ l₁ ++ l₂ → l.map (fun r => if key r = k then f r else r) = l := by
    intro l hl
    conv_rhs => rw [← List.map_id l]
    exact List.map_congr_left fun r' hr' => if_neg (hother r' (hl hr'))
  rw [rows_modify, hrows, List.map_append, List.map_cons, if_pos (key_of_find? h),
    hmap l₁ (List.subset_append_left l₁ l₂), hmap l₂ (List.subset_append_right l₁ l₂)]

theorem mem_modify {t : Table ρ κ key} {k : κ} {f : ρ → ρ} {hf : ∀ r, key (f r) = key r}
    {r : ρ} (h : r ∈ (t.modify k f hf).rows) :
    (r ∈ t.rows ∧ key r ≠ k) ∨ ∃ r₀ ∈ t.rows, key r₀ = k ∧ r = f r₀ := by
  rw [rows_modify] at h
  obtain ⟨r₀, hr₀, rfl⟩ := List.mem_map.mp h
  by_cases hk : key r₀ = k
  · exact Or.inr ⟨r₀, hr₀, hk, by simp [hk]⟩
  · left; simpa [hk] using hr₀

theorem mem_modify_of_ne {t : Table ρ κ key} {k : κ} {f : ρ → ρ}
    {hf : ∀ r, key (f r) = key r} {r : ρ} (h : r ∈ t.rows) (hk : key r ≠ k) :
    r ∈ (t.modify k f hf).rows :=
  List.mem_map.mpr ⟨r, h, by simp [hk]⟩

/-- One row is counted differently. -/
theorem countP_modify {t : Table ρ κ key} {k : κ} {r : ρ} (h : t.find? k = some r) (f : ρ → ρ)
    (hf : ∀ r, key (f r) = key r) (p : ρ → Bool) :
    (t.modify k f hf).rows.countP p + (if p r then 1 else 0) =
      t.rows.countP p + if p (f r) then 1 else 0 := by
  obtain ⟨l₁, l₂, hrows, hrows'⟩ := modify_split h f hf
  rw [hrows, hrows']
  simp only [List.countP_append, List.countP_cons]
  omega

/-- An update that makes no difference to a count. -/
theorem countP_modify_eq (t : Table ρ κ key) (k : κ) (f : ρ → ρ) (hf : ∀ r, key (f r) = key r)
    {p : ρ → Bool} (hp : ∀ r, t.find? k = some r → p (f r) = p r) :
    (t.modify k f hf).rows.countP p = t.rows.countP p := by
  cases h : t.find? k with
  | some r =>
      have hcount := countP_modify h f hf p
      rw [hp r h] at hcount
      omega
  | none =>
      have hrows : (t.modify k f hf).rows = t.rows := by
        rw [rows_modify]
        conv_rhs => rw [← List.map_id t.rows]
        exact List.map_congr_left fun r hr => if_neg (find?_eq_none.mp h r hr)
      rw [hrows]

theorem countP_insert {t : Table ρ κ key} {r : ρ} (h : t.find? (key r) = none) (p : ρ → Bool) :
    (t.insert r).rows.countP p = t.rows.countP p + if p r then 1 else 0 := by
  rw [rows_insert h, List.countP_append, List.countP_singleton]

/-- Deletes the row with key `k`. -/
def erase (t : Table ρ κ key) (k : κ) : Table ρ κ key :=
  ⟨t.rows.filter (fun r => decide (key r ≠ k)), t.nodup.sublist (List.filter_sublist.map key)⟩

theorem find?_erase (t : Table ρ κ key) (k' k : κ) :
    (t.erase k').find? k = if k = k' then none else t.find? k := by
  by_cases hk : k = k'
  · subst hk
    rw [if_pos rfl, find?_eq_none]
    intro r hr
    simpa using (List.mem_filter.mp hr).2
  · rw [if_neg hk]
    show (t.rows.filter _).find? _ = t.rows.find? _
    rw [List.find?_filter]
    congr 1
    funext r
    by_cases hr : key r = k
    · simp [hr, hk]
    · simp [hr]

theorem mem_erase {t : Table ρ κ key} {k : κ} {r : ρ} :
    r ∈ (t.erase k).rows ↔ r ∈ t.rows ∧ key r ≠ k := by
  simp [erase]

/-- Deletes the rows. -/
def without [DecidableEq ρ] (t : Table ρ κ key) (rs : List ρ) : Table ρ κ key :=
  ⟨t.rows.filter (fun r => decide (r ∉ rs)), t.nodup.sublist (List.filter_sublist.map key)⟩

omit [DecidableEq κ] in
theorem without_append [DecidableEq ρ] (t : Table ρ κ key) (rs rs' : List ρ) :
    (t.without rs).without rs' = t.without (rs ++ rs') := by
  refine ext ?_
  show (t.rows.filter _).filter _ = t.rows.filter _
  rw [List.filter_filter]
  refine List.filter_congr fun r _ => ?_
  rw [← Bool.decide_and, decide_eq_decide, List.mem_append, not_or, and_comm]

theorem rows_foldl_erase (t : Table ρ κ key) (rs : List ρ) :
    (rs.foldl (fun t r => t.erase (key r)) t).rows =
      t.rows.filter fun r => decide (key r ∉ rs.map key) := by
  induction rs generalizing t with
  | nil => simp
  | cons a rs ih =>
      rw [List.foldl_cons, ih]
      show (t.rows.filter _).filter _ = _
      rw [List.filter_filter]
      refine List.filter_congr fun r _ => ?_
      rw [← Bool.decide_and, decide_eq_decide, List.map_cons, List.mem_cons, not_or, and_comm]

/-- Rows are deleted by their keys. -/
theorem foldl_erase [DecidableEq ρ] {t : Table ρ κ key} {rs : List ρ} (h : rs ⊆ t.rows) :
    rs.foldl (fun t r => t.erase (key r)) t = t.without rs := by
  refine ext ?_
  rw [rows_foldl_erase]
  refine List.filter_congr fun r hr => ?_
  rw [decide_eq_decide, not_iff_not, List.mem_map]
  constructor
  · rintro ⟨r', hr', hkey⟩
    rwa [t.eq_of_key_eq (h hr') hr hkey] at hr'
  · exact fun hmem => ⟨r, hmem, rfl⟩

end Table

end Transact
