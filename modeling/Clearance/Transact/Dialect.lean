/-
# `Transact.Dialect` — an engine from planned statements

A `Dialect` gives every statement of a development a `Plan`, and asks of the
plans that locks are waited for (or found free) and that a row is written under
the locks on its keys.  From that it gets an `Engine`, a `Rely` — the others
respect the locks one holds — and the rule `Guarded.exec` by which transactions
are shown to be isolated, one statement at a time.

The one thing left to a development is the named locks: which rows have to be
written under which of them (`Held` checks it).
-/
import Clearance.Transact.Sql

namespace Transact

variable {Sc : Schema} {L : Latches Sc}

open Schema

/-! ## Sane plans -/

namespace Plan

variable {α : Type} {d : Sc.Db}

/-- Locks are waited for, and rows are written under the locks on their keys. -/
def Sane (p : Plan L α) : Prop :=
  ∀ r, p.result = .ok r → r.locks ⊆ p.waits ∧ ∀ x ∈ r.writes, x.uniques L ⊆ r.locks

theorem sane_of_nil {p : Plan L α} (h : ∀ r, p.result = .ok r → r.locks = [] ∧ r.writes = []) :
    p.Sane := by
  intro r hr
  rw [(h r hr).1, (h r hr).2]
  exact ⟨List.nil_subset _, fun x hx => absurd hx List.not_mem_nil⟩

theorem read_sane (a : Except (Fault Sc) α) : (read a : Plan L α).Sane := by
  refine sane_of_nil fun r hr => ?_
  obtain ⟨v, _, rfl⟩ := read_ok.mp hr
  exact ⟨rfl, rfl⟩

theorem latch_sane (n : L.Name) : (latch n).Sane := by
  intro r hr
  cases hr
  exact ⟨List.Subset.refl _, fun x hx => absurd hx List.not_mem_nil⟩

theorem lockRow_sane (t : Sc.Tab) (k : Sc.Key t) : (lockRow t k d : Plan L _).Sane := by
  intro r hr
  unfold lockRow at hr ⊢
  cases hf : find? d t k with
  | none =>
      rw [hf] at hr
      cases hr
      exact ⟨List.nil_subset _, fun x hx => absurd hx List.not_mem_nil⟩
  | some v =>
      rw [hf] at hr
      cases hr
      exact ⟨List.Subset.refl _, fun x hx => absurd hx List.not_mem_nil⟩

theorem insertWaits_eq {t : Sc.Tab} {r : Sc.Row t} (h : ∀ k ∈ keys r, taken d k = false) :
    insertWaits d r = (Write.insert t r).uniques L := by
  have : (keys r).takeWhile (fun k => !taken d k) = keys r :=
    List.takeWhile_eq_self_iff.mpr fun k hk => by rw [h k hk]; rfl
  rw [insertWaits, this]
  rfl

theorem insertAll_waits {rs : List (AnyRow Sc)} (h : Insertable d rs) :
    (insertAll (L := L) d rs).1 = locksOf (inserts rs) := by
  induction rs generalizing d with
  | nil => rfl
  | cons a rs ih =>
      obtain ⟨t, r⟩ := a
      obtain ⟨hc, hk, hrs⟩ := h
      rw [insertAll, violation_eq_none.mpr ⟨hc, hk⟩]
      simp only [insertWaits_eq hk, ih hrs]
      rfl

theorem insert_sane (rs : List (AnyRow Sc)) : (insert rs d : Plan L Unit).Sane := by
  intro r hr
  obtain ⟨hi, _, rfl⟩ := insert_ok.mp hr
  refine ⟨?_, fun x hx => uniques_subset_locksOf hx⟩
  show locksOf (inserts rs) ⊆ (insertAll (L := L) d rs).1
  rw [insertAll_waits hi]
  exact List.Subset.refl _

theorem insertOrSkip_sane {t : Sc.Tab} (r : Sc.Row t) :
    (insertOrSkip r d : Plan L Bool).Sane := by
  intro e he
  unfold insertOrSkip at he ⊢
  split at he
  · cases he
  · split at he
    · cases he
      exact ⟨List.nil_subset _, fun x hx => absurd hx List.not_mem_nil⟩
    · split at he
      · cases he
      · cases he
        refine ⟨List.Subset.refl _, fun x hx => ?_⟩
        rw [List.mem_singleton.mp hx]
        exact List.Subset.refl _

theorem updateRow_sane (t : Sc.Tab) (k : Sc.Key t) (g : Sc.Row t → Bool) (u : Sc.Upd t) :
    (updateRow t k g u d : Plan L _).Sane := by
  intro e he
  unfold updateRow at he ⊢
  split at he
  · cases he
    exact ⟨List.nil_subset _, fun x hx => absurd hx List.not_mem_nil⟩
  · split at he
    · cases he
    · cases he
      refine ⟨List.Subset.refl _, fun x hx => ?_⟩
      rw [List.mem_singleton.mp hx]
      exact List.Subset.refl _

theorem write_sane (a : α) (ws : List Sc.Write) : (write a ws : Plan L α).Sane := by
  intro e he
  cases he
  exact ⟨List.Subset.refl _, fun x hx => uniques_subset_locksOf hx⟩

theorem writeUnder_sane (n : L.Name) (a : α) (ws : List Sc.Write) :
    (writeUnder n a ws).Sane := by
  intro e he
  cases he
  refine ⟨List.Subset.refl _, fun x hx => ?_⟩
  exact List.Subset.trans (uniques_subset_locksOf hx) (List.subset_cons_self _ _)

theorem error_sane (w : List (Lock L)) (e : Fault Sc) : (⟨w, .error e⟩ : Plan L α).Sane := by
  intro r hr
  cases hr

theorem idle_sane (w : List (Lock L)) (a : α) :
    (⟨w, .ok { reply := a }⟩ : Plan L α).Sane := by
  intro r hr
  cases hr
  exact ⟨List.nil_subset _, fun x hx => absurd hx List.not_mem_nil⟩

end Plan

/-! ## The engine -/

/-- Statements with plans. -/
structure Dialect (L : Latches Sc) where
  Stmt : Type
  Reply : Stmt → Type
  plan : (s : Stmt) → (Lock L → Bool) → Sc.Db → Plan L (Reply s)
  waits_locks : ∀ {s f d r}, (plan s f d).result = .ok r → ∀ k ∈ r.locks,
    k ∈ (plan s (fun _ => false) d).waits ∨ f k = false
  writes_locked : ∀ {s f d r}, (plan s f d).result = .ok r → ∀ x ∈ r.writes,
    x.uniques L ⊆ r.locks

namespace Dialect

variable (D : Dialect L)

/-- The statements as transactions see them. -/
@[reducible] def sig : Signature where
  Stmt := D.Stmt
  Reply := D.Reply
  Fault := Fault Sc

/-- The engine that executes plans. -/
@[reducible] def engine : Engine D.sig where
  Db := Sc.Db
  Write := Sc.Write
  Lock := Lock L
  decLock := inferInstance
  apply := apply
  needs s d := (D.plan s (fun _ => false) d).waits
  exec s f d := (D.plan s f d).result
  outage := .outage
  locks_needed := D.waits_locks

/-- The others leave alone what one's locks protect. -/
@[reducible] def rely : Rely D.engine where
  rel l d d' := AgreeOn l d d'
  refl _ d k _ := agree.refl k d
  trans h h' k hk := agree.trans (h k hk) (h' k hk)
  mono := AgreeOn.mono

end Dialect

/-- The writes have been made under the locks. -/
def Held (l : List (Lock L)) (w : List Sc.Write) : Prop := ∀ x ∈ w, x.footprint L ⊆ l

theorem Held.nil (l : List (Lock L)) : Held l [] := fun _ hx => absurd hx List.not_mem_nil

theorem Held.append {l l' : List (Lock L)} {w w' : List Sc.Write} (h : Held l w)
    (h' : Held (l ++ l') w') : Held (l ++ l') (w ++ w') := by
  intro x hx
  rcases List.mem_append.mp hx with hx | hx
  · exact List.Subset.trans (h x hx) (List.subset_append_left l l')
  · exact h' x hx

variable {D : Dialect L}

theorem Held.guar {l : List (Lock L)} {w : List Sc.Write} (h : Held l w) : Guar D.rely l w := by
  intro d l' hdisj
  induction w generalizing d with
  | nil => exact D.rely.refl l' d
  | cons x w ih =>
      have hx : D.rely.rel l' d (apply d x) := fun k hk =>
        frame d fun hk' => hdisj (h x List.mem_cons_self hk') hk
      exact D.rely.trans hx (ih (fun y hy => h y (List.mem_cons_of_mem x hy)) (apply d x))

/-- Sessions on databases that agree see databases that agree. -/
theorem Held.view {l : List (Lock L)} {w : List Sc.Write} (h : Held l w) {d d' : Sc.Db}
    (hr : AgreeOn l d d') : AgreeOn l (D.engine.view d w) (D.engine.view d' w) :=
  hr.foldl fun x hx => List.Subset.trans (uniques_subset x) (h x hx)

/-- One statement of an isolated transaction. -/
theorem Guarded.exec {ε α : Type} {s : D.Stmt} {e : Fault Sc → ε} {k : D.Reply s → Tx D.sig ε α}
    {l : List (Lock L)} {w : List Sc.Write} {Q : α → List (Lock L) → List Sc.Write → Prop}
    (hw : Held l w)
    (h : ∀ d f r, (D.plan s f d).result = .ok r → Held (l ++ r.locks) r.writes ∧
      ((∃ e', k r.reply = .throw e') ∨
        ∀ d', AgreeOn (l ++ r.locks) d d' → (D.plan s f d').result = .ok r) ∧
      (Held (l ++ r.locks) (w ++ r.writes) →
        Guarded D.rely (k r.reply) (l ++ r.locks) (w ++ r.writes) Q)) :
    Guarded D.rely (.exec s e k) l w Q := by
  intro d f r hx
  obtain ⟨hheld, hfix, hk⟩ := h (D.engine.view d w) f r hx
  refine ⟨hheld.guar, ?_, hk (hw.append hheld)⟩
  rcases hfix with he | hfix
  · exact Or.inl he
  · right
    intro d' hr
    have hsub : Held (l ++ r.locks) w := fun x hx =>
      List.Subset.trans (hw x hx) (List.subset_append_left l r.locks)
    exact hfix _ (hsub.view hr)

end Transact
