/-
# `Transact.Reorder` — the same steps in another order

Some of the items of a list belong to a class.  A `Reordering` has the same items, and
each class in the same order; items of different classes, and items of none, may change
places.  If items that may change places commute, it makes no difference to a fold
(`Reordering.foldl_eq`).

The steps need to commute on the states that come up only: there may be an invariant.
-/
import Mathlib

namespace Transact

variable {α κ σ : Type} {cls : α → Option κ} {l l' : List α}

/-- The items are not in one class. -/
def Apart (cls : α → Option κ) (a b : α) : Prop := ∀ k, cls a = some k → cls b ≠ some k

theorem Apart.symm {a b : α} (h : Apart cls a b) : Apart cls b a :=
  fun k hb ha => h k ha hb

variable [DecidableEq κ]

instance {a b : α} : Decidable (Apart cls a b) :=
  match h : cls a with
  | none => .isTrue fun k ha => by cases h.symm.trans ha
  | some k =>
      if hb : cls b = some k then .isFalse fun hapart => hapart k h hb
      else .isTrue fun k' ha => Option.some.inj (h.symm.trans ha) ▸ hb

/-- The same items, and each class in the same order. -/
structure Reordering (cls : α → Option κ) (l l' : List α) : Prop where
  perm : l.Perm l'
  classes : ∀ k, l.filter (fun a => cls a = some k) = l'.filter fun a => cls a = some k

/-- Only the classes that there are need a look. -/
theorem reordering_iff : Reordering cls l l' ↔ l.Perm l' ∧ ∀ k ∈ l.filterMap cls,
    l.filter (fun a => cls a = some k) = l'.filter fun a => cls a = some k := by
  constructor
  · exact fun h => ⟨h.perm, fun k _ => h.classes k⟩
  · rintro ⟨hperm, hclasses⟩
    refine ⟨hperm, fun k => ?_⟩
    by_cases hk : k ∈ l.filterMap cls
    · exact hclasses k hk
    · have hnone : ∀ a ∈ l, ¬ decide (cls a = some k) = true := by
        intro a ha hcls
        exact hk (List.mem_filterMap.mpr ⟨a, ha, of_decide_eq_true hcls⟩)
      rw [List.filter_eq_nil_iff.mpr hnone,
        List.filter_eq_nil_iff.mpr fun a ha => hnone a (hperm.mem_iff.mpr ha)]

instance [DecidableEq α] : Decidable (Reordering cls l l') := decidable_of_iff _ reordering_iff.symm

/-- The first item is found again, behind others that it may change places with. -/
theorem Reordering.split {a : α} (h : Reordering cls (a :: l) l') :
    ∃ u v, l' = u ++ a :: v ∧ (∀ b ∈ u, Apart cls a b) ∧ Reordering cls l (u ++ v) := by
  have hsplit : ∃ u v, l' = u ++ a :: v ∧ ∀ b ∈ u, Apart cls a b := by
    cases hcls : cls a with
    | none =>
        obtain ⟨u, v, hl'⟩ := List.append_of_mem (h.perm.subset List.mem_cons_self)
        exact ⟨u, v, hl', fun b _ k ha => by rw [hcls] at ha; cases ha⟩
    | some k =>
        have hk := h.classes k
        rw [List.filter_cons_of_pos (by simpa using hcls)] at hk
        obtain ⟨u, v, hl', hu, -, -⟩ := List.filter_eq_cons_iff.mp hk.symm
        refine ⟨u, v, hl', fun b hb k' ha hb' => ?_⟩
        obtain rfl : k = k' := Option.some.inj (hcls.symm.trans ha)
        exact hu b hb (by simpa using hb')
  obtain ⟨u, v, rfl, hu⟩ := hsplit
  refine ⟨u, v, rfl, hu, (h.perm.trans List.perm_middle).cons_inv, fun k => ?_⟩
  have hk := h.classes k
  rw [List.filter_append, List.filter_cons, List.filter_cons] at hk
  rw [List.filter_append]
  split at hk
  · next hcls =>
      -- nothing of the class stands before the item
      have hnil : u.filter (fun b => cls b = some k) = [] := by
        refine List.filter_eq_nil_iff.mpr fun b hb hb' => ?_
        exact hu b hb k (by simpa using hcls) (by simpa using hb')
      rw [hnil, List.nil_append] at hk ⊢
      exact (List.cons.inj hk).2
  · exact hk

variable {act : σ → α → σ} {I : σ → Prop} {s : σ}

/-- An item is moved to the front. -/
theorem foldl_move {a : α} {u : List α} (hI : ∀ b ∈ u, ∀ s, I s → I (act s b))
    (hcomm : ∀ b ∈ u, ∀ s, I s → act (act s a) b = act (act s b) a) (hs : I s) :
    act (u.foldl act s) a = u.foldl act (act s a) := by
  induction u generalizing s with
  | nil => rfl
  | cons b u ih =>
      rw [List.foldl_cons, List.foldl_cons, hcomm b List.mem_cons_self s hs]
      exact ih (fun b' hb' => hI b' (List.mem_cons_of_mem _ hb'))
        (fun b' hb' => hcomm b' (List.mem_cons_of_mem _ hb')) (hI b List.mem_cons_self s hs)

/-- The order of steps that commute makes no difference. -/
theorem Reordering.foldl_eq (h : Reordering cls l l') (hI : ∀ a ∈ l, ∀ s, I s → I (act s a))
    (hcomm : l.Pairwise fun a b => Apart cls a b → ∀ s, I s → act (act s a) b = act (act s b) a)
    (hs : I s) : l.foldl act s = l'.foldl act s := by
  induction l generalizing l' s with
  | nil => rw [List.nil_perm.mp h.perm]
  | cons a l ih =>
      obtain ⟨u, v, rfl, hu, hrest⟩ := h.split
      obtain ⟨ha, hl⟩ := List.pairwise_cons.mp hcomm
      have hmem : ∀ b ∈ u, b ∈ l :=
        fun b hb => hrest.perm.symm.subset (List.mem_append_left _ hb)
      have hmove := foldl_move (fun b hb => hI b (List.mem_cons_of_mem _ (hmem b hb)))
        (fun b hb => ha b (hmem b hb) (hu b hb)) hs
      rw [List.foldl_append, List.foldl_cons, List.foldl_cons, hmove, ← List.foldl_append]
      exact ih hrest (fun b hb => hI b (List.mem_cons_of_mem _ hb)) hl
        (hI a List.mem_cons_self s hs)

end Transact
