/-
# `Patches` — a list rewritten item by item

`upTo f n` puts the piece `f i` in the place of item `i`, for every `i` below `n`.  Where the
pieces are the items themselves the list is copied (`upTo_of_kept`); where they are empty it is
left out (`upTo_of_nil`).  A piece of one item is found behind the pieces before it
(`getElem?_upTo`), so the length of those is the place an item has moved to.
-/
import Mathlib.Data.List.Basic
import Mathlib.Data.Nat.Init

namespace Patches

variable {α : Type} (f : Nat → List α)

/-- The pieces for the first `n` items. -/
def upTo (n : Nat) : List α := (List.range n).flatMap f

theorem upTo_succ (n : Nat) : upTo f (n + 1) = upTo f n ++ f n := by
  rw [upTo, upTo, List.range_succ, List.flatMap_append, List.flatMap_singleton]

variable {f} {text : List α} {m n : Nat}

/-- Items that stay. -/
theorem upTo_of_kept (hmn : m ≤ n) (hn : n ≤ text.length)
    (h : ∀ i, m ≤ i → i < n → f i = text[i]?.toList) :
    upTo f n = upTo f m ++ (text.take n).drop m := by
  induction n, hmn using Nat.le_induction with
  | base => simp
  | succ n hmn ih =>
      have hlast : text[n]? = some text[n] := List.getElem?_eq_getElem hn
      have hdrop : (text.take (n + 1)).drop m = (text.take n).drop m ++ [text[n]] := by
        rw [List.take_add_one, hlast, Option.toList_some, List.drop_append_of_le_length]
        rw [List.length_take]
        omega
      rw [upTo_succ, ih (Nat.le_of_succ_le hn) fun i hi hin => h i hi (Nat.lt_succ_of_lt hin),
        h n hmn (Nat.lt_succ_self n), hlast, Option.toList_some, List.append_assoc, hdrop]

/-- Items that go. -/
theorem upTo_of_nil (hmn : m ≤ n) (h : ∀ i, m ≤ i → i < n → f i = []) : upTo f n = upTo f m := by
  induction n, hmn using Nat.le_induction with
  | base => rfl
  | succ n hmn ih =>
      rw [upTo_succ, h n hmn (Nat.lt_succ_self n), List.append_nil]
      exact ih fun i hi hin => h i hi (Nat.lt_succ_of_lt hin)

theorem upTo_prefix (f : Nat → List α) (hmn : m ≤ n) : ∃ rest, upTo f n = upTo f m ++ rest := by
  induction n, hmn using Nat.le_induction with
  | base => exact ⟨[], (List.append_nil _).symm⟩
  | succ n hmn ih =>
      obtain ⟨rest, hrest⟩ := ih
      exact ⟨rest ++ f n, by rw [upTo_succ, hrest, List.append_assoc]⟩

/-- Where an item is found afterwards. -/
theorem getElem?_upTo {b : α} (hmn : m < n) (h : f m = [b]) :
    (upTo f n)[(upTo f m).length]? = some b := by
  obtain ⟨rest, hrest⟩ := upTo_prefix f (Nat.succ_le_of_lt hmn)
  rw [hrest, upTo_succ, h, List.append_assoc, List.getElem?_append_right (Nat.le_refl _),
    Nat.sub_self]
  rfl

/-- What stands before an item moves less far than the item. -/
theorem length_upTo_lt {b : α} (hmn : m < n) (h : f m = [b]) :
    (upTo f m).length < (upTo f n).length := by
  obtain ⟨hlt, -⟩ := List.getElem?_eq_some_iff.mp (getElem?_upTo hmn h)
  exact hlt

/-- A list where every item stays. -/
theorem upTo_eq_self (h : ∀ i < text.length, f i = text[i]?.toList) :
    upTo f text.length = text := by
  rw [upTo_of_kept (Nat.zero_le _) (Nat.le_refl _) fun i _ => h i, List.take_length]
  rfl

end Patches
