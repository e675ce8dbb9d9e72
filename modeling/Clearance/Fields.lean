/-
# `Fields` — texts made of fields

A text that is made of fields with a separator between them can be taken apart again, if
the separator does not occur in the fields.  Numbers are fields in which nothing but
digits and a sign occurs.
-/
import Mathlib

namespace Fields

variable {α : Type}

/-- A list is taken apart at the first separator. -/
theorem append_sep_inj {sep : α} {l l' r r' : List α} (hl : sep ∉ l) (hl' : sep ∉ l')
    (h : l ++ sep :: r = l' ++ sep :: r') : l = l' ∧ r = r' := by
  induction l generalizing l' with
  | nil =>
      cases l' with
      | nil => exact ⟨rfl, (List.cons.inj h).2⟩
      | cons a l' => exact absurd ((List.cons.inj h).1 ▸ List.mem_cons_self) hl'
  | cons a l ih =>
      cases l' with
      | nil => exact absurd ((List.cons.inj h).1 ▸ List.mem_cons_self) hl
      | cons b l' =>
          obtain ⟨rfl, htail⟩ := List.cons.inj h
          obtain ⟨rfl, rfl⟩ := ih (fun hmem => hl (List.mem_cons_of_mem _ hmem))
            (fun hmem => hl' (List.mem_cons_of_mem _ hmem)) htail
          exact ⟨rfl, rfl⟩

/-- As many fields make the same list only if they are the same. -/
theorem intercalate_inj {sep : α} {xs ys : List (List α)} (hxs : ∀ x ∈ xs, sep ∉ x)
    (hys : ∀ y ∈ ys, sep ∉ y) (h : [sep].intercalate xs = [sep].intercalate ys)
    (hlen : xs.length = ys.length) : xs = ys := by
  induction xs generalizing ys with
  | nil => exact (List.length_eq_zero_iff.mp hlen.symm).symm
  | cons x xs ih =>
      cases ys with
      | nil => cases hlen
      | cons y ys =>
          obtain ⟨hx, hxs'⟩ := List.forall_mem_cons.mp hxs
          obtain ⟨hy, hys'⟩ := List.forall_mem_cons.mp hys
          cases xs with
          | nil =>
              obtain rfl : ys = [] := List.length_eq_zero_iff.mp (Nat.succ.inj hlen).symm
              simpa [List.intercalate] using h
          | cons x' xs =>
              cases ys with
              | nil => cases hlen
              | cons y' ys =>
                  have h' : x ++ sep :: [sep].intercalate (x' :: xs) =
                      y ++ sep :: [sep].intercalate (y' :: ys) := by
                    simpa [List.intercalate] using h
                  obtain ⟨rfl, hrest⟩ := append_sep_inj hx hy h'
                  rw [ih hxs' hys' hrest (Nat.succ.inj hlen)]

/-- What a number is written with. -/
theorem mem_toString_int {n : Int} {c : Char} (h : c ∈ (toString n).toList) :
    c.isDigit = true ∨ c = '-' := by
  have hnat : ∀ m : Nat, c ∈ (Nat.repr m).toList → c.isDigit = true := by
    intro m hm
    rw [Nat.toList_repr] at hm
    exact Nat.isDigit_of_mem_toDigits (by decide : 0 < 10) (by decide) hm
  rw [Int.toString_eq_repr] at h
  cases n with
  | ofNat m => exact Or.inl (hnat m h)
  | negSucc m =>
      rw [Int.repr, String.toList_append] at h
      rcases List.mem_append.mp h with h | h
      · exact Or.inr (List.mem_singleton.mp h)
      · exact Or.inl (hnat _ h)

/-- So other characters can separate it. -/
theorem notMem_toString_int {c : Char} (hdigit : c.isDigit = false) (hsign : c ≠ '-') (n : Int) :
    c ∉ (toString n).toList := by
  intro h
  rcases mem_toString_int h with h | h
  · rw [hdigit] at h
    cases h
  · exact hsign h

end Fields
