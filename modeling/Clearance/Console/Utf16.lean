/-
# `Utf16` — texts as code units

A text of JavaScript is a list of 16-bit code units, in which surrogates need not come in
pairs.  `scalars` reads it as characters, as an encoder to UTF-8 does: a pair is one
character, and a surrogate that is alone becomes U+FFFD.

Every character stems from some unit (`Stems`): it has the same code, or it is U+FFFD, or it
is outside of the basic plane.  The first character stems from the first unit, the last one
from the last.
-/
import Mathlib.Data.List.Basic

namespace Utf16

/-- A text. -/
abbrev Units := List UInt16

def isHigh (u : UInt16) : Bool := 0xd800 ≤ u.toNat && u.toNat ≤ 0xdbff

def isLow (u : UInt16) : Bool := 0xdc00 ≤ u.toNat && u.toNat ≤ 0xdfff

/-- The character of a surrogate pair. -/
def pair (u v : UInt16) : Char :=
  Char.ofNat (0x10000 + (u.toNat - 0xd800) * 0x400 + (v.toNat - 0xdc00))

/-- The character of a unit that is not part of a pair. -/
def alone (u : UInt16) : Char := if isHigh u || isLow u then '�' else Char.ofNat u.toNat

/-- The characters of a text. -/
def scalars : Units → List Char
  | [] => []
  | [u] => [alone u]
  | u :: v :: rest =>
      if isHigh u && isLow v then pair u v :: scalars rest else alone u :: scalars (v :: rest)

/-- Where a character comes from. -/
def Stems (u : UInt16) (c : Char) : Prop :=
  c.toNat = 0xfffd ∨ 0x10000 ≤ c.toNat ∨ c.toNat = u.toNat

theorem toNat_ofNat {n : Nat} (h : n.isValidChar) : (Char.ofNat n).toNat = n := by
  rw [Char.ofNat, dif_pos h]
  rfl

theorem toNat_alone {u : UInt16} (h : u.toNat < 0xd800) : (alone u).toNat = u.toNat := by
  have hplain : (isHigh u || isLow u) = false := by
    simp only [isHigh, isLow, Bool.or_eq_false_iff, Bool.and_eq_false_iff, decide_eq_false_iff_not]
    omega
  rw [alone, hplain]
  exact toNat_ofNat (Or.inl h)

theorem alone_stems (u : UInt16) : Stems u (alone u) := by
  have hlt := u.toNat_lt
  unfold alone
  split
  · exact Or.inl rfl
  · next hplain =>
      refine Or.inr (Or.inr (toNat_ofNat ?_))
      simp only [isHigh, isLow, Bool.or_eq_true, Bool.and_eq_true, decide_eq_true_eq] at hplain
      unfold Nat.isValidChar
      omega

theorem le_toNat_pair {u v : UInt16} (h : (isHigh u && isLow v) = true) :
    0x10000 ≤ (pair u v).toNat := by
  simp only [isHigh, isLow, Bool.and_eq_true, decide_eq_true_eq] at h
  rw [pair, toNat_ofNat (by unfold Nat.isValidChar; omega)]
  omega

theorem pair_stems {u v : UInt16} (h : (isHigh u && isLow v) = true) (w : UInt16) :
    Stems w (pair u v) :=
  Or.inr (Or.inl (le_toNat_pair h))

theorem scalars_cons (u : UInt16) (l : Units) :
    ∃ c cs, scalars (u :: l) = c :: cs ∧ Stems u c := by
  cases l with
  | nil => exact ⟨alone u, [], rfl, alone_stems u⟩
  | cons v l =>
      by_cases hpair : (isHigh u && isLow v) = true
      · exact ⟨pair u v, scalars l, if_pos hpair, pair_stems hpair u⟩
      · exact ⟨alone u, scalars (v :: l), if_neg hpair, alone_stems u⟩

theorem scalars_concat (l : Units) (u : UInt16) :
    ∃ cs c, scalars (l ++ [u]) = cs ++ [c] ∧ Stems u c := by
  induction l using scalars.induct with
  | case1 => exact ⟨[], alone u, rfl, alone_stems u⟩
  | case2 v =>
      by_cases hpair : (isHigh v && isLow u) = true
      · exact ⟨[], pair v u, if_pos hpair, pair_stems hpair u⟩
      · exact ⟨[alone v], alone u, if_neg hpair, alone_stems u⟩
  | case3 v v' rest hpair ih =>
      obtain ⟨cs, c, hcs, hc⟩ := ih
      refine ⟨pair v v' :: cs, c, ?_, hc⟩
      rw [List.cons_append, List.cons_append, scalars, if_pos hpair, hcs]
      rfl
  | case4 v v' rest hpair ih =>
      obtain ⟨cs, c, hcs, hc⟩ := ih
      refine ⟨alone v :: cs, c, ?_, hc⟩
      rw [List.cons_append, List.cons_append, scalars, if_neg hpair, ← List.cons_append, hcs]
      rfl

theorem mem_scalars {l : Units} {c : Char} (h : c ∈ scalars l) : ∃ u ∈ l, Stems u c := by
  induction l using scalars.induct with
  | case1 => exact absurd h List.not_mem_nil
  | case2 u =>
      obtain rfl := List.mem_singleton.mp h
      exact ⟨u, List.mem_singleton_self u, alone_stems u⟩
  | case3 u v rest hpair ih =>
      rw [scalars, if_pos hpair] at h
      rcases List.mem_cons.mp h with hc | h
      · rw [hc]
        exact ⟨u, List.mem_cons_self, pair_stems hpair u⟩
      · obtain ⟨w, hw, hc⟩ := ih h
        exact ⟨w, List.mem_cons_of_mem _ (List.mem_cons_of_mem _ hw), hc⟩
  | case4 u v rest hpair ih =>
      rw [scalars, if_neg hpair] at h
      rcases List.mem_cons.mp h with rfl | h
      · exact ⟨u, List.mem_cons_self, alone_stems u⟩
      · obtain ⟨w, hw, hc⟩ := ih h
        exact ⟨w, List.mem_cons_of_mem _ hw, hc⟩

/-- A text of the basic plane without surrogates is read unit by unit. -/
theorem scalars_of_plain {l : Units} (h : ∀ u ∈ l, u.toNat < 0xd800) :
    scalars l = l.map alone := by
  induction l using scalars.induct with
  | case1 => rfl
  | case2 u => rfl
  | case3 u v rest hpair ih =>
      have hu := h u List.mem_cons_self
      simp only [isHigh, isLow, Bool.and_eq_true, decide_eq_true_eq] at hpair
      omega
  | case4 u v rest hpair ih =>
      rw [scalars, if_neg hpair, ih fun w hw => h w (List.mem_cons_of_mem _ hw)]
      rfl

end Utf16
