/-
# `Framing` — codes that say where they end

A `Code` writes a value as bytes such that a reader finds where it ends: reading what has
been written, with anything behind it, gives the value and what is behind it.  The law is
part of the code, so codes built from codes are codes.
-/
import Mathlib.Data.List.Basic
import Mathlib.Tactic.Common

namespace Framing

variable {α β : Type}

/-- How values are written and read. -/
structure Code (α : Type) where
  put : α → List UInt8
  take : List UInt8 → Option (α × List UInt8)
  take_put : ∀ a rest, take (put a ++ rest) = some (a, rest)

namespace Code

/-- The digits of a number to the base 128, the last one first; none of them is zero.  The
first argument is fuel. -/
def digits : Nat → Nat → List UInt8
  | 0, _ => []
  | fuel + 1, n => if n = 0 then [] else UInt8.ofNat (n % 128 + 1) :: digits fuel (n / 128)

/-- The number up to the first zero. -/
def takeNat : List UInt8 → Option (Nat × List UInt8)
  | [] => none
  | b :: rest =>
      if b = 0 then some (0, rest) else (takeNat rest).map fun p => (b.toNat - 1 + 128 * p.1, p.2)

theorem takeNat_digits (rest : List UInt8) {fuel n : Nat} (h : n ≤ fuel) :
    takeNat (digits fuel n ++ 0 :: rest) = some (n, rest) := by
  induction fuel generalizing n with
  | zero =>
      obtain rfl : n = 0 := by omega
      rfl
  | succ fuel ih =>
      by_cases hn : n = 0
      · subst hn
        rfl
      · have hdigit : (UInt8.ofNat (n % 128 + 1)).toNat = n % 128 + 1 := by
          rw [UInt8.toNat_ofNat']
          omega
        have hne : UInt8.ofNat (n % 128 + 1) ≠ 0 := by
          intro hzero
          rw [hzero] at hdigit
          have : (0 : UInt8).toNat = 0 := rfl
          omega
        have hrest := ih (n := n / 128) (by omega)
        rw [digits, if_neg hn, List.cons_append, takeNat, if_neg hne, hrest, Option.map_some,
          hdigit]
        congr 2
        omega

def nat : Code Nat where
  put n := digits n n ++ [0]
  take := takeNat
  take_put n rest := by
    rw [List.append_assoc]
    exact takeNat_digits rest (Nat.le_refl n)

/-- One after the other. -/
def pair (c : Code α) (c' : Code β) : Code (α × β) where
  put p := c.put p.1 ++ c'.put p.2
  take b := (c.take b).bind fun p => (c'.take p.2).map fun q => ((p.1, q.1), q.2)
  take_put p rest := by
    rw [List.append_assoc, c.take_put, Option.bind_some, c'.take_put]
    rfl

/-- Values written as others. -/
def via (c : Code β) (f : α → β) (g : β → Option α) (h : ∀ a, g (f a) = some a) : Code α where
  put a := c.put (f a)
  take b := (c.take b).bind fun p => (g p.1).map fun a => (a, p.2)
  take_put a rest := by
    rw [c.take_put, Option.bind_some, h]
    rfl

def int : Code Int :=
  (nat.pair nat).via
    (fun | .ofNat n => (0, n) | .negSucc n => (1, n))
    (fun p => some (if p.1 = 0 then .ofNat p.2 else .negSucc p.2))
    fun n => by cases n <;> rfl

/-- Bytes, with their number in front. -/
def bytes : Code (List UInt8) where
  put b := nat.put b.length ++ b
  take b := (nat.take b).map fun p => (p.2.take p.1, p.2.drop p.1)
  take_put b rest := by
    rw [List.append_assoc, nat.take_put, Option.map_some, List.take_left, List.drop_left]

/-- What a reader that wants nothing behind it finds. -/
def read (c : Code α) (b : List UInt8) : Option α :=
  match c.take b with
  | some (a, []) => some a
  | _ => none

theorem read_put (c : Code α) (a : α) : c.read (c.put a) = some a := by
  have h := c.take_put a []
  rw [List.append_nil] at h
  rw [read, h]

end Code

end Framing
