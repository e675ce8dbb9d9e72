/-
# `FixedWindow` — counting in windows that start with the first call

A limiter counts the calls of a window of length `W` and allows the first `L` of them.  A
window starts with a call, not at fixed times: the first call after the end of a window
starts the next.

An interval of length `W` meets two windows at most, so that `2 * L` calls are allowed in it
(`allowedIn_le`).  A call is rejected when `L` calls of its window were allowed before it,
and all of them are less than `W` ago (`le_allowedSince_of_rejected`).
-/
import Mathlib.Data.List.Basic
import Mathlib.Order.Interval.Set.Basic

namespace FixedWindow

/-- When the window started, and how many calls it has seen. -/
structure Window where
  start : Int
  count : Nat
  deriving DecidableEq

/-- A call that was decided. -/
structure Decision where
  time : Int
  allowed : Bool
  deriving DecidableEq

variable (W : Int) (L : Nat)

/-- The window a call falls in, with the call. -/
def hit (w : Option Window) (t : Int) : Window :=
  match w with
  | none => ⟨t, 1⟩
  | some w => if t < w.start + W then ⟨w.start, w.count + 1⟩ else ⟨t, 1⟩

/-- A call is allowed if it is one of the first `L`. -/
def judge (w : Option Window) (t : Int) : Decision := ⟨t, decide ((hit W w t).count ≤ L)⟩

/-- The calls, one after the other. -/
def decisions : Option Window → List Int → List Decision
  | _, [] => []
  | w, t :: ts => judge W L w t :: decisions (some (hit W w t)) ts

/-- How many calls were allowed in `[a, b)`. -/
def allowedIn (a b : Int) (g : List Decision) : Nat :=
  g.countP fun d => d.allowed && decide (a ≤ d.time) && decide (d.time < b)

/-- How many calls were allowed after `a`. -/
def allowedSince (a : Int) (g : List Decision) : Nat :=
  g.countP fun d => d.allowed && decide (a < d.time)

variable {W L} {a b s t : Int} {c : Nat} {w : Option Window} {ts : List Int} {d : Decision}
  {g : List Decision}

/-! ## Counting -/

theorem hit_within (h : t < s + W) : hit W (some ⟨s, c⟩) t = ⟨s, c + 1⟩ := if_pos h

theorem hit_after (h : s + W ≤ t) : hit W (some ⟨s, c⟩) t = ⟨t, 1⟩ := if_neg (not_lt.mpr h)

theorem start_hit_le (h : ∀ s c, w = some ⟨s, c⟩ → s ≤ t) : (hit W w t).start ≤ t := by
  rcases w with _ | ⟨s, c⟩
  · exact le_rfl
  · rcases lt_or_ge t (s + W) with ht | ht
    · rw [hit_within ht]
      exact h s c rfl
    · rw [hit_after ht]

theorem allowedIn_cons_le : allowedIn a b (decisions W L w (t :: ts)) ≤
    (if (hit W w t).count ≤ L then 1 else 0) +
      allowedIn a b (decisions W L (some (hit W w t)) ts) := by
  rw [decisions, allowedIn, List.countP_cons, allowedIn, judge]
  by_cases hle : (hit W w t).count ≤ L
  · simp only [hle, decide_true, Bool.true_and, if_true]
    split <;> omega
  · simp [hle]

theorem allowedIn_cons_of_lt (h : t < a) : allowedIn a b (decisions W L w (t :: ts)) =
    allowedIn a b (decisions W L (some (hit W w t)) ts) := by
  have hout : ¬ ((judge W L w t).allowed && decide (a ≤ t) && decide (t < b)) = true := by
    simp [not_le.mpr h]
  exact List.countP_cons_of_neg hout

theorem time_of_mem_decisions (h : d ∈ decisions W L w ts) : d.time ∈ ts := by
  induction ts generalizing w with
  | nil => exact absurd h List.not_mem_nil
  | cons t ts ih =>
      rcases List.mem_cons.mp h with rfl | h
      · exact List.mem_cons_self
      · exact List.mem_cons_of_mem _ (ih h)

/-- Nothing is allowed in an interval that is over. -/
theorem allowedIn_eq_zero (h : ∀ t ∈ ts, b ≤ t) : allowedIn a b (decisions W L w ts) = 0 := by
  refine List.countP_eq_zero.mpr fun d hd => ?_
  have hlate := h d.time (time_of_mem_decisions hd)
  simp [not_lt.mpr hlate]

/-! ## How many calls are allowed -/

/-- An interval that ends with the window: what the window has left. -/
theorem allowedIn_window (hsorted : ts.Pairwise (· ≤ ·)) (hb : b ≤ s + W) :
    allowedIn a b (decisions W L (some ⟨s, c⟩) ts) ≤ L - c := by
  induction ts generalizing c with
  | nil => exact Nat.zero_le _
  | cons t ts ih =>
      obtain ⟨hlater, hsorted⟩ := List.pairwise_cons.mp hsorted
      rcases lt_or_ge t (s + W) with ht | ht
      · have hrest := ih (c := c + 1) hsorted
        refine allowedIn_cons_le.trans ?_
        rw [hit_within ht]
        dsimp only
        split <;> omega
      · -- the window is over, and the interval with it
        refine le_of_eq_of_le (allowedIn_eq_zero fun t' ht' => ?_) (Nat.zero_le _)
        rcases List.mem_cons.mp ht' with rfl | ht'
        · omega
        · have := hlater t' ht'
          omega

/-- An interval that starts a new window: what that window has. -/
theorem allowedIn_new (hsorted : (t :: ts).Pairwise (· ≤ ·)) (hb : b ≤ t + W)
    (hhit : hit W w t = ⟨t, 1⟩) : allowedIn a b (decisions W L w (t :: ts)) ≤ L := by
  have hrest := allowedIn_window (L := L) (a := a) (c := 1) (List.pairwise_cons.mp hsorted).2 hb
  refine allowedIn_cons_le.trans ?_
  rw [hhit]
  dsimp only
  split <;> omega

/-- An interval that has begun: what the window has left, and the next one. -/
theorem allowedIn_begun (hsorted : ts.Pairwise (· ≤ ·)) (hb : b ≤ a + W)
    (hbegun : ∀ t ∈ ts, a ≤ t) :
    allowedIn a b (decisions W L (some ⟨s, c⟩) ts) ≤ (L - c) + L := by
  induction ts generalizing c with
  | nil => exact Nat.zero_le _
  | cons t ts ih =>
      obtain ⟨ha, hrest⟩ := List.forall_mem_cons.mp hbegun
      rcases lt_or_ge t (s + W) with ht | ht
      · have hih := ih (c := c + 1) (List.pairwise_cons.mp hsorted).2 hrest
        refine allowedIn_cons_le.trans ?_
        rw [hit_within ht]
        dsimp only
        split <;> omega
      · have hend : b ≤ t + W := by omega
        exact (allowedIn_new hsorted hend (hit_after ht)).trans (Nat.le_add_left _ _)

/-- At most two windows meet an interval of the same length. -/
theorem allowedIn_le (hsorted : ts.Pairwise (· ≤ ·)) (w : Option Window) (a : Int) :
    allowedIn a (a + W) (decisions W L w ts) ≤ 2 * L := by
  induction ts generalizing w with
  | nil => exact Nat.zero_le _
  | cons t ts ih =>
      obtain ⟨hlater, hrest⟩ := List.pairwise_cons.mp hsorted
      rcases lt_or_ge t a with ht | ht
      · rw [allowedIn_cons_of_lt ht]
        exact ih hrest _
      · have hbegun : ∀ t' ∈ t :: ts, a ≤ t' :=
          List.forall_mem_cons.mpr ⟨ht, fun t' ht' => ht.trans (hlater t' ht')⟩
        rcases w with _ | ⟨s, c⟩
        · have hend : a + W ≤ t + W := by omega
          exact (allowedIn_new hsorted hend rfl).trans (by omega)
        · exact (allowedIn_begun hsorted le_rfl hbegun).trans (by omega)

/-! ## When a call is rejected -/

/-- How many calls were allowed from `a` on. -/
def allowedFrom (a : Int) (g : List Decision) : Nat :=
  g.countP fun d => d.allowed && decide (a ≤ d.time)

theorem allowedFrom_concat (h : a ≤ t) : allowedFrom a (g ++ [judge W L w t]) =
    allowedFrom a g + if (hit W w t).count ≤ L then 1 else 0 := by
  simp [allowedFrom, judge, List.countP_append, List.countP_singleton, h]

/-- The calls of the window that `L` has room for were allowed. -/
def Accounted (L : Nat) (g : List Decision) (w : Option Window) : Prop :=
  ∀ s c, w = some ⟨s, c⟩ → min c L ≤ allowedFrom s g

theorem Accounted.hit (h : Accounted L g w) (hlater : ∀ s c, w = some ⟨s, c⟩ → s ≤ t) :
    Accounted L (g ++ [judge W L w t]) (some (hit W w t)) := by
  -- a window that starts with the call has nothing before it
  have hnew : FixedWindow.hit W w t = ⟨t, 1⟩ →
      Accounted L (g ++ [judge W L w t]) (some (FixedWindow.hit W w t)) := by
    intro hhit s c hw
    rw [hhit] at hw
    cases hw
    rw [allowedFrom_concat le_rfl, hhit]
    dsimp only
    split <;> omega
  rcases w with _ | ⟨s, c⟩
  · exact hnew rfl
  · rcases lt_or_ge t (s + W) with ht | ht
    · intro s' c' hw
      rw [hit_within ht] at hw
      cases hw
      have hbefore := h s c rfl
      rw [allowedFrom_concat (hlater s c rfl), hit_within ht]
      dsimp only
      split <;> omega
    · exact hnew (hit_after ht)

/-- What is rejected is in a window that has allowed as much as it can. -/
theorem Accounted.rejected (h : Accounted L g w) (ht : (judge W L w t).allowed = false) :
    L ≤ allowedSince (t - W) g := by
  have hfull : L < (FixedWindow.hit W w t).count := by simpa [judge] using ht
  have hnew : FixedWindow.hit W w t = ⟨t, 1⟩ → L ≤ allowedSince (t - W) g := by
    intro hhit
    rw [hhit] at hfull
    dsimp only at hfull
    omega
  rcases w with _ | ⟨s, c⟩
  · exact hnew rfl
  · rcases lt_or_ge t (s + W) with hwithin | hafter
    · rw [hit_within hwithin] at hfull
      dsimp only at hfull
      have hallowed : min c L ≤ allowedFrom s g := h s c rfl
      have hsince : allowedFrom s g ≤ allowedSince (t - W) g := by
        refine List.countP_mono_left fun d _ hd => ?_
        simp only [Bool.and_eq_true, decide_eq_true_eq] at hd ⊢
        exact ⟨hd.1, by omega⟩
      omega
    · exact hnew (hit_after hafter)

theorem Accounted.rejected_later {g₀ g' : List Decision} (h : Accounted L g₀ w)
    (hsorted : ts.Pairwise (· ≤ ·)) (hlater : ∀ s c, w = some ⟨s, c⟩ → ∀ t ∈ ts, s ≤ t)
    (heq : decisions W L w ts = g ++ d :: g') (hd : d.allowed = false) :
    L ≤ allowedSince (d.time - W) (g₀ ++ g) := by
  induction ts generalizing w g₀ g with
  | nil => simp [decisions] at heq
  | cons t ts ih =>
      obtain ⟨hnext, hsorted⟩ := List.pairwise_cons.mp hsorted
      have hstarted : ∀ s c, w = some ⟨s, c⟩ → s ≤ t := fun s c hw =>
        hlater s c hw t List.mem_cons_self
      rw [decisions] at heq
      cases g with
      | nil =>
          obtain ⟨rfl, -⟩ := List.cons.inj heq
          rw [List.append_nil]
          exact h.rejected hd
      | cons d' g =>
          obtain ⟨rfl, htail⟩ := List.cons.inj heq
          have hrest := ih (h.hit hstarted) hsorted ?_ htail
          · rwa [List.append_assoc] at hrest
          · intro s c hw t' ht'
            have hstart := start_hit_le (W := W) hstarted
            rw [Option.some.inj hw] at hstart
            exact hstart.trans (hnext t' ht')

/-- A call is rejected only if `L` calls before it were allowed that are less than `W` ago. -/
theorem le_allowedSince_of_rejected {g' : List Decision} (hsorted : ts.Pairwise (· ≤ ·))
    (heq : decisions W L none ts = g ++ d :: g') (hd : d.allowed = false) :
    L ≤ allowedSince (d.time - W) g := by
  have haccounted : Accounted L [] none := nofun
  exact haccounted.rejected_later hsorted nofun heq hd

end FixedWindow
