/-
# `RetryQueue` — a queue whose items may be tried again

Items are tried in their order.  One that succeeds leaves the queue; one that fails ends the
call and stays at the head, with one try less, until it has none left.

Whatever a call does, what is still to be tried is what was to be tried before, less what the
call tried (`tries_call`): a failing item has to be tried as often as it may, any other once.
Every call but the last uses up a try of a failing item, so the queue is empty after one more
call than there are such tries (`calls_eq_nil`).
-/
import Mathlib

namespace RetryQueue

variable {α : Type} (fails : α → Bool)

/-- The items, and how often each may still be tried. -/
abbrev Queue (α : Type) := List (α × Nat)

/-- A failing item after a try. -/
def again (a : α) (left : Nat) (q : Queue α) : Queue α :=
  if left ≤ 1 then q else (a, left - 1) :: q

/-- What a call tries, and what it leaves. -/
def call : Queue α → List α × Queue α
  | [] => ([], [])
  | (a, left) :: q =>
      if fails a then ([a], again a left q)
      else (a :: (call q).1, (call q).2)

/-- Several calls, one after the other. -/
def calls : Nat → Queue α → List α × Queue α
  | 0, q => ([], q)
  | n + 1, q => ((call fails q).1 ++ (calls n (call fails q).2).1, (calls n (call fails q).2).2)

/-- What is still to be tried. -/
def tries (q : Queue α) : List α :=
  q.flatMap fun i => if fails i.1 then List.replicate i.2 i.1 else [i.1]

/-- The tries of failing items. -/
def budget (q : Queue α) : Nat := (q.map fun i => if fails i.1 then i.2 else 0).sum

/-- Every item may be tried. -/
def Live (q : Queue α) : Prop := ∀ i ∈ q, 1 ≤ i.2

variable {fails}

theorem budget_eq (q : Queue α) :
    budget fails q = ((q.filter fun i => fails i.1).map Prod.snd).sum := by
  unfold budget
  induction q with
  | nil => rfl
  | cons i q ih =>
      rw [List.map_cons, List.sum_cons, ih, List.filter_cons]
      split
      · rw [List.map_cons, List.sum_cons]
      · exact Nat.zero_add _

theorem tries_again {a : α} {left : Nat} {q : Queue α} (ha : fails a = true) (hleft : 1 ≤ left) :
    tries fails ((a, left) :: q) = a :: tries fails (again a left q) := by
  obtain ⟨n, rfl⟩ := Nat.exists_eq_add_of_le' hleft
  cases n with
  | zero => simp [tries, again, ha]
  | succ n => simp [tries, again, ha, List.replicate_succ]

theorem Live.again {a : α} {left : Nat} {q : Queue α} (h : Live q) :
    Live (again a left q) := by
  unfold RetryQueue.again
  split
  · exact h
  · exact List.forall_mem_cons.mpr ⟨by omega, h⟩

theorem Live.call {q : Queue α} (h : Live q) : Live (call fails q).2 := by
  induction q with
  | nil => exact h
  | cons i q ih =>
      obtain ⟨-, hq⟩ := List.forall_mem_cons.mp h
      rw [RetryQueue.call]
      split
      · exact Live.again hq
      · exact ih hq

theorem tries_call {q : Queue α} (h : Live q) :
    tries fails q = (call fails q).1 ++ tries fails (call fails q).2 := by
  induction q with
  | nil => rfl
  | cons i q ih =>
      obtain ⟨a, left⟩ := i
      obtain ⟨hleft, hq⟩ := List.forall_mem_cons.mp h
      rw [call]
      cases ha : fails a with
      | true => exact tries_again ha hleft
      | false =>
          have hcons : tries fails ((a, left) :: q) = a :: tries fails q := by simp [tries, ha]
          rw [hcons, ih hq]
          rfl

/-- A call uses up a try of a failing item, or it is the last one. -/
theorem budget_call {q : Queue α} (h : Live q) :
    (call fails q).2 = [] ∨ budget fails (call fails q).2 < budget fails q := by
  induction q with
  | nil => exact .inl rfl
  | cons i q ih =>
      obtain ⟨a, left⟩ := i
      obtain ⟨hleft, hq⟩ := List.forall_mem_cons.mp h
      rw [call]
      cases ha : fails a with
      | true =>
          refine .inr ?_
          have hafter : budget fails (again a left q) + 1 = budget fails ((a, left) :: q) := by
            simp only at hleft
            unfold again
            split
            · simp only [budget, List.map_cons, List.sum_cons, ha, if_true]
              omega
            · simp only [budget, List.map_cons, List.sum_cons, ha, if_true]
              omega
          exact Nat.lt_of_succ_le (Nat.le_of_eq hafter)
      | false =>
          have hcons : budget fails ((a, left) :: q) = budget fails q := by simp [budget, ha]
          rw [hcons]
          exact ih hq

theorem tries_calls (n : Nat) {q : Queue α} (h : Live q) :
    tries fails q = (calls fails n q).1 ++ tries fails (calls fails n q).2 := by
  induction n generalizing q with
  | zero => rfl
  | succ n ih =>
      rw [calls, List.append_assoc, ← ih h.call]
      exact tries_call h

theorem calls_nil (n : Nat) : calls fails n ([] : Queue α) = ([], []) := by
  induction n with
  | zero => rfl
  | succ n ih => simp [calls, call, ih]

theorem calls_eq_nil {n : Nat} {q : Queue α} (h : Live q) (hn : budget fails q < n) :
    (calls fails n q).2 = [] := by
  induction n generalizing q with
  | zero => exact absurd hn (Nat.not_lt_zero _)
  | succ n ih =>
      rw [calls]
      rcases budget_call h with hlast | hless
      · rw [hlast, calls_nil]
      · exact ih h.call (by omega)

theorem length_call_le (q : Queue α) : (call fails q).2.length ≤ q.length := by
  induction q with
  | nil => exact Nat.le_refl _
  | cons i q ih =>
      rw [call]
      split
      · unfold again
        split
        · exact Nat.le_succ _
        · exact Nat.le_refl _
      · exact Nat.le_succ_of_le ih

/-! ## How often, and in which order -/

theorem mem_of_mem_tries {q : Queue α} {a : α} (h : a ∈ tries fails q) : a ∈ q.map Prod.fst := by
  obtain ⟨i, hi, ha⟩ := List.mem_flatMap.mp h
  refine List.mem_map.mpr ⟨i, hi, ?_⟩
  split at ha
  · exact (List.eq_of_mem_replicate ha).symm
  · exact (List.mem_singleton.mp ha).symm

/-- Every item has its tries. -/
theorem count_tries [DecidableEq α] {q : Queue α} (hq : (q.map Prod.fst).Nodup) {a : α}
    {left : Nat} (h : (a, left) ∈ q) :
    (tries fails q).count a = if fails a then left else 1 := by
  induction q with
  | nil => cases h
  | cons i q ih =>
      obtain ⟨hi, hq⟩ := List.nodup_cons.mp hq
      have hcons : tries fails (i :: q) =
          (if fails i.1 then List.replicate i.2 i.1 else [i.1]) ++ tries fails q := rfl
      rw [hcons, List.count_append]
      rcases List.mem_cons.mp h with rfl | hmem
      · have hnone : (tries fails q).count a = 0 :=
          List.count_eq_zero.mpr fun ha => hi (mem_of_mem_tries ha)
        rw [hnone]
        split
        · exact List.count_replicate_self
        · exact List.count_singleton_self
      · have hne : i.1 ≠ a := by
          rintro rfl
          exact hi (List.mem_map.mpr ⟨_, hmem, rfl⟩)
        have hnone : (if fails i.1 then List.replicate i.2 i.1 else [i.1]).count a = 0 := by
          refine List.count_eq_zero.mpr fun ha => hne ?_
          split at ha
          · exact (List.eq_of_mem_replicate ha).symm
          · exact (List.mem_singleton.mp ha).symm
        rw [hnone, Nat.zero_add, ih hq hmem]

/-- The items that succeed are tried in their order. -/
theorem filter_tries (q : Queue α) :
    (tries fails q).filter (fun a => !fails a) = (q.map Prod.fst).filter fun a => !fails a := by
  induction q with
  | nil => rfl
  | cons i q ih =>
      have hcons : tries fails (i :: q) =
          (if fails i.1 then List.replicate i.2 i.1 else [i.1]) ++ tries fails q := rfl
      rw [hcons, List.filter_append, ih, List.map_cons]
      cases hi : fails i.1 with
      | true => simp [hi]
      | false => simp [hi]

end RetryQueue
