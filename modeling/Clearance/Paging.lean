/-
# `Paging` — reading a table page by page

A table is read `n` items at a time, those with the greatest keys first, and every page
but the first holds what lies below the last key of the page before it.  No page is
remembered: what stands in the table may be another one at every request.

`walk` is the whole reading.  However the table changes, it shows no key twice
(`walk_descending`), and misses no key that is there at every request
(`mem_walk`).  Once the table stops changing, it ends (`walk_ends`), and on a table
that never changes its pages are the table, cut into pieces of `n` (`walk_fixed`).
-/
import Mathlib

namespace Paging

variable {α κ : Type} [LinearOrder κ] {key : α → κ}

/-! ## Lists without a key twice -/

/-- Greatest keys first, and no key twice. -/
abbrev Descending (key : α → κ) (l : List α) : Prop := l.Pairwise fun a b => key b < key a

/-- Such a list is determined by what it holds. -/
theorem Descending.eq_of_perm {l₁ l₂ : List α} (h₁ : Descending key l₁) (h₂ : Descending key l₂)
    (h : l₁.Perm l₂) : l₁ = l₂ :=
  List.Perm.eq_of_pairwise (fun _ _ _ _ hab hba => absurd hab (lt_asymm hba)) h₁ h₂ h

section Sorting

variable {r : α → α → Prop} [DecidableRel r]

theorem insertionSort_descending (hr : ∀ a b, r a b ↔ key b ≤ key a) {l : List α}
    (hl : (l.map key).Nodup) : Descending key (l.insertionSort r) := by
  have htotal : Std.Total r := ⟨fun a b => by simpa only [hr] using le_total (key b) (key a)⟩
  have htrans : IsTrans α r := ⟨fun a b c hab hbc => by
    rw [hr] at hab hbc ⊢
    exact hbc.trans hab⟩
  have hsorted := List.pairwise_insertionSort r l
  have hne : (l.insertionSort r).Pairwise fun a b => key a ≠ key b := by
    refine List.pairwise_map.mp ?_
    exact ((List.perm_insertionSort r l).map key).nodup_iff.mpr hl
  refine (hsorted.and hne).imp ?_
  intro a b hab
  exact lt_of_le_of_ne ((hr a b).mp hab.1) (Ne.symm hab.2)

/-- Selecting before sorting is selecting after. -/
theorem insertionSort_filter (hr : ∀ a b, r a b ↔ key b ≤ key a) {l : List α}
    (hl : (l.map key).Nodup) (p : α → Bool) :
    (l.filter p).insertionSort r = (l.insertionSort r).filter p := by
  have hsub : ((l.filter p).map key).Nodup := hl.sublist (List.filter_sublist.map key)
  refine (insertionSort_descending hr hsub).eq_of_perm
    ((insertionSort_descending hr hl).filter p) ?_
  exact (List.perm_insertionSort r _).trans ((List.perm_insertionSort r l).filter p).symm

end Sorting

/-! ## Below a key -/

/-- Below the bound, if there is one. -/
def Under (c : Option κ) (k : κ) : Prop := ∀ b ∈ c, k < b

instance (c : Option κ) (k : κ) : Decidable (Under c k) := by
  unfold Under
  infer_instance

@[simp] theorem under_none (k : κ) : Under none k := nofun

@[simp] theorem under_some (b k : κ) : Under (some b) k ↔ k < b := by simp [Under]

theorem Under.trans {c : Option κ} {k k' : κ} (h : Under c k) (hk : k' < k) : Under c k' :=
  fun b hb => hk.trans (h b hb)

variable (key) in
/-- What lies below the bound. -/
def below (c : Option κ) (l : List α) : List α := l.filter fun a => Under c (key a)

theorem mem_below {c : Option κ} {l : List α} {a : α} :
    a ∈ below key c l ↔ a ∈ l ∧ Under c (key a) := by simp [below]

@[simp] theorem below_none (l : List α) : below key none l = l := by simp [below]

theorem Descending.below {l : List α} (h : Descending key l) (c : Option κ) :
    Descending key (below key c l) := h.filter _

/-- A lower bound makes a higher one redundant. -/
theorem below_below {c : Option κ} {b : κ} (h : Under c b) (l : List α) :
    below key (some b) (below key c l) = below key (some b) l := by
  unfold below
  rw [List.filter_filter]
  refine List.filter_congr fun a _ => ?_
  rw [← Bool.decide_and, decide_eq_decide]
  simp only [under_some, and_iff_left_iff_imp]
  exact fun ha => h.trans ha

/-- What lies below an item of the list comes after it. -/
theorem Descending.below_eq {l₁ l₂ : List α} {x : α} (h : Descending key (l₁ ++ x :: l₂)) :
    Paging.below key (some (key x)) (l₁ ++ x :: l₂) = l₂ := by
  obtain ⟨_, hx, hcross⟩ := List.pairwise_append.mp h
  have h₁ : l₁.filter (fun a => Under (some (key x)) (key a)) = [] := by
    refine List.filter_eq_nil_iff.mpr fun a ha => ?_
    have := hcross a ha x (List.mem_cons_self ..)
    simpa using this.le
  have h₂ : l₂.filter (fun a => Under (some (key x)) (key a)) = l₂ := by
    refine List.filter_eq_self.mpr fun a ha => ?_
    simpa using List.rel_of_pairwise_cons hx ha
  unfold Paging.below
  rw [List.filter_append, List.filter_cons_of_neg (by simp), h₁, h₂, List.nil_append]

/-! ## Pages -/

/-- The last item of a page of `n`, when more is to follow. -/
def next (n : Nat) (l : List α) : Option α := if n < l.length then (l.take n).getLast? else none

theorem next_eq_none {n : Nat} (hn : 0 < n) {l : List α} (h : next n l = none) :
    l.length ≤ n := by
  unfold next at h
  split at h
  · next hlt =>
      have htake : l.take n = [] := List.getLast?_eq_none_iff.mp h
      have hlen := congrArg List.length htake
      rw [List.length_take, List.length_nil] at hlen
      omega
  · next hle => omega

/-- A page that is not the last one is full, and ends where the next begins. -/
theorem next_eq_some {n : Nat} {l : List α} {x : α} (h : next n l = some x) :
    n < l.length ∧ ∃ l₁, l.take n = l₁ ++ [x] ∧ l = l₁ ++ x :: l.drop n := by
  unfold next at h
  split at h
  · next hlt =>
      obtain ⟨l₁, hl₁⟩ := List.getLast?_eq_some_iff.mp h
      refine ⟨hlt, l₁, hl₁, ?_⟩
      calc l = l.take n ++ l.drop n := (List.take_append_drop n l).symm
        _ = l₁ ++ x :: l.drop n := by rw [hl₁, List.append_assoc, List.singleton_append]
  · cases h

/-- The last item of a page has the least key of it. -/
theorem le_of_next {n : Nat} {l : List α} {x a : α} (hl : Descending key l)
    (h : next n l = some x) (ha : a ∈ l.take n) : key x ≤ key a := by
  obtain ⟨_, l₁, htake, _⟩ := next_eq_some h
  have hpage : Descending key (l₁ ++ [x]) := htake ▸ hl.sublist (List.take_sublist n l)
  rw [htake, List.mem_append, List.mem_singleton] at ha
  cases ha with
  | inl ha => exact ((List.pairwise_append.mp hpage).2.2 a ha x (List.mem_singleton_self x)).le
  | inr ha => rw [ha]

theorem mem_of_next {n : Nat} {l : List α} {x : α} (h : next n l = some x) : x ∈ l := by
  obtain ⟨_, l₁, _, hl⟩ := next_eq_some h
  rw [hl]
  exact List.mem_append_right _ (List.mem_cons_self ..)

/-- An item that is not below the last one of the page is on the page. -/
theorem mem_take_of_le {n : Nat} {l : List α} {x a : α} (hl : Descending key l)
    (h : next n l = some x) (ha : a ∈ l) (hle : key x ≤ key a) : a ∈ l.take n := by
  obtain ⟨_, l₁, htake, hsplit⟩ := next_eq_some h
  rw [hsplit] at hl ha
  have hx := (List.pairwise_append.mp hl).2.1
  rw [htake]
  cases List.mem_append.mp ha with
  | inl ha => exact List.mem_append_left _ ha
  | inr ha =>
      cases List.mem_cons.mp ha with
      | inl ha => exact ha ▸ List.mem_append_right _ (List.mem_singleton_self a)
      | inr ha => exact absurd hle (List.rel_of_pairwise_cons hx ha).not_ge

/-- What is not on the first page. -/
theorem filter_notMem_take [DecidableEq α] {l : List α} (h : l.Nodup) (n : Nat) :
    l.filter (fun a => decide (a ∉ l.take n)) = l.drop n := by
  have hsplit : (l.take n ++ l.drop n).Nodup := by rwa [List.take_append_drop]
  have hdisjoint := (List.nodup_append.mp hsplit).2.2
  calc l.filter (fun a => decide (a ∉ l.take n))
      = (l.take n ++ l.drop n).filter (fun a => decide (a ∉ l.take n)) := by
        rw [List.take_append_drop]
    _ = l.drop n := by
        rw [List.filter_append, List.filter_eq_nil_iff.mpr (by simp), List.nil_append]
        refine List.filter_eq_self.mpr fun a ha => decide_eq_true fun hmem => ?_
        exact hdisjoint a hmem a ha rfl

/-! ## The walk -/

variable (key) in
/-- The pages of `fuel` requests at most, from the request `k` and the bound `c` on, and
whether the last of them says that nothing follows. -/
def walk (table : Nat → List α) (n : Nat) : (fuel k : Nat) → Option κ → List (List α) × Bool
  | 0, _, _ => ([], false)
  | fuel + 1, k, c =>
      match next n (below key c (table k)) with
      | none => ([(below key c (table k)).take n], true)
      | some x =>
          ((below key c (table k)).take n :: (walk table n fuel (k + 1) (some (key x))).1,
            (walk table n fuel (k + 1) (some (key x))).2)

variable {table : Nat → List α} {n : Nat}

/-- What is shown stands in the table at some request, below the bound. -/
theorem under_of_mem_walk {fuel k : Nat} {c : Option κ} {a : α}
    (h : a ∈ (walk key table n fuel k c).1.flatten) : Under c (key a) ∧ ∃ j, a ∈ table j := by
  induction fuel generalizing k c with
  | zero => cases h
  | succ fuel ih =>
      have hpage : ∀ a ∈ (below key c (table k)).take n, Under c (key a) ∧ ∃ j, a ∈ table j := by
        intro a ha
        have ha := mem_below.mp (List.mem_of_mem_take ha)
        exact ⟨ha.2, k, ha.1⟩
      unfold walk at h
      cases hx : next n (below key c (table k)) with
      | none =>
          simp only [hx, List.flatten_cons, List.flatten_nil, List.append_nil] at h
          exact hpage a h
      | some x =>
          simp only [hx, List.flatten_cons, List.mem_append] at h
          cases h with
          | inl h => exact hpage a h
          | inr h =>
              obtain ⟨hlt, hj⟩ := ih h
              exact ⟨(mem_below.mp (mem_of_next hx)).2.trans ((under_some _ _).mp hlt), hj⟩

/-- No key is shown twice, whatever happens to the table. -/
theorem walk_descending (htable : ∀ k, Descending key (table k)) (fuel k : Nat) (c : Option κ) :
    Descending key (walk key table n fuel k c).1.flatten := by
  induction fuel generalizing k c with
  | zero => exact List.Pairwise.nil
  | succ fuel ih =>
      have hbelow := (htable k).below c
      have hpage : Descending key ((below key c (table k)).take n) :=
        hbelow.sublist (List.take_sublist _ _)
      unfold walk
      cases hx : next n (below key c (table k)) with
      | none => simpa only [List.flatten_cons, List.flatten_nil, List.append_nil] using hpage
      | some x =>
          rw [List.flatten_cons]
          refine List.pairwise_append.mpr ⟨hpage, ih _ _, ?_⟩
          -- what follows lies below the last item, and the page above it
          intro a ha b hb
          have hlt : key b < key x := (under_some _ _).mp (under_of_mem_walk hb).1
          exact hlt.trans_le (le_of_next hbelow hx ha)

/-- A key below the bound that is there at every request is shown. -/
theorem mem_walk (htable : ∀ k, Descending key (table k)) (hn : 0 < n) {fuel k : Nat}
    {c : Option κ} {b : κ} (hended : (walk key table n fuel k c).2 = true) (hb : Under c b)
    (hthere : ∀ j < (walk key table n fuel k c).1.length, ∃ a ∈ table (k + j), key a = b) :
    ∃ a ∈ (walk key table n fuel k c).1.flatten, key a = b := by
  induction fuel generalizing k c with
  | zero => cases hended
  | succ fuel ih =>
      unfold walk at hended hthere ⊢
      cases hx : next n (below key c (table k)) with
      | none =>
          simp only [hx, List.length_singleton] at hthere
          obtain ⟨a, ha, rfl⟩ := hthere 0 Nat.zero_lt_one
          refine ⟨a, ?_, rfl⟩
          simp only [List.flatten_cons, List.flatten_nil, List.append_nil]
          rw [List.take_of_length_le (next_eq_none hn hx)]
          exact mem_below.mpr ⟨ha, hb⟩
      | some x =>
          simp only [hx, List.length_cons] at hended hthere ⊢
          simp only [List.flatten_cons, List.mem_append]
          by_cases hlt : b < key x
          · have hrest := ih hended ((under_some _ _).mpr hlt) fun j hj => by
              have := hthere (j + 1) (Nat.succ_lt_succ hj)
              rwa [← Nat.add_assoc, Nat.add_right_comm] at this
            obtain ⟨a, ha, hab⟩ := hrest
            exact ⟨a, Or.inr ha, hab⟩
          · obtain ⟨a, ha, rfl⟩ := hthere 0 (Nat.succ_pos _)
            have hmem := mem_below.mpr ⟨ha, hb⟩
            exact ⟨a, Or.inl (mem_take_of_le ((htable k).below c) hx hmem (not_lt.mp hlt)), rfl⟩

theorem walk_length_pos {fuel k : Nat} {c : Option κ}
    (hended : (walk key table n fuel k c).2 = true) :
    0 < (walk key table n fuel k c).1.length := by
  cases fuel with
  | zero => cases hended
  | succ fuel =>
      unfold walk
      split <;> exact Nat.succ_pos _

/-- On a table that does not change any more, the pages are what is left of it, in pieces
of `n`. -/
theorem walk_fixed (hn : 0 < n) {t : List α} (ht : Descending key t) {fuel k : Nat}
    {c : Option κ} (hfixed : ∀ j, k ≤ j → table j = t) (hfuel : 0 < fuel)
    (hlen : (below key c t).length ≤ fuel * n) :
    ∃ pages, walk key table n fuel k c = (pages, true) ∧ pages.flatten = below key c t ∧
      (∀ p ∈ pages.dropLast, p.length = n) ∧
      (∀ p ∈ pages.getLast?, p = [] → below key c t = []) := by
  induction fuel generalizing k c with
  | zero => cases hfuel
  | succ fuel ih =>
      unfold walk
      rw [hfixed k le_rfl]
      cases hx : next n (below key c t) with
      | none =>
          have htake := List.take_of_length_le (next_eq_none hn hx)
          refine ⟨[below key c t], ?_, ?_, nofun, ?_⟩
          · simp only [htake]
          · simp
          · simp
      | some x =>
          obtain ⟨hlt, l₁, htake, hsplit⟩ := next_eq_some hx
          have hunder := (mem_below.mp (mem_of_next hx)).2
          have hrest : below key (some (key x)) t = (below key c t).drop n := by
            rw [← below_below hunder, hsplit]
            have hdesc := ht.below c
            rw [hsplit] at hdesc
            rw [hdesc.below_eq, ← hsplit]
          have hdrop : ((below key c t).drop n).length = (below key c t).length - n :=
            List.length_drop
          have hpos : 0 < fuel := by
            refine Nat.pos_of_ne_zero fun hzero => ?_
            rw [hzero, Nat.zero_add, Nat.one_mul] at hlen
            omega
          rw [Nat.succ_mul] at hlen
          obtain ⟨pages, hpages, hflat, hfull, hlast⟩ :=
            @ih (k + 1) (some (key x)) (fun j hj => hfixed j (by omega)) hpos
              (by rw [hrest, hdrop]; omega)
          have hne : pages ≠ [] := by
            intro hnil
            rw [hnil, List.flatten_nil, hrest] at hflat
            have := congrArg List.length hflat
            rw [hdrop, List.length_nil] at this
            omega
          refine ⟨(below key c t).take n :: pages, ?_, ?_, ?_, ?_⟩
          · simp only [hpages]
          · rw [List.flatten_cons, hflat, hrest, List.take_append_drop]
          · intro p hp
            rw [List.dropLast_cons_of_ne_nil hne, List.mem_cons] at hp
            cases hp with
            | inl hp => rw [hp, List.length_take, Nat.min_eq_left hlt.le]
            | inr hp => exact hfull p hp
          · intro p hp hempty
            have hlast' : p ∈ pages.getLast? := by
              obtain ⟨q, hq⟩ := Option.isSome_iff_exists.mp (List.getLast?_isSome.mpr hne)
              rw [List.getLast?_cons, hq] at hp
              rw [hq]
              exact hp
            have hnil := hlast p hlast' hempty
            rw [hrest] at hnil
            have := congrArg List.length hnil
            rw [hdrop, List.length_nil] at this
            omega

/-- Once the table stops changing, the walk ends. -/
theorem walk_ends (hn : 0 < n) (htable : ∀ k, Descending key (table k)) {stop : Nat}
    (hstop : ∀ j, stop ≤ j → table j = table stop) (k : Nat) (c : Option κ) :
    ∃ fuel, (walk key table n fuel k c).2 = true := by
  -- on the number of requests that are still to see a change
  induction hm : stop - k generalizing k c with
  | zero =>
      have hfixed : ∀ j, k ≤ j → table j = table k := fun j hj => by
        rw [hstop j (by omega), hstop k (by omega)]
      have hle : (below key c (table k)).length ≤ ((below key c (table k)).length + 1) * n :=
        (Nat.le_succ _).trans (Nat.le_mul_of_pos_right _ hn)
      obtain ⟨pages, hpages, _⟩ := walk_fixed hn (htable k) hfixed (Nat.succ_pos _) hle
      exact ⟨_, congrArg Prod.snd hpages⟩
  | succ m ih =>
      cases hx : next n (below key c (table k)) with
      | none =>
          refine ⟨1, ?_⟩
          unfold walk
          simp only [hx]
      | some x =>
          obtain ⟨fuel, hfuel⟩ := ih (k + 1) (some (key x)) (by omega)
          refine ⟨fuel + 1, ?_⟩
          unfold walk
          simpa only [hx] using hfuel

end Paging
