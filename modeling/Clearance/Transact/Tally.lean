/-
# `Transact.Tally` — sums over the rows of a table, and tables derived from others

`tally p f l` is `select sum(f) from l where p`.

A list is often kept in step with another one: the rows of `l'` are what the rows of
`l` call for, `l' ~ l.flatMap f`.  `flatMap_concat` and `flatMap_replace` say what has
to be added to `l'` when a row comes in, and when a row that called for nothing is
changed; `filter_flatMap_key` finds in `l'` what one row called for.
-/
import Mathlib

namespace Transact

variable {α β : Type}

/-- The sum of `f` over the elements that satisfy `p`. -/
def tally (p : α → Bool) (f : α → Int) (l : List α) : Int := ((l.filter p).map f).sum

@[simp] theorem tally_nil (p : α → Bool) (f : α → Int) : tally p f [] = 0 := rfl

theorem tally_cons (p : α → Bool) (f : α → Int) (a : α) (l : List α) :
    tally p f (a :: l) = (if p a then f a else 0) + tally p f l := by
  cases h : p a <;> simp [tally, h]

theorem tally_append (p : α → Bool) (f : α → Int) (l l' : List α) :
    tally p f (l ++ l') = tally p f l + tally p f l' := by
  simp [tally, List.filter_append, List.map_append, List.sum_append]

theorem tally_map (p : β → Bool) (f : β → Int) (g : α → β) (l : List α) :
    tally p f (l.map g) = tally (fun a => p (g a)) (fun a => f (g a)) l := by
  simp only [tally, List.filter_map, List.map_map]
  rfl

theorem tally_perm (p : α → Bool) (f : α → Int) {l l' : List α} (h : l.Perm l') :
    tally p f l = tally p f l' :=
  ((h.filter p).map f).sum_eq

@[simp] theorem tally_false (f : α → Int) (l : List α) : tally (fun _ => false) f l = 0 := by
  simp [tally]

/-- Nothing satisfies the second condition. -/
theorem tally_and_none (q : α → Bool) {p : α → Bool} (f : α → Int) {l : List α}
    (h : ∀ a ∈ l, p a = false) : tally (fun a => q a && p a) f l = 0 := by
  rw [tally, List.filter_eq_nil_iff.mpr fun a ha => by simp [h a ha]]
  rfl

theorem flatMap_concat (f : α → List β) (l : List α) (a : α) :
    (l ++ [a]).flatMap f = l.flatMap f ++ f a := by
  simp

/-- A row that called for nothing is replaced. -/
theorem flatMap_replace {f : α → List β} {a a' : α} (h : f a = []) (l₁ l₂ : List α) :
    ((l₁ ++ a' :: l₂).flatMap f).Perm ((l₁ ++ a :: l₂).flatMap f ++ f a') := by
  simp only [List.flatMap_append, List.flatMap_cons, h, List.nil_append, List.append_assoc]
  exact (List.perm_append_comm).append_left _

/-- What one row called for is found by its key. -/
theorem filter_flatMap_key {κ : Type} [DecidableEq κ] {key : α → κ} {g : β → κ} {f : α → List β}
    (hg : ∀ a, ∀ b ∈ f a, g b = key a) {l : List α} (hnd : (l.map key).Nodup) {a : α}
    (ha : a ∈ l) : (l.flatMap f).filter (fun b => g b == key a) = f a := by
  induction l with
  | nil => cases ha
  | cons x l ih =>
      obtain ⟨hx, hnd⟩ := List.nodup_cons.mp hnd
      rw [List.flatMap_cons, List.filter_append]
      rcases List.mem_cons.mp ha with rfl | ha
      · have hown : (f a).filter (fun b => g b == key a) = f a :=
          List.filter_eq_self.mpr fun b hb => by simp [hg a b hb]
        have hrest : (l.flatMap f).filter (fun b => g b == key a) = [] := by
          refine List.filter_eq_nil_iff.mpr fun b hb heq => hx ?_
          obtain ⟨a', ha', hb⟩ := List.mem_flatMap.mp hb
          rw [hg a' b hb, beq_iff_eq] at heq
          exact heq ▸ List.mem_map_of_mem ha'
        rw [hown, hrest, List.append_nil]
      · have hne : key x ≠ key a := fun heq => hx (heq ▸ List.mem_map_of_mem ha)
        have hother : (f x).filter (fun b => g b == key a) = [] := by
          refine List.filter_eq_nil_iff.mpr fun b hb => ?_
          rw [hg x b hb]
          simpa using hne
        rw [hother, List.nil_append, ih hnd ha]

/-! ## Rows that go together -/

/-- Every row of either list goes with exactly one of the other. -/
structure OneToOne (R : α → β → Prop) (l : List α) (l' : List β) : Prop where
  right : ∀ a ∈ l, ∃! b, b ∈ l' ∧ R a b
  left : ∀ b ∈ l', ∃! a, a ∈ l ∧ R a b

/-- Rows with the same keys, none of them twice. -/
theorem OneToOne.of_perm {κ : Type} {f : α → κ} {g : β → κ} {l : List α} {l' : List β}
    (h : (l.map f).Perm (l'.map g)) (hnd : (l.map f).Nodup) :
    OneToOne (fun a b => f a = g b) l l' where
  right a ha := by
    obtain ⟨b, hb, hab⟩ := List.mem_map.mp (h.mem_iff.mp (List.mem_map_of_mem ha))
    refine ⟨b, ⟨hb, hab.symm⟩, fun b' hb' => ?_⟩
    exact List.inj_on_of_nodup_map (h.nodup_iff.mp hnd) hb'.1 hb (hb'.2.symm.trans hab.symm)
  left b hb := by
    obtain ⟨a, ha, hab⟩ := List.mem_map.mp (h.mem_iff.mpr (List.mem_map_of_mem hb))
    refine ⟨a, ⟨ha, hab⟩, fun a' ha' => ?_⟩
    exact List.inj_on_of_nodup_map hnd ha'.1 ha (ha'.2.trans hab.symm)

theorem OneToOne.congr {R R' : α → β → Prop} {l : List α} {l' : List β} (h : OneToOne R l l')
    (hR : ∀ a ∈ l, ∀ b ∈ l', R a b ↔ R' a b) : OneToOne R' l l' where
  right a ha := by
    obtain ⟨b, ⟨hb, hab⟩, hunique⟩ := h.right a ha
    exact ⟨b, ⟨hb, (hR a ha b hb).mp hab⟩,
      fun b' hb' => hunique b' ⟨hb'.1, (hR a ha b' hb'.1).mpr hb'.2⟩⟩
  left b hb := by
    obtain ⟨a, ⟨ha, hab⟩, hunique⟩ := h.left b hb
    exact ⟨a, ⟨ha, (hR a ha b hb).mp hab⟩,
      fun a' ha' => hunique a' ⟨ha'.1, (hR a' ha'.1 b hb).mpr ha'.2⟩⟩

theorem OneToOne.trans {γ : Type} {R : α → β → Prop} {R' : β → γ → Prop} {l : List α}
    {m : List β} {n : List γ} (h : OneToOne R l m) (h' : OneToOne R' m n) :
    OneToOne (fun a c => ∃ b ∈ m, R a b ∧ R' b c) l n where
  right a ha := by
    obtain ⟨b, ⟨hb, hab⟩, hb'⟩ := h.right a ha
    obtain ⟨c, ⟨hc, hbc⟩, hc'⟩ := h'.right b hb
    refine ⟨c, ⟨hc, b, hb, hab, hbc⟩, ?_⟩
    rintro c' ⟨hc₁, b₁, hb₁, hab₁, hbc₁⟩
    rw [hb' b₁ ⟨hb₁, hab₁⟩] at hbc₁
    exact hc' c' ⟨hc₁, hbc₁⟩
  left c hc := by
    obtain ⟨b, ⟨hb, hbc⟩, hb'⟩ := h'.left c hc
    obtain ⟨a, ⟨ha, hab⟩, ha'⟩ := h.left b hb
    refine ⟨a, ⟨ha, b, hb, hab, hbc⟩, ?_⟩
    rintro a' ⟨ha₁, b₁, hb₁, hab₁, hbc₁⟩
    rw [hb' b₁ ⟨hb₁, hbc₁⟩] at hab₁
    exact ha' a' ⟨ha₁, hab₁⟩

/-- Rows that were added side by side: what goes with one row looks alike from the other
side, and what goes with different rows does not. -/
theorem OneToOne.of_forall₂ {κ κ' : Type} {f : α → κ} {g : β → κ'} {R : α → β → Prop}
    {l : List α} {l' : List β} (h : List.Forall₂ R l l') (hnd : (l.map f).Nodup)
    (hright : ∀ {a b b'}, R a b → R a b' → g b = g b')
    (hleft : ∀ {a a' b b'}, R a b → R a' b' → g b = g b' → f a = f a') :
    (l'.map g).Nodup ∧ OneToOne R l l' := by
  have hpartner : ∀ {l l'}, List.Forall₂ R l l' →
      (∀ a ∈ l, ∃ b ∈ l', R a b) ∧ ∀ b ∈ l', ∃ a ∈ l, R a b := by
    intro l l' h
    induction h with
    | nil => exact ⟨List.forall_mem_nil _, List.forall_mem_nil _⟩
    | @cons a b l l' hab _ ih =>
        refine ⟨List.forall_mem_cons.mpr ⟨⟨b, List.mem_cons_self, hab⟩, fun a' ha' => ?_⟩,
          List.forall_mem_cons.mpr ⟨⟨a, List.mem_cons_self, hab⟩, fun b' hb' => ?_⟩⟩
        · obtain ⟨b', hb', hab'⟩ := ih.1 a' ha'
          exact ⟨b', List.mem_cons_of_mem _ hb', hab'⟩
        · obtain ⟨a', ha', hab'⟩ := ih.2 b' hb'
          exact ⟨a', List.mem_cons_of_mem _ ha', hab'⟩
  have hnd' : (l'.map g).Nodup := by
    induction h with
    | nil => exact List.nodup_nil
    | @cons a b l l' hab hrest ih =>
        obtain ⟨ha, hnd⟩ := List.nodup_cons.mp hnd
        refine List.nodup_cons.mpr ⟨fun hb => ha ?_, ih hnd⟩
        obtain ⟨b', hb', heq⟩ := List.mem_map.mp hb
        obtain ⟨a', ha', hab'⟩ := (hpartner hrest).2 b' hb'
        exact hleft hab hab' heq.symm ▸ List.mem_map_of_mem ha'
  refine ⟨hnd', fun a ha => ?_, fun b hb => ?_⟩
  · obtain ⟨b, hb, hab⟩ := (hpartner h).1 a ha
    exact ⟨b, ⟨hb, hab⟩, fun b' hb' =>
      List.inj_on_of_nodup_map hnd' hb'.1 hb (hright hb'.2 hab)⟩
  · obtain ⟨a, ha, hab⟩ := (hpartner h).2 b hb
    exact ⟨a, ⟨ha, hab⟩, fun a' ha' =>
      List.inj_on_of_nodup_map hnd ha'.1 ha (hleft ha'.2 hab rfl)⟩

end Transact
