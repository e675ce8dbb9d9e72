/-
# `Transact.Register` — keys that are given a value once

A table whose rows are never changed and never deleted is a register: a key is free, then
some operation gives it a value, and it keeps that value.  `Register` says so of one
operation, and what follows for whole runs is said here once for all such tables.

* `Register.once` — at most one operation gives a key its value.
* `Register.later` — every operation after that one finds the value.
* `Register.origin_reach` — a value that is found has been given by an operation.
* `Register.started` — a value that was there when a call arrived is there at each of its
  operations.
-/
import Clearance.Transact.Trace

namespace Transact

variable {S : Signature} {ε : Type} {E : Engine S} {St : Store S ε} {A : App E St}
  {C : Contract E St} {κ β : Type}

/-- Keys that are given a value once: `gives c k v` says that operation `c` is one that gives
`k` the value `v`. -/
structure Register (C : Contract E St) (κ β : Type) where
  look : E.Db → κ → Option β
  gives : St.Call → κ → β → Prop
  kept : ∀ {c k v} {o : Op E ε (St.Reply c)}, C.Allows c o → look o.before k = some v →
    look (E.view o.before o.writes) k = some v
  origin : ∀ {c k v} {o : Op E ε (St.Reply c)}, C.Allows c o → look o.before k = none →
    look (E.view o.before o.writes) k = some v → gives c k v

namespace Register

/-- A list that only grows is a register: the first item with a key is its value. -/
def appended [DecidableEq κ] (rows : E.Db → List β) (key : β → κ) (gives : St.Call → β → Prop)
    (grows : ∀ {c} {o : Op E ε (St.Reply c)}, C.Allows c o →
      rows (E.view o.before o.writes) = rows o.before ∨
        ∃ r, gives c r ∧ rows (E.view o.before o.writes) = rows o.before ++ [r]) :
    Register C κ β where
  look d k := (rows d).find? fun r => decide (key r = k)
  gives c k r := gives c r ∧ key r = k
  kept := by
    intro c k v o ho hv
    rcases grows ho with heq | ⟨r, -, heq⟩
    · rw [heq]
      exact hv
    · rw [heq, List.find?_append, hv]
      rfl
  origin := by
    intro c k v o ho hnone hv
    rcases grows ho with heq | ⟨r, hgives, heq⟩
    · rw [heq, hnone] at hv
      cases hv
    · rw [heq, List.find?_append, hnone, Option.none_or] at hv
      obtain rfl := List.mem_singleton.mp (List.mem_of_find?_eq_some hv)
      exact ⟨hgives, by simpa using List.find?_some hv⟩

variable (R : Register C κ β)

/-- The operation has given the key its value. -/
structure Sets (e : Entry E St) (k : κ) (v : β) : Prop where
  gives : R.gives e.call k v
  free : R.look e.op.before k = none
  set : R.look (E.view e.op.before e.op.writes) k = some v

variable {R} {d : E.Db} {w : A.World} {s : AState A} {g g' : List (Entry E St)}
  {e f : Entry E St} {k : κ} {v v' : β}

/-- The value is still there. -/
theorem Sets.now (hset : R.Sets e k v) (h : AReach C ⟨d, w, [], []⟩ s) (he : e ∈ s.log) :
    R.look s.db k = some v :=
  since_reach (Q := fun d' => R.look d' k = some v) (fun hQ ho => R.kept ho hQ) h he hset.set

/-- What an operation has found is still there. -/
theorem still (h : AReach C ⟨d, w, [], []⟩ s) (he : e ∈ s.log)
    (hfound : R.look e.op.before k = some v) : R.look s.db k = some v :=
  since_reach (Q := fun d' => R.look d' k = some v) (fun hQ ho => R.kept ho hQ) h he
    (R.kept ((traced_reach h).allowed e he) hfound)

/-- Every later operation finds it. -/
theorem later (h : AReach C ⟨d, w, [], []⟩ s) (hlog : s.log = g ++ e :: g')
    (hset : R.Sets e k v) (hf : f ∈ g') : R.look f.op.before k = some v :=
  between_reach (Q := fun d' => R.look d' k = some v) (fun hQ ho => R.kept ho hQ) h hlog hf hset.set

/-- What an operation has found, later ones find too. -/
theorem next (h : AReach C ⟨d, w, [], []⟩ s) (hlog : s.log = g ++ e :: g')
    (hfound : R.look e.op.before k = some v) (hf : f ∈ g') : R.look f.op.before k = some v := by
  have he : e ∈ s.log := by
    rw [hlog]
    exact List.mem_append_right _ List.mem_cons_self
  exact between_reach (Q := fun d' => R.look d' k = some v) (fun hQ ho => R.kept ho hQ) h hlog hf
    (R.kept ((traced_reach h).allowed e he) hfound)

/-- So no later operation gives the key a value. -/
theorem once (h : AReach C ⟨d, w, [], []⟩ s) (hlog : s.log = g ++ e :: g')
    (hset : R.Sets e k v) (hf : f ∈ g') : ¬ R.Sets f k v' := by
  intro hset'
  have hfound := later h hlog hset hf
  rw [hset'.free] at hfound
  cases hfound

/-- Two operations that give the key a value are one and the same. -/
theorem Sets.eq (hset : R.Sets e k v) (hset' : R.Sets f k v') (h : AReach C ⟨d, w, [], []⟩ s)
    (he : e ∈ s.log) (hf : f ∈ s.log) : e = f := by
  obtain ⟨g, g', hlog⟩ := List.append_of_mem he
  rw [hlog] at hf
  rcases List.mem_append.mp hf with hf | hf
  · obtain ⟨a, b, rfl⟩ := List.append_of_mem hf
    have hlog' : s.log = a ++ f :: (b ++ e :: g') := by simpa using hlog
    exact absurd hset (once h hlog' hset' (List.mem_append_right _ List.mem_cons_self))
  · rcases List.mem_cons.mp hf with rfl | hf
    · rfl
    · exact absurd hset' (once h hlog hset hf)

/-- Of the operations `p` singles out, which all give the key a value, there is at most one. -/
theorem length_filter_le (h : AReach C ⟨d, w, [], []⟩ s) {p : Entry E St → Bool}
    (hp : ∀ e ∈ s.log, p e = true → ∃ v, R.Sets e k v) : (s.log.filter p).length ≤ 1 := by
  cases hl : s.log.filter p with
  | nil => exact Nat.zero_le _
  | cons e l =>
      obtain ⟨g, g', hlog, -, he, hl'⟩ := List.filter_eq_cons_iff.mp hl
      have hmem : ∀ x ∈ e :: g', x ∈ s.log := by
        intro x hx
        rw [hlog]
        exact List.mem_append_right _ hx
      obtain ⟨v, hset⟩ := hp e (hmem e List.mem_cons_self) he
      have hnil : l = [] := by
        rw [← hl']
        refine List.filter_eq_nil_iff.mpr fun f hf hpf => ?_
        obtain ⟨v', hset'⟩ := hp f (hmem f (List.mem_cons_of_mem _ hf)) hpf
        exact once h hlog hset hf hset'
      rw [hnil]
      exact Nat.le_refl 1

/-- A value that is found has been given. -/
theorem origin_reach (h : AReach C ⟨d, w, [], []⟩ s) (hfree : R.look d k = none)
    (hfound : R.look s.db k = some v) : ∃ e ∈ s.log, R.Sets e k v := by
  have hsafe : Safe A C (fun d' _ g => ∀ v, R.look d' k = some v → ∃ e ∈ g, R.Sets e k v)
      fun _ _ => True :=
    { arrive := fun hI _ => ⟨hI, trivial⟩
      env := fun hI _ => hI
      op := by
        intro d' w g r c o i hI _ _ ho hb v hv
        subst hb
        cases hbefore : R.look o.before k with
        | none =>
            refine ⟨⟨i, c, o⟩, List.mem_append_right _ (List.mem_singleton_self _), ?_⟩
            exact ⟨R.origin ho hbefore hv, hbefore, hv⟩
        | some v' =>
            rw [R.kept ho hbefore] at hv
            cases hv
            obtain ⟨e, he, hset⟩ := hI _ hbefore
            exact ⟨e, List.mem_append_left _ he, hset⟩
      stable := fun _ _ _ _ _ hQ => hQ }
  refine (hsafe.reach (Kept.init fun v hv => ?_) h).inv v hfound
  rw [hfree] at hv
  cases hv

/-- A value an operation has found was given before it. -/
theorem origin_before (h : AReach C ⟨d, w, [], []⟩ s) (hfree : R.look d k = none)
    (hlog : s.log = g ++ e :: g') (hfound : R.look e.op.before k = some v) :
    ∃ f ∈ g, R.Sets f k v := by
  obtain ⟨s₁, h₁, hg, hdb, -⟩ := h.before rfl hlog
  rw [← hdb] at hfound
  rw [← hg]
  exact origin_reach h₁ hfree hfound

/-- What a call has found on its arrival. -/
structure Started (R : Register C κ β) (s : AState A) (i : Nat) (t : ATask A) : Prop where
  now : ∀ {k v}, R.look t.start k = some v → R.look s.db k = some v
  before : ∀ {k v}, R.look t.start k = some v → ∀ e ∈ own i s.log, R.look e.op.before k = some v

/-- What was there on its arrival is there at each of its operations. -/
theorem started (h : AReach C ⟨d, w, [], []⟩ s) :
    ∀ (i : Nat) (t : ATask A), s.tasks[i]? = some t → R.Started s i t := by
  have hall : Traced C s ∧ ∀ (i : Nat) (t : ATask A), s.tasks[i]? = some t → R.Started s i t := by
    refine h.induct (P := fun s => Traced C s ∧ ∀ (i : Nat) (t : ATask A),
      s.tasks[i]? = some t → R.Started s i t) ?_ fun s₁ s₂ _ hk hs => ⟨hk.1.step hs, ?_⟩
    · exact ⟨traced_reach .refl, fun i t ht => by simp at ht⟩
    · obtain ⟨htraced, hk⟩ := hk
      cases hs with
      | @arrive r w hw =>
          intro i t ht
          rcases getElem?_concat_cases ht with ⟨rfl, rfl⟩ | ht
          · refine ⟨fun hv => hv, fun _ e he => ?_⟩
            -- nobody has made an operation in its name yet
            have hlt := htraced.named e (mem_of_own he)
            have heq : e.task = s₁.tasks.length := by simpa using (List.mem_filter.mp he).2
            omega
          · exact ⟨(hk i t ht).now, (hk i t ht).before⟩
      | env hw => exact fun i t ht => ⟨(hk i t ht).now, (hk i t ht).before⟩
      | @op j u c cont o hu hp ho hb =>
          have hnow : ∀ {k v}, R.look s₁.db k = some v →
              R.look (E.view s₁.db o.writes) k = some v := by
            intro k v hv
            rw [← hb] at hv ⊢
            exact R.kept ho hv
          intro i t ht
          rcases getElem?_set_cases ht with ⟨rfl, rfl⟩ | ⟨hne, ht⟩
          · refine ⟨fun hv => hnow ((hk i u hu).now hv), fun hv e he => ?_⟩
            have he : e ∈ own i (s₁.log ++ [⟨i, c, o⟩]) := he
            rw [own_append_self] at he
            rcases List.mem_append.mp he with he | he
            · exact (hk i u hu).before hv e he
            · rw [List.mem_singleton.mp he]
              show R.look o.before _ = _
              rw [hb]
              exact (hk i u hu).now hv
          · refine ⟨fun hv => hnow ((hk i t ht).now hv), fun hv e he => ?_⟩
            have he : e ∈ own i (s₁.log ++ [⟨j, c, o⟩]) := he
            rw [own_append_other (Ne.symm hne)] at he
            exact (hk i t ht).before hv e he
      | @crash j u hu =>
          intro i t ht
          rcases getElem?_set_cases ht with ⟨rfl, rfl⟩ | ⟨_, ht⟩
          · exact ⟨(hk i u hu).now, (hk i u hu).before⟩
          · exact ⟨(hk i t ht).now, (hk i t ht).before⟩
  exact hall.2

end Register

/-- An operation of a call, and its later ones. -/
theorem own_split {i : Nat} {g l l' : List (Entry E St)} {x : Entry E St}
    (h : own i g = l ++ x :: l') : ∃ g₁ g₂, g = g₁ ++ x :: g₂ ∧ own i g₂ = l' := by
  obtain ⟨g₁, g₂, rfl, -, h₂⟩ := List.filter_eq_append_iff.mp h
  obtain ⟨g₃, g₄, rfl, h₄⟩ := own_eq_cons (g := g₂) h₂
  exact ⟨g₁ ++ g₃, g₄, (List.append_assoc _ _ _).symm, h₄⟩

/-- If a call makes an operation after some moment, its last operation is after it. -/
theorem mem_of_last {i : Nat} {g g' l : List (Entry E St)} {e x : Entry E St}
    (hown : own i (g ++ e :: g') = l ++ [x]) (hafter : ∃ y ∈ g', y.task = i) : x ∈ g' := by
  obtain ⟨y, hy, hi⟩ := hafter
  have hne : own i g' ≠ [] := List.ne_nil_of_mem (List.mem_filter.mpr ⟨hy, by simp [hi]⟩)
  obtain ⟨l', z, hz⟩ := (List.eq_nil_or_concat (own i g')).resolve_left hne
  rw [List.concat_eq_append] at hz
  have hsplit : own i (g ++ e :: g') = own i (g ++ [e]) ++ own i g' := by
    rw [own, own, own, ← List.filter_append]
    simp
  rw [hsplit, hz, ← List.append_assoc] at hown
  obtain ⟨-, hx⟩ := List.append_inj' hown rfl
  have hz' : z ∈ own i g' := by
    rw [hz]
    exact List.mem_append_right _ (List.mem_singleton_self _)
  rw [← List.singleton_inj.mp hx]
  exact mem_of_own hz'

end Transact
