/-
# `Transact.Invariant` — reasoning about every run, one operation at a time

`AReach.induct` is induction on a run.  Two rules are derived from it here, and
they are what a development uses.

* `Safe.reach` — a property of the committed database, the world and the log.
  What has to be shown is that each operation a call may make keeps it.  The
  rule keeps track of what is known of the request behind the operation.

* `Proved.reach` — a property of what a call *returns*.  `Svc.Wp` is the weakest
  precondition of service code when the other calls may change the database
  between any two of its operations, along a relation `G` that every operation
  of every call respects.
-/
import Clearance.Transact.Atomic

namespace Transact

variable {S : Signature} {ε : Type} {E : Engine S} {St : Store S ε} {A : App E St}
  {C : Contract E St}

/-! ## Properties of the database, the world and the log -/

/-- `I` is kept by every step, if `Q` is what is known of a request under way. -/
structure Safe (A : App E St) (C : Contract E St)
    (I : E.Db → A.World → List (Entry E St) → Prop) (Q : A.Request → E.Db → Prop) : Prop where
  arrive : ∀ {d w g r w'}, I d w g → A.accept w r = some w' → I d w' g ∧ Q r d
  env : ∀ {d w g e w'}, I d w g → A.evolve d w e = some w' → I d w' g
  op : ∀ {d w g r c} {o : Op E ε (St.Reply c)} (i : Nat), I d w g → Q r d →
    (A.program r).Calls c → C.Allows c o → o.before = d →
    I (E.view d o.writes) w (g ++ [⟨i, c, o⟩])
  stable : ∀ {d w g r r' c} {o : Op E ε (St.Reply c)}, I d w g → Q r d →
    (A.program r).Calls c → C.Allows c o → o.before = d → Q r' d → Q r' (E.view d o.writes)

/-- The code left to run calls only what the whole call may call. -/
def ATask.Within (t : ATask A) : Prop :=
  ∀ p, t.prog = some p → ∀ c, p.Calls c → (A.program t.request).Calls c

theorem ATask.Within.calls {t : ATask A} (h : t.Within) {c : St.Call}
    {k : Except ε (St.Reply c) → Svc St (A.Result t.request)}
    (hp : t.prog = some (.call c k)) : (A.program t.request).Calls c :=
  h _ hp c .here

theorem ATask.Within.next {t : ATask A} (h : t.Within) {c : St.Call}
    {k : Except ε (St.Reply c) → Svc St (A.Result t.request)}
    (hp : t.prog = some (.call c k)) (r : Except ε (St.Reply c)) :
    ATask.Within { t with prog := some (k r) } := by
  intro p hp' c' hc
  cases hp'
  exact h _ hp c' (.later r hc)

/-- What `Safe` keeps. -/
structure Kept (I : E.Db → A.World → List (Entry E St) → Prop) (Q : A.Request → E.Db → Prop)
    (s : AState A) : Prop where
  inv : I s.db s.world s.log
  known : ∀ t ∈ s.tasks, Q t.request s.db ∧ t.Within

theorem Safe.step {I : E.Db → A.World → List (Entry E St) → Prop} {Q : A.Request → E.Db → Prop}
    (h : Safe A C I Q) {s s' : AState A} (hk : Kept I Q s) (hs : AStep C s s') :
    Kept I Q s' := by
  cases hs with
  | arrive hw =>
      obtain ⟨hI, hQ⟩ := h.arrive hk.inv hw
      refine ⟨hI, fun t ht => ?_⟩
      rcases List.mem_append.mp ht with ht | ht
      · exact hk.known t ht
      · rw [List.mem_singleton.mp ht]
        refine ⟨hQ, fun p hp c hc => ?_⟩
        cases hp
        exact hc
  | env hw => exact ⟨h.env hk.inv hw, hk.known⟩
  | @op i t c k o ht hp ho hb =>
      obtain ⟨hQ, hin⟩ := hk.known t (List.mem_of_getElem? ht)
      refine ⟨h.op i hk.inv hQ (hin.calls hp) ho hb, fun t' ht' => ?_⟩
      have hstable : ∀ r', Q r' s.db → Q r' (E.view s.db o.writes) :=
        fun r' => h.stable hk.inv hQ (hin.calls hp) ho hb
      rcases List.mem_or_eq_of_mem_set ht' with ht' | rfl
      · exact ⟨hstable _ (hk.known t' ht').1, (hk.known t' ht').2⟩
      · exact ⟨hstable _ hQ, hin.next hp o.answer⟩
  | @crash i t ht =>
      refine ⟨hk.inv, fun t' ht' => ?_⟩
      rcases List.mem_or_eq_of_mem_set ht' with ht' | rfl
      · exact hk.known t' ht'
      · exact ⟨(hk.known t (List.mem_of_getElem? ht)).1, fun p hp => by cases hp⟩

theorem Kept.init {I : E.Db → A.World → List (Entry E St) → Prop} {Q : A.Request → E.Db → Prop}
    {d : E.Db} {w : A.World} (h : I d w []) : Kept I Q (⟨d, w, [], []⟩ : AState A) :=
  ⟨h, fun _ ht => absurd ht List.not_mem_nil⟩

theorem Safe.reach {I : E.Db → A.World → List (Entry E St) → Prop} {Q : A.Request → E.Db → Prop}
    (h : Safe A C I Q) {s₀ s : AState A} (h₀ : Kept I Q s₀) (hr : AReach C s₀ s) : Kept I Q s :=
  hr.induct h₀ fun _ _ _ hk hs => h.step hk hs

/-- What is required of requests holds of every call. -/
theorem requests_reach {p : A.Request → Prop} (hp : ∀ {w r w'}, A.accept w r = some w' → p r)
    {d : E.Db} {w : A.World} {s : AState A} (h : AReach C ⟨d, w, [], []⟩ s) :
    ∀ t ∈ s.tasks, p t.request := by
  have hsafe : Safe A C (fun _ _ _ => True) fun r _ => p r :=
    { arrive := fun _ hw => ⟨trivial, hp hw⟩
      env := fun _ _ => trivial
      op := fun _ _ _ _ _ _ => trivial
      stable := fun _ _ _ _ _ hQ => hQ }
  exact fun t ht => ((hsafe.reach (Kept.init trivial) h).known t ht).1

/-- The database is what the operations of the log have written. -/
theorem db_reach {d : E.Db} {w : A.World} {s : AState A} (h : AReach C ⟨d, w, [], []⟩ s) :
    s.db = E.view d (s.log.flatMap fun e => e.op.writes) := by
  have hsafe : Safe A C (fun d' _ g => d' = E.view d (g.flatMap fun e => e.op.writes))
      fun _ _ => True :=
    { arrive := fun hI _ => ⟨hI, trivial⟩
      env := fun hI _ => hI
      op := by
        intro d' w g r c o i hI _ _ _ _
        rw [List.flatMap_append, E.view_append, ← hI]
        simp
      stable := fun _ _ _ _ _ hQ => hQ }
  exact (hsafe.reach (Kept.init rfl) h).inv

/-- What holds between the databases of two moments, because every operation keeps it. -/
theorem later_reach {R : E.Db → E.Db → Prop} (hrefl : ∀ d, R d d)
    (hstep : ∀ {d₀ c} {o : Op E ε (St.Reply c)}, R d₀ o.before → C.Allows c o →
      R d₀ (E.view o.before o.writes)) {s s' : AState A} (h : AReach C s s') : R s.db s'.db := by
  refine h.induct (P := fun s' => R s.db s'.db) (hrefl s.db) fun s₁ s₂ _ hR hs => ?_
  cases hs with
  | arrive _ => exact hR
  | env _ => exact hR
  | op _ _ ho hb =>
      rw [← hb] at hR ⊢
      exact hstep hR ho
  | crash _ => exact hR

/-- The moment an operation of the log ended. -/
theorem AReach.before {s₀ s : AState A} (h : AReach C s₀ s) (h₀ : s₀.log = [])
    {g g' : List (Entry E St)} {e : Entry E St} (hlog : s.log = g ++ e :: g') :
    ∃ s₁, AReach C s₀ s₁ ∧ s₁.log = g ∧ s₁.db = e.op.before ∧ AReach C s₁ s := by
  induction h generalizing g' with
  | refl => simp [h₀] at hlog
  | @step s s' hr hs ih =>
      have hstay : ∀ {g'}, s.log = g ++ e :: g' →
          ∃ s₁, AReach C s₀ s₁ ∧ s₁.log = g ∧ s₁.db = e.op.before ∧ AReach C s₁ s' := by
        intro g' hlog
        obtain ⟨s₁, h₁, hg, hdb, h₂⟩ := ih hlog
        exact ⟨s₁, h₁, hg, hdb, h₂.step hs⟩
      cases hs with
      | arrive hw => exact hstay hlog
      | env hw => exact hstay hlog
      | crash ht => exact hstay hlog
      | @op i t c k o ht hp ho hb =>
          rcases List.eq_nil_or_concat g' with rfl | ⟨g'', f, rfl⟩
          · obtain ⟨hg, he⟩ := List.append_inj' hlog rfl
            cases he
            exact ⟨s, hr, hg, hb.symm, AReach.refl.step (.op ht hp ho hb)⟩
          · have hlog' : s.log ++ [⟨i, c, o⟩] = (g ++ e :: g'') ++ [f] := by simpa using hlog
            exact hstay (List.append_inj' hlog' rfl).1

/-- What every operation keeps has been kept since any operation of the log. -/
theorem since_reach {Q : E.Db → Prop}
    (hstep : ∀ {c} {o : Op E ε (St.Reply c)}, Q o.before → C.Allows c o →
      Q (E.view o.before o.writes)) {d : E.Db} {w : A.World} {s : AState A}
    (h : AReach C ⟨d, w, [], []⟩ s) {e : Entry E St} (he : e ∈ s.log)
    (hQ : Q (E.view e.op.before e.op.writes)) : Q s.db := by
  have hsafe : Safe A C (fun d' _ g => ∀ e ∈ g, Q (E.view e.op.before e.op.writes) → Q d')
      fun _ _ => True :=
    { arrive := fun hI _ => ⟨hI, trivial⟩
      env := fun hI _ => hI
      op := by
        intro d' w g r c o i hI _ _ ho hb e he hQ
        rcases List.mem_append.mp he with he | he
        · exact hb ▸ hstep (hb ▸ hI e he hQ) ho
        · rw [List.mem_singleton.mp he] at hQ
          exact hb ▸ hQ
      stable := fun _ _ _ _ _ hQ => hQ }
  exact (hsafe.reach (Kept.init fun e he => absurd he List.not_mem_nil) h).inv e he hQ

/-- It holds at every later operation. -/
theorem between_reach {Q : E.Db → Prop}
    (hstep : ∀ {c} {o : Op E ε (St.Reply c)}, Q o.before → C.Allows c o →
      Q (E.view o.before o.writes)) {d : E.Db} {w : A.World} {s : AState A}
    (h : AReach C ⟨d, w, [], []⟩ s) {g g' : List (Entry E St)} {e f : Entry E St}
    (hlog : s.log = g ++ e :: g') (hf : f ∈ g') (hQ : Q (E.view e.op.before e.op.writes)) :
    Q f.op.before := by
  obtain ⟨a, b, rfl⟩ := List.append_of_mem hf
  have hlog' : s.log = (g ++ e :: a) ++ f :: b := by simpa using hlog
  obtain ⟨s₁, h₁, hg, hdb, _⟩ := h.before rfl hlog'
  rw [← hdb]
  refine since_reach hstep h₁ (e := e) ?_ hQ
  rw [hg]
  exact List.mem_append_right _ List.mem_cons_self

/-! ## What calls return -/

/-- The operations of call `i`. -/
def own (i : Nat) (g : List (Entry E St)) : List (Entry E St) := g.filter (fun e => e.task == i)

theorem own_append_self (i : Nat) (g : List (Entry E St)) (c : St.Call)
    (o : Op E ε (St.Reply c)) : own i (g ++ [⟨i, c, o⟩]) = own i g ++ [⟨i, c, o⟩] := by
  simp [own]

theorem own_append_other {i j : Nat} (h : j ≠ i) (g : List (Entry E St)) (c : St.Call)
    (o : Op E ε (St.Reply c)) : own i (g ++ [⟨j, c, o⟩]) = own i g := by
  simp [own, h]

/-- Whatever the others do along `G` between its operations, the code of call
`i`, having made the operations `g`, returns as `Post` says.  `J` holds of every
database it meets. -/
def Svc.Wp {α : Type} (C : Contract E St) (J : E.Db → Prop) (G : E.Db → E.Db → Prop) (i : Nat)
    (Post : α → List (Entry E St) → E.Db → Prop) :
    Svc St α → List (Entry E St) → E.Db → Prop
  | .ret a, g, d => Post a g d
  | .call c k, g, d => ∀ o : Op E ε (St.Reply c), G d o.before → J o.before → C.Allows c o →
      (k o.answer).Wp C J G i Post (g ++ [⟨i, c, o⟩]) (E.view o.before o.writes)

/-- A proof that every call returns as `Post` says. -/
structure Proved (A : App E St) (C : Contract E St) (J : E.Db → Prop) (G : E.Db → E.Db → Prop)
    (Post : (r : A.Request) → E.Db → A.Result r → List (Entry E St) → E.Db → Prop) :
    Prop where
  refl : ∀ d, G d d
  trans : ∀ {d d' d''}, G d d' → G d' d'' → G d d''
  /-- Every operation respects `G`. -/
  guar : ∀ {c} {o : Op E ε (St.Reply c)}, J o.before → C.Allows c o →
    G o.before (E.view o.before o.writes)
  /-- `Post` survives what the others do. -/
  stable : ∀ {r d₀ a g d d'}, Post r d₀ a g d → G d d' → J d' → Post r d₀ a g d'
  /-- The code of every call. -/
  wp : ∀ {r d} (i : Nat), J d → (A.program r).Wp C J G i (Post r d) [] d

theorem Svc.Wp.rely {α : Type} {J : E.Db → Prop} {G : E.Db → E.Db → Prop} {i : Nat}
    {Post : α → List (Entry E St) → E.Db → Prop}
    (htrans : ∀ {d d' d''}, G d d' → G d' d'' → G d d'')
    (hstable : ∀ {a g d d'}, Post a g d → G d d' → J d' → Post a g d') {p : Svc St α}
    {g : List (Entry E St)} {d d' : E.Db} (h : p.Wp C J G i Post g d) (hG : G d d')
    (hJ : J d') : p.Wp C J G i Post g d' := by
  cases p with
  | ret a => exact hstable h hG hJ
  | call c k => exact fun o hG' hJ' ho => h o (htrans hG hG') hJ' ho

/-- The calls of a state all return as `Post` says, from where they are. -/
structure Returning (C : Contract E St) (J : E.Db → Prop) (G : E.Db → E.Db → Prop)
    (Post : (r : A.Request) → E.Db → A.Result r → List (Entry E St) → E.Db → Prop)
    (s : AState A) : Prop where
  wp : ∀ (i : Nat) (t : ATask A), s.tasks[i]? = some t → ∀ p, t.prog = some p →
    p.Wp C J G i (Post t.request t.start) (own i s.log) s.db
  /-- The log names calls that have arrived. -/
  named : ∀ e ∈ s.log, e.task < s.tasks.length

variable {J : E.Db → Prop} {G : E.Db → E.Db → Prop}
  {Post : (r : A.Request) → E.Db → A.Result r → List (Entry E St) → E.Db → Prop}

theorem own_eq_nil {s : AState A} (h : Returning C J G Post s) :
    own s.tasks.length s.log = [] := by
  refine List.filter_eq_nil_iff.mpr fun e he heq => ?_
  have hlt := h.named e he
  rw [beq_iff_eq.mp heq] at hlt
  exact Nat.lt_irrefl _ hlt

theorem Proved.step (h : Proved A C J G Post) {s s' : AState A} (hs : Returning C J G Post s)
    (hJ : J s.db) (hJ' : J s'.db) (hstep : AStep C s s') : Returning C J G Post s' := by
  cases hstep with
  | @arrive r w hw =>
      refine ⟨fun i t ht p hp => ?_, fun e he => ?_⟩
      · rcases getElem?_concat_cases ht with ⟨rfl, rfl⟩ | ht
        · cases hp
          show Svc.Wp C J G _ _ _ (own s.tasks.length s.log) s.db
          rw [own_eq_nil hs]
          exact h.wp _ hJ
        · exact hs.wp i t ht p hp
      · have := hs.named e he
        simp only [List.length_append, List.length_singleton]
        omega
  | env hw => exact ⟨hs.wp, hs.named⟩
  | @op i t c k o ht hp ho hb =>
      have hG : G s.db (E.view s.db o.writes) := hb ▸ h.guar (hb ▸ hJ) ho
      refine ⟨fun j u hu p hup => ?_, fun e he => ?_⟩
      · rcases getElem?_set_cases hu with ⟨rfl, rfl⟩ | ⟨hji, hu⟩
        · cases hup
          show Svc.Wp C J G j _ _ (own j (s.log ++ [⟨j, c, o⟩])) (E.view s.db o.writes)
          rw [own_append_self, ← hb]
          exact hs.wp j t ht _ hp o (hb ▸ h.refl s.db) (hb ▸ hJ) ho
        · show Svc.Wp C J G j _ _ (own j (s.log ++ [⟨i, c, o⟩])) (E.view s.db o.writes)
          rw [own_append_other (Ne.symm hji)]
          refine Svc.Wp.rely ?_ ?_ (hs.wp j u hu p hup) hG hJ'
          · exact h.trans
          · exact h.stable
      · simp only [List.length_set]
        rcases List.mem_append.mp he with he | he
        · exact hs.named e he
        · rw [List.mem_singleton.mp he]
          exact (List.getElem?_eq_some_iff.mp ht).1
  | @crash i t ht =>
      refine ⟨fun j u hu p hup => ?_, fun e he => ?_⟩
      · rcases getElem?_set_cases hu with ⟨rfl, rfl⟩ | ⟨_, hu⟩
        · cases hup
        · exact hs.wp j u hu p hup
      · simpa using hs.named e he

theorem Proved.reach (h : Proved A C J G Post) {d : E.Db} {w : A.World}
    (hJ : ∀ s : AState A, AReach C ⟨d, w, [], []⟩ s → J s.db) {s : AState A}
    (hr : AReach C ⟨d, w, [], []⟩ s) : Returning C J G Post s := by
  induction hr with
  | refl => exact ⟨fun i t ht => by simp at ht, fun e he => absurd he List.not_mem_nil⟩
  | step hr hs ih => exact h.step ih (hJ _ hr) (hJ _ (hr.step hs)) hs

/-- A call that has returned, returned as `Post` says. -/
theorem Returning.post {s : AState A} (h : Returning C J G Post s) {i : Nat} {t : ATask A}
    {a : A.Result t.request} (ht : s.tasks[i]? = some t) (ha : t.prog = some (.ret a)) :
    Post t.request t.start a (own i s.log) s.db :=
  h.wp i t ht _ ha

end Transact
