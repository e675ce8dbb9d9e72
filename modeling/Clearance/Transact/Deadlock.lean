/-
# `Transact.Deadlock` — transactions that ask for locks in order

A transaction that waits keeps what it has: the locks of the statements behind it, and
those locks of the statement it is in that it got before the one it waits for.  A
deadlock is a circle of transactions, each of which waits for a lock the next one has.

There is none if locks can be ranked such that whoever asks for a lock has only locks of
lower rank (`acyclic_of_orderly`).  The rank may depend on the committed database.
`Climbs` says of a transaction that it asks in order, whatever the others commit
meanwhile, as long as they respect its locks; a run of the machine keeps it
(`Sessions.reach`, which is the rule for any property of open sessions).
-/
import Clearance.Transact.Invariant

namespace Transact

variable {S : Signature} {ε : Type} {E : Engine S} {St : Store S ε} {A : App E St}
  {R : Rely E} {C : Contract E St}

/-! ## What holds of every open session -/

/-- `J` holds of every open session. -/
def Sessions (J : (c : St.Call) → Session E ε (St.Reply c) → E.Db → Prop) (s : State A) : Prop :=
  ∀ (i : Nat) (t : Task A) (c : St.Call) (x : Session E ε (St.Reply c))
    (k : Except ε (St.Reply c) → Svc St (A.Result t.request)),
    s.tasks[i]? = some t → t.proc = .busy c x k → J c x s.db

/-- `J` holds when a session is opened by an operation that `ok` admits, and is kept by its
statements and by the commits of others. -/
structure Lasting (R : Rely E) (ok : St.Call → Prop)
    (J : (c : St.Call) → Session E ε (St.Reply c) → E.Db → Prop) : Prop where
  start : ∀ {c h tx} (d : E.Db), ok c → St.method c = .transaction h tx → J c ⟨tx, [], []⟩ d
  exec : ∀ {c q h k w l d f} {r : Effect E.Write E.Lock (S.Reply q)},
    J c ⟨.exec q h k, w, l⟩ d → E.exec q f (E.view d w) = .ok r →
    J c ⟨k r.reply, w ++ r.writes, l ++ r.locks⟩ d
  rely : ∀ {c x d d'}, J c x d → R.rel x.locks d d' → J c x d'

namespace Sessions

variable {J : (c : St.Call) → Session E ε (St.Reply c) → E.Db → Prop} {ok : St.Call → Prop}
  {s s' : State A} {i : Nat} {t : Task A} {c : St.Call}
  {k : Except ε (St.Reply c) → Svc St (A.Result t.request)}

/-- Call `i` moves on, and the others see what their locks allow. -/
theorem set (hJ : Lasting R ok J) (h : Sessions J s) {t' : Task A} {d' : E.Db}
    {g : List (Entry E St)}
    (hothers : ∀ (j : Nat) (u : Task A), j ≠ i → s.tasks[j]? = some u →
      R.rel u.proc.locks s.db d')
    (hself : ∀ c x k, t'.proc = .busy c x k → J c x d') :
    Sessions J { s with db := d', tasks := s.tasks.set i t', log := g } := by
  intro j u c x k hu hproc
  rcases getElem?_set_cases hu with ⟨_, rfl⟩ | ⟨hji, hu⟩
  · exact hself c x k hproc
  · have hrel := hothers j u hji hu
    rw [hproc] at hrel
    exact hJ.rely (h j u c x k hu hproc) hrel

/-- An operation ends; what it wrote was under locks nobody else has. -/
theorem finish (hJ : Lasting R ok J) (h : Sessions J s) {o : Op E ε (St.Reply c)}
    {l : List E.Lock} (hw : Guar R l o.writes) (hl : s.Unheld i l) :
    Sessions J (s.finish i t c k o) := by
  refine h.set hJ (fun j u hji hu => hw s.db _ (hl j u hji hu).symm) ?_
  intro c x k hproc
  cases hproc

theorem finish_nil (hJ : Lasting R ok J) (h : Sessions J s) {o : Op E ε (St.Reply c)}
    (hw : o.writes = []) : Sessions J (s.finish i t c k o) :=
  h.finish hJ (hw ▸ Guar.nil R []) (.nil s i)

theorem put (hJ : Lasting R ok J) (h : Sessions J s) {p : Proc E St (A.Result t.request)}
    (hself : ∀ c x k, p = .busy c x k → J c x s.db) : Sessions J (s.put i t p) :=
  h.set hJ (g := s.log) (fun _ u _ _ => R.refl u.proc.locks s.db) hself

theorem proceed (hJ : Lasting R ok J) (h : Sessions J s) {x : Session E ε (St.Reply c)}
    (hx : J c x s.db) : Sessions J (s.proceed i t c k x) := by
  have hbusy : Sessions J (s.put i t (.busy c x k)) := by
    refine h.put hJ ?_
    intro c' x' k' heq
    cases heq
    exact hx
  obtain ⟨tx, w, l⟩ := x
  cases tx with
  | ret _ => exact hbusy
  | exec _ _ _ => exact hbusy
  | throw e => exact h.finish_nil hJ rfl

variable (hJ : Lasting R ok J) (hS : St.Sound R C)
include hJ hS

theorem run (hI : Isolated R C s) (h : Sessions J s) (ht : s.tasks[i]? = some t)
    (hok : ∀ c k, t.proc.abs = some (.call c k) → ok c) (hr : s.run i t = some s') :
    Sessions J s' := by
  have hproc := hI.ok i t ht
  have hun := hI.unheld ht
  rw [State.run] at hr
  split at hr
  · cases hr
  · cases hr
  · next c k hp =>
      have hc := hok c k (by rw [hp, Proc.abs_idle])
      have hsound := hS c
      split at hr
      · next e tx hm =>
          cases hr
          exact h.proceed hJ (hJ.start s.db hc hm)
      · next q e f hm =>
          rw [hm] at hsound
          split at hr
          · next hfree =>
              have hspec := hsound.2 s.db (s.held i)
              split at hr
              · cases hr
                exact h.finish_nil hJ rfl
              · next r hx =>
                  rw [hx] at hspec
                  cases hr
                  exact h.finish hJ hspec.2 (State.unheld_locks hfree hx)
          · cases hr
  · next c x k hp =>
      have hx := h i t c x k ht hp
      rw [hp] at hproc hun
      obtain ⟨tx, w, l⟩ := x
      cases tx with
      | ret cm =>
          cases hr
          exact h.finish hJ hproc.2.guar hun
      | throw e =>
          cases hr
          exact h.finish_nil hJ rfl
      | exec q e kk =>
          simp only at hr
          split at hr
          · split at hr
            · cases hr
              exact h.finish_nil hJ rfl
            · next r hy =>
                cases hr
                exact h.proceed hJ (hJ.exec hx hy)
          · cases hr

omit hS in
theorem fault (h : Sessions J s) (hr : s.fault i t = some s') : Sessions J s' := by
  rw [State.fault] at hr
  split at hr
  · cases hr
  · cases hr
  · split at hr
    · cases hr
      exact h.finish_nil hJ rfl
    · cases hr
      exact h.finish_nil hJ rfl
  · split at hr
    · cases hr
      exact h.finish_nil hJ rfl
    · cases hr
    · cases hr
      exact h.finish_nil hJ rfl

theorem lose (hI : Isolated R C s) (h : Sessions J s) (ht : s.tasks[i]? = some t)
    (hr : s.lose i t = some s') : Sessions J s' := by
  have hproc := hI.ok i t ht
  have hun := hI.unheld ht
  rw [State.lose] at hr
  split at hr
  · cases hr
  · cases hr
  · next c k hp =>
      have hsound := hS c
      split at hr
      · cases hr
      · next q e f hm =>
          rw [hm] at hsound
          split at hr
          · next hfree =>
              have hspec := hsound.2 s.db (s.held i)
              split at hr
              · cases hr
              · next r hx =>
                  rw [hx] at hspec
                  cases hr
                  exact h.finish hJ hspec.2 (State.unheld_locks hfree hx)
          · cases hr
  · next c x k hp =>
      rw [hp] at hproc hun
      split at hr
      · cases hr
        exact h.finish hJ hproc.2.guar hun
      · cases hr

/-- One step. -/
theorem step (hI : Isolated R C s) (h : Sessions J s)
    (hok : ∀ t ∈ s.tasks, ∀ c k, t.proc.abs = some (.call c k) → ok c) {e : Event A}
    (he : s.step e = some s') : Sessions J s' := by
  cases e with
  | arrive r =>
      obtain ⟨w, _, rfl⟩ := Option.map_eq_some_iff.mp he
      intro j u c x k hu hproc
      rcases getElem?_concat_cases hu with ⟨_, rfl⟩ | hu
      · cases hproc
      · exact h j u c x k hu hproc
  | env e =>
      obtain ⟨w, _, rfl⟩ := Option.map_eq_some_iff.mp he
      exact h
  | run i =>
      obtain ⟨t, ht, hr⟩ := Option.bind_eq_some_iff.mp he
      exact run hJ hS hI h ht (hok t (List.mem_of_getElem? ht)) hr
  | fault i =>
      obtain ⟨t, _, hr⟩ := Option.bind_eq_some_iff.mp he
      exact fault hJ h hr
  | lose i =>
      obtain ⟨t, ht, hr⟩ := Option.bind_eq_some_iff.mp he
      exact lose hJ hS hI h ht hr
  | crash i =>
      obtain ⟨t, _, rfl⟩ := Option.map_eq_some_iff.mp he
      refine h.put hJ ?_
      intro c x k hproc
      cases hproc

end Sessions

/-- What lasts holds of the open sessions of every run. -/
theorem Sessions.reach {J : (c : St.Call) → Session E ε (St.Reply c) → E.Db → Prop}
    {ok : St.Call → Prop} (hJ : Lasting R ok J) (hS : St.Sound R C)
    (hok : ∀ {w r w'}, A.accept w r = some w' → ∀ c, (A.program r).Calls c → ok c)
    {es : List (Event A)} {s s' : State A} (hI : Isolated R C s)
    (hk : Kept (fun _ _ _ => True) (fun r _ => ∀ c, (A.program r).Calls c → ok c) s.abs)
    (h : Sessions J s) (hes : s.steps es = some s') : Sessions J s' := by
  have hsafe : Safe A C (fun _ _ _ => True) fun r _ => ∀ c, (A.program r).Calls c → ok c :=
    { arrive := fun _ hw => ⟨trivial, hok hw⟩
      env := fun _ _ => trivial
      op := fun _ _ _ _ _ _ => trivial
      stable := fun _ _ _ _ _ hQ => hQ }
  induction es generalizing s with
  | nil =>
      cases hes
      exact h
  | cons e es ih =>
      obtain ⟨s₁, he, hes⟩ := Option.bind_eq_some_iff.mp hes
      have hadmitted : ∀ t ∈ s.tasks, ∀ c k, t.proc.abs = some (.call c k) → ok c := by
        intro t ht c k hp
        obtain ⟨hQ, hin⟩ := hk.known t.abs (List.mem_map_of_mem ht)
        exact hQ c (hin.calls hp)
      obtain ⟨hI', habs⟩ := State.refines hS hI he
      have hk' : Kept (fun _ _ _ => True) (fun r _ => ∀ c, (A.program r).Calls c → ok c)
          s₁.abs := by
        rcases habs with heq | hstep
        · rwa [heq]
        · exact hsafe.step hk hstep
      exact ih hI' hk' (h.step hJ hS hI hadmitted he) hes

theorem Sessions.init (J : (c : St.Call) → Session E ε (St.Reply c) → E.Db → Prop) (d : E.Db)
    (w : A.World) : Sessions J (State.init d w : State A) := by
  intro i t c x k ht
  simp [State.init] at ht

/-! ## What every statement finds -/

section

variable (R) (P : S.Stmt → List E.Write → E.Db → Prop)

/-- Every statement of a transaction that holds `l` and has written `w` finds what `P` says,
whatever the others commit meanwhile. -/
def Throughout {α : Type} : Tx S ε α → List E.Lock → List E.Write → E.Db → Prop
  | .ret _, _, _, _ => True
  | .throw _, _, _, _ => True
  | .exec q _ k, l, w, d => ∀ d', R.rel l d d' →
      P q w d' ∧ ∀ f r, E.exec q f (E.view d' w) = .ok r →
        Throughout (k r.reply) (l ++ r.locks) (w ++ r.writes) d'

variable {R P}

theorem Throughout.rely {α : Type} {p : Tx S ε α} {l : List E.Lock} {w : List E.Write}
    {d d' : E.Db} (h : Throughout R P p l w d) (hr : R.rel l d d') : Throughout R P p l w d' := by
  cases p with
  | ret _ => trivial
  | throw _ => trivial
  | exec q e k => exact fun d'' hr' => h d'' (R.trans hr hr')

/-- The statement that is next, in any state of a run. -/
theorem Throughout.reach (sel : St.Call → Prop) (hS : St.Sound R C)
    (hstart : ∀ c, sel c → ∀ e tx, St.method c = .transaction e tx →
      ∀ d, Throughout R P tx [] [] d)
    {d : E.Db} {w : A.World} {es : List (Event A)} {s : State A}
    (hes : (State.init d w : State A).steps es = some s) {i : Nat} {t : Task A} {c : St.Call}
    {x : Session E ε (St.Reply c)} {k : Except ε (St.Reply c) → Svc St (A.Result t.request)}
    (ht : s.tasks[i]? = some t) (hp : t.proc = .busy c x k) (hc : sel c) {q : S.Stmt}
    {e : S.Fault → ε} {kk : S.Reply q → Tx S ε (Commit S ε (St.Reply c))}
    (hx : x.tx = .exec q e kk) : P q x.writes s.db := by
  have hlasting : Lasting R (fun _ => True) fun c (x : Session E ε (St.Reply c)) d =>
      sel c → Throughout R P x.tx x.locks x.writes d :=
    { start := fun d _ hm hc => hstart _ hc _ _ hm d
      exec := fun hx hr hc => (hx hc _ (R.refl _ _)).2 _ _ hr
      rely := fun hx hr hc => (hx hc).rely hr }
  have hsessions := (Sessions.init _ d w).reach hlasting hS (fun _ _ _ => trivial)
    (Isolated.init d w) (Kept.init trivial) hes
  have hthis := hsessions i t c x k ht hp hc
  rw [hx] at hthis
  exact (hthis s.db (R.refl _ _)).1

end

/-! ## Waiting -/

/-- The locks the next statement of an open transaction asks for, in that order. -/
def Proc.asks {α : Type} (d : E.Db) : Proc E St α → List E.Lock
  | .busy _ x _ =>
      match x.tx with
      | .exec q _ _ => E.needs q (E.view d x.writes)
      | _ => []
  | _ => []

namespace State

/-- Every call that `waits` names a lock for is in an open transaction and asks for it. -/
def Waiting (s : State A) (waits : Nat → Option E.Lock) : Prop :=
  ∀ i a, waits i = some a →
    ∃ t, s.tasks[i]? = some t ∧ a ∈ t.proc.asks s.db ∧ a ∉ t.proc.locks

/-- Call `j` has the lock: from an earlier statement, or from the one it is in, where it
waits for a later lock. -/
def Has (s : State A) (waits : Nat → Option E.Lock) (j : Nat) (a : E.Lock) : Prop :=
  ∃ t, s.tasks[j]? = some t ∧
    (a ∈ t.proc.locks ∨
      ∃ b before after, waits j = some b ∧ t.proc.asks s.db = before ++ b :: after ∧ a ∈ before)

/-- Call `i` waits for a lock that `j` has. -/
def WaitsFor (s : State A) (waits : Nat → Option E.Lock) (i j : Nat) : Prop :=
  ∃ a, waits i = some a ∧ s.Has waits j a

end State

/-- The locks asked for have ever higher ranks, above those that are held. -/
structure Orderly {Lock : Type} (rank : Lock → Nat) (held asked : List Lock) : Prop where
  above : ∀ a ∈ asked, a ∉ held → ∀ b ∈ held, rank b < rank a
  climbing : asked.Pairwise fun a b => rank a < rank b

/-- Where everybody asks in order, nobody waits for itself. -/
theorem acyclic_of_orderly {s : State A} (rank : E.Lock → Nat)
    (h : ∀ (i : Nat) (t : Task A), s.tasks[i]? = some t →
      Orderly rank t.proc.locks (t.proc.asks s.db))
    {waits : Nat → Option E.Lock} (hw : s.Waiting waits) (i : Nat) :
    ¬ Relation.TransGen (s.WaitsFor waits) i i := by
  -- along the relation, what is waited for gets higher and higher
  have hedge : ∀ {j k a b}, waits j = some a → s.Has waits k a → waits k = some b →
      rank a < rank b := by
    rintro j k a b - ⟨t, ht, hhas⟩ hb
    obtain ⟨t', ht', hasks, hnot⟩ := hw k b hb
    obtain rfl : t = t' := Option.some.inj (ht.symm.trans ht')
    rcases hhas with hheld | ⟨b', before, after, hb', heq, hmem⟩
    · exact (h k t ht).above b hasks hnot a hheld
    · obtain rfl : b = b' := Option.some.inj (hb.symm.trans hb')
      have hpair := (h k t ht).climbing
      rw [heq] at hpair
      exact (List.pairwise_append.mp hpair).2.2 a hmem b List.mem_cons_self
  have hpath : ∀ {j}, Relation.TransGen (s.WaitsFor waits) i j →
      ∃ a, waits i = some a ∧ ∀ b, waits j = some b → rank a < rank b := by
    intro j hj
    induction hj with
    | single hij =>
        obtain ⟨a, ha, hhas⟩ := hij
        exact ⟨a, ha, fun b hb => hedge ha hhas hb⟩
    | tail _ hjk ih =>
        obtain ⟨a, ha, hlt⟩ := ih
        obtain ⟨b, hb, hhas⟩ := hjk
        exact ⟨a, ha, fun c hc => (hlt b hb).trans (hedge hb hhas hc)⟩
  intro hcycle
  obtain ⟨a, ha, hlt⟩ := hpath hcycle
  exact Nat.lt_irrefl _ (hlt a ha)

/-! ## Transactions that climb -/

section

variable (R) (rank : E.Db → E.Lock → Nat)

/-- A transaction that holds `l` and has written `w` asks for locks in order. -/
def Climbs {α : Type} : Tx S ε α → List E.Lock → List E.Write → E.Db → Prop
  | .ret _, _, _, _ => True
  | .throw _, _, _, _ => True
  | .exec q _ k, l, w, d => ∀ d', R.rel l d d' →
      Orderly (rank d') l (E.needs q (E.view d' w)) ∧
      ∀ f r, E.exec q f (E.view d' w) = .ok r →
        Climbs (k r.reply) (l ++ r.locks) (w ++ r.writes) d'

variable {R rank}

theorem Climbs.rely {α : Type} {p : Tx S ε α} {l : List E.Lock} {w : List E.Write} {d d' : E.Db}
    (h : Climbs R rank p l w d) (hr : R.rel l d d') : Climbs R rank p l w d' := by
  cases p with
  | ret _ => trivial
  | throw _ => trivial
  | exec q e k => exact fun d'' hr' => h d'' (R.trans hr hr')

theorem Climbs.lasting {ok : St.Call → Prop}
    (h : ∀ c, ok c → ∀ e tx, St.method c = .transaction e tx → ∀ d, Climbs R rank tx [] [] d) :
    Lasting R ok fun c (x : Session E ε (St.Reply c)) d =>
      Climbs R rank x.tx x.locks x.writes d where
  start d hc hm := h _ hc _ _ hm d
  exec hx hr := (hx _ (R.refl _ _)).2 _ _ hr
  rely hx hr := hx.rely hr

/-- Nobody waits in a circle, in any run, if every transaction climbs. -/
theorem acyclic_reach (ok : St.Call → Prop) (hS : St.Sound R C)
    (hclimbs : ∀ c, ok c → ∀ e tx, St.method c = .transaction e tx →
      ∀ d, Climbs R rank tx [] [] d)
    (hok : ∀ {w r w'}, A.accept w r = some w' → ∀ c, (A.program r).Calls c → ok c)
    {d : E.Db} {w : A.World} {es : List (Event A)} {s : State A}
    (hes : (State.init d w : State A).steps es = some s) {waits : Nat → Option E.Lock}
    (hw : s.Waiting waits) (i : Nat) : ¬ Relation.TransGen (s.WaitsFor waits) i i := by
  have hsessions := (Sessions.init _ d w).reach (Climbs.lasting hclimbs) hS hok
    (Isolated.init d w) (Kept.init trivial) hes
  refine acyclic_of_orderly (rank s.db) ?_ hw i
  intro j t ht
  have hnone : Orderly (rank s.db) t.proc.locks [] := ⟨nofun, .nil⟩
  cases hp : t.proc with
  | idle _ => rwa [hp] at hnone
  | crashed => rwa [hp] at hnone
  | busy c x k =>
      rw [hp] at hnone
      have hx := hsessions j t c x k ht hp
      obtain ⟨tx, ws, l⟩ := x
      cases tx with
      | ret _ => exact hnone
      | throw _ => exact hnone
      | exec q e kk => exact (hx s.db (R.refl l s.db)).1

end

end Transact
