/-
# `Transact.Locking` — transactions that hold their locks to the end

While a session is under way other sessions commit.  `Rely` says what they may
change: `R.rel l d d'` reads "a session holding the locks `l` may see the
database go from `d` to `d'`".  A session keeps its side of the bargain when its
writes stay under its own locks (`Guar`).

The question this module answers is when the *rest* of a transaction, run from
the database of this moment, ends in a way its specification allows for the
*whole* transaction.  `Sim spec l p w d` says so for the rest `p` of a session
with locks `l` and writes `w`, for `d` and for every database the others can
turn it into.  It holds at the start, it survives the commits of others by
transitivity of the rely, and `Conforms` says that it survives every statement
of the program itself.  A program that has come to an error is rolled back there
and then, before anybody else moves (`After`).

`After.protected` is the rule that does the work: a statement whose result is
fixed by locks held once it has run keeps `Sim`.  `Guarded` is the Hoare-style
predicate for programs made of such statements only.
-/
import Clearance.Transact.Program

namespace Transact

variable {S : Signature} {E : Engine S} {ε α β : Type}

/-- What the commits of other sessions may do to a session that holds `l`. -/
structure Rely (E : Engine S) where
  rel : List E.Lock → E.Db → E.Db → Prop
  refl : ∀ l d, rel l d d
  trans : ∀ {l d d' d''}, rel l d d' → rel l d' d'' → rel l d d''
  mono : ∀ {l l' d d'}, l ⊆ l' → rel l' d d' → rel l d d'

/-- What a transaction may return on a database, and what it may leave to apply. -/
abbrev Spec (E : Engine S) (ε α : Type) := E.Db → Except ε α → List E.Write → Prop

variable (R : Rely E)

/-- Applying `w` is something a session with other locks has to reckon with. -/
def Guar (l : List E.Lock) (w : List E.Write) : Prop :=
  ∀ d l', l.Disjoint l' → R.rel l' d (E.view d w)

theorem Guar.nil (l : List E.Lock) : Guar R l [] := fun d l' _ => R.refl l' d

theorem Guar.append {l : List E.Lock} {w w' : List E.Write} (h : Guar R l w)
    (h' : Guar R l w') : Guar R l (w ++ w') := by
  intro d l' hd
  rw [E.view_append]
  exact R.trans (h d l' hd) (h' _ l' hd)

theorem Guar.mono {l l' : List E.Lock} {w : List E.Write} (hl : l ⊆ l') (h : Guar R l w) :
    Guar R l' w :=
  fun d l'' hd => h d l'' fun _ hx hx' => hd (hl hx) hx'

/-- The rest `p` of a session ends as `spec` allows, whatever the others do. -/
def Sim (spec : Spec E ε α) (l : List E.Lock) (p : Tx S ε (Commit S ε α)) (w : List E.Write)
    (d : E.Db) : Prop :=
  ∀ d', R.rel l d d' → ∀ res w', p.Runs E d' w res w' → spec d' res w'

variable {R}

theorem Sim.rely {spec : Spec E ε α} {l : List E.Lock} {p : Tx S ε (Commit S ε α)}
    {w : List E.Write} {d d' : E.Db} (h : Sim R spec l p w d) (hr : R.rel l d d') :
    Sim R spec l p w d' :=
  fun d'' hr' => h d'' (R.trans hr hr')

variable (R) in
/-- A session right after a statement, before the others move again. -/
def After (spec : Spec E ε α) (l : List E.Lock) (p : Tx S ε (Commit S ε α)) (w : List E.Write)
    (d : E.Db) : Prop :=
  match p with
  | .throw e => spec d (.error e) []
  | p => Sim R spec l p w d

theorem Sim.after {spec : Spec E ε α} {l : List E.Lock} {p : Tx S ε (Commit S ε α)}
    {w : List E.Write} {d : E.Db} (h : Sim R spec l p w d) : After R spec l p w d := by
  cases p with
  | ret _ => exact h
  | exec _ _ _ => exact h
  | throw e => exact h d (R.refl l d) _ _ ⟨rfl, rfl⟩

/-- What a statement came to is one way the whole session can go. -/
theorem Sim.exec {spec : Spec E ε α} {l : List E.Lock} {s : S.Stmt} {h : S.Fault → ε}
    {k : S.Reply s → Tx S ε (Commit S ε α)} {w : List E.Write} {d d' : E.Db}
    {f : E.Lock → Bool} {r : Effect E.Write E.Lock (S.Reply s)} {res : Except ε α}
    {w' : List E.Write} (hsim : Sim R spec l (.exec s h k) w d) (hr : R.rel l d d')
    (hx : E.exec s f (E.view d' w) = .ok r)
    (hrun : (k r.reply).Runs E d' (w ++ r.writes) res w') : spec d' res w' := by
  refine hsim d' hr res w' ((Tx.runs_exec E).mpr ⟨f, ?_⟩)
  rw [hx]
  exact hrun

/-- A statement after which the program gives up. -/
theorem After.thrown {spec : Spec E ε α} {l l' : List E.Lock} {s : S.Stmt} {h : S.Fault → ε}
    {k : S.Reply s → Tx S ε (Commit S ε α)} {w w' : List E.Write} {d : E.Db}
    {f : E.Lock → Bool} {r : Effect E.Write E.Lock (S.Reply s)} {e : ε}
    (hsim : Sim R spec l (.exec s h k) w d) (hx : E.exec s f (E.view d w) = .ok r)
    (he : k r.reply = .throw e) : After R spec l' (k r.reply) w' d := by
  have hspec : spec d (.error e) [] :=
    hsim.exec (R.refl l d) hx (by rw [he]; exact ⟨rfl, rfl⟩)
  rw [he]
  exact hspec

/-- A statement whose result cannot change under the locks now held. -/
theorem After.protected {spec : Spec E ε α} {l : List E.Lock} {s : S.Stmt} {h : S.Fault → ε}
    {k : S.Reply s → Tx S ε (Commit S ε α)} {w : List E.Write} {d : E.Db}
    {f : E.Lock → Bool} {r : Effect E.Write E.Lock (S.Reply s)}
    (hsim : Sim R spec l (.exec s h k) w d)
    (hp : ∀ d', R.rel (l ++ r.locks) d d' → E.exec s f (E.view d' w) = .ok r) :
    After R spec (l ++ r.locks) (k r.reply) (w ++ r.writes) d :=
  Sim.after fun d' hr _ _ hrun =>
    hsim.exec (R.mono (List.subset_append_left l r.locks) hr) (hp d' hr) hrun

variable (R)

/-- Every statement of the program keeps the session's side of the bargain and
keeps `Sim`.  `d₀` is the database of the last statement: what the locks protect
has not changed since. -/
def Conforms (spec : Spec E ε α) :
    Tx S ε (Commit S ε α) → List E.Lock → List E.Write → E.Db → Prop
  | .ret _, _, _, _ => True
  | .throw _, _, _, _ => True
  | .exec s h k, l, w, d₀ => ∀ d f r, R.rel l d₀ d → E.exec s f (E.view d w) = .ok r →
      Guar R (l ++ r.locks) r.writes ∧
      (Sim R spec l (.exec s h k) w d →
        After R spec (l ++ r.locks) (k r.reply) (w ++ r.writes) d) ∧
      Conforms spec (k r.reply) (l ++ r.locks) (w ++ r.writes) d

/-- The result of every statement is protected, or the program gives up at it;
`Q` holds of the value, the locks and the writes the program ends with. -/
def Guarded : Tx S ε α → List E.Lock → List E.Write →
    (α → List E.Lock → List E.Write → Prop) → Prop
  | .ret a, l, w, Q => Q a l w
  | .throw _, _, _, _ => True
  | .exec s _ k, l, w, Q => ∀ d f r, E.exec s f (E.view d w) = .ok r →
      Guar R (l ++ r.locks) r.writes ∧
      ((∃ e, k r.reply = .throw e) ∨
        ∀ d', R.rel (l ++ r.locks) d d' → E.exec s f (E.view d' w) = .ok r) ∧
      Guarded (k r.reply) (l ++ r.locks) (w ++ r.writes) Q

variable {R}

theorem Guarded.conforms_bind {spec : Spec E ε β} {g : α → Tx S ε (Commit S ε β)} :
    ∀ {p : Tx S ε α} {l : List E.Lock} {w : List E.Write} {d₀ : E.Db},
      Guarded R p l w (fun a l' w' => ∀ d, Conforms R spec (g a) l' w' d) →
      Conforms R spec (p >>= g) l w d₀
  | .ret _, _, _, d₀, h => h d₀
  | .throw _, _, _, _, _ => trivial
  | .exec s e k, l, w, _, h => by
      intro d f r _ hx
      obtain ⟨hg, hp, hk⟩ := h d f r hx
      refine ⟨hg, fun hsim => ?_, hk.conforms_bind⟩
      rcases hp with ⟨e', he⟩ | hp
      · exact After.thrown hsim hx (e := e') (by rw [he]; rfl)
      · exact After.protected hsim hp

theorem Guarded.bind {g : α → Tx S ε β} {Q : β → List E.Lock → List E.Write → Prop} :
    ∀ {p : Tx S ε α} {l : List E.Lock} {w : List E.Write},
      Guarded R p l w (fun a l' w' => Guarded R (g a) l' w' Q) →
      Guarded R (p >>= g) l w Q
  | .ret _, _, _, h => h
  | .throw _, _, _, _ => trivial
  | .exec s e k, l, w, h => by
      intro d f r hx
      obtain ⟨hg, hp, hk⟩ := h d f r hx
      refine ⟨hg, ?_, hk.bind⟩
      rcases hp with ⟨e', he⟩ | hp
      · exact Or.inl ⟨e', by show (k r.reply).bind g = _; rw [he]; rfl⟩
      · exact Or.inr hp

theorem Guarded.conforms {spec : Spec E ε α} {p : Tx S ε (Commit S ε α)} {l : List E.Lock}
    {w : List E.Write} (h : Guarded R p l w (fun _ _ _ => True)) (d₀ : E.Db) :
    Conforms R spec p l w d₀ := by
  induction p generalizing l w d₀ with
  | ret _ => trivial
  | throw _ => trivial
  | exec s e k ih =>
      intro d f r _ hx
      obtain ⟨hg, hp, hk⟩ := h d f r hx
      refine ⟨hg, fun hsim => ?_, ih r.reply hk d⟩
      rcases hp with ⟨e', he⟩ | hp
      · exact After.thrown hsim hx he
      · exact After.protected hsim hp

/-! ## Transactions of which only the writes matter -/

variable (R)

/-- Every write of every statement satisfies `P`, and stays under the locks. -/
def Writes (P : E.Write → Prop) : Tx S ε α → List E.Lock → List E.Write → Prop
  | .ret _, _, _ => True
  | .throw _, _, _ => True
  | .exec s _ k, l, w => ∀ d f r, E.exec s f (E.view d w) = .ok r →
      Guar R (l ++ r.locks) r.writes ∧ (∀ x ∈ r.writes, P x) ∧
      Writes P (k r.reply) (l ++ r.locks) (w ++ r.writes)

variable {R}

theorem Writes.runs {P : E.Write → Prop} {d : E.Db} {res : Except ε α} {w' : List E.Write} :
    ∀ {p : Tx S ε (Commit S ε α)} {l : List E.Lock} {w : List E.Write},
      Writes R P p l w → (∀ x ∈ w, P x) → p.Runs E d w res w' → ∀ x ∈ w', P x
  | .ret _, _, _, _, hw, hrun => by
      obtain ⟨_, rfl⟩ := hrun
      exact hw
  | .throw _, _, _, _, _, hrun => by
      obtain ⟨_, rfl⟩ := hrun
      exact fun _ hx => absurd hx List.not_mem_nil
  | .exec s e k, l, w, h, hw, hrun => by
      obtain ⟨f, ⟨_, _, _, rfl⟩ | ⟨r, hx, hrun⟩⟩ := hrun.cases E
      · exact List.forall_mem_nil _
      · obtain ⟨_, hP, hk⟩ := h d f r hx
        refine hk.runs (fun x hx' => ?_) hrun
        rcases List.mem_append.mp hx' with h' | h'
        · exact hw x h'
        · exact hP x h'

/-- The specification of such a transaction. -/
def WritesSpec (P : E.Write → Prop) : Spec E ε α := fun _ res w =>
  (∀ x ∈ w, P x) ∧ ∀ e, res = .error e → w = []

theorem Writes.runs_spec {P : E.Write → Prop} {d : E.Db} {res : Except ε α} {w' : List E.Write}
    {p : Tx S ε (Commit S ε α)} {l : List E.Lock} {w : List E.Write} (h : Writes R P p l w)
    (hw : ∀ x ∈ w, P x) (hrun : p.Runs E d w res w') : WritesSpec P d res w' :=
  ⟨h.runs hw hrun, fun _ he => Tx.Runs.writes_nil E (he ▸ hrun)⟩

theorem Writes.conforms {P : E.Write → Prop} {p : Tx S ε (Commit S ε α)} {l : List E.Lock}
    {w : List E.Write} (h : Writes R P p l w) (hw : ∀ x ∈ w, P x) (d₀ : E.Db) :
    Conforms R (WritesSpec P) p l w d₀ := by
  induction p generalizing l w d₀ with
  | ret _ => trivial
  | throw _ => trivial
  | exec s e k ih =>
      intro d f r _ hx
      obtain ⟨hg, hP, hk⟩ := h d f r hx
      have hw' : ∀ x ∈ w ++ r.writes, P x := by
        intro x hx'
        rcases List.mem_append.mp hx' with h' | h'
        · exact hw x h'
        · exact hP x h'
      exact ⟨hg, fun _ => Sim.after fun d' _ res w' hrun => hk.runs_spec hw' hrun,
        ih r.reply hk hw' d⟩

/-! ## Transactions bound to fail -/

variable (R)

/-- On databases with `F` the program ends in an error `P` allows, whatever its
statements return on the way. -/
def Fails (F : E.Db → Prop) (P : ε → Prop) : Tx S ε α → List E.Lock → List E.Write → Prop
  | .ret _, _, _ => False
  | .throw e, _, _ => P e
  | .exec s h k, l, w => ∀ d f, F d →
      match E.exec s f (E.view d w) with
      | .error x => P (h x)
      | .ok r => Guar R (l ++ r.locks) r.writes ∧
          Fails F P (k r.reply) (l ++ r.locks) (w ++ r.writes)

variable {R} {F : E.Db → Prop} {P : ε → Prop}

theorem Fails.runs {d : E.Db} (hF : F d) {res : Except ε α} {w' : List E.Write} :
    ∀ {p : Tx S ε (Commit S ε α)} {l : List E.Lock} {w : List E.Write},
      Fails R F P p l w → p.Runs E d w res w' → ∃ e, res = .error e ∧ w' = [] ∧ P e
  | .ret _, _, _, h, _ => h.elim
  | .throw e, _, _, h, hrun => ⟨e, hrun.1, hrun.2, h⟩
  | .exec s h k, l, w, hfail, hrun => by
      obtain ⟨f, ⟨x, hx, hres, hw⟩ | ⟨r, hx, hrun⟩⟩ := hrun.cases E
      · have hf := hfail d f hF
        rw [hx] at hf
        exact ⟨h x, hres, hw, hf⟩
      · have hf := hfail d f hF
        rw [hx] at hf
        exact hf.2.runs hF hrun

/-- `F` is protected by the locks held, so it is true when the program ends. -/
theorem Fails.conforms {spec : Spec E ε α} {p : Tx S ε (Commit S ε α)} {l : List E.Lock}
    {w : List E.Write} {d₀ : E.Db} (h : Fails R F P p l w)
    (hstable : ∀ d d', R.rel l d d' → F d → F d') (h₀ : F d₀)
    (hspec : ∀ d e, F d → P e → spec d (.error e) []) : Conforms R spec p l w d₀ := by
  induction p generalizing l w d₀ with
  | ret _ => trivial
  | throw _ => trivial
  | exec s e k ih =>
      intro d f r hr hx
      have hF : F d := hstable d₀ d hr h₀
      have hf := h d f hF
      rw [hx] at hf
      have hstable' : ∀ d d', R.rel (l ++ r.locks) d d' → F d → F d' :=
        fun d d' hr => hstable d d' (R.mono (List.subset_append_left l r.locks) hr)
      refine ⟨hf.1, fun _ => Sim.after fun d' hr' res w' hrun => ?_, ih _ hf.2 hstable' hF⟩
      obtain ⟨e', rfl, rfl, he⟩ := hf.2.runs (hstable' d d' hr' hF) hrun
      exact hspec d' e' (hstable' d d' hr' hF) he

end Transact
