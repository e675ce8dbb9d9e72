/-
# `Transact.Specification` — runs that follow a sequential specification

A `Specification` says what operations do to a state that is no database: which of them it
has an action for, with the answer they gave, and what the action makes of the state.  An
operation `Follows` it if the states before and after are related by its action, or are the
same if it has none.

`Safe.replays`: if every operation follows the specification, the actions of a log, taken
one after the other in the order of the log, are all possible and lead to the state of the
database.  Operations are logged when they are committed, between the arrival and the
answer of their calls, so this order is one that clients can observe.
-/
import Clearance.Transact.Invariant

namespace Transact

variable {S : Signature} {ε : Type} {E : Engine S} {St : Store S ε} {A : App E St}
  {C : Contract E St}

structure Specification (E : Engine S) (St : Store S ε) (σ : Type) where
  Action : Type
  /-- What becomes of a state; `none` if the action is impossible, or its answer wrong. -/
  step : σ → Action → Option σ
  /-- The action of an operation, from the call and what it came to. -/
  action : (c : St.Call) → Except ε (St.Reply c) → Option Action
  /-- The state a database stands for. -/
  view : E.Db → σ

namespace Specification

variable {σ : Type} (Z : Specification E St σ)

/-- The actions of a log. -/
def history (g : List (Entry E St)) : List Z.Action :=
  g.filterMap fun e => Z.action e.call e.op.reply

/-- Actions, one after the other. -/
def replay (a : σ) (l : List Z.Action) : Option σ := l.foldlM Z.step a

/-- The operation does what its action says. -/
def Follows {c : St.Call} (o : Op E ε (St.Reply c)) : Prop :=
  match Z.action c o.reply with
  | none => Z.view (E.view o.before o.writes) = Z.view o.before
  | some a => Z.step (Z.view o.before) a = some (Z.view (E.view o.before o.writes))

variable {Z}

theorem Follows.of_action {c : St.Call} {o : Op E ε (St.Reply c)} {a : Z.Action}
    (ha : Z.action c o.reply = some a)
    (h : Z.step (Z.view o.before) a = some (Z.view (E.view o.before o.writes))) : Z.Follows o := by
  rw [Follows, ha]
  exact h

theorem Follows.of_none {c : St.Call} {o : Op E ε (St.Reply c)} (ha : Z.action c o.reply = none)
    (h : Z.view (E.view o.before o.writes) = Z.view o.before) : Z.Follows o := by
  rw [Follows, ha]
  exact h

/-- One operation more. -/
theorem Follows.replay_concat {c : St.Call} {o : Op E ε (St.Reply c)} (h : Z.Follows o) {a : σ}
    {g : List (Entry E St)} (hg : Z.replay a (Z.history g) = some (Z.view o.before)) (i : Nat) :
    Z.replay a (Z.history (g ++ [⟨i, c, o⟩])) = some (Z.view (E.view o.before o.writes)) := by
  have hone : Z.history (g ++ [⟨i, c, o⟩]) = Z.history g ++ (Z.action c o.reply).toList := by
    rw [history, List.filterMap_append, List.filterMap_cons, List.filterMap_nil]
    cases Z.action c o.reply <;> rfl
  rw [Follows] at h
  rw [hone]
  cases ha : Z.action c o.reply with
  | none =>
      rw [ha] at h
      rw [Option.toList_none, List.append_nil]
      exact hg.trans (congrArg some h.symm)
  | some b =>
      rw [ha] at h
      rw [replay] at hg ⊢
      rw [Option.toList_some, List.foldlM_append, hg]
      simpa using h

end Specification

/-- If every operation follows the specification, so does every run. -/
theorem Safe.replays {σ : Type} {Z : Specification E St σ}
    {I : E.Db → A.World → List (Entry E St) → Prop} {Q : A.Request → E.Db → Prop}
    (h : Safe A C I Q)
    (hop : ∀ {d w g r c} {o : Op E ε (St.Reply c)}, I d w g → Q r d → (A.program r).Calls c →
      C.Allows c o → o.before = d → Z.Follows o)
    {d : E.Db} {w : A.World} (h₀ : I d w []) {s : AState A} (hr : AReach C ⟨d, w, [], []⟩ s) :
    Z.replay (Z.view d) (Z.history s.log) = some (Z.view s.db) := by
  have hsafe : Safe A C
      (fun d' w g => I d' w g ∧ Z.replay (Z.view d) (Z.history g) = some (Z.view d')) Q :=
    { arrive := fun hI hw => ⟨⟨(h.arrive hI.1 hw).1, hI.2⟩, (h.arrive hI.1 hw).2⟩
      env := fun hI hw => ⟨h.env hI.1 hw, hI.2⟩
      op := by
        rintro d' w g r c o i ⟨hI, hg⟩ hQ hc ho rfl
        exact ⟨h.op i hI hQ hc ho rfl, (hop hI hQ hc ho rfl).replay_concat hg i⟩
      stable := fun hI hQ hc ho hb hQ' => h.stable hI.1 hQ hc ho hb hQ' }
  exact (hsafe.reach (Kept.init ⟨h₀, rfl⟩) hr).inv.2

end Transact
