/-
# `Dialogue` — programs that ask

A program asks questions and goes on with the answers, until it returns a value.  Who
answers is not said: `run` lets a responder answer, which has a state of its own and may
change it, and keeps a log of what was said; `Talks` lets every answer happen.

What is shown of `Talks` holds of every run (`run_talks`).  Two programs that are equal
cannot be told apart by anybody who answers them, so nothing needs to be said about that.
-/
import Mathlib.Data.List.Basic

namespace Dialogue

/-- Questions and their answers. -/
structure Interface where
  Question : Type
  Answer : Question → Type

/-- A question that was answered. -/
structure Exchange (I : Interface) where
  question : I.Question
  answer : I.Answer question

/-- A program that asks. -/
inductive Prog (I : Interface) (α : Type) : Type where
  | ret (a : α)
  | ask (q : I.Question) (k : I.Answer q → Prog I α)

/-- Who answers, and goes on in another state. -/
abbrev Responder (I : Interface) (σ : Type) := (q : I.Question) → σ → I.Answer q × σ

/-- What a run leaves. -/
structure Outcome (I : Interface) (σ α : Type) where
  value : α
  state : σ
  log : List (Exchange I)

namespace Prog

variable {I : Interface} {α β σ : Type}

/-- Sequencing. -/
def bind : Prog I α → (α → Prog I β) → Prog I β
  | .ret a, f => f a
  | .ask q k, f => .ask q fun x => (k x).bind f

instance : Monad (Prog I) where
  pure := .ret
  bind := .bind

/-- One question. -/
def question (q : I.Question) : Prog I (I.Answer q) := .ask q .ret

/-- The program with somebody to answer it. -/
def run (R : Responder I σ) : Prog I α → σ → Outcome I σ α
  | .ret a, s => ⟨a, s, []⟩
  | .ask q k, s =>
      let r := R q s
      let o := (k r.1).run R r.2
      { o with log := ⟨q, r.1⟩ :: o.log }

/-- What may be said before the program returns a value. -/
inductive Talks : Prog I α → List (Exchange I) → α → Prop where
  | ret {a : α} : Talks (.ret a) [] a
  | ask {q : I.Question} {k : I.Answer q → Prog I α} {x : I.Answer q} {g : List (Exchange I)}
      {a : α} : Talks (k x) g a → Talks (.ask q k) (⟨q, x⟩ :: g) a

theorem run_talks (R : Responder I σ) :
    ∀ (p : Prog I α) (s : σ), p.Talks (p.run R s).log (p.run R s).value
  | .ret _, _ => .ret
  | .ask q k, s => .ask (run_talks R (k (R q s).1) (R q s).2)

/-- A program, and what comes after it. -/
theorem state_bind (R : Responder I σ) (f : α → Prog I β) :
    ∀ (p : Prog I α) (s : σ),
      ((p >>= f).run R s).state = ((f (p.run R s).value).run R (p.run R s).state).state
  | .ret _, _ => rfl
  | .ask q k, s => state_bind R f (k (R q s).1) (R q s).2

theorem talks_pure {a b : α} {g : List (Exchange I)} :
    (pure a : Prog I α).Talks g b ↔ g = [] ∧ b = a := by
  constructor
  · intro h
    cases h
    exact ⟨rfl, rfl⟩
  · rintro ⟨rfl, rfl⟩
    exact .ret

/-- A question, then the rest. -/
theorem talks_question {q : I.Question} {k : I.Answer q → Prog I α} {a : α}
    {g : List (Exchange I)} :
    (question q >>= k).Talks g a ↔ ∃ x g', g = ⟨q, x⟩ :: g' ∧ (k x).Talks g' a := by
  constructor
  · intro h
    cases h with
    | ask h => exact ⟨_, _, rfl, h⟩
  · rintro ⟨x, g', rfl, h⟩
    exact .ask h

/-- What a program says is said when its value is used. -/
theorem Talks.of_map {f : α → β} :
    ∀ {p : Prog I α} {g : List (Exchange I)} {b : β}, (p >>= fun a => pure (f a)).Talks g b →
      ∃ a, b = f a ∧ p.Talks g a
  | .ret a, _, _, h => by
      obtain ⟨rfl, rfl⟩ := talks_pure.mp h
      exact ⟨a, rfl, .ret⟩
  | .ask q k, _, _, h => by
      cases h with
      | ask h =>
          obtain ⟨a, rfl, hk⟩ := Talks.of_map (p := k _) h
          exact ⟨a, rfl, .ask hk⟩

theorem Talks.map (f : α → β) {p : Prog I α} {g : List (Exchange I)} {a : α} (h : p.Talks g a) :
    (p >>= fun a => pure (f a)).Talks g (f a) := by
  induction h with
  | ret => exact .ret
  | ask _ ih => exact .ask ih

/-- Whatever is answered, the value that is returned is such a one. -/
def Ensures (Q : α → Prop) : Prog I α → Prop
  | .ret a => Q a
  | .ask _ k => ∀ x, (k x).Ensures Q

theorem ensures_pure {Q : α → Prop} {a : α} (h : Q a) : (pure a : Prog I α).Ensures Q := h

theorem ensures_question {Q : α → Prop} {q : I.Question} {k : I.Answer q → Prog I α}
    (h : ∀ x, (k x).Ensures Q) : (question q >>= k).Ensures Q := h

theorem Ensures.bind {Q : α → Prop} {R : β → Prop} {f : α → Prog I β} :
    ∀ {p : Prog I α}, p.Ensures Q → (∀ a, Q a → (f a).Ensures R) → (p >>= f).Ensures R
  | .ret a, h, hf => hf a h
  | .ask _ k, h, hf => fun x => Ensures.bind (p := k x) (h x) hf

theorem Ensures.value {Q : α → Prop} (R : Responder I σ) :
    ∀ {p : Prog I α}, p.Ensures Q → ∀ s, Q (p.run R s).value
  | .ret _, h, _ => h
  | .ask q k, h, s => Ensures.value R (p := k (R q s).1) (h _) (R q s).2

/-! ## Obligations -/

section

variable (pre : I.Question → σ → Prop) (next : Exchange I → σ → σ)

/-- Every question is asked in a state that allows it, and every value is returned in one that
allows it; `next` says how the state moves with what is said. -/
def Obeys (post : α → σ → Prop) : Prog I α → σ → Prop
  | .ret a, s => post a s
  | .ask q k, s => pre q s ∧ ∀ x, (k x).Obeys post (next ⟨q, x⟩ s)

variable {pre next}

theorem obeys_pure {post : α → σ → Prop} {a : α} {s : σ} (h : post a s) :
    (pure a : Prog I α).Obeys pre next post s := h

theorem obeys_question {post : α → σ → Prop} {q : I.Question} {k : I.Answer q → Prog I α} {s : σ}
    (hq : pre q s) (h : ∀ x, (k x).Obeys pre next post (next ⟨q, x⟩ s)) :
    (question q >>= k).Obeys pre next post s := ⟨hq, h⟩

theorem Obeys.bind {Q : α → σ → Prop} {R : β → σ → Prop} {f : α → Prog I β} :
    ∀ {p : Prog I α} {s : σ}, p.Obeys pre next Q s →
      (∀ a s, Q a s → (f a).Obeys pre next R s) → (p >>= f).Obeys pre next R s
  | .ret a, s, h, hf => hf a s h
  | .ask _ k, _, h, hf => ⟨h.1, fun x => Obeys.bind (p := k x) (h.2 x) hf⟩

end

end Prog

end Dialogue
