/-
# `Transact.Trace` — the operations a call has made

Between two of its operations a call is where the answers so far have taken it.
`Svc.Made i p g q` says that call `i`, running `p`, has made the operations `g` and
goes on as `q`; `Svc.made_call` and `Svc.made_ret` read a trace off the code.

In every state each call has such a trace, whether it is under way, has returned or
has crashed (`traced_reach`).  So what the log shows of a call says how far its code
has come, and what it has been told.
-/
import Clearance.Transact.Invariant

namespace Transact

variable {S : Signature} {ε : Type} {E : Engine S} {St : Store S ε} {A : App E St}
  {C : Contract E St} {α : Type}

/-- Call `i`, running `p`, has made the operations `g` and goes on as `q`. -/
inductive Svc.Made (i : Nat) : Svc St α → List (Entry E St) → Svc St α → Prop
  | nil {p : Svc St α} : Made i p [] p
  | cons {c : St.Call} {k : Except ε (St.Reply c) → Svc St α} {o : Op E ε (St.Reply c)}
      {g : List (Entry E St)} {q : Svc St α} :
      Made i (k o.answer) g q → Made i (.call c k) (⟨i, c, o⟩ :: g) q

namespace Svc

variable {i : Nat} {p q : Svc St α} {g : List (Entry E St)} {c : St.Call}
  {k : Except ε (St.Reply c) → Svc St α}

/-- One more operation. -/
theorem Made.concat (h : Made i p g q) (o : Op E ε (St.Reply c)) (hq : q = .call c k) :
    Made i p (g ++ [⟨i, c, o⟩]) (k o.answer) := by
  induction h with
  | nil =>
      subst hq
      exact .cons .nil
  | cons _ ih => exact .cons (ih hq)

/-- Code that has returned makes no operation. -/
theorem made_ret {a : α} : Made i (.ret a) g q ↔ g = [] ∧ q = .ret a := by
  constructor
  · intro h
    cases h
    exact ⟨rfl, rfl⟩
  · rintro ⟨rfl, rfl⟩
    exact .nil

/-- An operation, then the rest. -/
theorem made_call : Made i (.call c k) g q ↔ (g = [] ∧ q = .call c k) ∨
    ∃ (o : Op E ε (St.Reply c)) (g' : List (Entry E St)), g = ⟨i, c, o⟩ :: g' ∧
      Made i (k o.answer) g' q := by
  constructor
  · intro h
    cases h with
    | nil => exact Or.inl ⟨rfl, rfl⟩
    | cons h => exact Or.inr ⟨_, _, rfl, h⟩
  · rintro (⟨rfl, rfl⟩ | ⟨o, g', rfl, h⟩)
    · exact .nil
    · exact .cons h

/-- Code that calls nothing more. -/
theorem Made.ret_eq {a : α} (h : Made i (.ret a) g q) : g = [] := (made_ret.mp h).1

/-- What has been made before. -/
theorem Made.of_append {g' : List (Entry E St)} (h : Made i p (g ++ g') q) :
    ∃ q', Made i p g q' := by
  induction g generalizing p with
  | nil => exact ⟨p, .nil⟩
  | cons e g ih =>
      cases h with
      | cons h =>
          obtain ⟨q', hq'⟩ := ih h
          exact ⟨q', .cons hq'⟩

/-- A call only makes operations its code may come to. -/
theorem Made.calls (h : Made i p g q) {e : Entry E St} (he : e ∈ g) : p.Calls e.call := by
  induction h with
  | nil => cases he
  | @cons c k o g q h ih =>
      rcases List.mem_cons.mp he with rfl | he
      · exact .here
      · exact .later o.answer (ih he)

/-- The code makes at most `n` of the operations that `p` picks out. -/
def AtMost (p : St.Call → Bool) : Nat → Svc St α → Prop
  | _, .ret _ => True
  | n, .call c k =>
      match n, p c with
      | n, false => ∀ r, (k r).AtMost p n
      | 0, true => False
      | n + 1, true => ∀ r, (k r).AtMost p n

theorem Made.countP_le {f : St.Call → Bool} {n : Nat} (h : Made i p g q) (hp : p.AtMost f n) :
    g.countP (fun e => f e.call) ≤ n := by
  induction h generalizing n with
  | nil => exact Nat.zero_le n
  | @cons c k o g q h ih =>
      rw [List.countP_cons]
      cases hc : f c with
      | false =>
          simp only [AtMost, hc] at hp
          simpa using ih (hp o.answer)
      | true =>
          cases n with
          | zero => simp only [AtMost, hc] at hp
          | succ n =>
              simp only [AtMost, hc] at hp
              simpa using ih (hp o.answer)

/-- The code does not come to `post` without an operation that was answered as `want` says. -/
def Through (want : (c : St.Call) → Except ε (St.Reply c) → Prop) (post : α → Prop) :
    Svc St α → Prop
  | .ret a => ¬ post a
  | .call c k => ∀ r, want c r ∨ (k r).Through want post

theorem Made.through {want : (c : St.Call) → Except ε (St.Reply c) → Prop} {post : α → Prop}
    {a : α} (h : Made i p g q) (hq : q = .ret a) (hp : p.Through want post) (ha : post a) :
    ∃ e ∈ g, want e.call e.op.answer := by
  induction h with
  | nil =>
      subst hq
      exact absurd ha hp
  | @cons c k o g q h ih =>
      rcases hp o.answer with hw | hp
      · exact ⟨_, List.mem_cons_self, hw⟩
      · obtain ⟨e, he, hw⟩ := ih hq hp
        exact ⟨e, List.mem_cons_of_mem _ he, hw⟩

end Svc

/-- What the log shows of the calls. -/
structure Traced (C : Contract E St) (s : AState A) : Prop where
  /-- Every operation ended as its contract allows. -/
  allowed : ∀ e ∈ s.log, C.Allows e.call e.op
  /-- It was made by a call that has arrived. -/
  named : ∀ e ∈ s.log, e.task < s.tasks.length
  /-- Every call has made the operations of its code. -/
  made : ∀ (i : Nat) (t : ATask A), s.tasks[i]? = some t →
    ∃ q, (A.program t.request).Made i (own i s.log) q ∧ ∀ p, t.prog = some p → p = q

theorem Traced.step {s s' : AState A} (h : Traced C s) (hs : AStep C s s') : Traced C s' := by
  cases hs with
  | @arrive r w hw =>
      refine ⟨h.allowed, fun e he => ?_, fun i t ht => ?_⟩
      · have := h.named e he
        simp only [List.length_append, List.length_singleton]
        omega
      · rcases getElem?_concat_cases ht with ⟨rfl, rfl⟩ | ht
        · have hown : own s.tasks.length s.log = [] := by
            refine List.filter_eq_nil_iff.mpr fun e he heq => ?_
            have hlt := h.named e he
            rw [beq_iff_eq.mp heq] at hlt
            exact Nat.lt_irrefl _ hlt
          refine ⟨A.program r, ?_, fun p hp => ?_⟩
          · show Svc.Made _ _ (own s.tasks.length s.log) _
            rw [hown]
            exact .nil
          · cases hp
            rfl
        · exact h.made i t ht
  | env hw => exact ⟨h.allowed, h.named, h.made⟩
  | @op i t c k o ht hp ho hb =>
      refine ⟨fun e he => ?_, fun e he => ?_, fun j u hu => ?_⟩
      · rcases List.mem_append.mp he with he | he
        · exact h.allowed e he
        · rw [List.mem_singleton.mp he]
          exact ho
      · simp only [List.length_set]
        rcases List.mem_append.mp he with he | he
        · exact h.named e he
        · rw [List.mem_singleton.mp he]
          exact (List.getElem?_eq_some_iff.mp ht).1
      · rcases getElem?_set_cases hu with ⟨rfl, rfl⟩ | ⟨hji, hu⟩
        · obtain ⟨q, hmade, hq⟩ := h.made j t ht
          refine ⟨k o.answer, ?_, fun p hp' => by cases hp'; rfl⟩
          show Svc.Made _ _ (own j (s.log ++ [⟨j, c, o⟩])) _
          rw [own_append_self]
          exact hmade.concat o (hq _ hp).symm
        · show ∃ q, Svc.Made _ _ (own j (s.log ++ [⟨i, c, o⟩])) q ∧ _
          rw [own_append_other (Ne.symm hji)]
          exact h.made j u hu
  | @crash i t ht =>
      refine ⟨h.allowed, fun e he => by simpa using h.named e he, fun j u hu => ?_⟩
      rcases getElem?_set_cases hu with ⟨rfl, rfl⟩ | ⟨_, hu⟩
      · obtain ⟨q, hmade, _⟩ := h.made j t ht
        exact ⟨q, hmade, fun p hp => by cases hp⟩
      · exact h.made j u hu

theorem traced_reach {d : E.Db} {w : A.World} {s : AState A} (h : AReach C ⟨d, w, [], []⟩ s) :
    Traced C s := by
  refine h.induct ⟨?_, ?_, ?_⟩ fun _ _ _ hk hs => hk.step hs
  · exact fun e he => absurd he List.not_mem_nil
  · exact fun e he => absurd he List.not_mem_nil
  · exact fun i t ht => by simp at ht

/-- The call behind a line of the log, and the trace the line is part of. -/
theorem Traced.entry {s : AState A} (h : Traced C s) {e : Entry E St} (he : e ∈ s.log) :
    ∃ t q, s.tasks[e.task]? = some t ∧ e ∈ own e.task s.log ∧
      (A.program t.request).Made e.task (own e.task s.log) q := by
  obtain ⟨t, ht⟩ : ∃ t, s.tasks[e.task]? = some t :=
    ⟨_, List.getElem?_eq_getElem (h.named e he)⟩
  obtain ⟨q, hmade, _⟩ := h.made e.task t ht
  exact ⟨t, q, ht, List.mem_filter.mpr ⟨he, by simp⟩, hmade⟩

/-- The first operation of a call, and where it stands in the log. -/
theorem own_eq_cons {i : Nat} {g g' : List (Entry E St)} {e : Entry E St}
    (h : own i g = e :: g') : ∃ g₁ g₂, g = g₁ ++ e :: g₂ ∧ own i g₂ = g' := by
  obtain ⟨g₁, g₂, rfl, _, _, h₂⟩ := List.filter_eq_cons_iff.mp h
  exact ⟨g₁, g₂, rfl, h₂⟩

theorem mem_of_own {i : Nat} {g : List (Entry E St)} {e : Entry E St} (h : e ∈ own i g) : e ∈ g :=
  (List.mem_filter.mp h).1

/-- The call has crashed. -/
def Proc.gone : Proc E St α → Bool
  | .crashed => true
  | _ => false

/-- The call has returned, or it is gone. -/
def Proc.over : Proc E St α → Bool
  | .idle (.ret _) | .crashed => true
  | _ => false

/-- The call behind a call of the atomic machine. -/
theorem State.tasks_of_abs {s : State A} {i : Nat} {t : ATask A} (h : s.abs.tasks[i]? = some t) :
    ∃ t', s.tasks[i]? = some t' ∧ t'.abs = t := by
  rw [State.abs, List.getElem?_map] at h
  exact Option.map_eq_some_iff.mp h

/-- Every operation of a log meets a condition on what came before it. -/
def Always (R : List (Entry E St) → Entry E St → Prop) (log : List (Entry E St)) : Prop :=
  ∀ g e g', log = g ++ e :: g' → R g e

theorem Always.of_append {R : List (Entry E St) → Entry E St → Prop} {g g' : List (Entry E St)}
    (h : Always R (g ++ g')) : Always R g := by
  intro g₁ e g₂ hg
  refine h g₁ e (g₂ ++ g') ?_
  rw [hg, List.append_assoc, List.cons_append]

end Transact
