/-
# `Clearance.ConsumerLoop` — what a commit says about earlier messages

`consumer.RunLoop` fetches a message, tries to handle it, moves it to the dead letters if that
fails, and commits its offset if either went well.  A message whose handler and whose move
failed is not committed, and the loop goes on with the next one.

To Kafka a commit is about all messages up to the one committed: the group goes on behind it
after a restart.  So the next commit that takes effect in the partition covers the message that
was left behind as well (`not_safe_leftBehind`).  As long as no commit takes effect while an
earlier message of the session is unsettled, every message before the committed offset is
settled, and the first commit that does is the one that loses a message (`settled_iff_inOrder`).
-/
import Clearance.Dialogue
import Clearance.Service.Messages

namespace Clearance

open Dialogue

namespace ConsumerLoop

/-! ## The source -/

/-- What `FetchMessage` returns; an error ends the loop if the context is done. -/
inductive Fetched where
  | message (m : Message)
  | failed
  | stopped
  deriving DecidableEq

/-- What becomes of a commit: the error that is returned, and whether the group has stored the
offset. -/
structure Committed where
  error : Option Error
  stored : Bool
  deriving DecidableEq

/-- What the loop asks of its reader, its handler, its context and its dead letters. -/
inductive Question where
  | fetch
  | handle (m : Message)
  /-- The timer between two attempts, or the error of the context if that is done before. -/
  | wait (delay : Int64)
  | move (m : Message) (cause : Error)
  | commit (m : Message)

@[reducible] def calls : Interface where
  Question := Question
  Answer
    | .fetch => Fetched
    | .handle _ | .wait _ | .move .. => Option Error
    | .commit _ => Committed

structure Config where
  maxAttempts : Int
  retryBaseDelay : Int64

/-- `retry`, with `n` attempts left. -/
def retry (baseDelay : Int64) (m : Message) :
    (n attempt : Nat) → Option Error → Prog calls (Option Error)
  | 0, _, err => pure err
  | n + 1, attempt, _ => do
      match ← Prog.question (I := calls) (.handle m) with
      | none => pure none
      | some e =>
          let delay := Int64.ofNat attempt * baseDelay
          if delay ≤ 0 then retry baseDelay m n (attempt + 1) (some e)
          else
            match ← Prog.question (I := calls) (.wait delay) with
            | some done => pure (some done)
            | none => retry baseDelay m n (attempt + 1) (some e)

/-- `if config.MaxAttempts <= 0 { config.MaxAttempts = 3 }` -/
def Config.attempts (config : Config) : Nat :=
  if config.maxAttempts ≤ 0 then 3 else config.maxAttempts.toNat

/-- What is done with a message that has been fetched. -/
def process (config : Config) (m : Message) : Prog calls Unit := do
  match ← retry config.retryBaseDelay m config.attempts 1 none with
  | none => do
      let _ ← Prog.question (I := calls) (.commit m)
      pure ()
  | some e => do
      match ← Prog.question (I := calls) (.move m e) with
      | some _ => pure ()
      | none => do
          let _ ← Prog.question (I := calls) (.commit m)
          pure ()

/-- The first `n` turns of `RunLoop`. -/
def runLoop (config : Config) : Nat → Prog calls Unit
  | 0 => pure ()
  | n + 1 => do
      match ← Prog.question (I := calls) .fetch with
      | .stopped => pure ()
      | .failed => runLoop config n
      | .message m => do
          process config m
          runLoop config n

/-! ## The group -/

/-- A partition of a topic. -/
abbrev Partition := String × Int

def slot (m : Message) : Partition := (m.topic, m.partition)

/-- What Kafka keeps for the consumer group, what the reader of this session has fetched, and
which messages have been settled: `handle` or `Move` returned nil for them, in this session or
before. -/
structure Group where
  committed : Partition → Int
  position : Partition → Int
  fetched : List Message := []
  settled : List (Partition × Int) := []

namespace Group

def settle (g : Group) (m : Message) : Group :=
  { g with settled := (slot m, m.offset) :: g.settled }

/-- What a call changes. -/
def after : Exchange calls → Group → Group
  | ⟨.fetch, .message m⟩, g =>
      { g with
        position := Function.update g.position (slot m) (m.offset + 1)
        fetched := m :: g.fetched }
  | ⟨.handle m, none⟩, g => g.settle m
  | ⟨.move m _, none⟩, g => g.settle m
  | ⟨.commit m, r⟩, g =>
      if r.stored then
        { g with committed := Function.update g.committed (slot m) (m.offset + 1) }
      else g
  | _, g => g

/-- A new session resumes at the committed offsets. -/
def restart (g : Group) : Group := { g with position := g.committed, fetched := [] }

end Group

section

variable (contents : Partition → Set Int) (start : Partition → Int)

/-- What Kafka answers.  The reader gets the messages of a partition one after the other, and a
commit without an error has been stored. -/
def Allowed (g : Group) : Exchange calls → Prop
  | ⟨.fetch, .message m⟩ =>
      m.offset ∈ contents (slot m) ∧ g.position (slot m) ≤ m.offset ∧
        ∀ o ∈ contents (slot m), g.position (slot m) ≤ o → m.offset ≤ o
  | ⟨.commit _, r⟩ => r.error = none → r.stored = true
  | _ => True

/-- A commit that is stored comes after everything fetched before the message is settled. -/
def InOrder (g : Group) : Exchange calls → Prop
  | ⟨.commit m, r⟩ => r.stored = true →
      ∀ m' ∈ g.fetched, slot m' = slot m → m'.offset < m.offset →
        (slot m', m'.offset) ∈ g.settled
  | _ => True

/-- No message is lost: what lies before the committed offset has been settled. -/
def Safe (g : Group) : Prop :=
  ∀ p, ∀ o ∈ contents p, start p ≤ o → o < g.committed p → (p, o) ∈ g.settled

/-- The points a run comes to in which every call meets `ok`.  The loop can be stopped and
started again at any point. -/
inductive Reach (config : Config) (ok : Group → Exchange calls → Prop) :
    Prog calls Unit → Group → Prop
  | start (n : Nat) : Reach config ok (runLoop config n) ⟨start, start, [], []⟩
  | call {q k x g} : Reach config ok (.ask q k) g → Allowed contents g ⟨q, x⟩ → ok g ⟨q, x⟩ →
      Reach config ok (k x) (Group.after ⟨q, x⟩ g)
  | restart {p g} (n : Nat) : Reach config ok p g → Reach config ok (runLoop config n) g.restart

end

/-! ## What the loop commits -/

/-- Only messages of the session that have been settled are committed. -/
def Careful : Question → Group → Prop
  | .commit m, g => m ∈ g.fetched ∧ (slot m, m.offset) ∈ g.settled
  | _, _ => True

abbrev Obliged {α : Type} (post : α → Group → Prop) (p : Prog calls α) (g : Group) : Prop :=
  p.Obeys Careful Group.after post g

theorem retry_careful (baseDelay : Int64) (m : Message) (n attempt : Nat) (err : Option Error)
    (herr : n = 0 → err ≠ none) {g : Group} (hm : m ∈ g.fetched) :
    Obliged (fun r g => m ∈ g.fetched ∧ (r = none → (slot m, m.offset) ∈ g.settled))
      (retry baseDelay m n attempt err) g := by
  induction n generalizing attempt err g with
  | zero => exact Prog.obeys_pure ⟨hm, fun h => absurd h (herr rfl)⟩
  | succ n ih =>
      refine Prog.obeys_question trivial fun x => ?_
      cases x with
      | none => exact Prog.obeys_pure ⟨hm, fun _ => List.mem_cons_self⟩
      | some e =>
          show Obliged _ (if _ then _ else _) _
          split
          · exact ih (attempt + 1) (some e) nofun hm
          · refine Prog.obeys_question trivial fun x => ?_
            cases x with
            | some done => exact Prog.obeys_pure ⟨hm, nofun⟩
            | none => exact ih (attempt + 1) (some e) nofun hm

theorem process_careful (config : Config) {m : Message} {g : Group} (hm : m ∈ g.fetched) :
    Obliged (fun _ _ => True) (process config m) g := by
  have hattempts : config.attempts = 0 → (none : Option Error) ≠ none := by
    unfold Config.attempts
    split <;> omega
  refine (retry_careful _ m _ 1 none hattempts hm).bind fun r g ⟨hm, hsettled⟩ => ?_
  cases r with
  | none =>
      exact Prog.obeys_question ⟨hm, hsettled rfl⟩ fun _ => Prog.obeys_pure trivial
  | some e =>
      refine Prog.obeys_question trivial fun x => ?_
      cases x with
      | some dlqErr => exact Prog.obeys_pure trivial
      | none =>
          exact Prog.obeys_question ⟨hm, List.mem_cons_self⟩ fun _ => Prog.obeys_pure trivial

theorem runLoop_careful (config : Config) (n : Nat) (g : Group) :
    Obliged (fun _ _ => True) (runLoop config n) g := by
  induction n generalizing g with
  | zero => exact Prog.obeys_pure trivial
  | succ n ih =>
      refine Prog.obeys_question trivial fun x => ?_
      cases x with
      | stopped => exact Prog.obeys_pure trivial
      | failed => exact ih _
      | message m =>
          exact (process_careful config List.mem_cons_self).bind fun _ g _ => ih g

theorem Reach.mono {contents : Partition → Set Int} {start : Partition → Int} {config : Config}
    {ok ok' : Group → Exchange calls → Prop} (hok : ∀ g e, ok g e → ok' g e)
    {p : Prog calls Unit} {g : Group} (h : Reach contents start config ok p g) :
    Reach contents start config ok' p g := by
  induction h with
  | start n => exact .start n
  | call _ ha ho ih => exact .call ih ha (hok _ _ ho)
  | restart n _ ih => exact .restart n ih

/-! ## What a session knows -/

section

variable {contents : Partition → Set Int} {start : Partition → Int} {g : Group}

/-- What holds while nothing is lost: up to the position of the reader, a message has been settled
or fetched in this session. -/
structure Kept (contents : Partition → Set Int) (start : Partition → Int) (g : Group) : Prop where
  started : ∀ p, start p ≤ g.committed p
  behind : ∀ p, g.committed p ≤ g.position p
  known : ∀ p, ∀ o ∈ contents p, start p ≤ o → o < g.position p →
    (p, o) ∈ g.settled ∨ ∃ m ∈ g.fetched, slot m = p ∧ m.offset = o
  fetched : ∀ m ∈ g.fetched, m.offset ∈ contents (slot m) ∧ start (slot m) ≤ m.offset ∧
    m.offset < g.position (slot m)
  safe : Safe contents start g

theorem kept_start (contents : Partition → Set Int) (start : Partition → Int) :
    Kept contents start ⟨start, start, [], []⟩ where
  started _ := le_rfl
  behind _ := le_rfl
  known _ _ _ hle hlt := absurd hle (not_le.mpr hlt)
  fetched := List.forall_mem_nil _
  safe _ _ _ hle hlt := absurd hle (not_le.mpr hlt)

theorem Kept.restart (h : Kept contents start g) : Kept contents start g.restart where
  started := h.started
  behind _ := le_rfl
  known p o ho hle hlt := .inl (h.safe p o ho hle hlt)
  fetched := List.forall_mem_nil _
  safe := h.safe

/-- More is settled. -/
theorem Kept.settle (h : Kept contents start g) (m : Message) :
    Kept contents start (g.settle m) where
  started := h.started
  behind := h.behind
  known p o ho hle hlt := (h.known p o ho hle hlt).imp_left (List.mem_cons_of_mem _)
  fetched := h.fetched
  safe p o ho hle hlt := List.mem_cons_of_mem _ (h.safe p o ho hle hlt)

/-- The next message is fetched. -/
theorem Kept.fetch (h : Kept contents start g) {m : Message}
    (ha : Allowed contents g ⟨.fetch, .message m⟩) :
    Kept contents start (Group.after ⟨.fetch, .message m⟩ g) where
  started := h.started
  behind p := by
    obtain ⟨-, hpos, -⟩ := ha
    show g.committed p ≤ Function.update g.position (slot m) (m.offset + 1) p
    have hbehind := h.behind p
    by_cases hp : p = slot m
    · subst hp
      rw [Function.update_self]
      omega
    · rwa [Function.update_of_ne hp]
  known p o ho hle hlt := by
    obtain ⟨-, hpos, hnext⟩ := ha
    have hlt : o < Function.update g.position (slot m) (m.offset + 1) p := hlt
    by_cases hp : p = slot m
    · subst hp
      rw [Function.update_self] at hlt
      rcases lt_or_ge o (g.position (slot m)) with hold | hnew
      · refine (h.known _ o ho hle hold).imp_right fun ⟨m', hm', heq⟩ => ?_
        exact ⟨m', List.mem_cons_of_mem _ hm', heq⟩
      · -- there is no message between the position and the one that was fetched
        have hge := hnext o ho hnew
        exact .inr ⟨m, List.mem_cons_self, rfl, by omega⟩
    · rw [Function.update_of_ne hp] at hlt
      refine (h.known _ o ho hle hlt).imp_right fun ⟨m', hm', heq⟩ => ?_
      exact ⟨m', List.mem_cons_of_mem _ hm', heq⟩
  fetched := by
    obtain ⟨hmem, hpos, -⟩ := ha
    have hstart := (h.started (slot m)).trans (h.behind (slot m))
    refine List.forall_mem_cons.mpr ⟨⟨hmem, hstart.trans hpos, ?_⟩, fun m' hm' => ?_⟩
    · show m.offset < Function.update g.position (slot m) (m.offset + 1) (slot m)
      rw [Function.update_self]
      omega
    · obtain ⟨hmem', hstart', hlt'⟩ := h.fetched m' hm'
      refine ⟨hmem', hstart', ?_⟩
      show m'.offset < Function.update g.position (slot m) (m.offset + 1) (slot m')
      by_cases hp : slot m' = slot m
      · rw [hp, Function.update_self]
        rw [hp] at hlt'
        omega
      · rwa [Function.update_of_ne hp]
  safe := h.safe

/-- A commit that is stored loses nothing if it comes in order, and only then. -/
theorem Kept.safe_commit_iff (h : Kept contents start g) {m : Message} {r : Committed}
    (hm : Careful (.commit m) g) :
    Safe contents start (Group.after ⟨.commit m, r⟩ g) ↔ InOrder g ⟨.commit m, r⟩ := by
  obtain ⟨hfetched, hsettled⟩ := hm
  cases hstored : r.stored with
  | false =>
      refine ⟨fun _ hr => absurd hr (by simp [hstored]), fun _ => ?_⟩
      simpa [Group.after, hstored] using h.safe
  | true =>
      have hafter : Group.after ⟨.commit m, r⟩ g =
          { g with committed := Function.update g.committed (slot m) (m.offset + 1) } := by
        simp [Group.after, hstored]
      rw [hafter]
      constructor
      · intro hsafe _ m' hm' hslot hlt
        obtain ⟨hmem, hstart, -⟩ := h.fetched m' hm'
        refine hsafe _ _ hmem hstart ?_
        show m'.offset < Function.update g.committed (slot m) (m.offset + 1) (slot m')
        rw [hslot, Function.update_self]
        omega
      · intro hinOrder p o ho hle hlt
        have hlt : o < Function.update g.committed (slot m) (m.offset + 1) p := hlt
        by_cases hp : p = slot m
        · subst hp
          rw [Function.update_self] at hlt
          have hpos := (h.fetched m hfetched).2.2
          rcases h.known _ o ho hle (by omega) with hdone | ⟨m', hm', hslot, rfl⟩
          · exact hdone
          · rcases eq_or_ne m'.offset m.offset with heq | hne
            · rw [heq]
              exact hsettled
            · rw [← hslot]
              exact hinOrder hstored m' hm' hslot (by omega)
        · rw [Function.update_of_ne hp] at hlt
          exact h.safe p o ho hle hlt

/-- What a call changes besides. -/
theorem Kept.commit (h : Kept contents start g) {m : Message} {r : Committed}
    (hm : Careful (.commit m) g) (ho : InOrder g ⟨.commit m, r⟩) :
    Kept contents start (Group.after ⟨.commit m, r⟩ g) := by
  have hsafe := (h.safe_commit_iff hm).mpr ho
  obtain ⟨hfetched, -⟩ := hm
  obtain ⟨-, hstart, hpos⟩ := h.fetched m hfetched
  cases hstored : r.stored with
  | false => simpa [Group.after, hstored] using h
  | true =>
      have hafter : Group.after ⟨.commit m, r⟩ g =
          { g with committed := Function.update g.committed (slot m) (m.offset + 1) } := by
        simp [Group.after, hstored]
      rw [hafter] at hsafe ⊢
      refine ⟨fun p => ?_, fun p => ?_, h.known, h.fetched, hsafe⟩
      · show start p ≤ Function.update g.committed (slot m) (m.offset + 1) p
        by_cases hp : p = slot m
        · rw [hp, Function.update_self]
          omega
        · rw [Function.update_of_ne hp]
          exact h.started p
      · show Function.update g.committed (slot m) (m.offset + 1) p ≤ g.position p
        by_cases hp : p = slot m
        · rw [hp, Function.update_self]
          omega
        · rw [Function.update_of_ne hp]
          exact h.behind p

/-- One call of the loop. -/
theorem Kept.call (h : Kept contents start g) {e : Exchange calls} (hc : Careful e.question g)
    (ha : Allowed contents g e) :
    (InOrder g e → Kept contents start (Group.after e g)) ∧
      (Safe contents start (Group.after e g) ↔ InOrder g e) := by
  obtain ⟨q, x⟩ := e
  cases q with
  | commit m => exact ⟨h.commit hc, h.safe_commit_iff hc⟩
  | fetch =>
      cases x with
      | message m => exact ⟨fun _ => h.fetch ha, iff_of_true (h.fetch ha).safe trivial⟩
      | failed => exact ⟨fun _ => h, iff_of_true h.safe trivial⟩
      | stopped => exact ⟨fun _ => h, iff_of_true h.safe trivial⟩
  | wait delay => exact ⟨fun _ => h, iff_of_true h.safe trivial⟩
  | handle m =>
      cases x with
      | none => exact ⟨fun _ => h.settle m, iff_of_true (h.settle m).safe trivial⟩
      | some e => exact ⟨fun _ => h, iff_of_true h.safe trivial⟩
  | move m cause =>
      cases x with
      | none => exact ⟨fun _ => h.settle m, iff_of_true (h.settle m).safe trivial⟩
      | some e => exact ⟨fun _ => h, iff_of_true h.safe trivial⟩

/-- Runs in which commits come in order. -/
theorem reach_kept {config : Config} {p : Prog calls Unit}
    (h : Reach contents start config InOrder p g) :
    Kept contents start g ∧ Obliged (fun _ _ => True) p g := by
  induction h with
  | start n => exact ⟨kept_start contents start, runLoop_careful config n _⟩
  | restart n _ ih => exact ⟨ih.1.restart, runLoop_careful config n _⟩
  | @call q k x g _ ha ho ih =>
      obtain ⟨hkept, hcareful, hrest⟩ := ih
      exact ⟨(hkept.call hcareful ha).1 ho, hrest x⟩

end

/-! ## What is lost -/

/-- At every point of a run in which the commits so far came in order, no message is lost, and
the next call loses none if and only if it is in order. -/
theorem settled_iff_inOrder (contents : Partition → Set Int) (start : Partition → Int)
    (config : Config) (p : Prog calls Unit) (g : Group)
    (h : Reach contents start config InOrder p g) :
    Safe contents start g ∧
      ∀ q k x, p = .ask q k → Allowed contents g ⟨q, x⟩ →
        (Safe contents start (Group.after ⟨q, x⟩ g) ↔ InOrder g ⟨q, x⟩) := by
  obtain ⟨hkept, hcareful⟩ := reach_kept h
  refine ⟨hkept.safe, ?_⟩
  rintro q k x rfl ha
  exact (hkept.call hcareful.1 ha).2

/-- Two messages of a partition. -/
def messageAt (offset : Int) : Message := ⟨"transactions.created", 0, offset, [], [], []⟩

def twoMessages (_ : Partition) : Set Int := {0, 1}

/-- A reader that finds both; the first one can neither be handled nor moved, the second one is
handled and about to be committed. -/
def leftBehind : Group :=
  ⟨fun _ => 0,
    Function.update (Function.update (fun _ => 0) (slot (messageAt 0)) 1) (slot (messageAt 1)) 2,
    [messageAt 1, messageAt 0], [(slot (messageAt 1), 1)]⟩

theorem leftBehind_reach : ∃ k, Reach twoMessages (fun _ => 0) ⟨1, 0⟩ InOrder
    (.ask (.commit (messageAt 1)) k) leftBehind := by
  have hstart : Reach twoMessages (fun _ => 0) ⟨1, 0⟩ InOrder (runLoop ⟨1, 0⟩ 2)
      ⟨fun _ => 0, fun _ => 0, [], []⟩ := .start 2
  have hfirst := Reach.call (q := .fetch) (x := .message (messageAt 0)) hstart
    ⟨.inl rfl, le_rfl, fun _ _ h => h⟩ trivial
  have hfailed := Reach.call (q := .handle (messageAt 0)) (x := some (.text "handler")) hfirst
    trivial trivial
  have hunmoved := Reach.call (q := .move (messageAt 0) (.text "handler")) (x := some (.text "broker"))
    hfailed trivial trivial
  have hnext : ∀ o ∈ twoMessages (slot (messageAt 1)),
      Function.update (fun _ => 0) (slot (messageAt 0)) 1 (slot (messageAt 1)) ≤ o → 1 ≤ o := by
    rintro o (rfl | rfl) h
    · exact absurd h (by decide)
    · exact le_rfl
  have hsecond := Reach.call (q := .fetch) (x := .message (messageAt 1)) hunmoved
    ⟨.inr rfl, by decide, hnext⟩ trivial
  have hhandled := Reach.call (q := .handle (messageAt 1)) (x := none) hsecond trivial trivial
  exact ⟨_, hhandled⟩

/-- The commit of the second message covers the first one. -/
theorem not_safe_leftBehind : ¬ Safe twoMessages (fun _ => 0)
    (Group.after ⟨.commit (messageAt 1), ⟨none, true⟩⟩ leftBehind) := by
  intro hsafe
  have hlost : (slot (messageAt 0), (0 : Int)) ∈ leftBehind.settled :=
    hsafe (slot (messageAt 0)) 0 (.inl rfl) le_rfl (by decide)
  exact absurd hlost (by decide)

theorem settled_iff_inOrder_leftBehind : Safe twoMessages (fun _ => 0) leftBehind ∧
    ¬ InOrder leftBehind ⟨.commit (messageAt 1), ⟨none, true⟩⟩ := by
  obtain ⟨k, hreach⟩ := leftBehind_reach
  obtain ⟨hsafe, hnext⟩ := settled_iff_inOrder twoMessages (fun _ => 0) ⟨1, 0⟩ _ leftBehind hreach
  refine ⟨hsafe, fun hinOrder => not_safe_leftBehind ?_⟩
  exact (hnext (.commit (messageAt 1)) k ⟨none, true⟩ rfl fun _ => rfl).mpr hinOrder

theorem message_lost : ∃ p g, Reach twoMessages (fun _ => 0) ⟨1, 0⟩ (fun _ _ => True) p g ∧
    ¬ Safe twoMessages (fun _ => 0) g := by
  obtain ⟨k, hreach⟩ := leftBehind_reach
  have hcommitted := Reach.call (x := (⟨none, true⟩ : Committed)) (hreach.mono fun _ _ _ => trivial)
    (fun _ => rfl) trivial
  exact ⟨_, _, hcommitted, not_safe_leftBehind⟩

end ConsumerLoop

end Clearance
