/-
# `Json` — JSON texts and a reader of the first one

Texts are bytes.  A literal (a word, a number, a string) is what takes a finite automaton
from its first byte to an accepting state, and it is kept as it is written; the grammar
(`IsValue`) puts literals together to arrays and objects.

`value` reads the first text of an input and returns what follows it.  It finds the texts of
the grammar and nothing else: what it returns is one (`sound`), and an array or an
object is found whatever follows it (`value_complete`).
-/
import Mathlib.Data.List.TakeWhile
import Mathlib.Data.UInt

namespace Json

/-! ## Literals -/

/-- `isSpace` -/
def isSpace (b : UInt8) : Bool := b = 0x20 || b = 0x09 || b = 0x0d || b = 0x0a

def isDigit (b : UInt8) : Bool := 0x30 ≤ b && b ≤ 0x39

def isHex (b : UInt8) : Bool := isDigit b || (0x61 ≤ b && b ≤ 0x66) || (0x41 ≤ b && b ≤ 0x46)

/-- What may follow a backslash, but for the `u`. -/
def isEscape (b : UInt8) : Bool :=
  b = 0x62 || b = 0x66 || b = 0x6e || b = 0x72 || b = 0x74 || b = 0x5c || b = 0x2f || b = 0x22

/-- How far a literal has been read. -/
inductive Scan where
  /-- in `null`, `true` or `false`, with what is missing -/
  | word (missing : List UInt8)
  | sign | zero | digits | point | fraction | exponent | exponentSign | exponentDigits
  | string | backslash
  /-- after `\u`, with the number of digits that are missing -/
  | hex (missing : Nat)
  /-- after the closing quote -/
  | closed
  deriving DecidableEq

def Scan.start (b : UInt8) : Option Scan :=
  if b = 0x6e then some (.word [0x75, 0x6c, 0x6c])
  else if b = 0x74 then some (.word [0x72, 0x75, 0x65])
  else if b = 0x66 then some (.word [0x61, 0x6c, 0x73, 0x65])
  else if b = 0x22 then some .string
  else if b = 0x2d then some .sign
  else if b = 0x30 then some .zero
  else if isDigit b then some .digits
  else none

/-- After the whole part of a number. -/
def Scan.afterWhole (b : UInt8) : Option Scan :=
  if b = 0x2e then some .point else if b = 0x65 || b = 0x45 then some .exponent else none

def Scan.next : Scan → UInt8 → Option Scan
  | .word (c :: missing), b => if b = c then some (.word missing) else none
  | .word [], _ => none
  | .sign, b => if b = 0x30 then some .zero else if isDigit b then some .digits else none
  | .zero, b => afterWhole b
  | .digits, b => if isDigit b then some .digits else afterWhole b
  | .point, b => if isDigit b then some .fraction else none
  | .fraction, b =>
      if isDigit b then some .fraction
      else if b = 0x65 || b = 0x45 then some .exponent else none
  | .exponent, b =>
      if b = 0x2b || b = 0x2d then some .exponentSign
      else if isDigit b then some .exponentDigits else none
  | .exponentSign, b | .exponentDigits, b => if isDigit b then some .exponentDigits else none
  | .string, b =>
      if b = 0x22 then some .closed
      else if b = 0x5c then some .backslash
      else if b < 0x20 then none else some .string
  | .backslash, b =>
      if b = 0x75 then some (.hex 4) else if isEscape b then some .string else none
  | .hex (n + 2), b => if isHex b then some (.hex (n + 1)) else none
  | .hex _, b => if isHex b then some .string else none
  | .closed, _ => none

def Scan.accepts : Scan → Bool
  | .word [] | .zero | .digits | .fraction | .exponentDigits | .closed => true
  | _ => false

/-- The bytes lead from the state to one that accepts. -/
def Scan.Reads : Scan → List UInt8 → Prop
  | s, [] => s.accepts = true
  | s, b :: lit => ∃ s', s.next b = some s' ∧ s'.Reads lit

/-- The longest literal. -/
def munch : Scan → List UInt8 → Option (List UInt8 × List UInt8)
  | s, [] => if s.accepts then some ([], []) else none
  | s, b :: input =>
      match s.next b with
      | some s' => (munch s' input).map fun r => (b :: r.1, r.2)
      | none => if s.accepts then some ([], b :: input) else none

theorem munch_sound {s : Scan} {input lit rest : List UInt8} (h : munch s input = some (lit, rest)) :
    input = lit ++ rest ∧ s.Reads lit := by
  induction input generalizing s lit with
  | nil =>
      simp only [munch] at h
      split at h
      · obtain ⟨rfl, rfl⟩ := Prod.mk.inj (Option.some.inj h)
        exact ⟨rfl, by assumption⟩
      · cases h
  | cons b input ih =>
      simp only [munch] at h
      cases hnext : s.next b with
      | some s' =>
          rw [hnext] at h
          obtain ⟨r, hr, hlit⟩ := Option.map_eq_some_iff.mp h
          obtain ⟨rfl, rfl⟩ := Prod.mk.inj hlit
          obtain ⟨rfl, hreads⟩ := ih hr
          exact ⟨rfl, s', hnext, hreads⟩
      | none =>
          rw [hnext] at h
          simp only at h
          split at h
          · obtain ⟨rfl, rfl⟩ := Prod.mk.inj (Option.some.inj h)
            exact ⟨rfl, by assumption⟩
          · cases h

/-- What no literal that accepts goes on with. -/
def isDelimiter (b : UInt8) : Bool := isSpace b || b = 0x2c || b = 0x3a || b = 0x5d || b = 0x7d

/-- What follows a literal where a text of the grammar goes on. -/
def Delimited (rest : List UInt8) : Prop := ∀ b ∈ rest.head?, isDelimiter b = true

theorem next_of_delimiter {s : Scan} {b : UInt8} (hs : s.accepts = true) (hb : isDelimiter b = true) :
    s.next b = none := by
  simp only [isDelimiter, isSpace, Bool.or_eq_true, decide_eq_true_eq, or_assoc] at hb
  cases s with
  | zero | digits | fraction | exponentDigits | closed =>
      rcases hb with rfl | rfl | rfl | rfl | rfl | rfl | rfl | rfl <;> rfl
  | word missing =>
      cases missing with
      | nil => rfl
      | cons c missing => cases hs
  | _ => cases hs

theorem munch_complete {s : Scan} {lit rest : List UInt8} (h : s.Reads lit) (hrest : Delimited rest) :
    munch s (lit ++ rest) = some (lit, rest) := by
  induction lit generalizing s with
  | nil =>
      cases rest with
      | nil => exact if_pos h
      | cons b rest =>
          have hnext := next_of_delimiter h (hrest b rfl)
          simp only [List.nil_append, munch, hnext]
          exact if_pos h
  | cons b lit ih =>
      obtain ⟨s', hnext, hreads⟩ := h
      simp only [List.cons_append, munch, hnext, ih hreads, Option.map_some]

/-! ## Texts -/

/-- A text.  Literals, and so the keys of an object, are kept as they are written. -/
inductive Value where
  | literal (text : List UInt8)
  | array (elements : List Value)
  | object (members : List (List UInt8 × Value))

/-- White space. -/
def White (w : List UInt8) : Prop := ∀ b ∈ w, isSpace b = true

/-- A literal that begins with a quote. -/
def IsKey (key : List UInt8) : Prop := ∃ lit, key = 0x22 :: lit ∧ Scan.string.Reads lit

mutual

/-- The texts without white space around them. -/
inductive IsValue : Value → List UInt8 → Prop where
  | literal {b : UInt8} {s : Scan} {lit : List UInt8} :
      Scan.start b = some s → s.Reads lit → IsValue (.literal (b :: lit)) (b :: lit)
  | emptyArray {w : List UInt8} : White w → IsValue (.array []) (0x5b :: w ++ [0x5d])
  | array {elements : List Value} {text : List UInt8} :
      IsElements elements text → IsValue (.array elements) (0x5b :: text ++ [0x5d])
  | emptyObject {w : List UInt8} : White w → IsValue (.object []) (0x7b :: w ++ [0x7d])
  | object {members : List (List UInt8 × Value)} {text : List UInt8} :
      IsMembers members text → IsValue (.object members) (0x7b :: text ++ [0x7d])

/-- What stands between brackets. -/
inductive IsElements : List Value → List UInt8 → Prop where
  | last {v : Value} {w text w' : List UInt8} :
      White w → IsValue v text → White w' → IsElements [v] (w ++ text ++ w')
  | cons {v : Value} {w text w' : List UInt8} {elements : List Value} {texts : List UInt8} :
      White w → IsValue v text → White w' → IsElements elements texts →
        IsElements (v :: elements) (w ++ text ++ w' ++ 0x2c :: texts)

/-- What stands between braces. -/
inductive IsMembers : List (List UInt8 × Value) → List UInt8 → Prop where
  | last {key : List UInt8} {v : Value} {w w₁ w₂ text w₃ : List UInt8} :
      White w → IsKey key → White w₁ → White w₂ → IsValue v text → White w₃ →
        IsMembers [(key, v)] (w ++ key ++ w₁ ++ 0x3a :: w₂ ++ text ++ w₃)
  | cons {key : List UInt8} {v : Value} {w w₁ w₂ text w₃ : List UInt8}
      {members : List (List UInt8 × Value)} {texts : List UInt8} :
      White w → IsKey key → White w₁ → White w₂ → IsValue v text → White w₃ →
        IsMembers members texts →
          IsMembers ((key, v) :: members)
            (w ++ key ++ w₁ ++ 0x3a :: w₂ ++ text ++ w₃ ++ 0x2c :: texts)

end

/-! ## The reader -/

def skip (input : List UInt8) : List UInt8 := input.dropWhile isSpace

/-- A literal at the beginning of the input. -/
def literal : List UInt8 → Option (List UInt8 × List UInt8)
  | [] => none
  | b :: input => do
      let s ← Scan.start b
      let (lit, rest) ← munch s input
      pure (b :: lit, rest)

/-- A key, after white space, and the colon after it. -/
def key (input : List UInt8) : Option (List UInt8 × List UInt8) :=
  match skip input with
  | 0x22 :: input =>
      match munch .string input with
      | some (lit, rest) =>
          match skip rest with
          | 0x3a :: rest => some (0x22 :: lit, rest)
          | _ => none
      | none => none
  | _ => none

mutual

/-- The first text of the input, after white space, and what follows it. -/
def value : Nat → List UInt8 → Option (Value × List UInt8)
  | 0, _ => none
  | fuel + 1, input =>
      match skip input with
      | 0x5b :: input =>
          match skip input with
          | 0x5d :: rest => some (.array [], rest)
          | _ => (elements fuel input).map fun r => (.array r.1, r.2)
      | 0x7b :: input =>
          match skip input with
          | 0x7d :: rest => some (.object [], rest)
          | _ => (members fuel input).map fun r => (.object r.1, r.2)
      | input => (literal input).map fun r => (.literal r.1, r.2)

/-- The rest of an array, from an element on. -/
def elements : Nat → List UInt8 → Option (List Value × List UInt8)
  | 0, _ => none
  | fuel + 1, input =>
      match value fuel input with
      | none => none
      | some (v, input) =>
          match skip input with
          | 0x2c :: input => (elements fuel input).map fun r => (v :: r.1, r.2)
          | 0x5d :: rest => some ([v], rest)
          | _ => none

/-- The rest of an object, from a key on. -/
def members : Nat → List UInt8 → Option (List (List UInt8 × Value) × List UInt8)
  | 0, _ => none
  | fuel + 1, input =>
      match key input with
      | none => none
      | some (k, input) =>
          match value fuel input with
          | none => none
          | some (v, input) =>
              match skip input with
              | 0x2c :: input => (members fuel input).map fun r => ((k, v) :: r.1, r.2)
              | 0x7d :: rest => some ([(k, v)], rest)
              | _ => none

end

/-- The first text of an input. -/
def first (input : List UInt8) : Option (Value × List UInt8) := value (2 * input.length + 1) input

/-! ## Soundness -/

theorem skip_eq (input : List UInt8) : ∃ w, White w ∧ input = w ++ skip input :=
  ⟨input.takeWhile isSpace, fun _ hb => List.mem_takeWhile_imp hb,
    (List.takeWhile_append_dropWhile ..).symm⟩

theorem literal_sound {input lit rest : List UInt8} (h : literal input = some (lit, rest)) :
    IsValue (.literal lit) lit ∧ input = lit ++ rest := by
  cases input with
  | nil => cases h
  | cons b input =>
      simp only [literal, Option.bind_eq_bind, Option.bind_eq_some_iff] at h
      obtain ⟨s, hs, ⟨lit', rest'⟩, hmunch, hpair⟩ := h
      obtain ⟨rfl, rfl⟩ := Prod.mk.inj (Option.some.inj hpair)
      obtain ⟨rfl, hreads⟩ := munch_sound hmunch
      exact ⟨.literal hs hreads, rfl⟩

theorem key_sound {input k rest : List UInt8} (h : key input = some (k, rest)) :
    ∃ w w₁, White w ∧ IsKey k ∧ White w₁ ∧ input = w ++ k ++ w₁ ++ 0x3a :: rest := by
  obtain ⟨w, hw, hinput⟩ := skip_eq input
  unfold key at h
  split at h
  · rename_i tail hskip
    split at h
    · rename_i lit rest' hmunch
      obtain ⟨w₁, hw₁, hrest⟩ := skip_eq rest'
      split at h
      · rename_i rest'' hcolon
        obtain ⟨rfl, rfl⟩ := Prod.mk.inj (Option.some.inj h)
        obtain ⟨rfl, hreads⟩ := munch_sound hmunch
        refine ⟨w, w₁, hw, ⟨lit, rfl, hreads⟩, hw₁, ?_⟩
        rw [hinput, hskip, hrest, hcolon]
        simp
      · cases h
    · cases h
  · cases h

/-- What is returned is a text of the grammar. -/
theorem sound (fuel : Nat) :
    (∀ {input v rest}, value fuel input = some (v, rest) →
      ∃ w text, White w ∧ IsValue v text ∧ input = w ++ text ++ rest) ∧
    (∀ {input vs rest}, elements fuel input = some (vs, rest) →
      ∃ text, IsElements vs text ∧ input = text ++ 0x5d :: rest) ∧
    (∀ {input ms rest}, members fuel input = some (ms, rest) →
      ∃ text, IsMembers ms text ∧ input = text ++ 0x7d :: rest) := by
  induction fuel with
  | zero =>
      refine ⟨?_, ?_, ?_⟩ <;>
      · intro input x rest h
        cases h
  | succ fuel ih =>
      obtain ⟨ihvalue, ihelements, ihmembers⟩ := ih
      refine ⟨?_, ?_, ?_⟩
      · intro input v rest h
        obtain ⟨w, hw, hinput⟩ := skip_eq input
        rw [value] at h
        split at h
        · rename_i tail hskip
          obtain ⟨w', hw', htail⟩ := skip_eq tail
          split at h
          · rename_i rest' hclose
            obtain ⟨rfl, rfl⟩ := Prod.mk.inj (Option.some.inj h)
            refine ⟨w, _, hw, .emptyArray hw', ?_⟩
            rw [hinput, hskip, htail, hclose]
            simp
          · obtain ⟨⟨vs, rest'⟩, helements, hpair⟩ := Option.map_eq_some_iff.mp h
            obtain ⟨rfl, rfl⟩ := Prod.mk.inj hpair
            obtain ⟨text, htext, htail'⟩ := ihelements helements
            refine ⟨w, _, hw, .array htext, ?_⟩
            rw [hinput, hskip, htail']
            simp
        · rename_i tail hskip
          obtain ⟨w', hw', htail⟩ := skip_eq tail
          split at h
          · rename_i rest' hclose
            obtain ⟨rfl, rfl⟩ := Prod.mk.inj (Option.some.inj h)
            refine ⟨w, _, hw, .emptyObject hw', ?_⟩
            rw [hinput, hskip, htail, hclose]
            simp
          · obtain ⟨⟨ms, rest'⟩, hmembers, hpair⟩ := Option.map_eq_some_iff.mp h
            obtain ⟨rfl, rfl⟩ := Prod.mk.inj hpair
            obtain ⟨text, htext, htail'⟩ := ihmembers hmembers
            refine ⟨w, _, hw, .object htext, ?_⟩
            rw [hinput, hskip, htail']
            simp
        · obtain ⟨⟨lit, rest'⟩, hlit, hpair⟩ := Option.map_eq_some_iff.mp h
          obtain ⟨rfl, rfl⟩ := Prod.mk.inj hpair
          obtain ⟨hvalue, heq⟩ := literal_sound hlit
          exact ⟨w, lit, hw, hvalue, by rw [hinput, heq, List.append_assoc]⟩
      · intro input vs rest h
        rw [elements] at h
        split at h
        · cases h
        · rename_i v input' hvalue
          obtain ⟨w, text, hw, htext, rfl⟩ := ihvalue hvalue
          obtain ⟨w', hw', hinput'⟩ := skip_eq input'
          split at h
          · rename_i tail hskip
            obtain ⟨⟨vs', rest'⟩, helements, hpair⟩ := Option.map_eq_some_iff.mp h
            obtain ⟨rfl, rfl⟩ := Prod.mk.inj hpair
            obtain ⟨texts, htexts, rfl⟩ := ihelements helements
            refine ⟨_, .cons hw htext hw' htexts, ?_⟩
            rw [hinput', hskip]
            simp
          · rename_i rest' hskip
            obtain ⟨rfl, rfl⟩ := Prod.mk.inj (Option.some.inj h)
            refine ⟨_, .last hw htext hw', ?_⟩
            rw [hinput', hskip]
            simp
          · cases h
      · intro input ms rest h
        rw [members] at h
        split at h
        · cases h
        · rename_i k input' hkey
          obtain ⟨w, w₁, hw, hk, hw₁, rfl⟩ := key_sound hkey
          split at h
          · cases h
          · rename_i v input'' hvalue
            obtain ⟨w₂, text, hw₂, htext, rfl⟩ := ihvalue hvalue
            obtain ⟨w₃, hw₃, hinput⟩ := skip_eq input''
            split at h
            · rename_i tail hskip
              obtain ⟨⟨ms', rest'⟩, hmembers, hpair⟩ := Option.map_eq_some_iff.mp h
              obtain ⟨rfl, rfl⟩ := Prod.mk.inj hpair
              obtain ⟨texts, htexts, rfl⟩ := ihmembers hmembers
              refine ⟨_, .cons hw hk hw₁ hw₂ htext hw₃ htexts, ?_⟩
              rw [hinput, hskip]
              simp
            · rename_i rest' hskip
              obtain ⟨rfl, rfl⟩ := Prod.mk.inj (Option.some.inj h)
              refine ⟨_, .last hw hk hw₁ hw₂ htext hw₃, ?_⟩
              rw [hinput, hskip]
              simp
            · cases h

/-! ## Completeness -/

theorem skip_white {w rest : List UInt8} {b : UInt8} (hw : White w) (hb : isSpace b = false) :
    skip (w ++ b :: rest) = b :: rest := by
  rw [skip, List.dropWhile_append_of_pos hw, List.dropWhile_cons_of_neg (by simp [hb])]

theorem delimited_white {w : List UInt8} (rest : List UInt8) {b : UInt8} (hw : White w)
    (hb : isDelimiter b = true) : Delimited (w ++ b :: rest) := by
  intro c hc
  cases w with
  | nil =>
      obtain rfl := Option.some.inj hc
      exact hb
  | cons d w =>
      obtain rfl := Option.some.inj hc
      simp [isDelimiter, hw d List.mem_cons_self]

/-- What no literal begins with. -/
theorem start_eq_none {b : UInt8} (h : isSpace b = true ∨ b = 0x5b ∨ b = 0x5d ∨ b = 0x7b) :
    Scan.start b = none := by
  simp only [isSpace, Bool.or_eq_true, decide_eq_true_eq, or_assoc] at h
  rcases h with rfl | rfl | rfl | rfl | rfl | rfl | rfl <;> rfl

theorem start_cases {b : UInt8} {s : Scan} (h : Scan.start b = some s) :
    isSpace b = false ∧ b ≠ 0x5b ∧ b ≠ 0x5d ∧ b ≠ 0x7b := by
  have hne : ¬(isSpace b = true ∨ b = 0x5b ∨ b = 0x5d ∨ b = 0x7b) := by
    intro hb
    rw [start_eq_none hb] at h
    cases h
  simpa [not_or] using hne

/-- How a text begins. -/
theorem IsValue.begins {v : Value} {text : List UInt8} (h : IsValue v text) :
    ∃ b rest, text = b :: rest ∧ isSpace b = false ∧ b ≠ 0x5d := by
  cases h with
  | literal hs hlit =>
      obtain ⟨hspace, -, hclose, -⟩ := start_cases hs
      exact ⟨_, _, rfl, hspace, hclose⟩
  | emptyArray _ | array _ | emptyObject _ | object _ => exact ⟨_, _, rfl, rfl, by decide⟩

theorem IsValue.length_pos {v : Value} {text : List UInt8} (h : IsValue v text) :
    0 < text.length := by
  obtain ⟨b, rest, rfl, -⟩ := h.begins
  exact Nat.succ_pos _

theorem IsElements.begins {vs : List Value} {text : List UInt8} (h : IsElements vs text) :
    ∃ w b rest, White w ∧ text = w ++ b :: rest ∧ isSpace b = false ∧ b ≠ 0x5d := by
  cases h with
  | @last _ _ _ w' hw hv _ =>
      obtain ⟨b, rest, rfl, hb⟩ := hv.begins
      exact ⟨_, b, rest ++ w', hw, by simp, hb⟩
  | @cons _ _ _ w' _ texts hw hv _ _ =>
      obtain ⟨b, rest, rfl, hb⟩ := hv.begins
      exact ⟨_, b, rest ++ (w' ++ 0x2c :: texts), hw, by simp, hb⟩

theorem IsMembers.begins {ms : List (List UInt8 × Value)} {text : List UInt8}
    (h : IsMembers ms text) : ∃ w rest, White w ∧ text = w ++ 0x22 :: rest := by
  cases h with
  | @last _ _ _ w₁ w₂ text w₃ hw hk _ _ _ _ =>
      obtain ⟨lit, rfl, -⟩ := hk
      exact ⟨_, lit ++ (w₁ ++ 0x3a :: (w₂ ++ (text ++ w₃))), hw, by simp⟩
  | @cons _ _ _ w₁ w₂ text w₃ _ texts hw hk _ _ _ _ _ =>
      obtain ⟨lit, rfl, -⟩ := hk
      exact ⟨_, lit ++ (w₁ ++ 0x3a :: (w₂ ++ (text ++ (w₃ ++ 0x2c :: texts)))), hw, by simp⟩

theorem key_complete {w k w₁ : List UInt8} (rest : List UInt8) (hw : White w) (hk : IsKey k) (hw₁ : White w₁) :
    key (w ++ k ++ w₁ ++ 0x3a :: rest) = some (k, rest) := by
  obtain ⟨lit, rfl, hreads⟩ := hk
  have hmunch : munch .string (lit ++ (w₁ ++ 0x3a :: rest)) = some (lit, w₁ ++ 0x3a :: rest) :=
    munch_complete hreads (delimited_white rest hw₁ rfl)
  have hskip : skip (w ++ 0x22 :: lit ++ w₁ ++ 0x3a :: rest) =
      0x22 :: (lit ++ (w₁ ++ 0x3a :: rest)) := by
    simp only [List.append_assoc, List.cons_append]
    exact skip_white hw rfl
  simp only [key, hskip, hmunch, skip_white hw₁ (b := 0x3a) rfl]

/-- Only a literal has to be told apart from what follows. -/
def Follows (v : Value) (rest : List UInt8) : Prop := ∀ lit, v = .literal lit → Delimited rest

theorem literal_complete {b : UInt8} {s : Scan} {lit rest : List UInt8}
    (hs : Scan.start b = some s) (hlit : s.Reads lit) (hrest : Delimited rest) :
    literal (b :: (lit ++ rest)) = some (b :: lit, rest) := by
  simp [literal, hs, munch_complete hlit hrest]

mutual

/-- A text is found, whatever follows it if it is not a literal. -/
theorem value_complete {v : Value} {text : List UInt8} (h : IsValue v text) {n : Nat}
    {w rest : List UInt8} (hn : 2 * text.length ≤ n) (hw : White w) (hrest : Follows v rest) :
    value n (w ++ text ++ rest) = some (v, rest) := by
  have hpos := h.length_pos
  obtain ⟨n, rfl⟩ : ∃ n', n = n' + 1 := Nat.exists_eq_succ_of_ne_zero (by omega)
  simp only [List.append_assoc]
  cases h with
  | literal hs hlit =>
      obtain ⟨hspace, hbracket, -, hbrace⟩ := start_cases hs
      rw [value, List.cons_append, skip_white hw hspace]
      split
      · rename_i heq
        exact absurd (List.cons.inj heq).1 hbracket
      · rename_i heq
        exact absurd (List.cons.inj heq).1 hbrace
      · rw [literal_complete hs hlit (hrest _ rfl)]
        rfl
  | emptyArray hw' =>
      simp only [value, List.cons_append, List.append_assoc, skip_white hw (b := 0x5b) rfl,
        List.nil_append, skip_white hw' (b := 0x5d) rfl]
  | array helements =>
      obtain ⟨w', b, tail, hw', htext, hspace, hclose⟩ := helements.begins
      have hlen := hn
      simp only [List.length_append, List.length_cons, List.length_nil] at hlen
      have hfound := elements_complete helements rest (by omega : _ < n)
      simp only [value, List.cons_append, List.append_assoc, skip_white hw (b := 0x5b) rfl,
        List.nil_append, hfound]
      split
      · rename_i heq
        rw [htext, List.append_assoc, List.cons_append, skip_white hw' hspace] at heq
        exact absurd (List.cons.inj heq).1 hclose
      · rfl
  | emptyObject hw' =>
      simp only [value, List.cons_append, List.append_assoc, skip_white hw (b := 0x7b) rfl,
        List.nil_append, skip_white hw' (b := 0x7d) rfl]
  | object hmembers =>
      obtain ⟨w', tail, hw', htext⟩ := hmembers.begins
      have hlen := hn
      simp only [List.length_append, List.length_cons, List.length_nil] at hlen
      have hfound := members_complete hmembers rest (by omega : _ < n)
      simp only [value, List.cons_append, List.append_assoc, skip_white hw (b := 0x7b) rfl,
        List.nil_append, hfound]
      split
      · rename_i heq
        rw [htext, List.append_assoc, List.cons_append, skip_white hw' rfl] at heq
        exact absurd (List.cons.inj heq).1 (by decide)
      · rfl

theorem elements_complete {vs : List Value} {text : List UInt8} (h : IsElements vs text) {n : Nat}
    (rest : List UInt8) (hn : 2 * text.length < n) :
    elements n (text ++ 0x5d :: rest) = some (vs, rest) := by
  obtain ⟨n, rfl⟩ : ∃ n', n = n' + 1 := Nat.exists_eq_succ_of_ne_zero (by omega)
  cases h with
  | last hw hv hw' =>
      simp only [List.length_append] at hn
      have hfound := value_complete hv (n := n) (by omega) hw
        fun _ _ => delimited_white rest (b := 0x5d) hw' rfl
      simp only [List.append_assoc] at hfound ⊢
      simp only [elements, hfound, skip_white hw' (b := 0x5d) rfl]
  | @cons _ _ _ _ _ texts hw hv hw' hmore =>
      simp only [List.length_append, List.length_cons] at hn
      have hfound := value_complete hv (n := n) (by omega) hw
        fun _ _ => delimited_white (texts ++ 0x5d :: rest) (b := 0x2c) hw' rfl
      have hrest := elements_complete hmore rest (by omega : _ < n)
      simp only [List.append_assoc, List.cons_append] at hfound ⊢
      simp only [elements, hfound, skip_white hw' (b := 0x2c) rfl, hrest, Option.map_some]

theorem members_complete {ms : List (List UInt8 × Value)} {text : List UInt8}
    (h : IsMembers ms text) {n : Nat} (rest : List UInt8) (hn : 2 * text.length < n) :
    members n (text ++ 0x7d :: rest) = some (ms, rest) := by
  obtain ⟨n, rfl⟩ : ∃ n', n = n' + 1 := Nat.exists_eq_succ_of_ne_zero (by omega)
  cases h with
  | last hw hk hw₁ hw₂ hv hw₃ =>
      simp only [List.length_append, List.length_cons] at hn
      have hfound := value_complete hv (n := n) (by omega) hw₂
        fun _ _ => delimited_white rest (b := 0x7d) hw₃ rfl
      have hkey := fun rest => key_complete rest hw hk hw₁
      simp only [List.append_assoc, List.cons_append] at hfound hkey ⊢
      simp only [members, hkey, hfound, skip_white hw₃ (b := 0x7d) rfl]
  | @cons _ _ _ _ _ _ _ _ texts hw hk hw₁ hw₂ hv hw₃ hmore =>
      simp only [List.length_append, List.length_cons] at hn
      have hfound := value_complete hv (n := n) (by omega) hw₂
        fun _ _ => delimited_white (texts ++ 0x7d :: rest) (b := 0x2c) hw₃ rfl
      have hrest := members_complete hmore rest (by omega : _ < n)
      have hkey := fun rest => key_complete rest hw hk hw₁
      simp only [List.append_assoc, List.cons_append] at hfound hkey ⊢
      simp only [members, hkey, hfound, skip_white hw₃ (b := 0x2c) rfl, hrest, Option.map_some]

end

/-- The first text of an input, and what follows it, if it is an object. -/
theorem first_eq_object {input rest : List UInt8} {ms : List (List UInt8 × Value)} :
    first input = some (.object ms, rest) ↔
      ∃ w text, White w ∧ IsValue (.object ms) text ∧ input = w ++ text ++ rest := by
  constructor
  · intro h
    exact (sound _).1 h
  · rintro ⟨w, text, hw, htext, rfl⟩
    apply value_complete htext
    · simp only [List.length_append]
      omega
    · exact hw
    · intro lit hlit
      cases hlit

end Json
