/-
# `Base64` — the standard alphabet with padding, and the one for URLs without

Three bytes are four digits of six bits; one or two bytes at the end are filled up
with `=`.  `decode` is as lenient as the decoders in use: the bits the padding
stands for may be anything.  `decode_encode` is the round trip.

In a URL `-` and `_` stand for `+` and `/`, and the padding, which the length
determines, is left out.
-/
import Mathlib

namespace Base64

/-- The digit for six bits. -/
def digit (n : Nat) : Char :=
  if n < 26 then Char.ofNat (n + 65)
  else if n < 52 then Char.ofNat (n + 71)
  else if n < 62 then Char.ofNat (n - 4)
  else if n = 62 then '+'
  else '/'

/-- The six bits of a digit. -/
def value? (c : Char) : Option Nat :=
  if 'A' ≤ c ∧ c ≤ 'Z' then some (c.toNat - 65)
  else if 'a' ≤ c ∧ c ≤ 'z' then some (c.toNat - 71)
  else if '0' ≤ c ∧ c ≤ '9' then some (c.toNat + 4)
  else if c = '+' then some 62
  else if c = '/' then some 63
  else none

theorem value?_digit {n : Nat} (h : n < 64) : value? (digit n) = some n := by
  have hall : ∀ n < 64, value? (digit n) = some n := by decide
  exact hall n h

theorem digit_ne_pad {n : Nat} (h : n < 64) : digit n ≠ '=' := by
  intro he
  have hv := value?_digit h
  rw [he] at hv
  cases hv

def encode : List UInt8 → List Char
  | [] => []
  | [a] => [digit (a.toNat / 4), digit (a.toNat % 4 * 16), '=', '=']
  | [a, b] =>
      [digit (a.toNat / 4), digit (a.toNat % 4 * 16 + b.toNat / 16), digit (b.toNat % 16 * 4), '=']
  | a :: b :: c :: rest =>
      digit (a.toNat / 4) :: digit (a.toNat % 4 * 16 + b.toNat / 16) ::
        digit (b.toNat % 16 * 4 + c.toNat / 64) :: digit (c.toNat % 64) :: encode rest

def decode : List Char → Option (List UInt8)
  | [] => some []
  | w :: x :: y :: z :: rest =>
      if rest = [] ∧ z = '=' then
        if y = '=' then do
          let a ← value? w
          let b ← value? x
          return [.ofNat (a * 4 + b / 16)]
        else do
          let a ← value? w
          let b ← value? x
          let c ← value? y
          return [.ofNat (a * 4 + b / 16), .ofNat (b % 16 * 16 + c / 4)]
      else do
        let a ← value? w
        let b ← value? x
        let c ← value? y
        let d ← value? z
        let rest ← decode rest
        return .ofNat (a * 4 + b / 16) :: .ofNat (b % 16 * 16 + c / 4) ::
          .ofNat (c % 4 * 64 + d) :: rest
  | _ => none

/-- A byte is put together from its parts. -/
theorem ofNat_eq {a : UInt8} {n : Nat} (h : n = a.toNat) : UInt8.ofNat n = a := by
  rw [h, UInt8.ofNat_toNat]

theorem decode_encode (b : List UInt8) : decode (encode b) = some b := by
  fun_induction encode b with
  | case1 => rfl
  | case2 a =>
      have ha := a.toNat_lt
      have h₁ : value? (digit (a.toNat / 4)) = some (a.toNat / 4) := value?_digit (by omega)
      have h₂ : value? (digit (a.toNat % 4 * 16)) = some (a.toNat % 4 * 16) :=
        value?_digit (by omega)
      simp only [decode, and_self, if_true, h₁, h₂, Option.bind_eq_bind, Option.bind_some,
        Option.pure_def]
      rw [ofNat_eq (a := a) (by omega)]
  | case3 a b =>
      have ha := a.toNat_lt
      have hb := b.toNat_lt
      have h₁ : value? (digit (a.toNat / 4)) = some (a.toNat / 4) := value?_digit (by omega)
      have h₂ : value? (digit (a.toNat % 4 * 16 + b.toNat / 16)) =
          some (a.toNat % 4 * 16 + b.toNat / 16) := value?_digit (by omega)
      have h₃ : value? (digit (b.toNat % 16 * 4)) = some (b.toNat % 16 * 4) :=
        value?_digit (by omega)
      have hne : digit (b.toNat % 16 * 4) ≠ '=' := digit_ne_pad (by omega)
      simp only [decode, and_self, if_true, if_neg hne, h₁, h₂, h₃, Option.bind_eq_bind,
        Option.bind_some, Option.pure_def]
      rw [ofNat_eq (a := a) (by omega), ofNat_eq (a := b) (by omega)]
  | case4 a b c rest ih =>
      have ha := a.toNat_lt
      have hb := b.toNat_lt
      have hc := c.toNat_lt
      have h₁ : value? (digit (a.toNat / 4)) = some (a.toNat / 4) := value?_digit (by omega)
      have h₂ : value? (digit (a.toNat % 4 * 16 + b.toNat / 16)) =
          some (a.toNat % 4 * 16 + b.toNat / 16) := value?_digit (by omega)
      have h₃ : value? (digit (b.toNat % 16 * 4 + c.toNat / 64)) =
          some (b.toNat % 16 * 4 + c.toNat / 64) := value?_digit (by omega)
      have h₄ : value? (digit (c.toNat % 64)) = some (c.toNat % 64) := value?_digit (by omega)
      have hne : ¬ (encode rest = [] ∧ digit (c.toNat % 64) = '=') :=
        fun h => digit_ne_pad (by omega) h.2
      simp only [decode, if_neg hne, h₁, h₂, h₃, h₄, ih, Option.bind_eq_bind, Option.bind_some,
        Option.pure_def]
      rw [ofNat_eq (a := a) (by omega), ofNat_eq (a := b) (by omega), ofNat_eq (a := c) (by omega)]

/-- What holds of the digits and of the padding holds of all that is written. -/
theorem forall_mem_encode {p : Char → Prop} (hdigit : ∀ n < 64, p (digit n)) (hpad : p '=')
    (b : List UInt8) : ∀ c ∈ encode b, p c := by
  fun_induction encode b with
  | case1 => exact List.forall_mem_nil _
  | case2 a =>
      have ha := a.toNat_lt
      simp only [List.forall_mem_cons]
      exact ⟨hdigit _ (by omega), hdigit _ (by omega), hpad, hpad, List.forall_mem_nil _⟩
  | case3 a b =>
      have ha := a.toNat_lt
      have hb := b.toNat_lt
      simp only [List.forall_mem_cons]
      exact ⟨hdigit _ (by omega), hdigit _ (by omega), hdigit _ (by omega), hpad,
        List.forall_mem_nil _⟩
  | case4 a b c rest ih =>
      have ha := a.toNat_lt
      have hb := b.toNat_lt
      have hc := c.toNat_lt
      simp only [List.forall_mem_cons]
      exact ⟨hdigit _ (by omega), hdigit _ (by omega), hdigit _ (by omega), hdigit _ (by omega), ih⟩

/-- No line breaks in what the encoder writes. -/
theorem encode_no_lineBreak (b : List UInt8) : ∀ c ∈ encode b, (c != '\n' && c != '\r') = true :=
  forall_mem_encode (by decide) (by decide) b

/-! ## In a URL -/

/-- The digit in a URL. -/
def toUrl (c : Char) : Char := if c = '+' then '-' else if c = '/' then '_' else c

def ofUrl? (c : Char) : Option Char :=
  if c = '-' then some '+'
  else if c = '_' then some '/'
  else if c = '+' ∨ c = '/' ∨ c = '=' then none
  else some c

def unpad (cs : List Char) : List Char := cs.filter fun c => c != '='

/-- The padding that is missing. -/
def pad (cs : List Char) : List Char :=
  match cs.length % 4 with
  | 2 => cs ++ ['=', '=']
  | 3 => cs ++ ['=']
  | _ => cs

def encodeURL (b : List UInt8) : List Char := (unpad (encode b)).map toUrl

/-- The decoder passes over line breaks. -/
def decodeURL (cs : List Char) : Option (List UInt8) :=
  ((cs.filter fun c => c != '\n' && c != '\r').mapM ofUrl?).bind fun cs => decode (pad cs)

/-- Padding starts afresh after four digits. -/
theorem pad_cons (w x y z : Char) (cs : List Char) :
    pad (w :: x :: y :: z :: cs) = w :: x :: y :: z :: pad cs := by
  have hlen : (w :: x :: y :: z :: cs).length % 4 = cs.length % 4 := by
    simp only [List.length_cons]
    omega
  unfold pad
  rw [hlen]
  split <;> rfl

theorem unpad_digit {n : Nat} (h : n < 64) (cs : List Char) :
    unpad (digit n :: cs) = digit n :: unpad cs :=
  List.filter_cons_of_pos (bne_iff_ne.mpr (digit_ne_pad h))

theorem pad_unpad_encode (b : List UInt8) : pad (unpad (encode b)) = encode b := by
  fun_induction encode b with
  | case1 => rfl
  | case2 a =>
      have ha := a.toNat_lt
      rw [unpad_digit (by omega), unpad_digit (by omega)]
      rfl
  | case3 a b =>
      have ha := a.toNat_lt
      have hb := b.toNat_lt
      rw [unpad_digit (by omega), unpad_digit (by omega), unpad_digit (by omega)]
      rfl
  | case4 a b c rest ih =>
      have ha := a.toNat_lt
      have hb := b.toNat_lt
      have hc := c.toNat_lt
      rw [unpad_digit (by omega), unpad_digit (by omega), unpad_digit (by omega),
        unpad_digit (by omega), pad_cons, ih]

/-- What holds of the digits in a URL holds of all that is written there. -/
theorem forall_mem_encodeURL {p : Char → Prop} (hdigit : ∀ n < 64, p (toUrl (digit n)))
    (b : List UInt8) : ∀ c ∈ encodeURL b, p c := by
  intro c hc
  obtain ⟨d, hd, rfl⟩ := List.mem_map.mp hc
  obtain ⟨hd, hne⟩ := List.mem_filter.mp hd
  have hall : ∀ d ∈ encode b, d ≠ '=' → p (toUrl d) :=
    forall_mem_encode (fun n hn _ => hdigit n hn) (fun h => absurd rfl h) b
  exact hall d hd (bne_iff_ne.mp hne)

theorem mapM_ofUrl?_toUrl {cs : List Char} (h : ∀ c ∈ cs, ofUrl? (toUrl c) = some c) :
    (cs.map toUrl).mapM ofUrl? = some cs := by
  induction cs with
  | nil => rfl
  | cons c cs ih =>
      rw [List.forall_mem_cons] at h
      rw [List.map_cons, List.mapM_cons, h.1, ih h.2]
      rfl

theorem decodeURL_encodeURL (b : List UInt8) : decodeURL (encodeURL b) = some b := by
  have hbreaks : (encodeURL b).filter (fun c => c != '\n' && c != '\r') = encodeURL b :=
    List.filter_eq_self.mpr (forall_mem_encodeURL (by decide) b)
  have hdigits : ∀ c ∈ encode b, c ≠ '=' → ofUrl? (toUrl c) = some c :=
    forall_mem_encode (by decide) (by decide) b
  have hback : (encodeURL b).mapM ofUrl? = some (unpad (encode b)) := by
    refine mapM_ofUrl?_toUrl fun c hc => ?_
    obtain ⟨hc, hne⟩ := List.mem_filter.mp hc
    exact hdigits c hc (bne_iff_ne.mp hne)
  unfold decodeURL
  rw [hbreaks, hback, Option.bind_some, pad_unpad_encode, decode_encode]

end Base64
