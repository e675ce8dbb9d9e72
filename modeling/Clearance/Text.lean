/-
# `Clearance.Text` — the string functions of the validators

Strings are handled as lists of characters so that everything here evaluates.
`toUpper` and `toLower` change the letters that become ASCII letters: the results
are only ever matched against ASCII text, so any other change makes no difference.
-/
import Mathlib

namespace Clearance

/-- `unicode.IsSpace`. -/
def isSpace (c : Char) : Bool :=
  (0x09 ≤ c.toNat && c.toNat ≤ 0x0d) || c.toNat == 0x20 || c.toNat == 0x85 ||
    c.toNat == 0xa0 || c.toNat == 0x1680 || (0x2000 ≤ c.toNat && c.toNat ≤ 0x200a) ||
    c.toNat == 0x2028 || c.toNat == 0x2029 || c.toNat == 0x202f || c.toNat == 0x205f ||
    c.toNat == 0x3000

/-- `unicode.IsControl`. -/
def isControl (c : Char) : Bool :=
  c.toNat ≤ 0x1f || (0x7f ≤ c.toNat && c.toNat ≤ 0x9f)

/-- `strings.TrimSpace`. -/
def trimSpace (s : String) : String :=
  String.ofList (((s.toList.dropWhile isSpace).reverse.dropWhile isSpace).reverse)

/-- The upper case of a character, where that is an ASCII letter. -/
def toUpperChar (c : Char) : Char :=
  if 'a' ≤ c ∧ c ≤ 'z' then Char.ofNat (c.toNat - 32)
  else if c.toNat = 0x131 then 'I'
  else if c.toNat = 0x17f then 'S'
  else c

/-- `strings.ToUpper`. -/
def toUpper (s : String) : String := String.ofList (s.toList.map toUpperChar)

/-- The lower case of a character, where that is an ASCII letter. -/
def toLowerChar (c : Char) : Char :=
  if 'A' ≤ c ∧ c ≤ 'Z' then Char.ofNat (c.toNat + 32)
  else if c.toNat = 0x130 then 'i'
  else if c.toNat = 0x212a then 'k'
  else c

/-- `strings.ToLower`. -/
def toLower (s : String) : String := String.ofList (s.toList.map toLowerChar)

/-- `strings.Contains`. -/
def contains (s part : String) : Bool := decide (part.toList <:+: s.toList)

/-- The first `n` characters. -/
def firstChars (n : Nat) (s : String) : String := String.ofList (s.toList.take n)

/-- `len(s)`, in bytes. -/
def byteLength (s : String) : Nat := (s.toList.map Char.utf8Size).sum

/-- The number a text of decimal digits stands for. -/
def decimal (digits : List Char) : Nat :=
  digits.foldl (fun n c => 10 * n + (c.toNat - '0'.toNat)) 0

/-- The sign of a number, and what follows it. -/
def signed : List Char → Int × List Char
  | '-' :: digits => (-1, digits)
  | '+' :: digits => (1, digits)
  | digits => (1, digits)

/-- `strconv.Atoi`. -/
def atoi (s : String) : Option Int :=
  let (sign, digits) := signed s.toList
  let n : Int := sign * decimal digits
  if !digits.isEmpty && digits.all Char.isDigit && decide (-2 ^ 63 ≤ n) && decide (n < 2 ^ 63) then
    some n
  else none

/-- A character of `[A-Za-z0-9._:-]`. -/
def isSafeChar (c : Char) : Bool :=
  ('A' ≤ c && c ≤ 'Z') || ('a' ≤ c && c ≤ 'z') || ('0' ≤ c && c ≤ '9') ||
    c == '.' || c == '_' || c == ':' || c == '-'

/-- `^[A-Za-z0-9._:-]{1,128}$` -/
def safeToken (s : String) : Bool :=
  1 ≤ s.toList.length && s.toList.length ≤ 128 && s.toList.all isSafeChar

/-- `^[A-Z]{3}$` -/
def currencyCode (s : String) : Bool :=
  s.toList.length == 3 && s.toList.all fun c => 'A' ≤ c && c ≤ 'Z'

/-! ## Texts that are normal already -/

theorem trimSpace_eq (s : String) :
    trimSpace s = String.ofList ((s.toList.dropWhile isSpace).rdropWhile isSpace) := rfl

/-- Cutting off the end leaves the beginning as it is. -/
theorem dropWhile_rdropWhile {α : Type} (p : α → Bool) (l : List α) :
    ((l.dropWhile p).rdropWhile p).dropWhile p = (l.dropWhile p).rdropWhile p := by
  rw [List.dropWhile_eq_self_iff]
  intro hpos
  have hhead := (List.rdropWhile_prefix p (l.dropWhile p)).getElem hpos
  rw [hhead]
  exact List.dropWhile_eq_self_iff.mp (List.dropWhile_idempotent p l) _

/-- Only the ends of a text matter. -/
theorem trimSpace_of_ends {s : String} (hfront : ∀ c cs, s.toList = c :: cs → isSpace c = false)
    (hback : ∀ cs c, s.toList = cs ++ [c] → isSpace c = false) : trimSpace s = s := by
  have hfront : s.toList.dropWhile isSpace = s.toList := by
    cases hs : s.toList with
    | nil => rfl
    | cons c cs => exact List.dropWhile_cons_of_neg (by simp [hfront c cs hs])
  have hback : s.toList.rdropWhile isSpace = s.toList := by
    refine List.rdropWhile_eq_self_iff.mpr fun hne => ?_
    simp [hback _ _ (List.dropLast_append_getLast hne).symm]
  rw [trimSpace_eq, hfront, hback, String.ofList_toList]

theorem trimSpace_of_forall {s : String} (h : ∀ c ∈ s.toList, isSpace c = false) :
    trimSpace s = s :=
  trimSpace_of_ends (fun c cs hs => h c (by simp [hs])) (fun cs c hs => h c (by simp [hs]))

@[simp] theorem trimSpace_trimSpace (s : String) : trimSpace (trimSpace s) = trimSpace s := by
  rw [trimSpace_eq (trimSpace s), trimSpace_eq s, String.toList_ofList, dropWhile_rdropWhile,
    List.rdropWhile_idempotent]

theorem isSafeChar_bounds {c : Char} (h : isSafeChar c = true) :
    45 ≤ c.toNat ∧ c.toNat ≤ 122 := by
  simp only [isSafeChar, Bool.or_eq_true, Bool.and_eq_true, decide_eq_true_eq, beq_iff_eq,
    Char.le_def, UInt32.le_iff_toNat_le] at h
  rcases h with (((((h | h) | h) | rfl) | rfl) | rfl) | rfl
  · exact ⟨le_trans (by decide) h.1, le_trans h.2 (by decide)⟩
  · exact ⟨le_trans (by decide) h.1, le_trans h.2 (by decide)⟩
  · exact ⟨le_trans (by decide) h.1, le_trans h.2 (by decide)⟩
  all_goals decide

theorem isSpace_of_isSafeChar {c : Char} (h : isSafeChar c = true) : isSpace c = false := by
  have hbounds := isSafeChar_bounds h
  simp only [isSpace, Bool.or_eq_false_iff, Bool.and_eq_false_iff, decide_eq_false_iff_not,
    beq_eq_false_iff_ne]
  omega

theorem safeToken_iff {s : String} : safeToken s = true ↔
    (1 ≤ s.toList.length ∧ s.toList.length ≤ 128) ∧ ∀ c ∈ s.toList, isSafeChar c = true := by
  simp only [safeToken, Bool.and_eq_true, decide_eq_true_eq, List.all_eq_true]

theorem trimSpace_of_safeToken {s : String} (h : safeToken s = true) : trimSpace s = s :=
  trimSpace_of_forall fun c hc => isSpace_of_isSafeChar ((safeToken_iff.mp h).2 c hc)

theorem currencyCode_iff {s : String} : currencyCode s = true ↔
    s.toList.length = 3 ∧ ∀ c ∈ s.toList, 65 ≤ c.toNat ∧ c.toNat ≤ 90 := by
  simp only [currencyCode, Bool.and_eq_true, beq_iff_eq, List.all_eq_true, decide_eq_true_eq]
  rfl

/-- A currency code is a safe token. -/
theorem safeToken_of_currencyCode {s : String} (h : currencyCode s = true) :
    safeToken s = true := by
  simp only [currencyCode, Bool.and_eq_true, beq_iff_eq, List.all_eq_true] at h
  refine safeToken_iff.mpr ⟨by omega, fun c hc => ?_⟩
  rw [isSafeChar, Bool.and_eq_true_iff.mpr (h.2 c hc)]
  rfl

theorem toUpper_of_currencyCode {s : String} (h : currencyCode s = true) : toUpper s = s := by
  have hchar : ∀ c ∈ s.toList, toUpperChar c = c := by
    intro c hc
    have hbounds := (currencyCode_iff.mp h).2 c hc
    have hlower : ¬ ('a' ≤ c ∧ c ≤ 'z') := by
      rintro ⟨hle, -⟩
      have hle : 97 ≤ c.toNat := hle
      omega
    rw [toUpperChar, if_neg hlower, if_neg (by omega), if_neg (by omega)]
  rw [toUpper, List.map_congr_left hchar, List.map_id', String.ofList_toList]

/-- A lower-case hexadecimal digit. -/
def isHexDigit (c : Char) : Bool := ('0' ≤ c && c ≤ '9') || ('a' ≤ c && c ≤ 'f')

/-- `n` lower-case hexadecimal digits. -/
structure Hex (n : Nat) where
  text : String
  length_eq : text.toList.length = n
  digits : text.toList.all isHexDigit = true
  deriving DecidableEq

@[ext] theorem Hex.ext {n : Nat} {a b : Hex n} (h : a.text = b.text) : a = b := by
  cases a; cases b; cases h; rfl

theorem isHexDigit_digitChar (d : Nat) : isHexDigit (Nat.digitChar (d % 16)) = true := by
  have hdigits : ∀ d : Fin 16, isHexDigit (Nat.digitChar d) = true := by decide
  exact hdigits (Fin.ofNat 16 d)

/-- The same digit over and over. -/
def Hex.fill (n d : Nat) : Hex n where
  text := String.ofList (List.replicate n (Nat.digitChar (d % 16)))
  length_eq := by simp
  digits := by simp [isHexDigit_digitChar]

/-- The operator's reason is not blank, at most 256 bytes, without control characters. -/
def validReason (reason : String) : Bool :=
  byteLength reason != 0 && byteLength reason ≤ 256 && reason.toList.all fun c => !isControl c

end Clearance
