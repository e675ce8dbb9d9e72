/-
# `Clearance.FormatGo` — the formatter of the repository

`scripts/format-go` formats a file with `go/format` and then undoes the alignment: the blanks
before a token become one space, unless they indent a line.  `formatSource` goes through the
tokens with a pointer `copied` behind which everything has been written; at each token it looks
backwards for the first blank of the gap, and if the gap is to be collapsed it copies what lies
between, writes a space and moves the pointer to the token.

`collapsed` says what the result should be, byte by byte: the first byte of a gap is replaced by
a space, the others are left out, and every byte that is in no gap stays.  The loop computes it
without an index out of range (`collapse_eq`), and the tokens of the result, wherever they have
moved to, leave it as it is (`collapse_shifted`).
-/
import Clearance.Domain
import Clearance.Patches

namespace Clearance

namespace FormatGo

open Patches

/-! ## The source -/

def space : UInt8 := 32

def newline : UInt8 := 10

/-- `b == ' ' || b == '\t'` -/
def isBlank (b : UInt8) : Bool := b == space || b == 9

/-- What the scanner yields before the end of the file. -/
structure Token where
  offset : Nat
  /-- `kind == token.SEMICOLON` -/
  semicolon : Bool
  literal : Bytes
  deriving DecidableEq

/-- A semicolon the scanner has put in at the end of a line. -/
def Token.automatic (t : Token) : Bool := t.semicolon && t.literal == [newline]

/-- `text[lo:hi]`, if it is in range. -/
def slice (text : Bytes) (lo hi : Nat) : Option Bytes :=
  if lo ≤ hi ∧ hi ≤ text.length then some ((text.take hi).drop lo) else none

/-- `for start > 0 && (formatted[start-1] == ' ' || formatted[start-1] == '\t') { start-- }` -/
def gapStart (text : Bytes) : Nat → Option Nat
  | 0 => some 0
  | start + 1 => do
      let b ← text[start]?
      if isBlank b then gapStart text start else some (start + 1)

/-- The variables of the loop. -/
structure Loop where
  copied : Nat := 0
  output : Bytes := []

/-- The rest of the loop's body for a token at `stop`. -/
def collapseGap (text : Bytes) (stop : Nat) (s : Loop) : Option Loop := do
  let start ← gapStart text stop
  if start = stop ∨ start = 0 then some s
  else
    let before ← text[start - 1]?
    if before = newline then some s
    else
      let kept ← slice text s.copied start
      some ⟨stop, s.output ++ kept ++ [space]⟩

/-- The body of the loop. -/
def visit (text : Bytes) (s : Loop) (t : Token) : Option Loop :=
  if t.automatic then some s else collapseGap text t.offset s

/-- The loop of `formatSource`; `none` is an index out of range. -/
def collapse (text : Bytes) (tokens : List Token) : Option Bytes := do
  let s ← tokens.foldlM (visit text) {}
  let rest ← slice text s.copied text.length
  some (s.output ++ rest)

/-- `go/format` and `go/scanner` -/
structure Go where
  format : Bytes → Except Error Bytes
  scan : Bytes → List Token

/-- `formatSource` -/
def formatSource (go : Go) (source : Bytes) : Except Error (Option Bytes) := do
  let formatted ← go.format source
  pure (collapse formatted (go.scan formatted))

/-! ## What it is for -/

/-- The bytes from `start` on are all the blanks before `stop`, and they follow something on
the same line. -/
structure Gap (text : Bytes) (start stop : Nat) : Prop where
  pos : 0 < start
  nonempty : start < stop
  blank : ∀ i < stop, start ≤ i → text[i]?.any isBlank = true
  inline : text[start - 1]?.any (fun b => !isBlank b && b != newline) = true

instance (text : Bytes) (start stop : Nat) : Decidable (Gap text start stop) :=
  decidable_of_iff (0 < start ∧ start < stop ∧
      (∀ i < stop, start ≤ i → text[i]?.any isBlank = true) ∧
      text[start - 1]?.any (fun b => !isBlank b && b != newline) = true)
    ⟨fun ⟨hpos, hlt, hblank, hinline⟩ => ⟨hpos, hlt, hblank, hinline⟩,
      fun h => ⟨h.pos, h.nonempty, h.blank, h.inline⟩⟩

/-- What stands for the byte `i`. -/
def piece (text : Bytes) (offsets : List Nat) (i : Nat) : Bytes :=
  if ∃ stop ∈ offsets, Gap text i stop then [space]
  else if ∃ start < i, ∃ stop ∈ offsets, i < stop ∧ Gap text start stop then []
  else text[i]?.toList

/-- The text with every gap before one of the offsets collapsed. -/
def collapsed (text : Bytes) (offsets : List Nat) : Bytes :=
  upTo (piece text offsets) text.length

/-- Where the byte `i` is in it. -/
def shifted (text : Bytes) (offsets : List Nat) (i : Nat) : Nat :=
  (upTo (piece text offsets) i).length

/-- There is a byte, and it is not blank. -/
def Solid (text : Bytes) (i : Nat) : Prop := text[i]?.any (fun b => !isBlank b) = true

/-- The offsets increase, and point at bytes that are not blank. -/
structure Placed (text : Bytes) (offsets : List Nat) : Prop where
  increasing : offsets.Pairwise (· < ·)
  solid : ∀ stop ∈ offsets, Solid text stop

/-- The offsets of the tokens, automatic semicolons left out. -/
def offsets (tokens : List Token) : List Nat :=
  (tokens.filter fun t => !t.automatic).map Token.offset

/-! ## Gaps -/

section

variable {text : Bytes} {offs : List Nat} {start start' stop stop' i : Nat}

theorem Solid.not_blank (h : Solid text i) : ¬ text[i]?.any isBlank = true := by
  unfold Solid at h
  cases hb : text[i]? with
  | none => simp
  | some b => simpa [hb] using h

theorem Gap.solid (h : Gap text start stop) : Solid text (start - 1) := by
  have hinline := h.inline
  unfold Solid
  cases hb : text[start - 1]? with
  | none => simp [hb] at hinline
  | some b =>
      rw [hb] at hinline
      simp only [Option.any_some, Bool.and_eq_true] at hinline ⊢
      exact hinline.1

/-- A byte that is not blank is in no gap. -/
theorem Gap.out (h : Gap text start stop) (hi : Solid text i) : i < start ∨ stop ≤ i := by
  by_contra hin
  exact hi.not_blank (h.blank i (by omega) (by omega))

/-- Gaps that share a byte and end before a byte that is not blank are one gap. -/
theorem Gap.unique (h : Gap text start stop) (h' : Gap text start' stop') (hstop : Solid text stop)
    (hstop' : Solid text stop') (hi : start ≤ i ∧ i < stop) (hi' : start' ≤ i ∧ i < stop') :
    start = start' ∧ stop = stop' := by
  have hpos := h.pos
  have hpos' := h'.pos
  have h₁ := h.out hstop'
  have h₂ := h'.out hstop
  have h₃ := h.out h'.solid
  have h₄ := h'.out h.solid
  omega

theorem solid_iff : Solid text i ↔ ∃ b, text[i]? = some b ∧ isBlank b = false := by
  unfold Solid
  cases text[i]? with
  | none => simp
  | some b => simp

theorem Solid.lt_length (h : Solid text i) : i < text.length := by
  by_contra hle
  rw [Solid, List.getElem?_eq_none (Nat.le_of_not_lt hle)] at h
  cases h

/-- Where the backward scan of the loop stops. -/
theorem gapStart_spec (hstop : stop ≤ text.length) :
    ∃ start, gapStart text stop = some start ∧ start ≤ stop ∧
      (∀ i < stop, start ≤ i → text[i]?.any isBlank = true) ∧
      (start = 0 ∨ Solid text (start - 1)) := by
  induction stop with
  | zero => exact ⟨0, rfl, Nat.le_refl 0, fun i hi => absurd hi (Nat.not_lt_zero i), .inl rfl⟩
  | succ stop ih =>
      have hb : text[stop]? = some text[stop] := List.getElem?_eq_getElem hstop
      cases hblank : isBlank text[stop] with
      | false =>
          refine ⟨stop + 1, ?_, Nat.le_refl _, fun i hi hle => absurd hle (by omega), .inr ?_⟩
          · simp [gapStart, hb, hblank]
          · simp [Solid, hb, hblank]
      | true =>
          obtain ⟨start, hstart, hle, hblanks, hbefore⟩ := ih (Nat.le_of_succ_le hstop)
          refine ⟨start, ?_, Nat.le_succ_of_le hle, fun i hi hi' => ?_, hbefore⟩
          · simpa [gapStart, hb, hblank] using hstart
          · rcases Nat.lt_succ_iff_lt_or_eq.mp hi with hlt | rfl
            · exact hblanks i hlt hi'
            · simp [hb, hblank]

/-! ## The pieces -/

/-- A byte outside the gaps stays. -/
theorem piece_kept (h : ∀ start, ∀ stop ∈ offs, Gap text start stop → i < start ∨ stop ≤ i) :
    piece text offs i = text[i]?.toList := by
  unfold piece
  rw [if_neg, if_neg]
  · rintro ⟨start, hlt, stop, hstop, hi, hgap⟩
    have := h start stop hstop hgap
    omega
  · rintro ⟨stop, hstop, hgap⟩
    have := h i stop hstop hgap
    have := hgap.nonempty
    omega

theorem piece_solid (hi : Solid text i) : piece text offs i = text[i]?.toList :=
  piece_kept fun _ _ _ hgap => hgap.out hi

/-- The first byte of a gap. -/
theorem piece_start (hstop : stop ∈ offs) (h : Gap text start stop) :
    piece text offs start = [space] :=
  if_pos ⟨stop, hstop, h⟩

/-- The others. -/
theorem piece_inside (hstop : stop ∈ offs) (h : Gap text start stop) (hi : start < i ∧ i < stop) :
    piece text offs i = [] := by
  unfold piece
  rw [if_neg, if_pos ⟨start, hi.1, stop, hstop, hi.2, h⟩]
  rintro ⟨stop', -, hgap⟩
  have := h.out hgap.solid
  omega

/-- A gap that is collapsed. -/
theorem upTo_gap (hstop : stop ∈ offs) (h : Gap text start stop) :
    upTo (piece text offs) stop = upTo (piece text offs) start ++ [space] := by
  rw [upTo_of_nil (Nat.succ_le_of_lt h.nonempty), upTo_succ, piece_start hstop h]
  exact fun i hi hi' => piece_inside hstop h ⟨hi, hi'⟩

/-! ## The loop -/

/-- What the loop has done when it is through with the offsets `done`. -/
structure Through (text : Bytes) (offs : List Nat) (done : List Nat) (s : Loop) : Prop where
  written : s.output = upTo (piece text offs) s.copied
  behind : s.copied = 0 ∨ s.copied ∈ done
  collected : ∀ start, ∀ stop ∈ done, Gap text start stop → stop ≤ s.copied

/-- The bytes from the pointer to a gap, or to the end, are copied. -/
theorem Through.copy {done : List Nat} {s : Loop} (h : Through text offs done s) {limit : Nat}
    (hle : s.copied ≤ limit) (hlimit : limit ≤ text.length)
    (hrest : ∀ start, ∀ stop ∈ offs, stop ∉ done → Gap text start stop → limit ≤ start) :
    slice text s.copied limit = some ((text.take limit).drop s.copied) ∧
      s.output ++ (text.take limit).drop s.copied = upTo (piece text offs) limit := by
  refine ⟨if_pos ⟨hle, hlimit⟩, ?_⟩
  rw [h.written, ← upTo_of_kept hle hlimit]
  intro i hi hilimit
  refine piece_kept fun start stop hstop hgap => ?_
  by_cases hdone : stop ∈ done
  · have := h.collected start stop hdone hgap
    omega
  · have := hrest start stop hstop hdone hgap
    omega

/-- A gap starts where the blanks start. -/
theorem Gap.start_eq (h : Gap text start' stop)
    (hblank : ∀ i < stop, start ≤ i → text[i]?.any isBlank = true)
    (hbefore : start = 0 ∨ Solid text (start - 1)) (hle : start ≤ stop) : start' = start := by
  have hpos := h.pos
  have hlt := h.nonempty
  have hge : start' - 1 < start := by
    by_contra hin
    exact h.solid.not_blank (hblank _ (by omega) (by omega))
  rcases hbefore with rfl | hsolid
  · omega
  · have := h.out hsolid
    omega

/-- An offset without a gap. -/
theorem Through.skip {done : List Nat} {s : Loop} (h : Through text offs done s)
    (hno : ∀ start, ¬ Gap text start stop) : Through text offs (done ++ [stop]) s where
  written := h.written
  behind := h.behind.imp_right (List.mem_append_left _)
  collected := by
    intro start stop' hstop' hgap
    rcases List.mem_append.mp hstop' with hdone | hlast
    · exact h.collected start stop' hdone hgap
    · rw [List.mem_singleton.mp hlast] at hgap
      exact absurd hgap (hno start)

/-- One turn of the loop. -/
theorem Through.step {done todo : List Nat} {s : Loop} (h : Through text offs done s)
    (hplaced : Placed text offs) (hoffs : offs = done ++ stop :: todo) :
    ∃ s', collapseGap text stop s = some s' ∧ Through text offs (done ++ [stop]) s' := by
  have hstop : stop ∈ offs := hoffs ▸ List.mem_append_right _ List.mem_cons_self
  have hsolid := hplaced.solid stop hstop
  have hpair := hplaced.increasing
  rw [hoffs, List.pairwise_append, List.pairwise_cons] at hpair
  obtain ⟨-, ⟨hlater, -⟩, hearlier⟩ := hpair
  obtain ⟨start, hstart, hle, hblank, hbefore⟩ := gapStart_spec (Nat.le_of_lt hsolid.lt_length)
  have hsame : ∀ start', Gap text start' stop → start' = start :=
    fun start' hgap => hgap.start_eq hblank hbefore hle
  unfold collapseGap
  rw [hstart, Option.bind_eq_bind, Option.bind_some]
  by_cases hskip : start = stop ∨ start = 0
  · rw [if_pos hskip]
    refine ⟨s, rfl, h.skip fun start' hgap => ?_⟩
    have := hsame start' hgap
    have := hgap.pos
    have := hgap.nonempty
    omega
  rw [if_neg hskip]
  have hsolid' : Solid text (start - 1) := hbefore.resolve_left fun h0 => hskip (.inr h0)
  obtain ⟨b, hb, hbblank⟩ := solid_iff.mp hsolid'
  rw [hb, Option.bind_eq_bind, Option.bind_some]
  by_cases hline : b = newline
  · rw [if_pos hline]
    refine ⟨s, rfl, h.skip fun start' hgap => ?_⟩
    have hinline := hgap.inline
    rw [hsame start' hgap, hb] at hinline
    simp [hline] at hinline
  rw [if_neg hline]
  have hgap : Gap text start stop :=
    { pos := by omega
      nonempty := by omega
      blank := hblank
      inline := by simp [hb, hbblank, hline] }
  -- the pointer is at a token, so it is not among the blanks
  have hcopied : s.copied ≤ start := by
    rcases h.behind with hzero | hdone
    · omega
    · have hlt := hearlier _ hdone _ List.mem_cons_self
      have hout := hgap.out (hplaced.solid _ (hoffs ▸ List.mem_append_left _ hdone))
      omega
  have hrest : ∀ start', ∀ stop' ∈ offs, stop' ∉ done → Gap text start' stop' →
      start ≤ start' := by
    intro start' stop' hstop' hnot hgap'
    rw [hoffs] at hstop'
    rcases List.mem_append.mp hstop' with hdone | hcons
    · exact absurd hdone hnot
    rcases List.mem_cons.mp hcons with rfl | htodo
    · exact Nat.le_of_eq (hsame start' hgap').symm
    · have hlt := hlater _ htodo
      have hout := hgap'.out hsolid
      omega
  obtain ⟨hslice, hcopy⟩ := h.copy hcopied (hle.trans (Nat.le_of_lt hsolid.lt_length)) hrest
  rw [hslice, Option.bind_eq_bind, Option.bind_some]
  refine ⟨_, rfl, ?_, .inr (List.mem_append_right _ List.mem_cons_self), ?_⟩
  · rw [hcopy, upTo_gap hstop hgap]
  · intro start' stop' hstop' _
    rcases List.mem_append.mp hstop' with hdone | hlast
    · exact Nat.le_of_lt (hearlier _ hdone _ List.mem_cons_self)
    · exact Nat.le_of_eq (List.mem_singleton.mp hlast)

/-- All the turns. -/
theorem Through.run {done todo : List Nat} {s : Loop} (h : Through text offs done s)
    (hplaced : Placed text offs) (hoffs : offs = done ++ todo) :
    ∃ s', todo.foldlM (fun s stop => collapseGap text stop s) s = some s' ∧
      Through text offs offs s' := by
  induction todo generalizing done s with
  | nil =>
      rw [List.append_nil] at hoffs
      exact ⟨s, rfl, hoffs ▸ h⟩
  | cons stop todo ih =>
      obtain ⟨s₁, hs₁, h₁⟩ := h.step hplaced hoffs
      obtain ⟨s', hs', h'⟩ := ih h₁ (by rw [hoffs, List.append_assoc]; rfl)
      refine ⟨s', ?_, h'⟩
      rw [List.foldlM_cons, hs₁]
      exact hs'

end

/-- Automatic semicolons do nothing. -/
theorem foldlM_visit (text : Bytes) (tokens : List Token) (s : Loop) :
    tokens.foldlM (visit text) s =
      (offsets tokens).foldlM (fun s stop => collapseGap text stop s) s := by
  induction tokens generalizing s with
  | nil => rfl
  | cons t tokens ih =>
      rw [List.foldlM_cons, visit]
      cases ht : t.automatic with
      | true =>
          have hoffsets : offsets (t :: tokens) = offsets tokens := by simp [offsets, ht]
          rw [hoffsets]
          exact ih s
      | false =>
          have hoffsets : offsets (t :: tokens) = t.offset :: offsets tokens := by
            simp [offsets, ht]
          rw [hoffsets, List.foldlM_cons]
          exact congrArg _ (funext ih)

/-- The loop does what it is for. -/
theorem collapse_eq {text : Bytes} {tokens : List Token} (h : Placed text (offsets tokens)) :
    collapse text tokens = some (collapsed text (offsets tokens)) := by
  have hbegin : Through text (offsets tokens) [] {} := ⟨rfl, .inl rfl, nofun⟩
  obtain ⟨s, hs, hthrough⟩ := hbegin.run h (List.nil_append _).symm
  have hcopied : s.copied ≤ text.length := by
    rcases hthrough.behind with hzero | hmem
    · omega
    · exact Nat.le_of_lt (h.solid _ hmem).lt_length
  obtain ⟨hslice, hcopy⟩ := hthrough.copy hcopied (Nat.le_refl _)
    fun _ _ hin hnot => absurd hin hnot
  unfold collapse
  rw [foldlM_visit, hs, Option.bind_eq_bind, Option.bind_some, hslice, Option.bind_eq_bind,
    Option.bind_some, hcopy]
  rfl

theorem formatSource_eq {go : Go} {source formatted : Bytes}
    (hformat : go.format source = .ok formatted)
    (h : Placed formatted (offsets (go.scan formatted))) :
    formatSource go source = .ok (some (collapsed formatted (offsets (go.scan formatted)))) := by
  unfold formatSource
  rw [hformat, ← collapse_eq h]
  rfl

/-! ## The second time -/

section

variable {text : Bytes} {offs : List Nat} {start stop i : Nat}

/-- A byte that is not blank is found again. -/
theorem Solid.getElem?_shifted (h : Solid text i) :
    (collapsed text offs)[shifted text offs i]? = text[i]? := by
  obtain ⟨b, hb, -⟩ := solid_iff.mp h
  rw [hb]
  refine getElem?_upTo h.lt_length ?_
  rw [piece_solid h, hb, Option.toList_some]

theorem Solid.shifted (h : Solid text i) : Solid (collapsed text offs) (shifted text offs i) := by
  rw [Solid, h.getElem?_shifted]
  exact h

theorem Solid.shifted_succ (h : Solid text i) :
    FormatGo.shifted text offs (i + 1) = FormatGo.shifted text offs i + 1 := by
  obtain ⟨b, hb, -⟩ := solid_iff.mp h
  rw [FormatGo.shifted, upTo_succ, piece_solid h, hb, List.length_append]
  rfl

theorem Placed.shifted (h : Placed text offs) :
    Placed (collapsed text offs) (offs.map (FormatGo.shifted text offs)) where
  increasing := by
    refine List.pairwise_map.mpr (h.increasing.imp_of_mem fun {i j} hi _ hij => ?_)
    have hsolid := h.solid i hi
    obtain ⟨b, hb, -⟩ := solid_iff.mp hsolid
    refine length_upTo_lt (b := b) hij ?_
    rw [piece_solid hsolid, hb, Option.toList_some]
  solid := List.forall_mem_map.mpr fun i hi => (h.solid i hi).shifted

/-- Blanks that are no gap are copied as they are. -/
theorem shifted_indent (h : Placed text offs) (hstop : stop ∈ offs)
    (hblank : ∀ i < stop, start ≤ i → text[i]?.any isBlank = true)
    (hbefore : start = 0 ∨ Solid text (start - 1)) (hle : start ≤ stop)
    (hno : ¬ Gap text start stop) (hi : start ≤ i) (histop : i ≤ stop) :
    shifted text offs i = shifted text offs start + (i - start) ∧
      (i < stop → (collapsed text offs)[shifted text offs i]? = text[i]?) := by
  have hlength := (h.solid stop hstop).lt_length
  have hkept : ∀ j, start ≤ j → j < stop → piece text offs j = text[j]?.toList := by
    intro j hj hjstop
    refine piece_kept fun start' stop' hstop' hgap => ?_
    by_contra hin
    have hout := hgap.out (h.solid stop hstop)
    rcases Nat.lt_or_ge stop' stop with hlt | hge
    · exact (h.solid stop' hstop').not_blank (hblank stop' hlt (by omega))
    · obtain rfl : stop' = stop := by omega
      exact hno (hgap.start_eq hblank hbefore hle ▸ hgap)
  constructor
  · have hcopy := upTo_of_kept (f := piece text offs) hi (by omega)
      fun j hj hji => hkept j hj (by omega)
    rw [shifted, hcopy, List.length_append, List.length_drop, List.length_take, shifted]
    omega
  · intro hlt
    have hb : text[i]? = some text[i] := List.getElem?_eq_getElem (hlt.trans hlength)
    rw [hb]
    refine getElem?_upTo (hlt.trans hlength) ?_
    rw [hkept i hi hlt, hb, Option.toList_some]

/-- The gaps that are left are single spaces. -/
theorem gap_collapsed (h : Placed text offs) (hstop : stop ∈ offs)
    (hgap : Gap (collapsed text offs) i (shifted text offs stop)) :
    i + 1 = shifted text offs stop ∧ (collapsed text offs)[i]? = some space := by
  have hpos := hgap.pos
  have hlt := hgap.nonempty
  obtain ⟨start, -, hle, hblank, hbefore⟩ :=
    gapStart_spec (Nat.le_of_lt (h.solid stop hstop).lt_length)
  by_cases hold : Gap text start stop
  · have hend : shifted text offs stop = shifted text offs start + 1 := by
      rw [shifted, upTo_gap hstop hold, List.length_append]
      rfl
    have hstart : shifted text offs start = shifted text offs (start - 1) + 1 := by
      rw [← hold.solid.shifted_succ, Nat.sub_add_cancel hold.pos]
    have hsolid : Solid (collapsed text offs) (shifted text offs (start - 1)) := hold.solid.shifted
    have hout := hgap.out hsolid
    obtain rfl : i = shifted text offs start := by omega
    refine ⟨hend.symm, getElem?_upTo ?_ (piece_start hstop hold)⟩
    exact hold.nonempty.trans (h.solid stop hstop).lt_length
  · -- the blanks before the token start a line or the file, and still do
    exfalso
    have hindent : ∀ j, start ≤ j → j ≤ stop → _ := fun j hj hj' =>
      shifted_indent h hstop hblank hbefore hle hold hj hj'
    have hend := (hindent stop hle (Nat.le_refl _)).1
    have hinside : i ≤ shifted text offs start := by
      by_contra hafter
      obtain ⟨hj, hbyte⟩ :=
        hindent (start + (i - 1 - shifted text offs start)) (by omega) (by omega)
      have hsolid := hgap.solid
      have hj : shifted text offs (start + (i - 1 - shifted text offs start)) = i - 1 := by omega
      rw [hj] at hbyte
      rw [Solid, hbyte (by omega)] at hsolid
      exact Solid.not_blank hsolid (hblank _ (by omega) (by omega))
    rcases hbefore with rfl | hsolid
    · have hzero : shifted text offs 0 = 0 := rfl
      omega
    · rcases Nat.eq_zero_or_pos start with hzero | hstart
      · subst hzero
        have hzero : shifted text offs 0 = 0 := rfl
        omega
      have hmoved : Solid (collapsed text offs) (shifted text offs (start - 1)) := hsolid.shifted
      have hprev : shifted text offs start = shifted text offs (start - 1) + 1 := by
        rw [← hsolid.shifted_succ, Nat.sub_add_cancel hstart]
      have hout := hgap.out hmoved
      obtain rfl : i = shifted text offs start := by omega
      have hinline := hgap.inline
      rw [show shifted text offs start - 1 = shifted text offs (start - 1) by omega,
        hsolid.getElem?_shifted] at hinline
      exact hold ⟨hstart, by omega, hblank, hinline⟩

/-- Collapsed text is collapsed. -/
theorem collapsed_shifted (h : Placed text offs) :
    collapsed (collapsed text offs) (offs.map (shifted text offs)) = collapsed text offs := by
  refine upTo_eq_self fun i hi => ?_
  unfold piece
  split
  · next hstart =>
      obtain ⟨stop', hstop', hgap⟩ := hstart
      obtain ⟨stop, hstop, rfl⟩ := List.mem_map.mp hstop'
      rw [(gap_collapsed h hstop hgap).2, Option.toList_some]
  · split
    · next hinside =>
        obtain ⟨start, hlt, stop', hstop', hi', hgap⟩ := hinside
        obtain ⟨stop, hstop, rfl⟩ := List.mem_map.mp hstop'
        have := (gap_collapsed h hstop hgap).1
        omega
    · rfl

end

/-! ## The loop as a whole -/

/-- For every text and all tokens, the loop is through without an index out of range, it
collapses the gaps and changes nothing else, and the same tokens, where they are now, leave its
result alone. -/
theorem collapse_lossless (text : Bytes) (tokens : List Token) (h : Placed text (offsets tokens)) :
    collapse text tokens = some (collapsed text (offsets tokens)) ∧
      (∀ stop ∈ offsets tokens,
        (collapsed text (offsets tokens))[shifted text (offsets tokens) stop]? = text[stop]?) ∧
      ∀ tokens', offsets tokens' = (offsets tokens).map (shifted text (offsets tokens)) →
        collapse (collapsed text (offsets tokens)) tokens' =
          some (collapsed text (offsets tokens)) := by
  refine ⟨collapse_eq h, fun stop hstop => (h.solid stop hstop).getElem?_shifted, ?_⟩
  intro tokens' hoffsets
  have hplaced : Placed (collapsed text (offsets tokens)) (offsets tokens') :=
    hoffsets ▸ h.shifted
  rw [collapse_eq hplaced, hoffsets, collapsed_shifted h]

/-- An aligned declaration, indented by a tab. -/
def aligned : Bytes := utf8 "\tName   \t string\n"

def alignedTokens : List Token :=
  [⟨1, false, utf8 "Name"⟩, ⟨10, false, utf8 "string"⟩, ⟨16, true, utf8 "\n"⟩]

theorem collapse_lossless_aligned :
    collapse aligned alignedTokens = some (utf8 "\tName string\n") := by
  have hplaced : Placed aligned (offsets alignedTokens) :=
    ⟨by decide +kernel, by unfold Solid; decide +kernel⟩
  rw [(collapse_lossless aligned alignedTokens hplaced).1]
  decide +kernel

end FormatGo

end Clearance
