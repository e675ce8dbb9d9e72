/-
# `Clearance.Limiter` — `redislimiter`

The counters of all instances of a service are in one Redis.  `Allow` runs a script there,
which increments the counter of a key and lets it expire a window after it was made; the
call is allowed if the counter is within the limit.

Of Redis this is assumed: the script runs as a whole, at one time of Redis' clock; a key
that has expired reads as absent; a key for which `PEXPIRE` was called at `t` expires at
`t + ms`; `INCR` fails on the largest `int64` and changes nothing.

Keys do not meet unless their hashes do, so that a run can be looked at key by key
(`run_filter`).  The calls with one key are those of a fixed window (`run_forget`), and the
bounds are those of `FixedWindow` (`rate_limit_bounds`).
-/
import Clearance.FixedWindow
import Clearance.Domain

namespace Clearance

namespace RedisLimiter

/-! ## Redis -/

/-- A counter; without an expiry it stays. -/
structure Counter where
  count : Int
  expiry : Option Time
  deriving DecidableEq

/-- The keys there are. -/
abbrev Redis := String → Option Counter

/-- What is read of a key. -/
def read (now : Time) (c : Option Counter) : Option Counter :=
  c.filter fun c => c.expiry.all fun expiry => decide (now < expiry)

/-- `INCR`, on the value of its key. -/
def incr (now : Time) (c : Option Counter) : Except Error (Int × Option Counter) :=
  match read now c with
  | none => .ok (1, some ⟨1, none⟩)
  | some c =>
      if c.count = 2 ^ 63 - 1 then .error (.text "ERR increment or decrement would overflow")
      else .ok (c.count + 1, some { c with count := c.count + 1 })

/-- `PEXPIRE`; a key that expires at once is deleted. -/
def pexpire (now : Time) (ms : Int) (c : Option Counter) : Option Counter :=
  match read now c with
  | none => none
  | some c => if ms ≤ 0 then none else some { c with expiry := some (now + ms) }

/-- `allowScript` -/
def allowScript (now : Time) (ms : Int) (c : Option Counter) :
    Except Error (Int × Option Counter) :=
  match incr now c with
  | .error e => .error e
  | .ok (count, c) => .ok (count, if count = 1 then pexpire now ms c else c)

/-! ## `limiter.go` -/

structure Limiter where
  limit : Int64
  /-- in nanoseconds -/
  window : Int64

/-- `Open` -/
def openLimiter (limit window : Int64) : Limiter where
  limit := if limit.toInt ≤ 0 then 60 else limit
  window := if window.toInt ≤ 0 then 60000000000 else window

variable (P : Platform) (l : Limiter)

def redisKey (key : Bytes) : String := "clearance:rate:" ++ (P.sha256 key).text

/-- `Milliseconds` -/
def milliseconds (d : Int64) : Int := (d / 1000000).toInt

/-- `Allow` -/
def allow (r : Redis) (now : Time) (key : Bytes) : Except Error Bool × Redis :=
  match allowScript now (milliseconds l.window) (r (redisKey P key)) with
  | .error e => (.error (.wrap "rate limit check" e), r)
  | .ok (count, c) =>
      (.ok (decide (count ≤ l.limit.toInt)), Function.update r (redisKey P key) c)

/-! ## Runs -/

/-- A call of `Allow`, from some instance; the time is in milliseconds. -/
structure Call where
  time : Time
  key : Bytes
  deriving DecidableEq

structure Answered where
  call : Call
  answer : Except Error Bool
  deriving DecidableEq

/-- The calls, one after the other. -/
def run : Redis → List Call → List Answered
  | _, [] => []
  | r, c :: cs =>
      ⟨c, (allow P l r c.time c.key).1⟩ :: run (allow P l r c.time c.key).2 cs

/-- How many of the calls with a key were allowed at such times. -/
def allowedWhen (key : Bytes) (p : Time → Bool) (g : List Answered) : Nat :=
  g.countP fun x => x.call.key == key && (x.answer == .ok true && p x.call.time)

/-! ## Key by key -/

section

variable {P l} {r r' : Redis} {now : Time} {key : Bytes}

/-- Other keys are left alone. -/
theorem allow_other {k : String} (h : k ≠ redisKey P key) : (allow P l r now key).2 k = r k := by
  unfold allow
  split
  · rfl
  · exact Function.update_of_ne h ..

/-- Other keys are not looked at. -/
theorem allow_congr (h : r (redisKey P key) = r' (redisKey P key)) (now : Time) :
    (allow P l r now key).1 = (allow P l r' now key).1 ∧
      (allow P l r now key).2 (redisKey P key) = (allow P l r' now key).2 (redisKey P key) := by
  unfold allow
  rw [h]
  split
  · exact ⟨rfl, h⟩
  · simp only [Function.update_self, and_self]

theorem run_unused {calls : List Call} (h : ∀ c ∈ calls, c.key ≠ key) :
    (run P l r calls).filter (fun x => x.call.key == key) = [] := by
  induction calls generalizing r with
  | nil => rfl
  | cons c cs ih =>
      obtain ⟨hc, hcs⟩ := List.forall_mem_cons.mp h
      rw [run, List.filter_cons_of_neg (by simpa using hc), ih hcs]

theorem redisKey_inj {key' : Bytes} (h : redisKey P key = redisKey P key') :
    P.sha256 key = P.sha256 key' := by
  have htext : (redisKey P key).toList = (redisKey P key').toList := congrArg String.toList h
  simp only [redisKey, String.toList_append] at htext
  exact Hex.ext (String.toList_inj.mp (List.append_cancel_left htext))

/-- The calls with a key are answered as if there were no others. -/
theorem run_filter {calls : List Call}
    (hfree : ∀ c ∈ calls, P.sha256 c.key = P.sha256 key → c.key = key)
    (h : r (redisKey P key) = r' (redisKey P key)) :
    (run P l r calls).filter (fun x => x.call.key == key) =
      run P l r' (calls.filter fun c => c.key == key) := by
  induction calls generalizing r r' with
  | nil => rfl
  | cons c cs ih =>
      obtain ⟨hc, hcs⟩ := List.forall_mem_cons.mp hfree
      rw [run]
      by_cases hkey : c.key = key
      · subst hkey
        obtain ⟨hanswer, hnext⟩ := allow_congr (l := l) h c.time
        rw [List.filter_cons_of_pos (by simp), List.filter_cons_of_pos (by simp), run, hanswer,
          ih hcs hnext]
      · have hother : redisKey P key ≠ redisKey P c.key := fun he =>
          hkey (hc (redisKey_inj he).symm)
        rw [List.filter_cons_of_neg (by simpa using hkey),
          List.filter_cons_of_neg (by simpa using hkey), ih hcs]
        rw [allow_other hother]
        exact h

end

/-! ## One key -/

/-- The counter of a window, which ends with the window. -/
inductive Counts (W : Int) : Option Counter → Option FixedWindow.Window → Prop
  | unused : Counts W none none
  | counting {start : Int} {count : Nat} : 1 ≤ count →
      Counts W (some ⟨min count (2 ^ 63 - 1), some (start + W)⟩) (some ⟨start, count⟩)

section

variable {W : Int} {L : Nat} {c : Option Counter} {w : Option FixedWindow.Window} {now : Time}

/-- The first call of a window makes the counter. -/
theorem allowScript_first (hW : 1 ≤ W) (h : read now c = none) :
    allowScript now W c = .ok (1, some ⟨1, some (now + W)⟩) := by
  have hincr : incr now c = .ok (1, some ⟨1, none⟩) := by
    unfold incr
    rw [h]
  have hpexpire : pexpire now W (some ⟨1, none⟩) = some ⟨1, some (now + W)⟩ :=
    if_neg (show ¬ W ≤ 0 by omega)
  rw [allowScript, hincr]
  dsimp only
  rw [if_pos rfl, hpexpire]

theorem allowScript_counted {count : Int} {expiry : Option Time} (hpos : 1 ≤ count)
    (hfull : count < 2 ^ 63 - 1) (h : read now c = some ⟨count, expiry⟩) :
    allowScript now W c = .ok (count + 1, some ⟨count + 1, expiry⟩) := by
  have hincr : incr now c = .ok (count + 1, some ⟨count + 1, expiry⟩) := by
    unfold incr
    rw [h]
    exact if_neg (show ¬ count = 2 ^ 63 - 1 by omega)
  rw [allowScript, hincr]
  dsimp only
  rw [if_neg (by omega)]

theorem allowScript_full {expiry : Option Time} (h : read now c = some ⟨2 ^ 63 - 1, expiry⟩) :
    ∃ e, allowScript now W c = .error e := by
  rw [allowScript, incr, h]
  exact ⟨_, rfl⟩

/-- The script counts the call in its window, until the counter is full. -/
theorem Counts.allowScript (h : Counts W c w) (hW : 1 ≤ W) (now : Time) :
    (∃ e, allowScript now W c = .error e ∧ 2 ^ 63 ≤ (FixedWindow.hit W w now).count ∧
        Counts W c (some (FixedWindow.hit W w now))) ∨
      ∃ c', allowScript now W c = .ok (((FixedWindow.hit W w now).count : Nat), c') ∧
        Counts W c' (some (FixedWindow.hit W w now)) := by
  have hnew : read now c = none → FixedWindow.hit W w now = ⟨now, 1⟩ →
      ∃ c', RedisLimiter.allowScript now W c =
          .ok (((FixedWindow.hit W w now).count : Nat), c') ∧
        Counts W c' (some (FixedWindow.hit W w now)) := by
    intro hread hhit
    rw [hhit]
    exact ⟨_, allowScript_first hW hread, @Counts.counting W now 1 le_rfl⟩
  cases h with
  | unused => exact Or.inr (hnew rfl rfl)
  | @counting start count hcount =>
      rcases lt_or_ge now (start + W) with hnow | hnow
      · have hread : read now (some ⟨min count (2 ^ 63 - 1), some (start + W)⟩) =
            some ⟨min count (2 ^ 63 - 1), some (start + W)⟩ := by
          simp [read, hnow]
        have hcounts := @Counts.counting W start (count + 1) (by omega)
        rw [FixedWindow.hit_within hnow]
        by_cases hfull : (count : Int) < 2 ^ 63 - 1
        · have hmin : min (count : Int) (2 ^ 63 - 1) = count := by omega
          have hnext : min ((count + 1 : Nat) : Int) (2 ^ 63 - 1) = (count + 1 : Nat) := by omega
          rw [hmin] at hread ⊢
          rw [hnext] at hcounts
          exact Or.inr ⟨_, allowScript_counted (by omega) hfull hread, hcounts⟩
        · -- the counter is full, and stays so
          have hmin : min (count : Int) (2 ^ 63 - 1) = 2 ^ 63 - 1 := by omega
          have hnext : min ((count + 1 : Nat) : Int) (2 ^ 63 - 1) = 2 ^ 63 - 1 := by omega
          rw [hmin] at hread ⊢
          rw [hnext] at hcounts
          obtain ⟨e, he⟩ := @allowScript_full W _ _ _ hread
          exact Or.inl ⟨e, he, by dsimp only; omega, hcounts⟩
      · refine Or.inr (hnew ?_ (FixedWindow.hit_after hnow))
        simp [read, hnow]

/-- A call as its window sees it. -/
def Answered.forget (x : Answered) : FixedWindow.Decision := ⟨x.call.time, x.answer == .ok true⟩

variable {P l} {r : Redis} {key : Bytes}

theorem Counts.allow (h : Counts W (r (redisKey P key)) w) (hW : 1 ≤ W)
    (hwindow : milliseconds l.window = W) (hlimit : l.limit.toInt = L) (now : Time) :
    ((allow P l r now key).1 == .ok true) = (FixedWindow.judge W L w now).allowed ∧
      Counts W ((allow P l r now key).2 (redisKey P key)) (some (FixedWindow.hit W w now)) := by
  have hbound := Int64.toInt_lt l.limit
  rw [RedisLimiter.allow, hwindow]
  rcases h.allowScript hW now with ⟨e, he, hfull, hcounts⟩ | ⟨c', hok, hcounts⟩
  · rw [he]
    refine ⟨?_, hcounts⟩
    have hover : ¬ (FixedWindow.hit W w now).count ≤ L := by omega
    simp [FixedWindow.judge, hover]
  · rw [hok]
    dsimp only
    rw [Function.update_self, hlimit]
    refine ⟨?_, hcounts⟩
    by_cases hle : (FixedWindow.hit W w now).count ≤ L
    · simp [FixedWindow.judge, hle]
    · simp [FixedWindow.judge, hle]

/-- The calls with one key are the calls of a fixed window. -/
theorem run_forget {calls : List Call} (hkey : ∀ c ∈ calls, c.key = key)
    (h : Counts W (r (redisKey P key)) w) (hW : 1 ≤ W) (hwindow : milliseconds l.window = W)
    (hlimit : l.limit.toInt = L) :
    (run P l r calls).map Answered.forget =
      FixedWindow.decisions W L w (calls.map Call.time) := by
  induction calls generalizing r w with
  | nil => rfl
  | cons c cs ih =>
      obtain ⟨rfl, hcs⟩ := List.forall_mem_cons.mp hkey
      obtain ⟨hanswer, hnext⟩ := h.allow hW hwindow hlimit c.time
      rw [run, List.map_cons, List.map_cons, FixedWindow.decisions, ih hcs hnext,
        Answered.forget, hanswer]
      rfl

end

theorem countP_forget (key : Bytes) (p : Time → Bool) (g : List Answered) :
    allowedWhen key p g = ((g.filter fun x => x.call.key == key).map Answered.forget).countP
      fun d => d.allowed && p d.time := by
  rw [List.countP_map, List.countP_filter, allowedWhen]
  refine List.countP_congr fun x _ => ?_
  simp [Answered.forget, Function.comp_apply, and_comm]

theorem milliseconds_eq {window : Int64} {W : Int} (h : window.toInt = W * 1000000) :
    milliseconds window = W := by
  have hlo := Int64.le_toInt window
  have hhi := Int64.toInt_lt window
  have hmillisecond : (1000000 : Int64).toInt = 1000000 := by decide
  rw [milliseconds, Int64.toInt_div, hmillisecond, h, Int.mul_tdiv_cancel _ (by decide)]
  exact Int.bmod_eq_of_le (by omega) (by omega)

/-- What is configured is used if it is positive. -/
theorem openLimiter_eq {limit window : Int64} (hlimit : 0 < limit.toInt)
    (hwindow : 0 < window.toInt) : openLimiter limit window = ⟨limit, window⟩ := by
  rw [openLimiter, if_neg (not_le.mpr hlimit), if_neg (not_le.mpr hwindow)]

/-- Calls with different keys do not affect each other, and of the calls with one key at most
`2 * L` are allowed in an interval as long as the window.  A call is rejected only if `L` calls
before it were allowed that are less than a window ago. -/
theorem rate_limit_bounds (P : Platform) (limit window : Int64) (L : Nat) (W : Int) (hL : 1 ≤ L)
    (hlimit : limit.toInt = L) (hW : 1 ≤ W) (hwindow : window.toInt = W * 1000000)
    (calls : List Call) (hsorted : calls.Pairwise fun c c' => c.time ≤ c'.time)
    (hfree : ∀ c ∈ calls, ∀ c' ∈ calls, P.sha256 c.key = P.sha256 c'.key → c.key = c'.key)
    (key : Bytes) (g : List Answered)
    (hg : g = run P (openLimiter limit window) (fun _ => none) calls) :
    (g.filter fun x => x.call.key == key) =
        run P (openLimiter limit window) (fun _ => none) (calls.filter fun c => c.key == key) ∧
      (∀ a, allowedWhen key (fun t => decide (a ≤ t) && decide (t < a + W)) g ≤ 2 * L) ∧
      ∀ g₁ x g₂, g = g₁ ++ x :: g₂ → x.call.key = key → x.answer = .ok false →
        L ≤ allowedWhen key (fun t => decide (x.call.time - W < t)) g₁ := by
  rw [openLimiter_eq (by omega) (by omega)] at hg ⊢
  have hkeys : (g.filter fun x => x.call.key == key) =
      run P ⟨limit, window⟩ (fun _ => none) (calls.filter fun c => c.key == key) := by
    rw [hg]
    by_cases hused : ∃ c ∈ calls, c.key = key
    · obtain ⟨c, hc, rfl⟩ := hused
      exact run_filter (fun c' hc' => hfree c' hc' c hc) rfl
    · have hunused : ∀ c ∈ calls, c.key ≠ key := fun c hc he => hused ⟨c, hc, he⟩
      rw [run_unused hunused, List.filter_eq_nil_iff.mpr (by simpa using hunused)]
      rfl
  have hforget : ((g.filter fun x => x.call.key == key).map Answered.forget) =
      FixedWindow.decisions W L none ((calls.filter fun c => c.key == key).map Call.time) := by
    rw [hkeys]
    exact run_forget (fun c hc => by simpa using (List.mem_filter.mp hc).2) .unused hW
      (milliseconds_eq hwindow) hlimit
  have htimes : ((calls.filter fun c => c.key == key).map Call.time).Pairwise (· ≤ ·) :=
    List.pairwise_map.mpr (hsorted.filter _)
  refine ⟨hkeys, fun a => ?_, fun g₁ x g₂ heq hx hrejected => ?_⟩
  · have hle := FixedWindow.allowedIn_le (W := W) (L := L) htimes none a
    rw [← hforget, FixedWindow.allowedIn] at hle
    rw [countP_forget]
    simpa only [Bool.and_assoc] using hle
  · have hsplit : (g.filter fun x => x.call.key == key).map Answered.forget =
        (g₁.filter fun x => x.call.key == key).map Answered.forget ++
          x.forget :: (g₂.filter fun x => x.call.key == key).map Answered.forget := by
      rw [heq, List.filter_append, List.filter_cons_of_pos (by simpa using hx), List.map_append,
        List.map_cons]
    have hle := FixedWindow.le_allowedSince_of_rejected htimes (hforget.symm.trans hsplit)
      (by simp [Answered.forget, hrejected])
    rw [countP_forget]
    exact hle

/-- A platform that tells an empty text from others. -/
def twoHashes : Platform :=
  { Platform.plain with
    sha256 := fun b => if b = [] then .fill 64 0 else .fill 64 1 }

/-- Two clients call a limiter of one call in ten milliseconds. -/
def twoClients : List Call := [⟨0, []⟩, ⟨3, utf8 "b"⟩, ⟨9, []⟩, ⟨10, []⟩]

theorem rate_limit_bounds_twoClients :
    (run twoHashes (openLimiter 1 10000000) (fun _ => none) twoClients).map Answered.answer =
        [.ok true, .ok true, .ok false, .ok true] ∧
      allowedWhen [] (fun t => decide (5 ≤ t) && decide (t < 5 + 10))
        (run twoHashes (openLimiter 1 10000000) (fun _ => none) twoClients) ≤ 2 :=
  ⟨by decide +kernel, (rate_limit_bounds twoHashes 1 10000000 1 10 (by decide) (by decide)
    (by decide) (by decide) twoClients (by decide) (by decide +kernel) [] _ rfl).2.1 5⟩

end RedisLimiter

end Clearance
