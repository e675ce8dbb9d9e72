/-
# `Clearance.Listing` — following `NextCursor`

The table of transactions is read as `Paging` reads a table: the key of a row is its
creation time with its identifier, and the cursor of a page is the key of its last row.
`list_eq` says so of one request and `follow_eq` of all of them; what is shown and what
is missed then follows from the results on `Paging.walk`.
-/
import Clearance.Paging
import Clearance.Service.Query

namespace Clearance

open Paging QueryService

/-! ## The keys of the rows -/

/-- What transactions are sorted by. -/
abbrev ListKey := Time ×ₗ String

def TransactionRow.listKey (r : TransactionRow) : ListKey := toLex (r.createdAt, r.id)

theorem newestFirst_iff (r s : TransactionRow) :
    r.newestFirst s = true ↔ s.listKey ≤ r.listKey := by
  simp [TransactionRow.newestFirst, TransactionRow.listKey, Prod.Lex.toLex_le_toLex]

theorem before_iff (t : Time) (id : String) (r : TransactionRow) :
    r.before (some t) id = true ↔ r.listKey < toLex (t, id) := by
  simp [TransactionRow.before, TransactionRow.listKey, Prod.Lex.toLex_lt_toLex]

/-- Identifiers are unique, so keys are. -/
theorem listKey_nodup (d : Db) : (d.transactions.rows.map TransactionRow.listKey).Nodup := by
  refine List.Nodup.of_map (fun k => (ofLex k).2) ?_
  rw [List.map_map]
  exact d.transactions.nodup

/-- What the filter selects. -/
def selects (filter : ListFilter) (r : TransactionRow) : Bool :=
  r.matching filter.accountID filter.status filter.kind

/-- The matching rows, by `created_at desc, id desc`. -/
def Db.listed (filter : ListFilter) (d : Db) : List TransactionRow :=
  (d.transactions.rows.filter (selects filter)).insertionSort fun r s => r.newestFirst s

theorem mem_listed {filter : ListFilter} {d : Db} {r : TransactionRow} :
    r ∈ d.listed filter ↔ r ∈ d.transactions.rows ∧ selects filter r = true := by
  rw [Db.listed, List.mem_insertionSort, List.mem_filter]

theorem listed_descending (filter : ListFilter) (d : Db) :
    Descending TransactionRow.listKey (d.listed filter) := by
  refine insertionSort_descending newestFirst_iff ?_
  exact (listKey_nodup d).sublist (List.filter_sublist.map _)

/-! ## One request -/

/-- The cursor that stands for a bound. -/
def cursorOf (J : CursorJSON) : Option ListKey → String
  | none => ""
  | some k => encodeCursor J ⟨(ofLex k).1, (ofLex k).2⟩

/-- A bound that can stand in a cursor. -/
def Bound (c : Option ListKey) : Prop :=
  ∀ k ∈ c, writtenInstant (ofLex k).1 = true ∧ safeToken (ofLex k).2 = true

theorem bound_none : Bound none := nofun

/-- Rows with identifiers and creation times as `NewID` and PostgreSQL produce them. -/
def Db.Listable (d : Db) : Prop :=
  ∀ r ∈ d.transactions.rows, writtenInstant r.createdAt = true ∧ safeToken r.id = true

instance (d : Db) : Decidable d.Listable := by
  unfold Db.Listable
  infer_instance

theorem Db.Listable.bound {d : Db} (hd : d.Listable) {filter : ListFilter} {n : Nat}
    {c : Option ListKey} {x : TransactionRow}
    (h : next n (below TransactionRow.listKey c (d.listed filter)) = some x) :
    Bound (some x.listKey) := by
  intro k hk
  cases hk
  exact hd x (mem_listed.mp (mem_below.mp (mem_of_next h)).1).1

/-- The filter that `List` hands to the store. -/
def storeFilter (filter : ListFilter) : Option ListKey → StoreListFilter
  | none => { accountID := filter.accountID, status := filter.status, kind := filter.kind
              limit := filter.limit }
  | some k => { accountID := filter.accountID, status := filter.status, kind := filter.kind
                limit := filter.limit, beforeCreatedAt := (ofLex k).1, beforeID := (ofLex k).2 }

/-- The rows the store returns: one more than the page can show. -/
theorem listTransactions_eq {filter : ListFilter} {c : Option ListKey} (hc : Bound c) (d : Db)
    {n : Nat} (hn : filter.limit = n) :
    d.listTransactions (storeFilter filter c) =
      ((below TransactionRow.listKey c (d.listed filter)).take (n + 1)).map
        TransactionRow.detail := by
  have hlimit : ((n : Int) + 1).toNat = n + 1 := by omega
  have hsort : ∀ p : TransactionRow → Bool,
      (d.transactions.rows.filter fun r => selects filter r && p r).insertionSort
        (fun r s => r.newestFirst s) = (d.listed filter).filter p := by
    intro p
    have hsub : ((d.transactions.rows.filter (selects filter)).map
        TransactionRow.listKey).Nodup :=
      (listKey_nodup d).sublist (List.filter_sublist.map _)
    rw [Db.listed, ← insertionSort_filter newestFirst_iff hsub, List.filter_filter]
    simp only [Bool.and_comm]
  cases c with
  | none =>
      have hall := hsort fun _ => true
      simp only [Bool.and_true, List.filter_true] at hall
      simp only [Db.listTransactions, storeFilter, nullTime, if_pos, TransactionRow.before,
        Bool.and_true, hn, hlimit, below_none]
      exact congrArg (fun l => (l.take (n + 1)).map TransactionRow.detail) hall
  | some k =>
      obtain ⟨ht, _⟩ := hc k rfl
      have hne : (ofLex k).1 ≠ zeroTime := by
        intro he
        rw [he] at ht
        exact absurd ht (by decide)
      have hbelow : (d.listed filter).filter (fun r => r.before (some (ofLex k).1) (ofLex k).2) =
          below TransactionRow.listKey (some k) (d.listed filter) := by
        refine List.filter_congr fun r _ => ?_
        rw [Bool.eq_iff_iff, before_iff, decide_eq_true_iff, under_some]
        rfl
      simp only [Db.listTransactions, storeFilter, nullTime, if_neg hne, hn, hlimit]
      rw [← hbelow]
      exact congrArg (fun l => (l.take (n + 1)).map TransactionRow.detail)
        (hsort fun r => r.before (some (ofLex k).1) (ofLex k).2)

/-- The page made of one row too many is the page of `Paging`. -/
theorem paginate_eq (J : CursorJSON) {n : Nat} (hn : 0 < n) (l : List TransactionRow) :
    paginate J n ((l.take (n + 1)).map TransactionRow.detail) =
      { items := (l.take n).map TransactionRow.detail
        nextCursor := cursorOf J ((next n l).map TransactionRow.listKey) } := by
  unfold paginate next
  rw [List.length_map, List.length_take]
  by_cases hlt : n < l.length
  · rw [if_pos (by omega), if_pos hlt, Int.toNat_natCast, ← List.map_take, List.take_take,
      Nat.min_eq_left (Nat.le_succ n)]
    dsimp only
    rw [List.getLast?_map]
    cases hlast : (l.take n).getLast? with
    | none =>
        have hlen := congrArg List.length (List.getLast?_eq_none_iff.mp hlast)
        rw [List.length_take, List.length_nil] at hlen
        omega
    | some x => rfl
  · rw [if_neg (by omega), if_neg hlt, List.take_of_length_le (by omega),
      List.take_of_length_le (by omega)]
    rfl

/-- A request asks the store for what lies below its cursor. -/
theorem list_valid (J : CursorJSON) {filter : ListFilter} (hvalid : validFilter filter = true)
    (d : Db) {c : Option ListKey} (hc : Bound c) :
    list J d.queryStore { filter with cursor := cursorOf J c } =
      .ok (paginate J filter.limit (d.listTransactions (storeFilter filter c))) := by
  have hzero : filter.limit ≠ 0 := by
    simp only [validFilter, Bool.and_eq_true, decide_eq_true_eq] at hvalid
    omega
  have hvalid' : validFilter { filter with cursor := cursorOf J c } = true := hvalid
  unfold list
  simp only [if_neg hzero, hvalid', Bool.not_true, Bool.false_eq_true, if_false]
  cases c with
  | none => rfl
  | some k =>
      obtain ⟨ht, hid⟩ := hc k rfl
      have hne : cursorOf J (some k) ≠ "" := encodeCursor_ne_empty J ht
      have hdecode : decodeCursor J (cursorOf J (some k)) = .ok ⟨(ofLex k).1, (ofLex k).2⟩ :=
        decodeCursor_encodeCursor J ht hid
      simp only [if_pos hne, hdecode]
      rfl

theorem limit_pos {filter : ListFilter} (hvalid : validFilter filter = true) {n : Nat}
    (hlimit : filter.limit = n) : 0 < n := by
  simp only [validFilter, Bool.and_eq_true, decide_eq_true_eq] at hvalid
  omega

/-- One request. -/
theorem list_eq (J : CursorJSON) {filter : ListFilter} (hvalid : validFilter filter = true)
    {n : Nat} (hlimit : filter.limit = n) (d : Db) {c : Option ListKey} (hc : Bound c) :
    list J d.queryStore { filter with cursor := cursorOf J c } =
      .ok { items := ((below TransactionRow.listKey c (d.listed filter)).take n).map
              TransactionRow.detail
            nextCursor := cursorOf J ((next n (below TransactionRow.listKey c
              (d.listed filter))).map TransactionRow.listKey) } := by
  rw [list_valid J hvalid d hc, listTransactions_eq hc d hlimit, hlimit,
    paginate_eq J (limit_pos hvalid hlimit)]

/-! ## All requests -/

/-- Following `NextCursor` is walking the tables. -/
theorem follow_eq (J : CursorJSON) {filter : ListFilter} (hvalid : validFilter filter = true)
    {n : Nat} (hlimit : filter.limit = n) {D : Nat → Db} (hD : ∀ k, (D k).Listable)
    (fuel k : Nat) {c : Option ListKey} (hc : Bound c) :
    ∃ pages, follow J (fun k => (D k).queryStore) filter fuel k (cursorOf J c) =
        .ok (pages, (walk TransactionRow.listKey (fun k => (D k).listed filter) n fuel k c).2) ∧
      pages.map Page.items =
        (walk TransactionRow.listKey (fun k => (D k).listed filter) n fuel k c).1.map
          (List.map TransactionRow.detail) := by
  induction fuel generalizing k c with
  | zero => exact ⟨[], rfl, rfl⟩
  | succ fuel ih =>
      have hpage := list_eq J hvalid hlimit (D k) hc
      unfold follow walk
      simp only [hpage]
      cases hx : next n (below TransactionRow.listKey c ((D k).listed filter)) with
      | none => exact ⟨_, rfl, rfl⟩
      | some x =>
          have hbound := (hD k).bound hx
          obtain ⟨pages, hpages, hitems⟩ := ih (k + 1) hbound
          have hne : cursorOf J (some x.listKey) ≠ "" := encodeCursor_ne_empty J (hbound _ rfl).1
          simp only [Option.map_some, if_neg hne, hpages]
          exact ⟨_, rfl, by rw [List.map_cons, hitems, List.map_cons]⟩

/-- The transactions on the pages. -/
def shown (pages : List Page) : List Detail := pages.flatMap Page.items

/-- Rows stay, with their identifiers and creation times. -/
def Db.Grows (d d' : Db) : Prop :=
  ∀ r ∈ d.transactions.rows, ∃ r' ∈ d'.transactions.rows,
    r'.id = r.id ∧ r'.createdAt = r.createdAt

instance (d d' : Db) : Decidable (d.Grows d') := by
  unfold Db.Grows
  infer_instance

theorem grows_of_le {D : Nat → Db} (hgrows : ∀ k, (D k).Grows (D (k + 1))) {j k : Nat}
    (h : j ≤ k) : (D j).Grows (D k) := by
  induction h with
  | refl => exact fun r hr => ⟨r, hr, rfl, rfl⟩
  | step _ ih =>
      intro r hr
      obtain ⟨r₁, hr₁, hid₁, hat₁⟩ := ih r hr
      obtain ⟨r₂, hr₂, hid₂, hat₂⟩ := hgrows _ r₁ hr₁
      exact ⟨r₂, hr₂, hid₂.trans hid₁, hat₂.trans hat₁⟩

/-- An identifier keeps its key. -/
theorem listKey_eq_of_id {D : Nat → Db} (hgrows : ∀ k, (D k).Grows (D (k + 1))) {j k : Nat}
    {r s : TransactionRow} (hr : r ∈ (D j).transactions.rows) (hs : s ∈ (D k).transactions.rows)
    (hid : r.id = s.id) : r.listKey = s.listKey := by
  obtain ⟨r', hr', hrid, hrat⟩ := grows_of_le hgrows (Nat.le_max_left j k) r hr
  obtain ⟨s', hs', hsid, hsat⟩ := grows_of_le hgrows (Nat.le_max_right j k) s hs
  have heq : r' = s' :=
    (D (max j k)).transactions.eq_of_key_eq hr' hs' (hrid.trans (hid.trans hsid.symm))
  rw [TransactionRow.listKey, TransactionRow.listKey, ← hrat, ← hsat, heq, hid]

/-- The identifiers shown are those of the walk. -/
theorem shown_ids {pages : List Page} {rows : List (List TransactionRow)}
    (h : pages.map Page.items = rows.map (List.map TransactionRow.detail)) :
    (shown pages).map Detail.id = rows.flatten.map TransactionRow.id := by
  rw [shown, List.flatMap_def, h, ← List.map_flatten, List.map_map]
  rfl

section Results

variable (J : CursorJSON) {filter : ListFilter} {n : Nat} {D : Nat → Db}

/-- The pages of a table that does not change. -/
theorem follow_fixed (hvalid : validFilter filter = true) (hlimit : filter.limit = n) {d : Db}
    (hd : d.Listable) :
    ∃ fuel pages, follow J (fun _ => d.queryStore) filter fuel 0 "" = .ok (pages, true) ∧
      shown pages = (d.listed filter).map TransactionRow.detail ∧
      (∀ page ∈ pages.dropLast, page.items.length = n) ∧
      (∀ page ∈ pages.getLast?, page.items = [] → d.listed filter = []) := by
  have hn := limit_pos hvalid hlimit
  have hfuel : (below TransactionRow.listKey none (d.listed filter)).length ≤
      ((d.listed filter).length + 1) * n := by
    rw [below_none]
    exact (Nat.le_succ _).trans (Nat.le_mul_of_pos_right _ hn)
  have hfixed : ∀ j, 0 ≤ j → (fun _ => d.listed filter) j = d.listed filter := fun _ _ => rfl
  obtain ⟨rows, hwalk, hflat, hfull, hlast⟩ :=
    walk_fixed hn (listed_descending filter d) hfixed (Nat.succ_pos _) hfuel
  obtain ⟨pages, hpages, hitems⟩ :=
    follow_eq J hvalid hlimit (fun _ => hd) ((d.listed filter).length + 1) 0 bound_none
  rw [hwalk] at hpages hitems
  rw [below_none] at hflat hlast
  refine ⟨_, pages, hpages, ?_, ?_, ?_⟩
  · rw [shown, List.flatMap_def, hitems, ← List.map_flatten, hflat]
  · intro page hpage
    have hmem : page.items ∈ (pages.map Page.items).dropLast := by
      rw [← List.map_dropLast]
      exact List.mem_map_of_mem hpage
    rw [hitems, ← List.map_dropLast] at hmem
    obtain ⟨row, hrow, heq⟩ := List.mem_map.mp hmem
    rw [← heq, List.length_map, hfull row hrow]
  · intro page hpage hempty
    have hmem : page.items ∈ (pages.map Page.items).getLast? := by
      rw [List.getLast?_map]
      exact Option.mem_map_of_mem _ hpage
    rw [hitems, List.getLast?_map, hempty] at hmem
    obtain ⟨row, hrow, heq⟩ := Option.mem_map.mp hmem
    exact hlast row hrow (List.map_eq_nil_iff.mp heq)

/-- A table that stops changing is read to its end. -/
theorem follow_ends (hvalid : validFilter filter = true) (hlimit : filter.limit = n)
    (hD : ∀ k, (D k).Listable) {stop : Nat} (hstop : ∀ k, stop ≤ k → D k = D stop) :
    ∃ fuel pages, follow J (fun k => (D k).queryStore) filter fuel 0 "" = .ok (pages, true) := by
  have hstop' : ∀ k, stop ≤ k → (D k).listed filter = (D stop).listed filter := by
    intro k hk
    rw [hstop k hk]
  obtain ⟨fuel, hfuel⟩ := walk_ends (limit_pos hvalid hlimit)
    (fun k => listed_descending filter (D k)) hstop' 0 none
  obtain ⟨pages, hpages, _⟩ := follow_eq J hvalid hlimit hD fuel 0 bound_none
  rw [hfuel] at hpages
  exact ⟨fuel, pages, hpages⟩

/-- No identifier occurs twice in a walk over tables that grow. -/
theorem walk_ids_nodup (hgrows : ∀ k, (D k).Grows (D (k + 1))) (filter : ListFilter)
    (n fuel : Nat) :
    ((walk TransactionRow.listKey (fun k => (D k).listed filter) n fuel 0 none).1.flatten.map
      TransactionRow.id).Nodup := by
  rw [List.Nodup, List.pairwise_map]
  refine (walk_descending (fun k => listed_descending filter (D k)) fuel 0 none).imp_of_mem ?_
  intro r s hr hs hlt hid
  obtain ⟨_, i, hi⟩ := under_of_mem_walk hr
  obtain ⟨_, j, hj⟩ := under_of_mem_walk hs
  exact hlt.ne' (listKey_eq_of_id hgrows (mem_listed.mp hi).1 (mem_listed.mp hj).1 hid)

/-- An identifier that matches at every request occurs in it. -/
theorem mem_walk_ids (hgrows : ∀ k, (D k).Grows (D (k + 1))) (hn : 0 < n) {fuel : Nat}
    (hended : (walk TransactionRow.listKey (fun k => (D k).listed filter) n fuel 0 none).2 = true)
    {id : String}
    (hthere : ∀ k < (walk TransactionRow.listKey (fun k => (D k).listed filter) n fuel 0
      none).1.length, ∃ r ∈ (D k).transactions.rows, r.id = id ∧ selects filter r = true) :
    id ∈ (walk TransactionRow.listKey (fun k => (D k).listed filter) n fuel 0
      none).1.flatten.map TransactionRow.id := by
  obtain ⟨r, hr, hid, _⟩ := hthere 0 (walk_length_pos hended)
  have hkey : ∀ j < (walk TransactionRow.listKey (fun k => (D k).listed filter) n fuel 0
      none).1.length, ∃ s ∈ (D (0 + j)).listed filter, s.listKey = r.listKey := by
    intro j hj
    obtain ⟨s, hs, hsid, hsel⟩ := hthere j hj
    rw [Nat.zero_add]
    exact ⟨s, mem_listed.mpr ⟨hs, hsel⟩, listKey_eq_of_id hgrows hs hr (hsid.trans hid.symm)⟩
  obtain ⟨s, hs, hsr⟩ := mem_walk (fun k => listed_descending filter (D k)) hn hended
    (under_none _) hkey
  refine List.mem_map.mpr ⟨s, hs, ?_⟩
  exact (congrArg (fun k => (ofLex k).2) hsr).trans hid

/-- Listing shows every transaction once. -/
theorem listing_shows_once (filter : ListFilter) (hvalid : validFilter filter = true) :
    (∀ d : Db, d.Listable → ∃ fuel pages,
      follow J (fun _ => d.queryStore) filter fuel 0 "" = .ok (pages, true) ∧
      shown pages = (d.listed filter).map TransactionRow.detail ∧
      (∀ page ∈ pages.dropLast, page.items.length = filter.limit) ∧
      (∀ page ∈ pages.getLast?, page.items = [] → d.listed filter = [])) ∧
    (∀ D : Nat → Db, (∀ k, (D k).Listable) → (∀ k, (D k).Grows (D (k + 1))) →
      ((∃ stop, ∀ k, stop ≤ k → D k = D stop) → ∃ fuel pages,
        follow J (fun k => (D k).queryStore) filter fuel 0 "" = .ok (pages, true)) ∧
      ∀ fuel pages ended,
        follow J (fun k => (D k).queryStore) filter fuel 0 "" = .ok (pages, ended) →
        ((shown pages).map Detail.id).Nodup ∧
        (ended = true → ∀ id, (∀ k < pages.length, ∃ r ∈ (D k).transactions.rows,
            r.id = id ∧ selects filter r = true) →
          ((shown pages).map Detail.id).count id = 1)) := by
  have hlimit : filter.limit = (filter.limit.toNat : Int) := by
    simp only [validFilter, Bool.and_eq_true, decide_eq_true_eq] at hvalid
    omega
  refine ⟨fun d hd => ?_, fun D hD hgrows => ⟨fun ⟨stop, hstop⟩ => ?_, ?_⟩⟩
  · obtain ⟨fuel, pages, hpages, hshown, hfull, hlast⟩ := follow_fixed J hvalid hlimit hd
    refine ⟨fuel, pages, hpages, hshown, fun page hpage => ?_, hlast⟩
    rw [hfull page hpage]
    exact hlimit.symm
  · exact follow_ends J hvalid hlimit hD hstop
  · intro fuel pages ended hfollow
    obtain ⟨pages', hpages, hitems⟩ := follow_eq J hvalid hlimit hD fuel 0 bound_none
    obtain ⟨rfl, rfl⟩ := Prod.mk.inj (Except.ok.inj (hfollow.symm.trans hpages))
    have hlen := congrArg List.length hitems
    rw [List.length_map, List.length_map] at hlen
    have hnodup : ((shown pages).map Detail.id).Nodup := by
      rw [shown_ids hitems]
      exact walk_ids_nodup hgrows filter _ fuel
    refine ⟨hnodup, fun hended id hthere => List.count_eq_one_of_mem hnodup ?_⟩
    rw [hlen] at hthere
    rw [shown_ids hitems]
    exact mem_walk_ids hgrows (limit_pos hvalid hlimit) hended hthere

end Results

/-- A payment of an account, at an instant. -/
def paid (id : String) (createdAt : Time) : TransactionRow :=
  { id, kind := .payment, accountID := "alice", merchantID := some "shop", fundingSource := none
    externalReference := none, amountCents := 100, currency := "USD", status := .pending
    correlationID := "cor_1", createdAt, updatedAt := createdAt }

/-- Two payments share an instant. -/
def threePayments : Db :=
  { Db.empty with transactions := ⟨[paid "txn_1" 5, paid "txn_2" 7, paid "txn_3" 5], by decide⟩ }

/-- A payment is made between the first request and the second. -/
def fourthPayment : Nat → Db
  | 0 => threePayments
  | _ + 1 =>
      { Db.empty with
        transactions :=
          ⟨[paid "txn_1" 5, paid "txn_2" 7, paid "txn_3" 5, paid "txn_4" 6], by decide⟩ }

theorem listing_shows_once_fourthPayment :
    (∃ fuel pages, follow .plain (fun _ => threePayments.queryStore) ⟨"alice", "", "", 2, ""⟩ fuel
        0 "" = .ok (pages, true) ∧
      (shown pages).map Detail.id = ["txn_2", "txn_3", "txn_1"]) ∧
    ∃ fuel pages, follow .plain (fun k => (fourthPayment k).queryStore) ⟨"alice", "", "", 2, ""⟩
        fuel 0 "" = .ok (pages, true) ∧
      ((shown pages).map Detail.id).Nodup ∧
      ((shown pages).map Detail.id).count "txn_1" = 1 := by
  obtain ⟨hfixed, hgrowing⟩ :=
    listing_shows_once .plain ⟨"alice", "", "", 2, ""⟩ (by decide +kernel)
  obtain ⟨fuel, pages, hpages, hshown, _⟩ := hfixed threePayments (by decide +kernel)
  refine ⟨⟨fuel, pages, hpages, ?_⟩, ?_⟩
  · rw [hshown]
    decide +kernel
  have hlistable : ∀ k, (fourthPayment k).Listable := by
    intro k
    cases k with
    | zero => decide +kernel
    | succ k =>
        have h : (fourthPayment 1).Listable := by decide +kernel
        exact h
  have hgrows : ∀ k, (fourthPayment k).Grows (fourthPayment (k + 1)) := by
    intro k
    cases k with
    | zero => decide +kernel
    | succ k => exact fun r hr => ⟨r, hr, rfl, rfl⟩
  obtain ⟨hends, hwalk⟩ := hgrowing fourthPayment hlistable hgrows
  obtain ⟨fuel, pages, hpages⟩ := hends ⟨1, fun k hk => by
    cases k with
    | zero => cases hk
    | succ k => rfl⟩
  obtain ⟨hnodup, honce⟩ := hwalk fuel pages true hpages
  refine ⟨fuel, pages, hpages, hnodup, honce rfl "txn_1" fun k _ => ?_⟩
  cases k with
  | zero => exact ⟨paid "txn_1" 5, by decide +kernel, rfl, by decide +kernel⟩
  | succ k => exact ⟨paid "txn_1" 5, List.mem_cons_self .., rfl, by decide +kernel⟩

end Clearance
