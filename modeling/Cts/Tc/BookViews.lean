import Cts.Lib.Groups
import Cts.Lib.Paging
import Cts.Tc.PositionViews
import Cts.Tc.Reconcile

/-!
# The views of the book

`view_position_book_` adds up the current positions by their rates, and `_view_current_positions`
lists them by their ids.
-/

namespace Cts.Tc

open Lib Lib.IndexedLog

/-! ## The aggregated book -/

/-- Pairs of `u128`s. -/
def MAX_POSITIONS_QUANTITIES : Nat := 512 * 1024 * 3 / (2 * 16)

structure ViewPositionBookSponse where
  positions_quantities : List (Nat × Nat)
  is_last_chunk : Bool
  deriving DecidableEq

/-- The loop, on the quantities that it has so far. -/
def add_positions_quantities (positions_quantities : List (Nat × Nat)) :
    List (Nat × Nat) → List (Nat × Nat)
  | [] => positions_quantities
  | (r, q) :: rest =>
    let push :=
      if MAX_POSITIONS_QUANTITIES ≤ positions_quantities.length then positions_quantities
      else add_positions_quantities (positions_quantities ++ [(r, q)]) rest
    match positions_quantities.getLast? with
    | none => push
    | some latest_r_q =>
      if latest_r_q.1 = r then
        add_positions_quantities
          (positions_quantities.dropLast ++ [(latest_r_q.1, Word.add 128 latest_r_q.2 q)]) rest
      else push

/-- Of a slice that is partitioned by the predicate. -/
def partition_point {α : Type} (l : List α) (p : α → Bool) : Nat := (l.takeWhile p).length

section

variable {P : Type} [CurrentPositionTrait P]

open CurrentPositionTrait

def rate_and_quantity (p : P) : Nat × Nat :=
  (current_position_available_cycles_per_token_rate p, current_position_quantity p)

/-- The positions above the start, by their rates. -/
def cps_as_rate_and_quantity (opt_start_greater_than_rate : Option Nat)
    (current_positions : OrdMap PositionId P) : List (Nat × Nat) :=
  let cps := (current_positions.values.map rate_and_quantity).mergeSort fun a b => a.1 ≤ b.1
  match opt_start_greater_than_rate with
  | none => cps
  | some start_greater_than_rate =>
    cps.drop (partition_point cps fun d => d.1 ≤ start_greater_than_rate)

/-- Whether the last quantity is of the last position's rate. -/
def is_last_chunk_of (positions_quantities cps : List (Nat × Nat)) : Bool :=
  match positions_quantities.getLast? with
  | none => true
  -- where there is a quantity there is a position
  | some latest_r_q => (cps.getLast?.map Prod.fst).any fun rate => latest_r_q.1 = rate

def view_position_book_ (opt_start_greater_than_rate : Option Nat)
    (current_positions : OrdMap PositionId P) : ViewPositionBookSponse :=
  let cps := cps_as_rate_and_quantity opt_start_greater_than_rate current_positions
  let positions_quantities := add_positions_quantities [] cps
  { positions_quantities := positions_quantities
    is_last_chunk := is_last_chunk_of positions_quantities cps }

def ViewPositionBookSponse.page (sponse : ViewPositionBookSponse) : Paging.Page (Nat × Nat) :=
  ⟨sponse.positions_quantities, sponse.is_last_chunk⟩

end

/-! ## The loop -/

section

variable {init l : List (Nat × Nat)} {latest : Nat × Nat}

theorem fits_of_group_cons (e : Nat × Nat) (h : ∀ g ∈ Groups.group (e :: l), g.2 < 2 ^ 128) :
    e.2 < 2 ^ 128 := by
  obtain ⟨v, g, heq, hle⟩ := Groups.pushFront_eq e (Groups.group l)
  have hhead := h (e.1, v) (by rw [Groups.group_cons, heq]; exact List.mem_cons_self)
  exact hle.trans_lt hhead

theorem add_positions_quantities_spec (latest : Nat × Nat) (init l : List (Nat × Nat))
    (hfit : ∀ g ∈ Groups.group (latest :: l), g.2 < 2 ^ 128)
    (hlen : init.length < MAX_POSITIONS_QUANTITIES) :
    add_positions_quantities (init ++ [latest]) l =
      init ++ (Groups.group (latest :: l)).take (MAX_POSITIONS_QUANTITIES - init.length) := by
  induction l generalizing latest init with
  | nil =>
    obtain ⟨room, hroom⟩ : ∃ room, MAX_POSITIONS_QUANTITIES - init.length = room + 1 :=
      ⟨_, (Nat.succ_pred_eq_of_pos (by omega)).symm⟩
    rw [hroom, add_positions_quantities]
    simp [Groups.group, Groups.pushFront]
  | cons e l ih =>
    obtain ⟨r, q⟩ := e
    obtain ⟨rate, quantity⟩ := latest
    rw [add_positions_quantities]
    simp only [List.getLast?_concat, List.dropLast_concat, List.length_append, List.length_singleton]
    split_ifs with hrate hfull
    · subst hrate
      rw [Groups.group_same] at hfit ⊢
      rw [Word.add_of_lt (fits_of_group_cons _ hfit)]
      exact ih _ _ hfit hlen
    · have hroom : MAX_POSITIONS_QUANTITIES - init.length = 0 + 1 := by omega
      rw [Groups.group_other hrate, hroom, List.take_succ_cons, List.take_zero]
    · obtain ⟨room, hroom⟩ : ∃ room, MAX_POSITIONS_QUANTITIES - init.length = room + 1 :=
        ⟨_, (Nat.succ_pred_eq_of_pos (by omega)).symm⟩
      have hrest : MAX_POSITIONS_QUANTITIES - (init ++ [(rate, quantity)]).length = room := by
        rw [List.length_append, List.length_singleton]
        omega
      rw [Groups.group_other hrate] at hfit ⊢
      rw [ih _ _ (fun g hg => hfit g (List.mem_cons_of_mem _ hg))
        (by rw [List.length_append, List.length_singleton]; omega), hrest, hroom, List.take_succ_cons,
        List.append_assoc, List.singleton_append]

theorem add_positions_quantities_eq (hfit : ∀ g ∈ Groups.group l, g.2 < 2 ^ 128) :
    add_positions_quantities [] l = (Groups.group l).take MAX_POSITIONS_QUANTITIES := by
  cases l with
  | nil => rfl
  | cons e l =>
    have hpos : 0 < MAX_POSITIONS_QUANTITIES := by decide
    rw [add_positions_quantities, List.getLast?_nil]
    simp only [List.length_nil]
    rw [if_neg (by omega)]
    exact add_positions_quantities_spec e [] l hfit hpos

end

/-! ## Pages of the book -/

section

variable {P : Type} [CurrentPositionTrait P] {positions : OrdMap PositionId P}

open CurrentPositionTrait

/-- What the positions of a rate have. -/
def quantityAt (positions : OrdMap PositionId P) (rate : Nat) : Nat :=
  ((positions.values.filter fun p => current_position_available_cycles_per_token_rate p = rate).map
    current_position_quantity).sum

/-- The positions by their rates. -/
def byRate (positions : OrdMap PositionId P) : List (Nat × Nat) :=
  (positions.values.map rate_and_quantity).mergeSort fun a b => a.1 ≤ b.1

theorem by_rate_perm : (byRate positions).Perm (positions.values.map rate_and_quantity) :=
  List.mergeSort_perm _ _

theorem by_rate_ordered : Groups.KeysOrdered (byRate positions) := by
  refine (List.pairwise_mergeSort ?_ ?_ _).imp fun hab => of_decide_eq_true hab
  · intro a b c hab hbc
    exact decide_eq_true ((of_decide_eq_true hab).trans (of_decide_eq_true hbc))
  · intro a b
    rw [Bool.or_eq_true, decide_eq_true_eq, decide_eq_true_eq]
    exact Nat.le_total _ _

theorem by_rate_total (rate : Nat) : Groups.total rate (byRate positions) =
    quantityAt positions rate := by
  rw [Groups.total_perm by_rate_perm, Groups.total, List.filter_map, List.map_map]
  rfl

theorem mem_by_rate {rate : Nat} : (∃ e ∈ byRate positions, e.1 = rate) ↔
    ∃ p ∈ positions.values, current_position_available_cycles_per_token_rate p = rate := by
  constructor
  · rintro ⟨e, he, rfl⟩
    obtain ⟨p, hp, rfl⟩ := List.mem_map.mp (by_rate_perm.mem_iff.mp he)
    exact ⟨p, hp, rfl⟩
  · rintro ⟨p, hp, rfl⟩
    exact ⟨_, by_rate_perm.mem_iff.mpr (List.mem_map_of_mem hp), rfl⟩

/-- The aggregated book: what a client that reads all pages is to have. -/
def aggregatedBook (positions : OrdMap PositionId P) : List (Nat × Nat) :=
  Groups.group (byRate positions)

theorem aggregatedBook_sorted : SortedBy Prod.fst (aggregatedBook positions) :=
  (Groups.group_of by_rate_ordered).sorted

theorem mem_aggregatedBook {rate quantity : Nat} :
    (rate, quantity) ∈ aggregatedBook positions ↔
      (∃ p ∈ positions.values, current_position_available_cycles_per_token_rate p = rate) ∧
        quantity = quantityAt positions rate := by
  rw [aggregatedBook, (Groups.group_of by_rate_ordered).mem, mem_by_rate, by_rate_total]

theorem cps_eq (start : Option Nat) :
    cps_as_rate_and_quantity start positions = Paging.above Prod.fst (byRate positions) start := by
  cases start with
  | none => rfl
  | some start =>
    have hordered : Groups.KeysOrdered (byRate positions) := by_rate_ordered
    change (byRate positions).drop (partition_point (byRate positions) fun d => d.1 ≤ start) =
      (byRate positions).filter fun d => start < d.1
    generalize byRate positions = cps at hordered
    induction cps with
    | nil => rfl
    | cons d cps ih =>
      obtain ⟨hle, hrest⟩ := List.pairwise_cons.mp hordered
      by_cases hd : d.1 ≤ start
      · rw [partition_point, List.takeWhile_cons_of_pos (by simpa using hd), List.length_cons,
          List.drop_succ_cons, List.filter_cons_of_neg (by simpa using hd)]
        exact ih hrest
      · rw [partition_point, List.takeWhile_cons_of_neg (by simpa using hd), List.length_nil,
          List.drop_zero, List.filter_eq_self.mpr]
        intro e he
        have hlt : start < d.1 := Nat.lt_of_not_le hd
        rcases List.mem_cons.mp he with rfl | he
        · simpa using hlt
        · simpa using hlt.trans_le (hle e he)

theorem group_cps (start : Option Nat) :
    Groups.group (cps_as_rate_and_quantity start positions) =
      Paging.above Prod.fst (aggregatedBook positions) start := by
  rw [cps_eq]
  cases start with
  | none => rfl
  | some start => exact Groups.group_filter by_rate_ordered fun rate => start < rate

theorem is_last_chunk_of_iff {n : Nat} {book cps : List (Nat × Nat)} (h : SortedBy Prod.fst book)
    (hn : 0 < n) (hcps : book.getLast?.map Prod.fst = cps.getLast?.map Prod.fst) :
    is_last_chunk_of (book.take n) cps = true ↔ book.length ≤ n := by
  unfold is_last_chunk_of
  rw [← hcps]
  rcases eq_or_ne book [] with rfl | hne
  · simp
  have hpos := List.length_pos_iff.mpr hne
  rcases Nat.lt_or_ge n book.length with hlt | hge
  · have htaken : (book.take n).getLast? = some book[n - 1] := by
      rw [List.getLast?_eq_getElem?, List.length_take, Nat.min_eq_left hlt.le,
        List.getElem?_take_of_lt (by omega), List.getElem?_eq_getElem (by omega)]
    have hlast : book.getLast? = some book[book.length - 1] := by
      rw [List.getLast?_eq_getElem?, List.getElem?_eq_getElem (by omega)]
    have hrate := h.lt (List.getElem?_eq_getElem (show n - 1 < book.length by omega))
      (List.getElem?_eq_getElem (show book.length - 1 < book.length by omega)) (by omega)
    rw [htaken, hlast]
    simp only [Option.map_some, Option.any_some, decide_eq_true_eq]
    omega
  · rw [List.take_of_length_le hge, List.getLast?_eq_getLast_of_ne_nil hne]
    simpa using hge

theorem view_position_book_ascends
    (hfit : ∀ rate, quantityAt positions rate < 2 ^ 128) :
    Paging.Ascends Prod.fst (aggregatedBook positions) MAX_POSITIONS_QUANTITIES
      fun start => (view_position_book_ start positions).page := by
  have hloop (start : Option Nat) :
      add_positions_quantities [] (cps_as_rate_and_quantity start positions) =
        (Paging.above Prod.fst (aggregatedBook positions) start).take MAX_POSITIONS_QUANTITIES := by
    rw [← group_cps]
    apply add_positions_quantities_eq
    rw [group_cps]
    rintro ⟨rate, quantity⟩ he
    rw [(mem_aggregatedBook.mp ((Paging.above_sublist start).subset he)).2]
    exact hfit rate
  constructor
  · exact hloop
  · intro start
    have hsorted : SortedBy Prod.fst (Paging.above Prod.fst (aggregatedBook positions) start) :=
      List.Pairwise.sublist ((Paging.above_sublist start).map _) aggregatedBook_sorted
    have hlast : (Paging.above Prod.fst (aggregatedBook positions) start).getLast?.map Prod.fst =
        (cps_as_rate_and_quantity start positions).getLast?.map Prod.fst := by
      rw [← group_cps, Groups.group_getLast?]
    rw [← is_last_chunk_of_iff hsorted (by decide) hlast, ← hloop]
    rfl

/-- The pages of the book are the whole aggregated book. -/
theorem book_pages_are_complete (positions : OrdMap PositionId P)
    (hfit : ∀ rate, quantityAt positions rate < 2 ^ 128) :
    let view := fun start => (view_position_book_ start positions).page
    (∃ pages, Paging.Chain view (Paging.lastKey Prod.fst) none pages) ∧
      (∀ pages, Paging.Chain view (Paging.lastKey Prod.fst) none pages →
        SortedBy Prod.fst pages.flatten ∧ ∀ rate quantity, (rate, quantity) ∈ pages.flatten ↔
          (∃ p ∈ positions.values, current_position_available_cycles_per_token_rate p = rate) ∧
            quantity = quantityAt positions rate) ∧
      ∀ start, (view_position_book_ start positions).is_last_chunk = true ↔
        ∀ p ∈ positions.values,
          (∀ r ∈ start, r < current_position_available_cycles_per_token_rate p) →
            current_position_available_cycles_per_token_rate p ∈
              (view_position_book_ start positions).positions_quantities.map Prod.fst := by
  intro view
  have hview := view_position_book_ascends hfit
  obtain ⟨all, hall, hflatten⟩ := hview.complete aggregatedBook_sorted (by decide) none
  refine ⟨⟨all, hall⟩, ?_, ?_⟩
  · intro pages hpages
    rw [hpages.unique hall, hflatten]
    exact ⟨aggregatedBook_sorted, fun rate quantity => mem_aggregatedBook⟩
  · intro start
    have habove (e : Nat × Nat) : e ∈ Paging.above Prod.fst (aggregatedBook positions) start ↔
        e ∈ aggregatedBook positions ∧ ∀ r ∈ start, r < e.1 := by
      cases start <;> simp [Paging.above]
    refine (hview.is_last_iff aggregatedBook_sorted start).trans ?_
    constructor
    · intro h p hp hstart
      have hmem := mem_aggregatedBook.mpr ⟨⟨p, hp, rfl⟩, rfl⟩
      exact List.mem_map_of_mem (h _ ((habove _).mpr ⟨hmem, hstart⟩))
    · rintro h ⟨rate, quantity⟩ he
      obtain ⟨hmem, hstart⟩ := (habove _).mp he
      obtain ⟨⟨p, hp, rfl⟩, rfl⟩ := mem_aggregatedBook.mp hmem
      obtain ⟨⟨rate, quantity⟩, hitem, hrate⟩ := List.mem_map.mp (h p hp hstart)
      -- a rate has one quantity
      have hitems : (view_position_book_ start positions).positions_quantities =
          (Paging.above Prod.fst (aggregatedBook positions) start).take MAX_POSITIONS_QUANTITIES :=
        hview.items start
      have htaken := List.mem_of_mem_take (hitems ▸ hitem)
      have hquantity := (mem_aggregatedBook.mp ((Paging.above_sublist start).subset htaken)).2
      obtain rfl : rate = _ := hrate
      rw [← hquantity]
      exact hitem

theorem quantityAt_le (positions : OrdMap PositionId P) (rate : Nat) :
    quantityAt positions rate ≤ (positions.values.map current_position_quantity).sum := by
  unfold quantityAt
  induction positions.values with
  | nil => exact Nat.le_refl _
  | cons p ps ih =>
    rw [List.filter_cons]
    split_ifs
    · simp only [List.map_cons, List.sum_cons]
      omega
    · simp only [List.map_cons, List.sum_cons]
      omega

end

theorem Pile.cheap_rate_lt : 2 < 2 ^ 128 := by decide

/-- An order of another rate. -/
def Pile.cheapOrder : TradeCyclesQuest where
  cycles := 16 * 10 ^ 20
  cycles_per_token_rate := 2
  posit_transfer_ledger_fee := some 10
  return_cycles_to_subaccount := none
  payout_tokens_to_subaccount := none
  cycles_lt := Pile.cycles_lt
  rate_lt := Pile.cheap_rate_lt

/-- Two positions of one rate and one of another. -/
def Pile.threePositions : OrdMap PositionId CyclesPosition :=
  ((OrdMap.empty.insert 0 (Pile.order.create_current_position 0 Sample.A 0)).insert 1
    (Pile.cheapOrder.create_current_position 1 Sample.A 0)).insert 2
    (Pile.order.create_current_position 2 Sample.B 0)

theorem book_pages_of_three_positions :
    ∃ pages, Paging.Chain (fun start => (view_position_book_ start Pile.threePositions).page)
        (Paging.lastKey Prod.fst) none pages ∧
      (2, 16 * 10 ^ 20) ∈ pages.flatten ∧ (3, 2 * (16 * 10 ^ 20)) ∈ pages.flatten := by
  have hfit (rate : Nat) : quantityAt Pile.threePositions rate < 2 ^ 128 :=
    (quantityAt_le _ rate).trans_lt (by decide +kernel)
  obtain ⟨⟨pages, hpages⟩, hflatten, -⟩ := book_pages_are_complete Pile.threePositions hfit
  refine ⟨pages, hpages, ?_⟩
  rw [(hflatten pages hpages).2, (hflatten pages hpages).2]
  exact ⟨⟨by decide +kernel, by decide +kernel⟩, by decide +kernel, by decide +kernel⟩

/-! ## The list of the current positions -/

def CyclesPosition.currentLog (now : Nat) (p : CyclesPosition) : PositionLog :=
  p.as_stable_memory_position_log none now

def TokenPosition.currentLog (now : Nat) (p : TokenPosition) : PositionLog :=
  p.as_stable_memory_position_log none now

def _view_current_positions (now : Nat) (q : ViewStorageLogsQuest Principal) (b : Book) :
    List PositionLog :=
  let v := newest_positions id (CyclesPosition.currentLog now) q b.cycles_positions ++
    newest_positions id (TokenPosition.currentLog now) q b.token_positions
  let v := v.mergeSort fun a b => a.id ≤ b.id
  v.drop (v.length - sponse_limit / PositionLog.STABLE_MEMORY_SERIALIZE_SIZE)

/-- The logs of the current positions that match a quest, both kinds together. -/
def allCurrentPositions (now : Nat) (q : ViewStorageLogsQuest Principal) (b : Book) :
    List PositionLog :=
  merged PositionLog.id (matchingPositions id (CyclesPosition.currentLog now) q b.cycles_positions ++
    matchingPositions id (TokenPosition.currentLog now) q b.token_positions)

/-- Whether a log matches a quest. -/
def ViewStorageLogsQuest.Matches (q : ViewStorageLogsQuest Principal) (log : PositionLog) : Prop :=
  (∀ start_before_id ∈ q.opt_start_before_id, log.id < start_before_id) ∧
    ∀ index_key ∈ q.index_key, log.positor = index_key

theorem KeyedByLog.mem_matching {V : Type} {read : V → PositionLog} {positions : OrdMap PositionId V}
    (h : KeyedByLog id read positions) (q : ViewStorageLogsQuest Principal) (log : PositionLog) :
    log ∈ matchingPositions id read q positions ↔
      (∃ v ∈ positions.values, read v = log) ∧ q.Matches log := by
  have hkey : ((q.index_key.all fun index_key => log.positor = index_key) = true) ↔
      ∀ index_key ∈ q.index_key, log.positor = index_key := by
    cases q.index_key <;> simp
  have hrange (e : PositionId × V) : e ∈ range_till positions q.opt_start_before_id ↔
      e ∈ positions.entries ∧ ∀ start_before_id ∈ q.opt_start_before_id, e.1 < start_before_id := by
    unfold range_till
    cases q.opt_start_before_id <;> simp
  unfold matchingPositions
  rw [List.mem_filter, List.mem_map]
  constructor
  · rintro ⟨⟨e, he, rfl⟩, hmatch⟩
    obtain ⟨he, hstart⟩ := (hrange e).mp he
    refine ⟨⟨e.2, List.mem_map_of_mem he, rfl⟩, ?_, hkey.mp hmatch⟩
    intro start hmem
    exact (h e he).trans_lt (hstart start hmem)
  · rintro ⟨⟨v, hv, rfl⟩, hstart, hindex⟩
    obtain ⟨e, he, rfl⟩ := List.mem_map.mp hv
    refine ⟨⟨e, (hrange e).mpr ⟨he, ?_⟩, rfl⟩, hkey.mpr hindex⟩
    intro start hmem
    exact (h e he).symm.trans_lt (hstart start hmem)

section

variable {b : Book}

theorem BookIds.cycles_keyed (h : BookIds b) (now : Nat) :
    KeyedByLog id (CyclesPosition.currentLog now) b.cycles_positions := by
  rintro ⟨k, p⟩ he
  exact h.cycles k p ((OrdMap.mem_iff_get _ k p).mp he)

theorem BookIds.token_keyed (h : BookIds b) (now : Nat) :
    KeyedByLog id (TokenPosition.currentLog now) b.token_positions := by
  rintro ⟨k, p⟩ he
  exact h.token k p ((OrdMap.mem_iff_get _ k p).mp he)

theorem BookIds.current_apart (h : BookIds b) (now : Nat) (q : ViewStorageLogsQuest Principal) :
    Apart PositionLog.id
      (matchingPositions id (CyclesPosition.currentLog now) q b.cycles_positions)
      (matchingPositions id (TokenPosition.currentLog now) q b.token_positions) := by
  apply (h.cycles_keyed now).apart (h.token_keyed now)
  intro k hc ht
  obtain ⟨c, hcycles⟩ := (OrdMap.mem_keys_iff _ k).mp hc
  obtain ⟨t, htoken⟩ := (OrdMap.mem_keys_iff _ k).mp ht
  exact h.cycles_ne_token hcycles htoken rfl

theorem view_current_positions_eq (h : BookIds b) (now : Nat) (q : ViewStorageLogsQuest Principal) :
    _view_current_positions now q b =
      newest (sponse_limit / PositionLog.STABLE_MEMORY_SERIALIZE_SIZE)
        (allCurrentPositions now q b) := by
  have hcut := (h.current_apart now q).newest_cut
    (Nat.le_refl (sponse_limit / PositionLog.STABLE_MEMORY_SERIALIZE_SIZE))
  rw [allCurrentPositions, ← hcut]
  unfold _view_current_positions
  rw [newest_positions_eq, newest_positions_eq]
  rfl

theorem mem_allCurrentPositions (h : BookIds b) (now : Nat) (q : ViewStorageLogsQuest Principal)
    (log : PositionLog) : log ∈ allCurrentPositions now q b ↔
      ((∃ p ∈ b.cycles_positions.values, p.currentLog now = log) ∨
        ∃ p ∈ b.token_positions.values, p.currentLog now = log) ∧ q.Matches log := by
  rw [allCurrentPositions, mem_merged, List.mem_append, (h.cycles_keyed now).mem_matching,
    (h.token_keyed now).mem_matching, or_and_right]

end

/-- A page of the current positions is the newest of all that match. -/
theorem current_pages_have_no_gaps {cfg : TcConfig} {s : TcState} (r : TcReachable cfg s) (now : Nat)
    (q : ViewStorageLogsQuest Principal) :
    let all := allCurrentPositions now q s.cm_data.toBook
    SortedBy PositionLog.id all ∧
      (∀ log, log ∈ all ↔
        ((∃ p ∈ s.cm_data.cycles_positions.values, p.currentLog now = log) ∨
          ∃ p ∈ s.cm_data.token_positions.values, p.currentLog now = log) ∧ q.Matches log) ∧
      _view_current_positions now q s.cm_data.toBook =
        newest ((1 * 1024 * 1024 + 512 * 1024) / PositionLog.STABLE_MEMORY_SERIALIZE_SIZE) all := by
  intro all
  have hb : BookIds s.cm_data.toBook := (market_inv r False.elim).book
  refine ⟨(hb.current_apart now q).merged_sorted, ?_, view_current_positions_eq hb now q⟩
  intro log
  exact mem_allCurrentPositions hb now q log

theorem current_page_of_busy_book :
    (Sample.busy.cm_data.cycles_positions.keys = [1, 9] ∧
        Sample.busy.cm_data.token_positions.keys = [10, 11]) ∧
      (_view_current_positions 15 .all Sample.busy.cm_data.toBook).length = 4 ∧
      _view_current_positions 15 .all Sample.busy.cm_data.toBook =
        newest ((1 * 1024 * 1024 + 512 * 1024) / PositionLog.STABLE_MEMORY_SERIALIZE_SIZE)
          (allCurrentPositions 15 .all Sample.busy.cm_data.toBook) := by
  have hkeys : Sample.busy.cm_data.cycles_positions.keys = [1, 9] ∧
      Sample.busy.cm_data.token_positions.keys = [10, 11] := by
    decide +kernel
  have hcycles := congrArg List.length hkeys.1
  have htoken := congrArg List.length hkeys.2
  rw [OrdMap.keys, List.length_map] at hcycles htoken
  obtain ⟨-, -, heq⟩ := current_pages_have_no_gaps Sample.busy_reachable 15 .all
  refine ⟨hkeys, ?_, heq⟩
  rw [heq, newest_length, allCurrentPositions, (merged_perm _ _).length_eq, List.length_append,
    matching_everything, matching_everything, List.length_map, List.length_map, hcycles, htoken]
  decide

end Cts.Tc
