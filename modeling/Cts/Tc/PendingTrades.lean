import Cts.Tc.Exits
import Cts.Tc.TradesRead

/-!
# Every trade of a position can be seen

`view_position_pending_trades` shows what the contract has not moved to the storage, so a client
that knows the id of a position sees all its trades.
-/

namespace Cts.Tc

open Lib Lib.IndexedLog Lib.Paging Lib.Sources

/-! ## The view -/

/-- The bytes of a log, and a byte more for each payout. -/
def pending_trade_bytes (tl : TradeLog) : List Byte :=
  tl.stable_memory_serialize ++
    [bool_as_u8 tl.cycles_payout_data.isSome, bool_as_u8 tl.token_payout_data.isSome]

/-- Where the logs before the start id end. -/
def pending_till_i (trade_logs : List TradeLogAndTemporaryData) : Option Nat → Nat
  | none => trade_logs.length
  | some start_before_id => searchPoint trade_logs start_before_id tl_id

def position_pending_trades (q : ViewStorageLogsQuest PositionId)
    (trade_logs : List TradeLogAndTemporaryData) : List TradeLog :=
  let till_i := pending_till_i trade_logs q.opt_start_before_id
  let iter := (trade_logs.take till_i).map TradeLogAndTemporaryData.log
  let iter := match q.index_key with
    | none => iter
    | some index_key => iter.filter fun tl =>
      tl.position_id_matchee = index_key || tl.position_id_matcher = index_key
  (iter.reverse.take (sponse_limit / TradeLog.STABLE_MEMORY_SERIALIZE_SIZE + 2)).reverse

def view_position_pending_trades (q : ViewStorageLogsQuest PositionId)
    (trade_logs : List TradeLogAndTemporaryData) : List Byte :=
  ((position_pending_trades q trade_logs).map pending_trade_bytes).flatten

/-! ## The client -/

def PENDING_TRADE_SIZE : Nat := TradeLog.STABLE_MEMORY_SERIALIZE_SIZE + 2

/-- The trades of a reply. -/
def readPendingTrades (trade_logs : List TradeLogAndTemporaryData) (id : PositionId)
    (start : Option Nat) : List (List Byte) :=
  Records.records PENDING_TRADE_SIZE
    (view_position_pending_trades { opt_start_before_id := start, index_key := some id } trade_logs)

/-- Page after page, until an empty one. -/
abbrev ReadsPending (trade_logs : List TradeLogAndTemporaryData) (id : PositionId) :
    List (List (List Byte)) → Prop :=
  Paging.Chain (fun start => pageOf (some (readPendingTrades trade_logs id start)))
    (firstKey TradeLog.storage.log_id_of_the_log_serialization) none

/-! ## A page -/

section

variable {trade_logs : List TradeLogAndTemporaryData} {start : Option Nat} {id : PositionId}

theorem take_pending_till_i (hs : SortedBy tl_id trade_logs) :
    trade_logs.take (pending_till_i trade_logs start) = under tl_id trade_logs start := by
  cases start with
  | none => exact List.take_length
  | some start_before_id => exact hs.take_searchPoint start_before_id

theorem position_pending_trades_eq (hs : SortedBy tl_id trade_logs) :
    position_pending_trades { opt_start_before_id := start, index_key := some id } trade_logs =
      newest (sponse_limit / TradeLog.STABLE_MEMORY_SERIALIZE_SIZE + 2)
        (under TradeLog.id (tradesOf (trade_logs.map TradeLogAndTemporaryData.log) id) start) := by
  have hnames : (fun tl : TradeLog => decide (tl.position_id_matchee = id) ||
      decide (tl.position_id_matcher = id)) = fun tl => tl.names id := by
    funext tl
    exact Bool.or_comm _ _
  have hlogs : (under tl_id trade_logs start).map TradeLogAndTemporaryData.log =
      under TradeLog.id (trade_logs.map TradeLogAndTemporaryData.log) start :=
    (under_map (fun _ _ => rfl) start).symm
  unfold position_pending_trades
  simp only [List.take_reverse, List.reverse_reverse, take_pending_till_i hs, hnames]
  rw [hlogs, tradesOf, under_filter]
  rfl

theorem pending_sized (tls : List TradeLog) :
    Records.Sized PENDING_TRADE_SIZE (tls.map pending_trade_bytes) := by
  rintro _ hlog
  obtain ⟨tl, -, rfl⟩ := List.mem_map.mp hlog
  rw [pending_trade_bytes, List.length_append, tl.stable_memory_serialize_length]
  rfl

theorem readPendingTrades_eq (hs : SortedBy tl_id trade_logs) :
    readPendingTrades trade_logs id start =
      (newest (sponse_limit / TradeLog.STABLE_MEMORY_SERIALIZE_SIZE + 2)
        (under TradeLog.id (tradesOf (trade_logs.map TradeLogAndTemporaryData.log) id) start)).map
          pending_trade_bytes := by
  unfold readPendingTrades view_position_pending_trades
  rw [(pending_sized _).records (by decide), position_pending_trades_eq hs]

theorem id_of_pending_trade {tl : TradeLog} (h : tl.id < 2 ^ 128) :
    TradeLog.storage.log_id_of_the_log_serialization (pending_trade_bytes tl) = tl.id := by
  have hslice : slice 18 16 (pending_trade_bytes tl) = slice 18 16 tl.stable_memory_serialize := by
    apply slice_append
    rw [tl.stable_memory_serialize_length]
    decide
  rw [← TradeLog.log_id_of_serialization h]
  unfold TradeLog.storage
  simp only [hslice]

theorem reads_pending (hs : SortedBy tl_id trade_logs)
    (hids : ∀ tl ∈ trade_logs, tl.log.id < 2 ^ 128) (id : PositionId) :
    ∃ pages, ReadsPending trade_logs id pages ∧
      pages.reverse.flatten =
        (tradesOf (trade_logs.map TradeLogAndTemporaryData.log) id).map pending_trade_bytes := by
  have hlog : ∀ tl ∈ tradesOf (trade_logs.map TradeLogAndTemporaryData.log) id,
      TradeLog.storage.log_id_of_the_log_serialization (pending_trade_bytes tl) = tl.id := by
    intro tl htl
    obtain ⟨l, hl, rfl⟩ := List.mem_map.mp (List.mem_of_mem_filter htl)
    exact id_of_pending_trade (hids l hl)
  have hsorted : SortedBy TradeLog.storage.log_id_of_the_log_serialization
      ((tradesOf (trade_logs.map TradeLogAndTemporaryData.log) id).map pending_trade_bytes) := by
    have hqueue : SortedBy TradeLog.id (trade_logs.map TradeLogAndTemporaryData.log) := by
      unfold SortedBy at hs ⊢
      rw [List.map_map]
      exact hs
    have hkeys : ((tradesOf (trade_logs.map TradeLogAndTemporaryData.log) id).map
        pending_trade_bytes).map TradeLog.storage.log_id_of_the_log_serialization =
          (tradesOf (trade_logs.map TradeLogAndTemporaryData.log) id).map TradeLog.id := by
      rw [List.map_map]
      exact List.map_congr_left hlog
    unfold SortedBy
    rw [hkeys]
    exact List.Pairwise.sublist (List.filter_sublist.map _) hqueue
  refine pages_complete hsorted (fun start _ => ⟨_, rfl, ?_, ?_⟩) fun k hk => ?_
  · rw [readPendingTrades_eq hs, under_map hlog]
    exact (List.drop_suffix _ _).map _
  · rw [readPendingTrades_eq hs, under_map hlog, List.map_eq_nil_iff, List.map_eq_nil_iff]
    exact (newest_eq_nil_iff (by decide)).mp
  · cases hk

end

/-! ## All the trades -/

section

variable {cfg : TcConfig} {s s' : TcState}

theorem deals_grow (r : TcReachable cfg s) (h : TcStep cfg s s') :
    s.history.deals <+: s'.history.deals := by
  have hm : Market False s := market_inv r False.elim
  rcases market_move hm h with ⟨now, instruction_counter, hcalls, hq, rfl⟩ | ⟨-, rfl⟩ | ⟨hf, -, -⟩ |
    ⟨hq⟩
  · exact List.prefix_append _ _
  · exact List.prefix_rfl
  · rw [hf.deals]
  · rw [hq.deals]

theorem history_grows (r : TcReachable cfg s) (later : Runs (TcStep cfg) s s') :
    s.history.moved <+: s'.history.moved ∧ s.history.deals <+: s'.history.deals := by
  induction later with
  | start heq =>
    subst heq
    exact ⟨List.prefix_rfl, List.prefix_rfl⟩
  | next later hstep ih =>
    exact ⟨ih.1.trans (moved_grows hstep), ih.2.trans (deals_grow (r.trans later) hstep)⟩

theorem Market.counter_eq (hm : Market False s) :
    s.cm_data.trade_logs_id_counter = s.history.deals.length := by
  have hids := congrArg List.length hm.log_ids
  have hdeals := congrArg List.length hm.deals
  rw [List.length_map, List.length_range] at hids
  rw [List.length_map, List.length_map] at hdeals
  exact hids.symm.trans hdeals

/-- The deals of a position, in their order and as they were made. -/
def TcState.dealsWith (s : TcState) (id : PositionId) : List TradeLogAndTemporaryData :=
  (s.history.deals.filter fun d => d.log.log.names id).map fun d => d.log.core

/-- The logs of a position in a list. -/
abbrev logsWith (logs : List TradeLogAndTemporaryData) (id : PositionId) :
    List TradeLogAndTemporaryData :=
  logs.filter fun tl => tl.log.names id

/-- What happens to a log after its deal are its payouts. -/
theorem logs_with_deals (hm : Market False s) (id : PositionId) :
    (logsWith s.history.moved id ++ logsWith s.cm_data.trade_logs id).map
      TradeLogAndTemporaryData.core = s.dealsWith id := by
  calc
    (logsWith s.history.moved id ++ logsWith s.cm_data.trade_logs id).map
        TradeLogAndTemporaryData.core
    _ = (s.logs.map TradeLogAndTemporaryData.core).filter fun tl => tl.log.names id := by
      rw [← List.filter_append, List.filter_map]
      rfl
    _ = (s.history.deals.map fun d => d.log.core).filter fun tl => tl.log.names id := by
      rw [hm.deals]
    _ = s.dealsWith id := by
      rw [List.filter_map]
      rfl

/-- What a client sees that reads the queue in one state and the storage in a later one. -/
structure Seen (s s' : TcState) (id : PositionId) (waiting ended : List TradeLogAndTemporaryData) :
    Prop where
  queued : waiting.map TradeLogAndTemporaryData.core <:+ s.dealsWith id
  stored : ended.map TradeLogAndTemporaryData.core <+: s'.dealsWith id
  settled : ∀ tl ∈ ended, tl.can_move_into_the_stable_memory_for_the_long_term_storage = true
  all : ∀ tl ∈ s.dealsWith id, tl ∈ ended.map TradeLogAndTemporaryData.core ∨
    tl ∈ waiting.map TradeLogAndTemporaryData.core
  once : s' = s → (ended ++ waiting).map TradeLogAndTemporaryData.core = s.dealsWith id

theorem seen (r : TcReachable cfg s) (later : Runs (TcStep cfg) s s') (id : PositionId) :
    Seen s s' id (logsWith s.cm_data.trade_logs id) (logsWith s'.history.moved id) := by
  have hm : Market False s := market_inv r False.elim
  have hm' : Market False s' := market_inv (r.trans later) False.elim
  have hdeals := logs_with_deals hm id
  have hdeals' := logs_with_deals hm' id
  rw [List.map_append] at hdeals hdeals'
  constructor
  · rw [← hdeals]
    exact List.suffix_append _ _
  · rw [← hdeals']
    exact List.prefix_append _ _
  · intro tl htl
    exact (moved_inv (r.trans later)).settled tl (List.mem_of_mem_filter htl)
  · intro tl htl
    rw [← hdeals] at htl
    rcases List.mem_append.mp htl with hmoved | hqueue
    · left
      exact (((history_grows r later).1.filter _).map _).subset hmoved
    · exact Or.inr hqueue
  · rintro rfl
    rw [List.map_append]
    exact hdeals

/-- A client first reads the pending trades of a position to the end and then, in the same state or in
a later one, its trades in the storage. It misses none of the trades that the position had at first and
makes none up. Those in the storage are paid out. In one state it sees each trade once. -/
theorem every_trade_of_a_position_can_be_seen (cfg : TcConfig) (s s' : TcState)
    (r : TcReachable cfg s) (later : Runs (TcStep cfg) s s')
    (hpositions : s'.cm_data.positions_id_counter ≤ 2 ^ 128)
    (htrades : s'.cm_data.trade_logs_id_counter ≤ 2 ^ 128)
    (hroom : s'.trades_storage.data.storage_buffer.length < 2 ^ 32) (id : PositionId)
    (max_logs chunk_size : Nat) (hmax : 1 ≤ max_logs) (hchunk : 1 ≤ chunk_size) :
    (∃ pending, ReadsPending s.cm_data.trade_logs id pending) ∧
      (∃ stored, s'.trades_storage.ReadsAll TradeLog.storage id max_logs chunk_size stored) ∧
      ∀ pending stored, ReadsPending s.cm_data.trade_logs id pending →
        s'.trades_storage.ReadsAll TradeLog.storage id max_logs chunk_size stored →
        ∃ waiting ended, Seen s s' id waiting ended ∧
          pending.reverse.flatten = waiting.map (fun tl => pending_trade_bytes tl.log) ∧
          stored.reverse.flatten = ended.map tradeLogBytes := by
  have hm : Market False s := market_inv r False.elim
  have hm' : Market False s' := market_inv (r.trans later) False.elim
  have hids : ∀ tl ∈ s.cm_data.trade_logs, tl.log.id < 2 ^ 128 := by
    intro tl htl
    have hmem : tl_id tl ∈ s.logs.map tl_id :=
      List.mem_map_of_mem (List.mem_append_right s.history.moved htl)
    rw [hm.log_ids, List.mem_range, hm.counter_eq] at hmem
    have hle := (history_grows r later).2.length_le
    rw [← hm'.counter_eq] at hle
    exact hmem.trans_le (hle.trans htrades)
  have hlogs (logs : List TradeLogAndTemporaryData) :
      tradesOf (logs.map TradeLogAndTemporaryData.log) id =
        (logsWith logs id).map TradeLogAndTemporaryData.log := List.filter_map
  obtain ⟨pending, hpending, hqueue⟩ := reads_pending hm.sorted hids id
  obtain ⟨stored, hstored, hmoved⟩ :=
    reads_moved (r.trans later) hpositions htrades hroom id hmax hchunk
  rw [hlogs, List.map_map] at hqueue hmoved
  refine ⟨⟨pending, hpending⟩, ⟨stored, hstored⟩, fun pending' stored' hpending' hstored' => ?_⟩
  refine ⟨_, _, seen r later id, ?_, ?_⟩
  · rw [hpending'.unique hpending]
    exact hqueue
  · rw [hstored'.unique hstored]
    exact hmoved

end

namespace Sample

theorem final_after_opened : Runs (TcStep config) opened final := by
  obtain ⟨s, hs⟩ : ∃ s, payouts.foldlM (TcState.play config) opened = some s :=
    ⟨_, end_of_script (by decide +kernel)⟩
  have hfinal : final = s := by
    unfold final
    rw [List.foldlM_append, opened_eq, Option.bind_eq_bind, Option.bind_some, hs, Option.getD_some]
  rw [hfinal]
  exact script_runs hs

end Sample

theorem trade_of_short_run_can_be_seen :
    Sample.opened.cm_data.trade_logs.length = 1 ∧ Sample.final.history.moved.length = 1 ∧
      ∃ pending stored waiting ended, ReadsPending Sample.opened.cm_data.trade_logs 0 pending ∧
        Sample.final.trades_storage.ReadsAll TradeLog.storage 0 1 1 stored ∧
        Seen Sample.opened Sample.final 0 waiting ended ∧
        pending.reverse.flatten = waiting.map (fun tl => pending_trade_bytes tl.log) ∧
        stored.reverse.flatten = ended.map tradeLogBytes := by
  obtain ⟨⟨pending, hpending⟩, ⟨stored, hstored⟩, hseen⟩ :=
    every_trade_of_a_position_can_be_seen Sample.config _ _ Sample.opened_reachable
      Sample.final_after_opened (by decide +kernel) (by decide +kernel) (by decide +kernel) 0 1 1
      (by decide) (by decide)
  obtain ⟨waiting, ended, h⟩ := hseen pending stored hpending hstored
  exact ⟨by decide +kernel, by decide +kernel, pending, stored, waiting, ended, hpending, hstored, h⟩

end Cts.Tc
