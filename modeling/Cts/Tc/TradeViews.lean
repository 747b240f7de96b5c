import Cts.Lib.Paging
import Cts.Tc.LatestTrades
import Cts.Tc.Paid
import Cts.Tc.Pipeline
import Cts.Tc.StorageViews

/-!
# The latest trades of the contract

`view_latest_trades` of `lib.rs`. The newest trades are in the queue and the ones before them in the
buffer of the trades storage. The view reads the queue first, and fills its page up from the buffer.
-/

namespace Cts.Tc

open Lib Lib.IndexedLog

/-! ## The view -/

/-- A log in the queue. -/
def latest_trades_item (tl : TradeLog) : LatestTradesDataItem :=
  (tl.id, tl.tokens, tl.cycles_per_token_rate, Word.wrap 64 tl.timestamp_nanos)

/-- A log in the buffer. -/
def buffered_trades_item (s : List Byte) : Option LatestTradesDataItem := do
  let tokens ← tokens_quantity_of_the_log_serialization s
  let rate ← rate_of_the_log_serialization s
  let timestamp_nanos ← timestamp_nanos_of_the_log_serialization s
  return (TradeLog.storage.log_id_of_the_log_serialization s, tokens, rate,
    Word.wrap 64 timestamp_nanos)

/-- The newest chunk of the queue. -/
def queued_trades_data (trade_logs : List TradeLogAndTemporaryData)
    (opt_start_before_id : Option Nat) : List LatestTradesDataItem :=
  let tls := match opt_start_before_id with
    | none => trade_logs
    | some start_before_id => trade_logs.take (searchPoint trade_logs start_before_id tl_id)
  (((rchunks MAX_LATEST_TRADE_LOGS_SPONSE_TRADE_DATA tls).head?.getD []).map fun tl =>
    latest_trades_item tl.log)

/-- The page, filled up from the buffer. -/
def joined_trades_data (trade_logs : List TradeLogAndTemporaryData) (storage_buffer : List Byte)
    (opt_start_before_id : Option Nat) : Option (List LatestTradesDataItem) :=
  let trades_data := queued_trades_data trade_logs opt_start_before_id
  if trades_data.length < MAX_LATEST_TRADE_LOGS_SPONSE_TRADE_DATA then do
    let logs ← view_storage_logs_ TradeLog.storage
      { opt_start_before_id := opt_start_before_id, index_key := none } storage_buffer
      (MAX_LATEST_TRADE_LOGS_SPONSE_TRADE_DATA - trades_data.length)
    match logs with
    | none => return trades_data
    | some logs =>
      let v ← logs.mapM buffered_trades_item
      return v ++ trades_data
  else return trades_data

def first_log_id_on_this_canister (trade_logs : List TradeLogAndTemporaryData)
    (storage_buffer : List Byte) : Option Nat :=
  if TradeLog.STABLE_MEMORY_SERIALIZE_SIZE ≤ storage_buffer.length then
    some (TradeLog.storage.log_id_of_the_log_serialization
      (storage_buffer.take TradeLog.STABLE_MEMORY_SERIALIZE_SIZE))
  else trade_logs.head?.map tl_id

/-- The flag. A page with a trade on a canister without one would trap. -/
def is_last_chunk_on_this_canister (trades_data : List LatestTradesDataItem)
    (first_log_id : Option Nat) : Option Bool :=
  match trades_data.head? with
  | none => some true
  | some first => first_log_id.map fun id => first.1 = id

def view_latest_trades (trade_logs : List TradeLogAndTemporaryData) (storage_buffer : List Byte)
    (opt_start_before_id : Option Nat) : Option ViewLatestTradesSponse := do
  let trades_data ← joined_trades_data trade_logs storage_buffer opt_start_before_id
  let is_last_chunk ← is_last_chunk_on_this_canister trades_data
    (first_log_id_on_this_canister trade_logs storage_buffer)
  return { trades_data := trades_data, is_last_chunk_on_this_canister := is_last_chunk }

/-! ## The trades on the canister -/

/-- The logs of the buffer, oldest first, and then those of the queue. -/
structure OnCanister (s : TcState) (all : List TradeLog) : Prop where
  stores : ∃ buffered, all = buffered ++ s.cm_data.trade_logs.map TradeLogAndTemporaryData.log ∧
    s.trades_storage.data.storage_buffer = (buffered.map TradeLog.stable_memory_serialize).flatten
  ids : ∃ first, all.map TradeLog.id = List.range' first all.length ∧
    first + all.length = s.cm_data.trade_logs_id_counter
  logs : ∀ tl ∈ all, ∃ l ∈ s.logs, l.log = tl

section

variable {cfg : TcConfig} {s : TcState} {all : List TradeLog}

theorem on_canister (r : TcReachable cfg s) : ∃ all, OnCanister s all := by
  have hm : Market False s := market_inv r False.elim
  have hstored := (moved_inv r).stored
  obtain ⟨kept, hchain, heq⟩ := hstored.data.chain
  have hlen := hchain.length
  have hids := hm.log_ids
  have hle : total s.trades_storage.data.storage_canisters ≤ s.history.moved.length := by
    have hbytes := congrArg List.length heq
    rw [List.length_append, hlen, hstored.data.sized.flatten_length, List.length_map] at hbytes
    exact Nat.le_of_mul_le_mul_right (Nat.le_of_add_right_le hbytes.le) (by decide)
  obtain ⟨-, hbuffer⟩ := hstored.data.sized.split_prefix heq hlen (by rwa [List.length_map])
  generalize total s.trades_storage.data.storage_canisters = k at hle hbuffer
  refine ⟨((s.history.moved.drop k) ++ s.cm_data.trade_logs).map TradeLogAndTemporaryData.log,
    ?_, ?_, ?_⟩
  · refine ⟨(s.history.moved.drop k).map TradeLogAndTemporaryData.log, List.map_append, ?_⟩
    rw [hbuffer, ← List.map_drop, List.map_map]
    rfl
  · have hall : s.logs.drop k = s.history.moved.drop k ++ s.cm_data.trade_logs :=
      List.drop_append_of_le_length hle
    have hcount : s.logs.length = s.cm_data.trade_logs_id_counter := by
      have hlength := congrArg List.length hids
      rwa [List.length_map, List.length_range] at hlength
    have hk : k ≤ s.logs.length := by
      rw [TcState.logs, List.length_append]
      omega
    refine ⟨k, ?_, ?_⟩
    · rw [← hall, List.map_map, List.length_map]
      change (s.logs.drop k).map tl_id = _
      rw [List.map_drop, hids, List.range_eq_range', List.drop_range', List.length_drop, hcount]
      simp
    · rw [← hall, List.length_map, List.length_drop]
      omega
  · intro tl htl
    obtain ⟨l, hl, rfl⟩ := List.mem_map.mp htl
    refine ⟨l, ?_, rfl⟩
    rcases List.mem_append.mp hl with hl | hl
    · exact List.mem_append_left _ (List.mem_of_mem_drop hl)
    · exact List.mem_append_right _ hl

theorem OnCanister.sorted (h : OnCanister s all) : SortedBy TradeLog.id all := by
  obtain ⟨first, hids, -⟩ := h.ids
  rw [SortedBy, hids]
  exact List.pairwise_lt_range'

theorem Market.log_lt (hm : Market False s) {tl : TradeLogAndTemporaryData} (htl : tl ∈ s.logs) :
    tl.log.tokens < 2 ^ 128 ∧ tl.log.cycles_per_token_rate < 2 ^ 128 := by
  obtain ⟨d, hd, hcore⟩ := hm.deal_of_log htl
  have hok := hm.deals_ok d hd
  have htokens : tl.log.tokens = d.log.log.tokens := congrArg (fun l => l.log.tokens) hcore
  have hrate : tl.log.cycles_per_token_rate = d.log.log.cycles_per_token_rate :=
    congrArg (fun l => l.log.cycles_per_token_rate) hcore
  have hspent := hok.tokens_spent
  have hcurrent := d.token_position.current_le
  have hquest := d.token_position.quest.tokens_lt
  have hle := hok.midpoint.le_hi
  have hcycles := d.cycles_position.quest.rate_lt
  rw [htokens, hrate]
  constructor <;> omega

end

/-! ## Each store -/

/-- What a trade looks like to a client. -/
def TradeLog.item (tl : TradeLog) : LatestTradesDataItem :=
  (tl.id, tl.tokens, tl.cycles_per_token_rate, tl.timestamp_nanos)

/-- The numbers that a client sees fit their types. -/
structure TradeLog.ItemFits (tl : TradeLog) : Prop where
  id : tl.id < 2 ^ 128
  tokens : tl.tokens < 2 ^ 128
  rate : tl.cycles_per_token_rate < 2 ^ 128
  timestamp_nanos : tl.timestamp_nanos < 2 ^ 64

theorem latest_trades_item_eq {tl : TradeLog} (h : tl.ItemFits) : latest_trades_item tl = tl.item := by
  unfold latest_trades_item TradeLog.item
  rw [Word.wrap_of_lt h.timestamp_nanos]

theorem buffered_trades_item_eq {tl : TradeLog} (h : tl.ItemFits) :
    buffered_trades_item tl.stable_memory_serialize = some tl.item := by
  have hid := TradeLog.log_id_of_serialization h.id
  have htokens : tokens_quantity_of_the_log_serialization tl.stable_memory_serialize =
      some tl.tokens := TradeLog.read_u128_field (i := 5) rfl rfl (by decide) h.tokens
  have hrate : rate_of_the_log_serialization tl.stable_memory_serialize =
      some tl.cycles_per_token_rate := TradeLog.read_u128_field (i := 7) rfl rfl (by decide) h.rate
  have htime : timestamp_nanos_of_the_log_serialization tl.stable_memory_serialize =
      some tl.timestamp_nanos :=
    TradeLog.read_u128_field (i := 9) rfl rfl (by decide) (h.timestamp_nanos.trans (by decide))
  unfold buffered_trades_item
  simp only [hid, htokens, hrate, htime, Option.bind_eq_bind, Option.bind_some,
    Word.wrap_of_lt h.timestamp_nanos]
  rfl

theorem mapM_buffered {tls : List TradeLog} (h : ∀ tl ∈ tls, tl.ItemFits) :
    (tls.map TradeLog.stable_memory_serialize).mapM buffered_trades_item =
      some (tls.map TradeLog.item) := by
  induction tls with
  | nil => rfl
  | cons tl tls ih =>
    rw [List.map_cons, List.mapM_cons, buffered_trades_item_eq (h tl List.mem_cons_self),
      ih fun t ht => h t (List.mem_cons_of_mem _ ht)]
    rfl

theorem max_trades_pos : 0 < MAX_LATEST_TRADE_LOGS_SPONSE_TRADE_DATA := by decide

theorem queued_trades_data_eq {trade_logs : List TradeLogAndTemporaryData}
    (hs : SortedBy tl_id trade_logs) (hfit : ∀ tl ∈ trade_logs, tl.log.ItemFits) (start : Option Nat) :
    queued_trades_data trade_logs start = (newest MAX_LATEST_TRADE_LOGS_SPONSE_TRADE_DATA
      (Paging.under tl_id trade_logs start)).map fun tl => tl.log.item := by
  have hcut : (match start with
      | none => trade_logs
      | some start_before_id => trade_logs.take (searchPoint trade_logs start_before_id tl_id)) =
        Paging.under tl_id trade_logs start := by
    cases start with
    | none => rfl
    | some start => exact hs.take_searchPoint start
  have hchunk : (rchunks MAX_LATEST_TRADE_LOGS_SPONSE_TRADE_DATA
      (Paging.under tl_id trade_logs start)).head?.getD [] =
        newest MAX_LATEST_TRADE_LOGS_SPONSE_TRADE_DATA (Paging.under tl_id trade_logs start) := by
    rcases eq_or_ne (Paging.under tl_id trade_logs start) [] with hnil | hne
    · rw [hnil, rchunks_nil max_trades_pos, newest_of_length_le (Nat.zero_le _)]
      rfl
    · obtain ⟨chunks, hchunks, -⟩ := rchunks_eq max_trades_pos hne
      rw [hchunks, List.head?_cons, Option.getD_some]
  unfold queued_trades_data
  simp only [hcut, hchunk]
  apply List.map_congr_left
  intro tl htl
  exact latest_trades_item_eq
    (hfit tl ((Paging.under_sublist start).subset (List.mem_of_mem_drop htl)))

section

/-- What the buffer of the trades storage holds. -/
abbrev bufferStore (first : Nat) (buffered : List TradeLog) : Store (List Byte) :=
  { first := first, logs := buffered.map TradeLog.stable_memory_serialize }

variable {buffered : List TradeLog} {first : Nat}

theorem serialized_sized (buffered : List TradeLog) :
    Records.Sized TradeLog.STABLE_MEMORY_SERIALIZE_SIZE
      (buffered.map TradeLog.stable_memory_serialize) := by
  rintro log_b hlog
  obtain ⟨log, -, rfl⟩ := List.mem_map.mp hlog
  exact log.stable_memory_serialize_length

theorem WholeLogs.of_trades (hids : buffered.map TradeLog.id = List.range' first buffered.length)
    (hfit : ∀ tl ∈ buffered, tl.id < 2 ^ 128)
    (hroom : buffered.length * TradeLog.STABLE_MEMORY_SERIALIZE_SIZE < 2 ^ 32) :
    WholeLogs TradeLog.storage (bufferStore first buffered)
      (buffered.map TradeLog.stable_memory_serialize).flatten := by
  constructor
  · rfl
  · exact serialized_sized buffered
  · apply batch_ids
    rw [List.map_map, List.length_map, ← hids]
    apply List.map_congr_left
    intro log hlog
    exact TradeLog.log_id_of_serialization (hfit log hlog)
  · intro log_b _
    rfl
  · rw [(serialized_sized buffered).flatten_length, List.length_map]
    exact hroom

theorem StartReaches.of_le {start : Option Nat} {queued : Nat}
    (hstart : ∀ start_before_id ∈ start, start_before_id ≤ first + (buffered.length + queued))
    (hroom : (buffered.length + queued) * TradeLog.STABLE_MEMORY_SERIALIZE_SIZE < 2 ^ 32) :
    StartReaches TradeLog.storage (bufferStore first buffered) start := by
  intro start_before_id hmem hlt
  have hle := hstart start_before_id hmem
  unfold Store.next at hlt
  rw [List.length_map] at hlt ⊢
  simp only at hlt ⊢
  have hoffset : start_before_id - first ≤ buffered.length + queued := by omega
  have hmul := (Nat.mul_le_mul_right TradeLog.STABLE_MEMORY_SERIALIZE_SIZE hoffset).trans_lt hroom
  have hpos : start_before_id - first ≤
      (start_before_id - first) * TradeLog.STABLE_MEMORY_SERIALIZE_SIZE :=
    Nat.le_mul_of_pos_right _ (by decide)
  rw [Word.wrap_of_lt (hpos.trans_lt hmul)]
  have hexact : Word.mul 32 (start_before_id - first) TradeLog.STABLE_MEMORY_SERIALIZE_SIZE = _ :=
    Word.mul_of_lt hmul
  exact (Nat.mul_le_mul_right _ (by omega)).trans_eq hexact.symm

theorem head_of_ids (hids : buffered.map TradeLog.id = List.range' first buffered.length) :
    ∀ tl ∈ buffered.head?, tl.id = first := by
  intro tl htl
  cases buffered with
  | nil => cases htl
  | cons oldest buffered =>
    obtain rfl := Option.some.inj htl
    rw [List.map_cons, List.length_cons, List.range'_succ] at hids
    exact (List.cons.inj hids).1

theorem buffered_ids {queue : List TradeLog}
    (hids : (buffered ++ queue).map TradeLog.id = List.range' first (buffered ++ queue).length) :
    buffered.map TradeLog.id = List.range' first buffered.length := by
  rw [List.map_append, List.length_append, ← List.range'_append_1] at hids
  refine (List.append_inj hids ?_).1
  rw [List.length_map, List.length_range']

theorem under_buffered (hids : buffered.map TradeLog.id = List.range' first buffered.length)
    (start : Option Nat) : Paging.under TradeLog.id buffered start = buffered.take
      (Store.countBelow (bufferStore first buffered) start) := by
  have hget {i : Nat} {tl : TradeLog} (hi : buffered[i]? = some tl) :
      tl.id = first + i ∧ i < buffered.length := by
    have hlt := (List.getElem?_eq_some_iff.mp hi).1
    have hmap := congrArg (fun l : List Nat => l[i]?) hids
    simp only [List.getElem?_map, hi, Option.map_some, List.getElem?_range' hlt, Nat.one_mul] at hmap
    exact ⟨Option.some.inj hmap, hlt⟩
  cases start with
  | none =>
    unfold Store.countBelow
    rw [List.length_map, List.take_length]
    rfl
  | some start =>
    symm
    simp only [Store.countBelow, List.length_map]
    apply take_eq_filter
    · intro i tl hi htl
      obtain ⟨hid, hlt⟩ := hget htl
      rw [decide_eq_true_eq, hid]
      omega
    · intro i tl hi htl
      obtain ⟨hid, hlt⟩ := hget htl
      rw [decide_eq_true_eq, hid]
      omega

theorem buffered_trades_data (hids : buffered.map TradeLog.id = List.range' first buffered.length)
    (hfit : ∀ tl ∈ buffered, tl.ItemFits) {start : Option Nat} {max_logs : Nat} (hmax : 1 ≤ max_logs)
    (hwhole : WholeLogs TradeLog.storage (bufferStore first buffered)
      (buffered.map TradeLog.stable_memory_serialize).flatten)
    (hreach : StartReaches TradeLog.storage (bufferStore first buffered) start) :
    ∃ logs, view_storage_logs_ TradeLog.storage
        { opt_start_before_id := start, index_key := none }
        (buffered.map TradeLog.stable_memory_serialize).flatten max_logs = some logs ∧
      (logs.getD []).mapM buffered_trades_item =
        some ((newest max_logs (Paging.under TradeLog.id buffered start)).map TradeLog.item) := by
  have hanswer := hwhole.answersRight TradeLog.storage_lawful hreach none max_logs hmax
  rw [Store.page_of_key, filter_has_none, ← List.map_take, ← under_buffered hids, newest_map] at hanswer
  obtain ⟨logs, hlogs, heq⟩ := Option.map_eq_some_iff.mp hanswer
  refine ⟨logs, hlogs, ?_⟩
  rw [heq]
  apply mapM_buffered
  intro tl htl
  exact hfit tl ((Paging.under_sublist start).subset (List.mem_of_mem_drop htl))

theorem joined_trades_data_eq (hids : buffered.map TradeLog.id = List.range' first buffered.length)
    {trade_logs : List TradeLogAndTemporaryData} (hs : SortedBy tl_id trade_logs)
    (hfit : ∀ tl ∈ buffered ++ trade_logs.map TradeLogAndTemporaryData.log, tl.ItemFits)
    {start : Option Nat}
    (hwhole : WholeLogs TradeLog.storage (bufferStore first buffered)
      (buffered.map TradeLog.stable_memory_serialize).flatten)
    (hreach : StartReaches TradeLog.storage (bufferStore first buffered) start) :
    joined_trades_data trade_logs (buffered.map TradeLog.stable_memory_serialize).flatten start =
      some ((newest MAX_LATEST_TRADE_LOGS_SPONSE_TRADE_DATA (Paging.under TradeLog.id
        (buffered ++ trade_logs.map TradeLogAndTemporaryData.log) start)).map TradeLog.item) := by
  have hqueue : Paging.under TradeLog.id (trade_logs.map TradeLogAndTemporaryData.log) start =
      (Paging.under tl_id trade_logs start).map TradeLogAndTemporaryData.log := by
    cases start with
    | none => rfl
    | some start => exact List.filter_map
  have hunder : Paging.under TradeLog.id
      (buffered ++ trade_logs.map TradeLogAndTemporaryData.log) start =
        Paging.under TradeLog.id buffered start ++
          (Paging.under tl_id trade_logs start).map TradeLogAndTemporaryData.log := by
    rw [← hqueue]
    cases start with
    | none => rfl
    | some start => exact List.filter_append _ _
  have hqueued := queued_trades_data_eq hs
    (fun tl htl => hfit tl.log (List.mem_append_right _ (List.mem_map_of_mem htl))) start
  have hitems (n : Nat) (tls : List TradeLogAndTemporaryData) :
      (newest n tls).map (fun tl => tl.log.item) =
        (newest n (tls.map TradeLogAndTemporaryData.log)).map TradeLog.item := by
    rw [newest_map, List.map_map]
    rfl
  rw [hitems] at hqueued
  generalize (Paging.under tl_id trade_logs start).map TradeLogAndTemporaryData.log = queue
    at hunder hqueued
  rw [hunder, newest_append, List.map_append]
  unfold joined_trades_data
  simp only [hqueued, List.length_map, newest_length]
  split_ifs with hroom
  · have hlen : queue.length ≤ MAX_LATEST_TRADE_LOGS_SPONSE_TRADE_DATA := by omega
    obtain ⟨logs, hlogs, hmap⟩ := buffered_trades_data hids
      (fun tl htl => hfit tl (List.mem_append_left _ htl))
      (Nat.sub_pos_of_lt hroom) hwhole hreach
    rw [Nat.min_eq_right hlen] at hlogs hmap ⊢
    rw [hlogs, Option.bind_eq_bind, Option.bind_some]
    cases logs with
    | none =>
      have hnil : some [] = some ((newest (MAX_LATEST_TRADE_LOGS_SPONSE_TRADE_DATA - queue.length)
        (Paging.under TradeLog.id buffered start)).map TradeLog.item) := hmap
      rw [← Option.some.inj hnil, List.nil_append, Option.pure_def]
    | some logs =>
      rw [Option.getD_some] at hmap
      simp only [hmap, Option.bind_eq_bind, Option.bind_some, Option.pure_def]
  · have hnone : MAX_LATEST_TRADE_LOGS_SPONSE_TRADE_DATA - queue.length = 0 := by omega
    rw [hnone, newest_zero, List.map_nil, List.nil_append, Option.pure_def]

theorem first_log_id_eq (trade_logs : List TradeLogAndTemporaryData)
    (hwhole : WholeLogs TradeLog.storage (bufferStore first buffered)
      (buffered.map TradeLog.stable_memory_serialize).flatten)
    (hfirst : ∀ tl ∈ buffered.head?, tl.id = first) :
    first_log_id_on_this_canister trade_logs
        (buffered.map TradeLog.stable_memory_serialize).flatten =
      (buffered ++ trade_logs.map TradeLogAndTemporaryData.log).head?.map TradeLog.id := by
  unfold first_log_id_on_this_canister
  have hlen := hwhole.length
  rw [List.length_map] at hlen
  rcases buffered with _ | ⟨tl, buffered⟩
  · rw [if_neg (by decide), List.nil_append, List.head?_map, Option.map_map]
    rfl
  · have hid := hwhole.first_id (List.cons_ne_nil _ _)
    have hsize : TradeLog.STABLE_MEMORY_SERIALIZE_SIZE ≤
        ((tl :: buffered).map TradeLog.stable_memory_serialize).flatten.length := by
      rw [hlen, List.length_cons, Nat.succ_mul]
      exact Nat.le_add_left _ _
    rw [if_pos hsize, List.cons_append, List.head?_cons, Option.map_some, hfirst tl rfl]
    exact congrArg some hid

end

theorem is_last_chunk_eq {all : List TradeLog} (hs : SortedBy TradeLog.id all) {n : Nat} (hn : 0 < n)
    (start : Option Nat) :
    ∃ is_last_chunk, is_last_chunk_on_this_canister
        ((newest n (Paging.under TradeLog.id all start)).map TradeLog.item)
        (all.head?.map TradeLog.id) = some is_last_chunk ∧
      (is_last_chunk = true ↔ (Paging.under TradeLog.id all start).length ≤ n) := by
  obtain ⟨k, hk⟩ := Paging.under_eq_take hs start
  have holder : SortedBy TradeLog.id (Paging.under TradeLog.id all start) :=
    List.Pairwise.sublist ((Paging.under_sublist start).map _) hs
  rcases eq_or_ne (Paging.under TradeLog.id all start) [] with hnil | hne
  · rw [hnil, newest_of_length_le (Nat.zero_le _)]
    exact ⟨true, rfl, by simp⟩
  · have hoff := holder.head?_newest_iff hne hn
    have hhead : (Paging.under TradeLog.id all start).head? = all.head? := by
      rw [hk] at hne ⊢
      have hpos : k ≠ 0 := by
        rintro rfl
        exact hne (List.take_zero)
      rw [List.head?_take, if_neg hpos]
    rw [hhead] at hoff
    obtain ⟨oldest, holdest⟩ : ∃ oldest, all.head? = some oldest := by
      rw [← hhead]
      exact ⟨_, List.head?_eq_some_head hne⟩
    obtain ⟨first, hfirst⟩ : ∃ first, (newest n (Paging.under TradeLog.id all start)).head? = some first := by
      have hpos := List.length_pos_iff.mpr hne
      have hlen := newest_length n (Paging.under TradeLog.id all start)
      exact ⟨_, List.head?_eq_some_head (List.length_pos_iff.mp (by omega))⟩
    rw [holdest, hfirst] at hoff
    unfold is_last_chunk_on_this_canister
    rw [List.head?_map, hfirst, holdest]
    refine ⟨_, rfl, ?_⟩
    rw [← hoff, Option.map_some, Option.map_some, Option.some.injEq]
    exact decide_eq_true_iff

/-! ## Both stores -/

section

variable {cfg : TcConfig} {s : TcState}

theorem OnCanister.fits {all : List TradeLog} (h : OnCanister s all) (hm : Market False s)
    (hids : s.cm_data.trade_logs_id_counter ≤ 2 ^ 128)
    (hclock : ∀ tl ∈ s.logs, tl.log.timestamp_nanos < 2 ^ 64) : ∀ tl ∈ all, tl.ItemFits := by
  intro tl htl
  obtain ⟨l, hl, rfl⟩ := h.logs tl htl
  obtain ⟨htokens, hrate⟩ := hm.log_lt hl
  constructor
  · have hmem : tl_id l ∈ s.logs.map tl_id := List.mem_map_of_mem hl
    rw [hm.log_ids, List.mem_range] at hmem
    exact hmem.trans_le hids
  · exact htokens
  · exact hrate
  · exact hclock l hl

/-- The contract answers with the newest trades before the start id out of both stores. -/
theorem latest_trades_join_both_stores (r : TcReachable cfg s)
    (hids : s.cm_data.trade_logs_id_counter ≤ 2 ^ 128)
    (hclock : ∀ tl ∈ s.logs, tl.log.timestamp_nanos < 2 ^ 64)
    (hroom : s.trades_storage.data.storage_buffer.length +
      s.cm_data.trade_logs.length * TradeLog.STABLE_MEMORY_SERIALIZE_SIZE < 2 ^ 32) :
    ∃ all, OnCanister s all ∧ SortedBy TradeLog.id all ∧ ∀ start : Option Nat,
      (∀ start_before_id ∈ start, start_before_id ≤ s.cm_data.trade_logs_id_counter) →
      ∃ sponse, view_latest_trades s.cm_data.trade_logs s.trades_storage.data.storage_buffer start =
          some sponse ∧
        sponse.trades_data = (newest MAX_LATEST_TRADE_LOGS_SPONSE_TRADE_DATA
          (Paging.under TradeLog.id all start)).map TradeLog.item ∧
        (sponse.is_last_chunk_on_this_canister = true ↔ ∀ tl ∈ Paging.under TradeLog.id all start,
          tl ∈ newest MAX_LATEST_TRADE_LOGS_SPONSE_TRADE_DATA (Paging.under TradeLog.id all start)) := by
  have hm : Market False s := market_inv r False.elim
  obtain ⟨all, hall⟩ := on_canister r
  refine ⟨all, hall, hall.sorted, ?_⟩
  intro start hstart
  have hfit := hall.fits hm hids hclock
  obtain ⟨buffered, rfl, hbuffer⟩ := hall.stores
  obtain ⟨first, hfirst, hcount⟩ := hall.ids
  rw [List.length_append, List.length_map] at hcount
  have hbytes : (buffered.length + s.cm_data.trade_logs.length) *
      TradeLog.STABLE_MEMORY_SERIALIZE_SIZE < 2 ^ 32 := by
    rw [hbuffer, (serialized_sized buffered).flatten_length, List.length_map, ← Nat.add_mul] at hroom
    exact hroom
  have hbuffered := buffered_ids hfirst
  have hwhole := WholeLogs.of_trades hbuffered
    (fun tl htl => (hfit tl (List.mem_append_left _ htl)).id)
    ((Nat.mul_le_mul_right _ (Nat.le_add_right _ _)).trans_lt hbytes)
  have hreach : StartReaches TradeLog.storage (bufferStore first buffered) start :=
    StartReaches.of_le (fun start_before_id hmem => hcount ▸ hstart start_before_id hmem) hbytes
  have hjoined := joined_trades_data_eq hbuffered hm.sorted hfit hwhole hreach
  obtain ⟨is_last_chunk, hlast, hiff⟩ := is_last_chunk_eq hall.sorted max_trades_pos start
  have holder : SortedBy TradeLog.id (Paging.under TradeLog.id
      (buffered ++ s.cm_data.trade_logs.map TradeLogAndTemporaryData.log) start) :=
    List.Pairwise.sublist ((Paging.under_sublist start).map _) hall.sorted
  rw [← holder.forall_mem_newest_iff] at hiff
  generalize (newest MAX_LATEST_TRADE_LOGS_SPONSE_TRADE_DATA (Paging.under TradeLog.id
    (buffered ++ s.cm_data.trade_logs.map TradeLogAndTemporaryData.log) start)).map TradeLog.item =
      page at hjoined hlast
  refine ⟨⟨page, is_last_chunk⟩, ?_, rfl, hiff⟩
  unfold view_latest_trades
  rw [hbuffer, hjoined, Option.bind_eq_bind, Option.bind_some,
    first_log_id_eq _ hwhole (head_of_ids hbuffered), hlast, Option.bind_eq_bind, Option.bind_some,
    Option.pure_def]

end

theorem latest_trades_of_busy_contract : ∃ all, OnCanister Sample.busy all ∧
    (Sample.busy.trades_storage.data.storage_buffer.length = 3 * 225 ∧
      Sample.busy.cm_data.trade_logs.length = 2) ∧ ∃ sponse,
      view_latest_trades Sample.busy.cm_data.trade_logs
        Sample.busy.trades_storage.data.storage_buffer none = some sponse ∧
      sponse.trades_data =
        (newest MAX_LATEST_TRADE_LOGS_SPONSE_TRADE_DATA all).map TradeLog.item := by
  have hbusy : (Sample.busy.cm_data.trade_logs_id_counter ≤ 2 ^ 128 ∧
      ∀ tl ∈ Sample.busy.logs, tl.log.timestamp_nanos < 2 ^ 64) ∧
        Sample.busy.trades_storage.data.storage_buffer.length = 3 * 225 ∧
          Sample.busy.cm_data.trade_logs.length = 2 := by
    decide +kernel
  obtain ⟨⟨hids, hclock⟩, hbuffer, hqueue⟩ := hbusy
  obtain ⟨all, hall, -, hview⟩ := latest_trades_join_both_stores Sample.busy_reachable hids hclock
    (by rw [hbuffer, hqueue]; decide)
  obtain ⟨sponse, hsponse, hitems, -⟩ := hview none (fun _ hstart => by cases hstart)
  exact ⟨all, hall, ⟨hbuffer, hqueue⟩, sponse, hsponse, hitems⟩

end Cts.Tc
