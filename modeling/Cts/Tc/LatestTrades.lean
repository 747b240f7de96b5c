import Cts.Tc.StoredLogs
import Cts.Tc.TradeLogBytes
import Mathlib.Data.List.Nodup

/-!
# The latest trades of a trades storage canister

`view_latest_trades` of `cm_trades_storage`. It walks from the start id backwards and answers in the
order of its walk, newest first.
-/

namespace Cts.Tc

open Lib Lib.IndexedLog

/-! ## The view -/

/-- `(PurchaseId, Tokens, CyclesPerToken, u64)`. -/
abbrev LatestTradesDataItem := Nat × Nat × Nat × Nat

/-- Three `u128`s and a `u64`, which the compiler of the canisters aligns to eight bytes. -/
def LATEST_TRADES_DATA_ITEM_SIZE : Nat := 3 * 16 + 8

def MAX_LATEST_TRADE_LOGS_SPONSE_TRADE_DATA : Nat :=
  512 * 1024 * 3 / LATEST_TRADES_DATA_ITEM_SIZE

structure ViewLatestTradesSponse where
  trades_data : List LatestTradesDataItem
  is_last_chunk_on_this_canister : Bool
  deriving DecidableEq

/-- The item of a log. It traps on a timestamp that is no `u64`. -/
def latest_trades_data_item (log : List Byte) : Option LatestTradesDataItem := do
  let tokens ← tokens_quantity_of_the_log_serialization log
  let rate ← rate_of_the_log_serialization log
  let timestamp_nanos ← timestamp_nanos_of_the_log_serialization log
  if timestamp_nanos < 2 ^ 64 then
    return (TradeLog.storage.log_id_of_the_log_serialization log, tokens, rate, timestamp_nanos)
  else none

namespace StorageCanister

variable {K : Type}

/-- Where the logs before the start id end. -/
def logs_storage_till_start_before_id_len_i (data : StorageCanister K) : Option Nat → Nat
  | none => data.logs_memory_i
  | some start_before_id =>
    min (Word.mul 64 (Word.wrap 64 (start_before_id - data.first_log_id)) data.log_size)
      data.logs_memory_i

/-- The log that turn `i` of the loop reads. -/
def latest_trade (data : StorageCanister K) (len_i i : Nat) : Option LatestTradesDataItem :=
  let log_finish_i := len_i - i * data.log_size
  (data.read_memory (log_finish_i - data.log_size) data.log_size).bind latest_trades_data_item

def latest_trades (data : StorageCanister K) (len_i : Nat) :
    List Nat → Option (List LatestTradesDataItem)
  | [] => some []
  | i :: rest =>
    match data.latest_trade len_i i with
    | none => none
    | some item => (data.latest_trades len_i rest).map fun trades_data => item :: trades_data

/-- Whether the first of the trades is the first on the canister. -/
def is_last_chunk (data : StorageCanister K) (trades_data : List LatestTradesDataItem) : Bool :=
  match trades_data.head? with
  | none => true
  | some first => first.1 = data.first_log_id

def view_latest_trades (data : StorageCanister K) (opt_start_before_id : Option Nat) :
    Option ViewLatestTradesSponse :=
  if data.logs_memory_i < TradeLog.STABLE_MEMORY_SERIALIZE_SIZE then
    some { trades_data := [], is_last_chunk_on_this_canister := true }
  else
    let len_i := data.logs_storage_till_start_before_id_len_i opt_start_before_id
    let turns := min (len_i / data.log_size) MAX_LATEST_TRADE_LOGS_SPONSE_TRADE_DATA
    (data.latest_trades len_i (List.range turns)).map fun trades_data =>
      { trades_data := trades_data
        is_last_chunk_on_this_canister := data.is_last_chunk trades_data }

theorem latest_trades_eq_some {data : StorageCanister K} {len_i : Nat} {idx : List Nat}
    {trades_data : List LatestTradesDataItem} :
    data.latest_trades len_i idx = some trades_data ↔
      idx.map (data.latest_trade len_i) = trades_data.map some := by
  induction idx generalizing trades_data with
  | nil =>
    rw [latest_trades]
    constructor
    · intro heq
      rw [← Option.some.inj heq]
      rfl
    · intro heq
      rw [List.map_eq_nil_iff.mp heq.symm]
  | cons i idx ih =>
    rw [latest_trades, List.map_cons]
    split
    · rename_i hnone
      rw [hnone]
      cases trades_data <;> simp
    · rename_i item hitem
      rw [hitem, Option.map_eq_some_iff]
      constructor
      · rintro ⟨rest, hrest, rfl⟩
        rw [ih.mp hrest, List.map_cons]
      · intro heq
        cases trades_data with
        | nil => cases heq
        | cons item' rest =>
          obtain ⟨hhead, hrest⟩ := List.cons.inj heq
          obtain rfl := Option.some.inj hhead
          exact ⟨rest, ih.mpr hrest, rfl⟩

end StorageCanister

/-! ## Pages -/

/-- What a client is to see of a stored trade. -/
def tradeItem (log : List Byte) : LatestTradesDataItem :=
  (TradeLog.storage.log_id_of_the_log_serialization log, from_be_bytes (slice 94 16 log),
    from_be_bytes (slice 126 16 log), from_be_bytes (slice 143 16 log))

/-- The timestamp of a stored trade. -/
def tradeTimestamp (log : List Byte) : Nat := from_be_bytes (slice 143 16 log)

theorem latest_trades_data_item_eq {log : List Byte}
    (hlen : log.length = TradeLog.STABLE_MEMORY_SERIALIZE_SIZE) :
    latest_trades_data_item log =
      if tradeTimestamp log < 2 ^ 64 then some (tradeItem log) else none := by
  have hread : ∀ start, start + 16 ≤ 225 →
      read_u128 start log = some (from_be_bytes (slice start 16 log)) := by
    intro start hle
    unfold read_u128 try_slice
    rw [if_pos (by rw [hlen]; exact hle)]
    rfl
  unfold latest_trades_data_item tokens_quantity_of_the_log_serialization
    rate_of_the_log_serialization timestamp_nanos_of_the_log_serialization
  rw [hread 94 (by decide), hread 126 (by decide), hread 143 (by decide)]
  rfl

namespace StorageHistory

variable (h : StorageHistory PositionId)

/-- The ids of the newest trades before the start id, oldest first. -/
def page (opt_start_before_id : Option Nat) : List Nat :=
  newest MAX_LATEST_TRADE_LOGS_SPONSE_TRADE_DATA (below opt_start_before_id h.store.ids)

def pageTrades (opt_start_before_id : Option Nat) : List LatestTradesDataItem :=
  ((h.page opt_start_before_id).filterMap h.store.get).map tradeItem

/-- The answer is the page, and it is the last one when it leaves no older trade out. -/
def Pages (opt_start_before_id : Option Nat) : Prop :=
  ∃ sponse, h.data.view_latest_trades opt_start_before_id = some sponse ∧
    sponse.trades_data = h.pageTrades opt_start_before_id ∧
    (sponse.is_last_chunk_on_this_canister = true ↔
      ∀ id ∈ below opt_start_before_id h.store.ids, id ∈ h.page opt_start_before_id)

/-- A client calls again with the first id of an answer, until it is told that this was the last. -/
inductive ClientSees (data : StorageCanister PositionId) :
    Option Nat → List LatestTradesDataItem → Prop
  | last {opt_start_before_id : Option Nat} {trades_data : List LatestTradesDataItem} :
      data.view_latest_trades opt_start_before_id =
        some { trades_data := trades_data, is_last_chunk_on_this_canister := true } →
      ClientSees data opt_start_before_id trades_data
  | more {opt_start_before_id : Option Nat} {trades_data seen : List LatestTradesDataItem}
      {first : LatestTradesDataItem} :
      data.view_latest_trades opt_start_before_id =
        some { trades_data := trades_data, is_last_chunk_on_this_canister := false } →
      trades_data.head? = some first → ClientSees data (some first.1) seen →
      ClientSees data opt_start_before_id (seen ++ trades_data)

/-- The client sees every stored trade exactly once. -/
def SeesEachOnce : Prop :=
  ∃ seen, ClientSees h.data none seen ∧ seen.Perm (h.store.logs.map tradeItem)

/-! ## When the answer is the page -/

/-- How far the start id reaches into the memory, as a `u64`. -/
def reach (start_before_id : Nat) : Nat :=
  Word.mul 64 (Word.wrap 64 (start_before_id - h.store.first)) TradeLog.STABLE_MEMORY_SERIALIZE_SIZE

/-- The reach wraps around to within the memory and off the logs, and what is read there happens to
spell the page. -/
def SpelledOut (start_before_id : Nat) : Prop :=
  h.reach start_before_id < h.store.logs.flatten.length ∧
    MAX_LATEST_TRADE_LOGS_SPONSE_TRADE_DATA * TradeLog.STABLE_MEMORY_SERIALIZE_SIZE ≤
      h.reach start_before_id ∧
    (List.range MAX_LATEST_TRADE_LOGS_SPONSE_TRADE_DATA).map (fun i =>
        latest_trades_data_item (slice
          (h.reach start_before_id - i * TradeLog.STABLE_MEMORY_SERIALIZE_SIZE -
            TradeLog.STABLE_MEMORY_SERIALIZE_SIZE)
          TradeLog.STABLE_MEMORY_SERIALIZE_SIZE h.store.logs.flatten)) =
      (h.pageTrades (some start_before_id)).map some

/-- One trade at most is before the start id. When it is one, its timestamp is a `u64` and the start
id reaches it. -/
def OneBefore (opt_start_before_id : Option Nat) : Prop :=
  below opt_start_before_id h.store.ids = [] ∨
    ∃ id log, below opt_start_before_id h.store.ids = [id] ∧ h.store.get id = some log ∧
      tradeTimestamp log < 2 ^ 64 ∧
      ∀ start_before_id ∈ opt_start_before_id,
        TradeLog.STABLE_MEMORY_SERIALIZE_SIZE ≤ h.reach start_before_id

/-- The answer is the page exactly then. -/
def PagesWell (opt_start_before_id : Option Nat) : Prop :=
  h.OneBefore opt_start_before_id ∨
    ∃ start_before_id ∈ opt_start_before_id, h.SpelledOut start_before_id

end StorageHistory

/-! ## The turns -/

namespace StorageHistory

section turns

variable {h : StorageHistory PositionId} {opt_start_before_id : Option Nat}

theorem two_le_max : 2 ≤ MAX_LATEST_TRADE_LOGS_SPONSE_TRADE_DATA := by decide

theorem log_length (hs : h.Stored TradeLog.storage) {i : Nat} {log : List Byte}
    (hget : h.store.logs[i]? = some log) : log.length = TradeLog.STABLE_MEMORY_SERIALIZE_SIZE :=
  hs.sized log (List.mem_of_getElem? hget)

theorem tradeItem_id (hs : h.Stored TradeLog.storage) {i : Nat} {log : List Byte}
    (hget : h.store.logs[i]? = some log) : (tradeItem log).1 = h.store.first + i :=
  hs.ids _ log (by rw [Store.get_first_add, hget])

theorem memory_length (hs : h.Stored TradeLog.storage) :
    h.data.logs_memory_i = h.store.logs.length * TradeLog.STABLE_MEMORY_SERIALIZE_SIZE := by
  rw [StorageCanister.logs_memory_i, hs.memory]
  exact hs.sized.flatten_length

theorem latest_trade_aligned (hs : h.Stored TradeLog.storage) {n i : Nat} {log : List Byte}
    (hget : h.store.logs[n - 1 - i]? = some log) :
    h.data.latest_trade (n * TradeLog.STABLE_MEMORY_SERIALIZE_SIZE) i =
      if tradeTimestamp log < 2 ^ 64 then some (tradeItem log) else none := by
  have hplace : n * TradeLog.STABLE_MEMORY_SERIALIZE_SIZE -
      i * TradeLog.STABLE_MEMORY_SERIALIZE_SIZE - TradeLog.STABLE_MEMORY_SERIALIZE_SIZE =
        (n - 1 - i) * TradeLog.STABLE_MEMORY_SERIALIZE_SIZE := by
    rw [Nat.sub_mul, Nat.sub_mul]
    omega
  have hsize : h.data.log_size = TradeLog.STABLE_MEMORY_SERIALIZE_SIZE := hs.size
  have hread : h.data.read_memory ((n - 1 - i) * TradeLog.STABLE_MEMORY_SERIALIZE_SIZE)
      TradeLog.STABLE_MEMORY_SERIALIZE_SIZE = some log := hs.read_memory hget
  rw [StorageCanister.latest_trade, hsize, hplace, hread, Option.bind_some]
  exact latest_trades_data_item_eq (log_length hs hget)

theorem latest_trade_some (hs : h.Stored TradeLog.storage) {n i : Nat} {log : List Byte}
    (hget : h.store.logs[n - 1 - i]? = some log)
    {item : LatestTradesDataItem}
    (hitem : h.data.latest_trade (n * TradeLog.STABLE_MEMORY_SERIALIZE_SIZE) i = some item) :
    item = tradeItem log := by
  rw [latest_trade_aligned hs hget] at hitem
  split_ifs at hitem
  exact (Option.some.inj hitem).symm

/-- The turns of the loop. -/
def turns (h : StorageHistory PositionId) (opt_start_before_id : Option Nat) : Nat :=
  min (h.data.logs_storage_till_start_before_id_len_i opt_start_before_id /
    TradeLog.STABLE_MEMORY_SERIALIZE_SIZE) MAX_LATEST_TRADE_LOGS_SPONSE_TRADE_DATA

theorem view_eq (hs : h.Stored TradeLog.storage) (hne : h.store.logs ≠ [])
    (opt_start_before_id : Option Nat) :
    h.data.view_latest_trades opt_start_before_id =
      (h.data.latest_trades (h.data.logs_storage_till_start_before_id_len_i opt_start_before_id)
        (List.range (h.turns opt_start_before_id))).map fun trades_data =>
          { trades_data := trades_data
            is_last_chunk_on_this_canister := h.data.is_last_chunk trades_data } := by
  have hpos : 0 < h.store.logs.length := List.length_pos_of_ne_nil hne
  have hsize : h.data.log_size = TradeLog.STABLE_MEMORY_SERIALIZE_SIZE := hs.size
  have hfits : TradeLog.STABLE_MEMORY_SERIALIZE_SIZE ≤ h.data.logs_memory_i := by
    rw [memory_length hs]
    exact Nat.le_mul_of_pos_left _ hpos
  unfold StorageCanister.view_latest_trades turns
  rw [if_neg (by omega), hsize]

/-! ## The page -/

theorem pageTrades_get (h : StorageHistory PositionId) {i : Nat}
    (hi : i < min (h.store.countBelow opt_start_before_id) MAX_LATEST_TRADE_LOGS_SPONSE_TRADE_DATA) :
    ∃ log, h.store.logs[h.store.countBelow opt_start_before_id -
        MAX_LATEST_TRADE_LOGS_SPONSE_TRADE_DATA + i]? = some log ∧
      (h.pageTrades opt_start_before_id)[i]? = some (tradeItem log) := by
  have hle := h.store.countBelow_le opt_start_before_id
  obtain ⟨log, hlog⟩ : ∃ log, h.store.logs[h.store.countBelow opt_start_before_id -
      MAX_LATEST_TRADE_LOGS_SPONSE_TRADE_DATA + i]? = some log :=
    ⟨_, List.getElem?_eq_getElem (by omega)⟩
  refine ⟨log, hlog, ?_⟩
  unfold pageTrades page
  rw [Store.page_logs, newest, List.getElem?_map, List.getElem?_drop, List.length_take,
    Nat.min_eq_left hle, List.getElem?_take_of_lt (by omega), hlog, Option.map_some]

theorem pageTrades_length (h : StorageHistory PositionId) (opt_start_before_id : Option Nat) :
    (h.pageTrades opt_start_before_id).length =
      min (h.store.countBelow opt_start_before_id) MAX_LATEST_TRADE_LOGS_SPONSE_TRADE_DATA := by
  have hle := h.store.countBelow_le opt_start_before_id
  unfold pageTrades page
  rw [Store.page_logs, newest, List.length_map, List.length_drop, List.length_take,
    Nat.min_eq_left hle]
  omega

theorem is_last_chunk_page (hs : h.Stored TradeLog.storage) (opt_start_before_id : Option Nat) :
    h.data.is_last_chunk (h.pageTrades opt_start_before_id) = true ↔
      ∀ id ∈ below opt_start_before_id h.store.ids, id ∈ h.page opt_start_before_id := by
  have hlength := h.pageTrades_length opt_start_before_id
  have hmax := two_le_max
  unfold page
  rw [Store.below_ids, Store.newest_range']
  by_cases hzero : h.store.countBelow opt_start_before_id = 0
  · have hnil : h.pageTrades opt_start_before_id = [] :=
      List.length_eq_zero_iff.mp (by omega)
    rw [hnil, hzero]
    simp [StorageCanister.is_last_chunk]
  have hpos : 0 < min (h.store.countBelow opt_start_before_id)
      MAX_LATEST_TRADE_LOGS_SPONSE_TRADE_DATA := by omega
  obtain ⟨log, hlog, hitem⟩ := h.pageTrades_get hpos
  have hhead : (h.pageTrades opt_start_before_id).head? = some (tradeItem log) := by
    rw [List.head?_eq_getElem?]
    exact hitem
  rw [StorageCanister.is_last_chunk, hhead]
  simp only [decide_eq_true_eq, List.mem_range'_1, tradeItem_id hs hlog, hs.first]
  constructor
  · intro heq id hid
    omega
  · intro hall
    have hfirst := hall h.store.first (by omega)
    omega

theorem pages_iff (hs : h.Stored TradeLog.storage) (hne : h.store.logs ≠ [])
    (opt_start_before_id : Option Nat) :
    h.Pages opt_start_before_id ↔
      (List.range (h.turns opt_start_before_id)).map
          (h.data.latest_trade (h.data.logs_storage_till_start_before_id_len_i opt_start_before_id)) =
        (h.pageTrades opt_start_before_id).map some := by
  have hview := view_eq hs hne opt_start_before_id
  constructor
  · rintro ⟨sponse, hsponse, htrades, -⟩
    rw [hview, Option.map_eq_some_iff] at hsponse
    obtain ⟨trades_data, hloop, rfl⟩ := hsponse
    rw [← htrades]
    exact StorageCanister.latest_trades_eq_some.mp hloop
  · intro hread
    have hloop := StorageCanister.latest_trades_eq_some.mpr hread
    rw [hloop, Option.map_some] at hview
    refine ⟨_, hview, ?_, ?_⟩
    · dsimp only
    · dsimp only
      exact is_last_chunk_page hs opt_start_before_id

/-! ## When the loop reads the page -/

theorem len_i_some (hs : h.Stored TradeLog.storage) (start_before_id : Nat) :
    h.data.logs_storage_till_start_before_id_len_i (some start_before_id) =
      min (h.reach start_before_id)
        (h.store.logs.length * TradeLog.STABLE_MEMORY_SERIALIZE_SIZE) := by
  have hsize : h.data.log_size = TradeLog.STABLE_MEMORY_SERIALIZE_SIZE := hs.size
  rw [StorageCanister.logs_storage_till_start_before_id_len_i, memory_length hs, hs.first, hsize,
    reach]

theorem len_i_none (hs : h.Stored TradeLog.storage) :
    h.data.logs_storage_till_start_before_id_len_i none =
      h.store.logs.length * TradeLog.STABLE_MEMORY_SERIALIZE_SIZE := by
  rw [StorageCanister.logs_storage_till_start_before_id_len_i, memory_length hs]

theorem reach_of_le (hs : h.Stored TradeLog.storage) {start_before_id : Nat}
    (hle : start_before_id - h.store.first ≤ h.store.logs.length) :
    h.reach start_before_id =
      (start_before_id - h.store.first) * TradeLog.STABLE_MEMORY_SERIALIZE_SIZE := by
  have hroom := hs.room
  have hlength := memory_length hs
  unfold StorageCanister.logs_memory_i at hlength
  have hmul : (start_before_id - h.store.first) * TradeLog.STABLE_MEMORY_SERIALIZE_SIZE ≤
      h.store.logs.length * TradeLog.STABLE_MEMORY_SERIALIZE_SIZE := Nat.mul_le_mul_right _ hle
  have hindex : start_before_id - h.store.first ≤
      (start_before_id - h.store.first) * TradeLog.STABLE_MEMORY_SERIALIZE_SIZE :=
    Nat.le_mul_of_pos_right _ (by decide)
  have hmax : MAX_STABLE_LOGS_STORAGE_BYTES < 2 ^ 64 := by decide
  rw [reach, Word.wrap_of_lt (by omega), Word.mul_of_lt (by omega)]

/-- The loop reads the page. -/
def Reads (h : StorageHistory PositionId) (opt_start_before_id : Option Nat) : Prop :=
  (List.range (h.turns opt_start_before_id)).map
      (h.data.latest_trade (h.data.logs_storage_till_start_before_id_len_i opt_start_before_id)) =
    (h.pageTrades opt_start_before_id).map some

theorem Reads.turns_eq (hread : h.Reads opt_start_before_id) :
    h.turns opt_start_before_id = min (h.store.countBelow opt_start_before_id)
      MAX_LATEST_TRADE_LOGS_SPONSE_TRADE_DATA := by
  have hlength := congrArg List.length hread
  rwa [List.length_map, List.length_range, List.length_map, pageTrades_length] at hlength

theorem Reads.get (hread : h.Reads opt_start_before_id) {i : Nat}
    (hi : i < h.turns opt_start_before_id) :
    ∃ log, h.store.logs[h.store.countBelow opt_start_before_id -
        MAX_LATEST_TRADE_LOGS_SPONSE_TRADE_DATA + i]? = some log ∧
      h.data.latest_trade (h.data.logs_storage_till_start_before_id_len_i opt_start_before_id) i =
        some (tradeItem log) := by
  obtain ⟨log, hlog, hitem⟩ := h.pageTrades_get (hread.turns_eq ▸ hi)
  refine ⟨log, hlog, ?_⟩
  have hget := congrArg (fun l => l[i]?) hread
  simp only [List.getElem?_map, List.getElem?_range hi, hitem, Option.map_some] at hget
  exact Option.some.inj hget

/-- From the end of a log the loop reads backwards, so it reads no page of two trades. -/
theorem Reads.one_turn (hs : h.Stored TradeLog.storage) (hread : h.Reads opt_start_before_id)
    {n : Nat} (hn : n ≤ h.store.logs.length)
    (hlen : h.data.logs_storage_till_start_before_id_len_i opt_start_before_id =
      n * TradeLog.STABLE_MEMORY_SERIALIZE_SIZE) : h.turns opt_start_before_id ≤ 1 := by
  by_contra htwo
  have hturns : h.turns opt_start_before_id = min n MAX_LATEST_TRADE_LOGS_SPONSE_TRADE_DATA := by
    rw [turns, hlen, Nat.mul_div_cancel _ (by decide)]
  have hsame : ∀ i, i < h.turns opt_start_before_id →
      h.store.countBelow opt_start_before_id - MAX_LATEST_TRADE_LOGS_SPONSE_TRADE_DATA + i =
        n - 1 - i := by
    intro i hi
    obtain ⟨log, hlog, hitem⟩ := hread.get hi
    have hget : h.store.logs[n - 1 - i]? = some h.store.logs[n - 1 - i] :=
      List.getElem?_eq_getElem (by omega)
    rw [hlen] at hitem
    have hid := tradeItem_id hs hlog
    rw [latest_trade_some hs hget hitem, tradeItem_id hs hget] at hid
    omega
  have hzero := hsame 0 (by omega)
  have hone := hsame 1 (by omega)
  omega

theorem latest_trade_timestamp {data : StorageCanister PositionId} {len_i i : Nat}
    {log : List Byte} (hitem : data.latest_trade len_i i = some (tradeItem log)) :
    tradeTimestamp log < 2 ^ 64 := by
  unfold StorageCanister.latest_trade at hitem
  obtain ⟨bytes, -, hitem⟩ := Option.bind_eq_some_iff.mp hitem
  unfold latest_trades_data_item at hitem
  simp only [Option.bind_eq_bind, Option.bind_eq_some_iff] at hitem
  obtain ⟨tokens, -, rate, -, timestamp_nanos, -, hitem⟩ := hitem
  split_ifs at hitem with hlt
  have heq := congrArg (fun item => item.2.2.2) (Option.some.inj hitem)
  exact lt_of_eq_of_lt heq.symm hlt

theorem reads_spelled (hs : h.Stored TradeLog.storage) {start_before_id : Nat}
    (hlt : h.reach start_before_id < h.store.logs.flatten.length)
    (hle : MAX_LATEST_TRADE_LOGS_SPONSE_TRADE_DATA * TradeLog.STABLE_MEMORY_SERIALIZE_SIZE ≤
      h.reach start_before_id) :
    h.Reads (some start_before_id) ↔ h.SpelledOut start_before_id := by
  have hmemory : h.store.logs.flatten.length =
      h.store.logs.length * TradeLog.STABLE_MEMORY_SERIALIZE_SIZE := hs.sized.flatten_length
  have hlen : h.data.logs_storage_till_start_before_id_len_i (some start_before_id) =
      h.reach start_before_id := by
    rw [len_i_some hs]
    omega
  have hturns : h.turns (some start_before_id) = MAX_LATEST_TRADE_LOGS_SPONSE_TRADE_DATA := by
    rw [turns, hlen]
    exact Nat.min_eq_right ((Nat.le_div_iff_mul_le (by decide)).mpr hle)
  have hmap : (List.range MAX_LATEST_TRADE_LOGS_SPONSE_TRADE_DATA).map
        (h.data.latest_trade (h.reach start_before_id)) =
      (List.range MAX_LATEST_TRADE_LOGS_SPONSE_TRADE_DATA).map fun i =>
        latest_trades_data_item (slice
          (h.reach start_before_id - i * TradeLog.STABLE_MEMORY_SERIALIZE_SIZE -
            TradeLog.STABLE_MEMORY_SERIALIZE_SIZE)
          TradeLog.STABLE_MEMORY_SERIALIZE_SIZE h.store.logs.flatten) := by
    apply List.map_congr_left
    intro i hi
    have hmul : (i + 1) * TradeLog.STABLE_MEMORY_SERIALIZE_SIZE ≤
        MAX_LATEST_TRADE_LOGS_SPONSE_TRADE_DATA * TradeLog.STABLE_MEMORY_SERIALIZE_SIZE :=
      Nat.mul_le_mul_right _ (List.mem_range.mp hi)
    rw [Nat.succ_mul] at hmul
    have hsize : h.data.log_size = TradeLog.STABLE_MEMORY_SERIALIZE_SIZE := hs.size
    rw [StorageCanister.latest_trade, StorageCanister.read_memory, StorageCanister.logs_memory_i,
      hsize, hs.memory, if_pos (by omega), Option.bind_some]
  rw [Reads, hlen, hturns, hmap, SpelledOut]
  constructor
  · intro hread
    exact ⟨hlt, hle, hread⟩
  · rintro ⟨-, -, hread⟩
    exact hread

theorem below_eq_nil : below opt_start_before_id h.store.ids = [] ↔
    h.store.countBelow opt_start_before_id = 0 := by
  rw [Store.below_ids, List.range'_eq_nil_iff]

theorem reads_one (hs : h.Stored TradeLog.storage)
    (hcount : h.store.countBelow opt_start_before_id = 1)
    (hreach : ∀ start_before_id ∈ opt_start_before_id,
      TradeLog.STABLE_MEMORY_SERIALIZE_SIZE ≤ h.reach start_before_id)
    {log : List Byte} (hlog : h.store.logs[0]? = some log)
    (htime : tradeTimestamp log < 2 ^ 64) : h.Reads opt_start_before_id := by
  have hpos : 0 < h.store.logs.length := (List.getElem?_eq_some_iff.mp hlog).1
  have hmax := two_le_max
  have hlen : h.data.logs_storage_till_start_before_id_len_i opt_start_before_id =
      1 * TradeLog.STABLE_MEMORY_SERIALIZE_SIZE := by
    cases opt_start_before_id with
    | none =>
      have hone : h.store.logs.length = 1 := hcount
      rw [len_i_none hs, hone]
    | some start_before_id =>
      have hreach := hreach start_before_id rfl
      rw [Store.countBelow] at hcount
      rw [len_i_some hs]
      rcases Nat.lt_or_ge 1 h.store.logs.length with hmore | hone
      · have hstart : start_before_id - h.store.first = 1 := by omega
        have hmul : 1 * TradeLog.STABLE_MEMORY_SERIALIZE_SIZE ≤
            h.store.logs.length * TradeLog.STABLE_MEMORY_SERIALIZE_SIZE :=
          Nat.mul_le_mul_right _ hmore.le
        rw [reach_of_le hs (by omega), hstart, Nat.min_eq_left hmul]
      · have hlogs : h.store.logs.length = 1 := by omega
        rw [hlogs]
        omega
  have hturns : h.turns opt_start_before_id = 1 := by
    rw [turns, hlen, Nat.mul_div_cancel _ (by decide)]
    omega
  have hfirst : 0 < min (h.store.countBelow opt_start_before_id)
      MAX_LATEST_TRADE_LOGS_SPONSE_TRADE_DATA := by omega
  obtain ⟨log', hlog', hitem⟩ := h.pageTrades_get hfirst
  have hzero : h.store.countBelow opt_start_before_id -
      MAX_LATEST_TRADE_LOGS_SPONSE_TRADE_DATA + 0 = 0 := by omega
  rw [hzero, hlog] at hlog'
  obtain rfl := Option.some.inj hlog'
  have hlength := h.pageTrades_length opt_start_before_id
  obtain ⟨item, hpage⟩ := List.length_eq_one_iff.mp
    (show (h.pageTrades opt_start_before_id).length = 1 by omega)
  rw [hpage] at hitem
  obtain rfl : item = tradeItem log := Option.some.inj hitem
  have htrade : h.data.latest_trade (1 * TradeLog.STABLE_MEMORY_SERIALIZE_SIZE) 0 =
      some (tradeItem log) := by
    rw [latest_trade_aligned hs hlog, if_pos htime]
  rw [Reads, hturns, hpage, hlen, List.range_one, List.map_singleton, htrade, List.map_singleton]

theorem Reads.one_before (hs : h.Stored TradeLog.storage) (hread : h.Reads opt_start_before_id)
    (hturns : h.turns opt_start_before_id ≤ 1) : h.OneBefore opt_start_before_id := by
  have heq := hread.turns_eq
  have hmax := two_le_max
  by_cases hzero : h.store.countBelow opt_start_before_id = 0
  · exact Or.inl (below_eq_nil.mpr hzero)
  have hcount : h.store.countBelow opt_start_before_id = 1 := by omega
  have hone : h.turns opt_start_before_id = 1 := by omega
  obtain ⟨log, hlog, hitem⟩ := hread.get (i := 0) (by omega)
  have hindex : h.store.countBelow opt_start_before_id -
      MAX_LATEST_TRADE_LOGS_SPONSE_TRADE_DATA + 0 = 0 := by omega
  rw [hindex] at hlog
  refine Or.inr ⟨h.store.first, log, ?_, ?_, latest_trade_timestamp hitem, ?_⟩
  · rw [Store.below_ids, hcount, List.range'_one]
  · rw [← Nat.add_zero h.store.first, Store.get_first_add, hlog]
  · rintro start_before_id hstart
    obtain rfl := Option.mem_def.mp hstart
    have hdiv : 1 ≤ h.data.logs_storage_till_start_before_id_len_i (some start_before_id) /
        TradeLog.STABLE_MEMORY_SERIALIZE_SIZE := by
      unfold turns at hone
      omega
    rw [Nat.le_div_iff_mul_le (by decide), len_i_some hs] at hdiv
    omega

/-- A loop of two turns reads two trades in their order only off the logs. -/
theorem Reads.spelled_out (hs : h.Stored TradeLog.storage) (hread : h.Reads opt_start_before_id)
    (hturns : ¬ h.turns opt_start_before_id ≤ 1) :
    ∃ start_before_id ∈ opt_start_before_id, h.SpelledOut start_before_id := by
  have hoff : ∀ n, n ≤ h.store.logs.length →
      h.data.logs_storage_till_start_before_id_len_i opt_start_before_id ≠
        n * TradeLog.STABLE_MEMORY_SERIALIZE_SIZE :=
    fun n hn hlen => hturns (hread.one_turn hs hn hlen)
  have heq := hread.turns_eq
  cases opt_start_before_id with
  | none => exact absurd (len_i_none hs) (hoff _ (Nat.le_refl _))
  | some start_before_id =>
    have hfull := hoff h.store.logs.length (Nat.le_refl _)
    rw [len_i_some hs] at hfull hoff
    have hlt : h.reach start_before_id <
        h.store.logs.length * TradeLog.STABLE_MEMORY_SERIALIZE_SIZE := by omega
    rw [Nat.min_eq_left hlt.le] at hoff
    have hfar : h.store.logs.length < start_before_id - h.store.first := by
      by_contra hle
      exact hoff _ (by omega) (reach_of_le hs (by omega))
    have hdiv : h.reach start_before_id / TradeLog.STABLE_MEMORY_SERIALIZE_SIZE <
        h.store.logs.length := (Nat.div_lt_iff_lt_mul (by decide)).mpr hlt
    have hmany : MAX_LATEST_TRADE_LOGS_SPONSE_TRADE_DATA ≤
        h.reach start_before_id / TradeLog.STABLE_MEMORY_SERIALIZE_SIZE := by
      rw [turns, len_i_some hs, Nat.min_eq_left hlt.le, Store.countBelow] at heq
      omega
    refine ⟨start_before_id, rfl, ?_⟩
    refine (reads_spelled hs ?_ ((Nat.le_div_iff_mul_le (by decide)).mp hmany)).mp hread
    exact hlt.trans_eq hs.sized.flatten_length.symm

theorem reads_nothing (hs : h.Stored TradeLog.storage) (hne : h.store.logs ≠ [])
    (hnil : below opt_start_before_id h.store.ids = []) : h.Reads opt_start_before_id := by
  have hcount := below_eq_nil.mp hnil
  have hlength := h.pageTrades_length opt_start_before_id
  have hpage : h.pageTrades opt_start_before_id = [] :=
    List.length_eq_zero_iff.mp (by omega)
  have hturns : h.turns opt_start_before_id = 0 := by
    have hpos : 0 < h.store.logs.length := List.length_pos_of_ne_nil hne
    cases opt_start_before_id with
    | none =>
      rw [Store.countBelow] at hcount
      omega
    | some start_before_id =>
      rw [Store.countBelow] at hcount
      have hzero : start_before_id - h.store.first = 0 := by omega
      rw [turns, len_i_some hs, reach_of_le hs (by omega), hzero]
      simp
  rw [Reads, hturns, hpage]
  rfl

theorem reads_iff (hs : h.Stored TradeLog.storage) (hne : h.store.logs ≠ []) :
    h.Reads opt_start_before_id ↔ h.PagesWell opt_start_before_id := by
  constructor
  · intro hread
    by_cases hturns : h.turns opt_start_before_id ≤ 1
    · exact Or.inl (hread.one_before hs hturns)
    · exact Or.inr (hread.spelled_out hs hturns)
  · rintro ((hnil | ⟨id, log, hbelow, hget, htime, hreach⟩) | ⟨start_before_id, hstart, hspelled⟩)
    · exact reads_nothing hs hne hnil
    · have hlength := congrArg List.length hbelow
      rw [Store.below_ids, List.length_range', List.length_singleton] at hlength
      rw [Store.below_ids, hlength, List.range'_one, List.singleton_inj] at hbelow
      rw [← hbelow, ← Nat.add_zero h.store.first, Store.get_first_add] at hget
      exact reads_one hs hlength hreach hget htime
    · obtain rfl := Option.mem_def.mp hstart
      exact (reads_spelled hs hspelled.1 hspelled.2.1).mpr hspelled

theorem pages_iff_pages_well (hs : h.Stored TradeLog.storage) (opt_start_before_id : Option Nat) :
    h.Pages opt_start_before_id ↔ h.PagesWell opt_start_before_id := by
  by_cases hnil : h.store.logs = []
  · have hle := h.store.countBelow_le opt_start_before_id
    rw [hnil, List.length_nil] at hle
    have hbelow : below opt_start_before_id h.store.ids = [] := below_eq_nil.mpr (by omega)
    have hlength := h.pageTrades_length opt_start_before_id
    have hpage : h.pageTrades opt_start_before_id = [] :=
      List.length_eq_zero_iff.mp (by omega)
    have hmemory := memory_length hs
    rw [hnil, List.length_nil, Nat.zero_mul] at hmemory
    refine iff_of_true ⟨{ trades_data := [], is_last_chunk_on_this_canister := true }, ?_, ?_, ?_⟩
      (Or.inl (Or.inl hbelow))
    · rw [StorageCanister.view_latest_trades, hmemory, if_pos (by decide)]
    · rw [hpage]
    · simp [hbelow]
  · exact (pages_iff hs hnil opt_start_before_id).trans (reads_iff hs hnil)

/-! ## A client that pages -/

theorem view_aligned (hs : h.Stored TradeLog.storage) {n i : Nat} (hn : n ≤ h.store.logs.length)
    (hlen : h.data.logs_storage_till_start_before_id_len_i opt_start_before_id =
      n * TradeLog.STABLE_MEMORY_SERIALIZE_SIZE) {sponse : ViewLatestTradesSponse}
    (hview : h.data.view_latest_trades opt_start_before_id = some sponse)
    (hi : i < min n MAX_LATEST_TRADE_LOGS_SPONSE_TRADE_DATA) :
    ∃ log, h.store.logs[n - 1 - i]? = some log ∧
      sponse.trades_data[i]? = some (tradeItem log) ∧ tradeTimestamp log < 2 ^ 64 ∧
        sponse.is_last_chunk_on_this_canister = h.data.is_last_chunk sponse.trades_data := by
  have hne : h.store.logs ≠ [] := List.ne_nil_of_length_pos (by omega)
  have hturns : h.turns opt_start_before_id = min n MAX_LATEST_TRADE_LOGS_SPONSE_TRADE_DATA := by
    rw [turns, hlen, Nat.mul_div_cancel _ (by decide)]
  obtain ⟨log, hlog⟩ : ∃ log, h.store.logs[n - 1 - i]? = some log :=
    ⟨_, List.getElem?_eq_getElem (by omega)⟩
  rw [view_eq hs hne, Option.map_eq_some_iff] at hview
  obtain ⟨trades_data, hloop, rfl⟩ := hview
  have hget := congrArg (fun l => l[i]?) (StorageCanister.latest_trades_eq_some.mp hloop)
  rw [← hturns] at hi
  simp only [List.getElem?_map, List.getElem?_range hi, Option.map_some, hlen] at hget
  obtain ⟨item, hitem, heq⟩ := Option.map_eq_some_iff.mp hget.symm
  obtain rfl := latest_trade_some hs hlog heq.symm
  exact ⟨log, hlog, hitem, latest_trade_timestamp heq.symm, rfl⟩

theorem ClientSees.view {data : StorageCanister PositionId} {seen : List LatestTradesDataItem}
    (hsees : ClientSees data opt_start_before_id seen) :
    ∃ sponse, data.view_latest_trades opt_start_before_id = some sponse ∧
      ∀ item ∈ sponse.trades_data, item ∈ seen := by
  cases hsees with
  | last hview => exact ⟨_, hview, fun _ hitem => hitem⟩
  | more hview _ _ => exact ⟨_, hview, fun _ hitem => List.mem_append_right _ hitem⟩

theorem trade_items_nodup (hs : h.Stored TradeLog.storage) :
    (h.store.logs.map tradeItem).Nodup := by
  refine List.Nodup.of_map Prod.fst ?_
  have hids : (h.store.logs.map tradeItem).map Prod.fst = h.store.ids := by
    apply List.ext_getElem?
    intro i
    rw [List.getElem?_map, List.getElem?_map, Store.ids]
    by_cases hi : i < h.store.logs.length
    · have hget := List.getElem?_eq_getElem hi
      rw [hget, Option.map_some, Option.map_some, tradeItem_id hs hget, List.getElem?_range' hi,
        Nat.one_mul]
    · rw [List.getElem?_eq_none (by omega), List.getElem?_eq_none (by simpa using hi)]
      rfl
  rw [hids]
  exact List.nodup_range'

theorem ClientSees.not_nodup (hs : h.Stored TradeLog.storage)
    (htwo : 2 ≤ h.store.logs.length) {seen : List LatestTradesDataItem}
    (hsees : ClientSees h.data none seen) : ¬ seen.Nodup := by
  have hmax := two_le_max
  have hlen := len_i_none hs
  cases hsees with
  | last hview =>
    obtain ⟨log, hlog, hitem, -, hflag⟩ := view_aligned hs (Nat.le_refl _) hlen hview
      (i := 0) (by omega)
    rw [StorageCanister.is_last_chunk, List.head?_eq_getElem?, hitem] at hflag
    simp only [tradeItem_id hs hlog, hs.first] at hflag
    have := of_decide_eq_true hflag.symm
    omega
  | more hview hhead hrest =>
    obtain ⟨log, hlog, hitem, -, -⟩ := view_aligned hs (Nat.le_refl _) hlen hview
      (i := 0) (by omega)
    obtain ⟨older, holder, hshared, -, -⟩ := view_aligned hs (Nat.le_refl _) hlen hview
      (i := 1) (by omega)
    rw [List.head?_eq_getElem?, hitem] at hhead
    obtain rfl := Option.some.inj hhead
    obtain ⟨sponse, hagain, hseen⟩ := hrest.view
    rw [tradeItem_id hs hlog] at hagain
    have hstart : h.store.first + (h.store.logs.length - 1 - 0) - h.store.first =
        h.store.logs.length - 1 := by omega
    have hmul : (h.store.logs.length - 1) * TradeLog.STABLE_MEMORY_SERIALIZE_SIZE ≤
        h.store.logs.length * TradeLog.STABLE_MEMORY_SERIALIZE_SIZE :=
      Nat.mul_le_mul_right _ (by omega)
    have hlen' := len_i_some hs (h.store.first + (h.store.logs.length - 1 - 0))
    rw [reach_of_le hs (by omega), hstart, Nat.min_eq_left hmul] at hlen'
    obtain ⟨older', holder', hshared', -, -⟩ := view_aligned hs (Nat.sub_le _ _) hlen' hagain
      (i := 0) (by omega)
    have hsame : older = older' := by
      have hindex : h.store.logs.length - 1 - 1 - 0 = h.store.logs.length - 1 - 1 := rfl
      rw [hindex, holder] at holder'
      exact Option.some.inj holder'
    subst hsame
    intro hnodup
    exact (List.disjoint_of_nodup_append hnodup) (hseen _ (List.mem_of_getElem? hshared'))
      (List.mem_of_getElem? hshared)

theorem sees_each_once_iff (hs : h.Stored TradeLog.storage) :
    h.SeesEachOnce ↔
      h.store.logs.length ≤ 1 ∧ ∀ log ∈ h.store.logs, tradeTimestamp log < 2 ^ 64 := by
  constructor
  · rintro ⟨seen, hsees, hperm⟩
    have hone : h.store.logs.length ≤ 1 := by
      by_contra htwo
      exact hsees.not_nodup hs (by omega) (hperm.nodup_iff.mpr (trade_items_nodup hs))
    refine ⟨hone, fun log hmem => ?_⟩
    have hmax := two_le_max
    have hpos := List.length_pos_of_mem hmem
    obtain ⟨sponse, hview, -⟩ := hsees.view
    obtain ⟨log', hlog', -, htime, -⟩ := view_aligned hs (Nat.le_refl _) (len_i_none hs) hview
      (i := 0) (by omega)
    obtain ⟨only, honly⟩ := List.length_eq_one_iff.mp (show h.store.logs.length = 1 by omega)
    rw [honly] at hmem hlog'
    rw [List.mem_singleton.mp hmem]
    have hsame : only = log' := Option.some.inj hlog'
    rwa [hsame]
  · rintro ⟨hone, htime⟩
    have hmax := two_le_max
    have hwell : h.PagesWell none := by
      by_cases hzero : h.store.logs.length = 0
      · exact Or.inl (Or.inl (below_eq_nil.mpr hzero))
      have hlen : h.store.logs.length = 1 := by omega
      obtain ⟨log, hlog⟩ := List.length_eq_one_iff.mp hlen
      refine Or.inl (Or.inr ⟨h.store.first, log, ?_, ?_, htime log (by simp [hlog]), by simp⟩)
      · rw [Store.below_ids, Store.countBelow, hlen, List.range'_one]
      · rw [← Nat.add_zero h.store.first, Store.get_first_add, hlog]
        rfl
    obtain ⟨sponse, hview, htrades, hflag⟩ := (pages_iff_pages_well hs none).mpr hwell
    have hall : h.page none = h.store.ids := by
      have hlength : h.store.ids.length = h.store.logs.length := List.length_range'
      unfold page below newest
      rw [hlength, Nat.sub_eq_zero_of_le (by omega), List.drop_zero]
    have hpage : h.pageTrades none = h.store.logs.map tradeItem := by
      have hget := h.store.filterMap_get (i := 0) (n := h.store.logs.length) (by omega)
      rw [List.drop_zero, List.take_length, Nat.add_zero] at hget
      rw [pageTrades, hall, Store.ids, hget]
    have hlast : sponse.is_last_chunk_on_this_canister = true := by
      rw [hflag, hall]
      intro id hid
      exact hid
    refine ⟨sponse.trades_data, .last ?_, ?_⟩
    · rw [hview, ← hlast]
    · rw [htrades, hpage]

end turns

end StorageHistory

/-! ## Every history -/

/-- In every history: which answers are the page, and when a client that pages sees every trade
exactly once. -/
theorem latest_trades_page_iff {h : StorageHistory PositionId}
    (hr : StorageHistory.Reachable TradeLog.storage (fun _ => True) h) :
    (∀ opt_start_before_id, h.Pages opt_start_before_id ↔ h.PagesWell opt_start_before_id) ∧
      (h.SeesEachOnce ↔
        h.store.logs.length ≤ 1 ∧ ∀ log ∈ h.store.logs, tradeTimestamp log < 2 ^ 64) := by
  have hs := hr.stored TradeLog.storage_lawful
  exact ⟨StorageHistory.pages_iff_pages_well hs, StorageHistory.sees_each_once_iff hs⟩

def blankTradeLog : List Byte := List.replicate 225 0

def nextTradeLog : List Byte := List.replicate 33 0 ++ [1] ++ List.replicate 191 0

def oneBlankTrade : StorageHistory PositionId :=
  (StorageHistory.init TradeLog.storage).call TradeLog.storage (.flush true [blankTradeLog])

def twoBlankTrades : StorageHistory PositionId :=
  oneBlankTrade.call TradeLog.storage (.flush true [nextTradeLog])

theorem oneBlankTrade_reachable :
    StorageHistory.Reachable TradeLog.storage (fun _ => True) oneBlankTrade :=
  .call .init (.flush 0 (by decide +kernel))

theorem one_blank_trade_pages : oneBlankTrade.Pages none ∧ oneBlankTrade.SeesEachOnce := by
  have hlogs : oneBlankTrade.store.logs = [blankTradeLog] := by decide +kernel
  have htime : tradeTimestamp blankTradeLog < 2 ^ 64 := by decide +kernel
  obtain ⟨hpages, hsees⟩ := latest_trades_page_iff oneBlankTrade_reachable
  constructor
  · refine (hpages none).mpr (Or.inl (Or.inr ⟨0, blankTradeLog, ?_, ?_, htime, by simp⟩))
    · decide +kernel
    · decide +kernel
  · rw [hsees, hlogs]
    simpa using htime

theorem twoBlankTrades_reachable :
    StorageHistory.Reachable TradeLog.storage (fun _ => True) twoBlankTrades :=
  oneBlankTrade_reachable.call (.flush 1 (by decide +kernel))

/-- Two trades come back newest first, and the older one is not told to be the last. -/
theorem two_blank_trades_do_not_page :
    ¬ ∀ h, StorageHistory.Reachable TradeLog.storage (fun _ => True) h →
      (∀ opt_start_before_id, h.Pages opt_start_before_id) ∧ h.SeesEachOnce := by
  intro hall
  obtain ⟨sponse, hview, htrades, -⟩ := (hall _ twoBlankTrades_reachable).1 none
  have hanswer : twoBlankTrades.data.view_latest_trades none = some {
      trades_data := [(1, 0, 0, 0), (0, 0, 0, 0)]
      is_last_chunk_on_this_canister := false } := by decide +kernel
  have hpage : twoBlankTrades.pageTrades none = [(0, 0, 0, 0), (1, 0, 0, 0)] := by
    decide +kernel
  rw [hanswer] at hview
  obtain rfl := Option.some.inj hview
  rw [hpage] at htrades
  revert htrades
  decide

end Cts.Tc
