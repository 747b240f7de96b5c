import Cts.Icrc
import Cts.Lib.OrdMap

/-!
# The data of a trade contract

`cts_lib/src/types/cm/tc`: quests, positions, void positions, trade logs, and the bytes that the
two kinds of logs are stored as. A quest holds 128-bit words, a position never holds more than its
quest put in.
-/

namespace Cts.Tc

open Lib

abbrev PositionId := Nat
abbrev PurchaseId := Nat

inductive PositionKind
  | Cycles
  | Token
  deriving DecidableEq

def PositionKind.other : PositionKind → PositionKind
  | .Cycles => .Token
  | .Token => .Cycles

/-! ## Quests -/

structure TradeCyclesQuest where
  cycles : Nat
  cycles_per_token_rate : Nat
  posit_transfer_ledger_fee : Option Nat
  return_cycles_to_subaccount : Option IcrcSubaccount
  payout_tokens_to_subaccount : Option IcrcSubaccount
  cycles_lt : cycles < 2 ^ 128
  rate_lt : cycles_per_token_rate < 2 ^ 128
  deriving DecidableEq

structure TradeTokensQuest where
  tokens : Nat
  cycles_per_token_rate : Nat
  posit_transfer_ledger_fee : Option Nat
  return_tokens_to_subaccount : Option IcrcSubaccount
  payout_cycles_to_subaccount : Option IcrcSubaccount
  tokens_lt : tokens < 2 ^ 128
  rate_lt : cycles_per_token_rate < 2 ^ 128
  deriving DecidableEq

inductive TradeError
  | MinimumPosition (minimum_cycles minimum_tokens : Nat)
  | RateCannotBeZero
  | CallerIsInTheMiddleOfADifferentCallThatLocksTheBalance
  | CyclesMarketIsBusy
  | CreatePositionLedgerTransferCallError (e : CallError)
  | CreatePositionLedgerTransferError (e : Icrc1TransferError)
  deriving DecidableEq

structure TransferBalanceQuest where
  amount : Nat
  ledger_transfer_fee : Option Nat
  «to» : IcrcId
  deriving DecidableEq

inductive TransferBalanceError
  | CyclesMarketIsBusy
  | CallerIsInTheMiddleOfADifferentCallThatLocksTheBalance
  | TransferCallError (e : CallError)
  | TransferError (e : Icrc1TransferError)
  deriving DecidableEq

inductive VoidPositionError
  | WrongCaller
  | MinimumWaitTime (minimum_wait_time_seconds position_creation_timestamp_seconds : Nat)
  | PositionNotFound
  deriving DecidableEq

/-! ## Logs -/

structure PayoutData where
  did_transfer : Bool
  ledger_transfer_fee : Nat
  deriving DecidableEq

structure TradeLog where
  position_id_matcher : PositionId
  position_id_matchee : PositionId
  id : PurchaseId
  matchee_position_positor : Principal
  matcher_position_positor : Principal
  tokens : Nat
  cycles : Nat
  cycles_per_token_rate : Nat
  matchee_position_kind : PositionKind
  timestamp_nanos : Nat
  tokens_payout_fee : Nat
  cycles_payout_fee : Nat
  cycles_payout_data : Option PayoutData
  token_payout_data : Option PayoutData
  deriving DecidableEq

structure TradeLogTemporaryData where
  cycles_payout_lock : Bool
  token_payout_lock : Bool
  payout_cycles_to_subaccount : Option IcrcSubaccount
  payout_tokens_to_subaccount : Option IcrcSubaccount
  deriving DecidableEq

structure TradeLogAndTemporaryData where
  log : TradeLog
  temporary_data : TradeLogTemporaryData
  deriving DecidableEq

def TradeLogAndTemporaryData.can_move_into_the_stable_memory_for_the_long_term_storage
    (tl : TradeLogAndTemporaryData) : Bool :=
  tl.temporary_data.cycles_payout_lock = false && tl.temporary_data.token_payout_lock = false &&
    tl.log.cycles_payout_data.isSome && tl.log.token_payout_data.isSome

/-- Whose cycles a trade pays out, as `_do_payouts` picks the owner. -/
def TradeLogAndTemporaryData.cycles_payee (tl : TradeLogAndTemporaryData) : IcrcId :=
  { owner := match tl.log.matchee_position_kind with
      | .Cycles => tl.log.matcher_position_positor
      | .Token => tl.log.matchee_position_positor
    subaccount := tl.temporary_data.payout_cycles_to_subaccount }

def TradeLogAndTemporaryData.token_payee (tl : TradeLogAndTemporaryData) : IcrcId :=
  { owner := match tl.log.matchee_position_kind with
      | .Cycles => tl.log.matchee_position_positor
      | .Token => tl.log.matcher_position_positor
    subaccount := tl.temporary_data.payout_tokens_to_subaccount }

inductive PositionTerminationCause
  | Fill
  | Bump
  | TimePass
  | UserCallVoidPosition
  deriving DecidableEq

structure PositionTerminationData where
  timestamp_nanos : Nat
  cause : PositionTerminationCause
  deriving DecidableEq

structure CreatePositionQuestLog where
  quantity : Nat
  cycles_per_token_rate : Nat
  deriving DecidableEq

structure PositionLog where
  id : PositionId
  positor : Principal
  quest : CreatePositionQuestLog
  position_kind : PositionKind
  mainder_position_quantity : Nat
  fill_quantity : Nat
  fill_average_rate : Nat
  payouts_fees_sum : Nat
  creation_timestamp_nanos : Nat
  position_termination : Option PositionTerminationData
  void_position_payout_dust_collection : Bool
  void_position_payout_ledger_transfer_fee : Nat
  deriving DecidableEq

/-! ## Serialization -/

/-- `to_be_bytes` of a number of `len` bytes. -/
def to_be_bytes : Nat → Nat → List Byte
  | 0, _ => []
  | len + 1, n => to_be_bytes len (n / 256) ++ [UInt8.ofNat n]

@[simp]
theorem to_be_bytes_length (len n : Nat) : (to_be_bytes len n).length = len := by
  induction len generalizing n with
  | zero => rfl
  | succ len ih => simp [to_be_bytes, ih]

def bool_as_u8 (b : Bool) : Byte := if b then 1 else 0

def PositionKind.byte : PositionKind → Byte
  | .Cycles => 0
  | .Token => 1

def PositionTerminationCause.byte : PositionTerminationCause → Byte
  | .Fill => 0
  | .Bump => 1
  | .TimePass => 2
  | .UserCallVoidPosition => 3

def PositionLog.STABLE_MEMORY_SERIALIZE_SIZE : Nat := 172
def TradeLog.STABLE_MEMORY_SERIALIZE_SIZE : Nat := 225

/-- The bytes 153 to 162. -/
def termination_bytes : Option PositionTerminationData → List Byte
  | some data => 1 :: to_be_bytes 8 data.timestamp_nanos ++ [data.cause.byte]
  | none => List.replicate 10 0

def PositionLog.stable_memory_serialize (log : PositionLog) : List Byte :=
  to_be_bytes 2 0 ++ to_be_bytes 16 log.id ++ principal_as_thirty_bytes log.positor ++
    to_be_bytes 16 log.quest.quantity ++ to_be_bytes 16 log.quest.cycles_per_token_rate ++
    [log.position_kind.byte] ++ to_be_bytes 16 log.mainder_position_quantity ++
    to_be_bytes 16 log.fill_quantity ++ to_be_bytes 16 log.fill_average_rate ++
    to_be_bytes 16 log.payouts_fees_sum ++ to_be_bytes 8 log.creation_timestamp_nanos ++
    termination_bytes log.position_termination ++
    [bool_as_u8 log.void_position_payout_dust_collection] ++
    to_be_bytes 8 log.void_position_payout_ledger_transfer_fee

theorem termination_bytes_length (t : Option PositionTerminationData) :
    (termination_bytes t).length = 10 := by
  cases t <;> simp [termination_bytes]

theorem PositionLog.stable_memory_serialize_length (log : PositionLog) :
    log.stable_memory_serialize.length = PositionLog.STABLE_MEMORY_SERIALIZE_SIZE := by
  simp [PositionLog.stable_memory_serialize, termination_bytes_length,
    PositionLog.STABLE_MEMORY_SERIALIZE_SIZE]

def payout_fee_bytes : Option PayoutData → List Byte
  | some data => to_be_bytes 8 data.ledger_transfer_fee
  | none => List.replicate 8 0

def payout_dust_byte : Option PayoutData → Byte
  | some data => bool_as_u8 (data.did_transfer = false)
  | none => 0

def TradeLog.stable_memory_serialize (log : TradeLog) : List Byte :=
  to_be_bytes 2 0 ++ to_be_bytes 16 log.position_id_matchee ++ to_be_bytes 16 log.id ++
    principal_as_thirty_bytes log.matchee_position_positor ++
    principal_as_thirty_bytes log.matcher_position_positor ++ to_be_bytes 16 log.tokens ++
    to_be_bytes 16 log.cycles ++ to_be_bytes 16 log.cycles_per_token_rate ++
    [log.matchee_position_kind.byte] ++ to_be_bytes 16 log.timestamp_nanos ++
    to_be_bytes 16 log.tokens_payout_fee ++ to_be_bytes 16 log.cycles_payout_fee ++
    to_be_bytes 16 log.position_id_matcher ++ payout_fee_bytes log.cycles_payout_data ++
    payout_fee_bytes log.token_payout_data ++
    [payout_dust_byte log.cycles_payout_data, payout_dust_byte log.token_payout_data]

theorem payout_fee_bytes_length (d : Option PayoutData) : (payout_fee_bytes d).length = 8 := by
  cases d <;> simp [payout_fee_bytes]

theorem TradeLog.stable_memory_serialize_length (log : TradeLog) :
    log.stable_memory_serialize.length = TradeLog.STABLE_MEMORY_SERIALIZE_SIZE := by
  simp [TradeLog.stable_memory_serialize, payout_fee_bytes_length,
    TradeLog.STABLE_MEMORY_SERIALIZE_SIZE]

/-! ## Positions -/

structure CyclesPosition where
  id : PositionId
  positor : Principal
  quest : TradeCyclesQuest
  current_position_cycles : Nat
  purchases_rates_times_cycles_quantities_sum : Nat
  fill_quantity_tokens : Nat
  tokens_payouts_fees_sum : Nat
  timestamp_nanos : Nat
  current_le : current_position_cycles ≤ quest.cycles
  deriving DecidableEq

structure TokenPosition where
  id : PositionId
  positor : Principal
  quest : TradeTokensQuest
  current_position_tokens : Nat
  purchases_rates_times_token_quantities_sum : Nat
  cycles_payouts_fees_sum : Nat
  timestamp_nanos : Nat
  current_le : current_position_tokens ≤ quest.tokens
  deriving DecidableEq

structure VPUpdateStoragePositionData where
  lock : Bool
  status : Bool
  update_storage_position_log : PositionLog
  deriving DecidableEq

/-- `VoidCyclesPosition` and `VoidTokenPosition`: they differ in the names of their fields. -/
structure VoidPosition where
  position_id : PositionId
  positor : Principal
  quantity : Nat
  payout_lock : Bool
  payout_data : Option PayoutData
  timestamp_nanos : Nat
  update_storage_position_data : VPUpdateStoragePositionData
  return_to_subaccount : Option IcrcSubaccount
  deriving DecidableEq

abbrev VoidCyclesPosition := VoidPosition
abbrev VoidTokenPosition := VoidPosition

def VoidPosition.can_remove (vp : VoidPosition) : Bool :=
  vp.payout_data.isSome && vp.update_storage_position_data.status = true

/-! ## Candles -/

structure Candle where
  time_nanos : Nat
  volume_cycles : Nat
  volume_tokens : Nat
  open_rate : Nat
  high_rate : Nat
  low_rate : Nat
  close_rate : Nat
  deriving DecidableEq

structure CandleCounter where
  segments_1_minute : List Candle
  volume_cycles : Nat
  volume_tokens : Nat
  deriving DecidableEq

/-- One-minute segments. -/
def segment_start_time_nanos (time_nanos : Nat) : Nat :=
  saturating_sub time_nanos (time_nanos % (1000000000 * 60))

def CandleCounter.count_trade (c : CandleCounter) (tl : TradeLog) : CandleCounter :=
  let current_segment_start_time_nanos := segment_start_time_nanos (Word.wrap 64 tl.timestamp_nanos)
  let new_candle : Candle :=
    { time_nanos := current_segment_start_time_nanos
      volume_cycles := tl.cycles
      volume_tokens := tl.tokens
      open_rate := tl.cycles_per_token_rate
      high_rate := tl.cycles_per_token_rate
      low_rate := tl.cycles_per_token_rate
      close_rate := tl.cycles_per_token_rate }
  let segments := match c.segments_1_minute.getLast? with
    | none => c.segments_1_minute ++ [new_candle]
    | some current_candle =>
      if current_candle.time_nanos < current_segment_start_time_nanos then
        c.segments_1_minute ++ [new_candle]
      else
        c.segments_1_minute.dropLast ++
          [{ current_candle with
              volume_cycles := saturating_add current_candle.volume_cycles tl.cycles
              volume_tokens := saturating_add current_candle.volume_tokens tl.tokens
              high_rate := max current_candle.high_rate tl.cycles_per_token_rate
              low_rate := min current_candle.low_rate tl.cycles_per_token_rate
              close_rate := tl.cycles_per_token_rate }]
  { segments_1_minute := segments
    volume_cycles := saturating_add c.volume_cycles tl.cycles
    volume_tokens := saturating_add c.volume_tokens tl.tokens }

end Cts.Tc
