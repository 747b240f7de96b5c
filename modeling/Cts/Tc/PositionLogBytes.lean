import Cts.Tc.StorageViews
import Cts.Tc.TradeLogBytes

/-!
# The bytes of a position log

`position_log.rs`. The termination of a position has its own flag, so a log is read back with it or
without it. A byte that is no cause of a termination panics.
-/

namespace Cts.Tc

/-! ## Reading -/

def read_u64 (start : Nat) (b : List Byte) : Option Nat := (try_slice start 8 b).map from_be_bytes

/-- An unknown cause panics. -/
def PositionTerminationCause.of_byte (b : Byte) : Option PositionTerminationCause :=
  if b = 0 then some .Fill
  else if b = 1 then some .Bump
  else if b = 2 then some .TimePass
  else if b = 3 then some .UserCallVoidPosition
  else none

def position_termination_backwards (b : List Byte) : Option (Option PositionTerminationData) := do
  let flag : Byte ← b[153]?
  if flag = 1 then
    let timestamp_nanos ← read_u64 154 b
    let cause_byte : Byte ← b[162]?
    let cause ← PositionTerminationCause.of_byte cause_byte
    return some { timestamp_nanos, cause }
  else return none

namespace PositionLog

def stable_memory_serialize_backwards (b : List Byte) : Option PositionLog := do
  let id ← read_u128 2 b
  let positor ← read_principal 18 b
  let quantity ← read_u128 48 b
  let cycles_per_token_rate ← read_u128 64 b
  let kind : Byte ← b[80]?
  let mainder_position_quantity ← read_u128 81 b
  let fill_quantity ← read_u128 97 b
  let fill_average_rate ← read_u128 113 b
  let payouts_fees_sum ← read_u128 129 b
  let creation_timestamp_nanos ← read_u64 145 b
  let position_termination ← position_termination_backwards b
  let dust_collection : Byte ← b[163]?
  let void_position_payout_ledger_transfer_fee ← read_u64 164 b
  return {
    id, positor
    quest := { quantity, cycles_per_token_rate }
    position_kind := if kind = 0 then .Cycles else .Token
    mainder_position_quantity, fill_quantity, fill_average_rate, payouts_fees_sum
    creation_timestamp_nanos, position_termination
    void_position_payout_dust_collection := dust_collection = 1
    void_position_payout_ledger_transfer_fee }

/-! ## Fields -/

def termination_flag (t : Option PositionTerminationData) : Byte := if t.isSome then 1 else 0

def termination_time (t : Option PositionTerminationData) : List Byte :=
  to_be_bytes 8 (t.elim 0 PositionTerminationData.timestamp_nanos)

def termination_cause (t : Option PositionTerminationData) : Byte :=
  t.elim 0 fun data => data.cause.byte

theorem termination_bytes_eq (t : Option PositionTerminationData) :
    termination_bytes t = [termination_flag t] ++ termination_time t ++ [termination_cause t] := by
  cases t with
  | none => decide
  | some data => rfl

/-- The fields in the order of their places. -/
def fields (log : PositionLog) : List (List Byte) :=
  [to_be_bytes 2 0, to_be_bytes 16 log.id, principal_as_thirty_bytes log.positor,
    to_be_bytes 16 log.quest.quantity, to_be_bytes 16 log.quest.cycles_per_token_rate,
    [log.position_kind.byte], to_be_bytes 16 log.mainder_position_quantity,
    to_be_bytes 16 log.fill_quantity, to_be_bytes 16 log.fill_average_rate,
    to_be_bytes 16 log.payouts_fees_sum, to_be_bytes 8 log.creation_timestamp_nanos,
    [termination_flag log.position_termination], termination_time log.position_termination,
    [termination_cause log.position_termination],
    [bool_as_u8 log.void_position_payout_dust_collection],
    to_be_bytes 8 log.void_position_payout_ledger_transfer_fee]

def FIELD_LENGTHS : List Nat := [2, 16, 30, 16, 16, 1, 16, 16, 16, 16, 8, 1, 8, 1, 1, 8]

theorem layout (log : PositionLog) :
    Layout FIELD_LENGTHS log.fields log.stable_memory_serialize := by
  constructor
  · unfold stable_memory_serialize
    rw [termination_bytes_eq]
    simp [fields]
  · simp [fields, FIELD_LENGTHS, termination_time]

/-- The numbers of a log are `u128`s, and its times and its ledger fee are `u64`s. -/
structure Words (log : PositionLog) : Prop where
  id : log.id < 2 ^ 128
  quantity : log.quest.quantity < 2 ^ 128
  cycles_per_token_rate : log.quest.cycles_per_token_rate < 2 ^ 128
  mainder_position_quantity : log.mainder_position_quantity < 2 ^ 128
  fill_quantity : log.fill_quantity < 2 ^ 128
  fill_average_rate : log.fill_average_rate < 2 ^ 128
  payouts_fees_sum : log.payouts_fees_sum < 2 ^ 128
  creation_timestamp_nanos : log.creation_timestamp_nanos < 2 ^ 64
  termination_timestamp_nanos : ∀ data ∈ log.position_termination, data.timestamp_nanos < 2 ^ 64
  ledger_transfer_fee : log.void_position_payout_ledger_transfer_fee < 2 ^ 64

variable {log : PositionLog}

theorem u128_at {i start n : Nat} (h : log.fields[i]? = some (to_be_bytes 16 n))
    (hstart : (FIELD_LENGTHS.take i).sum = start) (hle : start + 16 ≤ 172) (hn : n < 2 ^ 128) :
    read_u128 start log.stable_memory_serialize = some n := by
  apply log.layout.read_u128_eq h hstart _ hn
  rwa [stable_memory_serialize_length]

theorem u64_at {i start n : Nat} (h : log.fields[i]? = some (to_be_bytes 8 n))
    (hstart : (FIELD_LENGTHS.take i).sum = start) (hle : start + 8 ≤ 172) (hn : n < 2 ^ 64) :
    read_u64 start log.stable_memory_serialize = some n := by
  have hslice : try_slice start 8 log.stable_memory_serialize = some (to_be_bytes 8 n) := by
    apply log.layout.try_slice_eq h hstart (to_be_bytes_length 8 n)
    rwa [stable_memory_serialize_length]
  unfold read_u64
  rw [hslice, Option.map_some, from_be_bytes_to_be_bytes]
  exact congrArg some (Nat.mod_eq_of_lt hn)

theorem positorAt : read_principal 18 log.stable_memory_serialize = some log.positor := by
  apply log.layout.read_principal_eq (i := 2) rfl rfl
  rw [stable_memory_serialize_length]
  decide

theorem of_byte_byte (cause : PositionTerminationCause) :
    PositionTerminationCause.of_byte cause.byte = some cause := by
  cases cause <;> rfl

theorem termination_read (hw : log.Words) :
    position_termination_backwards log.stable_memory_serialize = some log.position_termination := by
  have hflag : log.stable_memory_serialize[153]? =
      some (termination_flag log.position_termination) := log.layout.read_byte_eq (i := 11) rfl rfl
  have hcause : log.stable_memory_serialize[162]? =
      some (termination_cause log.position_termination) := log.layout.read_byte_eq (i := 13) rfl rfl
  have htime (data : PositionTerminationData) (hdata : data ∈ log.position_termination) :
      read_u64 154 log.stable_memory_serialize = some data.timestamp_nanos := by
    apply u64_at (i := 12) _ rfl (by decide) (hw.termination_timestamp_nanos data hdata)
    change some (termination_time log.position_termination) = _
    rw [Option.mem_def.mp hdata]
    rfl
  unfold position_termination_backwards
  rw [hflag, hcause]
  cases htermination : log.position_termination with
  | none => rfl
  | some data =>
    have hflag : termination_flag (some data) = 1 := rfl
    simp only [hflag, htime data htermination, Option.bind_eq_bind, Option.bind_some, if_true]
    unfold termination_cause
    rw [Option.elim_some, of_byte_byte]
    rfl

theorem backwards_eq (hw : log.Words) :
    stable_memory_serialize_backwards log.stable_memory_serialize = some log := by
  have hid : read_u128 2 log.stable_memory_serialize = some log.id :=
    u128_at (i := 1) rfl rfl (by decide) hw.id
  have hquantity : read_u128 48 log.stable_memory_serialize = some log.quest.quantity :=
    u128_at (i := 3) rfl rfl (by decide) hw.quantity
  have hrate : read_u128 64 log.stable_memory_serialize = some log.quest.cycles_per_token_rate :=
    u128_at (i := 4) rfl rfl (by decide) hw.cycles_per_token_rate
  have hkind : log.stable_memory_serialize[80]? = some log.position_kind.byte :=
    log.layout.read_byte_eq (i := 5) rfl rfl
  have hmainder : read_u128 81 log.stable_memory_serialize = some log.mainder_position_quantity :=
    u128_at (i := 6) rfl rfl (by decide) hw.mainder_position_quantity
  have hfill : read_u128 97 log.stable_memory_serialize = some log.fill_quantity :=
    u128_at (i := 7) rfl rfl (by decide) hw.fill_quantity
  have haverage : read_u128 113 log.stable_memory_serialize = some log.fill_average_rate :=
    u128_at (i := 8) rfl rfl (by decide) hw.fill_average_rate
  have hfees : read_u128 129 log.stable_memory_serialize = some log.payouts_fees_sum :=
    u128_at (i := 9) rfl rfl (by decide) hw.payouts_fees_sum
  have hcreation : read_u64 145 log.stable_memory_serialize = some log.creation_timestamp_nanos :=
    u64_at (i := 10) rfl rfl (by decide) hw.creation_timestamp_nanos
  have hdust : log.stable_memory_serialize[163]? =
      some (bool_as_u8 log.void_position_payout_dust_collection) :=
    log.layout.read_byte_eq (i := 14) rfl rfl
  have hfee : read_u64 164 log.stable_memory_serialize =
      some log.void_position_payout_ledger_transfer_fee :=
    u64_at (i := 15) rfl rfl (by decide) hw.ledger_transfer_fee
  unfold stable_memory_serialize_backwards
  simp only [hid, positorAt, hquantity, hrate, hkind, hmainder, hfill, haverage, hfees, hcreation,
    termination_read hw, hdust, hfee, Option.bind_eq_bind, Option.bind_some]
  obtain ⟨-, -, -, kind, -, -, -, -, -, -, dust, -⟩ := log
  cases kind <;> cases dust <;> rfl

/-- The bytes of a log are as long as they should be, and all readers find the log's own. -/
structure Faithful (log : PositionLog) : Prop where
  length : log.stable_memory_serialize.length = 172
  backwards : stable_memory_serialize_backwards log.stable_memory_serialize = some log
  log_id : PositionLog.storage.log_id_of_the_log_serialization log.stable_memory_serialize = log.id
  index_keys : PositionLog.storage.index_keys_of_the_log_serialization log.stable_memory_serialize =
    some [log.positor]

/-- The bytes of a position log are faithful. -/
theorem serialization_is_faithful (log : PositionLog) (hw : log.Words) : log.Faithful := by
  constructor
  · exact log.stable_memory_serialize_length
  · exact backwards_eq hw
  · exact log.log_id_of_serialization hw.id
  · exact log.keysOf_serialization

theorem long_principal_fits : (List.replicate 29 (255 : Byte)).length ≤ 29 := by simp

/-- A position that was filled in part before its time passed. -/
def sample : PositionLog :=
  { id := 7
    positor := ⟨List.replicate 29 255, long_principal_fits⟩
    quest := { quantity := 100, cycles_per_token_rate := 3 }
    position_kind := .Token
    mainder_position_quantity := 40
    fill_quantity := 180
    fill_average_rate := 3
    payouts_fees_sum := 1
    creation_timestamp_nanos := 1700000000000000000
    position_termination := some { timestamp_nanos := 1800000000000000000, cause := .TimePass }
    void_position_payout_dust_collection := true
    void_position_payout_ledger_transfer_fee := 10 }

theorem sample_is_faithful : sample.Faithful := by
  apply serialization_is_faithful
  constructor <;> simp [sample]

end PositionLog

end Cts.Tc
