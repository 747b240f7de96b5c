import Cts.Tc.StorageCanister

/-!
# The bytes of a trade log

`trade_log.rs`. A log is written field by field and read back at the same places, whole or one field
at a time. Whether a payout is on record is not written: it is told from its ledger fee.
-/

namespace Cts.Tc

/-! ## Reading -/

/-- `b[start..start + len]`, which traps when the bytes end before. -/
def try_slice (start len : Nat) (b : List Byte) : Option (List Byte) :=
  if start + len ≤ b.length then some (slice start len b) else none

def read_u128 (start : Nat) (b : List Byte) : Option Nat := (try_slice start 16 b).map from_be_bytes

def read_principal (start : Nat) (b : List Byte) : Option Principal :=
  (try_slice start 30 b).bind thirty_bytes_as_principal

/-- The fee and the dust byte of a payout. The byte is only looked at when there is a fee. -/
def payout_data_backwards (fee_start dust_index : Nat) (b : List Byte) :
    Option (Option PayoutData) := do
  let ledger_transfer_fee ← (try_slice fee_start 8 b).map from_be_bytes
  if ledger_transfer_fee = 0 then return none
  else
    let dust : Byte ← b[dust_index]?
    return some { did_transfer := dust = 0, ledger_transfer_fee := ledger_transfer_fee }

namespace TradeLog

def stable_memory_serialize_backwards (b : List Byte) : Option TradeLog := do
  let position_id_matchee ← read_u128 2 b
  let id ← read_u128 18 b
  let matchee_position_positor ← read_principal 34 b
  let matcher_position_positor ← read_principal 64 b
  let tokens ← read_u128 94 b
  let cycles ← read_u128 110 b
  let cycles_per_token_rate ← read_u128 126 b
  let kind : Byte ← b[142]?
  let timestamp_nanos ← read_u128 143 b
  let tokens_payout_fee ← read_u128 159 b
  let cycles_payout_fee ← read_u128 175 b
  let position_id_matcher ← read_u128 191 b
  let cycles_payout_data ← payout_data_backwards 207 223 b
  let token_payout_data ← payout_data_backwards 215 224 b
  return {
    position_id_matcher, position_id_matchee, id, matchee_position_positor, matcher_position_positor,
    tokens, cycles, cycles_per_token_rate
    matchee_position_kind := if kind = 0 then .Cycles else .Token
    timestamp_nanos, tokens_payout_fee, cycles_payout_fee, cycles_payout_data, token_payout_data }

end TradeLog

def tokens_quantity_of_the_log_serialization (log_b : List Byte) : Option Nat := read_u128 94 log_b
def rate_of_the_log_serialization (log_b : List Byte) : Option Nat := read_u128 126 log_b
def timestamp_nanos_of_the_log_serialization (log_b : List Byte) : Option Nat := read_u128 143 log_b

/-! ## Fields -/

theorem slice_flatten {fields : List (List Byte)} {i : Nat} {field : List Byte}
    (h : fields[i]? = some field) :
    slice ((fields.take i).map List.length).sum field.length fields.flatten = field := by
  obtain ⟨hlt, rfl⟩ := List.getElem?_eq_some_iff.mp h
  have hsplit : fields.flatten = (fields.take i).flatten ++ (fields[i] ++ (fields.drop (i + 1)).flatten) := by
    rw [← List.flatten_cons, ← List.drop_eq_getElem_cons hlt, ← List.flatten_append,
      List.take_append_drop]
  unfold slice
  rw [← List.length_flatten, hsplit, List.drop_left' rfl, List.take_left' rfl]

/-- Fields of fixed lengths, one after the other. -/
structure Layout (lengths : List Nat) (fields : List (List Byte)) (b : List Byte) : Prop where
  bytes : b = fields.flatten
  lengths : fields.map List.length = lengths

namespace Layout

variable {lengths : List Nat} {fields : List (List Byte)} {b field : List Byte} {i start len : Nat}

theorem slice_eq (h : Layout lengths fields b) (hi : fields[i]? = some field)
    (hstart : (lengths.take i).sum = start) (hlen : field.length = len) :
    slice start len b = field := by
  have hslice := slice_flatten hi
  rw [← h.bytes, List.map_take, h.lengths, hlen, hstart] at hslice
  exact hslice

theorem try_slice_eq (h : Layout lengths fields b) (hi : fields[i]? = some field)
    (hstart : (lengths.take i).sum = start) (hlen : field.length = len)
    (hle : start + len ≤ b.length) : try_slice start len b = some field := by
  unfold try_slice
  rw [h.slice_eq hi hstart hlen, if_pos hle]

theorem read_u128_eq {n : Nat} (h : Layout lengths fields b)
    (hi : fields[i]? = some (to_be_bytes 16 n)) (hstart : (lengths.take i).sum = start)
    (hle : start + 16 ≤ b.length) (hn : n < 2 ^ 128) : read_u128 start b = some n := by
  unfold read_u128
  rw [h.try_slice_eq hi hstart (to_be_bytes_length 16 n) hle, Option.map_some, from_be_bytes_to_be_bytes]
  exact congrArg some (Nat.mod_eq_of_lt hn)

theorem read_principal_eq {p : Principal} (h : Layout lengths fields b)
    (hi : fields[i]? = some (principal_as_thirty_bytes p)) (hstart : (lengths.take i).sum = start)
    (hle : start + 30 ≤ b.length) : read_principal start b = some p := by
  unfold read_principal
  rw [h.try_slice_eq hi hstart (principal_as_thirty_bytes_length p) hle, Option.bind_some]
  exact thirty_bytes_principal p

theorem read_byte_eq {byte : Byte} (h : Layout lengths fields b) (hi : fields[i]? = some [byte])
    (hstart : (lengths.take i).sum = start) : b[start]? = some byte := by
  have hslice : slice start 1 b = [byte] := h.slice_eq hi hstart rfl
  have hget := congrArg (fun bytes : List Byte => bytes[0]?) hslice
  unfold slice at hget
  simp only [List.getElem?_take_of_lt Nat.zero_lt_one, List.getElem?_drop, Nat.add_zero] at hget
  exact hget

end Layout

namespace TradeLog

/-- The fields in the order of their places. -/
def fields (log : TradeLog) : List (List Byte) :=
  [to_be_bytes 2 0, to_be_bytes 16 log.position_id_matchee, to_be_bytes 16 log.id,
    principal_as_thirty_bytes log.matchee_position_positor,
    principal_as_thirty_bytes log.matcher_position_positor, to_be_bytes 16 log.tokens,
    to_be_bytes 16 log.cycles, to_be_bytes 16 log.cycles_per_token_rate,
    [log.matchee_position_kind.byte], to_be_bytes 16 log.timestamp_nanos,
    to_be_bytes 16 log.tokens_payout_fee, to_be_bytes 16 log.cycles_payout_fee,
    to_be_bytes 16 log.position_id_matcher, payout_fee_bytes log.cycles_payout_data,
    payout_fee_bytes log.token_payout_data, [payout_dust_byte log.cycles_payout_data],
    [payout_dust_byte log.token_payout_data]]

theorem serialize_eq (log : TradeLog) : log.stable_memory_serialize = log.fields.flatten := by
  simp [stable_memory_serialize, fields]

def FIELD_LENGTHS : List Nat := [2, 16, 16, 30, 30, 16, 16, 16, 1, 16, 16, 16, 16, 8, 8, 1, 1]

def fieldStart (i : Nat) : Nat := (FIELD_LENGTHS.take i).sum

theorem field_lengths (log : TradeLog) : log.fields.map List.length = FIELD_LENGTHS := by
  simp [fields, FIELD_LENGTHS, payout_fee_bytes_length]

theorem layout (log : TradeLog) : Layout FIELD_LENGTHS log.fields log.stable_memory_serialize :=
  ⟨log.serialize_eq, log.field_lengths⟩

theorem slice_field (log : TradeLog) {i start len : Nat} {field : List Byte}
    (h : log.fields[i]? = some field)
    (hstart : fieldStart i = start) (hlen : field.length = len) :
    slice start len log.stable_memory_serialize = field := log.layout.slice_eq h hstart hlen

theorem try_slice_field (log : TradeLog) {i start len : Nat} {field : List Byte}
    (h : log.fields[i]? = some field)
    (hstart : fieldStart i = start) (hlen : field.length = len) (hle : start + len ≤ 225) :
    try_slice start len log.stable_memory_serialize = some field := by
  apply log.layout.try_slice_eq h hstart hlen
  rwa [stable_memory_serialize_length]

/-! ## Reading a log back -/

/-- The numbers of a log are `u128`s. -/
structure Words (log : TradeLog) : Prop where
  position_id_matcher : log.position_id_matcher < 2 ^ 128
  position_id_matchee : log.position_id_matchee < 2 ^ 128
  id : log.id < 2 ^ 128
  tokens : log.tokens < 2 ^ 128
  cycles : log.cycles < 2 ^ 128
  cycles_per_token_rate : log.cycles_per_token_rate < 2 ^ 128
  timestamp_nanos : log.timestamp_nanos < 2 ^ 128
  tokens_payout_fee : log.tokens_payout_fee < 2 ^ 128
  cycles_payout_fee : log.cycles_payout_fee < 2 ^ 128

variable {log : TradeLog}

theorem read_u128_field {i start n : Nat} (h : log.fields[i]? = some (to_be_bytes 16 n))
    (hstart : fieldStart i = start) (hle : start + 16 ≤ 225) (hn : n < 2 ^ 128) :
    read_u128 start log.stable_memory_serialize = some n := by
  apply log.layout.read_u128_eq h hstart _ hn
  rwa [stable_memory_serialize_length]

theorem read_principal_field {i start : Nat} {p : Principal}
    (h : log.fields[i]? = some (principal_as_thirty_bytes p))
    (hstart : fieldStart i = start) (hle : start + 30 ≤ 225) :
    read_principal start log.stable_memory_serialize = some p := by
  apply log.layout.read_principal_eq h hstart
  rwa [stable_memory_serialize_length]

theorem read_byte_field {i index : Nat} {b : Byte} (h : log.fields[i]? = some [b])
    (hstart : fieldStart i = index) : log.stable_memory_serialize[index]? = some b :=
  log.layout.read_byte_eq h hstart

/-- What is told of a payout from its fee and its dust byte. -/
def payoutRead (data : Option PayoutData) : Option PayoutData :=
  data.bind fun pd => if pd.ledger_transfer_fee = 0 then none else some pd

theorem dust_byte_read (pd : PayoutData) :
    decide (payout_dust_byte (some pd) = 0) = pd.did_transfer := by
  rcases pd with ⟨_ | _, fee⟩ <;> rfl

theorem payout_data_field {i j fee_start dust_index : Nat} {data : Option PayoutData}
    (hfee : log.fields[i]? = some (payout_fee_bytes data))
    (hdust : log.fields[j]? = some [payout_dust_byte data])
    (hfee_start : fieldStart i = fee_start) (hdust_index : fieldStart j = dust_index)
    (hle : fee_start + 8 ≤ 225)
    (hfit : ∀ pd, data = some pd → pd.ledger_transfer_fee < 2 ^ 64) :
    payout_data_backwards fee_start dust_index log.stable_memory_serialize =
      some (payoutRead data) := by
  unfold payout_data_backwards
  rw [log.try_slice_field hfee hfee_start (payout_fee_bytes_length data) hle,
    read_byte_field hdust hdust_index]
  cases data with
  | none =>
    have hread : from_be_bytes (payout_fee_bytes none) = 0 := by decide
    simp only [Option.map_some, hread]
    rfl
  | some pd =>
    have hread : from_be_bytes (payout_fee_bytes (some pd)) = pd.ledger_transfer_fee := by
      unfold payout_fee_bytes
      rw [from_be_bytes_to_be_bytes]
      exact Nat.mod_eq_of_lt (hfit pd rfl)
    simp only [Option.map_some, hread, Option.bind_eq_bind, Option.bind_some, dust_byte_read,
      payoutRead]
    split_ifs <;> rfl

def payout_data (log : TradeLog) : PositionKind → Option PayoutData
  | .Cycles => log.cycles_payout_data
  | .Token => log.token_payout_data

/-- The ledger fees of the payouts on record fit their places. -/
def FeesFit (log : TradeLog) : Prop :=
  ∀ kind pd, log.payout_data kind = some pd → pd.ledger_transfer_fee < 2 ^ 64

theorem serialize_backwards (hw : log.Words) (hfees : log.FeesFit) :
    stable_memory_serialize_backwards log.stable_memory_serialize = some { log with
      cycles_payout_data := payoutRead log.cycles_payout_data
      token_payout_data := payoutRead log.token_payout_data } := by
  have hmatchee : read_u128 2 log.stable_memory_serialize = some log.position_id_matchee :=
    read_u128_field (i := 1) rfl rfl (by decide) hw.position_id_matchee
  have hid : read_u128 18 log.stable_memory_serialize = some log.id :=
    read_u128_field (i := 2) rfl rfl (by decide) hw.id
  have hmatchee_positor : read_principal 34 log.stable_memory_serialize =
      some log.matchee_position_positor := read_principal_field (i := 3) rfl rfl (by decide)
  have hmatcher_positor : read_principal 64 log.stable_memory_serialize =
      some log.matcher_position_positor := read_principal_field (i := 4) rfl rfl (by decide)
  have htokens : read_u128 94 log.stable_memory_serialize = some log.tokens :=
    read_u128_field (i := 5) rfl rfl (by decide) hw.tokens
  have hcycles : read_u128 110 log.stable_memory_serialize = some log.cycles :=
    read_u128_field (i := 6) rfl rfl (by decide) hw.cycles
  have hrate : read_u128 126 log.stable_memory_serialize = some log.cycles_per_token_rate :=
    read_u128_field (i := 7) rfl rfl (by decide) hw.cycles_per_token_rate
  have hkind : log.stable_memory_serialize[142]? = some log.matchee_position_kind.byte :=
    read_byte_field (i := 8) rfl rfl
  have htimestamp : read_u128 143 log.stable_memory_serialize = some log.timestamp_nanos :=
    read_u128_field (i := 9) rfl rfl (by decide) hw.timestamp_nanos
  have htokens_fee : read_u128 159 log.stable_memory_serialize = some log.tokens_payout_fee :=
    read_u128_field (i := 10) rfl rfl (by decide) hw.tokens_payout_fee
  have hcycles_fee : read_u128 175 log.stable_memory_serialize = some log.cycles_payout_fee :=
    read_u128_field (i := 11) rfl rfl (by decide) hw.cycles_payout_fee
  have hmatcher : read_u128 191 log.stable_memory_serialize = some log.position_id_matcher :=
    read_u128_field (i := 12) rfl rfl (by decide) hw.position_id_matcher
  have hcycles_data : payout_data_backwards 207 223 log.stable_memory_serialize =
      some (payoutRead log.cycles_payout_data) :=
    payout_data_field (i := 13) (j := 15) rfl rfl rfl rfl (by decide) (hfees .Cycles)
  have htoken_data : payout_data_backwards 215 224 log.stable_memory_serialize =
      some (payoutRead log.token_payout_data) :=
    payout_data_field (i := 14) (j := 16) rfl rfl rfl rfl (by decide) (hfees .Token)
  unfold stable_memory_serialize_backwards
  simp only [hmatchee, hid, hmatchee_positor, hmatcher_positor, htokens, hcycles, hrate, hkind,
    htimestamp, htokens_fee, hcycles_fee, hmatcher, hcycles_data, htoken_data, Option.bind_eq_bind,
    Option.bind_some]
  cases log.matchee_position_kind <;> rfl

theorem payoutRead_eq_iff (data : Option PayoutData) :
    payoutRead data = data ↔ ∀ pd, data = some pd → pd.ledger_transfer_fee ≠ 0 := by
  cases data with
  | none => simp [payoutRead]
  | some pd =>
    unfold payoutRead
    rw [Option.bind_some]
    split_ifs with hzero <;> simp [hzero]

/-- The bytes of a log are as long as they should be, and all readers find the fields of the log. -/
structure Faithful (log : TradeLog) : Prop where
  length : log.stable_memory_serialize.length = 225
  backwards : stable_memory_serialize_backwards log.stable_memory_serialize = some log
  log_id : TradeLog.storage.log_id_of_the_log_serialization log.stable_memory_serialize = log.id
  index_keys : TradeLog.storage.index_keys_of_the_log_serialization log.stable_memory_serialize =
    some [log.position_id_matchee, log.position_id_matcher]
  tokens : tokens_quantity_of_the_log_serialization log.stable_memory_serialize = some log.tokens
  rate : rate_of_the_log_serialization log.stable_memory_serialize = some log.cycles_per_token_rate
  timestamp_nanos : timestamp_nanos_of_the_log_serialization log.stable_memory_serialize =
    some log.timestamp_nanos

theorem u128_field {i start n : Nat} (h : log.fields[i]? = some (to_be_bytes 16 n))
    (hstart : fieldStart i = start) (hn : n < 2 ^ 128) :
    from_be_bytes (slice start 16 log.stable_memory_serialize) = n := by
  rw [log.slice_field h hstart (to_be_bytes_length 16 n), from_be_bytes_to_be_bytes]
  exact Nat.mod_eq_of_lt hn

theorem log_id_of_serialization (h : log.id < 2 ^ 128) :
    TradeLog.storage.log_id_of_the_log_serialization log.stable_memory_serialize = log.id := by
  have hid : from_be_bytes (slice 18 16 log.stable_memory_serialize) = log.id :=
    u128_field (i := 2) rfl rfl h
  unfold TradeLog.storage
  simp only [hid]

theorem index_keys_eq (hw : log.Words) :
    TradeLog.storage.index_keys_of_the_log_serialization log.stable_memory_serialize =
      some [log.position_id_matchee, log.position_id_matcher] := by
  have hmatchee : from_be_bytes (slice 2 16 log.stable_memory_serialize) = log.position_id_matchee :=
    u128_field (i := 1) rfl rfl hw.position_id_matchee
  have hmatcher : from_be_bytes (slice 191 16 log.stable_memory_serialize) =
      log.position_id_matcher := u128_field (i := 12) rfl rfl hw.position_id_matcher
  unfold TradeLog.storage
  simp only [hmatchee, hmatcher]

/-- A log is faithful just when no payout on record had a ledger fee of zero. -/
theorem faithful_iff_no_zero_fee (log : TradeLog) (hw : log.Words) (hfees : log.FeesFit) :
    log.Faithful ↔ ∀ kind pd, log.payout_data kind = some pd → pd.ledger_transfer_fee ≠ 0 := by
  have hback := serialize_backwards hw hfees
  constructor
  · intro h
    have heq := Option.some.inj (hback.symm.trans h.backwards)
    intro kind
    cases kind with
    | Cycles => exact (payoutRead_eq_iff _).mp (congrArg TradeLog.cycles_payout_data heq)
    | Token => exact (payoutRead_eq_iff _).mp (congrArg TradeLog.token_payout_data heq)
  · intro h
    have hcycles := (payoutRead_eq_iff log.cycles_payout_data).mpr (h .Cycles)
    have htoken := (payoutRead_eq_iff log.token_payout_data).mpr (h .Token)
    rw [hcycles, htoken] at hback
    exact ⟨log.stable_memory_serialize_length, hback, log_id_of_serialization hw.id, index_keys_eq hw,
      read_u128_field (i := 5) rfl rfl (by decide) hw.tokens,
      read_u128_field (i := 7) rfl rfl (by decide) hw.cycles_per_token_rate,
      read_u128_field (i := 9) rfl rfl (by decide) hw.timestamp_nanos⟩

/-- A trade of 300 cycles for 100 tokens, both paid out, at a token ledger with the given fee. -/
def sample (token_fee : Nat) : TradeLog :=
  { position_id_matcher := 1
    position_id_matchee := 0
    id := 7
    matchee_position_positor := ⟨[1, 2, 3], by decide⟩
    matcher_position_positor := ⟨List.replicate 29 255, by decide⟩
    tokens := 100
    cycles := 300
    cycles_per_token_rate := 3
    matchee_position_kind := .Token
    timestamp_nanos := 1700000000000000000
    tokens_payout_fee := 0
    cycles_payout_fee := 1
    cycles_payout_data := some ⟨true, 10⟩
    token_payout_data := some ⟨true, token_fee⟩ }

theorem sample_words (token_fee : Nat) : (sample token_fee).Words := by
  constructor <;> simp [sample]

theorem sample_faithful : (sample 10000).Faithful := by
  refine (faithful_iff_no_zero_fee _ (sample_words _) fun kind pd hpd => ?_).mpr
    fun kind pd hpd => ?_
  · cases kind <;> obtain rfl := Option.some.inj hpd <;> decide
  · cases kind <;> obtain rfl := Option.some.inj hpd <;> decide

/-- At a ledger without fees a payout that was made is read back as one that was not. -/
theorem zero_fee_payout_is_lost : (sample 0).Words ∧ (sample 0).FeesFit ∧
    ¬ (sample 0).Faithful := by
  refine ⟨sample_words _, fun kind pd hpd => ?_, fun h => ?_⟩
  · cases kind <;> obtain rfl := Option.some.inj hpd <;> decide
  · have hlost : (stable_memory_serialize_backwards (sample 0).stable_memory_serialize).map
        TradeLog.token_payout_data = some none := by decide +kernel
    rw [h.backwards] at hlost
    cases hlost

end TradeLog

end Cts.Tc
