import Cts.Tc.Trading
import Cts.Tc.FlushLogs
import Cts.Lib.BinarySearch
import Mathlib.Data.Finset.Insert

/-!
# The payouts of a run

`payouts/mod.rs`, `void_positions_payouts.rs` and `update_storage_positions.rs`. `_do_payouts` picks
payouts and record updates and locks them, waits until all of them are done, and writes the results
back. In between other runs, trades and flushes go on.
-/

namespace Cts.Tc

open Lib

structure CMData extends Book where
  positions_id_counter : Nat
  mid_call_user_cycles_balance_locks : Finset Principal
  mid_call_user_token_balance_locks : Finset Principal
  do_payouts_errors : List CallError
  icrc1_token_ledger_transfer_fee : Nat
  cycles_bank_transfer_fee : Nat

def DO_VOID_POSITIONS_PAYOUTS_CHUNK_SIZE : Nat := 5
def DO_VOID_POSITIONS_UPDATE_STORAGE_POSITION_CHUNK_SIZE : Nat := 5
def DO_TRADE_LOGS_PAYOUTS_CHUNK_SIZE : PositionKind → Nat
  | .Cycles => 10
  | .Token => 10

/-! ## Updates of stored records -/

inductive UpdateState
  | sent (canister_id : Principal)
  | done (r : Except CallError Unit)

structure Update where
  position_id : PositionId
  log_serialization_b : List Byte
  state : UpdateState

/-- The last canister in reverse order that has the record, so the first of them. -/
def call_storage_canister_id (data : LogStorageData) (position_id : PositionId) : Option Principal :=
  data.storage_canisters.reverse.foldl (fun found storage_canister =>
    if position_id < storage_canister.first_log_id + storage_canister.length ∧
        storage_canister.first_log_id ≤ position_id then
      some storage_canister.canister_id
    else found) none

def storage_buffer_first_log_id (data : LogStorageData) : Nat :=
  match data.storage_canisters.getLast? with
  | none => 0
  | some sc => sc.first_log_id + sc.length

/-- Up to the call of a storage canister, or to the end when the record is in the buffer. A `usize`
has 32 bits. `none` is a slice that is out of bounds. -/
def do_update_storage_position (data : LogStorageData) (position_id : PositionId)
    (log_serialization_b : List Byte) : Option (LogStorageData × Update) :=
  match call_storage_canister_id data position_id with
  | some canister_id => some (data, ⟨position_id, log_serialization_b, .sent canister_id⟩)
  | none =>
    let start_i := Word.mul 32
      (Word.wrap 32 (Word.sub 128 position_id (storage_buffer_first_log_id data)))
      log_serialization_b.length
    let end_i := Word.add 32 start_i log_serialization_b.length
    if start_i ≤ end_i ∧ end_i ≤ data.storage_buffer.length then
      some ({ data with
        storage_buffer := Records.writeAt start_i log_serialization_b data.storage_buffer },
        ⟨position_id, log_serialization_b, .done (.ok ())⟩)
    else none

/-- The first poll of a list of updates. -/
def do_update_storage_positions :
    LogStorageData → List (PositionId × List Byte) → Option (LogStorageData × List Update)
  | data, [] => some (data, [])
  | data, (position_id, b) :: rest => do
    let (data, update) ← do_update_storage_position data position_id b
    let (data, updates) ← do_update_storage_positions data rest
    some (data, update :: updates)

/-! ## What a run takes on -/

structure VoidChunks where
  payouts_chunk : List Payout
  update_storage_positions_chunk : List (PositionId × List Byte)

def VoidPosition.lock_payout (vp : VoidPosition) : VoidPosition := { vp with payout_lock := true }

def VoidPosition.lock_update (vp : VoidPosition) : VoidPosition :=
  { vp with
    update_storage_position_data := { vp.update_storage_position_data with lock := true } }

def take_payout (ledger_transfer_fee : Nat) (vp : VoidPosition) (c : VoidChunks) :
    VoidPosition × VoidChunks :=
  if c.payouts_chunk.length < DO_VOID_POSITIONS_PAYOUTS_CHUNK_SIZE ∧ vp.payout_data.isNone ∧
      vp.payout_lock = false then
    (vp.lock_payout, { c with
      payouts_chunk := c.payouts_chunk ++
        [_do_payout vp.position_id ledger_transfer_fee vp.payout_quest] })
  else (vp, c)

def take_update (update_storage_positions_yes_or_no : Bool) (vp : VoidPosition) (c : VoidChunks) :
    VoidPosition × VoidChunks :=
  if update_storage_positions_yes_or_no = true ∧ c.update_storage_positions_chunk.length <
      DO_VOID_POSITIONS_UPDATE_STORAGE_POSITION_CHUNK_SIZE ∧ vp.payout_data.isSome ∧
      vp.update_storage_position_data.status = false ∧
      vp.update_storage_position_data.lock = false then
    (vp.lock_update, { c with
      update_storage_positions_chunk := c.update_storage_positions_chunk ++
        [(vp.position_id,
          vp.update_storage_position_data.update_storage_position_log.stable_memory_serialize)] })
  else (vp, c)

/-- The body of the loop over the void positions. -/
def take_void_position (ledger_transfer_fee : Nat) (update_storage_positions_yes_or_no : Bool)
    (c : VoidChunks) (vp : VoidPosition) : Option (VoidPosition × VoidChunks) :=
  if DO_VOID_POSITIONS_PAYOUTS_CHUNK_SIZE ≤ c.payouts_chunk.length ∧
      (DO_VOID_POSITIONS_UPDATE_STORAGE_POSITION_CHUNK_SIZE ≤
        c.update_storage_positions_chunk.length ∨ update_storage_positions_yes_or_no = false) then
    none
  else
    let (vp, c) := take_payout ledger_transfer_fee vp c
    some (take_update update_storage_positions_yes_or_no vp c)

def void_positions_payouts (void_positions : OrdMap PositionId VoidPosition)
    (ledger_transfer_fee : Nat) (update_storage_positions_yes_or_no : Bool) :
    OrdMap PositionId VoidPosition × VoidChunks :=
  void_positions.loop (take_void_position ledger_transfer_fee update_storage_positions_yes_or_no)
    ⟨[], []⟩

def TradeLogAndTemporaryData.set_payout (tl : TradeLogAndTemporaryData) (kind : PositionKind)
    (lock : Bool) (data : Option PayoutData) : TradeLogAndTemporaryData :=
  match kind with
  | .Cycles =>
    { log := { tl.log with cycles_payout_data := data }
      temporary_data := { tl.temporary_data with cycles_payout_lock := lock } }
  | .Token =>
    { log := { tl.log with token_payout_data := data }
      temporary_data := { tl.temporary_data with token_payout_lock := lock } }

def take_trade_log (kind : PositionKind) (ledger_transfer_fee : Nat) (tl : TradeLogAndTemporaryData)
    (chunk : List Payout) : TradeLogAndTemporaryData × List Payout :=
  if (tl.payout_data kind).isNone ∧ tl.payout_lock kind = false ∧
      chunk.length < DO_TRADE_LOGS_PAYOUTS_CHUNK_SIZE kind then
    (tl.set_payout kind true (tl.payout_data kind),
      chunk ++ [_do_payout tl.log.id ledger_transfer_fee (tl.payout_quest kind)])
  else (tl, chunk)

/-- The loop over the trade logs. -/
def trade_logs_payouts (fees : PositionKind → Nat) :
    List TradeLogAndTemporaryData → List Payout → List Payout →
      List TradeLogAndTemporaryData × List Payout × List Payout
  | [], cycles_chunk, token_chunk => ([], cycles_chunk, token_chunk)
  | tl :: rest, cycles_chunk, token_chunk =>
    let (tl, cycles_chunk) := take_trade_log .Cycles (fees .Cycles) tl cycles_chunk
    let (tl, token_chunk) := take_trade_log .Token (fees .Token) tl token_chunk
    let (rest, chunks) := trade_logs_payouts fees rest cycles_chunk token_chunk
    (tl :: rest, chunks)

/-- The futures of one `_do_payouts`. -/
structure PayoutsRun where
  payouts : Queue → List Payout
  updates : PositionKind → List Update

def PayoutsRun.has_updates (run : PayoutsRun) : Bool :=
  0 < (run.updates .Cycles).length || 0 < (run.updates .Token).length

/-- Up to the first await. -/
def _do_payouts (fees : PositionKind → Nat) (cm_data : CMData) (positions_storage_data : LogStorageData) :
    Option (CMData × LogStorageData × PayoutsRun) := do
  let update_storage_positions_yes_or_no := !positions_storage_data.storage_flush_lock
  let (void_cycles_positions, cycles_chunks) := void_positions_payouts cm_data.void_cycles_positions
    (fees .Cycles) update_storage_positions_yes_or_no
  let (void_token_positions, token_chunks) := void_positions_payouts cm_data.void_token_positions
    (fees .Token) update_storage_positions_yes_or_no
  let positions_storage_data :=
    if 0 < cycles_chunks.update_storage_positions_chunk.length ∨
        0 < token_chunks.update_storage_positions_chunk.length then
      { positions_storage_data with storage_flush_lock := true }
    else positions_storage_data
  let (trade_logs, trade_cycles_chunk, trade_token_chunk) :=
    trade_logs_payouts fees cm_data.trade_logs [] []
  let (positions_storage_data, cycles_updates) ← do_update_storage_positions positions_storage_data
    cycles_chunks.update_storage_positions_chunk
  let (positions_storage_data, token_updates) ← do_update_storage_positions positions_storage_data
    token_chunks.update_storage_positions_chunk
  some
    ({ cm_data with
        void_cycles_positions := void_cycles_positions
        void_token_positions := void_token_positions
        trade_logs := trade_logs },
      positions_storage_data,
      { payouts := fun
          | .void .Cycles => cycles_chunks.payouts_chunk
          | .void .Token => token_chunks.payouts_chunk
          | .trade .Cycles => trade_cycles_chunk
          | .trade .Token => trade_token_chunk
        updates := fun
          | .Cycles => cycles_updates
          | .Token => token_updates })

/-! ## Writing the results back -/

/-- The loop of `_handle_vps`. Beside the map it gives the positions that it removed. -/
def _handle_vps {DoOutput : Type} (handle_output : VoidPosition → DoOutput → VoidPosition) :
    List (PositionId × DoOutput) → OrdMap PositionId VoidPosition →
      OrdMap PositionId VoidPosition × List VoidPosition
  | [], void_positions => (void_positions, [])
  | (vp_id, do_output) :: rest, void_positions =>
    match void_positions.get vp_id with
    | none => _handle_vps handle_output rest void_positions
    | some vp =>
      let vp := handle_output vp do_output
      if vp.can_remove then
        let (void_positions, removed) := _handle_vps handle_output rest (void_positions.remove vp_id)
        (void_positions, vp :: removed)
      else _handle_vps handle_output rest (void_positions.insert vp_id vp)

/-- What `handle_vps_payouts` does to a void position. The fee becomes a `u64`. -/
def handle_vp_payout (vp : VoidPosition) (do_payout_output : Option PayoutData) : VoidPosition :=
  match do_payout_output with
  | none => { vp with payout_lock := false, payout_data := none }
  | some pd =>
    { vp with
      payout_lock := false
      payout_data := some pd
      update_storage_position_data := { vp.update_storage_position_data with
        update_storage_position_log :=
          { vp.update_storage_position_data.update_storage_position_log with
            void_position_payout_dust_collection := pd.did_transfer = false
            void_position_payout_ledger_transfer_fee := Word.wrap 64 pd.ledger_transfer_fee } } }

def handle_vp_update (vp : VoidPosition) (output : Except CallError Unit) : VoidPosition :=
  { vp with
    update_storage_position_data := { vp.update_storage_position_data with
      lock := false
      status := output.toBool } }

abbrev TlPayouts := OrdMap PurchaseId (Option (Option PayoutData) × Option (Option PayoutData))

/-- `tl_payouts`: the results of both kinds by trade log. -/
def tl_payouts (cycles_results token_results : List (PurchaseId × Option PayoutData)) : TlPayouts :=
  let m := cycles_results.foldl (fun (m : TlPayouts) e =>
    m.insert e.1 (some e.2, ((m.get e.1).getD (none, none)).2)) OrdMap.empty
  token_results.foldl (fun (m : TlPayouts) e =>
    m.insert e.1 (((m.get e.1).getD (none, none)).1, some e.2)) m

def handle_tl_payout (kind : PositionKind) (possible_output : Option (Option PayoutData))
    (tl : TradeLogAndTemporaryData) : TradeLogAndTemporaryData :=
  match possible_output with
  | some data => tl.set_payout kind false data
  | none => tl

/-- The loop over `tl_payouts`. -/
def handle_tls_payouts (trade_logs : List TradeLogAndTemporaryData) (payouts : TlPayouts) :
    List TradeLogAndTemporaryData :=
  payouts.entries.foldl (fun trade_logs e =>
    match binarySearchByKey trade_logs e.1 (fun tl => tl.log.id) with
    | some i => trade_logs.modify i fun tl =>
        handle_tl_payout .Token e.2.2 (handle_tl_payout .Cycles e.2.1 tl)
    | none => trade_logs) trade_logs

def Payout.result (p : Payout) : Option PayoutData :=
  match p.state with
  | .done r => r
  | _ => none

def Update.result (u : Update) : Except CallError Unit :=
  match u.state with
  | .done r => r
  | .sent _ => .error (0, "")

def Payout.isDone (p : Payout) : Bool :=
  match p.state with
  | .done _ => true
  | _ => false

def Update.isDone (u : Update) : Bool :=
  match u.state with
  | .done _ => true
  | .sent _ => false

def PayoutsRun.results (run : PayoutsRun) (q : Queue) : List (Nat × Option PayoutData) :=
  (run.payouts q).map fun p => (p.id, p.result)

def PayoutsRun.update_results (run : PayoutsRun) (kind : PositionKind) :
    List (PositionId × Except CallError Unit) :=
  (run.updates kind).map fun u => (u.position_id, u.result)

/-- Every future of the run is done. -/
def PayoutsRun.finished (run : PayoutsRun) : Prop :=
  (∀ q, ∀ p ∈ run.payouts q, p.isDone) ∧ ∀ kind, ∀ u ∈ run.updates kind, u.isDone

/-- The void positions of one kind after the run. -/
def PayoutsRun.handle_vps (run : PayoutsRun) (kind : PositionKind)
    (void_positions : OrdMap PositionId VoidPosition) :
    OrdMap PositionId VoidPosition × List VoidPosition :=
  let (void_positions, removed) :=
    _handle_vps handle_vp_payout (run.results (.void kind)) void_positions
  let (void_positions, removed') :=
    _handle_vps handle_vp_update (run.update_results kind) void_positions
  (void_positions, removed ++ removed')

/-- After all the futures are done. The two kinds of void positions do not touch each other. -/
def _do_payouts_end (run : PayoutsRun) (cm_data : CMData) : CMData × (PositionKind → List VoidPosition) :=
  let (void_cycles_positions, removed_cycles) := run.handle_vps .Cycles cm_data.void_cycles_positions
  let (void_token_positions, removed_token) := run.handle_vps .Token cm_data.void_token_positions
  ({ cm_data with
      void_cycles_positions := void_cycles_positions
      void_token_positions := void_token_positions
      trade_logs := handle_tls_payouts cm_data.trade_logs
        (tl_payouts (run.results (.trade .Cycles)) (run.results (.trade .Token))) },
    fun
      | .Cycles => removed_cycles
      | .Token => removed_token)

def unlock_positions_storage (run : PayoutsRun) (data : LogStorageData) : LogStorageData :=
  if run.has_updates then { data with storage_flush_lock := false } else data

end Cts.Tc
