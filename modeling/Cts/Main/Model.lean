import Cts.Bank.Model

/-!
# The market's main canister

`canisters/market/cm_main/src/lib.rs`, with `upgrade_canisters` of `cts_lib/src/tools.rs`. A method
that awaits is cut at its awaits: each piece runs in one message. A `none` is a trap: the message
changes nothing.
-/

namespace Cts.Main

open Bank (TRILLION BANK_TRANSFER_FEE)

/-! ## Types -/

def MiB : Nat := 1024 * 1024

def TC_CANISTER_NETWORK_MEMORY_ALLOCATION_MiB : Nat := 500

def NEW_ICRC1TOKEN_TRADE_CONTRACT_CYCLES : Nat := 7 * TRILLION

structure CanisterCode where
  «module» : List Byte
  module_hash : List Byte
  deriving DecidableEq

def CanisterCode.empty : CanisterCode := ⟨[], List.replicate 32 0⟩

def CanisterCode.verify_module_hash (sha256 : List Byte → List Byte) (code : CanisterCode) : Bool :=
  code.module_hash = sha256 code.module

inductive MarketCanisterType
  | TradeContract
  | PositionsStorage
  | TradesStorage
  deriving DecidableEq

structure TradeContractIdAndLedgerId where
  icrc1_ledger_canister_id : Principal
  trade_contract_canister_id : Principal
  deriving DecidableEq

structure TradeContractData where
  tc_module_hash : List Byte
  latest_upgrade_timestamp_nanos : Nat
  deriving DecidableEq

structure ControllerCreateIcrc1TokenTradeContractQuest where
  icrc1_ledger_id : Principal
  icrc1_ledger_transfer_fee : Nat
  deriving DecidableEq

structure ControllerCreateIcrc1TokenTradeContractMidCallData where
  start_time_nanos : Nat
  lock : Bool
  controller_create_icrc1token_trade_contract_quest : ControllerCreateIcrc1TokenTradeContractQuest
  icrc1token_trade_contract_canister_id : Option Principal
  icrc1token_trade_contract_data : Option TradeContractData
  deriving DecidableEq

structure CMMainData where
  cts_id : Principal
  trade_contracts : List (TradeContractIdAndLedgerId × TradeContractData)
  tc_canister_code : CanisterCode
  trades_storage_canister_code : CanisterCode
  positions_storage_canister_code : CanisterCode
  controller_create_icrc1token_trade_contract_mid_call_data :
    Option ControllerCreateIcrc1TokenTradeContractMidCallData
  cycles_bank_id : Principal

def CMMainData.new (cts_id cycles_bank_id : Principal) : CMMainData :=
  { cts_id, trade_contracts := [], tc_canister_code := .empty, trades_storage_canister_code := .empty
    positions_storage_canister_code := .empty
    controller_create_icrc1token_trade_contract_mid_call_data := none, cycles_bank_id }

inductive ControllerCreateIcrc1TokenTradeContractMidCallError
  | TCInitCandidEncodeError (e : String)
  | InstallCodeIcrc1TokenTradeContractCallError (e : CallError)
  deriving DecidableEq

inductive ControllerCreateIcrc1TokenTradeContractError
  | ControllerIsInTheMiddleOfADifferentCall (must_call_continue : Bool)
  | TradeContractForTheLedgerAlreadyCreated (t : TradeContractIdAndLedgerId)
  | CyclesBalanceTooLow (cycles_balance : Nat)
  | CreateCanisterIcrc1TokenTradeContractCallError (e : CallError)
  | MidCallError (e : ControllerCreateIcrc1TokenTradeContractMidCallError)
  deriving DecidableEq

inductive ContinueControllerCreateIcrc1TokenTradeContractError
  | ControllerIsNotInTheMiddleOfAControllerCreateIcrc1TokenTradeContractCall
  | ControllerCreateIcrc1TokenTradeContractError (e : ControllerCreateIcrc1TokenTradeContractError)
  deriving DecidableEq

structure CMIcrc1TokenTradeContractInit where
  cts_id : Principal
  cm_main_id : Principal
  icrc1_token_ledger : Principal
  icrc1_token_ledger_transfer_fee : Nat
  cycles_bank_id : Principal
  cycles_bank_transfer_fee : Nat
  trades_storage_canister_code : CanisterCode
  positions_storage_canister_code : CanisterCode
  deriving DecidableEq

structure ManagementCanisterOptionalCanisterSettings where
  controllers : Option (List Principal)
  compute_allocation : Option Nat
  memory_allocation : Option Nat
  freezing_threshold : Option Nat
  deriving DecidableEq

inductive ManagementCanisterInstallCodeMode
  | install
  | reinstall
  | upgrade
  deriving DecidableEq

structure ManagementCanisterInstallCodeQuest where
  mode : ManagementCanisterInstallCodeMode
  canister_id : Principal
  wasm_module : List Byte
  arg : List Byte
  deriving DecidableEq

/-- What a message reads besides the data: the clock, the canister's own id and cycles, and the
candid encoding. -/
structure Env where
  now : Nat
  id : Principal
  canister_balance : Nat
  encode_one : CMIcrc1TokenTradeContractInit → Except String (List Byte)

/-! ## Code -/

def controller_upload_canister_code (sha256 : List Byte → List Byte) (canister_code : CanisterCode)
    (market_canister_type : MarketCanisterType) (data : CMMainData) : Option CMMainData :=
  if canister_code.verify_module_hash sha256 then
    match market_canister_type with
    | .TradeContract => some { data with tc_canister_code := canister_code }
    | .PositionsStorage => some { data with positions_storage_canister_code := canister_code }
    | .TradesStorage => some { data with trades_storage_canister_code := canister_code }
  else none

/-! ## Creating a trade contract -/

abbrev MidCallData := ControllerCreateIcrc1TokenTradeContractMidCallData

def MidCallData.ledger (m : MidCallData) : Principal :=
  m.controller_create_icrc1token_trade_contract_quest.icrc1_ledger_id

def CMMainData.write_mid_call_data (data : CMMainData) (m : Option MidCallData) : CMMainData :=
  { data with controller_create_icrc1token_trade_contract_mid_call_data := m }

def unlock_and_write_controller_create_icrc1token_trade_contract_mid_call_data (m : MidCallData)
    (data : CMMainData) : CMMainData :=
  data.write_mid_call_data (some { m with lock := false })

/-- What a creation awaits. -/
inductive CreateAwait
  | create_canister (settings : ManagementCanisterOptionalCanisterSettings) (with_cycles : Nat)
  | install_code (quest : ManagementCanisterInstallCodeQuest) (tc_module_hash : List Byte)
  deriving DecidableEq

structure CreateCall where
  mid_call_data : MidCallData
  await : CreateAwait
  deriving DecidableEq

/-- Where a message leaves a creation. -/
inductive CreateProgress
  | call (c : CreateCall)
  | failed (e : ControllerCreateIcrc1TokenTradeContractError)
  | created (trade_contract_canister_id : Principal)
  deriving DecidableEq

/-- The end of a creation: the new contract joins the list. -/
def list_trade_contract (m : MidCallData) (data : CMMainData) : Option (CMMainData × CreateProgress) := do
  let canister_id ← m.icrc1token_trade_contract_canister_id
  let tc_data ← m.icrc1token_trade_contract_data
  let data := data.write_mid_call_data none
  return ({ data with trade_contracts := data.trade_contracts ++ [(⟨m.ledger, canister_id⟩, tc_data)] },
    .created canister_id)

/-- From the point where the canister id is known, up to the call of `install_code`. -/
def install_trade_contract (env : Env) (m : MidCallData) (data : CMMainData) :
    Option (CMMainData × CreateProgress) :=
  if m.icrc1token_trade_contract_data.isNone then
    match env.encode_one {
      cts_id := data.cts_id
      cm_main_id := env.id
      cycles_bank_id := data.cycles_bank_id
      cycles_bank_transfer_fee := BANK_TRANSFER_FEE
      icrc1_token_ledger := m.ledger
      icrc1_token_ledger_transfer_fee :=
        m.controller_create_icrc1token_trade_contract_quest.icrc1_ledger_transfer_fee
      trades_storage_canister_code := data.trades_storage_canister_code
      positions_storage_canister_code := data.positions_storage_canister_code } with
    | .error e =>
      some (unlock_and_write_controller_create_icrc1token_trade_contract_mid_call_data m data,
        .failed (.MidCallError (.TCInitCandidEncodeError e)))
    | .ok arg => do
      let canister_id ← m.icrc1token_trade_contract_canister_id
      return (data, .call ⟨m, .install_code
        { mode := .install, canister_id, wasm_module := data.tc_canister_code.module, arg }
        data.tc_canister_code.module_hash⟩)
  else list_trade_contract m data

def controller_create_icrc1token_trade_contract_ (env : Env) (m : MidCallData) (data : CMMainData) :
    Option (CMMainData × CreateProgress) :=
  match data.trade_contracts.find? (fun t => t.1.icrc1_ledger_canister_id = m.ledger) with
  | some t =>
    some (data.write_mid_call_data none, .failed (.TradeContractForTheLedgerAlreadyCreated t.1))
  | none =>
    if m.icrc1token_trade_contract_canister_id.isNone then
      if env.canister_balance < NEW_ICRC1TOKEN_TRADE_CONTRACT_CYCLES + 20 * TRILLION then
        some (data.write_mid_call_data none, .failed (.CyclesBalanceTooLow env.canister_balance))
      else
        some (data, .call ⟨m, .create_canister
          { controllers := some [env.id, data.cts_id]
            compute_allocation := none
            memory_allocation := some (TC_CANISTER_NETWORK_MEMORY_ALLOCATION_MiB * MiB)
            freezing_threshold := none }
          NEW_ICRC1TOKEN_TRADE_CONTRACT_CYCLES⟩)
    else install_trade_contract env m data

/-- From the reply of `create_canister` on. -/
def create_canister_reply (env : Env) (c : CreateCall) (r : Except CallError Principal)
    (data : CMMainData) : Option (CMMainData × CreateProgress) :=
  match r with
  | .ok canister_id =>
    install_trade_contract env
      { c.mid_call_data with icrc1token_trade_contract_canister_id := some canister_id } data
  | .error e =>
    some (data.write_mid_call_data none, .failed (.CreateCanisterIcrc1TokenTradeContractCallError e))

/-- From the reply of `install_code` on. -/
def install_code_reply (env : Env) (c : CreateCall) (tc_module_hash : List Byte)
    (r : Except CallError Unit) (data : CMMainData) : Option (CMMainData × CreateProgress) :=
  match r with
  | .ok () =>
    list_trade_contract { c.mid_call_data with
      icrc1token_trade_contract_data := some ⟨tc_module_hash, env.now⟩ } data
  | .error e =>
    some (unlock_and_write_controller_create_icrc1token_trade_contract_mid_call_data c.mid_call_data
      data, .failed (.MidCallError (.InstallCodeIcrc1TokenTradeContractCallError e)))

def controller_create_trade_contract (env : Env) (q : ControllerCreateIcrc1TokenTradeContractQuest)
    (data : CMMainData) :
    Except ControllerCreateIcrc1TokenTradeContractError (Option (CMMainData × CreateProgress)) :=
  match data.controller_create_icrc1token_trade_contract_mid_call_data with
  | some m => .error (.ControllerIsInTheMiddleOfADifferentCall (!m.lock))
  | none =>
    let m : MidCallData :=
      { start_time_nanos := env.now
        lock := true
        controller_create_icrc1token_trade_contract_quest := q
        icrc1token_trade_contract_canister_id := none
        icrc1token_trade_contract_data := none }
    .ok (controller_create_icrc1token_trade_contract_ env m (data.write_mid_call_data (some m)))

def continue_controller_create_trade_contract (env : Env) (data : CMMainData) :
    Except ContinueControllerCreateIcrc1TokenTradeContractError (Option (CMMainData × CreateProgress)) :=
  match data.controller_create_icrc1token_trade_contract_mid_call_data with
  | some m =>
    if m.lock then
      .error (.ControllerCreateIcrc1TokenTradeContractError
        (.ControllerIsInTheMiddleOfADifferentCall false))
    else
      let m := { m with lock := true }
      .ok (controller_create_icrc1token_trade_contract_ env m (data.write_mid_call_data (some m)))
  | none => .error .ControllerIsNotInTheMiddleOfAControllerCreateIcrc1TokenTradeContractCall

/-! ## Upgrading trade contracts -/

structure ControllerUpgradeCSQuest where
  specific_cs : Option (List Principal)
  new_canister_code : Option CanisterCode
  post_upgrade_quest : List Byte
  deriving DecidableEq

structure UpgradeOutcome where
  stop_canister_result : Option (Except CallError Unit)
  install_code_result : Option (Except CallError Unit)
  start_canister_result : Option (Except CallError Unit)

/-- What the `upgrade_canister_` of one canister awaits. An `install_code` that was executed has an
answer, which may still be on its way. -/
inductive UpgradeAwait
  | stop_canister
  | install_code (answer : Option (Except CallError Unit))
  | start_canister (install_code_result : Except CallError Unit)
  | done (upgrade_outcome : UpgradeOutcome)

structure UpgradeTask where
  canister_id : Principal
  await : UpgradeAwait

/-- A `controller_upgrade_tcs` that awaits the upgrades of its canisters, which run side by side. -/
structure UpgradeCall where
  tc_cc : CanisterCode
  post_upgrade_quest : List Byte
  tasks : List UpgradeTask

def UpgradeAwait.stop_reply : Except CallError Unit → UpgradeAwait
  | .ok () => .install_code none
  | .error e => .done ⟨some (.error e), none, none⟩

def UpgradeAwait.start_reply (install_code_result r : Except CallError Unit) : UpgradeAwait :=
  .done ⟨some (.ok ()), some install_code_result, some r⟩

def upgrade_targets (specific_cs : Option (List Principal)) (tc_cc : CanisterCode) (data : CMMainData) :
    List Principal :=
  match specific_cs with
  | some tcs => tcs
  | none =>
    ((data.trade_contracts.filter (fun tc => tc.2.tc_module_hash ≠ tc_cc.module_hash)).map
      (fun tc => tc.1.trade_contract_canister_id)).take 200

/-- `controller_upgrade_tcs` up to its calls of `stop_canister`. -/
def controller_upgrade_tcs (sha256 : List Byte → List Byte) (q : ControllerUpgradeCSQuest)
    (data : CMMainData) : Option (CMMainData × UpgradeCall) := do
  let data ← match q.new_canister_code with
    | some new_canister_code =>
      if new_canister_code.verify_module_hash sha256 then
        some { data with tc_canister_code := new_canister_code }
      else none
    | none => some data
  let tcs := upgrade_targets q.specific_cs data.tc_canister_code data
  return (data, ⟨data.tc_canister_code, q.post_upgrade_quest, tcs.map (⟨·, .stop_canister⟩)⟩)

/-- The hash of one canister. A canister that is not listed is only printed. -/
def record_upgrade (tc : Principal) (tc_module_hash : List Byte) (now : Nat) :
    List (TradeContractIdAndLedgerId × TradeContractData) →
      List (TradeContractIdAndLedgerId × TradeContractData)
  | [] => []
  | i :: is =>
    if i.1.trade_contract_canister_id = tc then (i.1, ⟨tc_module_hash, now⟩) :: is
    else i :: record_upgrade tc tc_module_hash now is

/-- The last part of `controller_upgrade_tcs`: the successes go into the data. -/
def record_upgrades (tc_cc : CanisterCode) (now : Nat) (rs : List (Principal × UpgradeOutcome))
    (trade_contracts : List (TradeContractIdAndLedgerId × TradeContractData)) :
    List (TradeContractIdAndLedgerId × TradeContractData) :=
  rs.foldl (fun trade_contracts r =>
    match r.2.install_code_result with
    | some (.ok ()) => record_upgrade r.1 tc_cc.module_hash now trade_contracts
    | _ => trade_contracts) trade_contracts

end Cts.Main
