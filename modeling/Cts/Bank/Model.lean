import Cts.Icrc
import Cts.Lib.OrdMap

/-!
# The cycles bank

`canisters/bank/src/lib.rs` and the types it takes from `cts_lib`. A method that awaits is cut at
its awaits: each piece runs in one message. A push onto the log that panics traps its message,
which then changes nothing, so the pieces below are those of messages whose push went through.
-/

namespace Cts.Bank

open Lib

/-! ## Types -/

def BANK_TRANSFER_FEE : Nat := 10000000000

def MINIMUM_BURN_ICP : Nat := 10000000
def MAX_USERS_MINT_CYCLES : Nat := 170
def TRILLION : Nat := 1000000000000
def MINIMUM_CANISTER_CYCLES_BALANCE_FOR_A_START_MINT_CYCLES_CALL : Nat := 2 * TRILLION
def MINIMUM_CANISTER_CYCLES_BALANCE_FOR_A_CMC_NOTIFY_MINT_CYCLES_CALL : Nat := 1 * TRILLION
def ICP_LEDGER_TOP_UP_CANISTER_MEMO : Nat := 0x50555054
def MAINNET_CYCLES_MINTING_CANISTER_ID : Principal := ⟨[0, 0, 0, 0, 0, 0, 0, 4, 1, 1], by decide⟩

inductive MintKind
  | CyclesIn (from_canister : Principal)
  | CMC (caller : Principal) (icp_block_height : Nat)
  deriving DecidableEq

inductive Operation
  | Mint («to» : IcrcId) (kind : MintKind)
  | Burn («from» : IcrcId) (for_canister : Principal)
  | Xfer («from» : IcrcId) («to» : IcrcId)
  deriving DecidableEq

structure LogTX where
  op : Operation
  fee : Option Nat
  amt : Nat
  memo : Option (List Byte)
  ts : Option Nat
  deriving DecidableEq

structure Log where
  ts : Nat
  fee : Option Nat
  tx : LogTX
  deriving DecidableEq

structure CyclesInQuest where
  cycles : Nat
  fee : Option Nat
  «to» : IcrcId
  memo : Option (List Byte)
  created_at_time : Option Nat
  deriving DecidableEq

inductive CyclesInError
  | MsgCyclesTooLow
  | BadFee (expected_fee : Nat)
  | TooOld
  | CreatedInFuture (ledger_time : Nat)
  deriving DecidableEq

structure CyclesOutQuest where
  cycles : Nat
  fee : Option Nat
  from_subaccount : Option IcrcSubaccount
  memo : Option (List Byte)
  for_canister : Principal
  created_at_time : Option Nat
  deriving DecidableEq

inductive CyclesOutError
  | InsufficientFunds (balance : Nat)
  | BadFee (expected_fee : Nat)
  | DepositCyclesCallError (e : CallError)
  | TooOld
  | CreatedInFuture (ledger_time : Nat)
  deriving DecidableEq

structure MintCyclesQuest where
  burn_icp : Nat
  burn_icp_transfer_fee : Nat
  «to» : IcrcId
  fee : Option Nat
  memo : Option (List Byte)
  created_at_time : Option Nat
  deriving DecidableEq

inductive IcpTransferError
  | BadFee (expected_fee : Nat)
  | InsufficientFunds (balance : Nat)
  | TxTooOld (allowed_window_nanos : Nat)
  | TxCreatedInFuture
  | TxDuplicate (duplicate_of : Nat)
  deriving DecidableEq

inductive LedgerTopupCyclesCmcIcpTransferError
  | IcpTransferCallError (e : CallError)
  | IcpTransferError (e : IcpTransferError)
  deriving DecidableEq

inductive CmcNotifyError
  | Refunded (block_index : Option Nat) (reason : String)
  | InvalidTransaction (reason : String)
  | Other (error_message : String) (error_code : Nat)
  | Processing
  | TransactionTooOld (block_index : Nat)
  deriving DecidableEq

inductive LedgerTopupCyclesCmcNotifyError
  | CmcNotifyTopUpQuestCandidEncodeError (candid_error : String)
  | CmcNotifyCallError (e : CallError)
  | CmcNotifySponseCandidDecodeError (candid_error : String) (candid_bytes : List Byte)
  | CmcNotifyError (e : CmcNotifyError)
  deriving DecidableEq

inductive UserIsInTheMiddleOfADifferentCall
  | MintCyclesCall (must_call_complete : Bool)
  deriving DecidableEq

inductive MintCyclesMidCallError
  | LedgerTopupCyclesCmcNotifyError (e : LedgerTopupCyclesCmcNotifyError)
  | CouldNotPerformCmcNotifyCallDueToLowBankCanisterCycles
  deriving DecidableEq

inductive MintCyclesError
  | UserIsInTheMiddleOfADifferentCall (e : UserIsInTheMiddleOfADifferentCall)
  | MinimumBurnIcp (minimum_burn_icp : Nat)
  | BadFee (expected_fee : Nat)
  | TooOld
  | CreatedInFuture (ledger_time : Nat)
  | CBIsBusy
  | LedgerTopupCyclesCmcIcpTransferError (e : LedgerTopupCyclesCmcIcpTransferError)
  | LedgerTopupCyclesCmcNotifyRefund (block_index : Nat) (reason : String)
  | MidCallError (e : MintCyclesMidCallError)
  deriving DecidableEq

structure MintCyclesSuccess where
  mint_cycles : Nat
  mint_cycles_block_height : Nat
  deriving DecidableEq

inductive CompleteMintCyclesError
  | UserIsNotInTheMiddleOfAMintCyclesCall
  | MintCyclesError (e : MintCyclesError)
  deriving DecidableEq

structure MintCyclesMidCallData where
  start_time_nanos : Nat
  lock : Bool
  quest : MintCyclesQuest
  fee : Nat
  cmc_icp_transfer_block_height : Option Nat
  cmc_cycles : Option Nat
  deriving DecidableEq

structure CBData where
  users_mint_cycles : OrdMap Principal MintCyclesMidCallData
  total_supply : Nat

/-- `CB_DATA`, `CYCLES_BALANCES`, `LOGS` and `USER_LOGS_POINTERS`. -/
structure BankState where
  cb_data : CBData
  cycles_balances : OrdMap Account Nat
  logs : List Log
  user_logs_pointers : OrdMap Account (List Nat)

def BankState.new : BankState := ⟨⟨.empty, 0⟩, .empty, [], .empty⟩

/-- How a message ends that does not await. -/
inductive Outcome (ε α : Type)
  | trap (message : String)
  | err (e : ε)
  | ok (a : α)

/-- What a message that does not await answers with, and whether it answers `Ok`. -/
def Outcome.getD {ε α : Type} (d : α) : Outcome ε α → α
  | .ok a => a
  | _ => d

def Outcome.isOk {ε α : Type} : Outcome ε α → Bool
  | .ok _ => true
  | _ => false

theorem Outcome.eq_ok {ε α β : Type} {o : Outcome ε (α × β)} (d : α × β) (h : o.isOk = true) :
    o = .ok ((o.getD d).1, (o.getD d).2) := by
  cases o with
  | ok a => rfl
  | trap | err => cases h

/-! ## Functions -/

def check_if_user_is_in_the_middle_of_a_different_call (cb_data : CBData) (user_id : Principal) :
    Except UserIsInTheMiddleOfADifferentCall Unit :=
  match cb_data.users_mint_cycles.get user_id with
  | some mint_cycles_mid_call_data => .error (.MintCyclesCall (!mint_cycles_mid_call_data.lock))
  | none => .ok ()

def cycles_balance (b : BankState) (icrc_id : IcrcId) : Nat :=
  (b.cycles_balances.get icrc_id.account).getD 0

def add_cycles_balance (b : BankState) (icrc_id : IcrcId) (add_cycles : Nat) : BankState :=
  { b with
    cycles_balances := b.cycles_balances.insert icrc_id.account
      (saturating_add (cycles_balance b icrc_id) add_cycles)
    cb_data.total_supply := saturating_add b.cb_data.total_supply add_cycles }

def subtract_cycles_balance (b : BankState) (icrc_id : IcrcId) (sub_cycles : Nat) : BankState :=
  { b with
    cycles_balances := b.cycles_balances.insert icrc_id.account
      (saturating_sub (cycles_balance b icrc_id) sub_cycles)
    cb_data.total_supply := saturating_sub b.cb_data.total_supply sub_cycles }

/-- `logs.push`, with the height of the new block. -/
def push_log (b : BankState) (log : Log) : Nat × BankState :=
  (b.logs.length, { b with logs := b.logs ++ [log] })

/-- One more height, cut to 32 bits, in the list of an account. -/
def point_log (b : BankState) (icrc_id : IcrcId) (block_height : Nat) : BankState :=
  { b with
    user_logs_pointers := b.user_logs_pointers.insert icrc_id.account
      ((b.user_logs_pointers.get icrc_id.account).getD [] ++ [Word.wrap 32 block_height]) }

def memo_too_long (memo : Option (List Byte)) : Bool := memo.any (fun m => 32 < m.length)

def bad_fee (fee : Option Nat) : Bool := fee.any (fun f => f ≠ BANK_TRANSFER_FEE)

/-- The `fee` field of a log: set when the caller left it out. -/
def log_fee (fee : Option Nat) (charged : Nat) : Option Nat :=
  if fee.isNone then some charged else none

/-! ## Methods -/

def icrc1_transfer (caller : Principal) (now : Nat) (q : Icrc1TransferQuest) (b : BankState) :
    Outcome Icrc1TransferError (Nat × BankState) :=
  let caller_icrc_id : IcrcId := ⟨caller, q.from_subaccount⟩
  match q.created_at_time with
  | some created_at_time =>
    .err (if created_at_time ≤ now then .TooOld else .CreatedInFuture now)
  | none =>
    if memo_too_long q.memo then .trap "Max memo length is 32 bytes."
    else if bad_fee q.fee then .err (.BadFee BANK_TRANSFER_FEE)
    else if cycles_balance b caller_icrc_id < saturating_add q.amount BANK_TRANSFER_FEE then
      .err (.InsufficientFunds (cycles_balance b caller_icrc_id))
    else
      let b := subtract_cycles_balance b caller_icrc_id (saturating_add q.amount BANK_TRANSFER_FEE)
      let b := add_cycles_balance b q.to q.amount
      let (block_height, b) := push_log b
        { ts := now, fee := log_fee q.fee BANK_TRANSFER_FEE,
          tx := { op := .Xfer caller_icrc_id q.to, fee := q.fee, amt := q.amount, memo := q.memo,
                  ts := q.created_at_time } }
      let b := point_log b caller_icrc_id block_height
      let b := if q.to.account ≠ caller_icrc_id.account then point_log b q.to block_height else b
      .ok (block_height, b)

def controller_clear_user_logs_pointers_cache (b : BankState) : BankState :=
  { b with user_logs_pointers := .empty }

def cycles_in (caller : Principal) (now msg_cycles_available : Nat) (q : CyclesInQuest) (b : BankState) :
    Outcome CyclesInError (Nat × BankState) :=
  match q.created_at_time with
  | some created_at_time =>
    .err (if created_at_time ≤ now then .TooOld else .CreatedInFuture now)
  | none =>
    if bad_fee q.fee then .err (.BadFee BANK_TRANSFER_FEE)
    else if memo_too_long q.memo then .trap "Max memo length is 32 bytes."
    else if msg_cycles_available < saturating_add q.cycles BANK_TRANSFER_FEE then .err .MsgCyclesTooLow
    else
      let b := add_cycles_balance b q.to q.cycles
      let (block_height, b) := push_log b
        { ts := now, fee := log_fee q.fee BANK_TRANSFER_FEE,
          tx := { op := .Mint q.to (.CyclesIn caller), fee := q.fee, amt := q.cycles, memo := q.memo,
                  ts := q.created_at_time } }
      .ok (block_height, point_log b q.to block_height)

/-- What `cycles_in` asks `msg_cycles_accept128` for. -/
def cycles_in_accept (q : CyclesInQuest) : Nat := saturating_add q.cycles BANK_TRANSFER_FEE

/-- A `cycles_out` that awaits `deposit_cycles`. -/
structure CyclesOutCall where
  caller : Principal
  q : CyclesOutQuest
  deriving DecidableEq

def CyclesOutCall.caller_icrc_id (c : CyclesOutCall) : IcrcId := ⟨c.caller, c.q.from_subaccount⟩

/-- `cycles_out` up to its call of `deposit_cycles` with `q.cycles` attached. -/
def cycles_out (caller : Principal) (now : Nat) (q : CyclesOutQuest) (b : BankState) :
    Outcome CyclesOutError (CyclesOutCall × BankState) :=
  let caller_icrc_id : IcrcId := ⟨caller, q.from_subaccount⟩
  match q.created_at_time with
  | some created_at_time =>
    .err (if created_at_time ≤ now then .TooOld else .CreatedInFuture now)
  | none =>
    if bad_fee q.fee then .err (.BadFee BANK_TRANSFER_FEE)
    else if memo_too_long q.memo then .trap "Max memo length is 32 bytes."
    else if cycles_balance b caller_icrc_id < saturating_add q.cycles BANK_TRANSFER_FEE then
      .err (.InsufficientFunds (cycles_balance b caller_icrc_id))
    else
      .ok (⟨caller, q⟩,
        subtract_cycles_balance b caller_icrc_id (saturating_add q.cycles BANK_TRANSFER_FEE))

/-- `cycles_out` from the reply of `deposit_cycles` on. -/
def cycles_out_reply (c : CyclesOutCall) (r : Except CallError Unit) (now : Nat) (b : BankState) :
    Except CyclesOutError Nat × BankState :=
  match r with
  | .ok () =>
    let (block_height, b) := push_log b
      { ts := now, fee := log_fee c.q.fee BANK_TRANSFER_FEE,
        tx := { op := .Burn c.caller_icrc_id c.q.for_canister, fee := c.q.fee,
                amt := saturating_add c.q.cycles BANK_TRANSFER_FEE, memo := c.q.memo,
                ts := c.q.created_at_time } }
    (.ok block_height, point_log b c.caller_icrc_id block_height)
  | .error call_error =>
    (.error (.DepositCyclesCallError call_error),
      add_cycles_balance b c.caller_icrc_id (saturating_add c.q.cycles BANK_TRANSFER_FEE))

/-! ## Minting -/

structure IcpTransferArgs where
  memo : Nat
  amount : Nat
  fee : Nat
  from_subaccount : Option IcrcSubaccount
  to_owner : Principal
  to_subaccount : IcrcSubaccount
  created_at_time : Option Nat
  deriving DecidableEq

/-- What a `mint_cycles_` awaits. -/
inductive MintAwait
  | icp_transfer (args : IcpTransferArgs)
  | cmc_notify (block_index : Nat) (canister_id : Principal)
  deriving DecidableEq

structure MintCall where
  user_id : Principal
  mid_call_data : MintCyclesMidCallData
  await : MintAwait
  deriving DecidableEq

/-- Where a piece of `mint_cycles_` leaves the call. `trap` is an `unwrap` of `None`. -/
inductive MintProgress
  | call (c : MintCall)
  | failed (e : MintCyclesError)
  | minted (icp_block_height : Nat) (cmc_cycles fee : Nat) (success : MintCyclesSuccess)
  | trap
  deriving DecidableEq

def insert_mint (b : BankState) (user_id : Principal) (d : MintCyclesMidCallData) : BankState :=
  { b with cb_data.users_mint_cycles := b.cb_data.users_mint_cycles.insert user_id d }

def remove_mint (b : BankState) (user_id : Principal) : BankState :=
  { b with cb_data.users_mint_cycles := b.cb_data.users_mint_cycles.remove user_id }

def ledger_topup_cycles_cmc_icp_transfer (d : MintCyclesMidCallData) (user_id id : Principal)
    (now : Nat) : IcpTransferArgs :=
  { memo := ICP_LEDGER_TOP_UP_CANISTER_MEMO
    amount := Word.wrap 64 d.quest.burn_icp
    fee := Word.wrap 64 d.quest.burn_icp_transfer_fee
    from_subaccount := some (principal_icp_subaccount user_id)
    to_owner := MAINNET_CYCLES_MINTING_CANISTER_ID
    to_subaccount := principal_icp_subaccount id
    created_at_time := some now }

/-- The end of `mint_cycles_`: the credit, the log and the pointers. -/
def mint_cycles_credit (user_id : Principal) (d : MintCyclesMidCallData) (now : Nat) (b : BankState) :
    BankState × MintProgress :=
  match d.cmc_cycles, d.cmc_icp_transfer_block_height with
  | some cmc_cycles, some icp_block_height =>
    let mint_cycles := saturating_sub cmc_cycles d.fee
    let b := remove_mint (add_cycles_balance b d.quest.to mint_cycles) user_id
    let (block_height, b) := push_log b
      { ts := now, fee := log_fee d.quest.fee d.fee,
        tx := { op := .Mint d.quest.to (.CMC user_id icp_block_height), fee := d.quest.fee,
                amt := mint_cycles, memo := d.quest.memo, ts := d.quest.created_at_time } }
    (point_log b d.quest.to block_height,
      .minted icp_block_height cmc_cycles d.fee ⟨mint_cycles, block_height⟩)
  | _, _ => (b, .trap)

/-- `mint_cycles_` from the point where the block height is known. -/
def mint_cycles_notify (user_id id : Principal) (d : MintCyclesMidCallData)
    (canister_balance now : Nat) (b : BankState) : BankState × MintProgress :=
  match d.cmc_cycles with
  | some _ => mint_cycles_credit user_id d now b
  | none =>
    if canister_balance < MINIMUM_CANISTER_CYCLES_BALANCE_FOR_A_CMC_NOTIFY_MINT_CYCLES_CALL then
      (insert_mint b user_id { d with lock := false },
        .failed (.MidCallError .CouldNotPerformCmcNotifyCallDueToLowBankCanisterCycles))
    else
      match d.cmc_icp_transfer_block_height with
      | some block_index => (b, .call ⟨user_id, d, .cmc_notify block_index id⟩)
      | none => (b, .trap)

def mint_cycles_ (user_id id : Principal) (d : MintCyclesMidCallData) (canister_balance now : Nat)
    (b : BankState) : BankState × MintProgress :=
  match d.cmc_icp_transfer_block_height with
  | none => (b, .call ⟨user_id, d, .icp_transfer (ledger_topup_cycles_cmc_icp_transfer d user_id id now)⟩)
  | some _ => mint_cycles_notify user_id id d canister_balance now b

/-- `mint_cycles_` from the reply of the ICP ledger on. -/
def mint_cycles_transferred (c : MintCall) (id : Principal)
    (r : Except LedgerTopupCyclesCmcIcpTransferError Nat) (canister_balance now : Nat) (b : BankState) :
    BankState × MintProgress :=
  match r with
  | .ok block_height =>
    mint_cycles_notify c.user_id id
      { c.mid_call_data with cmc_icp_transfer_block_height := some block_height } canister_balance now b
  | .error e => (remove_mint b c.user_id, .failed (.LedgerTopupCyclesCmcIcpTransferError e))

/-- `mint_cycles_` from the reply of the cycles minting canister on. -/
def mint_cycles_notified (c : MintCall) (r : Except LedgerTopupCyclesCmcNotifyError Nat)
    (now : Nat) (b : BankState) : BankState × MintProgress :=
  match r with
  | .ok cmc_cycles =>
    mint_cycles_credit c.user_id { c.mid_call_data with cmc_cycles := some cmc_cycles } now b
  | .error (.CmcNotifyError (.Refunded (some block_index) reason)) =>
    (remove_mint b c.user_id, .failed (.LedgerTopupCyclesCmcNotifyRefund block_index reason))
  | .error e =>
    (insert_mint b c.user_id { c.mid_call_data with lock := false },
      .failed (.MidCallError (.LedgerTopupCyclesCmcNotifyError e)))

def mint_cycles (caller id : Principal) (canister_balance now : Nat) (q : MintCyclesQuest) (b : BankState) :
    Outcome MintCyclesError (BankState × MintProgress) :=
  if canister_balance < MINIMUM_CANISTER_CYCLES_BALANCE_FOR_A_START_MINT_CYCLES_CALL then
    .trap "This canister is low on cycles."
  else
    match q.created_at_time with
    | some created_at_time =>
      .err (if created_at_time ≤ now then .TooOld else .CreatedInFuture now)
    | none =>
      if 2 ^ 64 - 1 < q.burn_icp ∨ 2 ^ 64 - 1 < q.burn_icp_transfer_fee then
        .trap "burn_icp or burn_icp_transfer_fee amount too large. Max u64::MAX."
      else if q.burn_icp < MINIMUM_BURN_ICP then .err (.MinimumBurnIcp MINIMUM_BURN_ICP)
      else if bad_fee q.fee then .err (.BadFee BANK_TRANSFER_FEE)
      else if memo_too_long q.memo then .trap "Max memo length is 32 bytes."
      else
        match check_if_user_is_in_the_middle_of_a_different_call b.cb_data caller with
        | .error e => .err (.UserIsInTheMiddleOfADifferentCall e)
        | .ok () =>
          if MAX_USERS_MINT_CYCLES ≤ b.cb_data.users_mint_cycles.len then .err .CBIsBusy
          else
            let mid_call_data : MintCyclesMidCallData :=
              { start_time_nanos := now, lock := true, quest := q, fee := BANK_TRANSFER_FEE,
                cmc_icp_transfer_block_height := none, cmc_cycles := none }
            .ok (mint_cycles_ caller id mid_call_data canister_balance now
              (insert_mint b caller mid_call_data))

def complete_mint_cycles_ (user_id id : Principal) (canister_balance now : Nat) (b : BankState) :
    Outcome CompleteMintCyclesError (BankState × MintProgress) :=
  match b.cb_data.users_mint_cycles.get user_id with
  | none => .err .UserIsNotInTheMiddleOfAMintCyclesCall
  | some mid_call_data =>
    if mid_call_data.lock then
      .err (.MintCyclesError (.UserIsInTheMiddleOfADifferentCall (.MintCyclesCall false)))
    else
      let mid_call_data := { mid_call_data with lock := true }
      .ok (mint_cycles_ user_id id mid_call_data canister_balance now
        (insert_mint b user_id mid_call_data))

def complete_mint_cycles (for_user : Option Principal) (caller id : Principal)
    (canister_balance now : Nat) (b : BankState) :
    Outcome CompleteMintCyclesError (BankState × MintProgress) :=
  complete_mint_cycles_ (for_user.getD caller) id canister_balance now b

end Cts.Bank
