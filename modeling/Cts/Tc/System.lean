import Cts.Tc.Calls
import Mathlib.Logic.Function.Basic

/-!
# The trade contract and what it talks to

The contract's state with the calls that await a reply, the two ledgers, and what happened so far.
Each step is one message, and what the ledgers, the storage canisters and the management canister
answer is free. A ledger executes a transfer exactly when it answers it with a block.
-/

namespace Cts.Tc

open Lib

/-! ## The ledgers -/

abbrev Ledger := Account → Nat

/-- The fee goes to nobody. -/
def Ledger.transfer (l : Ledger) (source target : Account) (amount fee : Nat) : Ledger :=
  let l := Function.update l source (l source - (amount + fee))
  Function.update l target (l target + amount)

/-- A fee that the transfer names is the fee that the ledger takes. -/
structure Ledger.Executes (l : Ledger) (owner : Principal) (q : Icrc1TransferQuest) (fee : Nat)
    (l' : Ledger) : Prop where
  fee_eq : ∀ f, q.fee = some f → f = fee
  funds : q.amount + fee ≤ l ⟨owner, q.from_subaccount.getD ICRC_DEFAULT_SUBACCOUNT⟩
  eq : l' = l.transfer ⟨owner, q.from_subaccount.getD ICRC_DEFAULT_SUBACCOUNT⟩ q.to.account
    q.amount fee

/-! ## State -/

inductive UserQuest
  | trade (q : TradeQuest)
  | transfer_balance (kind : PositionKind) (q : TransferBalanceQuest)

def UserQuest.kind : UserQuest → PositionKind
  | .trade q => q.kind
  | .transfer_balance kind _ => kind

/-- A user's call that waits for its ledger transfer. -/
structure UserCall where
  caller : Principal
  quest : UserQuest
  reply : Option LedgerTransferReturnType

def UserCall.transfer (c : UserCall) (canister_id : Principal) : Icrc1TransferQuest :=
  match c.quest with
  | .trade q => q.posit_transfer canister_id c.caller
  | .transfer_balance _ q => q.posit_transfer c.caller

/-- What happened so far, of which the contract keeps no trace. -/
structure History where
  /-- The fees that the two cells ever held. -/
  fees : List Nat
  /-- What came to the positions account other than as the deposit of a trade. -/
  received : PositionKind → Nat
  /-- The payouts that the ledgers executed. -/
  executed : Queue → List (Nat × Icrc1TransferQuest)
  /-- The records that were overwritten. -/
  updated : PositionKind → List (PositionId × List Byte)
  deals : List Deal
  /-- Whether a `match_trades` was cut short. -/
  stopped : Bool
  removed : PositionKind → List VoidPosition
  /-- The trade logs that went to the trades storage. -/
  moved : List TradeLogAndTemporaryData

structure TcState where
  cm_data : CMData
  fees : PositionKind → Nat
  positions_storage : LogStorage Principal
  trades_storage : LogStorage PositionId
  calls : List UserCall
  do_payouts_calls : Nat
  runs : List PayoutsRun
  ledger : PositionKind → Ledger
  history : History

def CMData.new (fees : PositionKind → Nat) : CMData :=
  { cycles_positions := .empty
    token_positions := .empty
    void_cycles_positions := .empty
    void_token_positions := .empty
    trade_logs := []
    trade_logs_id_counter := 0
    candle_counter := ⟨[], 0, 0⟩
    positions_id_counter := 0
    mid_call_user_cycles_balance_locks := ∅
    mid_call_user_token_balance_locks := ∅
    do_payouts_errors := []
    icrc1_token_ledger_transfer_fee := fees .Token
    cycles_bank_transfer_fee := fees .Cycles }

/-- A new contract. Its accounts at the ledgers may be old. -/
def TcState.new (cfg : TcConfig) (fees : PositionKind → Nat)
    (positions_module_hash trades_module_hash : List Byte) (ledger : PositionKind → Ledger) : TcState :=
  { cm_data := .new fees
    fees := fees
    positions_storage := .new PositionLog.STABLE_MEMORY_SERIALIZE_SIZE positions_module_hash
    trades_storage := .new TradeLog.STABLE_MEMORY_SERIALIZE_SIZE trades_module_hash
    calls := []
    do_payouts_calls := 0
    runs := []
    ledger := ledger
    history :=
      { fees := [fees .Cycles, fees .Token]
        received := fun kind => ledger kind cfg.positionsAccount
        executed := fun _ => []
        updated := fun _ => []
        deals := []
        stopped := false
        removed := fun _ => []
        moved := [] } }

/-! ## Parts of steps -/

namespace TcState

/-- The end of `_ledger_transfer`: after a `BadFee` the cell and its copy hold the new fee. -/
def ledger_transfer_replied (s : TcState) (kind : PositionKind) (r : LedgerTransferReturnType) :
    TcState :=
  { s with
    fees := Function.update s.fees kind ((bad_fee r).getD (s.fees kind))
    cm_data := s.cm_data.set_ledger_transfer_fee kind
      ((bad_fee r).getD (s.cm_data.ledger_transfer_fee kind))
    history := { s.history with fees := s.history.fees ++ (bad_fee r).toList } }

def receive (s : TcState) (cfg : TcConfig) (kind : PositionKind) (target : Account) (amount : Nat) :
    TcState :=
  let received := if target = cfg.positionsAccount then amount else 0
  { s with history := { s.history with
      received := Function.update s.history.received kind (s.history.received kind + received) } }

def set_ledger (s : TcState) (kind : PositionKind) (l : Ledger) : TcState :=
  { s with ledger := Function.update s.ledger kind l }

def match_env (s : TcState) (cfg : TcConfig) (now : Nat) (instruction_counter : PositionId → Nat) :
    MatchEnv :=
  { now := now
    cycles_fee := s.fees .Cycles
    token_fee := s.fees .Token
    MAX_TRADE_LOGS := cfg.MAX_TRADE_LOGS
    instruction_counter := instruction_counter }

/-- The trade is done: its position is stored, inserted and matched. -/
def commit (s : TcState) (env : MatchEnv) (caller : Principal) (q : TradeQuest) : TcState :=
  let (cm_data, log, matched) := __trade s.cm_data env caller q
  { s with
    cm_data := cm_data.unlock_balance q.kind caller
    positions_storage := s.positions_storage.append log.stable_memory_serialize
    history := { s.history with
      deals := s.history.deals ++ matched.deals
      stopped := s.history.stopped || matched.exit = .stopped } }

/-- `do_payouts` after `do_payouts_public_method` answered. -/
def move_and_flush (s : TcState) (cfg : TcConfig) (trades_env positions_env : FlushEnv) : TcState :=
  let (moved, trade_logs) := move_trade_logs s.cm_data.trade_logs
  { s with
    cm_data := { s.cm_data with trade_logs := trade_logs }
    trades_storage := (store_trade_logs s.trades_storage moved).flush_logs cfg.flush trades_env
    positions_storage := s.positions_storage.flush_logs cfg.flush positions_env
    history := { s.history with moved := s.history.moved ++ moved } }

end TcState

def PayoutsRun.set_payouts (run : PayoutsRun) (q : Queue) (payouts : List Payout) : PayoutsRun :=
  { run with payouts := Function.update run.payouts q payouts }

def PayoutsRun.set_updates (run : PayoutsRun) (kind : PositionKind) (updates : List Update) :
    PayoutsRun :=
  { run with updates := Function.update run.updates kind updates }

@[simp]
theorem PayoutsRun.set_payouts_self (run : PayoutsRun) (q : Queue) (payouts : List Payout) :
    (run.set_payouts q payouts).payouts q = payouts := Function.update_self _ _ _

theorem PayoutsRun.set_payouts_of_ne (run : PayoutsRun) {q q' : Queue} (h : q' ≠ q)
    (payouts : List Payout) : (run.set_payouts q payouts).payouts q' = run.payouts q' :=
  Function.update_of_ne h _ _

@[simp]
theorem PayoutsRun.set_updates_self (run : PayoutsRun) (kind : PositionKind) (updates : List Update) :
    (run.set_updates kind updates).updates kind = updates := Function.update_self _ _ _

theorem PayoutsRun.set_updates_of_ne (run : PayoutsRun) {kind k : PositionKind} (h : k ≠ kind)
    (updates : List Update) : (run.set_updates kind updates).updates k = run.updates k :=
  Function.update_of_ne h _ _

/-- The records that a run overwrote in the buffer, when it starts. -/
def PayoutsRun.written (run : PayoutsRun) (kind : PositionKind) : List (PositionId × List Byte) :=
  ((run.updates kind).filter Update.isDone).map fun u => (u.position_id, u.log_serialization_b)

def History.execute (h : History) (q : Queue) (e : Nat × Icrc1TransferQuest) : History :=
  { h with executed := Function.update h.executed q (h.executed q ++ [e]) }

def History.update (h : History) (es : PositionKind → List (PositionId × List Byte)) : History :=
  { h with updated := fun kind => h.updated kind ++ es kind }

/-- The positions that the end of a run removed. -/
def History.remove (h : History) (removed : PositionKind → List VoidPosition) : History :=
  { h with removed := fun kind => h.removed kind ++ removed kind }

/-! ## Steps -/

inductive TcStep (cfg : TcConfig) : TcState → TcState → Prop
  | trade {s : TcState} {caller : Principal} {q : TradeQuest} {cm_data : CMData}
      (h : _trade cfg s.fees s.positions_storage.data s.trades_storage.data s.cm_data caller q =
        .ok cm_data) :
      TcStep cfg s { s with cm_data := cm_data, calls := ⟨caller, .trade q, none⟩ :: s.calls }
  | transfer_balance {s : TcState} {caller : Principal} {kind : PositionKind}
      {q : TransferBalanceQuest} {cm_data : CMData}
      (h : _transfer_balance s.cm_data caller kind = .ok cm_data) :
      TcStep cfg s
        { s with cm_data := cm_data, calls := ⟨caller, .transfer_balance kind q, none⟩ :: s.calls }
  | deposit_executed {s : TcState} {pre post : List UserCall} {c : UserCall} {q : TradeQuest}
      {fee : Nat} {l : Ledger} (block : Nat) (hc : s.calls = pre ++ c :: post)
      (hr : c.reply = none) (hq : c.quest = .trade q)
      (h : (s.ledger q.kind).Executes cfg.canister_id (c.transfer cfg.canister_id) fee l) :
      TcStep cfg s
        { s.set_ledger q.kind l with
          calls := pre ++ { c with reply := some (.ok (.ok block)) } :: post }
  | balance_executed {s : TcState} {pre post : List UserCall} {c : UserCall} {kind : PositionKind}
      {q : TransferBalanceQuest} {fee : Nat} {l : Ledger} (block : Nat)
      (hc : s.calls = pre ++ c :: post) (hr : c.reply = none) (hq : c.quest = .transfer_balance kind q)
      (h : (s.ledger kind).Executes cfg.canister_id (c.transfer cfg.canister_id) fee l) :
      TcStep cfg s
        { (s.set_ledger kind l).receive cfg kind q.to.account q.amount with
          calls := pre ++ { c with reply := some (.ok (.ok block)) } :: post }
  | call_refused {s : TcState} {pre post : List UserCall} {c : UserCall}
      (r : LedgerTransferReturnType) (hc : s.calls = pre ++ c :: post) (hr : c.reply = none)
      (hn : didExecute r = false) :
      TcStep cfg s { s with calls := pre ++ { c with reply := some r } :: post }
  | trade_failed {s : TcState} {pre post : List UserCall} {c : UserCall} {q : TradeQuest}
      {r : LedgerTransferReturnType} {e : TradeError} (hc : s.calls = pre ++ c :: post)
      (hr : c.reply = some r) (hq : c.quest = .trade q) (he : posit_transfer_error r = some e) :
      TcStep cfg s
        { s.ledger_transfer_replied q.kind r with
          cm_data := (s.ledger_transfer_replied q.kind r).cm_data.unlock_balance q.kind c.caller
          calls := pre ++ post }
  | trade_committed {s : TcState} {pre post : List UserCall} {c : UserCall} {q : TradeQuest}
      {r : LedgerTransferReturnType} (now : Nat) (instruction_counter : PositionId → Nat)
      (hc : s.calls = pre ++ c :: post) (hr : c.reply = some r) (hq : c.quest = .trade q)
      (he : posit_transfer_error r = none) :
      TcStep cfg s
        { s.commit (s.match_env cfg now instruction_counter) c.caller q with calls := pre ++ post }
  | balance_replied {s : TcState} {pre post : List UserCall} {c : UserCall} {kind : PositionKind}
      {q : TransferBalanceQuest} {r : LedgerTransferReturnType} (hc : s.calls = pre ++ c :: post)
      (hr : c.reply = some r) (hq : c.quest = .transfer_balance kind q) :
      TcStep cfg s
        { s.ledger_transfer_replied kind r with
          cm_data := (_transfer_balance_end (s.ledger_transfer_replied kind r).cm_data c.caller
            kind r).1
          calls := pre ++ post }
  | void_position {s : TcState} {caller : Principal} {position_id : PositionId} {now : Nat} {b : Book}
      (h : void_position_ s.cm_data.toBook caller position_id now = .ok b) :
      TcStep cfg s { s with cm_data := { s.cm_data with toBook := b } }
  | others_transfer {s : TcState} (kind : PositionKind) (source target : Account) (amount fee : Nat)
      (hs : source.owner ≠ cfg.canister_id) (hf : amount + fee ≤ s.ledger kind source) :
      TcStep cfg s ((s.set_ledger kind ((s.ledger kind).transfer source target amount fee)).receive
        cfg kind target amount)
  | others_mint {s : TcState} (kind : PositionKind) (target : Account) (amount : Nat) :
      TcStep cfg s ((s.set_ledger kind (Function.update (s.ledger kind) target
        (s.ledger kind target + amount))).receive cfg kind target amount)
  | do_payouts {s : TcState} (h : ¬ nothing_to_pay_out s.cm_data.toBook) :
      TcStep cfg s { s with do_payouts_calls := s.do_payouts_calls + 1 }
  | do_payouts_replied {s : TcState} (trades_env positions_env : FlushEnv)
      (h : 0 < s.do_payouts_calls) :
      TcStep cfg s
        { s.move_and_flush cfg trades_env positions_env with
          do_payouts_calls := s.do_payouts_calls - 1 }
  | do_payouts_failed {s : TcState} (e : CallError) (h : 0 < s.do_payouts_calls) :
      TcStep cfg s
        { s with
          cm_data := { s.cm_data with do_payouts_errors := s.cm_data.do_payouts_errors ++ [e] }
          do_payouts_calls := s.do_payouts_calls - 1 }
  | payouts_started {s : TcState} {cm_data : CMData} {data : LogStorageData} {run : PayoutsRun}
      (h : _do_payouts s.fees s.cm_data s.positions_storage.data = some (cm_data, data, run)) :
      TcStep cfg s
        { s with
          cm_data := cm_data
          positions_storage := { s.positions_storage with data := data }
          runs := s.runs ++ [run]
          history := s.history.update run.written }
  | payout_executed {s : TcState} {before after : List PayoutsRun} {run : PayoutsRun} {q : Queue}
      {pre post : List Payout} {p : Payout} {fee : Nat} {l : Ledger} (block : Nat)
      (hr : s.runs = before ++ run :: after) (hp : run.payouts q = pre ++ p :: post)
      (hs : p.state = .sent)
      (h : (s.ledger q.kind).Executes cfg.canister_id p.transfer fee l) :
      TcStep cfg s
        { (s.set_ledger q.kind l).receive cfg q.kind p.transfer.to.account p.transfer.amount with
          runs := before ++ run.set_payouts q
            (pre ++ { p with state := .answered (.ok (.ok block)) } :: post) :: after
          history := ((s.set_ledger q.kind l).receive cfg q.kind p.transfer.to.account
            p.transfer.amount).history.execute q (p.id, p.transfer) }
  | payout_refused {s : TcState} {before after : List PayoutsRun} {run : PayoutsRun} {q : Queue}
      {pre post : List Payout} {p : Payout} (r : LedgerTransferReturnType)
      (hr : s.runs = before ++ run :: after) (hp : run.payouts q = pre ++ p :: post)
      (hs : p.state = .sent) (hn : didExecute r = false) :
      TcStep cfg s
        { s with
          runs := before ++ run.set_payouts q
            (pre ++ { p with state := .answered r } :: post) :: after }
  | payout_replied {s : TcState} {before after : List PayoutsRun} {run : PayoutsRun} {q : Queue}
      {pre post : List Payout} {p : Payout} {r : LedgerTransferReturnType}
      (hr : s.runs = before ++ run :: after) (hp : run.payouts q = pre ++ p :: post)
      (hs : p.state = .answered r) :
      TcStep cfg s
        { s.ledger_transfer_replied q.kind r with
          runs := before ++ run.set_payouts q
            (pre ++ { p with state := .done (_do_payout_result p.ledger_transfer_fee r) } :: post) ::
              after }
  | update_executed {s : TcState} {before after : List PayoutsRun} {run : PayoutsRun}
      {kind : PositionKind} {pre post : List Update} {u : Update} {canister_id : Principal}
      {sc sc' : StorageCanister Principal} (hr : s.runs = before ++ run :: after)
      (hu : run.updates kind = pre ++ u :: post) (hs : u.state = .sent canister_id)
      (hsc : s.positions_storage.canister canister_id = some sc)
      (h : sc.cm_update_log u.position_id u.log_serialization_b = some sc') :
      TcStep cfg s
        { s with
          positions_storage := { s.positions_storage with
            canister := Function.update s.positions_storage.canister canister_id (some sc') }
          runs := before ++ run.set_updates kind
            (pre ++ { u with state := .done (.ok ()) } :: post) :: after
          history := s.history.update fun k =>
            if k = kind then [(u.position_id, u.log_serialization_b)] else [] }
  | update_failed {s : TcState} {before after : List PayoutsRun} {run : PayoutsRun}
      {kind : PositionKind} {pre post : List Update} {u : Update} {canister_id : Principal}
      (e : CallError) (hr : s.runs = before ++ run :: after)
      (hu : run.updates kind = pre ++ u :: post) (hs : u.state = .sent canister_id) :
      TcStep cfg s
        { s with
          runs := before ++ run.set_updates kind
            (pre ++ { u with state := .done (.error e) } :: post) :: after }
  | payouts_ended {s : TcState} {before after : List PayoutsRun} {run : PayoutsRun}
      (hr : s.runs = before ++ run :: after) (hf : run.finished) :
      TcStep cfg s
        { s with
          cm_data := (_do_payouts_end run s.cm_data).1
          positions_storage := { s.positions_storage with
            data := unlock_positions_storage run s.positions_storage.data }
          runs := before ++ after
          history := s.history.remove (_do_payouts_end run s.cm_data).2 }
  | positions_flush {s : TcState} {storage : LogStorage Principal}
      (h : FlushStep PositionLog.storage cfg.flush s.positions_storage storage) :
      TcStep cfg s { s with positions_storage := storage }
  | trades_flush {s : TcState} {storage : LogStorage PositionId}
      (h : FlushStep TradeLog.storage cfg.flush s.trades_storage storage) :
      TcStep cfg s { s with trades_storage := storage }

def TcInit (cfg : TcConfig) (s : TcState) : Prop :=
  ∃ fees positions_module_hash trades_module_hash ledger,
    s = .new cfg fees positions_module_hash trades_module_hash ledger

abbrev TcReachable (cfg : TcConfig) : TcState → Prop := Reachable (TcInit cfg) (TcStep cfg)

end Cts.Tc
