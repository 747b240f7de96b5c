import Mathlib.Data.Finset.Card
import Cts.Tc.Payouts
import Cts.Tc.Storage

/-!
# The calls of the users

`_trade`, `_transfer_balance`, `void_position_` and `do_payouts` of a trade contract, each cut at its
awaits. A trade and a balance transfer both wait for one ledger transfer out of the caller's own
subaccount.
-/

namespace Cts.Tc

open Lib

/-! ## The constants of a build -/

structure TcConfig where
  canister_id : Principal
  MAX_POSITIONS : PositionKind → Nat
  MAX_VOID_POSITIONS : PositionKind → Nat
  MAX_TRADE_LOGS : Nat
  flush : FlushConfig
  positions_fit : SizeFits flush PositionLog.STABLE_MEMORY_SERIALIZE_SIZE
  trades_fit : SizeFits flush TradeLog.STABLE_MEMORY_SERIALIZE_SIZE
  buffer_fits : flush.FLUSH_STORAGE_BUFFER_AT_SIZE + 1024 ^ 2 +
    1000 * PositionLog.STABLE_MEMORY_SERIALIZE_SIZE < 2 ^ 32

def TcConfig.MAX_STORAGE_BUFFER_SIZE (cfg : TcConfig) : Nat :=
  cfg.flush.FLUSH_STORAGE_BUFFER_AT_SIZE + 1024 ^ 2

def TcConfig.positionsAccount (cfg : TcConfig) : Account := ⟨cfg.canister_id, POSITIONS_SUBACCOUNT⟩

def MAX_MID_CALL_USER_BALANCE_LOCKS : Nat := 500
def VOID_POSITION_MINIMUM_WAIT_TIME_SECONDS : Nat := 0
def NANOS_IN_A_SECOND : Nat := 1000000000

/-! ## By kind -/

namespace CMData

def positions_len (cm_data : CMData) : PositionKind → Nat
  | .Cycles => cm_data.cycles_positions.len
  | .Token => cm_data.token_positions.len

def mid_call_balance_locks (cm_data : CMData) : PositionKind → Finset Principal
  | .Cycles => cm_data.mid_call_user_cycles_balance_locks
  | .Token => cm_data.mid_call_user_token_balance_locks

def set_mid_call_balance_locks (cm_data : CMData) (kind : PositionKind) (locks : Finset Principal) :
    CMData :=
  { cm_data with
    mid_call_user_cycles_balance_locks :=
      if kind = .Cycles then locks else cm_data.mid_call_user_cycles_balance_locks
    mid_call_user_token_balance_locks :=
      if kind = .Token then locks else cm_data.mid_call_user_token_balance_locks }

def lock_balance (cm_data : CMData) (kind : PositionKind) (caller : Principal) : CMData :=
  cm_data.set_mid_call_balance_locks kind (insert caller (cm_data.mid_call_balance_locks kind))

def unlock_balance (cm_data : CMData) (kind : PositionKind) (caller : Principal) : CMData :=
  cm_data.set_mid_call_balance_locks kind ((cm_data.mid_call_balance_locks kind).erase caller)

def ledger_transfer_fee (cm_data : CMData) : PositionKind → Nat
  | .Cycles => cm_data.cycles_bank_transfer_fee
  | .Token => cm_data.icrc1_token_ledger_transfer_fee

def set_ledger_transfer_fee (cm_data : CMData) (kind : PositionKind) (fee : Nat) : CMData :=
  { cm_data with
    cycles_bank_transfer_fee := if kind = .Cycles then fee else cm_data.cycles_bank_transfer_fee
    icrc1_token_ledger_transfer_fee :=
      if kind = .Token then fee else cm_data.icrc1_token_ledger_transfer_fee }

theorem set_mid_call_balance_locks_locks (cm_data : CMData) (kind k : PositionKind)
    (locks : Finset Principal) :
    (cm_data.set_mid_call_balance_locks kind locks).mid_call_balance_locks k =
      if k = kind then locks else cm_data.mid_call_balance_locks k := by
  cases kind <;> cases k <;> rfl

end CMData

/-! ## `trade_cycles` and `trade_tokens` -/

/-- Up to the ledger transfer: the checks and the caller's lock. -/
def _trade (cfg : TcConfig) (fees : PositionKind → Nat)
    (positions_storage_data trades_storage_data : LogStorageData) (cm_data : CMData)
    (caller : Principal) (q : TradeQuest) : Except TradeError CMData :=
  let locks := cm_data.mid_call_balance_locks q.kind
  if q.is_less_than_minimum_position (fees .Cycles) (fees .Token) then
    .error (.MinimumPosition (minimum_match (fees .Cycles)) (minimum_match (fees .Token)))
  else if q.cycles_per_token_rate = 0 then .error .RateCannotBeZero
  else if cfg.MAX_STORAGE_BUFFER_SIZE ≤ positions_storage_data.storage_buffer.length ∨
      cfg.MAX_STORAGE_BUFFER_SIZE ≤ trades_storage_data.storage_buffer.length then
    .error .CyclesMarketIsBusy
  else if cfg.MAX_POSITIONS q.kind - 10 ≤ cm_data.positions_len q.kind + locks.card ∨
      cfg.MAX_VOID_POSITIONS q.kind - (cm_data.void_positions q.kind).len -
        cm_data.positions_len q.kind - locks.card < 10 then
    .error .CyclesMarketIsBusy
  else if caller ∈ locks then .error .CallerIsInTheMiddleOfADifferentCallThatLocksTheBalance
  else if MAX_MID_CALL_USER_BALANCE_LOCKS ≤ locks.card then .error .CyclesMarketIsBusy
  else .ok (cm_data.lock_balance q.kind caller)

/-- What a trade that goes on relies on. -/
structure TradeChecked (cfg : TcConfig) (fees : PositionKind → Nat)
    (positions_storage_data : LogStorageData) (cm_data : CMData) (caller : Principal)
    (q : TradeQuest) : Prop where
  minimum : q.is_less_than_minimum_position (fees .Cycles) (fees .Token) = false
  rate_ne : q.cycles_per_token_rate ≠ 0
  buffer_lt : positions_storage_data.storage_buffer.length < cfg.MAX_STORAGE_BUFFER_SIZE
  not_locked : caller ∉ cm_data.mid_call_balance_locks q.kind
  locks_lt : (cm_data.mid_call_balance_locks q.kind).card < MAX_MID_CALL_USER_BALANCE_LOCKS

theorem _trade_spec {cfg : TcConfig} {fees : PositionKind → Nat}
    {positions_storage_data trades_storage_data : LogStorageData} {cm_data cm_data' : CMData}
    {caller : Principal} {q : TradeQuest}
    (h : _trade cfg fees positions_storage_data trades_storage_data cm_data caller q = .ok cm_data') :
    cm_data' = cm_data.lock_balance q.kind caller ∧
      TradeChecked cfg fees positions_storage_data cm_data caller q := by
  unfold _trade at h
  simp only at h
  split_ifs at h with hmin hrate hbuffer hroom hlocked hlocks
  obtain rfl := Except.ok.inj h
  exact ⟨rfl, Bool.eq_false_iff.mpr hmin, hrate, by omega, hlocked, by omega⟩

def TradeQuest.posit_transfer (q : TradeQuest) (canister_id caller : Principal) :
    Icrc1TransferQuest :=
  { «to» := { owner := canister_id, subaccount := some POSITIONS_SUBACCOUNT }
    fee := q.posit_transfer_ledger_fee
    memo := none
    from_subaccount := some (principal_token_subaccount caller)
    created_at_time := none
    amount := q.quantity }

/-- The error of a trade whose transfer was not done. -/
def posit_transfer_error : LedgerTransferReturnType → Option TradeError
  | .ok (.ok _) => none
  | .ok (.error transfer_error) => some (.CreatePositionLedgerTransferError transfer_error)
  | .error call_error => some (.CreatePositionLedgerTransferCallError call_error)

def new_id (counter : Nat) : Nat × Nat := (counter, counter + 1)

/-- What `__trade` does after its transfer: the log that it stores, and the book. -/
def __trade (cm_data : CMData) (env : MatchEnv) (caller : Principal) (q : TradeQuest) :
    CMData × PositionLog × Matched :=
  let (position_id, positions_id_counter) := new_id cm_data.positions_id_counter
  let matched := q.match_trades cm_data.toBook env position_id caller
  ({ cm_data with
      toBook := matched.book
      positions_id_counter := positions_id_counter },
    q.position_log position_id caller env.now, matched)

/-! ## `transfer_cycles_balance` and `transfer_token_balance` -/

def _transfer_balance (cm_data : CMData) (caller : Principal) (kind : PositionKind) :
    Except TransferBalanceError CMData :=
  let locks := cm_data.mid_call_balance_locks kind
  if caller ∈ locks then .error .CallerIsInTheMiddleOfADifferentCallThatLocksTheBalance
  else if MAX_MID_CALL_USER_BALANCE_LOCKS ≤ locks.card then .error .CyclesMarketIsBusy
  else .ok (cm_data.lock_balance kind caller)

theorem _transfer_balance_spec {cm_data cm_data' : CMData} {caller : Principal} {kind : PositionKind}
    (h : _transfer_balance cm_data caller kind = .ok cm_data') :
    cm_data' = cm_data.lock_balance kind caller ∧
      caller ∉ cm_data.mid_call_balance_locks kind ∧
      (cm_data.mid_call_balance_locks kind).card < MAX_MID_CALL_USER_BALANCE_LOCKS := by
  unfold _transfer_balance at h
  simp only at h
  split_ifs at h with hlocked hlocks
  obtain rfl := Except.ok.inj h
  exact ⟨rfl, hlocked, by omega⟩

def TransferBalanceQuest.posit_transfer (q : TransferBalanceQuest) (caller : Principal) :
    Icrc1TransferQuest :=
  { «to» := q.to
    fee := q.ledger_transfer_fee
    memo := none
    from_subaccount := some (principal_token_subaccount caller)
    created_at_time := none
    amount := q.amount }

def _transfer_balance_end (cm_data : CMData) (caller : Principal) (kind : PositionKind)
    (r : LedgerTransferReturnType) : CMData × Except TransferBalanceError Nat :=
  (cm_data.unlock_balance kind caller,
    match r with
    | .ok (.ok block_height) => .ok block_height
    | .ok (.error transfer_error) => .error (.TransferError transfer_error)
    | .error call_error => .error (.TransferCallError call_error))

/-! ## `void_position` -/

def minimum_wait_time_error (now timestamp_nanos : Nat) : Option VoidPositionError :=
  if saturating_sub (now / NANOS_IN_A_SECOND) (timestamp_nanos / NANOS_IN_A_SECOND) <
      VOID_POSITION_MINIMUM_WAIT_TIME_SECONDS then
    some (.MinimumWaitTime VOID_POSITION_MINIMUM_WAIT_TIME_SECONDS
      (timestamp_nanos / NANOS_IN_A_SECOND))
  else none

def void_position_ (b : Book) (caller : Principal) (position_id : PositionId) (now : Nat) :
    Except VoidPositionError Book :=
  match b.cycles_positions.get position_id with
  | some cycles_position =>
    if cycles_position.positor ≠ caller then .error .WrongCaller
    else match minimum_wait_time_error now cycles_position.timestamp_nanos with
      | some e => .error e
      | none => .ok (b.void_cycles_position cycles_position.id cycles_position
          .UserCallVoidPosition now)
  | none =>
    match b.token_positions.get position_id with
    | some token_position =>
      if token_position.positor ≠ caller then .error .WrongCaller
      else match minimum_wait_time_error now token_position.timestamp_nanos with
        | some e => .error e
        | none => .ok (b.void_token_position token_position.id token_position
            .UserCallVoidPosition now)
    | none => .error .PositionNotFound

theorem void_position_spec {b b' : Book} (hb : BookIds b) {caller : Principal}
    {position_id : PositionId} {now : Nat} (h : void_position_ b caller position_id now = .ok b') :
    (∃ p, b.cycles_positions.get position_id = some p ∧ p.positor = caller ∧
      b' = b.void_cycles_position position_id p .UserCallVoidPosition now) ∨
    (∃ p, b.token_positions.get position_id = some p ∧ p.positor = caller ∧
      b' = b.void_token_position position_id p .UserCallVoidPosition now) := by
  unfold void_position_ at h
  split at h
  · rename_i p hp
    split_ifs at h with howner
    split at h
    · cases h
    · obtain rfl := Except.ok.inj h
      exact Or.inl ⟨p, hp, not_not.mp howner, by rw [hb.cycles _ _ hp]⟩
  · split at h
    · rename_i p hp
      split_ifs at h with howner
      split at h
      · cases h
      · obtain rfl := Except.ok.inj h
        exact Or.inr ⟨p, hp, not_not.mp howner, by rw [hb.token _ _ hp]⟩
    · cases h

/-! ## `do_payouts` -/

def nothing_to_pay_out (b : Book) : Prop :=
  b.void_cycles_positions.len = 0 ∧ b.void_token_positions.len = 0 ∧ b.trade_logs.length = 0

/-- The loop that moves trade logs to their storage: the logs that go, and those that stay. -/
def move_trade_logs : List TradeLogAndTemporaryData →
    List TradeLogAndTemporaryData × List TradeLogAndTemporaryData
  | [] => ([], [])
  | tl :: rest =>
    if tl.can_move_into_the_stable_memory_for_the_long_term_storage then
      let (moved, trade_logs) := move_trade_logs rest
      (tl :: moved, trade_logs)
    else ([], tl :: rest)

theorem move_trade_logs_spec (trade_logs : List TradeLogAndTemporaryData) :
    (move_trade_logs trade_logs).1 ++ (move_trade_logs trade_logs).2 = trade_logs ∧
      ∀ tl ∈ (move_trade_logs trade_logs).1,
        tl.can_move_into_the_stable_memory_for_the_long_term_storage = true := by
  induction trade_logs with
  | nil => exact ⟨rfl, by simp [move_trade_logs]⟩
  | cons tl rest ih =>
    rw [move_trade_logs]
    split_ifs with h
    · exact ⟨congrArg (tl :: ·) ih.1, List.forall_mem_cons.mpr ⟨h, ih.2⟩⟩
    · exact ⟨rfl, by simp⟩

/-- The logs that go are stored one by one. -/
def store_trade_logs (s : LogStorage PositionId) (moved : List TradeLogAndTemporaryData) :
    LogStorage PositionId :=
  moved.foldl (fun s tl => s.append tl.log.stable_memory_serialize) s

theorem store_trade_logs_same (storage : LogStorage PositionId) (moved : List TradeLogAndTemporaryData) :
    (store_trade_logs storage moved).data.storage_canisters = storage.data.storage_canisters ∧
      (store_trade_logs storage moved).canister = storage.canister := by
  unfold store_trade_logs
  induction moved generalizing storage with
  | nil => exact ⟨rfl, rfl⟩
  | cons tl moved ih => exact ih (storage.append tl.log.stable_memory_serialize)

end Cts.Tc
