import Cts.Tc.Types
import Cts.Lib.Jobs

/-!
# One payout

`ledger_transfer.rs`, `transfer_memo.rs` and `payouts/do_payout.rs`. The contract pays out of four
queues: the void positions of each kind, and each side of the trade logs. A queue is a pool of jobs,
a job is a payout quest, and its effect is the transfer that the ledger executes.
-/

namespace Cts.Tc

open Lib

/-! ## Ledger transfers -/

abbrev LedgerTransferReturnType := Except CallError (Except Icrc1TransferError Nat)

/-- The fee that the contract asks for after a `BadFee` answer. One that is no `u128` becomes 0. -/
def bad_fee (r : LedgerTransferReturnType) : Option Nat :=
  match r with
  | .ok (.error (.BadFee expected_fee)) => some (if expected_fee < 2 ^ 128 then expected_fee else 0)
  | _ => none

def didExecute (r : LedgerTransferReturnType) : Bool :=
  match r with
  | .ok (.ok _) => true
  | _ => false

/-! ## Memos -/

/-- `leb128::write::unsigned`, of a number that takes at most `len` bytes. -/
def leb128_unsigned : Nat → Nat → List Byte
  | 0, _ => []
  | len + 1, n =>
    if n < 128 then [UInt8.ofNat n] else UInt8.ofNat (n % 128 + 128) :: leb128_unsigned len (n / 128)

/-- `CTSTRADE`. -/
def TRADE_MEMO_START : List Byte := [67, 84, 83, 84, 82, 65, 68, 69]

/-- `CTS-VTP-`. -/
def VOID_TOKEN_POSITION_MEMO_START : List Byte := [67, 84, 83, 45, 86, 84, 80, 45]

def create_token_transfer_memo_ (memo_start : List Byte) (id : Nat) : List Byte :=
  memo_start ++ leb128_unsigned 10 (Word.wrap 64 id)

def create_trade_transfer_memo (purchase_id : PurchaseId) : List Byte :=
  create_token_transfer_memo_ TRADE_MEMO_START purchase_id

def create_void_token_position_transfer_memo (position_id : PositionId) : List Byte :=
  create_token_transfer_memo_ VOID_TOKEN_POSITION_MEMO_START position_id

/-! ## `_do_payout` -/

structure DoPayoutQuest where
  trade_mount : Nat
  cts_payout_fee : Nat
  payee : IcrcId
  memo : List Byte
  deriving DecidableEq

def payout_transfer (q : DoPayoutQuest) (ledger_transfer_fee : Nat) : Icrc1TransferQuest :=
  { «to» := q.payee
    fee := some ledger_transfer_fee
    memo := some q.memo
    from_subaccount := some POSITIONS_SUBACCOUNT
    created_at_time := none
    amount := saturating_sub (saturating_sub q.trade_mount q.cts_payout_fee) ledger_transfer_fee }

inductive PayoutState
  | sent
  | answered (r : LedgerTransferReturnType)
  | done (r : Option PayoutData)

structure Payout where
  id : Nat
  quest : DoPayoutQuest
  ledger_transfer_fee : Nat
  state : PayoutState

/-- Up to the call of the ledger. Dust is not worth the fee and stays. -/
def _do_payout (id : Nat) (ledger_transfer_fee : Nat) (q : DoPayoutQuest) : Payout :=
  { id := id
    quest := q
    ledger_transfer_fee := ledger_transfer_fee
    state :=
      if saturating_sub q.trade_mount q.cts_payout_fee ≤ ledger_transfer_fee then
        .done (some { did_transfer := false, ledger_transfer_fee := ledger_transfer_fee })
      else .sent }

/-- After the call of the ledger. -/
def _do_payout_result (ledger_transfer_fee : Nat) (r : LedgerTransferReturnType) :
    Option PayoutData :=
  match r with
  | .ok (.ok _) => some { did_transfer := true, ledger_transfer_fee := ledger_transfer_fee }
  | .ok (.error _) => none
  | .error _ => none

def Payout.transfer (p : Payout) : Icrc1TransferQuest :=
  payout_transfer p.quest p.ledger_transfer_fee

/-! ## Queues -/

inductive Queue
  | void (kind : PositionKind)
  | trade (kind : PositionKind)
  deriving DecidableEq

/-- What the queue pays out. -/
def Queue.kind : Queue → PositionKind
  | .void kind => kind
  | .trade kind => kind

def VoidPosition.payout_quest (vp : VoidPosition) : DoPayoutQuest :=
  { trade_mount := vp.quantity
    cts_payout_fee := 0
    payee := { owner := vp.positor, subaccount := vp.return_to_subaccount }
    memo := create_void_token_position_transfer_memo vp.position_id }

def TradeLogAndTemporaryData.payout_quest (tl : TradeLogAndTemporaryData) :
    PositionKind → DoPayoutQuest
  | .Cycles =>
    { trade_mount := tl.log.cycles
      cts_payout_fee := tl.log.cycles_payout_fee
      payee := tl.cycles_payee
      memo := create_trade_transfer_memo tl.log.id }
  | .Token =>
    { trade_mount := tl.log.tokens
      cts_payout_fee := tl.log.tokens_payout_fee
      payee := tl.token_payee
      memo := create_trade_transfer_memo tl.log.id }

def TradeLogAndTemporaryData.payout_lock (tl : TradeLogAndTemporaryData) : PositionKind → Bool
  | .Cycles => tl.temporary_data.cycles_payout_lock
  | .Token => tl.temporary_data.token_payout_lock

def TradeLogAndTemporaryData.payout_data (tl : TradeLogAndTemporaryData) :
    PositionKind → Option PayoutData
  | .Cycles => tl.log.cycles_payout_data
  | .Token => tl.log.token_payout_data

/-! ## Payouts as jobs -/

abbrev PayoutSlot := Jobs.Slot Nat DoPayoutQuest PayoutData
abbrev PayoutFlight := Jobs.Flight Nat DoPayoutQuest Icrc1TransferQuest
abbrev PayoutPool := Jobs.Pool Nat DoPayoutQuest Icrc1TransferQuest PayoutData

/-- The transfer that payout data stands for. -/
def payoutEffect : Jobs.Effect DoPayoutQuest Icrc1TransferQuest PayoutData := fun q data =>
  if data.did_transfer then some (payout_transfer q data.ledger_transfer_fee) else none

def VoidPosition.slot (vp : VoidPosition) : PayoutSlot :=
  ⟨vp.position_id, vp.payout_quest, vp.payout_lock, vp.payout_data⟩

def TradeLogAndTemporaryData.slot (kind : PositionKind) (tl : TradeLogAndTemporaryData) :
    PayoutSlot :=
  ⟨tl.log.id, tl.payout_quest kind, tl.payout_lock kind, tl.payout_data kind⟩

def Payout.effect (p : Payout) : Option Icrc1TransferQuest :=
  match p.state with
  | .sent => none
  | .answered r => if didExecute r then some p.transfer else none
  | .done r => r.bind (payoutEffect p.quest)

def Payout.flight (p : Payout) : PayoutFlight := ⟨p.id, p.quest, p.effect⟩

/-- A payout starts without an effect, dust included. -/
@[simp]
theorem _do_payout_flight (id fee : Nat) (q : DoPayoutQuest) :
    (_do_payout id fee q).flight = ⟨id, q, none⟩ := by
  unfold _do_payout Payout.flight Payout.effect
  split_ifs <;> rfl

theorem Payout.effect_answered (p : Payout) {r : LedgerTransferReturnType}
    (h : p.state = .answered r) :
    ({ p with state := .done (_do_payout_result p.ledger_transfer_fee r) } : Payout).flight =
      p.flight := by
  unfold Payout.flight Payout.effect
  rw [h]
  match r with
  | .ok (.ok _) | .ok (.error _) | .error _ => rfl

/-! ## What a payout costs the contract -/

/-- What the contract keeps of a payout that is on record. -/
def DoPayoutQuest.kept (q : DoPayoutQuest) (data : PayoutData) : Nat :=
  if data.did_transfer then q.cts_payout_fee else q.trade_mount

/-- A payout that went to the ledger was worth more than its fees. -/
def Worth (q : DoPayoutQuest) (ledger_transfer_fee : Nat) : Prop :=
  q.cts_payout_fee + ledger_transfer_fee < q.trade_mount

theorem debit_add_kept {q : DoPayoutQuest} {fee : Nat} (h : Worth q fee) :
    (payout_transfer q fee).debit + q.cts_payout_fee = q.trade_mount := by
  unfold Worth at h
  simp only [payout_transfer, Icrc1TransferQuest.debit, saturating_sub, Word.saturatingSub,
    Option.getD_some]
  omega

theorem _do_payout_sent {id fee : Nat} {q : DoPayoutQuest}
    (h : (_do_payout id fee q).state = .sent) : Worth q fee := by
  by_contra hn
  have hdust : saturating_sub q.trade_mount q.cts_payout_fee ≤ fee := by
    unfold Worth at hn
    simp only [saturating_sub, Word.saturatingSub]
    omega
  have hstate : (_do_payout id fee q).state =
      .done (some { did_transfer := false, ledger_transfer_fee := fee }) := if_pos hdust
  rw [hstate] at h
  cases h

end Cts.Tc
