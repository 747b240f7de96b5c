import Cts.Bank.Owner
import Cts.Tc.System

/-!
# A trade contract and the bank

The cycles ledger of a trade contract is the bank. Here both run side by side: what the bank answers
to the contract is what its `icrc1_transfer` gives, and all that happens to the balances of the
contract's accounts happens in the bank. The token ledger, the storage canisters and every other
caller of the bank stay free.
-/

namespace Cts.Exchange

open Lib Tc

structure ExchangeState where
  tc : TcState
  bank : Bank.BankSystem

/-! ## The bank answers -/

/-- What a transfer of the caller comes back with, and the bank after it. A call that fails, or that
traps at the bank, changes nothing. -/
inductive BankAnswers (caller : Principal) (q : Icrc1TransferQuest) (b : Bank.BankSystem) :
    LedgerTransferReturnType → Bank.BankSystem → Prop
  | failed (e : CallError) : BankAnswers caller q b (.error e) b
  | refused {now : Nat} {e : Icrc1TransferError}
      (h : Bank.icrc1_transfer caller now q b.bank = .err e) : BankAnswers caller q b (.ok (.error e)) b
  | executed {now height : Nat} {bank : Bank.BankState}
      (h : Bank.icrc1_transfer caller now q b.bank = .ok (height, bank)) :
      BankAnswers caller q b (.ok (.ok height))
        { b with bank := bank, history := b.history ++ [.transferred] }

/-! ## The contract -/

/-- Payouts of a run that wait for the bank. -/
def cyclesPayoutsSent (run : PayoutsRun) : Nat :=
  ((run.payouts (.void .Cycles) ++ run.payouts (.trade .Cycles)).filter fun p =>
    match p.state with
    | .sent => true
    | _ => false).length

/-- The calls of the contract to the bank that wait for an answer. -/
def cyclesCallsSent (s : TcState) : Nat :=
  (s.calls.filter fun c => c.quest.kind = .Cycles ∧ c.reply.isNone).length +
    (s.runs.map cyclesPayoutsSent).sum

/-- The contract after the answer to a user's call, with the ledger as the answer left it. -/
def callAnswered (s : TcState) (cfg : TcConfig) (pre post : List UserCall) (c : UserCall)
    (r : LedgerTransferReturnType) (l : Ledger) : TcState :=
  let s := s.set_ledger c.quest.kind l
  let s :=
    match c.quest with
    | .trade _ => s
    | .transfer_balance kind q =>
      if didExecute r then s.receive cfg kind q.to.account q.amount else s
  { s with calls := pre ++ { c with reply := some r } :: post }

/-- The contract after the answer to a payout. -/
def payoutAnswered (s : TcState) (cfg : TcConfig) (before after : List PayoutsRun) (run : PayoutsRun)
    (q : Queue) (pre post : List Payout) (p : Payout) (r : LedgerTransferReturnType) (l : Ledger) :
    TcState :=
  let s := s.set_ledger q.kind l
  let s :=
    if didExecute r then
      let s := s.receive cfg q.kind p.transfer.to.account p.transfer.amount
      { s with history := s.history.execute q (p.id, p.transfer) }
    else s
  { s with
    runs := before ++ run.set_payouts q (pre ++ { p with state := .answered r } :: post) :: after }

/-- What others put into the positions account counts as received. -/
def bankMoved (s : TcState) (cfg : TcConfig) (l : Ledger) : TcState :=
  let received := l cfg.positionsAccount - s.ledger .Cycles cfg.positionsAccount
  { s.set_ledger .Cycles l with
    history := { s.history with
      received := Function.update s.history.received .Cycles (s.history.received .Cycles + received) } }

/-! ## Steps -/

/-- A message at the bank that the contract did not send. -/
def ByOthers (cfg : TcConfig) (b b' : Bank.BankSystem) : Prop :=
  (∀ q, ¬ Bank.Transfers b b' cfg.canister_id q) ∧ ∀ q, ¬ Bank.StartsCyclesOut b b' cfg.canister_id q

inductive ExchangeStep (cfg : TcConfig) (bank_id : Principal) : ExchangeState → ExchangeState → Prop
  | contract {s : ExchangeState} {tc : TcState} (h : TcStep cfg s.tc tc)
      (hl : tc.ledger .Cycles = s.tc.ledger .Cycles)
      (hs : cyclesCallsSent s.tc ≤ cyclesCallsSent tc) :
      ExchangeStep cfg bank_id s { s with tc := tc }
  | callAnswered {s : ExchangeState} {pre post : List UserCall} {c : UserCall}
      {r : LedgerTransferReturnType} {b : Bank.BankSystem} (hc : s.tc.calls = pre ++ c :: post)
      (hr : c.reply = none) (hk : c.quest.kind = .Cycles)
      (h : BankAnswers cfg.canister_id (c.transfer cfg.canister_id) s.bank r b) :
      ExchangeStep cfg bank_id s
        ⟨callAnswered s.tc cfg pre post c r (Bank.balanceAt b.bank), b⟩
  | payoutAnswered {s : ExchangeState} {before after : List PayoutsRun} {run : PayoutsRun}
      {q : Queue} {pre post : List Payout} {p : Payout} {r : LedgerTransferReturnType}
      {b : Bank.BankSystem} (hr : s.tc.runs = before ++ run :: after)
      (hp : run.payouts q = pre ++ p :: post) (hs : p.state = .sent) (hk : q.kind = .Cycles)
      (h : BankAnswers cfg.canister_id p.transfer s.bank r b) :
      ExchangeStep cfg bank_id s
        ⟨payoutAnswered s.tc cfg before after run q pre post p r (Bank.balanceAt b.bank), b⟩
  | others {s : ExchangeState} {b : Bank.BankSystem} (h : Bank.BankStep bank_id s.bank b)
      (ho : ByOthers cfg s.bank b) :
      ExchangeStep cfg bank_id s ⟨bankMoved s.tc cfg (Bank.balanceAt b.bank), b⟩

/-- `cm_main` creates a contract with the fee of the bank. -/
def initialFees (token_fee : Nat) : PositionKind → Nat
  | .Cycles => Bank.BANK_TRANSFER_FEE
  | .Token => token_fee

def initialLedgers (b : Bank.BankSystem) (token_ledger : Ledger) : PositionKind → Ledger
  | .Cycles => Bank.balanceAt b.bank
  | .Token => token_ledger

/-- A new contract at a bank that may be old. -/
def ExchangeInit (cfg : TcConfig) (bank_id : Principal) (held : Nat) (s : ExchangeState) : Prop :=
  Bank.BankReachable bank_id held s.bank ∧
    ∃ token_fee positions_module_hash trades_module_hash token_ledger,
      s.tc = .new cfg (initialFees token_fee) positions_module_hash trades_module_hash
        (initialLedgers s.bank token_ledger)

abbrev ExchangeReachable (cfg : TcConfig) (bank_id : Principal) (held : Nat) : ExchangeState → Prop :=
  Reachable (ExchangeInit cfg bank_id held) (ExchangeStep cfg bank_id)

end Cts.Exchange
