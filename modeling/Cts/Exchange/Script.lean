import Cts.Bank.Books
import Cts.Exchange.System
import Cts.Tc.Script

/-!
# Scripted runs of a contract and its bank

The scripts of the contract, with the bank in the place of its cycles ledger.
-/

namespace Cts.Exchange

open Lib Tc

variable {cfg : TcConfig} {bank_id : Principal} {held : Nat} {s s' : ExchangeState} {e : Event}

/-- The bank executes the first user's call. -/
def playDeposit (cfg : TcConfig) (s : ExchangeState) : Option ExchangeState :=
  match s.tc.calls with
  | [] => none
  | c :: post =>
    if c.reply = none ∧ c.quest.kind = .Cycles then
      match Bank.icrc1_transfer cfg.canister_id 0 (c.transfer cfg.canister_id) s.bank.bank with
      | .ok (height, bank) =>
        some
          ⟨callAnswered s.tc cfg [] post c (.ok (.ok height)) (Bank.balanceAt bank),
            { s.bank with bank := bank, history := s.bank.history ++ [.transferred] }⟩
      | _ => none
    else none

/-- The bank executes the first payout of a queue that waits. -/
def playExecute (cfg : TcConfig) (s : ExchangeState) (q : Queue) : Option ExchangeState :=
  match s.tc.runs with
  | [] => none
  | run :: after =>
    match takeFirst Payout.isSent (run.payouts q) with
    | none => none
    | some (pre, p, post) =>
      if q.kind = .Cycles then
        match Bank.icrc1_transfer cfg.canister_id 0 p.transfer s.bank.bank with
        | .ok (height, bank) =>
          some
            ⟨payoutAnswered s.tc cfg [] after run q pre post p (.ok (.ok height))
                (Bank.balanceAt bank),
              { s.bank with bank := bank, history := s.bank.history ++ [.transferred] }⟩
        | _ => none
      else none

def play (cfg : TcConfig) (s : ExchangeState) (e : Event) : Option ExchangeState :=
  match e with
  | .deposit => playDeposit cfg s
  | .execute q => playExecute cfg s q
  | e =>
    match s.tc.play cfg e with
    | some tc =>
      if cyclesCallsSent s.tc ≤ cyclesCallsSent tc then some { s with tc := tc } else none
    | none => none

theorem playDeposit_step (h : playDeposit cfg s = some s') : ExchangeStep cfg bank_id s s' := by
  unfold playDeposit at h
  split at h
  · cases h
  · rename_i c post hcalls
    split_ifs at h with hc
    split at h
    · rename_i height bank hok
      obtain rfl := Option.some.inj h
      have hcalls : s.tc.calls = [] ++ c :: post := hcalls
      exact .callAnswered hcalls hc.1 hc.2 (.executed hok)
    · cases h

theorem sent_of_is_sent {p : Payout} (h : p.isSent = true) : p.state = .sent := by
  unfold Payout.isSent at h
  split at h
  · assumption
  · cases h

theorem playExecute_step {q : Queue} (h : playExecute cfg s q = some s') :
    ExchangeStep cfg bank_id s s' := by
  unfold playExecute at h
  split at h
  · cases h
  · rename_i run after hruns
    split at h
    · cases h
    · rename_i pre p post hfirst
      split_ifs at h with hk
      split at h
      · rename_i height bank hok
        obtain rfl := Option.some.inj h
        obtain ⟨hp, hsent⟩ := takeFirst_spec hfirst
        have hruns : s.tc.runs = [] ++ run :: after := hruns
        exact .payoutAnswered hruns hp (sent_of_is_sent hsent) hk (.executed hok)
      · cases h

theorem play_ledger {tc tc' : TcState} (hd : e ≠ .deposit) (he : ∀ q, e ≠ .execute q)
    (h : tc.play cfg e = some tc') : tc'.ledger = tc.ledger := by
  cases e with
  | deposit => exact absurd rfl hd
  | execute q => exact absurd rfl (he q)
  | trade caller q =>
    simp only [TcState.play] at h
    split at h
    · obtain rfl := Option.some.inj h
      rfl
    · cases h
  | commit now =>
    simp only [TcState.play, TcState.playCall] at h
    split at h
    · obtain rfl := Option.some.inj h
      rfl
    · cases h
  | void caller position_id now =>
    simp only [TcState.play] at h
    split at h
    · obtain rfl := Option.some.inj h
      rfl
    · cases h
  | start =>
    simp only [TcState.play] at h
    split at h
    · obtain rfl := Option.some.inj h
      rfl
    · cases h
  | reply q =>
    simp only [TcState.play, TcState.playRun] at h
    split at h
    · split at h
      · cases h
      · obtain ⟨r, -, rfl⟩ := Option.map_eq_some_iff.mp h
        rfl
    · cases h
  | finish =>
    simp only [TcState.play, TcState.playRun] at h
    split at h
    · split_ifs at h
      obtain rfl := Option.some.inj h
      rfl
    · cases h
  | do_payouts =>
    simp only [TcState.play] at h
    split_ifs at h
    obtain rfl := Option.some.inj h
    rfl
  | move env =>
    simp only [TcState.play] at h
    split_ifs at h
    obtain rfl := Option.some.inj h
    rfl
  | flush_positions e =>
    obtain ⟨storage, -, rfl⟩ := Option.map_eq_some_iff.mp h
    rfl
  | flush_trades e =>
    obtain ⟨storage, -, rfl⟩ := Option.map_eq_some_iff.mp h
    rfl

theorem play_step (h : play cfg s e = some s') : ExchangeStep cfg bank_id s s' := by
  unfold play at h
  split at h
  · exact playDeposit_step h
  · exact playExecute_step h
  · rename_i hd he
    split at h
    · rename_i tc hplay
      split_ifs at h with hsent
      obtain rfl := Option.some.inj h
      exact .contract (Tc.play_step hplay) (congrFun (play_ledger hd he hplay) _) hsent
    · cases h

theorem fits_of_lt {history : List Bank.BankEvent}
    (h : Bank.acceptedOrMinted history < 2 ^ 128 - 1) : Bank.CyclesFit history := by
  refine ⟨by omega, fun cycles hmem => ?_⟩
  obtain ⟨pre, post, rfl⟩ := List.append_of_mem hmem
  simp only [Bank.acceptedOrMinted_append, Bank.acceptedOrMinted_cons, Bank.BankEvent.cyclesIn,
    saturating_add, Word.saturatingAdd] at h
  omega

/-! ## A short run

A has cycles at the bank and posits them, gives the position up, and waits for the payout. -/

namespace Sample

open Tc.Sample

def bankId : Principal := .of_byte 9

def bring : Bank.CyclesInQuest :=
  { cycles := 2 * 10 ^ 21
    fee := none
    «to» := ⟨config.canister_id, some (principal_token_subaccount A)⟩
    memo := none
    created_at_time := none }

def paidIn : Bank.BankSystem :=
  { bank := ((Bank.cycles_in A 0 (10 ^ 22) bring .new).getD (0, .new)).2
    held := 0 + Bank.cycles_in_accept bring
    cycles_outs := [], mints := [], history := [] ++ [.cycled_in bring.cycles] }

def start : ExchangeState :=
  ⟨.new config (initialFees (2 ^ 64)) [] [] (initialLedgers paidIn fun _ => 10 ^ 30), paidIn⟩

theorem buy_cycles_lt : 16 * 10 ^ 20 < 2 ^ 128 := by decide

theorem buy_rate_lt : 3 < 2 ^ 128 := by decide

def buy : TradeQuest :=
  .cycles
    { cycles := 16 * 10 ^ 20
      cycles_per_token_rate := 3
      posit_transfer_ledger_fee := some Bank.BANK_TRANSFER_FEE
      return_cycles_to_subaccount := none
      payout_tokens_to_subaccount := none
      cycles_lt := buy_cycles_lt
      rate_lt := buy_rate_lt }

def events : List Event := [.trade A buy, .deposit, .commit 0, .void A 0 1, .start]

/-- The payout waits for the bank. -/
def waiting : ExchangeState := (events.foldlM (play config) start).getD start

/-- The bank has executed it. -/
def paid : ExchangeState := (play config waiting (.execute (.void .Cycles))).getD waiting

theorem start_init : ExchangeInit config bankId 0 start := by
  have hok := Bank.Outcome.eq_ok (o := Bank.cycles_in A 0 (10 ^ 22) bring .new) (0, .new)
    (by decide +kernel)
  have hbank : Bank.BankReachable bankId 0 paidIn :=
    .next (.start rfl) (.cycles_in (by decide +kernel) (by decide +kernel) hok)
  exact ⟨hbank, _, _, _, _, rfl⟩

theorem waiting_runs : Runs (ExchangeStep config bankId) start waiting := by
  have hend : events.foldlM (play config) start = some waiting := end_of_script (by decide +kernel)
  exact kept_by_script (fun _ _ _ r h => r.next (play_step h)) (.start rfl) hend

theorem paid_runs : Runs (ExchangeStep config bankId) start paid := by
  have hsome : (play config waiting (.execute (.void .Cycles))).isSome = true := by decide +kernel
  obtain ⟨s, hs⟩ := Option.isSome_iff_exists.mp hsome
  have hpaid : paid = s := by
    unfold paid
    rw [hs]
    rfl
  rw [hpaid]
  exact waiting_runs.next (play_step hs)

theorem waiting_reachable : ExchangeReachable config bankId 0 waiting :=
  Reachable.trans (.start start_init) waiting_runs

theorem waiting_fits : Bank.CyclesFit waiting.bank.history :=
  fits_of_lt (by decide +kernel)

theorem paid_fits : Bank.CyclesFit paid.bank.history :=
  fits_of_lt (by decide +kernel)

end Sample

end Cts.Exchange
