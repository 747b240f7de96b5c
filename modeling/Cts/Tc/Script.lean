import Cts.Tc.Flushed
import Cts.Tc.System

/-!
# Scripted runs

A script names the steps of a run, each for the first call or the first run of payouts that can take
it. Every honest answer is a success. What a script plays is a run of the contract, so a state that is
computed by one is reachable.
-/

namespace Cts.Tc

open Lib

inductive Event
  | trade (caller : Principal) (q : TradeQuest)
  | deposit
  | commit (now : Nat)
  | void (caller : Principal) (position_id : PositionId) (now : Nat)
  | start
  | execute (q : Queue)
  | reply (q : Queue)
  | finish
  | do_payouts
  | move (env : FlushEnv)
  | flush_positions (e : FlushEvent)
  | flush_trades (e : FlushEvent)

/-! ## Parts -/

/-- The ledger does what it is asked, at the fee that is named. -/
def Ledger.pay (l : Ledger) (owner : Principal) (q : Icrc1TransferQuest) : Option Ledger :=
  let source : Account := ⟨owner, q.from_subaccount.getD ICRC_DEFAULT_SUBACCOUNT⟩
  if q.amount + q.fee.getD 0 ≤ l source then
    some (l.transfer source q.to.account q.amount (q.fee.getD 0))
  else none

theorem Ledger.pay_executes {l l' : Ledger} {owner : Principal} {q : Icrc1TransferQuest}
    (h : l.pay owner q = some l') : l.Executes owner q (q.fee.getD 0) l' := by
  unfold Ledger.pay at h
  simp only at h
  split_ifs at h with hfunds
  obtain rfl := Option.some.inj h
  refine ⟨fun f hf => ?_, hfunds, rfl⟩
  rw [hf]
  rfl

/-- The first element with a property, between what comes before it and what comes after it. -/
def takeFirst {α : Type} (P : α → Bool) (l : List α) : Option (List α × α × List α) :=
  match l.dropWhile fun x => !P x with
  | [] => none
  | x :: after => some (l.takeWhile fun x => !P x, x, after)

theorem takeFirst_spec {α : Type} {P : α → Bool} {l before after : List α} {x : α}
    (h : takeFirst P l = some (before, x, after)) : l = before ++ x :: after ∧ P x = true := by
  unfold takeFirst at h
  split at h
  · cases h
  · rename_i y rest hdrop
    obtain ⟨rfl, heq⟩ := Prod.mk.inj (Option.some.inj h)
    obtain ⟨rfl, rfl⟩ := Prod.mk.inj heq
    refine ⟨?_, ?_⟩
    · rw [← hdrop]
      exact (List.takeWhile_append_dropWhile).symm
    · have hhead := List.head?_dropWhile_not (fun x => !P x) l
      rw [hdrop] at hhead
      simpa using hhead

def Payout.isSent (p : Payout) : Bool :=
  match p.state with
  | .sent => true
  | _ => false

def Payout.answer (p : Payout) : Option LedgerTransferReturnType :=
  match p.state with
  | .answered r => some r
  | _ => none

def PayoutsRun.isFinished (run : PayoutsRun) : Bool :=
  [Queue.void .Cycles, .void .Token, .trade .Cycles, .trade .Token].all
      (fun q => (run.payouts q).all Payout.isDone) &&
    [PositionKind.Cycles, .Token].all fun kind => (run.updates kind).all Update.isDone

theorem PayoutsRun.finished_of_is_finished {run : PayoutsRun} (h : run.isFinished = true) :
    run.finished := by
  simp only [PayoutsRun.isFinished, Bool.and_eq_true, List.all_cons, List.all_nil, and_true,
    List.all_eq_true] at h
  obtain ⟨⟨hvc, hvt, htc, htt⟩, huc, hut⟩ := h
  refine ⟨fun q => ?_, fun kind => ?_⟩
  · rcases q with (_ | _) | (_ | _)
    · exact hvc
    · exact hvt
    · exact htc
    · exact htt
  · cases kind
    · exact huc
    · exact hut

/-! ## Playing a script -/

/-- The first user's call goes on. -/
def TcState.playCall (cfg : TcConfig) (s : TcState) : Event → Option TcState
  | .deposit =>
    match s.calls with
    | ⟨caller, .trade q, none⟩ :: post =>
      ((s.ledger q.kind).pay cfg.canister_id (q.posit_transfer cfg.canister_id caller)).map fun l =>
        { s.set_ledger q.kind l with
          calls := ⟨caller, .trade q, some (.ok (.ok 0))⟩ :: post }
    | _ => none
  | .commit now =>
    match s.calls with
    | ⟨caller, .trade q, some (.ok (.ok _))⟩ :: post =>
      some { s.commit (s.match_env cfg now fun _ => 0) caller q with calls := post }
    | _ => none
  | _ => none

/-- The first run of payouts goes on. -/
def TcState.playRun (cfg : TcConfig) (s : TcState) (run : PayoutsRun) (after : List PayoutsRun) :
    Event → Option TcState
  | .execute q =>
    match takeFirst Payout.isSent (run.payouts q) with
    | none => none
    | some (pre, p, post) =>
      ((s.ledger q.kind).pay cfg.canister_id p.transfer).map fun l =>
        { (s.set_ledger q.kind l).receive cfg q.kind p.transfer.to.account p.transfer.amount with
          runs := run.set_payouts q (pre ++ { p with state := .answered (.ok (.ok 0)) } :: post) ::
            after
          history := ((s.set_ledger q.kind l).receive cfg q.kind p.transfer.to.account
            p.transfer.amount).history.execute q (p.id, p.transfer) }
  | .reply q =>
    match takeFirst (fun p => p.answer.isSome) (run.payouts q) with
    | none => none
    | some (pre, p, post) =>
      p.answer.map fun r =>
        { s.ledger_transfer_replied q.kind r with
          runs := run.set_payouts q
            (pre ++ { p with state := .done (_do_payout_result p.ledger_transfer_fee r) } :: post) ::
              after }
  | .finish =>
    if run.isFinished then
      some { s with
        cm_data := (_do_payouts_end run s.cm_data).1
        positions_storage := { s.positions_storage with
          data := unlock_positions_storage run s.positions_storage.data }
        runs := after
        history := s.history.remove (_do_payouts_end run s.cm_data).2 }
    else none
  | _ => none

def TcState.play (cfg : TcConfig) (s : TcState) (e : Event) : Option TcState :=
  match e with
  | .trade caller q =>
    match _trade cfg s.fees s.positions_storage.data s.trades_storage.data s.cm_data caller q with
    | .ok cm_data => some { s with cm_data := cm_data, calls := ⟨caller, .trade q, none⟩ :: s.calls }
    | .error _ => none
  | .deposit | .commit _ => s.playCall cfg e
  | .void caller position_id now =>
    match void_position_ s.cm_data.toBook caller position_id now with
    | .ok b => some { s with cm_data := { s.cm_data with toBook := b } }
    | .error _ => none
  | .start =>
    match _do_payouts s.fees s.cm_data s.positions_storage.data with
    | some (cm_data, data, run) =>
      some { s with
        cm_data := cm_data
        positions_storage := { s.positions_storage with data := data }
        runs := s.runs ++ [run]
        history := s.history.update run.written }
    | none => none
  | .execute _ | .reply _ | .finish =>
    match s.runs with
    | run :: after => s.playRun cfg run after e
    | [] => none
  | .do_payouts =>
    if 0 < s.cm_data.void_cycles_positions.len ∨ 0 < s.cm_data.void_token_positions.len ∨
        0 < s.cm_data.trade_logs.length then
      some { s with do_payouts_calls := s.do_payouts_calls + 1 }
    else none
  | .move env =>
    if 0 < s.do_payouts_calls then
      some { s.move_and_flush cfg env env with do_payouts_calls := s.do_payouts_calls - 1 }
    else none
  | .flush_positions e =>
    (s.positions_storage.play PositionLog.storage cfg.flush e).map
      ({ s with positions_storage := · })
  | .flush_trades e =>
    (s.trades_storage.play TradeLog.storage cfg.flush e).map ({ s with trades_storage := · })

variable {cfg : TcConfig} {s s' : TcState} {e : Event}

theorem playCall_step (h : s.playCall cfg e = some s') : TcStep cfg s s' := by
  unfold TcState.playCall at h
  split at h
  · split at h
    · rename_i caller q post hc
      obtain ⟨l, hl, rfl⟩ := Option.map_eq_some_iff.mp h
      have hc : s.calls = [] ++ ⟨caller, .trade q, none⟩ :: post := hc
      exact .deposit_executed 0 hc rfl rfl (Ledger.pay_executes hl)
    · cases h
  · split at h
    · rename_i caller q block post hc
      obtain rfl := Option.some.inj h
      have hc : s.calls = [] ++ ⟨caller, .trade q, some (.ok (.ok block))⟩ :: post := hc
      exact .trade_committed _ _ hc rfl rfl rfl
    · cases h
  · cases h

theorem playRun_step {run : PayoutsRun} {after : List PayoutsRun} (hr : s.runs = [] ++ run :: after)
    (h : s.playRun cfg run after e = some s') : TcStep cfg s s' := by
  unfold TcState.playRun at h
  split at h
  · split at h
    · cases h
    · rename_i hfirst
      obtain ⟨l, hl, rfl⟩ := Option.map_eq_some_iff.mp h
      obtain ⟨hp, hsent⟩ := takeFirst_spec hfirst
      refine .payout_executed 0 hr hp ?_ (Ledger.pay_executes hl)
      unfold Payout.isSent at hsent
      split at hsent
      · assumption
      · cases hsent
  · split at h
    · cases h
    · rename_i hfirst
      obtain ⟨r, hanswer, rfl⟩ := Option.map_eq_some_iff.mp h
      obtain ⟨hp, -⟩ := takeFirst_spec hfirst
      refine .payout_replied hr hp ?_
      unfold Payout.answer at hanswer
      split at hanswer
      · rename_i hs
        rw [hs, Option.some.inj hanswer]
      · cases hanswer
  · split_ifs at h with hf
    obtain rfl := Option.some.inj h
    exact .payouts_ended hr (PayoutsRun.finished_of_is_finished hf)
  · cases h

theorem play_step (h : s.play cfg e = some s') : TcStep cfg s s' := by
  unfold TcState.play at h
  split at h
  · split at h
    · rename_i ht
      obtain rfl := Option.some.inj h
      exact .trade ht
    · cases h
  · exact playCall_step h
  · exact playCall_step h
  · split at h
    · rename_i hv
      obtain rfl := Option.some.inj h
      exact .void_position hv
    · cases h
  · split at h
    · rename_i hp
      obtain rfl := Option.some.inj h
      exact .payouts_started hp
    · cases h
  iterate 3
    · split at h
      · exact playRun_step ‹_› h
      · cases h
  · split_ifs at h with hsome
    obtain rfl := Option.some.inj h
    refine .do_payouts fun hnone => ?_
    unfold nothing_to_pay_out at hnone
    omega
  · split_ifs at h with hcalls
    obtain rfl := Option.some.inj h
    exact .do_payouts_replied _ _ hcalls
  · obtain ⟨storage, hplay, rfl⟩ := Option.map_eq_some_iff.mp h
    exact .positions_flush (flush_play_step hplay)
  · obtain ⟨storage, hplay, rfl⟩ := Option.map_eq_some_iff.mp h
    exact .trades_flush (flush_play_step hplay)

theorem script_runs {events : List Event} (h : events.foldlM (TcState.play cfg) s = some s') :
    Runs (TcStep cfg) s s' :=
  kept_by_script (fun _ _ _ r ht => r.next (play_step ht)) (.start rfl) h

theorem script_reachable {events : List Event} (r : TcReachable cfg s)
    (h : events.foldlM (TcState.play cfg) s = some s') : TcReachable cfg s' :=
  r.trans (script_runs h)

theorem script_step {events : List Event}
    (h : ((events ++ [e]).foldlM (TcState.play cfg) s).isSome = true) :
    TcStep cfg ((events.foldlM (TcState.play cfg) s).getD s)
      (((events ++ [e]).foldlM (TcState.play cfg) s).getD s) := by
  obtain ⟨s', hs'⟩ := Option.isSome_iff_exists.mp h
  rw [hs', Option.getD_some]
  rw [List.foldlM_append] at hs'
  obtain ⟨t, ht, hlast⟩ := Option.bind_eq_some_iff.mp hs'
  rw [ht, Option.getD_some]
  rw [List.foldlM_cons] at hlast
  obtain ⟨u, hu, hnil⟩ := Option.bind_eq_some_iff.mp hlast
  obtain rfl := Option.some.inj hnil
  exact play_step hu

/-! ## A short run

The token ledger asks for a fee of `2 ^ 64`. A buys tokens at 3, B sells some at 1, and they meet at 2.
B's position is filled, so it is paid out and removed, and the trade is paid out and stored. At the end
a second run of payouts is under way, for A's position that A gave up. -/

namespace Sample

def A : Principal := .of_byte 1
def B : Principal := .of_byte 2

def config : TcConfig where
  canister_id := .of_byte 7
  MAX_POSITIONS _ := 1000
  MAX_VOID_POSITIONS _ := 1000
  MAX_TRADE_LOGS := 1000
  flush := .release
  positions_fit := ⟨by decide, by decide⟩
  trades_fit := ⟨by decide, by decide⟩
  buffer_fits := by decide

def start : TcState :=
  .new config (fun | .Cycles => 10 | .Token => 2 ^ 64) [] [] fun _ _ => 10 ^ 30

def buy : TradeQuest :=
  .cycles
    { cycles := 16 * 10 ^ 20
      cycles_per_token_rate := 3
      posit_transfer_ledger_fee := some 10
      return_cycles_to_subaccount := none
      payout_tokens_to_subaccount := none
      cycles_lt := by decide
      rate_lt := by decide }

def sell : TradeQuest :=
  .tokens
    { tokens := 2 * 10 ^ 20
      cycles_per_token_rate := 1
      posit_transfer_ledger_fee := some (2 ^ 64)
      return_tokens_to_subaccount := none
      payout_cycles_to_subaccount := none
      tokens_lt := by decide
      rate_lt := by decide }

def trades : List Event :=
  [.trade A buy, .deposit, .commit 0, .trade B sell, .deposit, .commit 1]

def payouts : List Event :=
  [.start, .execute (.trade .Cycles), .reply (.trade .Cycles), .execute (.trade .Token),
    .reply (.trade .Token), .finish, .start, .finish, .do_payouts, .move ⟨2, 0, none⟩,
    .void A 0 3, .start, .execute (.void .Cycles)]

/-- The state after the whole script. -/
def final : TcState := ((trades ++ payouts).foldlM (TcState.play config) start).getD start

theorem final_reachable : TcReachable config final :=
  script_reachable (.start ⟨_, [], [], _, rfl⟩) (end_of_script (by decide +kernel))

/-! ## A busy state

A debug build flushes after five trades. B sells five times to A, all is paid out, and both storages
begin to flush. Two more trades wait for their payouts, two orders of C and two of B rest in the book,
A has given up its order, and B's next call waits for its deposit's answer to be processed. -/

def C : Principal := .of_byte 3

def busyConfig : TcConfig :=
  { config with
    flush := .debug
    positions_fit := ⟨by decide, by decide⟩
    trades_fit := ⟨by decide, by decide⟩
    buffer_fits := by decide }

def bid (cycles rate : Nat) (hcycles : cycles < 2 ^ 128) (hrate : rate < 2 ^ 128) : TradeQuest :=
  .cycles ⟨cycles, rate, none, none, none, hcycles, hrate⟩

def ask (tokens rate : Nat) (htokens : tokens < 2 ^ 128) (hrate : rate < 2 ^ 128) : TradeQuest :=
  .tokens ⟨tokens, rate, none, none, none, htokens, hrate⟩

def place (caller : Principal) (q : TradeQuest) (now : Nat) : List Event :=
  [.trade caller q, .deposit, .commit now]

def sale (now : Nat) : List Event := place B (ask (10 ^ 20) 1 (by decide) (by decide)) now

def payoutsOf (trades : Nat) : List Event :=
  .start ::
    (List.replicate trades [.execute (.trade .Cycles), .reply (.trade .Cycles),
      .execute (.trade .Token), .reply (.trade .Token)]).flatten ++ [.finish, .start, .finish]

def flushing : List Event :=
  [.do_payouts, .move ⟨8, 40 * 1000000000000, none⟩, .flush_trades (.created (.of_byte 21)),
    .flush_trades .installed, .flush_trades .executed, .flush_trades .replied,
    .flush_trades .executed, .flush_positions (.created (.of_byte 22)), .flush_positions .installed,
    .flush_positions .executed, .flush_positions .replied]

/-- B's last order, which waits in the state at the end. -/
def waitingSale : TradeQuest := ask (6 * 10 ^ 20) 1 (by decide) (by decide)

def busyEvents : List Event :=
  place A (bid (10 ^ 24) 3 (by decide) (by decide)) 1 ++
    place C (bid (10 ^ 21) 3 (by decide) (by decide)) 2 ++ [3, 4, 5, 6, 7].flatMap sale ++
    payoutsOf 5 ++ flushing ++ [9, 10].flatMap sale ++
    place C (bid (10 ^ 21) 2 (by decide) (by decide)) 11 ++
    place B (ask (10 ^ 20) 5 (by decide) (by decide)) 12 ++
    place B (ask (10 ^ 20) 6 (by decide) (by decide)) 13 ++
    [.void A 0 14, .trade B waitingSale, .deposit]

def busyStart : TcState := .new busyConfig (fun _ => 10) [] [] fun _ _ => 10 ^ 30

def busy : TcState := (busyEvents.foldlM (TcState.play busyConfig) busyStart).getD busyStart

theorem busy_reachable : TcReachable busyConfig busy :=
  script_reachable (.start ⟨_, [], [], _, rfl⟩) (end_of_script (by decide +kernel))

end Sample

end Cts.Tc
