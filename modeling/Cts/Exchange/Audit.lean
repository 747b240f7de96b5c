import Cts.Bank.Pointers
import Cts.Exchange.Payouts

/-!
# The bank's log tells the payouts

The bank logs a transfer with all that was asked for, so the cycles payouts of a contract are read
back out of the log by their account and their memos.
-/

namespace Cts.Exchange

open Lib Lib.IndexedLog Tc

/-! ## Reading -/

/-- The transfer out of an account that a log is of. -/
def transferOut (a : Account) (log : Bank.Log) : Option Icrc1TransferQuest :=
  match log.tx.op with
  | .Xfer «from» «to» =>
    if «from».account = a then
      some
        { «to» := «to»
          fee := log.tx.fee
          memo := log.tx.memo
          from_subaccount := «from».subaccount
          created_at_time := log.tx.ts
          amount := log.tx.amt }
    else none
  | _ => none

/-- The id of the job, when the memo names the queue. -/
def readPayout (q : Queue) (t : Icrc1TransferQuest) : Option (Nat × Icrc1TransferQuest) :=
  match t.memo.bind readMemo with
  | some (memo_start, id) => if memo_start = q.memo_start then some (id, t) else none
  | none => none

def payoutsTold (cfg : TcConfig) (logs : List Bank.Log) (q : Queue) :
    List (Nat × Icrc1TransferQuest) :=
  (logs.filterMap (transferOut cfg.positionsAccount)).filterMap (readPayout q)

/-! ## What the bank logs -/

section Bank

variable {bank_id : Principal} {b b' : Bank.BankSystem}

theorem transferOut_log (a : Account) (caller : Principal) (now : Nat) (q : Icrc1TransferQuest) :
    transferOut a (transferLog caller now q) =
      if IcrcId.account ⟨caller, q.from_subaccount⟩ = a then some q else none := rfl

theorem transferOut_of_ne {a : Account} {log : Bank.Log}
    (h : ∀ source target, log.tx.op ≠ .Xfer source target) : transferOut a log = none := by
  unfold transferOut
  split
  · rename_i source target hop
    exact absurd hop (h source target)
  · rfl

/-- Logs of one message that are of no transfer out of the account. -/
def Silent (a : Account) (b b' : Bank.BankState) : Prop :=
  ∃ logs, b'.logs = b.logs ++ logs ∧ logs.filterMap (transferOut a) = []

theorem Silent.of_same {a : Account} {b b' : Bank.BankState} (h : b'.logs = b.logs) : Silent a b b' :=
  ⟨[], by rw [h, List.append_nil], rfl⟩

theorem Silent.of_log {a : Account} {b b' : Bank.BankState} {log : Bank.Log}
    (h : b'.logs = b.logs ++ [log]) (hlog : transferOut a log = none) : Silent a b b' := by
  refine ⟨[log], h, ?_⟩
  rw [List.filterMap_cons_none hlog, List.filterMap_nil]

theorem Silent.after {a : Account} {b b' b'' : Bank.BankState} (h : b'.logs = b.logs)
    (h' : Silent a b' b'') : Silent a b b'' := by
  obtain ⟨logs, hlogs, hsilent⟩ := h'
  exact ⟨logs, by rw [hlogs, h], hsilent⟩

theorem mint_piece_silent (a : Account) {user_id : Principal} {d : Bank.MintCyclesMidCallData}
    {b : Bank.BankState} {r : Bank.BankState × Bank.MintProgress} (h : Bank.MintPiece user_id d b r) :
    Silent a b r.1 := by
  cases h with
  | trapped | called => exact .of_same rfl
  | unlocked => exact .of_same (Bank.insert_mint_logs _ _ _)
  | removed => exact .of_same (Bank.remove_mint_logs _ _)
  | credited cmc_cycles icp_block_height now hb hlog _ =>
    subst hb hlog
    apply Silent.after (Bank.add_cycles_balance_logs b d.quest.to _)
    apply Silent.after (Bank.remove_mint_logs _ user_id)
    exact .of_log rfl (transferOut_of_ne fun _ _ => nofun)

theorem others_silent {cfg : TcConfig} {s : IcrcSubaccount} (h : Bank.BankStep bank_id b b')
    (ho : ByOthers cfg b b') : Silent ⟨cfg.canister_id, s⟩ b.bank b'.bank := by
  cases h with
  | @icrc1_transfer caller now q height bank h =>
    have hcaller : caller ≠ cfg.canister_id := by
      rintro rfl
      exact ho.1 q ⟨now, height, bank, h, rfl⟩
    refine .of_log (icrc1_transfer_logs h) ?_
    rw [transferOut_log, if_neg fun heq => hcaller (congrArg Account.owner heq)]
  | cycles_in _ _ h =>
    obtain ⟨-, log, pointers, hop, -, rfl⟩ := Bank.cycles_in_ok h
    refine .of_log (Bank.logged_logs _ _ _) (transferOut_of_ne fun _ _ => ?_)
    rw [hop]
    exact nofun
  | cycles_out _ h => exact .of_same (Bank.cycles_out_same h).1
  | @cycles_out_deposited pre post c now hc =>
    obtain ⟨log, pointers, hop, -, h⟩ := Bank.cycles_out_reply_ok c now b.bank
    rw [h]
    refine .of_log (Bank.logged_logs _ _ _) (transferOut_of_ne fun _ _ => ?_)
    rw [hop]
    exact nofun
  | cycles_out_failed => exact .of_same (Bank.add_cycles_balance_logs _ _ _)
  | mint_cycles h =>
    obtain ⟨-, d, args, -, -, -, rfl⟩ := Bank.mint_cycles_ok h
    exact .of_same (Bank.insert_mint_logs _ _ _)
  | complete_mint_cycles h =>
    obtain ⟨d, -, -, rfl⟩ := Bank.complete_mint_cycles_ok h
    exact .after (Bank.insert_mint_logs _ _ _) (mint_piece_silent _ (Bank.mint_cycles_piece _ _ _ _ _ _))
  | icp_transfer_refused | icp_transferred =>
    obtain ⟨d, -, hpiece⟩ := Bank.mint_cycles_transferred_piece _ _ _ _ _ _
    exact mint_piece_silent _ hpiece
  | cmc_answered =>
    obtain ⟨d, -, hpiece⟩ := Bank.mint_cycles_notified_piece _ _ _ _
    exact mint_piece_silent _ hpiece
  | cmc_top_up | clear_user_logs_pointers_cache => exact .of_same rfl

end Bank

/-! ## What the contract counts -/

variable {cfg : TcConfig} {bank_id : Principal} {held : Nat} {s s' : ExchangeState}

theorem contract_executes_none {tc tc' : TcState} (h : TcStep cfg tc tc')
    (hsent : cyclesCallsSent tc ≤ cyclesCallsSent tc') {q : Queue} (hk : q.kind = .Cycles) :
    tc'.history.executed q = tc.history.executed q := by
  cases h with
  | @payout_executed before after run q' pre post p fee l block hr hp hs hl =>
    by_cases hq : q = q'
    · subst hq
      exact absurd hsent (not_le.mpr (payoutAnswered_sent _ hr hp hs hk))
    · exact Function.update_of_ne hq _ _
  | _ => rfl

theorem callAnswered_executed (tc : TcState) (cfg : TcConfig) (pre post : List UserCall)
    (c : UserCall) (r : LedgerTransferReturnType) (l : Ledger) :
    (callAnswered tc cfg pre post c r l).history.executed = tc.history.executed := by
  unfold callAnswered
  cases c.quest with
  | trade q => rfl
  | transfer_balance kind q =>
    simp only
    split_ifs
    · rfl
    · rfl

/-! ## Runs -/

/-- The payouts in the order of the bank: the logs from a block on are of their transfers, and those
of a queue are what the contract counts. -/
structure Told (cfg : TcConfig) (logs : List Bank.Log) (s : ExchangeState)
    (paid : List (Queue × Nat × Icrc1TransferQuest)) : Prop where
  cycles : ∀ e ∈ paid, e.1.kind = .Cycles
  transfers : logs.filterMap (transferOut cfg.positionsAccount) = paid.map fun e => e.2.2
  executed : ∀ q : Queue, q.kind = .Cycles →
    s.tc.history.executed q = (paid.filter fun e => e.1 = q).map Prod.snd

/-- What the bank logged after some first blocks. -/
def ToldSince (cfg : TcConfig) (first : List Bank.Log) (s : ExchangeState) : Prop :=
  ∃ logs paid, s.bank.bank.logs = first ++ logs ∧ Told cfg logs s paid

variable {first : List Bank.Log}

theorem ToldSince.quiet (h : ToldSince cfg first s)
    (hb : Silent cfg.positionsAccount s.bank.bank s'.bank.bank)
    (he : ∀ q : Queue, q.kind = .Cycles → s'.tc.history.executed q = s.tc.history.executed q) :
    ToldSince cfg first s' := by
  obtain ⟨logs, paid, hlogs, hcycles, htransfers, hexecuted⟩ := h
  obtain ⟨more, hmore, hsilent⟩ := hb
  refine ⟨logs ++ more, paid, ?_, hcycles, ?_, fun q hk => ?_⟩
  · rw [hmore, hlogs, List.append_assoc]
  · rw [List.filterMap_append, hsilent, htransfers, List.append_nil]
  · rw [he q hk, hexecuted q hk]

theorem ToldSince.paid (h : ToldSince cfg first s) {q : Queue} {id now : Nat} {t : Icrc1TransferQuest}
    (hk : q.kind = .Cycles)
    (hlogs : s'.bank.bank.logs = s.bank.bank.logs ++ [transferLog cfg.canister_id now t])
    (hsource : t.from_subaccount = some POSITIONS_SUBACCOUNT)
    (he : s'.tc.history.executed =
      Function.update s.tc.history.executed q (s.tc.history.executed q ++ [(id, t)])) :
    ToldSince cfg first s' := by
  obtain ⟨logs, paid, hold, hcycles, htransfers, hexecuted⟩ := h
  have hlog : transferOut cfg.positionsAccount (transferLog cfg.canister_id now t) = some t := by
    rw [transferOut_log, hsource]
    exact if_pos rfl
  refine ⟨logs ++ [transferLog cfg.canister_id now t], paid ++ [(q, id, t)], ?_, ?_, ?_, ?_⟩
  · rw [hlogs, hold, List.append_assoc]
  · intro e hmem
    rcases List.mem_append.mp hmem with hmem | hmem
    · exact hcycles e hmem
    · obtain rfl := List.mem_singleton.mp hmem
      exact hk
  · rw [List.filterMap_append, htransfers, List.map_append, List.filterMap_cons_some hlog]
    rfl
  · intro q' hk'
    rw [he, List.filter_append, List.map_append, ← hexecuted q' hk']
    by_cases hq : q' = q
    · subst hq
      rw [Function.update_self, List.filter_cons_of_pos (by simp)]
      rfl
    · rw [Function.update_of_ne hq, List.filter_cons_of_neg (by simpa using Ne.symm hq)]
      exact (List.append_nil _).symm

theorem payoutAnswered_executed (tc : TcState) (cfg : TcConfig) (before after : List PayoutsRun)
    (run : PayoutsRun) (q : Queue) (pre post : List Payout) (p : Payout)
    (r : LedgerTransferReturnType) (l : Ledger) :
    (payoutAnswered tc cfg before after run q pre post p r l).history.executed =
      if didExecute r then
        Function.update tc.history.executed q (tc.history.executed q ++ [(p.id, p.transfer)])
      else tc.history.executed := by
  unfold payoutAnswered
  simp only
  split_ifs
  · rfl
  · rfl

theorem call_subaccount (c : UserCall) (canister_id : Principal) :
    (c.transfer canister_id).from_subaccount = some (principal_token_subaccount c.caller) := by
  unfold UserCall.transfer
  cases c.quest <;> rfl

theorem told_step (h : ToldSince cfg first s) (hstep : ExchangeStep cfg bank_id s s') :
    ToldSince cfg first s' := by
  cases hstep with
  | contract hc _ hsent => exact h.quiet (.of_same rfl) fun q hk => contract_executes_none hc hsent hk
  | @callAnswered pre post c r b hc hreply hk ha =>
    refine h.quiet ?_ fun q _ => congrFun (callAnswered_executed _ _ _ _ _ _ _) q
    cases ha with
    | failed | refused => exact .of_same rfl
    | executed hok =>
      refine .of_log (icrc1_transfer_logs hok) ?_
      rw [transferOut_log, call_subaccount]
      exact if_neg (userAccount_ne cfg.canister_id c.caller)
  | @payoutAnswered before after run q pre post p r b hruns hp hs hk ha =>
    have hexecuted := payoutAnswered_executed s.tc cfg before after run q pre post p r
      (Bank.balanceAt b.bank)
    cases ha with
    | failed e => exact h.quiet (.of_same rfl) fun q _ => congrFun hexecuted q
    | refused => exact h.quiet (.of_same rfl) fun q _ => congrFun hexecuted q
    | executed hok => exact h.paid hk (icrc1_transfer_logs hok) rfl hexecuted
  | others hb ho => exact h.quiet (others_silent hb ho) fun _ _ => rfl

theorem told_inv {s₀ : ExchangeState} (h : ExchangeInit cfg bank_id held s₀)
    (r : Runs (ExchangeStep cfg bank_id) s₀ s) : ToldSince cfg s₀.bank.bank.logs s := by
  refine r.invariant ?_ fun _ _ _ h hstep => told_step h hstep
  rintro t rfl
  obtain ⟨-, token_fee, positions_module_hash, trades_module_hash, token_ledger, htc⟩ := h
  refine ⟨[], [], (List.append_nil _).symm, ?_, rfl, fun q _ => ?_⟩
  · intro e he
    cases he
  · rw [htc]
    rfl

/-! ## Reading back -/

theorem tells_read {q q' : Queue} {id : Nat} {t : Icrc1TransferQuest} (h : Tells q' (id, t))
    (hk : q.kind = q'.kind) :
    readPayout q t = if q' = q then some (id, t) else none := by
  obtain ⟨m, hmemo, -, hread⟩ := h
  have hstart : q'.memo_start = q.memo_start ↔ q' = q := by
    have hne : VOID_TOKEN_POSITION_MEMO_START ≠ TRADE_MEMO_START := by decide
    cases q <;> cases q' <;> simp_all [Queue.memo_start, Queue.kind, eq_comm]
  have hmemo : t.memo = some m := hmemo
  unfold readPayout
  rw [hmemo, Option.bind_some, hread]
  simp only [hstart]

theorem read_payouts {q : Queue} {paid : List (Queue × Nat × Icrc1TransferQuest)}
    (h : ∀ e ∈ paid, Tells e.1 e.2) (hk : ∀ e ∈ paid, q.kind = e.1.kind) :
    (paid.map fun e => e.2.2).filterMap (readPayout q) =
      (paid.filter fun e => e.1 = q).map Prod.snd := by
  induction paid with
  | nil => rfl
  | cons e paid ih =>
    have hread := tells_read (h e List.mem_cons_self) (hk e List.mem_cons_self)
    have hrest := ih (fun e' he' => h e' (List.mem_cons_of_mem _ he'))
      fun e' he' => hk e' (List.mem_cons_of_mem _ he')
    rw [List.map_cons]
    by_cases hq : e.1 = q
    · rw [if_pos hq] at hread
      rw [List.filterMap_cons_some hread, List.filter_cons_of_pos (by simpa using hq), hrest]
      rfl
    · rw [if_neg hq] at hread
      rw [List.filterMap_cons_none hread, List.filter_cons_of_neg (by simpa using hq), hrest]

theorem Told.payoutsTold {logs : List Bank.Log} {paid : List (Queue × Nat × Icrc1TransferQuest)}
    (h : Told cfg logs s paid) (r : TcReachable cfg s.tc)
    (hids : ∀ q, s.tc.idCounter q ≤ 2 ^ 64) {q : Queue} (hk : q.kind = .Cycles) :
    payoutsTold cfg logs q = s.tc.history.executed q := by
  unfold Exchange.payoutsTold
  rw [h.transfers, h.executed q hk]
  refine read_payouts (fun e he => ?_) fun e he => hk.trans (h.cycles e he).symm
  have hmem : e.2 ∈ s.tc.history.executed e.1 := by
    rw [h.executed e.1 (h.cycles e he)]
    exact List.mem_map_of_mem (List.mem_filter.mpr ⟨he, by simp⟩)
  exact executed_tells r (hids e.1) hmem

/-- A transfer out of an account is in the account's own history. -/
theorem transferOut_named {a : Account} {log : Bank.Log} (h : a ∉ log.accounts) :
    transferOut a log = none := by
  unfold transferOut
  split
  · rename_i source target hop
    refine if_neg fun hsource => h ?_
    unfold Bank.Log.accounts
    rw [hop, ← hsource]
    exact List.mem_cons_self
  · rfl

theorem filterMap_named (a : Account) (logs : List Bank.Log) :
    (logs.filter fun log => a ∈ log.accounts).filterMap (transferOut a) =
      logs.filterMap (transferOut a) := by
  induction logs with
  | nil => rfl
  | cons log logs ih =>
    by_cases ha : a ∈ log.accounts
    · rw [List.filter_cons_of_pos (by simpa using ha), List.filterMap_cons, List.filterMap_cons, ih]
    · rw [List.filter_cons_of_neg (by simpa using ha), List.filterMap_cons_none (transferOut_named ha),
        ih]

/-- The logs of the pages of a client, from a height on. -/
def pagedLogs (blocks : Nat) (pages : List (List (Nat × Bank.Log))) : List Bank.Log :=
  (pages.reverse.flatten.filter fun e => blocks ≤ e.1).map Prod.snd

/-- The pages of a client, oldest last. -/
def Pages (b : Bank.BankState) (i : IcrcId) (pages : List (List (Nat × Bank.Log))) : Prop :=
  ∃ view : Option Nat → Paging.Page (Nat × Bank.Log),
    (∀ start, (Bank.get_logs_backwards b i start).map Bank.GetLogsBackwardsSponse.page =
      some (view start)) ∧
    Paging.Chain view (Paging.firstKey Prod.fst) none pages

theorem pages_history {b : Bank.BankState} {since : Nat} (hb : Bank.Pointed b since)
    (hblocks : b.logs.length < 2 ^ 32) (i : IcrcId) :
    (∃ pages, Pages b i pages) ∧ ∀ pages, Pages b i pages →
      SortedBy Prod.fst pages.reverse.flatten ∧ ∀ height log, (height, log) ∈ pages.reverse.flatten ↔
        since ≤ height ∧ b.logs[height]? = some log ∧ i.account ∈ log.accounts := by
  obtain ⟨history, hheights, hsorted, hlogs, hmem⟩ := hb.history i.account
  have hdescends : Paging.Descends Prod.fst history Bank.LOGS_CHUNK_SIZE (Word.wrap 32)
      (Bank.historyPage history) := by
    apply Bank.historyPage_descends
    intro e he
    exact (List.getElem?_eq_some_iff.mp (hlogs e he)).1.trans hblocks
  have hview (start : Option Nat) : (Bank.get_logs_backwards b i start).map
      Bank.GetLogsBackwardsSponse.page = some (Bank.historyPage history start) := by
    rw [Bank.get_logs_backwards_eq hheights.symm hsorted hlogs start, Option.map_some]
    unfold Bank.GetLogsBackwardsSponse.page Bank.historyPage
    simp only
  obtain ⟨all, hall, hflatten⟩ := hdescends.complete hsorted (by decide) none
  refine ⟨⟨all, _, hview, hall⟩, ?_⟩
  rintro pages ⟨view, hview', hpages⟩
  obtain rfl : view = Bank.historyPage history := funext fun start =>
    Option.some.inj ((hview' start).symm.trans (hview start))
  rw [hpages.unique hall, hflatten]
  exact ⟨hsorted, hmem⟩

theorem pagedLogs_eq {b : Bank.BankState} {i : IcrcId} {since : Nat} {first logs : List Bank.Log}
    (hsince : since ≤ first.length) (hlogs : b.logs = first ++ logs)
    {pages : List (List (Nat × Bank.Log))} (hsorted : SortedBy Prod.fst pages.reverse.flatten)
    (hmem : ∀ height log, (height, log) ∈ pages.reverse.flatten ↔
      since ≤ height ∧ b.logs[height]? = some log ∧ i.account ∈ log.accounts) :
    pagedLogs first.length pages = logs.filter fun log => i.account ∈ log.accounts := by
  have hsub : SortedBy Prod.fst (pages.reverse.flatten.filter fun e => first.length ≤ e.1) :=
    hsorted.sublist (List.filter_sublist.map _)
  have hentries (height : Nat) (log : Bank.Log) :
      (height, log) ∈ (pages.reverse.flatten.filter fun e => first.length ≤ e.1) ↔
        first.length ≤ height ∧ logs[height - first.length]? = some log ∧
          decide (i.account ∈ log.accounts) = true := by
    rw [List.mem_filter, hmem, hlogs]
    simp only [decide_eq_true_eq]
    constructor
    · rintro ⟨⟨-, hlog, ha⟩, hle⟩
      rw [List.getElem?_append_right hle] at hlog
      exact ⟨hle, hlog, ha⟩
    · rintro ⟨hle, hlog, ha⟩
      rw [List.getElem?_append_right hle]
      exact ⟨⟨hsince.trans hle, hlog, ha⟩, hle⟩
  exact hsub.entries hentries

structure PayoutsTold (cfg : TcConfig) (bank_id : Principal) (held : Nat) (s₀ s : ExchangeState) :
    Prop where
  logged : ∃ logs, s.bank.bank.logs = s₀.bank.bank.logs ++ logs ∧
    ∀ q : Queue, q.kind = .Cycles → payoutsTold cfg logs q = s.tc.history.executed q
  paged : ∀ since, Bank.BankReachableSince bank_id held s.bank since →
    since ≤ s₀.bank.bank.logs.length → s.bank.bank.logs.length < 2 ^ 32 →
    ∀ i : IcrcId, i.account = cfg.positionsAccount →
      (∃ pages, Pages s.bank.bank i pages) ∧
      ∀ pages, Pages s.bank.bank i pages → ∀ q : Queue, q.kind = .Cycles →
        payoutsTold cfg (pagedLogs s₀.bank.bank.logs.length pages) q = s.tc.history.executed q

/-- The cycles payouts of a contract, with their jobs, are what its bank logged since it was new: in
the whole log, and in the pages of a client as long as the pointers to these logs were not cleared. -/
theorem bank_log_tells_payouts (cfg : TcConfig) (bank_id : Principal) (held : Nat)
    (s₀ s : ExchangeState) (h : ExchangeInit cfg bank_id held s₀)
    (r : Runs (ExchangeStep cfg bank_id) s₀ s) (hfit : Bank.CyclesFit s.bank.history)
    (hpositions : s.tc.cm_data.positions_id_counter ≤ 2 ^ 64)
    (htrades : s.tc.cm_data.trade_logs_id_counter ≤ 2 ^ 64) : PayoutsTold cfg bank_id held s₀ s := by
  have htc := (refines_inv (Reachable.trans (.start h) r) hfit).tc
  have hids : ∀ q, s.tc.idCounter q ≤ 2 ^ 64 := by
    intro q
    cases q
    · exact hpositions
    · exact htrades
  obtain ⟨logs, paid, hlogs, htold⟩ := told_inv h r
  refine ⟨⟨logs, hlogs, fun q hk => htold.payoutsTold htc hids hk⟩, ?_⟩
  intro since hsince hle hblocks i hi
  obtain ⟨hexists, hpages⟩ := pages_history (Bank.pointed hsince hblocks) hblocks i
  refine ⟨hexists, fun pages hp q hk => ?_⟩
  obtain ⟨hsorted, hmem⟩ := hpages pages hp
  have hpaged := pagedLogs_eq hle hlogs hsorted hmem
  rw [hi] at hpaged
  unfold payoutsTold
  rw [hpaged, filterMap_named]
  exact htold.payoutsTold htc hids hk

theorem short_run_is_told :
    Sample.paid.tc.history.executed (.void .Cycles) ≠ [] ∧
      PayoutsTold Tc.Sample.config Sample.bankId 0 Sample.start Sample.paid := by
  refine ⟨by decide +kernel, ?_⟩
  exact bank_log_tells_payouts _ _ _ _ _ Sample.start_init Sample.paid_runs Sample.paid_fits
    (by decide +kernel) (by decide +kernel)

end Cts.Exchange
