import Cts.Exchange.System
import Cts.Tc.Solvency

/-!
# The bank is a ledger of the contract

A message at the bank moves the balances as a step of the contract's model says a ledger moves. So a
run of the two is a run of each, and what holds of the contract with any ledger holds with the bank.
-/

namespace Cts.Exchange

open Lib Tc

variable {cfg : TcConfig} {bank_id : Principal} {held : Nat} {s s' : ExchangeState}

/-! ## Balances -/

theorem eq_transfer {l l' : Ledger} {source target : Account} {amount fee : Nat}
    (hf : amount + fee ≤ l source)
    (h : ∀ x, l' x + Bank.atAccount source (amount + fee) x = l x + Bank.atAccount target amount x) :
    l' = l.transfer source target amount fee := by
  funext x
  have hl' := h x
  have hl := Ledger.transfer_apply hf target x
  simp only [Bank.atAccount, eq_comm (a := x)] at hl'
  omega

theorem eq_credited {l l' : Ledger} {a : Account} {n : Nat}
    (h : ∀ x, l' x = l x + Bank.atAccount a n x) : l' = Function.update l a (l a + n) := by
  funext x
  rw [h x, Function.update_apply, Bank.atAccount]
  split_ifs with hx
  · rw [hx]
  · rfl

theorem icrc1_transfer_fee {caller : Principal} {now : Nat} {q : Icrc1TransferQuest}
    {b b' : Bank.BankState} {height : Nat}
    (h : Bank.icrc1_transfer caller now q b = .ok (height, b')) {f : Nat} (hf : q.fee = some f) :
    f = Bank.BANK_TRANSFER_FEE := by
  rw [Bank.icrc1_transfer] at h
  split at h
  · cases h
  · split_ifs at h with hmemo hfee
    all_goals
      rw [Bank.bad_fee, hf] at hfee
      simpa using hfee

theorem icrc1_transfer_executes {b : Bank.BankSystem} (hb : Bank.Books b)
    (hfit : Bank.acceptedOrMinted b.history < 2 ^ 128) {caller : Principal} {now : Nat}
    {q : Icrc1TransferQuest} {height : Nat} {bank : Bank.BankState}
    (h : Bank.icrc1_transfer caller now q b.bank = .ok (height, bank)) :
    Ledger.Executes (Bank.balanceAt b.bank) caller q Bank.BANK_TRANSFER_FEE
      (Bank.balanceAt bank) := by
  obtain ⟨hfunds, -, -, hbalance, -⟩ := hb.transfer_effect hfit h
  exact ⟨fun _ => icrc1_transfer_fee h, hfunds, eq_transfer hfunds hbalance⟩

/-! ## Messages of others -/

/-- What a message of others does to the balances. -/
inductive Moved (cfg : TcConfig) (l : Ledger) : Ledger → Prop
  | same : Moved cfg l l
  | credited (a : Account) (n : Nat) : Moved cfg l (Function.update l a (l a + n))
  | paid (source target : Account) (amount fee : Nat) (hs : source.owner ≠ cfg.canister_id)
      (hf : amount + fee ≤ l source) : Moved cfg l (l.transfer source target amount fee)

theorem Moved.of_eq {l l' : Ledger} (h : ∀ x, l' x = l x) : Moved cfg l l' := by
  rw [funext h]
  exact .same

theorem Moved.of_same {b b' : Bank.BankState} (h : Bank.SameBooks b b') :
    Moved cfg (Bank.balanceAt b) (Bank.balanceAt b') := .of_eq h.balanceAt

theorem Moved.of_credit {l l' : Ledger} {a : Account} {n : Nat}
    (h : ∀ x, l' x = l x + Bank.atAccount a n x) : Moved cfg l l' := by
  rw [eq_credited h]
  exact .credited a n

theorem Moved.of_debit {l l' : Ledger} {a : Account} {n : Nat} (ha : a.owner ≠ cfg.canister_id)
    (h : ∀ x, l' x + Bank.atAccount a n x = l x) : Moved cfg l l' := by
  have hfunds := h a
  rw [Bank.atAccount, if_pos rfl] at hfunds
  have htransfer : l' = l.transfer a a 0 n := by
    refine eq_transfer (by omega) fun x => ?_
    have hx := h x
    simp only [Nat.zero_add, Bank.atAccount, ite_self, Nat.add_zero] at hx ⊢
    exact hx
  rw [htransfer]
  exact .paid a a 0 n ha (by omega)

theorem cmc_answered_moved {b : Bank.BankSystem} (hb : Bank.Books b)
    {phase : Principal → Tickets.Phase Nat} (hp : Bank.MintsAt b phase) {pre post : List Bank.MintCall}
    {c : Bank.MintCall} {block_index now : Nat} {canister_id : Principal}
    {r : Except Bank.LedgerTopupCyclesCmcNotifyError Nat} (hc : b.mints = pre ++ c :: post)
    (ha : c.await = .cmc_notify block_index canister_id)
    (hfit : Bank.acceptedOrMinted (b.afterMint (pre ++ post) [.cmc_answered c.user_id block_index r]
      c.user_id (Bank.mint_cycles_notified c r now b.bank)).history < 2 ^ 128) :
    Moved cfg (Bank.balanceAt b.bank)
      (Bank.balanceAt (Bank.mint_cycles_notified c r now b.bank).1) := by
  obtain ⟨-, -, hblock⟩ := (Bank.call_of_mint hp hc).1.of_cmc_notify ha
  rcases Bank.mint_cycles_notified_cases c r now b.bank hblock with
    ⟨cmc_cycles, pointers, success, rfl, h⟩ | ⟨e, -, h⟩ | ⟨e, -, -, h⟩
  · rw [h] at hfit ⊢
    simp only [Bank.BankSystem.afterMint, Bank.MintProgress.events, Bank.acceptedOrMinted_append,
      Bank.acceptedOrMinted_cons, Bank.acceptedOrMinted_nil, Bank.BankEvent.cyclesIn] at hfit
    have hbound := hb.bound
    obtain ⟨-, -, hbalance⟩ := Bank.add_cycles_balance_spec hb.supply c.mid_call_data.quest.to
      (n := saturating_sub cmc_cycles c.mid_call_data.fee) (by
        rw [saturating_sub, Word.saturatingSub]; omega)
    have hsame := Bank.remove_mint_books (Bank.add_cycles_balance b.bank c.mid_call_data.quest.to
      (saturating_sub cmc_cycles c.mid_call_data.fee)) c.user_id
    exact .of_credit fun x => (hsame.balanceAt x).trans (hbalance x)
  · rw [h]
    exact .of_same (Bank.remove_mint_books _ _)
  · rw [h]
    exact .of_same (Bank.insert_mint_books _ _ _)

theorem bank_step_moved {b b' : Bank.BankSystem} (hr : Bank.BankReachable bank_id held b)
    (hfit : Bank.CyclesFit b'.history) (h : Bank.BankStep bank_id b b') (ho : ByOthers cfg b b') :
    Moved cfg (Bank.balanceAt b.bank) (Bank.balanceAt b'.bank) := by
  have hback := hfit.back h
  have hb := Bank.books_kept hr hback
  obtain ⟨phase, hp⟩ := Bank.mints_at hr
  cases h with
  | @icrc1_transfer caller now q height bank h =>
    have hexecutes := icrc1_transfer_executes hb hback.1 h
    have hcaller : caller ≠ cfg.canister_id := by
      rintro rfl
      exact ho.1 q ⟨now, height, bank, h, rfl⟩
    rw [hexecutes.eq]
    exact .paid _ _ _ _ hcaller hexecutes.funds
  | cycles_in _ _ h =>
    obtain ⟨-, -, -, hbalance, -⟩ := hb.cycles_in_effect hfit h
    exact .of_credit hbalance
  | @cycles_out caller now q c bank _ h =>
    obtain ⟨-, hdebit, -, -, hbalance, -⟩ := hb.cycles_out_effect hback.1 h
    obtain ⟨rfl, -, -⟩ := Bank.cycles_out_ok h
    have hcaller : caller ≠ cfg.canister_id := by
      rintro rfl
      exact ho.2 q ⟨now, _, bank, h, rfl⟩
    exact .of_debit hcaller hbalance
  | @cycles_out_deposited pre post c now hc =>
    obtain ⟨log, pointers, -, -, h⟩ := Bank.cycles_out_reply_ok c now b.bank
    rw [h]
    exact .of_eq (Bank.balanceAt_logged b.bank log pointers)
  | @cycles_out_failed pre post c now e hc =>
    obtain ⟨-, -, hbalance⟩ := hb.refund hback.1 hc
    exact .of_credit hbalance
  | mint_cycles h _ => exact .of_same (Bank.mint_cycles_quiet h).1
  | complete_mint_cycles h _ => exact .of_same (Bank.complete_mint_cycles_quiet hp h).1
  | icp_transfer_refused hc ha => exact .of_same (Bank.remove_mint_books _ _)
  | @icp_transferred pre post c args block_height canister_balance now hc ha _ =>
    have hu := ((Bank.call_of_mint hp hc).1.of_icp_transfer ha).1
    exact .of_same (Bank.mint_cycles_notify_quiet c.user_id bank_id
      (d := { c.mid_call_data with cmc_icp_transfer_block_height := some block_height })
      canister_balance now b.bank hu.2 rfl).1
  | cmc_answered hc ha _ => exact cmc_answered_moved hb hp hc ha hfit.1
  | cmc_top_up => exact .same
  | clear_user_logs_pointers_cache => exact .same

@[simp]
theorem set_ledger_self (tc : TcState) (kind : PositionKind) :
    tc.set_ledger kind (tc.ledger kind) = tc := by
  unfold TcState.set_ledger
  rw [Function.update_eq_self]

theorem bankMoved_ledger (tc : TcState) (cfg : TcConfig) (l : Ledger) :
    (bankMoved tc cfg l).ledger .Cycles = l := by
  simp only [bankMoved, TcState.set_ledger, Function.update_self]

theorem bankMoved_eq (tc : TcState) {l : Ledger} {a : Account} {n : Nat}
    (h : l cfg.positionsAccount = tc.ledger .Cycles cfg.positionsAccount +
      if a = cfg.positionsAccount then n else 0) :
    bankMoved tc cfg l = (tc.set_ledger .Cycles l).receive cfg .Cycles a n := by
  unfold bankMoved TcState.receive TcState.set_ledger
  rw [h, Nat.add_sub_cancel_left]

theorem Moved.reachable {tc : TcState} {l : Ledger} (hr : TcReachable cfg tc)
    (h : Moved cfg (tc.ledger .Cycles) l) : TcReachable cfg (bankMoved tc cfg l) := by
  cases h with
  | same =>
    have hself : bankMoved tc cfg (tc.ledger .Cycles) = tc := by
      unfold bankMoved
      simp only [set_ledger_self, Nat.sub_self, Nat.add_zero, Function.update_eq_self]
    rw [hself]
    exact hr
  | credited a n =>
    rw [bankMoved_eq tc (a := a) (n := n)]
    · exact hr.next (.others_mint .Cycles a n)
    · by_cases ha : a = cfg.positionsAccount
      · subst ha
        rw [Function.update_self, if_pos rfl]
      · rw [Function.update_of_ne (Ne.symm ha), if_neg ha, Nat.add_zero]
  | paid source target amount fee hs hf =>
    rw [bankMoved_eq tc (a := target) (n := amount)]
    · exact hr.next (.others_transfer .Cycles source target amount fee hs hf)
    · have hne : source ≠ cfg.positionsAccount := fun heq => hs (congrArg Account.owner heq)
      have happly := Ledger.transfer_apply hf target cfg.positionsAccount
      rwa [if_neg hne, Nat.add_zero] at happly

/-! ## Answers -/

theorem callAnswered_ledger (tc : TcState) (cfg : TcConfig) (pre post : List UserCall) (c : UserCall)
    (r : LedgerTransferReturnType) (l : Ledger) :
    (callAnswered tc cfg pre post c r l).ledger c.quest.kind = l := by
  unfold callAnswered
  cases c.quest with
  | trade q => exact Function.update_self _ _ _
  | transfer_balance kind q =>
    simp only
    split_ifs
    · exact Function.update_self _ _ _
    · exact Function.update_self _ _ _

theorem payoutAnswered_ledger (tc : TcState) (cfg : TcConfig) (before after : List PayoutsRun)
    (run : PayoutsRun) (q : Queue) (pre post : List Payout) (p : Payout)
    (r : LedgerTransferReturnType) (l : Ledger) :
    (payoutAnswered tc cfg before after run q pre post p r l).ledger q.kind = l := by
  unfold payoutAnswered
  simp only
  split_ifs
  · exact Function.update_self _ _ _
  · exact Function.update_self _ _ _

section Answers

variable {tc : TcState} {b b' : Bank.BankSystem} {r : LedgerTransferReturnType}

theorem BankAnswers.ledger {q : Icrc1TransferQuest} (hb : Bank.Books b)
    (hfit : Bank.acceptedOrMinted b.history < 2 ^ 128) (h : BankAnswers cfg.canister_id q b r b') :
    (didExecute r = false ∧ b' = b) ∨
      ∃ block, r = .ok (.ok block) ∧ Ledger.Executes (Bank.balanceAt b.bank) cfg.canister_id q
        Bank.BANK_TRANSFER_FEE (Bank.balanceAt b'.bank) := by
  cases h with
  | failed | refused => exact Or.inl ⟨rfl, rfl⟩
  | executed h => exact Or.inr ⟨_, rfl, icrc1_transfer_executes hb hfit h⟩

theorem BankAnswers.reachable {q : Icrc1TransferQuest} (hb : Bank.BankReachable bank_id held b)
    (h : BankAnswers cfg.canister_id q b r b') : Bank.BankReachable bank_id held b' := by
  cases h with
  | failed | refused => exact hb
  | executed h => exact hb.next (.icrc1_transfer h)

theorem callAnswered_reachable (hr : TcReachable cfg tc) (hb : Bank.Books b)
    (hfit : Bank.acceptedOrMinted b.history < 2 ^ 128)
    (hl : tc.ledger .Cycles = Bank.balanceAt b.bank) {pre post : List UserCall} {c : UserCall}
    (hc : tc.calls = pre ++ c :: post) (hreply : c.reply = none) (hk : c.quest.kind = .Cycles)
    (h : BankAnswers cfg.canister_id (c.transfer cfg.canister_id) b r b') :
    TcReachable cfg (callAnswered tc cfg pre post c r (Bank.balanceAt b'.bank)) := by
  rcases h.ledger hb hfit with ⟨hn, rfl⟩ | ⟨block, rfl, hexecutes⟩
  · have hstay : callAnswered tc cfg pre post c r (Bank.balanceAt b'.bank) =
        { tc with calls := pre ++ { c with reply := some r } :: post } := by
      unfold callAnswered
      rw [hk, ← hl, set_ledger_self, hn]
      cases c.quest <;> rfl
    rw [hstay]
    exact hr.next (.call_refused r hc hreply hn)
  · rw [← hl, ← hk] at hexecutes
    obtain ⟨caller, quest, reply⟩ := c
    cases quest with
    | trade q => exact hr.next (.deposit_executed block hc hreply rfl hexecutes)
    | transfer_balance kind q => exact hr.next (.balance_executed block hc hreply rfl hexecutes)

theorem payoutAnswered_reachable (hr : TcReachable cfg tc) (hb : Bank.Books b)
    (hfit : Bank.acceptedOrMinted b.history < 2 ^ 128)
    (hl : tc.ledger .Cycles = Bank.balanceAt b.bank) {before after : List PayoutsRun}
    {run : PayoutsRun} {q : Queue} {pre post : List Payout} {p : Payout}
    (hruns : tc.runs = before ++ run :: after) (hp : run.payouts q = pre ++ p :: post)
    (hs : p.state = .sent) (hk : q.kind = .Cycles)
    (h : BankAnswers cfg.canister_id p.transfer b r b') :
    TcReachable cfg
      (payoutAnswered tc cfg before after run q pre post p r (Bank.balanceAt b'.bank)) := by
  rcases h.ledger hb hfit with ⟨hn, rfl⟩ | ⟨block, rfl, hexecutes⟩
  · have hstay : payoutAnswered tc cfg before after run q pre post p r (Bank.balanceAt b'.bank) =
        { tc with
          runs := before ++ run.set_payouts q (pre ++ { p with state := .answered r } :: post) ::
            after } := by
      unfold payoutAnswered
      rw [hk, ← hl, set_ledger_self, hn]
      rfl
    rw [hstay]
    exact hr.next (.payout_refused r hruns hp hs hn)
  · rw [← hl, ← hk] at hexecutes
    exact hr.next (.payout_executed block hruns hp hs hexecutes)

end Answers

/-! ## Every run -/

/-- Both sides are in states of their own, and the contract's cycles are those of the bank. -/
structure Refines (cfg : TcConfig) (bank_id : Principal) (held : Nat) (s : ExchangeState) : Prop where
  tc : TcReachable cfg s.tc
  bank : Bank.BankReachable bank_id held s.bank
  ledger : s.tc.ledger .Cycles = Bank.balanceAt s.bank.bank

theorem ExchangeStep.history_grows (h : ExchangeStep cfg bank_id s s') :
    ∃ es, s'.bank.history = s.bank.history ++ es := by
  cases h with
  | contract => exact ⟨[], (List.append_nil _).symm⟩
  | callAnswered _ _ _ h | payoutAnswered _ _ _ _ h =>
    cases h with
    | failed | refused => exact ⟨[], (List.append_nil _).symm⟩
    | executed => exact ⟨_, rfl⟩
  | others h _ => exact h.history_grows

theorem ExchangeStep.fit_back (h : ExchangeStep cfg bank_id s s')
    (hf : Bank.CyclesFit s'.bank.history) : Bank.CyclesFit s.bank.history := by
  obtain ⟨es, hes⟩ := h.history_grows
  rw [Bank.CyclesFit, hes, Bank.acceptedOrMinted_append] at hf
  exact ⟨by omega, hf.2.of_append⟩

theorem refines_init (h : ExchangeInit cfg bank_id held s) : Refines cfg bank_id held s := by
  obtain ⟨hbank, token_fee, positions_module_hash, trades_module_hash, token_ledger, htc⟩ := h
  refine ⟨?_, hbank, ?_⟩
  · rw [htc]
    exact .start ⟨_, _, _, _, rfl⟩
  · rw [htc]
    rfl

theorem refines_step (hr : Refines cfg bank_id held s) (hf : Bank.CyclesFit s.bank.history)
    (hf' : Bank.CyclesFit s'.bank.history) (h : ExchangeStep cfg bank_id s s') :
    Refines cfg bank_id held s' := by
  obtain ⟨htc, hbank, hl⟩ := hr
  have hb := Bank.books_kept hbank hf
  cases h with
  | contract h hsame _ => exact ⟨htc.next h, hbank, hsame.trans hl⟩
  | @callAnswered pre post c r b hc hreply hk h =>
    refine ⟨callAnswered_reachable htc hb hf.1 hl hc hreply hk h, h.reachable hbank, ?_⟩
    exact (congrArg _ hk.symm).trans (callAnswered_ledger _ _ _ _ _ _ _)
  | @payoutAnswered before after run q pre post p r b hruns hp hs hk h =>
    refine ⟨payoutAnswered_reachable htc hb hf.1 hl hruns hp hs hk h, h.reachable hbank, ?_⟩
    exact (congrArg _ hk.symm).trans (payoutAnswered_ledger _ _ _ _ _ _ _ _ _ _ _)
  | others h ho =>
    have hmoved := bank_step_moved hbank hf' h ho
    rw [← hl] at hmoved
    exact ⟨hmoved.reachable htc, hbank.next h, bankMoved_ledger _ _ _⟩

theorem refines_inv (hr : ExchangeReachable cfg bank_id held s) (hf : Bank.CyclesFit s.bank.history) :
    Refines cfg bank_id held s :=
  hr.invariant_while (P := fun s => Bank.CyclesFit s.bank.history) (fun _ _ h => h.fit_back)
    (fun _ h _ => refines_init h) (fun _ _ _ hf hf' hr h => refines_step hr hf hf' h) hf

end Cts.Exchange
