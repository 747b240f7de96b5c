import Cts.Bank.LogBytes
import Cts.Exchange.Refines
import Cts.Exchange.Script
import Cts.Tc.Covered

/-!
# The bank does not refuse payouts

A payout names the fee of the bank, its log fits, and the positions account covers it, since the
contract is solvent.
-/

namespace Cts.Exchange

open Lib Lib.Jobs Tc

variable {cfg : TcConfig} {bank_id : Principal} {held : Nat} {s s' : ExchangeState}

/-! ## What the bank executes -/

/-- The log of a transfer. -/
def transferLog (caller : Principal) (now : Nat) (q : Icrc1TransferQuest) : Bank.Log :=
  { ts := now
    fee := Bank.log_fee q.fee Bank.BANK_TRANSFER_FEE
    tx :=
      { op := .Xfer ⟨caller, q.from_subaccount⟩ q.to
        fee := q.fee
        amt := q.amount
        memo := q.memo
        ts := q.created_at_time } }

theorem icrc1_transfer_logs {caller : Principal} {now height : Nat} {q : Icrc1TransferQuest}
    {b b' : Bank.BankState} (h : Bank.icrc1_transfer caller now q b = .ok (height, b')) :
    b'.logs = b.logs ++ [transferLog caller now q] := by
  rw [Bank.icrc1_transfer] at h
  iterate 4
    split at h
    · cases h
  cases h
  have hlogs : (Bank.add_cycles_balance (Bank.subtract_cycles_balance b ⟨caller, q.from_subaccount⟩
      (saturating_add q.amount Bank.BANK_TRANSFER_FEE)) q.to q.amount).logs = b.logs := by
    rw [Bank.add_cycles_balance_logs, Bank.subtract_cycles_balance_logs]
  split
  · exact congrArg (· ++ [transferLog caller now q]) hlogs
  · exact congrArg (· ++ [transferLog caller now q]) hlogs

theorem icrc1_transfer_height {caller : Principal} {now height : Nat} {q : Icrc1TransferQuest}
    {b b' : Bank.BankState} (h : Bank.icrc1_transfer caller now q b = .ok (height, b')) :
    height = b.logs.length := by
  rw [Bank.icrc1_transfer] at h
  iterate 4
    split at h
    · cases h
  cases h
  rw [Bank.add_cycles_balance_logs, Bank.subtract_cycles_balance_logs]

/-- At any time the bank moves the funds and the fee as a ledger does. The transfer is its next block,
and the log of it fits its slot. -/
def Executes (b : Bank.BankState) (caller : Principal) (q : Icrc1TransferQuest) : Prop :=
  ∀ now, ∃ bank, Bank.icrc1_transfer caller now q b = .ok (b.logs.length, bank) ∧
    bank.logs = b.logs ++ [transferLog caller now q] ∧
    (transferLog caller now q).value.size ≤ Bank.LOG_MAX_SIZE ∧
    Ledger.Executes (Bank.balanceAt b) caller q Bank.BANK_TRANSFER_FEE (Bank.balanceAt bank)

theorem positions_subaccount_size (owner : Principal) :
    Bank.IcrcId.subaccountSize ⟨owner, some POSITIONS_SUBACCOUNT⟩ = 35 := by
  have hcount : POSITIONS_SUBACCOUNT.bytes.countP (fun b => 128 ≤ b) = 0 := by decide
  unfold Bank.IcrcId.subaccountSize
  simp only [hcount]

theorem payout_log_fits (caller : Principal) {q : Icrc1TransferQuest} {m : List Byte} (now : Nat)
    (htime : q.created_at_time = none) (hmemo : q.memo = some m) (hm : m.length ≤ 18)
    (hsource : q.from_subaccount = some POSITIONS_SUBACCOUNT) :
    (transferLog caller now q).value.size ≤ Bank.LOG_MAX_SIZE := by
  have hquest : Bank.QuestChecked q.memo none := by
    refine ⟨fun m' hm' => ?_, rfl⟩
    rw [hmemo] at hm'
    obtain rfl := Option.some.inj hm'
    omega
  unfold transferLog
  rw [htime]
  refine (Bank.LogChecked.fits_iff (hquest.log _ _ _ _ _)).mpr ?_
  intro f t hop
  obtain ⟨rfl, rfl⟩ := Bank.Operation.Xfer.inj hop
  have hcaller := caller.length_le
  have hpayee := q.to.owner.length_le
  have hsub := Bank.subaccountSize_le q.to
  have htime := Bank.uintSize_le now
  simp only [hmemo, hsource, positions_subaccount_size, Bank.memoSize]
  omega

theorem executes_of_covered {b : Bank.BankSystem} (hb : Bank.Books b)
    (hfit : Bank.acceptedOrMinted b.history < 2 ^ 128) {caller : Principal} {q : Icrc1TransferQuest}
    {m : List Byte} (htime : q.created_at_time = none) (hmemo : q.memo = some m) (hm : m.length ≤ 18)
    (hfee : q.fee = some Bank.BANK_TRANSFER_FEE) (hsource : q.from_subaccount = some POSITIONS_SUBACCOUNT)
    (hfunds : q.amount + Bank.BANK_TRANSFER_FEE ≤
      Bank.balanceAt b.bank ⟨caller, POSITIONS_SUBACCOUNT⟩) : Executes b.bank caller q := by
  intro now
  have hlong : ¬ Bank.memo_too_long q.memo = true := by
    rw [hmemo]
    simp [Bank.memo_too_long]
    omega
  have hbad : ¬ Bank.bad_fee q.fee = true := by
    rw [hfee]
    simp [Bank.bad_fee]
  have hcover : ¬ Bank.cycles_balance b.bank ⟨caller, q.from_subaccount⟩ <
      saturating_add q.amount Bank.BANK_TRANSFER_FEE := by
    rw [hsource]
    change ¬ Bank.balanceAt b.bank ⟨caller, POSITIONS_SUBACCOUNT⟩ < _
    rw [saturating_add, Word.saturatingAdd]
    omega
  have hok : ∃ height bank, Bank.icrc1_transfer caller now q b.bank = .ok (height, bank) := by
    unfold Bank.icrc1_transfer
    rw [htime]
    simp only [if_neg hlong, if_neg hbad, if_neg hcover]
    exact ⟨_, _, rfl⟩
  obtain ⟨height, bank, hok⟩ := hok
  obtain rfl := icrc1_transfer_height hok
  exact ⟨bank, hok, icrc1_transfer_logs hok, payout_log_fits caller now htime hmemo hm hsource,
    icrc1_transfer_executes hb hfit hok⟩

/-! ## Answers that are under way -/

/-- No other fee than that of the bank is asked for. -/
def AsksBankFee (r : LedgerTransferReturnType) : Prop :=
  ∀ fee, Tc.bad_fee r = some fee → fee = Bank.BANK_TRANSFER_FEE

/-- The transfer was executed, or its call failed. -/
def NotRefused (r : LedgerTransferReturnType) : Prop := ∀ e, r ≠ .ok (.error e)

theorem NotRefused.asks (r : LedgerTransferReturnType) (h : NotRefused r) : AsksBankFee r := by
  intro fee hfee
  match r with
  | .ok (.ok block) => cases hfee
  | .ok (.error e) => exact absurd rfl (h e)
  | .error e => cases hfee

def AtBankFee (p : Payout) : Prop :=
  p.ledger_transfer_fee = Bank.BANK_TRANSFER_FEE ∧ ∀ r, p.state = .answered r → NotRefused r

/-- What a contract keeps of its dealings with the bank. -/
structure AtBank (tc : TcState) : Prop where
  fee : tc.fees .Cycles = Bank.BANK_TRANSFER_FEE
  calls : ∀ c ∈ tc.calls, c.quest.kind = .Cycles → ∀ r, c.reply = some r → AsksBankFee r
  payouts : ∀ run ∈ tc.runs, ∀ q : Queue, q.kind = .Cycles → ∀ p ∈ run.payouts q, AtBankFee p

section Contract

variable {tc tc' : TcState} {before after : List PayoutsRun} {run : PayoutsRun} {q : Queue}
  {pre post : List Payout} {p p' : Payout}

theorem callAnswered_sent {pre post : List UserCall} {c : UserCall} (r : LedgerTransferReturnType)
    (hc : tc.calls = pre ++ c :: post) (hr : c.reply = none) (hk : c.quest.kind = .Cycles) :
    cyclesCallsSent { tc with calls := pre ++ { c with reply := some r } :: post } <
      cyclesCallsSent tc := by
  simp [cyclesCallsSent, hc, hr, hk]

theorem payoutAnswered_sent (r : LedgerTransferReturnType) (hr : tc.runs = before ++ run :: after)
    (hp : run.payouts q = pre ++ p :: post) (hs : p.state = .sent) (hk : q.kind = .Cycles) :
    cyclesCallsSent
        { tc with
          runs := before ++ run.set_payouts q (pre ++ { p with state := .answered r } :: post) ::
            after } < cyclesCallsSent tc := by
  have hrun : cyclesPayoutsSent (run.set_payouts q
      (pre ++ { p with state := .answered r } :: post)) < cyclesPayoutsSent run := by
    unfold cyclesPayoutsSent
    rcases q with (_ | _) | (_ | _)
    · rw [run.set_payouts_self, run.set_payouts_of_ne (by simp), hp]
      simp [hs]
    · cases hk
    · rw [run.set_payouts_self, run.set_payouts_of_ne (by simp), hp]
      simp [hs]
    · cases hk
  simp only [cyclesCallsSent, hr, List.map_append, List.map_cons, List.sum_append, List.sum_cons]
  omega

theorem replied_fee {kind : PositionKind} {r : LedgerTransferReturnType}
    (h : tc.fees .Cycles = Bank.BANK_TRANSFER_FEE) (hr : kind = .Cycles → AsksBankFee r) :
    (tc.ledger_transfer_replied kind r).fees .Cycles = Bank.BANK_TRANSFER_FEE := by
  simp only [TcState.ledger_transfer_replied, Function.update_apply]
  split_ifs with hkind
  · subst hkind
    cases hfee : Tc.bad_fee r with
    | none => exact h
    | some fee => exact hr rfl fee hfee
  · exact h

theorem payouts_set (h : ∀ q : Queue, q.kind = .Cycles → ∀ p ∈ run.payouts q, AtBankFee p)
    (hp : run.payouts q = pre ++ p :: post) (hp' : q.kind = .Cycles → AtBankFee p → AtBankFee p') :
    ∀ q' : Queue, q'.kind = .Cycles → ∀ x ∈ (run.set_payouts q (pre ++ p' :: post)).payouts q',
      AtBankFee x := by
  intro q' hk
  by_cases hq : q' = q
  · subst hq
    have hold := h q' hk
    rw [hp] at hold
    rw [run.set_payouts_self]
    exact forall_mem_replaced hold (hp' hk)
  · rw [run.set_payouts_of_ne hq]
    exact h q' hk

theorem started_fee {cm_data : CMData} {data : LogStorageData}
    (hfee : tc.fees .Cycles = Bank.BANK_TRANSFER_FEE)
    (h : _do_payouts tc.fees tc.cm_data tc.positions_storage.data = some (cm_data, data, run)) :
    ∀ q : Queue, q.kind = .Cycles → ∀ p ∈ run.payouts q, AtBankFee p := by
  have hs := _do_payouts_spec h
  intro q hk p hp
  have heq : p = _do_payout p.id (tc.fees q.kind) p.quest := by
    cases q with
    | void kind => exact (hs.voids kind).payouts_eq p hp
    | trade kind => exact (hs.logs kind).payouts_eq p hp
  rw [hk, hfee] at heq
  rw [heq]
  refine ⟨rfl, fun r hr => ?_⟩
  unfold _do_payout at hr
  split_ifs at hr

theorem contract_step (h : AtBank tc) (hstep : TcStep cfg tc tc')
    (hsent : cyclesCallsSent tc ≤ cyclesCallsSent tc') : AtBank tc' := by
  obtain ⟨hfee, hcalls, hpayouts⟩ := h
  cases hstep with
  | trade | transfer_balance =>
    refine ⟨hfee, List.forall_mem_cons.mpr ⟨fun _ r hr => ?_, hcalls⟩, hpayouts⟩
    cases hr
  | @deposit_executed pre post c q fee l block hc hr hq hl =>
    rw [hc] at hcalls
    refine ⟨hfee, forall_mem_replaced hcalls fun _ _ r hr => ?_, hpayouts⟩
    obtain rfl := Option.some.inj hr
    exact NotRefused.asks _ fun _ => by simp
  | @balance_executed pre post c kind q fee l block hc hr hq hl =>
    rw [hc] at hcalls
    refine ⟨hfee, forall_mem_replaced hcalls fun _ _ r hr => ?_, hpayouts⟩
    obtain rfl := Option.some.inj hr
    exact NotRefused.asks _ fun _ => by simp
  | @call_refused pre post c r hc hr hn =>
    have hcalls' := hcalls
    rw [hc] at hcalls'
    refine ⟨hfee, forall_mem_replaced hcalls' fun _ hk r hr' => ?_, hpayouts⟩
    -- A call to the bank is answered by the bank alone.
    exact absurd hsent (not_le.mpr (callAnswered_sent _ hc hr hk))
  | @trade_failed pre post c q r e hc hr hq he =>
    rw [hc] at hcalls
    have hasks : q.kind = .Cycles → AsksBankFee r := by
      intro hk
      refine hcalls c (by simp) ?_ r hr
      rw [hq]
      exact hk
    exact ⟨replied_fee hfee hasks, fun c' hc' => hcalls c' (by simp at hc' ⊢; tauto), hpayouts⟩
  | @trade_committed pre post c q r now instruction_counter hc hr hq he =>
    rw [hc] at hcalls
    exact ⟨hfee, fun c' hc' => hcalls c' (by simp at hc' ⊢; tauto), hpayouts⟩
  | @balance_replied pre post c kind q r hc hr hq =>
    rw [hc] at hcalls
    have hasks : kind = .Cycles → AsksBankFee r := by
      intro hk
      refine hcalls c (by simp) ?_ r hr
      rw [hq]
      exact hk
    exact ⟨replied_fee hfee hasks, fun c' hc' => hcalls c' (by simp at hc' ⊢; tauto), hpayouts⟩
  | payouts_started hp =>
    refine ⟨hfee, hcalls, fun run hrun => ?_⟩
    rcases List.mem_append.mp hrun with hrun | hrun
    · exact hpayouts run hrun
    · rw [List.mem_singleton.mp hrun]
      exact started_fee hfee hp
  | @payout_executed before after run q pre post p fee l block hr hp hs hl =>
    rw [hr] at hpayouts
    refine ⟨hfee, hcalls, forall_mem_replaced hpayouts fun hrun => ?_⟩
    refine payouts_set hrun hp fun _ hp => ⟨hp.1, fun r hr => ?_⟩
    obtain rfl := PayoutState.answered.inj hr
    exact fun _ => by simp
  | @payout_refused before after run q pre post p r hr hp hs hn =>
    have hpayouts' := hpayouts
    rw [hr] at hpayouts'
    refine ⟨hfee, hcalls, forall_mem_replaced hpayouts' fun hrun => ?_⟩
    refine payouts_set hrun hp fun hk _ => ?_
    -- As for a call.
    exact absurd hsent (not_le.mpr (payoutAnswered_sent r hr hp hs hk))
  | @payout_replied before after run q pre post p r hr hp hs =>
    rw [hr] at hpayouts
    have hasks : q.kind = .Cycles → AsksBankFee r := by
      intro hk
      have hold := hpayouts run (by simp) q hk p (by rw [hp]; simp)
      exact NotRefused.asks r (hold.2 r hs)
    refine ⟨replied_fee hfee hasks, hcalls, forall_mem_replaced hpayouts fun hrun => ?_⟩
    exact payouts_set hrun hp fun _ hp => ⟨hp.1, fun r hr => by cases hr⟩
  | update_executed hr hu hs hsc hup =>
    rw [hr] at hpayouts
    exact ⟨hfee, hcalls, forall_mem_replaced hpayouts id⟩
  | update_failed e hr hu hs =>
    rw [hr] at hpayouts
    exact ⟨hfee, hcalls, forall_mem_replaced hpayouts id⟩
  | @payouts_ended before after run hr hf =>
    rw [hr] at hpayouts
    exact ⟨hfee, hcalls, fun run hrun => hpayouts run (by simp at hrun ⊢; tauto)⟩
  | void_position | others_transfer | others_mint | do_payouts | do_payouts_replied
  | do_payouts_failed | positions_flush | trades_flush =>
    exact ⟨hfee, hcalls, hpayouts⟩

end Contract

/-! ## The bank -/

theorem callAnswered_same (tc : TcState) (cfg : TcConfig) (pre post : List UserCall) (c : UserCall)
    (r : LedgerTransferReturnType) (l : Ledger) :
    (callAnswered tc cfg pre post c r l).fees = tc.fees ∧
      (callAnswered tc cfg pre post c r l).calls = pre ++ { c with reply := some r } :: post ∧
      (callAnswered tc cfg pre post c r l).runs = tc.runs := by
  unfold callAnswered
  cases c.quest with
  | trade q => exact ⟨rfl, rfl, rfl⟩
  | transfer_balance kind q => cases didExecute r <;> exact ⟨rfl, rfl, rfl⟩

theorem payoutAnswered_same (tc : TcState) (cfg : TcConfig) (before after : List PayoutsRun)
    (run : PayoutsRun) (q : Queue) (pre post : List Payout) (p : Payout)
    (r : LedgerTransferReturnType) (l : Ledger) :
    (payoutAnswered tc cfg before after run q pre post p r l).fees = tc.fees ∧
      (payoutAnswered tc cfg before after run q pre post p r l).calls = tc.calls ∧
      (payoutAnswered tc cfg before after run q pre post p r l).runs =
        before ++ run.set_payouts q (pre ++ { p with state := .answered r } :: post) :: after := by
  unfold payoutAnswered
  cases didExecute r <;> exact ⟨rfl, rfl, rfl⟩

theorem icrc1_transfer_bad_fee {caller : Principal} {now : Nat} {q : Icrc1TransferQuest}
    {b : Bank.BankState} {fee : Nat}
    (h : Bank.icrc1_transfer caller now q b = .err (.BadFee fee)) : fee = Bank.BANK_TRANSFER_FEE := by
  rw [Bank.icrc1_transfer] at h
  split at h
  · split_ifs at h <;> cases h
  · split at h
    · cases h
    · split at h
      · exact (Icrc1TransferError.BadFee.inj (Bank.Outcome.err.inj h)).symm
      · split at h
        · cases Bank.Outcome.err.inj h
        · cases h

theorem bank_asks_its_fee {caller : Principal} {q : Icrc1TransferQuest} {b b' : Bank.BankSystem}
    {r : LedgerTransferReturnType} (h : BankAnswers caller q b r b') : AsksBankFee r := by
  cases h with
  | failed e => exact NotRefused.asks _ fun _ => by simp
  | executed h => exact NotRefused.asks _ fun _ => by simp
  | @refused now e h =>
    intro fee hfee
    unfold Tc.bad_fee at hfee
    split at hfee
    · rename_i expected_fee heq
      obtain rfl := Except.error.inj (Except.ok.inj heq)
      obtain rfl := icrc1_transfer_bad_fee h
      exact (Option.some.inj hfee).symm
    · cases hfee

/-- A cycles payout that waits is executed when it arrives. -/
theorem waiting_executes (hr : Refines cfg bank_id held s) (hf : Bank.CyclesFit s.bank.history)
    (hb : AtBank s.tc) {run : PayoutsRun} (hrun : run ∈ s.tc.runs) {q : Queue} (hk : q.kind = .Cycles) {p : Payout}
    (hp : p ∈ run.payouts q) (hs : p.state = .sent) :
    Executes s.bank.bank cfg.canister_id p.transfer := by
  have hfee := (hb.payouts run hrun q hk p hp).1
  have hcovered := waiting_covered hr.tc hrun hp hs
  rw [hk, hr.ledger, hfee] at hcovered
  exact executes_of_covered (Bank.books_kept hr.bank hf) hf.1 rfl (waiting_memo hr.tc hrun hp)
    (q.memo_length_le p.id) (congrArg some hfee) rfl hcovered

theorem at_bank_step (hr : Refines cfg bank_id held s) (hf : Bank.CyclesFit s.bank.history)
    (h : AtBank s.tc) (hstep : ExchangeStep cfg bank_id s s') : AtBank s'.tc := by
  cases hstep with
  | contract htc _ hsent => exact contract_step h htc hsent
  | @callAnswered pre post c r b hc hreply hk ha =>
    obtain ⟨hfees, hcalls, hruns⟩ := callAnswered_same s.tc cfg pre post c r (Bank.balanceAt b.bank)
    have hold := h.calls
    rw [hc] at hold
    refine ⟨by rw [hfees]; exact h.fee, ?_, by rw [hruns]; exact h.payouts⟩
    rw [hcalls]
    refine forall_mem_replaced hold fun _ _ r' hr' => ?_
    obtain rfl := Option.some.inj hr'
    exact bank_asks_its_fee ha
  | @payoutAnswered before after run q pre post p r b hruns hp hs hk ha =>
    obtain ⟨hfees, hcalls, hruns'⟩ := payoutAnswered_same s.tc cfg before after run q pre post p r
      (Bank.balanceAt b.bank)
    have hold := h.payouts
    have hrun : run ∈ s.tc.runs := by
      rw [hruns]
      simp
    have hpayout : p ∈ run.payouts q := by
      rw [hp]
      simp
    have hexecutes := waiting_executes hr hf h hrun hk hpayout hs
    rw [hruns] at hold
    refine ⟨by rw [hfees]; exact h.fee, by rw [hcalls]; exact h.calls, ?_⟩
    rw [hruns']
    refine forall_mem_replaced hold fun hrun => payouts_set hrun hp fun _ hp => ⟨hp.1, fun r' hr' => ?_⟩
    obtain rfl := PayoutState.answered.inj hr'
    cases ha with
    | failed e => exact fun _ => by simp
    | executed _ => exact fun _ => by simp
    | @refused now e herr =>
      obtain ⟨bank, hok, -⟩ := hexecutes now
      rw [herr] at hok
      cases hok
  | others _ _ => exact ⟨h.fee, h.calls, h.payouts⟩

theorem at_bank_init (h : ExchangeInit cfg bank_id held s) : AtBank s.tc := by
  obtain ⟨-, token_fee, positions_module_hash, trades_module_hash, token_ledger, htc⟩ := h
  rw [htc]
  exact ⟨rfl, fun c hc => absurd hc List.not_mem_nil, fun run hrun => absurd hrun List.not_mem_nil⟩

theorem at_bank_inv (hr : ExchangeReachable cfg bank_id held s) (hf : Bank.CyclesFit s.bank.history) :
    AtBank s.tc :=
  hr.invariant_while (P := fun s => Bank.CyclesFit s.bank.history) (fun _ _ h => h.fit_back)
    (fun _ h _ => at_bank_init h) (fun _ _ hr hf _ h hstep => at_bank_step (refines_inv hr hf) hf h hstep) hf

/-! ## Every run -/

/-- With the bank as its cycles ledger, a contract and the bank are each in a state of their own, and
what the users have at the contract is on its account in the bank's books. -/
theorem contract_and_bank_agree (hr : ExchangeReachable cfg bank_id held s)
    (hf : Bank.CyclesFit s.bank.history) :
    Refines cfg bank_id held s ∧ s.tc.fees .Cycles = Bank.BANK_TRANSFER_FEE ∧
      s.tc.owed .Cycles ≤ Bank.balanceAt s.bank.bank cfg.positionsAccount := by
  have hrefines := refines_inv hr hf
  refine ⟨hrefines, (at_bank_inv hr hf).fee, ?_⟩
  rw [← hrefines.ledger]
  exact owed_le_ledger hrefines.tc .Cycles

theorem agree_while_waiting : Refines Tc.Sample.config Sample.bankId 0 Sample.waiting ∧
    Sample.waiting.tc.owed .Cycles ≤
      Bank.balanceAt Sample.waiting.bank.bank Tc.Sample.config.positionsAccount := by
  obtain ⟨hrefines, -, howed⟩ :=
    contract_and_bank_agree Sample.waiting_reachable Sample.waiting_fits
  exact ⟨hrefines, howed⟩

/-- The bank executes a cycles payout or its call fails, in every run, and one that waits is executed
when it arrives. -/
theorem bank_never_refuses_payouts (hr : ExchangeReachable cfg bank_id held s)
    (hf : Bank.CyclesFit s.bank.history) :
    ∀ run ∈ s.tc.runs, ∀ q : Queue, q.kind = .Cycles → ∀ p ∈ run.payouts q,
      (p.state = .sent → Executes s.bank.bank cfg.canister_id p.transfer) ∧
        ∀ r, p.state = .answered r → NotRefused r := by
  intro run hrun q hk p hp
  have hb := at_bank_inv hr hf
  exact ⟨waiting_executes (refines_inv hr hf) hf hb hrun hk hp, (hb.payouts run hrun q hk p hp).2⟩

theorem waiting_is_executed :
    ∃ run ∈ Sample.waiting.tc.runs, ∃ p ∈ run.payouts (.void .Cycles),
      Executes Sample.waiting.bank.bank Tc.Sample.config.canister_id p.transfer := by
  have hsome : (Sample.waiting.tc.runs.any fun run =>
      (run.payouts (.void .Cycles)).any Payout.isSent) = true := by decide +kernel
  obtain ⟨run, hrun, hany⟩ := List.any_eq_true.mp hsome
  obtain ⟨p, hp, hsent⟩ := List.any_eq_true.mp hany
  refine ⟨run, hrun, p, hp, ?_⟩
  refine (bank_never_refuses_payouts Sample.waiting_reachable Sample.waiting_fits run hrun
    (.void .Cycles) rfl p hp).1 ?_
  unfold Payout.isSent at hsent
  split at hsent
  · assumption
  · cases hsent

end Cts.Exchange
