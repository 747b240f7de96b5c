import Cts.Tc.ExactRuns
import Cts.Tc.Locks
import Cts.Tc.Solvency

/-!
# What a user's call leaves

Only a trade whose transfer was executed touches the book. Any other call leaves the contract as it
was, but for the ledger fee that a `BadFee` answer tells.
-/

namespace Cts.Tc

open Lib

variable {cfg : TcConfig} {s s' : TcState}

/-! ## The two copies of a fee -/

/-- `CM_DATA` and the cells hold the same fees. -/
def FeesAgree (s : TcState) : Prop := ∀ kind, s.cm_data.ledger_transfer_fee kind = s.fees kind

theorem FeesAgree.of_same (h : FeesAgree s)
    (hcm : s'.cm_data.ledger_transfer_fee = s.cm_data.ledger_transfer_fee)
    (hfees : s'.fees = s.fees) : FeesAgree s' := by
  intro kind
  rw [hcm, hfees]
  exact h kind

theorem FeesAgree.replied (h : FeesAgree s) (kind : PositionKind) (r : LedgerTransferReturnType) :
    FeesAgree (s.ledger_transfer_replied kind r) := by
  intro k
  have hk := h k
  unfold TcState.ledger_transfer_replied CMData.set_ledger_transfer_fee
  cases kind <;> cases k <;> simp_all [CMData.ledger_transfer_fee]

theorem set_locks_fee (cm_data : CMData) (kind : PositionKind) (locks : Finset Principal) :
    (cm_data.set_mid_call_balance_locks kind locks).ledger_transfer_fee =
      cm_data.ledger_transfer_fee := by
  funext k
  cases k <;> rfl

theorem fee_of_same {cm_data cm_data' : CMData} {vcs vts : OrdMap PositionId VoidPosition}
    {tls : List TradeLogAndTemporaryData} (h : cm_data' = { cm_data with
      void_cycles_positions := vcs
      void_token_positions := vts
      trade_logs := tls }) : cm_data'.ledger_transfer_fee = cm_data.ledger_transfer_fee := by
  rw [h]
  funext kind
  cases kind <;> rfl

theorem fees_agree_step (h : FeesAgree s) (hstep : TcStep cfg s s') : FeesAgree s' := by
  cases hstep with
  | trade ht =>
    obtain ⟨rfl, -⟩ := _trade_spec ht
    exact h.of_same (set_locks_fee _ _ _) rfl
  | transfer_balance ht =>
    obtain ⟨rfl, -⟩ := _transfer_balance_spec ht
    exact h.of_same (set_locks_fee _ _ _) rfl
  | trade_failed => exact (h.replied _ _).of_same (set_locks_fee _ _ _) rfl
  | balance_replied => exact (h.replied _ _).of_same (set_locks_fee _ _ _) rfl
  | payout_replied => exact (h.replied _ _).of_same rfl rfl
  | trade_committed =>
    refine h.of_same ?_ rfl
    funext k
    cases k <;> rfl
  | void_position | do_payouts_replied | do_payouts_failed =>
    refine h.of_same ?_ rfl
    funext k
    cases k <;> rfl
  | payouts_started hp =>
    obtain ⟨vcs, vts, tls, hsame⟩ := (_do_payouts_spec hp).same
    exact h.of_same (fee_of_same hsame) rfl
  | payouts_ended hr hf =>
    obtain ⟨vcs, vts, tls, hsame⟩ := do_payouts_end_same _ s.cm_data
    exact h.of_same (fee_of_same hsame) rfl
  | _ => exact h.of_same rfl rfl

theorem fees_agree_inv (r : TcReachable cfg s) : FeesAgree s := by
  refine r.invariant (fun s hinit => ?_) fun _ _ _ h hstep => fees_agree_step h hstep
  obtain ⟨fees, positions_module_hash, trades_module_hash, ledger, rfl⟩ := hinit
  rintro (_ | _) <;> rfl

/-! ## The steps of a call -/

/-- A call of `trade_cycles` or `trade_tokens` up to its transfer, or to its refusal. -/
def TcState.trade (s : TcState) (cfg : TcConfig) (caller : Principal) (q : TradeQuest) :
    TcState × Option TradeError :=
  match _trade cfg s.fees s.positions_storage.data s.trades_storage.data s.cm_data caller q with
  | .ok cm_data => ({ s with cm_data := cm_data, calls := ⟨caller, .trade q, none⟩ :: s.calls }, none)
  | .error e => (s, some e)

/-- A call of `transfer_cycles_balance` or `transfer_token_balance`, likewise. -/
def TcState.transfer_balance (s : TcState) (caller : Principal) (kind : PositionKind)
    (q : TransferBalanceQuest) : TcState × Option TransferBalanceError :=
  match _transfer_balance s.cm_data caller kind with
  | .ok cm_data =>
    ({ s with cm_data := cm_data, calls := ⟨caller, .transfer_balance kind q, none⟩ :: s.calls }, none)
  | .error e => (s, some e)

/-- Positions, trade logs, candles, counters, both storages and the payouts are as before. -/
structure NoTrace (s s' : TcState) : Prop where
  book : s'.cm_data.toBook = s.cm_data.toBook
  counter : s'.cm_data.positions_id_counter = s.cm_data.positions_id_counter
  errors : s'.cm_data.do_payouts_errors = s.cm_data.do_payouts_errors
  positions : s'.positions_storage = s.positions_storage
  trades : s'.trades_storage = s.trades_storage
  runs : s'.runs = s.runs

/-- A call takes its caller's lock, which was free. -/
structure Begins (s s' : TcState) (c : UserCall) : Prop where
  calls : s'.calls = c :: s.calls
  free : c.caller ∉ s.cm_data.mid_call_balance_locks c.quest.kind
  locks : ∀ kind p, p ∈ s'.cm_data.mid_call_balance_locks kind ↔
    p ∈ s.cm_data.mid_call_balance_locks kind ∨ kind = c.quest.kind ∧ p = c.caller

/-- A call ends: its lock goes, and no other. -/
structure Ends (s s' : TcState) (c : UserCall) : Prop where
  calls : ∃ pre post, s.calls = pre ++ c :: post ∧ s'.calls = pre ++ post
  locks : ∀ kind p, p ∈ s'.cm_data.mid_call_balance_locks kind ↔
    p ∈ s.cm_data.mid_call_balance_locks kind ∧ ¬ (kind = c.quest.kind ∧ p = c.caller)

/-- One position is created, with a fresh id, out of what was transferred. -/
structure Creates (s s' : TcState) (caller : Principal) (kind : PositionKind) (amount : Nat) : Prop where
  fresh : s.cm_data.positions_id_counter ∉ s.positionIds
  ids : s'.positionIds = s.cm_data.positions_id_counter ::ₘ s.positionIds
  log : ∃ log : PositionLog, log.id = s.cm_data.positions_id_counter ∧ log.positor = caller ∧
    log.position_kind = kind ∧ log.quest.quantity = amount ∧
    s'.positions_storage = s.positions_storage.append log.stable_memory_serialize
  worth : ∀ k, s'.cm_data.worth k = s.cm_data.worth k + if k = kind then amount else 0

/-- What a step is to the users' calls. -/
inductive CallStep (cfg : TcConfig) (s s' : TcState) : Prop
  | begins (c : UserCall) (hreply : c.reply = none) (hbegins : Begins s s' c) (hfees : s'.fees = s.fees)
      (htrace : NoTrace s s')
  | answered {pre post : List UserCall} (c : UserCall) (r : LedgerTransferReturnType)
      (hreply : c.reply = none) (hcalls : s.calls = pre ++ c :: post)
      (hcalls' : s'.calls = pre ++ { c with reply := some r } :: post)
      (hlocks : s'.cm_data.mid_call_balance_locks = s.cm_data.mid_call_balance_locks)
      (hfees : s'.fees = s.fees) (htrace : NoTrace s s')
  | fails (c : UserCall) (r : LedgerTransferReturnType) (hreply : c.reply = some r)
      (hr : didExecute r = false) (hends : Ends s s' c)
      (hfees : s'.fees = Function.update s.fees c.quest.kind
        ((bad_fee r).getD (s.fees c.quest.kind)))
      (htrace : NoTrace s s')
  | transfers (c : UserCall) (kind : PositionKind) (q : TransferBalanceQuest) (block_height : Nat)
      (hquest : c.quest = .transfer_balance kind q) (hreply : c.reply = some (.ok (.ok block_height)))
      (hends : Ends s s' c) (hfees : s'.fees = s.fees) (htrace : NoTrace s s')
  | creates (c : UserCall) (q : TradeQuest) (block_height : Nat) (hquest : c.quest = .trade q)
      (hreply : c.reply = some (.ok (.ok block_height))) (hends : Ends s s' c)
      (hfees : s'.fees = s.fees)
      (hcreates : Creates s s' c.caller q.kind (c.transfer cfg.canister_id).amount)
  | other (hcalls : s'.calls = s.calls)

theorem mem_lock_balance (cm_data : CMData) (kind k : PositionKind) (caller p : Principal) :
    p ∈ (cm_data.lock_balance kind caller).mid_call_balance_locks k ↔
      p ∈ cm_data.mid_call_balance_locks k ∨ k = kind ∧ p = caller := by
  unfold CMData.lock_balance
  rw [CMData.set_mid_call_balance_locks_locks]
  split_ifs with hk
  · rw [hk, Finset.mem_insert]
    tauto
  · simp [hk]

theorem mem_unlock_balance (cm_data : CMData) (kind k : PositionKind) (caller p : Principal) :
    p ∈ (cm_data.unlock_balance kind caller).mid_call_balance_locks k ↔
      p ∈ cm_data.mid_call_balance_locks k ∧ ¬ (k = kind ∧ p = caller) := by
  unfold CMData.unlock_balance
  rw [CMData.set_mid_call_balance_locks_locks]
  split_ifs with hk
  · rw [hk, Finset.mem_erase]
    tauto
  · simp [hk]

theorem ends_of_unlocked {pre post : List UserCall} {c : UserCall} (hcalls : s.calls = pre ++ c :: post)
    (hcalls' : s'.calls = pre ++ post) (hlocks : s'.cm_data.mid_call_balance_locks =
      (s.cm_data.unlock_balance c.quest.kind c.caller).mid_call_balance_locks) : Ends s s' c := by
  refine ⟨⟨pre, post, hcalls, hcalls'⟩, fun kind p => ?_⟩
  rw [hlocks]
  exact mem_unlock_balance _ _ _ _ _

theorem create_position_log (q : TradeQuest) (id : PositionId) (positor : Principal) (now : Nat) :
    (q.position_log id positor now).positor = positor ∧
      (q.position_log id positor now).position_kind = q.kind ∧
      (q.position_log id positor now).quest.quantity = q.quantity := by
  cases q <;> exact ⟨rfl, rfl, rfl⟩

theorem commit_creates (hm : Market False s) {c : UserCall} (hc : c ∈ s.calls) {q : TradeQuest}
    (hq : c.quest = .trade q) (now : Nat) (instruction_counter : PositionId → Nat)
    {calls : List UserCall} (hcalls : ∀ d ∈ calls, d ∈ s.calls) :
    Creates s { s.commit (s.match_env cfg now instruction_counter) c.caller q with calls := calls }
      c.caller q.kind (c.transfer cfg.canister_id).amount := by
  have hadmitted := hm.admitted c hc q hq
  have hm' : Market False
      { s.commit (s.match_env cfg now instruction_counter) c.caller q with calls := calls } :=
    hm.commit False.elim hadmitted now instruction_counter c.caller hcalls
  have hok := hm.commit_ok cfg False.elim hadmitted now instruction_counter c.caller
  have hamount : (c.transfer cfg.canister_id).amount = q.quantity := by
    unfold UserCall.transfer
    rw [hq]
    rfl
  obtain ⟨hpositor, hkind, hquantity⟩ := create_position_log q s.cm_data.positions_id_counter c.caller now
  rw [hamount]
  refine ⟨?_, ?_, ⟨q.position_log s.cm_data.positions_id_counter c.caller now, ?_, hpositor, hkind,
    hquantity, rfl⟩, hok.worth⟩
  · rw [hm.ids]
    simp
  · rw [hm.ids, hm'.ids, Multiset.cons_coe]
    apply Multiset.coe_eq_coe.mpr
    have hnext : (s.commit (s.match_env cfg now instruction_counter) c.caller
        q).cm_data.positions_id_counter = s.cm_data.positions_id_counter + 1 := by
      cases q <;> rfl
    rw [hnext, List.range_succ]
    exact List.perm_append_singleton _ _
  · simp

theorem didExecute_ok {r : LedgerTransferReturnType} (h : didExecute r = true) :
    ∃ block_height, r = .ok (.ok block_height) := by
  match r with
  | .ok (.ok block_height) => exact ⟨block_height, rfl⟩
  | .ok (.error _) | .error _ => cases h

theorem call_step (r : TcReachable cfg s) (hstep : TcStep cfg s s') : CallStep cfg s s' := by
  have hm : Market False s := market_inv r False.elim
  cases hstep with
  | @trade caller q cm_data h =>
    obtain ⟨rfl, hok⟩ := _trade_spec h
    refine .begins ⟨caller, .trade q, none⟩ rfl ⟨rfl, hok.not_locked, fun k p => ?_⟩ rfl
      ⟨rfl, rfl, rfl, rfl, rfl, rfl⟩
    exact mem_lock_balance _ _ _ _ _
  | @transfer_balance caller kind q cm_data h =>
    obtain ⟨rfl, hfree, -⟩ := _transfer_balance_spec h
    refine .begins ⟨caller, .transfer_balance kind q, none⟩ rfl ⟨rfl, hfree, fun k p => ?_⟩ rfl
      ⟨rfl, rfl, rfl, rfl, rfl, rfl⟩
    exact mem_lock_balance _ _ _ _ _
  | deposit_executed block hc hr hq h =>
    exact .answered _ _ hr hc rfl rfl rfl ⟨rfl, rfl, rfl, rfl, rfl, rfl⟩
  | balance_executed block hc hr hq h =>
    exact .answered _ _ hr hc rfl rfl rfl ⟨rfl, rfl, rfl, rfl, rfl, rfl⟩
  | call_refused r hc hr hn =>
    exact .answered _ _ hr hc rfl rfl rfl ⟨rfl, rfl, rfl, rfl, rfl, rfl⟩
  | @trade_failed pre post c q r e hc hr hq he =>
    have hn : didExecute r = false := by rw [didExecute_of_posit, he]; rfl
    have hkind : c.quest.kind = q.kind := by rw [hq]; rfl
    refine .fails c r hr hn (ends_of_unlocked hc rfl ?_) ?_ ⟨rfl, rfl, rfl, rfl, rfl, rfl⟩
    · rw [hkind]
      funext k
      cases k <;> rfl
    · rw [hkind]
      rfl
  | @trade_committed pre post c q r now instruction_counter hc hr hq he =>
    obtain ⟨block_height, rfl⟩ := didExecute_ok (r := r) (by rw [didExecute_of_posit, he]; rfl)
    have hkind : c.quest.kind = q.kind := by rw [hq]; rfl
    refine .creates c q block_height hq hr (ends_of_unlocked hc rfl ?_) rfl
      (commit_creates hm (by rw [hc]; simp) hq now instruction_counter (calls_ended hc))
    rw [hkind]
    funext k
    cases k <;> rfl
  | @balance_replied pre post c kind q r hc hr hq =>
    have hkind : c.quest.kind = kind := by rw [hq]; rfl
    have hends : Ends s { s.ledger_transfer_replied kind r with
        cm_data := (_transfer_balance_end (s.ledger_transfer_replied kind r).cm_data c.caller kind r).1
        calls := pre ++ post } c := by
      refine ends_of_unlocked hc rfl ?_
      rw [hkind]
      funext k
      cases k <;> rfl
    cases hdone : didExecute r with
    | true =>
      obtain ⟨block_height, rfl⟩ := didExecute_ok hdone
      refine .transfers c kind q block_height hq hr hends ?_ ⟨rfl, rfl, rfl, rfl, rfl, rfl⟩
      exact Function.update_eq_self _ _
    | false =>
      refine .fails c r hr hdone hends ?_ ⟨rfl, rfl, rfl, rfl, rfl, rfl⟩
      rw [hkind]
      rfl
  | _ => exact .other rfl

/-! ## Every run -/

/-- The locks are those of the calls in flight, a fee has one value, and only a trade whose transfer was
executed leaves a trace. -/
structure CallsKept (cfg : TcConfig) (s : TcState) : Prop where
  locks : ∀ kind, (s.cm_data.mid_call_balance_locks kind).val = callers s.calls kind
  one : ∀ kind, (callers s.calls kind).Nodup
  fees : FeesAgree s
  trade : ∀ caller q, (∃ e, s.trade cfg caller q = (s, some e)) ∨
    caller ∉ callers s.calls q.kind ∧
      ∃ s', s.trade cfg caller q = (s', none) ∧ TcStep cfg s s'
  transfer_balance : ∀ caller kind q, (∃ e, s.transfer_balance caller kind q = (s, some e)) ∨
    caller ∉ callers s.calls kind ∧
      ∃ s', s.transfer_balance caller kind q = (s', none) ∧ TcStep cfg s s'
  steps : ∀ s', TcStep cfg s s' → CallStep cfg s s'

/-- Calls that fail leave no trace, and the locks match the calls. -/
theorem failed_calls_leave_no_trace (cfg : TcConfig) (s : TcState) (r : TcReachable cfg s) :
    CallsKept cfg s := by
  have hlocks := (locks_inv r).callers
  refine ⟨hlocks, (locked_inv r).nodup, fees_agree_inv r, fun caller q => ?_, fun caller kind q => ?_,
    fun s' => call_step r⟩
  · unfold TcState.trade
    split
    · rename_i cm_data h
      refine Or.inr ⟨?_, _, rfl, .trade h⟩
      rw [← hlocks]
      exact (_trade_spec h).2.not_locked
    · rename_i e h
      exact Or.inl ⟨e, rfl⟩
  · unfold TcState.transfer_balance
    split
    · rename_i cm_data h
      refine Or.inr ⟨?_, _, rfl, .transfer_balance h⟩
      rw [← hlocks]
      exact (_transfer_balance_spec h).2.1
    · rename_i e h
      exact Or.inl ⟨e, rfl⟩

theorem crossing_locks_its_caller : callers Sample.crossing.calls .Token = {Sample.B} ∧
    CallsKept Sample.config Sample.crossing := by
  refine ⟨by decide +kernel, failed_calls_leave_no_trace _ _ Sample.crossing_reachable.reachable⟩

end Cts.Tc
