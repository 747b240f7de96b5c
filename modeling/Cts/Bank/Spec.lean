import Cts.Bank.System

/-!
# What one message does to the bank

One lemma for each piece of a method. The lemmas after this module use these and not the bodies.
-/

namespace Cts.Bank

open Lib

/-! ## Balances and logs -/

@[simp]
theorem add_cycles_balance_users (b : BankState) (i : IcrcId) (n : Nat) :
    (add_cycles_balance b i n).cb_data.users_mint_cycles = b.cb_data.users_mint_cycles := by cases b; rfl

@[simp]
theorem add_cycles_balance_logs (b : BankState) (i : IcrcId) (n : Nat) :
    (add_cycles_balance b i n).logs = b.logs := by cases b; rfl

@[simp]
theorem subtract_cycles_balance_users (b : BankState) (i : IcrcId) (n : Nat) :
    (subtract_cycles_balance b i n).cb_data.users_mint_cycles = b.cb_data.users_mint_cycles := by cases b; rfl

@[simp]
theorem subtract_cycles_balance_logs (b : BankState) (i : IcrcId) (n : Nat) :
    (subtract_cycles_balance b i n).logs = b.logs := by cases b; rfl

@[simp]
theorem insert_mint_users (b : BankState) (u : Principal) (d : MintCyclesMidCallData) :
    (insert_mint b u d).cb_data.users_mint_cycles = b.cb_data.users_mint_cycles.insert u d := by cases b; rfl

@[simp]
theorem insert_mint_logs (b : BankState) (u : Principal) (d : MintCyclesMidCallData) :
    (insert_mint b u d).logs = b.logs := by cases b; rfl

@[simp]
theorem remove_mint_users (b : BankState) (u : Principal) :
    (remove_mint b u).cb_data.users_mint_cycles = b.cb_data.users_mint_cycles.remove u := by cases b; rfl

@[simp]
theorem remove_mint_logs (b : BankState) (u : Principal) : (remove_mint b u).logs = b.logs := by cases b; rfl

/-- The bank after a log: the log at the end and some pointers. -/
def BankState.logged (b : BankState) (log : Log) (pointers : OrdMap Account (List Nat)) : BankState :=
  { b with logs := b.logs ++ [log], user_logs_pointers := pointers }

@[simp]
theorem logged_users (b : BankState) (log : Log) (pointers : OrdMap Account (List Nat)) :
    (b.logged log pointers).cb_data = b.cb_data := by cases b; rfl

@[simp]
theorem logged_logs (b : BankState) (log : Log) (pointers : OrdMap Account (List Nat)) :
    (b.logged log pointers).logs = b.logs ++ [log] := by cases b; rfl

/-! ## Transfers, cycles in and cycles out -/

theorem icrc1_transfer_ok {caller : Principal} {now : Nat} {q : Icrc1TransferQuest} {b b' : BankState}
    {height : Nat} (h : icrc1_transfer caller now q b = .ok (height, b')) :
    saturating_add q.amount BANK_TRANSFER_FEE ≤ cycles_balance b ⟨caller, q.from_subaccount⟩ ∧
      ∃ log pointers, log.tx.op = .Xfer ⟨caller, q.from_subaccount⟩ q.to ∧ log.tx.amt = q.amount ∧
        b' = (add_cycles_balance (subtract_cycles_balance b ⟨caller, q.from_subaccount⟩
          (saturating_add q.amount BANK_TRANSFER_FEE)) q.to q.amount).logged log pointers := by
  rw [icrc1_transfer] at h
  iterate 4
    split at h
    · cases h
  rename_i hbal
  refine ⟨not_lt.mp hbal, ?_⟩
  cases h
  split
  · exact ⟨_, _, rfl, rfl, rfl⟩
  · exact ⟨_, _, rfl, rfl, rfl⟩

theorem cycles_in_ok {caller : Principal} {now available : Nat} {q : CyclesInQuest}
    {b b' : BankState} {height : Nat} (h : cycles_in caller now available q b = .ok (height, b')) :
    cycles_in_accept q ≤ available ∧
      ∃ log pointers, log.tx.op = .Mint q.to (.CyclesIn caller) ∧ log.tx.amt = q.cycles ∧
        b' = (add_cycles_balance b q.to q.cycles).logged log pointers := by
  rw [cycles_in] at h
  iterate 4
    split at h
    · cases h
  rename_i hbal
  refine ⟨not_lt.mp hbal, ?_⟩
  cases h
  exact ⟨_, _, rfl, rfl, rfl⟩

/-- What a `cycles_out` takes from its account until it is resolved. -/
def CyclesOutCall.debit (c : CyclesOutCall) : Nat := saturating_add c.q.cycles BANK_TRANSFER_FEE

theorem cycles_out_ok {caller : Principal} {now : Nat} {q : CyclesOutQuest} {b b' : BankState}
    {c : CyclesOutCall} (h : cycles_out caller now q b = .ok (c, b')) :
    c = ⟨caller, q⟩ ∧ c.debit ≤ cycles_balance b c.caller_icrc_id ∧
      b' = subtract_cycles_balance b c.caller_icrc_id c.debit := by
  rw [cycles_out] at h
  iterate 4
    split at h
    · cases h
  rename_i hbal
  cases h
  exact ⟨rfl, not_lt.mp hbal, rfl⟩

theorem cycles_out_reply_ok (c : CyclesOutCall) (now : Nat) (b : BankState) :
    ∃ log pointers, log.tx.op = .Burn c.caller_icrc_id c.q.for_canister ∧ log.tx.amt = c.debit ∧
      (cycles_out_reply c (.ok ()) now b).2 = b.logged log pointers := by
  refine ⟨_, _, ?_, ?_, rfl⟩ <;> rfl

theorem cycles_out_reply_error (c : CyclesOutCall) (e : CallError) (now : Nat) (b : BankState) :
    (cycles_out_reply c (.error e) now b).2 = add_cycles_balance b c.caller_icrc_id c.debit := rfl

/-! ## Minting -/

/-- A record, or its copy in a call, that no reply of the minting canister has changed yet. -/
def Unminted (d : MintCyclesMidCallData) : Prop := d.fee = BANK_TRANSFER_FEE ∧ d.cmc_cycles = none

def mintLog (user_id : Principal) (d : MintCyclesMidCallData) (icp_block_height : Nat)
    (cmc_cycles : Nat) (now : Nat) : Log :=
  { ts := now, fee := log_fee d.quest.fee d.fee,
    tx := { op := .Mint d.quest.to (.CMC user_id icp_block_height), fee := d.quest.fee,
            amt := saturating_sub cmc_cycles d.fee, memo := d.quest.memo,
            ts := d.quest.created_at_time } }

theorem mint_cycles_credit_eq (user_id : Principal) (d : MintCyclesMidCallData) (now : Nat)
    (b : BankState) {cmc_cycles : Nat} {icp_block_height : Nat}
    (hc : d.cmc_cycles = some cmc_cycles)
    (hb : d.cmc_icp_transfer_block_height = some icp_block_height) :
    ∃ pointers success, mint_cycles_credit user_id d now b =
      ((remove_mint (add_cycles_balance b d.quest.to (saturating_sub cmc_cycles d.fee)) user_id).logged
        (mintLog user_id d icp_block_height cmc_cycles now) pointers,
        .minted icp_block_height cmc_cycles d.fee success) := by
  rw [mint_cycles_credit, hc, hb]
  exact ⟨_, _, rfl⟩

theorem mint_cycles_notify_cases (user_id id : Principal) (d : MintCyclesMidCallData)
    (canister_balance now : Nat) (b : BankState) {block_height : Nat} (hc : d.cmc_cycles = none)
    (hb : d.cmc_icp_transfer_block_height = some block_height) :
    (mint_cycles_notify user_id id d canister_balance now b =
        (b, .call ⟨user_id, d, .cmc_notify block_height id⟩) ∧
      MINIMUM_CANISTER_CYCLES_BALANCE_FOR_A_CMC_NOTIFY_MINT_CYCLES_CALL ≤ canister_balance) ∨
    ∃ e, mint_cycles_notify user_id id d canister_balance now b =
      (insert_mint b user_id { d with lock := false }, .failed e) := by
  rw [mint_cycles_notify, hc]
  simp only
  split_ifs with h
  · exact Or.inr ⟨_, rfl⟩
  · rw [hb]
    exact Or.inl ⟨rfl, not_lt.mp h⟩

theorem mint_cycles_ok {caller id : Principal} {canister_balance now : Nat} {q : MintCyclesQuest}
    {b : BankState} {r : BankState × MintProgress}
    (h : mint_cycles caller id canister_balance now q b = .ok r) :
    b.cb_data.users_mint_cycles.get caller = none ∧
      ∃ d args, Unminted d ∧ d.lock = true ∧ d.cmc_icp_transfer_block_height = none ∧
        r = (insert_mint b caller d, .call ⟨caller, d, .icp_transfer args⟩) := by
  rw [mint_cycles] at h
  iterate 7
    split at h
    · cases h
  rename_i hcheck
  split at h
  · cases h
  rw [check_if_user_is_in_the_middle_of_a_different_call] at hcheck
  split at hcheck
  · cases hcheck
  · rename_i hnone
    cases h
    exact ⟨hnone, _, _, ⟨rfl, rfl⟩, rfl, rfl, rfl⟩

theorem complete_mint_cycles_ok {for_user : Option Principal} {caller id : Principal}
    {canister_balance now : Nat} {b : BankState} {r : BankState × MintProgress}
    (h : complete_mint_cycles for_user caller id canister_balance now b = .ok r) :
    ∃ d, b.cb_data.users_mint_cycles.get (for_user.getD caller) = some d ∧ d.lock = false ∧
      r = mint_cycles_ (for_user.getD caller) id { d with lock := true } canister_balance now
        (insert_mint b (for_user.getD caller) { d with lock := true }) := by
  rw [complete_mint_cycles, complete_mint_cycles_] at h
  split at h
  · cases h
  · rename_i d hd
    split_ifs at h with hl
    cases h
    exact ⟨d, hd, by simpa using hl, rfl⟩

theorem mint_cycles_of_height (user_id id : Principal) (d : MintCyclesMidCallData)
    (canister_balance now : Nat) (b : BankState) {block_height : Nat}
    (hb : d.cmc_icp_transfer_block_height = some block_height) :
    mint_cycles_ user_id id d canister_balance now b =
      mint_cycles_notify user_id id d canister_balance now b := by
  rw [mint_cycles_, hb]

/-- What a piece of a mint does to the bank and to the call, for a user and a record of this user. -/
inductive MintPiece (user_id : Principal) (d : MintCyclesMidCallData) (b : BankState) :
    BankState × MintProgress → Prop
  | trapped : MintPiece user_id d b (b, .trap)
  | called (await : MintAwait) : MintPiece user_id d b (b, .call ⟨user_id, d, await⟩)
  | unlocked (e : MintCyclesError) :
      MintPiece user_id d b (insert_mint b user_id { d with lock := false }, .failed e)
  | removed (e : MintCyclesError) : MintPiece user_id d b (remove_mint b user_id, .failed e)
  | credited {b' : BankState} {log : Log} (cmc_cycles icp_block_height now : Nat)
      (hb : b' = remove_mint (add_cycles_balance b d.quest.to (saturating_sub cmc_cycles d.fee)) user_id)
      (hlog : log = mintLog user_id d icp_block_height cmc_cycles now) (success : MintCyclesSuccess) :
      MintPiece user_id d b (point_log (push_log b' log).2 d.quest.to (push_log b' log).1,
        .minted icp_block_height cmc_cycles d.fee success)

theorem mint_cycles_credit_piece (user_id : Principal) (d : MintCyclesMidCallData) (now : Nat)
    (b : BankState) : MintPiece user_id d b (mint_cycles_credit user_id d now b) := by
  unfold mint_cycles_credit
  split
  · exact .credited _ _ now rfl rfl _
  · exact .trapped

theorem mint_cycles_notify_piece (user_id id : Principal) (d : MintCyclesMidCallData)
    (canister_balance now : Nat) (b : BankState) :
    MintPiece user_id d b (mint_cycles_notify user_id id d canister_balance now b) := by
  unfold mint_cycles_notify
  split
  · exact mint_cycles_credit_piece user_id d now b
  · split_ifs
    · exact .unlocked _
    · split
      · exact .called _
      · exact .trapped

theorem mint_cycles_piece (user_id id : Principal) (d : MintCyclesMidCallData)
    (canister_balance now : Nat) (b : BankState) :
    MintPiece user_id d b (mint_cycles_ user_id id d canister_balance now b) := by
  unfold mint_cycles_
  split
  · exact .called _
  · exact mint_cycles_notify_piece user_id id d canister_balance now b

theorem mint_cycles_transferred_piece (c : MintCall) (id : Principal)
    (r : Except LedgerTopupCyclesCmcIcpTransferError Nat) (canister_balance now : Nat) (b : BankState) :
    ∃ d, d.quest = c.mid_call_data.quest ∧
      MintPiece c.user_id d b (mint_cycles_transferred c id r canister_balance now b) := by
  cases r with
  | ok block_height =>
    refine ⟨{ c.mid_call_data with cmc_icp_transfer_block_height := some block_height }, rfl, ?_⟩
    exact mint_cycles_notify_piece c.user_id id _ canister_balance now b
  | error e => exact ⟨c.mid_call_data, rfl, .removed _⟩

theorem mint_cycles_notified_piece (c : MintCall) (r : Except LedgerTopupCyclesCmcNotifyError Nat)
    (now : Nat) (b : BankState) :
    ∃ d, d.quest = c.mid_call_data.quest ∧
      MintPiece c.user_id d b (mint_cycles_notified c r now b) := by
  unfold mint_cycles_notified
  split
  · rename_i cmc_cycles
    refine ⟨{ c.mid_call_data with cmc_cycles := some cmc_cycles }, rfl, ?_⟩
    exact mint_cycles_credit_piece c.user_id _ now b
  · exact ⟨c.mid_call_data, rfl, .removed _⟩
  · exact ⟨c.mid_call_data, rfl, .unlocked _⟩

/-- The height and the user of an answer that ends a mint with a refund. -/
def refundedMint : BankEvent → Option (Principal × Nat)
  | .cmc_answered user_id block_height (.error (.CmcNotifyError (.Refunded (some _) _))) =>
    some (user_id, block_height)
  | _ => none

theorem mint_cycles_notified_cases (c : MintCall) (r : Except LedgerTopupCyclesCmcNotifyError Nat)
    (now : Nat) (b : BankState) {block_height : Nat}
    (hb : c.mid_call_data.cmc_icp_transfer_block_height = some block_height) :
    (∃ cmc_cycles pointers success, r = .ok cmc_cycles ∧ mint_cycles_notified c r now b =
      ((remove_mint (add_cycles_balance b c.mid_call_data.quest.to
          (saturating_sub cmc_cycles c.mid_call_data.fee)) c.user_id).logged
        (mintLog c.user_id c.mid_call_data block_height cmc_cycles now) pointers,
        .minted block_height cmc_cycles c.mid_call_data.fee success)) ∨
    (∃ e, refundedMint (.cmc_answered c.user_id block_height r) = some (c.user_id, block_height) ∧
      mint_cycles_notified c r now b = (remove_mint b c.user_id, .failed e)) ∨
    (∃ e, refundedMint (.cmc_answered c.user_id block_height r) = none ∧
      (∀ cmc_cycles, r ≠ .ok cmc_cycles) ∧
      mint_cycles_notified c r now b =
        (insert_mint b c.user_id { c.mid_call_data with lock := false }, .failed e)) := by
  cases r with
  | ok cmc_cycles =>
    obtain ⟨pointers, success, h⟩ := mint_cycles_credit_eq c.user_id
      { c.mid_call_data with cmc_cycles := some cmc_cycles } now b rfl hb
    exact Or.inl ⟨cmc_cycles, pointers, success, rfl, h⟩
  | error e =>
    refine Or.inr ?_
    by_cases hr : ∃ i reason, e = .CmcNotifyError (.Refunded (some i) reason)
    · obtain ⟨i, reason, rfl⟩ := hr
      exact Or.inl ⟨_, rfl, rfl⟩
    · refine Or.inr ⟨.MidCallError (.LedgerTopupCyclesCmcNotifyError e), ?_, by simp, ?_⟩
      · rw [refundedMint]
        rintro _ _ i reason he
        exact hr ⟨i, reason, by simp_all⟩
      · rw [mint_cycles_notified]
        rintro i reason rfl
        exact hr ⟨i, reason, rfl⟩

end Cts.Bank
