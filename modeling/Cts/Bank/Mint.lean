import Cts.Bank.Spec
import Cts.Lib.Tickets

/-!
# Burned ICP is credited once and never forgotten

The mints are a ticket desk: the block height of the ICP transfer is the ticket, and a record with
`lock = false` is one that nobody works on. The log says that a ticket is settled.
-/

namespace Cts.Bank

open Lib Lib.Tickets

/-! ## The bank as a ticket desk -/

def callsOf (mints : List MintCall) (user_id : Principal) : List MintCall :=
  mints.filter (fun c => c.user_id = user_id)

/-- The record and the calls of one user, in each phase. -/
inductive MintAt : Option MintCyclesMidCallData → List MintCall → Phase Nat → Prop
  | idle : MintAt none [] .idle
  | transferring {d : MintCyclesMidCallData} {c : MintCall} {args : IcpTransferArgs}
      (hl : d.lock = true) (ha : c.await = .icp_transfer args) (hu : Unminted c.mid_call_data)
      (hb : c.mid_call_data.cmc_icp_transfer_block_height = none) : MintAt (some d) [c] .waiting
  | notifying {d : MintCyclesMidCallData} {c : MintCall} {block_index : Nat} {canister_id : Principal}
      (hl : d.lock = true) (ha : c.await = .cmc_notify block_index canister_id)
      (hu : Unminted c.mid_call_data)
      (hb : c.mid_call_data.cmc_icp_transfer_block_height = some block_index) :
      MintAt (some d) [c] (.held block_index true)
  | paused {d : MintCyclesMidCallData} {block_index : Nat} (hl : d.lock = false) (hu : Unminted d)
      (hb : d.cmc_icp_transfer_block_height = some block_index) :
      MintAt (some d) [] (.held block_index false)

def MintsAt (s : BankSystem) (phase : Principal → Phase Nat) : Prop :=
  ∀ u, MintAt (s.bank.cb_data.users_mint_cycles.get u) (callsOf s.mints u) (phase u)

/-- The mints that the log says were credited. -/
def creditedMints (logs : List Log) : List (Principal × Nat) :=
  logs.filterMap fun log =>
    match log.tx.op with
    | .Mint _ (.CMC caller icp_block_height) => some (caller, icp_block_height)
    | _ => none

def refundedMints (history : List BankEvent) : List (Principal × Nat) :=
  history.filterMap refundedMint

def mintDesk (s : BankSystem) (phase : Principal → Phase Nat) : Desk Principal Nat :=
  ⟨phase, returnedHeights s.history, creditedMints s.bank.logs, refundedMints s.history⟩

theorem callsOf_other {mints pre post : List MintCall} {c : MintCall} (hc : mints = pre ++ c :: post)
    {u : Principal} (hu : u ≠ c.user_id) : callsOf (pre ++ post) u = callsOf mints u := by
  simp [callsOf, hc, hu.symm]

theorem MintAt.calls_le {d : Option MintCyclesMidCallData} {l : List MintCall} {p : Phase Nat}
    (h : MintAt d l p) : l.length ≤ 1 := by
  cases h <;> simp

theorem MintAt.of_none {l : List MintCall} {p : Phase Nat} (h : MintAt none l p) :
    l = [] ∧ p = .idle := by
  cases h
  exact ⟨rfl, rfl⟩

theorem MintAt.of_unlocked {d : MintCyclesMidCallData} {l : List MintCall} {p : Phase Nat}
    (h : MintAt (some d) l p) (hl : d.lock = false) :
    l = [] ∧ Unminted d ∧
      ∃ b, d.cmc_icp_transfer_block_height = some b ∧ p = .held b false := by
  cases h with
  | transferring h1 | notifying h1 => simp [hl] at h1
  | paused h1 hu hb => exact ⟨rfl, hu, _, hb, rfl⟩

theorem MintAt.of_icp_transfer {d : Option MintCyclesMidCallData} {c : MintCall} {p : Phase Nat}
    {args : IcpTransferArgs} (h : MintAt d [c] p) (ha : c.await = .icp_transfer args) :
    Unminted c.mid_call_data ∧ p = .waiting ∧ ∃ r, d = some r ∧ r.lock = true := by
  cases h with
  | transferring hl _ hu _ => exact ⟨hu, rfl, _, rfl, hl⟩
  | notifying hl ha' => simp [ha] at ha'

theorem MintAt.of_cmc_notify {d : Option MintCyclesMidCallData} {c : MintCall} {p : Phase Nat}
    {b : Nat} {canister_id : Principal} (h : MintAt d [c] p) (ha : c.await = .cmc_notify b canister_id) :
    Unminted c.mid_call_data ∧ p = .held b true ∧
      c.mid_call_data.cmc_icp_transfer_block_height = some b := by
  cases h with
  | transferring _ ha' => simp [ha] at ha'
  | notifying _ ha' hu hb =>
    obtain ⟨rfl, -⟩ : b = _ ∧ canister_id = _ := by simpa [ha] using ha'
    exact ⟨hu, rfl, hb⟩

theorem callsOf_self {mints pre post : List MintCall} {c : MintCall} (hc : mints = pre ++ c :: post)
    {d : Option MintCyclesMidCallData} {p : Phase Nat} (h : MintAt d (callsOf mints c.user_id) p) :
    callsOf mints c.user_id = [c] ∧ callsOf (pre ++ post) c.user_id = [] := by
  have hsplit : callsOf mints c.user_id = callsOf pre c.user_id ++ c :: callsOf post c.user_id := by
    simp [callsOf, hc]
  have hlen := h.calls_le
  rw [hsplit, List.length_append, List.length_cons] at hlen
  have hpre : callsOf pre c.user_id = [] := List.length_eq_zero_iff.mp (by omega)
  have hpost : callsOf post c.user_id = [] := List.length_eq_zero_iff.mp (by omega)
  refine ⟨by rw [hsplit, hpre, hpost]; rfl, ?_⟩
  rw [callsOf, List.filter_append]
  exact List.append_eq_nil_iff.mpr ⟨hpre, hpost⟩

theorem MintsAt.change {s s' : BankSystem} {phase : Principal → Phase Nat} (h : MintsAt s phase)
    (k : Principal) (p : Phase Nat)
    (hk : MintAt (s'.bank.cb_data.users_mint_cycles.get k) (callsOf s'.mints k) p)
    (ho : ∀ u, u ≠ k →
      s'.bank.cb_data.users_mint_cycles.get u = s.bank.cb_data.users_mint_cycles.get u ∧
        callsOf s'.mints u = callsOf s.mints u) :
    MintsAt s' (Function.update phase k p) := by
  intro u
  by_cases hu : u = k
  · subst hu
    rwa [Function.update_self]
  · rw [Function.update_of_ne hu, (ho u hu).1, (ho u hu).2]
    exact h u

/-! ## One message is at most one move -/

@[simp]
theorem returnedHeights_append (h es : List BankEvent) :
    returnedHeights (h ++ es) = returnedHeights h ++ returnedHeights es := List.filterMap_append

@[simp]
theorem refundedMints_append (h es : List BankEvent) :
    refundedMints (h ++ es) = refundedMints h ++ refundedMints es := List.filterMap_append

/-- The phases after a message, and the move that it is. -/
def MintMoves (s s' : BankSystem) (phase : Principal → Phase Nat) : Prop :=
  ∃ phase', MintsAt s' phase' ∧ Move (mintDesk s phase) (mintDesk s' phase')

theorem mint_moves_stay {s s' : BankSystem} {phase : Principal → Phase Nat} (hp : MintsAt s phase)
    (hu : s'.bank.cb_data.users_mint_cycles = s.bank.cb_data.users_mint_cycles)
    (hm : s'.mints = s.mints) (hr : returnedHeights s'.history = returnedHeights s.history)
    (hf : refundedMints s'.history = refundedMints s.history)
    (hl : creditedMints s'.bank.logs = creditedMints s.bank.logs) : MintMoves s s' phase := by
  refine ⟨phase, fun u => ?_, ?_⟩
  · rw [hu, hm]
    exact hp u
  · rw [mintDesk, mintDesk, hr, hf, hl]
    exact .stay

/-- From a known height on: the call goes out with the record locked, or the record is unlocked. -/
theorem mint_at_notify (user_id id : Principal) {d : MintCyclesMidCallData} {block_height : Nat}
    (canister_balance now : Nat) {b : BankState} (hu : Unminted d)
    (hb : d.cmc_icp_transfer_block_height = some block_height)
    (hlock : ∃ r, b.cb_data.users_mint_cycles.get user_id = some r ∧ r.lock = true) :
    let r := mint_cycles_notify user_id id d canister_balance now b
    (∃ busy, MintAt (r.1.cb_data.users_mint_cycles.get user_id) (callsOf r.2.calls user_id)
      (.held block_height busy)) ∧
    (∀ u, u ≠ user_id → r.1.cb_data.users_mint_cycles.get u = b.cb_data.users_mint_cycles.get u ∧
      callsOf r.2.calls u = []) ∧
    r.2.events user_id = [] ∧ r.1.logs = b.logs := by
  obtain ⟨rec, hrec, hl⟩ := hlock
  rcases mint_cycles_notify_cases user_id id d canister_balance now b hu.2 hb with ⟨h, -⟩ | ⟨e, h⟩
  · rw [h]
    refine ⟨⟨true, ?_⟩, fun u hne => ⟨rfl, ?_⟩, rfl, rfl⟩
    · simp only [MintProgress.calls, callsOf, decide_true, List.filter_cons_of_pos, List.filter_nil, hrec]
      exact .notifying hl rfl hu hb
    · simp [MintProgress.calls, callsOf, hne.symm]
  · rw [h]
    refine ⟨⟨false, ?_⟩, fun u hne => ⟨?_, rfl⟩, rfl, rfl⟩
    · simp only [insert_mint_users, OrdMap.get_insert_self]
      exact .paused rfl hu hb
    · exact OrdMap.get_insert_of_ne _ _ hne

@[simp]
theorem callsOf_append (l l' : List MintCall) (u : Principal) :
    callsOf (l ++ l') u = callsOf l u ++ callsOf l' u := List.filter_append ..

theorem mint_moves_begin {s : BankSystem} {phase : Principal → Phase Nat} {caller id : Principal}
    {canister_balance now : Nat} {q : MintCyclesQuest} {r : BankState × MintProgress}
    (hp : MintsAt s phase) (h : mint_cycles caller id canister_balance now q s.bank = .ok r) :
    MintMoves s (s.afterMint s.mints [] caller r) phase := by
  obtain ⟨hnone, d, args, hu, hl, hb, rfl⟩ := mint_cycles_ok h
  have hk := hp caller
  rw [hnone] at hk
  obtain ⟨hcalls, hphase⟩ := hk.of_none
  refine ⟨_, hp.change caller .waiting ?_ fun u hne => ⟨?_, ?_⟩, ?_⟩
  · simp only [BankSystem.afterMint, insert_mint_users, OrdMap.get_insert_self, MintProgress.calls,
      callsOf_append, hcalls, List.append_nil]
    simp only [callsOf, decide_true, List.filter_cons_of_pos, List.filter_nil]
    exact .transferring hl rfl hu hb
  · exact OrdMap.get_insert_of_ne _ _ hne
  · simp [BankSystem.afterMint, MintProgress.calls, callsOf, hne.symm]
  · convert Move.ask (d := mintDesk s phase) hphase using 1
    simp [mintDesk, BankSystem.afterMint, MintProgress.events]

theorem mint_moves_resume {s : BankSystem} {phase : Principal → Phase Nat} {caller id : Principal}
    {for_user : Option Principal} {canister_balance now : Nat} {r : BankState × MintProgress}
    (hp : MintsAt s phase)
    (h : complete_mint_cycles for_user caller id canister_balance now s.bank = .ok r) :
    MintMoves s (s.afterMint s.mints [] (for_user.getD caller) r) phase := by
  obtain ⟨d, hd, hl, rfl⟩ := complete_mint_cycles_ok h
  generalize for_user.getD caller = k at *
  have hk := hp k
  rw [hd] at hk
  obtain ⟨hcalls, hu, b, hb, hphase⟩ := hk.of_unlocked hl
  rw [mint_cycles_of_height k id { d with lock := true } _ _ _ hb]
  obtain ⟨⟨busy, hat⟩, hother, hev, hlogs⟩ :=
    mint_at_notify k id (d := { d with lock := true }) canister_balance now
      (b := insert_mint s.bank k { d with lock := true }) hu hb ⟨_, OrdMap.get_insert_self _ _ _, rfl⟩
  refine ⟨_, hp.change k (.held b busy) ?_ fun u hne => ⟨?_, ?_⟩, ?_⟩
  · simpa [BankSystem.afterMint, hcalls] using hat
  · simpa [BankSystem.afterMint, OrdMap.get_insert_of_ne _ _ hne] using (hother u hne).1
  · simp [BankSystem.afterMint, (hother u hne).2]
  · convert Move.pass (d := mintDesk s phase) busy hphase using 1
    simp only [mintDesk, BankSystem.afterMint, hev, List.append_nil, Desk.mk.injEq, true_and, and_true]
    rw [hlogs, insert_mint_logs]

/-- A reply for a call that awaits: its record is locked and its user has no other call. -/
theorem call_of_mint {s : BankSystem} {phase : Principal → Phase Nat} {pre post : List MintCall}
    {c : MintCall} (hp : MintsAt s phase) (hc : s.mints = pre ++ c :: post) :
    MintAt (s.bank.cb_data.users_mint_cycles.get c.user_id) [c] (phase c.user_id) ∧
      callsOf (pre ++ post) c.user_id = [] := by
  obtain ⟨hself, hrest⟩ := callsOf_self hc (hp c.user_id)
  exact ⟨hself ▸ hp c.user_id, hrest⟩

theorem mint_moves_refused {s : BankSystem} {phase : Principal → Phase Nat} {pre post : List MintCall}
    {c : MintCall} {args : IcpTransferArgs} {e : LedgerTopupCyclesCmcIcpTransferError}
    {id : Principal} {canister_balance now : Nat} (hp : MintsAt s phase)
    (hc : s.mints = pre ++ c :: post) (ha : c.await = .icp_transfer args) :
    MintMoves s (s.afterMint (pre ++ post) [] c.user_id
      (mint_cycles_transferred c id (.error e) canister_balance now s.bank)) phase := by
  obtain ⟨hat, hrest⟩ := call_of_mint hp hc
  obtain ⟨-, hphase, -⟩ := hat.of_icp_transfer ha
  refine ⟨_, hp.change c.user_id .idle ?_ fun u hne => ⟨?_, ?_⟩, ?_⟩
  · simp only [BankSystem.afterMint, mint_cycles_transferred, MintProgress.calls, List.nil_append,
      hrest, remove_mint_users, OrdMap.get_remove_self]
    exact .idle
  · exact OrdMap.get_remove_of_ne _ hne
  · exact callsOf_other hc hne
  · convert Move.deny (d := mintDesk s phase) hphase using 1
    simp [mintDesk, BankSystem.afterMint, mint_cycles_transferred, MintProgress.events]

theorem mint_moves_transferred {s : BankSystem} {phase : Principal → Phase Nat}
    {pre post : List MintCall} {c : MintCall} {args : IcpTransferArgs} {id : Principal}
    {block_height canister_balance now : Nat} (hp : MintsAt s phase)
    (hc : s.mints = pre ++ c :: post) (ha : c.await = .icp_transfer args) :
    MintMoves s (s.afterMint (pre ++ post) [.icp_transferred c.user_id block_height] c.user_id
      (mint_cycles_transferred c id (.ok block_height) canister_balance now s.bank)) phase := by
  obtain ⟨hat, hrest⟩ := call_of_mint hp hc
  obtain ⟨hu, hphase, hrec⟩ := hat.of_icp_transfer ha
  obtain ⟨⟨busy, hat'⟩, hother, hev, hlogs⟩ :=
    mint_at_notify c.user_id id
      (d := { c.mid_call_data with cmc_icp_transfer_block_height := some block_height })
      canister_balance now (b := s.bank) hu rfl hrec
  refine ⟨_, hp.change c.user_id (.held block_height busy) ?_ fun u hne => ⟨?_, ?_⟩, ?_⟩
  · simpa [BankSystem.afterMint, mint_cycles_transferred, hrest] using hat'
  · exact (hother u hne).1
  · rw [BankSystem.afterMint, callsOf_append]
    exact (congrArg (· ++ _) (hother u hne).2).trans (callsOf_other hc hne)
  · convert Move.issue (d := mintDesk s phase) block_height busy hphase using 1
    simp only [mintDesk, BankSystem.afterMint, mint_cycles_transferred, hev, hlogs, List.append_nil,
      returnedHeights_append, refundedMints_append]
    simp [returnedHeights, refundedMints, refundedMint]

theorem mint_moves_answered {s : BankSystem} {phase : Principal → Phase Nat}
    {pre post : List MintCall} {c : MintCall} {block_index now : Nat} {canister_id : Principal}
    {r : Except LedgerTopupCyclesCmcNotifyError Nat} (hp : MintsAt s phase)
    (hc : s.mints = pre ++ c :: post) (ha : c.await = .cmc_notify block_index canister_id) :
    MintMoves s (s.afterMint (pre ++ post) [.cmc_answered c.user_id block_index r] c.user_id
      (mint_cycles_notified c r now s.bank)) phase := by
  obtain ⟨hat, hrest⟩ := call_of_mint hp hc
  obtain ⟨hu, hphase, hb⟩ := hat.of_cmc_notify ha
  rcases mint_cycles_notified_cases c r now s.bank hb with
    ⟨cmc_cycles, pointers, success, rfl, h⟩ | ⟨e, href, h⟩ | ⟨e, href, -, h⟩
  · rw [h]
    refine ⟨_, hp.change c.user_id .idle ?_ fun u hne => ⟨?_, ?_⟩, ?_⟩
    · simp only [BankSystem.afterMint, MintProgress.calls, List.nil_append, hrest, logged_users,
        remove_mint_users, OrdMap.get_remove_self]
      exact .idle
    · exact OrdMap.get_remove_of_ne _ hne
    · exact callsOf_other hc hne
    · convert Move.settle (d := mintDesk s phase) hphase using 1
      simp [mintDesk, BankSystem.afterMint, MintProgress.events, returnedHeights, refundedMints,
        refundedMint, creditedMints, mintLog]
  · rw [h]
    refine ⟨_, hp.change c.user_id .idle ?_ fun u hne => ⟨?_, ?_⟩, ?_⟩
    · simp only [BankSystem.afterMint, MintProgress.calls, List.nil_append, hrest, remove_mint_users,
        OrdMap.get_remove_self]
      exact .idle
    · exact OrdMap.get_remove_of_ne _ hne
    · exact callsOf_other hc hne
    · convert Move.refund (d := mintDesk s phase) hphase using 1
      simp [mintDesk, BankSystem.afterMint, MintProgress.events, returnedHeights, refundedMints, href]
  · rw [h]
    refine ⟨_, hp.change c.user_id (.held block_index false) ?_ fun u hne => ⟨?_, ?_⟩, ?_⟩
    · simp only [BankSystem.afterMint, MintProgress.calls, List.nil_append, hrest, insert_mint_users,
        OrdMap.get_insert_self]
      exact .paused rfl hu hb
    · exact OrdMap.get_insert_of_ne _ _ hne
    · exact callsOf_other hc hne
    · convert Move.pass (d := mintDesk s phase) false hphase using 1
      simp [mintDesk, BankSystem.afterMint, MintProgress.events, returnedHeights, refundedMints, href]

theorem mint_moves {id : Principal} {s s' : BankSystem} {phase : Principal → Phase Nat}
    (hp : MintsAt s phase) (h : BankStep id s s') : MintMoves s s' phase := by
  cases h with
  | icrc1_transfer h =>
    obtain ⟨-, log, pointers, hop, -, rfl⟩ := icrc1_transfer_ok h
    exact mint_moves_stay hp (by simp) rfl (by simp [returnedHeights])
      (by simp [refundedMints, refundedMint]) (by simp [creditedMints, hop])
  | cycles_in _ _ h =>
    obtain ⟨-, log, pointers, hop, -, rfl⟩ := cycles_in_ok h
    exact mint_moves_stay hp (by simp) rfl (by simp [returnedHeights])
      (by simp [refundedMints, refundedMint]) (by simp [creditedMints, hop])
  | cycles_out _ h =>
    obtain ⟨-, -, rfl⟩ := cycles_out_ok h
    exact mint_moves_stay hp (by simp) rfl rfl rfl (by simp)
  | @cycles_out_deposited pre post c now hc =>
    obtain ⟨log, pointers, hop, -, h⟩ := cycles_out_reply_ok c now s.bank
    rw [h]
    exact mint_moves_stay hp (by simp) rfl (by simp [returnedHeights])
      (by simp [refundedMints, refundedMint]) (by simp [creditedMints, hop])
  | @cycles_out_failed pre post c now e hc =>
    rw [cycles_out_reply_error]
    exact mint_moves_stay hp (by simp) rfl (by simp [returnedHeights])
      (by simp [refundedMints, refundedMint]) (by simp)
  | mint_cycles h _ => exact mint_moves_begin hp h
  | complete_mint_cycles h _ => exact mint_moves_resume hp h
  | icp_transfer_refused hc ha => exact mint_moves_refused hp hc ha
  | icp_transferred hc ha _ => exact mint_moves_transferred hp hc ha
  | cmc_answered hc ha _ => exact mint_moves_answered hp hc ha
  | cmc_top_up =>
    exact mint_moves_stay hp rfl rfl (by simp [returnedHeights])
      (by simp [refundedMints, refundedMint]) rfl
  | clear_user_logs_pointers_cache => exact mint_moves_stay hp rfl rfl rfl rfl rfl

/-! ## Every run -/

theorem mints_at {id : Principal} {held : Nat} {s : BankSystem} (hr : BankReachable id held s) :
    ∃ phase, MintsAt s phase := by
  refine hr.invariant (I := fun s => ∃ phase, MintsAt s phase) ?_ ?_
  · rintro s rfl
    exact ⟨fun _ => .idle, fun _ => .idle⟩
  · rintro s s' - ⟨phase, hp⟩ h
    obtain ⟨phase', hp', -⟩ := mint_moves hp h
    exact ⟨phase', hp'⟩

theorem mints_kept {id : Principal} {held : Nat} {s : BankSystem} (hr : BankReachable id held s)
    (hf : FreshHeights s.history) : ∃ phase, MintsAt s phase ∧ (mintDesk s phase).Kept := by
  refine Reachable.invariant_while (P := fun s : BankSystem => FreshHeights s.history)
    (I := fun s => ∃ phase, MintsAt s phase ∧ (mintDesk s phase).Kept) ?_ ?_ ?_ hr hf
  · intro s s' h hf
    obtain ⟨es, hes⟩ := h.history_grows
    rw [hes] at hf
    exact hf.of_append
  · rintro s rfl -
    exact ⟨fun _ => .idle, fun _ => .idle, kept_empty⟩
  · rintro s s' - - hf ⟨phase, hp, hk⟩ h
    obtain ⟨phase', hp', hm⟩ := mint_moves hp h
    exact ⟨phase', hp', kept_move hf hk hm⟩

theorem MintsAt.users_nodup {s : BankSystem} {phase : Principal → Phase Nat} (h : MintsAt s phase) :
    (s.mints.map MintCall.user_id).Nodup := by
  rw [List.nodup_iff_count_le_one]
  intro u
  rw [List.count_eq_countP, List.countP_map, List.countP_eq_length_filter]
  convert (h u).calls_le using 2
  exact List.filter_congr fun c _ => beq_eq_decide c.user_id u

/-- A call that carries the height `b` awaits its reply, with the user's record locked. -/
def MintInFlight (s : BankSystem) (user_id : Principal) (b : Nat) : Prop :=
  ∃ c ∈ s.mints, c.user_id = user_id ∧ c.mid_call_data.cmc_icp_transfer_block_height = some b ∧
    ∃ d, s.bank.cb_data.users_mint_cycles.get user_id = some d ∧ d.lock = true

def MintPaused (s : BankSystem) (user_id : Principal) (b : Nat) : Prop :=
  ∃ d, s.bank.cb_data.users_mint_cycles.get user_id = some d ∧ d.lock = false ∧
    d.cmc_icp_transfer_block_height = some b

/-- Whoever calls `complete_mint_cycles` for the user, the minting canister is asked about `b`,
and an answer `Ok` credits it. -/
def CanComplete (id : Principal) (s : BankSystem) (user_id : Principal) (b : Nat) : Prop :=
  ∀ caller canister_balance now,
    MINIMUM_CANISTER_CYCLES_BALANCE_FOR_A_CMC_NOTIFY_MINT_CYCLES_CALL ≤ canister_balance →
    ∃ bank c, complete_mint_cycles (some user_id) caller id canister_balance now s.bank =
        .ok (bank, .call c) ∧
      c.user_id = user_id ∧ c.await = .cmc_notify b id ∧
      ∀ cmc_cycles now', creditedMints (mint_cycles_notified c (.ok cmc_cycles) now' bank).1.logs =
        creditedMints s.bank.logs ++ [(user_id, b)]

theorem MintsAt.in_flight {s : BankSystem} {phase : Principal → Phase Nat} (h : MintsAt s phase)
    {u : Principal} {b : Nat} (hp : phase u = .held b true) : MintInFlight s u b := by
  have hu := h u
  rw [hp] at hu
  generalize hd : s.bank.cb_data.users_mint_cycles.get u = d at hu
  generalize hl : callsOf s.mints u = l at hu
  cases hu with
  | @notifying d c _ _ hlock _ _ hb =>
    have hc : c ∈ callsOf s.mints u := by rw [hl]; exact List.mem_singleton_self c
    obtain ⟨hmem, huser⟩ := List.mem_filter.mp hc
    exact ⟨c, hmem, by simpa using huser, hb, d, hd, hlock⟩

theorem MintsAt.paused {s : BankSystem} {phase : Principal → Phase Nat} (h : MintsAt s phase)
    {u : Principal} {b : Nat} (hp : phase u = .held b false) (id : Principal) :
    MintPaused s u b ∧ CanComplete id s u b := by
  have hu := h u
  rw [hp] at hu
  generalize hd : s.bank.cb_data.users_mint_cycles.get u = d at hu
  generalize callsOf s.mints u = l at hu
  cases hu with
  | @paused d _ hlock hun hb =>
    refine ⟨⟨d, hd, hlock, hb⟩, fun caller canister_balance now hcb => ?_⟩
    have hgo : complete_mint_cycles (some u) caller id canister_balance now s.bank =
        .ok (insert_mint s.bank u { d with lock := true },
          .call ⟨u, { d with lock := true }, .cmc_notify b id⟩) := by
      rw [complete_mint_cycles, complete_mint_cycles_, Option.getD_some, hd]
      simp only [hlock, Bool.false_eq_true, if_false]
      rw [mint_cycles_of_height u id { d with lock := true } _ _ _ hb]
      simp only [mint_cycles_notify, hun.2, if_neg (not_lt.mpr hcb), hb]
    refine ⟨_, _, hgo, rfl, rfl, fun cmc_cycles now' => ?_⟩
    obtain ⟨pointers, success, hc⟩ := mint_cycles_credit_eq u
      { d with lock := true, cmc_cycles := some cmc_cycles } now'
      (insert_mint s.bank u { d with lock := true }) rfl hb
    rw [mint_cycles_notified, hc]
    simp [creditedMints, mintLog]

/-- Each user has at most one mint in flight, each height is credited at most once and to the user
it was returned for, and a returned height stays with its user until it is credited or refunded. -/
theorem burned_icp_is_credited_once_and_kept {id : Principal} {held : Nat} {s : BankSystem}
    (hr : BankReachable id held s) (hf : FreshHeights s.history) :
    (s.mints.map MintCall.user_id).Nodup ∧
      ((creditedMints s.bank.logs).map Prod.snd).Nodup ∧
      (∀ e ∈ creditedMints s.bank.logs, e ∈ returnedHeights s.history) ∧
      ∀ user_id b, (user_id, b) ∈ returnedHeights s.history →
        (user_id, b) ∈ creditedMints s.bank.logs ∨ (user_id, b) ∈ refundedMints s.history ∨
          MintInFlight s user_id b ∨ (MintPaused s user_id b ∧ CanComplete id s user_id b) := by
  obtain ⟨phase, hp, hk⟩ := mints_kept hr hf
  refine ⟨hp.users_nodup, hk.settled_once, hk.settled_issued, fun u b hb => ?_⟩
  refine (hk.kept u b hb).imp_right (Or.imp_right fun ht => ?_)
  change (phase u).ticket = some b at ht
  cases hphase : phase u with
  | idle | waiting => simp [hphase] at ht
  | held t busy =>
    obtain rfl : t = b := by simpa [hphase] using ht
    cases busy with
    | true => exact Or.inl (hp.in_flight hphase)
    | false => exact Or.inr (hp.paused hphase id)

/-! A run: a user burns ICP, and the ledger answers with height 7. -/

def someUser : Principal := .of_byte 1

def bankId : Principal := .of_byte 2

def someMint : MintCyclesQuest :=
  { burn_icp := MINIMUM_BURN_ICP, burn_icp_transfer_fee := 10000, «to» := ⟨someUser, none⟩,
    fee := none, memo := none, created_at_time := none }

def mintBegun : BankSystem :=
  (⟨.new, 0, [], [], []⟩ : BankSystem).afterMint [] [] someUser
    ((mint_cycles someUser bankId (2 * TRILLION) 0 someMint .new).getD (.new, .trap))

def transferCall : MintCall :=
  let d : MintCyclesMidCallData :=
    { start_time_nanos := 0, lock := true, quest := someMint, fee := BANK_TRANSFER_FEE,
      cmc_icp_transfer_block_height := none, cmc_cycles := none }
  ⟨someUser, d, .icp_transfer (ledger_topup_cycles_cmc_icp_transfer d someUser bankId 0)⟩

def mintTransferred : BankSystem :=
  mintBegun.afterMint [] [.icp_transferred someUser 7] someUser
    (mint_cycles_transferred transferCall bankId (.ok 7) (2 * TRILLION) 0 mintBegun.bank)

theorem mintTransferred_reachable : BankReachable bankId 0 mintTransferred := by
  have hok := Outcome.eq_ok (o := mint_cycles someUser bankId (2 * TRILLION) 0 someMint .new)
    (.new, .trap) (by decide +kernel)
  have hbegin : BankStep bankId ⟨.new, 0, [], [], []⟩ mintBegun :=
    .mint_cycles hok (by decide +kernel)
  have hreply : BankStep bankId mintBegun mintTransferred :=
    .icp_transferred (c := transferCall) (show mintBegun.mints = [] ++ transferCall :: [] by
      decide +kernel) rfl (by decide +kernel)
  exact .next (.next (.start rfl) hbegin) hreply

theorem burned_icp_kept_in_flight :
    (someUser, 7) ∈ creditedMints mintTransferred.bank.logs ∨
      (someUser, 7) ∈ refundedMints mintTransferred.history ∨
      MintInFlight mintTransferred someUser 7 ∨
      (MintPaused mintTransferred someUser 7 ∧ CanComplete bankId mintTransferred someUser 7) :=
  (burned_icp_is_credited_once_and_kept mintTransferred_reachable
    (show List.Nodup _ by decide +kernel)).2.2.2 someUser 7 (by decide +kernel)

end Cts.Bank
