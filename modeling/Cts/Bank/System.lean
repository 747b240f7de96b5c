import Cts.Bank.Model
import Cts.Lib.Runs

/-!
# The bank and what it talks to

The bank's state with the cycles it holds, the calls that await a reply and what happened so far.
Each step is one message. The answers of the ICP ledger, of the cycles minting canister and of
`deposit_cycles` are free, and so is the cycles balance that a mint reads.
-/

namespace Cts.Bank

open Lib

inductive BankEvent
  | transferred
  | cycled_in (cycles : Nat)
  | cycled_out
  | cycles_out_failed
  | icp_transferred (user_id : Principal) (block_height : Nat)
  | cmc_topped_up (block_height : Nat) (cycles : Nat)
  | cmc_answered (user_id : Principal) (block_height : Nat)
      (r : Except LedgerTopupCyclesCmcNotifyError Nat)
  | minted (user_id : Principal) (block_height : Nat) (cmc_cycles fee : Nat)

structure BankSystem where
  bank : BankState
  held : Nat
  cycles_outs : List CyclesOutCall
  mints : List MintCall
  history : List BankEvent

def MintProgress.calls : MintProgress → List MintCall
  | .call c => [c]
  | _ => []

def MintProgress.events (user_id : Principal) : MintProgress → List BankEvent
  | .minted icp_block_height cmc_cycles fee _ => [.minted user_id icp_block_height cmc_cycles fee]
  | _ => []

/-- The system after a piece of a mint: its call, when it makes one, joins `mints`. -/
def BankSystem.afterMint (s : BankSystem) (mints : List MintCall) (events : List BankEvent)
    (user_id : Principal) (r : BankState × MintProgress) : BankSystem :=
  { s with
    bank := r.1
    mints := r.2.calls ++ mints
    history := s.history ++ events ++ r.2.events user_id }

def bankInit (held : Nat) (s : BankSystem) : Prop := s = ⟨.new, held, [], [], []⟩

/-- One message at the bank with the canister id `id`, or a top-up by the minting canister. -/
inductive BankStep (id : Principal) : BankSystem → BankSystem → Prop
  | icrc1_transfer {s : BankSystem} {caller : Principal} {now : Nat} {q : Icrc1TransferQuest}
      {height : Nat} {b : BankState}
      (h : icrc1_transfer caller now q s.bank = .ok (height, b)) :
      BankStep id s { s with bank := b, history := s.history ++ [.transferred] }
  | cycles_in {s : BankSystem} {caller : Principal} {now available : Nat} {q : CyclesInQuest}
      {height : Nat} {b : BankState} (havail : available < 2 ^ 128) (hq : q.cycles < 2 ^ 128)
      (h : cycles_in caller now available q s.bank = .ok (height, b)) :
      BankStep id s { s with
        bank := b
        held := s.held + cycles_in_accept q
        history := s.history ++ [.cycled_in q.cycles] }
  | cycles_out {s : BankSystem} {caller : Principal} {now : Nat} {q : CyclesOutQuest}
      {c : CyclesOutCall} {b : BankState} (hheld : q.cycles ≤ s.held)
      (h : cycles_out caller now q s.bank = .ok (c, b)) :
      BankStep id s { s with
        bank := b, held := s.held - q.cycles, cycles_outs := c :: s.cycles_outs }
  | cycles_out_deposited {s : BankSystem} {pre post : List CyclesOutCall} {c : CyclesOutCall}
      {now : Nat} (hc : s.cycles_outs = pre ++ c :: post) :
      BankStep id s { s with
        bank := (cycles_out_reply c (.ok ()) now s.bank).2
        cycles_outs := pre ++ post
        history := s.history ++ [.cycled_out] }
  | cycles_out_failed {s : BankSystem} {pre post : List CyclesOutCall} {c : CyclesOutCall}
      {now : Nat} {e : CallError} (hc : s.cycles_outs = pre ++ c :: post) :
      BankStep id s { s with
        bank := (cycles_out_reply c (.error e) now s.bank).2
        held := s.held + c.q.cycles
        cycles_outs := pre ++ post
        history := s.history ++ [.cycles_out_failed] }
  | mint_cycles {s : BankSystem} {caller : Principal} {canister_balance now : Nat}
      {q : MintCyclesQuest} {r : BankState × MintProgress}
      (h : mint_cycles caller id canister_balance now q s.bank = .ok r) (hr : r.2 ≠ .trap) :
      BankStep id s (s.afterMint s.mints [] caller r)
  | complete_mint_cycles {s : BankSystem} {for_user : Option Principal} {caller : Principal}
      {canister_balance now : Nat} {r : BankState × MintProgress}
      (h : complete_mint_cycles for_user caller id canister_balance now s.bank = .ok r)
      (hr : r.2 ≠ .trap) :
      BankStep id s (s.afterMint s.mints [] (for_user.getD caller) r)
  | icp_transfer_refused {s : BankSystem} {pre post : List MintCall} {c : MintCall}
      {args : IcpTransferArgs} {e : LedgerTopupCyclesCmcIcpTransferError} {canister_balance now : Nat}
      (hc : s.mints = pre ++ c :: post) (ha : c.await = .icp_transfer args) :
      BankStep id s (s.afterMint (pre ++ post) [] c.user_id
        (mint_cycles_transferred c id (.error e) canister_balance now s.bank))
  | icp_transferred {s : BankSystem} {pre post : List MintCall} {c : MintCall}
      {args : IcpTransferArgs} {block_height canister_balance now : Nat}
      (hc : s.mints = pre ++ c :: post) (ha : c.await = .icp_transfer args)
      (hr : (mint_cycles_transferred c id (.ok block_height) canister_balance now s.bank).2 ≠ .trap) :
      BankStep id s (s.afterMint (pre ++ post) [.icp_transferred c.user_id block_height] c.user_id
        (mint_cycles_transferred c id (.ok block_height) canister_balance now s.bank))
  | cmc_answered {s : BankSystem} {pre post : List MintCall} {c : MintCall} {block_index : Nat}
      {canister_id : Principal} {r : Except LedgerTopupCyclesCmcNotifyError Nat} {now : Nat}
      (hc : s.mints = pre ++ c :: post) (ha : c.await = .cmc_notify block_index canister_id)
      (hr : (mint_cycles_notified c r now s.bank).2 ≠ .trap) :
      BankStep id s (s.afterMint (pre ++ post) [.cmc_answered c.user_id block_index r] c.user_id
        (mint_cycles_notified c r now s.bank))
  | cmc_top_up {s : BankSystem} {block_height : Nat} {cycles : Nat} :
      BankStep id s { s with
        held := s.held + cycles, history := s.history ++ [.cmc_topped_up block_height cycles] }
  | clear_user_logs_pointers_cache {s : BankSystem} :
      BankStep id s { s with bank := controller_clear_user_logs_pointers_cache s.bank }

abbrev BankReachable (id : Principal) (held : Nat) : BankSystem → Prop :=
  Reachable (bankInit held) (BankStep id)

theorem BankStep.history_grows {id : Principal} {s s' : BankSystem} (h : BankStep id s s') :
    ∃ es, s'.history = s.history ++ es := by
  cases h
  case icrc1_transfer | cycles_in | cycles_out_deposited | cycles_out_failed | cmc_top_up =>
    exact ⟨_, rfl⟩
  case cycles_out | clear_user_logs_pointers_cache => exact ⟨[], by simp⟩
  all_goals exact ⟨_, List.append_assoc _ _ _⟩

/-! ## What a run is assumed to keep -/

/-- The heights the ICP ledger answered with. -/
def returnedHeights (history : List BankEvent) : List (Principal × Nat) :=
  history.filterMap fun
    | .icp_transferred user_id block_height => some (user_id, block_height)
    | _ => none

/-- Distinct ledger transfers have distinct heights. -/
def FreshHeights (history : List BankEvent) : Prop :=
  ((returnedHeights history).map Prod.snd).Nodup

def toppedUp (history : List BankEvent) : List (Nat × Nat) :=
  history.filterMap fun
    | .cmc_topped_up block_height cycles => some (block_height, cycles)
    | _ => none

/-- The minting canister tops up once for a block, by what it answers, before it answers. -/
def CmcHonest (history : List BankEvent) : Prop :=
  ((toppedUp history).map Prod.fst).Nodup ∧
    ∀ pre post user_id block_height cycles,
      history = pre ++ .cmc_answered user_id block_height (.ok cycles) :: post →
        (block_height, cycles) ∈ toppedUp pre

/-- The cycles that an event brings in: what `cycles_in` accepts, what the CMC minted. -/
def BankEvent.cyclesIn : BankEvent → Nat
  | .cycled_in cycles => saturating_add cycles BANK_TRANSFER_FEE
  | .minted _ _ cmc_cycles _ => cmc_cycles
  | _ => 0

def acceptedOrMinted (history : List BankEvent) : Nat := (history.map BankEvent.cyclesIn).sum

/-- No `cycles_in` asked for more cycles than a `u128` holds. -/
def CyclesInExact (history : List BankEvent) : Prop :=
  ∀ cycles, .cycled_in cycles ∈ history → cycles + BANK_TRANSFER_FEE < 2 ^ 128

theorem FreshHeights.of_append {h es : List BankEvent} (hf : FreshHeights (h ++ es)) : FreshHeights h := by
  rw [FreshHeights, returnedHeights, List.filterMap_append, List.map_append] at hf
  exact (List.nodup_append.mp hf).1

theorem CmcHonest.of_append {h es : List BankEvent} (hc : CmcHonest (h ++ es)) : CmcHonest h := by
  obtain ⟨hn, ha⟩ := hc
  rw [toppedUp, List.filterMap_append, List.map_append] at hn
  refine ⟨(List.nodup_append.mp hn).1, fun pre post user b c he => ?_⟩
  exact ha pre (post ++ es) user b c (by rw [he]; simp)

theorem acceptedOrMinted_append (h es : List BankEvent) :
    acceptedOrMinted (h ++ es) = acceptedOrMinted h + acceptedOrMinted es := by
  simp [acceptedOrMinted]

theorem CyclesInExact.of_append {h es : List BankEvent} (hc : CyclesInExact (h ++ es)) :
    CyclesInExact h := fun cycles hm => hc cycles (List.mem_append_left _ hm)

end Cts.Bank
