import Cts.Bank.Books

/-!
# The bank is fully backed

The cycles the bank holds are its supply, the fees of what it completed, the fees of the
`cycles_out` calls in flight and what the minting canister sent ahead of its credit.
-/

namespace Cts.Bank

open Lib

/-- The fee that an event leaves with the bank. -/
def BankEvent.fee : BankEvent → Nat
  | .transferred => BANK_TRANSFER_FEE
  | .cycled_in _ => BANK_TRANSFER_FEE
  | .cycled_out => BANK_TRANSFER_FEE
  | .minted _ _ cmc_cycles fee => min fee cmc_cycles
  | _ => 0

def completedFees (history : List BankEvent) : Nat := (history.map BankEvent.fee).sum

/-- The top-ups whose block is not among the `credited` ones. -/
def uncredited (topped : List (Nat × Nat)) (credited : List Nat) : Nat :=
  ((topped.filter fun e => e.1 ∉ credited).map Prod.snd).sum

/-- Cycles from the minting canister that arrived and are not credited yet. -/
def arrivedUncredited (s : BankSystem) : Nat :=
  uncredited (toppedUp s.history) ((creditedMints s.bank.logs).map Prod.snd)

structure Backing (held : Nat) (s : BankSystem) : Prop where
  held_eq : s.held = held + balancesSum s.bank + completedFees s.history +
    BANK_TRANSFER_FEE * s.cycles_outs.length + arrivedUncredited s
  credited_topped : ∀ e ∈ creditedMints s.bank.logs, e.2 ∈ (toppedUp s.history).map Prod.fst

/-! ## Top-ups and credits -/

@[simp]
theorem completedFees_append (h es : List BankEvent) :
    completedFees (h ++ es) = completedFees h + completedFees es := by
  simp [completedFees]

@[simp]
theorem completedFees_nil : completedFees [] = 0 := rfl

@[simp]
theorem completedFees_cons (e : BankEvent) (es : List BankEvent) :
    completedFees (e :: es) = e.fee + completedFees es := by
  simp [completedFees]

@[simp]
theorem toppedUp_append (h es : List BankEvent) : toppedUp (h ++ es) = toppedUp h ++ toppedUp es :=
  List.filterMap_append

theorem uncredited_append (topped topped' : List (Nat × Nat)) (credited : List Nat) :
    uncredited (topped ++ topped') credited =
      uncredited topped credited + uncredited topped' credited := by
  simp [uncredited]

theorem uncredited_irrelevant {topped : List (Nat × Nat)} {b : Nat} (h : b ∉ topped.map Prod.fst)
    (credited : List Nat) : uncredited topped (credited ++ [b]) = uncredited topped credited := by
  rw [uncredited, uncredited]
  congr 2
  refine List.filter_congr fun e he => ?_
  have hne : e.1 ≠ b := fun heq => h (heq ▸ List.mem_map_of_mem he)
  simp [hne]

theorem uncredited_credit {topped : List (Nat × Nat)} {credited : List Nat} {b c : Nat}
    (hn : (topped.map Prod.fst).Nodup) (hmem : (b, c) ∈ topped) (hopen : b ∉ credited) :
    uncredited topped credited = c + uncredited topped (credited ++ [b]) := by
  obtain ⟨l₁, l₂, rfl⟩ := List.append_of_mem hmem
  simp only [List.map_append, List.map_cons, List.nodup_middle, List.nodup_cons, List.mem_append,
    not_or] at hn
  have hhead : ∀ l, uncredited ((b, c) :: l) credited = c + uncredited l credited := by
    simp [uncredited, hopen]
  have hhead' : ∀ l, uncredited ((b, c) :: l) (credited ++ [b]) = uncredited l (credited ++ [b]) := by
    simp [uncredited]
  rw [uncredited_append, uncredited_append, hhead, hhead', uncredited_irrelevant hn.1.1,
    uncredited_irrelevant hn.1.2]
  omega

/-! ## Every step -/

theorem Backing.move {held : Nat} {s s' : BankSystem} (hb : Backing held s)
    (hc : creditedMints s'.bank.logs = creditedMints s.bank.logs)
    (ht : toppedUp s'.history = toppedUp s.history)
    (h : s'.held + balancesSum s.bank + completedFees s.history +
        BANK_TRANSFER_FEE * s.cycles_outs.length =
      s.held + balancesSum s'.bank + completedFees s'.history +
        BANK_TRANSFER_FEE * s'.cycles_outs.length) : Backing held s' := by
  have hheld := hb.held_eq
  refine ⟨?_, by rw [hc, ht]; exact hb.credited_topped⟩
  have harr : arrivedUncredited s' = arrivedUncredited s := by
    rw [arrivedUncredited, arrivedUncredited, hc, ht]
  omega

theorem Backing.quiet {held : Nat} {s : BankSystem} (hb : Backing held s) {user_id : Principal}
    {r : BankState × MintProgress} (hq : Quiet s.bank user_id r) (mints : List MintCall)
    {es : List BankEvent} (hes : completedFees es = 0) (ht : toppedUp es = []) :
    Backing held (s.afterMint mints es user_id r) := by
  obtain ⟨hsame, hev⟩ := hq
  refine hb.move ?_ ?_ ?_
  · rw [BankSystem.afterMint, hsame.2.2]
  · simp [BankSystem.afterMint, hev, ht]
  · simp [BankSystem.afterMint, hev, hes, hsame.balancesSum]

theorem Backing.cmc_answered {held : Nat} {s : BankSystem} (hb : Backing held s) (hbooks : Books s)
    {phase : Principal → Tickets.Phase Nat} (hp : MintsAt s phase) (hk : (mintDesk s phase).Kept)
    {pre post : List MintCall} {c : MintCall} {block_index now : Nat} {canister_id : Principal}
    {r : Except LedgerTopupCyclesCmcNotifyError Nat} (hc : s.mints = pre ++ c :: post)
    (ha : c.await = .cmc_notify block_index canister_id)
    (hfit : acceptedOrMinted (s.afterMint (pre ++ post) [.cmc_answered c.user_id block_index r]
      c.user_id (mint_cycles_notified c r now s.bank)).history < 2 ^ 128)
    (hcmc : CmcHonest (s.afterMint (pre ++ post) [.cmc_answered c.user_id block_index r] c.user_id
      (mint_cycles_notified c r now s.bank)).history) :
    Backing held (s.afterMint (pre ++ post) [.cmc_answered c.user_id block_index r] c.user_id
      (mint_cycles_notified c r now s.bank)) := by
  obtain ⟨hu, hphase, hblock⟩ := (call_of_mint hp hc).1.of_cmc_notify ha
  rcases mint_cycles_notified_cases c r now s.bank hblock with
    ⟨cmc_cycles, pointers, success, rfl, h⟩ | ⟨e, -, h⟩ | ⟨e, -, -, h⟩
  · rw [h] at hfit hcmc ⊢
    simp only [BankSystem.afterMint, MintProgress.events, acceptedOrMinted_append,
      acceptedOrMinted_cons, acceptedOrMinted_nil, BankEvent.cyclesIn] at hfit
    have hbound := hbooks.bound
    have hsub : saturating_sub cmc_cycles c.mid_call_data.fee =
      cmc_cycles - c.mid_call_data.fee := rfl
    obtain ⟨-, hsum, -⟩ := add_cycles_balance_spec hbooks.supply c.mid_call_data.quest.to
      (n := saturating_sub cmc_cycles c.mid_call_data.fee) (by omega)
    have hsame := remove_mint_books (add_cycles_balance s.bank c.mid_call_data.quest.to
      (saturating_sub cmc_cycles c.mid_call_data.fee)) c.user_id
    have htopped : (block_index, cmc_cycles) ∈ toppedUp s.history :=
      hcmc.2 s.history _ c.user_id block_index cmc_cycles (by simp [BankSystem.afterMint]; rfl)
    have hnodup := (hcmc.of_append.of_append).1
    -- The height is held by this mint, so no log has credited it yet.
    have hopen : block_index ∉ (creditedMints s.bank.logs).map Prod.snd :=
      hk.held_open c.user_id block_index (by simp [Tickets.Desk.ticket, mintDesk, hphase])
    have hun := uncredited_credit hnodup htopped hopen
    have hheld := hb.held_eq
    have hlogs : creditedMints ((remove_mint (add_cycles_balance s.bank c.mid_call_data.quest.to
        (saturating_sub cmc_cycles c.mid_call_data.fee)) c.user_id).logged
        (mintLog c.user_id c.mid_call_data block_index cmc_cycles now) pointers).logs =
        creditedMints s.bank.logs ++ [(c.user_id, block_index)] := by
      simp [creditedMints, mintLog]
    have htop : toppedUp (s.history ++ [.cmc_answered c.user_id block_index (.ok cmc_cycles)] ++
        [.minted c.user_id block_index cmc_cycles c.mid_call_data.fee]) = toppedUp s.history := by
      simp [toppedUp]
    refine ⟨?_, fun e he => ?_⟩
    · simp only [arrivedUncredited, BankSystem.afterMint, MintProgress.events, hlogs, htop,
        List.map_append, List.map_cons, List.map_nil, balancesSum_logged, hsame.balancesSum,
        completedFees_append, completedFees_cons, completedFees_nil, BankEvent.fee, hsum]
      rw [arrivedUncredited] at hheld
      rw [hsub]
      omega
    · simp only [BankSystem.afterMint, MintProgress.events, hlogs, htop] at he ⊢
      rcases List.mem_append.mp he with he | he
      · exact hb.credited_topped e he
      · obtain rfl : e = (c.user_id, block_index) := by simpa using he
        exact List.mem_map_of_mem htopped
  · rw [h]
    exact hb.quiet ⟨remove_mint_books _ _, rfl⟩ _ rfl rfl
  · rw [h]
    exact hb.quiet ⟨insert_mint_books _ _ _, rfl⟩ _ rfl rfl

theorem backing_step {id : Principal} {held : Nat} {s s' : BankSystem}
    {phase : Principal → Tickets.Phase Nat} (hp : MintsAt s phase) (hk : (mintDesk s phase).Kept)
    (hbooks : Books s) (hfit : CyclesFit s.history) (hfit' : CyclesFit s'.history)
    (hcmc : CmcHonest s'.history) (hb : Backing held s) (h : BankStep id s s') : Backing held s' := by
  cases h with
  | icrc1_transfer h =>
    obtain ⟨-, -, hsum, -, log, hlogs, hop, -⟩ := hbooks.transfer_effect hfit.1 h
    refine hb.move (by simp [hlogs, creditedMints, hop]) (by simp [toppedUp]) ?_
    simp only [completedFees_append, completedFees_cons, completedFees_nil, BankEvent.fee]
    omega
  | cycles_in _ _ h =>
    obtain ⟨hcut, -, hsum, -, log, hlogs, hop, -⟩ := hbooks.cycles_in_effect hfit' h
    refine hb.move (by simp [hlogs, creditedMints, hop]) (by simp [toppedUp]) ?_
    simp only [completedFees_append, completedFees_cons, completedFees_nil, BankEvent.fee, hcut]
    omega
  | cycles_out hheld h =>
    -- The cycles leave with the call, and its fee waits for the reply.
    obtain ⟨hq, hdebit, -, hsum, -, hlogs⟩ := hbooks.cycles_out_effect hfit.1 h
    refine hb.move (by simp [hlogs]) rfl ?_
    rw [hq] at hdebit
    simp only [List.length_cons, Nat.mul_add]
    omega
  | @cycles_out_deposited pre post c now hc =>
    obtain ⟨log, pointers, hop, -, h⟩ := cycles_out_reply_ok c now s.bank
    refine hb.move (by simp [h, creditedMints, hop]) (by simp [toppedUp]) ?_
    simp only [h, hc, balancesSum_logged, completedFees_append, completedFees_cons,
      completedFees_nil, BankEvent.fee, List.length_append, List.length_cons, Nat.mul_add]
    omega
  | @cycles_out_failed pre post c now e hc =>
    obtain ⟨-, hsum, -⟩ := hbooks.refund hfit.1 hc
    have hdebit := hbooks.outs c (by simp [hc])
    rw [hdebit] at hsum
    rw [cycles_out_reply_error]
    refine hb.move (by simp) (by simp [toppedUp]) ?_
    simp only [hc, hdebit, hsum, completedFees_append, completedFees_cons, completedFees_nil,
      BankEvent.fee, List.length_append, List.length_cons, Nat.mul_add]
    omega
  | mint_cycles h _ => exact hb.quiet (mint_cycles_quiet h) _ rfl rfl
  | complete_mint_cycles h _ => exact hb.quiet (complete_mint_cycles_quiet hp h) _ rfl rfl
  | icp_transfer_refused hc ha => exact hb.quiet ⟨remove_mint_books _ _, rfl⟩ _ rfl rfl
  | @icp_transferred pre post c args block_height canister_balance now hc ha _ =>
    have hu := ((call_of_mint hp hc).1.of_icp_transfer ha).1
    exact hb.quiet (mint_cycles_notify_quiet c.user_id id
      (d := { c.mid_call_data with cmc_icp_transfer_block_height := some block_height })
      canister_balance now s.bank hu.2 rfl) _ rfl rfl
  | cmc_answered hc ha _ => exact hb.cmc_answered hbooks hp hk hc ha hfit'.1 hcmc
  | @cmc_top_up block_height cycles =>
    -- A block that is credited was topped up before, so this one is not credited.
    have hnodup := hcmc.1
    simp only [toppedUp_append, List.map_append, List.nodup_append] at hnodup
    have hopen : block_height ∉ (creditedMints s.bank.logs).map Prod.snd := by
      intro hm
      obtain ⟨e, he, rfl⟩ := List.mem_map.mp hm
      exact hnodup.2.2 _ (hb.credited_topped e he) e.2 (by simp [toppedUp]) rfl
    have hheld := hb.held_eq
    have htop : toppedUp [.cmc_topped_up block_height cycles] = [(block_height, cycles)] := rfl
    refine ⟨?_, fun e he => ?_⟩
    · simp only [arrivedUncredited, toppedUp_append, htop, uncredited_append] at hheld ⊢
      simp only [completedFees_append, completedFees_cons, completedFees_nil, BankEvent.fee,
        uncredited, hopen, not_false_eq_true, decide_true, List.filter_cons_of_pos, List.filter_nil,
        List.map_cons, List.map_nil, List.sum_cons, List.sum_nil] at hheld ⊢
      omega
    · rw [toppedUp_append, List.map_append]
      exact List.mem_append_left _ (hb.credited_topped e he)
  | clear_user_logs_pointers_cache => exact hb.move rfl rfl rfl

/-! ## Every run -/

/-- The bank holds its supply and exactly the fees and the cycles that are not credited yet. -/
def Backed (held : Nat) (s : BankSystem) : Prop :=
  s.bank.cb_data.total_supply ≤ s.held ∧
    s.held - s.bank.cb_data.total_supply = held + completedFees s.history +
      BANK_TRANSFER_FEE * s.cycles_outs.length + arrivedUncredited s

theorem bank_is_backed {id : Principal} {held : Nat} {s : BankSystem}
    (hr : BankReachable id held s) (hsum : acceptedOrMinted s.history < 2 ^ 128)
    (hexact : CyclesInExact s.history) (hf : FreshHeights s.history) (hcmc : CmcHonest s.history) :
    Backed held s := by
  have hb : Backing held s := by
    refine Reachable.invariant_while
      (P := fun s : BankSystem => CyclesFit s.history ∧ FreshHeights s.history ∧ CmcHonest s.history)
      (I := Backing held) ?_ ?_ ?_ hr ⟨⟨hsum, hexact⟩, hf, hcmc⟩
    · rintro s s' h ⟨hfit, hf, hcmc⟩
      obtain ⟨es, hes⟩ := h.history_grows
      rw [hes] at hf hcmc
      exact ⟨hfit.back h, hf.of_append, hcmc.of_append⟩
    · rintro s rfl -
      exact ⟨rfl, by simp [creditedMints, BankState.new]⟩
    · rintro s s' hr ⟨hfit, hf, -⟩ ⟨hfit', -, hcmc'⟩ hb h
      obtain ⟨phase, hp, hk⟩ := mints_kept hr hf
      exact backing_step hp hk (books_kept hr hfit) hfit hfit' hcmc' hb h
  have hheld := hb.held_eq
  have hs : s.bank.cb_data.total_supply = balancesSum s.bank := (books_kept hr ⟨hsum, hexact⟩).supply
  rw [Backed]
  omega

/-! The run of `mintTransferred` goes on: the minting canister tops up, answers, and is credited. -/

def notifyCall : MintCall :=
  { transferCall with
    mid_call_data.cmc_icp_transfer_block_height := some 7
    await := .cmc_notify 7 bankId }

def toppedUpFor7 : BankSystem :=
  { mintTransferred with
    held := mintTransferred.held + 5 * TRILLION
    history := mintTransferred.history ++ [.cmc_topped_up 7 (5 * TRILLION)] }

def mintCredited : BankSystem :=
  toppedUpFor7.afterMint ([] ++ []) [.cmc_answered someUser 7 (.ok (5 * TRILLION))] someUser
    (mint_cycles_notified notifyCall (.ok (5 * TRILLION)) 0 toppedUpFor7.bank)

theorem mintCredited_reachable : BankReachable bankId 0 mintCredited := by
  have hanswer : BankStep bankId toppedUpFor7 mintCredited :=
    .cmc_answered (c := notifyCall) (show toppedUpFor7.mints = [] ++ notifyCall :: [] by
      decide +kernel) rfl (by decide +kernel)
  exact .next (.next mintTransferred_reachable .cmc_top_up) hanswer

theorem mintCredited_history : mintCredited.history =
    [.icp_transferred someUser 7, .cmc_topped_up 7 (5 * TRILLION),
      .cmc_answered someUser 7 (.ok (5 * TRILLION)),
      .minted someUser 7 (5 * TRILLION) BANK_TRANSFER_FEE] := rfl

theorem mintCredited_honest : CmcHonest mintCredited.history := by
  rw [mintCredited_history]
  refine ⟨by decide +kernel, fun pre post user b c h => ?_⟩
  match pre with
  | [] => simp at h
  | [_] => simp at h
  | [_, _] =>
    obtain ⟨rfl, rfl, ⟨rfl, rfl, rfl⟩, -⟩ := by simpa using h
    simp [toppedUp]
  | [_, _, _] => simp at h
  | _ :: _ :: _ :: _ :: _ => simp at h

theorem mintCredited_backed : Backed 0 mintCredited :=
  bank_is_backed mintCredited_reachable (by decide +kernel)
    (by rw [mintCredited_history]; intro c h; simp at h)
    (show List.Nodup _ by decide +kernel) mintCredited_honest

/-- After a `cycles_in` whose request was cut to a word the bank has taken no fee. -/
theorem fee_missing_when_cut :
    ¬ ∀ (id : Principal) (held : Nat) (s : BankSystem), BankReachable id held s →
      acceptedOrMinted s.history < 2 ^ 128 → FreshHeights s.history → CmcHonest s.history →
        Backed held s := by
  intro h
  have hr : BankReachable bankId 0 (broughtIn (2 ^ 128 - 1) (2 ^ 128 - 1)) :=
    broughtIn_reachable (by decide +kernel) (by decide +kernel) (by decide +kernel)
  have hcmc : CmcHonest (broughtIn (2 ^ 128 - 1) (2 ^ 128 - 1)).history := by
    refine ⟨by decide +kernel, fun pre post user b c h => ?_⟩
    rcases pre with _ | ⟨_, _ | _⟩ <;> simp [broughtIn] at h
  obtain ⟨-, hexcess⟩ := h _ _ _ hr (by decide +kernel) (show List.Nodup _ by decide +kernel) hcmc
  revert hexcess
  decide +kernel

end Cts.Bank
