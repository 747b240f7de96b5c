import Cts.Bank.Owner
import Cts.Tc.Script
import Cts.Tc.Solvency

/-!
# Keys and subaccounts

A principal is written with its length in front, so the zeros behind it are not taken for a part of
it.
-/

namespace Cts.Tc

open Lib Bank

/-! ## Subaccounts -/

theorem principal_as_thirty_bytes_injective : Function.Injective principal_as_thirty_bytes := by
  intro p q h
  have hp := thirty_bytes_principal p
  rw [h, thirty_bytes_principal q] at hp
  exact (Option.some.inj hp).symm

theorem principal_token_subaccount_injective : Function.Injective principal_token_subaccount := by
  intro p q h
  have hbytes := congrArg IcrcSubaccount.bytes h
  exact principal_as_thirty_bytes_injective (List.append_cancel_right hbytes)

/-- Where a user's deposits are. -/
def TcConfig.userAccount (cfg : TcConfig) (user : Principal) : Account :=
  ⟨cfg.canister_id, principal_token_subaccount user⟩

theorem userAccount_injective (cfg : TcConfig) : Function.Injective cfg.userAccount := by
  intro p q h
  exact principal_token_subaccount_injective (congrArg Account.subaccount h)

/-! ## What a transfer takes -/

variable {cfg : TcConfig} {s s' : TcState} {kind : PositionKind} {a : Account}

theorem Ledger.source_of_down {l : Ledger} {source target : Account} {amount fee : Nat}
    (h : amount + fee ≤ l source) (hdown : l.transfer source target amount fee a < l a) :
    a = source := by
  by_contra hne
  have happly := Ledger.transfer_apply h target a
  rw [if_neg (Ne.symm hne)] at happly
  omega

theorem Ledger.Executes.source_of_down {l l' : Ledger} {owner : Principal} {q : Icrc1TransferQuest}
    {fee : Nat} (h : l.Executes owner q fee l') (hdown : l' a < l a) :
    a = ⟨owner, q.from_subaccount.getD ICRC_DEFAULT_SUBACCOUNT⟩ := by
  rw [h.eq] at hdown
  exact Ledger.source_of_down h.funds hdown

theorem ledger_of_down {k : PositionKind} {l : Ledger}
    (hdown : (s.set_ledger k l).ledger kind a < s.ledger kind a) :
    kind = k ∧ l a < s.ledger k a := by
  simp only [TcState.set_ledger, Function.update_apply] at hdown
  split_ifs at hdown with hk
  · subst hk
    exact ⟨rfl, hdown⟩
  · exact absurd hdown (lt_irrefl _)

/-- In this step the ledger executes the transfer of a user's call. -/
def ExecutesCall (s s' : TcState) (c : UserCall) : Prop :=
  c.reply = none ∧ ∃ pre post block, s.calls = pre ++ c :: post ∧
    s'.calls = pre ++ { c with reply := some (.ok (.ok block)) } :: post

theorem ExecutesCall.calls_ne {c : UserCall} (h : ExecutesCall s s' c) : s'.calls ≠ s.calls := by
  obtain ⟨hr, pre, post, block, hc, hc'⟩ := h
  intro hcalls
  rw [hc, hc'] at hcalls
  have hreply := congrArg UserCall.reply (List.cons.inj (List.append_cancel_left hcalls)).1
  rw [hr] at hreply
  cases hreply

/-- How an account of the contract comes to have less. -/
inductive Takes (cfg : TcConfig) (s s' : TcState) (kind : PositionKind) (a : Account) : Prop
  | call (c : UserCall) (hc : ExecutesCall s s' c) (hkind : c.quest.kind = kind)
      (ha : a = cfg.userAccount c.caller)
  | payout (hcalls : s'.calls = s.calls) (ha : a = cfg.positionsAccount)

theorem transfer_from_subaccount (c : UserCall) (canister_id : Principal) :
    (c.transfer canister_id).from_subaccount = some (principal_token_subaccount c.caller) := by
  unfold UserCall.transfer
  split <;> rfl

theorem UserCall.source_of_down {c : UserCall} {k : PositionKind} {l : Ledger} {fee : Nat}
    (h : (s.ledger k).Executes cfg.canister_id (c.transfer cfg.canister_id) fee l)
    (hdown : (s.set_ledger k l).ledger kind a < s.ledger kind a) :
    k = kind ∧ a = cfg.userAccount c.caller := by
  obtain ⟨rfl, hlow⟩ := ledger_of_down hdown
  refine ⟨rfl, ?_⟩
  rw [h.source_of_down hlow, transfer_from_subaccount]
  rfl

theorem takes_of_down (hstep : TcStep cfg s s') (hown : a.owner = cfg.canister_id)
    (hdown : s'.ledger kind a < s.ledger kind a) : Takes cfg s s' kind a := by
  cases hstep with
  | @deposit_executed pre post c q fee l block hc hr hquest hl =>
    obtain ⟨hkind, ha⟩ := UserCall.source_of_down hl hdown
    refine .call c ⟨hr, pre, post, block, hc, rfl⟩ ?_ ha
    rw [hquest, UserQuest.kind]
    exact hkind
  | @balance_executed pre post c k q fee l block hc hr hquest hl =>
    obtain ⟨hkind, ha⟩ := UserCall.source_of_down hl hdown
    refine .call c ⟨hr, pre, post, block, hc, rfl⟩ ?_ ha
    rw [hquest, UserQuest.kind]
    exact hkind
  | @payout_executed before after run q pre post p fee l block hr hp hs hl =>
    obtain ⟨rfl, hlow⟩ := ledger_of_down hdown
    exact .payout rfl (hl.source_of_down hlow)
  | @others_transfer k source target amount fee hs hf =>
    obtain ⟨rfl, hlow⟩ := ledger_of_down hdown
    have hsource := Ledger.source_of_down hf hlow
    rw [hsource] at hown
    exact absurd hown hs
  | @others_mint k target amount =>
    obtain ⟨rfl, hlow⟩ := ledger_of_down hdown
    rw [Function.update_apply] at hlow
    split_ifs at hlow with ha
    · subst ha
      omega
    · exact absurd hlow (lt_irrefl _)
  | trade | transfer_balance | call_refused | trade_failed | trade_committed | balance_replied
  | void_position | do_payouts | do_payouts_replied | do_payouts_failed | payouts_started
  | payout_refused | payout_replied | update_executed | update_failed | payouts_ended
  | positions_flush | trades_flush =>
    exact absurd hdown (lt_irrefl _)

/-- Only a call of the user takes from the user's deposits. -/
theorem own_call_of_down (hstep : TcStep cfg s s') {user : Principal}
    (hdown : s'.ledger kind (cfg.userAccount user) < s.ledger kind (cfg.userAccount user)) :
    ∃ c, ExecutesCall s s' c ∧ c.quest.kind = kind ∧ c.caller = user := by
  cases takes_of_down hstep rfl hdown with
  | call c hc hkind ha => exact ⟨c, hc, hkind, (userAccount_injective cfg ha).symm⟩
  | payout _ ha => exact absurd ha (userAccount_ne cfg.canister_id user)

theorem no_call_of_down (hstep : TcStep cfg s s')
    (hdown : s'.ledger kind cfg.positionsAccount < s.ledger kind cfg.positionsAccount) :
    ∀ c, ¬ ExecutesCall s s' c := by
  cases takes_of_down hstep rfl hdown with
  | call c _ _ ha => exact absurd ha.symm (userAccount_ne cfg.canister_id c.caller)
  | payout hcalls _ => exact fun c hc => hc.calls_ne hcalls

/-! ## Keys -/

/-- The keys of accounts and the subaccounts of users are apart, and so is what users can reach. -/
theorem account_keys_never_collide :
    (∀ p, thirty_bytes_as_principal (principal_as_thirty_bytes p) = some p) ∧
    (∀ i, (StorableIcrcId.to_bytes i).length = 62 ∧
      ∃ j, StorableIcrcId.from_bytes (StorableIcrcId.to_bytes i) = some j ∧ j.account = i.account) ∧
    (∀ i j, StorableIcrcId.to_bytes i = StorableIcrcId.to_bytes j ↔
      i.owner = j.owner ∧ i.effective_subaccount = j.effective_subaccount) ∧
    (∀ p q, principal_token_subaccount p = principal_token_subaccount q → p = q) ∧
    (∀ p, principal_token_subaccount p ≠ POSITIONS_SUBACCOUNT) ∧
    ∀ cfg s s' kind, TcStep cfg s s' →
      (∀ user, s'.ledger kind (cfg.userAccount user) < s.ledger kind (cfg.userAccount user) →
        ∃ c, ExecutesCall s s' c ∧ c.quest.kind = kind ∧ c.caller = user) ∧
      (s'.ledger kind cfg.positionsAccount < s.ledger kind cfg.positionsAccount →
        ∀ c, ¬ ExecutesCall s s' c) := by
  refine ⟨thirty_bytes_principal, ?_, ?_, ?_, principal_token_subaccount_ne, ?_⟩
  · intro i
    refine ⟨StorableIcrcId.to_bytes_length i, ?_⟩
    obtain ⟨j, hj, haccount⟩ := Option.map_eq_some_iff.mp (StorableIcrcId.from_bytes_account i)
    exact ⟨j, hj, haccount⟩
  · intro i j
    rw [StorableIcrcId.to_bytes_eq_iff, IcrcId.account, IcrcId.account, Account.mk.injEq]
  · exact fun p q h => principal_token_subaccount_injective h
  · intro cfg s s' kind hstep
    exact ⟨fun user => own_call_of_down hstep, no_call_of_down hstep⟩

namespace Sample

def after (events : List Event) : TcState :=
  (events.foldlM (TcState.play config) start).getD start

end Sample

theorem deposit_is_a_call_and_payout_is_none :
    (∃ c, ExecutesCall (Sample.after [.trade Sample.A Sample.buy])
        (Sample.after [.trade Sample.A Sample.buy, .deposit]) c ∧
      c.quest.kind = .Cycles ∧ c.caller = Sample.A) ∧
    ∀ c, ¬ ExecutesCall (Sample.after (Sample.trades ++ [.start]))
      (Sample.after (Sample.trades ++ [.start, .execute (.trade .Cycles)])) c := by
  obtain ⟨-, -, -, -, -, htakes⟩ := account_keys_never_collide
  have hdeposit : TcStep Sample.config (Sample.after [.trade Sample.A Sample.buy])
      (Sample.after ([.trade Sample.A Sample.buy] ++ [.deposit])) := script_step (by decide +kernel)
  have hpayout : TcStep Sample.config (Sample.after (Sample.trades ++ [.start]))
      (Sample.after ((Sample.trades ++ [.start]) ++ [.execute (.trade .Cycles)])) :=
    script_step (by decide +kernel)
  rw [List.append_assoc] at hpayout
  refine ⟨(htakes _ _ _ .Cycles hdeposit).1 Sample.A ?_, (htakes _ _ _ .Cycles hpayout).2 ?_⟩ <;>
    decide +kernel

end Cts.Tc
