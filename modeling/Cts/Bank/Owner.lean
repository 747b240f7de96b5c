import Cts.Bank.Books

/-!
# Only its owner takes from an account

Every message but a transfer and the start of a `cycles_out` only raises balances, and these two
debit an account of their caller.
-/

namespace Cts.Bank

open Lib

/-! ## Keys -/

namespace StorableIcrcId

def to_bytes (icrc_id : IcrcId) : List Byte :=
  principal_as_thirty_bytes icrc_id.owner ++ icrc_id.effective_subaccount.bytes

/-- `none` is a trap. -/
def from_bytes (bytes : List Byte) : Option IcrcId := do
  let owner ← thirty_bytes_as_principal (bytes.take 30)
  if h : (bytes.drop 30).length = 32 then
    let subaccount : IcrcSubaccount := ⟨bytes.drop 30, h⟩
    return ⟨owner, if subaccount = ICRC_DEFAULT_SUBACCOUNT then none else some subaccount⟩
  else none

theorem to_bytes_length (i : IcrcId) : (to_bytes i).length = 62 := by
  simp [to_bytes, i.effective_subaccount.length_eq]

theorem from_bytes_to_bytes (i : IcrcId) : from_bytes (to_bytes i) = some ⟨i.owner,
    if i.effective_subaccount = ICRC_DEFAULT_SUBACCOUNT then none else some i.effective_subaccount⟩ := by
  have htake : (to_bytes i).take 30 = principal_as_thirty_bytes i.owner :=
    List.take_left' (principal_as_thirty_bytes_length i.owner)
  have hdrop : (to_bytes i).drop 30 = i.effective_subaccount.bytes :=
    List.drop_left' (principal_as_thirty_bytes_length i.owner)
  unfold from_bytes
  rw [htake, thirty_bytes_principal]
  simp only [hdrop, i.effective_subaccount.length_eq, dif_pos, Option.bind_eq_bind, Option.bind_some,
    Option.pure_def]

theorem from_bytes_account (i : IcrcId) : (from_bytes (to_bytes i)).map IcrcId.account = some i.account := by
  rw [from_bytes_to_bytes, Option.map_some]
  unfold IcrcId.account
  split_ifs with h
  · rw [h]
    rfl
  · rfl

theorem to_bytes_eq_iff (i j : IcrcId) : to_bytes i = to_bytes j ↔ i.account = j.account := by
  constructor
  · intro h
    have hi := from_bytes_account i
    rw [h, from_bytes_account j] at hi
    exact (Option.some.inj hi).symm
  · intro h
    obtain ⟨howner, hsub⟩ := Account.mk.inj h
    unfold to_bytes
    rw [howner, hsub]

end StorableIcrcId

/-! ## Balances that only rise -/

/-- Every balance is a `u128`. -/
def BalancesFit (b : BankState) : Prop := ∀ a, balanceAt b a < 2 ^ 128

/-- No balance goes down. -/
def Raised (b b' : BankState) : Prop :=
  BalancesFit b → BalancesFit b' ∧ ∀ a, balanceAt b a ≤ balanceAt b' a

theorem raised_of_same {b b' : BankState} (h : b'.cycles_balances = b.cycles_balances) : Raised b b' := by
  intro hfit
  have hsame : ∀ a, balanceAt b' a = balanceAt b a := fun a => by rw [balanceAt, balanceAt, h]
  exact ⟨fun a => by rw [hsame]; exact hfit a, fun a => (hsame a).ge⟩

theorem Raised.trans {b b' b'' : BankState} (h : Raised b b') (h' : Raised b' b'') : Raised b b'' := by
  intro hfit
  obtain ⟨hfit', hle⟩ := h hfit
  obtain ⟨hfit'', hle'⟩ := h' hfit'
  exact ⟨hfit'', fun a => (hle a).trans (hle' a)⟩

theorem add_cycles_balanceAt (b : BankState) (i : IcrcId) (n : Nat) (x : Account) :
    balanceAt (add_cycles_balance b i n) x =
      if x = i.account then saturating_add (balanceAt b i.account) n else balanceAt b x :=
  balanceAt_insert b i.account x _

theorem subtract_cycles_balanceAt (b : BankState) (i : IcrcId) (n : Nat) (x : Account) :
    balanceAt (subtract_cycles_balance b i n) x =
      if x = i.account then balanceAt b i.account - n else balanceAt b x :=
  balanceAt_insert b i.account x _

theorem saturating_add_lt (a n : Nat) : saturating_add a n < 2 ^ 128 := by
  unfold saturating_add Word.saturatingAdd
  omega

theorem le_saturating_add {a : Nat} (h : a < 2 ^ 128) (n : Nat) : a ≤ saturating_add a n := by
  unfold saturating_add Word.saturatingAdd
  omega

theorem add_cycles_balance_raised (b : BankState) (i : IcrcId) (n : Nat) :
    Raised b (add_cycles_balance b i n) := by
  intro hfit
  constructor
  · intro a
    rw [add_cycles_balanceAt]
    split_ifs
    · exact saturating_add_lt _ _
    · exact hfit a
  · intro a
    rw [add_cycles_balanceAt]
    split_ifs with h
    · subst h
      exact le_saturating_add (hfit _) n
    · exact le_rfl

/-! ## Mints -/

theorem MintPiece.raised {user_id : Principal} {d : MintCyclesMidCallData} {b : BankState}
    {r : BankState × MintProgress} (h : MintPiece user_id d b r) : Raised b r.1 := by
  cases h with
  | trapped | called | unlocked | removed => exact raised_of_same rfl
  | credited cmc_cycles _ _ hb _ _ =>
    subst hb
    exact (add_cycles_balance_raised b d.quest.to _).trans (raised_of_same rfl)

theorem complete_mint_cycles_raised {for_user : Option Principal} {caller id : Principal}
    {canister_balance now : Nat} {b : BankState} {r : BankState × MintProgress}
    (h : complete_mint_cycles for_user caller id canister_balance now b = .ok r) : Raised b r.1 := by
  obtain ⟨d, -, -, rfl⟩ := complete_mint_cycles_ok h
  have hinsert : Raised b (insert_mint b (for_user.getD caller) { d with lock := true }) :=
    raised_of_same rfl
  exact hinsert.trans (mint_cycles_piece _ _ _ _ _ _).raised

/-! ## Payments -/

/-- From `b` to `b'` the account `a` pays `debit`, which it had, and then `amount` is credited. -/
structure Pays (b b' : BankState) (a : Account) (debit : Nat) («to» : Option Account)
    (amount : Nat) : Prop where
  had : debit ≤ balanceAt b a
  payer : balanceAt b' a =
    if «to» = some a then saturating_add (balanceAt b a - debit) amount else balanceAt b a - debit
  payee : ∀ x, x ≠ a → «to» = some x → balanceAt b' x = saturating_add (balanceAt b x) amount
  others : ∀ x, x ≠ a → «to» ≠ some x → balanceAt b' x = balanceAt b x

theorem Pays.payer_of_down {b b' : BankState} {a x : Account} {debit amount : Nat}
    {«to» : Option Account} (h : Pays b b' a debit «to» amount) (hfit : BalancesFit b)
    (hdown : balanceAt b' x < balanceAt b x) : x = a := by
  by_contra hne
  by_cases hto : «to» = some x
  · have hle := le_saturating_add (hfit x) amount
    have hpayee := h.payee x hne hto
    omega
  · have hsame := h.others x hne hto
    omega

theorem Pays.owner_of_down {b b' : BankState} {caller : Principal} {subaccount : Option IcrcSubaccount}
    {i : IcrcId} {debit amount : Nat} {«to» : Option Account}
    (h : Pays b b' (IcrcId.account ⟨caller, subaccount⟩) debit «to» amount) (hfit : BalancesFit b)
    (hdown : cycles_balance b' i < cycles_balance b i) :
    caller = i.owner ∧
      (IcrcId.mk i.owner subaccount).effective_subaccount = i.effective_subaccount ∧
      Pays b b' i.account debit «to» amount := by
  have hi : i.account = IcrcId.account ⟨caller, subaccount⟩ := h.payer_of_down hfit hdown
  obtain ⟨howner, hsub⟩ := Account.mk.inj hi
  rw [← hi] at h
  exact ⟨howner.symm, hsub.symm, h⟩

/-- The step is a transfer that its caller asked for. -/
def Transfers (s s' : BankSystem) (caller : Principal) (q : Icrc1TransferQuest) : Prop :=
  ∃ now height b, icrc1_transfer caller now q s.bank = .ok (height, b) ∧
    s' = { s with bank := b, history := s.history ++ [.transferred] }

/-- The step is the start of a `cycles_out` that its caller asked for. -/
def StartsCyclesOut (s s' : BankSystem) (caller : Principal) (q : CyclesOutQuest) : Prop :=
  ∃ now c b, cycles_out caller now q s.bank = .ok (c, b) ∧
    s' = { s with bank := b, held := s.held - q.cycles, cycles_outs := c :: s.cycles_outs }

theorem Transfers.pays {s s' : BankSystem} {caller : Principal} {q : Icrc1TransferQuest}
    (h : Transfers s s' caller q) :
    Pays s.bank s'.bank (IcrcId.account ⟨caller, q.from_subaccount⟩)
      (saturating_add q.amount BANK_TRANSFER_FEE) (some q.to.account) q.amount := by
  obtain ⟨now, height, b, hok, rfl⟩ := h
  obtain ⟨hhad, log, pointers, -, -, rfl⟩ := icrc1_transfer_ok hok
  constructor
  · exact hhad
  · simp only [balanceAt_logged, add_cycles_balanceAt, subtract_cycles_balanceAt, Option.some.injEq,
      if_true]
    by_cases hself : q.to.account = IcrcId.account ⟨caller, q.from_subaccount⟩
    · simp only [hself, if_true]
    · simp only [if_neg hself, if_neg (Ne.symm hself)]
  · intro x hne hto
    obtain rfl := Option.some.inj hto
    simp only [balanceAt_logged, add_cycles_balanceAt, subtract_cycles_balanceAt, if_true, if_neg hne]
  · intro x hne hto
    have hx : x ≠ q.to.account := fun he => hto (congrArg some he.symm)
    simp only [balanceAt_logged, add_cycles_balanceAt, subtract_cycles_balanceAt, if_neg hne,
      if_neg hx]

theorem StartsCyclesOut.pays {s s' : BankSystem} {caller : Principal} {q : CyclesOutQuest}
    (h : StartsCyclesOut s s' caller q) :
    Pays s.bank s'.bank (IcrcId.account ⟨caller, q.from_subaccount⟩)
      (saturating_add q.cycles BANK_TRANSFER_FEE) none 0 := by
  obtain ⟨now, c, b, hok, rfl⟩ := h
  obtain ⟨rfl, hhad, rfl⟩ := cycles_out_ok hok
  constructor
  · exact hhad
  · have hdebit : CyclesOutCall.debit ⟨caller, q⟩ = saturating_add q.cycles BANK_TRANSFER_FEE := rfl
    have haccount : CyclesOutCall.caller_icrc_id ⟨caller, q⟩ = ⟨caller, q.from_subaccount⟩ := rfl
    simp only [subtract_cycles_balanceAt, hdebit, haccount, if_true, reduceCtorEq, if_false]
  · intro x _ hto
    cases hto
  · intro x hne _
    simp only [subtract_cycles_balanceAt, CyclesOutCall.caller_icrc_id, if_neg hne]

/-! ## Runs -/

theorem BankStep.raised_or_paid {id : Principal} {s s' : BankSystem} (h : BankStep id s s') :
    Raised s.bank s'.bank ∨ (∃ caller q, Transfers s s' caller q) ∨
      ∃ caller q, StartsCyclesOut s s' caller q := by
  cases h with
  | icrc1_transfer h => exact Or.inr (Or.inl ⟨_, _, _, _, _, h, rfl⟩)
  | cycles_out _ h => exact Or.inr (Or.inr ⟨_, _, _, _, _, h, rfl⟩)
  | cycles_in _ _ h =>
    obtain ⟨-, log, pointers, -, -, rfl⟩ := cycles_in_ok h
    exact Or.inl ((add_cycles_balance_raised _ _ _).trans (raised_of_same rfl))
  | cycles_out_deposited | cmc_top_up | clear_user_logs_pointers_cache =>
    exact Or.inl (raised_of_same rfl)
  | cycles_out_failed => exact Or.inl (add_cycles_balance_raised _ _ _)
  | mint_cycles h =>
    obtain ⟨-, d, args, -, -, -, rfl⟩ := mint_cycles_ok h
    exact Or.inl (raised_of_same rfl)
  | complete_mint_cycles h => exact Or.inl (complete_mint_cycles_raised h)
  | icp_transfer_refused | icp_transferred =>
    obtain ⟨d, -, hpiece⟩ := mint_cycles_transferred_piece _ _ _ _ _ _
    exact Or.inl hpiece.raised
  | cmc_answered =>
    obtain ⟨d, -, hpiece⟩ := mint_cycles_notified_piece _ _ _ _
    exact Or.inl hpiece.raised

theorem Pays.fit {b b' : BankState} {a : Account} {debit amount : Nat} {«to» : Option Account}
    (h : Pays b b' a debit «to» amount) (hfit : BalancesFit b) : BalancesFit b' := by
  intro x
  by_cases hx : x = a
  · subst hx
    rw [h.payer]
    split_ifs
    · exact saturating_add_lt _ _
    · exact lt_of_le_of_lt (Nat.sub_le _ _) (hfit x)
  · by_cases hto : «to» = some x
    · rw [h.payee x hx hto]
      exact saturating_add_lt _ _
    · rw [h.others x hx hto]
      exact hfit x

theorem balances_fit {id : Principal} {held : Nat} {s : BankSystem} (hr : BankReachable id held s) :
    BalancesFit s.bank := by
  refine hr.invariant (I := fun s => BalancesFit s.bank) ?_ ?_
  · rintro s rfl a
    exact Nat.two_pow_pos 128
  · intro s s' _ hfit hstep
    rcases hstep.raised_or_paid with hraised | ⟨caller, q, h⟩ | ⟨caller, q, h⟩
    · exact (hraised hfit).1
    · exact h.pays.fit hfit
    · exact h.pays.fit hfit

/-- The owner of an account takes from it: by a call of their own, from this account, what the call
asks for with the charge on it. -/
def OwnerTakes (charged : Nat → Nat) (s s' : BankSystem) (i : IcrcId) : Prop :=
  (∃ q, Transfers s s' i.owner q ∧
    (IcrcId.mk i.owner q.from_subaccount).effective_subaccount = i.effective_subaccount ∧
    Pays s.bank s'.bank i.account (charged q.amount) (some q.to.account) q.amount) ∨
  ∃ q, StartsCyclesOut s s' i.owner q ∧
    (IcrcId.mk i.owner q.from_subaccount).effective_subaccount = i.effective_subaccount ∧
    Pays s.bank s'.bank i.account (charged q.cycles) none 0

/-- A balance goes down only when its owner takes from it. -/
theorem only_the_owner_takes {id : Principal} {held : Nat} {s s' : BankSystem}
    (hr : BankReachable id held s) (h : BankStep id s s') {i : IcrcId}
    (hdown : cycles_balance s'.bank i < cycles_balance s.bank i) :
    OwnerTakes (saturating_add · BANK_TRANSFER_FEE) s s' i := by
  have hfit := balances_fit hr
  rcases h.raised_or_paid with hraised | ⟨caller, q, hq⟩ | ⟨caller, q, hq⟩
  · exact absurd hdown (not_lt.mpr ((hraised hfit).2 i.account))
  · obtain ⟨rfl, hsub, hpays⟩ := hq.pays.owner_of_down hfit hdown
    exact Or.inl ⟨q, hq, hsub, hpays⟩
  · obtain ⟨rfl, hsub, hpays⟩ := hq.pays.owner_of_down hfit hdown
    exact Or.inr ⟨q, hq, hsub, hpays⟩

theorem owner_takes_while_leaving : OwnerTakes (saturating_add · BANK_TRANSFER_FEE)
    (broughtIn (3 * TRILLION) (4 * TRILLION)) leaving ⟨someUser, none⟩ :=
  only_the_owner_takes broughtIn_some_reachable leaving_step (by decide +kernel)

/-- All cycles go to another account, after a `cycles_in` whose request was cut to a word. -/
def cutPayment : Icrc1TransferQuest := { cutTransfer with «to» := ⟨bankId, none⟩ }

theorem fee_not_taken_when_cut :
    ¬ ∀ (id : Principal) (held : Nat) (s s' : BankSystem) (i : IcrcId), BankReachable id held s →
      BankStep id s s' → cycles_balance s'.bank i < cycles_balance s.bank i →
        OwnerTakes (· + BANK_TRANSFER_FEE) s s' i := by
  intro h
  let s := broughtIn (2 ^ 128 - 1) (2 ^ 128 - 1)
  let t := (icrc1_transfer someUser 0 cutPayment s.bank).getD (0, .new)
  let s' : BankSystem := { s with bank := t.2, history := s.history ++ [.transferred] }
  have hok := Outcome.eq_ok (o := icrc1_transfer someUser 0 cutPayment s.bank) (0, .new)
    (by decide +kernel)
  have htakes := h bankId 0 s s' ⟨someUser, none⟩
    (broughtIn_reachable (by decide +kernel) (by decide +kernel) (by decide +kernel))
    (.icrc1_transfer hok) (by decide +kernel)
  have hbefore : balanceAt s.bank (IcrcId.account ⟨someUser, none⟩) = 2 ^ 128 - 1 := by decide +kernel
  have hpayee : balanceAt s'.bank (IcrcId.account ⟨bankId, none⟩) = 2 ^ 128 - 1 := by decide +kernel
  have hnothing : balanceAt s.bank (IcrcId.account ⟨bankId, none⟩) = 0 := by decide +kernel
  have hne : IcrcId.account ⟨bankId, none⟩ ≠ IcrcId.account ⟨someUser, none⟩ := by decide
  rcases htakes with ⟨q, -, -, hpays⟩ | ⟨q, -, -, hpays⟩
  · have hhad : q.amount + BANK_TRANSFER_FEE ≤ balanceAt s.bank (IcrcId.account ⟨someUser, none⟩) :=
      hpays.had
    have hfee : BANK_TRANSFER_FEE = 10000000000 := rfl
    by_cases hto : some q.to.account = some (IcrcId.account ⟨bankId, none⟩)
    · have hcredit := hpays.payee _ hne hto
      unfold saturating_add Word.saturatingAdd at hcredit
      omega
    · have hsame := hpays.others _ hne hto
      omega
  · have hsame := hpays.others _ hne (by simp)
    omega

end Cts.Bank
