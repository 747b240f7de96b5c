import Mathlib.Algebra.Order.BigOperators.Group.List
import Cts.Bank.Mint

/-!
# The books agree with the log

Replaying the log gives each account its balance and what its unresolved `cycles_out` calls took.
No operator saturates as long as the cycles that came in fit a word.
-/

namespace Cts.Bank

open Lib

/-! ## Replaying the log -/

def credit (f : Account → Nat) (a : Account) (n : Nat) : Account → Nat :=
  Function.update f a (f a + n)

def debit (f : Account → Nat) (a : Account) (n : Nat) : Option (Account → Nat) :=
  if n ≤ f a then some (Function.update f a (f a - n)) else none

/-- One log. `none` when it would drive an account negative. -/
def replayLog (fee : Nat) (f : Account → Nat) (log : Log) : Option (Account → Nat) :=
  match log.tx.op with
  | .Mint «to» _ => some (credit f to.account log.tx.amt)
  | .Burn «from» _ => debit f from.account log.tx.amt
  | .Xfer «from» «to» =>
    (debit f from.account (log.tx.amt + fee)).map (credit · to.account log.tx.amt)

def replay (fee : Nat) (logs : List Log) : Option (Account → Nat) :=
  logs.foldlM (replayLog fee) (fun _ => 0)

/-- `n` at the account `a`, nothing elsewhere. -/
def atAccount (a : Account) (n : Nat) (x : Account) : Nat := if x = a then n else 0

theorem credit_apply (f : Account → Nat) (a : Account) (n : Nat) (x : Account) :
    credit f a n x = f x + atAccount a n x := by
  by_cases h : x = a
  · subst h; simp [credit, atAccount]
  · simp [credit, atAccount, h]

theorem debit_of_le {f : Account → Nat} {a : Account} {n : Nat} (h : n ≤ f a) :
    ∃ g, debit f a n = some g ∧ ∀ x, g x + atAccount a n x = f x := by
  refine ⟨_, if_pos h, fun x => ?_⟩
  by_cases hx : x = a
  · subst hx; simp [atAccount]; omega
  · simp [atAccount, hx]

theorem replay_append (fee : Nat) (logs : List Log) (log : Log) :
    replay fee (logs ++ [log]) = (replay fee logs).bind (replayLog fee · log) := by
  rw [replay, List.foldlM_append]
  simp only [List.foldlM_cons, List.foldlM_nil, bind_pure]
  rfl

section Replay

variable {fee : Nat} {logs : List Log} {log : Log} {f : Account → Nat} {i j : IcrcId}

theorem replay_mint {kind : MintKind} (h : replay fee logs = some f)
    (hop : log.tx.op = .Mint i kind) :
    replay fee (logs ++ [log]) = some (credit f i.account log.tx.amt) := by
  rw [replay_append, h, Option.bind_some, replayLog, hop]

theorem replay_burn {p : Principal} (h : replay fee logs = some f) (hop : log.tx.op = .Burn i p)
    (hle : log.tx.amt ≤ f i.account) :
    ∃ g, replay fee (logs ++ [log]) = some g ∧
      ∀ x, g x + atAccount i.account log.tx.amt x = f x := by
  obtain ⟨g, hg, hgx⟩ := debit_of_le hle
  exact ⟨g, by simp only [replay_append, h, Option.bind_some, replayLog, hop, hg], hgx⟩

theorem replay_xfer (h : replay fee logs = some f) (hop : log.tx.op = .Xfer i j)
    (hle : log.tx.amt + fee ≤ f i.account) :
    ∃ g, replay fee (logs ++ [log]) = some g ∧
      ∀ x, g x + atAccount i.account (log.tx.amt + fee) x =
        f x + atAccount j.account log.tx.amt x := by
  obtain ⟨g, hg, hgx⟩ := debit_of_le hle
  refine ⟨credit g j.account log.tx.amt, ?_, fun x => ?_⟩
  · simp only [replay_append, h, Option.bind_some, replayLog, hop, hg, Option.map_some]
  · rw [credit_apply, ← hgx x]
    omega

end Replay

/-! ## Balances -/

def balanceAt (b : BankState) (a : Account) : Nat := (b.cycles_balances.get a).getD 0

def balancesSum (b : BankState) : Nat := b.cycles_balances.sum id

theorem balanceAt_le_sum (b : BankState) (a : Account) : balanceAt b a ≤ balancesSum b := by
  rw [balanceAt]
  cases h : b.cycles_balances.get a with
  | none => exact Nat.zero_le _
  | some n => exact OrdMap.le_sum_of_get _ id a n h

theorem insert_balance (b : BankState) (a : Account) (n : Nat) :
    (b.cycles_balances.insert a n).sum id + balanceAt b a = balancesSum b + n :=
  OrdMap.sum_insert_getD b.cycles_balances id a n 0 rfl

theorem balanceAt_insert (b : BankState) (a x : Account) (n : Nat) :
    ((b.cycles_balances.insert a n).get x).getD 0 = if x = a then n else balanceAt b x := by
  rw [OrdMap.get_insert]
  split_ifs <;> rfl

/-- Supply and balances in step. -/
def SupplyOk (b : BankState) : Prop := b.cb_data.total_supply = balancesSum b

theorem add_cycles_balance_spec {b : BankState} (hs : SupplyOk b) (i : IcrcId) {n : Nat}
    (h : balancesSum b + n < 2 ^ 128) :
    SupplyOk (add_cycles_balance b i n) ∧
      balancesSum (add_cycles_balance b i n) = balancesSum b + n ∧
      ∀ x, balanceAt (add_cycles_balance b i n) x = balanceAt b x + atAccount i.account n x := by
  have hle := balanceAt_le_sum b i.account
  have hbal : saturating_add (cycles_balance b i) n = balanceAt b i.account + n :=
    Word.saturatingAdd_of_lt (show balanceAt b i.account + n < 2 ^ 128 by omega)
  have hmap : (add_cycles_balance b i n).cycles_balances =
      b.cycles_balances.insert i.account (balanceAt b i.account + n) := by
    rw [add_cycles_balance, hbal]
  have hsum : balancesSum (add_cycles_balance b i n) = balancesSum b + n := by
    have := insert_balance b i.account (balanceAt b i.account + n)
    rw [balancesSum, hmap]
    omega
  refine ⟨?_, hsum, fun x => ?_⟩
  · rw [SupplyOk] at hs
    rw [SupplyOk, hsum, ← hs]
    exact Word.saturatingAdd_of_lt (by omega)
  · rw [balanceAt, hmap, balanceAt_insert, atAccount]
    split_ifs with hx
    · rw [hx]
    · rfl

theorem subtract_cycles_balance_spec {b : BankState} (hs : SupplyOk b) (i : IcrcId) {n : Nat}
    (h : n ≤ balanceAt b i.account) :
    SupplyOk (subtract_cycles_balance b i n) ∧
      balancesSum (subtract_cycles_balance b i n) + n = balancesSum b ∧
      ∀ x, balanceAt (subtract_cycles_balance b i n) x + atAccount i.account n x = balanceAt b x := by
  have hle := balanceAt_le_sum b i.account
  have hmap : (subtract_cycles_balance b i n).cycles_balances =
      b.cycles_balances.insert i.account (balanceAt b i.account - n) := rfl
  have hsupply : (subtract_cycles_balance b i n).cb_data.total_supply =
      b.cb_data.total_supply - n := rfl
  have hsum : balancesSum (subtract_cycles_balance b i n) + n = balancesSum b := by
    have := insert_balance b i.account (balanceAt b i.account - n)
    rw [balancesSum, hmap]
    omega
  refine ⟨?_, hsum, fun x => ?_⟩
  · rw [SupplyOk] at hs ⊢
    omega
  · rw [balanceAt, hmap, balanceAt_insert, atAccount]
    split_ifs with hx
    · rw [hx]; omega
    · rfl

/-! ## The invariant -/

def pendingDebits (outs : List CyclesOutCall) (a : Account) : Nat :=
  (outs.map fun c => atAccount c.caller_icrc_id.account c.debit a).sum

def pendingTotal (outs : List CyclesOutCall) : Nat := (outs.map CyclesOutCall.debit).sum

structure Books (s : BankSystem) : Prop where
  supply : SupplyOk s.bank
  replayed : ∃ f, replay BANK_TRANSFER_FEE s.bank.logs = some f ∧
    ∀ a, f a = balanceAt s.bank a + pendingDebits s.cycles_outs a
  /-- The fee of the first `cycles_in` or mint is kept back, so no amount plus fee saturates. -/
  bound : balancesSum s.bank + pendingTotal s.cycles_outs = 0 ∨
    balancesSum s.bank + pendingTotal s.cycles_outs + BANK_TRANSFER_FEE ≤ acceptedOrMinted s.history
  outs : ∀ c ∈ s.cycles_outs, c.debit = c.q.cycles + BANK_TRANSFER_FEE

/-- What a run is assumed to keep: the cycles that came in fit a word, and so did each request. -/
def CyclesFit (history : List BankEvent) : Prop :=
  acceptedOrMinted history < 2 ^ 128 ∧ CyclesInExact history

@[simp]
theorem balanceAt_logged (b : BankState) (log : Log) (pointers : OrdMap Account (List Nat))
    (a : Account) : balanceAt (b.logged log pointers) a = balanceAt b a := by cases b; rfl

@[simp]
theorem balancesSum_logged (b : BankState) (log : Log) (pointers : OrdMap Account (List Nat)) :
    balancesSum (b.logged log pointers) = balancesSum b := by cases b; rfl

@[simp]
theorem supplyOk_logged (b : BankState) (log : Log) (pointers : OrdMap Account (List Nat)) :
    SupplyOk (b.logged log pointers) ↔ SupplyOk b := by cases b; rfl

@[simp]
theorem acceptedOrMinted_nil : acceptedOrMinted [] = 0 := rfl

@[simp]
theorem acceptedOrMinted_cons (e : BankEvent) (es : List BankEvent) :
    acceptedOrMinted (e :: es) = e.cyclesIn + acceptedOrMinted es := by
  simp [acceptedOrMinted]

theorem Books.exact {s : BankSystem} (hb : Books s) (hfit : acceptedOrMinted s.history < 2 ^ 128)
    {n : Nat} {a : Account} (h : saturating_add n BANK_TRANSFER_FEE ≤ balanceAt s.bank a) :
    saturating_add n BANK_TRANSFER_FEE = n + BANK_TRANSFER_FEE := by
  have hle := balanceAt_le_sum s.bank a
  have hfee : 0 < BANK_TRANSFER_FEE := by decide
  have hbound := hb.bound
  rw [saturating_add, Word.saturatingAdd] at h ⊢
  omega

theorem Books.transfer_effect {s : BankSystem} (hb : Books s)
    (hfit : acceptedOrMinted s.history < 2 ^ 128) {caller : Principal} {now : Nat}
    {q : Icrc1TransferQuest} {height : Nat} {b : BankState}
    (h : Bank.icrc1_transfer caller now q s.bank = .ok (height, b)) :
    let i : IcrcId := ⟨caller, q.from_subaccount⟩
    q.amount + BANK_TRANSFER_FEE ≤ balanceAt s.bank i.account ∧ SupplyOk b ∧
      balancesSum b + BANK_TRANSFER_FEE = balancesSum s.bank ∧
      (∀ x, balanceAt b x + atAccount i.account (q.amount + BANK_TRANSFER_FEE) x =
        balanceAt s.bank x + atAccount q.to.account q.amount x) ∧
      ∃ log, b.logs = s.bank.logs ++ [log] ∧ log.tx.op = .Xfer i q.to ∧ log.tx.amt = q.amount := by
  obtain ⟨hcover, log, pointers, hop, hamt, rfl⟩ := icrc1_transfer_ok h
  have hx := hb.exact hfit hcover
  rw [hx] at hcover ⊢
  obtain ⟨hs1, hsum1, hbal1⟩ := subtract_cycles_balance_spec hb.supply _ hcover
  have hbound := hb.bound
  obtain ⟨hs2, hsum2, hbal2⟩ := add_cycles_balance_spec hs1 q.to (n := q.amount) (by omega)
  refine ⟨hcover, by simpa using hs2, ?_, fun x => ?_, log, by simp, hop, hamt⟩
  · rw [balancesSum_logged]
    omega
  · have h1 := hbal1 x
    have h2 := hbal2 x
    rw [balanceAt_logged]
    omega

theorem Books.icrc1_transfer {s : BankSystem} (hb : Books s)
    (hfit : acceptedOrMinted s.history < 2 ^ 128) {caller : Principal} {now : Nat}
    {q : Icrc1TransferQuest} {height : Nat} {b : BankState}
    (h : Bank.icrc1_transfer caller now q s.bank = .ok (height, b)) :
    Books { s with bank := b, history := s.history ++ [.transferred] } := by
  obtain ⟨hcover, hs, hsum, hbal, log, hlogs, hop, hamt⟩ := hb.transfer_effect hfit h
  obtain ⟨f, hf, hfx⟩ := hb.replayed
  have hbound := hb.bound
  obtain ⟨g, hg, hgx⟩ := replay_xfer hf hop (by rw [hamt, hfx]; exact Nat.le_add_right_of_le hcover)
  refine ⟨hs, ⟨g, by rw [hlogs, hg], fun a => ?_⟩, ?_, hb.outs⟩
  · have h1 := hbal a
    have h2 := hgx a
    have h3 := hfx a
    rw [hamt] at h2
    simp only
    omega
  · simp only [acceptedOrMinted_append, acceptedOrMinted_cons, acceptedOrMinted_nil,
      BankEvent.cyclesIn]
    omega

theorem Books.cycles_in_effect {s : BankSystem} (hb : Books s) {caller : Principal}
    {now available : Nat} {q : CyclesInQuest} {height : Nat} {b : BankState}
    (hfit : CyclesFit (s.history ++ [.cycled_in q.cycles]))
    (h : Bank.cycles_in caller now available q s.bank = .ok (height, b)) :
    cycles_in_accept q = q.cycles + BANK_TRANSFER_FEE ∧ SupplyOk b ∧
      balancesSum b = balancesSum s.bank + q.cycles ∧
      (∀ x, balanceAt b x = balanceAt s.bank x + atAccount q.to.account q.cycles x) ∧
      ∃ log, b.logs = s.bank.logs ++ [log] ∧ log.tx.op = .Mint q.to (.CyclesIn caller) ∧
        log.tx.amt = q.cycles := by
  obtain ⟨-, log, pointers, hop, hamt, rfl⟩ := cycles_in_ok h
  obtain ⟨hlt, hexact⟩ := hfit
  have hcut : cycles_in_accept q = q.cycles + BANK_TRANSFER_FEE :=
    Word.saturatingAdd_of_lt (hexact _ (by simp))
  rw [cycles_in_accept] at hcut
  simp only [acceptedOrMinted_append, acceptedOrMinted_cons, acceptedOrMinted_nil,
    BankEvent.cyclesIn, hcut] at hlt
  have hbound := hb.bound
  obtain ⟨hs1, hsum1, hbal1⟩ := add_cycles_balance_spec hb.supply q.to (n := q.cycles) (by omega)
  exact ⟨hcut, by simpa using hs1, by simpa using hsum1, by simpa using hbal1, log, by simp, hop, hamt⟩

theorem Books.cycles_in {s : BankSystem} (hb : Books s) {caller : Principal} {now available : Nat}
    {q : CyclesInQuest} {height held : Nat} {b : BankState}
    (hfit : CyclesFit (s.history ++ [.cycled_in q.cycles]))
    (h : Bank.cycles_in caller now available q s.bank = .ok (height, b)) :
    Books { s with bank := b, held := held, history := s.history ++ [.cycled_in q.cycles] } := by
  obtain ⟨hcut, hs, hsum, hbal, log, hlogs, hop, hamt⟩ := hb.cycles_in_effect hfit h
  obtain ⟨f, hf, hfx⟩ := hb.replayed
  have hbound := hb.bound
  refine ⟨hs, ⟨_, by rw [hlogs]; exact replay_mint hf hop, fun a => ?_⟩, ?_, hb.outs⟩
  · have h1 := hbal a
    have h2 := hfx a
    simp only [credit_apply, hamt]
    omega
  · rw [cycles_in_accept] at hcut
    simp only [acceptedOrMinted_append, acceptedOrMinted_cons, acceptedOrMinted_nil,
      BankEvent.cyclesIn, hcut]
    omega

theorem Books.cycles_out_effect {s : BankSystem} (hb : Books s)
    (hfit : acceptedOrMinted s.history < 2 ^ 128) {caller : Principal} {now : Nat}
    {q : CyclesOutQuest} {c : CyclesOutCall} {b : BankState}
    (h : Bank.cycles_out caller now q s.bank = .ok (c, b)) :
    c.q = q ∧ c.debit = c.q.cycles + BANK_TRANSFER_FEE ∧ SupplyOk b ∧
      balancesSum b + c.debit = balancesSum s.bank ∧
      (∀ x, balanceAt b x + atAccount c.caller_icrc_id.account c.debit x = balanceAt s.bank x) ∧
      b.logs = s.bank.logs := by
  obtain ⟨hc, hcover, rfl⟩ := cycles_out_ok h
  have hdebit : c.debit = c.q.cycles + BANK_TRANSFER_FEE :=
    hb.exact (n := c.q.cycles) (a := c.caller_icrc_id.account) hfit hcover
  obtain ⟨hs1, hsum1, hbal1⟩ := subtract_cycles_balance_spec hb.supply _ hcover
  exact ⟨by rw [hc], hdebit, hs1, hsum1, hbal1, subtract_cycles_balance_logs _ _ _⟩

theorem Books.cycles_out {s : BankSystem} (hb : Books s)
    (hfit : acceptedOrMinted s.history < 2 ^ 128) {caller : Principal} {now held : Nat}
    {q : CyclesOutQuest} {c : CyclesOutCall} {b : BankState}
    (h : Bank.cycles_out caller now q s.bank = .ok (c, b)) :
    Books { s with bank := b, held := held, cycles_outs := c :: s.cycles_outs } := by
  obtain ⟨-, hdebit, hs, hsum, hbal, hlogs⟩ := hb.cycles_out_effect hfit h
  obtain ⟨f, hf, hfx⟩ := hb.replayed
  have hbound := hb.bound
  refine ⟨hs, ⟨f, by rw [hlogs, hf], fun a => ?_⟩, ?_, fun x hx => ?_⟩
  · have h1 := hbal a
    have h2 := hfx a
    simp only [pendingDebits, List.map_cons, List.sum_cons] at h2 ⊢
    omega
  · simp only [pendingTotal, List.map_cons, List.sum_cons] at hbound ⊢
    omega
  · rcases List.mem_cons.mp hx with rfl | hx
    · exact hdebit
    · exact hb.outs x hx

theorem pendingDebits_split {outs pre post : List CyclesOutCall} {c : CyclesOutCall}
    (hc : outs = pre ++ c :: post) (a : Account) :
    pendingDebits outs a =
      atAccount c.caller_icrc_id.account c.debit a + pendingDebits (pre ++ post) a := by
  simp only [pendingDebits, hc, List.map_append, List.map_cons, List.sum_append, List.sum_cons]
  omega

theorem pendingTotal_split {outs pre post : List CyclesOutCall} {c : CyclesOutCall}
    (hc : outs = pre ++ c :: post) : pendingTotal outs = c.debit + pendingTotal (pre ++ post) := by
  simp only [pendingTotal, hc, List.map_append, List.map_cons, List.sum_append, List.sum_cons]
  omega

theorem Books.cycles_out_deposited {s : BankSystem} (hb : Books s) {pre post : List CyclesOutCall}
    {c : CyclesOutCall} (now : Nat) (hc : s.cycles_outs = pre ++ c :: post) :
    Books { s with
      bank := (cycles_out_reply c (.ok ()) now s.bank).2
      cycles_outs := pre ++ post
      history := s.history ++ [.cycled_out] } := by
  obtain ⟨log, pointers, hop, hamt, h⟩ := cycles_out_reply_ok c now s.bank
  rw [h]
  obtain ⟨f, hf, hfx⟩ := hb.replayed
  have hown := pendingDebits_split hc c.caller_icrc_id.account
  simp only [atAccount, if_true] at hown
  obtain ⟨g, hg, hgx⟩ := replay_burn hf hop (by rw [hamt, hfx, hown]; omega)
  have hbound := hb.bound
  have htot := pendingTotal_split hc
  refine ⟨by simpa using hb.supply, ⟨g, by simpa using hg, fun a => ?_⟩, ?_, fun x hx => hb.outs x ?_⟩
  · have h1 := hgx a
    have h2 := hfx a
    have h3 := pendingDebits_split hc a
    rw [hamt] at h1
    simp only [balanceAt_logged]
    omega
  · simp only [balancesSum_logged, acceptedOrMinted_append, acceptedOrMinted_cons,
      acceptedOrMinted_nil, BankEvent.cyclesIn]
    omega
  · rw [hc]
    simp only [List.mem_append, List.mem_cons] at hx ⊢
    exact hx.imp_right Or.inr

theorem Books.refund {s : BankSystem} (hb : Books s) (hfit : acceptedOrMinted s.history < 2 ^ 128)
    {pre post : List CyclesOutCall} {c : CyclesOutCall} (hc : s.cycles_outs = pre ++ c :: post) :
    SupplyOk (add_cycles_balance s.bank c.caller_icrc_id c.debit) ∧
      balancesSum (add_cycles_balance s.bank c.caller_icrc_id c.debit) =
        balancesSum s.bank + c.debit ∧
      ∀ x, balanceAt (add_cycles_balance s.bank c.caller_icrc_id c.debit) x =
        balanceAt s.bank x + atAccount c.caller_icrc_id.account c.debit x := by
  have hbound := hb.bound
  have htot := pendingTotal_split hc
  exact add_cycles_balance_spec hb.supply c.caller_icrc_id (by omega)

theorem Books.cycles_out_failed {s : BankSystem} (hb : Books s)
    (hfit : acceptedOrMinted s.history < 2 ^ 128) {pre post : List CyclesOutCall}
    {c : CyclesOutCall} (held now : Nat) (e : CallError) (hc : s.cycles_outs = pre ++ c :: post) :
    Books { s with
      bank := (cycles_out_reply c (.error e) now s.bank).2
      held := held
      cycles_outs := pre ++ post
      history := s.history ++ [.cycles_out_failed] } := by
  rw [cycles_out_reply_error]
  obtain ⟨hs1, hsum1, hbal1⟩ := hb.refund hfit hc
  obtain ⟨f, hf, hfx⟩ := hb.replayed
  have hbound := hb.bound
  have htot := pendingTotal_split hc
  refine ⟨hs1, ⟨f, by simpa using hf, fun a => ?_⟩, ?_, fun x hx => hb.outs x ?_⟩
  · have h1 := hbal1 a
    have h2 := hfx a
    have h3 := pendingDebits_split hc a
    simp only
    omega
  · simp only [acceptedOrMinted_append, acceptedOrMinted_cons, acceptedOrMinted_nil,
      BankEvent.cyclesIn]
    omega
  · rw [hc]
    simp only [List.mem_append, List.mem_cons] at hx ⊢
    exact hx.imp_right Or.inr

/-! ## Mints on the books -/

/-- Balances, supply and log are the same. -/
def SameBooks (b b' : BankState) : Prop :=
  b'.cycles_balances = b.cycles_balances ∧ b'.cb_data.total_supply = b.cb_data.total_supply ∧
    b'.logs = b.logs

theorem insert_mint_books (b : BankState) (u : Principal) (d : MintCyclesMidCallData) :
    SameBooks b (insert_mint b u d) := by cases b; exact ⟨rfl, rfl, rfl⟩

theorem remove_mint_books (b : BankState) (u : Principal) : SameBooks b (remove_mint b u) := by
  cases b; exact ⟨rfl, rfl, rfl⟩

theorem SameBooks.trans {b b' b'' : BankState} (h : SameBooks b b') (h' : SameBooks b' b'') :
    SameBooks b b'' :=
  ⟨h'.1.trans h.1, h'.2.1.trans h.2.1, h'.2.2.trans h.2.2⟩

theorem SameBooks.balanceAt {b b' : BankState} (h : SameBooks b b') (a : Account) :
    Bank.balanceAt b' a = Bank.balanceAt b a := by
  rw [Bank.balanceAt, Bank.balanceAt, h.1]

theorem SameBooks.balancesSum {b b' : BankState} (h : SameBooks b b') :
    Bank.balancesSum b' = Bank.balancesSum b := by
  rw [Bank.balancesSum, Bank.balancesSum, h.1]

theorem SameBooks.supplyOk {b b' : BankState} (h : SameBooks b b') (hs : SupplyOk b) : SupplyOk b' := by
  rw [SupplyOk, h.2.1, h.balancesSum]
  exact hs

theorem Books.same {s s' : BankSystem} (hb : Books s) (h : SameBooks s.bank s'.bank)
    (ho : s'.cycles_outs = s.cycles_outs)
    (hh : acceptedOrMinted s'.history = acceptedOrMinted s.history) : Books s' := by
  obtain ⟨f, hf, hfx⟩ := hb.replayed
  refine ⟨h.supplyOk hb.supply, ⟨f, by rw [h.2.2, hf], fun a => ?_⟩, ?_, by rw [ho]; exact hb.outs⟩
  · rw [h.balanceAt, ho, hfx]
  · rw [h.balancesSum, ho, hh]
    exact hb.bound

/-- A piece of a mint that credits nothing. -/
def Quiet (b : BankState) (user_id : Principal) (r : BankState × MintProgress) : Prop :=
  SameBooks b r.1 ∧ r.2.events user_id = []

theorem mint_cycles_notify_quiet (user_id id : Principal) {d : MintCyclesMidCallData}
    (canister_balance now : Nat) (b : BankState) {block_height : Nat} (hc : d.cmc_cycles = none)
    (hb : d.cmc_icp_transfer_block_height = some block_height) :
    Quiet b user_id (mint_cycles_notify user_id id d canister_balance now b) := by
  rcases mint_cycles_notify_cases user_id id d canister_balance now b hc hb with ⟨h, -⟩ | ⟨e, h⟩
  · rw [h]
    exact ⟨⟨rfl, rfl, rfl⟩, rfl⟩
  · rw [h]
    exact ⟨insert_mint_books _ _ _, rfl⟩

theorem Books.quiet {s : BankSystem} (hb : Books s) {user_id : Principal}
    {r : BankState × MintProgress} (hq : Quiet s.bank user_id r) (mints : List MintCall)
    {es : List BankEvent} (hes : acceptedOrMinted es = 0) :
    Books (s.afterMint mints es user_id r) := by
  refine hb.same hq.1 rfl ?_
  rw [BankSystem.afterMint, hq.2]
  simp [acceptedOrMinted_append, hes]

theorem mint_cycles_quiet {caller id : Principal} {canister_balance now : Nat} {q : MintCyclesQuest}
    {b : BankState} {r : BankState × MintProgress}
    (h : mint_cycles caller id canister_balance now q b = .ok r) : Quiet b caller r := by
  obtain ⟨-, d, args, -, -, -, rfl⟩ := mint_cycles_ok h
  exact ⟨insert_mint_books _ _ _, rfl⟩

theorem complete_mint_cycles_quiet {s : BankSystem} {phase : Principal → Tickets.Phase Nat}
    (hp : MintsAt s phase) {for_user : Option Principal} {caller id : Principal}
    {canister_balance now : Nat} {r : BankState × MintProgress}
    (h : complete_mint_cycles for_user caller id canister_balance now s.bank = .ok r) :
    Quiet s.bank (for_user.getD caller) r := by
  obtain ⟨d, hd, hl, rfl⟩ := complete_mint_cycles_ok h
  have hk := hp (for_user.getD caller)
  rw [hd] at hk
  obtain ⟨-, hu, b, hb, -⟩ := hk.of_unlocked hl
  rw [mint_cycles_of_height _ id { d with lock := true } _ _ _ hb]
  have hq := mint_cycles_notify_quiet (for_user.getD caller) id (d := { d with lock := true })
    canister_balance now (insert_mint s.bank (for_user.getD caller) { d with lock := true }) hu.2 hb
  exact ⟨(insert_mint_books _ _ _).trans hq.1, hq.2⟩

theorem Books.cmc_answered {s : BankSystem} (hb : Books s) {phase : Principal → Tickets.Phase Nat}
    (hp : MintsAt s phase) {pre post : List MintCall} {c : MintCall} {block_index now : Nat}
    {canister_id : Principal} {r : Except LedgerTopupCyclesCmcNotifyError Nat}
    (hc : s.mints = pre ++ c :: post) (ha : c.await = .cmc_notify block_index canister_id)
    (hfit : acceptedOrMinted (s.afterMint (pre ++ post) [.cmc_answered c.user_id block_index r]
      c.user_id (mint_cycles_notified c r now s.bank)).history < 2 ^ 128) :
    Books (s.afterMint (pre ++ post) [.cmc_answered c.user_id block_index r] c.user_id
      (mint_cycles_notified c r now s.bank)) := by
  obtain ⟨hu, -, hblock⟩ := (call_of_mint hp hc).1.of_cmc_notify ha
  rcases mint_cycles_notified_cases c r now s.bank hblock with
    ⟨cmc_cycles, pointers, success, rfl, h⟩ | ⟨e, -, h⟩ | ⟨e, -, -, h⟩
  · rw [h] at hfit ⊢
    simp only [BankSystem.afterMint, MintProgress.events, acceptedOrMinted_append,
      acceptedOrMinted_cons, acceptedOrMinted_nil, BankEvent.cyclesIn] at hfit
    have hbound := hb.bound
    obtain ⟨f, hf, hfx⟩ := hb.replayed
    obtain ⟨hs1, hsum1, hbal1⟩ := add_cycles_balance_spec hb.supply c.mid_call_data.quest.to
      (n := saturating_sub cmc_cycles c.mid_call_data.fee) (by
        rw [saturating_sub, Word.saturatingSub]; omega)
    have hsame := remove_mint_books (add_cycles_balance s.bank c.mid_call_data.quest.to
      (saturating_sub cmc_cycles c.mid_call_data.fee)) c.user_id
    have hreplay : replay BANK_TRANSFER_FEE
        (s.bank.logs ++ [mintLog c.user_id c.mid_call_data block_index cmc_cycles now]) =
        some (credit f c.mid_call_data.quest.to.account
          (saturating_sub cmc_cycles c.mid_call_data.fee)) := replay_mint hf rfl
    refine ⟨by simpa [BankSystem.afterMint] using hsame.supplyOk hs1,
      ⟨_, by simpa [BankSystem.afterMint] using hreplay, fun a => ?_⟩, ?_, hb.outs⟩
    · have h1 := hbal1 a
      have h2 := hfx a
      simp only [BankSystem.afterMint, balanceAt_logged, hsame.balanceAt, credit_apply]
      omega
    · simp only [BankSystem.afterMint, balancesSum_logged, hsame.balancesSum, hsum1,
        MintProgress.events, acceptedOrMinted_append, acceptedOrMinted_cons, acceptedOrMinted_nil,
        BankEvent.cyclesIn]
      rw [saturating_sub, Word.saturatingSub, hu.1]
      omega
  · rw [h]
    exact hb.quiet ⟨remove_mint_books _ _, rfl⟩ _ rfl
  · rw [h]
    exact hb.quiet ⟨insert_mint_books _ _ _, rfl⟩ _ rfl

/-! ## Every run -/

theorem books_step {id : Principal} {s s' : BankSystem} {phase : Principal → Tickets.Phase Nat}
    (hp : MintsAt s phase) (hfit : CyclesFit s.history) (hfit' : CyclesFit s'.history)
    (hb : Books s) (h : BankStep id s s') : Books s' := by
  cases h with
  | icrc1_transfer h => exact hb.icrc1_transfer hfit.1 h
  | cycles_in _ _ h => exact hb.cycles_in hfit' h
  | cycles_out _ h => exact hb.cycles_out hfit.1 h
  | cycles_out_deposited hc => exact hb.cycles_out_deposited _ hc
  | cycles_out_failed hc => exact hb.cycles_out_failed hfit.1 _ _ _ hc
  | mint_cycles h _ => exact hb.quiet (mint_cycles_quiet h) _ rfl
  | complete_mint_cycles h _ => exact hb.quiet (complete_mint_cycles_quiet hp h) _ rfl
  | icp_transfer_refused hc ha => exact hb.quiet ⟨remove_mint_books _ _, rfl⟩ _ rfl
  | @icp_transferred pre post c args block_height canister_balance now hc ha _ =>
    have hu := ((call_of_mint hp hc).1.of_icp_transfer ha).1
    exact hb.quiet (mint_cycles_notify_quiet c.user_id id
      (d := { c.mid_call_data with cmc_icp_transfer_block_height := some block_height })
      canister_balance now s.bank hu.2 rfl) _ rfl
  | cmc_answered hc ha _ => exact hb.cmc_answered hp hc ha hfit'.1
  | cmc_top_up =>
    refine hb.same ⟨rfl, rfl, rfl⟩ rfl ?_
    simp [acceptedOrMinted_append, BankEvent.cyclesIn]
  | clear_user_logs_pointers_cache => exact hb.same ⟨rfl, rfl, rfl⟩ rfl rfl

theorem CyclesFit.back {id : Principal} {s s' : BankSystem} (h : BankStep id s s')
    (hf : CyclesFit s'.history) : CyclesFit s.history := by
  obtain ⟨es, hes⟩ := h.history_grows
  rw [CyclesFit, hes, acceptedOrMinted_append] at hf
  exact ⟨by omega, hf.2.of_append⟩

theorem books_kept {id : Principal} {held : Nat} {s : BankSystem} (hr : BankReachable id held s)
    (hf : CyclesFit s.history) : Books s := by
  refine Reachable.invariant_while (P := fun s : BankSystem => CyclesFit s.history)
    (I := Books) (fun s s' h hf => hf.back h) ?_ ?_ hr hf
  · rintro s rfl -
    exact ⟨rfl, ⟨fun _ => 0, rfl, fun a => rfl⟩, Or.inl rfl, by simp⟩
  · intro s s' hr hf hf' hb h
    obtain ⟨phase, hp⟩ := mints_at hr
    exact books_step hp hf hf' hb h

/-- A failed `cycles_out` gives its account and the supply back what its start took, and neither
touches the log. -/
def CyclesOutUndone (s : BankSystem) (c : CyclesOutCall) : Prop :=
  (∀ caller now q b, cycles_out caller now q s.bank = .ok (c, b) →
    b.logs = s.bank.logs ∧
      b.cb_data.total_supply + (c.q.cycles + BANK_TRANSFER_FEE) = s.bank.cb_data.total_supply ∧
      ∀ a, balanceAt b a + atAccount c.caller_icrc_id.account (c.q.cycles + BANK_TRANSFER_FEE) a =
        balanceAt s.bank a) ∧
  (c ∈ s.cycles_outs → ∀ e now,
    (cycles_out_reply c (.error e) now s.bank).2.logs = s.bank.logs ∧
      (cycles_out_reply c (.error e) now s.bank).2.cb_data.total_supply =
        s.bank.cb_data.total_supply + (c.q.cycles + BANK_TRANSFER_FEE) ∧
      ∀ a, balanceAt (cycles_out_reply c (.error e) now s.bank).2 a =
        balanceAt s.bank a + atAccount c.caller_icrc_id.account (c.q.cycles + BANK_TRANSFER_FEE) a)

theorem Books.undone {s : BankSystem} (hb : Books s) (hfit : acceptedOrMinted s.history < 2 ^ 128)
    (c : CyclesOutCall) : CyclesOutUndone s c := by
  refine ⟨fun caller now q b h => ?_, fun hmem e now => ?_⟩
  · obtain ⟨-, hdebit, hs1, hsum1, hbal1, hlogs⟩ := hb.cycles_out_effect hfit h
    have hs := hb.supply
    rw [SupplyOk] at hs hs1
    rw [hdebit] at hsum1 hbal1
    exact ⟨hlogs, by omega, hbal1⟩
  · obtain ⟨pre, post, hc⟩ := List.append_of_mem hmem
    obtain ⟨hs1, hsum1, hbal1⟩ := hb.refund hfit hc
    have hs := hb.supply
    rw [cycles_out_reply_error]
    rw [hb.outs c hmem] at hs1 hsum1 hbal1 ⊢
    rw [SupplyOk] at hs hs1
    exact ⟨add_cycles_balance_logs _ _ _, by omega, hbal1⟩

/-- Supply and balances agree, the log replays to the balances and the unresolved debits without
going negative, and a failed `cycles_out` leaves no trace. -/
def BooksAgree (s : BankSystem) : Prop :=
  s.bank.cb_data.total_supply = balancesSum s.bank ∧
    (∃ f, replay BANK_TRANSFER_FEE s.bank.logs = some f ∧
      ∀ a, f a = balanceAt s.bank a + pendingDebits s.cycles_outs a) ∧
    ∀ c, CyclesOutUndone s c

theorem books_agree_with_log {id : Principal} {held : Nat} {s : BankSystem}
    (hr : BankReachable id held s) (hsum : acceptedOrMinted s.history < 2 ^ 128)
    (hexact : CyclesInExact s.history) : BooksAgree s := by
  have hb := books_kept hr ⟨hsum, hexact⟩
  exact ⟨hb.supply, hb.replayed, hb.undone hsum⟩

/-! A run: cycles come in, and some of them are on their way out. -/

def someCyclesIn (cycles : Nat) : CyclesInQuest :=
  { cycles := cycles, fee := none, «to» := ⟨someUser, none⟩, memo := none, created_at_time := none }

def someCyclesOut : CyclesOutQuest :=
  { cycles := TRILLION, fee := none, from_subaccount := none, memo := none, for_canister := bankId,
    created_at_time := none }

def broughtIn (cycles available : Nat) : BankSystem :=
  { bank := ((cycles_in someUser 0 available (someCyclesIn cycles) .new).getD (0, .new)).2
    held := 0 + cycles_in_accept (someCyclesIn cycles)
    cycles_outs := [], mints := [], history := [] ++ [.cycled_in cycles] }

theorem broughtIn_reachable {cycles available : Nat} (havail : available < 2 ^ 128)
    (hq : cycles < 2 ^ 128)
    (h : (cycles_in someUser 0 available (someCyclesIn cycles) .new).isOk = true) :
    BankReachable bankId 0 (broughtIn cycles available) := by
  have hok := Outcome.eq_ok (0, .new) h
  have hstep : BankStep bankId ⟨.new, 0, [], [], []⟩ (broughtIn cycles available) :=
    .cycles_in havail hq hok
  exact .next (.start rfl) hstep

/-- A user's transfer, if the bank executes it. -/
def BankSystem.transferred (s : BankSystem) (caller : Principal) (now : Nat) (q : Icrc1TransferQuest) :
    BankSystem :=
  match icrc1_transfer caller now q s.bank with
  | .ok (_, b) => { s with bank := b, history := s.history ++ [.transferred] }
  | _ => s

theorem transferred_step (id : Principal) (s : BankSystem) (caller : Principal) (now : Nat)
    (q : Icrc1TransferQuest) : s.transferred caller now q = s ∨
      (s.transferred caller now q).history = s.history ++ [.transferred] ∧
        BankStep id s (s.transferred caller now q) := by
  unfold BankSystem.transferred
  split
  · rename_i hok
    exact Or.inr ⟨rfl, .icrc1_transfer hok⟩
  · exact Or.inl rfl

theorem transferred_reachable {id : Principal} {held : Nat} {s : BankSystem}
    (r : BankReachable id held s) (caller : Principal) (now : Nat) (q : Icrc1TransferQuest) :
    BankReachable id held (s.transferred caller now q) := by
  rcases transferred_step id s caller now q with hsame | ⟨-, hstep⟩
  · rw [hsame]
    exact r
  · exact .next r hstep

def leaving : BankSystem :=
  let s := broughtIn (3 * TRILLION) (4 * TRILLION)
  { s with
    bank := ((cycles_out someUser 0 someCyclesOut s.bank).getD (⟨someUser, someCyclesOut⟩, .new)).2
    held := s.held - someCyclesOut.cycles
    cycles_outs := ((cycles_out someUser 0 someCyclesOut s.bank).getD
      (⟨someUser, someCyclesOut⟩, .new)).1 :: s.cycles_outs }

theorem broughtIn_some_reachable :
    BankReachable bankId 0 (broughtIn (3 * TRILLION) (4 * TRILLION)) :=
  broughtIn_reachable (by decide +kernel) (by decide +kernel) (by decide +kernel)

theorem leaving_step : BankStep bankId (broughtIn (3 * TRILLION) (4 * TRILLION)) leaving := by
  have hok := Outcome.eq_ok
    (o := cycles_out someUser 0 someCyclesOut (broughtIn (3 * TRILLION) (4 * TRILLION)).bank)
    (⟨someUser, someCyclesOut⟩, .new) (by decide +kernel)
  exact .cycles_out (by decide +kernel) hok

theorem leaving_reachable : BankReachable bankId 0 leaving :=
  .next broughtIn_some_reachable leaving_step

theorem books_agree_while_leaving : BooksAgree leaving := by
  refine books_agree_with_log leaving_reachable (by decide +kernel) fun cycles h => ?_
  obtain rfl : cycles = 3 * TRILLION := by
    simpa [leaving, broughtIn] using h
  decide +kernel

/-- One transfer of all cycles, after a `cycles_in` whose request was cut to a word. -/
def cutTransfer : Icrc1TransferQuest :=
  { «to» := ⟨someUser, none⟩, fee := none, memo := none, from_subaccount := none,
    created_at_time := none, amount := 2 ^ 128 - 1 }

/-- The sum of what was accepted fits a word, but one request was cut, and no fee was taken. -/
theorem books_disagree_when_cut :
    ¬ ∀ (id : Principal) (held : Nat) (s : BankSystem), BankReachable id held s →
      acceptedOrMinted s.history < 2 ^ 128 → BooksAgree s := by
  intro h
  let s := broughtIn (2 ^ 128 - 1) (2 ^ 128 - 1)
  let t := (icrc1_transfer someUser 0 cutTransfer s.bank).getD (0, .new)
  have hok := Outcome.eq_ok (o := icrc1_transfer someUser 0 cutTransfer s.bank) (0, .new)
    (by decide +kernel)
  have hr : BankReachable bankId 0 { s with bank := t.2, history := s.history ++ [.transferred] } :=
    .next (broughtIn_reachable (by decide +kernel) (by decide +kernel) (by decide +kernel))
      (.icrc1_transfer hok)
  obtain ⟨-, ⟨f, hf, -⟩, -⟩ := h _ _ _ hr (by decide +kernel)
  have hnone : (replay BANK_TRANSFER_FEE t.2.logs).isNone = true := by decide +kernel
  simp only [hf] at hnone
  cases hnone

end Cts.Bank
