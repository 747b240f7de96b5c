import Cts.Tc.Paid

/-!
# Solvency

What the positions account of each ledger holds is what the contract still owes, what it keeps, and
what others sent there. Every step moves money between two of these or brings as much as it books.
-/

namespace Cts.Tc

open Lib Lib.Jobs

/-! ## The sums -/

def debits (es : Multiset (Nat × Icrc1TransferQuest)) : Nat := (es.map fun e => e.2.debit).sum

@[simp]
theorem debits_add (xs ys : Multiset (Nat × Icrc1TransferQuest)) :
    debits (xs + ys) = debits xs + debits ys := by
  simp [debits]

/-- A deposit that the ledger executed and whose reply is not processed yet. -/
def UserCall.deposit (kind : PositionKind) (c : UserCall) : Nat :=
  match c.quest, c.reply with
  | .trade q, some r => if q.kind = kind ∧ didExecute r = true then q.quantity else 0
  | _, _ => 0

/-- What there is to pay out of slots without payout data. -/
def unpaid (xs : Multiset PayoutSlot) : Nat :=
  (xs.map fun x => if x.data = none then x.job.trade_mount else 0).sum

/-- The fees and the dust that stay with the contract. -/
def keptFees (xs : Multiset PayoutSlot) : Nat :=
  (xs.map fun x => (x.data.map x.job.kept).getD 0).sum

namespace TcState

def deposits (s : TcState) (kind : PositionKind) : Nat := (s.calls.map (UserCall.deposit kind)).sum

/-- Payouts that the ledger executed and whose results are not on record yet, with the ledger fee. -/
def payoutsUnderWay (s : TcState) (kind : PositionKind) : Nat :=
  debits ((payoutFlights s.runs (.void kind)).filterMap Flight.had) +
    debits ((payoutFlights s.runs (.trade kind)).filterMap Flight.had)

def unpaid (s : TcState) (kind : PositionKind) : Nat :=
  Tc.unpaid (s.cm_data.slots (.void kind)) + Tc.unpaid (s.cm_data.slots (.trade kind))

/-- Of what is still in the queues and of what has left them. -/
def kept (s : TcState) (kind : PositionKind) : Nat :=
  keptFees (s.pool (.void kind)).all + keptFees (s.pool (.trade kind)).all

/-- The payouts that are neither on record nor executed. -/
def owedSlots (s : TcState) (q : Queue) : Multiset PayoutSlot :=
  (s.cm_data.slots q).filter fun x => x.data = none ∧ ¬ x.id ∈ (s.history.executed q).map Prod.fst

/-- What the users still have at the contract. -/
def owed (s : TcState) (kind : PositionKind) : Nat :=
  s.cm_data.quantity kind + s.deposits kind +
    mounts (s.owedSlots (.void kind)) + mounts (s.owedSlots (.trade kind))

/-- All that ever came into the book. -/
def total (s : TcState) (kind : PositionKind) : Nat :=
  s.cm_data.quantity kind + mounts (s.pool (.void kind)).all + mounts (s.pool (.trade kind)).all

/-- All that was ever paid out. -/
def paid (s : TcState) (kind : PositionKind) : Nat :=
  debits (s.history.executed (.void kind) : List (Nat × Icrc1TransferQuest)) +
    debits (s.history.executed (.trade kind) : List (Nat × Icrc1TransferQuest))

end TcState

/-- What came in is still there or was paid out. -/
def Balanced (cfg : TcConfig) (s : TcState) : Prop :=
  ∀ kind, s.ledger kind cfg.positionsAccount + s.paid kind =
    s.total kind + s.deposits kind + s.history.received kind

variable {L : Prop} {cfg : TcConfig} {s s' : TcState} {kind : PositionKind}

/-! ## Ledgers -/

theorem Ledger.transfer_apply {l : Ledger} {source : Account} {amount fee : Nat}
    (h : amount + fee ≤ l source) (target a : Account) :
    l.transfer source target amount fee a + (if source = a then amount + fee else 0) =
      l a + if target = a then amount else 0 := by
  simp only [Ledger.transfer, Function.update_apply]
  by_cases hs : a = source
  · subst hs
    by_cases ht : a = target
    · subst ht
      simp only [if_true]
      omega
    · simp only [if_neg ht, if_neg (Ne.symm ht), if_true]
      omega
  · by_cases ht : a = target
    · subst ht
      simp only [if_neg hs, if_neg (Ne.symm hs), if_true]
      omega
    · simp only [if_neg hs, if_neg ht, if_neg (Ne.symm hs), if_neg (Ne.symm ht)]

theorem receive_received (s : TcState) (cfg : TcConfig) (k : PositionKind) (target : Account)
    (amount : Nat) : (s.receive cfg k target amount).history.received kind =
      s.history.received kind +
        if kind = k ∧ target = cfg.positionsAccount then amount else 0 := by
  simp only [TcState.receive, Function.update_apply]
  by_cases hk : kind = k
  · subst hk
    simp only [if_true, true_and]
  · simp only [hk, false_and, if_false, Nat.add_zero]

theorem received_balance {l : Ledger} {k : PositionKind} {source target : Account} {amount fee : Nat}
    (hs : source ≠ cfg.positionsAccount) (h : amount + fee ≤ s.ledger k source)
    (hl : l = (s.ledger k).transfer source target amount fee) :
    (s.set_ledger k l).ledger kind cfg.positionsAccount = s.ledger kind cfg.positionsAccount +
      if kind = k ∧ target = cfg.positionsAccount then amount else 0 := by
  subst hl
  have happly := Ledger.transfer_apply h target cfg.positionsAccount
  rw [if_neg hs, Nat.add_zero] at happly
  simp only [TcState.set_ledger, Function.update_apply]
  by_cases hk : kind = k
  · subst hk
    simp only [if_true, true_and]
    exact happly
  · simp only [hk, false_and, if_false, Nat.add_zero]

theorem mint_balance (s : TcState) (cfg : TcConfig) (k : PositionKind) (target : Account)
    (amount : Nat) :
    (s.set_ledger k (Function.update (s.ledger k) target (s.ledger k target + amount))).ledger kind
        cfg.positionsAccount =
      s.ledger kind cfg.positionsAccount +
        if kind = k ∧ target = cfg.positionsAccount then amount else 0 := by
  simp only [TcState.set_ledger, Function.update_apply]
  by_cases hk : kind = k
  · subst hk
    by_cases ht : target = cfg.positionsAccount
    · subst ht
      simp only [if_true, and_self, Function.update_self]
    · simp only [ht, if_true, and_false, if_false, Nat.add_zero]
      exact Function.update_of_ne (Ne.symm ht) _ _
  · simp only [hk, false_and, if_false, Nat.add_zero]

theorem payout_balance {q : Queue} {p : Payout} {fee : Nat} {l : Ledger}
    (h : (s.ledger q.kind).Executes cfg.canister_id p.transfer fee l) (kind : PositionKind) :
    (s.set_ledger q.kind l).ledger kind cfg.positionsAccount +
        (if kind = q.kind then p.transfer.debit else 0) =
      s.ledger kind cfg.positionsAccount +
        if kind = q.kind ∧ p.transfer.to.account = cfg.positionsAccount then p.transfer.amount
        else 0 := by
  obtain rfl : p.ledger_transfer_fee = fee := h.fee_eq _ rfl
  have happly := Ledger.transfer_apply h.funds p.transfer.to.account cfg.positionsAccount
  rw [← h.eq] at happly
  simp only [TcState.set_ledger, Function.update_apply]
  by_cases hk : kind = q.kind
  · subst hk
    simp only [if_true, true_and]
    exact (congrArg (_ + ·) (if_pos rfl).symm).trans happly
  · simp only [hk, false_and, if_false]

theorem debits_execute (h : History) (q q' : Queue) (e : Nat × Icrc1TransferQuest) :
    debits ((h.execute q e).executed q' : List (Nat × Icrc1TransferQuest)) =
      debits (h.executed q' : List (Nat × Icrc1TransferQuest)) + if q' = q then e.2.debit else 0 := by
  simp only [History.execute, Function.update_apply]
  by_cases hq : q' = q
  · subst hq
    simp only [if_true, ← Multiset.coe_add, debits_add, Multiset.coe_singleton]
    simp [debits]
  · simp only [hq, if_false, Nat.add_zero]

theorem paid_execute (h : History) (q : Queue) (e : Nat × Icrc1TransferQuest) (kind : PositionKind) :
    debits ((h.execute q e).executed (.void kind) : List (Nat × Icrc1TransferQuest)) +
      debits ((h.execute q e).executed (.trade kind) : List (Nat × Icrc1TransferQuest)) =
      debits (h.executed (.void kind) : List (Nat × Icrc1TransferQuest)) +
        debits (h.executed (.trade kind) : List (Nat × Icrc1TransferQuest)) +
          if kind = q.kind then e.2.debit else 0 := by
  rw [debits_execute, debits_execute]
  cases q with
  | void k | trade k =>
    by_cases hk : kind = k
    · simp only [hk, Queue.kind, if_true, reduceCtorEq, if_false]
      omega
    · simp only [hk, Queue.kind, Queue.void.injEq, Queue.trade.injEq, reduceCtorEq, if_false]
      omega

theorem userAccount_ne (canister_id caller : Principal) :
    (⟨canister_id, principal_token_subaccount caller⟩ : Account) ≠
      ⟨canister_id, POSITIONS_SUBACCOUNT⟩ := by
  intro h
  exact principal_token_subaccount_ne caller (congrArg Account.subaccount h)

/-! ## Calls -/

theorem deposits_split {pre post : List UserCall} {c : UserCall} :
    ((pre ++ c :: post).map (UserCall.deposit kind)).sum =
      c.deposit kind + ((pre ++ post).map (UserCall.deposit kind)).sum := by
  simp only [List.map_append, List.map_cons, List.sum_append, List.sum_cons]
  omega

theorem deposit_of_none {c : UserCall} (h : c.reply = none) : c.deposit kind = 0 := by
  unfold UserCall.deposit
  rw [h]
  split <;> simp_all

theorem deposit_of_refused {c : UserCall} {r : LedgerTransferReturnType} (h : c.reply = some r)
    (hr : didExecute r = false) : c.deposit kind = 0 := by
  unfold UserCall.deposit
  rw [h]
  split <;> simp_all

theorem deposit_of_trade {c : UserCall} {q : TradeQuest} {r : LedgerTransferReturnType}
    (h : c.reply = some r) (hq : c.quest = .trade q) (hr : didExecute r = true) :
    c.deposit kind = if kind = q.kind then q.quantity else 0 := by
  unfold UserCall.deposit
  rw [h, hq]
  simp only [hr, and_true, eq_comm]

theorem deposit_of_balance {c : UserCall} {k : PositionKind} {q : TransferBalanceQuest}
    (hq : c.quest = .transfer_balance k q) : c.deposit kind = 0 := by
  unfold UserCall.deposit
  rw [hq]

theorem didExecute_of_posit (r : LedgerTransferReturnType) :
    didExecute r = (posit_transfer_error r).isNone := by
  match r with
  | .ok (.ok _) | .ok (.error _) | .error _ => rfl

/-! ## The book and the queues -/

theorem mounts_jobs (xs : Multiset PayoutSlot) :
    mounts xs = ((xs.map fun x => (x.id, x.job)).map fun j => j.2.trade_mount).sum := by
  rw [mounts, Multiset.map_map]
  rfl

theorem Worked.total (h : Worked s s') : s'.total kind = s.total kind := by
  have hjobs : ∀ q, mounts (s'.pool q).all = mounts (s.pool q).all := by
    intro q
    have hq := jobs_works (h.payouts q)
    unfold Pool.jobs at hq
    rw [mounts_jobs, mounts_jobs, hq]
  rw [TcState.total, TcState.total, h.quantity, hjobs, hjobs]

theorem total_eq : s.total kind = s.cm_data.worth kind +
    (mounts (s.leftSlots (.void kind)) + mounts (s.leftSlots (.trade kind))) := by
  simp only [TcState.total, Pool.all, mounts_add, Book.worth, TcState.pool]
  omega

/-! ## Every step -/

theorem Balanced.quiet (h : Balanced cfg s) (ht : ∀ kind, s'.total kind = s.total kind)
    (hs : s'.ledger = s.ledger ∧ s'.history.executed = s.history.executed ∧
      s'.history.received = s.history.received) (hd : ∀ kind, s'.deposits kind = s.deposits kind) :
    Balanced cfg s' := by
  intro kind
  obtain ⟨hl, he, hr⟩ := hs
  rw [ht, hl, hd, hr, TcState.paid, he]
  exact h kind

theorem Balanced.received (h : Balanced cfg s) {k : PositionKind} {l : Ledger} {target : Account}
    {amount : Nat} {calls : List UserCall}
    (hl : ∀ kind, (s.set_ledger k l).ledger kind cfg.positionsAccount =
      s.ledger kind cfg.positionsAccount +
        if kind = k ∧ target = cfg.positionsAccount then amount else 0)
    (hcalls : ∀ kind, (calls.map (UserCall.deposit kind)).sum = s.deposits kind) :
    Balanced cfg { (s.set_ledger k l).receive cfg k target amount with calls := calls } := by
  intro kind
  have hold := h kind
  change (s.set_ledger k l).ledger kind _ + s.paid kind =
    s.total kind + (calls.map (UserCall.deposit kind)).sum +
      (s.receive cfg k target amount).history.received kind
  rw [hl, receive_received, hcalls]
  omega

theorem balanced_step (hm : Market L s) (hL : L → FeesOk s.history) (hq : Queues s)
    (h : Balanced cfg s) (hstep : TcStep cfg s s') : Balanced cfg s' := by
  cases hstep with
  | trade ht =>
    obtain ⟨rfl, -⟩ := _trade_spec ht
    refine h.quiet (fun _ => rfl) ⟨rfl, rfl, rfl⟩ fun kind => ?_
    simp only [TcState.deposits, List.map_cons, List.sum_cons, deposit_of_none, Nat.zero_add]
  | transfer_balance ht =>
    obtain ⟨rfl, -⟩ := _transfer_balance_spec ht
    refine h.quiet (fun _ => rfl) ⟨rfl, rfl, rfl⟩ fun kind => ?_
    simp only [TcState.deposits, List.map_cons, List.sum_cons, deposit_of_none, Nat.zero_add]
  | @deposit_executed pre post c q fee l block hc hr hquest hl =>
    intro kind
    have ht : c.transfer cfg.canister_id = q.posit_transfer cfg.canister_id c.caller := by
      rw [UserCall.transfer, hquest]
    rw [ht] at hl
    have hbalance : (s.set_ledger q.kind l).ledger kind cfg.positionsAccount = _ :=
      received_balance (userAccount_ne cfg.canister_id c.caller) hl.funds hl.eq
    -- The call now counts as a deposit, so both sides grow by the quantity.
    have hdeposit : ({ c with reply := some (.ok (.ok block)) } : UserCall).deposit kind =
        if kind = q.kind then q.quantity else 0 := deposit_of_trade rfl hquest rfl
    have hold := h kind
    change _ + s.paid kind = s.total kind + _ + s.history.received kind
    simp only [TcState.deposits, hc, deposits_split, deposit_of_none hr, hdeposit] at hold ⊢
    rw [hbalance]
    change _ + (if kind = q.kind ∧ cfg.positionsAccount = cfg.positionsAccount then q.quantity
      else 0) + _ = _
    simp only [and_true]
    omega
  | @balance_executed pre post c k q fee l block hc hr hquest hl =>
    have ht : c.transfer cfg.canister_id = q.posit_transfer c.caller := by
      rw [UserCall.transfer, hquest]
    rw [ht] at hl
    refine h.received (fun kind => received_balance
      (userAccount_ne cfg.canister_id c.caller) hl.funds hl.eq) fun kind => ?_
    simp only [TcState.deposits, hc, deposits_split, deposit_of_none hr,
      deposit_of_balance (c := { c with reply := some (.ok (.ok block)) }) hquest]
  | @call_refused pre post c r hc hr hn =>
    refine h.quiet (fun _ => rfl) ⟨rfl, rfl, rfl⟩ fun kind => ?_
    simp only [TcState.deposits, hc, deposits_split, deposit_of_none hr,
      deposit_of_refused (c := { c with reply := some r }) rfl hn]
  | @trade_failed pre post c q r e hc hr hquest he =>
    refine h.quiet (fun _ => rfl) ⟨rfl, rfl, rfl⟩ fun kind => ?_
    have hn : didExecute r = false := by rw [didExecute_of_posit, he]; rfl
    simp only [TcState.deposits, hc, deposits_split, deposit_of_refused hr hn, Nat.zero_add]
  | @trade_committed pre post c q r now instruction_counter hc hr hquest he =>
    intro kind
    have hadmitted := hm.admitted c (by rw [hc]; simp) q hquest
    -- The deposit stops counting and becomes worth of the book.
    have hworth := (hm.commit_ok cfg hL hadmitted now instruction_counter c.caller).worth kind
    have hdone : didExecute r = true := by rw [didExecute_of_posit, he]; rfl
    have hold := h kind
    change s.ledger kind _ + s.paid kind = _ + _ + s.history.received kind
    rw [total_eq] at hold ⊢
    simp only [TcState.deposits, hc, deposits_split, deposit_of_trade hr hquest hdone] at hold
    change _ = Book.worth (q.match_trades s.cm_data.toBook (s.match_env cfg now instruction_counter)
      s.cm_data.positions_id_counter c.caller).book kind + (mounts (s.leftSlots (.void kind)) +
        mounts (s.leftSlots (.trade kind))) + ((pre ++ post).map (UserCall.deposit kind)).sum + _
    rw [hworth]
    omega
  | @balance_replied pre post c k q r hc hr hquest =>
    refine h.quiet (fun _ => rfl) ⟨rfl, rfl, rfl⟩ fun kind => ?_
    simp only [TcState.deposits, hc, deposits_split, deposit_of_balance hquest, Nat.zero_add]
  | @void_position caller position_id now b hv =>
    have hframe := (void_position_frame hm.book hm.sound hv).1
    refine h.quiet (fun kind => ?_) ⟨rfl, rfl, rfl⟩ fun kind => rfl
    rw [total_eq, total_eq]
    exact congrArg (· + _) (hframe.worth kind)
  | @others_transfer k source target amount fee hs hf =>
    have hne : source ≠ cfg.positionsAccount := fun heq => hs (congrArg Account.owner heq)
    exact h.received (fun _ => received_balance hne hf rfl) fun _ => rfl
  | @others_mint k target amount =>
    exact h.received (fun _ => mint_balance s cfg k target amount) fun _ => rfl
  | do_payouts_replied trades_env positions_env hcalls =>
    exact h.quiet (fun _ => (moved_worked trades_env positions_env _).total) ⟨rfl, rfl, rfl⟩
      fun _ => rfl
  | payouts_started hp =>
    exact h.quiet (fun _ => (started_worked hp).total) ⟨rfl, rfl, rfl⟩ fun _ => rfl
  | @payout_executed before after run q pre post p fee l block hr hp hs hl =>
    intro kind
    have hold := h kind
    -- What leaves the account is counted as paid from here on.
    have hbalance := payout_balance hl kind
    have hpaid := paid_execute s.history q (p.id, p.transfer) kind
    change (s.set_ledger q.kind l).ledger kind _ + _ = s.total kind + s.deposits kind +
      (s.receive cfg q.kind p.transfer.to.account p.transfer.amount).history.received kind
    rw [receive_received]
    refine (congrArg (_ + ·) hpaid).trans ?_
    rw [TcState.paid] at hold
    simp only
    omega
  | payouts_ended hr hf =>
    exact h.quiet (fun _ => (ended_worked hm hq hr hf).total) ⟨rfl, rfl, rfl⟩ fun _ => rfl
  | payout_refused | payout_replied | update_executed | update_failed | do_payouts
  | do_payouts_failed | positions_flush | trades_flush =>
    exact h.quiet (fun _ => rfl) ⟨rfl, rfl, rfl⟩ fun _ => rfl

theorem balanced_init (h : TcInit cfg s) : Balanced cfg s := by
  obtain ⟨fees, positions_module_hash, trades_module_hash, ledger, rfl⟩ := h
  intro kind
  cases kind
  · exact (Nat.zero_add _).symm
  · exact (Nat.zero_add _).symm

theorem balanced_inv (r : TcReachable cfg s) : Balanced cfg s := by
  refine r.invariant (fun _ => balanced_init) fun s s' r h hstep => ?_
  have hm : Market False s := market_inv r False.elim
  exact balanced_step hm False.elim (queues_inv r) h hstep

/-! ## Paid, kept or still owed -/

theorem debits_filterMap {α : Type} (g : α → Option (Nat × Icrc1TransferQuest)) (xs : Multiset α) :
    debits (xs.filterMap g) = (xs.map fun x => ((g x).map fun e => e.2.debit).getD 0).sum := by
  induction xs using Multiset.induction_on with
  | empty => rfl
  | cons x xs ih =>
    rw [Multiset.map_cons, Multiset.sum_cons, ← ih]
    cases hx : g x with
    | none =>
      rw [Multiset.filterMap_cons_none _ _ hx]
      exact (Nat.zero_add _).symm
    | some e =>
      rw [Multiset.filterMap_cons_some _ _ _ hx, debits, Multiset.map_cons, Multiset.sum_cons]
      rfl

theorem slot_mount {x : PayoutSlot}
    (h : ∀ e, x.effect payoutEffect = some e → 0 < e.2.amount) :
    x.job.trade_mount = (if x.data = none then x.job.trade_mount else 0) +
      (x.data.map x.job.kept).getD 0 +
        ((x.effect payoutEffect).map fun e => e.2.debit).getD 0 := by
  obtain ⟨id, job, lock, data⟩ := x
  cases data with
  | none => rfl
  | some pd =>
    have heffect : Slot.effect payoutEffect (⟨id, job, lock, some pd⟩ : PayoutSlot) =
        (payoutEffect job pd).map (id, ·) := rfl
    rw [heffect] at h ⊢
    unfold payoutEffect at h ⊢
    unfold DoPayoutQuest.kept
    by_cases hpd : pd.did_transfer = true
    · rw [if_pos hpd] at h ⊢
      have hworth := payout_transfer_amount_pos.mp (h _ rfl)
      have hdebit := debit_add_kept hworth
      simp only [Option.map_some, Option.getD_some, reduceCtorEq, if_false, if_pos hpd]
      omega
    · simp [hpd]

theorem mounts_split (xs : Multiset PayoutSlot)
    (h : ∀ x ∈ xs, ∀ e, x.effect payoutEffect = some e → 0 < e.2.amount) :
    mounts xs = unpaid xs + keptFees xs + debits (xs.filterMap (Slot.effect payoutEffect)) := by
  rw [debits_filterMap]
  induction xs using Multiset.induction_on with
  | empty => rfl
  | cons x xs ih =>
    have hx := slot_mount (h x (Multiset.mem_cons_self _ _))
    have ih := ih fun y hy => h y (Multiset.mem_cons_of_mem hy)
    simp only [mounts_cons, unpaid, keptFees, Multiset.map_cons, Multiset.sum_cons] at ih ⊢
    omega

theorem unpaid_of_settled {xs : Multiset PayoutSlot} (h : ∀ x ∈ xs, x.data.isSome) :
    unpaid xs = 0 := by
  refine Multiset.sum_eq_zero fun n hn => ?_
  obtain ⟨x, hx, rfl⟩ := Multiset.mem_map.mp hn
  rw [if_neg]
  exact Option.isSome_iff_ne_none.mp (h x hx)

theorem queue_split (r : TcReachable cfg s) (q : Queue) :
    mounts (s.pool q).all + debits ((payoutFlights s.runs q).filterMap Flight.had) =
      unpaid (s.cm_data.slots q) + keptFees (s.pool q).all +
        debits (s.history.executed q : List (Nat × Icrc1TransferQuest)) := by
  have hk := (queues_inv r).payouts q
  have hhad := congrArg debits hk.had_eq
  rw [debits_add] at hhad
  have hsplit := mounts_split (s.pool q).all fun x hx e he => by
    refine (priced_inv r).executed q e (Multiset.mem_coe.mp ?_)
    change e ∈ (s.pool q).had
    rw [hk.had_eq]
    exact Multiset.mem_add.mpr (Or.inr ((Multiset.mem_filterMap _ _).mpr ⟨x, hx, he⟩))
  have hleft : unpaid (s.pool q).all = unpaid (s.cm_data.slots q) := by
    have hzero := unpaid_of_settled hk.left_settled
    unfold unpaid at hzero ⊢
    rw [Pool.all, Multiset.map_add, Multiset.sum_add, hzero, Nat.add_zero]
    rfl
  change debits (s.history.executed q : List _) = debits ((payoutFlights s.runs q).filterMap _) + _
    at hhad
  omega

theorem unpaid_split (p : PayoutSlot → Prop) [DecidablePred p] (xs : Multiset PayoutSlot) :
    unpaid xs = mounts (xs.filter fun x => x.data = none ∧ ¬ p x) +
      mounts (xs.filter fun x => x.data = none ∧ p x) := by
  induction xs using Multiset.induction_on with
  | empty => rfl
  | cons x xs ih =>
    rw [unpaid, Multiset.map_cons, Multiset.sum_cons]
    change _ + unpaid xs = _
    by_cases hx : x.data = none
    · by_cases hp : p x
      · rw [Multiset.filter_cons_of_neg _ (by simp [hp]), Multiset.filter_cons_of_pos _ ⟨hx, hp⟩,
          mounts_cons, if_pos hx]
        omega
      · rw [Multiset.filter_cons_of_pos _ ⟨hx, hp⟩, Multiset.filter_cons_of_neg _ (by simp [hp]),
          mounts_cons, if_pos hx]
        omega
    · rw [Multiset.filter_cons_of_neg _ (by simp [hx]), Multiset.filter_cons_of_neg _ (by simp [hx]),
        if_neg hx]
      omega

/-- The flights that had their effect carry jobs worth at least that much. -/
theorem debits_le_jobs {F : Multiset PayoutFlight}
    (h : ∀ f ∈ F, ∀ e, f.had = some e → e.2.debit ≤ f.job.trade_mount) :
    ∃ A ≤ F, (∀ f ∈ A, f.had.isSome) ∧ debits (F.filterMap Flight.had) ≤
      ((A.map fun f => (f.id, f.job)).map fun j => j.2.trade_mount).sum := by
  induction F using Multiset.induction_on with
  | empty => exact ⟨0, le_rfl, by simp, Nat.zero_le _⟩
  | cons f F ih =>
    obtain ⟨A, hA, hsome, hle⟩ := ih fun g hg => h g (Multiset.mem_cons_of_mem hg)
    cases hf : f.had with
    | none =>
      rw [Multiset.filterMap_cons_none _ _ hf]
      exact ⟨A, hA.trans (Multiset.le_cons_self _ _), hsome, hle⟩
    | some e =>
      have he := h f (Multiset.mem_cons_self _ _) e hf
      refine ⟨f ::ₘ A, Multiset.cons_le_cons f hA, fun g hg => ?_, ?_⟩
      · rcases Multiset.mem_cons.mp hg with rfl | hg
        · rw [hf]
          rfl
        · exact hsome g hg
      · rw [Multiset.filterMap_cons_some _ _ _ hf, debits]
        simp only [Multiset.map_cons, Multiset.sum_cons]
        change _ + debits (F.filterMap Flight.had) ≤ _
        omega

theorem under_way_le (r : TcReachable cfg s) (q : Queue) :
    debits ((payoutFlights s.runs q).filterMap Flight.had) + mounts (s.owedSlots q) ≤
      unpaid (s.cm_data.slots q) := by
  have hk := (queues_inv r).payouts q
  have hhad : ∀ f ∈ payoutFlights s.runs q, ∀ e, f.had = some e → e ∈ s.history.executed q := by
    intro f hf e he
    refine Multiset.mem_coe.mp ?_
    change e ∈ (s.pool q).had
    rw [hk.had_eq]
    exact Multiset.mem_add.mpr (Or.inl ((Multiset.mem_filterMap _ _).mpr ⟨f, hf, he⟩))
  have hdebit : ∀ f ∈ payoutFlights s.runs q, ∀ e, f.had = some e →
      e.2.debit ≤ f.job.trade_mount := by
    intro f hf e he
    have hpos := (priced_inv r).executed q e (hhad f hf e he)
    obtain ⟨run, -, p, -, rfl⟩ := mem_payoutFlights hf
    obtain ⟨t, ht, rfl⟩ := Option.map_eq_some_iff.mp he
    obtain ⟨fee, rfl⟩ := Payout.effect_transfer ht
    have hmount := debit_add_kept (payout_transfer_amount_pos.mp hpos)
    change (payout_transfer p.quest fee).debit ≤ p.quest.trade_mount
    omega
  -- Each of them has a slot of its own, which is executed and has no data yet.
  obtain ⟨A, hA, hsome, hle⟩ := debits_le_jobs hdebit
  have haway := hk.away_le hA (P := fun x => x.data = none ∧ x.id ∈ (s.history.executed q).map Prod.fst)
    fun f hf x hx hid hdata => ?_
  · obtain ⟨rest, hrest⟩ := Multiset.le_iff_exists_add.mp haway
    have hsum := congrArg (fun m : Multiset (Nat × DoPayoutQuest) =>
      (m.map fun j => j.2.trade_mount).sum) hrest
    simp only [Multiset.map_add, Multiset.sum_add] at hsum
    have hexecuted := hle.trans ((Nat.le_add_right _ _).trans hsum.ge)
    rw [← mounts_jobs] at hexecuted
    rw [unpaid_split (fun x => x.id ∈ (s.history.executed q).map Prod.fst), Nat.add_comm]
    exact Nat.add_le_add_left hexecuted _
  · obtain ⟨e, he⟩ := Option.isSome_iff_exists.mp (hsome f hf)
    refine ⟨hdata, List.mem_map.mpr ⟨e, hhad f (Multiset.mem_of_le hA hf) e he, ?_⟩⟩
    rw [hid]
    exact Flight.had_id he

/-- The positions account of each ledger holds what the book holds, the deposits and payouts whose
replies are under way taken into account, and beside it what the contract kept and what others sent
there. It never holds less than what the users are still owed. -/
theorem contract_is_solvent (cfg : TcConfig) (s : TcState) (r : TcReachable cfg s)
    (kind : PositionKind) :
    s.ledger kind cfg.positionsAccount + s.payoutsUnderWay kind =
        s.cm_data.quantity kind + s.deposits kind + s.unpaid kind + s.kept kind +
          s.history.received kind ∧
      s.owed kind ≤ s.ledger kind cfg.positionsAccount := by
  have hbalance := balanced_inv r kind
  have hvoid := queue_split r (.void kind)
  have htrade := queue_split r (.trade kind)
  have hvoids := under_way_le r (.void kind)
  have htrades := under_way_le r (.trade kind)
  unfold TcState.paid TcState.total at hbalance
  unfold TcState.payoutsUnderWay TcState.owed TcState.unpaid TcState.kept
  omega

theorem short_run_is_solvent : Sample.final.payoutsUnderWay .Cycles ≠ 0 ∧
    Sample.final.owed .Cycles ≤ Sample.final.ledger .Cycles Sample.config.positionsAccount := by
  refine ⟨?_, (contract_is_solvent _ _ Sample.final_reachable .Cycles).2⟩
  decide +kernel

end Cts.Tc
