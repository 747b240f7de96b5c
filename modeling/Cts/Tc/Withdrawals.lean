import Cts.Tc.ExactRuns
import Cts.Tc.Subaccounts
import Cts.Tc.UserCalls

/-!
# Deposits can be taken back

The calls of users that wait for a ledger all end, whatever the ledger makes of their transfers. Then no
lock is left, and a user can transfer what is in the user's subaccount of the contract to anywhere.
-/

namespace Cts.Tc

open Lib

/-! ## The calls in flight end -/

/-- What the ledgers make of the transfers of users' calls: they do what they can, if they want. -/
structure Ledgers where
  fee : PositionKind → Nat
  does : UserCall → Bool
  refusal : UserCall → LedgerTransferReturnType
  refuses : ∀ c, didExecute (refusal c) = false

variable {cfg : TcConfig} {s s' : TcState} {kind : PositionKind} {o : Ledgers}

def Ledgers.Executes (o : Ledgers) (cfg : TcConfig) (s : TcState) (c : UserCall) (l : Ledger) : Prop :=
  o.does c = true ∧ (s.ledger c.quest.kind).Executes cfg.canister_id (c.transfer cfg.canister_id)
    (o.fee c.quest.kind) l

/-- A ledger answers a call, or the contract goes on with an answer. -/
inductive AnswerStep (o : Ledgers) (cfg : TcConfig) (s s' : TcState) : Prop
  | executed {pre post : List UserCall} {c : UserCall} {l : Ledger} (block : Nat)
      (step : TcStep cfg s s') (hc : s.calls = pre ++ c :: post) (hr : c.reply = none)
      (hl : o.Executes cfg s c l)
      (hcalls : s'.calls = pre ++ { c with reply := some (.ok (.ok block)) } :: post)
      (hledger : s'.ledger = Function.update s.ledger c.quest.kind l)
  | refused {pre post : List UserCall} {c : UserCall} (step : TcStep cfg s s')
      (hc : s.calls = pre ++ c :: post) (hr : c.reply = none) (hl : ∀ l, ¬ o.Executes cfg s c l)
      (hcalls : s'.calls = pre ++ { c with reply := some (o.refusal c) } :: post)
      (hledger : s'.ledger = s.ledger)
  | ended {pre post : List UserCall} {c : UserCall} {r : LedgerTransferReturnType}
      (step : TcStep cfg s s') (hc : s.calls = pre ++ c :: post) (hr : c.reply = some r)
      (hcalls : s'.calls = pre ++ post) (hledger : s'.ledger = s.ledger)

theorem AnswerStep.step (h : AnswerStep o cfg s s') : TcStep cfg s s' := by
  cases h with
  | executed _ step => exact step
  | refused step => exact step
  | ended step => exact step

theorem AnswerStep.callers_subset (h : AnswerStep o cfg s s') (kind : PositionKind) :
    callers s'.calls kind ⊆ callers s.calls kind := by
  cases h with
  | executed _ _ hc _ _ hcalls _ =>
    rw [hc, hcalls, callers_middle, callers_middle, callers_cons, callers_cons]
    exact fun p hp => hp
  | refused _ hc _ _ hcalls _ =>
    rw [hc, hcalls, callers_middle, callers_middle, callers_cons, callers_cons]
    exact fun p hp => hp
  | ended _ hc _ hcalls _ =>
    rw [hc, hcalls, callers_middle, callers_cons]
    split_ifs
    · exact Multiset.subset_cons _ _
    · exact fun p hp => hp

/-- How many messages the calls wait for. -/
def messages (calls : List UserCall) : Nat := (calls.map fun c => if c.reply.isNone then 2 else 1).sum

theorem messages_middle (pre post : List UserCall) (c : UserCall) :
    messages (pre ++ c :: post) = messages (pre ++ post) + if c.reply.isNone then 2 else 1 := by
  unfold messages
  simp only [List.map_append, List.map_cons, List.sum_append, List.sum_cons]
  omega

theorem eq_nil_of_messages {calls : List UserCall} (h : messages calls = 0) : calls = [] := by
  cases calls with
  | nil => rfl
  | cons c calls =>
    have hmiddle := messages_middle [] calls c
    simp only [List.nil_append] at hmiddle
    split_ifs at hmiddle <;> omega

theorem callAnswered (o : Ledgers) {pre post : List UserCall} {c : UserCall}
    (hc : s.calls = pre ++ c :: post) (hr : c.reply = none) :
    ∃ s', AnswerStep o cfg s s' ∧ messages s'.calls < messages s.calls := by
  have hless : ∀ r, messages (pre ++ { c with reply := some r } :: post) < messages s.calls := by
    intro r
    rw [hc, messages_middle, messages_middle, hr]
    simp
  by_cases hdoes : ∃ l, o.Executes cfg s c l
  · obtain ⟨l, hl⟩ := hdoes
    cases hq : c.quest with
    | trade q =>
      have hexecutes := hl.2
      rw [hq] at hexecutes
      exact ⟨_, .executed 0 (.deposit_executed 0 hc hr hq hexecutes) hc hr hl rfl (by rw [hq]; rfl),
        hless _⟩
    | transfer_balance kind q =>
      have hexecutes := hl.2
      rw [hq] at hexecutes
      exact ⟨_, .executed 0 (.balance_executed 0 hc hr hq hexecutes) hc hr hl rfl (by rw [hq]; rfl),
        hless _⟩
  · exact ⟨_, .refused (.call_refused _ hc hr (o.refuses c)) hc hr (not_exists.mp hdoes) rfl rfl,
      hless _⟩

theorem call_ended (o : Ledgers) {pre post : List UserCall} {c : UserCall}
    {r : LedgerTransferReturnType} (hc : s.calls = pre ++ c :: post) (hr : c.reply = some r) :
    ∃ s', AnswerStep o cfg s s' ∧ messages s'.calls < messages s.calls := by
  have hless : messages (pre ++ post) < messages s.calls := by
    rw [hc, messages_middle, hr]
    simp
  cases hq : c.quest with
  | trade q =>
    cases he : posit_transfer_error r with
    | none => exact ⟨_, .ended (.trade_committed 0 (fun _ => 0) hc hr hq he) hc hr rfl rfl, hless⟩
    | some e => exact ⟨_, .ended (.trade_failed hc hr hq he) hc hr rfl rfl, hless⟩
  | transfer_balance kind q => exact ⟨_, .ended (.balance_replied hc hr hq) hc hr rfl rfl, hless⟩

/-- What a user without a call of the kind has does not get less. -/
structure Keeps (cfg : TcConfig) (s : TcState) (user : Principal) (kind : PositionKind) (had : Nat) :
    Prop where
  reachable : TcReachable cfg s
  idle : user ∉ callers s.calls kind
  has : had ≤ s.ledger kind (cfg.userAccount user)

theorem Keeps.answer {user : Principal} {had : Nat} (h : Keeps cfg s user kind had)
    (hstep : AnswerStep o cfg s s') : Keeps cfg s' user kind had := by
  refine ⟨h.reachable.next hstep.step, fun hmem => h.idle (hstep.callers_subset kind hmem), ?_⟩
  by_contra hdown
  have hhas := h.has
  obtain ⟨c, ⟨-, pre, post, block, hc, -⟩, hkind, hcaller⟩ :=
    own_call_of_down hstep.step (Nat.lt_of_lt_of_le (Nat.lt_of_not_le hdown) hhas)
  apply h.idle
  rw [hc, callers_middle, callers_cons, if_pos hkind, hcaller]
  exact Multiset.mem_cons_self _ _

theorem Keeps.answers {user : Principal} {had : Nat} (h : Keeps cfg s user kind had)
    (hruns : Runs (AnswerStep o cfg) s s') : Keeps cfg s' user kind had := by
  induction hruns with
  | start heq =>
    rw [heq]
    exact h
  | next _ hstep ih => exact ih.answer hstep

theorem calls_end (o : Ledgers) (r : TcReachable cfg s) :
    ∃ s', Runs (AnswerStep o cfg) s s' ∧ TcReachable cfg s' ∧ s'.calls = [] := by
  have hless : ∀ s, TcReachable cfg s → messages s.calls ≠ 0 →
      ∃ t, Runs (AnswerStep o cfg) s t ∧ TcReachable cfg t ∧ messages t.calls < messages s.calls := by
    intro s hs hleft
    have hone : ∃ t, AnswerStep o cfg s t ∧ messages t.calls < messages s.calls := by
      cases hcalls : s.calls with
      | nil =>
        rw [hcalls] at hleft
        exact absurd rfl hleft
      | cons c calls =>
        have hc : s.calls = [] ++ c :: calls := hcalls
        rw [← hcalls]
        cases hr : c.reply with
        | none => exact callAnswered o hc hr
        | some r => exact call_ended o hc hr
    obtain ⟨t, hstep, hlt⟩ := hone
    exact ⟨t, .next (.start rfl) hstep, hs.next hstep.step, hlt⟩
  obtain ⟨t, hruns, ht, hzero⟩ := runs_to_zero (fun s => messages s.calls) hless r
  exact ⟨t, hruns, ht, eq_nil_of_messages hzero⟩

/-! ## A withdrawal -/

/-- A call of `transfer_cycles_balance` or `transfer_token_balance` that is done: in three messages the
ledger moves the amount, and the contract is as before. -/
structure Withdraws (cfg : TcConfig) (fee : Nat) (user : Principal) (kind : PositionKind)
    (q : TransferBalanceQuest) (s s' : TcState) : Prop where
  steps : ∃ s₁ s₂ block_height, s.transfer_balance user kind q = (s₁, none) ∧ TcStep cfg s s₁ ∧
    TcStep cfg s₁ s₂ ∧ s₂.calls = [⟨user, .transfer_balance kind q, some (.ok (.ok block_height))⟩] ∧
    TcStep cfg s₂ s'
  ledger : s'.ledger = Function.update s.ledger kind
    ((s.ledger kind).transfer (cfg.userAccount user) q.to.account q.amount fee)
  calls : s'.calls = []
  locks : ∀ k, s'.cm_data.mid_call_balance_locks k = ∅
  fees : s'.fees = s.fees
  trace : NoTrace s s'

theorem no_locks (r : TcReachable cfg s) (hcalls : s.calls = []) (kind : PositionKind) :
    s.cm_data.mid_call_balance_locks kind = ∅ := by
  apply Finset.val_eq_zero.mp
  rw [(locks_inv r).callers, hcalls]
  rfl

theorem withdraws (r : TcReachable cfg s) (hcalls : s.calls = []) (user : Principal)
    (kind : PositionKind) {q : TransferBalanceQuest} {fee : Nat}
    (hfee : ∀ f, q.ledger_transfer_fee = some f → f = fee)
    (hfunds : q.amount + fee ≤ s.ledger kind (cfg.userAccount user)) :
    ∃ s', Withdraws cfg fee user kind q s s' := by
  have haccepted : _transfer_balance s.cm_data user kind =
      .ok (s.cm_data.lock_balance kind user) := by
    unfold _transfer_balance
    simp [no_locks r hcalls kind, MAX_MID_CALL_USER_BALANCE_LOCKS]
  let c : UserCall := ⟨user, .transfer_balance kind q, none⟩
  let l : Ledger := (s.ledger kind).transfer (cfg.userAccount user) q.to.account q.amount fee
  let s₁ : TcState := { s with cm_data := s.cm_data.lock_balance kind user, calls := c :: s.calls }
  have hfirst : TcStep cfg s s₁ := .transfer_balance haccepted
  have hc : s₁.calls = [] ++ c :: [] := congrArg (List.cons c) hcalls
  have hexecutes : (s₁.ledger kind).Executes cfg.canister_id (c.transfer cfg.canister_id) fee l :=
    ⟨hfee, hfunds, rfl⟩
  let s₂ : TcState := { (s₁.set_ledger kind l).receive cfg kind q.to.account q.amount with
    calls := [{ c with reply := some (.ok (.ok 0)) }] }
  have hsecond : TcStep cfg s₁ s₂ := .balance_executed 0 hc rfl rfl hexecutes
  have hc₂ : s₂.calls = [] ++ { c with reply := some (.ok (.ok 0)) } :: [] := rfl
  have hthird := @TcStep.balance_replied cfg s₂ [] [] _ kind q _ hc₂ rfl rfl
  refine ⟨_, ⟨s₁, s₂, 0, ?_, hfirst, hsecond, rfl, hthird⟩, rfl, rfl, ?_, ?_,
    ⟨rfl, rfl, rfl, rfl, rfl, rfl⟩⟩
  · unfold TcState.transfer_balance
    rw [haccepted]
  · exact no_locks (((r.next hfirst).next hsecond).next hthird) rfl
  · exact Function.update_eq_self _ _

/-- Whatever the ledgers make of the calls that wait for them, these end, and nothing is taken from a user
without one. From there each amount that is in the user's subaccount and leaves the fee can be
transferred to any account. -/
theorem every_deposit_can_be_withdrawn (cfg : TcConfig) (s : TcState) (r : TcReachable cfg s)
    (o : Ledgers) (user : Principal) (kind : PositionKind) :
    ∃ s₁, Runs (AnswerStep o cfg) s s₁ ∧ s₁.calls = [] ∧
      (user ∉ callers s.calls kind →
        s.ledger kind (cfg.userAccount user) ≤ s₁.ledger kind (cfg.userAccount user)) ∧
      ∀ q : TransferBalanceQuest, (∀ f, q.ledger_transfer_fee = some f → f = o.fee kind) →
        q.amount + o.fee kind ≤ s₁.ledger kind (cfg.userAccount user) →
        ∃ s₂, Withdraws cfg (o.fee kind) user kind q s₁ s₂ := by
  obtain ⟨s₁, hruns, r₁, hcalls⟩ := calls_end o r
  refine ⟨s₁, hruns, hcalls, fun hidle => ?_, fun q hfee hfunds => ?_⟩
  · have hkeeps : Keeps cfg s user kind (s.ledger kind (cfg.userAccount user)) :=
      ⟨r, hidle, Nat.le_refl _⟩
    exact (hkeeps.answers hruns).has
  · exact withdraws r₁ hcalls user kind hfee hfunds

/-- Ledgers that do all they can. -/
def Sample.ledgers : Ledgers where
  fee := fun | .Cycles => 10 | .Token => 2 ^ 64
  does _ := true
  refusal _ := .ok (.error .TemporarilyUnavailable)
  refuses _ := rfl

theorem deposit_of_A_can_be_withdrawn :
    let q : TransferBalanceQuest := ⟨10 ^ 20, some (2 ^ 64), ⟨Sample.A, none⟩⟩
    Sample.crossing.calls.length = 1 ∧ ∃ s₁ s₂,
      Runs (AnswerStep Sample.ledgers Sample.config) Sample.crossing s₁ ∧
        Withdraws Sample.config (2 ^ 64) Sample.A .Token q s₁ s₂ := by
  intro q
  obtain ⟨s₁, hruns, -, hkeeps, hwithdraws⟩ := every_deposit_can_be_withdrawn Sample.config
    Sample.crossing Sample.crossing_reachable.reachable Sample.ledgers Sample.A .Token
  have hfunds := hkeeps (by decide +kernel)
  have hbalance : q.amount + 2 ^ 64 ≤
      Sample.crossing.ledger .Token (Sample.config.userAccount Sample.A) := by
    decide +kernel
  obtain ⟨s₂, hs₂⟩ := hwithdraws q (fun f hf => (Option.some.inj hf).symm) (hbalance.trans hfunds)
  exact ⟨by decide +kernel, s₁, s₂, hruns, hs₂⟩

end Cts.Tc
