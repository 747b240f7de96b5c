import Cts.Tc.Reconcile
import Cts.Tc.Settled

/-!
# Every order can be taken back

While the ledgers keep their fees, what is left of a position can always be had: `void_position` asks
no ledger, its payout is worth the fee, and the payouts can all be done. So is every trade settled.
-/

namespace Cts.Tc

open Lib Lib.Jobs CurrentPositionTrait

variable {cfg : TcConfig} {fee : PositionKind → Nat} {s s' : TcState} {kind : PositionKind}
  {id : PositionId}

/-! ## What is worth its fee gets paid -/

theorem drain_fees (r : SteadyReachable cfg s) (h : KnowsFees fee s) (hfee : ∀ kind, fee kind < 2 ^ 128)
    (hruns : Runs (DrainStep cfg fee) s s') : SteadyReachable cfg s' ∧ KnowsFees fee s' := by
  induction hruns with
  | start hs => exact hs ▸ ⟨r, h⟩
  | next _ hstep ih =>
    obtain ⟨r, h⟩ := ih
    refine ⟨r.next ⟨hstep.step, ?_⟩, h.honest hfee ⟨hstep.step, hstep.quiet⟩⟩
    exact (h.fees_step hstep.step).trans h.fees.symm

/-- Every payout that is worth its fee, by then or before. -/
structure PaysAll (cfg : TcConfig) (fee : PositionKind → Nat) (s s' : TcState) : Prop where
  runs : Runs (HonestStep cfg fee) s s'
  reachable : TcReachable cfg s'
  nothing : nothing_to_pay_out s'.cm_data.toBook
  executed : ∀ q, ∀ x ∈ (s.pool q).all, Worth x.job (fee q.kind) →
    (x.id, payout_transfer x.job (fee q.kind)) ∈ s'.history.executed q

theorem pays_all (r : SteadyReachable cfg s) (h : KnowsFees fee s) (hfee : ∀ kind, fee kind < 2 ^ 128)
    (hids : s.cm_data.positions_id_counter ≤ 2 ^ 128) : ∃ s', PaysAll cfg fee s s' := by
  obtain ⟨s', hdrain, -, hnothing⟩ := drains_to_nothing ⟨r.reachable, hids⟩ hfee
  obtain ⟨r', h'⟩ := drain_fees r h hfee hdrain
  refine ⟨s', hdrain.mono fun _ _ h => ⟨h.step, h.quiet⟩, r'.reachable, hnothing,
    fun q x hx hworth => ?_⟩
  have hjob : (x.id, x.job) ∈ (s'.pool q).jobs := by
    rw [jobs_drain hdrain q]
    exact Multiset.mem_map.mpr ⟨x, hx, rfl⟩
  obtain ⟨y, hy, heq⟩ := Multiset.mem_map.mp hjob
  obtain ⟨hid, hjob⟩ := Prod.mk.inj heq
  have hleft : y ∈ (s'.pool q).left := by
    refine (Pool.mem_all.mp hy).resolve_left fun hslots => ?_
    change y ∈ s'.cm_data.slots q at hslots
    rw [nothing_slots hnothing] at hslots
    exact Multiset.notMem_zero y hslots
  have hdata := ((queues_inv r'.reachable).payouts q).left_settled y hleft
  rw [← hid, ← hjob, ← h'.fees]
  refine settled_executed r' hy hdata ?_
  rw [h'.fees, hjob]
  exact hworth

theorem fee_lt (hfits : ∀ kind, FeeFits (fee kind)) (kind : PositionKind) : fee kind < 2 ^ 128 := by
  have hfit := hfits kind
  unfold FeeFits at hfit
  omega

theorem executed_once (r : TcReachable cfg s) {q : Queue} {id : Nat} {t t' : Icrc1TransferQuest}
    (h : (id, t) ∈ s.history.executed q) (h' : (id, t') ∈ s.history.executed q) : t' = t := by
  have honce := ((queues_inv r).payouts q).once
  rw [TcState.pool, Multiset.map_coe, Multiset.coe_nodup] at honce
  exact congrArg Prod.snd (List.inj_on_of_nodup_map honce h' h rfl)

/-! A and B have traded, A's position is still there, and nothing is paid out yet. -/

namespace Sample

def opened : TcState := (trades.foldlM (TcState.play config) start).getD start

theorem opened_eq : trades.foldlM (TcState.play config) start = some opened :=
  end_of_script (by decide +kernel)

theorem opened_reachable : TcReachable config opened :=
  script_reachable (.start ⟨_, [], [], _, rfl⟩) opened_eq

theorem opened_steady : SteadyReachable config opened :=
  steady_of_history opened_reachable (by decide +kernel)

theorem opened_knows : KnowsFees opened.fees opened := by
  have hruns : opened.runs = [] := List.eq_nil_of_length_eq_zero (by decide +kernel)
  have hcalls : opened.calls = [] := List.eq_nil_of_length_eq_zero (by decide +kernel)
  refine ⟨rfl, fun run hrun => ?_, fun c hc => ?_⟩
  · rw [hruns] at hrun
    exact absurd hrun List.not_mem_nil
  · rw [hcalls] at hc
    exact absurd hc List.not_mem_nil

theorem opened_fits (kind : PositionKind) : FeeFits (opened.fees kind) := by
  cases kind <;> unfold FeeFits <;> decide +kernel

theorem opened_ids : opened.cm_data.positions_id_counter ≤ 2 ^ 128 := by decide +kernel

end Sample

/-! ## Trades -/

/-- While the ledgers keep their fees, there is always a way for the contract and honest ledgers to
settle all trades: both sides of each trade are paid what they are owed, with one transfer. -/
theorem every_trade_can_be_settled (cfg : TcConfig) (fee : PositionKind → Nat) (s : TcState)
    (r : SteadyReachable cfg s) (hknows : KnowsFees fee s) (hfits : ∀ kind, FeeFits (fee kind))
    (hids : s.cm_data.positions_id_counter ≤ 2 ^ 128) :
    ∃ s', Runs (HonestStep cfg fee) s s' ∧ nothing_to_pay_out s'.cm_data.toBook ∧
      ∀ d ∈ s.history.deals, ∀ kind, ∃ t, d.Paid t kind ∧
        ∀ t', (d.log.log.id, t') ∈ s'.history.executed (.trade kind) ↔ t' = t := by
  have hm : Market False s := market_inv r.reachable False.elim
  obtain ⟨s', hpays⟩ := pays_all r hknows (fee_lt hfits) hids
  refine ⟨s', hpays.runs, hpays.nothing, fun d hd kind => ?_⟩
  obtain ⟨tl, htl, hcore⟩ := hm.log_of_deal hd
  have hworth : Worth (tl.payout_quest kind) (fee kind) := by
    have hfees := hknows.fees
    subst hfees
    exact pays_worth (trade_logs_pay r hfits tl htl) kind
  have hexecuted := hpays.executed (.trade kind) (tl.slot kind) (mem_trade_pool.mpr ⟨tl, htl, rfl⟩) hworth
  have hid : (tl.slot kind).id = d.log.log.id := id_of_core hcore
  rw [hid] at hexecuted
  refine ⟨_, deal_paid (hm.deals_ok d hd) hcore (payout_transfer_pays hworth), fun t' => ⟨fun ht' => ?_, ?_⟩⟩
  · exact executed_once hpays.reachable hexecuted ht'
  · rintro rfl
    exact hexecuted

theorem trade_of_A_and_B_settles : Sample.opened.history.deals ≠ [] ∧
    ∃ s', Runs (HonestStep Sample.config Sample.opened.fees) Sample.opened s' ∧
      nothing_to_pay_out s'.cm_data.toBook ∧
      ∀ d ∈ Sample.opened.history.deals, ∀ kind, ∃ t, d.Paid t kind ∧
        ∀ t', (d.log.log.id, t') ∈ s'.history.executed (.trade kind) ↔ t' = t := by
  refine ⟨List.ne_nil_of_length_pos (by decide +kernel), ?_⟩
  exact every_trade_can_be_settled _ _ _ Sample.opened_steady Sample.opened_knows Sample.opened_fits
    Sample.opened_ids

/-! ## Orders -/

/-- What is left of a position, and where it goes back to. -/
structure Order where
  positor : Principal
  quantity : Nat
  return_to_subaccount : Option IcrcSubaccount

def CyclesPosition.order (p : CyclesPosition) : Order :=
  ⟨p.positor, p.current_position_cycles, p.quest.return_cycles_to_subaccount⟩

def TokenPosition.order (p : TokenPosition) : Order :=
  ⟨p.positor, p.current_position_tokens, p.quest.return_tokens_to_subaccount⟩

def Book.order (b : Book) (kind : PositionKind) (id : PositionId) : Option Order :=
  match kind with
  | .Cycles => (b.cycles_positions.get id).map CyclesPosition.order
  | .Token => (b.token_positions.get id).map TokenPosition.order

/-- The payout of a position that is given up. -/
def Order.payout_quest (o : Order) (id : PositionId) : DoPayoutQuest :=
  { trade_mount := o.quantity
    cts_payout_fee := 0
    payee := ⟨o.positor, o.return_to_subaccount⟩
    memo := create_void_token_position_transfer_memo id }

theorem order_worth (r : SteadyReachable cfg s) (hfits : ∀ kind, FeeFits (s.fees kind)) {o : Order}
    (ho : s.cm_data.order kind id = some o) : s.fees kind < o.quantity := by
  have habove := (state_above_inv r hfits).book
  have hmin := minimum_match_eq (hfits kind)
  cases kind with
  | Cycles =>
    obtain ⟨p, hp, rfl⟩ := Option.map_eq_some_iff.mp ho
    have hge : minimum_match (s.fees .Cycles) ≤ p.current_position_cycles := (habove.cycles id p hp).cycles
    change _ < p.current_position_cycles
    omega
  | Token =>
    obtain ⟨p, hp, rfl⟩ := Option.map_eq_some_iff.mp ho
    have hge : minimum_match (s.fees .Token) ≤ p.current_position_tokens := (habove.token id p hp).tokens
    change _ < p.current_position_tokens
    omega

theorem no_wait_time (now timestamp_nanos : Nat) : minimum_wait_time_error now timestamp_nanos = none :=
  if_neg (Nat.not_lt_zero _)

theorem order_void {b : Book} (hb : BookIds b) {o : Order} (ho : b.order kind id = some o) (now : Nat) :
    ∃ b', void_position_ b o.positor id now = .ok b' ∧
      ∃ x ∈ b'.slots (.void kind), x.id = id ∧ x.job = o.payout_quest id := by
  cases kind with
  | Cycles =>
    obtain ⟨p, hp, rfl⟩ := Option.map_eq_some_iff.mp ho
    obtain rfl := hb.cycles id p hp
    refine ⟨b.void_cycles_position p.id p .UserCallVoidPosition now, ?_,
      (p.into_void_position_type .UserCallVoidPosition now).slot, ?_, rfl, rfl⟩
    · unfold void_position_
      rw [hp]
      simp only [CyclesPosition.order, ne_eq, not_true, if_false, no_wait_time]
    · exact mem_voidSlots.mpr ⟨_, ((OrdMap.mem_values_iff _ _).mpr
        ⟨p.id, OrdMap.get_insert_self _ _ _⟩), rfl⟩
  | Token =>
    obtain ⟨p, hp, rfl⟩ := Option.map_eq_some_iff.mp ho
    obtain rfl := hb.token id p hp
    have hnone : b.cycles_positions.get p.id = none := by
      cases hc : b.cycles_positions.get p.id with
      | none => rfl
      | some c => exact absurd rfl (hb.cycles_ne_token hc hp)
    refine ⟨b.void_token_position p.id p .UserCallVoidPosition now, ?_,
      (p.into_void_position_type .UserCallVoidPosition now).slot, ?_, rfl, rfl⟩
    · unfold void_position_
      rw [hnone, hp]
      simp only [TokenPosition.order, ne_eq, not_true, if_false, no_wait_time]
    · exact mem_voidSlots.mpr ⟨_, ((OrdMap.mem_values_iff _ _).mpr
        ⟨p.id, OrdMap.get_insert_self _ _ _⟩), rfl⟩

/-- While the ledgers keep their fees, the positor of any position can give it up at any moment, and
from there the contract and honest ledgers can get to where the positor was paid all that was left of
the position but the fee. -/
theorem every_order_can_be_taken_back (cfg : TcConfig) (fee : PositionKind → Nat) (s : TcState)
    (r : SteadyReachable cfg s) (hknows : KnowsFees fee s) (hfits : ∀ kind, FeeFits (fee kind))
    (hids : s.cm_data.positions_id_counter ≤ 2 ^ 128) (kind : PositionKind) (id : PositionId) (o : Order)
    (ho : s.cm_data.order kind id = some o) (now : Nat) :
    ∃ b, void_position_ s.cm_data.toBook o.positor id now = .ok b ∧
      ∃ s', Runs (HonestStep cfg fee) { s with cm_data := { s.cm_data with toBook := b } } s' ∧
        ∃ t, (id, t) ∈ s'.history.executed (.void kind) ∧ t.from_subaccount = some POSITIONS_SUBACCOUNT ∧
          t.to = ⟨o.positor, o.return_to_subaccount⟩ ∧ 0 < t.amount ∧ t.amount + fee kind = o.quantity := by
  have hm : Market False s := market_inv r.reachable False.elim
  have hworth : fee kind < o.quantity := by
    have hfees := hknows.fees
    subst hfees
    exact order_worth r hfits ho
  obtain ⟨b, hvoid, x, hx, rfl, hjob⟩ := order_void hm.book ho now
  -- Nothing but the book changes, so the fees are known as before.
  have hvoided : SteadyReachable cfg { s with cm_data := { s.cm_data with toBook := b } } :=
    r.next ⟨.void_position hvoid, rfl⟩
  have hknows' : KnowsFees fee { s with cm_data := { s.cm_data with toBook := b } } :=
    ⟨hknows.fees, hknows.payouts, hknows.calls⟩
  obtain ⟨s', hpays⟩ := pays_all hvoided hknows' (fee_lt hfits) hids
  have hamount : (payout_transfer x.job (fee kind)).amount = o.quantity - 0 - fee kind := by
    rw [hjob]
    rfl
  refine ⟨b, hvoid, s', hpays.runs, payout_transfer x.job (fee kind), ?_, rfl, ?_, ?_, ?_⟩
  · refine hpays.executed (.void kind) x (Pool.mem_all.mpr (Or.inl hx)) ?_
    rw [hjob]
    unfold Worth
    simpa [Order.payout_quest, Queue.kind] using hworth
  · rw [hjob]
    rfl
  · omega
  · omega

theorem order_of_A_can_be_taken_back : ∃ o, Sample.opened.cm_data.order .Cycles 0 = some o ∧
    ∃ b, void_position_ Sample.opened.cm_data.toBook o.positor 0 5 = .ok b ∧
      ∃ s', Runs (HonestStep Sample.config Sample.opened.fees)
          { Sample.opened with cm_data := { Sample.opened.cm_data with toBook := b } } s' ∧
        ∃ t, (0, t) ∈ s'.history.executed (.void .Cycles) ∧
          t.from_subaccount = some POSITIONS_SUBACCOUNT ∧
          t.to = ⟨o.positor, o.return_to_subaccount⟩ ∧ 0 < t.amount ∧
          t.amount + Sample.opened.fees .Cycles = o.quantity := by
  have hsome : (Sample.opened.cm_data.order .Cycles 0).isSome = true := by decide +kernel
  obtain ⟨o, ho⟩ := Option.isSome_iff_exists.mp hsome
  refine ⟨o, ho, ?_⟩
  exact every_order_can_be_taken_back _ _ _ Sample.opened_steady Sample.opened_knows
    Sample.opened_fits Sample.opened_ids .Cycles 0 o ho 5

end Cts.Tc
