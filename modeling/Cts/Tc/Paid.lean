import Cts.Tc.Pools
import Cts.Tc.Script

/-!
# Each payout once, and to the right account

Runs of `_do_payouts` overlap. For each void position and for each side of a trade log one transfer
is executed at most.
-/

namespace Cts.Tc

open Lib Lib.Jobs

/-! ## What a payout moves -/

/-- A transfer out of the positions account of what the two fees leave of `mount`. -/
structure Pays (t : Icrc1TransferQuest) (payee : IcrcId) (mount cts_payout_fee : Nat) : Prop where
  source : t.from_subaccount = some POSITIONS_SUBACCOUNT
  payee_eq : t.to = payee
  amount : ∃ ledger_transfer_fee, t.fee = some ledger_transfer_fee ∧
    cts_payout_fee + ledger_transfer_fee < mount ∧
    t.amount = mount - cts_payout_fee - ledger_transfer_fee

theorem payout_transfer_amount_pos {q : DoPayoutQuest} {fee : Nat} :
    0 < (payout_transfer q fee).amount ↔ Worth q fee := by
  simp only [payout_transfer, saturating_sub, Word.saturatingSub, Worth]
  omega

theorem payout_transfer_pays {q : DoPayoutQuest} {fee : Nat} (h : Worth q fee) :
    Pays (payout_transfer q fee) q.payee q.trade_mount q.cts_payout_fee :=
  ⟨rfl, rfl, fee, rfl, h, rfl⟩

/-- What a trade owes of its cycles and of its tokens, and to whom. -/
def Deal.Paid (d : Deal) (t : Icrc1TransferQuest) : PositionKind → Prop
  | .Cycles =>
    Pays t ⟨d.token_position.positor, d.token_position.quest.payout_cycles_to_subaccount⟩
      d.log.log.cycles d.log.log.cycles_payout_fee
  | .Token =>
    Pays t ⟨d.cycles_position.positor, d.cycles_position.quest.payout_tokens_to_subaccount⟩
      d.log.log.tokens d.log.log.tokens_payout_fee

def VoidPosition.Paid (vp : VoidPosition) (t : Icrc1TransferQuest) : Prop :=
  Pays t ⟨vp.positor, vp.return_to_subaccount⟩ vp.quantity 0

/-! ## Transfers that were sent -/

/-- Only what is worth its fees is sent to the ledger. -/
def PayoutsRun.SentWorth (run : PayoutsRun) : Prop :=
  ∀ q, ∀ p ∈ run.payouts q, p.state = .sent → Worth p.quest p.ledger_transfer_fee

structure Priced (s : TcState) : Prop where
  sent : ∀ run ∈ s.runs, run.SentWorth
  executed : ∀ q, ∀ e ∈ s.history.executed q, 0 < e.2.amount

variable {L : Prop} {cfg : TcConfig} {s s' : TcState} {q : Queue} {kind : PositionKind}

section

variable {before after : List PayoutsRun} {run : PayoutsRun} {pre post : List Payout} {p p' : Payout}

theorem forall_mem_replaced {α : Type} {P : α → Prop} {before after : List α} {x : α}
    (h : ∀ y ∈ before ++ x :: after, P y) {x' : α} (hx : P x → P x') :
    ∀ y ∈ before ++ x' :: after, P y := by
  intro y hy
  rcases List.mem_append.mp hy with hy | hy
  · exact h y (List.mem_append.mpr (Or.inl hy))
  · rcases List.mem_cons.mp hy with rfl | hy
    · exact hx (h x (by simp))
    · exact h y (by simp [hy])

theorem PayoutsRun.SentWorth.set (h : run.SentWorth) (hp : run.payouts q = pre ++ p :: post)
    (hs : p'.state ≠ .sent) : (run.set_payouts q (pre ++ p' :: post)).SentWorth := by
  intro q' x hx hsent
  by_cases hq : q' = q
  · subst hq
    rw [run.set_payouts_self] at hx
    have hold := h q'
    rw [hp] at hold
    exact forall_mem_replaced hold (fun _ hs' => absurd hs' hs) x hx hsent
  · rw [run.set_payouts_of_ne hq] at hx
    exact h q' x hx hsent

end

theorem started_worth {fees : PositionKind → Nat} {cm_data cm_data' : CMData}
    {data data' : LogStorageData} {run : PayoutsRun}
    (h : _do_payouts fees cm_data data = some (cm_data', data', run)) : run.SentWorth := by
  have hs := _do_payouts_spec h
  intro q p hp hsent
  have heq : p = _do_payout p.id (fees q.kind) p.quest := by
    cases q with
    | void kind => exact (hs.voids kind).payouts_eq p hp
    | trade kind => exact (hs.logs kind).payouts_eq p hp
  rw [heq] at hsent
  rw [heq]
  exact _do_payout_sent hsent

theorem priced_step (h : Priced s) (hstep : TcStep cfg s s') : Priced s' := by
  have hsent := h.sent
  cases hstep with
  | payouts_started hp =>
    refine ⟨fun run hrun => ?_, h.executed⟩
    rcases List.mem_append.mp hrun with hrun | hrun
    · exact hsent run hrun
    · rw [List.mem_singleton.mp hrun]
      exact started_worth hp
  | @payout_executed before after run q pre post p fee l block hr hp hs hl =>
    rw [hr] at hsent
    refine ⟨forall_mem_replaced hsent fun hrun => hrun.set hp (by simp), fun q' e he => ?_⟩
    have he : e ∈ Function.update s.history.executed q
      (s.history.executed q ++ [(p.id, p.transfer)]) q' := he
    rw [Function.update_apply] at he
    split_ifs at he
    · rcases List.mem_append.mp he with he | he
      · exact h.executed q e he
      · rw [List.mem_singleton.mp he]
        exact payout_transfer_amount_pos.mpr (hsent run (by simp) q p (by rw [hp]; simp) hs)
    · exact h.executed q' e he
  | payout_refused r hr hp hs hn =>
    rw [hr] at hsent
    exact ⟨forall_mem_replaced hsent fun hrun => hrun.set hp (by simp), h.executed⟩
  | payout_replied hr hp hs =>
    rw [hr] at hsent
    exact ⟨forall_mem_replaced hsent fun hrun => hrun.set hp (by simp), h.executed⟩
  | update_executed hr hu hs hsc hup =>
    rw [hr] at hsent
    exact ⟨forall_mem_replaced hsent id, h.executed⟩
  | update_failed e hr hu hs =>
    rw [hr] at hsent
    exact ⟨forall_mem_replaced hsent id, h.executed⟩
  | @payouts_ended before after run hr hf =>
    rw [hr] at hsent
    refine ⟨fun run hrun => hsent run ?_, h.executed⟩
    rcases List.mem_append.mp hrun with hrun | hrun <;> simp [hrun]
  | trade | transfer_balance | deposit_executed | balance_executed | call_refused | trade_failed
  | trade_committed | balance_replied | void_position | others_transfer | others_mint | do_payouts
  | do_payouts_replied | do_payouts_failed | positions_flush | trades_flush =>
    exact ⟨hsent, h.executed⟩

theorem priced_inv (r : TcReachable cfg s) : Priced s := by
  refine r.invariant (fun s h => ?_) fun _ _ _ h hstep => priced_step h hstep
  obtain ⟨fees, positions_module_hash, trades_module_hash, ledger, rfl⟩ := h
  exact ⟨fun run hrun => absurd hrun List.not_mem_nil, fun q e he => absurd he List.not_mem_nil⟩

/-! ## Each executed transfer is that of one job -/

theorem Payout.effect_transfer {p : Payout} {t : Icrc1TransferQuest} (h : p.effect = some t) :
    ∃ fee, t = payout_transfer p.quest fee := by
  unfold Payout.effect at h
  split at h
  · cases h
  · split_ifs at h
    exact ⟨p.ledger_transfer_fee, (Option.some.inj h).symm⟩
  · obtain ⟨pd, -, hpd⟩ := Option.bind_eq_some_iff.mp h
    unfold payoutEffect at hpd
    split_ifs at hpd
    exact ⟨pd.ledger_transfer_fee, (Option.some.inj hpd).symm⟩

theorem mem_payoutFlights {runs : List PayoutsRun} {f : PayoutFlight}
    (h : f ∈ payoutFlights runs q) : ∃ run ∈ runs, ∃ p ∈ run.payouts q, p.flight = f := by
  obtain ⟨run, hrun, hf⟩ := List.mem_flatMap.mp (Multiset.mem_coe.mp h)
  obtain ⟨p, hp, hflight⟩ := List.mem_map.mp hf
  exact ⟨run, hrun, p, hp, hflight⟩

theorem executed_transfer (r : TcReachable cfg s) {e : Nat × Icrc1TransferQuest}
    (he : e ∈ s.history.executed q) :
    ∃ x ∈ (s.pool q).all, x.id = e.1 ∧ ∃ fee, e.2 = payout_transfer x.job fee := by
  have hk := (queues_inv r).payouts q
  rcases hk.had_slot (Multiset.mem_coe.mpr he) with ⟨f, hf, hid, ht⟩ | ⟨x, hx, hid, pd, -, ht⟩
  · obtain ⟨run, -, p, -, rfl⟩ := mem_payoutFlights hf
    obtain ⟨x, hx, hxid, hjob, -⟩ := hk.away _ hf
    obtain ⟨fee, ht⟩ := Payout.effect_transfer ht
    exact ⟨x, Pool.mem_all.mpr (Or.inl hx), hxid.trans hid, fee, by rw [hjob]; exact ht⟩
  · unfold payoutEffect at ht
    split_ifs at ht
    exact ⟨x, hx, hid, pd.ledger_transfer_fee, (Option.some.inj ht).symm⟩

theorem executed_pays (r : TcReachable cfg s) {e : Nat × Icrc1TransferQuest}
    (he : e ∈ s.history.executed q) : ∃ x ∈ (s.pool q).all, x.id = e.1 ∧
      Pays e.2 x.job.payee x.job.trade_mount x.job.cts_payout_fee := by
  have hpos := (priced_inv r).executed q e he
  obtain ⟨x, hx, hid, fee, ht⟩ := executed_transfer r he
  rw [ht, payout_transfer_amount_pos] at hpos
  refine ⟨x, hx, hid, ?_⟩
  rw [ht]
  exact payout_transfer_pays hpos

theorem mem_void_pool {x : PayoutSlot} :
    x ∈ (s.pool (.void kind)).all ↔ ∃ vp ∈ s.voids kind, vp.slot = x := by
  simp only [Pool.all, TcState.pool, TcState.leftSlots, Book.slots, TcState.voids,
    Multiset.mem_add, Multiset.mem_coe, List.mem_map, or_and_right, exists_or]

theorem mem_trade_pool {x : PayoutSlot} :
    x ∈ (s.pool (.trade kind)).all ↔ ∃ tl ∈ s.logs, tl.slot kind = x := by
  simp only [Pool.all, TcState.pool, TcState.leftSlots, Book.slots, TcState.logs,
    Multiset.mem_add, Multiset.mem_coe, List.mem_map, List.mem_append, or_and_right, exists_or]
  exact or_comm

theorem Market.deal_of_log (h : Market L s) {tl : TradeLogAndTemporaryData} (htl : tl ∈ s.logs) :
    ∃ d ∈ s.history.deals, tl.core = d.log.core := by
  have hmem : tl.core ∈ s.logs.map TradeLogAndTemporaryData.core := List.mem_map_of_mem htl
  rw [h.deals] at hmem
  obtain ⟨d, hd, heq⟩ := List.mem_map.mp hmem
  exact ⟨d, hd, heq.symm⟩

theorem Market.log_of_deal (h : Market L s) {d : Deal} (hd : d ∈ s.history.deals) :
    ∃ tl ∈ s.logs, tl.core = d.log.core := by
  have hmem : d.log.core ∈ s.history.deals.map fun d => d.log.core :=
    List.mem_map_of_mem (f := fun d : Deal => d.log.core) hd
  rw [← h.deals] at hmem
  exact List.mem_map.mp hmem

/-! ## Once, and to whom it is owed -/

/-- What was ever transferred out of the queues of a state. -/
structure PaidOnce (s : TcState) : Prop where
  once : ∀ q, ((s.history.executed q).map Prod.fst).Nodup
  log_ids : (s.history.deals.map fun d => d.log.log.id).Nodup
  trade_paid : ∀ kind, ∀ e ∈ s.history.executed (.trade kind),
    ∃ d ∈ s.history.deals, d.log.log.id = e.1 ∧ d.Paid e.2 kind
  void_ids : ∀ kind, ((s.voids kind).map VoidPosition.position_id).Nodup
  void_paid : ∀ kind, ∀ e ∈ s.history.executed (.void kind),
    ∃ vp ∈ s.voids kind, vp.position_id = e.1 ∧ vp.Paid e.2
  /-- A trade log is in the queue or it was moved out of it, with both payouts on record. -/
  log_kept : ∀ d ∈ s.history.deals, ∃ tl ∈ s.history.moved ++ s.cm_data.trade_logs,
    tl.core = d.log.core
  log_left : ∀ tl ∈ s.history.moved, ∀ kind, ∃ pd, tl.payout_data kind = some pd ∧
    ∀ t, (tl.log.id, t) ∈ s.history.executed (.trade kind) ↔
      payoutEffect (tl.payout_quest kind) pd = some t
  /-- A position is current, or void and in the queue, or removed with its payout on record. -/
  position_kept : ∀ id < s.cm_data.positions_id_counter, id ∈ s.cm_data.cycles_positions.keys ∨
    id ∈ s.cm_data.token_positions.keys ∨ ∃ kind, ∃ vp ∈ s.voids kind, vp.position_id = id
  void_left : ∀ kind, ∀ vp ∈ s.history.removed kind, ∃ pd, vp.payout_data = some pd ∧
    ∀ t, (vp.position_id, t) ∈ s.history.executed (.void kind) ↔
      payoutEffect vp.payout_quest pd = some t

theorem left_paid (r : TcReachable cfg s) {x : PayoutSlot} (hx : x ∈ s.leftSlots q) :
    ∃ pd, x.data = some pd ∧
      ∀ t, (x.id, t) ∈ s.history.executed q ↔ payoutEffect x.job pd = some t := by
  have hk := (queues_inv r).payouts q
  obtain ⟨pd, hpd⟩ := Option.isSome_iff_exists.mp (hk.left_settled x hx)
  refine ⟨pd, hpd, fun t => ?_⟩
  rw [← hk.settled_had (Pool.mem_all.mpr (Or.inr hx)) hpd t]
  exact Multiset.mem_coe.symm

theorem deal_paid {d : Deal} (hd : DealOk L d) {tl : TradeLogAndTemporaryData}
    (hcore : tl.core = d.log.core) {t : Icrc1TransferQuest}
    (ht : Pays t (tl.payout_quest kind).payee (tl.payout_quest kind).trade_mount
      (tl.payout_quest kind).cts_payout_fee) : d.Paid t kind := by
  rw [payout_quest_of_core hcore] at ht
  cases kind with
  | Cycles =>
    unfold Deal.Paid
    rw [← hd.cycles_payee]
    exact ht
  | Token =>
    unfold Deal.Paid
    rw [← hd.token_payee]
    exact ht

/-- Of each void position and of each side of a trade one transfer is executed at most. It goes to
the owner of the position and moves what the fees leave, and what leaves a queue has its payouts on
record. -/
theorem payouts_are_paid_once (cfg : TcConfig) (s : TcState) (r : TcReachable cfg s) :
    PaidOnce s := by
  have hq := queues_inv r
  have hm : Market False s := market_inv r False.elim
  refine ⟨fun q => ?_, ?_, fun kind e he => ?_, fun kind => ?_, fun kind e he => ?_,
    fun d hd => hm.log_of_deal hd, fun tl htl kind => ?_, fun id hid => ?_, fun kind vp hvp => ?_⟩
  · have honce := (hq.payouts q).once
    rwa [TcState.pool, Multiset.map_coe, Multiset.coe_nodup] at honce
  · have hids := congrArg (List.map tl_id) hm.deals
    rw [List.map_map, List.map_map] at hids
    change s.logs.map tl_id = s.history.deals.map fun d => d.log.log.id at hids
    rw [← hids, hm.log_ids]
    exact List.nodup_range
  · obtain ⟨x, hx, hid, hpays⟩ := executed_pays r he
    obtain ⟨tl, htl, rfl⟩ := mem_trade_pool.mp hx
    obtain ⟨d, hd, hcore⟩ := hm.deal_of_log htl
    exact ⟨d, hd, (id_of_core hcore).symm.trans hid, deal_paid (hm.deals_ok d hd) hcore hpays⟩
  · have hids := hm.slot_ids (.void kind)
    simp only [Pool.all, TcState.pool, TcState.leftSlots, Book.slots, Multiset.map_add,
      Multiset.map_coe, List.map_map] at hids
    simp only [TcState.voids, Multiset.map_add, Multiset.map_coe]
    exact hids
  · obtain ⟨x, hx, hid, hpays⟩ := executed_pays r he
    obtain ⟨vp, hvp, rfl⟩ := mem_void_pool.mp hx
    exact ⟨vp, hvp, hid, hpays⟩
  · exact left_paid r (q := .trade kind) (x := tl.slot kind)
      (Multiset.mem_coe.mpr (List.mem_map_of_mem htl))
  · have hmem : id ∈ s.positionIds := by
      rw [hm.ids]
      exact Multiset.mem_coe.mpr (List.mem_range.mpr hid)
    simp only [TcState.positionIds, Multiset.mem_add, Multiset.mem_coe, Multiset.mem_map] at hmem
    rcases hmem with ((h | h) | h) | h
    · exact Or.inl h
    · exact Or.inr (Or.inl h)
    · exact Or.inr (Or.inr ⟨.Cycles, h⟩)
    · exact Or.inr (Or.inr ⟨.Token, h⟩)
  · exact left_paid r (q := .void kind) (x := vp.slot)
      (Multiset.mem_coe.mpr (List.mem_map_of_mem hvp))

theorem short_run_is_paid_once : (∀ q, q ≠ .void .Token → Sample.final.history.executed q ≠ []) ∧
    PaidOnce Sample.final := by
  refine ⟨fun q hq hnil => ?_, payouts_are_paid_once _ _ Sample.final_reachable⟩
  have hlen := congrArg List.length hnil
  revert hlen
  rcases q with (_ | _) | (_ | _)
  · decide +kernel
  · exact absurd rfl hq
  · decide +kernel
  · decide +kernel

end Cts.Tc
