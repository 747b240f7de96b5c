import Cts.Tc.Market
import Cts.Tc.Script

/-!
# Orders

A trade respects the two orders that it is made of, and no two compatible orders stay in the book
together.
-/

namespace Cts.Tc

open Lib

/-- What a trade between a cycles order and a token order promises to both. -/
structure RespectsOrders (d : Deal) : Prop where
  rate_ge : d.token_position.quest.cycles_per_token_rate ≤ d.log.log.cycles_per_token_rate
  rate_le : d.log.log.cycles_per_token_rate ≤ d.cycles_position.quest.cycles_per_token_rate
  middle : 2 * d.log.log.cycles_per_token_rate ≤ d.token_position.quest.cycles_per_token_rate +
      d.cycles_position.quest.cycles_per_token_rate + 1 ∧
    d.token_position.quest.cycles_per_token_rate + d.cycles_position.quest.cycles_per_token_rate ≤
      2 * d.log.log.cycles_per_token_rate + 1
  cycles_eq : d.log.log.cycles = d.log.log.tokens * d.log.log.cycles_per_token_rate
  cycles_lt : d.log.log.cycles < 2 ^ 128
  cycles_spent : d.cycles_position'.current_position_cycles + d.log.log.cycles =
    d.cycles_position.current_position_cycles
  tokens_spent : d.token_position'.current_position_tokens + d.log.log.tokens =
    d.token_position.current_position_tokens
  tokens_ge : 10000 ≤ d.log.log.tokens
  tokens_fee_le : 200 * d.log.log.tokens_payout_fee ≤ d.log.log.tokens
  cycles_fee_le : 200 * d.log.log.cycles_payout_fee ≤ d.log.log.cycles

theorem DealOk.respects {L : Prop} {d : Deal} (h : DealOk L d) (hL : L) : RespectsOrders d :=
  ⟨h.midpoint.lo_le, h.midpoint.le_hi, ⟨h.midpoint.near_hi, h.midpoint.near_lo⟩, h.cycles_eq,
    h.cycles_lt, h.cycles_spent, h.tokens_spent, h.tokens_ge hL, h.tokens_fee_le, h.cycles_fee_le⟩

/-- The two positions of a deal are those that its log names. -/
structure NamesPositions (d : Deal) : Prop where
  ids : match d.log.log.matchee_position_kind with
    | .Token => d.log.log.position_id_matcher = d.cycles_position.id ∧
        d.log.log.position_id_matchee = d.token_position.id
    | .Cycles => d.log.log.position_id_matcher = d.token_position.id ∧
        d.log.log.position_id_matchee = d.cycles_position.id
  cycles_same : d.cycles_position'.id = d.cycles_position.id ∧
    d.cycles_position'.quest = d.cycles_position.quest
  token_same : d.token_position'.id = d.token_position.id ∧
    d.token_position'.quest = d.token_position.quest

theorem DealOk.names {L : Prop} {d : Deal} (h : DealOk L d) : NamesPositions d :=
  ⟨h.positionIds, ⟨h.cycles_same.1, h.cycles_same.2.2⟩, ⟨h.token_same.1, h.token_same.2.2⟩⟩

/-- Every trade log is that of a trade which respects both orders, whichever of them came last. -/
theorem trades_respect_both_orders (cfg : TcConfig) (s : TcState) (r : TcReachable cfg s)
    (hfees : FeesOk s.history) :
    (∀ d ∈ s.history.deals, RespectsOrders d ∧ NamesPositions d) ∧
      (s.history.moved ++ s.cm_data.trade_logs).map TradeLogAndTemporaryData.core =
        s.history.deals.map fun d => d.log.core := by
  have hm : Market (FeesOk s.history) s := market_inv r id
  refine ⟨fun d hd => ?_, hm.deals⟩
  have hok := hm.deals_ok d hd
  exact ⟨hok.respects hfees, hok.names⟩

theorem short_run_fees : FeesOk Sample.final.history := by
  unfold FeesOk FeeFits
  decide +kernel

theorem short_run_respects_both_orders : Sample.final.history.deals ≠ [] ∧
    ∀ d ∈ Sample.final.history.deals, RespectsOrders d ∧ NamesPositions d := by
  have h := trades_respect_both_orders _ _ Sample.final_reachable short_run_fees
  exact ⟨fun hnil => absurd (congrArg List.length hnil) (by decide +kernel), h.1⟩

/-- As long as no `match_trades` was cut short, every cycles order asks for a lower rate than every
token order, and each trade has ended one of its two positions. -/
theorem book_is_never_crossed (cfg : TcConfig) (s : TcState) (r : TcReachable cfg s)
    (hfees : FeesOk s.history) (hstopped : s.history.stopped = false) :
    Uncrossed s.cm_data.toBook ∧ ∀ d ∈ s.history.deals,
      s.EndedAsFill .Cycles d.cycles_position.id ∨ s.EndedAsFill .Token d.token_position.id := by
  have hm : Market (FeesOk s.history) s := market_inv r id
  exact ⟨hm.uncrossed hfees hstopped, hm.filled hfees⟩

theorem busy_book_is_never_crossed :
    (Sample.busy.cm_data.cycles_positions.len = 2 ∧ Sample.busy.cm_data.token_positions.len = 2 ∧
        Sample.busy.history.deals.length = 7) ∧
      Uncrossed Sample.busy.cm_data.toBook ∧
        ∀ d ∈ Sample.busy.history.deals, Sample.busy.EndedAsFill .Cycles d.cycles_position.id ∨
          Sample.busy.EndedAsFill .Token d.token_position.id := by
  have hbusy : (FeesOk Sample.busy.history ∧ Sample.busy.history.stopped = false) ∧
      Sample.busy.cm_data.cycles_positions.len = 2 ∧ Sample.busy.cm_data.token_positions.len = 2 ∧
        Sample.busy.history.deals.length = 7 := by
    unfold FeesOk FeeFits
    decide +kernel
  exact ⟨hbusy.2, book_is_never_crossed _ _ Sample.busy_reachable hbusy.1.1 hbusy.1.2⟩

end Cts.Tc
