import Cts.Tc.CandleViews
import Cts.Tc.Moves
import Cts.Tc.Paid
import Cts.Tc.Script

/-!
# What the contract tells of its market

The candle counter is kept beside the trade logs, which the payouts change and which go to the storage.
It counts each trade once when it is made, and so its views tell of all trades that there ever were.
-/

namespace Cts.Tc

open Lib

variable {L : Prop} {cfg : TcConfig} {s s' : TcState}

/-! ## Every trade is counted once -/

def counts (ds : List Deal) (c : CandleCounter) : CandleCounter :=
  ds.foldl (fun c d => c.count_trade d.log.log) c

theorem counts_append (ds es : List Deal) (c : CandleCounter) :
    counts (ds ++ es) c = counts es (counts ds c) := List.foldl_append

theorem BookPath.counts {b b' : Book} {ds : List Deal} (h : BookPath L b ds b') :
    b'.candle_counter = counts ds b.candle_counter := by
  induction h with
  | nil => rfl
  | deal _ _ _ _ _ ih =>
    rw [counts_append, ← ih]
    rfl
  | void_cycles _ _ _ _ ih => exact ih
  | void_token _ _ _ _ ih => exact ih

theorem opens_counter (q : TradeQuest) (b : Book) (id : PositionId) (positor : Principal) (now : Nat) :
    (q.opens b id positor now).candle_counter = b.candle_counter := by
  cases q <;> rfl

theorem candle_counter_commits (hm : Market False s) {q : TradeQuest} (hq : Admitted False q)
    (env : MatchEnv) (caller : Principal)
    (h : s.cm_data.candle_counter = counts s.history.deals .new) :
    (s.commit env caller q).cm_data.candle_counter =
      counts (s.commit env caller q).history.deals .new := by
  have hopens : OpensPath q s.cm_data.toBook env s.cm_data.positions_id_counter caller :=
    opens_path hm.book hm.sound hm.fresh_id hq caller
  have hpath := hopens.path.counts
  rw [opens_counter, h] at hpath
  change (q.match_trades s.cm_data.toBook env s.cm_data.positions_id_counter caller).book.candle_counter =
    counts (s.history.deals ++ _) .new
  rw [hpath, counts_append]

theorem candle_counter_voids (hm : Market False s) {caller : Principal} {position_id : PositionId}
    {now : Nat} {b : Book} (h : void_position_ s.cm_data.toBook caller position_id now = .ok b) :
    b.candle_counter = s.cm_data.candle_counter := by
  rcases void_position_spec hm.book h with ⟨p, -, -, rfl⟩ | ⟨p, -, -, rfl⟩
  · rfl
  · rfl

theorem candle_counter_step (hm : Market False s)
    (h : s.cm_data.candle_counter = counts s.history.deals .new) (hstep : TcStep cfg s s') :
    s'.cm_data.candle_counter = counts s'.history.deals .new := by
  cases hstep with
  | trade ht =>
    obtain ⟨rfl, -⟩ := _trade_spec ht
    exact h
  | transfer_balance ht =>
    obtain ⟨rfl, -⟩ := _transfer_balance_spec ht
    exact h
  | trade_committed now instruction_counter hc hr hq he =>
    exact candle_counter_commits hm (hm.admitted _ (by rw [hc]; simp) _ hq) _ _ h
  | void_position hv => exact (candle_counter_voids hm hv).trans h
  | payouts_started hp =>
    obtain ⟨vcs, vts, tls, rfl⟩ := (_do_payouts_spec hp).same
    exact h
  | deposit_executed | balance_executed | call_refused | trade_failed | balance_replied
  | others_transfer | others_mint | do_payouts | do_payouts_replied | do_payouts_failed
  | payout_executed | payout_refused | payout_replied | update_executed | update_failed
  | payouts_ended | positions_flush | trades_flush => exact h

theorem candle_counter_inv (r : TcReachable cfg s) :
    s.cm_data.candle_counter = counts s.history.deals .new := by
  refine r.invariant (I := fun s => s.cm_data.candle_counter = counts s.history.deals .new)
    (fun s hinit => ?_) fun s s' r h hstep => candle_counter_step (market_inv r False.elim) h hstep
  obtain ⟨fees, positions_module_hash, trades_module_hash, ledger, rfl⟩ := hinit
  rfl

/-! ## The trades that there ever were -/

namespace TcState

/-- All trades, moved to the storage or not. -/
def allTrades (s : TcState) : List TradeLog := s.logs.map TradeLogAndTemporaryData.log

/-- The time of the canister does not go back, and has 64 bits. -/
structure TimeGoesOn (s : TcState) : Prop where
  time : ∀ tl ∈ s.allTrades, tl.timestamp_nanos < 2 ^ 64
  sorted : s.allTrades.Pairwise fun a b => a.timestamp_nanos ≤ b.timestamp_nanos

end TcState

theorem count_core (tls : List TradeLogAndTemporaryData) (c : CandleCounter) :
    (tls.map TradeLogAndTemporaryData.log).foldl .count_trade c =
      (tls.map TradeLogAndTemporaryData.core).foldl (fun c tl => c.count_trade tl.log) c := by
  rw [List.foldl_map, List.foldl_map]
  rfl

theorem candle_counter_counts_logs (r : TcReachable cfg s) :
    s.cm_data.candle_counter = s.allTrades.foldl .count_trade .new := by
  have hm : Market False s := market_inv r False.elim
  rw [candle_counter_inv r, TcState.allTrades, count_core, hm.deals, List.foldl_map]
  rfl

theorem allTrades_in_order (r : TcReachable cfg s) (h : s.TimeGoesOn) : TradesInOrder s.allTrades := by
  have hm : Market False s := market_inv r False.elim
  refine ⟨fun tl htl kind => ?_, h.time, h.sorted⟩
  obtain ⟨tl, hlog, rfl⟩ := List.mem_map.mp htl
  obtain ⟨d, hd, hcore⟩ := hm.deal_of_log hlog
  have hok := hm.deals_ok d hd
  have hspent := hok.tokens_spent
  have hcurrent := d.token_position.current_le
  have hquest := d.token_position.quest.tokens_lt
  cases kind with
  | Cycles =>
    have hcycles : tl.log.cycles = d.log.log.cycles := congrArg (fun l => l.log.cycles) hcore
    rw [TradeLog.volume, hcycles]
    exact hok.cycles_lt
  | Token =>
    have htokens : tl.log.tokens = d.log.log.tokens := congrArg (fun l => l.log.tokens) hcore
    rw [TradeLog.volume, htokens]
    omega

/-! ## The views -/

/-- Candles that tell of trades: one for each minute that has some, and it summarises them. -/
structure TellsTrades (tls : List TradeLog) (candles : List Candle) : Prop where
  sorted : SortedBy Candle.time_nanos candles
  minutes : ∀ time_nanos, (∃ candle ∈ candles, candle.time_nanos = time_nanos) ↔
    ∃ tl ∈ tls, minute tl.timestamp_nanos = time_nanos
  candle : ∀ candle ∈ candles,
    candle.Summarises (tls.filter fun tl => minute tl.timestamp_nanos = candle.time_nanos)

theorem TradesInOrder.in_minute {tls : List TradeLog} (h : TradesInOrder tls) (time_nanos : Nat) :
    tradesInMinute time_nanos tls = tls.filter fun tl => minute tl.timestamp_nanos = time_nanos := by
  apply List.filter_congr
  intro tl htl
  rw [h.minute_eq htl]

theorem TradesInOrder.tells {tls : List TradeLog} (h : TradesInOrder tls) :
    TellsTrades tls (tls.foldl CandleCounter.count_trade .new).segments_1_minute := by
  have hc := h.counted
  refine ⟨(candles_sorted tls).sorted, fun time_nanos => ?_, fun candle hcandle => ?_⟩
  · constructor
    · rintro ⟨candle, hcandle, rfl⟩
      obtain ⟨tl, htl⟩ := (hc.candle candle hcandle).exists_trade
      rw [h.in_minute] at htl
      obtain ⟨htl, htime⟩ := List.mem_filter.mp htl
      exact ⟨tl, htl, of_decide_eq_true htime⟩
    · rintro ⟨tl, htl, rfl⟩
      rw [← h.minute_eq htl]
      exact hc.minute tl htl
  · rw [← h.in_minute]
    exact hc.candle candle hcandle

/-- The pages of the candles, and the volumes at a time. -/
structure TellsMarket (s : TcState) (now : Nat) : Prop where
  ends : ∃ pages, Paging.Chain (fun start => (create_candles s.cm_data.candle_counter start).page)
    (Paging.firstKey Candle.time_nanos) none pages
  pages : ∀ pages, Paging.Chain (fun start => (create_candles s.cm_data.candle_counter start).page)
    (Paging.firstKey Candle.time_nanos) none pages → TellsTrades s.allTrades pages.reverse.flatten
  day : CountsTimeframe s.allTrades now (NANOS_IN_A_DAY * 1) fun kind =>
    ((create_view_volume_stats s.cm_data.candle_counter now).volume kind).volume_24_hour
  week : CountsTimeframe s.allTrades now (NANOS_IN_A_DAY * 7) fun kind =>
    ((create_view_volume_stats s.cm_data.candle_counter now).volume kind).volume_7_day
  month : CountsTimeframe s.allTrades now (NANOS_IN_A_DAY * 30) fun kind =>
    ((create_view_volume_stats s.cm_data.candle_counter now).volume kind).volume_30_day
  sum : ∀ kind, ((create_view_volume_stats s.cm_data.candle_counter now).volume kind).volume_sum =
    Word.cap 128 (volumeOf kind s.allTrades)

/-- Whatever was paid out, moved and voided in between, the candles that a client pages through and the
volumes are of all the trades that were ever made. -/
theorem market_views_tell_of_every_trade (cfg : TcConfig) (s : TcState) (r : TcReachable cfg s)
    (htime : s.TimeGoesOn) (now : Nat) : TellsMarket s now := by
  have horder := allTrades_in_order r htime
  have hs := candles_sorted s.allTrades
  have hstats := fun kind => volume_stats_eq horder now kind
  obtain ⟨all, hall, hflatten⟩ :=
    (create_candles_descends hs).complete hs.sorted max_candles_sponse_pos none
  rw [← candle_counter_counts_logs r] at hall hflatten hstats
  refine ⟨⟨all, hall⟩, fun pages hpages => ?_, ?_, ?_, ?_, fun kind => ?_⟩
  · rw [hpages.unique hall, hflatten, candle_counter_counts_logs r]
    exact horder.tells
  · exact counts_inTimeframe fun kind => congrArg Volume.volume_24_hour (hstats kind)
  · exact counts_inTimeframe fun kind => congrArg Volume.volume_7_day (hstats kind)
  · exact counts_inTimeframe fun kind => congrArg Volume.volume_30_day (hstats kind)
  · exact congrArg Volume.volume_sum (hstats kind)

theorem market_views_of_short_run : TellsMarket Sample.final 10 ∧ Sample.final.allTrades.length = 1 :=
  ⟨market_views_tell_of_every_trade Sample.config _ Sample.final_reachable
    ⟨by decide +kernel, by decide +kernel⟩ 10, by decide +kernel⟩

end Cts.Tc
