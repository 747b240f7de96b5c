import Cts.Tc.FinalRecords
import Cts.Tc.ReadBack
import Cts.Tc.Reconcile
import Cts.Tc.TradeViews

/-!
# The trades of a position can be read back

A trade log is indexed by the ids of its two positions, which are never the same. So a client that knows
the id of a position gets all its trades that the contract has moved to the storage, in their order.
-/

namespace Cts.Tc

open Lib Lib.IndexedLog

variable {L : Prop} {cfg : TcConfig} {s s' : TcState}

/-! ## Two positions a trade -/

def Deal.Distinct (d : Deal) : Prop := d.cycles_position.id ≠ d.token_position.id

theorem BookPath.distinct {b b' : Book} {ds : List Deal} (h : BookPath L b ds b') (hb : BookIds b) :
    ∀ d ∈ ds, d.Distinct := by
  induction h with
  | nil =>
    intro d hd
    cases hd
  | @deal ds b₁ ck tk d hpath hc ht hok hid ih =>
    have hinv := (hpath.frame hb).inv
    rw [List.forall_mem_append]
    refine ⟨ih, List.forall_mem_singleton.mpr ?_⟩
    unfold Deal.Distinct
    rw [hinv.cycles ck _ hc, hinv.token tk _ ht]
    exact hinv.cycles_ne_token hc ht
  | void_cycles _ _ _ _ ih => exact ih
  | void_token _ _ _ _ ih => exact ih

theorem deals_distinct (r : TcReachable cfg s) : ∀ d ∈ s.history.deals, d.Distinct := by
  refine r.invariant (I := fun s => ∀ d ∈ s.history.deals, d.Distinct) (fun s hinit => ?_)
    fun s s' r h hstep => ?_
  · obtain ⟨fees, positions_module_hash, trades_module_hash, ledger, rfl⟩ := hinit
    intro d hd
    cases hd
  · have hm : Market False s := market_inv r False.elim
    rcases market_move hm hstep with ⟨now, instruction_counter, hcalls, hq, rfl⟩ | ⟨-, rfl⟩ |
      ⟨hf, -, -⟩ | ⟨hq⟩
    · have hadmitted := hm.admitted _ (by rw [hcalls]; simp) _ hq
      have hopens := fun caller => @opens_path _ hm.book hm.sound
        (s.match_env cfg now instruction_counter) _ hm.fresh_id _ hadmitted caller
      exact List.forall_mem_append.mpr ⟨h, (hopens _).path.distinct (hopens _).inv⟩
    · exact h
    · rw [hf.deals]
      exact h
    · rw [hq.deals]
      exact h

/-- What a trade log says of its positions. -/
structure TradeLog.TwoPositions (log : TradeLog) (counter : Nat) : Prop where
  matchee : log.position_id_matchee < counter
  matcher : log.position_id_matcher < counter
  distinct : log.position_id_matchee ≠ log.position_id_matcher

theorem two_positions (r : TcReachable cfg s) {tl : TradeLogAndTemporaryData} (htl : tl ∈ s.logs) :
    tl.log.TwoPositions s.cm_data.positions_id_counter := by
  have hm : Market False s := market_inv r False.elim
  have hnamed := (reconciled_inv r).named
  obtain ⟨d, hd, hcore⟩ := hm.deal_of_log htl
  have hmatchee : tl.log.position_id_matchee = d.log.log.position_id_matchee :=
    congrArg (fun l => l.log.position_id_matchee) hcore
  have hmatcher : tl.log.position_id_matcher = d.log.log.position_id_matcher :=
    congrArg (fun l => l.log.position_id_matcher) hcore
  have hmem : d.log.log ∈ dealLogs s.history.deals := List.mem_map_of_mem hd
  have hdistinct := deals_distinct r d hd
  have hposition_ids := (hm.deals_ok d hd).positionIds
  unfold Deal.Distinct at hdistinct
  refine ⟨?_, ?_, ?_⟩
  · rw [hmatchee]
    exact hnamed _ hmem _ (by simp [TradeLog.names])
  · rw [hmatcher]
    exact hnamed _ hmem _ (by simp [TradeLog.names])
  · rw [hmatchee, hmatcher]
    cases hkind : d.log.log.matchee_position_kind with
    | Cycles =>
      rw [hkind] at hposition_ids
      rw [hposition_ids.1, hposition_ids.2]
      exact hdistinct
    | Token =>
      rw [hkind] at hposition_ids
      rw [hposition_ids.1, hposition_ids.2]
      exact hdistinct.symm

theorem TradeLog.keysOf_serialization {log : TradeLog} {counter : Nat} (h : log.TwoPositions counter)
    (hids : counter ≤ 2 ^ 128) :
    TradeLog.storage.index_keys_of_the_log_serialization log.stable_memory_serialize =
      some [log.position_id_matchee, log.position_id_matcher] := by
  have hmatchee : from_be_bytes (slice 2 16 log.stable_memory_serialize) = log.position_id_matchee :=
    u128_field (i := 1) rfl rfl (h.matchee.trans_le hids)
  have hmatcher : from_be_bytes (slice 191 16 log.stable_memory_serialize) = log.position_id_matcher :=
    u128_field (i := 12) rfl rfl (h.matcher.trans_le hids)
  unfold TradeLog.storage
  simp only [hmatchee, hmatcher]

/-! ## The logs that were moved -/

theorem moved_keys (r : TcReachable cfg s) (hids : s.cm_data.positions_id_counter ≤ 2 ^ 128)
    {tl : TradeLogAndTemporaryData} (htl : tl ∈ s.history.moved) :
    TradeLog.storage.index_keys_of_the_log_serialization (tradeLogBytes tl) =
        some [tl.log.position_id_matchee, tl.log.position_id_matcher] ∧
      (keysOf TradeLog.storage (tradeLogBytes tl)).Nodup := by
  have htwo := two_positions r (List.mem_append_left s.cm_data.trade_logs htl)
  have hkeys := TradeLog.keysOf_serialization htwo hids
  refine ⟨hkeys, ?_⟩
  rw [keysOf, hkeys]
  simpa using htwo.distinct

theorem moved_ids (r : TcReachable cfg s) (hids : s.history.moved.length ≤ 2 ^ 128) (i : Nat)
    (log : List Byte) (hlog : (s.history.moved.map tradeLogBytes)[i]? = some log) :
    TradeLog.storage.log_id_of_the_log_serialization log = i := by
  have hm : Market False s := market_inv r False.elim
  rw [List.getElem?_map, Option.map_eq_some_iff] at hlog
  obtain ⟨tl, htl, rfl⟩ := hlog
  have hlt := (List.getElem?_eq_some_iff.mp htl).1
  have hall : (s.logs.map tl_id)[i]? = some tl.log.id := by
    rw [List.getElem?_map, TcState.logs, List.getElem?_append_left hlt, htl]
    rfl
  rw [hm.log_ids] at hall
  obtain ⟨hi, heq⟩ := List.getElem?_eq_some_iff.mp hall
  rw [List.getElem_range] at heq
  have hfits : tl.log.id < 2 ^ 128 := by
    rw [← heq]
    exact hlt.trans_le hids
  exact (TradeLog.log_id_of_serialization hfits).trans heq.symm

/-! ## The storage of the trades -/

/-- The canisters are in order, and each has its index. -/
structure TradesIndexed (s : TcState) : Prop where
  first_ids : FirstIds s.trades_storage
  indices : s.trades_storage.Indices TradeLog.storage

theorem TradesIndexed.quiet (h : TradesIndexed s) (ht : s'.trades_storage = s.trades_storage) :
    TradesIndexed s' := by
  refine ⟨?_, ?_⟩
  · rw [ht]
    exact h.first_ids
  · rw [ht]
    exact h.indices

theorem trades_indexed_step (r : TcReachable cfg s)
    (hpositions : s.cm_data.positions_id_counter ≤ 2 ^ 128)
    (hmoved : s.history.moved.length ≤ 2 ^ 128) (h : TradesIndexed s) (hstep : TcStep cfg s s') :
    TradesIndexed s' := by
  cases hstep with
  | do_payouts_replied trades_env positions_env hcalls =>
    obtain ⟨hcanisters, hcanister⟩ :=
      store_trade_logs_same s.trades_storage (move_trade_logs s.cm_data.trade_logs).1
    refine ⟨h.first_ids.same ?_ hcanister, h.indices.same hcanister⟩
    change LogStorageData.firsts (LogStorageData.flush_logs cfg.flush _ trades_env).1 = _
    rw [(flush_logs_same _ _ _).firsts, LogStorageData.firsts, hcanisters]
    rfl
  | trades_flush hf =>
    have hstored := (moved_inv r).stored
    have hids := moved_ids r hmoved
    have hkeys : ∀ log ∈ s.history.moved.map tradeLogBytes,
        (keysOf TradeLog.storage log).Nodup := by
      rintro _ hlog
      obtain ⟨tl, htl, rfl⟩ := List.mem_map.mp hlog
      exact (moved_keys r hpositions htl).2
    exact ⟨first_ids_step hstored hids h.first_ids hf,
      indices_step hstored hids hkeys h.first_ids h.indices TradeLog.storage_lawful hf⟩
  | trade | transfer_balance | deposit_executed | balance_executed | call_refused | trade_failed
  | trade_committed | balance_replied | void_position | others_transfer | others_mint | do_payouts
  | do_payouts_failed | payouts_started | payout_executed | payout_refused | payout_replied
  | update_executed | update_failed | payouts_ended | positions_flush =>
    exact h.quiet rfl

theorem trades_indexed (r : TcReachable cfg s) (hpositions : s.cm_data.positions_id_counter ≤ 2 ^ 128)
    (hmoved : s.history.moved.length ≤ 2 ^ 128) : TradesIndexed s := by
  refine r.invariant_while (P := fun s => s.cm_data.positions_id_counter ≤ 2 ^ 128 ∧
    s.history.moved.length ≤ 2 ^ 128) (fun s s' hstep hle => ?_) (fun s hinit _ => ?_)
    (fun s s' r hle _ h hstep => trades_indexed_step r hle.1 hle.2 h hstep) ⟨hpositions, hmoved⟩
  · exact ⟨(counter_grows hstep).trans hle.1, (moved_grows hstep).length_le.trans hle.2⟩
  · obtain ⟨fees, positions_module_hash, trades_module_hash, ledger, rfl⟩ := hinit
    refine ⟨fun e he => ?_, fun id sc hsc => ?_⟩
    · cases he
    · cases hsc

/-! ## Reading them back -/

theorem moved_with_key (r : TcReachable cfg s) (hids : s.cm_data.positions_id_counter ≤ 2 ^ 128)
    (id : PositionId) :
    (s.history.moved.map tradeLogBytes).filter (has (keysOf TradeLog.storage) (some id)) =
      (tradesOf (s.history.moved.map TradeLogAndTemporaryData.log) id).map
        TradeLog.stable_memory_serialize := by
  unfold tradesOf
  rw [List.filter_map, List.filter_map, List.map_map]
  congr 1
  apply List.filter_congr
  intro tl htl
  have hkeys : keysOf TradeLog.storage (tradeLogBytes tl) =
      [tl.log.position_id_matchee, tl.log.position_id_matcher] := by
    rw [keysOf, (moved_keys r hids htl).1, Option.getD_some]
  rw [Function.comp_apply, Function.comp_apply, has, hkeys, TradeLog.names, Bool.eq_iff_iff]
  simp only [decide_eq_true_eq, Bool.or_eq_true, List.mem_pair]
  constructor
  · rintro (rfl | rfl)
    · exact Or.inr rfl
    · exact Or.inl rfl
  · rintro (rfl | rfl)
    · exact Or.inr rfl
    · exact Or.inl rfl

theorem reads_moved (r : TcReachable cfg s) (hpositions : s.cm_data.positions_id_counter ≤ 2 ^ 128)
    (htrades : s.cm_data.trade_logs_id_counter ≤ 2 ^ 128)
    (hroom : s.trades_storage.data.storage_buffer.length < 2 ^ 32) (id : PositionId)
    {max_logs chunk_size : Nat} (hmax : 1 ≤ max_logs) (hchunk : 1 ≤ chunk_size) :
    ∃ pages, s.trades_storage.ReadsAll TradeLog.storage id max_logs chunk_size pages ∧
      pages.reverse.flatten = (tradesOf (s.history.moved.map TradeLogAndTemporaryData.log) id).map
        TradeLog.stable_memory_serialize := by
  have hm : Market False s := market_inv r False.elim
  have hmoved : s.history.moved.length ≤ 2 ^ 128 := by
    have hlogs := congrArg List.length hm.log_ids
    rw [List.length_map, List.length_range, TcState.logs, List.length_append] at hlogs
    omega
  have hkeys : ∀ log ∈ s.history.moved.map tradeLogBytes,
      (TradeLog.storage.index_keys_of_the_log_serialization log).isSome := by
    rintro _ hlog
    obtain ⟨tl, htl, rfl⟩ := List.mem_map.mp hlog
    rw [(moved_keys r hpositions htl).1]
    rfl
  rw [← moved_with_key r hpositions id]
  exact reads_all TradeLog.storage_lawful (moved_inv r).stored (moved_ids r hmoved) hkeys
    (trades_indexed r hpositions hmoved).indices hroom id hmax hchunk

/-- A client that reads page after page until an empty one has the bytes of every trade of the position
that was moved to the storage, once each and in the order of the ids, whatever chunk a flush has stored
without the contract knowing yet. -/
theorem trades_of_a_position_can_be_read_back (cfg : TcConfig) (s : TcState) (r : TcReachable cfg s)
    (hpositions : s.cm_data.positions_id_counter ≤ 2 ^ 128)
    (htrades : s.cm_data.trade_logs_id_counter ≤ 2 ^ 128)
    (hroom : s.trades_storage.data.storage_buffer.length < 2 ^ 32) (id : PositionId)
    (max_logs chunk_size : Nat) (hmax : 1 ≤ max_logs) (hchunk : 1 ≤ chunk_size) :
    (∃ pages, s.trades_storage.ReadsAll TradeLog.storage id max_logs chunk_size pages) ∧
      ∀ pages, s.trades_storage.ReadsAll TradeLog.storage id max_logs chunk_size pages →
        pages.reverse.flatten = (tradesOf (s.history.moved.map TradeLogAndTemporaryData.log) id).map
          TradeLog.stable_memory_serialize := by
  obtain ⟨pages, hpages, hflat⟩ := reads_moved r hpositions htrades hroom id hmax hchunk
  refine ⟨⟨pages, hpages⟩, fun pages' hpages' => ?_⟩
  rw [hpages'.unique hpages]
  exact hflat

/-- The five trades of position 0 are read back three at a time, from a storage canister and from the
buffer. Two of them are in both, since the reply of their flush is on its way. -/
theorem trades_of_busy_contract_are_read_back :
    ((tradesOf (Sample.busy.history.moved.map TradeLogAndTemporaryData.log) 0).length = 5 ∧
        Sample.busy.trades_storage.unacknowledged.length = 2 * 225) ∧
      (∃ pages, Sample.busy.trades_storage.ReadsAll TradeLog.storage 0 3 3 pages) ∧
        ∀ pages, Sample.busy.trades_storage.ReadsAll TradeLog.storage 0 3 3 pages →
          pages.reverse.flatten = (tradesOf
            (Sample.busy.history.moved.map TradeLogAndTemporaryData.log) 0).map
              TradeLog.stable_memory_serialize := by
  have hbusy : (Sample.busy.cm_data.positions_id_counter ≤ 2 ^ 128 ∧
      Sample.busy.cm_data.trade_logs_id_counter ≤ 2 ^ 128 ∧
      Sample.busy.trades_storage.data.storage_buffer.length < 2 ^ 32) ∧
        (tradesOf (Sample.busy.history.moved.map TradeLogAndTemporaryData.log) 0).length = 5 ∧
          Sample.busy.trades_storage.unacknowledged.length = 2 * 225 := by
    decide +kernel
  obtain ⟨⟨hpositions, htrades, hroom⟩, hread⟩ := hbusy
  exact ⟨hread, trades_of_a_position_can_be_read_back Sample.busyConfig _ Sample.busy_reachable
    hpositions htrades hroom 0 3 3 (by decide) (by decide)⟩

end Cts.Tc
