import Cts.Tc.Flushed
import Cts.Tc.Pools
import Cts.Tc.Script

/-!
# From the trade to the trades storage

A trade log waits in the queue for its two payouts and then goes to the storage. The queue is always
the rest of the logs in the order of their ids, so what is searched in it by id is found.
-/

namespace Cts.Tc

open Lib Lib.Jobs

variable {L : Prop} {cfg : TcConfig} {s s' : TcState} {kind : PositionKind}

/-! ## The trades storage -/

abbrev tradeLogBytes (tl : TradeLogAndTemporaryData) : List Byte :=
  tl.log.stable_memory_serialize

theorem store_trade_logs_ok {storage : LogStorage PositionId} {others : Nat}
    {logs : List (List Byte)}
    (h : StorageInv TradeLog.STABLE_MEMORY_SERIALIZE_SIZE others storage logs)
    (moved : List TradeLogAndTemporaryData) :
    StorageInv TradeLog.STABLE_MEMORY_SERIALIZE_SIZE others (store_trade_logs storage moved)
      (logs ++ moved.map tradeLogBytes) := by
  unfold store_trade_logs
  induction moved generalizing storage logs with
  | nil => simpa using h
  | cons tl moved ih =>
    have happend := append_ok h tl.log.stable_memory_serialize_length
    have ih := ih happend
    rw [List.append_assoc] at ih
    exact ih

/-- What the steps of a run say of the logs that were moved. -/
structure Moved (s : TcState) : Prop where
  stored : StorageInv TradeLog.STABLE_MEMORY_SERIALIZE_SIZE 0 s.trades_storage
    (s.history.moved.map tradeLogBytes)
  settled : ∀ tl ∈ s.history.moved,
    tl.can_move_into_the_stable_memory_for_the_long_term_storage = true

theorem Moved.quiet (h : Moved s) (ht : s'.trades_storage = s.trades_storage)
    (hm : s'.history.moved = s.history.moved) : Moved s' := by
  refine ⟨?_, ?_⟩
  · rw [ht, hm]
    exact h.stored
  · rw [hm]
    exact h.settled

theorem moved_step (h : Moved s) (hstep : TcStep cfg s s') : Moved s' := by
  cases hstep with
  | do_payouts_replied trades_env positions_env hcalls =>
    refine ⟨?_, fun tl htl => ?_⟩
    · have hstored := store_trade_logs_ok h.stored (move_trade_logs s.cm_data.trade_logs).1
      rw [← List.map_append] at hstored
      exact flush_logs_ok cfg.trades_fit hstored
    · rcases List.mem_append.mp htl with htl | htl
      · exact h.settled tl htl
      · exact (move_trade_logs_spec s.cm_data.trade_logs).2 tl htl
  | trades_flush hf => exact ⟨flush_step_ok cfg.trades_fit h.stored hf, h.settled⟩
  | trade | transfer_balance | deposit_executed | balance_executed | call_refused | trade_failed
  | trade_committed | balance_replied | void_position | others_transfer | others_mint | do_payouts
  | do_payouts_failed | payouts_started | payout_executed | payout_refused | payout_replied
  | update_executed | update_failed | payouts_ended | positions_flush =>
    exact h.quiet rfl rfl

theorem moved_inv (r : TcReachable cfg s) : Moved s := by
  refine r.invariant (fun s h => ?_) fun _ _ _ h hstep => moved_step h hstep
  obtain ⟨fees, positions_module_hash, trades_module_hash, ledger, rfl⟩ := h
  exact ⟨storage_new _ _, by simp [TcState.new]⟩

theorem moved_grows (h : TcStep cfg s s') : s.history.moved <+: s'.history.moved := by
  cases h
  case do_payouts_replied => exact List.prefix_append _ _
  all_goals exact List.prefix_refl _

/-! ## Search by id -/

theorem handle_tls_payouts_ids {trade_logs : List TradeLogAndTemporaryData}
    (hs : SortedBy tl_id trade_logs) (payouts : TlPayouts) :
    (handle_tls_payouts trade_logs payouts).map tl_id = trade_logs.map tl_id := by
  refine (congrArg (List.map tl_id) (handle_entries_eq _ payouts.nodup_keys hs)).trans ?_
  rw [List.map_map]
  exact List.map_congr_left fun tl _ => handle_tl_outputs_id _ _

theorem search_finds {trade_logs : List TradeLogAndTemporaryData} (hs : SortedBy tl_id trade_logs)
    {id : Nat} (hid : id ∈ trade_logs.map tl_id) :
    ∃ i tl, binarySearchByKey trade_logs id tl_id = some i ∧ trade_logs[i]? = some tl ∧
      tl.log.id = id := by
  obtain ⟨tl, htl, rfl⟩ := List.mem_map.mp hid
  obtain ⟨i, hi⟩ := List.mem_iff_getElem?.mp htl
  exact ⟨i, tl, binarySearchByKey_eq hs hi, hi, rfl⟩

theorem Queues.log_of_payout (h : Queues s) {run : PayoutsRun} (hrun : run ∈ s.runs) {p : Payout}
    (hp : p ∈ run.payouts (.trade kind)) : p.id ∈ s.cm_data.trade_logs.map tl_id := by
  have hflight : p.flight ∈ (s.pool (.trade kind)).flights :=
    Multiset.mem_coe.mpr (List.mem_flatMap.mpr ⟨run, hrun, List.mem_map_of_mem hp⟩)
  obtain ⟨x, hx, hid, -⟩ := (h.payouts (.trade kind)).away _ hflight
  obtain ⟨tl, htl, rfl⟩ := List.mem_map.mp (Multiset.mem_coe.mp hx)
  exact List.mem_map.mpr ⟨tl, htl, hid⟩

/-! ## The pipeline -/

structure Pipeline (s : TcState) : Prop where
  ids : s.history.moved.map tl_id ++ s.cm_data.trade_logs.map tl_id =
    List.range s.cm_data.trade_logs_id_counter
  stored : s.trades_storage.logs TradeLog.STABLE_MEMORY_SERIALIZE_SIZE =
    s.history.moved.map tradeLogBytes
  settled : ∀ tl ∈ s.history.moved,
    tl.can_move_into_the_stable_memory_for_the_long_term_storage = true
  no_payout : ∀ tl ∈ s.history.moved, ∀ kind, ∀ run ∈ s.runs, ∀ p ∈ run.payouts (.trade kind),
    p.id ≠ tl.log.id
  /-- Also when some results are written already. -/
  found : ∀ kind, ∀ run ∈ s.runs, ∀ p ∈ run.payouts (.trade kind), ∀ payouts : TlPayouts,
    ∃ i tl, binarySearchByKey (handle_tls_payouts s.cm_data.trade_logs payouts) p.id tl_id = some i ∧
      (handle_tls_payouts s.cm_data.trade_logs payouts)[i]? = some tl ∧ tl.log.id = p.id

/-- The logs that went to the storage and those in the queue are all the logs there ever were, in the
order of their ids. A log goes when both its payouts are on record and none is under way, and is not
changed afterwards. A payout under way finds its log. -/
theorem every_trade_is_kept_in_order (cfg : TcConfig) (s : TcState) (r : TcReachable cfg s) :
    Pipeline s ∧ ∀ s', TcStep cfg s s' → s.history.moved <+: s'.history.moved := by
  have hm : Market False s := market_inv r False.elim
  have hq := queues_inv r
  have hmoved := moved_inv r
  have hids := hm.log_ids
  rw [TcState.logs, List.map_append] at hids
  refine ⟨⟨hids, storage_logs (by decide) hmoved.stored, hmoved.settled,
    fun tl htl kind run hrun p hp heq => ?_, fun kind run hrun p hp payouts => ?_⟩,
    fun s' hstep => moved_grows hstep⟩
  · have hnodup := List.nodup_range (n := s.cm_data.trade_logs_id_counter)
    rw [← hids, List.nodup_append] at hnodup
    exact hnodup.2.2 _ (List.mem_map_of_mem htl) _ (hq.log_of_payout hrun hp) heq.symm
  · have hsame := handle_tls_payouts_ids hm.sorted payouts
    refine search_finds (sorted_of_ids hsame hm.sorted) ?_
    rw [hsame]
    exact hq.log_of_payout hrun hp

theorem busy_contract_keeps_its_trades : (Sample.busy.history.moved.length = 5 ∧
      Sample.busy.cm_data.trade_logs.length = 2 ∧ Sample.busy.trades_storage.held.length = 4 * 225) ∧
    Pipeline Sample.busy := by
  refine ⟨by decide +kernel, ?_⟩
  exact (every_trade_is_kept_in_order _ _ Sample.busy_reachable).1

end Cts.Tc
