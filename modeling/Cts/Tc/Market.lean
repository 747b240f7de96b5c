import Cts.Tc.Started
import Cts.Tc.System

/-!
# What holds of the market in every run

Ids, positions, void positions and trade logs, with what has left the contract. `L` stands for the
assumption that the fees of the run fit.
-/

namespace Cts.Tc

open Lib Lib.Jobs

/-! ## The parts -/

/-- Ten of each fee that the contract ever used, and 10000, fit in a `u128`. -/
def FeesOk (h : History) : Prop := ∀ fee ∈ h.fees, FeeFits fee

namespace TcState

/-- The void positions of a kind, those that left included. -/
def voids (s : TcState) (kind : PositionKind) : Multiset VoidPosition :=
  ((s.cm_data.void_positions kind).values : Multiset VoidPosition) + (s.history.removed kind : List _)

/-- The trade logs, those that went to the storage first. -/
def logs (s : TcState) : List TradeLogAndTemporaryData := s.history.moved ++ s.cm_data.trade_logs

/-- Every position that there ever was. -/
def positionIds (s : TcState) : Multiset PositionId :=
  (s.cm_data.cycles_positions.keys : Multiset PositionId) + s.cm_data.token_positions.keys +
    (s.voids .Cycles).map VoidPosition.position_id + (s.voids .Token).map VoidPosition.position_id

def EndedAsFill (s : TcState) (kind : PositionKind) (id : PositionId) : Prop :=
  ∃ vp ∈ s.voids kind, vp.position_id = id ∧ ∃ now, vp.log.position_termination = some ⟨now, .Fill⟩

end TcState

structure Market (L : Prop) (s : TcState) : Prop where
  book : BookIds s.cm_data.toBook
  sound : BookSound L s.cm_data.toBook
  admitted : ∀ c ∈ s.calls, ∀ q, c.quest = .trade q → Admitted L q
  fees : ∀ kind, s.fees kind ∈ s.history.fees
  ids : s.positionIds = (List.range s.cm_data.positions_id_counter : List PositionId)
  log_ids : s.logs.map tl_id = List.range s.cm_data.trade_logs_id_counter
  deals : s.logs.map TradeLogAndTemporaryData.core = s.history.deals.map fun d => d.log.core
  deals_ok : ∀ d ∈ s.history.deals, DealOk L d
  filled : L → ∀ d ∈ s.history.deals,
    s.EndedAsFill .Cycles d.cycles_position.id ∨ s.EndedAsFill .Token d.token_position.id
  voids : ∀ kind, ∀ vp ∈ s.voids kind, VoidOk vp
  uncrossed : L → s.history.stopped = false → Uncrossed s.cm_data.toBook

variable {L : Prop} {cfg : TcConfig} {s s' : TcState}

theorem BookIds.keyed {b : Book} (h : BookIds b) (kind : PositionKind) :
    Keyed (b.void_positions kind) := h.void kind

theorem positionIds_eq (h : ∀ kind, Keyed (s.cm_data.void_positions kind)) :
    s.positionIds = s.cm_data.ids +
    ((s.history.removed .Cycles).map VoidPosition.position_id : List PositionId) +
    ((s.history.removed .Token).map VoidPosition.position_id : List PositionId) := by
  have hc : ((s.cm_data.void_cycles_positions.values.map VoidPosition.position_id :
      List PositionId) : Multiset PositionId) = s.cm_data.void_cycles_positions.keys :=
    congrArg _ (h .Cycles).ids_eq
  have ht : ((s.cm_data.void_token_positions.values.map VoidPosition.position_id :
      List PositionId) : Multiset PositionId) = s.cm_data.void_token_positions.keys :=
    congrArg _ (h .Token).ids_eq
  simp only [TcState.positionIds, TcState.voids, Book.ids, Book.void_positions, Multiset.map_add,
    Multiset.map_coe, hc, ht]
  ac_rfl

/-! ## The book grows -/

/-- What a new position and a position that becomes void have in common. -/
structure BookGrows (L : Prop) (b : Book) (ds : List Deal) (b' : Book) : Prop where
  inv : BookIds b'
  logs : b'.trade_logs = b.trade_logs ++ ds.map Deal.log
  counter : b'.trade_logs_id_counter = b.trade_logs_id_counter + ds.length
  log_ids : ds.map (fun d => d.log.log.id) = List.range' b.trade_logs_id_counter ds.length
  deals : ∀ d ∈ ds, DealOk L d
  voids : ∀ kind, VoidsArrive (b.void_positions kind) (b'.void_positions kind)

theorem BookFrame.grows {b b' : Book} {ds : List Deal} (h : BookFrame L b ds b') :
    BookGrows L b ds b' :=
  ⟨h.inv, h.logs, h.counter, h.log_ids, h.deals, h.voids⟩

theorem CommitOk.grows {q : TradeQuest} {b : Book} {id : PositionId} {r : Matched}
    (h : CommitOk L q b id r) : BookGrows L b r.deals r.book :=
  ⟨h.inv, h.logs, h.counter, h.log_ids, h.deals, h.voids⟩

section

variable {ds : List Deal} (hg : BookGrows L s.cm_data.toBook ds s'.cm_data.toBook)
  (hmoved : s'.history.moved = s.history.moved) (hremoved : s'.history.removed = s.history.removed)

include hg hremoved

theorem grows_voids_eq (kind : PositionKind) :
    ∃ vps, s'.voids kind = vps + s.voids kind ∧ ∀ vp ∈ vps, FreshVoid vp := by
  obtain ⟨vps, hvps, hfresh⟩ := hg.voids kind
  refine ⟨vps, ?_, hfresh⟩
  rw [TcState.voids, TcState.voids, hvps, hremoved, add_assoc]

theorem grows_voids (h : ∀ kind, ∀ vp ∈ s.voids kind, VoidOk vp) :
    ∀ kind, ∀ vp ∈ s'.voids kind, VoidOk vp := by
  intro kind vp hvp
  obtain ⟨vps, hvps, hfresh⟩ := grows_voids_eq hg hremoved kind
  rw [hvps] at hvp
  exact (Multiset.mem_add.mp hvp).elim (fun hv => (hfresh vp hv).ok) (h kind vp)

theorem grows_ended {kind : PositionKind} {id : PositionId} (h : s.EndedAsFill kind id) :
    s'.EndedAsFill kind id := by
  obtain ⟨vp, hvp, hrest⟩ := h
  obtain ⟨vps, hvps, -⟩ := grows_voids_eq hg hremoved kind
  refine ⟨vp, ?_, hrest⟩
  rw [hvps]
  exact Multiset.mem_add.mpr (Or.inr hvp)

omit hremoved

include hmoved

theorem grows_log_ids (h : s.logs.map tl_id = List.range s.cm_data.trade_logs_id_counter) :
    s'.logs.map tl_id = List.range s'.cm_data.trade_logs_id_counter := by
  have hnew : (ds.map Deal.log).map tl_id = ds.map fun d => d.log.log.id := by
    rw [List.map_map]
    rfl
  rw [TcState.logs, hmoved, hg.logs, ← List.append_assoc, List.map_append, hnew, hg.log_ids,
    hg.counter]
  change s.logs.map tl_id ++ _ = _
  rw [h, List.range_eq_range', List.range_eq_range', ← List.range'_append_1, Nat.zero_add]

theorem grows_deals (h : s.logs.map TradeLogAndTemporaryData.core =
    s.history.deals.map fun d => d.log.core) (hdeals : s'.history.deals = s.history.deals ++ ds) :
    s'.logs.map TradeLogAndTemporaryData.core = s'.history.deals.map fun d => d.log.core := by
  simp only [TcState.logs, hmoved, hg.logs, hdeals, List.map_append, List.map_map] at h ⊢
  rw [← List.append_assoc, h]
  rfl

end

/-! ## A trade is committed -/

theorem ended_of_book {s : TcState} (h : BookIds s.cm_data.toBook) (kind : PositionKind)
    {id : PositionId} (he : EndedAsFill (s.cm_data.void_positions kind) id) :
    s.EndedAsFill kind id := by
  obtain ⟨vp, hg, hend⟩ := he
  refine ⟨vp, Multiset.mem_add.mpr (Or.inl (Multiset.mem_coe.mpr ?_)), h.keyed kind id vp hg, hend⟩
  exact (OrdMap.mem_values_iff _ vp).mpr ⟨id, hg⟩

theorem Market.fresh_id (h : Market L s) : s.cm_data.positions_id_counter ∉ s.cm_data.ids := by
  intro hmem
  have hids := h.ids
  rw [positionIds_eq h.book.keyed] at hids
  have hrange : s.cm_data.positions_id_counter ∈
      (List.range s.cm_data.positions_id_counter : Multiset PositionId) := by
    rw [← hids]
    exact Multiset.mem_add.mpr (Or.inl (Multiset.mem_add.mpr (Or.inl hmem)))
  exact absurd (List.mem_range.mp (Multiset.mem_coe.mp hrange)) (lt_irrefl _)

theorem Market.commit_ok (h : Market L s) (cfg : TcConfig) (hL : L → FeesOk s.history) {q : TradeQuest}
    (hq : Admitted L q) (now : Nat) (instruction_counter : PositionId → Nat) (caller : Principal) :
    CommitOk L q s.cm_data.toBook s.cm_data.positions_id_counter
      (q.match_trades s.cm_data.toBook (s.match_env cfg now instruction_counter)
        s.cm_data.positions_id_counter caller) :=
  match_trades_commit (fun hl => hL hl _ (h.fees .Token)) h.book h.sound h.fresh_id hq

theorem Market.commit (h : Market L s) (hL : L → FeesOk s.history) {q : TradeQuest}
    (hq : Admitted L q) (now : Nat) (instruction_counter : PositionId → Nat) (caller : Principal)
    {calls : List UserCall} (hcalls : ∀ c ∈ calls, c ∈ s.calls) :
    Market L { s.commit (s.match_env cfg now instruction_counter) caller q with calls := calls } := by
  have hok := h.commit_ok cfg hL hq now instruction_counter caller
  have hg : BookGrows L s.cm_data.toBook _ ({ s.commit (s.match_env cfg now instruction_counter)
    caller q with calls := calls } : TcState).cm_data.toBook := hok.grows
  refine ⟨hok.inv, hok.sound, fun c hc => h.admitted c (hcalls c hc), h.fees, ?_,
    grows_log_ids hg rfl h.log_ids, grows_deals hg rfl h.deals rfl, fun d hd => ?_, fun hl d hd => ?_,
    grows_voids hg rfl h.voids, fun hl hstop => ?_⟩
  · have hids := h.ids
    rw [positionIds_eq h.book.keyed] at hids
    rw [positionIds_eq hok.inv.keyed]
    change (q.match_trades s.cm_data.toBook (s.match_env cfg now instruction_counter)
      s.cm_data.positions_id_counter caller).book.ids + _ + _ =
        (List.range (s.cm_data.positions_id_counter + 1) : List PositionId)
    rw [hok.ids, List.range_succ, ← Multiset.coe_add, ← hids, Multiset.cons_add, Multiset.cons_add,
      Multiset.coe_singleton, Multiset.add_comm _ {_}, Multiset.singleton_add]
    rfl
  · exact (List.mem_append.mp hd).elim (h.deals_ok d) (hok.deals d)
  · rcases List.mem_append.mp hd with hd | hd
    · exact (h.filled hl d hd).imp (grows_ended hg rfl) (grows_ended hg rfl)
    · exact (hok.filled hl d hd).imp (ended_of_book hok.inv .Cycles)
        (ended_of_book hok.inv .Token)
  · have hstop : (s.history.stopped || decide ((q.match_trades s.cm_data.toBook
      (s.match_env cfg now instruction_counter) s.cm_data.positions_id_counter caller).exit =
        .stopped)) = false := hstop
    rw [Bool.or_eq_false_iff, decide_eq_false_iff_not] at hstop
    exact hok.uncrossed hl (h.uncrossed hl hstop.1) hstop.2

/-! ## A position becomes void -/

theorem void_cycles_sound {b : Book} (h : BookSound L b) (k : PositionId) (p : CyclesPosition)
    (cause : PositionTerminationCause) (now : Nat) :
    BookSound L (b.void_cycles_position k p cause now) :=
  ⟨OrdMap.forall_remove h.cycles, h.token⟩

theorem void_token_sound {b : Book} (h : BookSound L b) (k : PositionId) (p : TokenPosition)
    (cause : PositionTerminationCause) (now : Nat) :
    BookSound L (b.void_token_position k p cause now) :=
  ⟨h.cycles, OrdMap.forall_remove h.token⟩

theorem BookFrame.uncrossed {b b' : Book} {ds : List Deal} (h : BookFrame L b ds b')
    (hu : Uncrossed b) : Uncrossed b' := by
  intro i j c t hc ht
  obtain ⟨c₀, hc₀, hcq⟩ := h.cycles_from i c hc
  obtain ⟨t₀, ht₀, htq⟩ := h.token_from j t ht
  rw [hcq, htq]
  exact hu i j c₀ t₀ hc₀ ht₀

theorem void_position_frame {b b' : Book} (hb : BookIds b) (hs : BookSound L b) {caller : Principal}
    {position_id : PositionId} {now : Nat} (h : void_position_ b caller position_id now = .ok b') :
    BookFrame L b [] b' ∧ BookSound L b' := by
  rcases void_position_spec hb h with ⟨p, hp, -, rfl⟩ | ⟨p, hp, -, rfl⟩
  · exact ⟨void_cycles_frame hb hp _ _, void_cycles_sound hs _ _ _ _⟩
  · exact ⟨void_token_frame hb hp _ _, void_token_sound hs _ _ _ _⟩

theorem Market.void (h : Market L s) {b : Book} (hf : BookFrame L s.cm_data.toBook [] b)
    (hs : BookSound L b) : Market L { s with cm_data := { s.cm_data with toBook := b } } := by
  have hg : BookGrows L s.cm_data.toBook []
    ({ s with cm_data := { s.cm_data with toBook := b } } : TcState).cm_data.toBook := hf.grows
  refine ⟨hf.inv, hs, h.admitted, h.fees, ?_, grows_log_ids hg rfl h.log_ids,
    grows_deals hg rfl h.deals (List.append_nil _).symm, h.deals_ok,
    fun hl d hd => (h.filled hl d hd).imp (grows_ended hg rfl) (grows_ended hg rfl),
    grows_voids hg rfl h.voids, fun hl hstop => hf.uncrossed (h.uncrossed hl hstop)⟩
  have hids := h.ids
  rw [positionIds_eq h.book.keyed] at hids
  rw [positionIds_eq hf.inv.keyed, ← hids]
  change b.ids + _ + _ = _
  rw [hf.ids]

/-! ## Runs of payouts -/

/-- What the steps of payouts leave alone. -/
structure PayoutFrame (s s' : TcState) : Prop where
  cycles : s'.cm_data.cycles_positions = s.cm_data.cycles_positions
  token : s'.cm_data.token_positions = s.cm_data.token_positions
  counter : s'.cm_data.positions_id_counter = s.cm_data.positions_id_counter
  log_counter : s'.cm_data.trade_logs_id_counter = s.cm_data.trade_logs_id_counter
  calls : s'.calls = s.calls
  fees : s'.fees = s.fees
  history_fees : s'.history.fees = s.history.fees
  deals : s'.history.deals = s.history.deals
  stopped : s'.history.stopped = s.history.stopped
  keyed : ∀ kind, Keyed (s'.cm_data.void_positions kind)
  voids : ∀ kind, (s'.voids kind).map VoidPosition.core = (s.voids kind).map VoidPosition.core
  voids_ok : ∀ kind, (∀ vp ∈ s.voids kind, VoidOk vp) → ∀ vp ∈ s'.voids kind, VoidOk vp
  logs : s'.logs.map TradeLogAndTemporaryData.core = s.logs.map TradeLogAndTemporaryData.core

namespace PayoutFrame

theorem void_ids (h : PayoutFrame s s') (kind : PositionKind) :
    (s'.voids kind).map VoidPosition.position_id = (s.voids kind).map VoidPosition.position_id := by
  have hcore := congrArg (Multiset.map VoidPosition.position_id) (h.voids kind)
  rw [Multiset.map_map, Multiset.map_map] at hcore
  exact hcore

theorem log_ids (h : PayoutFrame s s') : s'.logs.map tl_id = s.logs.map tl_id := by
  have hcore := congrArg (List.map tl_id) h.logs
  rw [List.map_map, List.map_map] at hcore
  exact hcore

theorem ended (h : PayoutFrame s s') {kind : PositionKind} {id : PositionId}
    (he : s.EndedAsFill kind id) : s'.EndedAsFill kind id := by
  obtain ⟨vp, hvp, hid, now, hend⟩ := he
  have hmem : vp.core ∈ (s'.voids kind).map VoidPosition.core := by
    rw [h.voids kind]
    exact Multiset.mem_map_of_mem _ hvp
  obtain ⟨vp', hvp', hcore⟩ := Multiset.mem_map.mp hmem
  refine ⟨vp', hvp', ?_, now, ?_⟩
  · exact (show vp'.core.position_id = vp.core.position_id by rw [hcore]).trans hid
  · exact (show vp'.core.log.position_termination = vp.core.log.position_termination by
      rw [hcore]).trans hend

theorem positionIds (h : PayoutFrame s s') : s'.positionIds = s.positionIds := by
  simp only [TcState.positionIds, h.cycles, h.token, h.void_ids]

theorem book (h : PayoutFrame s s') (hb : BookIds s.cm_data.toBook)
    (hids : s.positionIds.Nodup) : BookIds s'.cm_data.toBook := by
  refine ⟨by rw [h.cycles]; exact hb.cycles, by rw [h.token]; exact hb.token, h.keyed, ?_⟩
  have hnodup : s'.positionIds.Nodup := by
    rw [h.positionIds]
    exact hids
  have hle : s'.cm_data.ids ≤ s'.positionIds := by
    rw [positionIds_eq h.keyed, add_assoc]
    exact Multiset.le_add_right _ _
  exact Multiset.nodup_of_le hle hnodup

end PayoutFrame

theorem Market.payout (h : Market L s) (hf : PayoutFrame s s') : Market L s' := by
  have hnodup : s.positionIds.Nodup := by
    rw [h.ids, Multiset.coe_nodup]
    exact List.nodup_range
  refine ⟨hf.book h.book hnodup, ⟨by rw [hf.cycles]; exact h.sound.cycles,
    by rw [hf.token]; exact h.sound.token⟩, by rw [hf.calls]; exact h.admitted,
    by rw [hf.fees, hf.history_fees]; exact h.fees, by rw [hf.positionIds, hf.counter]; exact h.ids,
    by rw [hf.log_ids, hf.log_counter]; exact h.log_ids,
    by rw [hf.logs, hf.deals]; exact h.deals, by rw [hf.deals]; exact h.deals_ok, fun hl d hd => ?_,
    fun kind => hf.voids_ok kind (h.voids kind), fun hl hstop => ?_⟩
  · rw [hf.deals] at hd
    exact (h.filled hl d hd).imp hf.ended hf.ended
  · rw [hf.stopped] at hstop
    intro i j c t hc ht
    rw [hf.cycles] at hc
    rw [hf.token] at ht
    exact h.uncrossed hl hstop i j c t hc ht

theorem Market.sorted (h : Market L s) : SortedBy tl_id s.cm_data.trade_logs := by
  have hrange : (s.logs.map tl_id).Pairwise (· < ·) := by
    rw [h.log_ids]
    exact List.pairwise_lt_range
  refine hrange.sublist (List.Sublist.map _ ?_)
  exact List.sublist_append_right _ _

theorem keyed_iff {m : OrdMap PositionId VoidPosition} :
    Keyed m ↔ m.values.map VoidPosition.position_id = m.keys := by
  refine ⟨Keyed.ids_eq, fun h k vp hg => ?_⟩
  unfold OrdMap.values OrdMap.keys at h
  rw [List.map_map] at h
  exact List.map_inj_left.mp h (k, vp) ((m.mem_iff_get k vp).mpr hg)

theorem started_frame {cm_data : CMData} {data : LogStorageData} {run : PayoutsRun}
    (hb : BookIds s.cm_data.toBook)
    (h : _do_payouts s.fees s.cm_data s.positions_storage.data = some (cm_data, data, run)) :
    PayoutFrame s
      { s with
        cm_data := cm_data
        positions_storage := { s.positions_storage with data := data }
        runs := s.runs ++ [run]
        history := s.history.update run.written } := by
  have hs := _do_payouts_spec h
  have hvalues := fun kind => (hs.voids kind).map_eq VoidPosition.core (fun _ => rfl) (fun _ => rfl)
  have hids := fun kind => (hs.voids kind).map_eq VoidPosition.position_id (fun _ => rfl)
    (fun _ => rfl)
  obtain ⟨vcs, vts, tls, rfl⟩ := hs.same
  refine ⟨rfl, rfl, rfl, rfl, rfl, rfl, rfl, rfl, rfl, fun kind => ?_, fun kind => ?_,
    fun kind hok vp hvp => ?_, ?_⟩
  · rw [keyed_iff, hids kind, (hb.keyed kind).ids_eq]
    exact (hs.keys kind).symm
  · simp only [TcState.voids, Multiset.map_add, Multiset.map_coe]
    exact congrArg (fun l : List VoidPosition => (l : Multiset VoidPosition) + _) (hvalues kind)
  · rcases Multiset.mem_add.mp hvp with hvp | hvp
    · refine (hs.voids kind).forall_mem (fun vp h => ⟨h.log_id, h.log_mainder, h.log_ended,
        h.log_payout⟩) (fun vp _ h => ⟨h.log_id, h.log_mainder, h.log_ended, h.log_payout⟩)
        (fun v hv => hok v ?_) vp (Multiset.mem_coe.mp hvp)
      exact Multiset.mem_add.mpr (Or.inl (Multiset.mem_coe.mpr hv))
    · exact hok vp (Multiset.mem_add.mpr (Or.inr hvp))
  · simp only [TcState.logs, List.map_append]
    exact congrArg (List.map _ s.history.moved ++ ·) hs.logs_core

theorem ended_frame (hm : Market L s) (run : PayoutsRun) (runs : List PayoutsRun) :
    PayoutFrame s
      { s with
        cm_data := (_do_payouts_end run s.cm_data).1
        positions_storage := { s.positions_storage with
          data := unlock_positions_storage run s.positions_storage.data }
        runs := runs
        history := s.history.remove (_do_payouts_end run s.cm_data).2 } := by
  refine ⟨rfl, rfl, rfl, rfl, rfl, rfl, rfl, rfl, rfl, fun kind => ?_, fun kind => ?_,
    fun kind hok vp hvp => ?_, ?_⟩
  · rw [(do_payouts_end_voids run s.cm_data kind).1]
    exact handle_vps_keyed_both run (hm.book.keyed kind)
  · obtain ⟨hvoids, hremoved⟩ := do_payouts_end_voids run s.cm_data kind
    have hboth := handle_vps_map_both VoidPosition.core handle_vp_payout_core handle_vp_update_core
      run kind (s.cm_data.void_positions kind)
    simp only [TcState.voids, History.remove, Multiset.map_add, Multiset.map_coe,
      ← Multiset.coe_add, hvoids, hremoved]
    rw [← hboth]
    ac_rfl
  · obtain ⟨hvoids, hremoved⟩ := do_payouts_end_voids run s.cm_data kind
    have hboth := handle_vps_forall_both (P := VoidOk) kind (fun _ r h => h.payout r)
      (fun _ r h => h.update r) run
      (fun v hv => hok v (Multiset.mem_add.mpr (Or.inl (Multiset.mem_coe.mpr hv))))
    simp only [TcState.voids, History.remove, hvoids, hremoved] at hvp
    rcases Multiset.mem_add.mp hvp with hvp | hvp
    · exact hboth.1 vp (Multiset.mem_coe.mp hvp)
    · rcases List.mem_append.mp (Multiset.mem_coe.mp hvp) with hvp | hvp
      · exact hok vp (Multiset.mem_add.mpr (Or.inr (Multiset.mem_coe.mpr hvp)))
      · exact (hboth.2 vp hvp).1
  · simp only [TcState.logs, List.map_append]
    refine congrArg (List.map _ s.history.moved ++ ·) ?_
    exact handle_tls_payouts_map _ set_payout_core hm.sorted _ _

theorem moved_frame (hb : BookIds s.cm_data.toBook) (trades_env positions_env : FlushEnv)
    (calls : Nat) :
    PayoutFrame s
      { s.move_and_flush cfg trades_env positions_env with do_payouts_calls := calls } := by
  refine ⟨rfl, rfl, rfl, rfl, rfl, rfl, rfl, rfl, rfl, hb.keyed, fun kind => ?_, fun kind hok => ?_,
    ?_⟩
  · cases kind <;> rfl
  · cases kind <;> exact hok
  · have hsplit := (move_trade_logs_spec s.cm_data.trade_logs).1
    change (((s.history.moved ++ (move_trade_logs s.cm_data.trade_logs).1) ++
      (move_trade_logs s.cm_data.trade_logs).2).map _) = _
    rw [List.append_assoc, hsplit]
    rfl

/-! ## Every run -/

/-- Steps that the market does not see. -/
structure Quiet (s s' : TcState) : Prop where
  book : s'.cm_data.toBook = s.cm_data.toBook
  counter : s'.cm_data.positions_id_counter = s.cm_data.positions_id_counter
  deals : s'.history.deals = s.history.deals
  stopped : s'.history.stopped = s.history.stopped
  removed : s'.history.removed = s.history.removed
  moved : s'.history.moved = s.history.moved

theorem Quiet.voids_eq (h : Quiet s s') (kind : PositionKind) : s'.voids kind = s.voids kind := by
  rw [TcState.voids, TcState.voids, h.book, h.removed]

theorem Market.quiet (h : Market L s) (hq : Quiet s s')
    (hcalls : ∀ c ∈ s'.calls, ∀ q, c.quest = .trade q → Admitted L q)
    (hfees : ∀ kind, s'.fees kind ∈ s'.history.fees) : Market L s' := by
  have hended : ∀ {kind id}, s.EndedAsFill kind id → s'.EndedAsFill kind id := by
    intro kind id hend
    unfold TcState.EndedAsFill
    rw [hq.voids_eq]
    exact hend
  refine ⟨by rw [hq.book]; exact h.book, by rw [hq.book]; exact h.sound, hcalls, hfees, ?_, ?_, ?_,
    by rw [hq.deals]; exact h.deals_ok, fun hl d hd => ?_,
    fun kind => by rw [hq.voids_eq]; exact h.voids kind,
    fun hl hstop => by rw [hq.book]; exact h.uncrossed hl (hq.stopped ▸ hstop)⟩
  · rw [TcState.positionIds, hq.voids_eq, hq.voids_eq, hq.book, hq.counter]
    exact h.ids
  · rw [TcState.logs, hq.moved, hq.book]
    exact h.log_ids
  · rw [TcState.logs, hq.moved, hq.book, hq.deals]
    exact h.deals
  · rw [hq.deals] at hd
    exact (h.filled hl d hd).imp hended hended

theorem admitted_of_calls (h : ∀ c ∈ s.calls, ∀ q, c.quest = .trade q → Admitted L q)
    {calls : List UserCall} (hc : ∀ c ∈ calls, ∃ c' ∈ s.calls, c'.quest = c.quest) :
    ∀ c ∈ calls, ∀ q, c.quest = .trade q → Admitted L q := by
  intro c hmem q hq
  obtain ⟨c', hc', hquest⟩ := hc c hmem
  exact h c' hc' q (hquest.trans hq)

section

variable {pre post : List UserCall} {c : UserCall}

theorem calls_replied (hc : s.calls = pre ++ c :: post) (r : Option LedgerTransferReturnType) :
    ∀ d ∈ pre ++ { c with reply := r } :: post, ∃ d' ∈ s.calls, d'.quest = d.quest := by
  intro d hd
  rw [hc]
  simp only [List.mem_append, List.mem_cons] at hd ⊢
  rcases hd with hd | rfl | hd
  · exact ⟨d, Or.inl hd, rfl⟩
  · exact ⟨c, Or.inr (Or.inl rfl), rfl⟩
  · exact ⟨d, Or.inr (Or.inr hd), rfl⟩

theorem calls_ended (hc : s.calls = pre ++ c :: post) : ∀ d ∈ pre ++ post, d ∈ s.calls := by
  intro d hd
  rw [hc]
  simp only [List.mem_append, List.mem_cons] at hd ⊢
  exact hd.imp_right Or.inr

end

theorem fees_replied (h : ∀ kind, s.fees kind ∈ s.history.fees) (kind : PositionKind)
    (r : LedgerTransferReturnType) : ∀ k, (s.ledger_transfer_replied kind r).fees k ∈
      (s.ledger_transfer_replied kind r).history.fees := by
  intro k
  unfold TcState.ledger_transfer_replied
  simp only [Function.update_apply]
  split_ifs with hk
  · cases hb : bad_fee r with
    | none => exact List.mem_append.mpr (Or.inl (h kind))
    | some fee => exact List.mem_append.mpr (Or.inr (by simp))
  · exact List.mem_append.mpr (Or.inl (h k))

theorem TcStep.fees_grow (h : TcStep cfg s s') : ∃ fees, s'.history.fees = s.history.fees ++ fees := by
  cases h
  case trade_failed | balance_replied | payout_replied => exact ⟨_, rfl⟩
  all_goals exact ⟨[], (List.append_nil _).symm⟩

theorem FeesOk.of_step (h : TcStep cfg s s') (hf : FeesOk s'.history) : FeesOk s.history := by
  obtain ⟨fees, heq⟩ := h.fees_grow
  intro fee hfee
  refine hf fee ?_
  rw [heq]
  exact List.mem_append.mpr (Or.inl hfee)

theorem market_step (h : Market L s) (hL : L → FeesOk s.history) (hstep : TcStep cfg s s') :
    Market L s' := by
  cases hstep with
  | @trade caller q cm_data ht =>
    obtain ⟨rfl, hok⟩ := _trade_spec ht
    refine h.quiet ⟨rfl, rfl, rfl, rfl, rfl, rfl⟩ (fun c hc q' hq => ?_) h.fees
    rcases List.mem_cons.mp hc with rfl | hc
    · obtain rfl := UserQuest.trade.inj hq
      exact admitted_of_checks (fun hl => hL hl _ (h.fees .Token)) hok.minimum hok.rate_ne
    · exact h.admitted c hc q' hq
  | @transfer_balance caller kind q cm_data ht =>
    obtain ⟨rfl, -⟩ := _transfer_balance_spec ht
    refine h.quiet ⟨rfl, rfl, rfl, rfl, rfl, rfl⟩ (fun c hc q' hq => ?_) h.fees
    rcases List.mem_cons.mp hc with rfl | hc
    · cases hq
    · exact h.admitted c hc q' hq
  | deposit_executed block hc hr hq hl =>
    exact h.quiet ⟨rfl, rfl, rfl, rfl, rfl, rfl⟩
      (admitted_of_calls h.admitted (calls_replied hc _)) h.fees
  | balance_executed block hc hr hq hl =>
    exact h.quiet ⟨rfl, rfl, rfl, rfl, rfl, rfl⟩
      (admitted_of_calls h.admitted (calls_replied hc _)) h.fees
  | call_refused r hc hr hn =>
    exact h.quiet ⟨rfl, rfl, rfl, rfl, rfl, rfl⟩
      (admitted_of_calls h.admitted (calls_replied hc _)) h.fees
  | trade_failed hc hr hq he =>
    exact h.quiet ⟨rfl, rfl, rfl, rfl, rfl, rfl⟩
      (fun d hd => h.admitted d (calls_ended hc d hd)) (fees_replied h.fees _ _)
  | trade_committed now instruction_counter hc hr hq he =>
    refine h.commit hL (h.admitted _ ?_ _ hq) now instruction_counter _ (calls_ended hc)
    rw [hc]
    simp
  | balance_replied hc hr hq =>
    exact h.quiet ⟨rfl, rfl, rfl, rfl, rfl, rfl⟩
      (fun d hd => h.admitted d (calls_ended hc d hd)) (fees_replied h.fees _ _)
  | void_position hv =>
    obtain ⟨hframe, hsound⟩ := void_position_frame h.book h.sound hv
    exact h.void hframe hsound
  | do_payouts_replied trades_env positions_env hcalls =>
    exact h.payout (moved_frame h.book trades_env positions_env _)
  | payouts_started hp => exact h.payout (started_frame h.book hp)
  | payout_replied hr hp hs =>
    exact h.quiet ⟨rfl, rfl, rfl, rfl, rfl, rfl⟩ h.admitted (fees_replied h.fees _ _)
  | payouts_ended hr hf => exact h.payout (ended_frame h _ _)
  | others_transfer | others_mint | do_payouts | do_payouts_failed | payout_executed | payout_refused
  | update_executed | update_failed | positions_flush | trades_flush =>
    exact h.quiet ⟨rfl, rfl, rfl, rfl, rfl, rfl⟩ h.admitted h.fees

theorem market_init (h : TcInit cfg s) : Market L s := by
  obtain ⟨fees, positions_module_hash, trades_module_hash, ledger, rfl⟩ := h
  have hnone : ∀ kind, (TcState.new cfg fees positions_module_hash trades_module_hash
      ledger).cm_data.void_positions kind = .empty := by
    intro kind
    cases kind <;> rfl
  have hvoids : ∀ kind, (TcState.new cfg fees positions_module_hash trades_module_hash
      ledger).voids kind = 0 := by
    intro kind
    rw [TcState.voids, hnone]
    rfl
  refine ⟨⟨fun k p hg => ?_, fun k p hg => ?_, fun kind k vp hg => ?_, ?_⟩,
    ⟨fun k p hg => ?_, fun k p hg => ?_⟩, ?_, ?_, ?_, rfl, rfl, ?_, ?_, ?_, ?_⟩
  · cases hg
  · cases hg
  · rw [hnone] at hg
    cases hg
  · exact Multiset.nodup_zero
  · cases hg
  · cases hg
  · exact fun c hc => absurd hc List.not_mem_nil
  · intro kind
    cases kind <;> simp [TcState.new]
  · rw [TcState.positionIds, hvoids, hvoids]
    rfl
  · exact fun d hd => absurd hd List.not_mem_nil
  · exact fun _ d hd => absurd hd List.not_mem_nil
  · intro kind vp hvp
    rw [hvoids] at hvp
    exact absurd hvp (Multiset.notMem_zero vp)
  · intro _ _ i j c t hc
    cases hc

theorem market_inv (r : TcReachable cfg s) (hL : L → FeesOk s.history) : Market L s :=
  r.invariant_while (fun _ _ hstep hL' hl => (hL' hl).of_step hstep)
    (fun _ hinit _ => market_init hinit) (fun _ _ _ hL' _ h hstep => market_step h hL' hstep) hL

end Cts.Tc
