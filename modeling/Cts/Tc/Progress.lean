import Cts.Tc.Pools

/-!
# What a run gets done

A run of `_do_payouts` takes something of each queue that has something free, and each result that it
brings back stays: a paid position or trade log is paid, an updated void position is gone.
-/

namespace Cts.Tc

open Lib Lib.Jobs

/-! ## What a run takes -/

section Takes

variable {fees : PositionKind → Nat} {cm_data cm_data' : CMData} {data data' : LogStorageData}
  {run : PayoutsRun}

def chunkOf (chunks : List Payout × List Payout) : PositionKind → List Payout
  | .Cycles => chunks.1
  | .Token => chunks.2

theorem _do_payouts_takes (h : _do_payouts fees cm_data data = some (cm_data', data', run))
    (kind : PositionKind) :
    run.payouts (.void kind) = (void_positions_payouts (cm_data.void_positions kind) (fees kind)
        !data.storage_flush_lock).2.payouts_chunk ∧
      run.updateJobs kind = (void_positions_payouts (cm_data.void_positions kind) (fees kind)
        !data.storage_flush_lock).2.update_storage_positions_chunk ∧
      run.payouts (.trade kind) = chunkOf (trade_logs_payouts fees cm_data.trade_logs [] []).2 kind := by
  unfold _do_payouts at h
  simp only at h
  obtain ⟨⟨data₁, us⟩, hus, h⟩ := Option.bind_eq_some_iff.mp h
  obtain ⟨⟨data₂, vs⟩, hvs, h⟩ := Option.bind_eq_some_iff.mp h
  obtain ⟨-, hrun⟩ := Prod.mk.inj (Option.some.inj h)
  obtain ⟨-, rfl⟩ := Prod.mk.inj hrun
  cases kind
  · exact ⟨rfl, do_update_storage_positions_jobs hus, rfl⟩
  · exact ⟨rfl, do_update_storage_positions_jobs hvs, rfl⟩

/-- A void position that no run works on. -/
structure VoidFree (vp : VoidPosition) : Prop where
  payout : vp.payout_data = none → vp.payout_lock = false
  update : vp.payout_data.isSome → vp.update_storage_position_data.status = false ∧
    vp.update_storage_position_data.lock = false

theorem take_void_position_takes {vp : VoidPosition} (h : VoidFree vp) (fee : Nat) :
    ∃ vp' c, take_void_position fee true ⟨[], []⟩ vp = some (vp', c) ∧
      (c.payouts_chunk ≠ [] ∨ c.update_storage_positions_chunk ≠ []) := by
  cases hp : vp.payout_data with
  | none =>
    refine ⟨vp.lock_payout, ⟨[_do_payout vp.position_id fee vp.payout_quest], []⟩, ?_, by simp⟩
    simp [take_void_position, take_payout, take_update, VoidPosition.lock_payout,
      DO_VOID_POSITIONS_PAYOUTS_CHUNK_SIZE, hp, h.payout hp]
  | some pd =>
    have hfree := h.update (by rw [hp]; rfl)
    refine ⟨vp.lock_update, ⟨[], [(vp.position_id, vp.log.stable_memory_serialize)]⟩, ?_, by simp⟩
    simp [take_void_position, take_payout, take_update, DO_VOID_POSITIONS_PAYOUTS_CHUNK_SIZE,
      DO_VOID_POSITIONS_UPDATE_STORAGE_POSITION_CHUNK_SIZE, hp, hfree]

theorem void_positions_payouts_takes {m : OrdMap PositionId VoidPosition}
    (h : ∀ vp ∈ m.values, VoidFree vp) (hne : m.values ≠ []) (fee : Nat) :
    (void_positions_payouts m fee true).2.payouts_chunk ≠ [] ∨
      (void_positions_payouts m fee true).2.update_storage_positions_chunk ≠ [] := by
  change (OrdMap.loopEntries (take_void_position fee true) m.entries ⟨[], []⟩).2.payouts_chunk ≠ [] ∨
    (OrdMap.loopEntries (take_void_position fee true) m.entries
      ⟨[], []⟩).2.update_storage_positions_chunk ≠ []
  unfold OrdMap.values at h hne
  cases hm : m.entries with
  | nil => simp [hm] at hne
  | cons e rest =>
    obtain ⟨k, vp⟩ := e
    obtain ⟨vp', c, htake, hc⟩ := take_void_position_takes (h vp (by simp [hm])) fee
    obtain ⟨ps, us, hrest, -, -⟩ := loopEntries_taken fee true rest c
    simp only [OrdMap.loopEntries, htake, hrest]
    exact hc.imp (fun hp => by simp [hp]) fun hu => by simp [hu]

theorem take_trade_log_takes {kind : PositionKind} {tl : TradeLogAndTemporaryData} {fee : Nat}
    (h : (tl.slot kind).fresh) : (take_trade_log kind fee tl []).2 ≠ [] := by
  unfold take_trade_log
  rw [if_pos]
  · simp
  · refine ⟨Option.isNone_iff_eq_none.mpr h.2, h.1, ?_⟩
    cases kind <;> decide

theorem take_trade_log_other (fee : Nat) (tl : TradeLogAndTemporaryData) (chunk : List Payout) :
    (take_trade_log .Cycles fee tl chunk).1.slot .Token = tl.slot .Token := by
  rcases take_trade_log_cases fee .Cycles tl chunk with h | ⟨-, h⟩
  · rw [h]
  · rw [h]
    rfl

theorem take_trade_log_ne_nil {kind : PositionKind} {fee : Nat} {tl : TradeLogAndTemporaryData}
    {chunk : List Payout} (h : chunk ≠ [] ∨ (tl.slot kind).fresh) :
    (take_trade_log kind fee tl chunk).2 ≠ [] := by
  by_cases hc : chunk = []
  · rw [hc]
    exact take_trade_log_takes (h.resolve_left fun hne => hne hc)
  · rcases take_trade_log_cases fee kind tl chunk with h | ⟨-, h⟩
    · rw [h]
      exact hc
    · rw [h]
      simp

theorem trade_logs_payouts_takes (kind : PositionKind) {trade_logs : List TradeLogAndTemporaryData}
    {cs ts : List Payout}
    (h : chunkOf (cs, ts) kind ≠ [] ∨ ∃ tl ∈ trade_logs, (tl.slot kind).fresh) :
    chunkOf (trade_logs_payouts fees trade_logs cs ts).2 kind ≠ [] := by
  induction trade_logs generalizing cs ts with
  | nil => exact h.resolve_right (by simp)
  | cons tl trade_logs ih =>
    simp only [trade_logs_payouts]
    refine ih ?_
    rcases h with h | ⟨t, ht, hf⟩
    · refine Or.inl ?_
      cases kind
      · exact take_trade_log_ne_nil (Or.inl h)
      · exact take_trade_log_ne_nil (Or.inl h)
    · rcases List.mem_cons.mp ht with rfl | ht
      · refine Or.inl ?_
        cases kind
        · exact take_trade_log_ne_nil (Or.inr hf)
        · refine take_trade_log_ne_nil (Or.inr ?_)
          rw [take_trade_log_other]
          exact hf
      · exact Or.inr ⟨t, ht, hf⟩

end Takes

/-! ## Single results -/

section

variable {DoOutput : Type} {handle_output : VoidPosition → DoOutput → VoidPosition}
  {m : OrdMap PositionId VoidPosition}

theorem handle_vps_get_others {rs : List (PositionId × DoOutput)} {id : PositionId}
    (hid : id ∉ rs.map Prod.fst) : (_handle_vps handle_output rs m).1.get id = m.get id := by
  induction rs generalizing m with
  | nil => rfl
  | cons r rs ih =>
    obtain ⟨vp_id, do_output⟩ := r
    rw [List.map_cons, List.mem_cons, not_or] at hid
    rw [_handle_vps]
    cases m.get vp_id with
    | none => exact ih hid.2
    | some vp =>
      simp only
      split_ifs
      · rw [ih hid.2, OrdMap.get_remove_of_ne _ hid.1]
      · rw [ih hid.2, OrdMap.get_insert_of_ne _ _ hid.1]

theorem handle_vps_get {rs : List (PositionId × DoOutput)} (hn : (rs.map Prod.fst).Nodup)
    {r : PositionId × DoOutput} (hr : r ∈ rs) {vp : VoidPosition} (hg : m.get r.1 = some vp) :
    (_handle_vps handle_output rs m).1.get r.1 =
      if (handle_output vp r.2).can_remove then none else some (handle_output vp r.2) := by
  induction rs generalizing m with
  | nil => exact absurd hr List.not_mem_nil
  | cons q rs ih =>
    obtain ⟨vp_id, do_output⟩ := q
    rw [List.map_cons, List.nodup_cons] at hn
    rcases List.mem_cons.mp hr with rfl | hr
    · simp only [_handle_vps, hg]
      by_cases hcan : (handle_output vp do_output).can_remove = true
      · rw [if_pos hcan, if_pos hcan, handle_vps_get_others hn.1, OrdMap.get_remove_self]
      · rw [if_neg hcan, if_neg hcan, handle_vps_get_others hn.1, OrdMap.get_insert_self]
    · have hne : r.1 ≠ vp_id := fun heq => hn.1 (List.mem_map.mpr ⟨r, hr, heq⟩)
      rw [_handle_vps]
      cases m.get vp_id with
      | none => exact ih hn.2 hr hg
      | some v =>
        simp only
        by_cases hcan : (handle_output v do_output).can_remove = true
        · rw [if_pos hcan]
          exact ih hn.2 hr (by rw [OrdMap.get_remove_of_ne _ hne, hg])
        · rw [if_neg hcan]
          exact ih hn.2 hr (by rw [OrdMap.get_insert_of_ne _ _ hne, hg])

theorem handle_vps_get_from {P : VoidPosition → Prop} (hP : ∀ vp r, P vp → P (handle_output vp r))
    {id : PositionId} (rs : List (PositionId × DoOutput)) (hm : ∀ vp, m.get id = some vp → P vp) :
    ∀ vp, (_handle_vps handle_output rs m).1.get id = some vp → P vp := by
  induction rs generalizing m with
  | nil => exact hm
  | cons r rs ih =>
    obtain ⟨vp_id, do_output⟩ := r
    rw [_handle_vps]
    cases hg : m.get vp_id with
    | none => exact ih hm
    | some v =>
      simp only
      split_ifs
      · refine ih fun vp hvp => ?_
        rw [OrdMap.get_remove] at hvp
        split_ifs at hvp
        exact hm vp hvp
      · refine ih fun vp hvp => ?_
        rw [OrdMap.get_insert] at hvp
        split_ifs at hvp with heq
        · obtain rfl := Option.some.inj hvp
          exact hP v do_output (hm v (heq ▸ hg))
        · exact hm vp hvp

end

theorem resultOf_others {rs : List (Nat × Option PayoutData)} {id : Nat}
    (hid : id ∉ rs.map Prod.fst) (found : Option (Option PayoutData)) :
    resultOf rs id found = found := by
  induction rs generalizing found with
  | nil => rfl
  | cons r rs ih =>
    rw [List.map_cons, List.mem_cons, not_or] at hid
    unfold resultOf at ih ⊢
    rw [List.foldl_cons, if_neg (Ne.symm hid.1)]
    exact ih hid.2 found

theorem resultOf_mem {rs : List (Nat × Option PayoutData)} (hn : (rs.map Prod.fst).Nodup)
    {r : Nat × Option PayoutData} (hr : r ∈ rs) (found : Option (Option PayoutData)) :
    resultOf rs r.1 found = some r.2 := by
  induction rs generalizing found with
  | nil => exact absurd hr List.not_mem_nil
  | cons q rs ih =>
    rw [List.map_cons, List.nodup_cons] at hn
    rcases List.mem_cons.mp hr with rfl | hr
    · have hfirst := resultOf_others hn.1 (some r.2)
      unfold resultOf at hfirst ⊢
      rw [List.foldl_cons, if_pos rfl]
      exact hfirst
    · have ih := ih hn.2 hr
      unfold resultOf at ih ⊢
      rw [List.foldl_cons]
      exact ih _

/-! ## What is left to do -/

/-- The payouts of a kind that are not on record, and the void positions that are there. -/
def TcState.leftOf (s : TcState) (kind : PositionKind) : Nat :=
  Multiset.card (s.pool (.void kind)).unsettled + Multiset.card (s.pool (.void kind)).slots +
    Multiset.card (s.pool (.trade kind)).unsettled

def TcState.leftToDo (s : TcState) : Nat := s.leftOf .Cycles + s.leftOf .Token

variable {L : Prop} {cfg : TcConfig} {s s' : TcState} {q : Queue} {kind : PositionKind}

theorem Worked.left_le (hq : Queues s) (h : Worked s s') (kind : PositionKind) :
    s'.leftOf kind ≤ s.leftOf kind := by
  have hvoid := Multiset.card_le_card (unsettled_works (hq.payouts (.void kind))
    (h.payouts (.void kind)))
  have hslots := slots_works (h.payouts (.void kind))
  have htrade := Multiset.card_le_card (unsettled_works (hq.payouts (.trade kind))
    (h.payouts (.trade kind)))
  unfold TcState.leftOf
  omega

section

variable {before after : List PayoutsRun} {run : PayoutsRun}

theorem run_flights_le (hr : s.runs = before ++ run :: after) (q : Queue) :
    ((run.payouts q).map Payout.flight : Multiset PayoutFlight) ≤ (s.pool q).flights := by
  change _ ≤ payoutFlights s.runs q
  rw [hr, payoutFlights_cons]
  exact Multiset.le_add_right _ _

theorem Queues.results_nodup (hq : Queues s) (hr : s.runs = before ++ run :: after) (q : Queue) :
    ((run.results q).map Prod.fst).Nodup := by
  have hle := Multiset.map_le_map (f := Flight.id) (run_flights_le hr q)
  have hnodup := Multiset.nodup_of_le hle (hq.payouts q).flight_ids
  rw [Multiset.map_coe, Multiset.coe_nodup, List.map_map] at hnodup
  unfold PayoutsRun.results
  rw [List.map_map]
  exact hnodup

theorem payout_recorded (hm : Market L s) (hq : Queues s) (hr : s.runs = before ++ run :: after)
    (hbook : s'.cm_data = (_do_payouts_end run s.cm_data).1) {p : Payout} (hp : p ∈ run.payouts q)
    (hres : p.result.isSome) : p.id ∉ (s'.pool q).unsettled := by
  have hmem : (p.id, p.result) ∈ run.results q := List.mem_map_of_mem hp
  have hnodup := hq.results_nodup hr q
  rw [Pool.mem_unsettled]
  rintro ⟨x, hx, hdata, hid⟩
  change x ∈ s'.cm_data.slots q at hx
  rw [hbook] at hx
  cases q with
  | void kind =>
    obtain ⟨vp, hvp, rfl⟩ := mem_voidSlots.mp hx
    rw [(do_payouts_end_voids run s.cm_data kind).1] at hvp
    have hkeyed : Keyed (run.handle_vps kind (s.cm_data.void_positions kind)).1 :=
      handle_vps_keyed_both run (hm.book.keyed kind)
    have hget := hkeyed.get_of_mem hvp
    have hid : vp.position_id = p.id := hid
    rw [hid] at hget
    -- Its position was there, has the result now, and keeps it when the updates come in.
    have hfirst : ∀ v, (_handle_vps handle_vp_payout (run.results (.void kind))
        (s.cm_data.void_positions kind)).1.get p.id = some v → v.payout_data.isSome := by
      obtain ⟨y, hy, hyid, -⟩ := (hq.payouts (.void kind)).away p.flight
        (Multiset.mem_of_le (run_flights_le hr _) (Multiset.mem_coe.mpr (List.mem_map_of_mem hp)))
      obtain ⟨v₀, hv₀, rfl⟩ := mem_voidSlots.mp hy
      have hv₀get := (hm.book.keyed kind).get_of_mem hv₀
      rw [show v₀.position_id = p.id from hyid] at hv₀get
      intro v hv
      rw [handle_vps_get hnodup hmem hv₀get] at hv
      split_ifs at hv
      obtain rfl := Option.some.inj hv
      rw [handle_vp_payout_data]
      exact hres
    have hkeep : ∀ v r, v.payout_data.isSome → (handle_vp_update v r).payout_data.isSome :=
      fun _ _ h => h
    have hlast := handle_vps_get_from hkeep (run.update_results kind) hfirst vp hget
    rw [show vp.payout_data = none from hdata] at hlast
    cases hlast
  | trade kind =>
    have hslots := handle_tls_payouts_slots hm.sorted (fun k => run.results (.trade k)) kind
    have hx : x ∈ ((_do_payouts_end run s.cm_data).1.trade_logs.map
      (TradeLogAndTemporaryData.slot kind)) := Multiset.mem_coe.mp hx
    change x ∈ (handle_tls_payouts s.cm_data.trade_logs _).map _ at hx
    rw [hslots] at hx
    obtain ⟨y, -, rfl⟩ := List.mem_map.mp hx
    have hfold := foldl_applyResult (run.results (.trade kind)) y none
    simp only at hfold
    rw [hfold] at hid hdata
    have hyid : y.id = p.id := by
      rw [← hid]
      split <;> rfl
    rw [hyid, resultOf_mem hnodup hmem] at hdata
    rw [show p.result = none from hdata] at hres
    cases hres

theorem run_updateFlights_le (hr : s.runs = before ++ run :: after) (kind : PositionKind) :
    ((run.updates kind).map Update.flight : Multiset UpdateFlight) ≤ (s.updatePool kind).flights := by
  change _ ≤ updateFlights s.runs kind
  rw [hr, updateFlights_cons]
  exact Multiset.le_add_right _ _

theorem updated_gone (hm : Market L s) (hq : Queues s) (hr : s.runs = before ++ run :: after)
    {u : Update} (hu : u ∈ run.updates kind) (hres : u.result = .ok ()) :
    u.position_id ∈ (s.cm_data.void_positions kind).keys ∧
      (run.handle_vps kind (s.cm_data.void_positions kind)).1.get u.position_id = none := by
  have hkeyed := hm.book.keyed kind
  have hflight := Multiset.mem_of_le (run_updateFlights_le hr kind)
    (Multiset.mem_coe.mpr (List.mem_map_of_mem hu))
  obtain ⟨vp, x, hget, -, hslot, -, hpaid⟩ := void_of_update_flight hkeyed (hq.updates kind) rfl hflight
  have hget : (s.cm_data.void_positions kind).get u.position_id = some vp := hget
  refine ⟨OrdMap.mem_keys_of_get hget, ?_⟩
  -- It is paid, so its payout is no part of the run.
  have hother : u.position_id ∉ (run.results (.void kind)).map Prod.fst := by
    intro hmem
    obtain ⟨e, he, heid⟩ := List.mem_map.mp hmem
    obtain ⟨p, hp, rfl⟩ := List.mem_map.mp he
    obtain ⟨y, hy, hyid, -, -, hdata⟩ := (hq.payouts (.void kind)).away p.flight
      (Multiset.mem_of_le (run_flights_le hr _) (Multiset.mem_coe.mpr (List.mem_map_of_mem hp)))
    obtain ⟨v, hv, rfl⟩ := mem_voidSlots.mp hy
    have hvget := hkeyed.get_of_mem hv
    have hvid : v.position_id = p.id := hyid
    rw [hvid, show p.id = u.position_id from heid, hget] at hvget
    obtain rfl := Option.some.inj hvget
    rw [show vp.payout_data = none from hdata] at hpaid
    cases hpaid
  have hnodup : ((run.update_results kind).map Prod.fst).Nodup := by
    have hle := Multiset.map_le_map (f := Flight.id) (run_updateFlights_le hr kind)
    have hnodup := Multiset.nodup_of_le hle (hq.updates kind).flight_ids
    rw [Multiset.map_coe, Multiset.coe_nodup, List.map_map] at hnodup
    unfold PayoutsRun.update_results
    rw [List.map_map]
    exact hnodup
  have hresult : (u.position_id, u.result) ∈ run.update_results kind := List.mem_map_of_mem hu
  have hfirst : (_handle_vps handle_vp_payout (run.results (.void kind))
      (s.cm_data.void_positions kind)).1.get u.position_id = some vp :=
    (handle_vps_get_others hother).trans hget
  have hlast : (run.handle_vps kind (s.cm_data.void_positions kind)).1.get u.position_id =
      if (handle_vp_update vp u.result).can_remove then none else some (handle_vp_update vp u.result) :=
    handle_vps_get hnodup hresult hfirst
  have hcan : (handle_vp_update vp u.result).can_remove = true := by
    rw [hres]
    simp [VoidPosition.can_remove, handle_vp_update, hpaid, Except.toBool]
  rw [if_pos hcan] at hlast
  exact hlast

theorem update_recorded (hm : Market L s) (hq : Queues s) (hr : s.runs = before ++ run :: after)
    (hbook : s'.cm_data = (_do_payouts_end run s.cm_data).1) {u : Update}
    (hu : u ∈ run.updates kind) (hres : u.result = .ok ()) :
    Multiset.card (s'.pool (.void kind)).slots < Multiset.card (s.pool (.void kind)).slots := by
  obtain ⟨hthere, hgone⟩ := updated_gone hm hq hr hu hres
  have hsplit := handle_vps_map_both VoidPosition.position_id (fun vp r => handle_vp_payout_id vp r)
    (fun _ _ => rfl) run kind (s.cm_data.void_positions kind)
  have hkeyed' : Keyed (run.handle_vps kind (s.cm_data.void_positions kind)).1 :=
    handle_vps_keyed_both run (hm.book.keyed kind)
  rw [hkeyed'.ids_eq, (hm.book.keyed kind).ids_eq] at hsplit
  have hcard := congrArg Multiset.card hsplit
  rw [Multiset.card_add] at hcard
  have hremoved : (run.handle_vps kind (s.cm_data.void_positions kind)).2 ≠ [] := by
    intro hnil
    rw [hnil, List.map_nil, Multiset.coe_nil, add_zero] at hsplit
    rw [← Multiset.mem_coe, ← hsplit] at hthere
    exact (OrdMap.get_eq_none_iff _ _).mp hgone (Multiset.mem_coe.mp hthere)
  have hpos := List.length_pos_of_ne_nil hremoved
  have hlen : ∀ m : OrdMap PositionId VoidPosition, Multiset.card (voidSlots m) = m.keys.length := by
    intro m
    simp [voidSlots, OrdMap.values, OrdMap.keys]
  change Multiset.card (voidSlots (s'.cm_data.void_positions kind)) <
    Multiset.card (voidSlots (s.cm_data.void_positions kind))
  rw [hlen, hlen, hbook, (do_payouts_end_voids run s.cm_data kind).1]
  simp only [Multiset.coe_card, List.length_map] at hcard
  omega

/-- A run that brings back a result leaves less to do. -/
theorem ended_progress (hm : Market L s) (hq : Queues s) (hr : s.runs = before ++ run :: after)
    (hworked : Worked s s') (hbook : s'.cm_data = (_do_payouts_end run s.cm_data).1)
    (h : (∃ q, ∃ p ∈ run.payouts q, p.result.isSome) ∨
      ∃ kind, ∃ u ∈ run.updates kind, u.result = .ok ()) : s'.leftToDo < s.leftToDo := by
  have hunsettled : ∀ q, Multiset.card (s'.pool q).unsettled ≤ Multiset.card (s.pool q).unsettled :=
    fun q => Multiset.card_le_card (unsettled_works (hq.payouts q) (hworked.payouts q))
  have hslots : ∀ q, Multiset.card (s'.pool q).slots ≤ Multiset.card (s.pool q).slots :=
    fun q => slots_works (hworked.payouts q)
  have hvc := hunsettled (.void .Cycles)
  have hvt := hunsettled (.void .Token)
  have htc := hunsettled (.trade .Cycles)
  have htt := hunsettled (.trade .Token)
  have hsc := hslots (.void .Cycles)
  have hst := hslots (.void .Token)
  simp only [TcState.leftToDo, TcState.leftOf]
  rcases h with ⟨q, p, hp, hres⟩ | ⟨kind, u, hu, hres⟩
  · have hlt : Multiset.card (s'.pool q).unsettled < Multiset.card (s.pool q).unsettled := by
      refine Multiset.card_lt_card (lt_of_le_of_ne
        (unsettled_works (hq.payouts q) (hworked.payouts q)) fun heq => ?_)
      refine payout_recorded hm hq hr hbook hp hres ?_
      rw [heq, Pool.mem_unsettled]
      obtain ⟨x, hx, hid, -, -, hdata⟩ := (hq.payouts q).away p.flight
        (Multiset.mem_of_le (run_flights_le hr _) (Multiset.mem_coe.mpr (List.mem_map_of_mem hp)))
      exact ⟨x, hx, hdata, hid⟩
    rcases q with (_ | _) | (_ | _) <;> omega
  · have hlt := update_recorded hm hq hr hbook hu hres
    cases kind <;> omega

end

/-! ## Locks -/

structure AllManned (s : TcState) : Prop where
  payouts : ∀ q, Manned (s.pool q)
  updates : ∀ kind, Manned (s.updatePool kind)

theorem manned_inv (r : TcReachable cfg s) : AllManned s := by
  refine r.invariant (fun s h => ?_) fun s s' r h hstep => ?_
  · obtain ⟨fees, positions_module_hash, trades_module_hash, ledger, rfl⟩ := h
    refine ⟨fun q x hx => ?_, fun kind x hx => ?_⟩
    · rcases q with (_ | _) | (_ | _) <;> exact absurd hx (Multiset.notMem_zero x)
    · cases kind <;> exact absurd hx (Multiset.notMem_zero x)
  · have hm : Market False s := market_inv r False.elim
    have hm' : Market False s' := market_inv (r.next hstep) False.elim
    have hq := queues_inv r
    rcases queues_step hm False.elim hq hstep with hw | hg
    · exact ⟨fun q => manned_runs (hq.payouts q) (h.payouts q) (moves_of_works (hw.payouts q)),
        fun kind => manned_runs (hq.updates kind) (h.updates kind) (hw.updates kind)⟩
    · refine ⟨fun q => manned_runs (hq.payouts q) (h.payouts q) (hg.payouts hm' q), fun kind => ?_⟩
      rw [hg.updates kind]
      exact h.updates kind

theorem AllManned.free (h : AllManned s) (hr : s.runs = []) {x : PayoutSlot}
    (hx : x ∈ (s.pool q).slots) : x.lock = false := by
  by_contra hl
  obtain ⟨f, hf, -⟩ := h.payouts q x hx (Bool.eq_true_of_not_eq_false hl)
  change f ∈ payoutFlights s.runs q at hf
  rw [hr] at hf
  exact Multiset.notMem_zero f hf

theorem AllManned.update_free (h : AllManned s) (hr : s.runs = []) {x : UpdateSlot}
    (hx : x ∈ (s.updatePool kind).slots) : x.lock = false := by
  by_contra hl
  obtain ⟨f, hf, -⟩ := h.updates kind x hx (Bool.eq_true_of_not_eq_false hl)
  change f ∈ updateFlights s.runs kind at hf
  rw [hr] at hf
  exact Multiset.notMem_zero f hf

theorem void_free (hq : Queues s) (h : AllManned s) (hr : s.runs = []) {vp : VoidPosition}
    (hvp : vp ∈ (s.cm_data.void_positions kind).values) : VoidFree vp := by
  refine ⟨fun _ => ?_, fun hd => ⟨(hq.pending kind vp hvp).status, ?_⟩⟩
  · have hx : vp.slot ∈ (s.pool (.void kind)).slots := mem_voidSlots.mpr ⟨vp, hvp, rfl⟩
    exact h.free hr hx
  · obtain ⟨pd, hpd⟩ := Option.isSome_iff_exists.mp hd
    obtain ⟨x, hx⟩ : ∃ x, vp.updateSlot = some x := ⟨_, by rw [VoidPosition.updateSlot, hpd]; rfl⟩
    have hmem : x ∈ (s.updatePool kind).slots :=
      Multiset.mem_coe.mpr (List.mem_filterMap.mpr ⟨vp, hvp, hx⟩)
    obtain ⟨-, -, rfl⟩ := Option.map_eq_some_iff.mp hx
    exact h.update_free hr hmem

end Cts.Tc
