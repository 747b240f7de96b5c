import Cts.Tc.PayoutResults

/-!
# A run from its start to its end

`_do_payouts` and `_do_payouts_end` leave the current positions alone, and of a void position or a
trade log they change nothing but its payout.
-/

namespace Cts.Tc

open Lib Lib.Jobs

/-! ## Cores -/

def TradeLogAndTemporaryData.core (tl : TradeLogAndTemporaryData) : TradeLogAndTemporaryData :=
  (tl.set_payout .Cycles false none).set_payout .Token false none

theorem set_payout_core (tl : TradeLogAndTemporaryData) (kind : PositionKind) (lock : Bool)
    (data : Option PayoutData) : (tl.set_payout kind lock data).core = tl.core := by
  cases kind <;> rfl

theorem core_payout_quest (tl : TradeLogAndTemporaryData) (kind : PositionKind) :
    tl.core.payout_quest kind = tl.payout_quest kind := by
  cases kind <;> rfl

theorem payout_quest_of_core {tl tl' : TradeLogAndTemporaryData} (h : tl.core = tl'.core)
    (kind : PositionKind) : tl.payout_quest kind = tl'.payout_quest kind := by
  rw [← core_payout_quest, h, core_payout_quest]

theorem id_of_core {tl tl' : TradeLogAndTemporaryData} (h : tl.core = tl'.core) :
    tl.log.id = tl'.log.id := show tl.core.log.id = tl'.core.log.id from congrArg tl_id h

def VoidPosition.core (vp : VoidPosition) : VoidPosition :=
  { vp with
    payout_lock := false
    payout_data := none
    update_storage_position_data :=
      { lock := false
        status := false
        update_storage_position_log := { vp.log with
          void_position_payout_dust_collection := false
          void_position_payout_ledger_transfer_fee := 0 } } }

theorem handle_vp_payout_core (vp : VoidPosition) (r : Option PayoutData) :
    (handle_vp_payout vp r).core = vp.core := by
  cases r <;> rfl

theorem handle_vp_update_core (vp : VoidPosition) (r : Except CallError Unit) :
    (handle_vp_update vp r).core = vp.core := rfl

/-- The log of a void position tells how it ended and how it was paid. -/
structure VoidOk (vp : VoidPosition) : Prop where
  log_id : vp.log.id = vp.position_id
  log_mainder : vp.log.mainder_position_quantity = vp.quantity
  log_ended : ∃ cause, vp.log.position_termination = some ⟨vp.timestamp_nanos, cause⟩
  log_payout : ∀ pd, vp.payout_data = some pd →
    vp.log.void_position_payout_dust_collection = decide (pd.did_transfer = false) ∧
      vp.log.void_position_payout_ledger_transfer_fee = Word.wrap 64 pd.ledger_transfer_fee

theorem FreshVoid.ok {vp : VoidPosition} (h : FreshVoid vp) : VoidOk vp := by
  refine ⟨h.log_id, h.log_mainder, h.log_ended, fun pd hpd => ?_⟩
  cases h.slot.2.symm.trans hpd

theorem FreshVoid.pending {vp : VoidPosition} (h : FreshVoid vp) : VoidPending vp :=
  ⟨h.update_status, fun _ => h.update_lock⟩

theorem VoidOk.payout {vp : VoidPosition} (h : VoidOk vp) (r : Option PayoutData) :
    VoidOk (handle_vp_payout vp r) := by
  cases r with
  | none => exact ⟨h.log_id, h.log_mainder, h.log_ended, fun pd hpd => by cases hpd⟩
  | some pd =>
    refine ⟨h.log_id, h.log_mainder, h.log_ended, fun pd' hpd' => ?_⟩
    obtain rfl := Option.some.inj hpd'
    exact ⟨rfl, rfl⟩

theorem VoidOk.update {vp : VoidPosition} (h : VoidOk vp) (r : Except CallError Unit) :
    VoidOk (handle_vp_update vp r) := ⟨h.log_id, h.log_mainder, h.log_ended, h.log_payout⟩

/-! ## The start -/

variable {fees : PositionKind → Nat} {cm_data cm_data' : CMData} {data data' : LogStorageData}
  {run : PayoutsRun}

/-- The updates that a run starts with, as it takes them. -/
def PayoutsRun.updateJobs (run : PayoutsRun) (kind : PositionKind) : List (PositionId × List Byte) :=
  (run.updates kind).map fun u => (u.position_id, u.log_serialization_b)

structure Started (fees : PositionKind → Nat) (cm_data : CMData) (data : LogStorageData)
    (cm_data' : CMData) (data' : LogStorageData) (run : PayoutsRun) : Prop where
  same : ∃ void_cycles_positions void_token_positions trade_logs, cm_data' = { cm_data with
    void_cycles_positions := void_cycles_positions
    void_token_positions := void_token_positions
    trade_logs := trade_logs }
  keys : ∀ kind, (cm_data'.void_positions kind).keys = (cm_data.void_positions kind).keys
  voids : ∀ kind, Taken (fees kind) (cm_data.void_positions kind).values
    (cm_data'.void_positions kind).values (run.payouts (.void kind)) (run.updateJobs kind)
  logs : ∀ kind, TakenLogs (fees kind) kind cm_data.trade_logs cm_data'.trade_logs
    (run.payouts (.trade kind))
  logs_core : cm_data'.trade_logs.map TradeLogAndTemporaryData.core =
    cm_data.trade_logs.map TradeLogAndTemporaryData.core
  unlocked : run.has_updates = true → data.storage_flush_lock = false
  updates : ∃ updated, do_update_storage_positions
      (if run.has_updates then { data with storage_flush_lock := true } else data)
      (run.updateJobs .Cycles) = some (updated, run.updates .Cycles) ∧
    do_update_storage_positions updated (run.updateJobs .Token) = some (data', run.updates .Token)

theorem do_update_storage_position_job {position_id : PositionId} {b : List Byte} {u : Update}
    (h : do_update_storage_position data position_id b = some (data', u)) :
    (u.position_id, u.log_serialization_b) = (position_id, b) := by
  unfold do_update_storage_position at h
  split at h
  · obtain ⟨-, rfl⟩ := Prod.mk.inj (Option.some.inj h)
    rfl
  · simp only at h
    split_ifs at h
    obtain ⟨-, rfl⟩ := Prod.mk.inj (Option.some.inj h)
    rfl

theorem do_update_storage_positions_jobs {jobs : List (PositionId × List Byte)} {us : List Update}
    (h : do_update_storage_positions data jobs = some (data', us)) :
    us.map (fun u => (u.position_id, u.log_serialization_b)) = jobs := by
  induction jobs generalizing data data' us with
  | nil =>
    obtain ⟨-, rfl⟩ := Prod.mk.inj (Option.some.inj h)
    rfl
  | cons job jobs ih =>
    obtain ⟨position_id, b⟩ := job
    rw [do_update_storage_positions] at h
    obtain ⟨⟨data₁, u⟩, hu, h⟩ := Option.bind_eq_some_iff.mp h
    obtain ⟨⟨data₂, rest⟩, hrest, h⟩ := Option.bind_eq_some_iff.mp h
    obtain ⟨-, rfl⟩ := Prod.mk.inj (Option.some.inj h)
    rw [List.map_cons, ih hrest, do_update_storage_position_job hu]

theorem has_updates_iff (run : PayoutsRun) : run.has_updates = true ↔
    0 < (run.updateJobs .Cycles).length ∨ 0 < (run.updateJobs .Token).length := by
  simp [PayoutsRun.has_updates, PayoutsRun.updateJobs]

theorem _do_payouts_spec (h : _do_payouts fees cm_data data = some (cm_data', data', run)) :
    Started fees cm_data data cm_data' data' run := by
  unfold _do_payouts at h
  simp only at h
  have hcycles := void_positions_payouts_taken (fees .Cycles) cm_data.void_cycles_positions
    (!data.storage_flush_lock)
  have htoken := void_positions_payouts_taken (fees .Token) cm_data.void_token_positions
    (!data.storage_flush_lock)
  have hckeys := OrdMap.loop_keys cm_data.void_cycles_positions
    (take_void_position (fees .Cycles) !data.storage_flush_lock) ⟨[], []⟩
  have htkeys := OrdMap.loop_keys cm_data.void_token_positions
    (take_void_position (fees .Token) !data.storage_flush_lock) ⟨[], []⟩
  change (void_positions_payouts _ _ _).1.keys = _ at hckeys htkeys
  obtain ⟨cs, ts, hchunks, hcs, hts⟩ := trade_logs_payouts_taken fees cm_data.trade_logs [] []
  have hcore := trade_logs_payouts_map TradeLogAndTemporaryData.core set_payout_core fees
    cm_data.trade_logs [] []
  generalize void_positions_payouts cm_data.void_cycles_positions (fees .Cycles)
    (!data.storage_flush_lock) = c at h hcycles hckeys
  generalize void_positions_payouts cm_data.void_token_positions (fees .Token)
    (!data.storage_flush_lock) = t at h htoken htkeys
  generalize trade_logs_payouts fees cm_data.trade_logs [] [] = tls at h hchunks hcs hts hcore
  -- The updates of the cycles positions are written first, those of the token positions after.
  obtain ⟨⟨data₁, us⟩, hus, h⟩ := Option.bind_eq_some_iff.mp h
  obtain ⟨⟨data₂, vs⟩, hvs, h⟩ := Option.bind_eq_some_iff.mp h
  obtain ⟨rfl, hdata⟩ := Prod.mk.inj (Option.some.inj h)
  obtain ⟨rfl, rfl⟩ := Prod.mk.inj hdata
  have husjobs := do_update_storage_positions_jobs hus
  have hvsjobs := do_update_storage_positions_jobs hvs
  obtain ⟨htc, htt⟩ := Prod.mk.inj hchunks
  refine ⟨⟨c.1, t.1, tls.1, rfl⟩, fun kind => ?_, fun kind => ?_, fun kind => ?_, hcore,
    fun hhas => ?_, ⟨data₁, ?_, ?_⟩⟩
  · cases kind
    · exact hckeys
    · exact htkeys
  · cases kind
    · change Taken _ _ _ _ (us.map _)
      rw [husjobs]
      exact hcycles.1
    · change Taken _ _ _ _ (vs.map _)
      rw [hvsjobs]
      exact htoken.1
  · cases kind
    · change TakenLogs _ _ _ _ tls.2.1
      rw [htc]
      exact hcs
    · change TakenLogs _ _ _ _ tls.2.2
      rw [htt]
      exact hts
  · rcases (has_updates_iff _).mp hhas with hlen | hlen
    · change 0 < (us.map _).length at hlen
      rw [husjobs] at hlen
      simpa using hcycles.2 (List.ne_nil_of_length_pos hlen)
    · change 0 < (vs.map _).length at hlen
      rw [hvsjobs] at hlen
      simpa using htoken.2 (List.ne_nil_of_length_pos hlen)
  · change do_update_storage_positions (if _ then _ else _) (us.map _) = _
    simp only [has_updates_iff]
    change do_update_storage_positions (if 0 < (us.map _).length ∨ 0 < (vs.map _).length then _
      else _) (us.map _) = _
    rw [husjobs, hvsjobs]
    exact hus
  · change do_update_storage_positions data₁ (vs.map _) = _
    rw [hvsjobs]
    exact hvs

/-! ## The end -/

variable {m : OrdMap PositionId VoidPosition} {kind : PositionKind}

theorem do_payouts_end_same (run : PayoutsRun) (cm_data : CMData) :
    ∃ void_cycles_positions void_token_positions trade_logs, (_do_payouts_end run cm_data).1 =
      { cm_data with
        void_cycles_positions := void_cycles_positions
        void_token_positions := void_token_positions
        trade_logs := trade_logs } := ⟨_, _, _, rfl⟩

theorem do_payouts_end_voids (run : PayoutsRun) (cm_data : CMData) (kind : PositionKind) :
    (_do_payouts_end run cm_data).1.void_positions kind =
        (run.handle_vps kind (cm_data.void_positions kind)).1 ∧
      (_do_payouts_end run cm_data).2 kind =
        (run.handle_vps kind (cm_data.void_positions kind)).2 := by
  cases kind <;> exact ⟨rfl, rfl⟩

theorem handle_vps_map_both {α : Type} (f : VoidPosition → α)
    (hp : ∀ vp r, f (handle_vp_payout vp r) = f vp) (hu : ∀ vp r, f (handle_vp_update vp r) = f vp)
    (run : PayoutsRun) (kind : PositionKind) (m : OrdMap PositionId VoidPosition) :
    (((run.handle_vps kind m).1.values.map f : List α) : Multiset α) +
      ((run.handle_vps kind m).2.map f : List α) = (m.values.map f : List α) := by
  have hpayouts := handle_vps_map f hp (run.results (.void kind)) m
  have hupdates := handle_vps_map f hu (run.update_results kind)
    (_handle_vps handle_vp_payout (run.results (.void kind)) m).1
  simp only [PayoutsRun.handle_vps, List.map_append, ← Multiset.coe_add]
  rw [← hpayouts, ← hupdates]
  ac_rfl

theorem handle_vps_forall_both {P : VoidPosition → Prop} (kind : PositionKind)
    (hp : ∀ vp r, P vp → P (handle_vp_payout vp r))
    (hu : ∀ vp r, P vp → P (handle_vp_update vp r)) (run : PayoutsRun)
    (hm : ∀ vp ∈ m.values, P vp) :
    (∀ vp ∈ (run.handle_vps kind m).1.values, P vp) ∧
      ∀ vp ∈ (run.handle_vps kind m).2, P vp ∧ vp.can_remove = true := by
  have hpayouts := handle_vps_forall hp (run.results (.void kind)) hm
  have hupdates := handle_vps_forall hu (run.update_results kind) hpayouts.1
  refine ⟨hupdates.1, fun vp hvp => ?_⟩
  exact (List.mem_append.mp hvp).elim (hpayouts.2 vp) (hupdates.2 vp)

theorem handle_vps_keyed_both (run : PayoutsRun) (h : Keyed m) :
    Keyed (run.handle_vps kind m).1 := by
  have hpaid := handle_vps_keyed handle_vp_payout_id (run.results (.void kind)) h
  have hid : ∀ vp r, (handle_vp_update vp r).position_id = vp.position_id := fun _ _ => rfl
  exact handle_vps_keyed hid (run.update_results kind) hpaid

theorem update_ids_sublist (vps : List VoidPosition) :
    ((vps.filterMap VoidPosition.updateSlot).map Slot.id).Sublist
      (vps.map VoidPosition.position_id) := by
  induction vps with
  | nil => exact .slnil
  | cons vp vps ih =>
    cases h : vp.updateSlot with
    | none =>
      rw [List.filterMap_cons_none h]
      exact .cons _ ih
    | some x =>
      rw [List.filterMap_cons_some h, List.map_cons, VoidPosition.updateSlot_id h]
      exact .cons_cons _ ih

theorem handle_vps_of_none {run : PayoutsRun} {m₁ : OrdMap PositionId VoidPosition}
    (h : _handle_vps handle_vp_payout (run.results (.void kind)) m = (m₁, [])) :
    run.handle_vps kind m = _handle_vps handle_vp_update (run.update_results kind) m₁ := by
  unfold PayoutsRun.handle_vps
  rw [h]
  rfl

/-- Both loops over the void positions, seen from the payouts and from the records. In between the
records of those that were paid arrive. -/
theorem handle_vps_works (run : PayoutsRun) (hf : run.finished) (hm : Keyed m)
    (hpending : ∀ vp ∈ m.values, VoidPending vp) {removed : List VoidPosition}
    (hids : ((m.keys : Multiset PositionId) + (removed.map VoidPosition.position_id :
      List PositionId)).Nodup)
    {F : Multiset PayoutFlight} {H : Multiset (Nat × Icrc1TransferQuest)} {L : Multiset PayoutSlot}
    (hk : Kept payoutEffect (⟨voidSlots m,
      ((run.payouts (.void kind)).map Payout.flight : List PayoutFlight) + F, H, L⟩ : PayoutPool))
    {F' : Multiset UpdateFlight} {H' : Multiset (PositionId × List Byte)}
    (hk' : Kept updateEffect (⟨voidUpdateSlots m,
      ((run.updates kind).map Update.flight : List UpdateFlight) + F', H',
      (removed.filterMap VoidPosition.updateSlot : List UpdateSlot)⟩ : UpdatePool)) :
    Runs (Work payoutEffect)
        ⟨voidSlots m, ((run.payouts (.void kind)).map Payout.flight : List PayoutFlight) + F, H, L⟩
        ⟨voidSlots (run.handle_vps kind m).1, F, H,
          ((run.handle_vps kind m).2.map VoidPosition.slot : List PayoutSlot) + L⟩ ∧
      Runs (Move updateEffect)
        ⟨voidUpdateSlots m, ((run.updates kind).map Update.flight : List UpdateFlight) + F', H',
          (removed.filterMap VoidPosition.updateSlot : List UpdateSlot)⟩
        ⟨voidUpdateSlots (run.handle_vps kind m).1, F', H',
          ((run.handle_vps kind m).2.filterMap VoidPosition.updateSlot : List UpdateSlot) +
            (removed.filterMap VoidPosition.updateSlot : List UpdateSlot)⟩ ∧
      ∀ vp ∈ (run.handle_vps kind m).1.values, VoidPending vp := by
  have hpayouts := handle_payouts_handled (run.payouts (.void kind)) (hf.1 (.void kind)) hm
    hpending hk
  have hkeyed := handle_vps_keyed handle_vp_payout_id (run.results (.void kind)) hm
  have hsame := handle_vps_map VoidPosition.position_id handle_vp_payout_id
    (run.results (.void kind)) m
  obtain ⟨m₁, hm₁⟩ : ∃ m₁, _handle_vps handle_vp_payout (run.results (.void kind)) m = (m₁, []) :=
    ⟨_, Prod.ext rfl hpayouts.1⟩
  have hpayouts := hpayouts.2
  change PayoutsHandled m (_handle_vps handle_vp_payout (run.results (.void kind)) m).1 _ _ _ _
    at hpayouts
  rw [handle_vps_of_none hm₁]
  rw [hm₁] at hpayouts hkeyed hsame
  obtain ⟨hworks, hpend, xs, hxs, hfresh⟩ := hpayouts
  -- The new jobs have ids of their own.
  have hall : xs + (voidUpdateSlots m +
      (removed.filterMap VoidPosition.updateSlot : List UpdateSlot)) =
      ((m₁.values ++ removed).filterMap VoidPosition.updateSlot : List UpdateSlot) := by
    rw [List.filterMap_append, ← Multiset.coe_add, ← add_assoc, ← hxs]
    rfl
  have hnodup : ((xs + (voidUpdateSlots m +
      (removed.filterMap VoidPosition.updateSlot : List UpdateSlot))).map Slot.id).Nodup := by
    rw [hall, Multiset.map_coe, Multiset.coe_nodup]
    refine (update_ids_sublist _).nodup ?_
    rw [← Multiset.coe_nodup, List.map_append, ← Multiset.coe_add]
    rw [← hm.ids_eq] at hids
    simp only [List.map_nil, Multiset.coe_nil, add_zero] at hsame
    rw [hsame]
    exact hids
  have harrive : Move updateEffect (⟨voidUpdateSlots m,
      ((run.updates kind).map Update.flight : List UpdateFlight) + F', H',
      (removed.filterMap VoidPosition.updateSlot : List UpdateSlot)⟩ : UpdatePool)
      ⟨voidUpdateSlots m₁, ((run.updates kind).map Update.flight : List UpdateFlight) + F', H',
        (removed.filterMap VoidPosition.updateSlot : List UpdateSlot)⟩ := by
    rw [hxs]
    exact .arrive xs hfresh hnodup
  have hupdates := handle_updates_handled (run.updates kind) (hf.2 kind) hkeyed hpend
    (kept_move hk' harrive)
  refine ⟨?_, ?_, hupdates.pending⟩
  · exact hworks.trans (hupdates.leaves F H L)
  · exact Reachable.trans (.next (.start rfl) harrive) (moves_of_works hupdates.works)

end Cts.Tc
