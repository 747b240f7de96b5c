import Cts.Tc.Market

/-!
# The queues in every run

A step either lets the book grow, which brings new jobs, or it is work of the runs. So nothing is
transferred twice.
-/

namespace Cts.Tc

open Lib Lib.Jobs

/-! ## The pools of a state -/

def payoutFlights (runs : List PayoutsRun) (q : Queue) : Multiset PayoutFlight :=
  (runs.flatMap fun run => (run.payouts q).map Payout.flight : List PayoutFlight)

def updateFlights (runs : List PayoutsRun) (kind : PositionKind) : Multiset UpdateFlight :=
  (runs.flatMap fun run => (run.updates kind).map Update.flight : List UpdateFlight)

namespace TcState

/-- The void positions that were removed and the trade logs that went to the storage. -/
def leftSlots (s : TcState) : Queue → Multiset PayoutSlot
  | .void kind => ((s.history.removed kind).map VoidPosition.slot : List PayoutSlot)
  | .trade kind => (s.history.moved.map (TradeLogAndTemporaryData.slot kind) : List PayoutSlot)

def pool (s : TcState) (q : Queue) : PayoutPool :=
  { slots := s.cm_data.slots q
    flights := payoutFlights s.runs q
    had := (s.history.executed q : List (Nat × Icrc1TransferQuest))
    left := s.leftSlots q }

def updatePool (s : TcState) (kind : PositionKind) : UpdatePool :=
  { slots := voidUpdateSlots (s.cm_data.void_positions kind)
    flights := updateFlights s.runs kind
    had := (s.history.updated kind : List (PositionId × List Byte))
    left := ((s.history.removed kind).filterMap VoidPosition.updateSlot : List UpdateSlot) }

end TcState

structure Queues (s : TcState) : Prop where
  payouts : ∀ q, Kept payoutEffect (s.pool q)
  updates : ∀ kind, Kept updateEffect (s.updatePool kind)
  pending : ∀ kind, ∀ vp ∈ (s.cm_data.void_positions kind).values, VoidPending vp

/-- The runs work, and the current positions stay. -/
structure Worked (s s' : TcState) : Prop where
  quantity : ∀ kind, s'.cm_data.quantity kind = s.cm_data.quantity kind
  payouts : ∀ q, Runs (Work payoutEffect) (s.pool q) (s'.pool q)
  updates : ∀ kind, Runs (Move updateEffect) (s.updatePool kind) (s'.updatePool kind)
  pending : (∀ kind, ∀ vp ∈ (s.cm_data.void_positions kind).values, VoidPending vp) →
    ∀ kind, ∀ vp ∈ (s'.cm_data.void_positions kind).values, VoidPending vp

/-- The book grows, and the runs stay. -/
structure Grown (L : Prop) (s s' : TcState) : Prop where
  grows : ∃ ds, BookGrows L s.cm_data.toBook ds s'.cm_data.toBook
  runs : s'.runs = s.runs
  executed : s'.history.executed = s.history.executed
  updated : s'.history.updated = s.history.updated
  removed : s'.history.removed = s.history.removed
  moved : s'.history.moved = s.history.moved

variable {L : Prop} {cfg : TcConfig} {s s' : TcState} {q : Queue} {kind : PositionKind}

/-! ## New jobs -/

theorem fresh_slots {vps : Multiset VoidPosition} (h : ∀ vp ∈ vps, FreshVoid vp) :
    ∀ x ∈ vps.map VoidPosition.slot, x.fresh := by
  intro x hx
  obtain ⟨vp, hvp, rfl⟩ := Multiset.mem_map.mp hx
  exact (h vp hvp).slot

theorem BookGrows.slots {b b' : Book} {ds : List Deal} (h : BookGrows L b ds b') (q : Queue) :
    ∃ xs, b'.slots q = xs + b.slots q ∧ ∀ x ∈ xs, x.fresh := by
  cases q with
  | void kind =>
    obtain ⟨vps, hvps, hfresh⟩ := h.voids kind
    refine ⟨vps.map VoidPosition.slot, ?_, fresh_slots hfresh⟩
    simp only [Book.slots, ← Multiset.map_coe, hvps, Multiset.map_add]
  | trade kind =>
    refine ⟨((ds.map Deal.log).map (TradeLogAndTemporaryData.slot kind) : List PayoutSlot), ?_,
      fun x hx => ?_⟩
    · simp only [Book.slots, h.logs, List.map_append, ← Multiset.coe_add]
      exact add_comm _ _
    · obtain ⟨tl, htl, rfl⟩ := List.mem_map.mp (Multiset.mem_coe.mp hx)
      obtain ⟨d, hd, rfl⟩ := List.mem_map.mp htl
      exact (h.deals d hd).fresh kind

theorem BookGrows.update_slots {b b' : Book} {ds : List Deal} (h : BookGrows L b ds b')
    (kind : PositionKind) :
    voidUpdateSlots (b'.void_positions kind) = voidUpdateSlots (b.void_positions kind) := by
  obtain ⟨vps, hvps, hfresh⟩ := h.voids kind
  -- A position that is not paid yet has no job for its record.
  have hnone : vps.filterMap VoidPosition.updateSlot = 0 :=
    filterMap_eq_zero fun vp hvp => VoidPosition.updateSlot_none (hfresh vp hvp).slot.2
  rw [voidUpdateSlots, voidUpdateSlots, ← Multiset.filterMap_coe, hvps, Multiset.filterMap_add,
    hnone, zero_add, Multiset.filterMap_coe]

theorem Market.slot_ids (h : Market L s) (q : Queue) : ((s.pool q).all.map Slot.id).Nodup := by
  cases q with
  | void kind =>
    have hids : s.positionIds.Nodup := by
      rw [h.ids, Multiset.coe_nodup]
      exact List.nodup_range
    have hall : (s.pool (.void kind)).all.map Slot.id =
        (s.voids kind).map VoidPosition.position_id := by
      simp only [Pool.all, TcState.pool, TcState.leftSlots, Book.slots, TcState.voids,
        Multiset.map_add, Multiset.map_coe, List.map_map]
      rfl
    rw [hall]
    refine Multiset.nodup_of_le ?_ hids
    unfold TcState.positionIds
    cases kind with
    | Cycles =>
      rw [add_right_comm]
      exact Multiset.le_add_left _ _
    | Token => exact Multiset.le_add_left _ _
  | trade kind =>
    have hall : (s.pool (.trade kind)).all.map Slot.id = (s.logs.map tl_id : List Nat) := by
      simp only [Pool.all, TcState.pool, TcState.leftSlots, Book.slots, TcState.logs,
        Multiset.map_add, Multiset.map_coe, List.map_map, List.map_append, ← Multiset.coe_add]
      exact add_comm _ _
    rw [hall, h.log_ids, Multiset.coe_nodup]
    exact List.nodup_range

theorem Grown.payouts (h : Grown L s s') (hm : Market L s') (q : Queue) :
    Runs (Move payoutEffect) (s.pool q) (s'.pool q) := by
  obtain ⟨ds, hgrows⟩ := h.grows
  obtain ⟨xs, hxs, hfresh⟩ := hgrows.slots q
  have hleft : s'.leftSlots q = s.leftSlots q := by
    cases q <;> simp only [TcState.leftSlots, h.removed, h.moved]
  have hpool : s'.pool q = { s.pool q with slots := xs + (s.pool q).slots } := by
    simp only [TcState.pool, hxs, hleft, h.runs, h.executed]
  have hnodup := hm.slot_ids q
  rw [hpool, Pool.all, add_assoc] at hnodup
  rw [hpool]
  exact .next (.start rfl) (.arrive xs hfresh hnodup)

theorem Grown.updates (h : Grown L s s') (kind : PositionKind) :
    s'.updatePool kind = s.updatePool kind := by
  obtain ⟨ds, hgrows⟩ := h.grows
  simp only [TcState.updatePool, hgrows.update_slots, h.runs, h.updated, h.removed]

theorem Grown.pending (h : Grown L s s')
    (hp : ∀ kind, ∀ vp ∈ (s.cm_data.void_positions kind).values, VoidPending vp) :
    ∀ kind, ∀ vp ∈ (s'.cm_data.void_positions kind).values, VoidPending vp := by
  intro kind vp hvp
  obtain ⟨ds, hgrows⟩ := h.grows
  obtain ⟨vps, hvps, hfresh⟩ := hgrows.voids kind
  rw [← Multiset.mem_coe, hvps] at hvp
  exact (Multiset.mem_add.mp hvp).elim (fun hv => (hfresh vp hv).pending)
    fun hv => hp kind vp (Multiset.mem_coe.mp hv)

/-! ## The futures of a run -/

section

variable {before after : List PayoutsRun} {run : PayoutsRun}

theorem payoutFlights_cons (before after : List PayoutsRun) (run : PayoutsRun) (q : Queue) :
    payoutFlights (before ++ run :: after) q =
      ((run.payouts q).map Payout.flight : List PayoutFlight) + payoutFlights (before ++ after) q := by
  simp only [payoutFlights, List.flatMap_append, List.flatMap_cons, ← Multiset.coe_add]
  ac_rfl

theorem updateFlights_cons (before after : List PayoutsRun) (run : PayoutsRun)
    (kind : PositionKind) :
    updateFlights (before ++ run :: after) kind =
      ((run.updates kind).map Update.flight : List UpdateFlight) +
        updateFlights (before ++ after) kind := by
  simp only [updateFlights, List.flatMap_append, List.flatMap_cons, ← Multiset.coe_add]
  ac_rfl

theorem payoutFlights_set (before after : List PayoutsRun) {pre post : List Payout} {p : Payout}
    (hp : run.payouts q = pre ++ p :: post) (p' : Payout) :
    ∃ rest, payoutFlights (before ++ run :: after) q = p.flight ::ₘ rest ∧
      payoutFlights (before ++ run.set_payouts q (pre ++ p' :: post) :: after) q =
        p'.flight ::ₘ rest ∧
      ∀ q', q' ≠ q → payoutFlights (before ++ run.set_payouts q (pre ++ p' :: post) :: after) q' =
        payoutFlights (before ++ run :: after) q' := by
  refine ⟨((pre ++ post).map Payout.flight : List PayoutFlight) + payoutFlights (before ++ after) q,
    ?_, ?_, fun q' hq' => ?_⟩
  · rw [payoutFlights_cons, hp]
    simp only [List.map_append, List.map_cons, ← Multiset.coe_add, ← Multiset.cons_coe,
      Multiset.add_cons, Multiset.cons_add]
  · rw [payoutFlights_cons, PayoutsRun.set_payouts_self]
    simp only [List.map_append, List.map_cons, ← Multiset.coe_add, ← Multiset.cons_coe,
      Multiset.add_cons, Multiset.cons_add]
  · rw [payoutFlights_cons, payoutFlights_cons, run.set_payouts_of_ne hq']

theorem updateFlights_set (before after : List PayoutsRun) {pre post : List Update} {u : Update}
    (hu : run.updates kind = pre ++ u :: post) (u' : Update) :
    ∃ rest, updateFlights (before ++ run :: after) kind = u.flight ::ₘ rest ∧
      updateFlights (before ++ run.set_updates kind (pre ++ u' :: post) :: after) kind =
        u'.flight ::ₘ rest ∧
      ∀ k, k ≠ kind → updateFlights (before ++ run.set_updates kind (pre ++ u' :: post) :: after) k =
        updateFlights (before ++ run :: after) k := by
  refine ⟨((pre ++ post).map Update.flight : List UpdateFlight) +
    updateFlights (before ++ after) kind, ?_, ?_, fun k hk => ?_⟩
  · rw [updateFlights_cons, hu]
    simp only [List.map_append, List.map_cons, ← Multiset.coe_add, ← Multiset.cons_coe,
      Multiset.add_cons, Multiset.cons_add]
  · rw [updateFlights_cons, PayoutsRun.set_updates_self]
    simp only [List.map_append, List.map_cons, ← Multiset.coe_add, ← Multiset.cons_coe,
      Multiset.add_cons, Multiset.cons_add]
  · rw [updateFlights_cons, updateFlights_cons, run.set_updates_of_ne hk]

theorem set_payouts_updates (run : PayoutsRun) (payouts : List Payout) :
    updateFlights (before ++ run.set_payouts q payouts :: after) kind =
      updateFlights (before ++ run :: after) kind := by
  rw [updateFlights_cons, updateFlights_cons]
  rfl

theorem set_updates_payouts (run : PayoutsRun) (updates : List Update) :
    payoutFlights (before ++ run.set_updates kind updates :: after) q =
      payoutFlights (before ++ run :: after) q := by
  rw [payoutFlights_cons, payoutFlights_cons]
  rfl

end

/-! ## A run starts -/

theorem launched_flights {fee : Nat} {ps : List Payout} (h : ∀ p ∈ ps, p = _do_payout p.id fee p.quest) :
    (ps.map fun p => (p.id, p.quest)).map (fun e => (⟨e.1, e.2, none⟩ : PayoutFlight)) =
      ps.map Payout.flight := by
  rw [List.map_map]
  refine List.map_congr_left fun p hp => ?_
  rw [h p hp, _do_payout_flight]
  rfl

theorem do_update_storage_positions_state {data data' : LogStorageData}
    {jobs : List (PositionId × List Byte)} {us : List Update}
    (h : do_update_storage_positions data jobs = some (data', us)) :
    ∀ u ∈ us, (∃ canister_id, u.state = .sent canister_id) ∨ u.state = .done (.ok ()) := by
  induction jobs generalizing data us with
  | nil =>
    obtain ⟨-, rfl⟩ := Prod.mk.inj (Option.some.inj h)
    simp
  | cons job jobs ih =>
    obtain ⟨position_id, b⟩ := job
    rw [do_update_storage_positions] at h
    obtain ⟨⟨data₁, u⟩, hu, h⟩ := Option.bind_eq_some_iff.mp h
    obtain ⟨⟨data₂, rest⟩, hrest, h⟩ := Option.bind_eq_some_iff.mp h
    obtain ⟨rfl, rfl⟩ := Prod.mk.inj (Option.some.inj h)
    refine List.forall_mem_cons.mpr ⟨?_, ih hrest⟩
    unfold do_update_storage_position at hu
    split at hu
    · rename_i canister_id _
      obtain ⟨-, rfl⟩ := Prod.mk.inj (Option.some.inj hu)
      exact Or.inl ⟨canister_id, rfl⟩
    · simp only at hu
      split_ifs at hu
      obtain ⟨-, rfl⟩ := Prod.mk.inj (Option.some.inj hu)
      exact Or.inr rfl

theorem written_eq {run : PayoutsRun}
    (h : ∀ u ∈ run.updates kind, (∃ canister_id, u.state = .sent canister_id) ∨
      u.state = .done (.ok ())) :
    ((run.updates kind).map Update.flight).filterMap Flight.had = run.written kind := by
  unfold PayoutsRun.written
  generalize run.updates kind = us at h
  induction us with
  | nil => rfl
  | cons u us ih =>
    have ih := ih fun u hu => h u (List.mem_cons_of_mem _ hu)
    rw [List.map_cons]
    rcases h u List.mem_cons_self with ⟨canister_id, hs⟩ | hs
    · have hnone : u.flight.had = none := by simp [Flight.had, Update.flight, Update.effect, hs]
      have hdone : ¬ u.isDone = true := by simp [Update.isDone, hs]
      rw [List.filterMap_cons_none hnone, List.filter_cons_of_neg hdone, ih]
    · have hsome : u.flight.had = some (u.position_id, u.log_serialization_b) := by
        simp [Flight.had, Update.flight, Update.effect, hs]
      have hdone : u.isDone = true := by simp [Update.isDone, hs]
      rw [List.filterMap_cons_some hsome, List.filter_cons_of_pos hdone, List.map_cons, ih]

theorem started_worked {cm_data : CMData} {data : LogStorageData} {run : PayoutsRun}
    (h : _do_payouts s.fees s.cm_data s.positions_storage.data = some (cm_data, data, run)) :
    Worked s
      { s with
        cm_data := cm_data
        positions_storage := { s.positions_storage with data := data }
        runs := s.runs ++ [run]
        history := s.history.update run.written } := by
  have hs := _do_payouts_spec h
  have hstate : ∀ kind, ∀ u ∈ run.updates kind, (∃ canister_id, u.state = .sent canister_id) ∨
      u.state = .done (.ok ()) := by
    obtain ⟨updated, hcycles, htoken⟩ := hs.updates
    intro kind
    cases kind
    · exact do_update_storage_positions_state hcycles
    · exact do_update_storage_positions_state htoken
  have hrun : ∀ q, payoutFlights (s.runs ++ [run]) q =
      ((run.payouts q).map Payout.flight : List PayoutFlight) + payoutFlights s.runs q := by
    intro q
    rw [payoutFlights_cons, List.append_nil]
  have hupdates : ∀ kind, updateFlights (s.runs ++ [run]) kind =
      ((run.updates kind).map Update.flight : List UpdateFlight) + updateFlights s.runs kind := by
    intro kind
    rw [updateFlights_cons, List.append_nil]
  refine ⟨fun kind => ?_, fun q => ?_, fun kind => ?_, fun hp kind => ?_⟩
  · obtain ⟨vcs, vts, tls, rfl⟩ := hs.same
    cases kind <;> rfl
  · unfold TcState.pool
    simp only [hrun]
    cases q with
    | void kind =>
      have hworks := Launched.works payoutEffect (hs.voids kind).payouts_launched
        (F := payoutFlights s.runs (.void kind))
        (H := (s.history.executed (.void kind) : List (Nat × Icrc1TransferQuest)))
        (L := s.leftSlots (.void kind)) 0
      rw [launched_flights (hs.voids kind).payouts_eq, add_zero, add_zero] at hworks
      exact hworks
    | trade kind =>
      have hworks := Launched.works payoutEffect (hs.logs kind).launched
        (F := payoutFlights s.runs (.trade kind))
        (H := (s.history.executed (.trade kind) : List (Nat × Icrc1TransferQuest)))
        (L := s.leftSlots (.trade kind)) 0
      rw [launched_flights (hs.logs kind).payouts_eq, add_zero, add_zero] at hworks
      exact hworks
  -- Updates of the buffer are done at once, so they are launched and performed.
  · unfold TcState.updatePool
    simp only [hupdates]
    have hworks := Launched.works updateEffect (hs.voids kind).updates_launched
      (F := updateFlights s.runs kind)
      (H := (s.history.updated kind : List (PositionId × List Byte)))
      (L := ((s.history.removed kind).filterMap VoidPosition.updateSlot : List UpdateSlot)) 0
    rw [add_zero, add_zero] at hworks
    have hperform := performs updateEffect
      (S := voidUpdateSlots (cm_data.void_positions kind)) (F := updateFlights s.runs kind)
      (H := (s.history.updated kind : List (PositionId × List Byte)))
      (L := ((s.history.removed kind).filterMap VoidPosition.updateSlot : List UpdateSlot))
      ((run.updates kind).map Update.flight)
    have hsent : ((run.updates kind).map Update.flight).map
        (fun f => ({ f with effect := none } : UpdateFlight)) =
        (run.updateJobs kind).map fun e => ⟨e.1, e.2, none⟩ := by
      rw [PayoutsRun.updateJobs, List.map_map, List.map_map]
      rfl
    have hhad : ((s.history.update run.written).updated kind : Multiset (PositionId × List Byte)) =
        (run.written kind : List (PositionId × List Byte)) + s.history.updated kind := by
      rw [History.update, ← Multiset.coe_add]
      exact add_comm _ _
    rw [written_eq (hstate kind), hsent, ← hhad] at hperform
    exact moves_of_works (hworks.trans hperform)
  · exact (hs.voids kind).forall_mem (fun _ h => h.lock_payout) (fun _ hd h => h.lock_update hd)
      (hp kind)

/-! ## A run ends -/

theorem Market.void_ids (h : Market L s) (kind : PositionKind) :
    (((s.cm_data.void_positions kind).keys : Multiset PositionId) +
      ((s.history.removed kind).map VoidPosition.position_id : List PositionId)).Nodup := by
  have hids := h.slot_ids (.void kind)
  simp only [Pool.all, TcState.pool, TcState.leftSlots, Book.slots, Multiset.map_add,
    Multiset.map_coe, List.map_map] at hids
  rw [← (h.book.keyed kind).ids_eq]
  exact hids

theorem ended_worked (hm : Market L s) (hq : Queues s) {before after : List PayoutsRun}
    {run : PayoutsRun} (hr : s.runs = before ++ run :: after) (hf : run.finished) :
    Worked s
      { s with
        cm_data := (_do_payouts_end run s.cm_data).1
        positions_storage := { s.positions_storage with
          data := unlock_positions_storage run s.positions_storage.data }
        runs := before ++ after
        history := s.history.remove (_do_payouts_end run s.cm_data).2 } := by
  -- A void position goes once its payout and its update are done: one fact for both queues.
  have hvoids : ∀ kind, _ := fun kind => by
    have hk := hq.payouts (.void kind)
    have hk' := hq.updates kind
    unfold TcState.pool at hk
    unfold TcState.updatePool at hk'
    simp only [hr, payoutFlights_cons] at hk
    simp only [hr, updateFlights_cons] at hk'
    exact handle_vps_works run hf (hm.book.keyed kind) (hq.pending kind) (hm.void_ids kind) hk hk'
  refine ⟨fun kind => ?_, fun q => ?_, fun kind => ?_, fun hp kind => ?_⟩
  · cases kind <;> rfl
  · cases q with
    | void kind =>
      obtain ⟨hmap, hremoved⟩ := do_payouts_end_voids run s.cm_data kind
      have hworks := (hvoids kind).1
      have hleft : (((s.history.removed kind ++ (_do_payouts_end run s.cm_data).2 kind).map
          VoidPosition.slot : List PayoutSlot) : Multiset PayoutSlot) =
          (((_do_payouts_end run s.cm_data).2 kind).map VoidPosition.slot : List PayoutSlot) +
            s.leftSlots (.void kind) := by
        rw [List.map_append, ← Multiset.coe_add]
        exact add_comm _ _
      rw [← hmap, ← hremoved, ← hleft] at hworks
      unfold TcState.pool
      simp only [hr, payoutFlights_cons]
      exact hworks
    | trade kind =>
      have hk := hq.payouts (.trade kind)
      have hslots := handle_tls_payouts_slots hm.sorted (fun k => run.results (.trade k)) kind
      have hfirst : ((run.payouts (.trade kind)).map fun p => (p.flight, p.result)).map Prod.fst =
          (run.payouts (.trade kind)).map Payout.flight := by
        rw [List.map_map]
        rfl
      have hresults : ((run.payouts (.trade kind)).map fun p => (p.flight, p.result)).map
          (fun e => (e.1.id, e.2)) = run.results (.trade kind) := by
        rw [List.map_map]
        rfl
      unfold TcState.pool at hk ⊢
      simp only [hr, payoutFlights_cons] at hk ⊢
      rw [← hfirst] at hk ⊢
      have hsettles := settles _ (fun e he => ?_) hk
      · rw [hresults] at hsettles
        simp only [Book.slots, Multiset.map_coe] at hsettles
        rw [← hslots] at hsettles
        exact hsettles
      · obtain ⟨p, hp, rfl⟩ := List.mem_map.mp he
        exact Payout.result_effect (hf.1 (.trade kind) p hp)
  · obtain ⟨hmap, hremoved⟩ := do_payouts_end_voids run s.cm_data kind
    have hmoves := (hvoids kind).2.1
    have hleft : (((s.history.removed kind ++ (_do_payouts_end run s.cm_data).2 kind).filterMap
        VoidPosition.updateSlot : List UpdateSlot) : Multiset UpdateSlot) =
        (((_do_payouts_end run s.cm_data).2 kind).filterMap VoidPosition.updateSlot :
          List UpdateSlot) +
          ((s.history.removed kind).filterMap VoidPosition.updateSlot : List UpdateSlot) := by
      rw [List.filterMap_append, ← Multiset.coe_add]
      exact add_comm _ _
    rw [← hmap, ← hremoved, ← hleft] at hmoves
    unfold TcState.updatePool
    simp only [hr, updateFlights_cons]
    exact hmoves
  · rw [(do_payouts_end_voids run s.cm_data kind).1]
    exact (hvoids kind).2.2

/-! ## The other steps -/

theorem moved_worked (trades_env positions_env : FlushEnv) (calls : Nat) :
    Worked s { s.move_and_flush cfg trades_env positions_env with do_payouts_calls := calls } := by
  obtain ⟨hsplit, hcan⟩ := move_trade_logs_spec s.cm_data.trade_logs
  refine ⟨fun kind => ?_, fun q => ?_, fun kind => ?_, fun hp kind => ?_⟩
  · cases kind <;> rfl
  · cases q with
    | void kind => exact .start (by cases kind <;> rfl)
    | trade kind =>
      have hleaves := leaves payoutEffect
        (S := ((move_trade_logs s.cm_data.trade_logs).2.map (TradeLogAndTemporaryData.slot kind) :
          List PayoutSlot)) (F := payoutFlights s.runs (.trade kind))
        (H := (s.history.executed (.trade kind) : List (Nat × Icrc1TransferQuest)))
        (L := s.leftSlots (.trade kind))
        ((move_trade_logs s.cm_data.trade_logs).1.map (TradeLogAndTemporaryData.slot kind))
        fun x hx => ?_
      · rw [Multiset.coe_add, ← List.map_append, hsplit] at hleaves
        have hleft : ((s.history.moved ++ (move_trade_logs s.cm_data.trade_logs).1).map
            (TradeLogAndTemporaryData.slot kind) : List PayoutSlot) =
            (((move_trade_logs s.cm_data.trade_logs).1.map (TradeLogAndTemporaryData.slot kind) :
              List PayoutSlot) : Multiset PayoutSlot) + s.leftSlots (.trade kind) := by
          rw [List.map_append, ← Multiset.coe_add]
          exact add_comm _ _
        rw [← hleft] at hleaves
        exact hleaves
      · obtain ⟨tl, htl, rfl⟩ := List.mem_map.mp hx
        have hcan := hcan tl htl
        simp only [TradeLogAndTemporaryData.can_move_into_the_stable_memory_for_the_long_term_storage,
          Bool.and_eq_true] at hcan
        cases kind
        · exact hcan.1.2
        · exact hcan.2
  · exact .start (by cases kind <;> rfl)
  · have hp := hp kind
    cases kind <;> exact hp

theorem worked_quiet (hbook : s'.cm_data.toBook = s.cm_data.toBook)
    (hpool : ∀ q, s'.pool q = s.pool q) (hupdate : ∀ kind, s'.updatePool kind = s.updatePool kind) :
    Worked s s' := by
  refine ⟨fun kind => by rw [hbook], fun q => .start (hpool q), fun kind => .start (hupdate kind),
    fun hp => ?_⟩
  rw [hbook]
  exact hp

section

variable {before after : List PayoutsRun} {run : PayoutsRun} {pre post : List Payout} {p p' : Payout}

theorem payout_quiet (hr : s.runs = before ++ run :: after) (hp : run.payouts q = pre ++ p :: post)
    (hflight : p'.flight = p.flight)
    (hs : s'.cm_data.toBook = s.cm_data.toBook ∧ s'.history.executed = s.history.executed ∧
      s'.history.updated = s.history.updated ∧ s'.history.removed = s.history.removed ∧
      s'.history.moved = s.history.moved ∧
      s'.runs = before ++ run.set_payouts q (pre ++ p' :: post) :: after) : Worked s s' := by
  obtain ⟨hbook, hexecuted, hupdated, hremoved, hmoved, hruns⟩ := hs
  refine worked_quiet hbook (fun q' => ?_) (fun kind => ?_)
  · have hflights : payoutFlights s'.runs q' = payoutFlights s.runs q' := by
      obtain ⟨rest, hold, hnew, hothers⟩ :=
        payoutFlights_set before after hp p'
      rw [hruns, hr]
      by_cases hq : q' = q
      · rw [hq, hold, hnew, hflight]
      · exact hothers q' hq
    have hleft : s'.leftSlots q' = s.leftSlots q' := by
      cases q' <;> simp only [TcState.leftSlots, hremoved, hmoved]
    simp only [TcState.pool, hbook, hflights, hexecuted, hleft]
  · have hflights : updateFlights s'.runs kind = updateFlights s.runs kind := by
      rw [hruns, hr]
      exact set_payouts_updates run _
    simp only [TcState.updatePool, hbook, hflights, hupdated, hremoved]

end

theorem payout_executed_worked {before after : List PayoutsRun} {run : PayoutsRun}
    {pre post : List Payout} {p : Payout} {block : Nat} (hr : s.runs = before ++ run :: after)
    (hp : run.payouts q = pre ++ p :: post) (hsent : p.state = .sent)
    (hs : s'.cm_data.toBook = s.cm_data.toBook ∧
      s'.history.executed = (s.history.execute q (p.id, p.transfer)).executed ∧
      s'.history.updated = s.history.updated ∧ s'.history.removed = s.history.removed ∧
      s'.history.moved = s.history.moved ∧ s'.runs = before ++ run.set_payouts q
        (pre ++ { p with state := .answered (.ok (.ok block)) } :: post) :: after) : Worked s s' := by
  obtain ⟨hbook, hexecuted, hupdated, hremoved, hmoved, hruns⟩ := hs
  obtain ⟨rest, hold, hnew, hothers⟩ := payoutFlights_set before after hp
    { p with state := .answered (.ok (.ok block)) }
  refine ⟨fun kind => by rw [hbook], fun q' => ?_, fun kind => .start ?_, fun hp => ?_⟩
  · have hleft : s'.leftSlots q' = s.leftSlots q' := by
      cases q' <;> simp only [TcState.leftSlots, hremoved, hmoved]
    unfold TcState.pool
    rw [hbook, hleft, hexecuted, hruns, hr]
    unfold History.execute
    by_cases hq : q' = q
    · subst hq
      have hnone : p.flight.effect = none := by simp [Payout.flight, Payout.effect, hsent]
      have hflight : ({ p with state := .answered (.ok (.ok block)) } : Payout).flight =
          { p.flight with effect := some p.transfer } := rfl
      have hhad : ((s.history.executed q' ++ [(p.id, p.transfer)] : List _) :
          Multiset (Nat × Icrc1TransferQuest)) = (p.flight.id, p.transfer) ::ₘ s.history.executed q' := by
        rw [← Multiset.coe_add, Multiset.coe_singleton, add_comm, Multiset.singleton_add]
        rfl
      rw [hold, hnew, hflight]
      simp only [Function.update_self]
      rw [hhad]
      exact .next (.start rfl) (.perform rfl hnone p.transfer)
    · rw [hothers q' hq]
      simp only [Function.update_of_ne hq]
      exact .start rfl
  · have hflights : updateFlights s'.runs kind = updateFlights s.runs kind := by
      rw [hruns, hr]
      exact set_payouts_updates run _
    simp only [TcState.updatePool, hbook, hflights, hupdated, hremoved]
  · rw [hbook]
    exact hp

section

variable {before after : List PayoutsRun} {run : PayoutsRun} {pre post : List Update} {u : Update}

theorem update_executed_worked (hr : s.runs = before ++ run :: after)
    (hu : run.updates kind = pre ++ u :: post) {canister_id : Principal}
    (hsent : u.state = .sent canister_id)
    (hs : s'.cm_data.toBook = s.cm_data.toBook ∧ s'.history.executed = s.history.executed ∧
      (s'.history.updated = fun k => s.history.updated k ++
        if k = kind then [(u.position_id, u.log_serialization_b)] else []) ∧
      s'.history.removed = s.history.removed ∧ s'.history.moved = s.history.moved ∧
      s'.runs = before ++ run.set_updates kind
        (pre ++ { u with state := .done (.ok ()) } :: post) :: after) : Worked s s' := by
  obtain ⟨hbook, hexecuted, hupdated, hremoved, hmoved, hruns⟩ := hs
  obtain ⟨rest, hold, hnew, hothers⟩ := updateFlights_set before after hu
    { u with state := .done (.ok ()) }
  refine ⟨fun kind => by rw [hbook], fun q => .start ?_, fun k => ?_, fun hp => ?_⟩
  · have hleft : s'.leftSlots q = s.leftSlots q := by
      cases q <;> simp only [TcState.leftSlots, hremoved, hmoved]
    have hflights : payoutFlights s'.runs q = payoutFlights s.runs q := by
      rw [hruns, hr]
      exact set_updates_payouts run _
    simp only [TcState.pool, hbook, hflights, hexecuted, hleft]
  · unfold TcState.updatePool
    rw [hbook, hremoved, hruns, hr, hupdated]
    by_cases hk : k = kind
    · subst hk
      have hnone : u.flight.effect = none := by simp [Update.flight, Update.effect, hsent]
      have hflight : ({ u with state := .done (.ok ()) } : Update).flight =
          { u.flight with effect := some u.log_serialization_b } := rfl
      have hhad : ((s.history.updated k ++ [(u.position_id, u.log_serialization_b)] : List _) :
          Multiset (PositionId × List Byte)) =
          (u.flight.id, u.log_serialization_b) ::ₘ s.history.updated k := by
        rw [← Multiset.coe_add, Multiset.coe_singleton, add_comm, Multiset.singleton_add]
        rfl
      rw [hold, hnew, hflight]
      simp only [if_true]
      rw [hhad]
      exact .next (.start rfl) (.work (.perform rfl hnone u.log_serialization_b))
    · rw [hothers k hk]
      simp only [if_neg hk, List.append_nil]
      exact .start rfl
  · rw [hbook]
    exact hp

theorem update_failed_worked (hr : s.runs = before ++ run :: after)
    (hu : run.updates kind = pre ++ u :: post) {canister_id : Principal}
    (hsent : u.state = .sent canister_id) (e : CallError) :
    Worked s
      { s with
        runs := before ++ run.set_updates kind
          (pre ++ { u with state := .done (.error e) } :: post) :: after } := by
  refine worked_quiet rfl (fun q => ?_) (fun k => ?_)
  · unfold TcState.pool
    rw [hr]
    simp only [set_updates_payouts]
    cases q <;> rfl
  · obtain ⟨rest, hold, hnew, hothers⟩ := updateFlights_set before after hu
      { u with state := .done (.error e) }
    have hflight : ({ u with state := .done (.error e) } : Update).flight = u.flight := by
      simp [Update.flight, Update.effect, hsent]
    unfold TcState.updatePool
    rw [hr]
    by_cases hk : k = kind
    · subst hk
      simp only [hold, hnew, hflight]
    · simp only [hothers k hk]

end

/-! ## Every run -/

theorem queues_step (hm : Market L s) (hL : L → FeesOk s.history) (hq : Queues s)
    (hstep : TcStep cfg s s') : Worked s s' ∨ Grown L s s' := by
  cases hstep with
  | trade ht =>
    obtain ⟨rfl, -⟩ := _trade_spec ht
    exact Or.inl (worked_quiet rfl (fun q => by cases q <;> rfl) fun _ => rfl)
  | transfer_balance ht =>
    obtain ⟨rfl, -⟩ := _transfer_balance_spec ht
    exact Or.inl (worked_quiet rfl (fun q => by cases q <;> rfl) fun _ => rfl)
  | @trade_committed pre post c q r now instruction_counter hc hr hquest he =>
    have hq := hm.admitted c (by rw [hc]; simp) q hquest
    have hok := hm.commit_ok cfg hL hq now instruction_counter c.caller
    exact Or.inr ⟨⟨_, hok.grows⟩, rfl, rfl, rfl, rfl, rfl⟩
  | void_position hv =>
    have hframe := (void_position_frame hm.book hm.sound hv).1
    exact Or.inr ⟨⟨_, hframe.grows⟩, rfl, rfl, rfl, rfl, rfl⟩
  | do_payouts_replied trades_env positions_env hcalls =>
    exact Or.inl (moved_worked trades_env positions_env _)
  | payouts_started hp => exact Or.inl (started_worked hp)
  | payout_executed block hr hp hs hl =>
    exact Or.inl (payout_executed_worked hr hp hs ⟨rfl, rfl, rfl, rfl, rfl, rfl⟩)
  | payout_refused r hr hp hs hn =>
    refine Or.inl (payout_quiet hr hp ?_ ⟨rfl, rfl, rfl, rfl, rfl, rfl⟩)
    simp [Payout.flight, Payout.effect, hs, hn]
  | payout_replied hr hp hs =>
    exact Or.inl (payout_quiet hr hp (Payout.effect_answered _ hs) ⟨rfl, rfl, rfl, rfl, rfl, rfl⟩)
  | update_executed hr hu hs hsc hup =>
    exact Or.inl (update_executed_worked hr hu hs ⟨rfl, rfl, rfl, rfl, rfl, rfl⟩)
  | update_failed e hr hu hs => exact Or.inl (update_failed_worked hr hu hs e)
  | payouts_ended hr hf => exact Or.inl (ended_worked hm hq hr hf)
  | deposit_executed | balance_executed | call_refused | trade_failed | balance_replied
  | others_transfer | others_mint | do_payouts | do_payouts_failed | positions_flush
  | trades_flush =>
    exact Or.inl (worked_quiet rfl (fun q => by cases q <;> rfl) fun _ => rfl)

theorem queues_init (h : TcInit cfg s) : Queues s := by
  obtain ⟨fees, positions_module_hash, trades_module_hash, ledger, rfl⟩ := h
  refine ⟨fun q => ?_, fun kind => ?_, fun kind vp hvp => ?_⟩
  · have hempty : (TcState.new cfg fees positions_module_hash trades_module_hash ledger).pool q =
        ⟨0, 0, 0, 0⟩ := by
      rcases q with (_ | _) | (_ | _) <;> rfl
    rw [hempty]
    exact kept_empty
  · have hempty : (TcState.new cfg fees positions_module_hash trades_module_hash
        ledger).updatePool kind = ⟨0, 0, 0, 0⟩ := by
      cases kind <;> rfl
    rw [hempty]
    exact kept_empty
  · cases kind <;> exact absurd hvp List.not_mem_nil

theorem queues_inv (r : TcReachable cfg s) : Queues s := by
  refine r.invariant (fun _ => queues_init) fun s s' r hq hstep => ?_
  have hm : Market False s := market_inv r False.elim
  have hm' : Market False s' := market_inv (r.next hstep) False.elim
  rcases queues_step hm False.elim hq hstep with h | h
  · exact ⟨fun q => kept_runs (hq.payouts q) (moves_of_works (h.payouts q)),
      fun kind => kept_runs (hq.updates kind) (h.updates kind), h.pending hq.pending⟩
  · refine ⟨fun q => kept_runs (hq.payouts q) (h.payouts hm' q), fun kind => ?_, h.pending hq.pending⟩
    rw [h.updates kind]
    exact hq.updates kind

end Cts.Tc
