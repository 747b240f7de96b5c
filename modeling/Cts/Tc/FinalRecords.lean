import Cts.Tc.Flushed
import Cts.Tc.Locks
import Cts.Tc.Pools
import Cts.Tc.Script
import Cts.Tc.UpdateRecord

/-!
# The stored position logs

Every position has a record in the positions storage, from its first log on. The updates of the runs
of payouts overwrite it, one run at a time and never beside a flush, and what is overwritten stays.
-/

namespace Cts.Tc

open Lib Lib.Jobs

/-- What a stored log says its id is. -/
abbrev recordId : List Byte → Nat := PositionLog.storage.log_id_of_the_log_serialization

/-! ## The logs of all positions -/

/-- The records that were overwritten, of both kinds. -/
def TcState.overwritten (s : TcState) : Multiset (PositionId × List Byte) :=
  (s.history.updated .Cycles : Multiset (PositionId × List Byte)) + s.history.updated .Token

/-- `made` are the overwrites so far, and what they wrote is still there. -/
structure LogsOk (made : Multiset (PositionId × List Byte)) (logs : List (List Byte)) : Prop where
  ids : ∀ i log, logs[i]? = some log → recordId log = i
  made_kept : ∀ e ∈ made, logs[e.1]? = some e.2

variable {cfg : TcConfig} {s s' : TcState} {kind : PositionKind} {logs : List (List Byte)}
  {made : Multiset (PositionId × List Byte)} {es : List (PositionId × List Byte)}

theorem ids_setAll (h : ∀ i log, logs[i]? = some log → recordId log = i)
    (hes : ∀ e ∈ es, recordId e.2 = e.1) :
    ∀ i log, (Records.setAll logs es)[i]? = some log → recordId log = i := by
  induction es generalizing logs with
  | nil => exact h
  | cons e es ih =>
    refine ih (fun i log hlog => ?_) fun d hd => hes d (List.mem_cons_of_mem _ hd)
    rw [List.getElem?_set] at hlog
    split_ifs at hlog with heq hlt
    · obtain rfl := Option.some.inj hlog
      rw [← heq]
      exact hes e List.mem_cons_self
    · exact h i log hlog

theorem LogsOk.write (h : LogsOk made logs) (hes : ∀ e ∈ es, e.1 < logs.length ∧ recordId e.2 = e.1)
    (hnodup : ((made + (es : Multiset (PositionId × List Byte))).map Prod.fst).Nodup) :
    LogsOk (made + es) (Records.setAll logs es) := by
  refine ⟨ids_setAll h.ids fun e he => (hes e he).2, fun e he => ?_⟩
  rw [Multiset.map_add, Multiset.nodup_add, Multiset.map_coe, Multiset.coe_nodup] at hnodup
  rcases Multiset.mem_add.mp he with he | he
  · rw [Records.setAll_get_of_notMem]
    · exact h.made_kept e he
    · intro hmem
      exact Multiset.disjoint_left.mp hnodup.2.2 (Multiset.mem_map_of_mem _ he) hmem
  · have he : e ∈ es := he
    exact Records.setAll_get_of_mem hnodup.2.1 he (hes e he).1

theorem LogsOk.append (h : LogsOk made logs) {log : List Byte} (hid : recordId log = logs.length) :
    LogsOk made (logs ++ [log]) := by
  refine ⟨fun i l hl => ?_, fun e he => ?_⟩
  · rcases Nat.lt_trichotomy i logs.length with hlt | rfl | hgt
    · rw [List.getElem?_append_left hlt] at hl
      exact h.ids i l hl
    · rw [List.getElem?_concat_length] at hl
      rw [← Option.some.inj hl, hid]
    · rw [List.getElem?_eq_none (by rw [List.length_append, List.length_singleton]; omega)] at hl
      cases hl
  · have hget := h.made_kept e he
    rw [List.getElem?_append_left (List.getElem?_eq_some_iff.mp hget).1]
    exact hget

/-! ## The jobs of the updates -/

theorem Taken.jobs {fee : Nat} {vps vps' : List VoidPosition} {ps : List Payout}
    (h : Taken fee vps vps' ps es) :
    ∀ e ∈ es, ∃ vp ∈ vps, e = (vp.position_id, vp.log.stable_memory_serialize) := by
  induction h with
  | nil => simp
  | pass vp _ ih =>
    intro e he
    obtain ⟨vp', hvp', heq⟩ := ih e he
    exact ⟨vp', List.mem_cons_of_mem _ hvp', heq⟩
  | payout _ _ ih =>
    intro e he
    obtain ⟨vp', hvp', heq⟩ := ih e he
    exact ⟨vp', List.mem_cons_of_mem _ hvp', heq⟩
  | @update _ _ _ _ vp _ _ _ _ ih =>
    refine List.forall_mem_cons.mpr ⟨⟨vp, List.mem_cons_self, rfl⟩, fun e he => ?_⟩
    obtain ⟨vp', hvp', heq⟩ := ih e he
    exact ⟨vp', List.mem_cons_of_mem _ hvp', heq⟩

theorem Market.void_id_lt (h : Market False s) {vp : VoidPosition} (hvp : vp ∈ s.voids kind) :
    vp.position_id < s.cm_data.positions_id_counter := by
  have hmem : vp.position_id ∈ s.positionIds := by
    simp only [TcState.positionIds, Multiset.mem_add]
    cases kind
    · exact Or.inl (Or.inr (Multiset.mem_map_of_mem _ hvp))
    · exact Or.inr (Multiset.mem_map_of_mem _ hvp)
  rw [h.ids] at hmem
  exact List.mem_range.mp (Multiset.mem_coe.mp hmem)

theorem mem_voids {vp : VoidPosition} (hvp : vp ∈ (s.cm_data.void_positions kind).values) :
    vp ∈ s.voids kind := Multiset.mem_add.mpr (Or.inl (Multiset.mem_coe.mpr hvp))

/-- The bytes of an update are a log of the position that it names. -/
structure JobOk (s : TcState) (e : PositionId × List Byte) : Prop where
  id_lt : e.1 < s.cm_data.positions_id_counter
  length : e.2.length = PositionLog.STABLE_MEMORY_SERIALIZE_SIZE
  id : recordId e.2 = e.1

theorem Market.job_ok (h : Market False s) (hids : s.cm_data.positions_id_counter ≤ 2 ^ 128)
    {vp : VoidPosition} (hvp : vp ∈ (s.cm_data.void_positions kind).values) :
    JobOk s (vp.position_id, vp.log.stable_memory_serialize) := by
  have hlt := h.void_id_lt (mem_voids hvp)
  have hid := (h.voids kind vp (mem_voids hvp)).log_id
  have hid_lt : vp.log.id < 2 ^ 128 := by
    rw [hid]
    exact lt_of_lt_of_le hlt hids
  refine ⟨hlt, vp.log.stable_memory_serialize_length, ?_⟩
  exact (PositionLog.log_id_of_serialization _ hid_lt).trans hid

theorem Queues.update_job (h : Queues s) {run : PayoutsRun} (hrun : run ∈ s.runs) {u : Update}
    (hu : u ∈ run.updates kind) : ∃ vp ∈ (s.cm_data.void_positions kind).values,
      (u.position_id, u.log_serialization_b) = (vp.position_id, vp.log.stable_memory_serialize) := by
  have hflight : u.flight ∈ (s.updatePool kind).flights :=
    Multiset.mem_coe.mpr (List.mem_flatMap.mpr ⟨run, hrun, List.mem_map_of_mem hu⟩)
  obtain ⟨x, hx, hid, hjob, -⟩ := (h.updates kind).away _ hflight
  obtain ⟨vp, hvp, hslot⟩ := List.mem_filterMap.mp (Multiset.mem_coe.mp hx)
  obtain ⟨pd, -, rfl⟩ := Option.map_eq_some_iff.mp hslot
  exact ⟨vp, hvp, Prod.ext hid.symm hjob.symm⟩

theorem void_of_update_slot {x : UpdateSlot} (hx : x ∈ (s.updatePool kind).all) :
    ∃ vp ∈ s.voids kind, vp.updateSlot = some x := by
  rcases Pool.mem_all.mp hx with hx | hx
  · obtain ⟨vp, hvp, hslot⟩ := List.mem_filterMap.mp (Multiset.mem_coe.mp hx)
    exact ⟨vp, mem_voids hvp, hslot⟩
  · obtain ⟨vp, hvp, hslot⟩ := List.mem_filterMap.mp (Multiset.mem_coe.mp hx)
    exact ⟨vp, Multiset.mem_add.mpr (Or.inr (Multiset.mem_coe.mpr hvp)), hslot⟩

/-- No record is overwritten twice. -/
theorem Queues.overwritten_once (h : Queues s) (hm : Market False s) :
    (s.overwritten.map Prod.fst).Nodup := by
  have honce := fun kind => (h.updates kind).once
  have hmem : ∀ kind, ∀ i ∈ ((s.history.updated kind : Multiset (PositionId × List Byte)).map
      Prod.fst), i ∈ (s.voids kind).map VoidPosition.position_id := by
    intro kind i hi
    obtain ⟨e, he, rfl⟩ := Multiset.mem_map.mp hi
    rcases (h.updates kind).had_slot he with ⟨f, hf, hid, -⟩ | ⟨x, hx, hid, -⟩
    · obtain ⟨run, hrun, hf⟩ := List.mem_flatMap.mp (Multiset.mem_coe.mp hf)
      obtain ⟨u, hu, rfl⟩ := List.mem_map.mp hf
      obtain ⟨vp, hvp, heq⟩ := h.update_job hrun hu
      refine Multiset.mem_map.mpr ⟨vp, mem_voids hvp, ?_⟩
      rw [← hid]
      exact (congrArg Prod.fst heq).symm
    · obtain ⟨vp, hvp, hslot⟩ := void_of_update_slot hx
      refine Multiset.mem_map.mpr ⟨vp, hvp, ?_⟩
      rw [← hid, VoidPosition.updateSlot_id hslot]
  have hids : s.positionIds.Nodup := by
    rw [hm.ids, Multiset.coe_nodup]
    exact List.nodup_range
  unfold TcState.positionIds at hids
  have hdisjoint := (Multiset.nodup_add.mp hids).2.2
  unfold TcState.overwritten
  rw [Multiset.map_add, Multiset.nodup_add]
  refine ⟨honce .Cycles, honce .Token, Multiset.disjoint_left.mpr fun hc ht => ?_⟩
  exact Multiset.disjoint_left.mp hdisjoint (Multiset.mem_add.mpr (Or.inr (hmem .Cycles _ hc)))
    (hmem .Token _ ht)

/-! ## The invariant -/

def TcState.updates (s : TcState) : List (PositionKind → List Update) := s.runs.map PayoutsRun.updates

/-- The runs that hold the lock of the positions storage. -/
def updating (runs : List (PositionKind → List Update)) : Nat :=
  runs.countP fun updates => 0 < (updates .Cycles).length || 0 < (updates .Token).length

/-- An update is on the way to the canister that has the record. -/
def SentWhereStored (data : LogStorageData) (runs : List (PositionKind → List Update)) : Prop :=
  ∀ updates ∈ runs, ∀ kind, ∀ u ∈ updates kind, ∀ canister_id, u.state = .sent canister_id →
    call_storage_canister_id data u.position_id = some canister_id

def pendingTrades (calls : List UserCall) : Nat :=
  tradesInFlight calls .Cycles + tradesInFlight calls .Token

structure Recorded (cfg : TcConfig) (s : TcState) (logs : List (List Byte)) : Prop where
  storage : StorageInv PositionLog.STABLE_MEMORY_SERIALIZE_SIZE (updating s.updates)
    s.positions_storage logs
  length : logs.length = s.cm_data.positions_id_counter
  logs_ok : LogsOk s.overwritten logs
  first_ids : FirstIds s.positions_storage
  sent : SentWhereStored s.positions_storage.data s.updates
  room : s.positions_storage.data.storage_buffer.length +
    PositionLog.STABLE_MEMORY_SERIALIZE_SIZE * pendingTrades s.calls ≤
      cfg.MAX_STORAGE_BUFFER_SIZE + 1000 * PositionLog.STABLE_MEMORY_SERIALIZE_SIZE

theorem updating_pos {runs : List (PositionKind → List Update)}
    {updates : PositionKind → List Update} (hmem : updates ∈ runs) {u : Update}
    (hu : u ∈ updates kind) : 0 < updating runs := by
  refine List.countP_pos_iff.mpr ⟨updates, hmem, ?_⟩
  have hpos := List.length_pos_of_mem hu
  cases kind <;> simp [hpos]

namespace Recorded

variable (h : Recorded cfg s logs)

include h

theorem buffer_lt : s.positions_storage.data.storage_buffer.length < 2 ^ 32 := by
  have hroom := h.room
  have hfits := cfg.buffer_fits
  unfold TcConfig.MAX_STORAGE_BUFFER_SIZE at hroom
  omega

/-- While a run updates records no flush is under way. -/
theorem exclusive (hup : 0 < updating s.updates) :
    s.positions_storage.flushes = [] ∧ s.positions_storage.data.storage_flush_lock = true := by
  have hlock := h.storage.lock
  split_ifs at hlock with hl
  · exact ⟨List.eq_nil_of_length_eq_zero (by omega), hl⟩
  · omega

theorem flushes_of_sent {updates : PositionKind → List Update} (hmem : updates ∈ s.updates)
    {u : Update} (hu : u ∈ updates kind) : s.positions_storage.flushes = [] :=
  (h.exclusive (updating_pos hmem hu)).1

theorem quiet (hstorage : s'.positions_storage = s.positions_storage)
    (hcounter : s'.cm_data.positions_id_counter = s.cm_data.positions_id_counter)
    (hupdated : s'.history.updated = s.history.updated) (hupdates : s'.updates = s.updates)
    (hpending : pendingTrades s'.calls ≤ pendingTrades s.calls) : Recorded cfg s' logs := by
  have hoverwritten : s'.overwritten = s.overwritten := by
    unfold TcState.overwritten
    rw [hupdated]
  have hroom := h.room
  have hmul := Nat.mul_le_mul_left PositionLog.STABLE_MEMORY_SERIALIZE_SIZE hpending
  refine ⟨?_, ?_, ?_, ?_, ?_, ?_⟩
  · rw [hstorage, hupdates]
    exact h.storage
  · rw [hcounter]
    exact h.length
  · rw [hoverwritten]
    exact h.logs_ok
  · rw [hstorage]
    exact h.first_ids
  · rw [hstorage, hupdates]
    exact h.sent
  · rw [hstorage]
    omega

end Recorded

/-! ## Trades -/

section

variable {pre post : List UserCall} {c : UserCall}

theorem pending_cons (c : UserCall) (calls : List UserCall) :
    pendingTrades (c :: calls) = pendingTrades calls + pendingTrades [c] := by
  unfold pendingTrades
  rw [tradesInFlight_cons, tradesInFlight_cons, tradesInFlight_cons, tradesInFlight_cons]
  unfold tradesInFlight
  rw [List.countP_nil, List.countP_nil]
  omega

theorem pending_middle (pre post : List UserCall) (c : UserCall) :
    pendingTrades (pre ++ c :: post) = pendingTrades (pre ++ post) + pendingTrades [c] := by
  rw [← pending_cons]
  unfold pendingTrades
  rw [tradesInFlight_middle, tradesInFlight_middle, tradesInFlight_cons, tradesInFlight_cons]

theorem pending_trade {q : TradeQuest} (hq : c.quest = .trade q) : pendingTrades [c] = 1 := by
  unfold pendingTrades tradesInFlight
  rw [List.countP_singleton, List.countP_singleton, hq]
  cases hkind : q.kind <;> simp [UserQuest.trades, hkind]

theorem pending_balance {q : TransferBalanceQuest} (hq : c.quest = .transfer_balance kind q) :
    pendingTrades [c] = 0 := by
  unfold pendingTrades tradesInFlight
  rw [List.countP_singleton, List.countP_singleton, hq]
  rfl

theorem pending_replied (hc : s.calls = pre ++ c :: post) (r : Option LedgerTransferReturnType) :
    pendingTrades (pre ++ { c with reply := r } :: post) = pendingTrades s.calls := by
  rw [hc, pending_middle, pending_middle]
  rfl

theorem pending_ended (hc : s.calls = pre ++ c :: post) :
    pendingTrades (pre ++ post) ≤ pendingTrades s.calls := by
  rw [hc, pending_middle]
  exact Nat.le_add_right _ _

theorem Locked.pending_lt (h : Locked s) {kind : PositionKind}
    (hroom : (s.cm_data.mid_call_balance_locks kind).card < MAX_MID_CALL_USER_BALANCE_LOCKS) :
    pendingTrades s.calls < 1000 := by
  have hcycles := h.trades_le .Cycles
  have htoken := h.trades_le .Token
  have hcard := h.card_le kind.other
  unfold MAX_MID_CALL_USER_BALANCE_LOCKS at hroom hcard
  unfold pendingTrades
  cases kind
  · have hcard : (s.cm_data.mid_call_balance_locks .Token).card ≤ 500 := hcard
    omega
  · have hcard : (s.cm_data.mid_call_balance_locks .Cycles).card ≤ 500 := hcard
    omega

end

/-! ## Steps of the storage -/

section

variable {K : Type} [DecidableEq K] {T : StorageLogTrait K} {storage storage' : LogStorage K}
  {data : LogStorageData} {flush : FlushConfig} {env : FlushEnv} {canister_id : Principal}

theorem flush_step_data (h : FlushStep T flush storage storage') :
    (storage'.data = storage.data ∨ storage.flushes ≠ []) ∧
      storage'.data.storage_buffer.length ≤ storage.data.storage_buffer.length := by
  cases h with
  | canister_created env id hf hnew =>
    exact ⟨Or.inr (by rw [hf]; simp), (congrArg List.length (install_code_same _ _ _).buffer).le⟩
  | create_failed env e hf => exact ⟨Or.inr (by rw [hf]; simp), le_rfl⟩
  | code_installed env hf =>
    exact ⟨Or.inr (by rw [hf]; simp),
      (congrArg List.length (flush_chunks_same _ _ _).buffer).le⟩
  | install_failed env e hf => exact ⟨Or.inr (by rw [hf]; simp), le_rfl⟩
  | flush_executed hf hsc hflush => exact ⟨Or.inl rfl, le_rfl⟩
  | flush_failed e hf => exact ⟨Or.inl rfl, le_rfl⟩
  | flush_replied env hf => exact ⟨Or.inr (by rw [hf]; simp), flush_reply_buffer _ _ _⟩
  | marked_full mark hsc => exact ⟨Or.inl rfl, le_rfl⟩

end

/-! ## Runs of payouts -/

theorem updates_set_payouts (before after : List PayoutsRun) (run : PayoutsRun) (q : Queue)
    (payouts : List Payout) :
    (before ++ run.set_payouts q payouts :: after).map PayoutsRun.updates =
      (before ++ run :: after).map PayoutsRun.updates := by
  rw [List.map_append, List.map_append, List.map_cons, List.map_cons]
  rfl

theorem updating_set (before after : List PayoutsRun) {run : PayoutsRun} {pre post : List Update}
    {u : Update} (hu : run.updates kind = pre ++ u :: post) (u' : Update) :
    updating ((before ++ run.set_updates kind (pre ++ u' :: post) :: after).map PayoutsRun.updates) =
      updating ((before ++ run :: after).map PayoutsRun.updates) := by
  have hlength : ∀ k, ((run.set_updates kind (pre ++ u' :: post)).updates k).length =
      (run.updates k).length := by
    intro k
    by_cases hk : k = kind
    · rw [hk, PayoutsRun.set_updates_self, hu]
      simp
    · rw [run.set_updates_of_ne hk]
  unfold updating
  rw [List.map_append, List.map_append, List.map_cons, List.map_cons, List.countP_append,
    List.countP_append, List.countP_cons, List.countP_cons, hlength, hlength]

theorem sent_set {data : LogStorageData} {before after : List PayoutsRun} {run : PayoutsRun}
    {pre post : List Update} {u : Update} (hu : run.updates kind = pre ++ u :: post) {u' : Update}
    (hdone : ∀ canister_id, u'.state ≠ .sent canister_id)
    (h : SentWhereStored data ((before ++ run :: after).map PayoutsRun.updates)) :
    SentWhereStored data ((before ++ run.set_updates kind (pre ++ u' :: post) :: after).map
      PayoutsRun.updates) := by
  intro updates hmem k v hv canister_id hsent
  rw [List.map_append, List.map_cons] at hmem
  have hrun : run.updates ∈ (before ++ run :: after).map PayoutsRun.updates :=
    List.mem_map_of_mem (by simp)
  rcases List.mem_append.mp hmem with hmem | hmem
  · exact h updates (by rw [List.map_append]; exact List.mem_append_left _ hmem) k v hv _ hsent
  rcases List.mem_cons.mp hmem with rfl | hmem
  · by_cases hk : k = kind
    · subst hk
      rw [PayoutsRun.set_updates_self] at hv
      refine h run.updates hrun k v ?_ _ hsent
      rw [hu]
      rcases List.mem_append.mp hv with hv | hv
      · exact List.mem_append_left _ hv
      rcases List.mem_cons.mp hv with rfl | hv
      · exact absurd hsent (hdone _)
      · exact List.mem_append_right _ (List.mem_cons_of_mem _ hv)
    · rw [run.set_updates_of_ne hk] at hv
      exact h run.updates hrun k v hv _ hsent
  · refine h updates ?_ k v hv _ hsent
    rw [List.map_append, List.map_cons]
    exact List.mem_append_right _ (List.mem_cons_of_mem _ hmem)

theorem Recorded.update_failed (h : Recorded cfg s logs) {before after : List PayoutsRun}
    {run : PayoutsRun} {pre post : List Update} {u : Update} (hr : s.runs = before ++ run :: after)
    (hu : run.updates kind = pre ++ u :: post) (e : CallError) :
    Recorded cfg { s with
      runs := before ++ run.set_updates kind
        (pre ++ { u with state := .done (.error e) } :: post) :: after } logs := by
  have hstorage := h.storage
  have hsent := h.sent
  unfold TcState.updates at hstorage hsent
  rw [hr] at hstorage hsent
  refine ⟨?_, h.length, h.logs_ok, h.first_ids, sent_set hu (fun _ hid => by cases hid) hsent, h.room⟩
  unfold TcState.updates
  rw [updating_set before after hu]
  exact hstorage

theorem Recorded.update_executed (h : Recorded cfg s logs) {before after : List PayoutsRun}
    {run : PayoutsRun} {pre post : List Update} {u : Update} {canister_id : Principal}
    {sc sc' : StorageCanister Principal} (hr : s.runs = before ++ run :: after)
    (hu : run.updates kind = pre ++ u :: post) (hs : u.state = .sent canister_id)
    (hjob : JobOk s (u.position_id, u.log_serialization_b))
    (hsc : s.positions_storage.canister canister_id = some sc)
    (hup : sc.cm_update_log u.position_id u.log_serialization_b = some sc')
    (hs' : s' = { s with
      positions_storage := { s.positions_storage with
        canister := Function.update s.positions_storage.canister canister_id (some sc') }
      runs := before ++ run.set_updates kind
        (pre ++ { u with state := .done (.ok ()) } :: post) :: after
      history := s.history.update fun k =>
        if k = kind then [(u.position_id, u.log_serialization_b)] else [] })
    (hnodup : (s'.overwritten.map Prod.fst).Nodup) :
    Recorded cfg s' (logs.set u.position_id u.log_serialization_b) := by
  have hstorage := h.storage
  have hsent := h.sent
  have hrun : run.updates ∈ s.updates := List.mem_map_of_mem (by rw [hr]; simp)
  have hmem : u ∈ run.updates kind := by rw [hu]; simp
  have hflushes := h.flushes_of_sent hrun hmem
  have hcall := h.sent run.updates hrun kind u hmem _ hs
  unfold TcState.updates at hstorage hsent
  rw [hr] at hstorage hsent
  obtain ⟨sc₀, sc₁, hsc₀, hup₀, hinv, hfirst⟩ :=
    update_log_ok (by decide) hstorage h.first_ids hflushes hjob.length hcall
  obtain rfl := Option.some.inj (hsc.symm.trans hsc₀)
  obtain rfl := Option.some.inj (hup.symm.trans hup₀)
  have hover : s'.overwritten = s.overwritten +
      ([(u.position_id, u.log_serialization_b)] : List (PositionId × List Byte)) := by
    rw [hs']
    unfold TcState.overwritten History.update
    cases kind <;> simp only [if_true, reduceCtorEq, if_false, List.append_nil, ← Multiset.coe_add] <;>
      ac_rfl
  subst hs'
  refine ⟨?_, ?_, ?_, hfirst, sent_set hu (fun _ hid => by cases hid) hsent, h.room⟩
  · unfold TcState.updates
    rw [updating_set before after hu]
    exact hinv
  · rw [List.length_set]
    exact h.length
  · rw [hover] at hnodup ⊢
    refine h.logs_ok.write (fun e he => ?_) hnodup
    rw [List.mem_singleton.mp he, h.length]
    exact ⟨hjob.id_lt, hjob.id⟩

/-! ## A run starts -/

/-- The updates of both kinds, under the lock that the run takes for them. -/
structure BothBegun (s : TcState) (logs : List (List Byte)) (has_updates : Prop)
    [Decidable has_updates] (data : LogStorageData) (us vs : List Update) : Prop where
  inv : StorageInv PositionLog.STABLE_MEMORY_SERIALIZE_SIZE
    (updating s.updates + if has_updates then 1 else 0) { s.positions_storage with data := data }
    (Records.setAll logs (written us ++ written vs))
  canisters : data.storage_canisters = s.positions_storage.data.storage_canisters
  length : data.storage_buffer.length = s.positions_storage.data.storage_buffer.length
  sent : ∀ u ∈ us ++ vs, ∀ canister_id, u.state = .sent canister_id →
    call_storage_canister_id s.positions_storage.data u.position_id = some canister_id

theorem Recorded.begin_updates (h : Recorded cfg s logs)
    (hids : s.cm_data.positions_id_counter ≤ 2 ^ 128) {jobs jobs' : List (PositionId × List Byte)}
    (hjobs : ∀ e ∈ jobs ++ jobs', JobOk s e)
    (hfree : 0 < jobs.length ∨ 0 < jobs'.length →
      s.positions_storage.data.storage_flush_lock = false) :
    ∃ data₁ us data₂ vs,
      do_update_storage_positions (if 0 < jobs.length ∨ 0 < jobs'.length then
        { s.positions_storage.data with storage_flush_lock := true }
        else s.positions_storage.data) jobs = some (data₁, us) ∧
      do_update_storage_positions data₁ jobs' = some (data₂, vs) ∧
      BothBegun s logs (0 < jobs.length ∨ 0 < jobs'.length) data₂ us vs := by
  by_cases hhas : 0 < jobs.length ∨ 0 < jobs'.length
  · have hlock := h.storage.lock
    rw [if_neg (by rw [hfree hhas]; exact Bool.false_ne_true)] at hlock
    have hflushes : s.positions_storage.flushes = [] := List.eq_nil_of_length_eq_zero (by omega)
    have hnone : updating s.updates = 0 := by omega
    let s₀ : LogStorage Principal := { s.positions_storage with
      data := { s.positions_storage.data with storage_flush_lock := true } }
    have hs₀ : StorageInv PositionLog.STABLE_MEMORY_SERIALIZE_SIZE 1 s₀ logs := by
      refine ⟨⟨h.storage.data.sized, h.storage.data.init_size, h.storage.data.ids_nodup,
        h.storage.data.ids_created, h.storage.data.temp, h.storage.data.chain⟩, ?_, fun run hrun => ?_⟩
      · change s.positions_storage.flushes.length + 1 = 1
        rw [hflushes]
        rfl
      · change run ∈ s.positions_storage.flushes at hrun
        rw [hflushes] at hrun
        cases hrun
    have hlogs : logs.length ≤ 2 ^ 128 := by
      rw [h.length]
      exact hids
    have hall : ∀ e ∈ jobs ++ jobs', e.1 < logs.length ∧
        e.2.length = PositionLog.STABLE_MEMORY_SERIALIZE_SIZE := by
      intro e he
      rw [h.length]
      exact ⟨(hjobs e he).id_lt, (hjobs e he).length⟩
    obtain ⟨data₁, us, hus, hbegun⟩ := do_update_storage_positions_ok (s := s₀) (by decide) hlogs
      h.buffer_lt hflushes (fun e he => hall e (List.mem_append_left _ he)) hs₀
      (h.first_ids.same rfl rfl)
    have hfirsts : FirstIds { s₀ with data := data₁ } := by
      refine h.first_ids.same ?_ rfl
      change data₁.firsts = _
      rw [hbegun.same]
      rfl
    obtain ⟨data₂, vs, hvs, hbegun'⟩ := do_update_storage_positions_ok
      (s := { s₀ with data := data₁ }) (by decide) (by rwa [Records.setAll_length])
      (lt_of_eq_of_lt hbegun.length h.buffer_lt) hflushes
      (fun e he => by rw [Records.setAll_length]; exact hall e (List.mem_append_right _ he))
      hbegun.inv hfirsts
    have hsame := hbegun'.same
    rw [hbegun.same] at hsame
    refine ⟨data₁, us, data₂, vs, by rw [if_pos hhas]; exact hus, hvs, ?_, ?_,
      hbegun'.length.trans hbegun.length, fun u hu canister_id hsent => ?_⟩
    · rw [if_pos hhas, hnone, Records.setAll_append]
      exact hbegun'.inv
    · rw [hsame]
    · rcases List.mem_append.mp hu with hu | hu
      · exact hbegun.sent u hu canister_id hsent
      · exact (call_same hbegun.same _).symm.trans (hbegun'.sent u hu canister_id hsent)
  -- Without updates the lock is not taken: a flush may be under way.
  · obtain ⟨hjobs, hjobs'⟩ := not_or.mp hhas
    obtain rfl := List.eq_nil_of_length_eq_zero (Nat.eq_zero_of_not_pos hjobs)
    obtain rfl := List.eq_nil_of_length_eq_zero (Nat.eq_zero_of_not_pos hjobs')
    refine ⟨_, [], _, [], by rw [if_neg hhas]; rfl, rfl, ?_, rfl, rfl, by simp⟩
    rw [if_neg hhas]
    exact h.storage

theorem Recorded.do_payouts_starts (h : Recorded cfg s logs) (hm : Market False s)
    (hids : s.cm_data.positions_id_counter ≤ 2 ^ 128) :
    (_do_payouts s.fees s.cm_data s.positions_storage.data).isSome := by
  obtain ⟨hcycles, hcfree⟩ := void_positions_payouts_taken (s.fees .Cycles)
    s.cm_data.void_cycles_positions (!s.positions_storage.data.storage_flush_lock)
  obtain ⟨htoken, htfree⟩ := void_positions_payouts_taken (s.fees .Token)
    s.cm_data.void_token_positions (!s.positions_storage.data.storage_flush_lock)
  have hjobs : ∀ e ∈ (void_positions_payouts s.cm_data.void_cycles_positions (s.fees .Cycles)
      !s.positions_storage.data.storage_flush_lock).2.update_storage_positions_chunk ++
      (void_positions_payouts s.cm_data.void_token_positions (s.fees .Token)
        !s.positions_storage.data.storage_flush_lock).2.update_storage_positions_chunk,
      JobOk s e := by
    intro e he
    rcases List.mem_append.mp he with he | he
    · obtain ⟨vp, hvp, rfl⟩ := hcycles.jobs e he
      have hvoid : vp ∈ (s.cm_data.void_positions .Cycles).values := hvp
      exact hm.job_ok hids hvoid
    · obtain ⟨vp, hvp, rfl⟩ := htoken.jobs e he
      have hvoid : vp ∈ (s.cm_data.void_positions .Token).values := hvp
      exact hm.job_ok hids hvoid
  obtain ⟨data₁, us, data₂, vs, hus, hvs, -⟩ := h.begin_updates hids hjobs fun hhas => by
    rcases hhas with hlen | hlen
    · simpa using hcfree (List.ne_nil_of_length_pos hlen)
    · simpa using htfree (List.ne_nil_of_length_pos hlen)
  unfold _do_payouts
  simp only [Option.bind_eq_bind]
  rw [hus, Option.bind_some, hvs]
  rfl

theorem mem_written {us : List Update} {e : PositionId × List Byte} (he : e ∈ written us) :
    e ∈ us.map fun u => (u.position_id, u.log_serialization_b) := by
  obtain ⟨u, hu, rfl⟩ := List.mem_map.mp he
  exact List.mem_map_of_mem (List.mem_of_mem_filter hu)

theorem Recorded.started (h : Recorded cfg s logs) (hm : Market False s)
    (hids : s.cm_data.positions_id_counter ≤ 2 ^ 128) {cm_data : CMData} {data : LogStorageData}
    {run : PayoutsRun}
    (hp : _do_payouts s.fees s.cm_data s.positions_storage.data = some (cm_data, data, run))
    (hs' : s' = { s with
      cm_data := cm_data
      positions_storage := { s.positions_storage with data := data }
      runs := s.runs ++ [run]
      history := s.history.update run.written })
    (hnodup : (s'.overwritten.map Prod.fst).Nodup) :
    Recorded cfg s'
      (Records.setAll logs (written (run.updates .Cycles) ++ written (run.updates .Token))) := by
  have hstarted := _do_payouts_spec hp
  have hjobs : ∀ e ∈ run.updateJobs .Cycles ++ run.updateJobs .Token, JobOk s e := by
    intro e he
    rcases List.mem_append.mp he with he | he
    · obtain ⟨vp, hvp, rfl⟩ := (hstarted.voids .Cycles).jobs e he
      exact hm.job_ok hids hvp
    · obtain ⟨vp, hvp, rfl⟩ := (hstarted.voids .Token).jobs e he
      exact hm.job_ok hids hvp
  obtain ⟨updated, hus, hvs⟩ := hstarted.updates
  obtain ⟨data₁, us, data₂, vs, hus', hvs', hbegun⟩ := h.begin_updates hids hjobs fun hhas =>
    hstarted.unlocked ((has_updates_iff run).mpr hhas)
  simp only [has_updates_iff] at hus
  -- The updates of the run are those that `begin_updates` speaks of.
  obtain ⟨rfl, rfl⟩ := Prod.mk.inj (Option.some.inj (hus'.symm.trans hus))
  obtain ⟨rfl, rfl⟩ := Prod.mk.inj (Option.some.inj (hvs'.symm.trans hvs))
  have hover : s'.overwritten = s.overwritten +
      (written (run.updates .Cycles) ++ written (run.updates .Token) :
        List (PositionId × List Byte)) := by
    rw [hs', ← Multiset.coe_add]
    unfold TcState.overwritten History.update
    simp only [← Multiset.coe_add]
    exact add_add_add_comm _ _ _ _
  have hcounter : s'.cm_data.positions_id_counter = s.cm_data.positions_id_counter := by
    obtain ⟨vcs, vts, tls, hsame⟩ := hstarted.same
    rw [hs', hsame]
  have hupdates : s'.updates = s.updates ++ [run.updates] := by
    rw [hs']
    unfold TcState.updates
    rw [List.map_append]
    rfl
  have hcall : ∀ id, call_storage_canister_id data₂ id =
      call_storage_canister_id s.positions_storage.data id := by
    intro id
    unfold call_storage_canister_id
    rw [hbegun.canisters]
  refine ⟨?_, ?_, ?_, ?_, ?_, ?_⟩
  · have hupdating : updating s'.updates = updating s.updates +
        if 0 < (run.updateJobs .Cycles).length ∨ 0 < (run.updateJobs .Token).length then 1
        else 0 := by
      rw [hupdates]
      unfold updating PayoutsRun.updateJobs
      rw [List.countP_append, List.countP_singleton, List.length_map, List.length_map]
      simp only [Bool.or_eq_true, decide_eq_true_eq]
    rw [hupdating, hs']
    exact hbegun.inv
  · rw [Records.setAll_length, hcounter]
    exact h.length
  -- A record is overwritten once, so the order of the writes does not matter.
  · rw [hover] at hnodup ⊢
    refine h.logs_ok.write (fun e he => ?_) hnodup
    have hjob : JobOk s e := by
      refine hjobs e (List.mem_append.mpr ?_)
      exact (List.mem_append.mp he).imp mem_written mem_written
    rw [h.length]
    exact ⟨hjob.id_lt, hjob.id⟩
  · rw [hs']
    refine h.first_ids.same ?_ rfl
    unfold LogStorageData.firsts
    exact congrArg _ hbegun.canisters
  · rw [hupdates, hs']
    intro updates hmem kind u hu canister_id hsent
    rw [hcall]
    rcases List.mem_append.mp hmem with hmem | hmem
    · exact h.sent updates hmem kind u hu canister_id hsent
    · rw [List.mem_singleton.mp hmem] at hu
      refine hbegun.sent u (List.mem_append.mpr ?_) canister_id hsent
      cases kind
      · exact Or.inl hu
      · exact Or.inr hu
  · have hroom := h.room
    rw [← hbegun.length] at hroom
    rw [hs']
    exact hroom

/-! ## The other steps -/

theorem Recorded.commit (h : Recorded cfg s logs)
    (hids : s.cm_data.positions_id_counter < 2 ^ 128) {pre post : List UserCall} {c : UserCall}
    {q : TradeQuest} (hc : s.calls = pre ++ c :: post) (hq : c.quest = .trade q) (env : MatchEnv) :
    Recorded cfg { s.commit env c.caller q with calls := pre ++ post }
      (logs ++ [(q.position_log s.cm_data.positions_id_counter c.caller
        env.now).stable_memory_serialize]) := by
  have hlength : (q.position_log s.cm_data.positions_id_counter c.caller
      env.now).stable_memory_serialize.length = PositionLog.STABLE_MEMORY_SERIALIZE_SIZE :=
    PositionLog.stable_memory_serialize_length _
  have hid : (q.position_log s.cm_data.positions_id_counter c.caller env.now).id < 2 ^ 128 := by
    rw [q.position_log_id]
    exact hids
  have hrecord := PositionLog.log_id_of_serialization _ hid
  rw [q.position_log_id] at hrecord
  refine ⟨append_ok h.storage hlength, ?_, h.logs_ok.append (hrecord.trans h.length.symm),
    h.first_ids.same rfl rfl, h.sent, ?_⟩
  · rw [List.length_append, List.length_singleton, h.length]
    rfl
  · have hroom := h.room
    rw [hc, pending_middle, pending_trade hq, Nat.mul_succ] at hroom
    change (s.positions_storage.data.storage_buffer ++ _).length + _ * pendingTrades (pre ++ post) ≤ _
    rw [List.length_append, hlength]
    omega

theorem Recorded.flush_logs (h : Recorded cfg s logs) (env : FlushEnv)
    (hstorage : s'.positions_storage = s.positions_storage.flush_logs cfg.flush env)
    (hcounter : s'.cm_data.positions_id_counter = s.cm_data.positions_id_counter)
    (hupdated : s'.history.updated = s.history.updated) (hruns : s'.runs = s.runs)
    (hcalls : s'.calls = s.calls) : Recorded cfg s' logs := by
  have hoverwritten : s'.overwritten = s.overwritten := by
    unfold TcState.overwritten
    rw [hupdated]
  have hupdates : s'.updates = s.updates := by
    unfold TcState.updates
    rw [hruns]
  have hsame := flush_logs_same cfg.flush s.positions_storage.data env
  refine ⟨?_, ?_, ?_, ?_, ?_, ?_⟩
  · rw [hstorage, hupdates]
    exact flush_logs_ok cfg.positions_fit h.storage
  · rw [hcounter]
    exact h.length
  · rw [hoverwritten]
    exact h.logs_ok
  · rw [hstorage]
    exact h.first_ids.same hsame.firsts rfl
  · rw [hstorage, hupdates]
    intro updates hmem kind u hu canister_id hsent
    rw [← h.sent updates hmem kind u hu canister_id hsent]
    unfold call_storage_canister_id LogStorage.flush_logs
    rw [hsame.canisters]
  · rw [hstorage, hcalls]
    have hroom := h.room
    rw [← hsame.buffer] at hroom
    exact hroom

theorem Recorded.flush_step (h : Recorded cfg s logs) {storage : LogStorage Principal}
    (hstep : FlushStep PositionLog.storage cfg.flush s.positions_storage storage) :
    Recorded cfg { s with positions_storage := storage } logs := by
  obtain ⟨hdata, hbuffer⟩ := flush_step_data hstep
  refine ⟨flush_step_ok cfg.positions_fit h.storage hstep, h.length, h.logs_ok,
    first_ids_step h.storage h.logs_ok.ids h.first_ids hstep, ?_, ?_⟩
  · intro updates hmem kind u hu canister_id hsent
    change call_storage_canister_id storage.data _ = _
    rcases hdata with hdata | hflushes
    · rw [hdata]
      exact h.sent updates hmem kind u hu canister_id hsent
    · exact absurd (h.flushes_of_sent hmem hu) hflushes
  · have hroom := h.room
    change storage.data.storage_buffer.length + _ * pendingTrades s.calls ≤ _
    omega

theorem Recorded.ended (h : Recorded cfg s logs) {before after : List PayoutsRun} {run : PayoutsRun}
    (hr : s.runs = before ++ run :: after)
    (hstorage : s'.positions_storage = { s.positions_storage with
      data := unlock_positions_storage run s.positions_storage.data })
    (hcounter : s'.cm_data.positions_id_counter = s.cm_data.positions_id_counter)
    (hupdated : s'.history.updated = s.history.updated) (hruns : s'.runs = before ++ after)
    (hcalls : s'.calls = s.calls) : Recorded cfg s' logs := by
  have hoverwritten : s'.overwritten = s.overwritten := by
    unfold TcState.overwritten
    rw [hupdated]
  have hupdating : updating s.updates =
      updating s'.updates + if run.has_updates then 1 else 0 := by
    unfold TcState.updates updating
    rw [hr, hruns, List.map_append, List.map_append, List.map_cons, List.countP_append,
      List.countP_append, List.countP_cons]
    exact (Nat.add_assoc _ _ _).symm
  have hsub : ∀ updates ∈ s'.updates, updates ∈ s.updates := by
    intro updates hmem
    unfold TcState.updates at hmem ⊢
    rw [hruns] at hmem
    rw [hr]
    obtain ⟨r, hr, rfl⟩ := List.mem_map.mp hmem
    refine List.mem_map_of_mem ?_
    exact (List.mem_append.mp hr).elim (List.mem_append_left _)
      fun hr => List.mem_append_right _ (List.mem_cons_of_mem _ hr)
  have hdata : unlock_positions_storage run s.positions_storage.data =
      { s.positions_storage.data with storage_flush_lock :=
        if run.has_updates then false else s.positions_storage.data.storage_flush_lock } := by
    unfold unlock_positions_storage
    split_ifs <;> rfl
  rw [hdata] at hstorage
  refine ⟨?_, ?_, ?_, ?_, ?_, ?_⟩
  · have hlock := h.storage.lock
    rw [hupdating] at hlock
    rw [hstorage]
    refine ⟨⟨h.storage.data.sized, h.storage.data.init_size, h.storage.data.ids_nodup,
      h.storage.data.ids_created, h.storage.data.temp, h.storage.data.chain⟩, ?_, fun r hr => ?_⟩
    -- A run with updates held the lock alone, any other one leaves it as it is.
    · change s.positions_storage.flushes.length + updating s'.updates = if (if run.has_updates then
        false else s.positions_storage.data.storage_flush_lock) = true then 1 else 0
      by_cases hhas : run.has_updates = true
      · simp only [hhas, if_true, Bool.false_eq_true, if_false] at hlock ⊢
        split_ifs at hlock
        omega
      · simp only [hhas, Bool.false_eq_true, if_false, Nat.add_zero] at hlock ⊢
        exact hlock
    · have hrun := h.storage.runs r hr
      cases r <;> exact hrun
  · rw [hcounter]
    exact h.length
  · rw [hoverwritten]
    exact h.logs_ok
  · rw [hstorage]
    exact h.first_ids.same rfl rfl
  · rw [hstorage]
    intro updates hmem
    exact h.sent updates (hsub updates hmem)
  · rw [hstorage, hcalls]
    exact h.room

/-! ## Every run -/

theorem counter_grows (hstep : TcStep cfg s s') :
    s.cm_data.positions_id_counter ≤ s'.cm_data.positions_id_counter := by
  cases hstep with
  | trade h =>
    obtain ⟨rfl, -⟩ := _trade_spec h
    exact le_rfl
  | transfer_balance h =>
    obtain ⟨rfl, -⟩ := _transfer_balance_spec h
    exact le_rfl
  | trade_committed now instruction_counter hc hr hq he => exact Nat.le_succ _
  | payouts_started hp =>
    obtain ⟨vcs, vts, tls, hsame⟩ := (_do_payouts_spec hp).same
    rw [hsame]
  | _ => exact le_rfl

theorem recorded_init (h : TcInit cfg s) : Recorded cfg s [] := by
  obtain ⟨fees, positions_module_hash, trades_module_hash, ledger, rfl⟩ := h
  refine ⟨storage_new _ _, rfl, ⟨fun i log hlog => ?_, fun e he => ?_⟩, fun e he => ?_,
    fun updates hmem => ?_, Nat.zero_le _⟩
  · cases hlog
  · exact absurd he (Multiset.notMem_zero e)
  · cases he
  · cases hmem

/-- The records `es` are overwritten, and the others stay. -/
structure Overwrites (s s' : TcState) (logs logs' : List (List Byte))
    (es : List (PositionId × List Byte)) : Prop where
  made : s'.overwritten = s.overwritten + es
  others : ∀ i < logs.length, i ∉ es.map Prod.fst → logs'[i]? = logs[i]?

theorem Overwrites.none (hupdated : s'.history.updated = s.history.updated) :
    Overwrites s s' logs logs [] := by
  refine ⟨?_, fun _ _ _ => rfl⟩
  unfold TcState.overwritten
  rw [hupdated]
  exact (add_zero _).symm

theorem recorded_step (h : Recorded cfg s logs) (hm : Market False s) (hlocked : Locked s)
    (hq : Queues s) (hnodup : (s'.overwritten.map Prod.fst).Nodup)
    (hids : s'.cm_data.positions_id_counter ≤ 2 ^ 128) (hstep : TcStep cfg s s') :
    ∃ logs' es, Recorded cfg s' logs' ∧ Overwrites s s' logs logs' es := by
  have hids₀ := (counter_grows hstep).trans hids
  cases hstep with
  | @trade caller q cm_data ht =>
    obtain ⟨rfl, hok⟩ := _trade_spec ht
    have hpending := hlocked.pending_lt hok.locks_lt
    have hbuffer := hok.buffer_lt
    refine ⟨logs, [], ⟨h.storage, h.length, h.logs_ok, h.first_ids, h.sent, ?_⟩, .none rfl⟩
    change s.positions_storage.data.storage_buffer.length +
      _ * pendingTrades (⟨caller, .trade q, none⟩ :: s.calls) ≤ _
    rw [pending_cons, pending_trade rfl]
    -- 1000 calls at most, and `_trade` saw the buffer below its limit.
    have hmul : PositionLog.STABLE_MEMORY_SERIALIZE_SIZE * (pendingTrades s.calls + 1) ≤
      PositionLog.STABLE_MEMORY_SERIALIZE_SIZE * 1000 := Nat.mul_le_mul_left _ hpending
    omega
  | @transfer_balance caller kind q cm_data ht =>
    obtain ⟨rfl, -⟩ := _transfer_balance_spec ht
    refine ⟨logs, [], h.quiet rfl rfl rfl rfl ?_, .none rfl⟩
    change pendingTrades (⟨caller, .transfer_balance kind q, none⟩ :: s.calls) ≤ _
    rw [pending_cons, pending_balance rfl]
    exact le_rfl
  | deposit_executed block hc hr hq hl =>
    exact ⟨logs, [], h.quiet rfl rfl rfl rfl (pending_replied hc _).le, .none rfl⟩
  | balance_executed block hc hr hq hl =>
    exact ⟨logs, [], h.quiet rfl rfl rfl rfl (pending_replied hc _).le, .none rfl⟩
  | call_refused r hc hr hn =>
    exact ⟨logs, [], h.quiet rfl rfl rfl rfl (pending_replied hc _).le, .none rfl⟩
  | trade_failed hc hr hq he =>
    exact ⟨logs, [], h.quiet rfl rfl rfl rfl (pending_ended hc), .none rfl⟩
  | balance_replied hc hr hq =>
    exact ⟨logs, [], h.quiet rfl rfl rfl rfl (pending_ended hc), .none rfl⟩
  | trade_committed now instruction_counter hc hr hq he =>
    have hlt : s.cm_data.positions_id_counter < 2 ^ 128 := Nat.lt_of_succ_le hids
    refine ⟨_, [], h.commit hlt hc hq _,
      (add_zero s.overwritten).symm, fun i hi _ => ?_⟩
    exact List.getElem?_append_left hi
  | do_payouts_replied trades_env positions_env hcalls =>
    exact ⟨logs, [], h.flush_logs positions_env rfl rfl rfl rfl rfl, .none rfl⟩
  | @payouts_started cm_data data run hp =>
    refine ⟨_, written (run.updates .Cycles) ++ written (run.updates .Token),
      h.started hm hids₀ hp rfl hnodup, ?_, fun i hi hother => ?_⟩
    · rw [← Multiset.coe_add]
      unfold TcState.overwritten History.update
      simp only [← Multiset.coe_add]
      exact add_add_add_comm _ _ _ _
    · exact Records.setAll_get_of_notMem hother
  | payout_executed block hr hp hs hl =>
    refine ⟨logs, [], h.quiet rfl rfl rfl ?_ le_rfl, .none rfl⟩
    unfold TcState.updates
    rw [hr]
    exact updates_set_payouts _ _ _ _ _
  | payout_refused r hr hp hs hn =>
    refine ⟨logs, [], h.quiet rfl rfl rfl ?_ le_rfl, .none rfl⟩
    unfold TcState.updates
    rw [hr]
    exact updates_set_payouts _ _ _ _ _
  | payout_replied hr hp hs =>
    refine ⟨logs, [], h.quiet rfl rfl rfl ?_ le_rfl, .none rfl⟩
    unfold TcState.updates
    rw [hr]
    exact updates_set_payouts _ _ _ _ _
  | @update_executed before after run kind pre post u canister_id sc sc' hr hu hs hsc hup =>
    have hrun : run ∈ s.runs := by rw [hr]; simp
    have hmem : u ∈ run.updates kind := by rw [hu]; simp
    obtain ⟨vp, hvp, hjob⟩ := hq.update_job hrun hmem
    refine ⟨_, [(u.position_id, u.log_serialization_b)],
      h.update_executed hr hu hs (by rw [hjob]; exact hm.job_ok hids₀ hvp) hsc hup rfl hnodup, ?_,
      fun i hi hother => ?_⟩
    · unfold TcState.overwritten History.update
      cases kind <;> simp only [if_true, reduceCtorEq, if_false, List.append_nil, ← Multiset.coe_add] <;>
        ac_rfl
    · refine List.getElem?_set_ne fun heq => hother ?_
      rw [← heq]
      exact List.mem_singleton.mpr rfl
  | update_failed e hr hu hs => exact ⟨logs, [], h.update_failed hr hu e, .none rfl⟩
  | payouts_ended hr hf => exact ⟨logs, [], h.ended hr rfl rfl rfl rfl rfl, .none rfl⟩
  | positions_flush hf => exact ⟨logs, [], h.flush_step hf, .none rfl⟩
  | void_position | others_transfer | others_mint | do_payouts | do_payouts_failed | trades_flush =>
    exact ⟨logs, [], h.quiet rfl rfl rfl rfl le_rfl, .none rfl⟩

theorem recorded_inv (r : TcReachable cfg s) (hids : s.cm_data.positions_id_counter ≤ 2 ^ 128) :
    ∃ logs, Recorded cfg s logs := by
  refine r.invariant_while (P := fun s => s.cm_data.positions_id_counter ≤ 2 ^ 128)
    (I := fun s => ∃ logs, Recorded cfg s logs)
    (fun _ _ hstep hle => (counter_grows hstep).trans hle)
    (fun _ hinit _ => ⟨[], recorded_init hinit⟩)
    (fun s s' r _ hids' h hstep => ?_) hids
  obtain ⟨logs, h⟩ := h
  have r' := r.next hstep
  obtain ⟨logs', -, h', -⟩ := recorded_step h (market_inv r False.elim) (locked_inv r) (queues_inv r)
    ((queues_inv r').overwritten_once (market_inv r' False.elim)) hids' hstep
  exact ⟨logs', h'⟩

/-! ## What the contract finds -/

/-- The record of a position as the contract finds it. -/
abbrev TcState.record (s : TcState) (position_id : PositionId) : Option (List Byte) :=
  s.positions_storage.record PositionLog.STABLE_MEMORY_SERIALIZE_SIZE position_id

theorem Recorded.record_eq (h : Recorded cfg s logs) {id : PositionId}
    (hid : id < s.cm_data.positions_id_counter) : s.record id = logs[id]? :=
  Tc.record_eq (by decide) h.storage h.first_ids (by rwa [h.length])

theorem Recorded.record_exists (h : Recorded cfg s logs) {id : PositionId}
    (hid : id < s.cm_data.positions_id_counter) : ∃ b, s.record id = some b ∧
      b.length = PositionLog.STABLE_MEMORY_SERIALIZE_SIZE ∧ recordId b = id := by
  have hlt : id < logs.length := by rwa [h.length]
  have hget := List.getElem?_eq_getElem hlt
  refine ⟨logs[id], ?_, ?_, h.logs_ok.ids id _ hget⟩
  · rw [h.record_eq hid, hget]
  · exact h.storage.data.sized _ (List.getElem_mem hlt)

theorem Queues.removed_updated (h : Queues s) {vp : VoidPosition}
    (hvp : vp ∈ s.history.removed kind) : vp.payout_data.isSome ∧
      (vp.position_id, vp.log.stable_memory_serialize) ∈ s.history.updated kind := by
  have hpaid : vp.payout_data.isSome := (h.payouts (.void kind)).left_settled vp.slot
    (Multiset.mem_coe.mpr (List.mem_map_of_mem hvp))
  obtain ⟨pd, hpd⟩ := Option.isSome_iff_exists.mp hpaid
  have hleft : ∃ x ∈ (s.updatePool kind).left, vp.updateSlot = some x := by
    refine ⟨_, ?_, by unfold VoidPosition.updateSlot; rw [hpd]; rfl⟩
    refine Multiset.mem_coe.mpr (List.mem_filterMap.mpr ⟨vp, hvp, ?_⟩)
    unfold VoidPosition.updateSlot
    rw [hpd]
    rfl
  obtain ⟨x, hx, hslot⟩ := hleft
  obtain ⟨d, hd⟩ := Option.isSome_iff_exists.mp ((h.updates kind).left_settled x hx)
  have hhad := ((h.updates kind).settled_had (Pool.mem_all.mpr (Or.inr hx)) hd x.job).mpr rfl
  obtain ⟨-, -, rfl⟩ := Option.map_eq_some_iff.mp hslot
  exact ⟨hpaid, Multiset.mem_coe.mp hhad⟩

/-- A removed void position left its final log behind. -/
structure FinalRecord (s : TcState) (vp : VoidPosition) : Prop where
  record : s.record vp.position_id = some vp.log.stable_memory_serialize
  log_ok : VoidOk vp
  paid : vp.payout_data.isSome

/-- The records that a step overwrites are those that its updates name. -/
structure RecordsStep (s s' : TcState) (es : List (PositionId × List Byte)) : Prop where
  made : s'.overwritten = s.overwritten + es
  written : ∀ e ∈ es, s'.record e.1 = some e.2
  others : ∀ id < s.cm_data.positions_id_counter, id ∉ es.map Prod.fst → s'.record id = s.record id

structure RecordsKept (cfg : TcConfig) (s : TcState) : Prop where
  removed : ∀ kind, ∀ vp ∈ s.history.removed kind, FinalRecord s vp
  exists_record : ∀ id < s.cm_data.positions_id_counter, ∃ b, s.record id = some b ∧
    b.length = PositionLog.STABLE_MEMORY_SERIALIZE_SIZE ∧ recordId b = id
  /-- No slice of `do_update_storage_position` is out of bounds. -/
  starts : (_do_payouts s.fees s.cm_data s.positions_storage.data).isSome
  /-- The canister that an update was sent to has its record. -/
  accepts : ∀ run ∈ s.runs, ∀ kind, ∀ u ∈ run.updates kind, ∀ canister_id,
    u.state = .sent canister_id → ∃ sc, s.positions_storage.canister canister_id = some sc ∧
      (sc.cm_update_log u.position_id u.log_serialization_b).isSome
  no_flush : ∀ run ∈ s.runs, run.has_updates →
    s.positions_storage.flushes = [] ∧ s.positions_storage.data.storage_flush_lock = true
  steps : ∀ s', TcStep cfg s s' → s'.cm_data.positions_id_counter ≤ 2 ^ 128 →
    ∃ es, RecordsStep s s' es

theorem Recorded.accepts (h : Recorded cfg s logs) (hq : Queues s) (hm : Market False s)
    (hids : s.cm_data.positions_id_counter ≤ 2 ^ 128) {run : PayoutsRun} (hrun : run ∈ s.runs)
    {u : Update} (hu : u ∈ run.updates kind) {canister_id : Principal}
    (hs : u.state = .sent canister_id) :
    ∃ sc, s.positions_storage.canister canister_id = some sc ∧
      (sc.cm_update_log u.position_id u.log_serialization_b).isSome := by
  obtain ⟨vp, hvp, hjob⟩ := hq.update_job hrun hu
  have hmem : run.updates ∈ s.updates := List.mem_map_of_mem hrun
  have hok : JobOk s (u.position_id, u.log_serialization_b) := by
    rw [hjob]
    exact hm.job_ok hids hvp
  obtain ⟨sc, sc', hsc, hup, -⟩ := update_log_ok (by decide) h.storage h.first_ids
    (h.flushes_of_sent hmem hu) hok.length (h.sent _ hmem kind u hu canister_id hs)
  exact ⟨sc, hsc, by rw [hup]; rfl⟩

theorem Recorded.no_flush (h : Recorded cfg s logs) {run : PayoutsRun} (hrun : run ∈ s.runs)
    (hhas : run.has_updates) :
    s.positions_storage.flushes = [] ∧ s.positions_storage.data.storage_flush_lock = true := by
  refine h.exclusive (List.countP_pos_iff.mpr ⟨run.updates, List.mem_map_of_mem hrun, ?_⟩)
  exact hhas

/-- While the ids of the positions fit in their fields, each position has one record, the updates
overwrite just the records that they name, and a position that is gone left its final log. -/
theorem stored_logs_end_final (cfg : TcConfig) (s : TcState) (r : TcReachable cfg s)
    (hids : s.cm_data.positions_id_counter ≤ 2 ^ 128) : RecordsKept cfg s := by
  have hm : Market False s := market_inv r False.elim
  have hq := queues_inv r
  obtain ⟨logs, h⟩ := recorded_inv r hids
  refine ⟨fun kind vp hvp => ?_, fun id hid => h.record_exists hid, h.do_payouts_starts hm hids,
    fun run hrun kind u hu canister_id hs => h.accepts hq hm hids hrun hu hs,
    fun run hrun hhas => h.no_flush hrun hhas, fun s' hstep hids' => ?_⟩
  · obtain ⟨hpaid, hmade⟩ := hq.removed_updated hvp
    have hvoid : vp ∈ s.voids kind := Multiset.mem_add.mpr (Or.inr (Multiset.mem_coe.mpr hvp))
    refine ⟨?_, hm.voids kind vp hvoid, hpaid⟩
    rw [h.record_eq (hm.void_id_lt hvoid)]
    refine h.logs_ok.made_kept (vp.position_id, _) (Multiset.mem_add.mpr ?_)
    cases kind
    · exact Or.inl hmade
    · exact Or.inr hmade
  · have r' := r.next hstep
    have hm' : Market False s' := market_inv r' False.elim
    have hq' := queues_inv r'
    obtain ⟨logs', es, h', hover⟩ := recorded_step h hm (locked_inv r) hq
      (hq'.overwritten_once hm') hids' hstep
    have hgrows := counter_grows hstep
    refine ⟨es, hover.made, fun e he => ?_, fun id hid hother => ?_⟩
    · have hmade : e ∈ s'.overwritten := by
        rw [hover.made]
        exact Multiset.mem_add.mpr (Or.inr he)
      have hget := h'.logs_ok.made_kept e hmade
      have hlt := (List.getElem?_eq_some_iff.mp hget).1
      rw [h'.length] at hlt
      rw [h'.record_eq hlt, hget]
    · rw [h'.record_eq (lt_of_lt_of_le hid hgrows), h.record_eq hid]
      exact hover.others id (by rwa [h.length]) hother

theorem short_run_ends_final : Sample.final.history.removed .Token ≠ [] ∧
    RecordsKept Sample.config Sample.final := by
  have hremoved : (Sample.final.history.removed .Token).length ≠ 0 := by decide +kernel
  have hids : Sample.final.cm_data.positions_id_counter ≤ 2 ^ 128 := by decide +kernel
  refine ⟨fun hnil => hremoved (congrArg List.length hnil), ?_⟩
  exact stored_logs_end_final _ _ Sample.final_reachable hids

/-- The field of the ledger fee has 64 bits: a fee of `2 ^ 64` is on record as zero. -/
theorem large_ledger_fee_is_cut : ∃ s, TcReachable Sample.config s ∧
    ∃ vp ∈ s.history.removed .Token, ∃ pd b, vp.payout_data = some pd ∧
      s.record vp.position_id = some b ∧
      from_be_bytes (slice 164 8 b) ≠ pd.ledger_transfer_fee := by
  refine ⟨Sample.final, Sample.final_reachable, ?_⟩
  have hcut : ∃ vp ∈ Sample.final.history.removed .Token,
      (vp.payout_data.map PayoutData.ledger_transfer_fee).isSome ∧
      (Sample.final.record vp.position_id).isSome ∧
      (Sample.final.record vp.position_id).map (fun b => from_be_bytes (slice 164 8 b)) ≠
        vp.payout_data.map PayoutData.ledger_transfer_fee := by
    decide +kernel
  obtain ⟨vp, hvp, hpaid, hrecord, hne⟩ := hcut
  rw [Option.isSome_map] at hpaid
  obtain ⟨pd, hpd⟩ := Option.isSome_iff_exists.mp hpaid
  obtain ⟨b, hb⟩ := Option.isSome_iff_exists.mp hrecord
  refine ⟨vp, hvp, pd, b, hpd, hb, fun heq => hne ?_⟩
  rw [hpd, hb, Option.map_some, Option.map_some, heq]

end Cts.Tc
