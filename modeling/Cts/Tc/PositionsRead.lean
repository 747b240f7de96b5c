import Cts.Tc.Owners
import Cts.Tc.ReadBack

/-!
# The positions of a user can be read back

A user's positions are found in the positions storage by the user's principal: each of them once, with
the record that it has at the time, and with its final log once it is gone.
-/

namespace Cts.Tc

open Lib Lib.IndexedLog

variable {cfg : TcConfig} {s s' : TcState} {user : Principal}

/-! ## The storage of the positions -/

theorem indices_updated (r : TcReachable cfg s) (hids : s.cm_data.positions_id_counter ≤ 2 ^ 128)
    (hi : s.positions_storage.Indices PositionLog.storage) {before after : List PayoutsRun}
    {run : PayoutsRun} {kind : PositionKind} {pre post : List Update} {u : Update}
    {canister_id : Principal} {sc sc' : StorageCanister Principal}
    (hr : s.runs = before ++ run :: after) (hu : run.updates kind = pre ++ u :: post)
    (hs : u.state = .sent canister_id) (hsc : s.positions_storage.canister canister_id = some sc)
    (hup : sc.cm_update_log u.position_id u.log_serialization_b = some sc') :
    sc'.Indexes PositionLog.storage := by
  have hm : Market False s := market_inv r False.elim
  have ho := owners_inv r hids
  obtain ⟨logs, hrec⟩ := recorded_inv r hids
  have hrun : run ∈ s.runs := by rw [hr]; simp
  have hmem : u ∈ run.updates kind := by rw [hu]; simp
  have hcall := hrec.sent run.updates (List.mem_map_of_mem hrun) kind u hmem canister_id hs
  obtain ⟨vp, hvp, hjob⟩ := (queues_inv r).update_job hrun hmem
  have hok := hm.job_ok hids hvp
  obtain ⟨owner, b, howned, hb, hkey⟩ := ho.records vp.position_id hok.id_lt
  obtain ⟨hid, hlog⟩ := Prod.mk.inj hjob
  rw [hid] at hcall
  rw [hid, hlog] at hup
  unfold TcState.record LogStorage.record at hb
  rw [hcall] at hb
  simp only [hsc, Option.bind_some] at hb
  refine (hi canister_id sc hsc).update PositionLog.storage_lawful hok.id hb ?_ hup
  rw [hkey, PositionLog.keysOf_serialization, ho.logs kind vp (mem_voids hvp),
    hm.owned_unique howned (hm.owned_of_void (mem_voids hvp))]

theorem positions_indices_step (r : TcReachable cfg s)
    (hids : s.cm_data.positions_id_counter ≤ 2 ^ 128)
    (hi : s.positions_storage.Indices PositionLog.storage) (hstep : TcStep cfg s s') :
    s'.positions_storage.Indices PositionLog.storage := by
  cases hstep with
  | update_executed hr hu hs hsc hup => exact hi.update (indices_updated r hids hi hr hu hs hsc hup) rfl
  | positions_flush hf =>
    obtain ⟨logs, hrec⟩ := recorded_inv r hids
    exact indices_step hrec.storage hrec.logs_ok.ids (fun log _ => PositionLog.keys_nodup log)
      hrec.first_ids hi PositionLog.storage_lawful hf
  | trade | transfer_balance | deposit_executed | balance_executed | call_refused | trade_failed
  | trade_committed | balance_replied | void_position | others_transfer | others_mint | do_payouts
  | do_payouts_replied | do_payouts_failed | payouts_started | payout_executed | payout_refused
  | payout_replied | update_failed | payouts_ended | trades_flush =>
    exact hi.same rfl

theorem positions_indices (r : TcReachable cfg s) (hids : s.cm_data.positions_id_counter ≤ 2 ^ 128) :
    s.positions_storage.Indices PositionLog.storage := by
  refine r.invariant_while (P := fun s => s.cm_data.positions_id_counter ≤ 2 ^ 128)
    (fun _ _ hstep hle => (counter_grows hstep).trans hle) (fun s hinit _ => ?_)
    (fun s s' r hle _ h hstep => positions_indices_step r hle h hstep) hids
  obtain ⟨fees, positions_module_hash, trades_module_hash, ledger, rfl⟩ := hinit
  intro id sc hsc
  cases hsc

/-! ## Reading them back -/

/-- What a user's positions are on record with. -/
structure UserHistory (s : TcState) (user : Principal) (logs : List (List Byte)) : Prop where
  ordered : (logs.map recordId).Pairwise (· < ·)
  complete : ∀ id, id ∈ logs.map recordId ↔ s.Owned id user
  records : ∀ b ∈ logs, s.record (recordId b) = some b
  final : ∀ kind, ∀ vp ∈ s.history.removed kind, vp.positor = user →
    vp.log.stable_memory_serialize ∈ logs

theorem Recorded.removed_record {logs : List (List Byte)} (h : Recorded cfg s logs)
    (hq : Queues s) {kind : PositionKind} {vp : VoidPosition}
    (hvp : vp ∈ s.history.removed kind) : logs[vp.position_id]? = some vp.log.stable_memory_serialize := by
  obtain ⟨-, hmade⟩ := hq.removed_updated hvp
  refine h.logs_ok.made_kept (vp.position_id, _) (Multiset.mem_add.mpr ?_)
  cases kind
  · exact Or.inl hmade
  · exact Or.inr hmade

theorem user_history (r : TcReachable cfg s) (hids : s.cm_data.positions_id_counter ≤ 2 ^ 128)
    {logs : List (List Byte)} (h : Recorded cfg s logs) (user : Principal) :
    UserHistory s user (logs.filter (has (keysOf PositionLog.storage) (some user))) := by
  have hm : Market False s := market_inv r False.elim
  have ho := owners_inv r hids
  -- A log is under the positor of its position.
  have hmem : ∀ {i log}, logs[i]? = some log →
      (log ∈ logs.filter (has (keysOf PositionLog.storage) (some user)) ↔ s.Owned i user) := by
    intro i log hlog
    have hlt := (List.getElem?_eq_some_iff.mp hlog).1
    rw [h.length] at hlt
    obtain ⟨owner, b, howned, hb, hkey⟩ := ho.records i hlt
    rw [h.record_eq hlt, hlog] at hb
    obtain rfl := Option.some.inj hb
    have hkeys : keysOf PositionLog.storage log = [owner] := by
      rw [keysOf, hkey, Option.getD_some]
    rw [List.mem_filter, has, hkeys]
    simp only [decide_eq_true_eq, List.mem_singleton]
    constructor
    · rintro ⟨-, rfl⟩
      exact howned
    · intro howned'
      exact ⟨List.mem_of_getElem? hlog, hm.owned_unique howned' howned⟩
  refine ⟨sorted_by_ids h.logs_ok.ids _, fun id => ?_, fun b hb => ?_, fun kind vp hvp hpositor => ?_⟩
  · rw [List.mem_map]
    constructor
    · rintro ⟨log, hlog, rfl⟩
      obtain ⟨i, hi⟩ := List.mem_iff_getElem?.mp (List.mem_of_mem_filter hlog)
      rw [h.logs_ok.ids i log hi]
      exact (hmem hi).mp hlog
    · intro howned
      obtain ⟨p, hp⟩ := howned
      have hlt : id < s.cm_data.positions_id_counter := hm.exists_place.mp ⟨p, mem_of_positorAt hp⟩
      rw [← h.length] at hlt
      have hget := List.getElem?_eq_getElem hlt
      exact ⟨logs[id], (hmem hget).mpr ⟨p, hp⟩, h.logs_ok.ids id _ hget⟩
  · obtain ⟨i, hi⟩ := List.mem_iff_getElem?.mp (List.mem_of_mem_filter hb)
    have hlt := (List.getElem?_eq_some_iff.mp hi).1
    rw [h.length] at hlt
    rw [h.logs_ok.ids i b hi, h.record_eq hlt, hi]
  · refine (hmem (h.removed_record (queues_inv r) hvp)).mpr ?_
    rw [← hpositor]
    exact hm.owned_of_void (Multiset.mem_add.mpr (Or.inr (Multiset.mem_coe.mpr hvp)))

/-- Each position belongs to one user for good. A client that reads a user's logs page after page until
an empty one has the records of just the user's positions, and of those that are gone the final logs. -/
theorem positions_of_a_user_can_be_read_back (cfg : TcConfig) (s : TcState) (r : TcReachable cfg s)
    (hids : s.cm_data.positions_id_counter ≤ 2 ^ 128) (max_logs chunk_size : Nat)
    (hmax : 1 ≤ max_logs) (hchunk : 1 ≤ chunk_size) :
    (∀ id < s.cm_data.positions_id_counter, ∃! owner, s.Owned id owner) ∧
      (∀ s', TcStep cfg s s' → ∀ id owner, s.Owned id owner → s'.Owned id owner) ∧
      ∀ user, (∃ pages, s.positions_storage.ReadsAll PositionLog.storage user max_logs chunk_size
          pages) ∧
        ∀ pages, s.positions_storage.ReadsAll PositionLog.storage user max_logs chunk_size pages →
          UserHistory s user pages.reverse.flatten := by
  have hm : Market False s := market_inv r False.elim
  have ho := owners_inv r hids
  obtain ⟨logs, hrec⟩ := recorded_inv r hids
  refine ⟨fun id hid => ?_, fun s' hstep id owner howned => ?_, fun user => ?_⟩
  · obtain ⟨owner, -, howned, -⟩ := ho.records id hid
    exact ⟨owner, howned, fun owner' howned' => hm.owned_unique howned' howned⟩
  · exact owned_step hm (market_inv (r.next hstep) False.elim) (market_move hm hstep) howned
  · have hkeys : ∀ log ∈ logs,
        (PositionLog.storage.index_keys_of_the_log_serialization log).isSome := by
      intro log hlog
      obtain ⟨i, hi⟩ := List.mem_iff_getElem?.mp hlog
      have hlt := (List.getElem?_eq_some_iff.mp hi).1
      rw [hrec.length] at hlt
      obtain ⟨owner, b, -, hb, hkey⟩ := ho.records i hlt
      rw [hrec.record_eq hlt, hi] at hb
      rw [Option.some.inj hb, hkey]
      rfl
    obtain ⟨pages, hpages, hflat⟩ := reads_all PositionLog.storage_lawful hrec.storage
      hrec.logs_ok.ids hkeys (positions_indices r hids) hrec.buffer_lt user hmax hchunk
    refine ⟨⟨pages, hpages⟩, fun pages' hpages' => ?_⟩
    rw [hpages'.unique hpages, hflat]
    exact user_history r hids hrec user

theorem positions_of_busy_contract_are_read_back :
    (Sample.busy.cm_data.positions_id_counter = 12 ∧
        Sample.busy.positions_storage.held.length = 2 * 172 ∧
        Sample.busy.positions_storage.flushes.length = 1) ∧
      (∀ id < Sample.busy.cm_data.positions_id_counter, ∃! owner, Sample.busy.Owned id owner) ∧
      (∀ s', TcStep Sample.busyConfig Sample.busy s' → ∀ id owner, Sample.busy.Owned id owner →
        s'.Owned id owner) ∧
      ∀ user, (∃ pages, Sample.busy.positions_storage.ReadsAll PositionLog.storage user 3 3 pages) ∧
        ∀ pages, Sample.busy.positions_storage.ReadsAll PositionLog.storage user 3 3 pages →
          UserHistory Sample.busy user pages.reverse.flatten := by
  have hbusy : Sample.busy.cm_data.positions_id_counter = 12 ∧
      Sample.busy.positions_storage.held.length = 2 * 172 ∧
        Sample.busy.positions_storage.flushes.length = 1 := by
    decide +kernel
  exact ⟨hbusy, positions_of_a_user_can_be_read_back Sample.busyConfig _ Sample.busy_reachable
    (by rw [hbusy.1]; decide) 3 3 (by decide) (by decide)⟩

end Cts.Tc
