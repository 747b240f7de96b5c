import Cts.Tc.Memos
import Cts.Tc.Solvency

/-!
# What waiting payouts are owed

A payout that waits for its ledger has its job in the book, so it is one of those that the users are
still owed, and the positions account covers it.
-/

namespace Cts.Tc

open Lib Lib.Jobs

variable {cfg : TcConfig} {s : TcState} {run : PayoutsRun} {q : Queue} {p : Payout}

theorem waiting_flight (hrun : run ∈ s.runs) (hp : p ∈ run.payouts q) :
    p.flight ∈ (s.pool q).flights :=
  Multiset.mem_coe.mpr (List.mem_flatMap.mpr ⟨run, hrun, List.mem_map_of_mem hp⟩)

theorem waiting_owed (r : TcReachable cfg s) (hrun : run ∈ s.runs) (hp : p ∈ run.payouts q)
    (hs : p.state = .sent) : ∃ x ∈ s.owedSlots q, x.id = p.id ∧ x.job = p.quest := by
  have hk := (queues_inv r).payouts q
  have hf := waiting_flight hrun hp
  have hn : p.flight.effect = none := by simp [Payout.flight, Payout.effect, hs]
  obtain ⟨x, hx, hid, hjob, -, hdata⟩ := hk.away _ hf
  refine ⟨x, Multiset.mem_filter.mpr ⟨hx, hdata, fun hmem => ?_⟩, hid, hjob⟩
  obtain ⟨e, he, heid⟩ := List.mem_map.mp hmem
  exact hk.not_had hf hn (Multiset.mem_coe.mpr he) (heid.trans hid)

theorem mount_le_owed {x : PayoutSlot} (hx : x ∈ s.owedSlots q) :
    x.job.trade_mount ≤ s.owed q.kind := by
  have hle : x.job.trade_mount ≤ mounts (s.owedSlots q) := by
    obtain ⟨rest, hrest⟩ := Multiset.exists_cons_of_mem hx
    rw [hrest, mounts_cons]
    exact Nat.le_add_right _ _
  unfold TcState.owed
  cases q with
  | void kind => exact hle.trans (by simp only [Queue.kind]; omega)
  | trade kind => exact hle.trans (by simp only [Queue.kind]; omega)

theorem owed_le_ledger (r : TcReachable cfg s) (kind : PositionKind) :
    s.owed kind ≤ s.ledger kind cfg.positionsAccount := by
  have hbalance := balanced_inv r kind
  have hvoid := queue_split r (.void kind)
  have htrade := queue_split r (.trade kind)
  have hvoids := under_way_le r (.void kind)
  have htrades := under_way_le r (.trade kind)
  unfold TcState.paid TcState.total at hbalance
  unfold TcState.owed
  omega

theorem waiting_covered (r : TcReachable cfg s) (hrun : run ∈ s.runs) (hp : p ∈ run.payouts q)
    (hs : p.state = .sent) :
    p.transfer.amount + p.ledger_transfer_fee ≤ s.ledger q.kind cfg.positionsAccount := by
  obtain ⟨x, hx, -, hjob⟩ := waiting_owed r hrun hp hs
  have hworth := (priced_inv r).sent run hrun q p hp hs
  have hdebit := debit_add_kept hworth
  have hmount := mount_le_owed hx
  have hcovered := owed_le_ledger r q.kind
  rw [hjob] at hmount
  change (payout_transfer p.quest p.ledger_transfer_fee).amount + p.ledger_transfer_fee + _ = _
    at hdebit
  change (payout_transfer p.quest p.ledger_transfer_fee).amount + _ ≤ _
  omega

theorem waiting_memo (r : TcReachable cfg s) (hrun : run ∈ s.runs) (hp : p ∈ run.payouts q) :
    p.transfer.memo = some (q.memo p.id) := by
  obtain ⟨x, hx, hid, hjob, -⟩ := ((queues_inv r).payouts q).away _ (waiting_flight hrun hp)
  have hmemo := slot_memo (Pool.mem_all.mpr (Or.inl hx))
  rw [hjob, hid] at hmemo
  exact congrArg some hmemo

end Cts.Tc
