import Cts.Tc.Payouts

/-!
# What a run does to the queues

The two loops with which `_do_payouts` starts lock slots and take their jobs away, and the loops at
its end bring the results back.
-/

namespace Cts.Tc

open Lib Lib.Jobs

/-! ## Record updates as jobs -/

abbrev UpdateSlot := Jobs.Slot PositionId (List Byte) Unit
abbrev UpdateFlight := Jobs.Flight PositionId (List Byte) (List Byte)
abbrev UpdatePool := Jobs.Pool PositionId (List Byte) (List Byte) Unit

/-- The record is overwritten. -/
def updateEffect : Jobs.Effect (List Byte) (List Byte) Unit := fun log_b _ => some log_b

/-- The log that the record is updated to. -/
abbrev VoidPosition.log (vp : VoidPosition) : PositionLog :=
  vp.update_storage_position_data.update_storage_position_log

def VoidPosition.updateSlot (vp : VoidPosition) : Option UpdateSlot :=
  vp.payout_data.map fun _ =>
    { id := vp.position_id
      job := vp.log.stable_memory_serialize
      lock := vp.update_storage_position_data.lock
      data := if vp.update_storage_position_data.status then some () else none }

def Update.effect (u : Update) : Option (List Byte) :=
  match u.state with
  | .done (.ok ()) => some u.log_serialization_b
  | _ => none

def Update.flight (u : Update) : UpdateFlight := ⟨u.position_id, u.log_serialization_b, u.effect⟩

/-- Until its payout is on record, nothing was done about the record of a void position. -/
structure VoidPending (vp : VoidPosition) : Prop where
  status : vp.update_storage_position_data.status = false
  lock : vp.payout_data = none → vp.update_storage_position_data.lock = false

theorem VoidPosition.updateSlot_none {vp : VoidPosition} (h : vp.payout_data = none) :
    vp.updateSlot = none := by
  simp [VoidPosition.updateSlot, h]

theorem VoidPosition.updateSlot_id {vp : VoidPosition} {x : UpdateSlot} (h : vp.updateSlot = some x) :
    x.id = vp.position_id := by
  obtain ⟨-, -, rfl⟩ := Option.map_eq_some_iff.mp h
  rfl

/-! ## The loop over the void positions -/

inductive Taken (ledger_transfer_fee : Nat) : List VoidPosition → List VoidPosition → List Payout →
    List (PositionId × List Byte) → Prop
  | nil : Taken ledger_transfer_fee [] [] [] []
  | pass {vps vps' : List VoidPosition} {ps : List Payout} {us : List (PositionId × List Byte)}
      (vp : VoidPosition) (h : Taken ledger_transfer_fee vps vps' ps us) :
      Taken ledger_transfer_fee (vp :: vps) (vp :: vps') ps us
  | payout {vps vps' : List VoidPosition} {ps : List Payout} {us : List (PositionId × List Byte)}
      {vp : VoidPosition} (hf : vp.slot.fresh) (h : Taken ledger_transfer_fee vps vps' ps us) :
      Taken ledger_transfer_fee (vp :: vps) (vp.lock_payout :: vps')
        (_do_payout vp.position_id ledger_transfer_fee vp.payout_quest :: ps) us
  | update {vps vps' : List VoidPosition} {ps : List Payout} {us : List (PositionId × List Byte)}
      {vp : VoidPosition} (hd : vp.payout_data.isSome)
      (hs : vp.update_storage_position_data.status = false)
      (hl : vp.update_storage_position_data.lock = false)
      (h : Taken ledger_transfer_fee vps vps' ps us) :
      Taken ledger_transfer_fee (vp :: vps) (vp.lock_update :: vps') ps
        ((vp.position_id, vp.log.stable_memory_serialize) :: us)

variable {fee : Nat}

theorem Taken.refl (vps : List VoidPosition) : Taken fee vps vps [] [] := by
  induction vps with
  | nil => exact .nil
  | cons vp vps ih => exact .pass vp ih

theorem take_void_position_cases (fee : Nat) (yes_or_no : Bool) (c : VoidChunks) (vp : VoidPosition) :
    take_void_position fee yes_or_no c vp = none ∨
      take_void_position fee yes_or_no c vp = some (vp, c) ∨
      (vp.slot.fresh ∧ take_void_position fee yes_or_no c vp =
        some (vp.lock_payout, { c with payouts_chunk :=
          c.payouts_chunk ++ [_do_payout vp.position_id fee vp.payout_quest] })) ∨
      (yes_or_no = true ∧ vp.payout_data.isSome ∧ vp.update_storage_position_data.status = false ∧
        vp.update_storage_position_data.lock = false ∧ take_void_position fee yes_or_no c vp =
        some (vp.lock_update, { c with update_storage_positions_chunk :=
          c.update_storage_positions_chunk ++ [(vp.position_id, vp.log.stable_memory_serialize)] })) := by
  unfold take_void_position
  split_ifs with hfull
  · exact Or.inl rfl
  · refine Or.inr ?_
    by_cases hp : c.payouts_chunk.length < DO_VOID_POSITIONS_PAYOUTS_CHUNK_SIZE ∧
        vp.payout_data.isNone ∧ vp.payout_lock = false
    · -- The update waits for the payout.
      have hnone : vp.payout_data = none := Option.isNone_iff_eq_none.mp hp.2.1
      refine Or.inr (Or.inl ⟨⟨hp.2.2, hnone⟩, ?_⟩)
      simp [take_payout, hp, take_update, VoidPosition.lock_payout, hnone]
    · by_cases hu : yes_or_no = true ∧ c.update_storage_positions_chunk.length <
          DO_VOID_POSITIONS_UPDATE_STORAGE_POSITION_CHUNK_SIZE ∧ vp.payout_data.isSome ∧
          vp.update_storage_position_data.status = false ∧
          vp.update_storage_position_data.lock = false
      · refine Or.inr (Or.inr ⟨hu.1, hu.2.2.1, hu.2.2.2.1, hu.2.2.2.2, ?_⟩)
        simp only [take_payout, if_neg hp, take_update, if_pos hu]
      · refine Or.inl ?_
        simp only [take_payout, if_neg hp, take_update, if_neg hu]

theorem loopEntries_taken (fee : Nat) (yes_or_no : Bool) (l : List (PositionId × VoidPosition)) (c : VoidChunks) :
    ∃ ps us, (OrdMap.loopEntries (take_void_position fee yes_or_no) l c).2 =
        ⟨c.payouts_chunk ++ ps, c.update_storage_positions_chunk ++ us⟩ ∧
      Taken fee (l.map Prod.snd)
        ((OrdMap.loopEntries (take_void_position fee yes_or_no) l c).1.map Prod.snd) ps us ∧
      (us ≠ [] → yes_or_no = true) := by
  induction l generalizing c with
  | nil => exact ⟨[], [], by simp [OrdMap.loopEntries], .nil, by simp⟩
  | cons e l ih =>
    obtain ⟨k, vp⟩ := e
    rw [OrdMap.loopEntries]
    rcases take_void_position_cases fee yes_or_no c vp with h | h | ⟨hf, h⟩ |
      ⟨hyes, hd, hs, hl, h⟩
    · rw [h]
      exact ⟨[], [], by simp, .refl _, by simp⟩
    · obtain ⟨ps, us, hc, ht, hus⟩ := ih c
      rw [h]
      exact ⟨ps, us, hc, .pass vp ht, hus⟩
    · obtain ⟨ps, us, hc, ht, hus⟩ := ih { c with payouts_chunk :=
        c.payouts_chunk ++ [_do_payout vp.position_id fee vp.payout_quest] }
      rw [h]
      refine ⟨_ :: ps, us, hc.trans ?_, .payout hf ht, hus⟩
      simp only [List.append_assoc, List.singleton_append]
    · obtain ⟨ps, us, hc, ht, -⟩ := ih { c with update_storage_positions_chunk :=
        c.update_storage_positions_chunk ++ [(vp.position_id, vp.log.stable_memory_serialize)] }
      rw [h]
      refine ⟨ps, _ :: us, hc.trans ?_, .update hd hs hl ht, fun _ => hyes⟩
      simp only [List.append_assoc, List.singleton_append]

theorem void_positions_payouts_taken (fee : Nat) (m : OrdMap PositionId VoidPosition) (yes_or_no : Bool) :
    Taken fee m.values (void_positions_payouts m fee yes_or_no).1.values
        (void_positions_payouts m fee yes_or_no).2.payouts_chunk
        (void_positions_payouts m fee yes_or_no).2.update_storage_positions_chunk ∧
      ((void_positions_payouts m fee yes_or_no).2.update_storage_positions_chunk ≠ [] →
        yes_or_no = true) := by
  obtain ⟨ps, us, hc, ht, hus⟩ := loopEntries_taken fee yes_or_no m.entries ⟨[], []⟩
  have hc : (void_positions_payouts m fee yes_or_no).2 = ⟨ps, us⟩ := hc
  rw [hc]
  exact ⟨ht, hus⟩

namespace Taken

variable {vps vps' : List VoidPosition} {ps : List Payout} {us : List (PositionId × List Byte)}

theorem payouts_launched (h : Taken fee vps vps' ps us) :
    Launched (vps.map VoidPosition.slot) (vps'.map VoidPosition.slot)
      (ps.map fun p => (p.id, p.quest)) := by
  induction h with
  | nil => exact .nil
  | pass vp _ ih => exact .pass _ ih
  | payout hf _ ih => exact .take hf ih
  | update hd hs hl _ ih => exact .pass _ ih

theorem payouts_eq (h : Taken fee vps vps' ps us) : ∀ p ∈ ps, p = _do_payout p.id fee p.quest := by
  induction h with
  | nil => simp
  | pass vp _ ih => exact ih
  | payout hf _ ih => exact List.forall_mem_cons.mpr ⟨rfl, ih⟩
  | update hd hs hl _ ih => exact ih

theorem updates_launched (h : Taken fee vps vps' ps us) :
    Launched (vps.filterMap VoidPosition.updateSlot) (vps'.filterMap VoidPosition.updateSlot) us := by
  induction h with
  | nil => exact .nil
  | pass vp _ ih =>
    rw [List.filterMap_cons, List.filterMap_cons]
    cases vp.updateSlot with
    | none => exact ih
    | some x => exact .pass x ih
  | @payout vps vps' ps us vp hf _ ih =>
    rw [List.filterMap_cons_none (VoidPosition.updateSlot_none hf.2),
      List.filterMap_cons_none (VoidPosition.updateSlot_none (show vp.lock_payout.payout_data = none
        from hf.2))]
    exact ih
  | @update vps vps' ps us vp hd hs hl _ ih =>
    obtain ⟨pd, hpd⟩ := Option.isSome_iff_exists.mp hd
    have hslot : vp.updateSlot =
        some ⟨vp.position_id, vp.log.stable_memory_serialize, false, none⟩ := by
      simp [VoidPosition.updateSlot, hpd, hs, hl]
    have hslot' : vp.lock_update.updateSlot =
        some ⟨vp.position_id, vp.log.stable_memory_serialize, true, none⟩ := by
      simp [VoidPosition.updateSlot, VoidPosition.lock_update, hpd, hs]
    rw [List.filterMap_cons_some hslot, List.filterMap_cons_some hslot']
    exact .take ⟨rfl, rfl⟩ ih

theorem map_eq {α : Type} (h : Taken fee vps vps' ps us) (f : VoidPosition → α)
    (hp : ∀ vp : VoidPosition, f vp.lock_payout = f vp)
    (hu : ∀ vp : VoidPosition, f vp.lock_update = f vp) : vps'.map f = vps.map f := by
  induction h with
  | nil => rfl
  | pass vp _ ih => rw [List.map_cons, List.map_cons, ih]
  | payout hf _ ih => rw [List.map_cons, List.map_cons, ih, hp]
  | update hd hs hl _ ih => rw [List.map_cons, List.map_cons, ih, hu]

theorem forall_mem {P : VoidPosition → Prop} (h : Taken fee vps vps' ps us)
    (hp : ∀ vp : VoidPosition, P vp → P vp.lock_payout)
    (hu : ∀ vp : VoidPosition, vp.payout_data.isSome → P vp → P vp.lock_update)
    (hall : ∀ vp ∈ vps, P vp) : ∀ vp ∈ vps', P vp := by
  induction h with
  | nil => exact hall
  | pass vp _ ih =>
    rw [List.forall_mem_cons] at hall ⊢
    exact ⟨hall.1, ih hall.2⟩
  | payout hf _ ih =>
    rw [List.forall_mem_cons] at hall ⊢
    exact ⟨hp _ hall.1, ih hall.2⟩
  | update hd hs hl _ ih =>
    rw [List.forall_mem_cons] at hall ⊢
    exact ⟨hu _ hd hall.1, ih hall.2⟩

end Taken

theorem VoidPending.lock_payout {vp : VoidPosition} (h : VoidPending vp) : VoidPending vp.lock_payout :=
  ⟨h.status, h.lock⟩

theorem VoidPending.lock_update {vp : VoidPosition} (hd : vp.payout_data.isSome) (h : VoidPending vp) :
    VoidPending vp.lock_update := by
  refine ⟨h.status, fun hn => ?_⟩
  rw [show vp.payout_data = none from hn] at hd
  cases hd

/-! ## The loop over the trade logs -/

variable {tl : TradeLogAndTemporaryData} {trade_logs : List TradeLogAndTemporaryData}

theorem take_trade_log_cases (fee : Nat) (kind : PositionKind) (tl : TradeLogAndTemporaryData)
    (chunk : List Payout) :
    take_trade_log kind fee tl chunk = (tl, chunk) ∨
      ((tl.slot kind).fresh ∧ take_trade_log kind fee tl chunk =
        (tl.set_payout kind true (tl.payout_data kind),
          chunk ++ [_do_payout tl.log.id fee (tl.payout_quest kind)])) := by
  unfold take_trade_log
  split_ifs with h
  · exact Or.inr ⟨⟨h.2.1, Option.isNone_iff_eq_none.mp h.1⟩, rfl⟩
  · exact Or.inl rfl

/-- The payouts of one kind, and what is said of the logs in that kind. -/
structure TakenLogs (fee : Nat) (kind : PositionKind) (trade_logs trade_logs' : List TradeLogAndTemporaryData)
    (ps : List Payout) : Prop where
  launched : Launched (trade_logs.map (TradeLogAndTemporaryData.slot kind))
    (trade_logs'.map (TradeLogAndTemporaryData.slot kind)) (ps.map fun p => (p.id, p.quest))
  payouts_eq : ∀ p ∈ ps, p = _do_payout p.id fee p.quest

theorem TakenLogs.cons {kind : PositionKind} {trade_logs' : List TradeLogAndTemporaryData}
    {ps : List Payout} (h : TakenLogs fee kind trade_logs trade_logs' ps)
    (tl tl' : TradeLogAndTemporaryData) (chunk chunk' : List Payout)
    (htl : (tl'.slot kind = tl.slot kind ∧ chunk' = chunk) ∨
      ((tl.slot kind).fresh ∧ tl'.slot kind = { tl.slot kind with lock := true } ∧
        chunk' = chunk ++ [_do_payout tl.log.id fee (tl.payout_quest kind)])) :
    ∃ ps', chunk' ++ ps = chunk ++ ps' ∧
      TakenLogs fee kind (tl :: trade_logs) (tl' :: trade_logs') ps' := by
  rcases htl with ⟨hslot, rfl⟩ | ⟨hf, hslot, rfl⟩
  · refine ⟨ps, rfl, ?_, h.payouts_eq⟩
    rw [List.map_cons, List.map_cons, hslot]
    exact .pass _ h.launched
  · refine ⟨_do_payout tl.log.id fee (tl.payout_quest kind) :: ps, by simp, ?_,
      List.forall_mem_cons.mpr ⟨rfl, h.payouts_eq⟩⟩
    rw [List.map_cons, List.map_cons, List.map_cons, hslot]
    exact .take hf h.launched

theorem trade_logs_payouts_taken (fees : PositionKind → Nat)
    (trade_logs : List TradeLogAndTemporaryData) (cycles_chunk token_chunk : List Payout) :
    ∃ cs ts, (trade_logs_payouts fees trade_logs cycles_chunk token_chunk).2 =
        (cycles_chunk ++ cs, token_chunk ++ ts) ∧
      TakenLogs (fees .Cycles) .Cycles trade_logs
        (trade_logs_payouts fees trade_logs cycles_chunk token_chunk).1 cs ∧
      TakenLogs (fees .Token) .Token trade_logs
        (trade_logs_payouts fees trade_logs cycles_chunk token_chunk).1 ts := by
  induction trade_logs generalizing cycles_chunk token_chunk with
  | nil => exact ⟨[], [], by simp [trade_logs_payouts], ⟨.nil, by simp⟩, ⟨.nil, by simp⟩⟩
  | cons tl trade_logs ih =>
    simp only [trade_logs_payouts]
    -- The cycles side is taken first, the token side of the same log after it.
    have hcycles := take_trade_log_cases (fees .Cycles) .Cycles tl cycles_chunk
    generalize take_trade_log .Cycles (fees .Cycles) tl cycles_chunk = c at hcycles ⊢
    have htoken := take_trade_log_cases (fees .Token) .Token c.1 token_chunk
    generalize take_trade_log .Token (fees .Token) c.1 token_chunk = t at htoken ⊢
    obtain ⟨cs, ts, hchunks, hcs, hts⟩ := ih c.2 t.2
    obtain ⟨cs', hcs', hcs⟩ := hcs.cons tl t.1 cycles_chunk c.2 (by
        rcases hcycles with rfl | ⟨hf, rfl⟩ <;> rcases htoken with rfl | ⟨-, rfl⟩
        · exact Or.inl ⟨rfl, rfl⟩
        · exact Or.inl ⟨rfl, rfl⟩
        · exact Or.inr ⟨hf, rfl, rfl⟩
        · exact Or.inr ⟨hf, rfl, rfl⟩)
    obtain ⟨ts', hts', hts⟩ := hts.cons tl t.1 token_chunk t.2 (by
        rcases hcycles with rfl | ⟨-, rfl⟩ <;> rcases htoken with rfl | ⟨hf, rfl⟩
        · exact Or.inl ⟨rfl, rfl⟩
        · exact Or.inr ⟨hf, rfl, rfl⟩
        · exact Or.inl ⟨rfl, rfl⟩
        · exact Or.inr ⟨hf, rfl, rfl⟩)
    exact ⟨cs', ts', by rw [hchunks, hcs', hts'], hcs, hts⟩

theorem trade_logs_payouts_map {α : Type} (f : TradeLogAndTemporaryData → α)
    (hf : ∀ (tl : TradeLogAndTemporaryData) kind lock data, f (tl.set_payout kind lock data) = f tl)
    (fees : PositionKind → Nat) (trade_logs : List TradeLogAndTemporaryData)
    (cycles_chunk token_chunk : List Payout) :
    (trade_logs_payouts fees trade_logs cycles_chunk token_chunk).1.map f = trade_logs.map f := by
  have hone : ∀ kind fee tl chunk, f (take_trade_log kind fee tl chunk).1 = f tl := by
    intro kind fee tl chunk
    rcases take_trade_log_cases fee kind tl chunk with h | ⟨-, h⟩
    · rw [h]
    · rw [h, hf]
  induction trade_logs generalizing cycles_chunk token_chunk with
  | nil => rfl
  | cons tl trade_logs ih => simp only [trade_logs_payouts, List.map_cons, hone, ih]

end Cts.Tc
