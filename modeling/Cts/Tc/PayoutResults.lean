import Cts.Tc.PayoutLoops

/-!
# What the results of a run do to the queues

The results of void positions come to the map one by one. Those of the trade logs are found by
binary search, which is as good as a pass over all of them.
-/

namespace Cts.Tc

open Lib Lib.Jobs

/-! ## Any loop over results -/

section

variable {DoOutput α : Type} {handle_output : VoidPosition → DoOutput → VoidPosition}
  {m : OrdMap PositionId VoidPosition}

theorem handle_vps_map (f : VoidPosition → α) (hf : ∀ vp r, f (handle_output vp r) = f vp)
    (rs : List (PositionId × DoOutput)) (m : OrdMap PositionId VoidPosition) :
    (((_handle_vps handle_output rs m).1.values.map f : List α) : Multiset α) +
      ((_handle_vps handle_output rs m).2.map f : List α) = (m.values.map f : List α) := by
  induction rs generalizing m with
  | nil => simp [_handle_vps]
  | cons r rs ih =>
    obtain ⟨vp_id, do_output⟩ := r
    rw [_handle_vps]
    cases hg : m.get vp_id with
    | none => exact ih m
    | some vp =>
      obtain ⟨rest, hm, hins, hrem⟩ := m.values_split vp_id vp (handle_output vp do_output) hg
      have hm : ((m.values.map f : List α) : Multiset α) = f vp ::ₘ rest.map f := by
        rw [← Multiset.map_coe, hm, Multiset.map_cons]
      simp only
      split_ifs
      · have ih := ih (m.remove vp_id)
        rw [← Multiset.map_coe f (m.remove vp_id).values, hrem] at ih
        simp only [List.map_cons, hf, ← Multiset.cons_coe, Multiset.add_cons, ih, hm]
      · have ih := ih (m.insert vp_id (handle_output vp do_output))
        rw [← Multiset.map_coe f (m.insert vp_id _).values, hins, Multiset.map_cons, hf] at ih
        rw [ih, hm]

theorem handle_vps_forall {P : VoidPosition → Prop} (hP : ∀ vp r, P vp → P (handle_output vp r))
    (rs : List (PositionId × DoOutput)) (hm : ∀ vp ∈ m.values, P vp) :
    (∀ vp ∈ (_handle_vps handle_output rs m).1.values, P vp) ∧
      ∀ vp ∈ (_handle_vps handle_output rs m).2, P vp ∧ vp.can_remove = true := by
  induction rs generalizing m with
  | nil => exact ⟨hm, by simp [_handle_vps]⟩
  | cons r rs ih =>
    obtain ⟨vp_id, do_output⟩ := r
    rw [_handle_vps]
    cases hg : m.get vp_id with
    | none => exact ih hm
    | some vp =>
      have hvp := hP vp do_output (hm vp ((m.mem_values_iff vp).mpr ⟨vp_id, hg⟩))
      simp only
      split_ifs with hcan
      · have ih := ih (m := m.remove vp_id) (OrdMap.forall_values_remove hm)
        exact ⟨ih.1, List.forall_mem_cons.mpr ⟨⟨hvp, hcan⟩, ih.2⟩⟩
      · exact ih (OrdMap.forall_values_insert hm hvp)

/-- The map stays keyed by the ids of its positions. -/
def Keyed (m : OrdMap PositionId VoidPosition) : Prop :=
  ∀ k vp, m.get k = some vp → vp.position_id = k

theorem Keyed.remove (h : Keyed m) (k : PositionId) : Keyed (m.remove k) :=
  OrdMap.forall_remove h

theorem Keyed.insert (h : Keyed m) {k : PositionId} (vp : VoidPosition) (hk : vp.position_id = k) :
    Keyed (m.insert k vp) :=
  OrdMap.forall_insert h hk

theorem handle_vps_keyed (hid : ∀ vp r, (handle_output vp r).position_id = vp.position_id)
    (rs : List (PositionId × DoOutput)) (h : Keyed m) : Keyed (_handle_vps handle_output rs m).1 := by
  induction rs generalizing m with
  | nil => exact h
  | cons r rs ih =>
    obtain ⟨vp_id, do_output⟩ := r
    rw [_handle_vps]
    cases hg : m.get vp_id with
    | none => exact ih h
    | some vp =>
      simp only
      split_ifs
      · exact ih (h.remove vp_id)
      · exact ih (h.insert _ ((hid vp do_output).trans (h vp_id vp hg)))

theorem Keyed.get_of_mem (h : Keyed m) {vp : VoidPosition} (hvp : vp ∈ m.values) :
    m.get vp.position_id = some vp := by
  obtain ⟨k, hk⟩ := (m.mem_values_iff vp).mp hvp
  rw [h k vp hk]
  exact hk

theorem Keyed.ids_eq (h : Keyed m) : m.values.map VoidPosition.position_id = m.keys := by
  unfold OrdMap.values OrdMap.keys
  rw [List.map_map]
  exact List.map_congr_left fun e he => h e.1 e.2 ((m.mem_iff_get e.1 e.2).mp he)

end

/-! ## The two handlers -/

@[simp]
theorem handle_vp_payout_slot (vp : VoidPosition) (r : Option PayoutData) :
    (handle_vp_payout vp r).slot = { vp.slot with lock := false, data := r } := by
  cases r <;> rfl

@[simp]
theorem handle_vp_payout_id (vp : VoidPosition) (r : Option PayoutData) :
    (handle_vp_payout vp r).position_id = vp.position_id := by
  cases r <;> rfl

@[simp]
theorem handle_vp_payout_data (vp : VoidPosition) (r : Option PayoutData) :
    (handle_vp_payout vp r).payout_data = r := by
  cases r <;> rfl

theorem handle_vp_payout_pending {vp : VoidPosition} (h : VoidPending vp) (hd : vp.payout_data = none)
    (r : Option PayoutData) : VoidPending (handle_vp_payout vp r) := by
  cases r with
  | none => exact ⟨h.status, fun _ => h.lock hd⟩
  | some pd => exact ⟨h.status, fun _ => h.lock hd⟩

variable {m : OrdMap PositionId VoidPosition} {F : Multiset PayoutFlight}
  {H : Multiset (Nat × Icrc1TransferQuest)} {L : Multiset PayoutSlot}

def voidSlots (m : OrdMap PositionId VoidPosition) : Multiset PayoutSlot :=
  (m.values.map VoidPosition.slot : List PayoutSlot)

def voidUpdateSlots (m : OrdMap PositionId VoidPosition) : Multiset UpdateSlot :=
  (m.values.filterMap VoidPosition.updateSlot : List UpdateSlot)

theorem mem_voidSlots {x : PayoutSlot} : x ∈ voidSlots m ↔ ∃ vp ∈ m.values, vp.slot = x := by
  simp [voidSlots]

theorem voidSlots_split {k : PositionId} {vp : VoidPosition} (vp' : VoidPosition)
    (h : m.get k = some vp) :
    ∃ rest, voidSlots m = vp.slot ::ₘ rest ∧ voidSlots (m.insert k vp') = vp'.slot ::ₘ rest ∧
      voidSlots (m.remove k) = rest := by
  obtain ⟨rest, hm, hins, hrem⟩ := m.values_split k vp vp' h
  refine ⟨rest.map VoidPosition.slot, ?_, ?_, ?_⟩
  · rw [voidSlots, ← Multiset.map_coe, hm, Multiset.map_cons]
  · rw [voidSlots, ← Multiset.map_coe, hins, Multiset.map_cons]
  · rw [voidSlots, ← Multiset.map_coe, hrem]

theorem voidUpdateSlots_split {k : PositionId} {vp : VoidPosition} (vp' : VoidPosition)
    (h : m.get k = some vp) :
    ∃ rest, voidUpdateSlots m = Multiset.filterMap VoidPosition.updateSlot (vp ::ₘ rest) ∧
      voidUpdateSlots (m.insert k vp') = Multiset.filterMap VoidPosition.updateSlot (vp' ::ₘ rest) ∧
      voidUpdateSlots (m.remove k) = Multiset.filterMap VoidPosition.updateSlot rest := by
  obtain ⟨rest, hm, hins, hrem⟩ := m.values_split k vp vp' h
  refine ⟨rest, ?_, ?_, ?_⟩
  · rw [voidUpdateSlots, ← Multiset.filterMap_coe, hm]
  · rw [voidUpdateSlots, ← Multiset.filterMap_coe, hins]
  · rw [voidUpdateSlots, ← Multiset.filterMap_coe, hrem]

/-- The results of the payouts of void positions. None is removed yet, and the records of those that
were paid become jobs. -/
structure PayoutsHandled (m m' : OrdMap PositionId VoidPosition) (flights : List PayoutFlight)
    (F : Multiset PayoutFlight) (H : Multiset (Nat × Icrc1TransferQuest)) (L : Multiset PayoutSlot) :
    Prop where
  works : Runs (Work payoutEffect) ⟨voidSlots m, (flights : Multiset PayoutFlight) + F, H, L⟩
    ⟨voidSlots m', F, H, L⟩
  pending : ∀ vp ∈ m'.values, VoidPending vp
  arrived : ∃ xs, voidUpdateSlots m' = xs + voidUpdateSlots m ∧ ∀ x ∈ xs, x.fresh

theorem Payout.result_effect {p : Payout} (h : p.isDone = true) :
    p.flight.effect = p.result.bind (payoutEffect p.flight.job) := by
  unfold Payout.isDone at h
  unfold Payout.flight Payout.effect Payout.result
  split at h
  · rename_i r hs
    simp only [hs]
  · cases h

theorem handle_payouts_handled (ps : List Payout) (hdone : ∀ p ∈ ps, p.isDone = true) (hm : Keyed m)
    (hpending : ∀ vp ∈ m.values, VoidPending vp)
    (hk : Kept payoutEffect
      (⟨voidSlots m, (ps.map Payout.flight : List PayoutFlight) + F, H, L⟩ : PayoutPool)) :
    (_handle_vps handle_vp_payout (ps.map fun p => (p.id, p.result)) m).2 = [] ∧
      PayoutsHandled m (_handle_vps handle_vp_payout (ps.map fun p => (p.id, p.result)) m).1
        (ps.map Payout.flight) F H L := by
  induction ps generalizing m with
  | nil => exact ⟨rfl, .start (by simp [_handle_vps]), hpending, 0, by simp [_handle_vps]⟩
  | cons p ps ih =>
    rw [List.map_cons, coe_cons_add] at hk
    obtain ⟨x, hx, hid, -, -, hdata⟩ := hk.away p.flight (Multiset.mem_cons_self _ _)
    obtain ⟨vp, hvp, rfl⟩ := mem_voidSlots.mp hx
    have hget : m.get p.id = some vp := by
      have hid : vp.position_id = p.id := hid
      rw [← hid]
      exact hm.get_of_mem hvp
    have hdata : vp.payout_data = none := hdata
    have heffect := Payout.result_effect (hdone p List.mem_cons_self)
    obtain ⟨rest, hslots, hins, -⟩ := voidSlots_split (handle_vp_payout vp p.result) hget
    obtain ⟨urest, huslots, huins, -⟩ := voidUpdateSlots_split (handle_vp_payout vp p.result) hget
    have hstep : Work payoutEffect
        (⟨voidSlots m, p.flight ::ₘ ((ps.map Payout.flight : List PayoutFlight) + F), H, L⟩ : PayoutPool)
        ⟨voidSlots (m.insert p.id (handle_vp_payout vp p.result)),
          (ps.map Payout.flight : List PayoutFlight) + F, H, L⟩ := by
      rw [hins, handle_vp_payout_slot]
      exact .settle rfl hslots hid p.result heffect
    have hcan : (handle_vp_payout vp p.result).can_remove = false := by
      have hstatus := (hpending vp hvp).status
      cases hr : p.result with
      | none => rfl
      | some pd => simp [handle_vp_payout, VoidPosition.can_remove, hstatus]
    have hpending' : ∀ v ∈ (m.insert p.id (handle_vp_payout vp p.result)).values, VoidPending v :=
      OrdMap.forall_values_insert hpending (handle_vp_payout_pending (hpending vp hvp) hdata _)
    have hkeyed := hm.insert (k := p.id) (handle_vp_payout vp p.result)
      ((handle_vp_payout_id vp p.result).trans hid)
    obtain ⟨hremoved, hworks, hpend, xs, hxs, hfresh⟩ := ih
      (fun q hq => hdone q (List.mem_cons_of_mem _ hq)) hkeyed hpending' (kept_work hk hstep)
    rw [List.map_cons, _handle_vps, hget]
    simp only [hcan, Bool.false_eq_true, if_false]
    refine ⟨hremoved, ?_, hpend, ?_⟩
    · rw [List.map_cons, coe_cons_add]
      exact Reachable.trans (.next (.start rfl) hstep) hworks
    · -- The position had no job for its record before.
      rw [Multiset.filterMap_cons_none _ _ (VoidPosition.updateSlot_none hdata)] at huslots
      cases hr : p.result with
      | none =>
        have hnone := VoidPosition.updateSlot_none
          ((handle_vp_payout_data vp p.result).trans hr)
        rw [Multiset.filterMap_cons_none _ _ hnone, ← huslots] at huins
        rw [hr] at huins hxs
        exact ⟨xs, by rw [hxs, huins], hfresh⟩
      | some pd =>
        have hlock := (hpending vp hvp).lock hdata
        have hstatus := (hpending vp hvp).status
        have hslot : (handle_vp_payout vp p.result).updateSlot =
            some ⟨vp.position_id, (handle_vp_payout vp (some pd)).log.stable_memory_serialize, false,
              none⟩ := by
          rw [hr]
          simp [VoidPosition.updateSlot, handle_vp_payout, hlock, hstatus]
        rw [Multiset.filterMap_cons_some _ _ _ hslot, ← huslots] at huins
        rw [hr] at huins hxs
        refine ⟨_ ::ₘ xs, by rw [hxs, huins, Multiset.cons_add, Multiset.add_cons], fun x hx => ?_⟩
        rcases Multiset.mem_cons.mp hx with rfl | hx
        · exact ⟨rfl, rfl⟩
        · exact hfresh x hx

/-! ## The results of the updates -/

@[simp]
theorem handle_vp_update_slot (vp : VoidPosition) (r : Except CallError Unit) :
    (handle_vp_update vp r).slot = vp.slot := rfl

theorem handle_vp_update_update_slot {vp : VoidPosition} {x : UpdateSlot} (h : vp.updateSlot = some x)
    (r : Except CallError Unit) : (handle_vp_update vp r).updateSlot =
      some { x with lock := false, data := if r.toBool then some () else none } := by
  obtain ⟨pd, hpd, rfl⟩ := Option.map_eq_some_iff.mp h
  simp [VoidPosition.updateSlot, handle_vp_update, hpd]

/-- The results of the updates. A position whose record was overwritten leaves both queues. -/
structure UpdatesHandled (m m' : OrdMap PositionId VoidPosition) (removed : List VoidPosition)
    (flights : List UpdateFlight) (F : Multiset UpdateFlight) (H : Multiset (PositionId × List Byte))
    (L : Multiset UpdateSlot) : Prop where
  works : Runs (Work updateEffect) ⟨voidUpdateSlots m, (flights : Multiset UpdateFlight) + F, H, L⟩
    ⟨voidUpdateSlots m', F, H,
      (removed.filterMap VoidPosition.updateSlot : List UpdateSlot) + L⟩
  leaves : ∀ (F : Multiset PayoutFlight) (H : Multiset (Nat × Icrc1TransferQuest))
    (L : Multiset PayoutSlot), Runs (Work payoutEffect) ⟨voidSlots m, F, H, L⟩
      ⟨voidSlots m', F, H, (removed.map VoidPosition.slot : List PayoutSlot) + L⟩
  pending : ∀ vp ∈ m'.values, VoidPending vp

theorem Update.result_effect {u : Update} (h : u.isDone = true) :
    u.flight.effect =
      (if u.result.toBool then some () else none).bind (updateEffect u.flight.job) := by
  unfold Update.isDone at h
  unfold Update.flight Update.effect Update.result
  split at h
  · rename_i r hs
    simp only [hs]
    match r with
    | .ok () | .error _ => rfl
  · cases h

theorem void_of_update_flight (hm : Keyed m) {s : UpdatePool} (hk : Kept updateEffect s)
    (hslots : s.slots = voidUpdateSlots m) {f : UpdateFlight} (hf : f ∈ s.flights) :
    ∃ vp x, m.get f.id = some vp ∧ vp.position_id = f.id ∧ vp.updateSlot = some x ∧ x.id = f.id ∧
      vp.payout_data.isSome := by
  obtain ⟨x, hx, hid, -⟩ := hk.away f hf
  rw [hslots] at hx
  obtain ⟨vp, hvp, hslot⟩ : ∃ vp ∈ m.values, vp.updateSlot = some x := by
    simpa [voidUpdateSlots] using hx
  have hvid : vp.position_id = f.id := (VoidPosition.updateSlot_id hslot).symm.trans hid
  refine ⟨vp, x, ?_, hvid, hslot, hid, ?_⟩
  · rw [← hvid]
    exact hm.get_of_mem hvp
  · obtain ⟨pd, hpd, -⟩ := Option.map_eq_some_iff.mp hslot
    rw [hpd]
    rfl

theorem handle_updates_handled (us : List Update) (hdone : ∀ u ∈ us, u.isDone = true) (hm : Keyed m)
    (hpending : ∀ vp ∈ m.values, VoidPending vp) {F : Multiset UpdateFlight}
    {H : Multiset (PositionId × List Byte)} {L : Multiset UpdateSlot}
    (hk : Kept updateEffect (⟨voidUpdateSlots m,
      (us.map Update.flight : List UpdateFlight) + F, H, L⟩ : UpdatePool)) :
    UpdatesHandled m
      (_handle_vps handle_vp_update (us.map fun u => (u.position_id, u.result)) m).1
      (_handle_vps handle_vp_update (us.map fun u => (u.position_id, u.result)) m).2
      (us.map Update.flight) F H L := by
  induction us generalizing m L with
  | nil =>
    refine ⟨.start ?_, fun F H L => .start ?_, hpending⟩ <;> simp [_handle_vps]
  | cons u us ih =>
    rw [List.map_cons, coe_cons_add] at hk
    obtain ⟨vp, x, hget, hvid, hslot, hid, hpaid⟩ :=
      void_of_update_flight hm hk rfl (Multiset.mem_cons_self u.flight _)
    have hget : m.get u.position_id = some vp := hget
    obtain ⟨rest, hslots, hins, hrem⟩ := voidSlots_split (handle_vp_update vp u.result) hget
    obtain ⟨urest, huslots, huins, hurem⟩ :=
      voidUpdateSlots_split (handle_vp_update vp u.result) hget
    have hslot' := handle_vp_update_update_slot hslot u.result
    rw [Multiset.filterMap_cons_some _ _ _ hslot] at huslots
    rw [Multiset.filterMap_cons_some _ _ _ hslot'] at huins
    have hstep : Work updateEffect
        (⟨voidUpdateSlots m, u.flight ::ₘ ((us.map Update.flight : List UpdateFlight) + F), H, L⟩ :
          UpdatePool)
        ⟨voidUpdateSlots (m.insert u.position_id (handle_vp_update vp u.result)),
          (us.map Update.flight : List UpdateFlight) + F, H, L⟩ := by
      rw [huins]
      exact .settle rfl huslots hid _ (u.result_effect (hdone u List.mem_cons_self))
    have hkept := kept_work hk hstep
    have hrest := fun q hq => hdone q (List.mem_cons_of_mem u hq)
    rw [List.map_cons, List.map_cons, _handle_vps, hget]
    simp only
    by_cases hok : u.result.toBool = true
    · -- Paid and written: the position is removed.
      have hcan : (handle_vp_update vp u.result).can_remove = true := by
        simpa [VoidPosition.can_remove, handle_vp_update, hok] using hpaid
      rw [if_pos hcan]
      have hleave : Work updateEffect
          (⟨voidUpdateSlots (m.insert u.position_id (handle_vp_update vp u.result)),
            (us.map Update.flight : List UpdateFlight) + F, H, L⟩ : UpdatePool)
          ⟨voidUpdateSlots (m.remove u.position_id),
            (us.map Update.flight : List UpdateFlight) + F, H,
            { x with lock := false, data := if u.result.toBool then some () else none } ::ₘ L⟩ := by
        rw [huins, hurem]
        refine .leave rfl ?_
        rw [hok]
        rfl
      obtain ⟨hworks, hleaves, hpend⟩ := ih hrest (hm.remove _)
        (OrdMap.forall_values_remove hpending) (kept_work hkept hleave)
      refine ⟨?_, fun F H L => ?_, hpend⟩
      · rw [Multiset.add_cons] at hworks
        rw [List.filterMap_cons_some hslot', coe_cons_add, coe_cons_add]
        exact Reachable.trans (.next (.next (.start rfl) hstep) hleave) hworks
      · have hout : Work payoutEffect (⟨voidSlots m, F, H, L⟩ : PayoutPool)
            ⟨voidSlots (m.remove u.position_id), F, H, vp.slot ::ₘ L⟩ := by
          rw [hrem]
          exact .leave hslots hpaid
        have hleaves := hleaves F H (vp.slot ::ₘ L)
        rw [Multiset.add_cons] at hleaves
        rw [List.map_cons, coe_cons_add, handle_vp_update_slot]
        exact Reachable.trans (.next (.start rfl) hout) hleaves
    · have hcan : ¬ (handle_vp_update vp u.result).can_remove = true := by
        simp [VoidPosition.can_remove, handle_vp_update, hok]
      rw [if_neg hcan]
      have hpending' : ∀ v ∈ (m.insert u.position_id (handle_vp_update vp u.result)).values,
          VoidPending v :=
        OrdMap.forall_values_insert hpending ⟨by simp [handle_vp_update, hok], fun _ => rfl⟩
      obtain ⟨hworks, hleaves, hpend⟩ := ih hrest
        (hm.insert (handle_vp_update vp u.result) hvid) hpending' hkept
      refine ⟨?_, fun F H L => ?_, hpend⟩
      · rw [coe_cons_add]
        exact Reachable.trans (.next (.start rfl) hstep) hworks
      · have hsame : voidSlots (m.insert u.position_id (handle_vp_update vp u.result)) =
            voidSlots m := by
          rw [hins, hslots, handle_vp_update_slot]
        rw [← hsame]
        exact hleaves F H L

/-! ## The results of the trade logs -/

/-- The result of an id, the last one when there are many. -/
def resultOf (rs : List (Nat × Option PayoutData)) (id : Nat) (found : Option (Option PayoutData)) :
    Option (Option PayoutData) :=
  rs.foldl (fun found r => if r.1 = id then some r.2 else found) found

abbrev TlOutputs := Option (Option PayoutData) × Option (Option PayoutData)

theorem cycles_results_get (rs : List (PurchaseId × Option PayoutData)) (m : TlPayouts) (id : Nat) :
    ((rs.foldl (fun (m : TlPayouts) e =>
      m.insert e.1 (some e.2, ((m.get e.1).getD (none, none)).2)) m).get id).getD (none, none) =
      (resultOf rs id ((m.get id).getD (none, none)).1, ((m.get id).getD (none, none)).2) := by
  induction rs generalizing m with
  | nil => rfl
  | cons r rs ih =>
    rw [List.foldl_cons, ih, OrdMap.get_insert, resultOf, resultOf, List.foldl_cons]
    by_cases h : id = r.1
    · subst h
      simp only [if_true, Option.getD_some]
    · simp only [if_neg h, if_neg (Ne.symm h)]

theorem token_results_get (rs : List (PurchaseId × Option PayoutData)) (m : TlPayouts) (id : Nat) :
    ((rs.foldl (fun (m : TlPayouts) e =>
      m.insert e.1 (((m.get e.1).getD (none, none)).1, some e.2)) m).get id).getD (none, none) =
      (((m.get id).getD (none, none)).1, resultOf rs id ((m.get id).getD (none, none)).2) := by
  induction rs generalizing m with
  | nil => rfl
  | cons r rs ih =>
    rw [List.foldl_cons, ih, OrdMap.get_insert, resultOf, resultOf, List.foldl_cons]
    by_cases h : id = r.1
    · subst h
      simp only [if_true, Option.getD_some]
    · simp only [if_neg h, if_neg (Ne.symm h)]

theorem tl_payouts_get (cycles_results token_results : List (PurchaseId × Option PayoutData))
    (id : Nat) : ((tl_payouts cycles_results token_results).get id).getD (none, none) =
      (resultOf cycles_results id none, resultOf token_results id none) := by
  unfold tl_payouts
  simp only [token_results_get, cycles_results_get, OrdMap.get_empty, Option.getD_none]

def handle_tl_outputs (o : TlOutputs) (tl : TradeLogAndTemporaryData) : TradeLogAndTemporaryData :=
  handle_tl_payout .Token o.2 (handle_tl_payout .Cycles o.1 tl)

theorem handle_tl_payout_eq {α : Type} (f : TradeLogAndTemporaryData → α)
    (hf : ∀ (tl : TradeLogAndTemporaryData) kind lock data, f (tl.set_payout kind lock data) = f tl)
    (kind : PositionKind) (o : Option (Option PayoutData)) (tl : TradeLogAndTemporaryData) :
    f (handle_tl_payout kind o tl) = f tl := by
  cases o with
  | none => rfl
  | some data => exact hf tl kind false data

theorem set_payout_id (tl : TradeLogAndTemporaryData) (kind : PositionKind) (lock : Bool)
    (data : Option PayoutData) : (tl.set_payout kind lock data).log.id = tl.log.id := by
  cases kind <;> rfl

theorem handle_tl_outputs_id (o : TlOutputs) (tl : TradeLogAndTemporaryData) :
    (handle_tl_outputs o tl).log.id = tl.log.id :=
  (handle_tl_payout_eq (fun tl => tl.log.id) set_payout_id _ _ _).trans
    (handle_tl_payout_eq (fun tl => tl.log.id) set_payout_id _ _ _)

abbrev tl_id (tl : TradeLogAndTemporaryData) : Nat := tl.log.id

theorem handle_one_eq {trade_logs : List TradeLogAndTemporaryData} (hs : SortedBy tl_id trade_logs)
    (id : Nat) (g : TradeLogAndTemporaryData → TradeLogAndTemporaryData) :
    (match binarySearchByKey trade_logs id tl_id with
      | some i => trade_logs.modify i g
      | none => trade_logs) = trade_logs.map fun tl => if tl.log.id = id then g tl else tl := by
  refine List.ext_getElem? fun j => ?_
  cases hb : binarySearchByKey trade_logs id tl_id with
  | none =>
    simp only [List.getElem?_map]
    cases hj : trade_logs[j]? with
    | none => rfl
    | some tl =>
      rw [Option.map_some, if_neg]
      rintro rfl
      rw [binarySearchByKey_eq hs hj] at hb
      cases hb
  | some i =>
    obtain ⟨a, ha, hid⟩ := binarySearchByKey_some hb
    simp only [List.getElem?_modify, List.getElem?_map]
    cases hj : trade_logs[j]? with
    | none => rfl
    | some tl =>
      by_cases hij : i = j
      · obtain rfl := hij
        obtain rfl := Option.some.inj (ha.symm.trans hj)
        simp [hid]
      · have hne : tl.log.id ≠ id := by
          intro h
          have hsame := binarySearchByKey_eq hs hj
          rw [show tl_id tl = id from h, hb] at hsame
          exact hij (Option.some.inj hsame)
        simp [hij, hne]

theorem sorted_of_ids {trade_logs trade_logs' : List TradeLogAndTemporaryData}
    (h : trade_logs'.map tl_id = trade_logs.map tl_id) (hs : SortedBy tl_id trade_logs) :
    SortedBy tl_id trade_logs' := by
  unfold SortedBy
  rw [h]
  exact hs

theorem handle_entries_eq (es : List (PurchaseId × TlOutputs))
    (hnodup : (es.map Prod.fst).Nodup) {trade_logs : List TradeLogAndTemporaryData}
    (hs : SortedBy tl_id trade_logs) :
    es.foldl (fun trade_logs e =>
      match binarySearchByKey trade_logs e.1 (fun tl => tl.log.id) with
      | some i => trade_logs.modify i fun tl =>
          handle_tl_payout .Token e.2.2 (handle_tl_payout .Cycles e.2.1 tl)
      | none => trade_logs) trade_logs =
    trade_logs.map fun tl =>
      handle_tl_outputs ((OrdMap.lookup tl.log.id es).getD (none, none)) tl := by
  induction es generalizing trade_logs with
  | nil => simp [OrdMap.lookup, handle_tl_outputs, handle_tl_payout]
  | cons e es ih =>
    rw [List.map_cons, List.nodup_cons] at hnodup
    have hone := handle_one_eq hs e.1 (handle_tl_outputs e.2)
    have hids : (trade_logs.map fun tl => if tl.log.id = e.1 then handle_tl_outputs e.2 tl else tl).map
        tl_id = trade_logs.map tl_id := by
      rw [List.map_map]
      refine List.map_congr_left fun tl _ => ?_
      simp only [Function.comp_apply]
      split_ifs
      · exact handle_tl_outputs_id _ _
      · rfl
    rw [List.foldl_cons]
    refine (congrArg (List.foldl _ · es) hone).trans ((ih hnodup.2 (sorted_of_ids hids hs)).trans ?_)
    rw [List.map_map]
    refine List.map_congr_left fun tl _ => ?_
    simp only [Function.comp_apply, OrdMap.lookup]
    by_cases h : tl.log.id = e.1
    · -- The id is not met again.
      have hnone : OrdMap.lookup e.1 es = none :=
        (OrdMap.lookup_eq_none e.1 es).mpr fun e' he' heq =>
          hnodup.1 (heq ▸ List.mem_map_of_mem he')
      rw [if_pos h, handle_tl_outputs_id, h, hnone, if_pos rfl]
      rfl
    · rw [if_neg h, if_neg (Ne.symm h)]

theorem handle_tls_payouts_eq {trade_logs : List TradeLogAndTemporaryData}
    (hs : SortedBy tl_id trade_logs) (cycles_results token_results : List (PurchaseId × Option PayoutData)) :
    handle_tls_payouts trade_logs (tl_payouts cycles_results token_results) =
      trade_logs.map fun tl => handle_tl_outputs
        (resultOf cycles_results tl.log.id none, resultOf token_results tl.log.id none) tl := by
  refine (handle_entries_eq _ (OrdMap.nodup_keys _) hs).trans ?_
  refine List.map_congr_left fun tl _ => ?_
  rw [← tl_payouts_get]
  rfl

theorem handle_tl_outputs_slot (o : TlOutputs) (tl : TradeLogAndTemporaryData) (kind : PositionKind) :
    (handle_tl_outputs o tl).slot kind =
      match (match kind with | .Cycles => o.1 | .Token => o.2) with
      | some data => { tl.slot kind with lock := false, data := data }
      | none => tl.slot kind := by
  obtain ⟨c, t⟩ := o
  cases kind <;> cases c <;> cases t <;> rfl

theorem foldl_applyResult (rs : List (Nat × Option PayoutData)) (x : PayoutSlot)
    (found : Option (Option PayoutData)) :
    rs.foldl applyResult (match found with
      | some data => { x with lock := false, data := data }
      | none => x) =
      match resultOf rs x.id found with
      | some data => { x with lock := false, data := data }
      | none => x := by
  induction rs generalizing found with
  | nil => rfl
  | cons r rs ih =>
    have hstep : applyResult (match found with
        | some data => { x with lock := false, data := data }
        | none => x) r = match (if r.1 = x.id then some r.2 else found) with
          | some data => { x with lock := false, data := data }
          | none => x := by
      unfold applyResult
      cases found <;> split_ifs <;> rfl
    rw [List.foldl_cons, hstep, ih]
    rfl

theorem handle_tls_payouts_slots {trade_logs : List TradeLogAndTemporaryData}
    (hs : SortedBy tl_id trade_logs) (results : PositionKind → List (PurchaseId × Option PayoutData))
    (kind : PositionKind) :
    (handle_tls_payouts trade_logs (tl_payouts (results .Cycles) (results .Token))).map
        (TradeLogAndTemporaryData.slot kind) =
      (trade_logs.map (TradeLogAndTemporaryData.slot kind)).map
        fun x => (results kind).foldl applyResult x := by
  rw [handle_tls_payouts_eq hs, List.map_map, List.map_map]
  refine List.map_congr_left fun tl _ => ?_
  have hfold := foldl_applyResult (results kind) (tl.slot kind) none
  simp only [Function.comp_apply, handle_tl_outputs_slot, hfold]
  cases kind <;> rfl

theorem handle_tls_payouts_map {α : Type} (f : TradeLogAndTemporaryData → α)
    (hf : ∀ (tl : TradeLogAndTemporaryData) kind lock data, f (tl.set_payout kind lock data) = f tl)
    {trade_logs : List TradeLogAndTemporaryData} (hs : SortedBy tl_id trade_logs)
    (cycles_results token_results : List (PurchaseId × Option PayoutData)) :
    (handle_tls_payouts trade_logs (tl_payouts cycles_results token_results)).map f =
      trade_logs.map f := by
  rw [handle_tls_payouts_eq hs, List.map_map]
  refine List.map_congr_left fun tl _ => ?_
  exact (handle_tl_payout_eq f hf _ _ _).trans (handle_tl_payout_eq f hf _ _ _)

end Cts.Tc
