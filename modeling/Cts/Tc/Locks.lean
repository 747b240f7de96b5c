import Cts.Tc.Started
import Cts.Tc.System

/-!
# The locks of the callers

A caller is locked on one side while a trade or a balance transfer of that side is under way. So a
caller has one call of a side at a time, and there are no more calls than locks.
-/

namespace Cts.Tc

open Lib

/-- The callers of the calls of one side. -/
def callers (calls : List UserCall) (kind : PositionKind) : Multiset Principal :=
  ((calls.filter fun c => c.quest.kind = kind).map UserCall.caller : List Principal)

def UserQuest.trades (kind : PositionKind) : UserQuest → Bool
  | .trade q => q.kind = kind
  | .transfer_balance _ _ => false

/-- The trades of one side that await their transfer. -/
def tradesInFlight (calls : List UserCall) (kind : PositionKind) : Nat :=
  calls.countP fun c => c.quest.trades kind

/-- What a step does to the calls and to the locks. -/
inductive CallsMove (s s' : TcState) : Prop
  | begins (c : UserCall) (hcalls : s'.calls = c :: s.calls)
      (hfree : c.caller ∉ s.cm_data.mid_call_balance_locks c.quest.kind)
      (hroom : (s.cm_data.mid_call_balance_locks c.quest.kind).card < MAX_MID_CALL_USER_BALANCE_LOCKS)
      (hlocks : s'.cm_data.mid_call_balance_locks =
        (s.cm_data.lock_balance c.quest.kind c.caller).mid_call_balance_locks)
  | replied {pre post : List UserCall} {c : UserCall} (r : Option LedgerTransferReturnType)
      (hcalls : s.calls = pre ++ c :: post) (hcalls' : s'.calls = pre ++ { c with reply := r } :: post)
      (hlocks : s'.cm_data.mid_call_balance_locks = s.cm_data.mid_call_balance_locks)
  | ends {pre post : List UserCall} {c : UserCall} (hcalls : s.calls = pre ++ c :: post)
      (hcalls' : s'.calls = pre ++ post)
      (hlocks : s'.cm_data.mid_call_balance_locks =
        (s.cm_data.unlock_balance c.quest.kind c.caller).mid_call_balance_locks)
  | stays (hcalls : s'.calls = s.calls)
      (hlocks : s'.cm_data.mid_call_balance_locks = s.cm_data.mid_call_balance_locks)

variable {cfg : TcConfig} {s s' : TcState} {kind : PositionKind}

theorem locks_of_same {cm_data cm_data' : CMData} {vcs vts : OrdMap PositionId VoidPosition}
    {tls : List TradeLogAndTemporaryData} (h : cm_data' = { cm_data with
      void_cycles_positions := vcs
      void_token_positions := vts
      trade_logs := tls }) : cm_data'.mid_call_balance_locks = cm_data.mid_call_balance_locks := by
  rw [h]
  funext kind
  cases kind <;> rfl

theorem calls_move (hstep : TcStep cfg s s') : CallsMove s s' := by
  cases hstep with
  | @trade caller q cm_data h =>
    obtain ⟨rfl, hok⟩ := _trade_spec h
    exact .begins ⟨caller, .trade q, none⟩ rfl hok.not_locked hok.locks_lt rfl
  | @transfer_balance caller kind q cm_data h =>
    obtain ⟨rfl, hfree, hroom⟩ := _transfer_balance_spec h
    exact .begins ⟨caller, .transfer_balance kind q, none⟩ rfl hfree hroom rfl
  | deposit_executed block hc hr hq h => exact .replied _ hc rfl rfl
  | balance_executed block hc hr hq h => exact .replied _ hc rfl rfl
  | call_refused r hc hr hn => exact .replied _ hc rfl rfl
  | trade_failed hc hr hq he =>
    refine .ends hc rfl ?_
    rw [hq]
    funext k
    cases k <;> rfl
  | trade_committed now instruction_counter hc hr hq he =>
    refine .ends hc rfl ?_
    rw [hq]
    funext k
    cases k <;> rfl
  | balance_replied hc hr hq =>
    refine .ends hc rfl ?_
    rw [hq]
    funext k
    cases k <;> rfl
  | void_position hv =>
    refine .stays rfl ?_
    funext k
    cases k <;> rfl
  | do_payouts_replied trades_env positions_env h =>
    refine .stays rfl ?_
    funext k
    cases k <;> rfl
  | payouts_started hp =>
    obtain ⟨vcs, vts, tls, hsame⟩ := (_do_payouts_spec hp).same
    exact .stays rfl (locks_of_same hsame)
  | payouts_ended hr hf =>
    obtain ⟨vcs, vts, tls, hsame⟩ := do_payouts_end_same _ s.cm_data
    exact .stays rfl (locks_of_same hsame)
  | payout_replied hr hp hs =>
    refine .stays rfl ?_
    funext k
    cases k <;> rfl
  | others_transfer | others_mint | do_payouts | do_payouts_failed | payout_executed | payout_refused
  | update_executed | update_failed | positions_flush | trades_flush =>
    exact .stays rfl rfl

/-! ## Callers are locked -/

theorem callers_cons (c : UserCall) (calls : List UserCall) (kind : PositionKind) :
    callers (c :: calls) kind =
      if c.quest.kind = kind then c.caller ::ₘ callers calls kind else callers calls kind := by
  unfold callers
  rw [List.filter_cons]
  simp only [decide_eq_true_eq]
  split_ifs <;> rfl

theorem callers_middle (pre post : List UserCall) (c : UserCall) (kind : PositionKind) :
    callers (pre ++ c :: post) kind = callers (c :: (pre ++ post)) kind := by
  unfold callers
  apply Multiset.coe_eq_coe.mpr
  exact (List.perm_middle.filter _).map _

structure Locked (s : TcState) : Prop where
  nodup : ∀ kind, (callers s.calls kind).Nodup
  locked : ∀ kind, ∀ p ∈ callers s.calls kind, p ∈ s.cm_data.mid_call_balance_locks kind
  card_le : ∀ kind, (s.cm_data.mid_call_balance_locks kind).card ≤ MAX_MID_CALL_USER_BALANCE_LOCKS

/-- The locks of a side are the callers of its calls, and there are not too many. -/
structure LocksKept (s : TcState) : Prop where
  callers : ∀ kind, (s.cm_data.mid_call_balance_locks kind).val = callers s.calls kind
  card_le : ∀ kind, (s.cm_data.mid_call_balance_locks kind).card ≤ MAX_MID_CALL_USER_BALANCE_LOCKS

theorem LocksKept.of_same (h : LocksKept s)
    (hcallers : ∀ kind, Tc.callers s'.calls kind = Tc.callers s.calls kind)
    (hlocks : s'.cm_data.mid_call_balance_locks = s.cm_data.mid_call_balance_locks) :
    LocksKept s' := by
  refine ⟨fun kind => ?_, fun kind => ?_⟩
  · rw [hcallers, hlocks]
    exact h.callers kind
  · rw [hlocks]
    exact h.card_le kind

theorem LocksKept.begins (h : LocksKept s) {c : UserCall} (hcalls : s'.calls = c :: s.calls)
    (hfree : c.caller ∉ s.cm_data.mid_call_balance_locks c.quest.kind)
    (hroom : (s.cm_data.mid_call_balance_locks c.quest.kind).card < MAX_MID_CALL_USER_BALANCE_LOCKS)
    (hlocks : s'.cm_data.mid_call_balance_locks =
      (s.cm_data.lock_balance c.quest.kind c.caller).mid_call_balance_locks) : LocksKept s' := by
  have hlocks' : ∀ kind, s'.cm_data.mid_call_balance_locks kind =
      if kind = c.quest.kind then insert c.caller (s.cm_data.mid_call_balance_locks c.quest.kind)
      else s.cm_data.mid_call_balance_locks kind := by
    intro kind
    rw [hlocks]
    exact s.cm_data.set_mid_call_balance_locks_locks _ _ _
  refine ⟨fun kind => ?_, fun kind => ?_⟩
  · rw [hcalls, callers_cons, hlocks']
    by_cases hkind : kind = c.quest.kind
    · rw [if_pos hkind, if_pos hkind.symm, Finset.insert_val_of_notMem hfree, hkind, h.callers]
    · rw [if_neg hkind, if_neg fun heq => hkind heq.symm, h.callers]
  · rw [hlocks']
    split_ifs
    · exact (Finset.card_insert_le _ _).trans hroom
    · exact h.card_le kind

theorem LocksKept.ends (h : LocksKept s) {pre post : List UserCall} {c : UserCall}
    (hcalls : s.calls = pre ++ c :: post) (hcalls' : s'.calls = pre ++ post)
    (hlocks : s'.cm_data.mid_call_balance_locks =
      (s.cm_data.unlock_balance c.quest.kind c.caller).mid_call_balance_locks) : LocksKept s' := by
  have hlocks' : ∀ kind, s'.cm_data.mid_call_balance_locks kind =
      if kind = c.quest.kind then (s.cm_data.mid_call_balance_locks c.quest.kind).erase c.caller
      else s.cm_data.mid_call_balance_locks kind := by
    intro kind
    rw [hlocks]
    exact s.cm_data.set_mid_call_balance_locks_locks _ _ _
  refine ⟨fun kind => ?_, fun kind => ?_⟩
  · have hold := h.callers kind
    rw [hcalls, callers_middle, callers_cons] at hold
    rw [hcalls', hlocks']
    by_cases hkind : kind = c.quest.kind
    · rw [if_pos hkind.symm, hkind] at hold
      rw [if_pos hkind, Finset.erase_val, hold, Multiset.erase_cons_head, hkind]
    · rw [if_neg fun heq => hkind heq.symm] at hold
      rw [if_neg hkind, hold]
  · rw [hlocks']
    split_ifs
    · exact (Finset.card_erase_le).trans (h.card_le _)
    · exact h.card_le kind

theorem locks_step (h : LocksKept s) (hstep : TcStep cfg s s') : LocksKept s' := by
  rcases calls_move hstep with ⟨c, hcalls, hfree, hroom, hlocks⟩ | ⟨r, hcalls, hcalls', hlocks⟩ |
    ⟨hcalls, hcalls', hlocks⟩ | ⟨hcalls, hlocks⟩
  · exact h.begins hcalls hfree hroom hlocks
  · refine h.of_same (fun kind => ?_) hlocks
    rw [hcalls, hcalls', callers_middle, callers_middle, callers_cons, callers_cons]
  · exact h.ends hcalls hcalls' hlocks
  · exact h.of_same (fun kind => by rw [hcalls]) hlocks

theorem locks_inv (r : TcReachable cfg s) : LocksKept s := by
  refine r.invariant (fun s hinit => ?_) fun _ _ _ h hstep => locks_step h hstep
  obtain ⟨fees, positions_module_hash, trades_module_hash, ledger, rfl⟩ := hinit
  refine ⟨fun kind => ?_, fun kind => ?_⟩
  · cases kind <;> rfl
  · cases kind <;> exact Nat.zero_le _

theorem locked_inv (r : TcReachable cfg s) : Locked s := by
  have h := locks_inv r
  refine ⟨fun kind => ?_, fun kind p hp => ?_, h.card_le⟩
  · rw [← h.callers]
    exact (s.cm_data.mid_call_balance_locks kind).nodup
  · rw [← h.callers] at hp
    exact hp

theorem Locked.trades_le (h : Locked s) (kind : PositionKind) :
    tradesInFlight s.calls kind ≤ (s.cm_data.mid_call_balance_locks kind).card := by
  have hcount : tradesInFlight s.calls kind ≤ (callers s.calls kind).card := by
    unfold tradesInFlight callers
    rw [Multiset.coe_card, List.length_map, ← List.countP_eq_length_filter]
    refine List.countP_mono_left fun c _ hc => ?_
    unfold UserQuest.trades at hc
    unfold UserQuest.kind
    cases hq : c.quest <;> simp_all
  refine hcount.trans ?_
  rw [← Multiset.toFinset_card_of_nodup (h.nodup kind)]
  refine Finset.card_le_card fun p hp => ?_
  exact h.locked kind p (Multiset.mem_toFinset.mp hp)

/-! ## Trades that begin and end -/

theorem tradesInFlight_cons (c : UserCall) (calls : List UserCall) (kind : PositionKind) :
    tradesInFlight (c :: calls) kind =
      tradesInFlight calls kind + if c.quest.trades kind then 1 else 0 := List.countP_cons

theorem tradesInFlight_middle (pre post : List UserCall) (c : UserCall) (kind : PositionKind) :
    tradesInFlight (pre ++ c :: post) kind =
      tradesInFlight (pre ++ post) kind + if c.quest.trades kind then 1 else 0 := by
  unfold tradesInFlight
  rw [List.countP_append, List.countP_append, List.countP_cons]
  omega

end Cts.Tc
