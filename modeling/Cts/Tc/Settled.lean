import Cts.Tc.Drain
import Cts.Tc.Minimum

/-!
# What a result says

While the ledgers keep their fees, a payout that is on record was transferred or is not worth its fee,
so what is worth it is paid in full once it has a result.
-/

namespace Cts.Tc

open Lib Lib.Jobs

/-! ## Fees that stay -/

/-- No other fee is asked for. -/
def Asks (fee : Nat) (r : LedgerTransferReturnType) : Prop := ∀ f, bad_fee r = some f → f = fee

/-- The cells hold the fees, and no answer under way changes them. -/
structure KnowsFees (fee : PositionKind → Nat) (s : TcState) : Prop where
  fees : s.fees = fee
  payouts : ∀ run ∈ s.runs, ∀ q, ∀ p ∈ run.payouts q, ∀ r, p.state = .answered r →
    Asks (fee q.kind) r
  calls : ∀ c ∈ s.calls, ∀ r, c.reply = some r → Asks (fee c.quest.kind) r

variable {cfg : TcConfig} {fee : PositionKind → Nat} {s s' : TcState} {kind : PositionKind}
  {q : Queue}

theorem Asks.replied {r : LedgerTransferReturnType} (hs : s.fees = fee) (h : Asks (fee kind) r) :
    (s.ledger_transfer_replied kind r).fees = fee := by
  funext k
  simp only [TcState.ledger_transfer_replied, Function.update_apply, hs]
  split_ifs with hk
  · subst hk
    cases hb : bad_fee r with
    | none => rfl
    | some f => exact h f hb
  · rfl

theorem KnowsFees.fees_step (h : KnowsFees fee s) (hstep : TcStep cfg s s') : s'.fees = fee := by
  cases hstep with
  | @trade_failed pre post c q r e hc hr hq he =>
    have hask := h.calls c (by rw [hc]; simp) r hr
    rw [hq] at hask
    exact hask.replied h.fees
  | @balance_replied pre post c kind q r hc hr hq =>
    have hask := h.calls c (by rw [hc]; simp) r hr
    rw [hq] at hask
    exact hask.replied h.fees
  | @payout_replied before after run q pre post p r hruns hp hs =>
    have hask := h.payouts run (by rw [hruns]; simp) q p (by rw [hp]; simp) r hs
    exact hask.replied h.fees
  | _ => exact h.fees

theorem HonestAnswer.asks {f ledger_transfer_fee : Nat} {r : LedgerTransferReturnType}
    (hf : f < 2 ^ 128) (h : HonestAnswer f ledger_transfer_fee r) : Asks f r := by
  intro g hg
  unfold HonestAnswer at h
  split_ifs at h
  · match r with
    | .ok (.ok block) => cases hg
    | .ok (.error e) => cases h
    | .error e => cases h
  · subst h
    have hg : some (if f < 2 ^ 128 then f else 0) = some g := hg
    rw [if_pos hf] at hg
    exact (Option.some.inj hg).symm

theorem KnowsFees.honest (h : KnowsFees fee s) (hfee : ∀ kind, fee kind < 2 ^ 128)
    (hstep : HonestStep cfg fee s s') : KnowsFees fee s' := by
  refine ⟨h.fees_step hstep.1, fun run' hrun' q p hp r hr => ?_, fun c hc => ?_⟩
  · rcases hstep.2.answers run' hrun' q p hp r hr with ⟨run, hrun, hold⟩ | hanswer
    · exact h.payouts run hrun q p hold r hr
    · exact hanswer.asks (hfee q.kind)
  · rw [hstep.2.calls] at hc
    exact h.calls c hc

/-! ## What a result says -/

/-- A payout at `fee` that is on record: it was transferred, or it was not worth the fee. -/
structure Settles (fee : Nat) (q : DoPayoutQuest) (data : PayoutData) : Prop where
  fee_eq : data.ledger_transfer_fee = fee
  dust : Worth q fee → data.did_transfer = true

def Payout.Settled (fee : Nat) (p : Payout) : Prop :=
  p.ledger_transfer_fee = fee ∧ ∀ data, p.state = .done (some data) → Settles fee p.quest data

structure Settled (fee : PositionKind → Nat) (s : TcState) : Prop where
  payouts : ∀ run ∈ s.runs, ∀ q, ∀ p ∈ run.payouts q, p.Settled (fee q.kind)
  slots : ∀ q, ∀ x ∈ (s.pool q).all, ∀ data, x.data = some data → Settles (fee q.kind) x.job data

theorem _do_payout_settled (id : Nat) (f : Nat) (q : DoPayoutQuest) :
    (_do_payout id f q).Settled f := by
  refine ⟨rfl, fun data hdata => ?_⟩
  unfold _do_payout at hdata ⊢
  simp only at hdata ⊢
  split_ifs at hdata with hdust
  obtain rfl := Option.some.inj (PayoutState.done.inj hdata)
  refine ⟨rfl, fun hworth => ?_⟩
  unfold Worth at hworth
  simp only [saturating_sub, Word.saturatingSub] at hdust
  omega

theorem _do_payout_result_settled {f : Nat} {q : DoPayoutQuest} {r : LedgerTransferReturnType}
    {data : PayoutData} (h : _do_payout_result f r = some data) : Settles f q data := by
  match r with
  | .ok (.ok block) =>
    obtain rfl := Option.some.inj h
    exact ⟨rfl, fun _ => rfl⟩
  | .ok (.error e) => cases h
  | .error e => cases h

theorem Payout.Settled.result {f : Nat} {p : Payout} (h : p.Settled f) {data : PayoutData}
    (hr : p.result = some data) : Settles f p.quest data := by
  unfold Payout.result at hr
  split at hr
  · rename_i r hs
    subst hr
    exact h.2 data hs
  · cases hr

/-! ## The payouts of the runs -/

theorem settled_payouts_step (hfees : s.fees = fee)
    (h : ∀ run ∈ s.runs, ∀ q, ∀ p ∈ run.payouts q, p.Settled (fee q.kind)) (hstep : TcStep cfg s s') :
    ∀ run ∈ s'.runs, ∀ q, ∀ p ∈ run.payouts q, p.Settled (fee q.kind) := by
  cases hstep with
  | @payouts_started cm_data data run hp =>
    intro run' hrun' q p hmem
    rcases List.mem_append.mp hrun' with hrun' | hrun'
    · exact h run' hrun' q p hmem
    · rw [List.mem_singleton.mp hrun'] at hmem
      have heq : p = _do_payout p.id (s.fees q.kind) p.quest := by
        cases q with
        | void kind => exact ((_do_payouts_spec hp).voids kind).payouts_eq p hmem
        | trade kind => exact ((_do_payouts_spec hp).logs kind).payouts_eq p hmem
      rw [heq, hfees]
      exact _do_payout_settled _ _ _
  | @payout_executed before after run q pre post p _ l block hr hp hs hl =>
    have hold := h run (by rw [hr]; simp) q p (by rw [hp]; simp)
    exact forall_payouts_set (P := fun q p => p.Settled (fee q.kind)) hr hp h
      ⟨hold.1, fun data hdata => by cases hdata⟩
  | @payout_refused before after run q pre post p r hr hp hs hn =>
    have hold := h run (by rw [hr]; simp) q p (by rw [hp]; simp)
    exact forall_payouts_set (P := fun q p => p.Settled (fee q.kind)) hr hp h
      ⟨hold.1, fun data hdata => by cases hdata⟩
  | @payout_replied before after run q pre post p r hr hp hs =>
    have hold := h run (by rw [hr]; simp) q p (by rw [hp]; simp)
    refine forall_payouts_set (P := fun q p => p.Settled (fee q.kind)) hr hp h
      ⟨hold.1, fun data hdata => ?_⟩
    have hresult := _do_payout_result_settled (q := p.quest) (PayoutState.done.inj hdata)
    rw [hold.1] at hresult
    exact hresult
  | update_executed hr hu hs hsc hup =>
    rw [hr] at h
    exact forall_mem_replaced h id
  | update_failed e hr hu hs =>
    rw [hr] at h
    exact forall_mem_replaced h id
  | @payouts_ended before after run hr hf =>
    intro run' hrun'
    refine h run' ?_
    rw [hr]
    rcases List.mem_append.mp hrun' with hrun' | hrun' <;> simp [hrun']
  | _ => exact h

/-! ## The slots -/

theorem launched_data {xs ys : List PayoutSlot} {jobs : List (Nat × DoPayoutQuest)}
    (h : Launched xs ys jobs) {y : PayoutSlot} (hy : y ∈ ys) :
    ∃ x ∈ xs, x.job = y.job ∧ x.data = y.data := by
  induction h with
  | nil => exact absurd hy List.not_mem_nil
  | pass x _ ih =>
    rcases List.mem_cons.mp hy with rfl | hy
    · exact ⟨y, List.mem_cons_self, rfl, rfl⟩
    · obtain ⟨z, hz, hsame⟩ := ih hy
      exact ⟨z, List.mem_cons_of_mem _ hz, hsame⟩
  | @take xs ys jobs x hf _ ih =>
    rcases List.mem_cons.mp hy with rfl | hy
    · exact ⟨x, List.mem_cons_self, rfl, rfl⟩
    · obtain ⟨z, hz, hsame⟩ := ih hy
      exact ⟨z, List.mem_cons_of_mem _ hz, hsame⟩

theorem handle_vps_results {DoOutput : Type}
    {handle_output : VoidPosition → DoOutput → VoidPosition} {P : VoidPosition → Prop}
    (hid : ∀ vp r, (handle_output vp r).position_id = vp.position_id)
    {rs : List (PositionId × DoOutput)} {m : OrdMap PositionId VoidPosition}
    (hP : ∀ r ∈ rs, ∀ vp, vp.position_id = r.1 → P vp → P (handle_output vp r.2))
    (hk : Keyed m) (hm : ∀ vp ∈ m.values, P vp) :
    (∀ vp ∈ (_handle_vps handle_output rs m).1.values, P vp) ∧
      ∀ vp ∈ (_handle_vps handle_output rs m).2, P vp := by
  induction rs generalizing m with
  | nil => exact ⟨hm, fun vp hvp => absurd hvp List.not_mem_nil⟩
  | cons r rs ih =>
    obtain ⟨vp_id, do_output⟩ := r
    have hrest := fun r hr => hP r (List.mem_cons_of_mem _ hr)
    rw [_handle_vps]
    cases hg : m.get vp_id with
    | none => exact ih hrest hk hm
    | some vp =>
      have hvp := hP _ List.mem_cons_self vp (hk vp_id vp hg) (hm vp ((m.mem_values_iff vp).mpr ⟨vp_id, hg⟩))
      simp only
      split_ifs
      · have ih := ih hrest (hk.remove vp_id) (OrdMap.forall_values_remove hm)
        exact ⟨ih.1, List.forall_mem_cons.mpr ⟨hvp, ih.2⟩⟩
      · exact ih hrest (hk.insert _ ((hid vp do_output).trans (hk vp_id vp hg)))
          (OrdMap.forall_values_insert hm hvp)

theorem resultOf_some {rs : List (Nat × Option PayoutData)} {id : Nat} {data : Option PayoutData}
    {found : Option (Option PayoutData)} (h : resultOf rs id found = some data) :
    found = some data ∨ (id, data) ∈ rs := by
  induction rs generalizing found with
  | nil => exact Or.inl h
  | cons r rs ih =>
    unfold resultOf at h ih
    rw [List.foldl_cons] at h
    rcases ih h with hfound | hmem
    · split_ifs at hfound with hid
      · right
        rw [← hid, ← Option.some.inj hfound]
        exact List.mem_cons_self
      · exact Or.inl hfound
    · exact Or.inr (List.mem_cons_of_mem _ hmem)

section

variable {before after : List PayoutsRun} {run : PayoutsRun}

theorem job_of_payout (hq : Queues s) (hr : s.runs = before ++ run :: after) {p : Payout}
    (hp : p ∈ run.payouts q) {x : PayoutSlot} (hx : x ∈ (s.pool q).slots) (hid : p.id = x.id) :
    p.quest = x.job := by
  have hf : p.flight ∈ (s.pool q).flights :=
    Multiset.mem_of_le (run_flights_le hr q) (Multiset.mem_coe.mpr (List.mem_map_of_mem hp))
  exact ((hq.payouts q).slot_of_flight hf hx hid.symm).1.symm

theorem settled_result (h : Settled fee s) (hr : s.runs = before ++ run :: after)
    {r : Nat × Option PayoutData} (hmem : r ∈ run.results q) :
    ∃ p ∈ run.payouts q, p.id = r.1 ∧ ∀ data, r.2 = some data → Settles (fee q.kind) p.quest data := by
  obtain ⟨p, hp, rfl⟩ := List.mem_map.mp hmem
  exact ⟨p, hp, rfl, fun data hdata => (h.payouts run (by rw [hr]; simp) q p hp).result hdata⟩

theorem settled_voids (hm : Market False s) (hq : Queues s) (h : Settled fee s)
    (hr : s.runs = before ++ run :: after) (kind : PositionKind) :
    (∀ vp ∈ (run.handle_vps kind (s.cm_data.void_positions kind)).1.values, ∀ data,
        vp.payout_data = some data → Settles (fee kind) vp.payout_quest data) ∧
      ∀ vp ∈ (run.handle_vps kind (s.cm_data.void_positions kind)).2, ∀ data,
        vp.payout_data = some data → Settles (fee kind) vp.payout_quest data := by
  -- The runs see their jobs in the positions, whatever is done to these.
  let P : VoidPosition → Prop := fun vp =>
    (∀ p ∈ run.payouts (.void kind), p.id = vp.position_id → p.quest = vp.payout_quest) ∧
      ∀ data, vp.payout_data = some data → Settles (fee kind) vp.payout_quest data
  have hkeyed := hm.book.keyed kind
  have hslot : ∀ vp ∈ (s.cm_data.void_positions kind).values, vp.slot ∈ (s.pool (.void kind)).slots :=
    fun vp hvp => Multiset.mem_coe.mpr (List.mem_map_of_mem hvp)
  have hstart : ∀ vp ∈ (s.cm_data.void_positions kind).values, P vp := fun vp hvp =>
    ⟨fun p hp hid => job_of_payout hq hr hp (hslot vp hvp) hid,
      h.slots (.void kind) vp.slot (Pool.mem_all.mpr (Or.inl (hslot vp hvp)))⟩
  have hpayout : ∀ r ∈ run.results (.void kind), ∀ vp, vp.position_id = r.1 → P vp →
      P (handle_vp_payout vp r.2) := by
    rintro r hmem vp hid ⟨hjobs, -⟩
    obtain ⟨p, hp, hpid, hsettles⟩ := settled_result h hr hmem
    have hquest : (handle_vp_payout vp r.2).payout_quest = vp.payout_quest := by cases r.2 <;> rfl
    refine ⟨fun p' hp' hid' => ?_, fun data hdata => ?_⟩
    · rw [hquest]
      exact hjobs p' hp' (hid'.trans (handle_vp_payout_id vp r.2))
    · rw [handle_vp_payout_data] at hdata
      rw [hquest, ← hjobs p hp (hpid.trans hid.symm)]
      exact hsettles data hdata
  have hupdate : ∀ r ∈ run.update_results kind, ∀ vp, vp.position_id = r.1 → P vp →
      P (handle_vp_update vp r.2) := fun _ _ _ _ hP => hP
  have hfirst := handle_vps_results handle_vp_payout_id hpayout hkeyed hstart
  have hid : ∀ vp r, (handle_vp_update vp r).position_id = vp.position_id := fun _ _ => rfl
  have hsecond := handle_vps_results hid hupdate
    (handle_vps_keyed handle_vp_payout_id (run.results (.void kind)) hkeyed) hfirst.1
  refine ⟨fun vp hvp => (hsecond.1 vp hvp).2, fun vp hvp => ?_⟩
  rcases List.mem_append.mp hvp with hvp | hvp
  · exact (hfirst.2 vp hvp).2
  · exact (hsecond.2 vp hvp).2

theorem settled_logs (hm : Market False s) (hq : Queues s) (h : Settled fee s)
    (hr : s.runs = before ++ run :: after) (kind : PositionKind) :
    ∀ x ∈ (_do_payouts_end run s.cm_data).1.trade_logs.map (TradeLogAndTemporaryData.slot kind),
      ∀ data, x.data = some data → Settles (fee kind) x.job data := by
  have hslots := handle_tls_payouts_slots hm.sorted (fun k => run.results (.trade k)) kind
  intro x hx data hdata
  change x ∈ (handle_tls_payouts s.cm_data.trade_logs _).map _ at hx
  rw [hslots] at hx
  obtain ⟨y, hy, rfl⟩ := List.mem_map.mp hx
  have hymem : y ∈ (s.pool (.trade kind)).slots := Multiset.mem_coe.mpr hy
  have hfold := foldl_applyResult (run.results (.trade kind)) y none
  simp only at hfold
  rw [hfold] at hdata ⊢
  cases hres : resultOf (run.results (.trade kind)) y.id none with
  | none =>
    rw [hres] at hdata
    exact h.slots (.trade kind) y (Pool.mem_all.mpr (Or.inl hymem)) data hdata
  | some r =>
    rw [hres] at hdata
    obtain ⟨p, hp, hid, hsettles⟩ := settled_result h hr ((resultOf_some hres).resolve_left nofun)
    change Settles (fee kind) y.job data
    rw [← job_of_payout hq hr hp hymem hid]
    exact hsettles data hdata

end

/-! ## Every run -/

/-- The results that are on record were on record before. -/
def ResultsFrom (s s' : TcState) : Prop :=
  ∀ q, ∀ x ∈ (s'.pool q).all, ∀ data, x.data = some data →
    ∃ y ∈ (s.pool q).all, y.job = x.job ∧ y.data = some data

theorem Settled.of_results (h : Settled fee s) (hf : ResultsFrom s s') :
    ∀ q, ∀ x ∈ (s'.pool q).all, ∀ data, x.data = some data → Settles (fee q.kind) x.job data := by
  intro q x hx data hdata
  obtain ⟨y, hy, hjob, hydata⟩ := hf q x hx data hdata
  rw [← hjob]
  exact h.slots q y hy data hydata

theorem results_same (h : ∀ q, (s'.pool q).all = (s.pool q).all) : ResultsFrom s s' :=
  fun q x hx _ hdata => ⟨x, h q ▸ hx, rfl, hdata⟩

theorem results_grown {L : Prop} (h : Grown L s s') : ResultsFrom s s' := by
  obtain ⟨ds, hgrows⟩ := h.grows
  intro q x hx data hdata
  obtain ⟨xs, hxs, hfresh⟩ := hgrows.slots q
  have hleft : s'.leftSlots q = s.leftSlots q := by
    cases q <;> simp only [TcState.leftSlots, h.removed, h.moved]
  have hpool : (s'.pool q).all = xs + (s.pool q).all := by
    simp only [TcState.pool, Pool.all, hxs, hleft, add_assoc]
  rw [hpool] at hx
  rcases Multiset.mem_add.mp hx with hx | hx
  · cases (hfresh x hx).2.symm.trans hdata
  · exact ⟨x, hx, rfl, hdata⟩

theorem results_started {cm_data : CMData} {storage : LogStorageData} {run : PayoutsRun}
    (h : _do_payouts s.fees s.cm_data s.positions_storage.data = some (cm_data, storage, run))
    (hbook : s'.cm_data = cm_data) (hleft : ∀ q, s'.leftSlots q = s.leftSlots q) :
    ResultsFrom s s' := by
  have hs := _do_payouts_spec h
  intro q x hx data hdata
  rcases Pool.mem_all.mp hx with hx | hx
  · change x ∈ s'.cm_data.slots q at hx
    rw [hbook] at hx
    obtain ⟨y, hy, hjob, heq⟩ : ∃ y ∈ (s.pool q).slots, y.job = x.job ∧ y.data = x.data := by
      cases q with
      | void kind => exact launched_data (hs.voids kind).payouts_launched (Multiset.mem_coe.mp hx)
      | trade kind => exact launched_data (hs.logs kind).launched (Multiset.mem_coe.mp hx)
    exact ⟨y, Pool.mem_all.mpr (Or.inl hy), hjob, heq.trans hdata⟩
  · change x ∈ s'.leftSlots q at hx
    rw [hleft] at hx
    exact ⟨x, Pool.mem_all.mpr (Or.inr hx), rfl, hdata⟩

theorem results_moved (trades_env positions_env : FlushEnv) (calls : Nat) :
    ResultsFrom s
      { s.move_and_flush cfg trades_env positions_env with do_payouts_calls := calls } := by
  obtain ⟨hsplit, -⟩ := move_trade_logs_spec s.cm_data.trade_logs
  refine results_same fun q => ?_
  cases q with
  | void kind => cases kind <;> rfl
  | trade kind =>
    change ((((move_trade_logs s.cm_data.trade_logs).2.map _ : List PayoutSlot) :
      Multiset PayoutSlot) + (((s.history.moved ++ (move_trade_logs s.cm_data.trade_logs).1).map _ :
        List PayoutSlot) : Multiset PayoutSlot)) = ((s.cm_data.trade_logs.map _ : List PayoutSlot) :
          Multiset PayoutSlot) + ((s.history.moved.map _ : List PayoutSlot) : Multiset PayoutSlot)
    rw [Multiset.coe_add, Multiset.coe_add, ← List.map_append, ← List.map_append]
    refine Multiset.coe_eq_coe.mpr (List.Perm.map _ ?_)
    nth_rewrite 3 [← hsplit]
    refine (List.perm_append_comm).trans ?_
    rw [List.append_assoc]
    exact List.perm_append_comm

theorem settled_step (r : TcReachable cfg s) (hfees : s.fees = fee) (h : Settled fee s)
    (hstep : TcStep cfg s s') : Settled fee s' := by
  refine ⟨settled_payouts_step hfees h.payouts hstep, ?_⟩
  have hm : Market False s := market_inv r False.elim
  have hq := queues_inv r
  cases hstep with
  | trade ht =>
    obtain ⟨rfl, -⟩ := _trade_spec ht
    exact h.slots
  | transfer_balance ht =>
    obtain ⟨rfl, -⟩ := _transfer_balance_spec ht
    exact h.slots
  | @trade_committed pre post c q r now instruction_counter hc hr hquest he =>
    have hadmitted := hm.admitted c (by rw [hc]; simp) q hquest
    have hok := hm.commit_ok cfg False.elim hadmitted now instruction_counter c.caller
    exact h.of_results (results_grown ⟨⟨_, hok.grows⟩, rfl, rfl, rfl, rfl, rfl⟩)
  | void_position hv =>
    have hframe := (void_position_frame hm.book hm.sound hv).1
    exact h.of_results (results_grown ⟨⟨_, hframe.grows⟩, rfl, rfl, rfl, rfl, rfl⟩)
  | do_payouts_replied trades_env positions_env hcalls =>
    exact h.of_results (results_moved trades_env positions_env _)
  | payouts_started hp => exact h.of_results (results_started hp rfl fun q => by cases q <;> rfl)
  | @payouts_ended before after run hr hf =>
    intro q x hx
    cases q with
    | void kind =>
      obtain ⟨hmap, hremoved⟩ := do_payouts_end_voids run s.cm_data kind
      obtain ⟨hstay, hgone⟩ := settled_voids hm hq h hr kind
      rcases Pool.mem_all.mp hx with hx | hx
      · obtain ⟨vp, hvp, rfl⟩ := mem_voidSlots.mp hx
        exact hstay vp (hmap ▸ hvp)
      · obtain ⟨vp, hvp, rfl⟩ := List.mem_map.mp (Multiset.mem_coe.mp hx)
        rcases List.mem_append.mp hvp with hvp | hvp
        · refine h.slots (.void kind) _ (Pool.mem_all.mpr (Or.inr ?_))
          exact Multiset.mem_coe.mpr (List.mem_map_of_mem hvp)
        · exact hgone vp (hremoved ▸ hvp)
    | trade kind =>
      rcases Pool.mem_all.mp hx with hx | hx
      · exact settled_logs hm hq h hr kind x (Multiset.mem_coe.mp hx)
      · exact h.slots (.trade kind) x (Pool.mem_all.mpr (Or.inr hx))
  | _ => exact h.slots

theorem settled_inv (r : SteadyReachable cfg s) : Settled s.fees s := by
  refine r.invariant (I := fun s => Settled s.fees s) ?_ fun s s' r h hstep => ?_
  · rintro s ⟨fees, positions_module_hash, trades_module_hash, ledger, rfl⟩
    refine ⟨fun run hrun => absurd hrun List.not_mem_nil, fun q x hx => ?_⟩
    have hempty : ((TcState.new cfg fees positions_module_hash trades_module_hash ledger).pool
        q).all = 0 := by
      rcases q with (_ | _) | (_ | _) <;> rfl
    rw [hempty] at hx
    exact absurd hx (Multiset.notMem_zero x)
  · rw [hstep.2]
    exact settled_step (SteadyReachable.reachable r) rfl h hstep.1

theorem settled_executed (r : SteadyReachable cfg s) {x : PayoutSlot} (hx : x ∈ (s.pool q).all)
    (hd : x.data.isSome) (hworth : Worth x.job (s.fees q.kind)) :
    (x.id, payout_transfer x.job (s.fees q.kind)) ∈ s.history.executed q := by
  obtain ⟨data, hdata⟩ := Option.isSome_iff_exists.mp hd
  obtain ⟨hfee, hdust⟩ := (settled_inv r).slots q x hx data hdata
  have heffect : x.effect payoutEffect = some (x.id, payout_transfer x.job (s.fees q.kind)) := by
    simp [Slot.effect, hdata, payoutEffect, hdust hworth, hfee]
  have hk := (queues_inv r.reachable).payouts q
  have hhad : (x.id, payout_transfer x.job (s.fees q.kind)) ∈ (s.pool q).had := by
    rw [hk.had_eq]
    exact Multiset.mem_add.mpr (Or.inr ((Multiset.mem_filterMap _ _).mpr ⟨x, hx, heffect⟩))
  exact Multiset.mem_coe.mp hhad

end Cts.Tc
