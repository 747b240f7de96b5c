import Cts.Tc.Futures

/-!
# Nothing is stuck

Every run that is under way can end, a flush frees the lock, and each further run either gets
something done or learns the fee of a ledger.
-/

namespace Cts.Tc

open Lib Lib.Jobs

variable {cfg : TcConfig} {fee : PositionKind → Nat} {s s' : TcState} {q : Queue}
  {kind : PositionKind}

/-! ## Runs end -/

theorem futures_finish (hl : CanGoOn cfg s) (hfee : ∀ kind, fee kind < 2 ^ 128) :
    ∃ s', Runs (FutureStep cfg fee) s s' ∧ CanGoOn cfg s' ∧ s'.waits = 0 := by
  refine runs_to_zero TcState.waits (fun s hl hw => ?_) hl
  obtain ⟨s', h⟩ := future_step hl hfee hw
  exact ⟨s', .next (.start rfl) h, h.drain.goes_on hl, h.waits⟩

/-- What the futures leave as it is, and what they promise. -/
structure Futures (fee : PositionKind → Nat) (s s' : TcState) : Prop where
  flushes : s'.positions_storage.flushes = s.positions_storage.flushes
  sizes : s'.runs.map PayoutsRun.sizes = s.runs.map PayoutsRun.sizes
  promise : ∀ fee₀, Promise fee fee₀ s → Promise fee fee₀ s'

theorem futures_of_runs (h : Runs (FutureStep cfg fee) s s') : Futures fee s s' := by
  refine h.invariant (I := fun t => Futures fee s t) ?_ fun t t' _ ih hstep => ?_
  · rintro t rfl
    exact ⟨rfl, rfl, fun _ h => h⟩
  · exact ⟨hstep.flushes.trans ih.flushes, hstep.sizes.trans ih.sizes,
      fun fee₀ h => hstep.promise fee₀ (ih.promise fee₀ h)⟩

theorem drains (h : Runs (FutureStep cfg fee) s s') : Runs (DrainStep cfg fee) s s' :=
  h.mono fun _ _ h => h.drain

/-- A run whose futures are done. -/
structure EndStep (cfg : TcConfig) (fee : PositionKind → Nat) (before after : List PayoutsRun)
    (run : PayoutsRun) (s s' : TcState) : Prop where
  drain : DrainStep cfg fee s s'
  runs : s'.runs = before ++ after
  book : s'.cm_data = (_do_payouts_end run s.cm_data).1
  flushes : s'.positions_storage.flushes = s.positions_storage.flushes
  fees : s'.fees = s.fees

theorem run_ends {before after : List PayoutsRun} {run : PayoutsRun} (hl : CanGoOn cfg s)
    (hr : s.runs = before ++ run :: after) (hw : s.waits = 0) :
    ∃ s', EndStep cfg fee before after run s s' ∧ s'.waits = 0 := by
  unfold TcState.waits at hw
  rw [hr] at hw
  simp only [List.map_append, List.map_cons, List.sum_append, List.sum_cons] at hw
  have hf : run.finished := finished_of_waits (by omega)
  refine ⟨_, ⟨⟨TcStep.payouts_ended hr hf,
    quiet_of_runs ⟨rfl, rfl, rfl, rfl, rfl, rfl, rfl, rfl⟩ fun run' hrun' q p hp => Or.inl ?_,
    ended_worked hl.market (queues_inv hl.reachable) hr hf⟩, rfl, rfl, rfl, rfl⟩, ?_⟩
  · refine ⟨run', ?_, hp⟩
    rw [hr]
    rcases List.mem_append.mp hrun' with hrun' | hrun' <;> simp [hrun']
  · unfold TcState.waits
    simp only [List.map_append, List.sum_append]
    omega

theorem runs_end (hl : CanGoOn cfg s) (hfee : ∀ kind, fee kind < 2 ^ 128) :
    ∃ s', Runs (DrainStep cfg fee) s s' ∧ CanGoOn cfg s' ∧ s'.runs = [] := by
  obtain ⟨t, ht, htl, hw⟩ := futures_finish hl hfee
  have hone : ∀ s, CanGoOn cfg s ∧ s.waits = 0 → s.runs.length ≠ 0 →
      ∃ s', Runs (DrainStep cfg fee) s s' ∧ (CanGoOn cfg s' ∧ s'.waits = 0) ∧
        s'.runs.length < s.runs.length := by
    rintro s ⟨hl, hw⟩ hlen
    obtain ⟨run, rest, hr⟩ := List.exists_cons_of_ne_nil (List.ne_nil_of_length_pos
      (Nat.pos_of_ne_zero hlen))
    obtain ⟨s', hend, hw'⟩ := run_ends hl (show s.runs = [] ++ run :: rest from hr) hw
    refine ⟨s', .next (.start rfl) hend.drain, ⟨hend.drain.goes_on hl, hw'⟩, ?_⟩
    rw [hend.runs, hr]
    simp
  obtain ⟨s', hs', hl', hlen⟩ := runs_to_zero (fun s : TcState => s.runs.length) hone ⟨htl, hw⟩
  exact ⟨s', (drains ht).trans hs', hl'.1, List.eq_nil_of_length_eq_zero hlen⟩

/-! ## A flush ends -/

section

variable {K : Type} [DecidableEq K] {T : StorageLogTrait K} {flush : FlushConfig} {storage : LogStorage K}
  {canister_id : Principal} {bytes : List Byte} {chunk : Nat} {chunks : List Nat}

/-- A flush goes on, and no storage canister takes part. -/
structure FlushAlone (T : StorageLogTrait K) (flush : FlushConfig) (storage storage' : LogStorage K) :
    Prop where
  step : FlushStep T flush storage storage'
  flushes : storage'.flushes ≠ storage.flushes
  canister : storage'.canister = storage.canister

theorem flush_fails (hf : storage.flushes = [.flushing canister_id bytes chunk chunks .sent]) :
    ∃ storage', Runs (FlushAlone T flush) storage storage' ∧ storage'.flushes = [] := by
  have hfailed : FlushAlone T flush storage { storage with
      flushes := [.flushing canister_id bytes chunk chunks (.answered (.error (0, "")))] } :=
    ⟨.flush_failed (0, "") (show storage.flushes = [] ++ _ :: [] from hf), by simp [hf], rfl⟩
  exact ⟨_, .next (.next (.start rfl) hfailed)
    ⟨.flush_replied ⟨0, 0, none⟩ (show _ = [] ++ _ :: [] from rfl), (List.cons_ne_nil _ _).symm, rfl⟩,
    rfl⟩

theorem flush_ends_now {run : FlushRun} {storage' : LogStorage K}
    (hf : storage.flushes = [] ++ run :: []) (hstep : FlushStep T flush storage storage')
    (hcanister : storage'.canister = storage.canister) (hend : storage'.flushes = []) :
    ∃ storage', Runs (FlushAlone T flush) storage storage' ∧ storage'.flushes = [] :=
  ⟨storage', .next (.start rfl) ⟨hstep, by rw [hend, hf]; exact (List.cons_ne_nil _ _).symm,
    hcanister⟩, hend⟩

theorem flush_can_end {n others : Nat} {logs : List (List Byte)}
    (h : StorageInv n others storage logs) :
    ∃ storage', Runs (FlushAlone T flush) storage storage' ∧ storage'.flushes = [] := by
  rcases hf : storage.flushes with _ | ⟨run, rest⟩
  · exact ⟨storage, .start rfl, hf⟩
  obtain ⟨-, rfl, -⟩ := h.only (show storage.flushes = [] ++ run :: rest from hf)
  have hf : storage.flushes = [] ++ run :: [] := hf
  match run, hf with
  | .creating, hf =>
    exact flush_ends_now hf (.create_failed ⟨0, 0, none⟩ (0, "") hf) rfl rfl
  | .installing canister_id log_size module_hash, hf =>
    exact flush_ends_now hf (.install_failed ⟨0, 0, none⟩ (0, "") hf) rfl rfl
  | .flushing canister_id bytes chunk chunks .sent, hf => exact flush_fails hf
  | .flushing canister_id bytes chunk chunks (.answered (.error e)), hf =>
    exact flush_ends_now hf (.flush_replied ⟨0, 0, none⟩ hf) rfl rfl
  | .flushing canister_id bytes chunk chunks (.answered (.ok (.error .StorageIsFull))), hf =>
    exact flush_ends_now hf (.flush_replied ⟨0, 0, none⟩ hf) rfl rfl
  | .flushing canister_id bytes chunk [] (.answered (.ok (.ok ()))), hf =>
    exact flush_ends_now hf (.flush_replied ⟨0, 0, none⟩ hf) rfl rfl
  | .flushing canister_id bytes chunk (c :: cs) (.answered (.ok (.ok ()))), hf =>
    -- The next chunk is sent.
    have hstep : FlushAlone T flush storage (storage.resume [] [] (storage.data.flush_reply
        ⟨0, 0, none⟩ canister_id chunk (c :: cs) (.ok (.ok ())))) :=
      ⟨.flush_replied ⟨0, 0, none⟩ hf, by rw [hf]; simp [LogStorage.resume,
        LogStorageData.flush_reply, LogStorageData.flush_chunk], rfl⟩
    obtain ⟨storage', hruns, hnil⟩ := flush_fails (T := T) (show (storage.resume [] []
      (storage.data.flush_reply ⟨0, 0, none⟩ canister_id chunk (c :: cs) (.ok (.ok ())))).flushes =
        [.flushing canister_id _ c cs .sent] from rfl)
    exact ⟨storage', Reachable.trans (.next (.start rfl) hstep) hruns, hnil⟩

end

/-! ## Between runs -/

/-- No run and no flush is under way. -/
structure Calm (cfg : TcConfig) (s : TcState) : Prop extends CanGoOn cfg s where
  runs : s.runs = []
  flushes : s.positions_storage.flushes = []

theorem Calm.unlocked (h : Calm cfg s) : s.positions_storage.data.storage_flush_lock = false := by
  obtain ⟨logs, hrecorded⟩ := recorded_inv h.reachable h.ids
  have hlock := hrecorded.storage.lock
  have hupdating : updating s.updates = 0 := by
    unfold TcState.updates
    rw [h.runs]
    rfl
  rw [h.flushes, hupdating] at hlock
  by_contra hl
  rw [if_pos (Bool.eq_true_of_not_eq_false hl)] at hlock
  cases hlock

theorem positions_flush_drains {storage : LogStorage Principal}
    (h : FlushAlone PositionLog.storage cfg.flush s.positions_storage storage) :
    DrainStep cfg fee s { s with positions_storage := storage } :=
  ⟨.positions_flush h.step, quiet_of_runs ⟨rfl, rfl, rfl, rfl, rfl, rfl, h.canister, rfl⟩
      fun run hrun _ _ hp => Or.inl ⟨run, hrun, hp⟩,
    worked_quiet rfl (fun q => by cases q <;> rfl) fun _ => rfl⟩

theorem positions_flush_runs {storage : LogStorage Principal}
    (h : Runs (FlushAlone PositionLog.storage cfg.flush) s.positions_storage storage) :
    Runs (DrainStep cfg fee) s { s with positions_storage := storage } := by
  induction h with
  | start h =>
    subst h
    exact .start rfl
  | next _ hstep ih => exact ih.next (positions_flush_drains hstep)

theorem goes_on_runs (hl : CanGoOn cfg s) (h : Runs (DrainStep cfg fee) s s') : CanGoOn cfg s' :=
  h.invariant (fun _ heq => heq ▸ hl) fun _ _ _ ih hstep => hstep.goes_on ih

theorem left_le_runs (hl : CanGoOn cfg s) (h : Runs (DrainStep cfg fee) s s') :
    s'.leftToDo ≤ s.leftToDo := by
  refine (h.invariant (I := fun t => CanGoOn cfg t ∧ t.leftToDo ≤ s.leftToDo) ?_ ?_).2
  · rintro t rfl
    exact ⟨hl, le_rfl⟩
  · exact fun _ _ _ ih hstep => ⟨hstep.goes_on ih.1, (hstep.left_le ih.1).trans ih.2⟩

/-- From any state the contract can come to rest. -/
theorem calms (hl : CanGoOn cfg s) (hfee : ∀ kind, fee kind < 2 ^ 128) :
    ∃ s', Runs (DrainStep cfg fee) s s' ∧ Calm cfg s' := by
  obtain ⟨t, ht, htl, hruns⟩ := runs_end hl hfee
  obtain ⟨logs, hrecorded⟩ := recorded_inv htl.reachable htl.ids
  obtain ⟨storage, hstorage, hflushes⟩ : ∃ storage, Runs (FlushAlone PositionLog.storage cfg.flush)
    t.positions_storage storage ∧ storage.flushes = [] := flush_can_end hrecorded.storage
  have hflush : Runs (DrainStep cfg fee) t { t with positions_storage := storage } :=
    positions_flush_runs hstorage
  exact ⟨_, ht.trans hflush, goes_on_runs htl hflush, hruns, hflushes⟩

/-! ## A round -/

/-- The ledgers whose fees the contract does not know. -/
def TcState.wrongFees (s : TcState) (fee : PositionKind → Nat) : Nat :=
  (if s.fees .Cycles = fee .Cycles then 0 else 1) + if s.fees .Token = fee .Token then 0 else 1

/-- A run starts with something to do. -/
structure RoundStarts (cfg : TcConfig) (fee : PositionKind → Nat) (s s' : TcState) (run : PayoutsRun) :
    Prop where
  drain : DrainStep cfg fee s s'
  runs : s'.runs = [run]
  flushes : s'.positions_storage.flushes = []
  promise : Promise fee s.fees s'
  takes : s.leftToDo ≠ 0 → (∃ q, run.payouts q ≠ []) ∨ ∃ kind, run.updates kind ≠ []

theorem updateJobs_ne_nil {run : PayoutsRun} (h : run.updateJobs kind ≠ []) :
    run.updates kind ≠ [] := by
  unfold PayoutsRun.updateJobs at h
  intro hnil
  rw [hnil] at h
  exact h rfl

theorem round_takes (h : Calm cfg s) (hleft : s.leftToDo ≠ 0) {cm_data : CMData}
    {data : LogStorageData} {run : PayoutsRun}
    (hp : _do_payouts s.fees s.cm_data s.positions_storage.data = some (cm_data, data, run)) :
    (∃ q, run.payouts q ≠ []) ∨ ∃ kind, run.updates kind ≠ [] := by
  have hq := queues_inv h.reachable
  have hmanned := manned_inv h.reachable
  have hvoids : ∀ kind, Multiset.card (s.pool (.void kind)).slots ≠ 0 →
      (∃ q, run.payouts q ≠ []) ∨ ∃ kind, run.updates kind ≠ [] := by
    intro kind hslots
    obtain ⟨hpayouts, hupdates, -⟩ := _do_payouts_takes hp kind
    have hne : (s.cm_data.void_positions kind).values ≠ [] := by
      intro hnil
      refine hslots ?_
      change Multiset.card (voidSlots (s.cm_data.void_positions kind)) = 0
      rw [voidSlots, hnil]
      rfl
    have htakes := void_positions_payouts_takes
      (fun vp hvp => void_free hq hmanned h.runs hvp) hne (s.fees kind)
    rw [h.unlocked] at hpayouts hupdates
    rcases htakes with htakes | htakes
    · exact Or.inl ⟨.void kind, by rw [hpayouts]; exact htakes⟩
    · exact Or.inr ⟨kind, updateJobs_ne_nil (by rw [hupdates]; exact htakes)⟩
  have htrades : ∀ kind, Multiset.card (s.pool (.trade kind)).unsettled ≠ 0 →
      (∃ q, run.payouts q ≠ []) ∨ ∃ kind, run.updates kind ≠ [] := by
    intro kind hunsettled
    obtain ⟨id, hid⟩ := Multiset.exists_mem_of_ne_zero (Multiset.card_eq_zero.not.mp hunsettled)
    obtain ⟨x, hx, hdata, -⟩ := Pool.mem_unsettled.mp hid
    have hlock := hmanned.free h.runs hx
    obtain ⟨tl, htl, rfl⟩ := List.mem_map.mp (Multiset.mem_coe.mp hx)
    have htakes : chunkOf (trade_logs_payouts s.fees s.cm_data.trade_logs [] []).2 kind ≠ [] :=
      trade_logs_payouts_takes kind (Or.inr ⟨tl, htl, hlock, hdata⟩)
    exact Or.inl ⟨.trade kind, by rw [(_do_payouts_takes hp kind).2.2]; exact htakes⟩
  have hunsettled : ∀ kind, Multiset.card (s.pool (.void kind)).unsettled ≤
      Multiset.card (s.pool (.void kind)).slots := by
    intro kind
    unfold Pool.unsettled
    rw [Multiset.card_map]
    exact Multiset.card_le_card (Multiset.filter_le _ _)
  -- So if the run takes nothing, nothing was left.
  have hcycles := hunsettled .Cycles
  have htoken := hunsettled .Token
  by_contra hn
  refine hleft ?_
  have hvc := not_imp_comm.mp (hvoids .Cycles) hn
  have hvt := not_imp_comm.mp (hvoids .Token) hn
  have htc := not_imp_comm.mp (htrades .Cycles) hn
  have htt := not_imp_comm.mp (htrades .Token) hn
  simp only [TcState.leftToDo, TcState.leftOf]
  omega

theorem started_not_answered {fees : PositionKind → Nat} {cm_data cm_data' : CMData}
    {data data' : LogStorageData} {run : PayoutsRun}
    (h : _do_payouts fees cm_data data = some (cm_data', data', run)) {p : Payout}
    (hp : p ∈ run.payouts q) :
    (p.state = .sent ∧ p.ledger_transfer_fee = fees q.kind) ∨ ∃ pd, p.state = .done (some pd) := by
  have hs := _do_payouts_spec h
  have heq : p = _do_payout p.id (fees q.kind) p.quest := by
    cases q with
    | void kind => exact (hs.voids kind).payouts_eq p hp
    | trade kind => exact (hs.logs kind).payouts_eq p hp
  rw [heq]
  unfold _do_payout
  split_ifs
  · exact Or.inr ⟨_, rfl⟩
  · exact Or.inl ⟨rfl, rfl⟩

theorem round_starts (h : Calm cfg s) : ∃ s' run, RoundStarts cfg fee s s' run := by
  obtain ⟨logs, hrecorded⟩ := recorded_inv h.reachable h.ids
  obtain ⟨⟨cm_data, data, run⟩, hp⟩ :=
    Option.isSome_iff_exists.mp (hrecorded.do_payouts_starts h.market h.ids)
  have hspec := _do_payouts_spec hp
  obtain ⟨vcs, vts, tls, hsame⟩ := hspec.same
  have hruns : s.runs ++ [run] = [run] := by rw [h.runs]; rfl
  refine ⟨_, run, ⟨.payouts_started hp, ?_, started_worked hp⟩, hruns, h.flushes, ?_,
    fun hleft => round_takes h hleft hp⟩
  · refine quiet_of_runs (by subst hsame; exact ⟨rfl, rfl, rfl, rfl, rfl, rfl, rfl, rfl⟩)
      fun run' hrun' q p hmem => ?_
    obtain rfl := List.mem_singleton.mp (hruns ▸ hrun')
    refine Or.inr fun r hr => ?_
    rcases started_not_answered hp hmem with ⟨hs, -⟩ | ⟨pd, hs⟩ <;> cases hs.symm.trans hr
  · refine ⟨fun run' hrun' q p hmem => ?_, fun run' hrun' kind u hu r hr => ?_, fun _ => Or.inl rfl⟩
    · obtain rfl := List.mem_singleton.mp (hruns ▸ hrun')
      unfold Payout.Promise
      rcases started_not_answered hp hmem with ⟨hs, hfee⟩ | ⟨pd, hs⟩
      · rw [hs]
        exact hfee
      · rw [hs]
        exact Or.inl rfl
    · obtain rfl := List.mem_singleton.mp (hruns ▸ hrun')
      obtain ⟨updated, hcycles, htoken⟩ := hspec.updates
      have hstate : (∃ canister_id, u.state = .sent canister_id) ∨ u.state = .done (.ok ()) := by
        cases kind
        · exact do_update_storage_positions_state hcycles u hu
        · exact do_update_storage_positions_state htoken u hu
      rcases hstate with ⟨canister_id, hs⟩ | hs
      · cases hs.symm.trans hr
      · exact (UpdateState.done.inj (hs.symm.trans hr)).symm

theorem promise_kept {run : PayoutsRun} {fee₀ : PositionKind → Nat} (h : Promise fee fee₀ s)
    (hrun : run ∈ s.runs) (hf : run.finished)
    (hne : (∃ q, run.payouts q ≠ []) ∨ ∃ kind, run.updates kind ≠ []) :
    ((∃ q, ∃ p ∈ run.payouts q, p.result.isSome) ∨
      ∃ kind, ∃ u ∈ run.updates kind, u.result = .ok ()) ∨
      ∃ kind, fee₀ kind ≠ fee kind ∧ s.fees kind = fee kind := by
  rcases hne with ⟨q, hne⟩ | ⟨kind, hne⟩
  · obtain ⟨p, ps, hps⟩ := List.exists_cons_of_ne_nil hne
    have hp : p ∈ run.payouts q := by rw [hps]; simp
    have hpromise := h.payouts run hrun q p hp
    have hdone := hf.1 q p hp
    unfold Payout.Promise at hpromise
    unfold Payout.isDone at hdone
    cases hs : p.state with
    | sent => simp [hs] at hdone
    | answered r => simp [hs] at hdone
    | done r =>
      rw [hs] at hpromise
      refine hpromise.imp (fun hr => Or.inl ⟨q, p, hp, ?_⟩) fun hlearnt => ⟨q.kind, hlearnt⟩
      unfold Payout.result
      rw [hs]
      exact hr
  · obtain ⟨u, us, hus⟩ := List.exists_cons_of_ne_nil hne
    have hu : u ∈ run.updates kind := by rw [hus]; simp
    have hdone := hf.2 kind u hu
    unfold Update.isDone at hdone
    cases hs : u.state with
    | sent canister_id => simp [hs] at hdone
    | done r =>
      refine Or.inl (Or.inr ⟨kind, u, hu, ?_⟩)
      unfold Update.result
      rw [hs]
      exact h.updates run hrun kind u hu r hs

/-- Each round gets something done or learns a fee. -/
theorem round (h : Calm cfg s) (hfee : ∀ kind, fee kind < 2 ^ 128) (hleft : s.leftToDo ≠ 0) :
    ∃ s', Runs (DrainStep cfg fee) s s' ∧ Calm cfg s' ∧
      s'.leftToDo + s'.wrongFees fee < s.leftToDo + s.wrongFees fee ∧
      s'.leftToDo ≤ s.leftToDo := by
  obtain ⟨s₁, run, hstart⟩ : ∃ s₁ run, RoundStarts cfg fee s s₁ run := round_starts h
  have hl₁ := hstart.drain.goes_on h.toCanGoOn
  obtain ⟨s₂, hfutures, hl₂, hw₂⟩ := futures_finish hl₁ hfee
  have hkept := futures_of_runs hfutures
  have hsizes := hkept.sizes
  rw [hstart.runs] at hsizes
  obtain ⟨run₂, hruns₂, hsize₂⟩ := List.map_eq_singleton_iff.mp hsizes
  obtain ⟨s₃, hend, hw₃⟩ : ∃ s₃, EndStep cfg fee [] [] run₂ s₂ s₃ ∧ s₃.waits = 0 :=
    run_ends hl₂ hruns₂ hw₂
  have hpromise := hkept.promise _ hstart.promise
  have hdrains := ((Reachable.next (.start rfl) hstart.drain : Runs (DrainStep cfg fee) s s₁).trans
    (drains hfutures)).next hend.drain
  -- The finished run has as many futures as the started one.
  have hne : (∃ q, run₂.payouts q ≠ []) ∨ ∃ kind, run₂.updates kind ≠ [] := by
    refine (hstart.takes hleft).imp (fun ⟨q, hq⟩ => ⟨q, fun hnil => hq ?_⟩)
      fun ⟨kind, hk⟩ => ⟨kind, fun hnil => hk ?_⟩
    · have hlen : (run₂.payouts q).length = (run.payouts q).length :=
        congrFun (congrArg Prod.fst hsize₂) q
      rw [hnil] at hlen
      exact List.eq_nil_of_length_eq_zero hlen.symm
    · have hlen : (run₂.updates kind).length = (run.updates kind).length :=
        congrFun (congrArg Prod.snd hsize₂) kind
      rw [hnil] at hlen
      exact List.eq_nil_of_length_eq_zero hlen.symm
  have hfinished : run₂.finished := by
    refine finished_of_waits ?_
    unfold TcState.waits at hw₂
    rw [hruns₂] at hw₂
    simpa using hw₂
  have hle₁ := hstart.drain.left_le h.toCanGoOn
  have hle₂ := left_le_runs hl₁ (drains hfutures)
  have hle₃ := hend.drain.left_le hl₂
  have hcells : ∀ kind, (if s₃.fees kind = fee kind then 0 else 1) ≤
      if s.fees kind = fee kind then 0 else 1 := by
    intro kind
    rw [hend.fees]
    rcases hpromise.fees kind with heq | heq
    · rw [heq]
    · rw [if_pos heq]
      exact Nat.zero_le _
  have hcycles := hcells .Cycles
  have htoken := hcells .Token
  refine ⟨s₃, hdrains, ⟨hend.drain.goes_on hl₂, hend.runs,
    hend.flushes.trans (hkept.flushes.trans hstart.flushes)⟩, ?_, by omega⟩
  unfold TcState.wrongFees
  rcases promise_kept hpromise (by rw [hruns₂]; simp) hfinished hne with hres | ⟨kind, hne, hcell⟩
  · have hlt := ended_progress hl₂.market (queues_inv hl₂.reachable)
      (show s₂.runs = [] ++ run₂ :: [] from hruns₂) hend.drain.worked hend.book hres
    omega
  · have hlearnt : (if s₃.fees kind = fee kind then 0 else 1) <
        if s.fees kind = fee kind then 0 else 1 := by
      rw [hend.fees, if_pos hcell, if_neg hne]
      exact Nat.one_pos
    cases kind <;> omega

/-! ## Everything is paid out -/

theorem rounds (h : Calm cfg s) (hfee : ∀ kind, fee kind < 2 ^ 128) :
    ∃ s', Runs (DrainStep cfg fee) s s' ∧ Calm cfg s' ∧ s'.leftToDo = 0 := by
  have hround : ∀ s : TcState, Calm cfg s →
      (if s.leftToDo = 0 then 0 else s.leftToDo + s.wrongFees fee) ≠ 0 →
      ∃ s', Runs (DrainStep cfg fee) s s' ∧ Calm cfg s' ∧
        (if s'.leftToDo = 0 then 0 else s'.leftToDo + s'.wrongFees fee) <
          if s.leftToDo = 0 then 0 else s.leftToDo + s.wrongFees fee := by
    intro s h hne
    have hleft : s.leftToDo ≠ 0 := fun hz => hne (if_pos hz)
    obtain ⟨s', hruns, hcalm, hlt, -⟩ := round h hfee hleft
    refine ⟨s', hruns, hcalm, ?_⟩
    rw [if_neg hleft]
    split_ifs
    · omega
    · exact hlt
  obtain ⟨s', hruns, hcalm, hzero⟩ := runs_to_zero _ hround h
  refine ⟨s', hruns, hcalm, ?_⟩
  by_contra hne
  rw [if_neg hne] at hzero
  omega

theorem move_trade_logs_all {trade_logs : List TradeLogAndTemporaryData}
    (h : ∀ tl ∈ trade_logs,
      tl.can_move_into_the_stable_memory_for_the_long_term_storage = true) :
    (move_trade_logs trade_logs).2 = [] := by
  induction trade_logs with
  | nil => rfl
  | cons tl trade_logs ih =>
    rw [List.forall_mem_cons] at h
    rw [move_trade_logs, if_pos h.1]
    exact ih h.2

theorem Calm.no_voids (h : s.leftToDo = 0) (kind : PositionKind) :
    (s.cm_data.void_positions kind).len = 0 := by
  have hslots : Multiset.card (s.pool (.void kind)).slots = 0 := by
    simp only [TcState.leftToDo, TcState.leftOf] at h
    cases kind <;> omega
  change Multiset.card (voidSlots (s.cm_data.void_positions kind)) = 0 at hslots
  simpa [voidSlots, OrdMap.values, OrdMap.len] using hslots

theorem Calm.can_move (h : Calm cfg s) (hleft : s.leftToDo = 0) {tl : TradeLogAndTemporaryData}
    (htl : tl ∈ s.cm_data.trade_logs) :
    tl.can_move_into_the_stable_memory_for_the_long_term_storage = true := by
  have hslot : ∀ kind, tl.payout_lock kind = false ∧ (tl.payout_data kind).isSome := by
    intro kind
    have hx : tl.slot kind ∈ (s.pool (.trade kind)).slots :=
      Multiset.mem_coe.mpr (List.mem_map_of_mem htl)
    refine ⟨(manned_inv h.reachable).free h.runs hx, ?_⟩
    by_contra hdata
    have hmem : tl.log.id ∈ (s.pool (.trade kind)).unsettled :=
      Pool.mem_unsettled.mpr ⟨_, hx, Option.not_isSome_iff_eq_none.mp hdata, rfl⟩
    have hpos := Multiset.card_pos_iff_exists_mem.mpr ⟨_, hmem⟩
    simp only [TcState.leftToDo, TcState.leftOf] at hleft
    cases kind <;> omega
  obtain ⟨hlc, hdc⟩ := hslot .Cycles
  obtain ⟨hlt, hdt⟩ := hslot .Token
  simp only [TradeLogAndTemporaryData.can_move_into_the_stable_memory_for_the_long_term_storage,
    Bool.and_eq_true, decide_eq_true_eq]
  exact ⟨⟨⟨hlc, hlt⟩, hdc⟩, hdt⟩

theorem logs_move (h : Calm cfg s) (hleft : s.leftToDo = 0) :
    ∃ s', Runs (DrainStep cfg fee) s s' ∧ s'.runs = [] ∧ nothing_to_pay_out s'.cm_data.toBook := by
  by_cases hnothing : nothing_to_pay_out s.cm_data.toBook
  · exact ⟨s, .start rfl, h.runs, hnothing⟩
  have hsame : ∀ run ∈ s.runs, ∀ q, ∀ p ∈ run.payouts q, (∃ old ∈ s.runs, p ∈ old.payouts q) ∨
      ∀ r, p.state ≠ .answered r := fun run hrun _ _ hp => Or.inl ⟨run, hrun, hp⟩
  have hcalled : DrainStep cfg fee s { s with do_payouts_calls := s.do_payouts_calls + 1 } :=
    ⟨.do_payouts hnothing, quiet_of_runs ⟨rfl, rfl, rfl, rfl, rfl, rfl, rfl, rfl⟩ hsame,
      worked_quiet rfl (fun q => by cases q <;> rfl) fun _ => rfl⟩
  refine ⟨_, .next (.next (.start rfl) hcalled)
    ⟨.do_payouts_replied ⟨0, 0, none⟩ ⟨0, 0, none⟩ (Nat.succ_pos _),
      quiet_of_runs ⟨rfl, rfl, rfl, rfl, rfl, rfl, rfl, (store_trade_logs_same _ _).2⟩ hsame,
      moved_worked ⟨0, 0, none⟩ ⟨0, 0, none⟩ _⟩, h.runs,
    Calm.no_voids hleft .Cycles, Calm.no_voids hleft .Token, ?_⟩
  exact congrArg List.length (move_trade_logs_all fun tl htl => h.can_move hleft htl)

theorem jobs_drain (h : Runs (DrainStep cfg fee) s s') (q : Queue) :
    (s'.pool q).jobs = (s.pool q).jobs := by
  induction h with
  | start h => rw [h]
  | next _ hstep ih => exact (jobs_works (hstep.worked.payouts q)).trans ih

theorem nothing_slots (h : nothing_to_pay_out s.cm_data.toBook) (q : Queue) :
    s.cm_data.slots q = 0 := by
  obtain ⟨hcycles, htoken, hlogs⟩ := h
  have hvoids : ∀ kind, (s.cm_data.void_positions kind).values = [] := by
    intro kind
    refine List.eq_nil_of_length_eq_zero ?_
    unfold OrdMap.values
    rw [List.length_map]
    cases kind
    · exact hcycles
    · exact htoken
  cases q with
  | void kind =>
    change (((s.cm_data.void_positions kind).values.map VoidPosition.slot : List PayoutSlot) :
      Multiset PayoutSlot) = 0
    rw [hvoids]
    rfl
  | trade kind =>
    change ((s.cm_data.trade_logs.map (TradeLogAndTemporaryData.slot kind) : List PayoutSlot) :
      Multiset PayoutSlot) = 0
    rw [List.eq_nil_of_length_eq_zero hlogs]
    rfl

theorem drains_to_nothing (hl : CanGoOn cfg s) (hfee : ∀ kind, fee kind < 2 ^ 128) :
    ∃ s', Runs (DrainStep cfg fee) s s' ∧ s'.runs = [] ∧ nothing_to_pay_out s'.cm_data.toBook := by
  obtain ⟨s₁, h₁, hcalm₁⟩ := calms hl hfee
  obtain ⟨s₂, h₂, hcalm₂, hleft⟩ := rounds hcalm₁ hfee
  obtain ⟨s', h₃, hruns, hnothing⟩ : ∃ s', Runs (DrainStep cfg fee) s₂ s' ∧ s'.runs = [] ∧
    nothing_to_pay_out s'.cm_data.toBook := logs_move hcalm₂ hleft
  exact ⟨s', (h₁.trans h₂).trans h₃, hruns, hnothing⟩

/-- From every state, whatever fees the ledgers take from then on, there is a way on which nobody has
to trade and the ledgers are honest, and at whose end no run is under way, nothing is left to pay out,
and each payout that was owed has a result. -/
theorem everything_can_be_paid_out (cfg : TcConfig) (s : TcState) (r : TcReachable cfg s)
    (hids : s.cm_data.positions_id_counter ≤ 2 ^ 128) (fee : PositionKind → Nat)
    (hfee : ∀ kind, fee kind < 2 ^ 128) :
    ∃ s', Runs (HonestStep cfg fee) s s' ∧ s'.runs = [] ∧ nothing_to_pay_out s'.cm_data.toBook ∧
      ∀ q, ∀ x ∈ s.cm_data.slots q, ∃ y ∈ s'.leftSlots q,
        y.id = x.id ∧ y.job = x.job ∧ y.data.isSome := by
  have hl : CanGoOn cfg s := ⟨r, hids⟩
  obtain ⟨s', hdrain, hruns, hnothing⟩ := drains_to_nothing hl hfee
  refine ⟨s', hdrain.mono fun _ _ h => ⟨h.step, h.quiet⟩, hruns, hnothing, fun q x hx => ?_⟩
  have hjob : (x.id, x.job) ∈ (s'.pool q).jobs := by
    rw [jobs_drain hdrain q]
    exact Multiset.mem_map.mpr ⟨x, Pool.mem_all.mpr (Or.inl hx), rfl⟩
  obtain ⟨y, hy, heq⟩ := Multiset.mem_map.mp hjob
  obtain ⟨hid, hjob⟩ := Prod.mk.inj heq
  have hleft : y ∈ s'.leftSlots q := by
    refine (Pool.mem_all.mp hy).resolve_left fun hslots => ?_
    change y ∈ s'.cm_data.slots q at hslots
    rw [nothing_slots hnothing] at hslots
    exact Multiset.notMem_zero y hslots
  have hq := queues_inv (goes_on_runs hl hdrain).reachable
  exact ⟨y, hleft, hid, hjob, (hq.payouts q).left_settled y hleft⟩

theorem short_run_can_be_paid_out : Sample.final.runs ≠ [] ∧
    ∃ s', Runs (HonestStep Sample.config fun | .Cycles => 11 | .Token => 7) Sample.final s' ∧
      s'.runs = [] ∧ nothing_to_pay_out s'.cm_data.toBook ∧
      ∀ q, ∀ x ∈ Sample.final.cm_data.slots q, ∃ y ∈ s'.leftSlots q,
        y.id = x.id ∧ y.job = x.job ∧ y.data.isSome := by
  refine ⟨?_, everything_can_be_paid_out _ _ Sample.final_reachable ?_ _ fun kind => ?_⟩
  · exact List.ne_nil_of_length_pos (by decide +kernel)
  · decide +kernel
  · cases kind <;> decide

end Cts.Tc
