import Cts.Tc.Drain
import Cts.Tc.Pipeline

/-!
# Something to pay out wakes the contract

`_trade`, `void_position` and `do_payouts` set timers. An upgrade loses them, and `post_upgrade`
sets none.
-/

namespace Cts.Tc

open Lib Lib.Jobs

/-! ## Timers -/

/-- Which of its two flushes a `do_payouts` waits for. -/
structure Awaits where
  trades : Bool
  positions : Bool

def Awaits.none : Awaits := ⟨false, false⟩

/-- A flush that has ended is not waited for. -/
def Awaits.after (tc : TcState) (a : Awaits) : Awaits :=
  { trades := a.trades && !tc.trades_storage.flushes.isEmpty
    positions := a.positions && !tc.positions_storage.flushes.isEmpty }

/-- The `futures::join!` of a `do_payouts`: it waits for the flushes that its own `flush_logs` began. -/
def TcState.join (s : TcState) (cfg : TcConfig) (trades_env positions_env : FlushEnv) : Awaits :=
  { trades := ((store_trade_logs s.trades_storage (move_trade_logs s.cm_data.trade_logs).1).data.flush_logs
      cfg.flush trades_env).2.isSome
    positions := (s.positions_storage.data.flush_logs cfg.flush positions_env).2.isSome }

/-- A contract with its timers for `do_payouts` and the `do_payouts` that wait for flushes. `timersLost`
tells that no timer was set since an upgrade. -/
structure WakeState where
  tc : TcState
  timers : Nat
  awaits : List Awaits
  timersLost : Bool

namespace WakeState

def goOn (w : WakeState) (tc : TcState) : WakeState :=
  { w with tc := tc, awaits := w.awaits.map (Awaits.after tc) }

def setTimer (w : WakeState) : WakeState :=
  { w with timers := w.timers + 1, timersLost := false }

def fire (w : WakeState) : WakeState :=
  { w with
    tc := { w.tc with do_payouts_calls := w.tc.do_payouts_calls + 1 }
    timers := w.timers - 1 }

end WakeState

instance (b : Book) : Decidable (nothing_to_pay_out b) :=
  inferInstanceAs (Decidable (b.void_cycles_positions.len = 0 ∧ b.void_token_positions.len = 0 ∧
    b.trade_logs.length = 0))

/-- At its end `do_payouts` sets a timer when something is left. -/
def WakeState.endDoPayouts (w : WakeState) : WakeState :=
  if nothing_to_pay_out w.tc.cm_data.toBook then w else w.setTimer

inductive WakeStep (cfg : TcConfig) : WakeState → WakeState → Prop
  | trade_ended {w : WakeState} {tc : TcState} (h : TcStep cfg w.tc tc)
      (ht : pendingTrades tc.calls < pendingTrades w.tc.calls) :
      WakeStep cfg w (w.goOn tc).setTimer
  | position_voided {w : WakeState} {caller : Principal} {position_id : PositionId} {now : Nat}
      {b : Book} (h : void_position_ w.tc.cm_data.toBook caller position_id now = .ok b) :
      WakeStep cfg w
        { w with tc := { w.tc with cm_data := { w.tc.cm_data with toBook := b } } }.setTimer
  | position_not_voided {w : WakeState} {caller : Principal} {position_id : PositionId} {now : Nat}
      {e : VoidPositionError}
      (h : void_position_ w.tc.cm_data.toBook caller position_id now = .error e) :
      WakeStep cfg w w.setTimer
  | fired_for_nothing {w : WakeState} (ht : 0 < w.timers)
      (h : nothing_to_pay_out w.tc.cm_data.toBook) :
      WakeStep cfg w { w with timers := w.timers - 1 }
  | fired {w : WakeState} (ht : 0 < w.timers) (h : ¬ nothing_to_pay_out w.tc.cm_data.toBook) :
      WakeStep cfg w w.fire
  | do_payouts_replied {w : WakeState} (trades_env positions_env : FlushEnv)
      (h : 0 < w.tc.do_payouts_calls) :
      WakeStep cfg w
        { w with
          tc :=
            { w.tc.move_and_flush cfg trades_env positions_env with
              do_payouts_calls := w.tc.do_payouts_calls - 1 }
          awaits := w.awaits ++ [w.tc.join cfg trades_env positions_env] }
  | do_payouts_flushed {w : WakeState} {before after : List Awaits}
      (h : w.awaits = before ++ .none :: after) :
      WakeStep cfg w { w with awaits := before ++ after }.endDoPayouts
  | do_payouts_failed {w : WakeState} (e : CallError) (h : 0 < w.tc.do_payouts_calls) :
      WakeStep cfg w
        { w with
          tc :=
            { w.tc with
              cm_data := { w.tc.cm_data with
                do_payouts_errors := w.tc.cm_data.do_payouts_errors ++ [e] }
              do_payouts_calls := w.tc.do_payouts_calls - 1 } }.endDoPayouts
  -- The contract is stopped for it, so that nothing waits for an answer, and keeps its data.
  | upgraded {w : WakeState} (hcalls : w.tc.calls = []) (hruns : w.tc.runs = [])
      (hpayouts : w.tc.do_payouts_calls = 0) (hawaits : w.awaits = [])
      (hpositions : w.tc.positions_storage.flushes = [])
      (htrades : w.tc.trades_storage.flushes = []) :
      WakeStep cfg w { w with timers := 0, timersLost := true }
  -- a message that ends no trade, voids no position and is not one of `do_payouts`
  | other {w : WakeState} {tc : TcState} (h : TcStep cfg w.tc tc)
      (hcalls : tc.do_payouts_calls = w.tc.do_payouts_calls)
      (htrades : pendingTrades w.tc.calls ≤ pendingTrades tc.calls)
      (hcycles : tc.cm_data.cycles_positions = w.tc.cm_data.cycles_positions)
      (htoken : tc.cm_data.token_positions = w.tc.cm_data.token_positions) :
      WakeStep cfg w (w.goOn tc)

def WakeInit (cfg : TcConfig) (w : WakeState) : Prop :=
  TcInit cfg w.tc ∧ w.timers = 0 ∧ w.awaits = [] ∧ w.timersLost = false

abbrev WakeReachable (cfg : TcConfig) : WakeState → Prop := Reachable (WakeInit cfg) (WakeStep cfg)

variable {cfg : TcConfig} {w w' : WakeState} {s s' : TcState} {kind : PositionKind}

@[simp]
theorem WakeState.endDoPayouts_tc (w : WakeState) : w.endDoPayouts.tc = w.tc := by
  unfold endDoPayouts
  split_ifs
  · rfl
  · rfl

@[simp]
theorem WakeState.endDoPayouts_awaits (w : WakeState) : w.endDoPayouts.awaits = w.awaits := by
  unfold endDoPayouts
  split_ifs
  · rfl
  · rfl

theorem wake_step_tc (r : TcReachable cfg w.tc) (h : WakeStep cfg w w') : TcReachable cfg w'.tc := by
  cases h with
  | trade_ended h _ | other h _ _ _ _ => exact r.next h
  | position_voided h => exact r.next (.void_position h)
  | fired _ h => exact r.next (.do_payouts h)
  | do_payouts_replied trades_env positions_env h =>
    exact r.next (.do_payouts_replied trades_env positions_env h)
  | do_payouts_failed e h =>
    rw [WakeState.endDoPayouts_tc]
    exact r.next (.do_payouts_failed e h)
  | do_payouts_flushed =>
    rw [WakeState.endDoPayouts_tc]
    exact r
  | position_not_voided | fired_for_nothing | upgraded => exact r

theorem wake_tc (r : WakeReachable cfg w) : TcReachable cfg w.tc :=
  r.invariant (I := fun w => TcReachable cfg w.tc) (fun _ h => .start h.1)
    fun _ _ _ h hstep => wake_step_tc h hstep

theorem pendingTrades_middle {pre post : List UserCall} {c : UserCall} {q : TradeQuest}
    (hq : c.quest = .trade q) :
    pendingTrades (pre ++ post) < pendingTrades (pre ++ c :: post) := by
  have htrades : c.quest.trades q.kind = true := by simp [hq, UserQuest.trades]
  unfold pendingTrades
  rw [tradesInFlight_middle, tradesInFlight_middle]
  cases hk : q.kind <;> simp only [hk] at htrades <;> rw [if_pos htrades] <;> omega

/-- What a step that is no upgrade leaves of the timers and of what is waited for. -/
structure WakeFollows (w w' : WakeState) : Prop where
  timersLost : w.timersLost = false → w'.timersLost = false
  awaits : w.tc.do_payouts_calls ≤ w'.tc.do_payouts_calls → w.awaits = [] → w'.awaits = []

theorem follows_goOn (w : WakeState) (tc : TcState) : WakeFollows w (w.goOn tc) :=
  ⟨id, fun _ h => List.map_eq_nil_iff.mpr h⟩

theorem wake_of_step (h : TcStep cfg w.tc s)
    (ht : 0 < w.timers ∨ s.do_payouts_calls ≤ w.tc.do_payouts_calls) :
    ∃ w', WakeStep cfg w w' ∧ w'.tc = s ∧ WakeFollows w w' := by
  by_cases hends : pendingTrades s.calls < pendingTrades w.tc.calls
  · exact ⟨_, .trade_ended h hends, rfl, fun _ => rfl, (follows_goOn w s).awaits⟩
  by_cases hsame : s.do_payouts_calls = w.tc.do_payouts_calls ∧
      s.cm_data.cycles_positions = w.tc.cm_data.cycles_positions ∧
      s.cm_data.token_positions = w.tc.cm_data.token_positions
  · exact ⟨_, .other h hsame.1 (not_lt.mp hends) hsame.2.1 hsame.2.2, rfl, follows_goOn w s⟩
  cases h with
  | @trade_committed pre post c q r now instruction_counter hc hr hquest he =>
    rw [hc] at hends
    exact absurd (pendingTrades_middle hquest) hends
  | void_position h => exact ⟨_, .position_voided h, rfl, fun _ => rfl, fun _ => id⟩
  | do_payouts h =>
    exact ⟨_, .fired (ht.resolve_right (Nat.not_succ_le_self _)) h, rfl, id, fun _ => id⟩
  | do_payouts_replied trades_env positions_env h =>
    refine ⟨_, .do_payouts_replied trades_env positions_env h, rfl, id, fun hle => ?_⟩
    have hle : w.tc.do_payouts_calls ≤ w.tc.do_payouts_calls - 1 := hle
    omega
  | do_payouts_failed e h =>
    refine ⟨_, .do_payouts_failed e h, WakeState.endDoPayouts_tc _, fun hl => ?_, fun _ ha => ?_⟩
    · unfold WakeState.endDoPayouts
      split_ifs
      · exact hl
      · rfl
    · rw [WakeState.endDoPayouts_awaits]
      exact ha
  | trade h =>
    obtain ⟨rfl, -⟩ := _trade_spec h
    exact absurd ⟨rfl, rfl, rfl⟩ hsame
  | transfer_balance h =>
    obtain ⟨rfl, -⟩ := _transfer_balance_spec h
    exact absurd ⟨rfl, rfl, rfl⟩ hsame
  | payouts_started h =>
    obtain ⟨vcs, vts, tls, rfl⟩ := (_do_payouts_spec h).same
    exact absurd ⟨rfl, rfl, rfl⟩ hsame
  | _ => exact absurd ⟨rfl, rfl, rfl⟩ hsame

/-! ## What stays nothing -/

theorem nothing_of_slots (h : ∀ q, s.cm_data.slots q = 0) : nothing_to_pay_out s.cm_data.toBook := by
  have hvoids : ∀ kind, (s.cm_data.void_positions kind).len = 0 := by
    intro kind
    have hslots := congrArg Multiset.card (h (.void kind))
    change Multiset.card (voidSlots (s.cm_data.void_positions kind)) = 0 at hslots
    simpa [voidSlots, OrdMap.values, OrdMap.len] using hslots
  have hlogs := congrArg Multiset.card (h (.trade .Cycles))
  change Multiset.card ((s.cm_data.trade_logs.map _ : List PayoutSlot) : Multiset PayoutSlot) = 0
    at hlogs
  rw [Multiset.coe_card, List.length_map] at hlogs
  exact ⟨hvoids .Cycles, hvoids .Token, hlogs⟩

theorem Worked.nothing (h : Worked s s') (hn : nothing_to_pay_out s.cm_data.toBook) :
    nothing_to_pay_out s'.cm_data.toBook := by
  refine nothing_of_slots fun q => ?_
  have hle : Multiset.card (s'.cm_data.slots q) ≤ Multiset.card (s.cm_data.slots q) :=
    slots_works (h.payouts q)
  rw [nothing_slots hn q, Multiset.card_zero] at hle
  exact Multiset.card_eq_zero.mp (Nat.le_zero.mp hle)

theorem void_position_changes {b b' : Book} {caller : Principal} {position_id : PositionId} {now : Nat}
    (hb : BookIds b) (h : void_position_ b caller position_id now = .ok b')
    (hcycles : b'.cycles_positions = b.cycles_positions) :
    b'.token_positions ≠ b.token_positions := by
  rcases void_position_spec hb h with ⟨p, hp, -, rfl⟩ | ⟨p, hp, -, rfl⟩
  · have hget : (b.cycles_positions.remove position_id).get position_id = some p := by
      rw [← hp]
      exact congrArg (OrdMap.get · position_id) hcycles
    rw [OrdMap.get_remove_self] at hget
    cases hget
  · intro htoken
    have hget : (b.token_positions.remove position_id).get position_id = some p := by
      rw [← hp]
      exact congrArg (OrdMap.get · position_id) htoken
    rw [OrdMap.get_remove_self] at hget
    cases hget

/-- Only a trade and a void position bring something to pay out. -/
theorem other_nothing (r : TcReachable cfg s) (h : TcStep cfg s s')
    (htrades : pendingTrades s.calls ≤ pendingTrades s'.calls)
    (hcycles : s'.cm_data.cycles_positions = s.cm_data.cycles_positions)
    (htoken : s'.cm_data.token_positions = s.cm_data.token_positions)
    (hn : nothing_to_pay_out s.cm_data.toBook) : nothing_to_pay_out s'.cm_data.toBook := by
  have hm : Market False s := market_inv r False.elim
  have hq := queues_inv r
  cases h with
  | @trade_committed pre post c q r now instruction_counter hc hr hquest he =>
    rw [hc] at htrades
    exact absurd (pendingTrades_middle hquest) (not_lt.mpr htrades)
  | void_position hv => exact absurd htoken (void_position_changes hm.book hv hcycles)
  | do_payouts_replied trades_env positions_env _ =>
    exact (moved_worked trades_env positions_env _).nothing hn
  | payouts_started hp => exact (started_worked hp).nothing hn
  | payouts_ended hr hf => exact (ended_worked hm hq hr hf).nothing hn
  | trade ht =>
    obtain ⟨rfl, -⟩ := _trade_spec ht
    exact hn
  | transfer_balance ht =>
    obtain ⟨rfl, -⟩ := _transfer_balance_spec ht
    exact hn
  | _ => exact hn

/-! ## Runs -/

/-- Something to pay out has a timer set for it, or a `do_payouts` under way. -/
def Woken (w : WakeState) : Prop :=
  nothing_to_pay_out w.tc.cm_data.toBook ∨ w.timersLost = true ∨
    0 < w.timers + w.tc.do_payouts_calls + w.awaits.length

theorem woken_timer (w : WakeState) : Woken w.setTimer :=
  Or.inr (Or.inr (by simp only [WakeState.setTimer]; omega))

theorem woken_at_end (w : WakeState) : Woken w.endDoPayouts := by
  unfold WakeState.endDoPayouts
  split_ifs with hn
  · exact Or.inl hn
  · exact woken_timer w

theorem woken_step (r : TcReachable cfg w.tc) (hw : Woken w) (h : WakeStep cfg w w') : Woken w' := by
  cases h with
  | trade_ended | position_voided | position_not_voided => exact woken_timer _
  | fired_for_nothing _ hn => exact Or.inl hn
  | fired =>
    refine Or.inr (Or.inr ?_)
    simp only [WakeState.fire]
    omega
  | do_payouts_replied =>
    refine Or.inr (Or.inr ?_)
    simp only [List.length_append, List.length_singleton]
    omega
  | do_payouts_flushed => exact woken_at_end _
  | do_payouts_failed => exact woken_at_end _
  | upgraded => exact Or.inr (Or.inl rfl)
  | other h hcalls htrades hcycles htoken =>
    refine hw.imp (other_nothing r h htrades hcycles htoken) fun hw => hw.imp_right fun hpos => ?_
    simp only [WakeState.goOn, hcalls, List.length_map]
    exact hpos

theorem woken_inv (r : WakeReachable cfg w) : Woken w := by
  refine r.invariant ?_ fun _ _ r h hstep => woken_step (wake_tc r) h hstep
  rintro w ⟨⟨fees, positions_module_hash, trades_module_hash, ledger, htc⟩, -, -, -⟩
  refine Or.inl ?_
  rw [htc]
  exact ⟨rfl, rfl, rfl⟩

/-- What is waited for is under way. -/
def Awaits.Held (tc : TcState) (a : Awaits) : Prop :=
  (a.trades = true → tc.trades_storage.flushes ≠ []) ∧
    (a.positions = true → tc.positions_storage.flushes ≠ [])

theorem Awaits.held_after (tc : TcState) (a : Awaits) : (a.after tc).Held tc := by
  unfold after Held
  simp

theorem Awaits.held_goOn (w : WakeState) (tc : TcState) :
    ∀ a ∈ (w.goOn tc).awaits, a.Held (w.goOn tc).tc := by
  intro a ha
  obtain ⟨a, -, rfl⟩ := List.mem_map.mp ha
  exact held_after tc a

theorem Awaits.Held.grows {tc tc' : TcState} {a : Awaits} {trades positions : List FlushRun}
    (h : a.Held tc) (ht : tc'.trades_storage.flushes = tc.trades_storage.flushes ++ trades)
    (hp : tc'.positions_storage.flushes = tc.positions_storage.flushes ++ positions) :
    a.Held tc' := by
  refine ⟨fun ha hnil => h.1 ha ?_, fun ha hnil => h.2 ha ?_⟩
  · exact (List.append_eq_nil_iff.mp (ht.symm.trans hnil)).1
  · exact (List.append_eq_nil_iff.mp (hp.symm.trans hnil)).1

theorem store_trade_logs_flushes (storage : LogStorage PositionId)
    (moved : List TradeLogAndTemporaryData) :
    (store_trade_logs storage moved).flushes = storage.flushes := by
  unfold store_trade_logs
  induction moved generalizing storage with
  | nil => rfl
  | cons tl moved ih => exact ih (storage.append tl.log.stable_memory_serialize)

theorem held_step (hw : ∀ a ∈ w.awaits, a.Held w.tc) (h : WakeStep cfg w w') :
    ∀ a ∈ w'.awaits, a.Held w'.tc := by
  cases h with
  | trade_ended | other => exact Awaits.held_goOn w _
  | position_voided | position_not_voided | fired_for_nothing | fired | upgraded => exact hw
  | do_payouts_failed =>
    intro a ha
    rw [WakeState.endDoPayouts_awaits] at ha
    rw [WakeState.endDoPayouts_tc]
    exact hw a ha
  | @do_payouts_flushed before after h =>
    intro a ha
    rw [WakeState.endDoPayouts_awaits] at ha
    rw [WakeState.endDoPayouts_tc]
    refine hw a ?_
    rw [h]
    rcases List.mem_append.mp ha with ha | ha
    · exact List.mem_append_left _ ha
    · exact List.mem_append_right _ (List.mem_cons_of_mem _ ha)
  | do_payouts_replied trades_env positions_env =>
    intro a ha
    have htrades := congrArg (· ++ ((store_trade_logs w.tc.trades_storage (move_trade_logs
      w.tc.cm_data.trade_logs).1).data.flush_logs cfg.flush trades_env).2.toList)
        (store_trade_logs_flushes w.tc.trades_storage (move_trade_logs w.tc.cm_data.trade_logs).1)
    rcases List.mem_append.mp ha with ha | ha
    · exact (hw a ha).grows htrades rfl
    · -- What its own `flush_logs` began is now the last flush under way.
      rw [List.mem_singleton.mp ha]
      refine ⟨fun hsome => ?_, fun hsome => ?_⟩
      · obtain ⟨run, hrun⟩ := Option.isSome_iff_exists.mp hsome
        refine fun hnil => absurd (htrades.symm.trans hnil) ?_
        simp [hrun]
      · obtain ⟨run, hrun⟩ := Option.isSome_iff_exists.mp hsome
        change w.tc.positions_storage.flushes ++
          (w.tc.positions_storage.data.flush_logs cfg.flush positions_env).2.toList ≠ []
        simp [hrun]

theorem held_inv (r : WakeReachable cfg w) : ∀ a ∈ w.awaits, a.Held w.tc := by
  refine r.invariant (I := fun w => ∀ a ∈ w.awaits, a.Held w.tc) ?_
    fun _ _ _ h hstep => held_step h hstep
  rintro w ⟨-, -, hawaits, -⟩ a ha
  rw [hawaits] at ha
  exact absurd ha List.not_mem_nil

/-! ## By itself -/

/-- A step of `do_payouts` and its flushes: a timer fires, a flush goes on, the last of its flushes has
ended. -/
inductive OwnStep (cfg : TcConfig) : WakeState → WakeState → Prop
  | fired {w : WakeState} (ht : 0 < w.timers) (h : ¬ nothing_to_pay_out w.tc.cm_data.toBook) :
      OwnStep cfg w w.fire
  | positions_flush {w : WakeState} {storage : LogStorage Principal}
      (h : FlushAlone PositionLog.storage cfg.flush w.tc.positions_storage storage) :
      OwnStep cfg w (w.goOn { w.tc with positions_storage := storage })
  | trades_flush {w : WakeState} {storage : LogStorage PositionId}
      (h : FlushAlone TradeLog.storage cfg.flush w.tc.trades_storage storage) :
      OwnStep cfg w (w.goOn { w.tc with trades_storage := storage })
  | do_payouts_flushed {w : WakeState} {before after : List Awaits}
      (h : w.awaits = before ++ .none :: after) :
      OwnStep cfg w { w with awaits := before ++ after }.endDoPayouts

theorem OwnStep.wake (h : OwnStep cfg w w') : WakeStep cfg w w' := by
  cases h with
  | fired ht h => exact .fired ht h
  | positions_flush h => exact .other (.positions_flush h.step) rfl le_rfl rfl rfl
  | trades_flush h => exact .other (.trades_flush h.step) rfl le_rfl rfl rfl
  | do_payouts_flushed h => exact .do_payouts_flushed h

theorem own_runs_wake (r : WakeReachable cfg w) (h : Runs (OwnStep cfg) w w') :
    WakeReachable cfg w' :=
  r.trans (h.mono fun _ _ => OwnStep.wake)

/-- What the flushes leave as it is. -/
structure FlushesGoOn (w w' : WakeState) : Prop where
  book : w'.tc.cm_data.toBook = w.tc.cm_data.toBook
  awaits : w'.awaits.length = w.awaits.length

theorem positions_flush_own {storage : LogStorage Principal}
    (h : Runs (FlushAlone PositionLog.storage cfg.flush) w.tc.positions_storage storage) :
    ∃ w', Runs (OwnStep cfg) w w' ∧ FlushesGoOn w w' ∧
      w'.tc = { w.tc with positions_storage := storage } := by
  induction h with
  | start h =>
    subst h
    exact ⟨w, .start rfl, ⟨rfl, rfl⟩, rfl⟩
  | @next storage storage' _ hstep ih =>
    obtain ⟨w', hruns, hgo, htc⟩ := ih
    have hstep : FlushAlone PositionLog.storage cfg.flush w'.tc.positions_storage storage' := by
      rw [htc]
      exact hstep
    refine ⟨_, hruns.next (.positions_flush hstep), ⟨?_, ?_⟩, ?_⟩
    · exact hgo.book
    · exact (List.length_map _).trans hgo.awaits
    · simp only [WakeState.goOn, htc]

theorem trades_flush_own {storage : LogStorage PositionId}
    (h : Runs (FlushAlone TradeLog.storage cfg.flush) w.tc.trades_storage storage) :
    ∃ w', Runs (OwnStep cfg) w w' ∧ FlushesGoOn w w' ∧
      w'.tc = { w.tc with trades_storage := storage } := by
  induction h with
  | start h =>
    subst h
    exact ⟨w, .start rfl, ⟨rfl, rfl⟩, rfl⟩
  | @next storage storage' _ hstep ih =>
    obtain ⟨w', hruns, hgo, htc⟩ := ih
    have hstep : FlushAlone TradeLog.storage cfg.flush w'.tc.trades_storage storage' := by
      rw [htc]
      exact hstep
    refine ⟨_, hruns.next (.trades_flush hstep), ⟨?_, ?_⟩, ?_⟩
    · exact hgo.book
    · exact (List.length_map _).trans hgo.awaits
    · simp only [WakeState.goOn, htc]

/-- The flushes that a `do_payouts` waits for can end. -/
theorem flushes_end (r : TcReachable cfg w.tc) (hids : w.tc.cm_data.positions_id_counter ≤ 2 ^ 128) :
    ∃ w', Runs (OwnStep cfg) w w' ∧ FlushesGoOn w w' ∧ w'.tc.positions_storage.flushes = [] ∧
      w'.tc.trades_storage.flushes = [] := by
  obtain ⟨logs, hrecorded⟩ := recorded_inv r hids
  obtain ⟨positions, hpositions, hpnil⟩ : ∃ storage, Runs (FlushAlone PositionLog.storage cfg.flush)
    w.tc.positions_storage storage ∧ storage.flushes = [] := flush_can_end hrecorded.storage
  obtain ⟨trades, htrades, htnil⟩ : ∃ storage, Runs (FlushAlone TradeLog.storage cfg.flush)
    w.tc.trades_storage storage ∧ storage.flushes = [] := flush_can_end (moved_inv r).stored
  obtain ⟨w₁, hruns₁, hgo₁, htc₁⟩ := positions_flush_own hpositions
  have htrades : Runs (FlushAlone TradeLog.storage cfg.flush) w₁.tc.trades_storage trades := by
    rw [htc₁]
    exact htrades
  obtain ⟨w₂, hruns₂, hgo₂, htc₂⟩ := trades_flush_own htrades
  refine ⟨w₂, hruns₁.trans hruns₂, ⟨hgo₂.book.trans hgo₁.book, hgo₂.awaits.trans hgo₁.awaits⟩, ?_, ?_⟩
  · rw [htc₂, htc₁]
    exact hpnil
  · rw [htc₂]
    exact htnil

theorem fires (ht : 0 < w.timers) (hn : ¬ nothing_to_pay_out w.tc.cm_data.toBook) :
    ∃ w', Runs (OwnStep cfg) w w' ∧ 0 < w'.tc.do_payouts_calls :=
  ⟨_, .next (.start rfl) (.fired ht hn), Nat.succ_pos _⟩

theorem waiting_fires (r : WakeReachable cfg w) (hids : w.tc.cm_data.positions_id_counter ≤ 2 ^ 128)
    (hsome : ¬ nothing_to_pay_out w.tc.cm_data.toBook) (hawaits : w.awaits ≠ []) :
    ∃ w', Runs (OwnStep cfg) w w' ∧ 0 < w'.tc.do_payouts_calls := by
  obtain ⟨w₁, hruns₁, hgo, hpositions, htrades⟩ := flushes_end (wake_tc r) hids
  have hlen := List.length_pos_of_ne_nil hawaits
  rw [← hgo.awaits] at hlen
  obtain ⟨a, rest, ha⟩ := List.exists_cons_of_length_pos hlen
  have hheld := held_inv (own_runs_wake r hruns₁) a (by rw [ha]; exact List.mem_cons_self)
  obtain rfl : a = .none := by
    obtain ⟨trades, positions⟩ := a
    have ht : trades = false := Bool.eq_false_iff.mpr fun h => hheld.1 h htrades
    have hp : positions = false := Bool.eq_false_iff.mpr fun h => hheld.2 h hpositions
    rw [ht, hp]
    rfl
  have hsome₁ : ¬ nothing_to_pay_out w₁.tc.cm_data.toBook := by rwa [hgo.book]
  have hend : OwnStep cfg w₁ { w₁ with awaits := rest }.endDoPayouts :=
    .do_payouts_flushed (show w₁.awaits = [] ++ _ :: rest from ha)
  rw [WakeState.endDoPayouts, if_neg hsome₁] at hend
  have hnext := hruns₁.next hend
  obtain ⟨w₂, hruns₂, hcalls⟩ := fires (w := { w₁ with awaits := rest }.setTimer)
    (Nat.succ_pos _) hsome₁
  exact ⟨w₂, hnext.trans hruns₂, hcalls⟩

theorem voided_something {b b' : Book} {caller : Principal} {position_id : PositionId} {now : Nat}
    (hb : BookIds b) (h : void_position_ b caller position_id now = .ok b') :
    ¬ nothing_to_pay_out b' := by
  rintro ⟨hcycles, htoken, -⟩
  rcases void_position_spec hb h with ⟨p, -, -, rfl⟩ | ⟨p, -, -, rfl⟩
  · have hnone := OrdMap.get_of_len_zero hcycles p.id
    exact Option.some_ne_none _ ((OrdMap.get_insert_self _ _ _).symm.trans hnone)
  · have hnone := OrdMap.get_of_len_zero htoken p.id
    exact Option.some_ne_none _ ((OrdMap.get_insert_self _ _ _).symm.trans hnone)

theorem void_position_fires (r : WakeReachable cfg w)
    (hsome : ¬ nothing_to_pay_out w.tc.cm_data.toBook) (caller : Principal)
    (position_id : PositionId) (now : Nat) :
    ∃ w₁, WakeStep cfg w w₁ ∧ w₁.timers = w.timers + 1 ∧
      (∀ e, void_position_ w.tc.cm_data.toBook caller position_id now = .error e → w₁.tc = w.tc) ∧
      ∃ w', Runs (OwnStep cfg) w₁ w' ∧ 0 < w'.tc.do_payouts_calls := by
  cases h : void_position_ w.tc.cm_data.toBook caller position_id now with
  | error e => exact ⟨_, .position_not_voided h, rfl, fun _ _ => rfl, fires (Nat.succ_pos _) hsome⟩
  | ok b =>
    have hm : Market False w.tc := market_inv (wake_tc r) False.elim
    refine ⟨_, .position_voided h, rfl, nofun, fires (Nat.succ_pos _) ?_⟩
    exact voided_something hm.book h

/-- Whenever something is to be paid out, and no upgrade has lost the timers, a timer is set or a
`do_payouts` is under way, and the contract gets by itself to where it has called its own
`do_payouts_public_method`. After an upgrade it does so from the next call of `void_position` on. -/
theorem something_to_pay_out_wakes (cfg : TcConfig) (w : WakeState) (r : WakeReachable cfg w)
    (hids : w.tc.cm_data.positions_id_counter ≤ 2 ^ 128)
    (hsome : ¬ nothing_to_pay_out w.tc.cm_data.toBook) :
    (w.timersLost = false → 0 < w.timers + w.tc.do_payouts_calls + w.awaits.length ∧
      ∃ w', Runs (OwnStep cfg) w w' ∧ 0 < w'.tc.do_payouts_calls) ∧
    ∀ caller position_id now, ∃ w₁, WakeStep cfg w w₁ ∧ w₁.timers = w.timers + 1 ∧
      (∀ e, void_position_ w.tc.cm_data.toBook caller position_id now = .error e → w₁.tc = w.tc) ∧
      ∃ w', Runs (OwnStep cfg) w₁ w' ∧ 0 < w'.tc.do_payouts_calls := by
  refine ⟨fun hl => ?_, void_position_fires r hsome⟩
  have hwoken := ((woken_inv r).resolve_left hsome).resolve_left (by rw [hl]; exact nofun)
  refine ⟨hwoken, ?_⟩
  by_cases hcalls : 0 < w.tc.do_payouts_calls
  · exact ⟨w, .start rfl, hcalls⟩
  by_cases ht : 0 < w.timers
  · exact fires ht hsome
  exact waiting_fires r hids hsome (List.ne_nil_of_length_pos (by omega))

/-! A gives a position up, which is then to be paid out. -/

/-- A contract on which nobody waits for a flush. -/
structure Idle (cfg : TcConfig) (w : WakeState) : Prop where
  reachable : WakeReachable cfg w
  timersLost : w.timersLost = false
  awaits : w.awaits = []

theorem wake_play {e : Event} (hs : ∃ w, Idle cfg w ∧ w.tc = s) (h : (s.play cfg e).isSome = true)
    (hcalls : ((s.play cfg e).getD s).do_payouts_calls = s.do_payouts_calls) :
    ∃ w, Idle cfg w ∧ w.tc = (s.play cfg e).getD s := by
  obtain ⟨w, hw, rfl⟩ := hs
  obtain ⟨t, ht⟩ := Option.isSome_iff_exists.mp h
  rw [ht] at hcalls ⊢
  obtain ⟨w', hstep, rfl, hfollows⟩ := wake_of_step (play_step ht) (Or.inr hcalls.le)
  exact ⟨w', ⟨hw.reachable.next hstep, hfollows.timersLost hw.timersLost,
    hfollows.awaits hcalls.ge hw.awaits⟩, rfl⟩

namespace Sample

def traded : TcState := (start.play config (.trade A buy)).getD start
def deposited : TcState := (traded.play config .deposit).getD traded
def committed : TcState := (deposited.play config (.commit 0)).getD deposited
def givenUp : TcState := (committed.play config (.void A 0 1)).getD committed

theorem given_up_idle : ∃ w, Idle config w ∧ w.tc = givenUp := by
  have hstart : ∃ w, Idle config w ∧ w.tc = start :=
    ⟨⟨start, 0, [], false⟩, ⟨.start ⟨⟨_, _, _, _, rfl⟩, rfl, rfl, rfl⟩, rfl, rfl⟩, rfl⟩
  have htraded := wake_play (e := .trade A buy) hstart (by decide +kernel) (by decide +kernel)
  have hdeposited := wake_play (e := .deposit) htraded (by decide +kernel) (by decide +kernel)
  have hcommitted := wake_play (e := .commit 0) hdeposited (by decide +kernel) (by decide +kernel)
  exact wake_play (e := .void A 0 1) hcommitted (by decide +kernel) (by decide +kernel)

theorem given_up_quiet : givenUp.calls = [] ∧ givenUp.runs = [] ∧ givenUp.do_payouts_calls = 0 ∧
    givenUp.positions_storage.flushes = [] ∧ givenUp.trades_storage.flushes = [] := by
  refine ⟨List.eq_nil_of_length_eq_zero ?_, List.eq_nil_of_length_eq_zero ?_, ?_,
    List.eq_nil_of_length_eq_zero ?_, List.eq_nil_of_length_eq_zero ?_⟩ <;> decide +kernel

end Sample

theorem given_up_position_wakes :
    (∃ w, w.tc = Sample.givenUp ∧ w.timersLost = false ∧
      0 < w.timers + w.tc.do_payouts_calls + w.awaits.length ∧
        ∃ w', Runs (OwnStep Sample.config) w w' ∧ 0 < w'.tc.do_payouts_calls) ∧
    ∃ w, w.tc = Sample.givenUp ∧ w.timersLost = true ∧
      w.timers + w.tc.do_payouts_calls + w.awaits.length = 0 ∧
        ∃ w₁, WakeStep Sample.config w w₁ ∧ w₁.timers = w.timers + 1 ∧
          ∃ w', Runs (OwnStep Sample.config) w₁ w' ∧ 0 < w'.tc.do_payouts_calls := by
  obtain ⟨w, hw, htc⟩ := Sample.given_up_idle
  have hids : w.tc.cm_data.positions_id_counter ≤ 2 ^ 128 := by
    rw [htc]
    decide +kernel
  have hsome : ¬ nothing_to_pay_out w.tc.cm_data.toBook := by
    rw [htc]
    decide +kernel
  obtain ⟨hcalls, hruns, hpayouts, hpositions, htrades⟩ := Sample.given_up_quiet
  rw [← htc] at hcalls hruns hpayouts hpositions htrades
  refine ⟨⟨w, htc, hw.timersLost, (something_to_pay_out_wakes _ w hw.reachable hids hsome).1
    hw.timersLost⟩, { w with timers := 0, timersLost := true }, htc, rfl, ?_, ?_⟩
  · simp only [hpayouts, hw.awaits]
    rfl
  · have r := hw.reachable.next (.upgraded hcalls hruns hpayouts hw.awaits hpositions htrades)
    obtain ⟨w₁, hstep, ht, -, hfires⟩ :=
      (something_to_pay_out_wakes _ _ r hids hsome).2 Sample.B 0 2
    exact ⟨w₁, hstep, ht, hfires⟩

end Cts.Tc
