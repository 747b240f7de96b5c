import Cts.Tc.Locks
import Cts.Tc.Moves
import Cts.Tc.Script

/-!
# The queues stay small

A trade begins when there is room for its position beside all positions and all callers that are
locked, and it holds its room through the lock.
-/

namespace Cts.Tc

open Lib CurrentPositionTrait

variable {cfg : TcConfig} {s s' : TcState} {kind : PositionKind}

/-! ## How much there is -/

/-- The keys of the current positions of a kind. -/
def Book.currentKeys (b : Book) : PositionKind → List PositionId
  | .Cycles => b.cycles_positions.keys
  | .Token => b.token_positions.keys

def Book.kindIds (b : Book) (kind : PositionKind) : Multiset PositionId :=
  (b.currentKeys kind : Multiset PositionId) + (b.void_positions kind).keys

/-- Positions of a kind only become void. -/
structure Shrinks (b b' : Book) : Prop where
  current : ∀ kind, (b'.currentKeys kind).length ≤ (b.currentKeys kind).length
  ids : ∀ kind, b'.kindIds kind = b.kindIds kind

theorem Shrinks.refl (b : Book) : Shrinks b b := ⟨fun _ => le_rfl, fun _ => rfl⟩

theorem Shrinks.trans {b b₁ b₂ : Book} (h : Shrinks b b₁) (h' : Shrinks b₁ b₂) : Shrinks b b₂ :=
  ⟨fun kind => (h'.current kind).trans (h.current kind), fun kind => (h'.ids kind).trans (h.ids kind)⟩

theorem record_shrinks {b : Book} {ck tk : PositionId} {d : Deal}
    (hc : b.cycles_positions.get ck = some d.cycles_position)
    (ht : b.token_positions.get tk = some d.token_position) : Shrinks b (b.record ck tk d) := by
  have hkeys : ∀ kind, (b.record ck tk d).currentKeys kind = b.currentKeys kind := by
    intro kind
    cases kind
    · exact OrdMap.keys_insert_of_get _ _ _ _ hc
    · exact OrdMap.keys_insert_of_get _ _ _ _ ht
  refine ⟨fun kind => by rw [hkeys], fun kind => ?_⟩
  unfold Book.kindIds
  rw [hkeys]
  cases kind <;> rfl

theorem length_remove {κ ν : Type} [LinearOrder κ] (m : OrdMap κ ν) {k : κ} {v : ν}
    (h : m.get k = some v) : (m.remove k).keys.length ≤ m.keys.length := by
  rw [(m.keys_remove_perm k v h).length_eq]
  exact Nat.le_succ _

theorem void_cycles_shrinks {b : Book} (hb : BookIds b) {k : PositionId} {p : CyclesPosition}
    (hg : b.cycles_positions.get k = some p) (cause : PositionTerminationCause) (now : Nat) :
    Shrinks b (b.void_cycles_position k p cause now) := by
  obtain rfl := hb.cycles k p hg
  refine ⟨fun kind => ?_, fun kind => ?_⟩
  · cases kind
    · exact length_remove _ hg
    · exact le_rfl
  · cases kind
    · change ((b.cycles_positions.remove p.id).keys : Multiset PositionId) +
        (b.void_cycles_positions.insert p.id _).keys = b.cycles_positions.keys + b.void_cycles_positions.keys
      rw [OrdMap.coe_keys_insert _ _ _ (hb.cycles_not_void hg), OrdMap.coe_keys_remove _ _ _ hg,
        Multiset.cons_add, Multiset.add_cons]
    · rfl

theorem void_token_shrinks {b : Book} (hb : BookIds b) {k : PositionId} {p : TokenPosition}
    (hg : b.token_positions.get k = some p) (cause : PositionTerminationCause) (now : Nat) :
    Shrinks b (b.void_token_position k p cause now) := by
  obtain rfl := hb.token k p hg
  refine ⟨fun kind => ?_, fun kind => ?_⟩
  · cases kind
    · exact le_rfl
    · exact length_remove _ hg
  · cases kind
    · rfl
    · change ((b.token_positions.remove p.id).keys : Multiset PositionId) +
        (b.void_token_positions.insert p.id _).keys = b.token_positions.keys + b.void_token_positions.keys
      rw [OrdMap.coe_keys_insert _ _ _ (hb.token_not_void hg), OrdMap.coe_keys_remove _ _ _ hg,
        Multiset.cons_add, Multiset.add_cons]

theorem path_shrinks {L : Prop} {b b' : Book} {ds : List Deal} (h : BookPath L b ds b')
    (hb : BookIds b) : Shrinks b b' := by
  induction h with
  | nil => exact .refl b
  | deal _ hc ht _ _ ih => exact ih.trans (record_shrinks hc ht)
  | void_cycles hpath hg cause now ih =>
    exact ih.trans (void_cycles_shrinks (hpath.frame hb).inv hg cause now)
  | void_token hpath hg cause now ih =>
    exact ih.trans (void_token_shrinks (hpath.frame hb).inv hg cause now)

/-! ## A matching stops at full trade logs -/

section

variable {P M : Type} [CurrentPositionTrait P] [CurrentPositionTrait M]

omit [CurrentPositionTrait M] in
theorem retire_matcher_logs (env : MatchEnv) (b : MatchBook P M) (id : PositionId) :
    (b.retire_matcher env id).trade_logs = b.trade_logs := by
  unfold MatchBook.retire_matcher
  split <;> rfl

omit [CurrentPositionTrait P] in
theorem retire_matchee_logs (env : MatchEnv) (b : MatchBook P M) (id : PositionId) :
    (b.retire_matchee env id).trade_logs = b.trade_logs := by
  unfold MatchBook.retire_matchee
  split <;> rfl

omit [CurrentPositionTrait P] in
theorem retire_matchees_logs (env : MatchEnv) (ids : List PositionId) (b : MatchBook P M) :
    (ids.foldl (MatchBook.retire_matchee env) b).trade_logs = b.trade_logs := by
  induction ids generalizing b with
  | nil => rfl
  | cons id ids ih =>
    rw [List.foldl_cons, ih]
    exact retire_matchee_logs env b id

theorem match_loop_logs_le (env : MatchEnv) (mid : PositionId) (match_rate : Nat)
    (rest : List (PositionId × M)) (p : P) (s : MatchState P M) :
    (match_loop env mid match_rate rest p s).1.book.trade_logs.length ≤
      max s.book.trade_logs.length env.MAX_TRADE_LOGS := by
  induction rest generalizing p s with
  | nil => exact Nat.le_max_left _ _
  | cons e rest ih =>
    obtain ⟨key, m⟩ := e
    rw [match_loop]
    split
    · exact ih p s
    · split_ifs with hfull hstop
      · exact Nat.le_max_left _ _
      · exact Nat.le_max_left _ _
      · -- The trade that is made still fits.
        have hafter : ∀ t : Trade P M, (s.after env mid key t).book.trade_logs.length ≤
            max s.book.trade_logs.length env.MAX_TRADE_LOGS := by
          intro t
          change (s.book.trade_logs ++ [t.log]).length ≤ _
          rw [List.length_append, List.length_singleton]
          omega
        simp only
        split_ifs
        · rw [retire_matcher_logs]
          exact hafter _
        · exact (ih _ _).trans (max_le (hafter _) (Nat.le_max_right _ _))

theorem match_trades_logs_le (env : MatchEnv) (mid : PositionId) (b : MatchBook P M) :
    (match_trades env mid b).book.trade_logs.length ≤ max b.trade_logs.length env.MAX_TRADE_LOGS := by
  unfold match_trades
  split
  · exact Nat.le_max_left _ _
  · simp only [retire_matchees_logs]
    exact match_loop_logs_le _ _ _ _ _ _

end

theorem commit_logs_le (q : TradeQuest) (b : Book) (env : MatchEnv) (id : PositionId)
    (positor : Principal) : (q.match_trades b env id positor).book.trade_logs.length ≤
      max b.trade_logs.length env.MAX_TRADE_LOGS := by
  cases q with
  | cycles q => exact match_trades_logs_le env id _
  | tokens q => exact match_trades_logs_le env id _

/-! ## Room -/

/-- What the check of a trade leaves: room for ten more positions at least. -/
structure TradeRoom (cfg : TcConfig) (cm_data : CMData) (kind : PositionKind) : Prop where
  positions : cm_data.positions_len kind + (cm_data.mid_call_balance_locks kind).card + 10 <
    cfg.MAX_POSITIONS kind
  voids : (cm_data.void_positions kind).len + cm_data.positions_len kind +
    (cm_data.mid_call_balance_locks kind).card + 10 ≤ cfg.MAX_VOID_POSITIONS kind

theorem _trade_room {fees : PositionKind → Nat} {positions_storage_data trades_storage_data :
    LogStorageData} {cm_data cm_data' : CMData} {caller : Principal} {q : TradeQuest}
    (h : _trade cfg fees positions_storage_data trades_storage_data cm_data caller q = .ok cm_data') :
    TradeRoom cfg cm_data q.kind := by
  unfold _trade at h
  simp only at h
  split_ifs at h with hmin hrate hbuffer hroom
  obtain ⟨hpositions, hvoids⟩ := not_or.mp hroom
  constructor <;> omega

theorem positions_len_eq (cm_data : CMData) (kind : PositionKind) :
    cm_data.positions_len kind = (cm_data.currentKeys kind).length := by
  cases kind <;> exact (List.length_map _).symm

theorem void_len_eq (b : Book) (kind : PositionKind) :
    (b.void_positions kind).len = (b.void_positions kind).keys.length := (List.length_map _).symm

theorem kind_card (cm_data : CMData) (kind : PositionKind) :
    (cm_data.void_positions kind).len + cm_data.positions_len kind =
      (cm_data.kindIds kind).card := by
  unfold Book.kindIds
  rw [positions_len_eq, void_len_eq, Nat.add_comm, Multiset.card_add]
  rfl

structure Capacity (cfg : TcConfig) (s : TcState) : Prop where
  positions : ∀ kind, s.cm_data.positions_len kind + tradesInFlight s.calls kind ≤
    cfg.MAX_POSITIONS kind
  /-- Even if every current position is voided and every trade in flight is committed. -/
  voids : ∀ kind, (s.cm_data.void_positions kind).len + s.cm_data.positions_len kind +
    tradesInFlight s.calls kind ≤ cfg.MAX_VOID_POSITIONS kind
  trade_logs : s.cm_data.trade_logs.length ≤ cfg.MAX_TRADE_LOGS

theorem Capacity.less (h : Capacity cfg s)
    (hpositions : ∀ kind, s'.cm_data.positions_len kind + tradesInFlight s'.calls kind ≤
      s.cm_data.positions_len kind + tradesInFlight s.calls kind)
    (hvoids : ∀ kind, (s'.cm_data.void_positions kind).len + s'.cm_data.positions_len kind +
      tradesInFlight s'.calls kind ≤ (s.cm_data.void_positions kind).len +
        s.cm_data.positions_len kind + tradesInFlight s.calls kind)
    (hlogs : s'.cm_data.trade_logs.length ≤ s.cm_data.trade_logs.length) : Capacity cfg s' :=
  ⟨fun kind => (hpositions kind).trans (h.positions kind), fun kind => (hvoids kind).trans (h.voids kind),
    hlogs.trans h.trade_logs⟩

theorem Capacity.shrinks (h : Capacity cfg s) (hs : Shrinks s.cm_data.toBook s'.cm_data.toBook)
    (hcalls : s'.calls = s.calls) (hlogs : s'.cm_data.trade_logs = s.cm_data.trade_logs) :
    Capacity cfg s' := by
  refine h.less (fun kind => ?_) (fun kind => ?_) (by rw [hlogs])
  · rw [hcalls, positions_len_eq, positions_len_eq]
    exact Nat.add_le_add_right (hs.current kind) _
  · rw [hcalls, kind_card, kind_card, hs.ids]

theorem opens_ids {b : Book} {id : PositionId} (hid : id ∉ b.ids) (q : TradeQuest)
    (positor : Principal) (now : Nat) (kind : PositionKind) :
    ((q.opens b id positor now).currentKeys kind).length =
        (b.currentKeys kind).length + (if q.kind = kind then 1 else 0) ∧
      ((q.opens b id positor now).kindIds kind).card =
        (b.kindIds kind).card + (if q.kind = kind then 1 else 0) := by
  obtain ⟨hcnone, htnone⟩ := not_mem_ids hid
  unfold Book.kindIds
  rw [Multiset.card_add, Multiset.card_add]
  simp only [Multiset.coe_card]
  cases q with
  | cycles q =>
    have hkeys := (OrdMap.keys_insert_perm _ id (q.create_current_position id positor now)
      hcnone).length_eq
    cases kind
    · refine ⟨hkeys, ?_⟩
      change (b.cycles_positions.insert id _).keys.length + b.void_cycles_positions.keys.length =
        b.cycles_positions.keys.length + b.void_cycles_positions.keys.length + 1
      rw [hkeys, List.length_cons]
      omega
    · exact ⟨rfl, rfl⟩
  | tokens q =>
    have hkeys := (OrdMap.keys_insert_perm _ id (q.create_current_position id positor now)
      htnone).length_eq
    cases kind
    · exact ⟨rfl, rfl⟩
    · refine ⟨hkeys, ?_⟩
      change (b.token_positions.insert id _).keys.length + b.void_token_positions.keys.length =
        b.token_positions.keys.length + b.void_token_positions.keys.length + 1
      rw [hkeys, List.length_cons]
      omega

theorem Capacity.commits (h : Capacity cfg s) (hm : Market False s) {pre post : List UserCall}
    {c : UserCall} {q : TradeQuest} (hcalls : s.calls = pre ++ c :: post) (hq : c.quest = .trade q)
    (now : Nat) (instruction_counter : PositionId → Nat) :
    Capacity cfg { s.commit (s.match_env cfg now instruction_counter) c.caller q with
      calls := pre ++ post } := by
  have hadmitted := hm.admitted c (by rw [hcalls]; simp) q hq
  obtain ⟨hinv, -, hpath⟩ : OpensPath q s.cm_data.toBook (s.match_env cfg now instruction_counter)
    s.cm_data.positions_id_counter c.caller := opens_path hm.book hm.sound hm.fresh_id hadmitted _
  have hshrinks := path_shrinks hpath hinv
  have hopens := opens_ids hm.fresh_id q c.caller (s.match_env cfg now instruction_counter).now
  have hflight : ∀ kind, tradesInFlight s.calls kind =
      tradesInFlight (pre ++ post) kind + if q.kind = kind then 1 else 0 := by
    intro kind
    rw [hcalls, tradesInFlight_middle, hq]
    simp only [UserQuest.trades, decide_eq_true_eq]
  refine ⟨fun kind => ?_, fun kind => ?_, ?_⟩
  · have hle := h.positions kind
    have hcurrent := hshrinks.current kind
    rw [positions_len_eq, hflight] at hle
    rw [positions_len_eq]
    rw [(hopens kind).1] at hcurrent
    refine le_trans (Nat.add_le_add_right hcurrent _) ?_
    change _ + tradesInFlight (pre ++ post) kind ≤ _
    omega
  · have hle := h.voids kind
    have hids := congrArg Multiset.card (hshrinks.ids kind)
    rw [kind_card, hflight] at hle
    rw [kind_card]
    rw [(hopens kind).2] at hids
    refine le_trans (Nat.add_le_add_right (le_of_eq hids) _) ?_
    change _ + tradesInFlight (pre ++ post) kind ≤ _
    omega
  · refine (commit_logs_le q s.cm_data.toBook _ _ _).trans (max_le h.trade_logs ?_)
    exact le_rfl

theorem Capacity.pays (h : Capacity cfg s) (hf : PayoutFrame s s')
    (hremoved : ∀ kind, ∃ vps, s'.history.removed kind = s.history.removed kind ++ vps)
    (hmoved : ∃ tls, s'.history.moved = s.history.moved ++ tls) : Capacity cfg s' := by
  have hcurrent : ∀ kind, s'.cm_data.positions_len kind = s.cm_data.positions_len kind := by
    intro kind
    cases kind
    · exact congrArg OrdMap.len hf.cycles
    · exact congrArg OrdMap.len hf.token
  have hvoid : ∀ kind, (s'.cm_data.void_positions kind).len ≤ (s.cm_data.void_positions kind).len := by
    intro kind
    obtain ⟨vps, hvps⟩ := hremoved kind
    have hcard := congrArg Multiset.card (hf.voids kind)
    simp only [TcState.voids, Multiset.card_map, Multiset.card_add, Multiset.coe_card, hvps,
      List.length_append, OrdMap.values, List.length_map] at hcard
    unfold OrdMap.len
    omega
  refine h.less (fun kind => ?_) (fun kind => ?_) ?_
  · rw [hcurrent, hf.calls]
  · rw [hcurrent, hf.calls]
    exact Nat.add_le_add_right (Nat.add_le_add_right (hvoid kind) _) _
  · obtain ⟨tls, htls⟩ := hmoved
    have hlength := congrArg List.length hf.logs
    simp only [TcState.logs, List.length_map, List.length_append, htls] at hlength
    omega

/-! ## Every run -/

/-- A trade begins, with room for its position, or there are no more trades in flight. -/
inductive FlightMove (cfg : TcConfig) (s s' : TcState) : Prop
  | begins {caller : Principal} (q : TradeQuest) (hroom : TradeRoom cfg s.cm_data q.kind)
      (hcalls : s'.calls = ⟨caller, .trade q, none⟩ :: s.calls)
  | less (h : ∀ kind, tradesInFlight s'.calls kind ≤ tradesInFlight s.calls kind)

theorem flight_replied {pre post : List UserCall} {c : UserCall} (hc : s.calls = pre ++ c :: post)
    (r : Option LedgerTransferReturnType) (kind : PositionKind) :
    tradesInFlight (pre ++ { c with reply := r } :: post) kind ≤ tradesInFlight s.calls kind := by
  rw [hc, tradesInFlight_middle, tradesInFlight_middle]

theorem flight_ended {pre post : List UserCall} {c : UserCall} (hc : s.calls = pre ++ c :: post)
    (kind : PositionKind) : tradesInFlight (pre ++ post) kind ≤ tradesInFlight s.calls kind := by
  rw [hc, tradesInFlight_middle]
  exact Nat.le_add_right _ _

theorem flight_move (hstep : TcStep cfg s s') : FlightMove cfg s s' := by
  cases hstep with
  | @trade caller q cm_data h => exact .begins q (_trade_room h) rfl
  | @transfer_balance caller kind q cm_data h =>
    refine .less fun k => ?_
    change tradesInFlight (⟨caller, .transfer_balance kind q, none⟩ :: s.calls) k ≤ _
    rw [tradesInFlight_cons]
    exact le_rfl
  | deposit_executed block hc hr hq h => exact .less (flight_replied hc _)
  | balance_executed block hc hr hq h => exact .less (flight_replied hc _)
  | call_refused r hc hr hn => exact .less (flight_replied hc _)
  | trade_failed hc hr hq he => exact .less (flight_ended hc)
  | trade_committed now instruction_counter hc hr hq he => exact .less (flight_ended hc)
  | balance_replied hc hr hq => exact .less (flight_ended hc)
  | _ => exact .less fun _ => le_rfl

theorem Capacity.stays (h : Capacity cfg s) (hlocked : Locked s) (hq : Quiet s s')
    (hflight : FlightMove cfg s s') : Capacity cfg s' := by
  have hlen : ∀ kind, s'.cm_data.positions_len kind = s.cm_data.positions_len kind := by
    intro kind
    rw [positions_len_eq, positions_len_eq, hq.book]
  rcases hflight with ⟨q, hroom, hcalls⟩ | hless
  · obtain ⟨hpositions, hvoids⟩ := hroom
    have hlocks := hlocked.trades_le q.kind
    have hcons : ∀ kind, tradesInFlight s'.calls kind =
        tradesInFlight s.calls kind + if q.kind = kind then 1 else 0 := by
      intro kind
      rw [hcalls, tradesInFlight_cons]
      simp only [UserQuest.trades, decide_eq_true_eq]
    refine ⟨fun kind => ?_, fun kind => ?_, by rw [hq.book]; exact h.trade_logs⟩
    · rw [hlen, hcons]
      split_ifs with hkind
      · subst hkind
        omega
      · exact h.positions kind
    · rw [hlen, hcons, hq.book]
      split_ifs with hkind
      · subst hkind
        omega
      · exact h.voids kind
  · refine h.less (fun kind => ?_) (fun kind => ?_) (by rw [hq.book])
    · rw [hlen]
      exact Nat.add_le_add_left (hless kind) _
    · rw [hlen, hq.book]
      exact Nat.add_le_add_left (hless kind) _

theorem capacity_step (h : Capacity cfg s) (hm : Market False s) (hlocked : Locked s)
    (hstep : TcStep cfg s s') : Capacity cfg s' := by
  rcases market_move hm hstep with ⟨now, instruction_counter, hcalls, hq, rfl⟩ | ⟨hv, rfl⟩ |
    ⟨hf, hremoved, hmoved⟩ | ⟨hq⟩
  · exact h.commits hm hcalls hq now instruction_counter
  · rcases void_position_spec hm.book hv with ⟨p, hp, -, rfl⟩ | ⟨p, hp, -, rfl⟩
    · exact h.shrinks (void_cycles_shrinks hm.book hp _ _) rfl rfl
    · exact h.shrinks (void_token_shrinks hm.book hp _ _) rfl rfl
  · exact h.pays hf hremoved hmoved
  · exact h.stays hlocked hq (flight_move hstep)

/-- In every run there is room for every position, current or void, and for the trade logs. -/
theorem queues_stay_within_capacity (cfg : TcConfig) (s : TcState) (r : TcReachable cfg s) :
    Capacity cfg s := by
  refine r.invariant (fun s hinit => ?_) fun s s' r h hstep =>
    capacity_step h (market_inv r False.elim) (locked_inv r) hstep
  obtain ⟨fees, positions_module_hash, trades_module_hash, ledger, rfl⟩ := hinit
  refine ⟨fun kind => ?_, fun kind => ?_, Nat.zero_le _⟩
  · cases kind <;> exact Nat.zero_le _
  · cases kind <;> exact Nat.zero_le _

theorem short_run_stays_within_capacity : Sample.final.cm_data.void_cycles_positions.len = 1 ∧
    Capacity Sample.config Sample.final :=
  ⟨by decide +kernel, queues_stay_within_capacity _ _ Sample.final_reachable⟩

end Cts.Tc
