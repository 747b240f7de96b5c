import Cts.Tc.Paid
import Cts.Tc.PositionSteps

/-!
# The minimum of a position

Each position of the book is worth ten times both ledger fees and 10000 at its own rate, so each
side of a trade still pays for its transfer after the trade fee.
-/

namespace Cts.Tc

open Lib CurrentPositionTrait

/-- How many cycles a quantity of the kind is worth at `rate`. -/
def PositionKind.cycles (kind : PositionKind) (quantity rate : Nat) : Nat :=
  match kind with
  | .Cycles => quantity
  | .Token => quantity * rate

section

variable {P M : Type} [CurrentPositionTrait P] [CurrentPositionTrait M]

structure AboveMinimum (cycles_fee token_fee : Nat) (p : P) : Prop where
  rate_ne : rateOf p ≠ 0
  tokens : minimum_match token_fee ≤
    (POSITION_KIND P).tokens (current_position_quantity p) (rateOf p)
  cycles : minimum_match cycles_fee ≤
    (POSITION_KIND P).cycles (current_position_quantity p) (rateOf p)

/-- A trade between two positions above the minimum. That its tokens are whole costs less than one
part in ten thousand of its cycles. -/
structure LogAbove (cycles_fee token_fee : Nat) (log : TradeLog) : Prop where
  tokens : minimum_match token_fee ≤ log.tokens
  cycles : 10000 * minimum_match cycles_fee ≤ 10001 * log.cycles

variable [LawfulPosition P] [LawfulPosition M] {env : MatchEnv}

theorem tokens_mul_le_cycles (kind : PositionKind) (quantity rate : Nat) :
    kind.tokens quantity rate * rate ≤ kind.cycles quantity rate := by
  cases kind with
  | Cycles => exact Nat.div_mul_le_self quantity rate
  | Token => exact le_rfl

theorem above_of_not_filled {p : P} (hr : rateOf p ≠ 0) (h : is_filled env p = false) :
    AboveMinimum env.cycles_fee env.token_fee p := by
  unfold is_filled at h
  simp only [Bool.or_eq_false_iff, decide_eq_false_iff_not, not_lt] at h
  rw [LawfulPosition.tokens_eq p _ hr] at h
  refine ⟨hr, h.1, h.2.trans ?_⟩
  exact (Word.mul_le 128 _ _).trans (tokens_mul_le_cycles _ _ _)

/-! ## One trade -/

theorem trade_cycles_ge {c t rate own minimum : Nat} (hrate : rate ≠ 0) (hown : own ≤ rate)
    (hn : 10000 ≤ min (c / rate) t) (hc : minimum ≤ c) (ht : minimum ≤ t * own) :
    10000 * minimum ≤ 10001 * (min (c / rate) t * rate) := by
  rcases le_total t (c / rate) with hle | hle
  · have hmul : t * own ≤ t * rate := Nat.mul_le_mul_left t hown
    rw [Nat.min_eq_right hle]
    omega
  · rw [Nat.min_eq_left hle] at hn ⊢
    have hlt : c < (c / rate + 1) * rate := by
      rw [Nat.mul_comm]
      exact Nat.lt_mul_div_succ c (Nat.pos_of_ne_zero hrate)
    -- The cycles that are left over buy less than one token of ten thousand.
    have hrest : 10000 * rate ≤ c / rate * rate := Nat.mul_le_mul_right rate hn
    rw [Nat.add_mul, Nat.one_mul] at hlt
    omega

theorem make_trade_above {p : P} {m : M} {rate : Nat} (id : Nat) (htoken : FeeFits env.token_fee)
    (hk : POSITION_KIND M = (POSITION_KIND P).other)
    (hp : AboveMinimum env.cycles_fee env.token_fee p)
    (hm : AboveMinimum env.cycles_fee env.token_fee m)
    (hb : is_this_position_better_than_or_equal_to_the_match_rate m (rateOf p) = some rate) :
    LogAbove env.cycles_fee env.token_fee (make_trade env p m rate id).log.log := by
  have hok := trade_ok hk hp.rate_ne hm.rate_ne hb
  have hmin := minimum_match_eq htoken
  have hptokens := tokens_ge_of_accepted hp.tokens hok.rate_ne (matcher_rate_ge hok.midpoint)
  have hmtokens := tokens_ge_of_accepted hm.tokens hok.rate_ne (matchee_rate_ge hk hok.midpoint)
  have htokens : (make_trade env p m rate id).log.log.tokens =
      min ((POSITION_KIND P).tokens (current_position_quantity p) rate)
        ((POSITION_KIND M).tokens (current_position_quantity m) rate) := by
    rw [← LawfulPosition.tokens_eq p rate hok.rate_ne, ← LawfulPosition.tokens_eq m rate hok.rate_ne]
    rfl
  have hcycles : (make_trade env p m rate id).log.log.cycles =
      (make_trade env p m rate id).log.log.tokens * rate := Word.mul_of_lt hok.fits
  have hn := le_min hptokens hmtokens
  refine ⟨htokens ▸ hn, ?_⟩
  rw [hcycles, htokens]
  have hn : 10000 ≤ min ((POSITION_KIND P).tokens (current_position_quantity p) rate)
      ((POSITION_KIND M).tokens (current_position_quantity m) rate) := by omega
  have hpcycles := hp.cycles
  have hmcycles := hm.cycles
  have hlo := hok.midpoint.lo_le
  rw [hk] at hmcycles hn ⊢
  unfold sideRates at hlo
  cases hkind : POSITION_KIND P with
  | Cycles =>
    rw [hkind] at hpcycles hmcycles hlo hn
    exact trade_cycles_ge hok.rate_ne hlo hn hpcycles hmcycles
  | Token =>
    rw [hkind] at hpcycles hmcycles hlo hn
    rw [Nat.min_comm] at hn ⊢
    exact trade_cycles_ge hok.rate_ne hlo hn hmcycles hpcycles

/-! ## The loop -/

/-- The positions that stay, and the trades so far. -/
structure LoopAbove (env : MatchEnv) (s : MatchState P M) : Prop where
  matchers : ∀ k p, s.book.matcher_positions.get k = some p →
    AboveMinimum env.cycles_fee env.token_fee p
  matchees : ∀ k m, s.book.matchee_positions.get k = some m →
    AboveMinimum env.cycles_fee env.token_fee m ∨ k ∈ s.remove_matchee_positions_fill
  trades : ∀ t ∈ s.trades, LogAbove env.cycles_fee env.token_fee t.log.log

variable {mid match_rate : Nat} {matcher : P} {s : MatchState P M}

section After

variable {t : Trade P M} {key : PositionId} (h : LoopAbove env s)
  (hlog : LogAbove env.cycles_fee env.token_fee t.log.log) (hid : CurrentPositionTrait.id t.matchee' = key)
  (hr : rateOf t.matchee' ≠ 0)

include h hid hr

omit [LawfulPosition P] in
theorem LoopAbove.after_matchees (k : PositionId) (m : M)
    (hg : (s.after env mid key t).book.matchee_positions.get k = some m) :
    AboveMinimum env.cycles_fee env.token_fee m ∨
      k ∈ (s.after env mid key t).remove_matchee_positions_fill := by
  simp only [MatchState.after, MatchBook.record, OrdMap.get_insert] at hg ⊢
  split_ifs at hg with hkey
  · obtain rfl := Option.some.inj hg
    cases hf : is_filled env t.matchee' with
    | true => right; simp [hid, hkey]
    | false => exact Or.inl (above_of_not_filled hr hf)
  · refine (h.matchees k m hg).imp_right fun hmem => ?_
    split_ifs
    · exact List.mem_append_left _ hmem
    · exact hmem

include hlog

omit [LawfulPosition P] in
theorem LoopAbove.after (hp : AboveMinimum env.cycles_fee env.token_fee t.matcher') :
    LoopAbove env (s.after env mid key t) := by
  refine ⟨fun k p hg => ?_, h.after_matchees hid hr, fun u hu => ?_⟩
  · simp only [MatchState.after, MatchBook.record, OrdMap.get_insert] at hg
    split_ifs at hg
    · obtain rfl := Option.some.inj hg
      exact hp
    · exact h.matchers k p hg
  · rcases List.mem_append.mp hu with hu | hu
    · exact h.trades u hu
    · rw [List.mem_singleton.mp hu]
      exact hlog

omit [LawfulPosition P] in
theorem LoopAbove.filled : LoopAbove env { s.after env mid key t with
    book := (s.after env mid key t).book.retire_matcher env mid } := by
  have hgetp : (s.after env mid key t).book.matcher_positions.get mid = some t.matcher' :=
    OrdMap.get_insert_self _ _ _
  refine ⟨fun k p hg => ?_, fun k m hg => ?_, fun u hu => ?_⟩
  · simp only [MatchBook.retire_matcher, hgetp, OrdMap.get_remove] at hg
    split_ifs at hg with hk
    have hother := OrdMap.get_insert_of_ne s.book.matcher_positions t.matcher' hk
    exact h.matchers k p (hother.symm.trans hg)
  · simp only [MatchBook.retire_matcher, hgetp] at hg
    exact h.after_matchees hid hr k m hg
  · rcases List.mem_append.mp hu with hu | hu
    · exact h.trades u hu
    · rw [List.mem_singleton.mp hu]
      exact hlog

end After

theorem match_loop_above (htoken : FeeFits env.token_fee)
    (hk : POSITION_KIND M = (POSITION_KIND P).other) (rest : List (PositionId × M))
    (hp : AboveMinimum env.cycles_fee env.token_fee matcher) (hrate : rateOf matcher = match_rate)
    (hrest : ∀ e ∈ rest, CurrentPositionTrait.id e.2 = e.1 ∧
      AboveMinimum env.cycles_fee env.token_fee e.2) (hs : LoopAbove env s) :
    LoopAbove env (match_loop env mid match_rate rest matcher s).1 := by
  induction rest generalizing matcher s with
  | nil => exact hs
  | cons e rest ih =>
    obtain ⟨key, m⟩ := e
    obtain ⟨hid, hm⟩ := hrest (key, m) List.mem_cons_self
    have htail := fun e he => hrest e (List.mem_cons_of_mem _ he)
    rw [match_loop]
    split
    · -- This matchee does not accept the rate.
      exact ih hp hrate htail hs
    · rename_i rate hsome
      split
      · exact hs
      split
      · exact hs
      rw [← hrate] at hsome
      have hlog := make_trade_above s.book.trade_logs_id_counter htoken hk hp hm hsome
      have hmatcher : rateOf (make_trade env matcher m rate s.book.trade_logs_id_counter).matcher' =
          rateOf matcher := make_trade_matcher_rate
      have hmatchee : rateOf (make_trade env matcher m rate s.book.trade_logs_id_counter).matchee' =
          rateOf m := make_trade_matchee_rate
      have hkey : CurrentPositionTrait.id
          (make_trade env matcher m rate s.book.trade_logs_id_counter).matchee' = key :=
        make_trade_matchee_id.trans hid
      generalize make_trade env matcher m rate s.book.trade_logs_id_counter = t at *
      have hmr : rateOf t.matchee' ≠ 0 := hmatchee.trans_ne hm.rate_ne
      simp only
      split
      · exact hs.filled hlog hkey hmr
      · rename_i hnot
        have hp' : AboveMinimum env.cycles_fee env.token_fee t.matcher' :=
          above_of_not_filled (hmatcher.trans_ne hp.rate_ne) (by simpa using hnot)
        exact ih hp' (hmatcher.trans hrate) htail (hs.after hlog hkey hmr hp')

/-- What a whole call leaves. -/
structure MatchAbove (env : MatchEnv) (r : MatchResult P M) : Prop where
  matchers : ∀ k p, r.book.matcher_positions.get k = some p →
    AboveMinimum env.cycles_fee env.token_fee p
  matchees : ∀ k m, r.book.matchee_positions.get k = some m →
    AboveMinimum env.cycles_fee env.token_fee m
  trades : ∀ t ∈ r.trades, LogAbove env.cycles_fee env.token_fee t.log.log

theorem match_trades_above (htoken : FeeFits env.token_fee)
    (hk : POSITION_KIND M = (POSITION_KIND P).other) {b : MatchBook P M}
    (hmatchers : ∀ k p, b.matcher_positions.get k = some p →
      AboveMinimum env.cycles_fee env.token_fee p)
    (hmatchees : ∀ k m, b.matchee_positions.get k = some m → CurrentPositionTrait.id m = k ∧
      AboveMinimum env.cycles_fee env.token_fee m) :
    MatchAbove env (match_trades env mid b) := by
  unfold match_trades
  cases hget : b.matcher_positions.get mid with
  | none => exact ⟨hmatchers, fun k m hg => (hmatchees k m hg).2, by simp⟩
  | some matcher =>
    have hrest : ∀ e ∈ b.matchee_positions.entries, CurrentPositionTrait.id e.2 = e.1 ∧
        AboveMinimum env.cycles_fee env.token_fee e.2 := fun e he =>
      hmatchees _ _ ((OrdMap.mem_iff_get _ e.1 e.2).mp he)
    have hloop : LoopAbove env (match_loop env mid (rateOf matcher) b.matchee_positions.entries
        matcher ⟨b, [], []⟩).1 :=
      match_loop_above htoken hk _ (hmatchers mid matcher hget) rfl hrest
        ⟨hmatchers, fun k m hg => Or.inl (hmatchees k m hg).2, by simp⟩
    simp only
    generalize match_loop env mid (rateOf matcher) b.matchee_positions.entries matcher
      ⟨b, [], []⟩ = r at hloop ⊢
    obtain ⟨s, exit⟩ := r
    obtain ⟨hsame, hgone⟩ := retire_matchees env s.remove_matchee_positions_fill s.book
    refine ⟨fun k p hg => ?_, fun k m hg => ?_, hloop.trades⟩
    · simp only [hsame] at hg
      exact hloop.matchers k p hg
    · obtain ⟨hbefore, hnot⟩ := hgone k m hg
      exact (hloop.matchees k m hbefore).resolve_right hnot

end

/-! ## The book -/

structure BookAbove (cycles_fee token_fee : Nat) (b : Book) : Prop where
  cycles : ∀ k p, b.cycles_positions.get k = some p → AboveMinimum cycles_fee token_fee p
  token : ∀ k p, b.token_positions.get k = some p → AboveMinimum cycles_fee token_fee p

section

variable {b : Book} {env : MatchEnv} {cycles_fee token_fee : Nat}

theorem new_cycles_above {q : TradeCyclesQuest} (h : QuestChecked cycles_fee token_fee (.cycles q))
    (id : PositionId) (positor : Principal) (now : Nat) :
    AboveMinimum cycles_fee token_fee (q.create_current_position id positor now) := by
  obtain ⟨hmin, hr⟩ := h
  have hr : q.cycles_per_token_rate ≠ 0 := hr
  simp only [TradeQuest.is_less_than_minimum_position, Bool.or_eq_false_iff,
    decide_eq_false_iff_not, not_lt, cycles_transform_tokens, if_neg hr] at hmin
  exact ⟨hr, hmin.2, hmin.1⟩

theorem new_token_above {q : TradeTokensQuest} (h : QuestChecked cycles_fee token_fee (.tokens q))
    (id : PositionId) (positor : Principal) (now : Nat) :
    AboveMinimum cycles_fee token_fee (q.create_current_position id positor now) := by
  obtain ⟨hmin, hr⟩ := h
  simp only [TradeQuest.is_less_than_minimum_position, Bool.or_eq_false_iff,
    decide_eq_false_iff_not, not_lt] at hmin
  exact ⟨hr, hmin.1, hmin.2.trans (Word.mul_le 128 _ _)⟩

theorem match_trades_book_above (htoken : FeeFits env.token_fee) (hb : BookIds b)
    (h : BookAbove env.cycles_fee env.token_fee b) {q : TradeQuest}
    (hq : QuestChecked env.cycles_fee env.token_fee q) (id : PositionId) (positor : Principal) :
    BookAbove env.cycles_fee env.token_fee (q.match_trades b env id positor).book ∧
      ∀ d ∈ (q.match_trades b env id positor).deals,
        LogAbove env.cycles_fee env.token_fee d.log.log := by
  cases q with
  | cycles q =>
    have hnew := new_cycles_above hq id positor env.now
    have hside : MatchAbove env (match_trades env id
        (b.open_cycles (q.create_current_position id positor env.now)).cyclesSide) :=
      match_trades_above htoken rfl (OrdMap.forall_insert h.cycles hnew)
        fun k m hm => ⟨hb.token k m hm, h.token k m hm⟩
    refine ⟨⟨hside.matchers, hside.matchees⟩, fun d hd => ?_⟩
    obtain ⟨t, ht, rfl⟩ := List.mem_map.mp hd
    exact hside.trades t ht
  | tokens q =>
    have hnew := new_token_above hq id positor env.now
    have hside : MatchAbove env (match_trades env id
        (b.open_token (q.create_current_position id positor env.now)).tokenSide) :=
      match_trades_above htoken rfl (OrdMap.forall_insert h.token hnew)
        fun k m hm => ⟨hb.cycles k m hm, h.cycles k m hm⟩
    refine ⟨⟨hside.matchees, hside.matchers⟩, fun d hd => ?_⟩
    obtain ⟨t, ht, rfl⟩ := List.mem_map.mp hd
    exact hside.trades t ht

theorem void_position_above (hb : BookIds b) (h : BookAbove cycles_fee token_fee b)
    {caller : Principal} {position_id : PositionId} {now : Nat} {b' : Book}
    (hv : void_position_ b caller position_id now = .ok b') : BookAbove cycles_fee token_fee b' := by
  rcases void_position_spec hb hv with ⟨p, -, -, rfl⟩ | ⟨p, -, -, rfl⟩
  · exact ⟨OrdMap.forall_remove h.cycles, h.token⟩
  · exact ⟨h.cycles, OrdMap.forall_remove h.token⟩

end

/-! ## Runs in which the fees stay -/

/-- A step after which both cells hold the fees that they held before. -/
def SteadyStep (cfg : TcConfig) (s s' : TcState) : Prop := TcStep cfg s s' ∧ s'.fees = s.fees

abbrev SteadyReachable (cfg : TcConfig) : TcState → Prop := Reachable (TcInit cfg) (SteadyStep cfg)

structure StateAbove (s : TcState) : Prop where
  history : ∀ fee ∈ s.history.fees, ∃ kind, fee = s.fees kind
  book : BookAbove (s.fees .Cycles) (s.fees .Token) s.cm_data.toBook
  calls : ∀ c ∈ s.calls, ∀ q, c.quest = .trade q →
    QuestChecked (s.fees .Cycles) (s.fees .Token) q
  deals : ∀ d ∈ s.history.deals, LogAbove (s.fees .Cycles) (s.fees .Token) d.log.log

variable {cfg : TcConfig} {s s' : TcState}

theorem SteadyReachable.reachable (r : SteadyReachable cfg s) : TcReachable cfg s :=
  r.mono fun _ _ h => h.1

theorem fees_ok_of_steady (h : StateAbove s) (hfits : ∀ kind, FeeFits (s.fees kind)) :
    FeesOk s.history := by
  intro fee hfee
  obtain ⟨kind, rfl⟩ := h.history fee hfee
  exact hfits kind

theorem TcStep.fees_in_cells (h : TcStep cfg s s') :
    ∀ fee ∈ s'.history.fees, fee ∈ s.history.fees ∨ ∃ kind, fee = s'.fees kind := by
  have hreplied : ∀ (kind : PositionKind) (r : LedgerTransferReturnType),
      ∀ fee ∈ (s.ledger_transfer_replied kind r).history.fees,
        fee ∈ s.history.fees ∨ ∃ k, fee = (s.ledger_transfer_replied kind r).fees k := by
    intro kind r fee hfee
    refine (List.mem_append.mp hfee).imp_right fun hnew => ⟨kind, ?_⟩
    have hbad : bad_fee r = some fee := Option.mem_toList.mp hnew
    simp [TcState.ledger_transfer_replied, hbad]
  cases h
  case trade_failed | balance_replied | payout_replied => exact hreplied _ _
  all_goals exact fun _ => Or.inl

theorem state_above_step (h : StateAbove s) (hm : Market True s)
    (hfits : ∀ kind, FeeFits (s.fees kind)) (hstep : SteadyStep cfg s s') : StateAbove s' := by
  obtain ⟨hstep, hfees⟩ := hstep
  have hhistory : ∀ fee ∈ s'.history.fees, ∃ kind, fee = s'.fees kind := by
    intro fee hfee
    rcases hstep.fees_in_cells fee hfee with hold | hnew
    · rw [hfees]
      exact h.history fee hold
    · exact hnew
  -- A quest was checked at fees that are still those of the cells.
  rcases position_step hm hstep with hk | ⟨checked, book, calls, deals⟩ |
    @⟨c, q, now, instruction_counter, mem, quest, book, calls, deals⟩ | ⟨void, calls, deals⟩
  · refine ⟨hhistory, ?_, fun c hc q hq => ?_, ?_⟩
    · rw [hfees]
      exact ⟨hk.cycles ▸ h.book.cycles, hk.token ▸ h.book.token⟩
    · obtain ⟨c', hc', hq'⟩ := hk.calls c hc q hq
      rw [hfees]
      exact h.calls c' hc' q hq'
    · rw [hfees, hk.deals]
      exact h.deals
  · refine ⟨hhistory, ?_, fun c hc q hq => ?_, ?_⟩
    · rw [hfees, book]
      exact h.book
    · rw [calls] at hc
      rw [hfees]
      rcases List.mem_cons.mp hc with rfl | hc
      · obtain rfl := UserQuest.trade.inj hq
        exact checked
      · exact h.calls c hc q hq
    · rw [hfees, deals]
      exact h.deals
  · have htoken : FeeFits (s.match_env cfg now instruction_counter).token_fee := hfits .Token
    obtain ⟨hbook, hdeals⟩ := match_trades_book_above htoken hm.book h.book
      (h.calls c mem q quest) s.cm_data.positions_id_counter c.caller
    refine ⟨hhistory, ?_, fun d hd => ?_, fun d hd => ?_⟩
    · rw [hfees, book]
      exact hbook
    · rw [hfees]
      exact h.calls d (calls d hd)
    · rw [deals] at hd
      rw [hfees]
      exact (List.mem_append.mp hd).elim (h.deals d) (hdeals d)
  · refine ⟨hhistory, ?_, ?_, ?_⟩
    · rw [hfees]
      exact void_position_above hm.book h.book void
    · rw [hfees, calls]
      exact h.calls
    · rw [hfees, deals]
      exact h.deals

theorem state_above_init (h : TcInit cfg s) : StateAbove s := by
  obtain ⟨fees, positions_module_hash, trades_module_hash, ledger, rfl⟩ := h
  refine ⟨fun fee hfee => ?_, ⟨fun k p hg => ?_, fun k p hg => ?_⟩, ?_, ?_⟩
  · have hfee : fee ∈ [fees .Cycles, fees .Token] := hfee
    rcases List.mem_cons.mp hfee with rfl | hfee
    · exact ⟨.Cycles, rfl⟩
    · exact ⟨.Token, List.mem_singleton.mp hfee⟩
  · cases hg
  · cases hg
  · exact fun c hc => absurd hc List.not_mem_nil
  · exact fun d hd => absurd hd List.not_mem_nil

theorem state_above_inv (r : SteadyReachable cfg s) (hfits : ∀ kind, FeeFits (s.fees kind)) :
    StateAbove s := by
  refine r.invariant_while (P := fun s => ∀ kind, FeeFits (s.fees kind))
    (fun s s' hstep hfits kind => ?_) (fun _ hinit _ => state_above_init hinit)
    (fun s s' r hfits _ h hstep => ?_) hfits
  · rw [← hstep.2]
    exact hfits kind
  · exact state_above_step h (market_inv (SteadyReachable.reachable r)
      fun _ => fees_ok_of_steady h hfits) hfits hstep

/-- A run in which no ledger ever answered `BadFee`. -/
theorem steady_of_history (r : TcReachable cfg s) (h : s.history.fees.length = 2) :
    SteadyReachable cfg s := by
  induction r with
  | start hinit => exact .start hinit
  | @next s s' r hstep ih =>
    have hgrow : s.history.fees.length ≤ s'.history.fees.length := by
      obtain ⟨fees, heq⟩ := hstep.fees_grow
      rw [heq, List.length_append]
      omega
    have hfirst : 2 ≤ s.history.fees.length := by
      refine r.invariant (I := fun s => 2 ≤ s.history.fees.length) ?_ ?_
      · rintro _ ⟨fees, positions_module_hash, trades_module_hash, ledger, rfl⟩
        exact le_rfl
      · intro s s' _ hlen hstep
        obtain ⟨fees, heq⟩ := hstep.fees_grow
        rw [heq, List.length_append]
        omega
    refine .next (ih (by omega)) ⟨hstep, ?_⟩
    have hlen : s'.history.fees.length = s.history.fees.length := by omega
    have hreplied : ∀ kind r, (s.ledger_transfer_replied kind r).history.fees.length =
        s.history.fees.length → (s.ledger_transfer_replied kind r).fees = s.fees := by
      intro kind r hlen
      simp only [TcState.ledger_transfer_replied, List.length_append] at hlen ⊢
      cases hbad : bad_fee r with
      | none => exact Function.update_eq_self kind s.fees
      | some fee =>
        rw [hbad] at hlen
        simp at hlen
    cases hstep
    case trade_failed | balance_replied | payout_replied => exact hreplied _ _ hlen
    all_goals rfl

/-! ## Payouts of trades -/

/-- Both sides are worth more than their transfer, after the trade fee. -/
structure PaysItsTransfers (fees : PositionKind → Nat) (log : TradeLog) : Prop where
  tokens : fees .Token < log.tokens - log.tokens_payout_fee
  cycles : fees .Cycles < log.cycles - log.cycles_payout_fee

theorem LogAbove.pays {L : Prop} {fees : PositionKind → Nat} {d : Deal}
    (h : LogAbove (fees .Cycles) (fees .Token) d.log.log) (hd : DealOk L d)
    (hfits : ∀ kind, FeeFits (fees kind)) : PaysItsTransfers fees d.log.log := by
  obtain ⟨htokens, hcycles⟩ := h
  rw [minimum_match_eq (hfits _)] at htokens hcycles
  have htokens_fee := hd.tokens_fee_le
  have hcycles_fee := hd.cycles_fee_le
  constructor <;> omega

theorem pays_worth {fees : PositionKind → Nat} {tl : TradeLogAndTemporaryData}
    (h : PaysItsTransfers fees tl.log) (kind : PositionKind) :
    Worth (tl.payout_quest kind) (fees kind) := by
  obtain ⟨htokens, hcycles⟩ := h
  cases kind with
  | Cycles =>
    change tl.log.cycles_payout_fee + fees .Cycles < tl.log.cycles
    omega
  | Token =>
    change tl.log.tokens_payout_fee + fees .Token < tl.log.tokens
    omega

theorem _do_payout_of_worth {q : DoPayoutQuest} {fee : Nat} (h : Worth q fee) (id : Nat) :
    (_do_payout id fee q).state = .sent := by
  refine if_neg ?_
  unfold Worth at h
  simp only [saturating_sub, Word.saturatingSub]
  omega

theorem trade_logs_pay (r : SteadyReachable cfg s) (hfits : ∀ kind, FeeFits (s.fees kind)) :
    ∀ tl ∈ s.logs, PaysItsTransfers s.fees tl.log := by
  intro tl htl
  have habove := state_above_inv r hfits
  have hm : Market False s := market_inv r.reachable False.elim
  obtain ⟨d, hd, hcore⟩ := hm.deal_of_log htl
  obtain ⟨htokens, hcycles⟩ := (habove.deals d hd).pays (hm.deals_ok d hd) hfits
  have htl : tl.log.tokens = d.log.log.tokens := congrArg (fun x => x.log.tokens) hcore
  have htlf : tl.log.tokens_payout_fee = d.log.log.tokens_payout_fee :=
    congrArg (fun x => x.log.tokens_payout_fee) hcore
  have hcl : tl.log.cycles = d.log.log.cycles := congrArg (fun x => x.log.cycles) hcore
  have hclf : tl.log.cycles_payout_fee = d.log.log.cycles_payout_fee :=
    congrArg (fun x => x.log.cycles_payout_fee) hcore
  exact ⟨by rwa [htl, htlf], by rwa [hcl, hclf]⟩

/-- While the fees stay, each trade log is worth its transfers, and each payout of a trade that a run
of `_do_payouts` starts goes to the ledger. -/
theorem no_trade_payout_is_dust (cfg : TcConfig) (s : TcState) (r : SteadyReachable cfg s)
    (hfits : ∀ kind, FeeFits (s.fees kind)) :
    (∀ tl ∈ s.logs, PaysItsTransfers s.fees tl.log) ∧
      ∀ data cm_data data' run, _do_payouts s.fees s.cm_data data = some (cm_data, data', run) →
        ∀ kind, ∀ p ∈ run.payouts (.trade kind), p.state = .sent := by
  have hpay := trade_logs_pay r hfits
  refine ⟨hpay, fun data cm_data data' run hrun kind p hp => ?_⟩
  have htaken := (_do_payouts_spec hrun).logs kind
  have hjob : (p.id, p.quest) ∈ (run.payouts (.trade kind)).map fun p => (p.id, p.quest) :=
    List.mem_map_of_mem (f := fun p : Payout => (p.id, p.quest)) hp
  obtain ⟨x, hx, hquest⟩ := htaken.launched.job_of hjob
  obtain ⟨tl, htl, rfl⟩ := List.mem_map.mp hx
  have hworth := pays_worth (hpay tl (List.mem_append_right _ htl)) kind
  have hquest : tl.payout_quest kind = p.quest := hquest
  rw [hquest] at hworth
  rw [htaken.payouts_eq p hp]
  exact _do_payout_of_worth hworth _

theorem short_run_has_no_dust : Sample.final.logs ≠ [] ∧
    ∀ tl ∈ Sample.final.logs, PaysItsTransfers Sample.final.fees tl.log := by
  have hfits : ∀ kind, FeeFits (Sample.final.fees kind) := by
    intro kind
    cases kind <;> unfold FeeFits <;> decide +kernel
  have hlogs : Sample.final.logs.length ≠ 0 := by decide +kernel
  have hsteady := steady_of_history Sample.final_reachable (by decide +kernel)
  exact ⟨fun hnil => hlogs (congrArg List.length hnil),
    (no_trade_payout_is_dust _ _ hsteady hfits).1⟩

end Cts.Tc
