import Cts.Tc.ExactRuns
import Cts.Tc.Moves

/-!
# Older orders match first

The loop of `match_trades` goes over the matchees by their ids, so an order that the matcher could
take and that is still there was not passed by.
-/

namespace Cts.Tc

open Lib CurrentPositionTrait

section

variable {P M : Type} [CurrentPositionTrait P] [CurrentPositionTrait M]

/-! ## The loop -/

/-- What the loop does with the matchees that are left to it: `ts` are its trades. -/
structure LoopOrder (mid : PositionId) (match_rate : Nat) (rest : List (PositionId × M))
    (s : MatchState P M) (ts : List (Trade P M)) (s' : MatchState P M) (exit : MatchExit) : Prop where
  trades : s'.trades = s.trades ++ ts
  listed : s.remove_matchee_positions_fill ⊆ s'.remove_matchee_positions_fill
  sublist : (ts.map fun t => (CurrentPositionTrait.id t.matchee, t.matchee)).Sublist rest
  accepts : ∀ t ∈ ts, (POSITION_KIND M).accepts (rateOf t.matchee) match_rate
  names : ∀ t ∈ ts, t.log.log.position_id_matcher = mid ∧
    t.log.log.position_id_matchee = CurrentPositionTrait.id t.matchee
  filled : exit = .filled → EndedAsFill s'.book.matcher_void_positions mid
  waits : exit ≠ .stopped → ∀ e ∈ rest, (POSITION_KIND M).accepts (rateOf e.2) match_rate →
    e.1 ∈ s'.remove_matchee_positions_fill ∨
      exit = .filled ∧ ∀ t ∈ ts, CurrentPositionTrait.id t.matchee ≤ e.1

variable {env : MatchEnv} {mid : PositionId} {match_rate : Nat} {s : MatchState P M}

omit [CurrentPositionTrait P] in
theorem LoopOrder.of_stopped (rest : List (PositionId × M)) :
    LoopOrder mid match_rate rest s [] s .stopped :=
  ⟨(List.append_nil _).symm, List.Subset.refl _, List.nil_sublist _, by simp, by simp, by simp,
    fun h => absurd rfl h⟩

omit [CurrentPositionTrait P] in
theorem LoopOrder.skip {e : PositionId × M} {rest : List (PositionId × M)} {ts : List (Trade P M)}
    {s' : MatchState P M} {exit : MatchExit} (h : LoopOrder mid match_rate rest s ts s' exit)
    (he : ¬ (POSITION_KIND M).accepts (rateOf e.2) match_rate) :
    LoopOrder mid match_rate (e :: rest) s ts s' exit := by
  refine ⟨h.trades, h.listed, h.sublist.cons e, h.accepts, h.names, h.filled, fun hx e' he' hacc => ?_⟩
  rcases List.mem_cons.mp he' with rfl | he'
  · exact absurd hacc he
  · exact h.waits hx e' he' hacc

variable {key : PositionId} {m : M} {rest : List (PositionId × M)} {t : Trade P M}

/-- The matcher goes on after a trade, so the matchee is filled. -/
theorem LoopOrder.go_on {ts : List (Trade P M)} {s' : MatchState P M} {exit : MatchExit}
    (h : LoopOrder mid match_rate rest (s.after env mid key t) ts s' exit)
    (ht : TradesWith mid match_rate key m t) (hfirst : ∀ e ∈ rest, key < e.1)
    (hfilled : is_filled env t.matchee' = true) :
    LoopOrder mid match_rate ((key, m) :: rest) s (t :: ts) s' exit := by
  have hkey : CurrentPositionTrait.id t.matchee = key := by rw [ht.matchee, ht.matchee_id]
  have hlisted : key ∈ s'.remove_matchee_positions_fill := by
    apply h.listed
    simp [MatchState.after, hfilled, ht.matchee_id']
  refine ⟨?_, ?_, ?_, ?_, ?_, h.filled, ?_⟩
  · rw [h.trades]
    simp [MatchState.after]
  · exact fun k hmem => h.listed (after_removed_subset t mid key hmem)
  · rw [List.map_cons, hkey, ht.matchee]
    exact h.sublist.cons_cons _
  · intro u hu
    rcases List.mem_cons.mp hu with rfl | hu
    · rw [ht.matchee]
      exact ht.accepts
    · exact h.accepts u hu
  · intro u hu
    rcases List.mem_cons.mp hu with rfl | hu
    · exact ⟨ht.matcher_log, by rw [ht.matchee_log, hkey]⟩
    · exact h.names u hu
  · intro hx e he hacc
    rcases List.mem_cons.mp he with rfl | he
    · exact Or.inl hlisted
    · refine (h.waits hx e he hacc).imp_right fun hlast => ⟨hlast.1, fun u hu => ?_⟩
      rcases List.mem_cons.mp hu with rfl | hu
      · rw [hkey]
        exact (hfirst e he).le
      · exact hlast.2 u hu

/-- The matcher is filled: the matchees that come later are younger than the last one that traded. -/
theorem LoopOrder.last (rest : List (PositionId × M)) {book : MatchBook P M}
    (ht : TradesWith mid match_rate key m t) (hfirst : ∀ e ∈ rest, key < e.1)
    (hended : EndedAsFill book.matcher_void_positions mid) :
    LoopOrder mid match_rate ((key, m) :: rest) s [t]
      { s.after env mid key t with book := book } .filled := by
  have hkey : CurrentPositionTrait.id t.matchee = key := by rw [ht.matchee, ht.matchee_id]
  refine ⟨rfl, after_removed_subset t mid key, ?_, ?_, ?_, fun _ => hended, ?_⟩
  · rw [List.map_singleton, hkey, ht.matchee]
    exact (List.nil_sublist rest).cons_cons _
  · intro u hu
    rw [List.mem_singleton.mp hu, ht.matchee]
    exact ht.accepts
  · intro u hu
    rw [List.mem_singleton.mp hu, hkey]
    exact ⟨ht.matcher_log, ht.matchee_log⟩
  · intro _ e he _
    refine Or.inr ⟨rfl, fun u hu => ?_⟩
    rw [List.mem_singleton.mp hu, hkey]
    rcases List.mem_cons.mp he with rfl | he
    · exact le_rfl
    · exact (hfirst e he).le

variable [LawfulPosition P] [LawfulPosition M]

theorem match_loop_order (hfee : FeeFits env.token_fee) (hk : POSITION_KIND M = (POSITION_KIND P).other)
    (rest : List (PositionId × M)) (hsorted : SortedKeys rest)
    (hrest : ∀ e ∈ rest, CurrentPositionTrait.id e.2 = e.1 ∧ rateOf e.2 ≠ 0) {matcher : P}
    (hid : CurrentPositionTrait.id matcher = mid) (hrate : rateOf matcher = match_rate)
    (hne : match_rate ≠ 0) (s : MatchState P M) :
    ∃ ts, LoopOrder mid match_rate rest s ts (match_loop env mid match_rate rest matcher s).1
      (match_loop env mid match_rate rest matcher s).2 := by
  induction rest generalizing matcher s with
  | nil =>
    refine ⟨[], (List.append_nil _).symm, List.Subset.refl _, List.Sublist.refl _, ?_, ?_, ?_, ?_⟩
    · simp
    · simp
    · intro h
      cases h
    · simp
  | cons e rest ih =>
    obtain ⟨key, m⟩ := e
    obtain ⟨hfirst, hsorted⟩ := List.pairwise_cons.mp hsorted
    obtain ⟨hkey, hm⟩ := hrest (key, m) List.mem_cons_self
    have hothers : ∀ e ∈ rest, CurrentPositionTrait.id e.2 = e.1 ∧ rateOf e.2 ≠ 0 :=
      fun e he => hrest e (List.mem_cons_of_mem _ he)
    rw [match_loop]
    split
    · rename_i hnone
      obtain ⟨ts, hts⟩ := ih hsorted hothers hid hrate s
      exact ⟨ts, hts.skip ((LawfulPosition.better_none m match_rate).mp hnone)⟩
    · rename_i rate hsome
      split
      -- The two limits stop the loop before this order is traded with.
      · exact ⟨[], .of_stopped _⟩
      split
      · exact ⟨[], .of_stopped _⟩
      have hfills := make_trade_fills s.book.trade_logs_id_counter hfee hk
        (by rw [hrate]; exact hne) hm (by rw [hrate]; exact hsome)
      have hwith : TradesWith mid match_rate key m
          (make_trade env matcher m rate s.book.trade_logs_id_counter) :=
        make_trade_with hid hkey hrate hsome
      have hid' : CurrentPositionTrait.id
          (make_trade env matcher m rate s.book.trade_logs_id_counter).matcher' = mid := by
        rw [make_trade_matcher_id, hid]
      have hrate' : rateOf (make_trade env matcher m rate s.book.trade_logs_id_counter).matcher' =
          match_rate := by
        rw [make_trade_matcher_rate, hrate]
      generalize make_trade env matcher m rate s.book.trade_logs_id_counter = t at *
      simp only
      split
      · have hended : EndedAsFill ((s.after env mid key t).book.retire_matcher
            env mid).matcher_void_positions mid :=
          retire_matcher_ended (OrdMap.get_insert_self _ _ _) hid'
        exact ⟨[t], .last rest hwith hfirst hended⟩
      · rename_i hnot
        obtain ⟨ts, hts⟩ := ih hsorted hothers hid' hrate' (s.after env mid key t)
        exact ⟨t :: ts, hts.go_on hwith hfirst (hfills.resolve_left hnot)⟩

/-! ## A call -/

/-- The trades of a call go through the matchees by their ids and pass by none that could be taken. -/
structure CallOrder (mid : PositionId) (match_rate : Nat) (b : MatchBook P M) (r : MatchResult P M) :
    Prop where
  increasing : (r.trades.map fun t => t.log.log.position_id_matchee).Pairwise (· < ·)
  accepts : ∀ t ∈ r.trades, t.log.log.position_id_matcher = mid ∧
    ∃ m, b.matchee_positions.get t.log.log.position_id_matchee = some m ∧
      (POSITION_KIND M).accepts (rateOf m) match_rate
  waits : r.exit ≠ .stopped → ∀ k m, b.matchee_positions.get k = some m →
    (POSITION_KIND M).accepts (rateOf m) match_rate → r.book.matchee_positions.get k ≠ none →
      (∀ t ∈ r.trades, t.log.log.position_id_matchee ≤ k) ∧
        EndedAsFill r.book.matcher_void_positions mid

theorem match_trades_order (hfee : FeeFits env.token_fee)
    (hk : POSITION_KIND M = (POSITION_KIND P).other) {b : MatchBook P M} {matcher : P}
    (hget : b.matcher_positions.get mid = some matcher) (hid : CurrentPositionTrait.id matcher = mid)
    (hne : rateOf matcher ≠ 0) (hmatchees : ∀ k m, b.matchee_positions.get k = some m →
      CurrentPositionTrait.id m = k ∧ rateOf m ≠ 0) :
    CallOrder mid (rateOf matcher) b (match_trades env mid b) := by
  obtain ⟨ts, hts⟩ := match_loop_order hfee hk b.matchee_positions.entries
    b.matchee_positions.sorted
    (fun e he => hmatchees e.1 e.2 ((OrdMap.mem_iff_get _ e.1 e.2).mp he)) hid rfl hne ⟨b, [], []⟩
  unfold match_trades
  rw [hget]
  simp only
  generalize match_loop env mid (rateOf matcher) b.matchee_positions.entries matcher
    ⟨b, [], []⟩ = r at hts
  obtain ⟨s, exit⟩ := r
  simp only at hts
  have htrades : s.trades = ts := hts.trades
  rw [htrades]
  have hsorted := List.Pairwise.sublist hts.sublist b.matchee_positions.sorted
  refine ⟨?_, fun t ht => ?_, fun hx k m hg hacc hleft => ?_⟩
  · rw [List.map_congr_left fun t ht => (hts.names t ht).2]
    rw [List.pairwise_map] at hsorted ⊢
    exact hsorted
  · obtain ⟨hmatcher, hmatchee⟩ := hts.names t ht
    refine ⟨hmatcher, t.matchee, ?_, hts.accepts t ht⟩
    rw [hmatchee]
    apply (OrdMap.mem_iff_get _ _ _).mp
    exact hts.sublist.subset (List.mem_map_of_mem ht)
  · rw [retire_matchees_matcher_voids]
    obtain ⟨m', hm'⟩ := Option.ne_none_iff_exists'.mp hleft
    obtain ⟨-, hkept⟩ := (retire_matchees env s.remove_matchee_positions_fill s.book).2 k m' hm'
    have hwaits := hts.waits hx (k, m) ((OrdMap.mem_iff_get _ k m).mpr hg) hacc
    obtain ⟨hexit, holder⟩ := hwaits.resolve_left hkept
    refine ⟨fun t ht => ?_, hts.filled hexit⟩
    rw [(hts.names t ht).2]
    exact holder t ht

end

/-! ## In the book -/

/-- The order `k` is current, on the other side of the quest, and asks for no more than the quest
offers. -/
def Book.Compatible (b : Book) (q : TradeQuest) (k : PositionId) : Prop :=
  match q with
  | .cycles q => ∃ t, b.token_positions.get k = some t ∧
      t.quest.cycles_per_token_rate ≤ q.cycles_per_token_rate
  | .tokens q => ∃ c, b.cycles_positions.get k = some c ∧
      q.cycles_per_token_rate ≤ c.quest.cycles_per_token_rate

/-- How a new position meets the book: `tls` are the trade logs that the call appends. -/
structure OldestFirst (q : TradeQuest) (id : PositionId) (b b' : Book)
    (tls : List TradeLogAndTemporaryData) (exit : MatchExit) : Prop where
  logs : b'.trade_logs = b.trade_logs ++ tls
  increasing : (tls.map fun tl => tl.log.position_id_matchee).Pairwise (· < ·)
  compatible : ∀ tl ∈ tls, tl.log.position_id_matcher = id ∧
    b.Compatible q tl.log.position_id_matchee
  waits : exit ≠ .stopped → ∀ k, b'.Compatible q k →
    (∀ tl ∈ tls, tl.log.position_id_matchee ≤ k) ∧ EndedAsFill (b'.void_positions q.kind) id

theorem CallOrder.oldest {P M : Type} [CurrentPositionTrait P] [CurrentPositionTrait M] {q : TradeQuest}
    {id : PositionId} {match_rate : Nat} {b : MatchBook P M} {r : MatchResult P M}
    (h : CallOrder id match_rate b r) {book book' : Book}
    (hlogs : book'.trade_logs = book.trade_logs ++ r.trades.map Trade.log)
    (hbefore : ∀ k m, b.matchee_positions.get k = some m →
      (POSITION_KIND M).accepts (rateOf m) match_rate → book.Compatible q k)
    (hafter : ∀ k, book'.Compatible q k → ∃ m, b.matchee_positions.get k = some m ∧
      (POSITION_KIND M).accepts (rateOf m) match_rate ∧ r.book.matchee_positions.get k ≠ none)
    (hvoid : book'.void_positions q.kind = r.book.matcher_void_positions) :
    OldestFirst q id book book' (r.trades.map Trade.log) r.exit := by
  refine ⟨hlogs, ?_, ?_, fun hx k hk => ?_⟩
  · rw [List.map_map]
    exact h.increasing
  · intro tl htl
    obtain ⟨t, ht, rfl⟩ := List.mem_map.mp htl
    obtain ⟨hmatcher, m, hm, hacc⟩ := h.accepts t ht
    exact ⟨hmatcher, hbefore _ m hm hacc⟩
  · obtain ⟨m, hm, hacc, hleft⟩ := hafter k hk
    obtain ⟨holder, hended⟩ := h.waits hx k m hm hacc hleft
    refine ⟨fun tl htl => ?_, ?_⟩
    · obtain ⟨t, ht, rfl⟩ := List.mem_map.mp htl
      exact holder t ht
    · rw [hvoid]
      exact hended

theorem match_trades_oldest {b : Book} (hb : BookIds b) (hs : BookSound False b) {env : MatchEnv}
    (hfee : FeeFits env.token_fee) {id : PositionId} (hid : id ∉ b.ids) {q : TradeQuest}
    (hq : Admitted False q) (positor : Principal) :
    OldestFirst q id b (q.match_trades b env id positor).book
      ((q.match_trades b env id positor).deals.map Deal.log) (q.match_trades b env id positor).exit := by
  have hopens : OpensPath q b env id positor := opens_path hb hs hid hq positor
  have hframe := hopens.path.frame hopens.inv
  have hlogs := hframe.logs
  cases q with
  | cycles q =>
    let p := q.create_current_position id positor env.now
    have hget : (b.open_cycles p).cyclesSide.matcher_positions.get id = some p :=
      OrdMap.get_insert_self _ _ _
    have hcall : CallOrder id q.cycles_per_token_rate (b.open_cycles p).cyclesSide
        (match_trades env id (b.open_cycles p).cyclesSide) :=
      match_trades_order hfee rfl hget rfl hq.rate_ne
        fun k m hm => ⟨hb.token k m hm, (hs.token k m hm).1⟩
    have hdeals : ((TradeQuest.cycles q).match_trades b env id positor).deals.map Deal.log =
        (match_trades env id (b.open_cycles p).cyclesSide).trades.map Trade.log :=
      List.map_map
    rw [hdeals] at hlogs ⊢
    refine hcall.oldest hlogs (fun k m hm hacc => ⟨m, hm, hacc⟩) ?_ rfl
    rintro k ⟨t, ht, hle⟩
    obtain ⟨t₀, ht₀, hquest⟩ := hframe.token_from k t ht
    rw [hquest] at hle
    exact ⟨t₀, ht₀, hle, fun hnone => by cases hnone.symm.trans ht⟩
  | tokens q =>
    let p := q.create_current_position id positor env.now
    have hget : (b.open_token p).tokenSide.matcher_positions.get id = some p :=
      OrdMap.get_insert_self _ _ _
    have hcall : CallOrder id q.cycles_per_token_rate (b.open_token p).tokenSide
        (match_trades env id (b.open_token p).tokenSide) :=
      match_trades_order hfee rfl hget rfl hq.rate_ne
        fun k m hm => ⟨hb.cycles k m hm, (hs.cycles k m hm).1⟩
    have hdeals : ((TradeQuest.tokens q).match_trades b env id positor).deals.map Deal.log =
        (match_trades env id (b.open_token p).tokenSide).trades.map Trade.log :=
      List.map_map
    rw [hdeals] at hlogs ⊢
    refine hcall.oldest hlogs (fun k m hm hacc => ⟨m, hm, hacc⟩) ?_ rfl
    rintro k ⟨c, hc, hle⟩
    obtain ⟨c₀, hc₀, hquest⟩ := hframe.cycles_from k c hc
    rw [hquest] at hle
    exact ⟨c₀, hc₀, hle, fun hnone => by cases hnone.symm.trans hc⟩

/-- Every `match_trades` takes the oldest compatible orders, and one that is left was not passed by. -/
theorem older_orders_match_first {cfg : TcConfig} {s : TcState} (r : TcReachable cfg s)
    (hfees : FeesOk s.history) {c : UserCall} (hc : c ∈ s.calls) {q : TradeQuest}
    (hq : c.quest = .trade q) (now : Nat) (instruction_counter : PositionId → Nat) :
    let env := s.match_env cfg now instruction_counter
    let matched := q.match_trades s.cm_data.toBook env s.cm_data.positions_id_counter c.caller
    OldestFirst q s.cm_data.positions_id_counter s.cm_data.toBook
      (s.commit env c.caller q).cm_data.toBook (matched.deals.map Deal.log) matched.exit := by
  have hm : Market False s := market_inv r False.elim
  exact match_trades_oldest hm.book hm.sound (hfees _ (hm.fees .Token)) hm.fresh_id
    (hm.admitted c hc q hq) c.caller

def UserQuest.trade_quest : UserQuest → Option TradeQuest
  | .trade q => some q
  | .transfer_balance _ _ => none

theorem UserQuest.eq_trade {quest : UserQuest} {q : TradeQuest} (h : quest.trade_quest = some q) :
    quest = .trade q := by
  cases quest with
  | trade q' =>
    obtain rfl := Option.some.inj h
    rfl
  | transfer_balance kind q' => cases h

/-- B's sale fills the older order of C and then a part of the younger one, which stays. -/
theorem busy_book_takes_the_oldest : ∃ tls b',
    tls.map (fun tl => tl.log.position_id_matchee) = [1, 9] ∧
      b'.Compatible Sample.waitingSale 9 ∧
      OldestFirst Sample.waitingSale Sample.busy.cm_data.positions_id_counter
        Sample.busy.cm_data.toBook b' tls .filled := by
  let env := Sample.busy.match_env Sample.busyConfig 15 fun _ => 0
  let matched := Sample.waitingSale.match_trades Sample.busy.cm_data.toBook env
    Sample.busy.cm_data.positions_id_counter Sample.B
  have hbusy : FeesOk Sample.busy.history ∧
      Sample.busy.calls.map (fun c => (c.caller, c.quest.trade_quest)) =
        [(Sample.B, some Sample.waitingSale)] ∧
      matched.exit = .filled ∧
      (matched.deals.map Deal.log).map (fun tl => tl.log.position_id_matchee) = [1, 9] ∧
      ((Sample.busy.commit env Sample.B Sample.waitingSale).cm_data.cycles_positions.get 9).map
        (fun p => p.quest.cycles_per_token_rate) = some 2 := by
    unfold FeesOk FeeFits
    decide +kernel
  obtain ⟨hfees, hcalls, hexit, hmatchees, hstays⟩ := hbusy
  obtain ⟨c, hc, hquest⟩ := List.map_eq_singleton_iff.mp hcalls
  obtain ⟨hcaller, hq⟩ := Prod.mk.inj hquest
  have h := older_orders_match_first Sample.busy_reachable hfees
    (by rw [hc]; exact List.mem_singleton_self c) (UserQuest.eq_trade hq) 15 fun _ => 0
  rw [hcaller] at h
  have hcompatible : (Sample.busy.commit env Sample.B Sample.waitingSale).cm_data.toBook.Compatible
      Sample.waitingSale 9 := by
    obtain ⟨p, hp, hrate⟩ := Option.map_eq_some_iff.mp hstays
    refine ⟨p, hp, ?_⟩
    rw [hrate]
    decide
  rw [← hexit]
  exact ⟨_, _, hmatchees, hcompatible, h⟩

end Cts.Tc
