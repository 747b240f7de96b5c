import Cts.Tc.Exact
import Cts.Tc.Script

/-!
# Runs with exact arithmetic

`SumsFit` walks over the orders that a new one meets until it is filled. A matching is exact just
when the sums fit.
-/

namespace Cts.Tc

open Lib CurrentPositionTrait
open PurchasesSum (purchases_sum)

/-! ## The walk -/

/-- How far a matching is, in exact numbers: what is left of the new order and its sum, how many
trade logs there are and the id of the next one. -/
structure MatchFigures where
  left : Nat
  sum : Nat
  trade_logs : Nat
  trade_logs_id_counter : Nat

namespace MatchFigures

variable {M : Type} [CurrentPositionTrait M] [PurchasesSum M]

def tokens (kind : PositionKind) (n : MatchFigures) (m : M) (rate : Nat) : Nat :=
  min (kind.tokens n.left rate) (current_position_tokens m rate)

def after (kind : PositionKind) (n : MatchFigures) (tokens rate : Nat) : MatchFigures :=
  { left := n.left - kind.units tokens rate
    sum := n.sum + rate * kind.units tokens rate
    trade_logs := n.trade_logs + 1
    trade_logs_id_counter := n.trade_logs_id_counter + 1 }

def Filled (kind : PositionKind) (env : MatchEnv) (match_rate : Nat) (n : MatchFigures) : Prop :=
  kind.tokens n.left match_rate < env.minimum_tokens_match ∨
    kind.tokens n.left match_rate * match_rate < env.minimum_cycles_match

/-- The sums of both orders and the id of the log have room for their trade. -/
def Room (kind : PositionKind) (n : MatchFigures) (m : M) (rate : Nat) : Prop :=
  n.sum + rate * kind.units (n.tokens kind m rate) rate < 2 ^ 128 ∧
    purchases_sum m + rate * (POSITION_KIND M).units (n.tokens kind m rate) rate < 2 ^ 128 ∧
    n.trade_logs_id_counter + 1 < 2 ^ 128

instance (kind : PositionKind) (env : MatchEnv) (match_rate : Nat) (n : MatchFigures) :
    Decidable (n.Filled kind env match_rate) := inferInstanceAs (Decidable (_ ∨ _))

instance (kind : PositionKind) (n : MatchFigures) (m : M) (rate : Nat) :
    Decidable (n.Room kind m rate) := inferInstanceAs (Decidable (_ ∧ _))

end MatchFigures

section

variable {M : Type} [CurrentPositionTrait M] [PurchasesSum M]

/-- There is room for every trade that an order of the kind makes until it is filled. -/
def SumsFit (kind : PositionKind) (env : MatchEnv) (match_rate : Nat) :
    List (PositionId × M) → MatchFigures → Prop
  | [], _ => True
  | (key, m) :: rest, n =>
    match is_this_position_better_than_or_equal_to_the_match_rate m match_rate with
    | none => SumsFit kind env match_rate rest n
    | some rate =>
      env.MAX_TRADE_LOGS ≤ n.trade_logs ∨
        MAX_INSTRUCTIONS_IN_THE_MATCH_TRADES_FN ≤ env.instruction_counter key ∨
        n.Room kind m rate ∧
          ((n.after kind (n.tokens kind m rate) rate).Filled kind env match_rate ∨
            SumsFit kind env match_rate rest (n.after kind (n.tokens kind m rate) rate))

theorem SumsFit.none {kind : PositionKind} {env : MatchEnv} {match_rate : Nat} {key : PositionId}
    {m : M} {rest : List (PositionId × M)} {n : MatchFigures}
    (h : is_this_position_better_than_or_equal_to_the_match_rate m match_rate = none) :
    SumsFit kind env match_rate ((key, m) :: rest) n ↔ SumsFit kind env match_rate rest n := by
  rw [SumsFit, h]

theorem SumsFit.some {kind : PositionKind} {env : MatchEnv} {match_rate rate : Nat}
    {key : PositionId} {m : M} {rest : List (PositionId × M)} {n : MatchFigures}
    (h : is_this_position_better_than_or_equal_to_the_match_rate m match_rate = some rate) :
    SumsFit kind env match_rate ((key, m) :: rest) n ↔
      env.MAX_TRADE_LOGS ≤ n.trade_logs ∨
        MAX_INSTRUCTIONS_IN_THE_MATCH_TRADES_FN ≤ env.instruction_counter key ∨
        n.Room kind m rate ∧
          ((n.after kind (n.tokens kind m rate) rate).Filled kind env match_rate ∨
            SumsFit kind env match_rate rest (n.after kind (n.tokens kind m rate) rate)) := by
  rw [SumsFit, h]

instance decidableSumsFit (kind : PositionKind) (env : MatchEnv) (match_rate : Nat) :
    (rest : List (PositionId × M)) → (n : MatchFigures) →
      Decidable (SumsFit kind env match_rate rest n)
  | [], _ => inferInstanceAs (Decidable True)
  | (_, m) :: rest, n =>
    match h : is_this_position_better_than_or_equal_to_the_match_rate m match_rate with
    | none =>
      have := decidableSumsFit kind env match_rate rest n
      decidable_of_iff _ (SumsFit.none h).symm
    | some rate =>
      have := decidableSumsFit kind env match_rate rest (n.after kind (n.tokens kind m rate) rate)
      decidable_of_iff _ (SumsFit.some h).symm

end

section

variable {P M : Type} [CurrentPositionTrait P] [CurrentPositionTrait M]

/-- Where the loop is with the matcher `p`. -/
def MatchState.figures [PurchasesSum P] (s : MatchState P M) (p : P) : MatchFigures :=
  { left := current_position_quantity p
    sum := purchases_sum p
    trade_logs := s.book.trade_logs.length
    trade_logs_id_counter := s.book.trade_logs_id_counter }

variable [LawfulPosition P] [LawfulPosition M] [ExactPosition P] [ExactPosition M]
  [PurchasesSum P] [PurchasesSum M] [ExactLaws P] [ExactLaws M]

/-! ## One trade -/

section Trade

variable {env : MatchEnv} {p p' : P} {m : M} {rate match_rate : Nat} {s : MatchState P M}

omit [LawfulPosition M] [ExactPosition M] [PurchasesSum M] [ExactLaws M]
  [CurrentPositionTrait M] in
theorem exact_is_filled (hcycles : FeeFits env.cycles_fee) (htoken : FeeFits env.token_fee)
    (h : ExactLaws.Kept p) : Exact.is_filled env p = some (is_filled env p) := by
  rw [Exact.is_filled, exact_minimum_match hcycles, exact_minimum_match htoken,
    exact_transform (ExactLaws.own_fits p h)]
  simp only [Option.bind_eq_bind, Option.bind_some]
  unfold is_filled
  by_cases hlt : current_position_tokens p (rateOf p) < env.minimum_tokens_match
  · rw [decide_eq_true hlt]
    exact if_pos hlt
  · rw [decide_eq_false hlt]
    exact if_neg hlt

omit [LawfulPosition M] [ExactPosition M] [PurchasesSum M] [ExactLaws M]
  [CurrentPositionTrait M] in
theorem filled_iff (env : MatchEnv) (s : MatchState P M) (h : ExactLaws.Kept p) (hp : rateOf p ≠ 0) :
    is_filled env p = true ↔ (s.figures p).Filled (POSITION_KIND P) env (rateOf p) := by
  unfold is_filled
  rw [tokens_transform_cycles, Word.mul_of_lt (ExactLaws.own_fits p h),
    LawfulPosition.tokens_eq p (rateOf p) hp, Bool.or_eq_true, decide_eq_true_iff,
    decide_eq_true_iff]
  rfl

section Trades

variable (hk : POSITION_KIND M = (POSITION_KIND P).other) (hp : Live p) (hm : Live m)
  (hb : is_this_position_better_than_or_equal_to_the_match_rate m (rateOf p) = some rate)

include hk hp hm hb

omit [ExactPosition P] [ExactPosition M] [PurchasesSum P] [PurchasesSum M] [ExactLaws P]
  [ExactLaws M] in
theorem trade_serves :
    Serves (POSITION_KIND P) (current_position_quantity p)
      (min (current_position_tokens p rate) (current_position_tokens m rate)) rate ∧
    Serves (POSITION_KIND M) (current_position_quantity m)
      (min (current_position_tokens p rate) (current_position_tokens m rate)) rate := by
  have hok := trade_ok hk hp.1 hm.1 hb
  have hn := tokens_ge_of_trade hk hp hm hok.rate_ne hok.midpoint
  have hr := Nat.pos_of_ne_zero hok.rate_ne
  exact ⟨⟨by omega, hr, hok.fits, hok.matcher_units⟩, ⟨by omega, hr, hok.fits, hok.matchee_units⟩⟩

omit [ExactPosition P] [ExactPosition M] [PurchasesSum M] [ExactLaws P] [ExactLaws M] in
theorem figures_tokens (s : MatchState P M) :
    (s.figures p).tokens (POSITION_KIND P) m rate =
      min (current_position_tokens p rate) (current_position_tokens m rate) := by
  rw [LawfulPosition.tokens_eq p rate (trade_ok hk hp.1 hm.1 hb).rate_ne]
  rfl

theorem exact_make_trade (s : MatchState P M) (hkp : ExactLaws.Kept p) (hkm : ExactLaws.Kept m)
    (hroom : (s.figures p).Room (POSITION_KIND P) m rate) :
    Exact.make_trade env p m rate s.book.trade_logs_id_counter =
      some (make_trade env p m rate s.book.trade_logs_id_counter) := by
  obtain ⟨hmatcher, hmatchee, -⟩ := hroom
  rw [figures_tokens hk hp hm hb] at hmatcher hmatchee
  have hmatcher : purchases_sum p + _ < 2 ^ 128 := hmatcher
  obtain ⟨hsp, hsm⟩ := trade_serves hk hp hm hb
  simp only [Exact.make_trade, ExactLaws.subtract_exact p _ _ hkp hsp, if_pos hmatcher,
    ExactLaws.subtract_exact m _ _ hkm hsm, if_pos hmatchee, exact_transform hsp.fits,
    Option.bind_eq_bind, Option.bind_some]
  rfl

/-- Where there is no room, the trade has no result or its log no id, whatever comes next. -/
theorem no_room_no_trade (env : MatchEnv) (mid key : PositionId) (hkp : ExactLaws.Kept p)
    (hkm : ExactLaws.Kept m) (hroom : ¬ (s.figures p).Room (POSITION_KIND P) m rate) {α : Type}
    (next : Trade P M → MatchState P M → Option α) :
    (Exact.make_trade env p m rate s.book.trade_logs_id_counter).bind
      (fun t => (Exact.after env s mid key t).bind (next t)) = none := by
  obtain ⟨hsp, hsm⟩ := trade_serves hk hp hm hb
  unfold MatchFigures.Room at hroom
  rw [figures_tokens hk hp hm hb] at hroom
  by_cases hids : s.book.trade_logs_id_counter + 1 < 2 ^ 128
  · simp only [Exact.make_trade, ExactLaws.subtract_exact p _ _ hkp hsp,
      ExactLaws.subtract_exact m _ _ hkm hsm, Option.bind_eq_bind]
    by_cases hmatcher : purchases_sum p + rate * (POSITION_KIND P).units
        (min (current_position_tokens p rate) (current_position_tokens m rate)) rate < 2 ^ 128
    · rw [if_neg fun hmatchee => hroom ⟨hmatcher, hmatchee, hids⟩]
      simp only [Option.bind_none, Option.bind_fun_none]
    · rw [if_neg hmatcher, Option.bind_none, Option.bind_none]
  · simp only [Exact.after, Word.checkedAdd, if_neg hids, Option.bind_eq_bind, Option.bind_none,
      Option.bind_fun_none]

omit [ExactPosition M] [ExactLaws M] in
theorem matcher_after (env : MatchEnv) (s : MatchState P M) (mid key : PositionId)
    (hkp : ExactLaws.Kept p)
    (hroom : (s.figures p).Room (POSITION_KIND P) m rate) :
    let t := make_trade env p m rate s.book.trade_logs_id_counter
    ExactLaws.Kept t.matcher' ∧ (s.after env mid key t).figures t.matcher' =
      (s.figures p).after (POSITION_KIND P) ((s.figures p).tokens (POSITION_KIND P) m rate)
        rate := by
  have hmatcher := hroom.1
  rw [figures_tokens hk hp hm hb] at hmatcher ⊢
  obtain ⟨hs, -⟩ := trade_serves hk hp hm hb
  refine ⟨ExactLaws.subtract_kept p _ _ hkp hs, ?_⟩
  unfold MatchState.figures MatchFigures.after
  congr 1
  · exact LawfulPosition.subtract_quantity _ _ _ hs.fits
  · exact ExactLaws.subtract_sum p _ _ hs hmatcher
  · exact List.length_append

end Trades

end Trade

/-! ## The loop -/

section Loop

variable {env : MatchEnv} {p : P} {mid : PositionId} {match_rate : Nat} {s : MatchState P M}

theorem exact_match_loop (hcycles : FeeFits env.cycles_fee) (htoken : FeeFits env.token_fee)
    (hk : POSITION_KIND M = (POSITION_KIND P).other) (rest : List (PositionId × M))
    (hkp : ExactLaws.Kept p) (hp : Live p) (hrate : rateOf p = match_rate)
    (hrest : ∀ e ∈ rest, ExactLaws.Kept e.2 ∧ Live e.2) :
    Exact.match_loop env mid match_rate rest p s =
      if SumsFit (POSITION_KIND P) env match_rate rest (s.figures p) then
        some (match_loop env mid match_rate rest p s)
      else none := by
  induction rest generalizing p s with
  | nil => exact (if_pos trivial).symm
  | cons e rest ih =>
    obtain ⟨key, m⟩ := e
    obtain ⟨hkm, hm⟩ := hrest (key, m) List.mem_cons_self
    have htail := fun e he => hrest e (List.mem_cons_of_mem _ he)
    have hlt : match_rate < 2 ^ 128 := hrate ▸ LawfulPosition.rate_lt p
    rw [Exact.match_loop, match_loop, ExactLaws.better_exact m match_rate hlt, Option.bind_eq_bind,
      Option.bind_some]
    cases hb : is_this_position_better_than_or_equal_to_the_match_rate m match_rate with
    | none => exact (ih hkp hp hrate htail).trans (if_congr (SumsFit.none hb).symm rfl rfl)
    | some rate =>
      simp only [SumsFit.some hb]
      subst hrate
      split
      · rename_i hlogs
        exact (if_pos (Or.inl hlogs)).symm
      split
      · rename_i hcounter
        exact (if_pos (Or.inr (Or.inl hcounter))).symm
      rename_i hlogs hcounter
      have hlogs : ¬ env.MAX_TRADE_LOGS ≤ (s.figures p).trade_logs := hlogs
      rw [if_congr (or_iff_right hlogs) rfl rfl, if_congr (or_iff_right hcounter) rfl rfl]
      by_cases hroom : (s.figures p).Room (POSITION_KIND P) m rate
      · obtain ⟨hkp', hfigures⟩ := matcher_after hk hp hm hb env s mid key hkp hroom
        have hkm' : ExactLaws.Kept (make_trade env p m rate s.book.trade_logs_id_counter).matchee' :=
          ExactLaws.subtract_kept m _ _ hkm (trade_serves hk hp hm hb).2
        have hrate' : rateOf (make_trade env p m rate s.book.trade_logs_id_counter).matcher' =
            rateOf p := make_trade_matcher_rate
        rw [if_congr (and_iff_right hroom) rfl rfl, exact_make_trade hk hp hm hb s hkp hkm hroom,
          Option.bind_eq_bind, Option.bind_some, ← hfigures]
        generalize make_trade env p m rate s.book.trade_logs_id_counter = t at *
        -- There is room: both loops make the same trade and stop or go on together.
        have hids : s.book.trade_logs_id_counter + 1 < 2 ^ 128 := hroom.2.2
        rw [Exact.after, Word.checkedAdd_of_lt hids, exact_is_filled hcycles htoken hkm']
        simp only [Option.bind_eq_bind, Option.bind_some, exact_is_filled hcycles htoken hkp']
        have hne : rateOf t.matcher' ≠ 0 := hrate'.trans_ne hp.1
        have hfilled := filled_iff env (s.after env mid key t) hkp' hne
        rw [hrate'] at hfilled
        split
        · rename_i h
          exact (if_pos (Or.inl (hfilled.mp h))).symm
        · rename_i h
          rw [if_congr (or_iff_right (mt hfilled.mpr h)) rfl rfl]
          exact ih hkp' (live_of_not_filled htoken hne (by simpa using h)) hrate' htail
      -- There is none: the exact trade has no result.
      · rw [if_neg fun h => hroom h.1]
        exact no_room_no_trade hk hp hm hb env mid key hkp hkm hroom _

theorem exact_match_trades (hcycles : FeeFits env.cycles_fee) (htoken : FeeFits env.token_fee)
    (hk : POSITION_KIND M = (POSITION_KIND P).other) {b : MatchBook P M}
    (hget : b.matcher_positions.get mid = some p) (hkp : ExactLaws.Kept p) (hp : Live p)
    (hms : ∀ k m, b.matchee_positions.get k = some m → ExactLaws.Kept m ∧ Live m) :
    Exact.match_trades env mid b =
      if SumsFit (POSITION_KIND P) env (rateOf p) b.matchee_positions.entries
        (MatchState.figures ⟨b, [], []⟩ p) then some (match_trades env mid b)
      else none := by
  have hrest : ∀ e ∈ b.matchee_positions.entries, ExactLaws.Kept e.2 ∧ Live e.2 := fun e he =>
    hms e.1 e.2 ((OrdMap.mem_iff_get _ e.1 e.2).mp he)
  unfold Exact.match_trades match_trades
  rw [hget]
  simp only
  rw [exact_match_loop hcycles htoken hk _ hkp hp rfl hrest]
  split_ifs
  · rfl
  · rfl

theorem MatchPath.kept {L : Prop} {b b' : MatchBook P M} {ts : List (Trade P M)}
    (h : MatchPath L env b ts b') (hL : L) (hk : POSITION_KIND M = (POSITION_KIND P).other)
    (hP : ∀ k p, b.matcher_positions.get k = some p → ExactLaws.Kept p)
    (hM : ∀ k m, b.matchee_positions.get k = some m → ExactLaws.Kept m) :
    (∀ k p, b'.matcher_positions.get k = some p → ExactLaws.Kept p) ∧
      ∀ k m, b'.matchee_positions.get k = some m → ExactLaws.Kept m := by
  induction h with
  | nil => exact ⟨hP, hM⟩
  | @trade ts b₁ mid key p m rate h hp hm hlp hlm hb ih =>
    obtain ⟨hs, hs'⟩ := trade_serves hk (hlp.2 hL) (hlm.2 hL) hb
    exact ⟨OrdMap.forall_insert ih.1 (ExactLaws.subtract_kept p _ _ (ih.1 mid p hp) hs),
      OrdMap.forall_insert ih.2 (ExactLaws.subtract_kept m _ _ (ih.2 key m hm) hs')⟩
  | @retire_matcher ts b₁ h id ih =>
    refine ⟨fun k p hg => ?_, fun k m hg => ?_⟩
    · unfold MatchBook.retire_matcher at hg
      split at hg
      · exact OrdMap.forall_remove ih.1 k p hg
      · exact ih.1 k p hg
    · unfold MatchBook.retire_matcher at hg
      split at hg
      · exact ih.2 k m hg
      · exact ih.2 k m hg
  | @retire_matchee ts b₁ h id ih =>
    refine ⟨fun k p hg => ?_, fun k m hg => ?_⟩
    · unfold MatchBook.retire_matchee at hg
      split at hg
      · exact ih.1 k p hg
      · exact ih.1 k p hg
    · unfold MatchBook.retire_matchee at hg
      split at hg
      · exact OrdMap.forall_remove ih.2 k m hg
      · exact ih.2 k m hg

end Loop

end

/-! ## The book -/

structure BookKept (b : Book) : Prop where
  cycles : ∀ k p, b.cycles_positions.get k = some p → p.FeesKept
  token : ∀ k p, b.token_positions.get k = some p → p.FeesKept

/-- The cycles of a token quest at its own rate are a word. -/
def TradeQuest.ProductFits : TradeQuest → Prop
  | .cycles _ => True
  | .tokens q => q.tokens * q.cycles_per_token_rate < 2 ^ 128

/-- The sums fit in the matching of a new order. -/
def TradeQuest.SumsFit (q : TradeQuest) (b : Book) (env : MatchEnv) : Prop :=
  match q with
  | .cycles q => Tc.SumsFit .Cycles env q.cycles_per_token_rate b.token_positions.entries
      ⟨q.cycles, 0, b.trade_logs.length, b.trade_logs_id_counter⟩
  | .tokens q => Tc.SumsFit .Token env q.cycles_per_token_rate b.cycles_positions.entries
      ⟨q.tokens, 0, b.trade_logs.length, b.trade_logs_id_counter⟩

instance : (q : TradeQuest) → (b : Book) → (env : MatchEnv) → Decidable (q.SumsFit b env)
  | .cycles q, b, env => decidableSumsFit .Cycles env q.cycles_per_token_rate
      b.token_positions.entries ⟨q.cycles, 0, b.trade_logs.length, b.trade_logs_id_counter⟩
  | .tokens q, b, env => decidableSumsFit .Token env q.cycles_per_token_rate
      b.cycles_positions.entries ⟨q.tokens, 0, b.trade_logs.length, b.trade_logs_id_counter⟩

section

variable {b : Book} {env : MatchEnv} {id : PositionId} {q : TradeQuest}

theorem new_cycles_kept (q : TradeCyclesQuest) (id : PositionId) (positor : Principal) (now : Nat) :
    (q.create_current_position id positor now).FeesKept :=
  ⟨(Nat.zero_add _).le, le_rfl⟩

theorem new_token_kept {q : TradeTokensQuest}
    (h : q.tokens * q.cycles_per_token_rate < 2 ^ 128) (id : PositionId) (positor : Principal)
    (now : Nat) : (q.create_current_position id positor now).FeesKept :=
  ⟨le_rfl, h⟩

theorem exact_match_quest_iff {L : Prop} (hL : L) (hcycles : FeeFits env.cycles_fee)
    (htoken : FeeFits env.token_fee) (hs : BookSound L b) (hkept : BookKept b)
    (hq : Admitted L q) (hfits : q.ProductFits) (positor : Principal) :
    Exact.match_quest q b env id positor = some (q.match_trades b env id positor) ↔
      q.SumsFit b env := by
  cases q with
  | cycles q =>
    let opened := b.open_cycles (q.create_current_position id positor env.now)
    have hget : opened.cyclesSide.matcher_positions.get id =
        some (q.create_current_position id positor env.now) := OrdMap.get_insert_self _ _ _
    have hexact : Exact.match_trades env id opened.cyclesSide =
        if TradeQuest.SumsFit (.cycles q) b env then some (match_trades env id opened.cyclesSide)
        else none :=
      exact_match_trades hcycles htoken rfl hget (new_cycles_kept q id positor env.now)
        ⟨hq.rate_ne, hq.live hL⟩ (fun k m hm => ⟨hkept.token k m hm, (hs.token k m hm).2 hL⟩)
    rw [Exact.match_quest, hexact]
    split_ifs with h
    · exact iff_of_true rfl h
    · exact iff_of_false nofun h
  | tokens q =>
    let opened := b.open_token (q.create_current_position id positor env.now)
    have hget : opened.tokenSide.matcher_positions.get id =
        some (q.create_current_position id positor env.now) := OrdMap.get_insert_self _ _ _
    have hexact : Exact.match_trades env id opened.tokenSide =
        if TradeQuest.SumsFit (.tokens q) b env then some (match_trades env id opened.tokenSide)
        else none :=
      exact_match_trades hcycles htoken rfl hget (new_token_kept hfits id positor env.now)
        ⟨hq.rate_ne, hq.live hL⟩ (fun k m hm => ⟨hkept.cycles k m hm, (hs.cycles k m hm).2 hL⟩)
    rw [Exact.match_quest, hexact]
    split_ifs with h
    · exact iff_of_true rfl h
    · exact iff_of_false nofun h

theorem match_quest_kept {L : Prop} (hL : L) (htoken : L → FeeFits env.token_fee) (hb : BookIds b)
    (hs : BookSound L b) (hkept : BookKept b) (hid : id ∉ b.ids) (hq : Admitted L q)
    (hfits : q.ProductFits) (positor : Principal) :
    BookKept (q.match_trades b env id positor).book := by
  cases q with
  | cycles q =>
    let p := q.create_current_position id positor env.now
    have hend := match_cycles_end htoken (open_cycles_inv (p := p) hb hid)
      (open_cycles_sound hs ⟨hq.rate_ne, fun hL => ⟨hq.rate_ne, hq.live hL⟩⟩)
      (OrdMap.get_insert_self b.cycles_positions p.id p)
    obtain ⟨hcycles, htokens⟩ := hend.path.kept hL rfl
      (OrdMap.forall_insert hkept.cycles (new_cycles_kept q id positor env.now)) hkept.token
    exact ⟨hcycles, htokens⟩
  | tokens q =>
    let p := q.create_current_position id positor env.now
    have hend := match_token_end htoken (open_token_inv (p := p) hb hid)
      (open_token_sound hs ⟨hq.rate_ne, fun hL => ⟨hq.rate_ne, hq.live hL⟩⟩)
      (OrdMap.get_insert_self b.token_positions p.id p)
    obtain ⟨htokens, hcycles⟩ := hend.path.kept hL rfl
      (OrdMap.forall_insert hkept.token (new_token_kept hfits id positor env.now)) hkept.cycles
    exact ⟨hcycles, htokens⟩

theorem void_position_kept (hb : BookIds b) (h : BookKept b) {caller : Principal}
    {position_id : PositionId} {now : Nat} {b' : Book}
    (hv : void_position_ b caller position_id now = .ok b') : BookKept b' := by
  rcases void_position_spec hb hv with ⟨p, -, -, rfl⟩ | ⟨p, -, -, rfl⟩
  · exact ⟨OrdMap.forall_remove h.cycles, h.token⟩
  · exact ⟨h.cycles, OrdMap.forall_remove h.token⟩

end

/-! ## Runs -/

/-- A step after which the products of the quests that wait are words. -/
def FittingStep (cfg : TcConfig) (s s' : TcState) : Prop :=
  TcStep cfg s s' ∧ ∀ c ∈ s'.calls, ∀ q, c.quest = .trade q → q.ProductFits

abbrev FittingReachable (cfg : TcConfig) : TcState → Prop := Reachable (TcInit cfg) (FittingStep cfg)

structure StateKept (s : TcState) : Prop where
  book : BookKept s.cm_data.toBook
  calls : ∀ c ∈ s.calls, ∀ q, c.quest = .trade q → q.ProductFits

variable {cfg : TcConfig} {s s' : TcState}

theorem FittingReachable.reachable (r : FittingReachable cfg s) : TcReachable cfg s :=
  r.mono fun _ _ h => h.1

theorem state_kept_step (h : StateKept s) (hm : Market True s) (hfees : FeesOk s.history)
    (hstep : FittingStep cfg s s') : StateKept s' := by
  obtain ⟨hstep, hcalls⟩ := hstep
  refine ⟨?_, hcalls⟩
  rcases position_step hm hstep with hk | ⟨checked, book, calls, deals⟩ |
    @⟨c, q, now, instruction_counter, mem, quest, book, calls, deals⟩ | ⟨void, calls, deals⟩
  · exact ⟨hk.cycles ▸ h.book.cycles, hk.token ▸ h.book.token⟩
  · rw [book]
    exact h.book
  · rw [book]
    exact match_quest_kept trivial (fun _ => hfees _ (hm.fees .Token)) hm.book hm.sound h.book
      hm.fresh_id (hm.admitted c mem q quest) (h.calls c mem q quest) c.caller
  · exact void_position_kept hm.book h.book void

theorem state_kept_inv (r : FittingReachable cfg s) (hfees : FeesOk s.history) : StateKept s := by
  refine r.invariant_while (P := fun s => FeesOk s.history) (fun s s' hstep => FeesOk.of_step hstep.1)
    (fun s hinit _ => ?_) (fun s s' r hfees _ h hstep => ?_) hfees
  · obtain ⟨fees, positions_module_hash, trades_module_hash, ledger, rfl⟩ := hinit
    refine ⟨⟨fun k p hg => ?_, fun k p hg => ?_⟩, fun c hc => absurd hc List.not_mem_nil⟩
    · cases hg
    · cases hg
  · exact state_kept_step h (market_inv (FittingReachable.reachable r) fun _ => hfees) hfees hstep

/-! ## What is exact -/

theorem exact_check_iff {cycles_fee token_fee : Nat} (hcycles : FeeFits cycles_fee)
    (htoken : FeeFits token_fee) (q : TradeQuest) :
    Exact.is_less_than_minimum_position cycles_fee token_fee q =
        some (q.is_less_than_minimum_position cycles_fee token_fee) ↔
      q.quantity < minimum_match token_fee ∨ q.ProductFits := by
  cases q with
  | cycles q =>
    refine iff_of_true ?_ (Or.inr trivial)
    rw [Exact.is_less_than_minimum_position, exact_minimum_match hcycles, exact_minimum_match htoken,
      TradeQuest.is_less_than_minimum_position]
    simp only [Option.bind_eq_bind, Option.bind_some]
    split_ifs with hlt
    · rw [decide_eq_true hlt]
      rfl
    · rw [decide_eq_false hlt]
      rfl
  | tokens q =>
    rw [Exact.is_less_than_minimum_position, exact_minimum_match hcycles, exact_minimum_match htoken,
      TradeQuest.is_less_than_minimum_position]
    simp only [Option.bind_eq_bind, Option.bind_some]
    change _ ↔ q.tokens < minimum_match token_fee ∨ q.tokens * q.cycles_per_token_rate < 2 ^ 128
    split_ifs with hlt
    · rw [decide_eq_true hlt]
      exact iff_of_true rfl (Or.inl hlt)
    · rw [decide_eq_false hlt]
      by_cases hfits : q.tokens * q.cycles_per_token_rate < 2 ^ 128
      · rw [exact_transform hfits]
        exact iff_of_true rfl (Or.inr hfits)
      · refine iff_of_false ?_ (by omega)
        rw [Exact.tokens_transform_cycles, Word.checkedMul, if_neg hfits]
        simp

/-- What is exact in a state: the check of each quest that comes to no product or to one that fits,
and the matching of each quest that waits whose sums fit. Nothing else is. -/
structure ExactAt (cfg : TcConfig) (s : TcState) : Prop where
  checks : ∀ q, Exact.is_less_than_minimum_position (s.fees .Cycles) (s.fees .Token) q =
      some (q.is_less_than_minimum_position (s.fees .Cycles) (s.fees .Token)) ↔
    q.quantity < minimum_match (s.fees .Token) ∨ q.ProductFits
  commits : ∀ c ∈ s.calls, ∀ q, c.quest = .trade q → ∀ now instruction_counter,
    Exact.match_quest q s.cm_data.toBook (s.match_env cfg now instruction_counter)
        s.cm_data.positions_id_counter c.caller =
      some (q.match_trades s.cm_data.toBook (s.match_env cfg now instruction_counter)
        s.cm_data.positions_id_counter c.caller) ↔
    q.SumsFit s.cm_data.toBook (s.match_env cfg now instruction_counter)

/-- In a run that admits only quests whose product fits, a matching is exact just when its sums fit. -/
theorem arithmetic_is_exact_while_it_fits (cfg : TcConfig) (s : TcState)
    (r : FittingReachable cfg s) (hfees : FeesOk s.history) : ExactAt cfg s := by
  have hkept := state_kept_inv r hfees
  have hm : Market True s := market_inv r.reachable fun _ => hfees
  have hcycles := hfees _ (hm.fees .Cycles)
  have htoken := hfees _ (hm.fees .Token)
  refine ⟨exact_check_iff hcycles htoken, fun c hc q hq now instruction_counter => ?_⟩
  exact exact_match_quest_iff trivial hcycles htoken hm.sound hkept.book (hm.admitted c hc q hq)
    (hkept.calls c hc q hq) c.caller

/-- A step of a script whose states all pass a test. -/
def TcState.playChecked (check : TcState → Bool) (cfg : TcConfig) (s : TcState) (e : Event) :
    Option TcState :=
  (s.play cfg e).filter check

theorem fitting_script {check : TcState → Bool}
    (hcheck : ∀ s, check s = true → ∀ c ∈ s.calls, ∀ q, c.quest = .trade q → q.ProductFits)
    {events : List Event} (r : FittingReachable cfg s)
    (h : events.foldlM (TcState.playChecked check cfg) s = some s') :
    FittingReachable cfg s' := by
  refine kept_by_script (I := FittingReachable cfg) ?_ r h
  intro s e t r ht
  obtain ⟨hplay, htrue⟩ := Option.filter_eq_some_iff.mp ht
  exact r.next ⟨play_step hplay, hcheck t htrue⟩

namespace Sample

def productsFit (s : TcState) : Bool :=
  s.calls.all fun c =>
    match c.quest with
    | .trade (.tokens q) => q.tokens * q.cycles_per_token_rate < 2 ^ 128
    | _ => true

theorem product_fits_of_check (s : TcState) (h : productsFit s = true) :
    ∀ c ∈ s.calls, ∀ q, c.quest = .trade q → q.ProductFits := by
  intro c hc q hq
  have hall := List.all_eq_true.mp h c hc
  rw [hq] at hall
  cases q with
  | cycles q => trivial
  | tokens q =>
    have hfits : q.tokens * q.cycles_per_token_rate < 2 ^ 128 := of_decide_eq_true hall
    exact hfits

/-- B's quest has its deposit and is about to meet A's position. -/
def crossing : TcState :=
  (trades.dropLast.foldlM (TcState.playChecked productsFit config) start).getD start

theorem crossing_reachable : FittingReachable config crossing :=
  fitting_script product_fits_of_check (.start ⟨_, [], [], _, rfl⟩) (end_of_script (by decide +kernel))

end Sample

theorem short_run_is_exact : Sample.crossing.calls.length = 1 ∧
    Sample.crossing.cm_data.cycles_positions.len = 1 ∧ ExactAt Sample.config Sample.crossing := by
  refine ⟨by decide +kernel, by decide +kernel,
    arithmetic_is_exact_while_it_fits _ _ Sample.crossing_reachable ?_⟩
  unfold FeesOk FeeFits
  decide +kernel

/-- `2 ^ 127` tokens at 3 pass the minimum with a product that wraps. -/
theorem wrapped_product_passes_the_minimum :
    ¬ ∀ (cycles_fee token_fee : Nat) (q : TradeQuest), FeeFits cycles_fee → FeeFits token_fee →
      q.is_less_than_minimum_position cycles_fee token_fee = false → q.cycles_per_token_rate ≠ 0 →
      Exact.is_less_than_minimum_position cycles_fee token_fee q = some false := by
  intro h
  let q : TradeTokensQuest :=
    { tokens := 2 ^ 127
      cycles_per_token_rate := 3
      posit_transfer_ledger_fee := none
      return_tokens_to_subaccount := none
      payout_cycles_to_subaccount := none
      tokens_lt := by decide
      rate_lt := by decide }
  have hfits : FeeFits 10 := by
    unfold FeeFits
    decide
  have hexact := h 10 10 (.tokens q) hfits hfits (by decide) (by decide)
  revert hexact
  decide

end Cts.Tc
