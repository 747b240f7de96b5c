import Cts.Tc.FeeTiers
import Cts.Tc.PositionSteps

/-!
# Exact arithmetic

The checks of a quest and its matching once more, over exact numbers: there is no result when a sum
or a product leaves the words. Where there is one both builds compute it.
-/

namespace Cts.Tc

open Lib CurrentPositionTrait

/-! ## The computations -/

theorem CyclesPosition.left_le (p : CyclesPosition) (sub_cycles : Nat) :
    saturating_sub p.current_position_cycles sub_cycles ≤ p.quest.cycles :=
  (Nat.sub_le _ _).trans p.current_le

theorem TokenPosition.left_le (p : TokenPosition) (sub_tokens : Nat) :
    saturating_sub p.current_position_tokens sub_tokens ≤ p.quest.tokens :=
  (Nat.sub_le _ _).trans p.current_le

class ExactPosition (P : Type) [CurrentPositionTrait P] where
  subtract_tokens : P → Nat → Nat → Option (P × Nat)
  is_this_position_better_than_or_equal_to_the_match_rate : P → Nat → Option (Option Nat)

namespace Exact

def tokens_transform_cycles (tokens cycles_per_token : Nat) : Option Nat :=
  Word.checkedMul 128 tokens cycles_per_token

def minimum_match (ledger_transfer_fee : Nat) : Option Nat := do
  let ten_fees ← Word.checkedMul 128 ledger_transfer_fee 10
  Word.checkedAdd 128 10000 ten_fees

def is_less_than_minimum_position (cycles_fee token_fee : Nat) : TradeQuest → Option Bool
  | .cycles q => do
    let minimum_cycles_match ← minimum_match cycles_fee
    if q.cycles < minimum_cycles_match then some true
    else
      let minimum_tokens_match ← minimum_match token_fee
      some (cycles_transform_tokens q.cycles q.cycles_per_token_rate < minimum_tokens_match)
  | .tokens q => do
    let minimum_tokens_match ← minimum_match token_fee
    if q.tokens < minimum_tokens_match then some true
    else
      let cycles ← tokens_transform_cycles q.tokens q.cycles_per_token_rate
      let minimum_cycles_match ← minimum_match cycles_fee
      some (cycles < minimum_cycles_match)

end Exact

instance : ExactPosition CyclesPosition where
  subtract_tokens p sub_tokens rate := do
    let fill_quantity_tokens ← Word.checkedAdd 128 p.fill_quantity_tokens sub_tokens
    let sub_cycles ← Exact.tokens_transform_cycles sub_tokens rate
    let fee_cycles ← Dev.calculate_trade_fee (p.quest.cycles - p.current_position_cycles) sub_cycles
    let rate_times_cycles ← Word.checkedMul 128 rate sub_cycles
    let purchases_sum ←
      Word.checkedAdd 128 p.purchases_rates_times_cycles_quantities_sum rate_times_cycles
    let payouts_fees_sum ←
      Word.checkedAdd 128 p.tokens_payouts_fees_sum (cycles_transform_tokens fee_cycles rate)
    some ({ p with
        fill_quantity_tokens := fill_quantity_tokens
        current_position_cycles := saturating_sub p.current_position_cycles sub_cycles
        purchases_rates_times_cycles_quantities_sum := purchases_sum
        tokens_payouts_fees_sum := payouts_fees_sum
        current_le := p.left_le sub_cycles },
      fee_cycles)
  is_this_position_better_than_or_equal_to_the_match_rate p match_rate :=
    some (p.is_this_position_better_than_or_equal_to_the_match_rate match_rate)

instance : ExactPosition TokenPosition where
  subtract_tokens p sub_tokens rate := do
    let rate_times_tokens ← Word.checkedMul 128 rate sub_tokens
    let fee_cycles ←
      Dev.calculate_trade_fee p.purchases_rates_times_token_quantities_sum rate_times_tokens
    let purchases_sum ←
      Word.checkedAdd 128 p.purchases_rates_times_token_quantities_sum rate_times_tokens
    let payouts_fees_sum ← Word.checkedAdd 128 p.cycles_payouts_fees_sum fee_cycles
    some ({ p with
        current_position_tokens := saturating_sub p.current_position_tokens sub_tokens
        purchases_rates_times_token_quantities_sum := purchases_sum
        cycles_payouts_fees_sum := payouts_fees_sum
        current_le := p.left_le sub_tokens },
      fee_cycles)
  is_this_position_better_than_or_equal_to_the_match_rate p match_rate :=
    if p.quest.cycles_per_token_rate ≤ match_rate then do
      let rate ← Word.checkedAdd 128 p.quest.cycles_per_token_rate
        ((match_rate - p.quest.cycles_per_token_rate) / 2)
      some (some rate)
    else some none

namespace Exact

section

variable {P M : Type} [CurrentPositionTrait P] [CurrentPositionTrait M] [ExactPosition P]
  [ExactPosition M]

def is_filled (env : MatchEnv) (p : P) : Option Bool := do
  let minimum_tokens_match ← minimum_match env.token_fee
  if current_position_tokens p (rateOf p) < minimum_tokens_match then some true
  else
    let cycles ← tokens_transform_cycles (current_position_tokens p (rateOf p)) (rateOf p)
    let minimum_cycles_match ← minimum_match env.cycles_fee
    some (cycles < minimum_cycles_match)

/-- The log that two positions leave after their trade. -/
def trade_log (env : MatchEnv) (matcher' : P) (matchee' : M) (purchase_tokens cycles trade_rate
    matcher_position_payout_fee_cycles matchee_position_payout_fee_cycles trade_log_id : Nat) :
    TradeLogAndTemporaryData :=
  { log :=
      { position_id_matcher := CurrentPositionTrait.id matcher'
        position_id_matchee := CurrentPositionTrait.id matchee'
        id := trade_log_id
        matchee_position_positor := positor matchee'
        matcher_position_positor := positor matcher'
        tokens := purchase_tokens
        cycles := cycles
        cycles_per_token_rate := trade_rate
        matchee_position_kind := POSITION_KIND M
        timestamp_nanos := env.now
        tokens_payout_fee := cycles_transform_tokens
          (match POSITION_KIND P with
            | .Cycles => matcher_position_payout_fee_cycles
            | .Token => matchee_position_payout_fee_cycles) trade_rate
        cycles_payout_fee :=
          match POSITION_KIND P with
            | .Token => matcher_position_payout_fee_cycles
            | .Cycles => matchee_position_payout_fee_cycles
        cycles_payout_data := none
        token_payout_data := none }
    temporary_data :=
      { cycles_payout_lock := false
        token_payout_lock := false
        payout_cycles_to_subaccount :=
          match POSITION_KIND P with
            | .Token => payout_to_subaccount matcher'
            | .Cycles => payout_to_subaccount matchee'
        payout_tokens_to_subaccount :=
          match POSITION_KIND P with
            | .Cycles => payout_to_subaccount matcher'
            | .Token => payout_to_subaccount matchee' } }

def make_trade (env : MatchEnv) (matcher_position : P) (matchee_position : M)
    (trade_rate trade_log_id : Nat) : Option (Trade P M) := do
  let purchase_tokens := min (current_position_tokens matcher_position trade_rate)
    (current_position_tokens matchee_position trade_rate)
  let (matcher', matcher_position_payout_fee_cycles) ←
    ExactPosition.subtract_tokens matcher_position purchase_tokens trade_rate
  let (matchee', matchee_position_payout_fee_cycles) ←
    ExactPosition.subtract_tokens matchee_position purchase_tokens trade_rate
  let cycles ← tokens_transform_cycles purchase_tokens trade_rate
  some
    { matcher := matcher_position
      matcher' := matcher'
      matchee := matchee_position
      matchee' := matchee'
      log := trade_log env matcher' matchee' purchase_tokens cycles trade_rate
        matcher_position_payout_fee_cycles matchee_position_payout_fee_cycles trade_log_id }

def after (env : MatchEnv) (s : MatchState P M) (matcher_position_id matchee_key : PositionId)
    (t : Trade P M) : Option (MatchState P M) := do
  let _ ← Word.checkedAdd 128 s.book.trade_logs_id_counter 1
  let filled ← is_filled env t.matchee'
  some
    { book := s.book.record matcher_position_id matchee_key t
      remove_matchee_positions_fill :=
        if filled then s.remove_matchee_positions_fill ++ [CurrentPositionTrait.id t.matchee']
        else s.remove_matchee_positions_fill
      trades := s.trades ++ [t] }

def match_loop (env : MatchEnv) (matcher_position_id : PositionId) (match_rate : Nat) :
    List (PositionId × M) → P → MatchState P M → Option (MatchState P M × MatchExit)
  | [], _, s => some (s, .exhausted)
  | (key, matchee_position) :: rest, matcher_position, s => do
    let better ← ExactPosition.is_this_position_better_than_or_equal_to_the_match_rate
      matchee_position match_rate
    match better with
    | none => match_loop env matcher_position_id match_rate rest matcher_position s
    | some trade_rate =>
      if env.MAX_TRADE_LOGS ≤ s.book.trade_logs.length then some (s, .stopped)
      else if MAX_INSTRUCTIONS_IN_THE_MATCH_TRADES_FN ≤ env.instruction_counter key then
        some (s, .stopped)
      else
        let t ← make_trade env matcher_position matchee_position trade_rate
          s.book.trade_logs_id_counter
        let s ← after env s matcher_position_id key t
        let filled ← is_filled env t.matcher'
        if filled then
          some ({ s with book := s.book.retire_matcher env matcher_position_id }, .filled)
        else match_loop env matcher_position_id match_rate rest t.matcher' s

def match_trades (env : MatchEnv) (matcher_position_id : PositionId) (b : MatchBook P M) :
    Option (MatchResult P M) :=
  match b.matcher_positions.get matcher_position_id with
  | none => some ⟨b, [], .exhausted⟩
  | some matcher_position => do
    let (s, exit) ← match_loop env matcher_position_id (rateOf matcher_position)
      b.matchee_positions.entries matcher_position ⟨b, [], []⟩
    some ⟨s.remove_matchee_positions_fill.foldl (MatchBook.retire_matchee env) s.book, s.trades, exit⟩

end

def match_quest (q : TradeQuest) (b : Book) (env : MatchEnv) (id : PositionId)
    (positor : Principal) : Option Matched :=
  match q with
  | .cycles q => do
    let r ← match_trades env id
      (b.open_cycles (q.create_current_position id positor env.now)).cyclesSide
    some ⟨.ofCyclesSide r.book, r.trades.map Trade.cyclesDeal, r.exit⟩
  | .tokens q => do
    let r ← match_trades env id
      (b.open_token (q.create_current_position id positor env.now)).tokenSide
    some ⟨.ofTokenSide r.book, r.trades.map Trade.tokenDeal, r.exit⟩

end Exact

/-! ## Where they have a result -/

theorem exact_minimum_match {fee : Nat} (h : FeeFits fee) :
    Exact.minimum_match fee = some (minimum_match fee) := by
  rw [minimum_match_eq h]
  unfold FeeFits at h
  rw [Exact.minimum_match, Word.checkedMul_of_lt (by omega), Option.bind_eq_bind, Option.bind_some,
    Word.checkedAdd_of_lt (by omega), Nat.mul_comm fee 10]

theorem exact_transform {tokens rate : Nat} (h : tokens * rate < 2 ^ 128) :
    Exact.tokens_transform_cycles tokens rate = some (tokens_transform_cycles tokens rate) := by
  rw [Exact.tokens_transform_cycles, Word.checkedMul_of_lt h, tokens_transform_cycles,
    Word.mul_of_lt h]

theorem exact_trade_fee {volume trade_cycles : Nat} (hpos : 1 ≤ trade_cycles)
    (hfit : volume + trade_cycles < 2 ^ 128) :
    Dev.calculate_trade_fee volume trade_cycles =
      some (calculate_trade_fee volume trade_cycles) := by
  rw [dev_fee_eq hpos hfit, calculate_trade_fee_eq hpos hfit]

/-- A trade that a position of the kind can serve. -/
structure Serves (kind : PositionKind) (quantity tokens rate : Nat) : Prop where
  tokens_pos : 1 ≤ tokens
  rate_pos : 1 ≤ rate
  fits : tokens * rate < 2 ^ 128
  units_le : kind.units tokens rate ≤ quantity

class PurchasesSum (P : Type) where
  /-- The sum that a position keeps, in rates times its own units. -/
  purchases_sum : P → Nat

instance : PurchasesSum CyclesPosition where
  purchases_sum p := p.purchases_rates_times_cycles_quantities_sum

instance : PurchasesSum TokenPosition where
  purchases_sum p := p.purchases_rates_times_token_quantities_sum

open PurchasesSum (purchases_sum)

/-- The two kinds once more: the sum is all that a trade can drive out of the words. -/
class ExactLaws (P : Type) [CurrentPositionTrait P] [LawfulPosition P] [ExactPosition P]
    [PurchasesSum P] where
  /-- What holds of every position that a run admitted. -/
  Kept : P → Prop
  better_exact (p : P) (match_rate : Nat) (h : match_rate < 2 ^ 128) :
    ExactPosition.is_this_position_better_than_or_equal_to_the_match_rate p match_rate =
      some (is_this_position_better_than_or_equal_to_the_match_rate p match_rate)
  own_fits (p : P) (h : Kept p) : current_position_tokens p (rateOf p) * rateOf p < 2 ^ 128
  subtract_exact (p : P) (tokens rate : Nat) (h : Kept p)
    (hs : Serves (POSITION_KIND P) (current_position_quantity p) tokens rate) :
    ExactPosition.subtract_tokens p tokens rate =
      if purchases_sum p + rate * (POSITION_KIND P).units tokens rate < 2 ^ 128 then
        some (subtract_tokens p tokens rate)
      else none
  subtract_sum (p : P) (tokens rate : Nat)
    (hs : Serves (POSITION_KIND P) (current_position_quantity p) tokens rate)
    (hroom : purchases_sum p + rate * (POSITION_KIND P).units tokens rate < 2 ^ 128) :
    purchases_sum (subtract_tokens p tokens rate).1 =
      purchases_sum p + rate * (POSITION_KIND P).units tokens rate
  subtract_kept (p : P) (tokens rate : Nat) (h : Kept p)
    (hs : Serves (POSITION_KIND P) (current_position_quantity p) tokens rate) :
    Kept (subtract_tokens p tokens rate).1

/-! ## Cycles positions -/

/-- What was paid out of a cycles position is worth no more tokens than what it sold. -/
structure CyclesPosition.FeesKept (p : CyclesPosition) : Prop where
  fill_le : p.fill_quantity_tokens + p.current_position_cycles ≤ p.quest.cycles
  fees_le : p.tokens_payouts_fees_sum ≤ p.fill_quantity_tokens

namespace CyclesPosition

variable {p : CyclesPosition} {tokens rate : Nat}
  (hs : Serves .Cycles p.current_position_cycles tokens rate)

include hs

theorem transform_eq : tokens_transform_cycles tokens rate = tokens * rate := Word.mul_of_lt hs.fits

theorem fee_tokens_le (fee : Nat) (h : 200 * fee ≤ tokens * rate) :
    cycles_transform_tokens fee rate ≤ tokens := by
  have hrate := hs.rate_pos
  rw [cycles_transform_tokens, if_neg (by omega)]
  calc fee / rate ≤ tokens * rate / rate := Nat.div_le_div_right (by omega)
    _ = tokens := Nat.mul_div_cancel _ hs.rate_pos

theorem tokens_le_cycles : tokens ≤ tokens * rate := Nat.le_mul_of_pos_right _ hs.rate_pos

theorem subtract_tokens_kept (h : p.FeesKept) : (p.subtract_tokens tokens rate).1.FeesKept := by
  have hfill := h.fill_le
  have hfees := h.fees_le
  have hunits : tokens * rate ≤ p.current_position_cycles := hs.units_le
  have hle := tokens_le_cycles hs
  have hfee : 200 * (p.subtract_tokens tokens rate).2 ≤ tokens * rate :=
    LawfulPosition.fee_le p tokens rate
  have hfee := fee_tokens_le hs _ hfee
  have hleft : (p.subtract_tokens tokens rate).1.current_position_cycles =
      p.current_position_cycles - tokens * rate := by
    rw [← transform_eq hs]
    rfl
  have hfill' : (p.subtract_tokens tokens rate).1.fill_quantity_tokens =
      min (p.fill_quantity_tokens + tokens) (2 ^ 128 - 1) := rfl
  have hfees' : (p.subtract_tokens tokens rate).1.tokens_payouts_fees_sum =
      min (p.tokens_payouts_fees_sum +
        cycles_transform_tokens (p.subtract_tokens tokens rate).2 rate) (2 ^ 128 - 1) := rfl
  constructor
  · rw [hfill', hleft]
    change _ ≤ p.quest.cycles
    omega
  · rw [hfill', hfees']
    omega

theorem subtract_tokens_exact (h : p.FeesKept) :
    ExactPosition.subtract_tokens p tokens rate =
      if p.purchases_rates_times_cycles_quantities_sum + rate * (tokens * rate) < 2 ^ 128 then
        some (p.subtract_tokens tokens rate)
      else none := by
  have hquest := p.quest.cycles_lt
  have hcurrent := p.current_le
  have hfill := h.fill_le
  have hfees := h.fees_le
  have hunits : tokens * rate ≤ p.current_position_cycles := hs.units_le
  have hle := tokens_le_cycles hs
  have hpos := hs.tokens_pos
  have hfee : 200 * calculate_trade_fee (p.quest.cycles - p.current_position_cycles)
      (tokens_transform_cycles tokens rate) ≤ tokens * rate := LawfulPosition.fee_le p tokens rate
  rw [transform_eq hs] at hfee
  have hfee := fee_tokens_le hs _ hfee
  simp only [ExactPosition.subtract_tokens, subtract_tokens, Option.bind_eq_bind,
    exact_transform hs.fits, transform_eq hs, saturating_add]
  rw [Word.checkedAdd_of_lt (by omega), Option.bind_some, Option.bind_some,
    exact_trade_fee (by omega) (by omega), Option.bind_some]
  by_cases hmul : rate * (tokens * rate) < 2 ^ 128
  · rw [Word.checkedMul_of_lt hmul, Option.bind_some, Word.mul_of_lt hmul]
    split_ifs with hroom
    · rw [Word.checkedAdd_of_lt hroom, Option.bind_some, Word.checkedAdd_of_lt (by omega),
        Option.bind_some, Word.saturatingAdd_of_lt hroom, Word.saturatingAdd_of_lt (by omega),
        Word.saturatingAdd_of_lt (by omega)]
    · rw [Word.checkedAdd, if_neg hroom, Option.bind_none]
  · rw [Word.checkedMul, if_neg hmul, Option.bind_none, if_neg (by omega)]

theorem subtract_tokens_sum
    (hroom : p.purchases_rates_times_cycles_quantities_sum + rate * (tokens * rate) < 2 ^ 128) :
    (p.subtract_tokens tokens rate).1.purchases_rates_times_cycles_quantities_sum =
      p.purchases_rates_times_cycles_quantities_sum + rate * (tokens * rate) := by
  change saturating_add _ (Word.mul 128 rate (tokens_transform_cycles tokens rate)) = _
  rw [transform_eq hs, Word.mul_of_lt (by omega)]
  exact Word.saturatingAdd_of_lt hroom

end CyclesPosition

theorem CyclesPosition.own_fits (p : CyclesPosition) :
    p.current_position_tokens p.quest.cycles_per_token_rate * p.quest.cycles_per_token_rate <
      2 ^ 128 := by
  refine lt_of_le_of_lt ?_ (LawfulPosition.quantity_lt p)
  change p.current_position_tokens p.quest.cycles_per_token_rate * p.quest.cycles_per_token_rate ≤
    p.current_position_cycles
  rw [CyclesPosition.current_position_tokens]
  split_ifs
  · omega
  · exact Nat.div_mul_le_self _ _

instance : ExactLaws CyclesPosition where
  Kept := CyclesPosition.FeesKept
  better_exact _ _ _ := rfl
  own_fits p _ := p.own_fits
  subtract_exact _ _ _ h hs := CyclesPosition.subtract_tokens_exact hs h
  subtract_sum _ _ _ hs hroom := CyclesPosition.subtract_tokens_sum hs hroom
  subtract_kept _ _ _ h hs := CyclesPosition.subtract_tokens_kept hs h

/-! ## Token positions -/

structure TokenPosition.FeesKept (p : TokenPosition) : Prop where
  fees_le : p.cycles_payouts_fees_sum ≤ p.purchases_rates_times_token_quantities_sum
  quest_fits : p.quest.tokens * p.quest.cycles_per_token_rate < 2 ^ 128

namespace TokenPosition

variable {p : TokenPosition} {tokens rate : Nat}
  (hs : Serves .Token p.current_position_tokens tokens rate)

include hs

theorem product_eq : Word.mul 128 rate tokens = rate * tokens := by
  apply Word.mul_of_lt
  rw [Nat.mul_comm]
  exact hs.fits

theorem subtract_tokens_kept (h : p.FeesKept) : (p.subtract_tokens tokens rate).1.FeesKept := by
  have hfees := h.fees_le
  have hfee : 200 * (p.subtract_tokens tokens rate).2 ≤ tokens * rate :=
    LawfulPosition.fee_le p tokens rate
  rw [Nat.mul_comm tokens rate, ← product_eq hs] at hfee
  refine ⟨?_, h.quest_fits⟩
  change min (p.cycles_payouts_fees_sum + (p.subtract_tokens tokens rate).2) (2 ^ 128 - 1) ≤
    min (p.purchases_rates_times_token_quantities_sum + Word.mul 128 rate tokens) (2 ^ 128 - 1)
  omega

theorem subtract_tokens_exact (h : p.FeesKept) :
    ExactPosition.subtract_tokens p tokens rate =
      if p.purchases_rates_times_token_quantities_sum + rate * tokens < 2 ^ 128 then
        some (p.subtract_tokens tokens rate)
      else none := by
  have hfees := h.fees_le
  have hpos : 0 < rate * tokens := Nat.mul_pos hs.rate_pos hs.tokens_pos
  have hfee : 200 * calculate_trade_fee p.purchases_rates_times_token_quantities_sum
      (Word.mul 128 rate tokens) ≤ tokens * rate := LawfulPosition.fee_le p tokens rate
  rw [product_eq hs, Nat.mul_comm tokens rate] at hfee
  have hmul : rate * tokens < 2 ^ 128 := Nat.mul_comm tokens rate ▸ hs.fits
  simp only [ExactPosition.subtract_tokens, subtract_tokens, Option.bind_eq_bind, product_eq hs,
    saturating_add]
  rw [Word.checkedMul_of_lt hmul, Option.bind_some]
  split_ifs with hroom
  · rw [exact_trade_fee hpos hroom, Option.bind_some, Word.checkedAdd_of_lt hroom,
      Option.bind_some, Word.checkedAdd_of_lt (by omega), Option.bind_some,
      Word.saturatingAdd_of_lt hroom, Word.saturatingAdd_of_lt (by omega)]
  · -- Whatever becomes of the fee, the sum is taken after it.
    simp only [Word.checkedAdd, if_neg hroom, Option.bind_none, Option.bind_fun_none]

theorem subtract_tokens_sum
    (hroom : p.purchases_rates_times_token_quantities_sum + rate * tokens < 2 ^ 128) :
    (p.subtract_tokens tokens rate).1.purchases_rates_times_token_quantities_sum =
      p.purchases_rates_times_token_quantities_sum + rate * tokens := by
  change saturating_add _ (Word.mul 128 rate tokens) = _
  rw [product_eq hs]
  exact Word.saturatingAdd_of_lt hroom

end TokenPosition

theorem TokenPosition.better_exact (p : TokenPosition) (match_rate : Nat) (h : match_rate < 2 ^ 128) :
    ExactPosition.is_this_position_better_than_or_equal_to_the_match_rate p match_rate =
      some (p.is_this_position_better_than_or_equal_to_the_match_rate match_rate) := by
  change (if p.quest.cycles_per_token_rate ≤ match_rate then _ else some none) =
    some (p.is_this_position_better_than_or_equal_to_the_match_rate match_rate)
  rw [TokenPosition.is_this_position_better_than_or_equal_to_the_match_rate]
  split_ifs with hle
  · rw [Word.checkedAdd_of_lt (by omega), Word.add_of_lt (by omega)]
    rfl
  · rfl

theorem TokenPosition.own_fits (p : TokenPosition) (h : p.FeesKept) :
    p.current_position_tokens * p.quest.cycles_per_token_rate < 2 ^ 128 := by
  refine lt_of_le_of_lt ?_ h.quest_fits
  exact Nat.mul_le_mul_right _ p.current_le

instance : ExactLaws TokenPosition where
  Kept := TokenPosition.FeesKept
  better_exact := TokenPosition.better_exact
  own_fits := TokenPosition.own_fits
  subtract_exact _ _ _ h hs := TokenPosition.subtract_tokens_exact hs h
  subtract_sum _ _ _ hs hroom := TokenPosition.subtract_tokens_sum hs hroom
  subtract_kept _ _ _ h hs := TokenPosition.subtract_tokens_kept hs h

end Cts.Tc
