import Cts.Lib.Means
import Cts.Tc.FeeTiers
import Cts.Tc.Trading

/-!
# The average rate in the log of a position

A token position weighs the rates of its trades by their tokens, and a cycles position by their
cycles. Only the first is the rate that was paid.
-/

namespace Cts.Tc

open Lib CurrentPositionTrait

/-- What a trade takes from a position. -/
structure Fill where
  tokens : Nat
  rate : Nat
  tokens_pos : 0 < tokens
  rate_pos : 0 < rate

def Fill.cycles (f : Fill) : Nat := tokens_transform_cycles f.tokens f.rate

def afterFills {P : Type} [CurrentPositionTrait P] (p : P) (fills : List Fill) : P :=
  fills.foldl (fun p f => (subtract_tokens p f.tokens f.rate).1) p

def totalTokens (fills : List Fill) : Nat := (fills.map Fill.tokens).sum

def totalCycles (fills : List Fill) : Nat := (fills.map fun f => f.tokens * f.rate).sum

/-- The cycles of all the trades by their tokens. -/
def paidRate (fills : List Fill) : Nat := totalCycles fills / totalTokens fills

def weightedRates (fills : List Fill) : List (Nat × Nat) := fills.map fun f => (f.tokens, f.rate)

/-- The sum that a cycles position keeps. -/
def ratesTimesCycles (fills : List Fill) : Nat :=
  (fills.map fun f => f.rate * (f.tokens * f.rate)).sum

section

variable {f : Fill} {fills : List Fill}

theorem totalTokens_cons : totalTokens (f :: fills) = f.tokens + totalTokens fills := rfl

theorem totalCycles_cons : totalCycles (f :: fills) = f.tokens * f.rate + totalCycles fills := rfl

theorem ratesTimesCycles_cons :
    ratesTimesCycles (f :: fills) = f.rate * (f.tokens * f.rate) + ratesTimesCycles fills := rfl

theorem total_weightedRates (fills : List Fill) :
    Means.total (weightedRates fills) = totalTokens fills := by
  rw [Means.total, weightedRates, List.map_map]
  rfl

theorem moment_weightedRates (fills : List Fill) :
    Means.moment (weightedRates fills) = totalCycles fills := by
  rw [Means.moment, weightedRates, List.map_map]
  rfl

theorem squares_weightedRates (fills : List Fill) :
    Means.squares (weightedRates fills) = ratesTimesCycles fills := by
  rw [Means.squares, weightedRates, List.map_map]
  rfl

theorem totalTokens_pos (h : fills ≠ []) : 0 < totalTokens fills := by
  obtain ⟨f, rest, rfl⟩ := List.exists_cons_of_ne_nil h
  exact Nat.add_pos_left f.tokens_pos _

theorem totalCycles_pos (h : fills ≠ []) : 0 < totalCycles fills := by
  obtain ⟨f, rest, rfl⟩ := List.exists_cons_of_ne_nil h
  exact Nat.add_pos_left (Nat.mul_pos f.tokens_pos f.rate_pos) _

/-! ## What the positions keep -/

section

variable {p : TokenPosition}

theorem TokenPosition.after_fill_sum
    (hfit : p.purchases_rates_times_token_quantities_sum + f.tokens * f.rate < 2 ^ 128) :
    (p.subtract_tokens f.tokens f.rate).1.purchases_rates_times_token_quantities_sum =
      p.purchases_rates_times_token_quantities_sum + f.tokens * f.rate := by
  change saturating_add _ (Word.mul 128 f.rate f.tokens) = _
  rw [Word.mul_of_lt (by rw [Nat.mul_comm]; omega), Nat.mul_comm f.rate f.tokens]
  exact Word.saturatingAdd_of_lt hfit

theorem TokenPosition.fill_fee (h : f.tokens * f.rate < 2 ^ 128) :
    (p.subtract_tokens f.tokens f.rate).2 =
      calculate_trade_fee p.purchases_rates_times_token_quantities_sum (f.tokens * f.rate) := by
  change calculate_trade_fee _ (Word.mul 128 f.rate f.tokens) = _
  rw [Word.mul_of_lt (by rwa [Nat.mul_comm]), Nat.mul_comm f.rate f.tokens]

end

section

variable {p : CyclesPosition}

theorem CyclesPosition.fill_cycles (h : f.tokens * f.rate ≤ p.current_position_cycles) :
    tokens_transform_cycles f.tokens f.rate = f.tokens * f.rate := by
  have hquantity := LawfulPosition.quantity_lt p
  change p.current_position_cycles < 2 ^ 128 at hquantity
  exact Word.mul_of_lt (h.trans_lt hquantity)

theorem CyclesPosition.after_fill_current (h : f.tokens * f.rate ≤ p.current_position_cycles) :
    (p.subtract_tokens f.tokens f.rate).1.current_position_cycles =
      p.current_position_cycles - f.tokens * f.rate := by
  rw [← CyclesPosition.fill_cycles h]
  rfl

theorem CyclesPosition.after_fill_sum (h : f.tokens * f.rate ≤ p.current_position_cycles)
    (hfit : p.purchases_rates_times_cycles_quantities_sum + f.rate * (f.tokens * f.rate) < 2 ^ 128) :
    (p.subtract_tokens f.tokens f.rate).1.purchases_rates_times_cycles_quantities_sum =
      p.purchases_rates_times_cycles_quantities_sum + f.rate * (f.tokens * f.rate) := by
  change saturating_add _ (Word.mul 128 f.rate (tokens_transform_cycles f.tokens f.rate)) = _
  rw [CyclesPosition.fill_cycles h, Word.mul_of_lt (by omega)]
  exact Word.saturatingAdd_of_lt hfit

theorem CyclesPosition.fill_fee (h : f.tokens * f.rate ≤ p.current_position_cycles) :
    (p.subtract_tokens f.tokens f.rate).2 = calculate_trade_fee
      (p.quest.cycles - p.current_position_cycles) (f.tokens * f.rate) := by
  change calculate_trade_fee _ (tokens_transform_cycles f.tokens f.rate) = _
  rw [CyclesPosition.fill_cycles h]

end

theorem token_afterFills (p : TokenPosition) (fills : List Fill)
    (hfit : p.purchases_rates_times_token_quantities_sum + totalCycles fills < 2 ^ 128) :
    (afterFills p fills).quest = p.quest ∧
      (afterFills p fills).current_position_tokens =
        p.current_position_tokens - totalTokens fills ∧
      (afterFills p fills).purchases_rates_times_token_quantities_sum =
        p.purchases_rates_times_token_quantities_sum + totalCycles fills := by
  induction fills generalizing p with
  | nil => exact ⟨rfl, rfl, rfl⟩
  | cons f fills ih =>
    rw [totalCycles_cons] at hfit
    let next : TokenPosition := (p.subtract_tokens f.tokens f.rate).1
    have htokens : next.current_position_tokens = p.current_position_tokens - f.tokens := rfl
    have hsum : next.purchases_rates_times_token_quantities_sum =
        p.purchases_rates_times_token_quantities_sum + f.tokens * f.rate :=
      TokenPosition.after_fill_sum (by omega)
    obtain ⟨hq, ht, hs⟩ := ih next (by omega)
    have hnext : afterFills p (f :: fills) = afterFills next fills := rfl
    rw [hnext, totalTokens_cons, totalCycles_cons]
    exact ⟨hq, by omega, by omega⟩

theorem cycles_afterFills (p : CyclesPosition) (fills : List Fill)
    (hcurrent : totalCycles fills ≤ p.current_position_cycles)
    (hfit : p.purchases_rates_times_cycles_quantities_sum + ratesTimesCycles fills < 2 ^ 128) :
    (afterFills p fills).quest = p.quest ∧
      (afterFills p fills).current_position_cycles =
        p.current_position_cycles - totalCycles fills ∧
      (afterFills p fills).purchases_rates_times_cycles_quantities_sum =
        p.purchases_rates_times_cycles_quantities_sum + ratesTimesCycles fills := by
  induction fills generalizing p with
  | nil => exact ⟨rfl, rfl, rfl⟩
  | cons f fills ih =>
    rw [totalCycles_cons] at hcurrent
    rw [ratesTimesCycles_cons] at hfit
    let next : CyclesPosition := (p.subtract_tokens f.tokens f.rate).1
    have hleft : next.current_position_cycles = p.current_position_cycles - f.tokens * f.rate :=
      CyclesPosition.after_fill_current (by omega)
    have hsum : next.purchases_rates_times_cycles_quantities_sum =
        p.purchases_rates_times_cycles_quantities_sum + f.rate * (f.tokens * f.rate) :=
      CyclesPosition.after_fill_sum (by omega) (by omega)
    obtain ⟨hq, hc, hs⟩ := ih next (by omega) (by omega)
    have hnext : afterFills p (f :: fills) = afterFills next fills := rfl
    rw [hnext, totalCycles_cons, ratesTimesCycles_cons]
    exact ⟨hq, by omega, by omega⟩

/-! ## What the positions are charged -/

/-- The fees that `subtract_tokens` asks for. -/
def chargedFees {P : Type} [CurrentPositionTrait P] : P → List Fill → Nat
  | _, [] => 0
  | p, f :: fills => (subtract_tokens p f.tokens f.rate).2 +
      chargedFees (subtract_tokens p f.tokens f.rate).1 fills

def cyclesOfFills (fills : List Fill) : List Nat := fills.map fun f => f.tokens * f.rate

/-- The fees of a token position are those of its fills, and they are what it adds up. -/
theorem token_fees_of_fills (p : TokenPosition) (fills : List Fill)
    (hfit : p.purchases_rates_times_token_quantities_sum + totalCycles fills < 2 ^ 128)
    (hfees : p.cycles_payouts_fees_sum + totalCycles fills < 2 ^ 128) :
    chargedFees p fills =
        feesOfFills p.purchases_rates_times_token_quantities_sum (cyclesOfFills fills) ∧
      (afterFills p fills).cycles_payouts_fees_sum =
        p.cycles_payouts_fees_sum + chargedFees p fills := by
  induction fills generalizing p with
  | nil => exact ⟨rfl, rfl⟩
  | cons f fills ih =>
    rw [totalCycles_cons] at hfit hfees
    let next : TokenPosition := (p.subtract_tokens f.tokens f.rate).1
    have hsum : next.purchases_rates_times_token_quantities_sum =
        p.purchases_rates_times_token_quantities_sum + f.tokens * f.rate :=
      TokenPosition.after_fill_sum (by omega)
    have hfee := TokenPosition.fill_fee (p := p) (show f.tokens * f.rate < 2 ^ 128 by omega)
    have hle : (p.subtract_tokens f.tokens f.rate).2 ≤ f.tokens * f.rate := by
      rw [hfee]
      have := calculate_trade_fee_le p.purchases_rates_times_token_quantities_sum
        (f.tokens * f.rate) (by omega)
      omega
    have hadded : next.cycles_payouts_fees_sum =
        p.cycles_payouts_fees_sum + (p.subtract_tokens f.tokens f.rate).2 := by
      change saturating_add p.cycles_payouts_fees_sum (p.subtract_tokens f.tokens f.rate).2 = _
      exact Word.saturatingAdd_of_lt (by omega)
    obtain ⟨hcharged, hkept⟩ := ih next (by omega) (by omega)
    have hnext : afterFills p (f :: fills) = afterFills next fills := rfl
    have hcons : chargedFees p (f :: fills) =
        (p.subtract_tokens f.tokens f.rate).2 + chargedFees next fills := rfl
    rw [hnext, hcons, hkept, hadded, Nat.add_assoc]
    refine ⟨?_, rfl⟩
    rw [hcharged, hsum, hfee]
    rfl

/-- The volume of a cycles position is what it sold. -/
theorem cycles_fees_of_fills (p : CyclesPosition) (fills : List Fill)
    (hcurrent : totalCycles fills ≤ p.current_position_cycles) :
    chargedFees p fills =
      feesOfFills (p.quest.cycles - p.current_position_cycles) (cyclesOfFills fills) := by
  induction fills generalizing p with
  | nil => rfl
  | cons f fills ih =>
    rw [totalCycles_cons] at hcurrent
    let next : CyclesPosition := (p.subtract_tokens f.tokens f.rate).1
    have hleft : next.current_position_cycles = p.current_position_cycles - f.tokens * f.rate :=
      CyclesPosition.after_fill_current (by omega)
    have hcharged := ih next (by omega)
    have hcons : chargedFees p (f :: fills) =
        (p.subtract_tokens f.tokens f.rate).2 + chargedFees next fills := rfl
    have hquest : next.quest = p.quest := rfl
    have hle := p.current_le
    have hvolume : p.quest.cycles - (p.current_position_cycles - f.tokens * f.rate) =
        p.quest.cycles - p.current_position_cycles + f.tokens * f.rate := by
      omega
    rw [hcons, hcharged, CyclesPosition.fill_fee (by omega), hquest, hleft, hvolume]
    rfl

end

/-! ## The reported rate -/

/-- A token order that the trades do not exceed and whose sums do not overflow. -/
structure TokenFits (q : TradeTokensQuest) (fills : List Fill) : Prop where
  tokens : totalTokens fills ≤ q.tokens
  cycles : totalCycles fills < 2 ^ 128

structure CyclesFits (q : TradeCyclesQuest) (fills : List Fill) : Prop where
  cycles : totalCycles fills ≤ q.cycles
  products : ratesTimesCycles fills < 2 ^ 128

/-- The rate in the log of a token order after its trades. -/
def tokenAverageRate (q : TradeTokensQuest) (id : PositionId) (positor : Principal) (now : Nat)
    (fills : List Fill) (cause : Option PositionTerminationCause) (time : Nat) : Nat :=
  (as_stable_memory_position_log (afterFills (q.create_current_position id positor now) fills)
    cause time).fill_average_rate

def cyclesAverageRate (q : TradeCyclesQuest) (id : PositionId) (positor : Principal) (now : Nat)
    (fills : List Fill) (cause : Option PositionTerminationCause) (time : Nat) : Nat :=
  (as_stable_memory_position_log (afterFills (q.create_current_position id positor now) fills)
    cause time).fill_average_rate

/-- The rates of the trades are near enough to each other. The spread is the sum, over the pairs of
trades, of the product of their tokens times the square of the difference of their rates. -/
def RatesNear (fills : List Fill) : Prop :=
  Means.spread (weightedRates fills) <
    totalCycles fills * (totalTokens fills - totalCycles fills % totalTokens fills)

instance (fills : List Fill) : Decidable (RatesNear fills) := Nat.decLt _ _

section

variable {fills : List Fill} {id : PositionId} {positor : Principal} {now : Nat}
  {cause : Option PositionTerminationCause} {time : Nat}

theorem tokenAverageRate_eq {q : TradeTokensQuest} (hne : fills ≠ []) (h : TokenFits q fills) :
    tokenAverageRate q id positor now fills cause time = paidRate fills := by
  let p := q.create_current_position id positor now
  have hsum : p.purchases_rates_times_token_quantities_sum = 0 := rfl
  obtain ⟨hq, ht, hs⟩ := token_afterFills p fills (by rw [hsum, Nat.zero_add]; exact h.cycles)
  have hpos := totalTokens_pos hne
  have htokens := h.tokens
  have hsold : (afterFills p fills).quest.tokens -
      (afterFills p fills).current_position_tokens = totalTokens fills := by
    rw [hq, ht]
    change q.tokens - (q.tokens - totalTokens fills) = _
    omega
  rw [hsum, Nat.zero_add] at hs
  change (if (afterFills p fills).quest.tokens -
      (afterFills p fills).current_position_tokens = 0 then _ else _) = _
  rw [hsold, if_neg (by omega), hs]
  rfl

theorem cyclesAverageRate_eq {q : TradeCyclesQuest} (hne : fills ≠ []) (h : CyclesFits q fills) :
    cyclesAverageRate q id positor now fills cause time =
      ratesTimesCycles fills / totalCycles fills := by
  let p := q.create_current_position id positor now
  have hsum : p.purchases_rates_times_cycles_quantities_sum = 0 := rfl
  obtain ⟨hq, hc, hs⟩ := cycles_afterFills p fills h.cycles
    (by rw [hsum, Nat.zero_add]; exact h.products)
  have hpos := totalCycles_pos hne
  have hcycles := h.cycles
  have hsold : (afterFills p fills).quest.cycles -
      (afterFills p fills).current_position_cycles = totalCycles fills := by
    rw [hq, hc]
    change q.cycles - (q.cycles - totalCycles fills) = _
    omega
  rw [hsum, Nat.zero_add] at hs
  change (if (afterFills p fills).quest.cycles -
      (afterFills p fills).current_position_cycles = 0 then _ else _) = _
  rw [hsold, if_neg (by omega), hs]

theorem rates_near_iff (hne : fills ≠ []) :
    ratesTimesCycles fills / totalCycles fills = paidRate fills ↔ RatesNear fills := by
  have hiff := Means.floors_eq_iff (l := weightedRates fills)
    (by rw [moment_weightedRates]; exact totalCycles_pos hne)
    (by rw [total_weightedRates]; exact totalTokens_pos hne)
  rwa [squares_weightedRates, moment_weightedRates, total_weightedRates] at hiff

end

/-- A token position always reports the rate that was paid, a cycles position if and only if the
rates of its trades are near enough, and else the two reports differ. -/
theorem average_rate_is_paid_iff (fills : List Fill) (hne : fills ≠ []) (id id' : PositionId)
    (positor positor' : Principal) (now now' : Nat) (cause cause' : Option PositionTerminationCause)
    (time time' : Nat) :
    (∀ q, TokenFits q fills →
      tokenAverageRate q id positor now fills cause time = paidRate fills) ∧
    (∀ q, CyclesFits q fills →
      (cyclesAverageRate q id' positor' now' fills cause' time' = paidRate fills ↔
        RatesNear fills)) ∧
    (∀ q q', TokenFits q fills → CyclesFits q' fills →
      (tokenAverageRate q id positor now fills cause time =
        cyclesAverageRate q' id' positor' now' fills cause' time' ↔ RatesNear fills)) := by
  have hcycles : ∀ q, CyclesFits q fills →
      (cyclesAverageRate q id' positor' now' fills cause' time' = paidRate fills ↔
        RatesNear fills) := by
    intro q h
    rw [cyclesAverageRate_eq hne h]
    exact rates_near_iff hne
  refine ⟨fun q h => tokenAverageRate_eq hne h, hcycles, fun q q' h h' => ?_⟩
  rw [tokenAverageRate_eq hne h, eq_comm]
  exact hcycles q' h'

namespace AverageRate

/-- A trade of the smallest amount of tokens. -/
def fill (rate : Nat) (h : 0 < rate) : Fill := ⟨10000, rate, Nat.succ_pos _, h⟩

def buy : TradeCyclesQuest where
  cycles := 320000
  cycles_per_token_rate := 21
  posit_transfer_ledger_fee := none
  return_cycles_to_subaccount := none
  payout_tokens_to_subaccount := none
  cycles_lt := by decide
  rate_lt := by decide

theorem tokens_lt : 20000 < 2 ^ 128 := by decide

theorem lowest_rate_lt : 1 < 2 ^ 128 := by decide

def sell : TradeTokensQuest where
  tokens := 20000
  cycles_per_token_rate := 1
  posit_transfer_ledger_fee := none
  return_tokens_to_subaccount := none
  payout_cycles_to_subaccount := none
  tokens_lt := tokens_lt
  rate_lt := lowest_rate_lt

def nearFills : List Fill := [fill 11 (Nat.succ_pos _), fill 12 (Nat.succ_pos _)]

def farFills : List Fill := [fill 11 (Nat.succ_pos _), fill 21 (Nat.succ_pos _)]

end AverageRate

open AverageRate in
theorem average_rate_at_near_rates :
    tokenAverageRate sell 0 (.of_byte 1) 0 nearFills (some .Fill) 0 = paidRate nearFills ∧
      cyclesAverageRate buy 1 (.of_byte 2) 0 nearFills (some .Fill) 0 =
        paidRate nearFills := by
  obtain ⟨htoken, hcycles, -⟩ := average_rate_is_paid_iff nearFills (by decide) 0 1 (.of_byte 1)
    (.of_byte 2) 0 0 (some .Fill) (some .Fill) 0 0
  exact ⟨htoken sell ⟨by decide, by decide⟩, (hcycles buy ⟨by decide, by decide⟩).mpr (by decide)⟩

open AverageRate in
/-- At 11 and at 21 they are not: 320000 cycles for 20000 tokens are 16 a token, reported as 17. -/
theorem average_rate_of_a_cycles_position_is_not_paid :
    ¬ ∀ (q : TradeCyclesQuest) (id : PositionId) (positor : Principal) (now : Nat)
      (fills : List Fill) (cause : Option PositionTerminationCause) (time : Nat),
      fills ≠ [] → CyclesFits q fills →
      cyclesAverageRate q id positor now fills cause time = paidRate fills := by
  intro h
  have heq := h buy 0 (.of_byte 1) 0 farFills (some .Fill) 0 (by decide) ⟨by decide, by decide⟩
  have hcode : cyclesAverageRate buy 0 (.of_byte 1) 0 farFills (some .Fill) 0 = 17 := by decide
  have hpaid : paidRate farFills = 16 := by decide
  rw [hcode, hpaid] at heq
  cases heq

end Cts.Tc
