import Cts.Tc.Types
import Cts.Tc.TradeFee

/-!
# Current positions

`CurrentPositionTrait` of `types.rs` and its two implementations. `LawfulPosition` says what the two
have in common, in the units of their kind.
-/

namespace Cts.Tc

open Lib

class CurrentPositionTrait (P : Type) where
  POSITION_KIND : PositionKind
  id : P → PositionId
  positor : P → Principal
  current_position_available_cycles_per_token_rate : P → Nat
  timestamp_nanos : P → Nat
  into_void_position_type : P → PositionTerminationCause → Nat → VoidPosition
  current_position_quantity : P → Nat
  current_position_tokens : P → Nat → Nat
  /-- The position after a trade, and its fee in cycles. -/
  subtract_tokens : P → Nat → Nat → P × Nat
  is_this_position_better_than_or_equal_to_the_match_rate : P → Nat → Option Nat
  as_stable_memory_position_log : P → Option PositionTerminationCause → Nat → PositionLog
  return_to_subaccount : P → Option IcrcSubaccount
  payout_to_subaccount : P → Option IcrcSubaccount

/-- The log that every position of either kind starts from, before any payout. -/
def position_termination (cause : Option PositionTerminationCause) (now : Nat) :
    Option PositionTerminationData :=
  cause.map fun c => { timestamp_nanos := now, cause := c }

/-! ## Cycles positions -/

namespace CyclesPosition

def as_stable_memory_position_log (p : CyclesPosition) (cause : Option PositionTerminationCause)
    (now : Nat) : PositionLog :=
  let cycles_sold := p.quest.cycles - p.current_position_cycles
  { id := p.id
    positor := p.positor
    quest := ⟨p.quest.cycles, p.quest.cycles_per_token_rate⟩
    position_kind := .Cycles
    mainder_position_quantity := p.current_position_cycles
    fill_quantity := p.fill_quantity_tokens
    fill_average_rate :=
      if cycles_sold = 0 then p.quest.cycles_per_token_rate
      else p.purchases_rates_times_cycles_quantities_sum / cycles_sold
    payouts_fees_sum := p.tokens_payouts_fees_sum
    creation_timestamp_nanos := p.timestamp_nanos
    position_termination := position_termination cause now
    void_position_payout_dust_collection := false
    void_position_payout_ledger_transfer_fee := 0 }

def into_void_position_type (p : CyclesPosition) (cause : PositionTerminationCause) (now : Nat) :
    VoidPosition :=
  { position_id := p.id
    positor := p.positor
    quantity := p.current_position_cycles
    payout_lock := false
    payout_data := none
    timestamp_nanos := now
    update_storage_position_data :=
      { lock := false, status := false
        update_storage_position_log := p.as_stable_memory_position_log (some cause) now }
    return_to_subaccount := p.quest.return_cycles_to_subaccount }

def current_position_tokens (p : CyclesPosition) (rate : Nat) : Nat :=
  if rate = 0 then 0 else p.current_position_cycles / rate

def subtract_tokens (p : CyclesPosition) (sub_tokens rate : Nat) : CyclesPosition × Nat :=
  let sub_cycles := tokens_transform_cycles sub_tokens rate
  -- The volume of the fee is what the position sold before this trade.
  let fee_cycles := calculate_trade_fee (p.quest.cycles - p.current_position_cycles) sub_cycles
  ({ p with
      fill_quantity_tokens := saturating_add p.fill_quantity_tokens sub_tokens
      current_position_cycles := saturating_sub p.current_position_cycles sub_cycles
      purchases_rates_times_cycles_quantities_sum :=
        saturating_add p.purchases_rates_times_cycles_quantities_sum (Word.mul 128 rate sub_cycles)
      tokens_payouts_fees_sum :=
        saturating_add p.tokens_payouts_fees_sum (cycles_transform_tokens fee_cycles rate)
      current_le := (Nat.sub_le _ _).trans p.current_le },
    fee_cycles)

def is_this_position_better_than_or_equal_to_the_match_rate (p : CyclesPosition) (match_rate : Nat) :
    Option Nat :=
  let rate := p.quest.cycles_per_token_rate
  if match_rate ≤ rate then some (rate - (rate - match_rate) / 2) else none

end CyclesPosition

instance : CurrentPositionTrait CyclesPosition where
  POSITION_KIND := .Cycles
  id p := p.id
  positor p := p.positor
  current_position_available_cycles_per_token_rate p := p.quest.cycles_per_token_rate
  timestamp_nanos p := p.timestamp_nanos
  into_void_position_type := CyclesPosition.into_void_position_type
  current_position_quantity p := p.current_position_cycles
  current_position_tokens := CyclesPosition.current_position_tokens
  subtract_tokens := CyclesPosition.subtract_tokens
  is_this_position_better_than_or_equal_to_the_match_rate :=
    CyclesPosition.is_this_position_better_than_or_equal_to_the_match_rate
  as_stable_memory_position_log := CyclesPosition.as_stable_memory_position_log
  return_to_subaccount p := p.quest.return_cycles_to_subaccount
  payout_to_subaccount p := p.quest.payout_tokens_to_subaccount

/-! ## Token positions -/

namespace TokenPosition

def as_stable_memory_position_log (p : TokenPosition) (cause : Option PositionTerminationCause)
    (now : Nat) : PositionLog :=
  let tokens_sold := p.quest.tokens - p.current_position_tokens
  { id := p.id
    positor := p.positor
    quest := ⟨p.quest.tokens, p.quest.cycles_per_token_rate⟩
    position_kind := .Token
    mainder_position_quantity := p.current_position_tokens
    fill_quantity := p.purchases_rates_times_token_quantities_sum
    fill_average_rate :=
      if tokens_sold = 0 then p.quest.cycles_per_token_rate
      else p.purchases_rates_times_token_quantities_sum / tokens_sold
    payouts_fees_sum := p.cycles_payouts_fees_sum
    creation_timestamp_nanos := p.timestamp_nanos
    position_termination := position_termination cause now
    void_position_payout_dust_collection := false
    void_position_payout_ledger_transfer_fee := 0 }

def into_void_position_type (p : TokenPosition) (cause : PositionTerminationCause) (now : Nat) :
    VoidPosition :=
  { position_id := p.id
    positor := p.positor
    quantity := p.current_position_tokens
    payout_lock := false
    payout_data := none
    timestamp_nanos := now
    update_storage_position_data :=
      { lock := false, status := false
        update_storage_position_log := p.as_stable_memory_position_log (some cause) now }
    return_to_subaccount := p.quest.return_tokens_to_subaccount }

def subtract_tokens (p : TokenPosition) (sub_tokens rate : Nat) : TokenPosition × Nat :=
  -- The volume of the fee is the sum before this trade is added to it.
  let fee_cycles := calculate_trade_fee p.purchases_rates_times_token_quantities_sum
    (Word.mul 128 rate sub_tokens)
  ({ p with
      current_position_tokens := saturating_sub p.current_position_tokens sub_tokens
      purchases_rates_times_token_quantities_sum :=
        saturating_add p.purchases_rates_times_token_quantities_sum (Word.mul 128 rate sub_tokens)
      cycles_payouts_fees_sum := saturating_add p.cycles_payouts_fees_sum fee_cycles
      current_le := (Nat.sub_le _ _).trans p.current_le },
    fee_cycles)

def is_this_position_better_than_or_equal_to_the_match_rate (p : TokenPosition) (match_rate : Nat) :
    Option Nat :=
  let rate := p.quest.cycles_per_token_rate
  if rate ≤ match_rate then some (Word.add 128 rate ((match_rate - rate) / 2)) else none

end TokenPosition

instance : CurrentPositionTrait TokenPosition where
  POSITION_KIND := .Token
  id p := p.id
  positor p := p.positor
  current_position_available_cycles_per_token_rate p := p.quest.cycles_per_token_rate
  timestamp_nanos p := p.timestamp_nanos
  into_void_position_type := TokenPosition.into_void_position_type
  current_position_quantity p := p.current_position_tokens
  current_position_tokens p _ := p.current_position_tokens
  subtract_tokens := TokenPosition.subtract_tokens
  is_this_position_better_than_or_equal_to_the_match_rate :=
    TokenPosition.is_this_position_better_than_or_equal_to_the_match_rate
  as_stable_memory_position_log := TokenPosition.as_stable_memory_position_log
  return_to_subaccount p := p.quest.return_tokens_to_subaccount
  payout_to_subaccount p := p.quest.payout_cycles_to_subaccount

/-! ## What the two kinds have in common -/

/-- What `tokens` at `rate` take from a position of the kind, in its units. -/
def PositionKind.units (kind : PositionKind) (tokens rate : Nat) : Nat :=
  match kind with
  | .Cycles => tokens * rate
  | .Token => tokens

/-- How many tokens a quantity of the kind is worth at `rate`. -/
def PositionKind.tokens (kind : PositionKind) (quantity rate : Nat) : Nat :=
  match kind with
  | .Cycles => quantity / rate
  | .Token => quantity

/-- The rates at which a position of the kind with its own `rate` trades. -/
def PositionKind.accepts (kind : PositionKind) (rate match_rate : Nat) : Prop :=
  match kind with
  | .Cycles => match_rate ≤ rate
  | .Token => rate ≤ match_rate

/-- Between two rates and within one of their middle. -/
structure Midpoint (lo hi rate : Nat) : Prop where
  lo_le : lo ≤ rate
  le_hi : rate ≤ hi
  near_lo : lo + hi ≤ 2 * rate + 1
  near_hi : 2 * rate ≤ lo + hi + 1

open CurrentPositionTrait

/-- The own rate of a position. -/
abbrev rateOf {P : Type} [CurrentPositionTrait P] (p : P) : Nat :=
  current_position_available_cycles_per_token_rate p

class LawfulPosition (P : Type) [CurrentPositionTrait P] : Prop where
  quantity_lt (p : P) : current_position_quantity p < 2 ^ 128
  rate_lt (p : P) : rateOf p < 2 ^ 128
  tokens_eq (p : P) (rate : Nat) (h : rate ≠ 0) :
    current_position_tokens p rate = (POSITION_KIND P).tokens (current_position_quantity p) rate
  subtract_id (p : P) (tokens rate : Nat) :
    CurrentPositionTrait.id (subtract_tokens p tokens rate).1 = CurrentPositionTrait.id p
  subtract_positor (p : P) (tokens rate : Nat) :
    positor (subtract_tokens p tokens rate).1 = positor p
  subtract_rate (p : P) (tokens rate : Nat) : rateOf (subtract_tokens p tokens rate).1 = rateOf p
  subtract_return (p : P) (tokens rate : Nat) :
    return_to_subaccount (subtract_tokens p tokens rate).1 = return_to_subaccount p
  subtract_payout (p : P) (tokens rate : Nat) :
    payout_to_subaccount (subtract_tokens p tokens rate).1 = payout_to_subaccount p
  subtract_quantity (p : P) (tokens rate : Nat) (h : tokens * rate < 2 ^ 128) :
    current_position_quantity (subtract_tokens p tokens rate).1 =
      current_position_quantity p - (POSITION_KIND P).units tokens rate
  fee_le (p : P) (tokens rate : Nat) : 200 * (subtract_tokens p tokens rate).2 ≤ tokens * rate
  better_none (p : P) (match_rate : Nat) :
    is_this_position_better_than_or_equal_to_the_match_rate p match_rate = none ↔
      ¬ (POSITION_KIND P).accepts (rateOf p) match_rate
  better_some (p : P) (match_rate rate : Nat) (hm : match_rate < 2 ^ 128)
    (h : is_this_position_better_than_or_equal_to_the_match_rate p match_rate = some rate) :
    match POSITION_KIND P with
    | .Cycles => Midpoint match_rate (rateOf p) rate
    | .Token => Midpoint (rateOf p) match_rate rate
  void_eq (p : P) (cause : PositionTerminationCause) (now : Nat) :
    into_void_position_type p cause now =
      { position_id := CurrentPositionTrait.id p
        positor := positor p
        quantity := current_position_quantity p
        payout_lock := false
        payout_data := none
        timestamp_nanos := now
        update_storage_position_data :=
          { lock := false, status := false
            update_storage_position_log := as_stable_memory_position_log p (some cause) now }
        return_to_subaccount := return_to_subaccount p }
  log_eq (p : P) (cause : Option PositionTerminationCause) (now : Nat) :
    let log := as_stable_memory_position_log p cause now
    log.id = CurrentPositionTrait.id p ∧
      log.mainder_position_quantity = current_position_quantity p ∧
      log.position_termination = position_termination cause now

instance : LawfulPosition CyclesPosition where
  quantity_lt p := lt_of_le_of_lt p.current_le p.quest.cycles_lt
  rate_lt p := p.quest.rate_lt
  tokens_eq p rate h := if_neg h
  subtract_id _ _ _ := rfl
  subtract_positor _ _ _ := rfl
  subtract_rate _ _ _ := rfl
  subtract_return _ _ _ := rfl
  subtract_payout _ _ _ := rfl
  subtract_quantity p tokens rate h := by
    change p.current_position_cycles - Word.mul 128 tokens rate = _
    rw [Word.mul_of_lt h]
    rfl
  fee_le p tokens rate := by
    refine (calculate_trade_fee_le _ _ ?_).trans (Word.mul_le 128 tokens rate)
    exact Word.wrap_lt 128 _
  better_none p match_rate := by
    change (if match_rate ≤ p.quest.cycles_per_token_rate then _ else none) = none ↔
      ¬ match_rate ≤ p.quest.cycles_per_token_rate
    split_ifs with h <;> simp [h]
  better_some p match_rate rate hm h := by
    have h : (if match_rate ≤ p.quest.cycles_per_token_rate then
        some (p.quest.cycles_per_token_rate - (p.quest.cycles_per_token_rate - match_rate) / 2)
        else none) = some rate := h
    split_ifs at h with hle
    obtain rfl := Option.some.inj h
    change Midpoint match_rate p.quest.cycles_per_token_rate _
    constructor <;> omega
  void_eq _ _ _ := rfl
  log_eq _ _ _ := ⟨rfl, rfl, rfl⟩

instance : LawfulPosition TokenPosition where
  quantity_lt p := lt_of_le_of_lt p.current_le p.quest.tokens_lt
  rate_lt p := p.quest.rate_lt
  tokens_eq _ _ _ := rfl
  subtract_id _ _ _ := rfl
  subtract_positor _ _ _ := rfl
  subtract_rate _ _ _ := rfl
  subtract_return _ _ _ := rfl
  subtract_payout _ _ _ := rfl
  subtract_quantity _ _ _ _ := rfl
  fee_le p tokens rate := by
    rw [Nat.mul_comm tokens rate]
    refine (calculate_trade_fee_le _ _ ?_).trans (Word.mul_le 128 rate tokens)
    exact Word.wrap_lt 128 _
  better_none p match_rate := by
    change (if p.quest.cycles_per_token_rate ≤ match_rate then _ else none) = none ↔
      ¬ p.quest.cycles_per_token_rate ≤ match_rate
    split_ifs with h <;> simp [h]
  better_some p match_rate rate hm h := by
    have h : (if p.quest.cycles_per_token_rate ≤ match_rate then
        some (Word.add 128 p.quest.cycles_per_token_rate
          ((match_rate - p.quest.cycles_per_token_rate) / 2)) else none) = some rate := h
    split_ifs at h with hle
    obtain rfl := Option.some.inj h
    rw [Word.add_of_lt (by omega)]
    change Midpoint p.quest.cycles_per_token_rate match_rate _
    constructor <;> omega
  void_eq _ _ _ := rfl
  log_eq _ _ _ := ⟨rfl, rfl, rfl⟩

end Cts.Tc
