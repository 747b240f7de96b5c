import Cts.Lib.Tiers
import Cts.Tc.TradeFee

/-!
# The tiers of the trade fee

The fee of a trade is the sum over the tiers, so it hardly depends on how an order is filled, and
the smallest trades escape it only where they cross from one tier into the next.
-/

namespace Cts.Tc

open Lib

/-! ## The build that panics -/

namespace Dev

def trade_fee_loop (volume trade_cycles : Nat) : List TradeFeeTier → Nat → Nat → Option Nat
  | [], _, fee_cycles => some fee_cycles
  | tier :: tiers, mainder, fee_cycles => do
    let total ← Word.checkedAdd 128 volume trade_cycles
    let reached ← Word.checkedSub total mainder
    let next ← Word.checkedAdd 128 reached 1
    if next ≤ tier.volume_cycles then
      let in_tier := min mainder (Word.saturatingSub tier.volume_cycles reached)
      let mainder ← Word.checkedSub mainder in_tier
      let fee ← Word.checkedMul 128 (in_tier / 10000) tier.trade_fee_ten_thousandths
      let fee_cycles ← Word.checkedAdd 128 fee_cycles fee
      if mainder = 0 then some fee_cycles
      else trade_fee_loop volume trade_cycles tiers mainder fee_cycles
    else trade_fee_loop volume trade_cycles tiers mainder fee_cycles

def calculate_trade_fee (current_position_trade_volume_cycles trade_cycles : Nat) : Option Nat :=
  trade_fee_loop current_position_trade_volume_cycles trade_cycles trade_fees_tiers trade_cycles 0

end Dev

/-- Where nothing panics, both builds compute the same. -/
theorem trade_fee_loop_of_dev {volume trade_cycles : Nat} {tiers : List TradeFeeTier}
    {mainder fee_cycles fee : Nat} (hm : mainder < 2 ^ 128)
    (h : Dev.trade_fee_loop volume trade_cycles tiers mainder fee_cycles = some fee) :
    trade_fee_loop volume trade_cycles tiers mainder fee_cycles = fee := by
  induction tiers generalizing mainder fee_cycles with
  | nil => exact Option.some.inj h
  | cons tier tiers ih =>
    simp only [Dev.trade_fee_loop, Option.bind_eq_bind, Option.bind_eq_some_iff] at h
    obtain ⟨total, htotal, reached, hreached, next, hnext, h⟩ := h
    obtain ⟨hlt, heq, htotal⟩ := Word.checkedAdd_some htotal
    obtain ⟨-, -, hreached⟩ := Word.checkedSub_some (w := 128) (by omega) hreached
    obtain ⟨-, -, hnext⟩ := Word.checkedAdd_some hnext
    rw [trade_fee_loop]
    simp only [htotal, hreached, hnext]
    by_cases hle : next ≤ tier.volume_cycles
    · rw [if_pos hle] at h ⊢
      simp only [Option.bind_eq_some_iff] at h
      obtain ⟨mainder', hmainder, part, hpart, fee', hfee, h⟩ := h
      obtain ⟨-, hrest, hmainder⟩ := Word.checkedSub_some (w := 128) hm hmainder
      obtain ⟨-, -, hpart⟩ := Word.checkedMul_some hpart
      obtain ⟨-, -, hfee⟩ := Word.checkedAdd_some hfee
      simp only [hmainder, hpart, hfee]
      by_cases hzero : mainder' = 0
      · rw [if_pos hzero] at h ⊢
        exact Option.some.inj h
      · rw [if_neg hzero] at h ⊢
        exact ih (by omega) h
    · rw [if_neg hle] at h ⊢
      exact ih hm h

/-! ## The sum over the tiers -/

def TradeFeeTier.tier (tier : TradeFeeTier) : Tiers.Tier :=
  ⟨tier.volume_cycles, tier.trade_fee_ten_thousandths⟩

section

variable {volume trade_cycles lo mainder fee_cycles : Nat} {tier last : TradeFeeTier}
  {tiers : List TradeFeeTier}

/-- Where the loop is when it comes to the tier above `lo`. -/
structure AtTier (volume trade_cycles lo mainder fee_cycles : Nat) : Prop where
  fits : volume + trade_cycles < 2 ^ 128
  left : 0 < mainder
  reached : max volume lo + mainder = volume + trade_cycles
  charged : 200 * fee_cycles + mainder ≤ trade_cycles

theorem dev_turn (h : AtTier volume trade_cycles lo mainder fee_cycles)
    (hrate : tier.trade_fee_ten_thousandths ≤ 50) :
    let part := Tiers.between lo tier.volume_cycles volume (volume + trade_cycles)
    let fee := fee_cycles + part / 10000 * tier.trade_fee_ten_thousandths
    Dev.trade_fee_loop volume trade_cycles (tier :: tiers) mainder fee_cycles =
      if volume + trade_cycles ≤ tier.volume_cycles then some fee
      else Dev.trade_fee_loop volume trade_cycles tiers (mainder - part) fee := by
  intro part fee
  obtain ⟨hfits, hleft, hreached, hcharged⟩ := h
  have hsub : volume + trade_cycles - mainder = max volume lo := by omega
  simp only [Dev.trade_fee_loop, Option.bind_eq_bind]
  rw [Word.checkedAdd_of_lt hfits, Option.bind_some, Word.checkedSub_of_le (by omega),
    Option.bind_some, hsub, Word.checkedAdd_of_lt (by omega), Option.bind_some]
  by_cases hin : max volume lo + 1 ≤ tier.volume_cycles
  · have hpart : min mainder (Word.saturatingSub tier.volume_cycles (max volume lo)) = part := by
      simp only [Word.saturatingSub, part, Tiers.between]
      omega
    have hle : part ≤ mainder := hpart ▸ Nat.min_le_left _ _
    have hpay : 200 * (part / 10000 * tier.trade_fee_ten_thousandths) ≤ part := by
      have hmul : part / 10000 * tier.trade_fee_ten_thousandths ≤ part / 10000 * 50 :=
        Nat.mul_le_mul_left _ hrate
      omega
    have hend : mainder - part = 0 ↔ volume + trade_cycles ≤ tier.volume_cycles := by
      simp only [part, Tiers.between]
      omega
    rw [if_pos hin, hpart, Word.checkedSub_of_le hle, Option.bind_some,
      Word.checkedMul_of_lt (by omega), Option.bind_some, Word.checkedAdd_of_lt (by omega),
      Option.bind_some]
    simp only [hend]
    rfl
  · have hnone : part = 0 := by
      simp only [part, Tiers.between]
      omega
    rw [if_neg hin, if_neg (by omega)]
    simp only [fee, hnone, Nat.sub_zero, Nat.zero_div, Nat.zero_mul, Nat.add_zero]

theorem AtTier.next (h : AtTier volume trade_cycles lo mainder fee_cycles)
    (hrate : tier.trade_fee_ten_thousandths ≤ 50) (hlo : lo ≤ tier.volume_cycles)
    (hmore : ¬ volume + trade_cycles ≤ tier.volume_cycles) :
    let part := Tiers.between lo tier.volume_cycles volume (volume + trade_cycles)
    AtTier volume trade_cycles tier.volume_cycles (mainder - part)
      (fee_cycles + part / 10000 * tier.trade_fee_ten_thousandths) := by
  intro part
  obtain ⟨hfits, hleft, hreached, hcharged⟩ := h
  have hpay : part / 10000 * tier.trade_fee_ten_thousandths ≤ part / 10000 * 50 :=
    Nat.mul_le_mul_left _ hrate
  have hpart : part = Tiers.between lo tier.volume_cycles volume (volume + trade_cycles) := rfl
  unfold Tiers.between at hpart
  constructor <;> omega

/-- The whole loop, over tiers of which the last one reaches far enough. -/
theorem dev_loop_eq (hlast : volume + trade_cycles ≤ last.volume_cycles)
    (hlastrate : last.trade_fee_ten_thousandths ≤ 50)
    (hasc : Tiers.Ascending lo (tiers.map TradeFeeTier.tier))
    (hrates : ∀ tier ∈ tiers, tier.trade_fee_ten_thousandths ≤ 50)
    (h : AtTier volume trade_cycles lo mainder fee_cycles) :
    Dev.trade_fee_loop volume trade_cycles (tiers ++ [last]) mainder fee_cycles =
      some (fee_cycles + Tiers.price 10000 last.trade_fee_ten_thousandths lo
        (tiers.map TradeFeeTier.tier) volume (volume + trade_cycles)) := by
  induction tiers generalizing lo mainder fee_cycles with
  | nil =>
    have hpart : Tiers.between lo last.volume_cycles volume (volume + trade_cycles) =
        Tiers.above lo volume (volume + trade_cycles) := by
      unfold Tiers.between Tiers.above
      omega
    rw [List.nil_append, dev_turn h hlastrate, if_pos hlast, hpart]
    rfl
  | cons tier tiers ih =>
    have hrate : tier.trade_fee_ten_thousandths ≤ 50 := hrates tier List.mem_cons_self
    have htail := fun t ht => hrates t (List.mem_cons_of_mem _ ht)
    rw [List.cons_append, dev_turn h hrate, List.map_cons, Tiers.price, ← Nat.add_assoc]
    split_ifs with hend
    · have hbelow : Tiers.price 10000 last.trade_fee_ten_thousandths tier.tier.upper
          (tiers.map TradeFeeTier.tier) volume (volume + trade_cycles) = 0 :=
        Tiers.price_below hasc.2 hend
      rw [hbelow]
      rfl
    · exact ih hasc.2 htail (h.next hrate hasc.1 hend)

end

/-! ## The fee -/

/-- The tiers that have a bound: the bound of the last one is beyond every volume. -/
def boundedTiers : List Tiers.Tier := (trade_fees_tiers.take 4).map TradeFeeTier.tier

/-- The fee for what brings a volume to `volume'`. -/
abbrev tieredFee (volume volume' : Nat) : Nat := Tiers.price 10000 1 0 boundedTiers volume volume'

theorem boundedTiers_whole : Tiers.Whole 10000 0 boundedTiers := by
  simp only [boundedTiers, trade_fees_tiers, List.take, List.map, Tiers.Whole]
  decide

theorem boundedTiers_ascending : Tiers.Ascending 0 boundedTiers := boundedTiers_whole.ascending

theorem boundedTiers_rates : ∀ tier ∈ boundedTiers, tier.rate ≤ 50 := by decide

theorem dev_fee_eq {volume trade_cycles : Nat} (hpos : 1 ≤ trade_cycles)
    (hfit : volume + trade_cycles < 2 ^ 128) :
    Dev.calculate_trade_fee volume trade_cycles =
      some (tieredFee volume (volume + trade_cycles)) := by
  have hstart : AtTier volume trade_cycles 0 trade_cycles 0 :=
    ⟨hfit, hpos, by rw [Nat.max_zero], by omega⟩
  have hlast : volume + trade_cycles ≤ TradeFeeTier.volume_cycles ⟨2 ^ 128 - 1, 1⟩ := by
    have hcap : TradeFeeTier.volume_cycles ⟨2 ^ 128 - 1, 1⟩ = 2 ^ 128 - 1 := by decide
    omega
  have hrates : ∀ tier ∈ trade_fees_tiers.take 4, tier.trade_fee_ten_thousandths ≤ 50 := by decide
  have hloop := dev_loop_eq hlast (by decide) boundedTiers_ascending hrates hstart
  rw [Nat.zero_add] at hloop
  exact hloop

theorem calculate_trade_fee_eq {volume trade_cycles : Nat} (hpos : 1 ≤ trade_cycles)
    (hfit : volume + trade_cycles < 2 ^ 128) :
    calculate_trade_fee volume trade_cycles = tieredFee volume (volume + trade_cycles) :=
  trade_fee_loop_of_dev (by omega) (dev_fee_eq hpos hfit)

/-- How many of the cycles of a trade are in each of the tiers above `lower`: those above the tier
before it and, unless it is the last one, at most at its own bound. -/
def tierCycles (volume trade_cycles : Nat) : Nat → List TradeFeeTier → List Nat
  | _, [] => []
  | lower, [_] => [((Finset.Ioc volume (volume + trade_cycles)).filter fun c => lower < c).card]
  | lower, tier :: tiers =>
    ((Finset.Ioc volume (volume + trade_cycles)).filter fun c =>
      lower < c ∧ c ≤ tier.volume_cycles).card :: tierCycles volume trade_cycles tier.volume_cycles tiers

theorem tierCycles_eq (volume trade_cycles lower : Nat) (tiers : List TradeFeeTier)
    (last : TradeFeeTier) :
    tierCycles volume trade_cycles lower (tiers ++ [last]) =
      Tiers.parts lower (tiers.map TradeFeeTier.tier) volume (volume + trade_cycles) := by
  induction tiers generalizing lower with
  | nil => rw [List.nil_append, tierCycles, ← Tiers.above_eq_card]; rfl
  | cons tier tiers ih =>
    rw [List.cons_append, tierCycles, ih, ← Tiers.between_eq_card]
    · rfl
    · simp

/-- What the fee of a trade is. -/
structure SumOverTiers (volume trade_cycles : Nat) : Prop where
  fee_eq : calculate_trade_fee volume trade_cycles =
    (List.zipWith (fun n rate => n / 10000 * rate) (tierCycles volume trade_cycles 0 trade_fees_tiers)
      (trade_fees_tiers.map TradeFeeTier.trade_fee_ten_thousandths)).sum
  all_priced : (tierCycles volume trade_cycles 0 trade_fees_tiers).sum = trade_cycles
  /-- Nothing overflows: the build that panics computes it too. -/
  exact_ops : Dev.calculate_trade_fee volume trade_cycles =
    some (calculate_trade_fee volume trade_cycles)
  mono : ∀ less, 1 ≤ less → less ≤ trade_cycles →
    calculate_trade_fee volume less ≤ calculate_trade_fee volume trade_cycles
  le : calculate_trade_fee volume trade_cycles ≤ 50 * trade_cycles / 10000

theorem trade_fee_is_the_sum_over_its_tiers (volume trade_cycles : Nat) (hpos : 1 ≤ trade_cycles)
    (hfit : volume + trade_cycles < 2 ^ 128) : SumOverTiers volume trade_cycles := by
  have hfee := calculate_trade_fee_eq hpos hfit
  have hcycles : tierCycles volume trade_cycles 0 trade_fees_tiers =
      Tiers.parts 0 boundedTiers volume (volume + trade_cycles) :=
    tierCycles_eq volume trade_cycles 0 (trade_fees_tiers.take 4) ⟨2 ^ 128 - 1, 1⟩
  refine ⟨?_, ?_, ?_, fun less hless hle => ?_, ?_⟩
  · rw [hfee, hcycles, tieredFee, Tiers.price_eq_sum]
    rfl
  · rw [hcycles, Tiers.parts_sum boundedTiers_ascending, Tiers.above_zero, Nat.add_sub_cancel_left]
  · rw [hfee, dev_fee_eq hpos hfit]
  · rw [hfee, calculate_trade_fee_eq hless (by omega)]
    exact Tiers.price_mono (by omega)
  · have hle := calculate_trade_fee_le volume trade_cycles (by omega)
    omega

theorem trade_over_three_tiers : SumOverTiers 99999999999999999 500000000000000000 :=
  trade_fee_is_the_sum_over_its_tiers _ _ (by decide) (by decide)

/-! ## An order that is filled in parts -/

/-- What the trades of an order are charged, each at the volume that the ones before it reached. -/
def feesOfFills : Nat → List Nat → Nat
  | _, [] => 0
  | volume, trade_cycles :: fills =>
    calculate_trade_fee volume trade_cycles + feesOfFills (volume + trade_cycles) fills

theorem feesOfFills_eq {volume : Nat} {fills : List Nat} (hpos : ∀ n ∈ fills, 1 ≤ n)
    (hfit : volume + fills.sum < 2 ^ 128) :
    feesOfFills volume fills = Tiers.priceEach 10000 1 0 boundedTiers volume fills := by
  induction fills generalizing volume with
  | nil => rfl
  | cons n fills ih =>
    rw [List.sum_cons] at hfit
    rw [feesOfFills, Tiers.priceEach, calculate_trade_fee_eq (hpos n List.mem_cons_self) (by omega),
      ih (fun m hm => hpos m (List.mem_cons_of_mem _ hm)) (by omega)]

/-- How an order is filled changes its fee by less than 50 cycles a trade. -/
theorem fee_does_not_depend_on_the_fills (volume : Nat) (fills : List Nat) (hne : fills ≠ [])
    (hpos : ∀ n ∈ fills, 1 ≤ n) (hfit : volume + fills.sum < 2 ^ 128) :
    feesOfFills volume fills ≤ calculate_trade_fee volume fills.sum ∧
      calculate_trade_fee volume fills.sum ≤ feesOfFills volume fills + 50 * (fills.length - 1) := by
  have hsum : 1 ≤ fills.sum := by
    obtain ⟨n, rest, rfl⟩ := List.exists_cons_of_ne_nil hne
    rw [List.sum_cons]
    exact (hpos n List.mem_cons_self).trans (Nat.le_add_right _ _)
  rw [feesOfFills_eq hpos hfit, calculate_trade_fee_eq hsum hfit]
  exact ⟨Tiers.priceEach_le fills,
    Tiers.le_priceEach (by decide) boundedTiers_ascending (by decide) boundedTiers_rates hne⟩

theorem fee_of_two_halves : feesOfFills 0 [15000, 15000] ≤ calculate_trade_fee 0 30000 ∧
    calculate_trade_fee 0 30000 ≤ feesOfFills 0 [15000, 15000] + 50 * 1 :=
  fee_does_not_depend_on_the_fills 0 [15000, 15000] (by decide) (by decide) (by decide)

/-! ## The smallest trades -/

/-- A trade with less than 10000 cycles up to the bound of its tier, and after it less than 10000, or
less than 10000 times the rate when it goes into the last tier. -/
def SlipsBetweenTiers (volume trade_cycles rate : Nat) : Prop :=
  ∃ tier ∈ boundedTiers, volume < tier.upper ∧ tier.upper - volume < 10000 ∧
    tier.upper < volume + trade_cycles ∧
    volume + trade_cycles - tier.upper <
      if tier.upper = 5000000 * 1000000000000 then 10000 * rate else 10000

theorem slips_iff (volume trade_cycles rate : Nat) :
    SlipsBetweenTiers volume trade_cycles rate ↔
      Tiers.Slips 10000 rate volume (volume + trade_cycles) boundedTiers := by
  have htiers : boundedTiers = [⟨100000000000000000, 50⟩, ⟨500000000000000000, 30⟩,
      ⟨1000000000000000000, 10⟩, ⟨5000000000000000000, 5⟩] := by rfl
  unfold SlipsBetweenTiers
  rw [htiers]
  simp [Tiers.Slips]

/-- The fee of a trade of 10000 tokens or more, in cycles and in tokens, is at least one unless the
trade slips between two tiers. -/
theorem fee_is_charged_iff (volume tokens rate : Nat) (hr : 1 ≤ rate) (ht : 10000 ≤ tokens)
    (hfit : volume + tokens * rate < 2 ^ 128) :
    (1 ≤ calculate_trade_fee volume (tokens * rate) ∧
      1 ≤ cycles_transform_tokens (calculate_trade_fee volume (tokens * rate)) rate) ↔
    ¬ SlipsBetweenTiers volume (tokens * rate) rate := by
  have hlarge : 10000 * rate ≤ tokens * rate := Nat.mul_le_mul_right _ ht
  have htokens : ∀ fee, 1 ≤ cycles_transform_tokens fee rate ↔ rate ≤ fee := by
    intro fee
    rw [cycles_transform_tokens, if_neg (by omega), Nat.le_div_iff_mul_le (by omega), Nat.one_mul]
  rw [htokens, slips_iff, calculate_trade_fee_eq (by omega) hfit,
    ← Tiers.units_le_price_iff (by decide) boundedTiers_whole (Nat.zero_le _) hr (by omega)]
  constructor
  · exact And.right
  · intro hle
    exact ⟨hr.trans hle, hle⟩

theorem smallest_trade_is_charged : 1 ≤ calculate_trade_fee 0 10000 ∧
    1 ≤ cycles_transform_tokens (calculate_trade_fee 0 10000) 1 := by
  refine (fee_is_charged_iff 0 10000 1 (by decide) (by decide) (by decide)).mpr ?_
  unfold SlipsBetweenTiers
  decide

/-- The first 5000 cycles of a trade of 10000 tokens fill the first tier. -/
theorem trade_at_a_bound_is_free : ¬ ∀ volume tokens rate : Nat, 1 ≤ rate → 10000 ≤ tokens →
    volume + tokens * rate < 2 ^ 128 →
    1 ≤ calculate_trade_fee volume (tokens * rate) ∧
      1 ≤ cycles_transform_tokens (calculate_trade_fee volume (tokens * rate)) rate := by
  intro h
  have hfee := (h 99999999999995000 10000 1 (by decide) (by decide) (by decide)).1
  revert hfee
  decide

end Cts.Tc
