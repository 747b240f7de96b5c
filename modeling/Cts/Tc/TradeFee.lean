import Cts.Lib.Word

/-!
# The trade fee

`trade_fee.rs` and the two conversions of `tools.rs`. Each part of a trade pays the rate of the tier
that the position's volume has reached. Whatever the volume, the fee is at most 0.5%.
-/

namespace Cts.Tc

open Lib

def tokens_transform_cycles (tokens cycles_per_token : Nat) : Nat :=
  Word.mul 128 tokens cycles_per_token

def cycles_transform_tokens (cycles cycles_per_token : Nat) : Nat :=
  if cycles_per_token = 0 then 0 else cycles / cycles_per_token

structure TradeFeeTier where
  volume_tcycles : Nat
  trade_fee_ten_thousandths : Nat

def TradeFeeTier.volume_cycles (tier : TradeFeeTier) : Nat :=
  Word.saturatingMul 128 tier.volume_tcycles 1000000000000

def trade_fees_tiers : List TradeFeeTier :=
  [⟨100000, 50⟩, ⟨500000, 30⟩, ⟨1000000, 10⟩, ⟨5000000, 5⟩, ⟨2 ^ 128 - 1, 1⟩]

/-- The `for` loop over the tiers, from the part of the trade that has no tier yet. -/
def trade_fee_loop (volume trade_cycles : Nat) : List TradeFeeTier → Nat → Nat → Nat
  | [], _, fee_cycles => fee_cycles
  | tier :: tiers, mainder, fee_cycles =>
    let reached := Word.sub 128 (Word.add 128 volume trade_cycles) mainder
    if Word.add 128 reached 1 ≤ tier.volume_cycles then
      let in_tier := min mainder (Word.saturatingSub tier.volume_cycles reached)
      let mainder := Word.sub 128 mainder in_tier
      let fee_cycles :=
        Word.add 128 fee_cycles (Word.mul 128 (in_tier / 10000) tier.trade_fee_ten_thousandths)
      if mainder = 0 then fee_cycles else trade_fee_loop volume trade_cycles tiers mainder fee_cycles
    else trade_fee_loop volume trade_cycles tiers mainder fee_cycles

def calculate_trade_fee (current_position_trade_volume_cycles trade_cycles : Nat) : Nat :=
  trade_fee_loop current_position_trade_volume_cycles trade_cycles trade_fees_tiers trade_cycles 0

theorem tier_fee_le {rate n : Nat} (h : rate ≤ 50) :
    200 * Word.mul 128 (n / 10000) rate ≤ n := by
  have hwrap := Word.mul_le 128 (n / 10000) rate
  have hrate : n / 10000 * rate ≤ n / 10000 * 50 := Nat.mul_le_mul_left _ h
  omega

theorem trade_fee_loop_le (volume trade_cycles : Nat) (tiers : List TradeFeeTier)
    (htiers : ∀ tier ∈ tiers, tier.trade_fee_ten_thousandths ≤ 50) (mainder fee_cycles : Nat)
    (hm : mainder < 2 ^ 128) :
    200 * trade_fee_loop volume trade_cycles tiers mainder fee_cycles ≤
      200 * fee_cycles + mainder := by
  induction tiers generalizing mainder fee_cycles with
  | nil => exact Nat.le_add_right _ _
  | cons tier tiers ih =>
    have htail := fun t ht => htiers t (List.mem_cons_of_mem _ ht)
    rw [trade_fee_loop]
    generalize Word.sub 128 (Word.add 128 volume trade_cycles) mainder = reached
    split_ifs with hreach
    · simp only
      have hin := Nat.min_le_left mainder (Word.saturatingSub tier.volume_cycles reached)
      generalize min mainder (Word.saturatingSub tier.volume_cycles reached) = in_tier at hin ⊢
      have hfee : 200 * Word.mul 128 (in_tier / 10000) tier.trade_fee_ten_thousandths ≤ in_tier :=
        tier_fee_le (htiers tier List.mem_cons_self)
      have hadd : Word.add 128 fee_cycles
          (Word.mul 128 (in_tier / 10000) tier.trade_fee_ten_thousandths) ≤
          fee_cycles + Word.mul 128 (in_tier / 10000) tier.trade_fee_ten_thousandths :=
        Word.wrap_le _ _
      have hsub : Word.sub 128 mainder in_tier = mainder - in_tier := Word.sub_of_le hm hin
      simp only [hsub]
      split_ifs with hzero
      · omega
      · have := ih htail (mainder - in_tier) (Word.add 128 fee_cycles
          (Word.mul 128 (in_tier / 10000) tier.trade_fee_ten_thousandths)) (by omega)
        omega
    · exact ih htail mainder fee_cycles hm

theorem calculate_trade_fee_le (volume trade_cycles : Nat) (h : trade_cycles < 2 ^ 128) :
    200 * calculate_trade_fee volume trade_cycles ≤ trade_cycles := by
  have := trade_fee_loop_le volume trade_cycles trade_fees_tiers (by decide) trade_cycles 0 h
  simpa [calculate_trade_fee] using this

/-- A fee in tokens is what the fee in cycles buys, so it is at most 0.5% of the tokens. -/
theorem fee_in_tokens_le {fee tokens rate : Nat} (h : 200 * fee ≤ tokens * rate) :
    200 * cycles_transform_tokens fee rate ≤ tokens := by
  unfold cycles_transform_tokens
  split_ifs with hr
  · omega
  · have hpos : 0 < rate := Nat.pos_of_ne_zero hr
    have hdiv : fee / rate * rate ≤ fee := Nat.div_mul_le_self fee rate
    have hle : 200 * (fee / rate) * rate ≤ tokens * rate := by
      rw [Nat.mul_assoc]
      omega
    exact Nat.le_of_mul_le_mul_right hle hpos

end Cts.Tc
