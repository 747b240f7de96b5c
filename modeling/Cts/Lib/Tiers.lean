import Mathlib.Data.Nat.ModEq
import Mathlib.Order.Interval.Finset.Nat

/-!
# Prices in tiers

The part of a volume that lies in a tier pays the rate of the tier for each whole unit. Above the
last bound there is one more tier without a bound.
-/

namespace Lib.Tiers

structure Tier where
  upper : Nat
  rate : Nat

/-- How much of what comes after `a` and up to `b` lies above `lo`. -/
def above (lo a b : Nat) : Nat := b - max a lo

/-- How much of it lies above `lo` and at most at `hi`. -/
def between (lo hi a b : Nat) : Nat := min b hi - max a lo

/-- The bounds go up, and the first is at least `lo`. -/
def Ascending : Nat → List Tier → Prop
  | _, [] => True
  | lo, tier :: tiers => lo ≤ tier.upper ∧ Ascending tier.upper tiers

/-- What each of the tiers above `lo` has of the volume after `a` and up to `b`. -/
def parts : Nat → List Tier → Nat → Nat → List Nat
  | lo, [], a, b => [above lo a b]
  | lo, tier :: tiers, a, b => between lo tier.upper a b :: parts tier.upper tiers a b

def price (unit beyond : Nat) : Nat → List Tier → Nat → Nat → Nat
  | lo, [], a, b => above lo a b / unit * beyond
  | lo, tier :: tiers, a, b =>
    between lo tier.upper a b / unit * tier.rate + price unit beyond tier.upper tiers a b

/-! ## Parts -/

theorem above_eq_card (lo a b : Nat) :
    above lo a b = ((Finset.Ioc a b).filter fun c => lo < c).card := by
  have hset : (Finset.Ioc a b).filter (fun c => lo < c) = Finset.Ioc (max a lo) b := by
    ext c
    simp only [Finset.mem_filter, Finset.mem_Ioc, max_lt_iff]
    tauto
  rw [hset, Nat.card_Ioc, above]

theorem between_eq_card (lo hi a b : Nat) :
    between lo hi a b = ((Finset.Ioc a b).filter fun c => lo < c ∧ c ≤ hi).card := by
  have hset : (Finset.Ioc a b).filter (fun c => lo < c ∧ c ≤ hi) =
      Finset.Ioc (max a lo) (min b hi) := by
    ext c
    simp only [Finset.mem_filter, Finset.mem_Ioc, max_lt_iff, le_min_iff]
    tauto
  rw [hset, Nat.card_Ioc, between]

theorem above_zero (a b : Nat) : above 0 a b = b - a := by
  rw [above, Nat.max_zero]

theorem between_add_above {lo hi : Nat} (h : lo ≤ hi) (a b : Nat) :
    between lo hi a b + above hi a b = above lo a b := by
  unfold between above
  omega

theorem above_add (lo : Nat) {a b c : Nat} (hab : a ≤ b) (hbc : b ≤ c) :
    above lo a b + above lo b c = above lo a c := by
  unfold above
  omega

theorem between_add (lo hi : Nat) {a b c : Nat} (hab : a ≤ b) (hbc : b ≤ c) :
    between lo hi a b + between lo hi b c = between lo hi a c := by
  unfold between
  omega

theorem parts_sum {lo : Nat} {tiers : List Tier} (h : Ascending lo tiers) (a b : Nat) :
    (parts lo tiers a b).sum = above lo a b := by
  induction tiers generalizing lo with
  | nil => simp [parts]
  | cons tier tiers ih =>
    rw [parts, List.sum_cons, ih h.2, between_add_above h.1]

theorem price_eq_sum (unit beyond lo : Nat) (tiers : List Tier) (a b : Nat) :
    price unit beyond lo tiers a b =
      (List.zipWith (fun n rate => n / unit * rate) (parts lo tiers a b)
        (tiers.map Tier.rate ++ [beyond])).sum := by
  induction tiers generalizing lo with
  | nil => simp [price, parts]
  | cons tier tiers ih => simp [price, parts, ih]

/-! ## Prices -/

section

variable {unit beyond lo a b c : Nat} {tiers : List Tier}

theorem price_below (h : Ascending lo tiers) (hb : b ≤ lo) :
    price unit beyond lo tiers a b = 0 := by
  induction tiers generalizing lo with
  | nil =>
    have hzero : above lo a b = 0 := by unfold above; omega
    rw [price, hzero, Nat.zero_div, Nat.zero_mul]
  | cons tier tiers ih =>
    have hzero : between lo tier.upper a b = 0 := by unfold between; omega
    rw [price, hzero, Nat.zero_div, Nat.zero_mul, ih h.2 (hb.trans h.1)]

theorem price_mono (hbc : b ≤ c) :
    price unit beyond lo tiers a b ≤ price unit beyond lo tiers a c := by
  induction tiers generalizing lo with
  | nil =>
    apply Nat.mul_le_mul_right
    apply Nat.div_le_div_right
    unfold above
    omega
  | cons tier tiers ih =>
    have hpart : between lo tier.upper a b ≤ between lo tier.upper a c := by
      unfold between
      omega
    have hpay : between lo tier.upper a b / unit * tier.rate ≤
        between lo tier.upper a c / unit * tier.rate :=
      Nat.mul_le_mul_right _ (Nat.div_le_div_right hpart)
    exact Nat.add_le_add hpay ih

theorem price_from_below {a' : Nat} (h : Ascending lo tiers) (ha : a ≤ lo) (ha' : a' ≤ lo) :
    price unit beyond lo tiers a b = price unit beyond lo tiers a' b := by
  induction tiers generalizing lo with
  | nil =>
    have hpart : above lo a b = above lo a' b := by unfold above; omega
    rw [price, price, hpart]
  | cons tier tiers ih =>
    have hpart : between lo tier.upper a b = between lo tier.upper a' b := by
      unfold between
      omega
    rw [price, price, hpart, ih h.2 (ha.trans h.1) (ha'.trans h.1)]

/-! ## Cutting a volume in two -/

theorem units_add_le (x y rate : Nat) :
    x / unit * rate + y / unit * rate ≤ (x + y) / unit * rate := by
  rw [← Nat.add_mul]
  exact Nat.mul_le_mul_right _ (Nat.div_add_div_le_add_div)

theorem units_le_add (hunit : 0 < unit) (x y rate : Nat) :
    (x + y) / unit * rate ≤ x / unit * rate + y / unit * rate + rate := by
  have hdiv : (x + y) / unit ≤ x / unit + y / unit + 1 := by
    rw [Nat.add_div hunit]
    split_ifs <;> omega
  calc
    (x + y) / unit * rate ≤ (x / unit + y / unit + 1) * rate := Nat.mul_le_mul_right _ hdiv
    _ = x / unit * rate + y / unit * rate + rate := by rw [Nat.add_mul, Nat.add_mul, Nat.one_mul]

theorem price_add_le (hab : a ≤ b) (hbc : b ≤ c) :
    price unit beyond lo tiers a b + price unit beyond lo tiers b c ≤
      price unit beyond lo tiers a c := by
  induction tiers generalizing lo with
  | nil =>
    rw [price, price, price, ← above_add lo hab hbc]
    exact units_add_le _ _ _
  | cons tier tiers ih =>
    have hpart : between lo tier.upper a b / unit * tier.rate +
        between lo tier.upper b c / unit * tier.rate ≤
          between lo tier.upper a c / unit * tier.rate := by
      rw [← between_add lo tier.upper hab hbc]
      exact units_add_le _ _ _
    have hrest : price unit beyond tier.upper tiers a b + price unit beyond tier.upper tiers b c ≤
        price unit beyond tier.upper tiers a c := ih
    rw [price, price, price]
    omega

/-- A cut lies in one tier, so it loses at most one unit of that tier. -/
theorem price_le_add {top : Nat} (hunit : 0 < unit) (h : Ascending lo tiers) (hab : a ≤ b)
    (hbc : b ≤ c) (hbeyond : beyond ≤ top) (htiers : ∀ tier ∈ tiers, tier.rate ≤ top) :
    price unit beyond lo tiers a c ≤
      price unit beyond lo tiers a b + price unit beyond lo tiers b c + top := by
  induction tiers generalizing lo with
  | nil =>
    have hpart := units_le_add hunit (above lo a b) (above lo b c) beyond
    rw [above_add lo hab hbc] at hpart
    rw [price, price, price]
    omega
  | cons tier tiers ih =>
    rw [price, price, price]
    have hadd := between_add lo tier.upper hab hbc
    rcases Nat.le_total b tier.upper with hle | hle
    · -- The cut is not above this tier: what follows is not cut.
      have hpart := units_le_add hunit (between lo tier.upper a b) (between lo tier.upper b c) tier.rate
      have htop := htiers tier List.mem_cons_self
      have hbelow : price unit beyond tier.upper tiers a b = 0 := price_below h.2 hle
      have hsame : price unit beyond tier.upper tiers a c = price unit beyond tier.upper tiers b c :=
        price_from_below h.2 (hab.trans hle) hle
      rw [hadd] at hpart
      omega
    · -- It is not below the end of this tier, which has nothing of the second half.
      have hnone : between lo tier.upper b c = 0 := by unfold between; omega
      have hrest := ih h.2 fun t ht => htiers t (List.mem_cons_of_mem _ ht)
      rw [hnone, Nat.add_zero] at hadd
      rw [hnone, hadd, Nat.zero_div, Nat.zero_mul]
      omega

/-! ## A volume in pieces -/

/-- The price of pieces that follow one another. -/
def priceEach (unit beyond lo : Nat) (tiers : List Tier) : Nat → List Nat → Nat
  | _, [] => 0
  | a, n :: ns =>
    price unit beyond lo tiers a (a + n) + priceEach unit beyond lo tiers (a + n) ns

theorem priceEach_le (ns : List Nat) :
    priceEach unit beyond lo tiers a ns ≤ price unit beyond lo tiers a (a + ns.sum) := by
  induction ns generalizing a with
  | nil => exact Nat.zero_le _
  | cons n ns ih =>
    have hcut : price unit beyond lo tiers a (a + n) +
        price unit beyond lo tiers (a + n) (a + n + ns.sum) ≤
          price unit beyond lo tiers a (a + n + ns.sum) :=
      price_add_le (Nat.le_add_right _ _) (Nat.le_add_right _ _)
    have hrest : priceEach unit beyond lo tiers (a + n) ns ≤
        price unit beyond lo tiers (a + n) (a + n + ns.sum) := ih
    rw [List.sum_cons, ← Nat.add_assoc, priceEach]
    omega

/-- Each cut between two pieces loses at most one unit. -/
theorem le_priceEach {top : Nat} (hunit : 0 < unit) (h : Ascending lo tiers) (hbeyond : beyond ≤ top)
    (htiers : ∀ tier ∈ tiers, tier.rate ≤ top) {ns : List Nat} (hns : ns ≠ []) :
    price unit beyond lo tiers a (a + ns.sum) ≤
      priceEach unit beyond lo tiers a ns + top * (ns.length - 1) := by
  induction ns generalizing a with
  | nil => exact absurd rfl hns
  | cons n ns ih =>
    rw [List.sum_cons, ← Nat.add_assoc, priceEach, List.length_cons, Nat.add_sub_cancel]
    by_cases hne : ns = []
    · simp [hne, priceEach]
    · have hrest : price unit beyond lo tiers (a + n) (a + n + ns.sum) ≤
          priceEach unit beyond lo tiers (a + n) ns + top * (ns.length - 1) := ih hne
      have hcut := price_le_add hunit h (Nat.le_add_right a n) (Nat.le_add_right (a + n) ns.sum)
        hbeyond htiers
      have hlen : top * ns.length = top * (ns.length - 1) + top := by
        have := List.length_pos_iff.mpr hne
        rw [← Nat.mul_succ]
        congr 1
        omega
      omega

/-! ## The smallest volumes

A volume of `n` units is to cost `n` at least. It may cost less where it is cut by a bound into
parts that are smaller than a unit. -/

/-- The bounds are multiples of the unit, a unit apart or more, and every rate but the last one is
more than one. -/
def Whole (unit : Nat) : Nat → List Tier → Prop
  | _, [] => True
  | lo, tier :: tiers =>
    lo + unit ≤ tier.upper ∧ unit ∣ tier.upper ∧ 2 ≤ tier.rate ∧ Whole unit tier.upper tiers

theorem Whole.ascending (h : Whole unit lo tiers) : Ascending lo tiers := by
  induction tiers generalizing lo with
  | nil => trivial
  | cons tier tiers ih => exact ⟨(Nat.le_add_right _ _).trans h.1, ih h.2.2.2⟩

/-- The volume has less than a unit below a bound, and above it less than a unit, or less than `n`
units when the bound is the last one. -/
def Slips (unit n a b : Nat) : List Tier → Prop
  | [] => False
  | tier :: tiers =>
    (a < tier.upper ∧ tier.upper - a < unit ∧ tier.upper < b ∧
      b - tier.upper < if tiers = [] then unit * n else unit) ∨ Slips unit n a b tiers

theorem not_slips {n : Nat} (h : Whole unit lo tiers) (hb : b ≤ lo) : ¬ Slips unit n a b tiers := by
  induction tiers generalizing lo with
  | nil => exact id
  | cons tier tiers ih =>
    have hlo := h.1
    rintro (⟨-, -, hlt, -⟩ | hrest)
    · omega
    · exact ih h.2.2.2 (by omega) hrest

theorem price_from_bound {tier : Tier} (hdvd : unit ∣ tier.upper) (hlo : unit ∣ lo)
    (h : Whole unit tier.upper tiers) (hle : lo ≤ tier.upper) (hb : tier.upper ≤ b) :
    price unit beyond lo (tier :: tiers) lo b =
        (tier.upper - lo) / unit * tier.rate +
          price unit beyond tier.upper tiers tier.upper b ∧
      (b - lo) / unit = (tier.upper - lo) / unit + (b - tier.upper) / unit := by
  constructor
  · have hstart : price unit beyond tier.upper tiers lo b =
        price unit beyond tier.upper tiers tier.upper b :=
      price_from_below h.ascending hle (Nat.le_refl _)
    rw [price, between, Nat.max_self, Nat.min_eq_right hb, hstart]
  · have hcut : b - lo = (tier.upper - lo) + (b - tier.upper) := by omega
    rw [hcut]
    exact Nat.add_div_of_dvd_right (Nat.dvd_sub hdvd hlo)

theorem price_within_bound {tier : Tier} (h : Whole unit tier.upper tiers) (hb : b ≤ tier.upper) :
    price unit beyond lo (tier :: tiers) a b = (b - max a lo) / unit * tier.rate := by
  rw [price, between, Nat.min_eq_left hb, price_below h.ascending hb, Nat.add_zero]

theorem units_le_price (h : Whole unit lo tiers) (hlo : unit ∣ lo) (hb : lo ≤ b) :
    (b - lo) / unit ≤ price unit 1 lo tiers lo b := by
  induction tiers generalizing lo with
  | nil => rw [price, above, Nat.max_self, Nat.mul_one]
  | cons tier tiers ih =>
    obtain ⟨hstep, hdvd, hrate, hrest⟩ := h
    rcases Nat.le_total b tier.upper with hle | hle
    · rw [price_within_bound hrest hle, Nat.max_self]
      exact Nat.le_mul_of_pos_right _ (by omega)
    · obtain ⟨hprice, hunits⟩ := price_from_bound hdvd hlo hrest (by omega) hle
      have htail := ih hrest hdvd hle
      have hpay : (tier.upper - lo) / unit ≤ (tier.upper - lo) / unit * tier.rate :=
        Nat.le_mul_of_pos_right _ (by omega)
      rw [hprice, hunits]
      exact Nat.add_le_add hpay htail

theorem units_lt_price {tier : Tier} (hunit : 0 < unit) (h : Whole unit lo (tier :: tiers))
    (hlo : unit ∣ lo) (hb : lo + unit ≤ b) :
    (b - lo) / unit < price unit 1 lo (tier :: tiers) lo b := by
  obtain ⟨hstep, hdvd, hrate, hrest⟩ := h
  have hmore : ∀ n, unit ≤ n → n / unit < n / unit * tier.rate := by
    intro n hn
    have hpos : 0 < n / unit := Nat.div_pos hn hunit
    calc
      n / unit < n / unit * 2 := by omega
      _ ≤ n / unit * tier.rate := Nat.mul_le_mul_left _ hrate
  rcases Nat.le_total b tier.upper with hle | hle
  · rw [price_within_bound hrest hle, Nat.max_self]
    exact hmore _ (by omega)
  · obtain ⟨hprice, hunits⟩ := price_from_bound hdvd hlo hrest (by omega) hle
    rw [hprice, hunits]
    exact Nat.add_lt_add_of_lt_of_le (hmore _ (by omega)) (units_le_price hrest hdvd hle)

theorem not_slips_above {n : Nat} (h : Whole unit lo tiers) (ha : a ≤ lo) :
    ¬ Slips unit n a b tiers := by
  induction tiers generalizing lo with
  | nil => exact id
  | cons tier tiers ih =>
    have hstep := h.1
    rintro (⟨-, hlt, -⟩ | hrest)
    · omega
    · exact ih h.2.2.2 (by omega) hrest

theorem units_le_price_cut {n : Nat} {tier : Tier} (hunit : 0 < unit)
    (h : Whole unit lo (tier :: tiers)) (hlo : lo ≤ a) (hn : 0 < n) (hunits : n ≤ (b - a) / unit)
    (ha : a < tier.upper) (hb : tier.upper < b) :
    n ≤ price unit 1 lo (tier :: tiers) a b ↔ ¬ Slips unit n a b (tier :: tiers) := by
  obtain ⟨hstep, hdvd, hrate, hrest⟩ := h
  have hlater : ¬ Slips unit n a b tiers := not_slips_above hrest (Nat.le_of_lt ha)
  have hprice : price unit 1 lo (tier :: tiers) a b =
      (tier.upper - a) / unit * tier.rate + price unit 1 tier.upper tiers tier.upper b := by
    rw [price, between, Nat.min_eq_right (Nat.le_of_lt hb), Nat.max_eq_left hlo,
      price_from_below hrest.ascending (Nat.le_of_lt ha) (Nat.le_refl _)]
  have hcut : (b - a) / unit ≤ (tier.upper - a) / unit + (b - tier.upper) / unit + 1 := by
    rw [show b - a = (tier.upper - a) + (b - tier.upper) by omega, Nat.add_div hunit]
    split_ifs <;> omega
  rw [hprice]
  rcases Nat.lt_or_ge (tier.upper - a) unit with hsmall | hlarge
  · have hzero : (tier.upper - a) / unit = 0 := Nat.div_eq_of_lt hsmall
    rw [hzero, Nat.zero_mul, Nat.zero_add]
    rw [hzero] at hcut
    cases tiers with
    | nil =>
      rw [price, above, Nat.max_self, Nat.mul_one, Nat.le_div_iff_mul_le hunit, Nat.mul_comm]
      simp only [Slips, if_pos, or_false, ha, hsmall, hb, true_and, Nat.not_lt]
    | cons tier' tiers =>
      simp only [Slips, reduceCtorEq, if_false, ha, hsmall, hb, true_and] at hlater ⊢
      rcases Nat.lt_or_ge (b - tier.upper) unit with hless | hmore
      · have hstep' := hrest.1
        rw [price_within_bound hrest.2.2.2 (by omega), Nat.max_self, Nat.div_eq_of_lt hless,
          Nat.zero_mul]
        exact iff_of_false (by omega) fun hno => hno (Or.inl hless)
      · have hpay := units_lt_price hunit hrest hdvd (b := b) (by omega)
        refine iff_of_true (by omega) ?_
        rintro (hless | hs)
        · omega
        · exact hlater hs
  · have hpos : 0 < (tier.upper - a) / unit := Nat.div_pos hlarge hunit
    have hpay : (tier.upper - a) / unit * 2 ≤ (tier.upper - a) / unit * tier.rate :=
      Nat.mul_le_mul_left _ hrate
    have htail := units_le_price hrest hdvd (Nat.le_of_lt hb)
    refine iff_of_true (by omega) ?_
    rintro (⟨-, hlt, -⟩ | hs)
    · omega
    · exact hlater hs

/-- A volume of `n` units costs `n` at least, unless it slips between two tiers. -/
theorem units_le_price_iff {n : Nat} (hunit : 0 < unit) (h : Whole unit lo tiers) (hlo : lo ≤ a)
    (hn : 0 < n) (hb : a + unit * n ≤ b) :
    n ≤ price unit 1 lo tiers a b ↔ ¬ Slips unit n a b tiers := by
  have hunits : n ≤ (b - a) / unit := by
    rw [Nat.le_div_iff_mul_le hunit, Nat.mul_comm]
    omega
  induction tiers generalizing lo with
  | nil =>
    have hprice : price unit 1 lo [] a b = (b - a) / unit := by
      rw [price, above, Nat.max_eq_left hlo, Nat.mul_one]
    rw [hprice]
    exact iff_of_true hunits id
  | cons tier tiers ih =>
    have hwhole := h
    obtain ⟨hstep, hdvd, hrate, hrest⟩ := h
    rcases Nat.lt_or_ge a tier.upper with hin | hskip
    · rcases Nat.lt_or_ge tier.upper b with hcross | hle
      · exact units_le_price_cut hunit hwhole hlo hn hunits hin hcross
      · -- The volume ends in this tier.
        rw [price_within_bound hrest hle, Nat.max_eq_left hlo]
        refine iff_of_true (hunits.trans (Nat.le_mul_of_pos_right _ (by omega))) ?_
        rintro (⟨-, -, hlt, -⟩ | hs)
        · omega
        · exact not_slips hrest hle hs
    · -- It begins above it.
      have hnone : between lo tier.upper a b = 0 := by unfold between; omega
      rw [price, hnone, Nat.zero_div, Nat.zero_mul, Nat.zero_add]
      apply (ih hrest hskip).trans
      constructor
      · rintro hs (⟨hlt, -⟩ | hs')
        · omega
        · exact hs hs'
      · intro hs hs'
        exact hs (Or.inr hs')

end

end Lib.Tiers
