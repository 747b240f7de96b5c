import Mathlib.Tactic.Linarith

/-!
# Unsigned machine words

Words of `w` bits are natural numbers below `2 ^ w`. The operators are those of a release build:
they wrap. The checked ones are those of a debug build, which panics where a release build wraps.
-/

namespace Lib.Word

def wrap (w n : Nat) : Nat := n % 2 ^ w

def add (w a b : Nat) : Nat := wrap w (a + b)

def mul (w a b : Nat) : Nat := wrap w (a * b)

def sub (w a b : Nat) : Nat := wrap w (a + (2 ^ w - wrap w b))

def saturatingAdd (w a b : Nat) : Nat := min (a + b) (2 ^ w - 1)

def saturatingMul (w a b : Nat) : Nat := min (a * b) (2 ^ w - 1)

/-- Natural subtraction already stops at zero, at every width. -/
def saturatingSub (a b : Nat) : Nat := a - b

def checkedAdd (w a b : Nat) : Option Nat := if a + b < 2 ^ w then some (a + b) else none

def checkedMul (w a b : Nat) : Option Nat := if a * b < 2 ^ w then some (a * b) else none

def checkedSub (a b : Nat) : Option Nat := if b ≤ a then some (a - b) else none

/-- What is left of a number in arithmetic that saturates. -/
def cap (w n : Nat) : Nat := min n (2 ^ w - 1)

theorem two_pow_pos (w : Nat) : 0 < 2 ^ w := Nat.two_pow_pos w

theorem wrap_lt (w n : Nat) : wrap w n < 2 ^ w := Nat.mod_lt _ (two_pow_pos w)

theorem wrap_le (w n : Nat) : wrap w n ≤ n := Nat.mod_le _ _

theorem wrap_of_lt {w n : Nat} (h : n < 2 ^ w) : wrap w n = n := Nat.mod_eq_of_lt h

theorem add_of_lt {w a b : Nat} (h : a + b < 2 ^ w) : add w a b = a + b := wrap_of_lt h

theorem mul_of_lt {w a b : Nat} (h : a * b < 2 ^ w) : mul w a b = a * b := wrap_of_lt h

theorem mul_le (w a b : Nat) : mul w a b ≤ a * b := wrap_le _ _

theorem sub_of_le {w a b : Nat} (ha : a < 2 ^ w) (h : b ≤ a) : sub w a b = a - b := by
  rw [sub, wrap_of_lt (lt_of_le_of_lt h ha), wrap]
  have : a + (2 ^ w - b) = (a - b) + 2 ^ w := by omega
  rw [this, Nat.add_mod_right, Nat.mod_eq_of_lt (by omega)]

theorem saturatingAdd_of_lt {w a b : Nat} (h : a + b < 2 ^ w) : saturatingAdd w a b = a + b := by
  rw [saturatingAdd]
  omega

/-! ## Saturating sums -/

theorem cap_of_lt {w n : Nat} (h : n < 2 ^ w) : cap w n = n := by
  rw [cap]
  omega

theorem cap_mono {w a b : Nat} (h : a ≤ b) : cap w a ≤ cap w b := by
  rw [cap, cap]
  omega

theorem saturatingAdd_cap (w a b : Nat) : saturatingAdd w (cap w a) b = cap w (a + b) := by
  rw [saturatingAdd, cap, cap]
  omega

theorem cap_add_cap (w a b : Nat) : cap w (a + cap w b) = cap w (a + b) := by
  rw [cap, cap, cap]
  omega

theorem foldl_saturatingAdd {α : Type} (w : Nat) (f : α → Nat) (l : List α) (n : Nat) :
    l.foldl (fun sum a => saturatingAdd w sum (f a)) (cap w n) = cap w (n + (l.map f).sum) := by
  induction l generalizing n with
  | nil => rfl
  | cons a l ih =>
    rw [List.foldl_cons, saturatingAdd_cap, ih, List.map_cons, List.sum_cons, Nat.add_assoc]

/-! ## Checked operations -/

theorem checkedAdd_of_lt {w a b : Nat} (h : a + b < 2 ^ w) : checkedAdd w a b = some (a + b) :=
  if_pos h

theorem checkedMul_of_lt {w a b : Nat} (h : a * b < 2 ^ w) : checkedMul w a b = some (a * b) :=
  if_pos h

theorem checkedSub_of_le {a b : Nat} (h : b ≤ a) : checkedSub a b = some (a - b) := if_pos h

/-- Where a checked operator has a result, it is the exact one, and the wrapping one has it too. -/
theorem checkedAdd_some {w a b c : Nat} (h : checkedAdd w a b = some c) :
    a + b < 2 ^ w ∧ c = a + b ∧ add w a b = c := by
  unfold checkedAdd at h
  split_ifs at h with hlt
  obtain rfl := Option.some.inj h
  exact ⟨hlt, rfl, add_of_lt hlt⟩

theorem checkedMul_some {w a b c : Nat} (h : checkedMul w a b = some c) :
    a * b < 2 ^ w ∧ c = a * b ∧ mul w a b = c := by
  unfold checkedMul at h
  split_ifs at h with hlt
  obtain rfl := Option.some.inj h
  exact ⟨hlt, rfl, mul_of_lt hlt⟩

theorem checkedSub_some {w a b c : Nat} (ha : a < 2 ^ w) (h : checkedSub a b = some c) :
    b ≤ a ∧ c = a - b ∧ sub w a b = c := by
  unfold checkedSub at h
  split_ifs at h with hle
  obtain rfl := Option.some.inj h
  exact ⟨hle, rfl, sub_of_le ha hle⟩

end Lib.Word
