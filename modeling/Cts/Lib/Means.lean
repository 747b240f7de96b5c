import Mathlib.Data.Nat.Dist
import Mathlib.Algebra.BigOperators.Group.List.Basic
import Mathlib.Tactic.Ring
import Mathlib.Tactic.Linarith

/-!
# Means of weighted values

Values can be averaged by their weights, or by the weights times the values. The second mean is
never the smaller one: how far the two are apart is the spread of the values.
-/

namespace Lib.Means

def total (l : List (Nat × Nat)) : Nat := (l.map Prod.fst).sum

/-- The sum of the values, each as often as its weight. -/
def moment (l : List (Nat × Nat)) : Nat := (l.map fun p => p.1 * p.2).sum

def squares (l : List (Nat × Nat)) : Nat := (l.map fun p => p.2 * (p.1 * p.2)).sum

/-- How far the values of a list are from one more. -/
def spreadFrom (p : Nat × Nat) (l : List (Nat × Nat)) : Nat :=
  (l.map fun q => p.1 * q.1 * Nat.dist p.2 q.2 ^ 2).sum

/-- The squared distances of the values from each other, over all pairs. -/
def spread : List (Nat × Nat) → Nat
  | [] => 0
  | p :: l => spreadFrom p l + spread l

variable {p : Nat × Nat} {l : List (Nat × Nat)}

@[simp] theorem total_nil : total [] = 0 := rfl
@[simp] theorem moment_nil : moment [] = 0 := rfl
@[simp] theorem squares_nil : squares [] = 0 := rfl
@[simp] theorem total_cons : total (p :: l) = p.1 + total l := rfl
@[simp] theorem moment_cons : moment (p :: l) = p.1 * p.2 + moment l := rfl
@[simp] theorem squares_cons : squares (p :: l) = p.2 * (p.1 * p.2) + squares l := rfl

theorem dist_sq (x y : Nat) : Nat.dist x y ^ 2 + 2 * (x * y) = x * x + y * y := by
  rcases Nat.le_total x y with h | h
  · obtain ⟨d, rfl⟩ := Nat.exists_eq_add_of_le h
    rw [Nat.dist_eq_sub_of_le h, Nat.add_sub_cancel_left]
    ring
  · obtain ⟨d, rfl⟩ := Nat.exists_eq_add_of_le h
    rw [Nat.dist_eq_sub_of_le_right h, Nat.add_sub_cancel_left]
    ring

theorem spreadFrom_eq (p : Nat × Nat) (l : List (Nat × Nat)) :
    spreadFrom p l + 2 * (p.1 * p.2 * moment l) =
      p.1 * (p.2 * p.2 * total l + squares l) := by
  induction l with
  | nil => rfl
  | cons q l ih =>
    have hstep : spreadFrom p (q :: l) = p.1 * q.1 * Nat.dist p.2 q.2 ^ 2 + spreadFrom p l := rfl
    have hdist := dist_sq p.2 q.2
    simp only [hstep, moment_cons, total_cons, squares_cons]
    calc p.1 * q.1 * Nat.dist p.2 q.2 ^ 2 + spreadFrom p l +
          2 * (p.1 * p.2 * (q.1 * q.2 + moment l))
        = p.1 * q.1 * (Nat.dist p.2 q.2 ^ 2 + 2 * (p.2 * q.2)) +
            (spreadFrom p l + 2 * (p.1 * p.2 * moment l)) := by ring
      _ = p.1 * (p.2 * p.2 * (q.1 + total l) + (q.2 * (q.1 * q.2) + squares l)) := by
          rw [hdist, ih]
          ring

theorem squares_mul_total (l : List (Nat × Nat)) :
    squares l * total l = moment l * moment l + spread l := by
  induction l with
  | nil => rfl
  | cons p l ih =>
    have hfrom := spreadFrom_eq p l
    simp only [spread, moment_cons, total_cons, squares_cons]
    linarith

/-- When the two means agree, rounded down. -/
theorem floors_eq_iff (hm : 0 < moment l) (ht : 0 < total l) :
    squares l / moment l = moment l / total l ↔
      spread l < moment l * (total l - moment l % total l) := by
  have hid := squares_mul_total l
  have hmod := Nat.mod_lt (moment l) ht
  -- The mean by weights, and what its rounding leaves.
  generalize hq : moment l / total l = q
  generalize hr : moment l % total l = r at hmod ⊢
  have hdiv : total l * q + r = moment l := by
    rw [← hq, ← hr]
    exact Nat.div_add_mod _ _
  have hle : q * moment l ≤ squares l := by
    apply Nat.le_of_mul_le_mul_right _ ht
    calc q * moment l * total l = moment l * (total l * q) := by ring
      _ ≤ moment l * moment l := Nat.mul_le_mul_left _ (by omega)
      _ ≤ squares l * total l := by omega
  have hceil : moment l * moment l + moment l * (total l - r) = (q + 1) * moment l * total l := by
    calc moment l * moment l + moment l * (total l - r)
        = moment l * (moment l + (total l - r)) := by ring
      _ = moment l * (total l * q + total l) := by
          congr 1
          omega
      _ = (q + 1) * moment l * total l := by ring
  calc squares l / moment l = q ↔ squares l / moment l < q + 1 := by
        have hge : q ≤ squares l / moment l := (Nat.le_div_iff_mul_le hm).mpr hle
        omega
    _ ↔ squares l < (q + 1) * moment l := Nat.div_lt_iff_lt_mul hm
    _ ↔ squares l * total l < (q + 1) * moment l * total l := (Nat.mul_lt_mul_right ht).symm
    _ ↔ spread l < moment l * (total l - r) := by
        rw [hid, ← hceil]
        omega

end Lib.Means
