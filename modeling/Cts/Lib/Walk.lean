import Mathlib.Data.List.Basic
import Mathlib.Tactic.Linarith

/-!
# Walks that stop

A walk over a list collects what a test accepts and stops at a limit. Where the test has no answer
the walk fails, unless it stopped before.
-/

namespace Lib.Walk

variable {α : Type} {test : α → Option Bool} {max : Nat} {l found : List α}

/-- The limit is looked at after an element was added. -/
def collect (test : α → Option Bool) (max : Nat) : List α → List α → Option (List α)
  | [], found => some found
  | a :: l, found =>
    match test a with
    | none => none
    | some false => collect test max l found
    | some true =>
      if max ≤ (found ++ [a]).length then some (found ++ [a]) else collect test max l (found ++ [a])

/-- Up to the first element without an answer. -/
def answered (test : α → Option Bool) (l : List α) : List α := l.takeWhile fun a => (test a).isSome

def accepted (test : α → Option Bool) (l : List α) : List α := l.filter fun a => test a = some true

section

variable {a : α}

theorem answered_none (h : test a = none) : answered test (a :: l) = [] := by
  simp [answered, h]

theorem answered_some {b : Bool} (h : test a = some b) :
    answered test (a :: l) = a :: answered test l := by
  simp [answered, h]

theorem accepted_true (h : test a = some true) :
    accepted test (a :: l) = a :: accepted test l := by
  simp [accepted, h]

theorem accepted_false (h : test a = some false) : accepted test (a :: l) = accepted test l := by
  simp [accepted, h]

end

theorem answered_eq_self (h : ∀ a ∈ l, (test a).isSome) : answered test l = l := by
  induction l with
  | nil => rfl
  | cons a l ih =>
    obtain ⟨b, hb⟩ := Option.isSome_iff_exists.mp (h a List.mem_cons_self)
    rw [answered_some hb, ih fun x hx => h x (List.mem_cons_of_mem a hx)]

theorem collect_reached (h : found.length < max)
    (hmax : max ≤ found.length + (accepted test (answered test l)).length) :
    collect test max l found =
      some (found ++ (accepted test (answered test l)).take (max - found.length)) := by
  induction l generalizing found with
  | nil =>
    have hzero : (accepted test (answered test ([] : List α))).length = 0 := rfl
    omega
  | cons a l ih =>
    rw [collect]
    cases ha : test a with
    | none =>
      rw [answered_none ha] at hmax
      have hzero : (accepted test ([] : List α)).length = 0 := rfl
      omega
    | some b =>
      cases b with
      | false =>
        rw [answered_some ha, accepted_false ha] at hmax ⊢
        exact ih h hmax
      | true =>
        rw [answered_some ha, accepted_true ha] at hmax ⊢
        rw [List.length_cons] at hmax
        have hlen : (found ++ [a]).length = found.length + 1 := by simp
        simp only [hlen]
        have htake : max - found.length = (max - (found.length + 1)) + 1 := by omega
        split_ifs with hstop
        · have hlast : max - (found.length + 1) = 0 := by omega
          rw [htake, hlast, List.take_succ_cons, List.take_zero]
        · rw [ih (by omega) (by omega), hlen, htake, List.take_succ_cons, List.append_assoc]
          rfl

theorem collect_not_reached
    (hmax : found.length + (accepted test (answered test l)).length < max) :
    collect test max l found =
      if ∀ a ∈ l, (test a).isSome then some (found ++ accepted test l) else none := by
  induction l generalizing found with
  | nil => simp [collect, accepted]
  | cons a l ih =>
    rw [collect]
    simp only [List.forall_mem_cons]
    cases ha : test a with
    | none => simp
    | some b =>
      rw [answered_some ha] at hmax
      simp only [Option.isSome_some, true_and]
      cases b with
      | false =>
        rw [accepted_false ha] at hmax ⊢
        exact ih hmax
      | true =>
        rw [accepted_true ha] at hmax ⊢
        rw [List.length_cons] at hmax
        have hlen : (found ++ [a]).length = found.length + 1 := by simp
        simp only [hlen]
        rw [if_neg (by omega), ih (by omega), List.append_assoc]
        rfl

theorem collect_of_answers (h : ∀ a ∈ l, (test a).isSome) (hmax : 1 ≤ max) :
    collect test max l [] = some ((accepted test l).take max) := by
  have hall := answered_eq_self h
  rcases Nat.lt_or_ge (accepted test l).length max with hlt | hge
  · have hsmall : ([] : List α).length + (accepted test (answered test l)).length < max := by
      rw [hall]
      simpa using hlt
    rw [collect_not_reached hsmall, if_pos h, List.nil_append, List.take_of_length_le hlt.le]
  · have hlarge : max ≤ ([] : List α).length + (accepted test (answered test l)).length := by
      rw [hall]
      simpa using hge
    rw [collect_reached hmax hlarge, hall]
    rfl

end Lib.Walk
