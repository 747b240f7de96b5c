import Mathlib.Data.List.Basic
import Mathlib.Tactic.Linarith

/-!
# Binary search

In a list whose keys strictly increase the search finds the index of a key exactly when the key is
there, and otherwise where the key would be inserted.
-/

namespace Lib

variable {α : Type}

/-- The window starts at `base` and has `size` elements. -/
def searchWindow (key : Nat) (f : Nat → Nat) : Nat → Nat → Nat → Nat
  | 0, _, base => base
  | fuel + 1, size, base =>
    if size ≤ 1 then base
    else
      let half := size / 2
      let mid := base + half
      searchWindow key f fuel (size - half) (if key < f mid then base else mid)

def binarySearchByKey (l : List α) (key : Nat) (f : α → Nat) : Option Nat :=
  let base := searchWindow key (fun i => (l[i]?.map f).getD 0) l.length l.length 0
  match l[base]? with
  | none => none
  | some a => if f a = key then some base else none

/-- The index where a key is or would be inserted. -/
def searchPoint (l : List α) (key : Nat) (f : α → Nat) : Nat :=
  let base := searchWindow key (fun i => (l[i]?.map f).getD 0) l.length l.length 0
  match l[base]? with
  | none => 0
  | some a => if f a < key then base + 1 else base

theorem searchPoint_le (l : List α) (key : Nat) (f : α → Nat) : searchPoint l key f ≤ l.length := by
  unfold searchPoint
  simp only
  split
  · exact Nat.zero_le _
  · rename_i a ha
    have hlt := (List.getElem?_eq_some_iff.mp ha).1
    split_ifs
    · exact hlt
    · exact hlt.le

theorem searchWindow_spec {n : Nat} {f : Nat → Nat} (key : Nat)
    (hf : ∀ i j, i ≤ j → j < n → f i ≤ f j) (fuel size base : Nat) (hsize : 0 < size)
    (hn : base + size ≤ n) (hfuel : size ≤ fuel + 1) (hbase : base = 0 ∨ f base ≤ key)
    (hend : ∀ j, base + size ≤ j → j < n → key < f j) :
    let r := searchWindow key f fuel size base
    r < n ∧ (r = 0 ∨ f r ≤ key) ∧ ∀ j, r < j → j < n → key < f j := by
  induction fuel generalizing size base with
  | zero =>
    rw [searchWindow]
    exact ⟨by omega, hbase, fun j hj => hend j (by omega)⟩
  | succ fuel ih =>
    rw [searchWindow]
    split_ifs with hone
    · exact ⟨by omega, hbase, fun j hj => hend j (by omega)⟩
    simp only
    split_ifs with hkey
    · apply ih _ _ (by omega) (by omega) (by omega) hbase
      intro j hj hjn
      exact hkey.trans_le (hf _ _ (by omega) hjn)
    · apply ih _ _ (by omega) (by omega) (by omega) (Or.inr (Nat.le_of_not_lt hkey))
      intro j hj
      exact hend j (by omega)

/-- Keys that strictly increase. -/
def SortedBy (f : α → Nat) (l : List α) : Prop := (l.map f).Pairwise (· < ·)

theorem SortedBy.lt {f : α → Nat} {l : List α} (h : SortedBy f l) {i j : Nat} {a b : α}
    (hi : l[i]? = some a) (hj : l[j]? = some b) (hij : i < j) : f a < f b := by
  obtain ⟨hil, rfl⟩ := List.getElem?_eq_some_iff.mp hi
  obtain ⟨hjl, rfl⟩ := List.getElem?_eq_some_iff.mp hj
  have := List.pairwise_iff_getElem.mp h i j (by simpa using hil) (by simpa using hjl) hij
  simpa using this

theorem SortedBy.concat {f : α → Nat} {l : List α} (h : SortedBy f l) {a : α}
    (hlast : ∀ b ∈ l.getLast?, f b < f a) : SortedBy f (l ++ [a]) := by
  unfold SortedBy at *
  rw [List.map_append, List.map_singleton, List.pairwise_append]
  refine ⟨h, List.pairwise_singleton _ _, ?_⟩
  intro i hi j hj
  rw [List.mem_singleton.mp hj]
  obtain ⟨b, hb, rfl⟩ := List.mem_map.mp hi
  have hne : l ≠ [] := List.ne_nil_of_mem hb
  have hle : f b ≤ f (l.getLast hne) := by
    rw [← List.dropLast_append_getLast hne, List.map_append, List.pairwise_append] at h
    rw [← List.dropLast_append_getLast hne] at hb
    rcases List.mem_append.mp hb with hinit | heq
    · exact (h.2.2 _ (List.mem_map_of_mem hinit) _ (by simp)).le
    · rw [List.mem_singleton.mp heq]
  exact hle.trans_lt (hlast _ (List.getLast?_eq_getLast_of_ne_nil hne))

theorem SortedBy.search {f : α → Nat} {l : List α} (h : SortedBy f l) (key : Nat) (hl : l ≠ []) :
    ∃ r a, searchWindow key (fun i => (l[i]?.map f).getD 0) l.length l.length 0 = r ∧
      l[r]? = some a ∧ (r = 0 ∨ f a ≤ key) ∧ ∀ j b, r < j → l[j]? = some b → key < f b := by
  have hpos : 0 < l.length := List.length_pos_of_ne_nil hl
  have hmono : ∀ i j, i ≤ j → j < l.length → (l[i]?.map f).getD 0 ≤ (l[j]?.map f).getD 0 := by
    intro i j hij hj
    have hi : i < l.length := by omega
    simp only [List.getElem?_eq_getElem hi, List.getElem?_eq_getElem hj, Option.map_some,
      Option.getD_some]
    rcases Nat.lt_or_eq_of_le hij with hlt | rfl
    · exact (h.lt (List.getElem?_eq_getElem hi) (List.getElem?_eq_getElem hj) hlt).le
    · exact Nat.le_refl _
  obtain ⟨hr, hle, hgt⟩ := searchWindow_spec key hmono l.length l.length 0 hpos
    (by omega) (by omega) (Or.inl rfl) (by omega)
  refine ⟨_, _, rfl, List.getElem?_eq_getElem hr, ?_, fun j b hj hb => ?_⟩
  · simpa only [List.getElem?_eq_getElem hr, Option.map_some, Option.getD_some] using hle
  · have hjl : j < l.length := (List.getElem?_eq_some_iff.mp hb).1
    simpa only [hb, Option.map_some, Option.getD_some] using hgt j hj hjl

theorem binarySearchByKey_eq {f : α → Nat} {l : List α} (h : SortedBy f l) {i : Nat} {a : α}
    (hi : l[i]? = some a) : binarySearchByKey l (f a) f = some i := by
  have hl : l ≠ [] := by
    rintro rfl
    cases hi
  obtain ⟨r, b, hr, hb, hle, hgt⟩ := h.search (f a) hl
  have hir : i ≤ r := by
    by_contra hn
    exact absurd (hgt i a (by omega) hi) (Nat.lt_irrefl _)
  have hri : r ≤ i := by
    by_contra hn
    have hlt := h.lt hi hb (by omega)
    omega
  obtain rfl : i = r := by omega
  simp only [binarySearchByKey, hr, hi, if_pos]

theorem binarySearchByKey_some {f : α → Nat} {l : List α} {key i : Nat}
    (h : binarySearchByKey l key f = some i) : ∃ a, l[i]? = some a ∧ f a = key := by
  unfold binarySearchByKey at h
  simp only at h
  split at h
  · cases h
  · rename_i a ha
    split_ifs at h with hkey
    obtain rfl := Option.some.inj h
    exact ⟨a, ha, hkey⟩

theorem take_eq_filter {p : α → Bool} {l : List α} {n : Nat}
    (hlt : ∀ i a, i < n → l[i]? = some a → p a) (hge : ∀ i a, n ≤ i → l[i]? = some a → ¬ p a) :
    l.take n = l.filter p := by
  have htake : (l.take n).filter p = l.take n := by
    rw [List.filter_eq_self]
    intro a ha
    obtain ⟨i, hi⟩ := List.mem_iff_getElem?.mp ha
    rw [List.getElem?_take] at hi
    split_ifs at hi with hin
    exact hlt i a hin hi
  have hdrop : (l.drop n).filter p = [] := by
    rw [List.filter_eq_nil_iff]
    intro a ha
    obtain ⟨i, hi⟩ := List.mem_iff_getElem?.mp ha
    rw [List.getElem?_drop] at hi
    exact hge (n + i) a (by omega) hi
  calc
    l.take n
    _ = (l.take n).filter p ++ (l.drop n).filter p := by rw [htake, hdrop, List.append_nil]
    _ = l.filter p := by rw [← List.filter_append, List.take_append_drop]

theorem SortedBy.take_searchPoint {f : α → Nat} {l : List α} (h : SortedBy f l) (key : Nat) :
    l.take (searchPoint l key f) = l.filter fun a => f a < key := by
  rcases eq_or_ne l [] with rfl | hl
  · simp
  obtain ⟨r, a, hr, ha, hle, hgt⟩ := h.search key hl
  have hpoint : searchPoint l key f = if f a < key then r + 1 else r := by
    simp only [searchPoint, hr, ha]
  rw [hpoint]
  split_ifs with hlt
  · apply take_eq_filter
    · intro i b hi hb
      rcases Nat.lt_or_eq_of_le (Nat.le_of_lt_succ hi) with hir | rfl
      · have := h.lt hb ha hir
        simpa using this.trans hlt
      · rw [ha] at hb
        simpa [← Option.some.inj hb] using hlt
    · intro i b hi hb
      have := hgt i b hi hb
      simpa using this.le
  · apply take_eq_filter
    · intro i b hi hb
      have := h.lt hb ha hi
      simp only [decide_eq_true_eq]
      omega
    · intro i b hi hb
      rcases Nat.lt_or_eq_of_le hi with hir | rfl
      · have := hgt i b hir hb
        simpa using this.le
      · rw [ha] at hb
        simpa [← Option.some.inj hb] using hlt

theorem drop_eq_filter_not {p : α → Bool} {l : List α} {n : Nat} (h : l.take n = l.filter p) :
    l.drop n = l.filter fun a => !p a := by
  have hsplit (q : α → Bool) : l.filter q = (l.take n).filter q ++ (l.drop n).filter q := by
    rw [← List.filter_append, List.take_append_drop]
  have hback : (l.drop n).filter p = [] := by
    have hp := hsplit p
    simp only [h, List.filter_filter, Bool.and_self] at hp
    exact List.self_eq_append_right.mp hp
  have hfront : (l.take n).filter (fun a => !p a) = [] := by
    rw [h, List.filter_filter]
    simp
  have hall : (l.drop n).filter (fun a => !p a) = l.drop n := by
    rw [List.filter_eq_self]
    intro a ha
    simpa using List.filter_eq_nil_iff.mp hback a ha
  rw [hsplit, hfront, hall, List.nil_append]

theorem SortedBy.drop_searchPoint {f : α → Nat} {l : List α} (h : SortedBy f l) (key : Nat) :
    l.drop (searchPoint l key f) = l.filter fun a => key ≤ f a := by
  rw [drop_eq_filter_not (h.take_searchPoint key)]
  apply List.filter_congr
  intro a _
  rw [← decide_not, decide_eq_decide, Nat.not_lt]

end Lib
