import Cts.Lib.Newest

/-!
# Reading by pages

Every page is a part of what is left at its cursor and leaves the rest at the next one, so the pages
together are all that there is.
-/

namespace Lib.Paging

open IndexedLog

structure Page (α : Type) where
  items : List α
  is_last : Bool

variable {α κ : Type} {view : κ → Page α} {next : List α → Option κ} {glue : List α → List α → List α}
  {rest : κ → List α}

/-- The pages that a client gets from a cursor on. -/
inductive Chain (view : κ → Page α) (next : List α → Option κ) : κ → List (List α) → Prop
  | last {k : κ} (h : (view k).is_last = true) : Chain view next k [(view k).items]
  | more {k k' : κ} {pages : List (List α)} (h : (view k).is_last = false)
      (hnext : next (view k).items = some k') (hc : Chain view next k' pages) :
      Chain view next k ((view k).items :: pages)

theorem Chain.unique {k : κ} {pages pages' : List (List α)} (h : Chain view next k pages)
    (h' : Chain view next k pages') : pages = pages' := by
  induction h generalizing pages' with
  | last hlast =>
    cases h' with
    | last => rfl
    | more hmore => simp [hlast] at hmore
  | more hmore hnext _ ih =>
    cases h' with
    | last hlast => simp [hlast] at hmore
    | more _ hnext' hc' =>
      obtain rfl := Option.some.inj (hnext.symm.trans hnext')
      rw [ih hc']

/-- What a page takes of the rest at its cursor. -/
structure Splits (view : κ → Page α) (next : List α → Option κ) (glue : List α → List α → List α)
    (rest : κ → List α) : Prop where
  last : ∀ k, (view k).is_last = true → glue (view k).items [] = rest k
  more : ∀ k, (view k).is_last = false → ∃ k', next (view k).items = some k' ∧
    glue (view k).items (rest k') = rest k ∧ (rest k').length < (rest k).length

theorem Splits.exists_chain (h : Splits view next glue rest) (k : κ) :
    ∃ pages, Chain view next k pages := by
  induction hlen : (rest k).length using Nat.strongRecOn generalizing k with
  | ind n ih =>
    cases hlast : (view k).is_last with
    | true => exact ⟨_, .last hlast⟩
    | false =>
      obtain ⟨k', hnext, -, hlt⟩ := h.more k hlast
      obtain ⟨pages, hpages⟩ := ih _ (hlen ▸ hlt) k' rfl
      exact ⟨_, .more hlast hnext hpages⟩

theorem Splits.glued (h : Splits view next glue rest) {k : κ} {pages : List (List α)}
    (hc : Chain view next k pages) : pages.foldr glue [] = rest k := by
  induction hc with
  | last hlast => exact h.last _ hlast
  | more hmore hnext _ ih =>
    obtain ⟨k', hnext', hglue, -⟩ := h.more _ hmore
    obtain rfl := Option.some.inj (hnext.symm.trans hnext')
    rw [List.foldr_cons, ih, hglue]

/-! ## Ascending pages -/

section

variable {f : α → Nat} {l : List α} {n : Nat} {view : Option Nat → Page α}

/-- What is above the start. -/
def above (f : α → Nat) (l : List α) : Option Nat → List α
  | none => l
  | some start => l.filter fun a => start < f a

/-- The first `n` elements above the start, and whether these are all. -/
structure Ascends (f : α → Nat) (l : List α) (n : Nat) (view : Option Nat → Page α) : Prop where
  items : ∀ start, (view start).items = (above f l start).take n
  is_last : ∀ start, (view start).is_last = true ↔ (above f l start).length ≤ n

/-- The key of the last element. -/
def lastKey (f : α → Nat) (items : List α) : Option (Option Nat) :=
  items.getLast?.map fun a => some (f a)

theorem above_sublist (start : Option Nat) : (above f l start).Sublist l := by
  cases start with
  | none => exact List.Sublist.refl _
  | some start => exact List.filter_sublist

theorem SortedBy.filter_gt (h : SortedBy f l) {i : Nat} {a : α} (hi : l[i]? = some a) :
    l.filter (fun b => f a < f b) = l.drop (i + 1) := by
  have hsplit : l = l.take (i + 1) ++ l.drop (i + 1) := (List.take_append_drop _ _).symm
  have hfront : (l.take (i + 1)).filter (fun b => f a < f b) = [] := by
    rw [List.filter_eq_nil_iff]
    intro b hb
    obtain ⟨j, hj⟩ := List.mem_iff_getElem?.mp hb
    rw [List.getElem?_take] at hj
    split_ifs at hj with hji
    rcases Nat.lt_or_eq_of_le (Nat.le_of_lt_succ hji) with hlt | rfl
    · simpa using (h.lt hj hi hlt).le
    · obtain rfl := Option.some.inj (hi.symm.trans hj)
      simp
  have hback : (l.drop (i + 1)).filter (fun b => f a < f b) = l.drop (i + 1) := by
    rw [List.filter_eq_self]
    intro b hb
    obtain ⟨j, hj⟩ := List.mem_iff_getElem?.mp hb
    rw [List.getElem?_drop] at hj
    simpa using h.lt hi hj (by omega)
  conv_lhs => rw [hsplit]
  rw [List.filter_append, hfront, hback, List.nil_append]

theorem above_of_mem {start : Option Nat} {a : α} (ha : a ∈ above f l start) :
    above f l (some (f a)) = (above f l start).filter fun b => f a < f b := by
  cases start with
  | none => rfl
  | some start =>
    have hlt : start < f a := by simpa using (List.mem_filter.mp ha).2
    unfold above
    rw [List.filter_filter]
    apply List.filter_congr
    intro b _
    rw [← Bool.decide_and]
    apply decide_eq_decide.mpr
    constructor
    · intro hb
      exact ⟨hb, hlt.trans hb⟩
    · exact And.left

theorem Ascends.splits (h : Ascends f l n view) (hl : SortedBy f l) (hn : 0 < n) :
    Splits view (lastKey f) (· ++ ·) (above f l) := by
  constructor
  · intro start hlast
    rw [h.items, List.take_of_length_le ((h.is_last start).mp hlast), List.append_nil]
  · intro start hmore
    have hlen : n < (above f l start).length := by
      by_contra hle
      rw [(h.is_last start).mpr (Nat.le_of_not_lt hle)] at hmore
      cases hmore
    have hget : (above f l start)[n - 1]? = some (above f l start)[n - 1] :=
      List.getElem?_eq_getElem (by omega)
    have hsorted : SortedBy f (above f l start) :=
      List.Pairwise.sublist ((above_sublist start).map f) hl
    have hrest : above f l (some (f (above f l start)[n - 1])) = (above f l start).drop n := by
      rw [above_of_mem (List.getElem_mem _), SortedBy.filter_gt hsorted hget]
      congr 1
      omega
    refine ⟨some (f (above f l start)[n - 1]), ?_, ?_, ?_⟩
    · rw [lastKey, h.items, List.getLast?_eq_getElem?, List.length_take, Nat.min_eq_left hlen.le,
        List.getElem?_take_of_lt (by omega), hget]
      rfl
    · rw [hrest, h.items, List.take_append_drop]
    · rw [hrest, List.length_drop]
      omega

theorem Ascends.is_last_iff (h : Ascends f l n view) (hl : SortedBy f l) (start : Option Nat) :
    (view start).is_last = true ↔ ∀ a ∈ above f l start, a ∈ (view start).items := by
  have hsorted : SortedBy f (above f l start) := List.Pairwise.sublist ((above_sublist start).map f) hl
  rw [h.is_last, h.items]
  constructor
  · intro hle a ha
    rw [List.take_of_length_le hle]
    exact ha
  · intro hall
    have hle := (List.subperm_of_subset hsorted.nodup hall).length_le
    rw [List.length_take] at hle
    omega

theorem foldr_append (pages : List (List α)) : pages.foldr (· ++ ·) [] = pages.flatten := by
  induction pages with
  | nil => rfl
  | cons page pages ih => rw [List.foldr_cons, ih, List.flatten_cons]

/-- The pages are all that is above the start, in its order. -/
theorem Ascends.complete (h : Ascends f l n view) (hl : SortedBy f l) (hn : 0 < n)
    (start : Option Nat) : ∃ pages, Chain view (lastKey f) start pages ∧
      pages.flatten = above f l start := by
  obtain ⟨pages, hpages⟩ := (h.splits hl hn).exists_chain start
  refine ⟨pages, hpages, ?_⟩
  rw [← foldr_append]
  exact (h.splits hl hn).glued hpages

end

/-! ## Descending pages -/

section

variable {f : α → Nat} {l : List α} {n : Nat} {g : Nat → Nat} {view : Option Nat → Page α}

/-- What is under the start. -/
def under (f : α → Nat) (l : List α) : Option Nat → List α
  | none => l
  | some start => l.filter fun a => f a < start

/-- The last `n` elements under the start, and whether these are all. A start is rounded before it is
used, and the keys are rounded already. -/
structure Descends (f : α → Nat) (l : List α) (n : Nat) (g : Nat → Nat) (view : Option Nat → Page α) :
    Prop where
  round : ∀ a ∈ l, g (f a) = f a
  items : ∀ start, (view start).items = newest n (under f l (start.map g))
  is_last : ∀ start, (view start).is_last = true ↔ (under f l (start.map g)).length ≤ n

/-- The key of the first element. -/
def firstKey (f : α → Nat) (items : List α) : Option (Option Nat) :=
  items.head?.map fun a => some (f a)

theorem under_sublist (start : Option Nat) : (under f l start).Sublist l := by
  cases start with
  | none => exact List.Sublist.refl _
  | some start => exact List.filter_sublist

theorem SortedBy.filter_lt (h : SortedBy f l) {i : Nat} {a : α} (hi : l[i]? = some a) :
    l.filter (fun b => f b < f a) = l.take i := by
  symm
  apply take_eq_filter
  · intro j b hj hb
    simpa using h.lt hb hi hj
  · intro j b hj hb
    rcases Nat.lt_or_eq_of_le hj with hlt | rfl
    · simpa using (h.lt hi hb hlt).le
    · obtain rfl := Option.some.inj (hi.symm.trans hb)
      simp

theorem under_eq_take (hl : SortedBy f l) (start : Option Nat) :
    ∃ k, under f l start = l.take k := by
  cases start with
  | none => exact ⟨l.length, List.take_length.symm⟩
  | some start => exact ⟨_, (hl.take_searchPoint start).symm⟩

theorem under_of_mem {start : Option Nat} {a : α} (ha : a ∈ under f l start) :
    under f l (some (f a)) = (under f l start).filter fun b => f b < f a := by
  cases start with
  | none => rfl
  | some start =>
    have hlt : f a < start := by simpa using (List.mem_filter.mp ha).2
    unfold under
    rw [List.filter_filter]
    apply List.filter_congr
    intro b _
    rw [← Bool.decide_and]
    apply decide_eq_decide.mpr
    constructor
    · intro hb
      exact ⟨hb, hb.trans hlt⟩
    · exact And.left

theorem Descends.splits (h : Descends f l n g view) (hl : SortedBy f l) (hn : 0 < n) :
    Splits view (firstKey f) (fun page rest => rest ++ page) fun start =>
      under f l (start.map g) := by
  constructor
  · intro start hlast
    rw [h.items, newest_of_length_le ((h.is_last start).mp hlast), List.nil_append]
  · intro start hmore
    have hlen : n < (under f l (start.map g)).length := by
      by_contra hle
      rw [(h.is_last start).mpr (Nat.le_of_not_lt hle)] at hmore
      cases hmore
    have hfirst : (under f l (start.map g)).length - n < (under f l (start.map g)).length := by omega
    have hget := List.getElem?_eq_getElem hfirst
    have hmem := List.getElem_mem hfirst
    have hsorted : SortedBy f (under f l (start.map g)) :=
      List.Pairwise.sublist ((under_sublist _).map f) hl
    have hrest : under f l (some (f (under f l (start.map g))[(under f l (start.map g)).length - n])) =
        (under f l (start.map g)).take ((under f l (start.map g)).length - n) := by
      rw [under_of_mem hmem, SortedBy.filter_lt hsorted hget]
    refine ⟨some (f (under f l (start.map g))[(under f l (start.map g)).length - n]), ?_, ?_, ?_⟩
    · rw [firstKey, h.items, newest, List.head?_drop, hget]
      rfl
    · rw [Option.map_some, h.round _ ((under_sublist _).subset hmem), hrest, h.items, newest,
        List.take_append_drop]
    · rw [Option.map_some, h.round _ ((under_sublist _).subset hmem), hrest, List.length_take]
      omega

theorem Descends.is_last_iff (h : Descends f l n g view) (hl : SortedBy f l) (start : Option Nat) :
    (view start).is_last = true ↔
      ∀ a ∈ under f l (start.map g), a ∈ (view start).items := by
  have hsorted : SortedBy f (under f l (start.map g)) :=
    List.Pairwise.sublist ((under_sublist _).map f) hl
  rw [h.is_last, h.items, hsorted.forall_mem_newest_iff]

theorem foldr_prepend (pages : List (List α)) :
    pages.foldr (fun page rest => rest ++ page) [] = pages.reverse.flatten := by
  induction pages with
  | nil => rfl
  | cons page pages ih =>
    rw [List.foldr_cons, ih, List.reverse_cons, List.flatten_append, List.flatten_singleton]

/-- The pages from the last to the first are all that is under the start, in its order. -/
theorem Descends.complete (h : Descends f l n g view) (hl : SortedBy f l) (hn : 0 < n)
    (start : Option Nat) : ∃ pages, Chain view (firstKey f) start pages ∧
      pages.reverse.flatten = under f l (start.map g) := by
  obtain ⟨pages, hpages⟩ := (h.splits hl hn).exists_chain start
  refine ⟨pages, hpages, ?_⟩
  rw [← foldr_prepend]
  exact (h.splits hl hn).glued hpages

end

end Lib.Paging
