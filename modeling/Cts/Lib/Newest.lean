import Cts.Lib.IndexedLog
import Mathlib.Data.List.Sort

/-!
# The newest of two lists

Two lists with strictly increasing keys can be cut to their newest `n` before they are merged, as
long as no more than `n` are taken of the merged ones.
-/

namespace Lib

open IndexedLog

variable {α : Type} {f : α → Nat} {l c t : List α} {n m k : Nat} {x y : α}

/-- How many elements have a key above that of an element. -/
def newer (f : α → Nat) (l : List α) (x : α) : Nat := l.countP fun y => f x < f y

/-- The elements in the order of their keys. -/
def merged (f : α → Nat) (l : List α) : List α := l.mergeSort fun a b => f a ≤ f b

/-! ## The newest of one list -/

theorem newer_le_length (f : α → Nat) (l : List α) (x : α) : newer f l x ≤ l.length :=
  List.countP_le_length

theorem newer_append (f : α → Nat) (c t : List α) (x : α) :
    newer f (c ++ t) x = newer f c x + newer f t x := List.countP_append

theorem newer_perm (f : α → Nat) (h : c.Perm t) (x : α) : newer f c x = newer f t x :=
  h.countP_eq _

theorem newest_length (n : Nat) (l : List α) : (newest n l).length = min n l.length := by
  rw [newest, List.length_drop]
  omega

theorem newest_of_length_le (h : l.length ≤ n) : newest n l = l := by
  rw [newest, Nat.sub_eq_zero_of_le h, List.drop_zero]

theorem newest_cons_of_le (a : α) (h : n ≤ l.length) : newest n (a :: l) = newest n l := by
  have hsub : (a :: l).length - n = l.length - n + 1 := by
    rw [List.length_cons]
    omega
  rw [newest, hsub, List.drop_succ_cons, newest]

theorem newest_zero (l : List α) : newest 0 l = [] := by
  rw [newest, Nat.sub_zero, List.drop_length]

theorem newest_append (n : Nat) (c t : List α) :
    newest n (c ++ t) = newest (n - t.length) c ++ newest n t := by
  have ht : c.length + t.length - n - c.length = t.length - n := by omega
  have hc : c.drop (c.length + t.length - n) = c.drop (c.length - (n - t.length)) := by
    rcases Nat.le_total t.length n with hle | hle
    · congr 1
      omega
    · rw [List.drop_eq_nil_of_le (by omega), Nat.sub_eq_zero_of_le hle, Nat.sub_zero, List.drop_length]
  unfold newest
  rw [List.drop_append, List.length_append, hc, ht]

theorem newest_map {β : Type} (g : α → β) (n : Nat) (l : List α) :
    newest n (l.map g) = (newest n l).map g := by
  rw [newest, List.length_map, ← List.map_drop, newest]

theorem SortedBy.newest (h : SortedBy f l) (n : Nat) : SortedBy f (newest n l) := by
  unfold SortedBy IndexedLog.newest
  rw [List.map_drop]
  exact List.Pairwise.drop h

theorem SortedBy.of_cons {a : α} (h : SortedBy f (a :: l)) :
    (∀ b ∈ l, f a < f b) ∧ SortedBy f l := by
  obtain ⟨hhead, htail⟩ := List.pairwise_cons.mp h
  exact ⟨fun b hb => hhead _ (List.mem_map_of_mem hb), htail⟩

/-- An element is among the newest `n` when fewer than `n` are newer. -/
theorem mem_newest (h : SortedBy f l) : x ∈ newest n l ↔ x ∈ l ∧ newer f l x < n := by
  induction l with
  | nil => simp [newest]
  | cons a l ih =>
    obtain ⟨hhead, htail⟩ := h.of_cons
    have hmem : x ∈ l → newer f (a :: l) x = newer f l x := fun hx =>
      List.countP_cons_of_neg (by simpa using (hhead x hx).le)
    have ha : newer f (a :: l) a = l.length := by
      have hall : newer f l a = l.length := List.countP_eq_length.mpr fun b hb => by
        simpa using hhead b hb
      rw [← hall]
      exact List.countP_cons_of_neg (by simp)
    rcases Nat.lt_or_ge l.length n with hlt | hge
    · rw [newest_of_length_le (l := a :: l) hlt]
      refine ⟨fun hx => ⟨hx, ?_⟩, And.left⟩
      rcases List.mem_cons.mp hx with rfl | hx
      · omega
      · exact (hmem hx).trans_lt ((newer_le_length f l x).trans_lt hlt)
    · rw [newest_cons_of_le a hge, ih htail, List.mem_cons]
      constructor
      · rintro ⟨hx, hlt⟩
        exact ⟨Or.inr hx, (hmem hx).trans_lt hlt⟩
      · rintro ⟨rfl | hx, hlt⟩
        · omega
        · exact ⟨hx, (hmem hx).symm.trans_lt hlt⟩

theorem newer_newest (h : SortedBy f l) : newer f (newest n l) x = min n (newer f l x) := by
  induction l with
  | nil => simp [newest, newer]
  | cons a l ih =>
    obtain ⟨hhead, htail⟩ := h.of_cons
    rcases Nat.lt_or_ge l.length n with hlt | hge
    · have hle := newer_le_length f (a :: l) x
      rw [List.length_cons] at hle
      rw [newest_of_length_le (l := a :: l) hlt, Nat.min_eq_right (by omega)]
    · rw [newest_cons_of_le a hge, ih htail]
      by_cases ha : f x < f a
      · have hall : newer f l x = l.length := List.countP_eq_length.mpr fun b hb => by
          simpa using ha.trans (hhead b hb)
        have hcons : newer f (a :: l) x = newer f l x + 1 := List.countP_cons_of_pos (by simpa using ha)
        omega
      · have hcons : newer f (a :: l) x = newer f l x := List.countP_cons_of_neg (by simpa using ha)
        rw [hcons]

theorem SortedBy.nodup (h : SortedBy f l) : l.Nodup := by
  refine List.Pairwise.imp (fun {a b} hab => ?_) (List.pairwise_map.mp h)
  rintro rfl
  exact Nat.lt_irrefl _ hab

theorem SortedBy.ext (hc : SortedBy f c) (ht : SortedBy f t) (h : ∀ x, x ∈ c ↔ x ∈ t) : c = t := by
  let r : α → α → Prop := fun a b => f a < f b
  have : Std.Antisymm r := ⟨fun a b hab hba => absurd hba hab.asymm⟩
  have : Std.Irrefl r := ⟨fun a => Nat.lt_irrefl (f a)⟩
  exact List.Pairwise.eq_of_mem_iff (r := r) (List.pairwise_map.mp hc) (List.pairwise_map.mp ht) h

theorem SortedBy.entries {β : Type} {entries : List (Nat × β)} {elements : List β} {p : β → Bool}
    {first : Nat} (h : SortedBy Prod.fst entries)
    (hmem : ∀ i b, (i, b) ∈ entries ↔ first ≤ i ∧ elements[i - first]? = some b ∧ p b = true) :
    entries.map Prod.snd = elements.filter p := by
  let placed := (elements.zipIdx first).filter fun e => p e.1
  have hplaced : entries = placed.map Prod.swap := by
    refine h.ext ?_ fun (i, b) => ?_
    · have hplaces : ((elements.zipIdx first).map Prod.snd).Pairwise (· < ·) := by
        rw [List.zipIdx_map_snd]
        exact List.pairwise_lt_range'
      unfold SortedBy
      rw [List.map_map]
      exact hplaces.sublist (List.filter_sublist.map Prod.snd)
    · rw [hmem, ← Prod.swap_prod_mk, List.mem_map_of_injective Prod.swap_injective, List.mem_filter,
        List.mk_mem_zipIdx_iff_le_and_getElem?_sub, and_assoc]
  have hfst : (Prod.snd ∘ Prod.swap : β × Nat → β) = Prod.fst := rfl
  have hfilter : placed.map Prod.fst = ((elements.zipIdx first).map Prod.fst).filter p :=
    List.filter_map.symm
  rw [hplaced, List.map_map, hfst, hfilter, List.zipIdx_map_fst]

theorem SortedBy.forall_mem_newest_iff (h : SortedBy f l) :
    (∀ x ∈ l, x ∈ IndexedLog.newest n l) ↔ l.length ≤ n := by
  constructor
  · intro hall
    have hle := (List.subperm_of_subset h.nodup hall).length_le
    rw [newest_length] at hle
    omega
  · intro hle x hx
    rw [newest_of_length_le hle]
    exact hx

theorem SortedBy.head?_newest_iff (h : SortedBy f l) (hl : l ≠ []) (hn : 0 < n) :
    (IndexedLog.newest n l).head?.map f = l.head?.map f ↔ l.length ≤ n := by
  have hpos := List.length_pos_iff.mpr hl
  rw [IndexedLog.newest, List.head?_drop, List.head?_eq_getElem?]
  constructor
  · intro heq
    by_contra hgt
    have hfirst := List.getElem?_eq_getElem hpos
    have hoff := List.getElem?_eq_getElem (show l.length - n < l.length by omega)
    have hlt := h.lt hfirst hoff (by omega)
    rw [hfirst, hoff, Option.map_some, Option.map_some] at heq
    exact hlt.ne (Option.some.inj heq).symm
  · intro hle
    rw [Nat.sub_eq_zero_of_le hle]

/-! ## Chunks from the back -/

/-- The last `n` elements, then the `n` in front of them, and so on. -/
def rchunks (n : Nat) (l : List α) : List (List α) :=
  (List.range ((l.length + n - 1) / n)).map fun i =>
    (l.take (l.length - i * n)).drop (l.length - (i + 1) * n)

theorem rchunks_nil (hn : 0 < n) : rchunks n ([] : List α) = [] := by
  have hzero : (0 + n - 1) / n = 0 := Nat.div_eq_of_lt (by omega)
  rw [rchunks, List.length_nil, hzero]
  rfl

theorem rchunks_length (hn : 0 < n) (hl : l ≠ []) :
    (rchunks n l).length = (l.length - 1) / n + 1 := by
  have hpos := List.length_pos_iff.mpr hl
  have hsum : l.length + n - 1 = l.length - 1 + n := by omega
  rw [rchunks, List.length_map, List.length_range, hsum, Nat.add_div_right _ hn]

theorem rchunks_eq (hn : 0 < n) (hl : l ≠ []) :
    ∃ chunks, rchunks n l = newest n l :: chunks ∧ (chunks = [] ↔ l.length ≤ n) := by
  have hpos := List.length_pos_iff.mpr hl
  have hlen := rchunks_length hn hl
  have hhead : (rchunks n l).head? = some (newest n l) := by
    have hcount : 0 < (l.length + n - 1) / n := by
      rw [rchunks, List.length_map, List.length_range] at hlen
      rw [hlen]
      exact Nat.succ_pos _
    rw [rchunks, List.head?_map, List.head?_range, if_neg hcount.ne']
    simp [newest]
  obtain ⟨chunks, hchunks⟩ : ∃ chunks, rchunks n l = newest n l :: chunks :=
    List.head?_eq_some_iff.mp hhead
  refine ⟨chunks, hchunks, ?_⟩
  rw [hchunks, List.length_cons] at hlen
  have hdiv : (l.length - 1) / n = 0 ↔ l.length ≤ n := by
    rw [Nat.div_eq_zero_iff]
    omega
  rw [← hdiv, ← List.length_eq_zero_iff]
  omega

/-! ## The newest of two lists -/

theorem merged_perm (f : α → Nat) (l : List α) : (merged f l).Perm l := List.mergeSort_perm _ _

theorem merged_sorted (h : (l.map f).Nodup) : SortedBy f (merged f l) := by
  have hle : (merged f l).Pairwise fun a b => f a ≤ f b := by
    refine (List.pairwise_mergeSort ?_ ?_ l).imp fun hab => of_decide_eq_true hab
    · intro a b c hab hbc
      exact decide_eq_true ((of_decide_eq_true hab).trans (of_decide_eq_true hbc))
    · intro a b
      rw [Bool.or_eq_true, decide_eq_true_eq, decide_eq_true_eq]
      exact Nat.le_total _ _
  have hne : (merged f l).Pairwise fun a b => f a ≠ f b :=
    List.pairwise_map.mp (((merged_perm f l).map f).nodup_iff.mpr h)
  exact List.pairwise_map.mpr (hle.imp₂ (fun _ _ hab hne => lt_of_le_of_ne hab hne) hne)

theorem mem_merged : x ∈ merged f l ↔ x ∈ l := (merged_perm f l).mem_iff

theorem newer_merged : newer f (merged f (c ++ t)) x = newer f c x + newer f t x := by
  rw [newer_perm f (merged_perm f (c ++ t)), newer_append]

/-- Two lists with no key in common. -/
structure Apart (f : α → Nat) (c t : List α) : Prop where
  left : SortedBy f c
  right : SortedBy f t
  disjoint : ∀ a ∈ c, ∀ b ∈ t, f a ≠ f b

namespace Apart

theorem symm (h : Apart f c t) : Apart f t c :=
  ⟨h.right, h.left, fun a ha b hb => (h.disjoint b hb a ha).symm⟩

theorem newest (h : Apart f c t) (n : Nat) : Apart f (newest n c) (newest n t) :=
  ⟨h.left.newest n, h.right.newest n,
    fun a ha b hb => h.disjoint a (List.mem_of_mem_drop ha) b (List.mem_of_mem_drop hb)⟩

theorem merged_sorted (h : Apart f c t) : SortedBy f (merged f (c ++ t)) := by
  apply Lib.merged_sorted
  rw [List.map_append, List.nodup_append]
  refine ⟨h.left.imp ne_of_lt, h.right.imp ne_of_lt, ?_⟩
  intro i hi j hj
  obtain ⟨a, ha, rfl⟩ := List.mem_map.mp hi
  obtain ⟨b, hb, rfl⟩ := List.mem_map.mp hj
  exact h.disjoint a ha b hb

theorem mem_cut (h : Apart f c t) :
    x ∈ IndexedLog.newest m (merged f (IndexedLog.newest n c ++ IndexedLog.newest n t)) ↔
      ((x ∈ c ∧ newer f c x < n) ∨ (x ∈ t ∧ newer f t x < n)) ∧
        min n (newer f c x) + min n (newer f t x) < m := by
  rw [mem_newest (h.newest n).merged_sorted, mem_merged, newer_merged, newer_newest h.left,
    newer_newest h.right, List.mem_append, mem_newest h.left, mem_newest h.right]

theorem mem_whole (h : Apart f c t) : x ∈ IndexedLog.newest m (merged f (c ++ t)) ↔
    (x ∈ c ∨ x ∈ t) ∧ newer f c x + newer f t x < m := by
  rw [mem_newest h.merged_sorted, mem_merged, newer_merged, List.mem_append]

/-- As long as no more than `n` are taken, nothing is lost by the cut. -/
theorem newest_cut (h : Apart f c t) (hm : m ≤ n) :
    IndexedLog.newest m (merged f (IndexedLog.newest n c ++ IndexedLog.newest n t)) =
      IndexedLog.newest m (merged f (c ++ t)) := by
  apply SortedBy.ext ((h.newest n).merged_sorted.newest m) (h.merged_sorted.newest m)
  intro x
  rw [h.mem_cut, h.mem_whole]
  constructor
  · rintro ⟨hx, hlt⟩
    exact ⟨hx.imp And.left And.left, by omega⟩
  · rintro ⟨hx, hlt⟩
    exact ⟨hx.imp (fun hx => ⟨hx, by omega⟩) fun hx => ⟨hx, by omega⟩, by omega⟩

end Apart

/-! ## One more than the cut -/

/-- More than `n` elements of one list are newer than all of the other one. -/
def Overtakes (f : α → Nat) (n : Nat) (c t : List α) : Prop :=
  ∃ y ∈ t, newer f t y = 0 ∧ n < newer f c y

theorem not_overtakes_of_length_le (h : c.length ≤ n) : ¬ Overtakes f n c t := by
  rintro ⟨y, -, -, hlt⟩
  have hle := newer_le_length f c y
  omega

theorem exists_newest (h : SortedBy f l) (hne : l ≠ []) : ∃ y ∈ l, newer f l y = 0 := by
  have hpos := List.length_pos_iff.mpr hne
  have hlen := newest_length 1 l
  obtain ⟨y, hy⟩ := List.exists_mem_of_length_pos (l := newest 1 l) (by omega)
  obtain ⟨hmem, hlt⟩ := (mem_newest h).mp hy
  exact ⟨y, hmem, by omega⟩

theorem newer_lt_newer (hx : x ∈ l) (h : f y < f x) : newer f l x < newer f l y := by
  induction l with
  | nil => cases hx
  | cons a l ih =>
    have hmono : newer f l x ≤ newer f l y := by
      apply List.countP_mono_left
      intro b _ hb
      simp only [decide_eq_true_eq] at hb ⊢
      exact h.trans hb
    unfold newer at *
    rw [List.countP_cons, List.countP_cons]
    simp only [decide_eq_true_eq]
    rcases List.mem_cons.mp hx with rfl | hx
    · simp only [Nat.lt_irrefl, h, if_true, if_false]
      omega
    · have hlt := ih hx
      split_ifs with hax hay hay
      · omega
      · omega
      · omega
      · omega

namespace Apart

theorem merged_comm (h : Apart f c t) : merged f (c ++ t) = merged f (t ++ c) := by
  apply SortedBy.ext h.merged_sorted h.symm.merged_sorted
  intro x
  rw [mem_merged, mem_merged, List.mem_append, List.mem_append, or_comm]

theorem newer_of_not_overtakes (h : Apart f c t) (ht : t ≠ []) (hover : ¬ Overtakes f n c t)
    (hx : x ∈ c) (hle : newer f c x + newer f t x ≤ n) : newer f c x < n := by
  by_contra hge
  obtain ⟨y, hy, hzero⟩ := exists_newest h.right ht
  refine hover ⟨y, hy, hzero, ?_⟩
  have hnone : newer f t x = 0 := by omega
  have hnot : ¬ f x < f y := by
    simpa using List.countP_eq_zero.mp hnone y hy
  have hlt : f y < f x := lt_of_le_of_ne (Nat.le_of_not_lt hnot) (h.disjoint x hx y hy).symm
  exact (Nat.le_of_not_lt hge).trans_lt (newer_lt_newer hx hlt)

theorem newest_cut_of_nil (h : Apart f c t) (hnil : c = [] ∨ t = []) :
    IndexedLog.newest (n + 1) (merged f (IndexedLog.newest n c ++ IndexedLog.newest n t)) =
      IndexedLog.newest n (merged f (c ++ t)) := by
  have hlen : (merged f (IndexedLog.newest n c ++ IndexedLog.newest n t)).length ≤ n := by
    rw [(merged_perm f _).length_eq, List.length_append, newest_length, newest_length]
    rcases hnil with rfl | rfl
    · simp
    · simp
  rw [← h.newest_cut le_rfl, newest_of_length_le hlen, newest_of_length_le (hlen.trans n.le_succ)]

theorem newest_cut_succ (h : Apart f c t) (hc : c ≠ []) (ht : t ≠ []) (hct : ¬ Overtakes f n c t)
    (htc : ¬ Overtakes f n t c) :
    IndexedLog.newest (n + 1) (merged f (IndexedLog.newest n c ++ IndexedLog.newest n t)) =
      IndexedLog.newest (n + 1) (merged f (c ++ t)) := by
  apply SortedBy.ext ((h.newest n).merged_sorted.newest _) (h.merged_sorted.newest _)
  intro x
  rw [h.mem_cut, h.mem_whole]
  constructor
  · rintro ⟨⟨hx, hcut⟩ | ⟨hx, hcut⟩, hlt⟩
    · have hle : newer f t x ≤ n := by
        by_contra hgt
        exact htc ⟨x, hx, by omega, by omega⟩
      exact ⟨Or.inl hx, by omega⟩
    · have hle : newer f c x ≤ n := by
        by_contra hgt
        exact hct ⟨x, hx, by omega, by omega⟩
      exact ⟨Or.inr hx, by omega⟩
  · rintro ⟨hx, hlt⟩
    refine ⟨?_, by omega⟩
    rcases hx with hx | hx
    · exact Or.inl ⟨hx, h.newer_of_not_overtakes ht hct hx (by omega)⟩
    · exact Or.inr ⟨hx, h.symm.newer_of_not_overtakes hc htc hx (by omega)⟩

theorem not_newest_of_overtakes (h : Apart f c t) (hn : 0 < n) (hover : Overtakes f n c t) (k : Nat) :
    IndexedLog.newest (n + 1) (merged f (IndexedLog.newest n c ++ IndexedLog.newest n t)) ≠
      IndexedLog.newest k (merged f (c ++ t)) := by
  intro heq
  obtain ⟨y, hy, hzero, hlt⟩ := hover
  have hmem := h.mem_cut.mpr ⟨Or.inr ⟨hy, hzero.trans_lt hn⟩, show _ < n + 1 by omega⟩
  rw [heq, h.mem_whole] at hmem
  have hlen := congrArg List.length heq
  have hall := newer_le_length f c y
  have hpos := List.length_pos_of_mem hy
  rw [newest_length, newest_length, (merged_perm f (c ++ t)).length_eq, List.length_append] at hlen
  omega

/-- Taking one more than the cut takes the newest, unless one list overtakes the other. -/
theorem cut_is_newest_iff (h : Apart f c t) (hn : 0 < n) :
    (∃ k, IndexedLog.newest (n + 1)
        (merged f (IndexedLog.newest n c ++ IndexedLog.newest n t)) =
      IndexedLog.newest k (merged f (c ++ t))) ↔ ¬ Overtakes f n c t ∧ ¬ Overtakes f n t c := by
  constructor
  · rintro ⟨k, hk⟩
    constructor
    · intro hover
      exact h.not_newest_of_overtakes hn hover k hk
    · intro hover
      rw [(h.newest n).merged_comm, h.merged_comm] at hk
      exact h.symm.not_newest_of_overtakes hn hover k hk
  · rintro ⟨hct, htc⟩
    by_cases hc : c = []
    · exact ⟨n, h.newest_cut_of_nil (Or.inl hc)⟩
    by_cases ht : t = []
    · exact ⟨n, h.newest_cut_of_nil (Or.inr ht)⟩
    exact ⟨n + 1, h.newest_cut_succ hc ht hct htc⟩

end Apart

end Lib
