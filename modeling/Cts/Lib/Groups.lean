import Cts.Lib.Newest

/-!
# Sums by key

A list of keys with amounts, where a run of one key is added up. In a list with its keys in order
every key is left once, with all that the list has under it.
-/

namespace Lib.Groups

variable {l l' : List (Nat × Nat)} {k k' v v' : Nat} {e : Nat × Nat}

/-- What a list has under a key. -/
def total (k : Nat) (l : List (Nat × Nat)) : Nat := ((l.filter fun e => e.1 = k).map Prod.snd).sum

def pushFront (e : Nat × Nat) : List (Nat × Nat) → List (Nat × Nat)
  | [] => [e]
  | first :: g => if e.1 = first.1 then (e.1, e.2 + first.2) :: g else e :: first :: g

def group (l : List (Nat × Nat)) : List (Nat × Nat) := l.foldr pushFront []

theorem total_cons (k : Nat) (e : Nat × Nat) (l : List (Nat × Nat)) :
    total k (e :: l) = (if e.1 = k then e.2 else 0) + total k l := by
  unfold total
  by_cases h : e.1 = k
  · simp [h]
  · simp [h]

theorem total_eq_zero (h : ∀ e ∈ l, e.1 ≠ k) : total k l = 0 := by
  have hnil : l.filter (fun e => e.1 = k) = [] := List.filter_eq_nil_iff.mpr (by simpa using h)
  rw [total, hnil]
  rfl

theorem total_perm (h : l.Perm l') (k : Nat) : total k l = total k l' :=
  ((h.filter _).map _).sum_nat

theorem total_filter {p : Nat → Bool} (h : p k = true) (l : List (Nat × Nat)) :
    total k (l.filter fun e => p e.1) = total k l := by
  unfold total
  rw [List.filter_filter]
  congr 2
  apply List.filter_congr
  intro e _
  by_cases he : e.1 = k
  · simp [he, h]
  · simp [he]

/-! ## Runs of one key -/

theorem group_cons (e : Nat × Nat) (l : List (Nat × Nat)) :
    group (e :: l) = pushFront e (group l) := rfl

theorem pushFront_eq (e : Nat × Nat) (g : List (Nat × Nat)) :
    ∃ v g', pushFront e g = (e.1, v) :: g' ∧ e.2 ≤ v := by
  cases g with
  | nil => exact ⟨e.2, [], rfl, le_rfl⟩
  | cons first g =>
    rw [pushFront]
    split_ifs
    · exact ⟨_, _, rfl, Nat.le_add_right _ _⟩
    · exact ⟨_, _, rfl, le_rfl⟩

theorem group_same (k v v' : Nat) (l : List (Nat × Nat)) :
    group ((k, v) :: (k, v') :: l) = group ((k, v + v') :: l) := by
  rw [group_cons, group_cons, group_cons]
  cases group l with
  | nil => simp [pushFront]
  | cons first g =>
    by_cases h : k = first.1
    · simp [pushFront, h, Nat.add_assoc]
    · simp [pushFront, h]

theorem group_other (h : k ≠ k') (v v' : Nat) (l : List (Nat × Nat)) :
    group ((k, v) :: (k', v') :: l) = (k, v) :: group ((k', v') :: l) := by
  obtain ⟨w, g, heq, -⟩ := pushFront_eq (k', v') (group l)
  rw [group_cons, group_cons, heq, pushFront, if_neg h]

/-! ## Keys in order -/

def KeysOrdered (l : List (Nat × Nat)) : Prop := l.Pairwise fun a b => a.1 ≤ b.1

/-- What a group is to be. -/
structure GroupOf (l g : List (Nat × Nat)) : Prop where
  sorted : SortedBy Prod.fst g
  mem : ∀ k v, (k, v) ∈ g ↔ (∃ e ∈ l, e.1 = k) ∧ v = total k l

theorem GroupOf.unique {g g' : List (Nat × Nat)} (h : GroupOf l g) (h' : GroupOf l g') : g = g' := by
  apply h.sorted.ext h'.sorted
  rintro ⟨k, v⟩
  rw [h.mem, h'.mem]

theorem group_of_first {first : Nat × Nat} {g : List (Nat × Nat)}
    (hg : GroupOf l (first :: g)) (heq : e.1 = first.1) :
    GroupOf (e :: l) ((e.1, e.2 + first.2) :: g) := by
  obtain ⟨hrest, hsorted⟩ := hg.sorted.of_cons
  obtain ⟨⟨a, ha, hak⟩, hfirst⟩ := (hg.mem first.1 first.2).mp List.mem_cons_self
  constructor
  · apply List.pairwise_cons.mpr ⟨?_, hsorted⟩
    intro j hj
    obtain ⟨b, hb, rfl⟩ := List.mem_map.mp hj
    exact heq ▸ hrest b hb
  · intro k v
    rw [total_cons]
    by_cases hk : e.1 = k
    · subst hk
      have hnot : (e.1, v) ∉ g := by
        intro hmem
        have hlt := hrest _ hmem
        omega
      rw [if_pos rfl, heq, ← hfirst]
      constructor
      · intro hmem
        rcases List.mem_cons.mp hmem with hv | hmem
        · exact ⟨⟨e, List.mem_cons_self, heq⟩, (Prod.mk.inj hv).2⟩
        · exact absurd (heq ▸ hmem) hnot
      · rintro ⟨-, rfl⟩
        exact List.mem_cons_self
    · have hne : k ≠ first.1 := fun hkf => hk (heq.trans hkf.symm)
      have hmem := hg.mem k v
      rw [List.mem_cons] at hmem ⊢
      rw [if_neg hk, Nat.zero_add]
      simp only [Prod.ext_iff, hne, false_and, false_or, List.mem_cons] at hmem ⊢
      simpa [Ne.symm hk] using hmem

theorem group_of_cons {g : List (Nat × Nat)} (hg : GroupOf l g)
    (hlt : ∀ b ∈ g, e.1 < b.1) : GroupOf (e :: l) (e :: g) := by
  have hnone : ∀ b ∈ l, b.1 ≠ e.1 := by
    intro b hb heq
    have hmem := (hg.mem b.1 (total b.1 l)).mpr ⟨⟨b, hb, rfl⟩, rfl⟩
    have := hlt _ hmem
    omega
  constructor
  · apply List.pairwise_cons.mpr ⟨?_, hg.sorted⟩
    intro j hj
    obtain ⟨b, hb, rfl⟩ := List.mem_map.mp hj
    exact hlt b hb
  · intro k v
    rw [total_cons, List.mem_cons, hg.mem]
    by_cases hk : e.1 = k
    · subst hk
      rw [if_pos rfl, total_eq_zero hnone]
      constructor
      · rintro (heq | ⟨⟨b, hb, heq⟩, -⟩)
        · exact ⟨⟨e, List.mem_cons_self, rfl⟩, congrArg Prod.snd heq⟩
        · exact absurd heq (hnone b hb)
      · rintro ⟨-, rfl⟩
        exact Or.inl rfl
    · rw [if_neg hk, Nat.zero_add]
      constructor
      · rintro (heq | ⟨⟨b, hb, heq⟩, hv⟩)
        · exact absurd (congrArg Prod.fst heq).symm hk
        · exact ⟨⟨b, List.mem_cons_of_mem _ hb, heq⟩, hv⟩
      · rintro ⟨⟨b, hb, heq⟩, hv⟩
        rcases List.mem_cons.mp hb with rfl | hb
        · exact absurd heq hk
        · exact Or.inr ⟨⟨b, hb, heq⟩, hv⟩

theorem group_of (h : KeysOrdered l) : GroupOf l (group l) := by
  induction l with
  | nil =>
    constructor
    · exact List.Pairwise.nil
    · simp [group]
  | cons e l ih =>
    obtain ⟨hle, hl⟩ := List.pairwise_cons.mp h
    have hg := ih hl
    rw [group_cons]
    cases hgroup : group l with
    | nil =>
      rw [hgroup] at hg
      exact group_of_cons hg (by simp)
    | cons first g =>
      rw [hgroup] at hg
      rw [pushFront]
      split_ifs with heq
      · exact group_of_first hg heq
      · apply group_of_cons hg
        obtain ⟨⟨a, ha, hak⟩, -⟩ := (hg.mem first.1 first.2).mp List.mem_cons_self
        have hfirst : e.1 < first.1 := by
          have := hle a ha
          omega
        intro b hb
        rcases List.mem_cons.mp hb with rfl | hb
        · exact hfirst
        · exact hfirst.trans (hg.sorted.of_cons.1 b hb)

theorem group_getLast? (l : List (Nat × Nat)) :
    (group l).getLast?.map Prod.fst = l.getLast?.map Prod.fst := by
  induction l with
  | nil => rfl
  | cons e l ih =>
    cases l with
    | nil => rfl
    | cons e' l =>
      obtain ⟨v, g, heq, -⟩ := pushFront_eq e' (group l)
      rw [List.getLast?_cons_cons, ← ih, group_cons, group_cons, heq, pushFront]
      split_ifs with hkey
      · cases g with
        | nil => exact congrArg some hkey
        | cons _ _ => rfl
      · rfl

theorem group_filter (h : KeysOrdered l) (p : Nat → Bool) :
    group (l.filter fun e => p e.1) = (group l).filter fun e => p e.1 := by
  have hg := group_of h
  apply (group_of (h.sublist List.filter_sublist)).unique
  constructor
  · exact List.Pairwise.sublist (List.filter_sublist.map _) hg.sorted
  · intro k v
    rw [List.mem_filter, hg.mem]
    constructor
    · rintro ⟨⟨⟨e, he, rfl⟩, rfl⟩, hp⟩
      exact ⟨⟨e, List.mem_filter.mpr ⟨he, hp⟩, rfl⟩, (total_filter hp l).symm⟩
    · rintro ⟨⟨e, he, rfl⟩, rfl⟩
      obtain ⟨he, hp⟩ := List.mem_filter.mp he
      exact ⟨⟨⟨e, he, rfl⟩, total_filter hp l⟩, hp⟩

end Lib.Groups
