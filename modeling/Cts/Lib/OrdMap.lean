import Mathlib.Order.Defs.LinearOrder
import Mathlib.Data.List.Perm.Basic
import Mathlib.Algebra.BigOperators.Group.List.Basic
import Mathlib.Data.Multiset.ZeroCons
import Mathlib.Tactic.Linarith

/-!
# Ordered maps

A map kept as its entries in key order, the order in which a B-tree map iterates. `insert`
replaces in place, `remove` keeps the order. Sums over the values move with each operation.
-/

namespace Lib

variable {κ ν : Type} [LinearOrder κ]

/-- Strictly increasing keys, so a key is there at most once. -/
def SortedKeys (l : List (κ × ν)) : Prop := l.Pairwise (fun a b => a.1 < b.1)

structure OrdMap (κ ν : Type) [LinearOrder κ] where
  entries : List (κ × ν)
  sorted : SortedKeys entries

namespace OrdMap

/-! ## Operations on entry lists -/

def insertEntry (k : κ) (v : ν) : List (κ × ν) → List (κ × ν)
  | [] => [(k, v)]
  | (k', v') :: rest =>
    if k < k' then (k, v) :: (k', v') :: rest
    else if k = k' then (k, v) :: rest
    else (k', v') :: insertEntry k v rest

def lookup (k : κ) : List (κ × ν) → Option ν
  | [] => none
  | (k', v') :: rest => if k' = k then some v' else lookup k rest

theorem mem_insertEntry (k : κ) (v : ν) (l : List (κ × ν)) (e : κ × ν) (h : e ∈ insertEntry k v l) :
    e = (k, v) ∨ e ∈ l := by
  induction l with
  | nil => simpa [insertEntry] using h
  | cons hd tl ih =>
    obtain ⟨k', v'⟩ := hd
    rw [insertEntry] at h
    split_ifs at h
    · simpa using h
    · rcases List.mem_cons.mp h with h | h
      · exact Or.inl h
      · exact Or.inr (List.mem_cons_of_mem _ h)
    · rcases List.mem_cons.mp h with h | h
      · exact Or.inr (by simp [h])
      · exact (ih h).imp_right (List.mem_cons_of_mem _)

theorem sorted_insertEntry (k : κ) (v : ν) (l : List (κ × ν)) (h : SortedKeys l) :
    SortedKeys (insertEntry k v l) := by
  induction l with
  | nil => exact List.pairwise_singleton _ _
  | cons hd tl ih =>
    obtain ⟨k', v'⟩ := hd
    obtain ⟨hhd, htl⟩ := List.pairwise_cons.mp h
    rw [insertEntry]
    split_ifs with h1 h2
    · refine List.pairwise_cons.mpr ⟨fun e he => ?_, h⟩
      rcases List.mem_cons.mp he with rfl | he
      · exact h1
      · exact h1.trans (hhd e he)
    · subst h2
      exact List.pairwise_cons.mpr ⟨hhd, htl⟩
    · refine List.pairwise_cons.mpr ⟨fun e he => ?_, ih htl⟩
      rcases mem_insertEntry k v tl e he with rfl | he
      · exact lt_of_le_of_ne (not_lt.mp h1) (Ne.symm h2)
      · exact hhd e he

theorem lookup_eq_none (k : κ) (l : List (κ × ν)) : lookup k l = none ↔ ∀ e ∈ l, e.1 ≠ k := by
  induction l with
  | nil => simp [lookup]
  | cons hd tl ih => rw [lookup]; split_ifs with h <;> simp [h, ih]

theorem lookup_mem (k : κ) (v : ν) (l : List (κ × ν)) (h : lookup k l = some v) : (k, v) ∈ l := by
  induction l with
  | nil => simp [lookup] at h
  | cons hd tl ih =>
    obtain ⟨k', v'⟩ := hd
    rw [lookup] at h
    split_ifs at h with hk
    · simp_all
    · exact List.mem_cons_of_mem _ (ih h)

theorem lookup_of_mem (k : κ) (v : ν) (l : List (κ × ν)) (hs : SortedKeys l) (h : (k, v) ∈ l) :
    lookup k l = some v := by
  induction l with
  | nil => simp at h
  | cons hd tl ih =>
    obtain ⟨hhd, htl⟩ := List.pairwise_cons.mp hs
    rw [lookup]
    rcases List.mem_cons.mp h with rfl | h
    · simp
    · rw [if_neg (ne_of_lt (hhd _ h)), ih htl h]

/-! ## The map -/

def empty : OrdMap κ ν := ⟨[], List.Pairwise.nil⟩

instance : Inhabited (OrdMap κ ν) := ⟨empty⟩

def get (m : OrdMap κ ν) (k : κ) : Option ν := lookup k m.entries

def insert (m : OrdMap κ ν) (k : κ) (v : ν) : OrdMap κ ν :=
  ⟨insertEntry k v m.entries, sorted_insertEntry k v m.entries m.sorted⟩

def remove (m : OrdMap κ ν) (k : κ) : OrdMap κ ν :=
  ⟨m.entries.filter (fun e => e.1 ≠ k), m.sorted.filter _⟩

def keys (m : OrdMap κ ν) : List κ := m.entries.map Prod.fst

def values (m : OrdMap κ ν) : List ν := m.entries.map Prod.snd

def len (m : OrdMap κ ν) : Nat := m.entries.length

/-- The sum of `f` over the values. -/
def sum (m : OrdMap κ ν) (f : ν → Nat) : Nat := (m.entries.map (fun e => f e.2)).sum

theorem mem_iff_get (m : OrdMap κ ν) (k : κ) (v : ν) : (k, v) ∈ m.entries ↔ m.get k = some v :=
  ⟨lookup_of_mem k v _ m.sorted, lookup_mem k v _⟩

theorem get_eq_none_iff (m : OrdMap κ ν) (k : κ) : m.get k = none ↔ k ∉ m.keys := by
  rw [get, lookup_eq_none, keys]
  simp only [List.mem_map, not_exists, not_and, ne_eq]

theorem mem_keys_iff (m : OrdMap κ ν) (k : κ) : k ∈ m.keys ↔ ∃ v, m.get k = some v := by
  rw [← Option.ne_none_iff_exists', ne_eq, get_eq_none_iff, not_not]

theorem mem_keys_of_get {m : OrdMap κ ν} {k : κ} {v : ν} (h : m.get k = some v) : k ∈ m.keys :=
  (m.mem_keys_iff k).mpr ⟨v, h⟩

theorem nodup_keys (m : OrdMap κ ν) : m.keys.Nodup := by
  rw [keys, List.Nodup, List.pairwise_map]
  exact m.sorted.imp (fun h => ne_of_lt h)

@[simp]
theorem get_empty (k : κ) : (empty : OrdMap κ ν).get k = none := rfl

@[simp]
theorem keys_empty : (empty : OrdMap κ ν).keys = [] := rfl

@[simp]
theorem sum_empty (f : ν → Nat) : (empty : OrdMap κ ν).sum f = 0 := rfl

/-! ## Insert and remove, at one key -/

theorem insertEntry_split (k : κ) (v old : ν) (l : List (κ × ν)) (hs : SortedKeys l)
    (h : lookup k l = some old) :
    ∃ l₁ l₂, l = l₁ ++ (k, old) :: l₂ ∧ insertEntry k v l = l₁ ++ (k, v) :: l₂ ∧
      l.filter (fun e => e.1 ≠ k) = l₁ ++ l₂ := by
  induction l with
  | nil => simp [lookup] at h
  | cons hd tl ih =>
    obtain ⟨k', v'⟩ := hd
    obtain ⟨hhd, htl⟩ := List.pairwise_cons.mp hs
    rw [lookup] at h
    split_ifs at h with hk
    · subst hk
      cases h
      refine ⟨[], tl, rfl, by simp [insertEntry], ?_⟩
      have hall : ∀ e ∈ tl, (fun e : κ × ν => decide (e.1 ≠ k')) e = true := by
        intro e he
        simpa using (ne_of_lt (hhd e he)).symm
      simp only [ne_eq, not_true_eq_false, decide_false, Bool.false_eq_true, not_false_eq_true,
        List.filter_cons_of_neg, List.nil_append]
      exact List.filter_eq_self.mpr hall
    · obtain ⟨l₁, l₂, e₁, e₂, e₃⟩ := ih htl h
      have hmem : (k, old) ∈ tl := by rw [e₁]; simp
      have hlt : k' < k := hhd _ hmem
      refine ⟨(k', v') :: l₁, l₂, by rw [e₁]; rfl, ?_, ?_⟩
      · rw [insertEntry, if_neg (not_lt.mpr hlt.le), if_neg (ne_of_gt hlt), e₂]; rfl
      · rw [List.filter_cons_of_pos (by simpa using ne_of_lt hlt), e₃]; rfl

theorem split_of_get (m : OrdMap κ ν) (k : κ) (old v : ν) (h : m.get k = some old) :
    ∃ l₁ l₂, m.entries = l₁ ++ (k, old) :: l₂ ∧ (m.insert k v).entries = l₁ ++ (k, v) :: l₂ ∧
      (m.remove k).entries = l₁ ++ l₂ :=
  insertEntry_split k v old m.entries m.sorted h

theorem insertEntry_perm (k : κ) (v : ν) (l : List (κ × ν)) (h : lookup k l = none) :
    (insertEntry k v l).Perm ((k, v) :: l) := by
  induction l with
  | nil => exact List.Perm.refl _
  | cons hd tl ih =>
    obtain ⟨k', v'⟩ := hd
    rw [lookup] at h
    split_ifs at h with hk
    rw [insertEntry]
    split_ifs with h1 h2
    · exact List.Perm.refl _
    · exact absurd h2.symm hk
    · exact ((ih h).cons _).trans (List.Perm.swap _ _ _)

theorem insert_perm (m : OrdMap κ ν) (k : κ) (v : ν) (h : m.get k = none) :
    (m.insert k v).entries.Perm ((k, v) :: m.entries) := insertEntry_perm k v _ h

theorem mem_insert_entries (m : OrdMap κ ν) (k : κ) (v : ν) (e : κ × ν) :
    e ∈ (m.insert k v).entries ↔ e = (k, v) ∨ (e ∈ m.entries ∧ e.1 ≠ k) := by
  cases hg : m.get k with
  | none =>
    rw [(insert_perm m k v hg).mem_iff, List.mem_cons]
    constructor
    · rintro (h | h)
      · exact Or.inl h
      · exact Or.inr ⟨h, (lookup_eq_none k _).mp hg e h⟩
    · exact Or.imp_right And.left
  | some old =>
    obtain ⟨l₁, l₂, e₁, e₂, e₃⟩ := split_of_get m k old v hg
    have hne : ∀ x ∈ l₁ ++ l₂, x.1 ≠ k := by
      intro x hx
      rw [← e₃] at hx
      simpa using (List.mem_filter.mp hx).2
    rw [e₁, e₂]
    simp only [List.mem_append, List.mem_cons] at hne ⊢
    constructor
    · rintro (h | h | h)
      · exact Or.inr ⟨Or.inl h, hne e (Or.inl h)⟩
      · exact Or.inl h
      · exact Or.inr ⟨Or.inr (Or.inr h), hne e (Or.inr h)⟩
    · rintro (h | ⟨h | h | h, hk⟩)
      · exact Or.inr (Or.inl h)
      · exact Or.inl h
      · exact absurd (by rw [h]) hk
      · exact Or.inr (Or.inr h)

@[simp]
theorem get_insert_self (m : OrdMap κ ν) (k : κ) (v : ν) : (m.insert k v).get k = some v :=
  (mem_iff_get _ k v).mp ((mem_insert_entries m k v (k, v)).mpr (Or.inl rfl))

theorem get_insert_of_ne (m : OrdMap κ ν) {k k' : κ} (v : ν) (h : k' ≠ k) :
    (m.insert k v).get k' = m.get k' := by
  refine Option.ext fun w => ?_
  rw [← mem_iff_get, ← mem_iff_get, mem_insert_entries]
  constructor
  · rintro (he | ⟨he, _⟩)
    · exact absurd (Prod.mk.inj he).1 h
    · exact he
  · exact fun he => Or.inr ⟨he, h⟩

theorem get_insert (m : OrdMap κ ν) (k k' : κ) (v : ν) :
    (m.insert k v).get k' = if k' = k then some v else m.get k' := by
  split_ifs with h
  · rw [h, get_insert_self]
  · exact get_insert_of_ne m v h

theorem mem_remove_entries (m : OrdMap κ ν) (k : κ) (e : κ × ν) :
    e ∈ (m.remove k).entries ↔ e ∈ m.entries ∧ e.1 ≠ k := by
  simp [remove]

@[simp]
theorem get_remove_self (m : OrdMap κ ν) (k : κ) : (m.remove k).get k = none := by
  rw [get, lookup_eq_none]
  exact fun e he => ((mem_remove_entries m k e).mp he).2

theorem get_remove_of_ne (m : OrdMap κ ν) {k k' : κ} (h : k' ≠ k) : (m.remove k).get k' = m.get k' := by
  refine Option.ext fun w => ?_
  rw [← mem_iff_get, ← mem_iff_get, mem_remove_entries]
  exact ⟨And.left, fun he => ⟨he, h⟩⟩

theorem get_remove (m : OrdMap κ ν) (k k' : κ) :
    (m.remove k).get k' = if k' = k then none else m.get k' := by
  split_ifs with h
  · rw [h, get_remove_self]
  · exact get_remove_of_ne m h

theorem forall_insert {m : OrdMap κ ν} {Q : κ → ν → Prop} {k : κ} {v : ν}
    (h : ∀ k' v', m.get k' = some v' → Q k' v') (hv : Q k v) :
    ∀ k' v', (m.insert k v).get k' = some v' → Q k' v' := by
  intro k' v' hg
  rw [get_insert] at hg
  split_ifs at hg with hk
  · rw [hk, ← Option.some.inj hg]
    exact hv
  · exact h k' v' hg

theorem forall_remove {m : OrdMap κ ν} {Q : κ → ν → Prop} {k : κ}
    (h : ∀ k' v', m.get k' = some v' → Q k' v') :
    ∀ k' v', (m.remove k).get k' = some v' → Q k' v' := by
  intro k' v' hg
  rw [get_remove] at hg
  split_ifs at hg
  exact h k' v' hg

theorem remove_perm (m : OrdMap κ ν) (k : κ) (v : ν) (h : m.get k = some v) :
    m.entries.Perm ((k, v) :: (m.remove k).entries) := by
  obtain ⟨l₁, l₂, e₁, -, e₃⟩ := split_of_get m k v v h
  rw [e₁, e₃]
  exact List.perm_middle

/-! ## Keys -/

theorem keys_insert_perm (m : OrdMap κ ν) (k : κ) (v : ν) (h : m.get k = none) :
    (m.insert k v).keys.Perm (k :: m.keys) := (insert_perm m k v h).map _

theorem keys_insert_of_get (m : OrdMap κ ν) (k : κ) (v old : ν) (h : m.get k = some old) :
    (m.insert k v).keys = m.keys := by
  obtain ⟨l₁, l₂, e₁, e₂, -⟩ := split_of_get m k old v h
  simp [keys, e₁, e₂]

theorem keys_remove_perm (m : OrdMap κ ν) (k : κ) (v : ν) (h : m.get k = some v) :
    m.keys.Perm (k :: (m.remove k).keys) := (remove_perm m k v h).map _

theorem len_insert_of_get (m : OrdMap κ ν) (k : κ) (v old : ν) (h : m.get k = some old) :
    (m.insert k v).len = m.len := by
  simpa [keys, len] using congrArg List.length (keys_insert_of_get m k v old h)

theorem get_of_len_zero {m : OrdMap κ ν} (h : m.len = 0) (k : κ) : m.get k = none := by
  rw [get_eq_none_iff, keys, List.eq_nil_of_length_eq_zero h]
  exact List.not_mem_nil

theorem len_remove (m : OrdMap κ ν) (k : κ) (v : ν) (h : m.get k = some v) :
    (m.remove k).len + 1 = m.len := by
  have hkeys := (keys_remove_perm m k v h).length_eq
  simpa [keys, len] using hkeys.symm

/-! ## As multisets -/

theorem coe_keys_insert (m : OrdMap κ ν) (k : κ) (v : ν) (h : m.get k = none) :
    ((m.insert k v).keys : Multiset κ) = k ::ₘ ↑m.keys :=
  Multiset.coe_eq_coe.mpr (keys_insert_perm m k v h)

theorem coe_keys_remove (m : OrdMap κ ν) (k : κ) (v : ν) (h : m.get k = some v) :
    (m.keys : Multiset κ) = k ::ₘ ↑(m.remove k).keys :=
  Multiset.coe_eq_coe.mpr (keys_remove_perm m k v h)

/-! ## Values -/

theorem mem_values_iff (m : OrdMap κ ν) (v : ν) : v ∈ m.values ↔ ∃ k, m.get k = some v := by
  simp [values, mem_iff_get]

theorem forall_values_insert {m : OrdMap κ ν} {Q : ν → Prop} {k : κ} {v : ν}
    (h : ∀ x ∈ m.values, Q x) (hv : Q v) : ∀ x ∈ (m.insert k v).values, Q x := by
  intro x hx
  obtain ⟨k', hk'⟩ := ((m.insert k v).mem_values_iff x).mp hx
  have hall : ∀ k' x, m.get k' = some x → Q x := fun k' x hg => h x ((m.mem_values_iff x).mpr ⟨k', hg⟩)
  exact forall_insert hall hv k' x hk'

theorem forall_values_remove {m : OrdMap κ ν} {Q : ν → Prop} {k : κ}
    (h : ∀ x ∈ m.values, Q x) : ∀ x ∈ (m.remove k).values, Q x := by
  intro x hx
  obtain ⟨k', hk'⟩ := ((m.remove k).mem_values_iff x).mp hx
  have hall : ∀ k' x, m.get k' = some x → Q x := fun k' x hg => h x ((m.mem_values_iff x).mpr ⟨k', hg⟩)
  exact forall_remove hall k' x hk'

theorem coe_values_insert (m : OrdMap κ ν) (k : κ) (v : ν) (h : m.get k = none) :
    ((m.insert k v).values : Multiset ν) = v ::ₘ ↑m.values :=
  Multiset.coe_eq_coe.mpr ((insert_perm m k v h).map _)

theorem values_split (m : OrdMap κ ν) (k : κ) (v v' : ν) (h : m.get k = some v) :
    ∃ rest : Multiset ν, (m.values : Multiset ν) = v ::ₘ rest ∧
      ((m.insert k v').values : Multiset ν) = v' ::ₘ rest ∧
      ((m.remove k).values : Multiset ν) = rest := by
  obtain ⟨l₁, l₂, e₁, e₂, e₃⟩ := split_of_get m k v v' h
  refine ⟨((l₁ ++ l₂).map Prod.snd : List ν), ?_, ?_, ?_⟩
  · rw [values, e₁]
    exact Multiset.coe_eq_coe.mpr (List.perm_middle.map _)
  · rw [values, e₂]
    exact Multiset.coe_eq_coe.mpr (List.perm_middle.map _)
  · rw [values, e₃]

/-! ## Sums -/

theorem sum_insert_new (m : OrdMap κ ν) (f : ν → Nat) (k : κ) (v : ν) (h : m.get k = none) :
    (m.insert k v).sum f = f v + m.sum f := by
  have := ((insert_perm m k v h).map (fun e => f e.2)).sum_eq
  simpa [sum] using this

theorem sum_insert_old (m : OrdMap κ ν) (f : ν → Nat) (k : κ) (v old : ν) (h : m.get k = some old) :
    (m.insert k v).sum f + f old = m.sum f + f v := by
  obtain ⟨l₁, l₂, e₁, e₂, -⟩ := split_of_get m k old v h
  simp only [sum, e₁, e₂, List.map_append, List.map_cons, List.sum_append, List.sum_cons]
  omega

theorem sum_remove (m : OrdMap κ ν) (f : ν → Nat) (k : κ) (v : ν) (h : m.get k = some v) :
    m.sum f = f v + (m.remove k).sum f := by
  have := ((remove_perm m k v h).map (fun e => f e.2)).sum_eq
  simpa [sum] using this

theorem le_sum_of_get (m : OrdMap κ ν) (f : ν → Nat) (k : κ) (v : ν) (h : m.get k = some v) :
    f v ≤ m.sum f := by
  rw [sum_remove m f k v h]
  omega

theorem sum_insert_getD (m : OrdMap κ ν) (f : ν → Nat) (k : κ) (v d : ν) (hd : f d = 0) :
    (m.insert k v).sum f + f ((m.get k).getD d) = m.sum f + f v := by
  cases h : m.get k with
  | none => simp [sum_insert_new m f k v h, hd, Nat.add_comm]
  | some old => simpa using sum_insert_old m f k v old h

/-! ## Loops -/

/-- A `for` loop over the values, which may change each value and its own state. `none` breaks. -/
def loopEntries {σ : Type} (f : σ → ν → Option (ν × σ)) : List (κ × ν) → σ → List (κ × ν) × σ
  | [], s => ([], s)
  | (k, v) :: rest, s =>
    match f s v with
    | none => ((k, v) :: rest, s)
    | some (v', s') => ((k, v') :: (loopEntries f rest s').1, (loopEntries f rest s').2)

omit [LinearOrder κ] in
theorem loopEntries_keys {σ : Type} (f : σ → ν → Option (ν × σ)) (l : List (κ × ν)) (s : σ) :
    (loopEntries f l s).1.map Prod.fst = l.map Prod.fst := by
  induction l generalizing s with
  | nil => rfl
  | cons e rest ih =>
    obtain ⟨k, v⟩ := e
    rw [loopEntries]
    cases f s v with
    | none => rfl
    | some r => simp only [List.map_cons, ih]

theorem sortedKeys_of_keys {l l' : List (κ × ν)} (h : l'.map Prod.fst = l.map Prod.fst)
    (hs : SortedKeys l) : SortedKeys l' := by
  unfold SortedKeys at hs ⊢
  rw [← List.pairwise_map (f := Prod.fst) (R := (· < ·))] at hs ⊢
  rwa [h]

def loop {σ : Type} (m : OrdMap κ ν) (f : σ → ν → Option (ν × σ)) (s : σ) : OrdMap κ ν × σ :=
  (⟨(loopEntries f m.entries s).1, sortedKeys_of_keys (loopEntries_keys f m.entries s) m.sorted⟩,
    (loopEntries f m.entries s).2)

theorem loop_keys {σ : Type} (m : OrdMap κ ν) (f : σ → ν → Option (ν × σ)) (s : σ) :
    (m.loop f s).1.keys = m.keys := loopEntries_keys f m.entries s

end OrdMap

end Lib
