import Cts.Lib.BinarySearch

/-!
# An append-only array of logs with an index

The logs of a store have consecutive ids. A store grows at its end, a stored log can be replaced,
and the index lists the ids under a key, oldest first.
-/

namespace Lib.IndexedLog

variable {α κ : Type}

/-- Log `i` of a store has the id `first + i`. -/
structure Store (α : Type) where
  first : Nat
  logs : List α

namespace Store

def empty : Store α := { first := 0, logs := [] }

/-- The id of the next log. -/
def next (s : Store α) : Nat := s.first + s.logs.length

def ids (s : Store α) : List Nat := List.range' s.first s.logs.length

def get (s : Store α) (id : Nat) : Option α :=
  if id < s.first then none else s.logs[id - s.first]?

/-- The first logs of a store tell where its ids begin. -/
def append (s : Store α) (first : Nat) (logs : List α) : Store α :=
  { first := if s.logs = [] then first else s.first, logs := s.logs ++ logs }

def set (s : Store α) (id : Nat) (a : α) : Store α :=
  { s with logs := s.logs.set (id - s.first) a }

/-- The ids of the logs with a key. -/
def byKey [DecidableEq κ] (keys : α → List κ) (k : κ) (s : Store α) : List Nat :=
  s.ids.filter fun id => (s.get id).any fun a => k ∈ keys a

/-- Logs from the id `first` on can follow. -/
def Continues (s : Store α) (first : Nat) : Prop := s.logs ≠ [] → first = s.next

variable {s : Store α} {first : Nat} {logs : List α}

/-! ## Reading -/

theorem get_some {id : Nat} {a : α} (h : s.get id = some a) :
    s.first ≤ id ∧ s.logs[id - s.first]? = some a := by
  unfold get at h
  split_ifs at h with hlt
  exact ⟨by omega, h⟩

theorem get_first_add (s : Store α) (i : Nat) : s.get (s.first + i) = s.logs[i]? := by
  rw [get, if_neg (by omega), Nat.add_sub_cancel_left]

theorem mem_ids {id : Nat} : id ∈ s.ids ↔ s.first ≤ id ∧ id < s.next := by
  simp [ids, next, List.mem_range'_1]

theorem get_isSome {id : Nat} : (s.get id).isSome ↔ id ∈ s.ids := by
  rw [mem_ids, get, next]
  split_ifs with h
  · simp
    omega
  · simp
    omega

theorem get_eq_none {id : Nat} (h : id ∉ s.ids) : s.get id = none := by
  rw [← get_isSome] at h
  simpa using h

/-! ## Growing -/

theorem Continues.end_eq (h : s.Continues first) :
    (s.append first logs).first + s.logs.length = first := by
  unfold append
  split_ifs with hnil
  · simp [hnil]
  · exact (h hnil).symm

theorem ids_append (h : s.Continues first) :
    (s.append first logs).ids = s.ids ++ ids { first := first, logs := logs } := by
  have hend : (s.append first logs).first + s.logs.length = first := h.end_eq
  have hids : s.ids = List.range' (s.append first logs).first s.logs.length := by
    unfold append
    split_ifs with hnil
    · simp [ids, hnil]
    · rfl
  rw [hids]
  unfold ids
  rw [show (s.append first logs).logs = s.logs ++ logs from rfl, List.length_append,
    ← List.range'_append_1, hend]

theorem get_append (h : s.Continues first) (id : Nat) :
    (s.append first logs).get id = (get { first := first, logs := logs } id).or (s.get id) := by
  have hend : (s.append first logs).first + s.logs.length = first := h.end_eq
  have hs : s.get id = if id < (s.append first logs).first then none
      else s.logs[id - (s.append first logs).first]? := by
    unfold append
    split_ifs with hnil hlt
    · simp [get, hnil]
    · simp [get, hnil]
    · simp [get, *]
    · simp [get, *]
  rw [hs, get, get]
  rw [show (s.append first logs).logs = s.logs ++ logs from rfl]
  generalize (s.append first logs).first = start at hend
  simp only
  by_cases hlt : id < first
  · rw [if_pos hlt, Option.none_or]
    split_ifs with hstart
    · rfl
    · rw [List.getElem?_append_left (by omega)]
  · rw [if_neg hlt, if_neg (by omega), if_neg (by omega), List.getElem?_append_right (by omega),
      List.getElem?_eq_none (l := s.logs) (by omega), Option.or_none]
    congr 1
    omega

theorem append_singleton (a : α) :
    (append { first := first, logs := [a] } (first + 1) logs) =
      { first := first, logs := a :: logs } := by
  simp [append]

theorem continues_singleton (a : α) :
    (Continues { first := first, logs := [a] } (first + 1)) := fun _ => rfl

/-! ## Replacing -/

theorem ids_set (id : Nat) (a : α) : (s.set id a).ids = s.ids := by
  simp [ids, set]

theorem get_set {id : Nat} (h : id ∈ s.ids) (a : α) (j : Nat) :
    (s.set id a).get j = if j = id then some a else s.get j := by
  obtain ⟨hle, hlt⟩ := mem_ids.mp h
  unfold next at hlt
  have hset : (s.set id a).get j =
      if j < s.first then none else (s.logs.set (id - s.first) a)[j - s.first]? := rfl
  rw [hset, get]
  by_cases hj : j < s.first
  · rw [if_pos hj, if_pos hj, if_neg (by omega)]
  rw [if_neg hj, if_neg hj]
  split_ifs with heq
  · rw [heq]
    exact List.getElem?_set_self (by omega)
  · exact List.getElem?_set_ne (by omega)

/-! ## The index -/

section byKey

variable [DecidableEq κ] {keys : α → List κ} {k : κ}

theorem byKey_append (h : s.Continues first) :
    (s.append first logs).byKey keys k =
      s.byKey keys k ++ byKey keys k { first := first, logs := logs } := by
  unfold byKey
  rw [ids_append h, List.filter_append]
  congr 1
  · apply List.filter_congr
    intro id hid
    have hnot : id ∉ ids { first := first, logs := logs } := by
      intro hmem
      have hend : (s.append first logs).first + s.logs.length = first := h.end_eq
      have hs := mem_ids.mp hid
      have hnew := (mem_ids.mp hmem).1
      have hnil : s.logs ≠ [] := by
        intro hnil
        simp [next, hnil] at hs
        omega
      have := h hnil
      simp only at hnew
      omega
    rw [get_append h, get_eq_none hnot, Option.none_or]
  · apply List.filter_congr
    intro id hid
    obtain ⟨a, ha⟩ := Option.isSome_iff_exists.mp (get_isSome.mpr hid)
    rw [get_append h, ha, Option.some_or]

theorem byKey_nil : byKey keys k { first := first, logs := [] } = [] := rfl

theorem byKey_cons (a : α) :
    byKey keys k { first := first, logs := a :: logs } =
      (if k ∈ keys a then [first] else []) ++
        byKey keys k { first := first + 1, logs := logs } := by
  rw [← append_singleton, byKey_append (continues_singleton a)]
  congr 1
  by_cases hk : k ∈ keys a
  · simp [byKey, ids, get, hk]
  · simp [byKey, ids, get, hk]

theorem byKey_set {id : Nat} {old a : α} (h : s.get id = some old) (hkeys : keys a = keys old) :
    (s.set id a).byKey keys k = s.byKey keys k := by
  unfold byKey
  rw [ids_set]
  apply List.filter_congr
  intro j _
  rw [get_set (get_isSome.mp (by simp [h]))]
  split_ifs with heq
  · simp [heq, h, hkeys]
  · rfl

theorem mem_byKey {id : Nat} : id ∈ s.byKey keys k ↔ ∃ a, s.get id = some a ∧ k ∈ keys a := by
  unfold byKey
  rw [List.mem_filter, ← get_isSome]
  cases s.get id <;> simp

theorem byKey_push (a : α) : byKey keys k { first := s.first, logs := s.logs ++ [a] } =
    s.byKey keys k ++ if k ∈ keys a then [s.next] else [] := by
  have hcontinues : s.Continues s.next := fun _ => rfl
  have hfirst : s.append s.next [a] = { first := s.first, logs := s.logs ++ [a] } := by
    unfold append next
    split_ifs with hnil
    · simp [hnil]
    · rfl
  rw [← hfirst, byKey_append hcontinues, byKey_cons, byKey_nil, List.append_nil]

theorem byKey_pairwise (keys : α → List κ) (k : κ) (s : Store α) :
    (s.byKey keys k).Pairwise (· < ·) :=
  List.Pairwise.sublist List.filter_sublist (List.pairwise_lt_range' (s := s.first) (n := s.logs.length))

end byKey

end Store

/-! ## Pages -/

/-- The ids below the start, or all. -/
def below (start : Option Nat) (ids : List Nat) : List Nat :=
  match start with
  | none => ids
  | some start => ids.filter fun id => id < start

/-- The last `n` elements. -/
def newest {β : Type} (n : Nat) (l : List β) : List β := l.drop (l.length - n)

namespace Store

/-- How many logs have an id below the start. -/
def countBelow (s : Store α) : Option Nat → Nat
  | none => s.logs.length
  | some start => min (start - s.first) s.logs.length

theorem countBelow_le (s : Store α) (start : Option Nat) : s.countBelow start ≤ s.logs.length := by
  cases start with
  | none => exact Nat.le_refl _
  | some start => exact Nat.min_le_right _ _

theorem below_ids (s : Store α) (start : Option Nat) :
    below start s.ids = List.range' s.first (s.countBelow start) := by
  cases start with
  | none => rfl
  | some start =>
    have hfilter : s.ids.filter (fun id => id < start) = s.ids.take (start - s.first) := by
      symm
      apply take_eq_filter
      · intro i id hi hid
        obtain ⟨hlt, rfl⟩ := List.getElem?_eq_some_iff.mp hid
        simp only [ids, List.getElem_range', decide_eq_true_eq]
        omega
      · intro i id hi hid
        obtain ⟨hlt, rfl⟩ := List.getElem?_eq_some_iff.mp hid
        simp only [ids, List.getElem_range', decide_eq_true_eq]
        omega
    rw [below, hfilter, ids, countBelow]
    rcases Nat.le_total s.logs.length (start - s.first) with hle | hle
    · rw [List.take_range'_of_length_le hle, Nat.min_eq_right hle]
    · rw [List.take_range'_of_length_ge hle, Nat.min_eq_left hle]

theorem newest_range' (n first m : Nat) :
    newest n (List.range' first m) = List.range' (first + (m - n)) (min m n) := by
  rw [newest, List.drop_range', List.length_range', Nat.mul_one]
  congr 1
  omega

theorem filterMap_get (s : Store α) {i n : Nat} (h : i + n ≤ s.logs.length) :
    (List.range' (s.first + i) n).filterMap s.get = (s.logs.drop i).take n := by
  induction n generalizing i with
  | zero => simp
  | succ n ih =>
    have hi : i < s.logs.length := by omega
    have hget : s.get (s.first + i) = some s.logs[i] := by
      rw [get_first_add, List.getElem?_eq_getElem hi]
    rw [List.range'_succ, List.filterMap_cons_some hget, Nat.add_assoc, ih (by omega),
      List.drop_eq_getElem_cons hi, List.take_succ_cons]

theorem page_logs (s : Store α) (n : Nat) (start : Option Nat) :
    (newest n (below start s.ids)).filterMap s.get =
      newest n (s.logs.take (s.countBelow start)) := by
  have hle := s.countBelow_le start
  rw [below_ids, newest_range', filterMap_get s (by omega), newest, List.length_take,
    Nat.min_eq_left hle, List.drop_take]
  congr 1
  omega

end Store

theorem filterMap_filter_any {β : Type} (g : Nat → Option β) (p : β → Bool) (ids : List Nat) :
    (ids.filter fun id => (g id).any p).filterMap g = (ids.filterMap g).filter p := by
  induction ids with
  | nil => rfl
  | cons id ids ih =>
    cases hg : g id with
    | none =>
      rw [List.filter_cons_of_neg (by simp [hg]), List.filterMap_cons_none hg, ih]
    | some a =>
      rw [List.filterMap_cons_some hg]
      cases hp : p a with
      | true =>
        rw [List.filter_cons_of_pos (by simp [hg, hp]), List.filterMap_cons_some hg,
          List.filter_cons_of_pos hp, ih]
      | false =>
        rw [List.filter_cons_of_neg (by simp [hg, hp]), List.filter_cons_of_neg (by simp [hp]), ih]

theorem newest_filterMap {β : Type} {g : Nat → Option β} {ids : List Nat}
    (h : ∀ id ∈ ids, (g id).isSome) (n : Nat) :
    (newest n ids).filterMap g = newest n (ids.filterMap g) := by
  have hmap : ids.map g = (ids.filterMap g).map some := by
    induction ids with
    | nil => rfl
    | cons id ids ih =>
      obtain ⟨a, ha⟩ := Option.isSome_iff_exists.mp (h id List.mem_cons_self)
      rw [List.map_cons, List.filterMap_cons_some ha, List.map_cons, ha,
        ih fun x hx => h x (List.mem_cons_of_mem id hx)]
  have hlen := congrArg List.length hmap
  rw [List.length_map, List.length_map] at hlen
  have hsome : ∀ l : List β, (l.map some).filterMap id = l := fun l => by simp
  have hbind : ∀ l : List Nat, l.filterMap g = (l.map g).filterMap id := fun l => by
    rw [List.filterMap_map]
    rfl
  rw [newest, newest, hbind, List.map_drop, hmap, ← List.map_drop, hsome, hlen]

/-! ## Pages of a key -/

section key

variable [DecidableEq κ] {keys : α → List κ}

/-- Whether a log has the key. Without a key each log has it. -/
def has (keys : α → List κ) (key : Option κ) (a : α) : Bool :=
  match key with
  | none => true
  | some k => k ∈ keys a

theorem filter_has_none (keys : α → List κ) (l : List α) : l.filter (has keys none) = l :=
  List.filter_eq_self.mpr fun _ _ => rfl

/-- The ids of the logs that have the key. -/
def Store.idsOf (s : Store α) (keys : α → List κ) (key : Option κ) : List Nat :=
  match key with
  | none => s.ids
  | some k => s.byKey keys k

theorem Store.idsOf_eq (s : Store α) (keys : α → List κ) (key : Option κ) :
    s.idsOf keys key = s.ids.filter fun id => (s.get id).any (has keys key) := by
  cases key with
  | some k => rfl
  | none =>
    symm
    apply List.filter_eq_self.mpr
    intro id hid
    obtain ⟨a, ha⟩ := Option.isSome_iff_exists.mp (Store.get_isSome.mpr hid)
    simp [ha, has]

theorem Store.below_idsOf (s : Store α) (keys : α → List κ) (key : Option κ) (start : Option Nat) :
    below start (s.idsOf keys key) =
      (List.range' s.first (s.countBelow start)).filter fun id =>
        (s.get id).any (has keys key) := by
  rw [Store.idsOf_eq, ← Store.below_ids]
  cases start with
  | none => rfl
  | some start => exact List.filter_comm _ _ _

theorem Store.page_of_key (s : Store α) (keys : α → List κ) (key : Option κ) (n : Nat)
    (start : Option Nat) :
    (newest n (below start (s.idsOf keys key))).filterMap s.get =
      newest n ((s.logs.take (s.countBelow start)).filter (has keys key)) := by
  have hle := s.countBelow_le start
  have hlogs := s.filterMap_get (i := 0) (n := s.countBelow start) (by omega)
  rw [List.drop_zero, Nat.add_zero] at hlogs
  rw [newest_filterMap, Store.below_idsOf, filterMap_filter_any, hlogs]
  intro id hid
  rw [Store.below_idsOf] at hid
  exact Option.isSome_of_any (List.mem_filter.mp hid).2

end key

/-! ## What was written last -/

def lastWritten (written : List (Nat × α)) (id : Nat) : Option α := written.reverse.lookup id

theorem lastWritten_append (written written' : List (Nat × α)) (id : Nat) :
    lastWritten (written ++ written') id = (lastWritten written' id).or (lastWritten written id) := by
  rw [lastWritten, List.reverse_append, List.lookup_append]
  rfl

theorem lastWritten_of_notMem {written : List (Nat × α)} {id : Nat}
    (h : ∀ w ∈ written, w.1 ≠ id) : lastWritten written id = none := by
  rw [lastWritten, List.lookup_eq_none_iff]
  intro w hw
  simpa using (h w (List.mem_reverse.mp hw)).symm

theorem lastWritten_singleton (i : Nat) (a : α) (id : Nat) :
    lastWritten [(i, a)] id = if id = i then some a else none := by
  rw [lastWritten, List.reverse_singleton, List.lookup_cons, List.lookup_nil]
  by_cases h : id = i
  · simp [h]
  · simp [h, beq_false_of_ne h]

theorem lastWritten_batch (f : α → Nat) {first : Nat} {logs : List α}
    (h : logs.map f = List.range' first logs.length) (id : Nat) :
    lastWritten (logs.map fun a => (f a, a)) id =
      Store.get { first := first, logs := logs } id := by
  induction logs generalizing first with
  | nil => simp [lastWritten, Store.get]
  | cons a logs ih =>
    rw [List.map_cons, List.length_cons, List.range'_succ, List.cons.injEq] at h
    rw [List.map_cons, ← List.singleton_append, lastWritten_append, lastWritten_singleton, ih h.2,
      ← Store.append_singleton, Store.get_append (Store.continues_singleton a), h.1]
    congr 1
    unfold Store.get
    by_cases hid : id = first
    · simp [hid]
    · rw [if_neg hid]
      split_ifs with hlt
      · rfl
      · have hle : first ≤ id := Nat.le_of_not_lt hlt
        rw [List.getElem?_eq_none]
        simp only [List.length_singleton]
        omega

end Lib.IndexedLog
