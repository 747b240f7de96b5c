import Mathlib.Data.List.Sort
import Mathlib.Tactic.Linarith

/-!
# Records of one size in a sequence of cells

`cells.flatten` of records of size `n`: record `i` starts at cell `i * n`, and writing a record of
size `n` there replaces record `i` and nothing else.
-/

namespace Lib.Records

variable {α : Type}

/-- Replace what starts at cell `start`. -/
def writeAt (start : Nat) (b cells : List α) : List α :=
  cells.take start ++ b ++ cells.drop (start + b.length)

def Sized (n : Nat) (logs : List (List α)) : Prop := ∀ l ∈ logs, l.length = n

variable {n : Nat} {logs : List (List α)}

theorem writeAt_length {start : Nat} {b cells : List α} (h : start + b.length ≤ cells.length) :
    (writeAt start b cells).length = cells.length := by
  simp only [writeAt, List.length_append, List.length_take, List.length_drop]
  omega

theorem writeAt_append_right (pre : List α) (start : Nat) (b cells : List α) :
    writeAt (pre.length + start) b (pre ++ cells) = pre ++ writeAt start b cells := by
  simp only [writeAt, List.take_length_add_append, Nat.add_assoc, List.drop_length_add_append,
    List.append_assoc]

theorem writeAt_append_left {start : Nat} {b cells : List α} (post : List α)
    (h : start + b.length ≤ cells.length) :
    writeAt start b (cells ++ post) = writeAt start b cells ++ post := by
  simp only [writeAt]
  rw [List.take_append_of_le_length (by omega), List.drop_append_of_le_length h]
  simp only [List.append_assoc]

theorem Sized.append {logs' : List (List α)} (h : Sized n logs) (h' : Sized n logs') :
    Sized n (logs ++ logs') :=
  fun l hl => (List.mem_append.mp hl).elim (h l) (h' l)

theorem Sized.set (h : Sized n logs) (i : Nat) {b : List α} (hb : b.length = n) :
    Sized n (logs.set i b) := by
  intro l hl
  rcases List.mem_or_eq_of_mem_set hl with hl | rfl
  · exact h l hl
  · exact hb

theorem Sized.flatten_length (h : Sized n logs) : logs.flatten.length = logs.length * n := by
  induction logs with
  | nil => simp
  | cons l logs ih =>
    have hl := h l List.mem_cons_self
    have ih := ih fun x hx => h x (List.mem_cons_of_mem _ hx)
    rw [List.flatten_cons, List.length_append, List.length_cons, ih, hl, Nat.succ_mul, Nat.add_comm]

theorem split_at {i : Nat} {l : List α} (hi : logs[i]? = some l) :
    logs = logs.take i ++ l :: logs.drop (i + 1) := by
  obtain ⟨h, rfl⟩ := List.getElem?_eq_some_iff.mp hi
  rw [← List.drop_eq_getElem_cons h, List.take_append_drop]

theorem Sized.take_length (h : Sized n logs) {i : Nat} (hi : i ≤ logs.length) :
    (logs.take i).flatten.length = i * n := by
  rw [Sized.flatten_length (n := n) fun x hx => h x (List.mem_of_mem_take hx), List.length_take,
    Nat.min_eq_left hi]

theorem Sized.slice (h : Sized n logs) {i : Nat} {l : List α} (hi : logs[i]? = some l) :
    (logs.flatten.drop (i * n)).take n = l := by
  have hlt : i < logs.length := (List.getElem?_eq_some_iff.mp hi).1
  have hl : l.length = n := h l (List.mem_of_getElem? hi)
  have hpre := h.take_length hlt.le
  conv_lhs => rw [split_at hi]
  rw [List.flatten_append, List.flatten_cons, ← hpre, List.drop_left, ← hl, List.take_left]

theorem Sized.write (h : Sized n logs) {i : Nat} (hi : i < logs.length) {b : List α}
    (hb : b.length = n) : writeAt (i * n) b logs.flatten = (logs.set i b).flatten := by
  have hget : logs[i]? = some logs[i] := List.getElem?_eq_getElem hi
  have hl : (logs[i]).length = n := h _ (List.getElem_mem hi)
  have hpre := h.take_length hi.le
  rw [List.set_eq_take_append_cons_drop, if_pos hi, List.flatten_append, List.flatten_cons]
  conv_lhs => rw [split_at hget]
  have hwrite := writeAt_append_right (logs.take i).flatten 0 b
    (logs[i] ++ (logs.drop (i + 1)).flatten)
  rw [Nat.add_zero, hpre] at hwrite
  rw [List.flatten_append, List.flatten_cons, hwrite]
  congr 1
  simp only [writeAt, List.take_zero, List.nil_append, Nat.zero_add]
  rw [hb, ← hl, List.drop_left]

/-! ## Many writes -/

def setAll (logs : List (List α)) (es : List (Nat × List α)) : List (List α) :=
  es.foldl (fun logs e => logs.set e.1 e.2) logs

theorem setAll_length (logs : List (List α)) (es : List (Nat × List α)) :
    (setAll logs es).length = logs.length := by
  induction es generalizing logs with
  | nil => rfl
  | cons e es ih => exact (ih _).trans List.length_set

theorem setAll_append (logs : List (List α)) (es es' : List (Nat × List α)) :
    setAll logs (es ++ es') = setAll (setAll logs es) es' := List.foldl_append

theorem setAll_get_of_notMem {i : Nat} {es : List (Nat × List α)} (h : i ∉ es.map Prod.fst) :
    (setAll logs es)[i]? = logs[i]? := by
  induction es generalizing logs with
  | nil => rfl
  | cons e es ih =>
    rw [List.map_cons, List.mem_cons, not_or] at h
    exact (ih h.2).trans (List.getElem?_set_ne fun heq => h.1 heq.symm)

theorem setAll_get_of_mem {e : Nat × List α} {es : List (Nat × List α)}
    (h : (es.map Prod.fst).Nodup) (he : e ∈ es) (hlt : e.1 < logs.length) :
    (setAll logs es)[e.1]? = some e.2 := by
  induction es generalizing logs with
  | nil => cases he
  | cons d es ih =>
    rw [List.map_cons, List.nodup_cons] at h
    rcases List.mem_cons.mp he with rfl | he
    · refine (setAll_get_of_notMem h.1).trans ?_
      exact List.getElem?_set_self hlt
    · exact ih h.2 he (by rwa [List.length_set])

/-! ## Reading the records back -/

/-- The whole records of size `n`. -/
def records (n : Nat) (cells : List α) : List (List α) :=
  (List.range (cells.length / n)).map fun i => (cells.drop (i * n)).take n

theorem records_get {cells : List α} (hn : 0 < n) {i : Nat} (h : i * n + n ≤ cells.length) :
    (Records.records n cells)[i]? = some ((cells.drop (i * n)).take n) := by
  have hlt : i < cells.length / n := by
    rw [Nat.lt_div_iff_mul_lt hn]
    omega
  rw [Records.records, List.getElem?_map, List.getElem?_range hlt]
  rfl

theorem read_within (pre : List α) {mid : List α} (post : List α) {start : Nat}
    (h : start + n ≤ mid.length) :
    ((pre ++ (mid ++ post)).drop (pre.length + start)).take n = (mid.drop start).take n := by
  rw [List.drop_length_add_append, List.drop_append_of_le_length (by omega),
    List.take_append_of_le_length]
  rw [List.length_drop]
  omega

theorem records_append {a : List α} (b : List α) (hn : 0 < n) {k : Nat} (h : a.length = k * n) :
    Records.records n (a ++ b) = Records.records n a ++ Records.records n b := by
  have hlen : (a ++ b).length / n = k + b.length / n := by
    rw [List.length_append, h, Nat.add_comm, Nat.add_mul_div_right _ _ hn, Nat.add_comm]
  unfold Records.records
  rw [hlen, h, Nat.mul_div_cancel _ hn, List.range_add, List.map_append, List.map_map]
  congr 1
  · apply List.map_congr_left
    intro i hi
    have hle := Nat.mul_le_mul_right n (List.mem_range.mp hi)
    rw [Nat.succ_mul] at hle
    rw [List.drop_append_of_le_length (by omega), List.take_append_of_le_length]
    rw [List.length_drop]
    omega
  · apply List.map_congr_left
    intro i _
    have hdrop : (k + i) * n = a.length + i * n := by rw [Nat.add_mul, h]
    rw [Function.comp_apply, hdrop, List.drop_length_add_append]

theorem Sized.records (h : Sized n logs) (hn : 0 < n) : records n logs.flatten = logs := by
  refine List.ext_getElem? fun i => ?_
  rw [Records.records, h.flatten_length, Nat.mul_div_cancel _ hn, List.getElem?_map]
  by_cases hi : i < logs.length
  · rw [List.getElem?_range hi, List.getElem?_eq_getElem hi, Option.map_some,
      h.slice (List.getElem?_eq_getElem hi)]
  · rw [List.getElem?_eq_none (by simpa using hi), List.getElem?_eq_none (by omega)]
    rfl

/-- The whole records of size `n` that end where the sequence ends, from the last one on. -/
def backwards (n : Nat) (cells : List α) : List (List α) :=
  (List.range (cells.length / n)).map fun i => (cells.drop (cells.length - i * n - n)).take n

theorem backwards_length (n : Nat) (cells : List α) :
    (backwards n cells).length = cells.length / n := by
  rw [backwards, List.length_map, List.length_range]

theorem backwards_sized (n : Nat) (cells : List α) : Sized n (backwards n cells) := by
  intro l hl
  obtain ⟨i, hi, rfl⟩ := List.mem_map.mp hl
  have hlt : i < cells.length / n := List.mem_range.mp hi
  have hle : (i + 1) * n ≤ cells.length := (Nat.mul_le_mul_right n hlt).trans (Nat.div_mul_le_self _ _)
  rw [Nat.succ_mul] at hle
  rw [List.length_take, List.length_drop]
  omega

theorem Sized.backwards (h : Sized n logs) (hn : 0 < n) :
    Records.backwards n logs.flatten = logs.reverse := by
  refine List.ext_getElem? fun i => ?_
  rw [Records.backwards, h.flatten_length, Nat.mul_div_cancel _ hn, List.getElem?_map]
  by_cases hi : i < logs.length
  · have hplace : logs.length * n - i * n - n = (logs.length - 1 - i) * n := by
      rw [Nat.sub_mul, Nat.sub_mul]
      omega
    rw [List.getElem?_range hi, List.getElem?_reverse hi, Option.map_some, hplace,
      h.slice (List.getElem?_eq_getElem (by omega)), List.getElem?_eq_getElem (by omega)]
  · rw [List.getElem?_eq_none (by simpa using hi), List.getElem?_eq_none (by simpa using hi)]
    rfl

theorem Sized.split_prefix (h : Sized n logs) {a b : List α} (he : a ++ b = logs.flatten) {k : Nat}
    (hk : a.length = k * n) (hle : k ≤ logs.length) :
    a = (logs.take k).flatten ∧ b = (logs.drop k).flatten := by
  have hsplit : (logs.take k).flatten ++ (logs.drop k).flatten = logs.flatten := by
    rw [← List.flatten_append, List.take_append_drop]
  exact List.append_inj (he.trans hsplit.symm) (hk.trans (h.take_length hle).symm)

theorem Sized.flatten_inj (h : Sized n logs) {logs' : List (List α)} (h' : Sized n logs') (hn : 0 < n)
    (he : logs.flatten = logs'.flatten) : logs = logs' := by
  rw [← h.records hn, he, h'.records hn]

/-! ## Sorted records -/

section sorted

variable {β : Type} {r : β → β → Prop} {l l' : List β}

theorem insertionSort_eq_iff [DecidableRel r] [Std.Total r] [IsTrans β r] [Std.Antisymm r] :
    l.insertionSort r = l'.insertionSort r ↔ l.Perm l' := by
  constructor
  · intro h
    calc
      l.Perm (l.insertionSort r) := (List.perm_insertionSort r l).symm
      List.Perm _ (l'.insertionSort r) := List.Perm.of_eq h
      List.Perm _ l' := List.perm_insertionSort r l'
  · intro h
    have hperm : (l.insertionSort r).Perm (l'.insertionSort r) :=
      ((List.perm_insertionSort r l).trans h).trans (List.perm_insertionSort r l').symm
    exact hperm.eq_of_pairwise' (List.pairwise_insertionSort r l) (List.pairwise_insertionSort r l')

/-- Two lists are the same but for their order when their images are, under a map that tells their
elements apart. -/
theorem perm_of_map {f : β → α} (h : (l.map f).Perm (l'.map f))
    (hf : ∀ a ∈ l, ∀ b ∈ l', f a = f b → a = b) : l.Perm l' := by
  induction l generalizing l' with
  | nil =>
    have hnil : l'.map f = [] := h.nil_eq.symm
    rw [List.map_eq_nil_iff.mp hnil]
  | cons a l ih =>
    obtain ⟨b, hb, heq⟩ := List.mem_map.mp (h.subset List.mem_cons_self)
    obtain rfl := hf a List.mem_cons_self b hb heq.symm
    obtain ⟨before, after, rfl⟩ := List.append_of_mem hb
    have hmiddle : ((before ++ a :: after).map f).Perm (f a :: (before ++ after).map f) :=
      List.Perm.map f List.perm_middle
    have hrest := ih (h.trans hmiddle).cons_inv fun x hx y hy =>
      hf x (List.mem_cons_of_mem a hx) y (by
        rcases List.mem_append.mp hy with hy | hy
        · exact List.mem_append_left _ hy
        · exact List.mem_append_right _ (List.mem_cons_of_mem a hy))
    exact (hrest.cons a).trans List.perm_middle.symm

end sorted

end Lib.Records
