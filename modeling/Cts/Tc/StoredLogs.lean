import Cts.Tc.StorageCanister
import Cts.Lib.IndexedLog
import Mathlib.Data.List.Induction

/-!
# The logs of a storage canister

Whatever calls a canister serves, its memory is an array of the logs from the first stored id on and
its map is an index of them. A call that is refused changes neither.
-/

namespace Cts.Tc

open Lib Lib.IndexedLog

variable {K : Type} [DecidableEq K]

/-! ## Calls -/

inductive StorageCall
  | flush (grow : Bool) (logs : List (List Byte))
  | cm_update_log (log_id : Nat) (log_b : List Byte)
  | controller_mark_full (mark : Bool)

/-- A canister with what it stands for and with every log that was ever stored, oldest first. -/
structure StorageHistory (K : Type) where
  data : StorageCanister K
  store : Store (List Byte)
  written : List (Nat × List Byte)

namespace StorageHistory

def init (T : StorageLogTrait K) : StorageHistory K :=
  { data := StorageCanister.init T.STABLE_MEMORY_SERIALIZE_SIZE
    store := Store.empty
    written := [] }

/-- A call that traps leaves everything as it is. -/
def call (T : StorageLogTrait K) (h : StorageHistory K) : StorageCall → StorageHistory K
  | .flush grow logs =>
    match h.data.flush T grow logs.flatten with
    | none => h
    | some (.error _, data) => { h with data := data }
    | some (.ok (), data) =>
      { data := data
        store := h.store.append (T.log_id_of_the_log_serialization logs.flatten) logs
        written := h.written ++ logs.map fun log => (T.log_id_of_the_log_serialization log, log) }
  | .cm_update_log log_id log_b =>
    match h.data.cm_update_log log_id log_b with
    | none => h
    | some data =>
      { data := data
        store := h.store.set log_id log_b
        written := h.written ++ [(log_id, log_b)] }
  | .controller_mark_full mark => { h with data := { h.data with controller_mark_full := mark } }

def Accepts (T : StorageLogTrait K) (h : StorageHistory K) : StorageCall → Prop
  | .flush grow logs => ∃ data, h.data.flush T grow logs.flatten = some (.ok (), data)
  | .cm_update_log log_id log_b => ∃ data, h.data.cm_update_log log_id log_b = some data
  | .controller_mark_full _ => True

/-- The ids of the logs that a call carries. -/
def carried (T : StorageLogTrait K) : StorageCall → List Nat
  | .flush _ logs => logs.map T.log_id_of_the_log_serialization
  | .cm_update_log log_id _ => [log_id]
  | .controller_mark_full _ => []

/-- What the controller keeps to. A batch continues the ids, and an update does not move a log in
the index. -/
def Promised (T : StorageLogTrait K) (ok : List Byte → Prop) (h : StorageHistory K) :
    StorageCall → Prop
  | .flush _ logs =>
    logs ≠ [] ∧ Records.Sized T.STABLE_MEMORY_SERIALIZE_SIZE logs ∧ (∀ log ∈ logs, ok log) ∧
      ∃ first, logs.map T.log_id_of_the_log_serialization = List.range' first logs.length ∧
        h.store.Continues first
  | .cm_update_log log_id log_b =>
    log_id < 2 ^ 64 ∧ T.log_id_of_the_log_serialization log_b = log_id ∧
      ∀ old, h.store.get log_id = some old →
        T.index_keys_of_the_log_serialization log_b = T.index_keys_of_the_log_serialization old
  | .controller_mark_full _ => True

inductive Reachable (T : StorageLogTrait K) (ok : List Byte → Prop) : StorageHistory K → Prop
  | init : Reachable T ok (init T)
  | call {h : StorageHistory K} {c : StorageCall} :
      Reachable T ok h → h.Promised T ok c → Reachable T ok (h.call T c)

end StorageHistory

/-! ## What an accepted call does -/

section accepted

variable {T : StorageLogTrait K} {data data' : StorageCanister K}

theorem StorageCanister.flush_ok {grow : Bool} {bytes : List Byte}
    (h : data.flush T grow bytes = some (.ok (), data')) :
    data.logs_memory.length + bytes.length ≤ MAX_STABLE_LOGS_STORAGE_BYTES ∧
      ∃ map, index_logs T data.log_size bytes (List.range (bytes.length / data.log_size)) data.map =
          some map ∧
        data' = { data with
          first_log_id :=
            if data.logs_memory_i = 0 then T.log_id_of_the_log_serialization bytes
            else data.first_log_id
          logs_memory := data.logs_memory ++ bytes
          map := map } := by
  unfold StorageCanister.flush at h
  split at h
  · cases h
  split at h
  · cases h
  split at h
  · cases h
  rename_i hroom
  iterate 2
    split at h
    · cases h
  obtain ⟨map, hmap, heq⟩ := Option.map_eq_some_iff.mp h
  exact ⟨Nat.le_of_not_lt hroom, map, hmap, (Prod.mk.inj heq).2.symm⟩

theorem StorageCanister.flush_error {grow : Bool} {bytes : List Byte} {e : FlushError}
    (h : data.flush T grow bytes = some (.error e, data')) : data' = data := by
  rcases StorageCanister.flush_spec h with ⟨-, heq⟩ | ⟨hok, -⟩
  · exact heq
  · cases hok

omit [DecidableEq K] in
theorem StorageCanister.update_ok {log_id : Nat} {log_b : List Byte}
    (h : data.cm_update_log log_id log_b = some data') :
    log_b.length = data.log_size ∧ data.first_log_id ≤ log_id ∧
      Word.wrap 64 (log_id - data.first_log_id) * data.log_size + data.log_size ≤
        data.logs_memory.length ∧
      data' = { data with
        logs_memory := Records.writeAt
          (Word.wrap 64 (log_id - data.first_log_id) * data.log_size) log_b data.logs_memory } := by
  unfold StorageCanister.cm_update_log at h
  split at h
  · cases h
  rename_i hlen
  split at h
  · cases h
  rename_i hfirst
  simp only at h
  split at h
  · cases h
  split at h
  · cases h
  rename_i hsize
  split at h
  · cases h
  rename_i hroom
  unfold StorageCanister.logs_memory_i at hsize hroom
  exact ⟨by omega, by omega, by omega, (Option.some.inj h).symm⟩

end accepted

/-! ## The map -/

section map

/-- The ids under a key. -/
def idsUnder (map : List (K × List Nat)) (k : K) : List Nat := (map_get map k).getD []

theorem idsUnder_push (map : List (K × List Nat)) (index_key : K) (id : Nat) (k : K) :
    idsUnder (map_push map index_key id) k =
      idsUnder map k ++ if k = index_key then [id] else [] := by
  unfold idsUnder map_get map_push
  split_ifs with hany hk hk
  · subst hk
    obtain ⟨e, he, hek⟩ := List.any_eq_true.mp hany
    have hsome : (map.find? fun e => decide (e.1 = k)).isSome :=
      List.find?_isSome.mpr ⟨e, he, hek⟩
    obtain ⟨d, hd⟩ := Option.isSome_iff_exists.mp hsome
    have hdk : d.1 = k := by simpa using List.find?_some hd
    have hkeep : (fun e : K × List Nat => decide (e.1 = k)) ∘
        (fun e => if e.1 = k then (e.1, e.2 ++ [id]) else e) = fun e => decide (e.1 = k) := by
      funext e
      by_cases hek : e.1 = k <;> simp [hek]
    rw [List.find?_map, hkeep, hd]
    simp [hdk]
  · have hkeep : (fun e : K × List Nat => decide (e.1 = k)) ∘
        (fun e => if e.1 = index_key then (e.1, e.2 ++ [id]) else e) =
          fun e => decide (e.1 = k) := by
      funext e
      by_cases hek : e.1 = index_key <;> simp [hek]
    rw [List.find?_map, hkeep, List.append_nil]
    cases hfind : map.find? fun e => decide (e.1 = k) with
    | none => rfl
    | some d =>
      have hdk : d.1 = k := by simpa using List.find?_some hfind
      have hne : ¬ d.1 = index_key := fun heq => hk (hdk.symm.trans heq)
      simp [hne]
  · subst hk
    have hnone : (map.find? fun e => decide (e.1 = k)) = none := by
      refine List.find?_eq_none.mpr ?_
      intro e he hek
      apply hany
      rw [List.any_eq_true]
      exact ⟨e, he, hek⟩
    rw [List.find?_append, hnone]
    simp
  · rw [List.find?_append]
    simp [Ne.symm hk]

theorem idsUnder_foldl {keys : List K} (h : keys.Nodup) (map : List (K × List Nat)) (id : Nat)
    (k : K) :
    idsUnder (keys.foldl (fun map index_key => map_push map index_key id) map) k =
      idsUnder map k ++ if k ∈ keys then [id] else [] := by
  induction keys generalizing map with
  | nil => simp
  | cons index_key keys ih =>
    obtain ⟨hnot, hnodup⟩ := List.nodup_cons.mp h
    rw [List.foldl_cons, ih hnodup, idsUnder_push, List.append_assoc]
    congr 1
    by_cases hk : k = index_key
    · subst hk
      simp [hnot]
    · simp [hk]

end map

theorem take_till {vec : List Nat} (h : SortedBy id vec) (opt_start_before_id : Option Nat) :
    vec.take (till_start_before_id vec opt_start_before_id) = below opt_start_before_id vec := by
  cases opt_start_before_id with
  | none => exact List.take_length
  | some start_before_id => exact h.take_searchPoint start_before_id

/-! ## The array and its index -/

/-- What the lib relies on of a kind of log. -/
structure StorageLogTrait.Lawful (T : StorageLogTrait K) : Prop where
  size_pos : 0 < T.STABLE_MEMORY_SERIALIZE_SIZE
  id_lt : ∀ log_b, T.log_id_of_the_log_serialization log_b < 2 ^ 128

def keysOf (T : StorageLogTrait K) (log_b : List Byte) : List K :=
  (T.index_keys_of_the_log_serialization log_b).getD []

/-- The memory holds the logs of the store, each as it was last written. -/
structure StorageHistory.Stored (T : StorageLogTrait K) (h : StorageHistory K) : Prop where
  size : h.data.log_size = T.STABLE_MEMORY_SERIALIZE_SIZE
  sized : Records.Sized T.STABLE_MEMORY_SERIALIZE_SIZE h.store.logs
  memory : h.data.logs_memory = h.store.logs.flatten
  first : h.data.first_log_id = h.store.first
  room : h.data.logs_memory.length ≤ MAX_STABLE_LOGS_STORAGE_BYTES
  ids : ∀ id log, h.store.get id = some log → T.log_id_of_the_log_serialization log = id
  written : ∀ id, lastWritten h.written id = h.store.get id

/-- The map holds the ids of the stored logs by key. -/
def StorageHistory.Indexed (T : StorageLogTrait K) (h : StorageHistory K) : Prop :=
  ∀ k, idsUnder h.data.map k = h.store.byKey (keysOf T) k

section stored

variable {T : StorageLogTrait K} {h : StorageHistory K} {logs : List (List Byte)} {first : Nat}

theorem index_logs_ids {size : Nat} {bytes : List Byte} {idx : List Nat}
    {map map' : List (K × List Nat)}
    (hidx : idx.map (fun i => slice (i * size) size bytes) = logs)
    (hids : logs.map T.log_id_of_the_log_serialization = List.range' first logs.length)
    (hkeys : ∀ log ∈ logs, (keysOf T log).Nodup)
    (h : index_logs T size bytes idx map = some map') (k : K) :
    idsUnder map' k =
      idsUnder map k ++ Store.byKey (keysOf T) k { first := first, logs := logs } := by
  induction idx generalizing logs map first with
  | nil =>
    obtain rfl : logs = [] := hidx.symm
    obtain rfl : map = map' := Option.some.inj h
    rw [Store.byKey_nil, List.append_nil]
  | cons i idx ih =>
    rw [List.map_cons] at hidx
    obtain ⟨log, rest, rfl⟩ : ∃ log rest, logs = log :: rest := ⟨_, _, hidx.symm⟩
    obtain ⟨hlog, hrest⟩ := List.cons.inj hidx
    rw [List.map_cons, List.length_cons, List.range'_succ, List.cons.injEq] at hids
    rw [index_logs] at h
    simp only [hlog] at h
    split at h
    · cases h
    rename_i keys hget
    have hnodup : keys.Nodup := by simpa [keysOf, hget] using hkeys log List.mem_cons_self
    have hmem : ∀ k, k ∈ keys ↔ k ∈ keysOf T log := by simp [keysOf, hget]
    rw [ih hrest hids.2 (fun log hl => hkeys log (List.mem_cons_of_mem _ hl)) h,
      idsUnder_foldl hnodup, Store.byKey_cons, List.append_assoc, hids.1]
    simp only [hmem]

omit [DecidableEq K] in
theorem flatten_id (hne : logs ≠ []) (hs : Records.Sized T.STABLE_MEMORY_SERIALIZE_SIZE logs)
    (hids : logs.map T.log_id_of_the_log_serialization = List.range' first logs.length) :
    T.log_id_of_the_log_serialization logs.flatten = first := by
  obtain ⟨log, rest, rfl⟩ := List.exists_cons_of_ne_nil hne
  rw [List.map_cons, List.length_cons, List.range'_succ, List.cons.injEq] at hids
  rw [List.flatten_cons, T.log_id_append _ _ (hs log List.mem_cons_self), hids.1]

omit [DecidableEq K] in
theorem batch_ids
    (hids : logs.map T.log_id_of_the_log_serialization = List.range' first logs.length) {id : Nat}
    {log : List Byte} (hget : Store.get { first := first, logs := logs } id = some log) :
    T.log_id_of_the_log_serialization log = id := by
  obtain ⟨hle, hlog⟩ := Store.get_some hget
  simp only at hle hlog
  have hlt : id - first < logs.length := (List.getElem?_eq_some_iff.mp hlog).1
  have hmap := congrArg (fun l => l[id - first]?) hids
  simp only [List.getElem?_map, hlog, Option.map_some] at hmap
  rw [List.getElem?_range' hlt] at hmap
  have := Option.some.inj hmap
  omega

namespace StorageHistory.Stored

omit [DecidableEq K] in
theorem init (T : StorageLogTrait K) : (StorageHistory.init T).Stored T where
  size := rfl
  sized := by simp [StorageHistory.init, Store.empty, Records.Sized]
  memory := rfl
  first := rfl
  room := Nat.zero_le _
  ids id log hget := by simp [StorageHistory.init, Store.empty, Store.get] at hget
  written id := by simp [StorageHistory.init, lastWritten, Store.empty, Store.get]

omit [DecidableEq K] in
theorem memory_nil (hT : T.Lawful) (hs : h.Stored T) :
    h.data.logs_memory_i = 0 ↔ h.store.logs = [] := by
  have hlen := hs.sized.flatten_length
  have hpos := hT.size_pos
  unfold StorageCanister.logs_memory_i
  rw [hs.memory, hlen, Nat.mul_eq_zero, List.length_eq_zero_iff]
  constructor
  · rintro (hnil | hzero)
    · exact hnil
    · omega
  · exact Or.inl

theorem flush (hT : T.Lawful) (hs : h.Stored T) {grow : Bool} {data : StorageCanister K}
    (hne : logs ≠ []) (hsized : Records.Sized T.STABLE_MEMORY_SERIALIZE_SIZE logs)
    (hids : logs.map T.log_id_of_the_log_serialization = List.range' first logs.length)
    (hnext : h.store.Continues first)
    (hflush : h.data.flush T grow logs.flatten = some (.ok (), data)) :
    Stored T {
      data := data
      store := h.store.append (T.log_id_of_the_log_serialization logs.flatten) logs
      written := h.written ++
        logs.map fun log => (T.log_id_of_the_log_serialization log, log) } := by
  obtain ⟨hroom, map, hmap, rfl⟩ := StorageCanister.flush_ok hflush
  rw [flatten_id hne hsized hids] at *
  constructor
  · exact hs.size
  · exact hs.sized.append hsized
  · simp [Store.append, hs.memory]
  · simp only [Store.append, hs.memory_nil hT, hs.first]
  · simpa using hroom
  · intro id log hget
    rw [Store.get_append hnext, Option.or_eq_some_iff] at hget
    rcases hget with hget | ⟨-, hget⟩
    · exact batch_ids hids hget
    · exact hs.ids id log hget
  · intro id
    rw [lastWritten_append, lastWritten_batch _ hids, Store.get_append hnext, hs.written]

omit [DecidableEq K] in
theorem place (hs : h.Stored T) {i : Nat} (hi : i < h.store.logs.length) :
    i * T.STABLE_MEMORY_SERIALIZE_SIZE + T.STABLE_MEMORY_SERIALIZE_SIZE ≤
      h.data.logs_memory.length := by
  rw [hs.memory, hs.sized.flatten_length, ← Nat.succ_mul]
  exact Nat.mul_le_mul_right _ hi

omit [DecidableEq K] in
theorem update (hT : T.Lawful) (hs : h.Stored T) {log_id : Nat} {log_b : List Byte}
    {data : StorageCanister K} (hid : log_id - h.store.first < 2 ^ 64)
    (hlog : T.log_id_of_the_log_serialization log_b = log_id)
    (hupdate : h.data.cm_update_log log_id log_b = some data) :
    log_id ∈ h.store.ids ∧ Stored T {
      data := data
      store := h.store.set log_id log_b
      written := h.written ++ [(log_id, log_b)] } := by
  obtain ⟨hlen, hle, hend, rfl⟩ := StorageCanister.update_ok hupdate
  rw [hs.size] at hlen
  rw [hs.first] at hle
  rw [hs.first, hs.size, Word.wrap_of_lt hid] at hend
  have hindex : log_id - h.store.first < h.store.logs.length := by
    rw [hs.memory, hs.sized.flatten_length, ← Nat.succ_mul] at hend
    exact Nat.le_of_mul_le_mul_right hend hT.size_pos
  have hmem : log_id ∈ h.store.ids := by
    rw [Store.mem_ids, Store.next]
    omega
  have hmemory : Records.writeAt (Word.wrap 64 (log_id - h.data.first_log_id) * h.data.log_size)
      log_b h.data.logs_memory = (h.store.set log_id log_b).logs.flatten := by
    rw [hs.first, hs.size, Word.wrap_of_lt hid, hs.memory]
    exact hs.sized.write hindex hlen
  have hsized : Records.Sized T.STABLE_MEMORY_SERIALIZE_SIZE (h.store.set log_id log_b).logs :=
    hs.sized.set _ hlen
  refine ⟨hmem, ?_⟩
  constructor
  · exact hs.size
  · exact hsized
  · exact hmemory
  · exact hs.first
  · show List.length _ ≤ _
    rw [hmemory, hsized.flatten_length]
    have hroom := hs.room
    rw [hs.memory, hs.sized.flatten_length] at hroom
    simpa [Store.set] using hroom
  · intro id log hget
    rw [Store.get_set hmem] at hget
    split_ifs at hget with heq
    · rw [← Option.some.inj hget, hlog, heq]
    · exact hs.ids id log hget
  · intro id
    rw [lastWritten_append, lastWritten_singleton, hs.written, Store.get_set hmem]
    split_ifs <;> simp

/-! ## Reading -/

omit [DecidableEq K] in
theorem read_memory (hs : h.Stored T) {i : Nat} {log : List Byte}
    (hget : h.store.logs[i]? = some log) :
    h.data.read_memory (i * T.STABLE_MEMORY_SERIALIZE_SIZE) T.STABLE_MEMORY_SERIALIZE_SIZE =
      some log := by
  have hlt : i < h.store.logs.length := (List.getElem?_eq_some_iff.mp hget).1
  unfold StorageCanister.read_memory StorageCanister.logs_memory_i
  rw [if_pos (hs.place hlt), hs.memory]
  exact congrArg some (hs.sized.slice hget)

omit [DecidableEq K] in
theorem read (hT : T.Lawful) (hs : h.Stored T) {id : Nat} {log : List Byte}
    (hget : h.store.get id = some log) : h.data.read_log id = some log := by
  obtain ⟨hle, hlog⟩ := Store.get_some hget
  have hend := hs.place (List.getElem?_eq_some_iff.mp hlog).1
  have hroom := hs.room
  have hid := hT.id_lt log
  rw [hs.ids id log hget] at hid
  have hindex : id - h.store.first ≤
      (id - h.store.first) * T.STABLE_MEMORY_SERIALIZE_SIZE :=
    Nat.le_mul_of_pos_right _ hT.size_pos
  have hmax : MAX_STABLE_LOGS_STORAGE_BYTES < 2 ^ 64 := by decide
  rw [StorageCanister.read_log, hs.first, hs.size, Word.sub_of_le hid hle,
    Word.wrap_of_lt (by omega), Word.mul_of_lt (by omega)]
  exact hs.read_memory hlog

omit [DecidableEq K] in
theorem read_logs (hT : T.Lawful) (hs : h.Stored T) {ids : List Nat}
    (hids : ∀ id ∈ ids, id ∈ h.store.ids) :
    h.data.read_logs ids = some (ids.filterMap h.store.get).flatten := by
  induction ids with
  | nil => rfl
  | cons id ids ih =>
    obtain ⟨log, hget⟩ := Option.isSome_iff_exists.mp
      (Store.get_isSome.mpr (hids id List.mem_cons_self))
    rw [StorageCanister.read_logs, hs.read hT hget]
    simp only
    rw [ih fun id hid => hids id (List.mem_cons_of_mem _ hid), List.filterMap_cons_some hget]
    rfl

end StorageHistory.Stored

/-! ## The index -/

namespace StorageHistory.Indexed

theorem flush (hT : T.Lawful) (hs : h.Stored T) (hi : h.Indexed T) {grow : Bool}
    {data : StorageCanister K} {written : List (Nat × List Byte)} (hne : logs ≠ [])
    (hsized : Records.Sized T.STABLE_MEMORY_SERIALIZE_SIZE logs)
    (hkeys : ∀ log ∈ logs, (keysOf T log).Nodup)
    (hids : logs.map T.log_id_of_the_log_serialization = List.range' first logs.length)
    (hnext : h.store.Continues first)
    (hflush : h.data.flush T grow logs.flatten = some (.ok (), data)) :
    Indexed T {
      data := data
      store := h.store.append (T.log_id_of_the_log_serialization logs.flatten) logs
      written := written } := by
  obtain ⟨-, map, hmap, rfl⟩ := StorageCanister.flush_ok hflush
  have hrecords : (List.range (logs.flatten.length / h.data.log_size)).map
      (fun i => slice (i * h.data.log_size) h.data.log_size logs.flatten) = logs := by
    rw [hs.size]
    exact hsized.records hT.size_pos
  intro k
  rw [flatten_id hne hsized hids, Store.byKey_append hnext, ← hi k]
  exact index_logs_ids hrecords hids hkeys hmap k

theorem update (hT : T.Lawful) (hs : h.Stored T) (hi : h.Indexed T) {log_id : Nat}
    {log_b : List Byte} {data : StorageCanister K} {written : List (Nat × List Byte)}
    (hid : log_id - h.store.first < 2 ^ 64) (hlog : T.log_id_of_the_log_serialization log_b = log_id)
    (hkeys : ∀ old, h.store.get log_id = some old →
      T.index_keys_of_the_log_serialization log_b = T.index_keys_of_the_log_serialization old)
    (hupdate : h.data.cm_update_log log_id log_b = some data) :
    Indexed T { data := data, store := h.store.set log_id log_b, written := written } := by
  have hmem := (hs.update hT hid hlog hupdate).1
  obtain ⟨old, hold⟩ := Option.isSome_iff_exists.mp (Store.get_isSome.mpr hmem)
  have hsame : keysOf T log_b = keysOf T old := by rw [keysOf, keysOf, hkeys old hold]
  obtain ⟨-, -, -, rfl⟩ := StorageCanister.update_ok hupdate
  intro k
  rw [Store.byKey_set hold hsame]
  exact hi k

theorem rchunk (hT : T.Lawful) (hs : h.Stored T) (hi : h.Indexed T) (k : K) (opt_start_before_id : Option Nat)
    {chunk_size : Nat} (hchunk : 1 ≤ chunk_size) :
    h.data.map_logs_rchunks k opt_start_before_id chunk_size =
      some ((newest chunk_size (below opt_start_before_id
        (h.store.byKey (keysOf T) k))).filterMap h.store.get).flatten := by
  have hvec := hi k
  unfold idsUnder at hvec
  unfold StorageCanister.map_logs_rchunks
  cases hget : map_get h.data.map k with
  | none =>
    rw [hget, Option.getD_none] at hvec
    rw [← hvec]
    cases opt_start_before_id <;> simp [below, newest]
  | some vec =>
    rw [hget, Option.getD_some] at hvec
    subst hvec
    have hsorted : SortedBy id (h.store.byKey (keysOf T) k) := by
      rw [SortedBy, List.map_id]
      exact Store.byKey_pairwise _ _ _
    simp only [take_till hsorted, first_rchunk]
    rw [if_neg (by omega)]
    apply hs.read_logs hT
    intro id hid
    have hbelow : id ∈ h.store.byKey (keysOf T) k := by
      have hid := List.mem_of_mem_drop hid
      unfold below at hid
      split at hid
      · exact hid
      · exact (List.mem_filter.mp hid).1
    exact (List.mem_filter.mp hbelow).1

end StorageHistory.Indexed

end stored

/-! ## Over the calls -/

namespace StorageHistory

section runs

variable {T : StorageLogTrait K} {ok : List Byte → Prop} {h : StorageHistory K}

theorem call_refused {c : StorageCall} (hc : ¬ h.Accepts T c) : h.call T c = h := by
  cases c with
  | flush grow logs =>
    simp only [call]
    split
    · rfl
    · rename_i hflush
      rw [StorageCanister.flush_error hflush]
    · rename_i data hflush
      exact absurd ⟨data, hflush⟩ hc
  | cm_update_log log_id log_b =>
    simp only [call]
    split
    · rfl
    · rename_i data hupdate
      exact absurd ⟨data, hupdate⟩ hc
  | controller_mark_full mark => exact absurd trivial hc

theorem call_flush {grow : Bool} {logs : List (List Byte)} {data : StorageCanister K}
    (hflush : h.data.flush T grow logs.flatten = some (.ok (), data)) :
    h.call T (.flush grow logs) = {
      data := data
      store := h.store.append (T.log_id_of_the_log_serialization logs.flatten) logs
      written := h.written ++
        logs.map fun log => (T.log_id_of_the_log_serialization log, log) } := by
  simp only [call, hflush]

theorem call_update {log_id : Nat} {log_b : List Byte} {data : StorageCanister K}
    (hupdate : h.data.cm_update_log log_id log_b = some data) :
    h.call T (.cm_update_log log_id log_b) = {
      data := data
      store := h.store.set log_id log_b
      written := h.written ++ [(log_id, log_b)] } := by
  simp only [call, hupdate]

theorem Stored.call (hT : T.Lawful) (hs : h.Stored T) {c : StorageCall}
    (hp : h.Promised T ok c) : (h.call T c).Stored T := by
  by_cases hc : h.Accepts T c
  · cases c with
    | flush grow logs =>
      obtain ⟨hne, hsized, -, first, hids, hnext⟩ := hp
      obtain ⟨data, hflush⟩ := hc
      rw [call_flush hflush]
      exact hs.flush hT hne hsized hids hnext hflush
    | cm_update_log log_id log_b =>
      obtain ⟨hid, hlog, -⟩ := hp
      obtain ⟨data, hupdate⟩ := hc
      rw [call_update hupdate]
      exact (hs.update hT (Nat.sub_lt_of_lt hid) hlog hupdate).2
    | controller_mark_full mark =>
      exact ⟨hs.size, hs.sized, hs.memory, hs.first, hs.room, hs.ids, hs.written⟩
  · rw [call_refused hc]
    exact hs

theorem Indexed.call (hT : T.Lawful) (hok : ∀ log, ok log → (keysOf T log).Nodup)
    (hs : h.Stored T) (hi : h.Indexed T) {c : StorageCall} (hp : h.Promised T ok c) :
    (h.call T c).Indexed T := by
  by_cases hc : h.Accepts T c
  · cases c with
    | flush grow logs =>
      obtain ⟨hne, hsized, hlogs, first, hids, hnext⟩ := hp
      obtain ⟨data, hflush⟩ := hc
      have hkeys : ∀ log ∈ logs, (keysOf T log).Nodup := fun log hlog => hok log (hlogs log hlog)
      rw [call_flush hflush]
      exact hi.flush hT hs hne hsized hkeys hids hnext hflush
    | cm_update_log log_id log_b =>
      obtain ⟨hid, hlog, hkeys⟩ := hp
      obtain ⟨data, hupdate⟩ := hc
      rw [call_update hupdate]
      exact hi.update hT hs (Nat.sub_lt_of_lt hid) hlog hkeys hupdate
    | controller_mark_full mark => exact hi
  · rw [call_refused hc]
    exact hi

theorem Reachable.stored (hT : T.Lawful) (hr : Reachable T ok h) : h.Stored T := by
  induction hr with
  | init => exact Stored.init T
  | call _ hp ih => exact ih.call hT hp

theorem Reachable.indexed (hT : T.Lawful) (hok : ∀ log, ok log → (keysOf T log).Nodup)
    (hr : Reachable T ok h) : h.Indexed T := by
  induction hr with
  | init =>
    intro k
    rfl
  | call hr hp ih => exact ih.call hT hok (hr.stored hT) hp

theorem call_written (T : StorageLogTrait K) (h : StorageHistory K) (c : StorageCall) :
    ∃ written, (h.call T c).written = h.written ++ written ∧
      ∀ w ∈ written, w.1 ∈ carried T c := by
  by_cases hc : h.Accepts T c
  · cases c with
    | flush grow logs =>
      obtain ⟨data, hflush⟩ := hc
      rw [call_flush hflush]
      refine ⟨_, rfl, fun w hw => ?_⟩
      obtain ⟨log, hlog, rfl⟩ := List.mem_map.mp hw
      exact List.mem_map_of_mem hlog
    | cm_update_log log_id log_b =>
      obtain ⟨data, hupdate⟩ := hc
      rw [call_update hupdate]
      exact ⟨_, rfl, by simp [carried]⟩
    | controller_mark_full mark => exact ⟨[], (List.append_nil _).symm, by simp⟩
  · rw [call_refused hc]
    exact ⟨[], (List.append_nil _).symm, by simp⟩

/-- The canister is an array of logs with an index. -/
structure ActsAsStore (T : StorageLogTrait K) (ok : List Byte → Prop) (h : StorageHistory K) :
    Prop where
  refused : ∀ c, ¬ h.Accepts T c → (h.call T c).data = h.data
  contents : ∀ id, h.store.get id = lastWritten h.written id
  read : ∀ id log, lastWritten h.written id = some log → h.data.read_log id = some log
  others : ∀ c, h.Promised T ok c → ∀ id log, h.data.read_log id = some log →
    id ∈ h.store.ids → id ∉ carried T c → (h.call T c).data.read_log id = some log
  increasing : ∀ k, (h.store.byKey (keysOf T) k).Pairwise (· < ·)
  rchunks : ∀ k opt_start_before_id chunk_size, 1 ≤ chunk_size →
    h.data.map_logs_rchunks k opt_start_before_id chunk_size =
      some ((newest chunk_size (below opt_start_before_id
        (h.store.byKey (keysOf T) k))).filterMap h.store.get).flatten

theorem Stored.acts (hT : T.Lawful) (hs : h.Stored T) (hi : h.Indexed T) :
    h.ActsAsStore T ok where
  refused _ hc := congrArg StorageHistory.data (call_refused hc)
  contents id := (hs.written id).symm
  read id log hlast := hs.read hT ((hs.written id).symm.trans hlast)
  others c hp id log hread hid hnot := by
    obtain ⟨old, hold⟩ := Option.isSome_iff_exists.mp (Store.get_isSome.mpr hid)
    have hs' := hs.call hT hp
    obtain ⟨written, hwritten, hcarried⟩ := call_written T h c
    have hlast : lastWritten written id = none := by
      refine lastWritten_of_notMem fun w hw heq => hnot ?_
      rw [← heq]
      exact hcarried w hw
    have hkept : (h.call T c).store.get id = some old := by
      rw [← hs'.written, hwritten, lastWritten_append, hlast, Option.none_or, hs.written, hold]
    rw [hs'.read hT hkept, ← hread, hs.read hT hold]
  increasing k := Store.byKey_pairwise _ k _
  rchunks k opt_start_before_id _ hchunk := hi.rchunk hT hs k opt_start_before_id hchunk

end runs

end StorageHistory

/-! ## The two kinds of logs -/

theorem from_be_bytes_lt (bytes : List Byte) : from_be_bytes bytes < 256 ^ bytes.length := by
  induction bytes using List.reverseRecOn with
  | nil => simp [from_be_bytes]
  | append_singleton bytes b ih =>
    have hb : b.toNat < 256 := b.toNat_lt
    rw [from_be_bytes_snoc, List.length_append, List.length_singleton, Nat.pow_succ]
    omega

theorem from_be_bytes_slice_lt (start : Nat) (bytes : List Byte) :
    from_be_bytes (slice start 16 bytes) < 2 ^ 128 := by
  have hlen : (slice start 16 bytes).length ≤ 16 := List.length_take_le _ _
  calc
    from_be_bytes (slice start 16 bytes)
    _ < 256 ^ (slice start 16 bytes).length := from_be_bytes_lt _
    _ ≤ 256 ^ 16 := Nat.pow_le_pow_right (by decide) hlen
    _ = 2 ^ 128 := by decide

theorem PositionLog.storage_lawful : PositionLog.storage.Lawful where
  size_pos := by decide
  id_lt _ := from_be_bytes_slice_lt _ _

theorem TradeLog.storage_lawful : TradeLog.storage.Lawful where
  size_pos := by decide
  id_lt _ := from_be_bytes_slice_lt _ _

theorem PositionLog.keys_nodup (log_b : List Byte) : (keysOf PositionLog.storage log_b).Nodup := by
  simp only [keysOf, PositionLog.storage]
  cases thirty_bytes_as_principal (slice 18 30 log_b) with
  | none => simp
  | some p => simp

/-- The trade is between two positions. -/
def TradeLog.betweenTwo (log_b : List Byte) : Prop :=
  from_be_bytes (slice 2 16 log_b) ≠ from_be_bytes (slice 191 16 log_b)

theorem TradeLog.keys_nodup {log_b : List Byte} (h : TradeLog.betweenTwo log_b) :
    (keysOf TradeLog.storage log_b).Nodup := by
  unfold TradeLog.betweenTwo at h
  simpa [keysOf, TradeLog.storage] using h

/-- A storage canister is an append-only array of its logs with an index. -/
theorem storage_canisters_index_their_logs :
    (∀ h, StorageHistory.Reachable PositionLog.storage (fun _ => True) h →
      h.ActsAsStore PositionLog.storage fun _ => True) ∧
    (∀ h, StorageHistory.Reachable TradeLog.storage TradeLog.betweenTwo h →
      h.ActsAsStore TradeLog.storage TradeLog.betweenTwo) := by
  constructor
  · intro h hr
    have hok : ∀ log, True → (keysOf PositionLog.storage log).Nodup :=
      fun log _ => PositionLog.keys_nodup log
    have hT := PositionLog.storage_lawful
    exact (hr.stored hT).acts hT (hr.indexed hT hok)
  · intro h hr
    have hok : ∀ log, TradeLog.betweenTwo log → (keysOf TradeLog.storage log).Nodup :=
      fun _ hlog => TradeLog.keys_nodup hlog
    have hT := TradeLog.storage_lawful
    exact (hr.stored hT).acts hT (hr.indexed hT hok)

namespace StorageHistory

variable {T : StorageLogTrait K} {ok : List Byte → Prop} {h : StorageHistory K} {grow : Bool}

omit [DecidableEq K] in
theorem Promised.flush {logs : List (List Byte)} (first : Nat)
    (hp : logs ≠ [] ∧ (∀ log ∈ logs, log.length = T.STABLE_MEMORY_SERIALIZE_SIZE ∧ ok log) ∧
      logs.map T.log_id_of_the_log_serialization = List.range' first logs.length ∧
      (h.store.logs ≠ [] → first = h.store.next)) : h.Promised T ok (.flush grow logs) :=
  ⟨hp.1, fun log hl => (hp.2.1 log hl).1, fun log hl => (hp.2.1 log hl).2, first, hp.2.2⟩

omit [DecidableEq K] in
theorem Promised.cm_update_log {log_id : Nat} {log_b : List Byte}
    (hp : log_id < 2 ^ 64 ∧ T.log_id_of_the_log_serialization log_b = log_id ∧
      ∀ old ∈ h.store.get log_id, T.index_keys_of_the_log_serialization log_b =
        T.index_keys_of_the_log_serialization old) :
    h.Promised T ok (.cm_update_log log_id log_b) := hp

def PromisedAll (T : StorageLogTrait K) (ok : List Byte → Prop) :
    StorageHistory K → List StorageCall → Prop
  | _, [] => True
  | h, c :: calls => h.Promised T ok c ∧ PromisedAll T ok (h.call T c) calls

theorem Reachable.calls {calls : List StorageCall} (r : Reachable T ok h)
    (hp : h.PromisedAll T ok calls) : Reachable T ok (calls.foldl (StorageHistory.call T) h) := by
  induction calls generalizing h with
  | nil => exact r
  | cons c calls ih => exact ih (r.call hp.1) hp.2

end StorageHistory

namespace Sample

/-- A position log with an id and a last byte. -/
def positionLog (id last : Nat) : List Byte :=
  List.replicate 17 0 ++ id.toUInt8 :: (List.replicate 153 0 ++ [last.toUInt8])

/-- A log of a trade of two positions. -/
def tradeLog (id matchee matcher : Nat) : List Byte :=
  List.replicate 17 0 ++ matchee.toUInt8 :: (List.replicate 15 0 ++ id.toUInt8 ::
    (List.replicate 172 0 ++ matcher.toUInt8 :: List.replicate 18 0))

/-- The update of position 9 is refused, since there is no such log, and so is the last flush, since
the canister is marked as full. -/
def positionCalls : List StorageCall :=
  [.flush true [positionLog 0 0, positionLog 1 0, positionLog 2 0],
    .cm_update_log 1 (positionLog 1 7), .cm_update_log 9 (positionLog 9 7),
    .flush true [positionLog 3 0, positionLog 4 0], .controller_mark_full true,
    .flush true [positionLog 5 0]]

def positionCanister : StorageHistory Principal :=
  positionCalls.foldl (StorageHistory.call PositionLog.storage) (.init PositionLog.storage)

/-- The last flush is refused, since the memory does not grow. -/
def tradeCalls : List StorageCall :=
  [.flush true [tradeLog 0 0 1, tradeLog 1 2 0], .flush true [tradeLog 2 1 2, tradeLog 3 0 2],
    .flush false [tradeLog 4 0 1]]

def tradeCanister : StorageHistory PositionId :=
  tradeCalls.foldl (StorageHistory.call TradeLog.storage) (.init TradeLog.storage)

theorem positionCanister_reachable :
    StorageHistory.Reachable PositionLog.storage (fun _ => True) positionCanister := by
  refine .calls .init ⟨?_, ?_, ?_, ?_, trivial, ?_, trivial⟩
  · exact .flush 0 (by decide +kernel)
  · exact .cm_update_log (by decide +kernel)
  · exact .cm_update_log (by decide +kernel)
  · exact .flush 3 (by decide +kernel)
  · exact .flush 5 (by decide +kernel)

theorem tradeCanister_reachable :
    StorageHistory.Reachable TradeLog.storage TradeLog.betweenTwo tradeCanister := by
  unfold TradeLog.betweenTwo
  refine .calls .init ⟨?_, ?_, ?_, trivial⟩
  · exact .flush 0 (by decide +kernel)
  · exact .flush 2 (by decide +kernel)
  · exact .flush 4 (by decide +kernel)

end Sample

theorem two_canisters_index_their_logs :
    (Sample.positionCanister.written.map Prod.fst = [0, 1, 2, 1, 3, 4] ∧
        Sample.tradeCanister.written.map Prod.fst = [0, 1, 2, 3] ∧
        Sample.tradeCanister.store.byKey (keysOf TradeLog.storage) 0 = [0, 1, 3]) ∧
      Sample.positionCanister.ActsAsStore PositionLog.storage (fun _ => True) ∧
      Sample.tradeCanister.ActsAsStore TradeLog.storage TradeLog.betweenTwo :=
  ⟨by decide +kernel,
    storage_canisters_index_their_logs.1 _ Sample.positionCanister_reachable,
    storage_canisters_index_their_logs.2 _ Sample.tradeCanister_reachable⟩

/-- A trade of a position with itself is in the reply twice. -/
theorem one_position_on_both_sides :
    ¬ ∀ h, StorageHistory.Reachable TradeLog.storage (fun _ => True) h →
      h.ActsAsStore TradeLog.storage fun _ => True := by
  intro hall
  have hr : StorageHistory.Reachable TradeLog.storage (fun _ => True)
      ((StorageHistory.init TradeLog.storage).call TradeLog.storage
        (.flush true [List.replicate 225 0])) := .call .init (.flush 0 (by decide +kernel))
  have hreply := (hall _ hr).rchunks 0 none 2 (by decide)
  revert hreply
  decide +kernel

end Cts.Tc
