import Cts.Tc.Types
import Cts.Lib.BinarySearch
import Cts.Lib.Records

/-!
# Storage canisters

`cm_storage_lib`, with the two kinds of logs that it stores. A canister keeps whole logs one after
another and an index of their ids. A `none` is a trap: the call fails without an effect.
-/

namespace Cts.Tc

open Lib

/-! ## Logs -/

/-- `u128::from_be_bytes`. -/
def from_be_bytes (bytes : List Byte) : Nat := bytes.foldl (fun n b => n * 256 + b.toNat) 0

theorem from_be_bytes_snoc (bytes : List Byte) (b : Byte) :
    from_be_bytes (bytes ++ [b]) = from_be_bytes bytes * 256 + b.toNat := by
  simp [from_be_bytes]

theorem from_be_bytes_to_be_bytes (len n : Nat) :
    from_be_bytes (to_be_bytes len n) = n % 256 ^ len := by
  induction len generalizing n with
  | zero => simp [to_be_bytes, from_be_bytes, Nat.mod_one]
  | succ len ih =>
    calc
      from_be_bytes (to_be_bytes (len + 1) n)
      _ = from_be_bytes (to_be_bytes len (n / 256)) * 256 + n % 256 := by
        rw [to_be_bytes, from_be_bytes_snoc]
        simp
      _ = n % 256 + 256 * (n / 256 % 256 ^ len) := by
        rw [ih]
        omega
      _ = n % 256 ^ (len + 1) := by
        rw [Nat.pow_succ', Nat.mod_mul]

def slice (start len : Nat) (bytes : List Byte) : List Byte := (bytes.drop start).take len

/-- What the storage lib is given for a kind of log. The id of a log is in its own bytes. -/
structure StorageLogTrait (K : Type) where
  STABLE_MEMORY_SERIALIZE_SIZE : Nat
  log_id_of_the_log_serialization : List Byte → Nat
  index_keys_of_the_log_serialization : List Byte → Option (List K)
  size_of_key : Nat
  log_id_append : ∀ a b : List Byte, a.length = STABLE_MEMORY_SERIALIZE_SIZE →
    log_id_of_the_log_serialization (a ++ b) = log_id_of_the_log_serialization a

theorem slice_append {start len : Nat} {a b : List Byte} (h : start + len ≤ a.length) :
    slice start len (a ++ b) = slice start len a := by
  unfold slice
  rw [List.drop_append_of_le_length (by omega), List.take_append_of_le_length]
  rw [List.length_drop]
  omega

def PositionLog.storage : StorageLogTrait Principal where
  STABLE_MEMORY_SERIALIZE_SIZE := PositionLog.STABLE_MEMORY_SERIALIZE_SIZE
  log_id_of_the_log_serialization log_b := from_be_bytes (slice 2 16 log_b)
  index_keys_of_the_log_serialization log_b :=
    (thirty_bytes_as_principal (slice 18 30 log_b)).map fun p => [p]
  size_of_key := 30
  log_id_append a b h := by
    rw [slice_append (by rw [h]; decide)]

def TradeLog.storage : StorageLogTrait PositionId where
  STABLE_MEMORY_SERIALIZE_SIZE := TradeLog.STABLE_MEMORY_SERIALIZE_SIZE
  log_id_of_the_log_serialization log_b := from_be_bytes (slice 18 16 log_b)
  index_keys_of_the_log_serialization log_b :=
    some [from_be_bytes (slice 2 16 log_b), from_be_bytes (slice 191 16 log_b)]
  size_of_key := 16
  log_id_append a b h := by
    rw [slice_append (by rw [h]; decide)]

/-! ## The canister -/

def MAX_STABLE_LOGS_STORAGE_BYTES : Nat := 20 * 1024 ^ 3
def MAX_HEAP_HASHMAP_SIZE : Nat := 1024 ^ 3

inductive FlushError
  | StorageIsFull
  deriving DecidableEq

abbrev FlushResult := Except FlushError Unit

structure StorageCanister (K : Type) where
  log_size : Nat
  first_log_id : Nat
  /-- The first `logs_memory_i` bytes of the logs memory. -/
  logs_memory : List Byte
  controller_mark_full : Bool
  map : List (K × List Nat)

variable {K : Type} [DecidableEq K]

def StorageCanister.init (log_size : Nat) : StorageCanister K :=
  { log_size := log_size
    first_log_id := 0
    logs_memory := []
    controller_mark_full := false
    map := [] }

def StorageCanister.logs_memory_i (data : StorageCanister K) : Nat := data.logs_memory.length

/-- `map.entry(index_key).or_insert(Vec::new()).push(id)`. -/
def map_push (map : List (K × List Nat)) (index_key : K) (id : Nat) : List (K × List Nat) :=
  if map.any (fun e => e.1 = index_key) then
    map.map fun e => if e.1 = index_key then (e.1, e.2 ++ [id]) else e
  else map ++ [(index_key, [id])]

/-- The loop over the logs of a flush. -/
def index_logs (T : StorageLogTrait K) (log_size : Nat) (bytes : List Byte) :
    List Nat → List (K × List Nat) → Option (List (K × List Nat))
  | [], map => some map
  | i :: rest, map =>
    let log_slice := slice (i * log_size) log_size bytes
    match T.index_keys_of_the_log_serialization log_slice with
    | none => none
    | some keys => index_logs T log_size bytes rest
        (keys.foldl (fun map k => map_push map k (T.log_id_of_the_log_serialization log_slice)) map)

/-- `grow` tells whether the stable memory can grow. -/
def StorageCanister.flush (T : StorageLogTrait K) (grow : Bool) (data : StorageCanister K)
    (bytes : List Byte) : Option (FlushResult × StorageCanister K) :=
  if data.controller_mark_full then some (.error .StorageIsFull, data)
  else if bytes.length % data.log_size ≠ 0 then none
  else if MAX_STABLE_LOGS_STORAGE_BYTES < data.logs_memory_i + bytes.length then
    some (.error .StorageIsFull, data)
  else if MAX_HEAP_HASHMAP_SIZE ≤ data.map.length * T.size_of_key +
      (data.logs_memory_i + bytes.length) / data.log_size * 16 then
    some (.error .StorageIsFull, data)
  else if grow = false then some (.error .StorageIsFull, data)
  else
    (index_logs T data.log_size bytes (List.range (bytes.length / data.log_size)) data.map).map
      fun map => (.ok (), { data with
        first_log_id :=
          if data.logs_memory_i = 0 then T.log_id_of_the_log_serialization bytes
          else data.first_log_id
        logs_memory := data.logs_memory ++ bytes
        map := map })

def StorageCanister.cm_update_log (data : StorageCanister K) (log_id : Nat) (log_b : List Byte) :
    Option (StorageCanister K) :=
  if log_b.length ≠ data.log_size then none
  else if log_id < data.first_log_id then none
  else
    let log_start_memory_i := Word.wrap 64 (log_id - data.first_log_id) * data.log_size
    if 2 ^ 64 ≤ log_start_memory_i then none
    else if data.logs_memory_i < data.log_size then none
    else if data.logs_memory_i - data.log_size < log_start_memory_i then none
    else some { data with
      logs_memory := Records.writeAt log_start_memory_i log_b data.logs_memory }

/-- `log_storage_memory.read`. A read behind the logs is taken for a trap. -/
def StorageCanister.read_memory (data : StorageCanister K) (start len : Nat) :
    Option (List Byte) :=
  if start + len ≤ data.logs_memory_i then some (slice start len data.logs_memory) else none

def StorageCanister.read_log (data : StorageCanister K) (log_id : Nat) : Option (List Byte) :=
  let log_i := Word.wrap 64 (Word.sub 128 log_id data.first_log_id)
  data.read_memory (Word.mul 64 log_i data.log_size) data.log_size

/-- The loop over the ids of a chunk. Each log is appended to the reply. -/
def StorageCanister.read_logs (data : StorageCanister K) : List Nat → Option (List Byte)
  | [] => some []
  | log_id :: rest =>
    match data.read_log log_id with
    | none => none
    | some log_b => (data.read_logs rest).map fun reply => log_b ++ reply

def map_get (map : List (K × List Nat)) (k : K) : Option (List Nat) :=
  (map.find? fun e => e.1 = k).map Prod.snd

/-- `rchunks(chunk_size).next()`, which traps on chunks of no elements. -/
def first_rchunk (chunk_size : Nat) (vec : List Nat) : Option (List Nat) :=
  if chunk_size = 0 then none else some (vec.drop (vec.length - chunk_size))

/-- The end of the ids before the start id. -/
def till_start_before_id (vec : List Nat) : Option Nat → Nat
  | none => vec.length
  | some start_before_id => searchPoint vec start_before_id id

/-- The reply holds the bytes of the logs, one after another. -/
def StorageCanister.map_logs_rchunks (data : StorageCanister K) (k : K)
    (opt_start_before_id : Option Nat) (chunk_size : Nat) : Option (List Byte) :=
  match map_get data.map k with
  | none => some []
  | some vec =>
    match first_rchunk chunk_size (vec.take (till_start_before_id vec opt_start_before_id)) with
    | none => none
    | some rchunk => data.read_logs rchunk

theorem StorageCanister.flush_spec {T : StorageLogTrait K} {grow : Bool}
    {data data' : StorageCanister K} {bytes : List Byte} {r : FlushResult}
    (h : data.flush T grow bytes = some (r, data')) :
    (r = .error .StorageIsFull ∧ data' = data) ∨
      (r = .ok () ∧ data'.log_size = data.log_size ∧
        data'.logs_memory = data.logs_memory ++ bytes ∧
        data'.first_log_id = if data.logs_memory = [] then T.log_id_of_the_log_serialization bytes
          else data.first_log_id) := by
  unfold StorageCanister.flush at h
  split at h
  · exact Or.inl (by simpa [eq_comm] using h)
  split at h
  · cases h
  iterate 3
    split at h
    · exact Or.inl (by simpa [eq_comm] using h)
  obtain ⟨map, -, heq⟩ := Option.map_eq_some_iff.mp h
  obtain ⟨rfl, rfl⟩ := Prod.mk.inj heq
  exact Or.inr ⟨rfl, rfl, rfl, by simp [StorageCanister.logs_memory_i]⟩

end Cts.Tc
