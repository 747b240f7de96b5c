import Cts.Tc.StorageCanister

/-!
# Flushing logs

`flush_logs/mod.rs`. A run takes the lock, finds or creates a storage canister and sends it the
buffer chunk by chunk. Between two of its steps it waits for one call, and the rest of the contract
goes on.
-/

namespace Cts.Tc

open Lib

/-! ## Data -/

inductive CreateStorageCanisterError
  | CyclesBalanceTooLow (cycles_balance : Nat)
  | CreateCanisterCallError (e : CallError)
  | InstallCodeCandidError (e : String)
  | InstallCodeCallError (e : CallError)
  deriving DecidableEq

inductive FlushLogsStorageError
  | CreateStorageCanisterError (e : CreateStorageCanisterError)
  | StorageCanisterCallError (e : CallError)
  | NewStorageCanisterIsFull
  deriving DecidableEq

structure StorageCanisterData where
  log_size : Nat
  first_log_id : Nat
  length : Nat
  is_full : Bool
  canister_id : Principal
  creation_timestamp : Nat
  module_hash : List Byte
  deriving DecidableEq

structure LogStorageData where
  storage_canisters : List StorageCanisterData
  storage_buffer : List Byte
  storage_flush_lock : Bool
  create_storage_canister_temp_holder : Option Principal
  flush_storage_errors : List (FlushLogsStorageError × Nat)
  storage_canister_code_module_hash : List Byte
  storage_canister_init_log_size : Nat
  deriving DecidableEq

def LogStorageData.new (log_size : Nat) (module_hash : List Byte) : LogStorageData :=
  { storage_canisters := []
    storage_buffer := []
    storage_flush_lock := false
    create_storage_canister_temp_holder := none
    flush_storage_errors := []
    storage_canister_code_module_hash := module_hash
    storage_canister_init_log_size := log_size }

/-- The two constants differ between a release build and a debug build. -/
structure FlushConfig where
  FLUSH_STORAGE_BUFFER_AT_SIZE : Nat
  FLUSH_STORAGE_BUFFER_CHUNK_SIZE_BEFORE_MODULO : Nat

def FlushConfig.release : FlushConfig := ⟨5 * 1024 ^ 2, 1024 ^ 2 + 512 * 1024⟩
def FlushConfig.debug : FlushConfig := ⟨1024, 512⟩

def CREATE_STORAGE_CANISTER_CYCLES : Nat := 20 * 1000000000000

/-- What a step of a flush reads from outside. A candid error is one of the encoder. -/
structure FlushEnv where
  now : Nat
  canister_balance : Nat
  candid_error : Option String

inductive FlushCall
  | sent
  | answered (r : Except CallError FlushResult)

/-- The call that a run waits for. -/
inductive FlushRun
  | creating
  | installing (canister_id : Principal) (log_size : Nat) (module_hash : List Byte)
  | flushing (canister_id : Principal) (bytes : List Byte) (chunk_size : Nat)
      (chunk_sizes : List Nat) (call : FlushCall)

/-! ## From call to call

Each function goes up to the next call of the run or to its end. -/

/-- `data.last_mut()`. -/
def modify_last (f : StorageCanisterData → StorageCanisterData) (l : List StorageCanisterData) :
    List StorageCanisterData :=
  match l.getLast? with
  | none => []
  | some c => l.dropLast ++ [f c]

namespace LogStorageData

def create_failed (data : LogStorageData) (env : FlushEnv) (e : CreateStorageCanisterError) :
    LogStorageData × Option FlushRun :=
  ({ data with
      storage_flush_lock := false
      flush_storage_errors :=
        data.flush_storage_errors ++ [(.CreateStorageCanisterError e, env.now)] }, none)

def max_chunk_size (cfg : FlushConfig) (log_size : Nat) : Nat :=
  cfg.FLUSH_STORAGE_BUFFER_CHUNK_SIZE_BEFORE_MODULO -
    cfg.FLUSH_STORAGE_BUFFER_CHUNK_SIZE_BEFORE_MODULO % log_size

/-- The lengths of `chunks(max)` of `len` bytes. -/
def chunk_sizes (max len : Nat) : List Nat :=
  List.replicate (len / max) max ++ if len % max = 0 then [] else [len % max]

/-- One turn of the loop over the chunks. -/
def flush_chunk (data : LogStorageData) (canister_id : Principal) :
    List Nat → LogStorageData × Option FlushRun
  | [] => ({ data with storage_flush_lock := false }, none)
  | chunk_size :: rest =>
    (data, some (.flushing canister_id (data.storage_buffer.take chunk_size) chunk_size rest .sent))

def flush_chunks (cfg : FlushConfig) (data : LogStorageData) (canister_id : Principal) :
    LogStorageData × Option FlushRun :=
  match data.storage_canisters.getLast? with
  | none => (data, none)
  | some c =>
    -- `chunks` panics at a size of zero, and the lock is kept.
    if max_chunk_size cfg c.log_size = 0 then (data, none)
    else data.flush_chunk canister_id
      (chunk_sizes (max_chunk_size cfg c.log_size) data.storage_buffer.length)

def install_code (data : LogStorageData) (env : FlushEnv) (canister_id : Principal) :
    LogStorageData × Option FlushRun :=
  match env.candid_error with
  | some e => data.create_failed env (.InstallCodeCandidError e)
  | none => (data, some (.installing canister_id data.storage_canister_init_log_size
      data.storage_canister_code_module_hash))

def create_storage_canister (data : LogStorageData) (env : FlushEnv) :
    LogStorageData × Option FlushRun :=
  match data.create_storage_canister_temp_holder with
  | some canister_id =>
    let data := { data with create_storage_canister_temp_holder := none }
    data.install_code env canister_id
  | none =>
    if env.canister_balance < CREATE_STORAGE_CANISTER_CYCLES + 20 * 1000000000000 then
      data.create_failed env (.CyclesBalanceTooLow env.canister_balance)
    else (data, some .creating)

def flush_logs (cfg : FlushConfig) (data : LogStorageData) (env : FlushEnv) :
    LogStorageData × Option FlushRun :=
  if cfg.FLUSH_STORAGE_BUFFER_AT_SIZE ≤ data.storage_buffer.length ∧
      data.storage_flush_lock = false then
    let data := { data with storage_flush_lock := true }
    match data.storage_canisters.getLast? with
    | none => data.create_storage_canister env
    | some c =>
      if c.is_full then data.create_storage_canister env
      else data.flush_chunks cfg c.canister_id
  else (data, none)

def create_canister_reply (data : LogStorageData) (env : FlushEnv) :
    Except CallError Principal → LogStorageData × Option FlushRun
  | .ok canister_id => data.install_code env canister_id
  | .error e => data.create_failed env (.CreateCanisterCallError e)

def new_storage_canister (data : LogStorageData) (env : FlushEnv) (canister_id : Principal)
    (log_size : Nat) (module_hash : List Byte) : StorageCanisterData :=
  { log_size := log_size
    first_log_id :=
      (data.storage_canisters.getLast?.map fun c => c.first_log_id + c.length).getD 0
    length := 0
    is_full := false
    canister_id := canister_id
    creation_timestamp := env.now
    module_hash := module_hash }

def install_code_reply (cfg : FlushConfig) (data : LogStorageData) (env : FlushEnv)
    (canister_id : Principal) (log_size : Nat) (module_hash : List Byte) :
    Except CallError Unit → LogStorageData × Option FlushRun
  | .ok () =>
    let data := { data with
      storage_canisters := data.storage_canisters ++
        [data.new_storage_canister env canister_id log_size module_hash] }
    data.flush_chunks cfg canister_id
  | .error e =>
    let data := { data with create_storage_canister_temp_holder := some canister_id }
    data.create_failed env (.InstallCodeCallError e)

def flush_reply (data : LogStorageData) (env : FlushEnv) (canister_id : Principal)
    (chunk_size : Nat) (rest : List Nat) :
    Except CallError FlushResult → LogStorageData × Option FlushRun
  | .ok (.ok ()) =>
    let data := { data with
      storage_canisters := modify_last
        (fun c => { c with length := c.length + chunk_size / c.log_size }) data.storage_canisters
      storage_buffer := data.storage_buffer.drop chunk_size }
    data.flush_chunk canister_id rest
  | .ok (.error .StorageIsFull) =>
    ({ data with
      storage_canisters := modify_last (fun c => { c with is_full := true }) data.storage_canisters
      storage_flush_lock := false }, none)
  | .error e =>
    ({ data with
      flush_storage_errors := data.flush_storage_errors ++ [(.StorageCanisterCallError e, env.now)]
      storage_flush_lock := false }, none)

end LogStorageData

/-! ## The storage and its canisters -/

/-- A log storage with the canisters it talks to and the flushes under way. `created` is every id
that the management canister has given. -/
structure LogStorage (K : Type) where
  data : LogStorageData
  canister : Principal → Option (StorageCanister K)
  flushes : List FlushRun
  created : List Principal

namespace LogStorage

variable {K : Type}

def new (log_size : Nat) (module_hash : List Byte) : LogStorage K :=
  { data := .new log_size module_hash
    canister := fun _ => none
    flushes := []
    created := [] }

/-- `storage_buffer.extend`. -/
def append (s : LogStorage K) (log : List Byte) : LogStorage K :=
  { s with data := { s.data with storage_buffer := s.data.storage_buffer ++ log } }

def flush_logs (cfg : FlushConfig) (env : FlushEnv) (s : LogStorage K) : LogStorage K :=
  let r := s.data.flush_logs cfg env
  { s with data := r.1, flushes := s.flushes ++ r.2.toList }

/-- The run between `before` and `after` goes on. -/
def resume (s : LogStorage K) (before after : List FlushRun)
    (r : LogStorageData × Option FlushRun) : LogStorage K :=
  { s with data := r.1, flushes := before ++ r.2.toList ++ after }

end LogStorage

variable {K : Type} [DecidableEq K]

/-- What can happen to the flushes under way. A call error has no effect on the storage canister,
and the management canister gives each canister id once. -/
inductive FlushStep (T : StorageLogTrait K) (cfg : FlushConfig) : LogStorage K → LogStorage K → Prop
  | canister_created {s : LogStorage K} {before after : List FlushRun} (env : FlushEnv)
      (canister_id : Principal) (h : s.flushes = before ++ .creating :: after)
      (hnew : canister_id ∉ s.created) :
      FlushStep T cfg s
        { (s.resume before after (s.data.create_canister_reply env (.ok canister_id))) with
          created := s.created ++ [canister_id] }
  | create_failed {s : LogStorage K} {before after : List FlushRun} (env : FlushEnv) (e : CallError)
      (h : s.flushes = before ++ .creating :: after) :
      FlushStep T cfg s (s.resume before after (s.data.create_canister_reply env (.error e)))
  | code_installed {s : LogStorage K} {before after : List FlushRun} {canister_id : Principal}
      {log_size : Nat} {module_hash : List Byte} (env : FlushEnv)
      (h : s.flushes = before ++ .installing canister_id log_size module_hash :: after) :
      FlushStep T cfg s
        { (s.resume before after
            (s.data.install_code_reply cfg env canister_id log_size module_hash (.ok ()))) with
          canister := Function.update s.canister canister_id (some (.init log_size)) }
  | install_failed {s : LogStorage K} {before after : List FlushRun} {canister_id : Principal}
      {log_size : Nat} {module_hash : List Byte} (env : FlushEnv) (e : CallError)
      (h : s.flushes = before ++ .installing canister_id log_size module_hash :: after) :
      FlushStep T cfg s (s.resume before after
        (s.data.install_code_reply cfg env canister_id log_size module_hash (.error e)))
  | flush_executed {s : LogStorage K} {before after : List FlushRun} {canister_id : Principal}
      {bytes : List Byte} {chunk_size : Nat} {rest : List Nat} {sc sc' : StorageCanister K}
      {grow : Bool} {r : FlushResult}
      (h : s.flushes = before ++ .flushing canister_id bytes chunk_size rest .sent :: after)
      (hsc : s.canister canister_id = some sc) (hf : sc.flush T grow bytes = some (r, sc')) :
      FlushStep T cfg s
        { s with
          canister := Function.update s.canister canister_id (some sc')
          flushes := before ++
            .flushing canister_id bytes chunk_size rest (.answered (.ok r)) :: after }
  | flush_failed {s : LogStorage K} {before after : List FlushRun} {canister_id : Principal}
      {bytes : List Byte} {chunk_size : Nat} {rest : List Nat} (e : CallError)
      (h : s.flushes = before ++ .flushing canister_id bytes chunk_size rest .sent :: after) :
      FlushStep T cfg s
        { s with
          flushes := before ++
            .flushing canister_id bytes chunk_size rest (.answered (.error e)) :: after }
  | flush_replied {s : LogStorage K} {before after : List FlushRun} {canister_id : Principal}
      {bytes : List Byte} {chunk_size : Nat} {rest : List Nat} {r : Except CallError FlushResult}
      (env : FlushEnv)
      (h : s.flushes = before ++
        .flushing canister_id bytes chunk_size rest (.answered r) :: after) :
      FlushStep T cfg s
        (s.resume before after (s.data.flush_reply env canister_id chunk_size rest r))
  | marked_full {s : LogStorage K} {canister_id : Principal} {sc : StorageCanister K} (mark : Bool)
      (hsc : s.canister canister_id = some sc) :
      FlushStep T cfg s
        { s with
          canister := Function.update s.canister canister_id
            (some { sc with controller_mark_full := mark }) }

end Cts.Tc
