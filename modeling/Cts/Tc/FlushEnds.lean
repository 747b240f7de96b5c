import Cts.Lib.BoundFor
import Cts.Tc.Flushed
import Cts.Tc.StoredLogs

/-!
# A full buffer can be flushed

Every run of `flush_logs` comes to its end: a canister that is full is followed by a new one, and a
new one takes the chunk that it is sent first.
-/

namespace Cts.Tc

open Lib

variable {K : Type} [DecidableEq K] {T : StorageLogTrait K} {cfg : FlushConfig}
  {s s' : LogStorage K} {data : LogStorageData} {env : FlushEnv} {canister_id : Principal}

/-! ## Chunks -/

/-- A chunk is not empty, and it is no longer than the limit. -/
def ChunkFits (cfg : FlushConfig) (chunk_size : Nat) : Prop :=
  0 < chunk_size ∧ chunk_size ≤ cfg.FLUSH_STORAGE_BUFFER_CHUNK_SIZE_BEFORE_MODULO

def FlushRun.ChunksFit (cfg : FlushConfig) : FlushRun → Prop
  | .flushing _ _ chunk_size chunk_sizes _ => ∀ x ∈ chunk_size :: chunk_sizes, ChunkFits cfg x
  | _ => True

def ChunksFit (cfg : FlushConfig) (run : Option FlushRun) : Prop :=
  ∀ r, run = some r → r.ChunksFit cfg

@[simp]
theorem chunks_fit_none : ChunksFit cfg none := by
  intro r hr
  cases hr

theorem chunk_sizes_fit {log_size len : Nat} (hmax : LogStorageData.max_chunk_size cfg log_size ≠ 0) :
    ∀ x ∈ LogStorageData.chunk_sizes (LogStorageData.max_chunk_size cfg log_size) len,
      ChunkFits cfg x := by
  intro x hx
  have hle : LogStorageData.max_chunk_size cfg log_size ≤
      cfg.FLUSH_STORAGE_BUFFER_CHUNK_SIZE_BEFORE_MODULO := Nat.sub_le _ _
  unfold LogStorageData.chunk_sizes at hx
  rcases List.mem_append.mp hx with hx | hx
  · rw [List.eq_of_mem_replicate hx]
    exact ⟨Nat.pos_of_ne_zero hmax, hle⟩
  · split_ifs at hx with hmod
    · cases hx
    · rw [List.mem_singleton.mp hx]
      have hlt := Nat.mod_lt len (Nat.pos_of_ne_zero hmax)
      exact ⟨Nat.pos_of_ne_zero hmod, by omega⟩

theorem flush_chunk_fits {chunk_sizes : List Nat} (h : ∀ x ∈ chunk_sizes, ChunkFits cfg x) :
    ChunksFit cfg (data.flush_chunk canister_id chunk_sizes).2 := by
  cases chunk_sizes with
  | nil => exact chunks_fit_none
  | cons x rest =>
    intro r hr
    obtain rfl := Option.some.inj hr
    exact h

theorem flush_chunks_fits : ChunksFit cfg (data.flush_chunks cfg canister_id).2 := by
  unfold LogStorageData.flush_chunks
  split
  · exact chunks_fit_none
  · split_ifs with hmax
    · exact chunks_fit_none
    · exact flush_chunk_fits (chunk_sizes_fit hmax)

theorem install_code_fits : ChunksFit cfg (data.install_code env canister_id).2 := by
  unfold LogStorageData.install_code
  split
  · exact chunks_fit_none
  · intro r hr
    obtain rfl := Option.some.inj hr
    trivial

theorem create_storage_canister_fits : ChunksFit cfg (data.create_storage_canister env).2 := by
  unfold LogStorageData.create_storage_canister
  split
  · exact install_code_fits
  · split_ifs
    · exact chunks_fit_none
    · intro r hr
      obtain rfl := Option.some.inj hr
      trivial

theorem flush_logs_fits : ChunksFit cfg (data.flush_logs cfg env).2 := by
  unfold LogStorageData.flush_logs
  split_ifs
  · simp only
    split
    · exact create_storage_canister_fits
    · split_ifs
      · exact create_storage_canister_fits
      · exact flush_chunks_fits
  · exact chunks_fit_none

theorem create_canister_reply_fits {r : Except CallError Principal} :
    ChunksFit cfg (data.create_canister_reply env r).2 := by
  cases r with
  | ok id => exact install_code_fits
  | error e => exact chunks_fit_none

theorem install_code_reply_fits {log_size : Nat} {module_hash : List Byte}
    {r : Except CallError Unit} :
    ChunksFit cfg (data.install_code_reply cfg env canister_id log_size module_hash r).2 := by
  cases r with
  | ok => exact flush_chunks_fits
  | error e => exact chunks_fit_none

theorem flush_reply_fits {chunk_size : Nat} {rest : List Nat} {r : Except CallError FlushResult}
    (h : ∀ x ∈ rest, ChunkFits cfg x) :
    ChunksFit cfg (data.flush_reply env canister_id chunk_size rest r).2 := by
  rcases r with e | (_ | _)
  · exact chunks_fit_none
  · exact chunks_fit_none
  · exact flush_chunk_fits h

/-- The chunks of every run fit. -/
def LogStorage.ChunksFit (cfg : FlushConfig) (s : LogStorage K) : Prop :=
  ∀ run ∈ s.flushes, run.ChunksFit cfg

omit [DecidableEq K] in
theorem resume_fits (h : s.ChunksFit cfg) {before after : List FlushRun} {run : FlushRun}
    (hf : s.flushes = before ++ run :: after) (next : Option FlushRun)
    (hnext : Tc.ChunksFit cfg next) (hs' : s'.flushes = before ++ next.toList ++ after) :
    s'.ChunksFit cfg := by
  intro r hr
  rw [hs'] at hr
  simp only [List.mem_append, Option.mem_toList] at hr
  rcases hr with (hr | hr) | hr
  · exact h r (by rw [hf]; simp [hr])
  · exact hnext r hr
  · exact h r (by rw [hf]; simp [hr])

theorem chunks_fit_step (h : s.ChunksFit cfg) (hstep : FlushStep T cfg s s') : s'.ChunksFit cfg := by
  cases hstep with
  | canister_created env id hf hnew => exact resume_fits h hf _ create_canister_reply_fits rfl
  | create_failed env e hf => exact resume_fits h hf _ create_canister_reply_fits rfl
  | code_installed env hf => exact resume_fits h hf _ install_code_reply_fits rfl
  | install_failed env e hf => exact resume_fits h hf _ install_code_reply_fits rfl
  | @flush_executed before after id bytes chunk rest sc sc' grow r hf hsc hflush =>
    refine resume_fits h hf (some (.flushing id bytes chunk rest (.answered (.ok r)))) ?_ (by simp)
    intro run hrun
    obtain rfl := Option.some.inj hrun
    exact h (.flushing id bytes chunk rest .sent) (by rw [hf]; simp)
  | @flush_failed before after id bytes chunk rest e hf =>
    refine resume_fits h hf (some (.flushing id bytes chunk rest (.answered (.error e)))) ?_ (by simp)
    intro run hrun
    obtain rfl := Option.some.inj hrun
    exact h (.flushing id bytes chunk rest .sent) (by rw [hf]; simp)
  | @flush_replied before after id bytes chunk rest r env hf =>
    refine resume_fits h hf _ (flush_reply_fits fun x hx => ?_) rfl
    have hrun := h (.flushing id bytes chunk rest (.answered r)) (by rw [hf]; simp)
    exact hrun x (List.mem_cons_of_mem _ hx)
  | marked_full mark hsc => exact h

omit [DecidableEq K] in
theorem chunks_fit_flush_logs (h : s.ChunksFit cfg) : (s.flush_logs cfg env).ChunksFit cfg := by
  intro r hr
  rcases List.mem_append.mp hr with hr | hr
  · exact h r hr
  · exact flush_logs_fits r (Option.mem_toList.mp hr)

theorem chunks_fit {st : LogStore K} (r : LogStoreReachable T cfg st) : st.storage.ChunksFit cfg := by
  induction r with
  | start h =>
    obtain ⟨module_hash, rfl⟩ := h
    intro run hrun
    cases hrun
  | next _ hstep ih =>
    cases hstep with
    | append log h => exact ih
    | flush_logs env => exact chunks_fit_flush_logs ih
    | flush h => exact chunks_fit_step ih h

/-! ## What a canister takes -/

/-- A canister that code was just installed in. -/
def StorageCanister.isNew (sc : StorageCanister K) : Bool :=
  sc.logs_memory.isEmpty && sc.map.isEmpty && !sc.controller_mark_full

omit [DecidableEq K] in
theorem isNew_iff {sc : StorageCanister K} :
    sc.isNew = true ↔ sc.logs_memory = [] ∧ sc.map = [] ∧ sc.controller_mark_full = false := by
  simp [StorageCanister.isNew, and_assoc]

omit [DecidableEq K] in
theorem isNew_init (log_size : Nat) :
    (StorageCanister.init log_size : StorageCanister K).isNew = true := rfl

/-- The logs in the bytes of a flush name their keys. -/
def KeysRead (T : StorageLogTrait K) (bytes : List Byte) : Prop :=
  ∀ i < bytes.length / T.STABLE_MEMORY_SERIALIZE_SIZE,
    (T.index_keys_of_the_log_serialization
      (slice (i * T.STABLE_MEMORY_SERIALIZE_SIZE) T.STABLE_MEMORY_SERIALIZE_SIZE bytes)).isSome

theorem index_logs_some {size : Nat} {bytes : List Byte} (idx : List Nat) (map : List (K × List Nat))
    (h : ∀ i ∈ idx, (T.index_keys_of_the_log_serialization (slice (i * size) size bytes)).isSome) :
    ∃ map', index_logs T size bytes idx map = some map' := by
  induction idx generalizing map with
  | nil => exact ⟨map, rfl⟩
  | cons i idx ih =>
    obtain ⟨keys, hkeys⟩ := Option.isSome_iff_exists.mp (h i List.mem_cons_self)
    rw [index_logs]
    simp only [hkeys]
    exact ih _ fun j hj => h j (List.mem_cons_of_mem _ hj)

theorem flush_answers {sc : StorageCanister K} {bytes : List Byte}
    (hsize : sc.log_size = T.STABLE_MEMORY_SERIALIZE_SIZE)
    (hdvd : T.STABLE_MEMORY_SERIALIZE_SIZE ∣ bytes.length) (hkeys : KeysRead T bytes) :
    ∃ r sc', sc.flush T true bytes = some (r, sc') := by
  obtain ⟨map, hmap⟩ : ∃ map, index_logs T sc.log_size bytes
      (List.range (bytes.length / sc.log_size)) sc.map = some map := by
    rw [hsize]
    exact index_logs_some _ _ fun i hi => hkeys i (List.mem_range.mp hi)
  unfold StorageCanister.flush
  split
  · exact ⟨_, _, rfl⟩
  rw [if_neg (not_not.mpr (by rw [hsize]; exact Nat.mod_eq_zero_of_dvd hdvd))]
  iterate 2
    split
    · exact ⟨_, _, rfl⟩
  rw [if_neg (by decide), hmap]
  exact ⟨_, _, rfl⟩

theorem new_canister_takes {sc sc' : StorageCanister K} {bytes : List Byte} {r : FlushResult}
    (hnew : sc.isNew = true) (hlen : bytes.length * 16 < MAX_HEAP_HASHMAP_SIZE)
    (h : sc.flush T true bytes = some (r, sc')) : r = .ok () := by
  obtain ⟨hmemory, hmap, hmark⟩ := isNew_iff.mp hnew
  have hdiv : bytes.length / sc.log_size ≤ bytes.length := Nat.div_le_self _ _
  have hheap : MAX_HEAP_HASHMAP_SIZE ≤ MAX_STABLE_LOGS_STORAGE_BYTES := by decide
  unfold StorageCanister.flush StorageCanister.logs_memory_i at h
  rw [hmemory, hmap, hmark, if_neg Bool.false_ne_true] at h
  split at h
  · cases h
  · simp only [List.length_nil, Nat.zero_add, Nat.zero_mul] at h
    rw [if_neg (by omega), if_neg (by omega), if_neg (by decide)] at h
    obtain ⟨map, -, heq⟩ := Option.map_eq_some_iff.mp h
    exact (Prod.mk.inj heq).1.symm

/-! ## Runs without failures -/

/-- Cycles for a new canister, and an encoder that works. -/
structure FlushEnv.Fit (env : FlushEnv) : Prop where
  balance : CREATE_STORAGE_CANISTER_CYCLES + 20 * 1000000000000 ≤ env.canister_balance
  candid : env.candid_error = none

/-- `flush_logs` is called when there is something to flush, and the calls of its run are executed and
answered. -/
inductive FlushGoesOn (T : StorageLogTrait K) (cfg : FlushConfig) : LogStorage K → LogStorage K → Prop
  | flush_logs {s : LogStorage K} (env : FlushEnv) (henv : env.Fit)
      (hbuffer : cfg.FLUSH_STORAGE_BUFFER_AT_SIZE ≤ s.data.storage_buffer.length)
      (hlock : s.data.storage_flush_lock = false) :
      FlushGoesOn T cfg s (s.flush_logs cfg env)
  | canister_created {s : LogStorage K} {before after : List FlushRun} (env : FlushEnv)
      (henv : env.Fit) (canister_id : Principal) (h : s.flushes = before ++ .creating :: after)
      (hnew : canister_id ∉ s.created) :
      FlushGoesOn T cfg s
        { (s.resume before after (s.data.create_canister_reply env (.ok canister_id))) with
          created := s.created ++ [canister_id] }
  | code_installed {s : LogStorage K} {before after : List FlushRun} {canister_id : Principal}
      {log_size : Nat} {module_hash : List Byte} (env : FlushEnv)
      (h : s.flushes = before ++ .installing canister_id log_size module_hash :: after) :
      FlushGoesOn T cfg s
        { (s.resume before after
            (s.data.install_code_reply cfg env canister_id log_size module_hash (.ok ()))) with
          canister := Function.update s.canister canister_id (some (.init log_size)) }
  | flush_executed {s : LogStorage K} {before after : List FlushRun} {canister_id : Principal}
      {bytes : List Byte} {chunk_size : Nat} {rest : List Nat} {sc sc' : StorageCanister K}
      {r : FlushResult}
      (h : s.flushes = before ++ .flushing canister_id bytes chunk_size rest .sent :: after)
      (hsc : s.canister canister_id = some sc) (hf : sc.flush T true bytes = some (r, sc')) :
      FlushGoesOn T cfg s
        { s with
          canister := Function.update s.canister canister_id (some sc')
          flushes := before ++
            .flushing canister_id bytes chunk_size rest (.answered (.ok r)) :: after }
  | flush_replied {s : LogStorage K} {before after : List FlushRun} {canister_id : Principal}
      {bytes : List Byte} {chunk_size : Nat} {rest : List Nat} {r : Except CallError FlushResult}
      (env : FlushEnv)
      (h : s.flushes = before ++
        .flushing canister_id bytes chunk_size rest (.answered r) :: after) :
      FlushGoesOn T cfg s
        (s.resume before after (s.data.flush_reply env canister_id chunk_size rest r))

theorem FlushGoesOn.step (h : FlushGoesOn T cfg s s') :
    (∃ env, s' = s.flush_logs cfg env) ∨ FlushStep T cfg s s' := by
  cases h with
  | flush_logs env henv hbuffer hlock => exact Or.inl ⟨env, rfl⟩
  | canister_created env henv id hf hnew => exact Or.inr (.canister_created env id hf hnew)
  | code_installed env hf => exact Or.inr (.code_installed env hf)
  | flush_executed hf hsc hflush => exact Or.inr (.flush_executed hf hsc hflush)
  | flush_replied env hf => exact Or.inr (.flush_replied env hf)

/-- What going on relies on. -/
structure Flushable (T : StorageLogTrait K) (cfg : FlushConfig) (logs : List (List Byte))
    (s : LogStorage K) : Prop where
  storage : StorageInv T.STABLE_MEMORY_SERIALIZE_SIZE 0 s logs
  chunks : s.ChunksFit cfg

theorem Flushable.next {logs : List (List Byte)} (hn : SizeFits cfg T.STABLE_MEMORY_SERIALIZE_SIZE)
    (h : Flushable T cfg logs s) (hstep : FlushGoesOn T cfg s s') : Flushable T cfg logs s' := by
  rcases hstep.step with ⟨env, rfl⟩ | hstep
  · exact ⟨flush_logs_ok hn h.storage, chunks_fit_flush_logs h.chunks⟩
  · exact ⟨flush_step_ok hn h.storage hstep, chunks_fit_step h.chunks hstep⟩

/-! ## What is left to do -/

/-- How far a run is from the next chunk that a canister takes. -/
def FlushRun.rank (canister : Principal → Option (StorageCanister K)) : FlushRun → Nat
  | .flushing _ _ _ _ (.answered (.error _)) => 9
  | .flushing canister_id _ _ _ .sent =>
    if (canister canister_id).any StorageCanister.isNew then 2 else 7
  | .flushing _ _ _ _ (.answered (.ok (.error _))) => 6
  | .creating => 4
  | .installing .. => 3
  | .flushing _ _ _ _ (.answered (.ok (.ok _))) => 1

/-- Without a run: the next one tries the last canister, or it needs a new one. -/
def LogStorageData.idleRank (data : LogStorageData) : Nat :=
  if data.storage_canisters.getLast?.any fun c => !c.is_full then 8 else 5

def runRank (canister : Principal → Option (StorageCanister K))
    (r : LogStorageData × Option FlushRun) : Nat :=
  10 * r.1.storage_buffer.length + (r.2.map (FlushRun.rank canister)).getD r.1.idleRank

def LogStorage.rank (s : LogStorage K) : Nat := runRank s.canister (s.data, s.flushes.head?)

section rank

variable {canister : Principal → Option (StorageCanister K)} {run : FlushRun}
  {r : LogStorageData × Option FlushRun}

omit [DecidableEq K]

theorem FlushRun.rank_le (canister : Principal → Option (StorageCanister K)) (run : FlushRun) :
    run.rank canister ≤ 9 := by
  unfold FlushRun.rank
  split <;> first | omega | (split_ifs <;> omega)

theorem idleRank_le (data : LogStorageData) : data.idleRank ≤ 8 := by
  unfold LogStorageData.idleRank
  split_ifs <;> omega

theorem runRank_le (canister : Principal → Option (StorageCanister K))
    (r : LogStorageData × Option FlushRun) :
    runRank canister r ≤ 10 * r.1.storage_buffer.length + 9 := by
  have hidle := idleRank_le r.1
  unfold runRank
  cases r.2 with
  | none =>
    rw [Option.map_none, Option.getD_none]
    omega
  | some run =>
    have hrun := run.rank_le canister
    rw [Option.map_some, Option.getD_some]
    omega

theorem rank_resume (s : LogStorage K) (canister : Principal → Option (StorageCanister K))
    (created : List Principal) (r : LogStorageData × Option FlushRun) :
    LogStorage.rank { (s.resume [] [] r) with canister := canister, created := created } =
      runRank canister r := by
  obtain ⟨data, _ | run⟩ := r <;> rfl

theorem rank_of_run (hf : s.flushes = [run]) :
    s.rank = 10 * s.data.storage_buffer.length + run.rank s.canister := by
  unfold LogStorage.rank
  rw [hf]
  rfl

theorem rank_of_idle (hf : s.flushes = []) :
    s.rank = 10 * s.data.storage_buffer.length + s.data.idleRank := by
  unfold LogStorage.rank
  rw [hf]
  rfl

theorem install_code_rank (henv : env.Fit) (data : LogStorageData) (canister_id : Principal) :
    runRank canister (data.install_code env canister_id) = 10 * data.storage_buffer.length + 3 := by
  unfold LogStorageData.install_code
  rw [henv.candid]
  rfl

theorem create_storage_canister_rank (canister : Principal → Option (StorageCanister K))
    (henv : env.Fit) (data : LogStorageData) :
    runRank canister (data.create_storage_canister env) ≤ 10 * data.storage_buffer.length + 4 := by
  unfold LogStorageData.create_storage_canister
  split
  · rw [install_code_rank henv]
    exact Nat.add_le_add_left (by omega) _
  · rw [if_neg (not_lt.mpr henv.balance)]
    exact le_rfl

theorem flush_chunks_rank (canister : Principal → Option (StorageCanister K))
    (canister_id : Principal) (data : LogStorageData) {c : StorageCanisterData}
    (hlast : data.storage_canisters.getLast? = some c)
    (hmax : LogStorageData.max_chunk_size cfg c.log_size ≠ 0) (hbuffer : data.storage_buffer ≠ []) :
    runRank canister (data.flush_chunks cfg canister_id) = 10 * data.storage_buffer.length +
      if (canister canister_id).any StorageCanister.isNew then 2 else 7 := by
  have hsum := chunk_sizes_sum (LogStorageData.max_chunk_size cfg c.log_size)
    data.storage_buffer.length
  unfold LogStorageData.flush_chunks
  rw [hlast]
  simp only [if_neg hmax]
  cases hsizes : LogStorageData.chunk_sizes (LogStorageData.max_chunk_size cfg c.log_size)
      data.storage_buffer.length with
  | nil =>
    rw [hsizes, List.sum_nil] at hsum
    exact absurd (List.eq_nil_of_length_eq_zero hsum.symm) hbuffer
  | cons x rest => rfl

theorem flush_chunks_nothing (canister_id : Principal) (data : LogStorageData)
    {c : StorageCanisterData}
    (hlast : data.storage_canisters.getLast? = some c)
    (hmax : LogStorageData.max_chunk_size cfg c.log_size ≠ 0) (hbuffer : data.storage_buffer = []) :
    data.flush_chunks cfg canister_id = ({ data with storage_flush_lock := false }, none) := by
  unfold LogStorageData.flush_chunks
  rw [hlast]
  simp only [if_neg hmax]
  simp [LogStorageData.chunk_sizes, LogStorageData.flush_chunk, hbuffer]

end rank

/-! ## Every step has less left to do -/

/-- No run is under way, and the buffer is too small for one. -/
def LogStorage.AtRest (cfg : FlushConfig) (s : LogStorage K) : Prop :=
  s.data.storage_flush_lock = false ∧
    s.data.storage_buffer.length < cfg.FLUSH_STORAGE_BUFFER_AT_SIZE

section step

variable {logs : List (List Byte)}

omit [DecidableEq K] in
theorem StorageInv.idle {n others : Nat} (h : StorageInv n others s logs)
    (hlock : s.data.storage_flush_lock = false) : s.flushes = [] := by
  have hlen := h.lock
  rw [hlock, if_neg Bool.false_ne_true] at hlen
  exact List.eq_nil_of_length_eq_zero (by omega)

omit [DecidableEq K] in
theorem StorageInv.last_size {n others : Nat} (h : StorageInv n others s logs)
    {c : StorageCanisterData} (hlast : s.data.storage_canisters.getLast? = some c) :
    c.log_size = n := by
  obtain ⟨before, hcs⟩ := List.getLast?_eq_some_iff.mp hlast
  obtain ⟨kept, hchain, -⟩ := h.data.chain
  rw [hcs] at hchain
  obtain ⟨-, -, -, -, -, -, -, hsize, -⟩ := hchain.split
  exact hsize

theorem flush_logs_creates (env : FlushEnv) {data : LogStorageData}
    (hgo : cfg.FLUSH_STORAGE_BUFFER_AT_SIZE ≤ data.storage_buffer.length ∧
      data.storage_flush_lock = false)
    (hfull : ∀ c, data.storage_canisters.getLast? = some c → c.is_full = true) :
    data.flush_logs cfg env =
        ({ data with storage_flush_lock := true } : LogStorageData).create_storage_canister env ∧
      data.idleRank = 5 := by
  unfold LogStorageData.flush_logs LogStorageData.idleRank
  rw [if_pos hgo]
  cases hlast : data.storage_canisters.getLast? with
  | none => exact ⟨by simp only [hlast], rfl⟩
  | some c => simp [hlast, hfull c hlast]

theorem flush_logs_tries (env : FlushEnv) {data : LogStorageData}
    (hgo : cfg.FLUSH_STORAGE_BUFFER_AT_SIZE ≤ data.storage_buffer.length ∧
      data.storage_flush_lock = false) {c : StorageCanisterData}
    (hlast : data.storage_canisters.getLast? = some c) (hfull : c.is_full = false) :
    data.flush_logs cfg env =
        ({ data with storage_flush_lock := true } : LogStorageData).flush_chunks cfg c.canister_id ∧
      data.idleRank = 8 := by
  unfold LogStorageData.flush_logs LogStorageData.idleRank
  rw [if_pos hgo]
  simp [hlast, hfull]

omit [DecidableEq K] in
theorem flush_logs_rank (hn : SizeFits cfg T.STABLE_MEMORY_SERIALIZE_SIZE)
    (hat : 0 < cfg.FLUSH_STORAGE_BUFFER_AT_SIZE) (h : Flushable T cfg logs s) (henv : env.Fit)
    (hgo : cfg.FLUSH_STORAGE_BUFFER_AT_SIZE ≤ s.data.storage_buffer.length ∧
      s.data.storage_flush_lock = false) : (s.flush_logs cfg env).rank < s.rank := by
  have hidle := h.storage.idle hgo.2
  have hrank : (s.flush_logs cfg env).rank = runRank s.canister (s.data.flush_logs cfg env) := by
    rw [← rank_resume s s.canister s.created]
    unfold LogStorage.flush_logs LogStorage.resume
    rw [hidle, List.append_nil]
  rw [hrank, rank_of_idle hidle]
  by_cases hfull : ∀ c, s.data.storage_canisters.getLast? = some c → c.is_full = true
  · obtain ⟨heq, hrest⟩ := flush_logs_creates env hgo hfull
    have hle := create_storage_canister_rank s.canister henv
      { s.data with storage_flush_lock := true }
    rw [heq, hrest]
    exact Nat.lt_of_le_of_lt hle (Nat.add_lt_add_left (by omega) _)
  · push Not at hfull
    obtain ⟨c, hlast, hfull⟩ := hfull
    obtain ⟨heq, hrest⟩ := flush_logs_tries env hgo hlast (Bool.eq_false_iff.mpr hfull)
    have hmax := max_chunk_size_ne_zero hn
    rw [← h.storage.last_size hlast] at hmax
    have hbuffer : s.data.storage_buffer ≠ [] := by
      intro hnil
      have hle := hgo.1
      rw [hnil, List.length_nil] at hle
      omega
    rw [heq, hrest,
      flush_chunks_rank _ _ { s.data with storage_flush_lock := true } hlast hmax hbuffer]
    refine Nat.add_lt_add_left ?_ _
    split_ifs <;> omega

omit [DecidableEq K] in
theorem code_installed_rank (s : LogStorage K) (env : FlushEnv) (canister_id : Principal)
    (module_hash : List Byte) (hn : SizeFits cfg T.STABLE_MEMORY_SERIALIZE_SIZE)
    (hat : 0 < cfg.FLUSH_STORAGE_BUFFER_AT_SIZE) :
    let r := s.data.install_code_reply cfg env canister_id T.STABLE_MEMORY_SERIALIZE_SIZE module_hash
      (.ok ())
    let s' : LogStorage K := { (s.resume [] [] r) with
      canister := Function.update s.canister canister_id
        (some (.init T.STABLE_MEMORY_SERIALIZE_SIZE)) }
    s'.AtRest cfg ∨ s'.rank ≤ 10 * s.data.storage_buffer.length + 2 := by
  intro r s'
  have hlast : (s.data.storage_canisters ++ [s.data.new_storage_canister env canister_id
      T.STABLE_MEMORY_SERIALIZE_SIZE module_hash]).getLast? = some (s.data.new_storage_canister env
        canister_id T.STABLE_MEMORY_SERIALIZE_SIZE module_hash) := List.getLast?_concat
  have hmax : LogStorageData.max_chunk_size cfg (s.data.new_storage_canister env canister_id
      T.STABLE_MEMORY_SERIALIZE_SIZE module_hash).log_size ≠ 0 := max_chunk_size_ne_zero hn
  by_cases hbuffer : s.data.storage_buffer = []
  · left
    have hr : r = _ := flush_chunks_nothing canister_id { s.data with storage_canisters := _ } hlast
      hmax hbuffer
    change r.1.storage_flush_lock = false ∧ r.1.storage_buffer.length < _
    rw [hr]
    refine ⟨rfl, ?_⟩
    simp only [hbuffer, List.length_nil]
    exact hat
  · right
    have hr := flush_chunks_rank s'.canister canister_id { s.data with storage_canisters := _ } hlast
      hmax hbuffer
    have hnew : s'.canister canister_id = some (.init T.STABLE_MEMORY_SERIALIZE_SIZE) :=
      Function.update_self _ _ _
    rw [hnew, Option.any_some, isNew_init, if_pos rfl] at hr
    exact ((rank_resume s s'.canister s.created r).trans hr).le

theorem flush_executed_rank (hsmall : cfg.FLUSH_STORAGE_BUFFER_CHUNK_SIZE_BEFORE_MODULO * 16 <
      MAX_HEAP_HASHMAP_SIZE) (h : Flushable T cfg logs s) {bytes : List Byte} {chunk_size : Nat}
    {rest : List Nat} {sc sc' : StorageCanister K} {r : FlushResult}
    (hf : s.flushes = [.flushing canister_id bytes chunk_size rest .sent])
    (hsc : s.canister canister_id = some sc) (hflush : sc.flush T true bytes = some (r, sc')) :
    FlushRun.rank (Function.update s.canister canister_id (some sc'))
        (.flushing canister_id bytes chunk_size rest (.answered (.ok r))) <
      FlushRun.rank s.canister (.flushing canister_id bytes chunk_size rest .sent) := by
  have hmem : FlushRun.flushing canister_id bytes chunk_size rest .sent ∈ s.flushes := by
    rw [hf]
    exact List.mem_singleton_self _
  obtain ⟨-, hbytes, -, -⟩ := h.storage.runs _ hmem
  have hfit := h.chunks _ hmem chunk_size List.mem_cons_self
  have hlen : bytes.length * 16 < MAX_HEAP_HASHMAP_SIZE := by
    have hle : bytes.length ≤ chunk_size := by
      rw [hbytes]
      exact List.length_take_le _ _
    have hle' := hfit.2
    omega
  simp only [FlushRun.rank, hsc, Option.any_some]
  rcases r with e | -
  · have hnew : sc.isNew ≠ true := by
      intro hnew
      cases new_canister_takes hnew hlen hflush
    rw [if_neg hnew]
    simp only
    omega
  · simp only
    split_ifs <;> omega

omit [DecidableEq K] in
theorem flush_replied_rank (env : FlushEnv) (h : Flushable T cfg logs s) {bytes : List Byte}
    {chunk_size : Nat} {rest : List Nat} {r : Except CallError FlushResult}
    (hf : s.flushes = [.flushing canister_id bytes chunk_size rest (.answered r)]) :
    runRank s.canister (s.data.flush_reply env canister_id chunk_size rest r) < s.rank := by
  have hmem : FlushRun.flushing canister_id bytes chunk_size rest (.answered r) ∈ s.flushes := by
    rw [hf]
    exact List.mem_singleton_self _
  obtain ⟨⟨before, c, hcs, -⟩, -, hsum, -⟩ := h.storage.runs _ hmem
  have hfit := h.chunks _ hmem chunk_size List.mem_cons_self
  rw [rank_of_run hf]
  rcases r with e | (e | -)
  · have hle := idleRank_le (s.data.flush_reply env canister_id chunk_size rest (.error e)).1
    exact Nat.add_lt_add_left (Nat.lt_succ_of_le hle) _
  · refine Nat.add_lt_add_left (?_ : LogStorageData.idleRank _ < 6) _
    simp [LogStorageData.flush_reply, LogStorageData.idleRank, hcs]
  · refine Nat.lt_of_le_of_lt (runRank_le _ _) ?_
    have hbuffer : (s.data.flush_reply env canister_id chunk_size rest
        (.ok (.ok ()))).1.storage_buffer = s.data.storage_buffer.drop chunk_size := by
      cases rest <;> rfl
    have hpos := hfit.1
    rw [hbuffer, List.length_drop]
    change _ < 10 * s.data.storage_buffer.length + 1
    omega

/-- A step comes to rest, or it has less left to do than before, a new canister counted too. -/
theorem FlushGoesOn.less (hn : SizeFits cfg T.STABLE_MEMORY_SERIALIZE_SIZE)
    (hat : 0 < cfg.FLUSH_STORAGE_BUFFER_AT_SIZE)
    (hsmall : cfg.FLUSH_STORAGE_BUFFER_CHUNK_SIZE_BEFORE_MODULO * 16 < MAX_HEAP_HASHMAP_SIZE)
    (h : Flushable T cfg logs s) (hstep : FlushGoesOn T cfg s s') :
    s'.AtRest cfg ∨ s'.rank < s.rank ∧ s'.created.length + s'.rank ≤ s.created.length + s.rank := by
  cases hstep with
  | flush_logs env henv hbuffer hlock =>
    have hlt := flush_logs_rank hn hat h henv ⟨hbuffer, hlock⟩
    exact Or.inr ⟨hlt, Nat.add_le_add_left hlt.le _⟩
  | canister_created env henv id hf hnew =>
    obtain ⟨rfl, rfl, -⟩ := h.storage.only hf
    have hrank := (rank_resume s s.canister (s.created ++ [id]) (s.data.install_code env id)).trans
      (install_code_rank henv s.data id)
    have hbefore : s.rank = 10 * s.data.storage_buffer.length + 4 := rank_of_run hf
    have hcreated : (s.created ++ [id]).length + (10 * s.data.storage_buffer.length + 3) ≤
        s.created.length + s.rank := by
      rw [hbefore, List.length_append, List.length_singleton]
      omega
    rw [← hrank] at hcreated
    exact Or.inr ⟨hrank.trans_lt (by rw [hbefore]; omega), hcreated⟩
  | @code_installed before after id size hash env hf =>
    obtain ⟨rfl, rfl, -⟩ := h.storage.only hf
    obtain ⟨-, rfl, -⟩ := h.storage.runs (.installing id size hash) (by rw [hf]; simp)
    rcases code_installed_rank s env id hash hn hat with hrest | hle
    · exact Or.inl hrest
    · right
      have hrank : s.rank = 10 * s.data.storage_buffer.length + 3 := rank_of_run hf
      rw [hrank]
      change _ ∧ s.created.length + _ ≤ _
      omega
  | @flush_executed before after id bytes chunk rest sc sc' r hf hsc hflush =>
    obtain ⟨rfl, rfl, -⟩ := h.storage.only hf
    have hlt := flush_executed_rank hsmall h hf hsc hflush
    right
    rw [rank_of_run hf, rank_of_run rfl]
    simp only
    omega
  | flush_replied env hf =>
    obtain ⟨rfl, rfl, -⟩ := h.storage.only hf
    have hlt := flush_replied_rank env h hf
    rw [← rank_resume s s.canister s.created] at hlt
    exact Or.inr ⟨hlt, Nat.add_le_add_left hlt.le _⟩

/-! ## There is always a step -/

theorem exists_new_id {created : List Principal} (h : created.length < 256 ^ 29) :
    ∃ id, id ∉ created := by
  by_contra hall
  push Not at hall
  let f : Fin (256 ^ 29) → Principal := fun i => ⟨to_be_bytes 29 i, (to_be_bytes_length _ _).le⟩
  have hinj : Function.Injective f := by
    intro i j hij
    have hbytes := congrArg (fun p : Principal => from_be_bytes p.bytes) hij
    simp only [f, from_be_bytes_to_be_bytes, Nat.mod_eq_of_lt i.isLt,
      Nat.mod_eq_of_lt j.isLt] at hbytes
    exact Fin.ext hbytes
  have hle := (((List.nodup_finRange (256 ^ 29)).map hinj).subperm
    (fun id _ => hall id : (List.finRange (256 ^ 29)).map f ⊆ created)).length_le
  rw [List.length_map, List.length_finRange] at hle
  exact absurd h (not_lt.mpr hle)

omit [DecidableEq K] in
theorem chunk_keys (hn : 0 < T.STABLE_MEMORY_SERIALIZE_SIZE)
    (hkeys : ∀ log ∈ logs, (T.index_keys_of_the_log_serialization log).isSome) {others : Nat}
    (h : StorageInv T.STABLE_MEMORY_SERIALIZE_SIZE others s logs) {chunk_size : Nat}
    (hle : chunk_size ≤ s.data.storage_buffer.length)
    (hdvd : T.STABLE_MEMORY_SERIALIZE_SIZE ∣ chunk_size) :
    KeysRead T (s.data.storage_buffer.take chunk_size) := by
  obtain ⟨kept, hchain, heq⟩ := h.data.chain
  have hsized := h.data.sized
  have hlen := congrArg List.length heq
  rw [List.length_append, hchain.length, hsized.flatten_length] at hlen
  have htotal : total s.data.storage_canisters ≤ logs.length :=
    Nat.le_of_mul_le_mul_right (by omega) hn
  obtain ⟨-, hbuffer⟩ := hsized.split_prefix heq hchain.length htotal
  have hsized' : Records.Sized T.STABLE_MEMORY_SERIALIZE_SIZE
      (logs.drop (total s.data.storage_canisters)) := fun l hl => hsized l (List.mem_of_mem_drop hl)
  obtain ⟨m, rfl⟩ := hdvd
  rw [Nat.mul_comm] at hle ⊢
  have hm : m ≤ (logs.drop (total s.data.storage_canisters)).length := by
    rw [hbuffer, hsized'.flatten_length] at hle
    exact Nat.le_of_mul_le_mul_right hle hn
  obtain ⟨htake, -⟩ := hsized'.split_prefix ((List.take_append_drop _ _).trans hbuffer)
    (by rw [List.length_take, Nat.min_eq_left hle]) hm
  have hsized'' : Records.Sized T.STABLE_MEMORY_SERIALIZE_SIZE
      ((logs.drop (total s.data.storage_canisters)).take m) :=
    fun l hl => hsized' l (List.mem_of_mem_take hl)
  rw [htake]
  intro i hi
  rw [hsized''.flatten_length, Nat.mul_div_cancel _ hn] at hi
  have hget := List.getElem?_eq_getElem hi
  unfold slice
  rw [hsized''.slice hget]
  exact hkeys _ (List.mem_of_mem_drop (List.mem_of_mem_take (List.mem_of_getElem? hget)))

theorem exists_step (hn : SizeFits cfg T.STABLE_MEMORY_SERIALIZE_SIZE)
    (hkeys : ∀ log ∈ logs, (T.index_keys_of_the_log_serialization log).isSome)
    (h : Flushable T cfg logs s) (hids : s.created.length < 256 ^ 29) (hrest : ¬ s.AtRest cfg) :
    ∃ s', FlushGoesOn T cfg s s' := by
  let env : FlushEnv := ⟨0, CREATE_STORAGE_CANISTER_CYCLES + 20 * 1000000000000, none⟩
  have henv : env.Fit := ⟨le_rfl, rfl⟩
  rcases hf : s.flushes with _ | ⟨run, after⟩
  · have hlock : s.data.storage_flush_lock = false := by
      have hlen := h.storage.lock
      rw [hf] at hlen
      by_contra hl
      rw [if_pos (Bool.eq_true_of_not_eq_false hl)] at hlen
      cases hlen
    exact ⟨_, .flush_logs env henv (not_lt.mp fun hlt => hrest ⟨hlock, hlt⟩) hlock⟩
  have hf : s.flushes = [] ++ run :: after := hf
  have hmem : run ∈ s.flushes := by rw [hf]; simp
  rcases run with - | ⟨id, size, hash⟩ | ⟨id, bytes, chunk, rest, - | r⟩
  · obtain ⟨id, hnew⟩ := exists_new_id hids
    exact ⟨_, .canister_created env henv id hf hnew⟩
  · exact ⟨_, .code_installed env hf⟩
  · obtain ⟨⟨before, c, hcs, rfl⟩, rfl, hsum, hdvd⟩ := h.storage.runs _ hmem
    obtain ⟨kept, hchain, -⟩ := h.storage.data.chain
    rw [hcs] at hchain
    obtain ⟨-, -, -, sc, -, -, -, -, hsc, hscsize, -⟩ := hchain.split
    have hle : chunk ≤ s.data.storage_buffer.length := by omega
    have hchunk := hdvd chunk List.mem_cons_self
    obtain ⟨r, sc', hflush⟩ := flush_answers hscsize
      (by rw [List.length_take, Nat.min_eq_left hle]; exact hchunk)
      (chunk_keys hn.1 hkeys h.storage hle hchunk)
    exact ⟨_, .flush_executed hf hsc hflush⟩
  · exact ⟨_, .flush_replied env hf⟩

end step

/-- From any state, as long as canisters answer and code is installed, every way on comes to rest: the
lock is free, and a buffer that was full is small again with its logs in the canisters. -/
theorem full_buffer_can_be_flushed (T : StorageLogTrait K) (cfg : FlushConfig)
    (hn : SizeFits cfg T.STABLE_MEMORY_SERIALIZE_SIZE) (hcfg : cfg = .release ∨ cfg = .debug)
    (st : LogStore K) (r : LogStoreReachable T cfg st)
    (hkeys : ∀ log ∈ st.appended, (T.index_keys_of_the_log_serialization log).isSome)
    (hids : st.storage.created.length + (10 * st.storage.data.storage_buffer.length + 9) < 256 ^ 29) :
    BoundFor (FlushGoesOn T cfg)
      (fun s => s.AtRest cfg ∧ s.logs T.STABLE_MEMORY_SERIALIZE_SIZE = st.appended) st.storage := by
  have hat : 0 < cfg.FLUSH_STORAGE_BUFFER_AT_SIZE := by
    rcases hcfg with rfl | rfl <;> decide
  have hsmall : cfg.FLUSH_STORAGE_BUFFER_CHUNK_SIZE_BEFORE_MODULO * 16 < MAX_HEAP_HASHMAP_SIZE := by
    rcases hcfg with rfl | rfl <;> decide
  have hstart : Flushable T cfg st.appended st.storage := ⟨log_store_inv hn r, chunks_fit r⟩
  have hrank := runRank_le st.storage.canister (st.storage.data, st.storage.flushes.head?)
  refine bound_for_of_rank
    (I := fun s => Flushable T cfg st.appended s ∧ s.created.length + s.rank < 256 ^ 29)
    LogStorage.rank (fun s hs hrest => ?_) (fun s s' hs _ hstep => ?_)
    ⟨hstart, (Nat.add_le_add_left hrank _).trans_lt hids⟩
  · refine exists_step hn hkeys hs.1 ((Nat.le_add_right _ _).trans_lt hs.2) fun h => hrest ⟨h, ?_⟩
    exact storage_logs hn.1 hs.1.storage
  · have hs' := hs.1.next hn hstep
    rcases hstep.less hn hat hsmall hs.1 with h | ⟨hlt, hle⟩
    · exact Or.inl ⟨h, storage_logs hn.1 hs'.storage⟩
    · exact Or.inr ⟨⟨hs', hle.trans_lt hs.2⟩, hlt⟩

theorem half_flushed_store_can_be_flushed :
    1024 ≤ Sample.halfFlushed.storage.data.storage_buffer.length ∧
      Sample.halfFlushed.storage.flushes.length = 1 ∧
      BoundFor (FlushGoesOn PositionLog.storage .debug)
        (fun s => s.AtRest .debug ∧ s.logs 172 = (List.range 9).map Sample.numberedLog)
        Sample.halfFlushed.storage := by
  have happended : Sample.halfFlushed.appended = (List.range 9).map Sample.numberedLog := by
    decide +kernel
  have h := full_buffer_can_be_flushed PositionLog.storage .debug ⟨by decide, by decide⟩ (Or.inr rfl)
    Sample.halfFlushed Sample.halfFlushed_reachable (by rw [happended]; decide +kernel)
    (by decide +kernel)
  rw [happended] at h
  exact ⟨by decide +kernel, by decide +kernel, h⟩

end Cts.Tc
