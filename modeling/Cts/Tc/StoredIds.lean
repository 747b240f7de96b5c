import Cts.Tc.Storage

/-!
# Where a storage canister starts

A canister reads the id of its first log from the bytes that it is sent, and the contract counts the
logs of the canisters before it. As long as log number `i` carries the id `i` the two agree.
-/

namespace Cts.Tc

open Lib

/-! ## Ids in bytes -/

theorem PositionLog.log_id_of_serialization (log : PositionLog) (h : log.id < 2 ^ 128) :
    PositionLog.storage.log_id_of_the_log_serialization log.stable_memory_serialize = log.id := by
  have hslice : slice 2 16 log.stable_memory_serialize = to_be_bytes 16 log.id := by
    unfold slice PositionLog.stable_memory_serialize
    simp only [List.append_assoc]
    rw [List.drop_left' (to_be_bytes_length 2 0), List.take_left' (to_be_bytes_length 16 log.id)]
  unfold PositionLog.storage
  simp only
  rw [hslice, from_be_bytes_to_be_bytes]
  exact Nat.mod_eq_of_lt h

/-! ## The first logs -/

section

variable {K : Type}

/-- What a canister knows of its first log. -/
structure StartsAt (sc : StorageCanister K) (first_log_id : Nat) : Prop where
  first : sc.logs_memory ≠ [] → sc.first_log_id = first_log_id
  fits : sc.logs_memory.length ≤ MAX_STABLE_LOGS_STORAGE_BYTES

def firstOf (c : StorageCanisterData) : Principal × Nat := (c.canister_id, c.first_log_id)

/-- The canisters of the list and where they start. -/
def LogStorageData.firsts (data : LogStorageData) : List (Principal × Nat) :=
  data.storage_canisters.map firstOf

def FirstIds (s : LogStorage K) : Prop :=
  ∀ e ∈ s.data.firsts, ∀ sc, s.canister e.1 = some sc → StartsAt sc e.2

variable {data : LogStorageData} {cfg : FlushConfig} {env : FlushEnv} {canister_id : Principal}

theorem modify_last_map {α : Type} (g : StorageCanisterData → α)
    {f : StorageCanisterData → StorageCanisterData} (hf : ∀ c, g (f c) = g c)
    (l : List StorageCanisterData) : (modify_last f l).map g = l.map g := by
  rcases List.eq_nil_or_concat' l with rfl | ⟨before, c, rfl⟩
  · rfl
  · rw [modify_last_append, List.map_append, List.map_append, List.map_singleton,
      List.map_singleton, hf]

/-- The canisters of the list and the buffer stay. -/
structure SameLogs (data data' : LogStorageData) : Prop where
  canisters : data'.storage_canisters = data.storage_canisters
  buffer : data'.storage_buffer = data.storage_buffer

theorem SameLogs.firsts {data' : LogStorageData} (h : SameLogs data data') :
    data'.firsts = data.firsts := by
  unfold LogStorageData.firsts
  rw [h.canisters]

theorem install_code_same (data : LogStorageData) (env : FlushEnv) (canister_id : Principal) :
    SameLogs data (data.install_code env canister_id).1 := by
  unfold LogStorageData.install_code
  split <;> exact ⟨rfl, rfl⟩

theorem create_storage_canister_same (data : LogStorageData) (env : FlushEnv) :
    SameLogs data (data.create_storage_canister env).1 := by
  unfold LogStorageData.create_storage_canister
  split
  · have hsame := install_code_same { data with create_storage_canister_temp_holder := none } env
    exact ⟨(hsame _).canisters, (hsame _).buffer⟩
  · split_ifs <;> exact ⟨rfl, rfl⟩

theorem flush_chunk_same (data : LogStorageData) (canister_id : Principal) (rest : List Nat) :
    SameLogs data (data.flush_chunk canister_id rest).1 := by
  cases rest <;> exact ⟨rfl, rfl⟩

theorem flush_chunks_same (cfg : FlushConfig) (data : LogStorageData) (canister_id : Principal) :
    SameLogs data (data.flush_chunks cfg canister_id).1 := by
  unfold LogStorageData.flush_chunks
  split
  · exact ⟨rfl, rfl⟩
  · split_ifs
    · exact ⟨rfl, rfl⟩
    · exact flush_chunk_same _ _ _

theorem flush_logs_same (cfg : FlushConfig) (data : LogStorageData) (env : FlushEnv) :
    SameLogs data (data.flush_logs cfg env).1 := by
  have hcreate := create_storage_canister_same { data with storage_flush_lock := true } env
  have hchunks := flush_chunks_same cfg { data with storage_flush_lock := true }
  unfold LogStorageData.flush_logs
  split_ifs
  · simp only
    split
    · exact ⟨hcreate.canisters, hcreate.buffer⟩
    · split_ifs
      · exact ⟨hcreate.canisters, hcreate.buffer⟩
      · exact ⟨(hchunks _).canisters, (hchunks _).buffer⟩
  · exact ⟨rfl, rfl⟩

theorem flush_reply_buffer (chunk : Nat) (rest : List Nat) (r : Except CallError FlushResult) :
    (data.flush_reply env canister_id chunk rest r).1.storage_buffer.length ≤
      data.storage_buffer.length := by
  match r with
  | .ok (.ok ()) =>
    refine (congrArg List.length (flush_chunk_same _ _ rest).buffer).trans_le ?_
    exact (List.length_drop).trans_le (Nat.sub_le _ _)
  | .ok (.error .StorageIsFull) => exact le_rfl
  | .error e => exact le_rfl

theorem flush_reply_firsts (chunk : Nat) (rest : List Nat) (r : Except CallError FlushResult) :
    (data.flush_reply env canister_id chunk rest r).1.firsts = data.firsts := by
  match r with
  | .ok (.ok ()) =>
    refine (flush_chunk_same _ _ rest).firsts.trans ?_
    refine modify_last_map firstOf (f := _) ?_ data.storage_canisters
    intro c
    rfl
  | .ok (.error .StorageIsFull) =>
    refine modify_last_map firstOf (f := _) ?_ data.storage_canisters
    intro c
    rfl
  | .error e => rfl

theorem FirstIds.update {s s' : LogStorage K} (h : FirstIds s) (id : Principal)
    {v : StorageCanister K} (hf : ∀ e ∈ s'.data.firsts, e ∈ s.data.firsts ∨ e.1 = id)
    (hc : s'.canister = Function.update s.canister id (some v))
    (hv : ∀ e ∈ s'.data.firsts, e.1 = id → StartsAt v e.2) : FirstIds s' := by
  intro e he sc hsc
  rw [hc, Function.update_apply] at hsc
  split_ifs at hsc with hid
  · obtain rfl := Option.some.inj hsc
    exact hv e he hid
  · exact h e ((hf e he).resolve_right hid) sc hsc

theorem FirstIds.same {s s' : LogStorage K} (h : FirstIds s) (hf : s'.data.firsts = s.data.firsts)
    (hc : s'.canister = s.canister) : FirstIds s' := by
  intro e he sc hsc
  rw [hf] at he
  rw [hc] at hsc
  exact h e he sc hsc

end

/-! ## Every step keeps it -/

section

variable {K : Type} [DecidableEq K] {T : StorageLogTrait K} {cfg : FlushConfig} {s s' : LogStorage K}
  {others : Nat} {logs : List (List Byte)}

theorem StorageCanister.flush_fits {grow : Bool} {sc sc' : StorageCanister K} {bytes : List Byte}
    (h : sc.flush T grow bytes = some (.ok (), sc')) :
    sc'.logs_memory.length ≤ MAX_STABLE_LOGS_STORAGE_BYTES := by
  unfold StorageCanister.flush at h
  split at h
  · simp at h
  split at h
  · cases h
  split at h
  · simp at h
  · rename_i hfits
    split at h
    · simp at h
    split at h
    · simp at h
    obtain ⟨map, -, heq⟩ := Option.map_eq_some_iff.mp h
    obtain ⟨-, rfl⟩ := Prod.mk.inj heq
    rw [List.length_append]
    exact Nat.le_of_not_lt hfits

theorem first_log_of_buffer {n k : Nat} (hs : Records.Sized n logs) {kept buffer : List Byte}
    (heq : kept ++ buffer = logs.flatten) (hk : kept.length = k * n) {chunk : Nat}
    (hdvd : n ∣ chunk) (hne : buffer.take chunk ≠ []) :
    ∃ log rest, logs[k]? = some log ∧ buffer.take chunk = log ++ rest := by
  have hlen := congrArg List.length heq
  rw [List.length_append, hk, hs.flatten_length] at hlen
  have hpos : 0 < buffer.length ∧ 0 < chunk := by
    rw [← List.length_pos_iff, List.length_take] at hne
    omega
  have hlt : k < logs.length := by
    by_contra hle
    have := Nat.mul_le_mul_right n (Nat.le_of_not_lt hle)
    omega
  have hchunk : n ≤ chunk := Nat.le_of_dvd hpos.2 hdvd
  obtain ⟨-, hbuffer⟩ := hs.split_prefix heq hk hlt.le
  rw [List.drop_eq_getElem_cons hlt, List.flatten_cons] at hbuffer
  have hlog : logs[k].length = n := hs _ (List.getElem_mem hlt)
  refine ⟨logs[k], (logs.drop (k + 1)).flatten.take (chunk - n), List.getElem?_eq_getElem hlt, ?_⟩
  rw [hbuffer, List.take_append, hlog, List.take_of_length_le (by omega)]

theorem first_of_last {data : LogStorageData} {before : List StorageCanisterData}
    {c : StorageCanisterData} (hcs : data.storage_canisters = before ++ [c])
    (hnodup : (data.storage_canisters.map StorageCanisterData.canister_id).Nodup)
    {e : Principal × Nat} (he : e ∈ data.firsts) (hid : e.1 = c.canister_id) :
    e.2 = c.first_log_id := by
  unfold LogStorageData.firsts at he
  rw [hcs] at he hnodup
  obtain ⟨d, hd, rfl⟩ := List.mem_map.mp he
  rcases List.mem_append.mp hd with hd | hd
  · exact absurd hid (ids_ne_last hnodup d hd)
  · rw [List.mem_singleton.mp hd]
    rfl

variable (h : StorageInv T.STABLE_MEMORY_SERIALIZE_SIZE others s logs)
  (hids : ∀ i log, logs[i]? = some log → T.log_id_of_the_log_serialization log = i)
  (hfirst : FirstIds s)

include h hids hfirst

theorem first_ids_flushed {before after : List FlushRun} {canister_id : Principal}
    {bytes : List Byte} {chunk_size : Nat} {rest : List Nat} {sc sc' : StorageCanister K}
    {grow : Bool} {r : FlushResult}
    (hf : s.flushes = before ++ .flushing canister_id bytes chunk_size rest .sent :: after)
    (hsc : s.canister canister_id = some sc) (hflush : sc.flush T grow bytes = some (r, sc')) :
    ∀ e ∈ s.data.firsts, e.1 = canister_id → StartsAt sc' e.2 := by
  intro e he hid
  have hold : StartsAt sc e.2 := hfirst e he sc (by rw [hid]; exact hsc)
  obtain ⟨rfl, rfl, rfl, -, hpending⟩ := h.only hf
  obtain ⟨⟨before, c, hcs, rfl⟩, rfl, -, hdvd⟩ :=
    h.runs (.flushing canister_id bytes chunk_size rest .sent) (by rw [hf]; simp)
  rcases StorageCanister.flush_spec hflush with ⟨-, rfl⟩ | ⟨rfl, -, hmem, hstart⟩
  · exact hold
  refine ⟨fun hne => ?_, StorageCanister.flush_fits hflush⟩
  rw [hstart]
  split_ifs with hnil
  · -- The canister was empty, so its entry starts where the buffer does.
    obtain ⟨kept, hchain, heq⟩ := h.data.chain
    rw [hpending, hcs] at hchain
    obtain ⟨keptb, mem, after, sc₀, rfl, hbefore, hfirst_log, -, hsc₀, -, hmem₀, hlen, hafter⟩ :=
      hchain.split
    obtain rfl := hafter.eq_nil
    obtain rfl := Option.some.inj (hsc.symm.trans hsc₀)
    obtain ⟨rfl, -⟩ := List.append_eq_nil_iff.mp (hmem₀.symm.trans hnil)
    rw [hmem, hnil, List.nil_append] at hne
    obtain ⟨log, tail, hlog, hbytes⟩ := first_log_of_buffer h.data.sized
      (by simpa using heq) hbefore.length (hdvd chunk_size List.mem_cons_self) hne
    rw [hbytes, T.log_id_append _ _ (h.data.sized _ (List.mem_of_getElem? hlog)), hids _ _ hlog,
      first_of_last hcs h.data.ids_nodup he hid, hfirst_log, Nat.zero_add]
  · exact hold.first hnil

theorem first_ids_step {cfg : FlushConfig} (hstep : FlushStep T cfg s s') : FirstIds s' := by
  cases hstep with
  | canister_created env id hf hnew => exact hfirst.same (install_code_same _ _ _).firsts rfl
  | create_failed env e hf => exact hfirst.same rfl rfl
  | @code_installed before after id size hash env hf =>
    refine hfirst.update id (fun e he => ?_) rfl fun e _ _ => ⟨fun hne => absurd rfl hne, ?_⟩
    · change e ∈ LogStorageData.firsts (LogStorageData.flush_chunks cfg _ id).1 at he
      rw [(flush_chunks_same cfg _ id).firsts] at he
      unfold LogStorageData.firsts at he
      rw [List.map_append] at he
      rcases List.mem_append.mp he with he | he
      · exact Or.inl he
      · rw [List.mem_singleton.mp he]
        exact Or.inr rfl
    · exact Nat.zero_le _
  | install_failed env e hf => exact hfirst.same rfl rfl
  | flush_executed hf hsc hflush =>
    exact hfirst.update _ (fun e he => Or.inl he) rfl
      (first_ids_flushed h hids hfirst hf hsc hflush)
  | flush_failed e hf => exact hfirst.same rfl rfl
  | flush_replied env hf => exact hfirst.same (flush_reply_firsts _ _ _) rfl
  | @marked_full id sc mark hsc =>
    refine hfirst.update id (fun e he => Or.inl he) rfl fun e he hid => ?_
    have hold := hfirst e he sc (by rw [hid]; exact hsc)
    exact ⟨hold.first, hold.fits⟩

end

end Cts.Tc
