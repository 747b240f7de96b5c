import Cts.Tc.Storage

/-!
# Flushing keeps the logs in order

Any interleaving of appends, of runs of `flush_logs` and of what their calls answer. Nothing is lost,
doubled or moved, and the lock is held by the one run under way and by nothing else.
-/

namespace Cts.Tc

open Lib

variable {K : Type} [DecidableEq K]

/-- A log storage, and every log that was ever appended to it. -/
structure LogStore (K : Type) where
  storage : LogStorage K
  appended : List (List Byte)

def LogStoreInit (T : StorageLogTrait K) (st : LogStore K) : Prop :=
  ∃ module_hash, st = ⟨.new T.STABLE_MEMORY_SERIALIZE_SIZE module_hash, []⟩

inductive LogStoreStep (T : StorageLogTrait K) (cfg : FlushConfig) : LogStore K → LogStore K → Prop
  | append {st : LogStore K} (log : List Byte) (h : log.length = T.STABLE_MEMORY_SERIALIZE_SIZE) :
      LogStoreStep T cfg st ⟨st.storage.append log, st.appended ++ [log]⟩
  | flush_logs {st : LogStore K} (env : FlushEnv) :
      LogStoreStep T cfg st ⟨st.storage.flush_logs cfg env, st.appended⟩
  | flush {st : LogStore K} {s' : LogStorage K} (h : FlushStep T cfg st.storage s') :
      LogStoreStep T cfg st ⟨s', st.appended⟩

abbrev LogStoreReachable (T : StorageLogTrait K) (cfg : FlushConfig) : LogStore K → Prop :=
  Reachable (LogStoreInit T) (LogStoreStep T cfg)

/-! ## Scripted flushes -/

inductive FlushEvent
  | created (canister_id : Principal)
  | installed
  | executed
  | replied

/-- The first flush goes on, and every answer is a success. -/
def LogStorage.play (T : StorageLogTrait K) (cfg : FlushConfig) (s : LogStorage K) (e : FlushEvent) :
    Option (LogStorage K) :=
  let env : FlushEnv := ⟨0, 0, none⟩
  match s.flushes, e with
  | .creating :: after, .created canister_id =>
    if canister_id ∈ s.created then none
    else some { (s.resume [] after (s.data.create_canister_reply env (.ok canister_id))) with
      created := s.created ++ [canister_id] }
  | .installing canister_id log_size module_hash :: after, .installed =>
    some { (s.resume [] after
        (s.data.install_code_reply cfg env canister_id log_size module_hash (.ok ()))) with
      canister := Function.update s.canister canister_id (some (.init log_size)) }
  | .flushing canister_id bytes chunk_size rest .sent :: after, .executed =>
    match s.canister canister_id with
    | none => none
    | some sc =>
      (sc.flush T true bytes).map fun (r, sc') =>
        { s with
          canister := Function.update s.canister canister_id (some sc')
          flushes := .flushing canister_id bytes chunk_size rest (.answered (.ok r)) :: after }
  | .flushing canister_id _ chunk_size rest (.answered r) :: after, .replied =>
    some (s.resume [] after (s.data.flush_reply env canister_id chunk_size rest r))
  | _, _ => none

theorem flush_play_step {T : StorageLogTrait K} {cfg : FlushConfig} {s s' : LogStorage K}
    {e : FlushEvent} (h : s.play T cfg e = some s') : FlushStep T cfg s s' := by
  unfold LogStorage.play at h
  simp only at h
  split at h
  · rename_i after canister_id hs
    have hs : s.flushes = [] ++ .creating :: after := hs
    split_ifs at h with hnew
    obtain rfl := Option.some.inj h
    exact .canister_created _ canister_id hs hnew
  · rename_i canister_id log_size module_hash after hs
    have hs : s.flushes = [] ++ .installing canister_id log_size module_hash :: after := hs
    obtain rfl := Option.some.inj h
    exact .code_installed _ hs
  · rename_i canister_id bytes chunk_size rest after hs
    have hs : s.flushes = [] ++ .flushing canister_id bytes chunk_size rest .sent :: after := hs
    split at h
    · cases h
    · rename_i sc hsc
      obtain ⟨⟨r, sc'⟩, hf, rfl⟩ := Option.map_eq_some_iff.mp h
      exact .flush_executed hs hsc hf
  · rename_i canister_id bytes chunk_size rest r after hs
    have hs : s.flushes = [] ++ .flushing canister_id bytes chunk_size rest (.answered r) :: after :=
      hs
    obtain rfl := Option.some.inj h
    exact .flush_replied _ hs
  · cases h

inductive StoreEvent
  | append (log : List Byte)
  | flush_logs (env : FlushEnv)
  | flush (e : FlushEvent)

def LogStore.play (T : StorageLogTrait K) (cfg : FlushConfig) (st : LogStore K) :
    StoreEvent → Option (LogStore K)
  | .append log =>
    if log.length = T.STABLE_MEMORY_SERIALIZE_SIZE then
      some ⟨st.storage.append log, st.appended ++ [log]⟩
    else none
  | .flush_logs env => some ⟨st.storage.flush_logs cfg env, st.appended⟩
  | .flush e => (st.storage.play T cfg e).map (⟨·, st.appended⟩)

theorem store_play_step {T : StorageLogTrait K} {cfg : FlushConfig} {st st' : LogStore K}
    {e : StoreEvent} (h : st.play T cfg e = some st') : LogStoreStep T cfg st st' := by
  cases e with
  | append log =>
    simp only [LogStore.play] at h
    split_ifs at h with hlen
    obtain rfl := Option.some.inj h
    exact .append log hlen
  | flush_logs env =>
    obtain rfl := Option.some.inj h
    exact .flush_logs env
  | flush e =>
    obtain ⟨s', hs', rfl⟩ := Option.map_eq_some_iff.mp h
    exact .flush (flush_play_step hs')

theorem store_script_reachable {T : StorageLogTrait K} {cfg : FlushConfig} {st st' : LogStore K}
    {events : List StoreEvent} (r : LogStoreReachable T cfg st)
    (h : events.foldlM (LogStore.play T cfg) st = some st') : LogStoreReachable T cfg st' :=
  kept_by_script (fun _ _ _ r ht => r.next (store_play_step ht)) r h

/-! ## What the canisters hold -/

omit [DecidableEq K] in
theorem storage_new (n : Nat) (module_hash : List Byte) :
    StorageInv n 0 (LogStorage.new n module_hash : LogStorage K) [] := by
  refine ⟨⟨by simp [Records.Sized], rfl, by simp [LogStorage.new, LogStorageData.new],
    by simp [LogStorage.new, LogStorageData.new], by simp [LogStorage.new, LogStorageData.new], [],
    .nil 0, rfl⟩, rfl, by simp [LogStorage.new]⟩

theorem log_store_inv {T : StorageLogTrait K} {cfg : FlushConfig}
    (hn : SizeFits cfg T.STABLE_MEMORY_SERIALIZE_SIZE) {st : LogStore K}
    (r : LogStoreReachable T cfg st) :
    StorageInv T.STABLE_MEMORY_SERIALIZE_SIZE 0 st.storage st.appended := by
  induction r with
  | start h =>
    obtain ⟨module_hash, rfl⟩ := h
    exact storage_new _ _
  | next _ hstep ih =>
    cases hstep with
    | append log h => exact append_ok ih h
    | flush_logs env => exact flush_logs_ok hn ih
    | flush h => exact flush_step_ok hn ih h

namespace LogStorage

omit [DecidableEq K]

/-- The logs memory of a canister of the list. -/
def memory (s : LogStorage K) (c : StorageCanisterData) : List Byte :=
  ((s.canister c.canister_id).map StorageCanister.logs_memory).getD []

def held (s : LogStorage K) : List Byte := s.data.storage_canisters.flatMap s.memory

/-- The chunk that a canister has stored and whose reply is not processed yet. -/
def unacknowledged (s : LogStorage K) : List Byte :=
  s.flushes.flatMap fun
    | .flushing _ bytes _ _ (.answered (.ok (.ok ()))) => bytes
    | _ => []

/-- The logs that the canisters hold and then those of the buffer, an unacknowledged chunk once. -/
def logs (n : Nat) (s : LogStorage K) : List (List Byte) :=
  Records.records n s.held ++
    Records.records n (s.data.storage_buffer.drop s.unacknowledged.length)

/-- The entries of the list tell what the canisters hold. -/
def EntriesExact (n : Nat) (s : LogStorage K) : Prop :=
  ∀ before c after, s.data.storage_canisters = before ++ c :: after →
    (Records.records n (s.memory c)).length = c.length ∧
      (Records.records n (before.flatMap s.memory)).length = c.first_log_id

end LogStorage

section

variable {s : LogStorage K} {n others : Nat} {logs : List (List Byte)}
  {pending : Principal → List Byte} {first : Nat} {cs : List StorageCanisterData} {kept : List Byte}

omit [DecidableEq K] in
theorem Chain.held (h : Chain n s.canister (fun _ => []) first cs kept) :
    cs.flatMap s.memory = kept := by
  induction h with
  | nil => rfl
  | @cons c _ kept _ sc _ hsc _ hmem _ _ ih =>
    rw [List.flatMap_cons, ih]
    simp [LogStorage.memory, hsc, hmem]

omit [DecidableEq K] in
theorem records_length {cells : List Byte} {k : Nat} (hn : 0 < n) (h : cells.length = k * n) :
    (Records.records n cells).length = k := by
  simp [Records.records, h, Nat.mul_div_cancel k hn]

omit [DecidableEq K] in
theorem entries_exact (hn : 0 < n) (h : StorageInv n others s logs)
    (hp : s.pending = fun _ => []) : s.EntriesExact n := by
  intro before c after hcs
  obtain ⟨kept, hchain, -⟩ := h.data.chain
  rw [hp, hcs] at hchain
  obtain ⟨keptb, mem, keptc, sc, rfl, hbefore, hfirst, -, hsc, -, hmem, hlen, -⟩ := hchain.split
  refine ⟨records_length hn ?_, records_length hn ?_⟩
  · simp only [LogStorage.memory, hsc, hmem, Option.map_some, Option.getD_some, List.append_nil]
    exact hlen
  · rw [hbefore.held, hbefore.length, hfirst, Nat.zero_add]

omit [DecidableEq K] in
theorem held_append (h : StorageInv n others s logs) :
    s.held ++ s.data.storage_buffer.drop s.unacknowledged.length = logs.flatten ∧
      n ∣ s.held.length ∧ (s.unacknowledged = [] → s.pending = fun _ => []) := by
  obtain ⟨kept, hchain, heq⟩ := h.data.chain
  have hquiet : s.pending = (fun _ => []) → s.unacknowledged = [] →
      s.held ++ s.data.storage_buffer.drop s.unacknowledged.length = logs.flatten ∧
        n ∣ s.held.length ∧ (s.unacknowledged = [] → s.pending = fun _ => []) := by
    intro hp hu
    rw [hp] at hchain
    have hheld : s.held = kept := hchain.held
    rw [hu, List.length_nil, List.drop_zero, hheld]
    exact ⟨heq, ⟨_, hchain.length.trans (Nat.mul_comm _ _)⟩, fun _ => hp⟩
  rcases hf : s.flushes with _ | ⟨run, rest⟩
  · exact hquiet (by funext id; simp [LogStorage.pending, hf]) (by simp [LogStorage.unacknowledged, hf])
  · obtain ⟨-, rfl, -, -, hp⟩ := h.only (show s.flushes = [] ++ run :: rest from hf)
    rcases run with _ | ⟨_, _, _⟩ | ⟨id, bytes, chunk, sizes, _ | (_ | (_ | _))⟩
    iterate 5
      · exact hquiet (by rw [hp]; rfl) (by simp [LogStorage.unacknowledged, hf])
    -- The last canister has the chunk, and so has the buffer.
    obtain ⟨⟨before, c, hcs, rfl⟩, rfl, hsum, hdvd⟩ :=
      h.runs (.flushing id bytes chunk sizes (.answered (.ok (.ok ())))) (by rw [hf]; simp)
    have hne := ids_ne_last (by rw [← hcs]; exact h.data.ids_nodup)
    have hu : s.unacknowledged = s.data.storage_buffer.take chunk := by
      simp [LogStorage.unacknowledged, hf]
    rw [hcs, hp] at hchain
    obtain ⟨keptb, mem, after, sc, rfl, hbefore, -, -, hsc, -, hmem, hlen, hafter⟩ := hchain.split
    obtain rfl := hafter.eq_nil
    have hquietb : Chain n s.canister (fun _ => []) 0 before keptb :=
      hbefore.congr fun d hd => ⟨(if_neg (hne d hd).symm).symm, fun sc hsc => ⟨sc, hsc, rfl, rfl⟩⟩
    have hmem : s.memory c = mem ++ s.data.storage_buffer.take chunk := by
      simp [LogStorage.memory, hsc, hmem, FlushRun.stored]
    have hheld : s.held = keptb ++ (mem ++ s.data.storage_buffer.take chunk) := by
      simp only [LogStorage.held, hcs, List.flatMap_append, List.flatMap_cons, List.flatMap_nil,
        List.append_nil, hmem, hquietb.held]
    have hchunk : (s.data.storage_buffer.take chunk).length = chunk := by
      rw [List.length_take]
      omega
    refine ⟨?_, ?_, fun hnil => ?_⟩
    · rw [hu, hheld, hchunk, ← heq]
      simp only [List.append_assoc, List.take_append_drop, List.append_nil]
    · rw [hheld, List.length_append, List.length_append, hquietb.length, hlen, hchunk]
      exact Nat.dvd_add (Nat.dvd_mul_left _ _)
        (Nat.dvd_add (Nat.dvd_mul_left _ _) (hdvd chunk List.mem_cons_self))
    · rw [hp]
      funext id
      rw [hu] at hnil
      simp [FlushRun.stored, hnil]

end

omit [DecidableEq K] in
/-- The logs that the canisters and the buffer hold are those that there should be. -/
theorem storage_logs {s : LogStorage K} {n others : Nat} {logs : List (List Byte)} (hn : 0 < n)
    (h : StorageInv n others s logs) : s.logs n = logs := by
  obtain ⟨heq, ⟨k, hk⟩, -⟩ := held_append h
  have hlen := congrArg List.length heq
  rw [List.length_append, hk, h.data.sized.flatten_length, Nat.mul_comm _ k] at hlen
  have hle : k ≤ logs.length := by
    by_contra hlt
    have := Nat.mul_lt_mul_of_pos_right (Nat.lt_of_not_le hlt) hn
    omega
  obtain ⟨hheld, hrest⟩ := h.data.sized.split_prefix heq (hk.trans (Nat.mul_comm _ _)) hle
  unfold LogStorage.logs
  rw [hheld, hrest,
    Records.Sized.records (fun l hl => h.data.sized l (List.mem_of_mem_take hl)) hn,
    Records.Sized.records (fun l hl => h.data.sized l (List.mem_of_mem_drop hl)) hn,
    List.take_append_drop]

/-- The logs of the canisters and of the buffer are the logs ever appended, in their order. Except
while a chunk is unacknowledged the entries are exact. One flush is in flight at most, and the lock
is free when none is. -/
theorem flushing_keeps_logs (T : StorageLogTrait K) (cfg : FlushConfig)
    (hn : SizeFits cfg T.STABLE_MEMORY_SERIALIZE_SIZE) (st : LogStore K)
    (r : LogStoreReachable T cfg st) :
    st.storage.logs T.STABLE_MEMORY_SERIALIZE_SIZE = st.appended ∧
      (st.storage.unacknowledged = [] →
        st.storage.EntriesExact T.STABLE_MEMORY_SERIALIZE_SIZE) ∧
      st.storage.flushes.length ≤ 1 ∧
      (st.storage.data.storage_flush_lock = true ↔ st.storage.flushes ≠ []) := by
  have h := log_store_inv hn r
  have hlock := h.lock
  refine ⟨storage_logs hn.1 h, fun hu => entries_exact hn.1 h ((held_append h).2.2 hu), ?_, ?_⟩
  · split_ifs at hlock <;> omega
  · split_ifs at hlock with hl
    · refine ⟨fun _ hnil => ?_, fun _ => hl⟩
      rw [hnil] at hlock
      simp at hlock
    · refine ⟨fun ht => absurd ht hl, fun hne => absurd ?_ hne⟩
      exact List.eq_nil_of_length_eq_zero (by omega)

namespace Sample

def emptyStore : LogStore Principal := ⟨.new 172 [], []⟩

def numberedLog (id : Nat) : List Byte := List.replicate 17 0 ++ id.toUInt8 :: List.replicate 154 0

/-- Six logs make a flush start, and three more come while it waits. The reply of the second chunk is
on its way. -/
def storeEvents : List StoreEvent :=
  (List.range 6).map (fun id => .append (numberedLog id)) ++
    [.flush_logs ⟨0, 40 * 1000000000000, none⟩, .flush (.created (.of_byte 9)), .flush .installed,
      .flush .executed] ++
    (List.range' 6 3).map (fun id => .append (numberedLog id)) ++ [.flush .replied, .flush .executed]

def halfFlushed : LogStore Principal :=
  (storeEvents.foldlM (LogStore.play PositionLog.storage .debug) emptyStore).getD emptyStore

theorem halfFlushed_reachable : LogStoreReachable PositionLog.storage .debug halfFlushed :=
  store_script_reachable (.start ⟨[], rfl⟩) (end_of_script (by decide +kernel))

end Sample

theorem half_flushed_store_keeps_logs :
    Sample.halfFlushed.storage.held.length = 4 * 172 ∧
      Sample.halfFlushed.storage.unacknowledged.length = 2 * 172 ∧
      Sample.halfFlushed.storage.data.storage_buffer.length = 7 * 172 ∧
      Sample.halfFlushed.storage.logs 172 = (List.range 9).map Sample.numberedLog ∧
      Sample.halfFlushed.storage.flushes.length ≤ 1 := by
  obtain ⟨hlogs, -, hone, -⟩ := flushing_keeps_logs PositionLog.storage .debug
    ⟨by decide, by decide⟩ _ Sample.halfFlushed_reachable
  refine ⟨by decide +kernel, by decide +kernel, by decide +kernel, hlogs.trans ?_, hone⟩
  decide +kernel

end Cts.Tc
