import Cts.Tc.StoredLogs
import Cts.Tc.StoredIds

/-!
# Every storage canister keeps its index

The canisters of a log storage serve the flushes of one contract. Each holds the logs of its place in the
list, in an array from its first id on, and finds them by their keys.
-/

namespace Cts.Tc

open Lib Lib.IndexedLog

variable {K : Type} [DecidableEq K] {T : StorageLogTrait K} {cfg : FlushConfig} {s s' : LogStorage K}
  {sc sc' : StorageCanister K} {n others : Nat} {logs : List (List Byte)}

/-! ## One canister -/

/-- The canister is an array of its logs with an index of them. -/
def StorageCanister.Indexes (T : StorageLogTrait K) (sc : StorageCanister K) : Prop :=
  ∃ h : StorageHistory K, h.data = sc ∧ h.Stored T ∧ h.Indexed T

theorem StorageCanister.Indexes.init (T : StorageLogTrait K) :
    (StorageCanister.init T.STABLE_MEMORY_SERIALIZE_SIZE : StorageCanister K).Indexes T :=
  ⟨.init T, rfl, .init T, fun _ => rfl⟩

theorem StorageCanister.Indexes.marked (h : sc.Indexes T) (mark : Bool) :
    ({ sc with controller_mark_full := mark } : StorageCanister K).Indexes T := by
  obtain ⟨h, rfl, hs, hi⟩ := h
  exact ⟨{ h with data := { h.data with controller_mark_full := mark } }, rfl,
    ⟨hs.size, hs.sized, hs.memory, hs.first, hs.room, hs.ids, hs.written⟩, hi⟩

theorem StorageCanister.Indexes.flush_nil (hT : T.Lawful) (h : sc.Indexes T) {grow : Bool}
    (hflush : sc.flush T grow [] = some (.ok (), sc')) : sc'.Indexes T := by
  obtain ⟨h, rfl, hs, hi⟩ := h
  obtain ⟨-, map, hmap, rfl⟩ := StorageCanister.flush_ok hflush
  rw [List.length_nil, Nat.zero_div] at hmap
  obtain rfl := Option.some.inj hmap
  by_cases hzero : h.data.logs_memory_i = 0
  · -- Whatever the first id is taken for, there is no log.
    have hlogs := (hs.memory_nil hT).mp hzero
    have hmemory : h.data.logs_memory = [] := List.eq_nil_of_length_eq_zero hzero
    rw [if_pos hzero, List.append_nil]
    refine ⟨⟨_, ⟨T.log_id_of_the_log_serialization [], []⟩, []⟩, rfl, ?_, fun k => ?_⟩
    · refine ⟨hs.size, by simp [Records.Sized], hmemory, rfl, hs.room, fun id log hget => ?_,
        fun id => ?_⟩
      · simp [Store.get] at hget
      · simp [lastWritten, Store.get]
    · have hk := hi k
      have hstore : h.store = ⟨h.store.first, []⟩ := by rw [← hlogs]
      rw [hstore, Store.byKey_nil] at hk
      exact hk
  · rw [if_neg hzero, List.append_nil]
    exact ⟨h, rfl, hs, hi⟩

theorem StorageCanister.Indexes.flush (hT : T.Lawful) (h : sc.Indexes T) {grow : Bool} {first : Nat}
    (hne : logs ≠ []) (hsized : Records.Sized T.STABLE_MEMORY_SERIALIZE_SIZE logs)
    (hkeys : ∀ log ∈ logs, (keysOf T log).Nodup)
    (hids : logs.map T.log_id_of_the_log_serialization = List.range' first logs.length)
    (hnext : sc.logs_memory ≠ [] →
      first = sc.first_log_id + sc.logs_memory.length / T.STABLE_MEMORY_SERIALIZE_SIZE)
    (hflush : sc.flush T grow logs.flatten = some (.ok (), sc')) : sc'.Indexes T := by
  obtain ⟨h, rfl, hs, hi⟩ := h
  have hcontinues : h.store.Continues first := by
    intro hlogs
    have hmemory : h.data.logs_memory ≠ [] := by
      intro hnil
      exact hlogs ((hs.memory_nil hT).mp (congrArg List.length hnil))
    rw [hnext hmemory, hs.memory, hs.sized.flatten_length, Nat.mul_div_cancel _ hT.size_pos, hs.first]
    rfl
  exact ⟨_, rfl, hs.flush hT hne hsized hids hcontinues hflush,
    hi.flush hT hs hne hsized hkeys hids hcontinues hflush⟩

theorem StorageCanister.Indexes.update (hT : T.Lawful) (h : sc.Indexes T) {log_id : Nat}
    {log_b old : List Byte} (hlog : T.log_id_of_the_log_serialization log_b = log_id)
    (hold : (Records.records T.STABLE_MEMORY_SERIALIZE_SIZE sc.logs_memory)[log_id - sc.first_log_id]? =
      some old)
    (hkeys : T.index_keys_of_the_log_serialization log_b = T.index_keys_of_the_log_serialization old)
    (hupdate : sc.cm_update_log log_id log_b = some sc') : sc'.Indexes T := by
  obtain ⟨h, rfl, hs, hi⟩ := h
  rw [hs.memory, hs.sized.records hT.size_pos, hs.first] at hold
  have hlt := (List.getElem?_eq_some_iff.mp hold).1
  have hfits : log_id - h.store.first < 2 ^ 64 := by
    have hroom := hs.room
    have hle := Nat.le_mul_of_pos_right h.store.logs.length hT.size_pos
    rw [hs.memory, hs.sized.flatten_length] at hroom
    unfold MAX_STABLE_LOGS_STORAGE_BYTES at hroom
    omega
  refine ⟨_, rfl, (hs.update hT hfits hlog hupdate).2,
    hi.update hT hs hfits hlog (fun log hget => ?_) hupdate⟩
  obtain ⟨-, hget⟩ := Store.get_some hget
  rw [hkeys, Option.some.inj (hold.symm.trans hget)]

/-! ## The canisters of a storage -/

def LogStorage.Indices (T : StorageLogTrait K) (s : LogStorage K) : Prop :=
  ∀ id sc, s.canister id = some sc → sc.Indexes T

theorem LogStorage.Indices.update (h : s.Indices T) {id : Principal} (hsc : sc.Indexes T)
    (hc : s'.canister = Function.update s.canister id (some sc)) : s'.Indices T := by
  intro i c hi
  rw [hc, Function.update_apply] at hi
  split_ifs at hi
  · obtain rfl := Option.some.inj hi
    exact hsc
  · exact h i c hi

theorem LogStorage.Indices.same (h : s.Indices T) (hc : s'.canister = s.canister) : s'.Indices T := by
  intro id sc hsc
  rw [hc] at hsc
  exact h id sc hsc

theorem chunk_of_buffer {k chunk : Nat} (hs : Records.Sized n logs) (hn : 0 < n)
    {kept buffer : List Byte} (heq : kept ++ buffer = logs.flatten) (hk : kept.length = k * n)
    (hdvd : n ∣ chunk) (hle : chunk ≤ buffer.length) :
    buffer.take chunk = ((logs.drop k).take (chunk / n)).flatten ∧
      ((logs.drop k).take (chunk / n)).length = chunk / n := by
  obtain ⟨m, rfl⟩ := hdvd
  rw [Nat.mul_div_cancel_left m hn]
  have hlen := congrArg List.length heq
  rw [List.length_append, hk, hs.flatten_length] at hlen
  have hkm : (k + m) * n ≤ logs.length * n := by
    rw [Nat.add_mul, Nat.mul_comm m n]
    omega
  have hkm := Nat.le_of_mul_le_mul_right hkm hn
  obtain ⟨-, hbuffer⟩ := hs.split_prefix heq hk (by omega)
  have hrest : Records.Sized n (logs.drop k) := fun log hlog => hs log (List.mem_of_mem_drop hlog)
  have hsplit := (List.take_append_drop (n * m) buffer).trans hbuffer
  refine ⟨(hrest.split_prefix hsplit ?_ ?_).1, ?_⟩
  · rw [List.length_take, Nat.min_eq_left hle, Nat.mul_comm]
  · rw [List.length_drop]
    omega
  · rw [List.length_take, List.length_drop]
    omega

theorem ids_range {f : List Byte → Nat} (hids : ∀ i log, logs[i]? = some log → f log = i)
    (k m : Nat) :
    ((logs.drop k).take m).map f = List.range' k ((logs.drop k).take m).length := by
  apply List.ext_getElem
  · simp
  · intro i hi _
    rw [List.getElem_map, List.getElem_range', Nat.one_mul]
    apply hids
    rw [List.length_map] at hi
    have hget := List.getElem?_eq_getElem hi
    rw [List.getElem?_take, List.getElem?_drop] at hget
    split_ifs at hget
    exact hget

section

variable (h : StorageInv T.STABLE_MEMORY_SERIALIZE_SIZE others s logs)
  (hids : ∀ i log, logs[i]? = some log → T.log_id_of_the_log_serialization log = i)
  (hkeys : ∀ log ∈ logs, (keysOf T log).Nodup) (hfirst : FirstIds s) (hi : s.Indices T)

include h hids hkeys hfirst hi

theorem indexes_flushed (hT : T.Lawful) {before after : List FlushRun} {canister_id : Principal}
    {bytes : List Byte} {chunk_size : Nat} {rest : List Nat} {grow : Bool} {r : FlushResult}
    (hf : s.flushes = before ++ .flushing canister_id bytes chunk_size rest .sent :: after)
    (hsc : s.canister canister_id = some sc) (hflush : sc.flush T grow bytes = some (r, sc')) :
    sc'.Indexes T := by
  have hold := hi canister_id sc hsc
  obtain ⟨rfl, rfl, rfl, -, hpending⟩ := h.only hf
  obtain ⟨⟨before, c, hcs, rfl⟩, rfl, hsum, hdvd⟩ :=
    h.runs (.flushing canister_id bytes chunk_size rest .sent) (by rw [hf]; simp)
  cases r with
  | error e =>
    rw [StorageCanister.flush_error hflush]
    exact hold
  | ok u =>
    obtain ⟨kept, hchain, heq⟩ := h.data.chain
    have hkept := hchain.length
    rw [hpending, hcs] at hchain
    obtain ⟨keptb, mem, kepta, sc₀, rfl, hbefore, hfirst_log, -, hsc₀, -, hmem₀, hlen, hafter⟩ :=
      hchain.split
    obtain rfl := Option.some.inj (hsc.symm.trans hsc₀)
    have hmem : sc.logs_memory = mem := hmem₀.trans (List.append_nil mem)
    obtain ⟨hbytes, hcount⟩ := chunk_of_buffer h.data.sized hT.size_pos heq hkept
      (hdvd chunk_size List.mem_cons_self) (by omega)
    rw [hbytes] at hflush
    by_cases hnil : (logs.drop (total s.data.storage_canisters)).take
        (chunk_size / T.STABLE_MEMORY_SERIALIZE_SIZE) = []
    · rw [hnil] at hflush
      exact hold.flush_nil hT hflush
    · refine hold.flush hT hnil (fun log hlog => ?_) (fun log hlog => ?_) (ids_range hids _ _)
        (fun hne => ?_) hflush
      · exact h.data.sized log (List.mem_of_mem_drop (List.mem_of_mem_take hlog))
      · exact hkeys log (List.mem_of_mem_drop (List.mem_of_mem_take hlog))
      · have hstart := hfirst (firstOf c) (List.mem_map_of_mem (by rw [hcs]; simp)) sc hsc
        rw [hstart.first hne, hmem, hlen, Nat.mul_div_cancel _ hT.size_pos, hcs, total_append]
        change _ = c.first_log_id + c.length
        rw [hfirst_log]
        simp

theorem indices_step (hT : T.Lawful) (hstep : FlushStep T cfg s s') : s'.Indices T := by
  cases hstep with
  | canister_created env id hf hnew => exact hi.same rfl
  | create_failed env e hf => exact hi.same rfl
  | @code_installed before after id size hash env hf =>
    obtain ⟨-, rfl, -⟩ := h.runs (.installing id size hash) (by rw [hf]; simp)
    exact hi.update (.init T) rfl
  | install_failed env e hf => exact hi.same rfl
  | flush_executed hf hsc hflush =>
    exact hi.update (indexes_flushed h hids hkeys hfirst hi hT hf hsc hflush) rfl
  | flush_failed e hf => exact hi.same rfl
  | flush_replied env hf => exact hi.same rfl
  | marked_full mark hsc => exact hi.update ((hi _ _ hsc).marked mark) rfl

end

end Cts.Tc
