import Cts.Tc.FlushLogs
import Cts.Lib.Runs

/-!
# What a log storage holds

The storage canisters, one after another, and then the buffer hold the logs in order. `others`
counts the holders of the lock that are no flushes.
-/

namespace Cts.Tc

open Lib

section

variable {K : Type} {n : Nat}

/-! ## The canisters in list order -/

/-- What a run has stored in a canister and not been told yet. -/
def FlushRun.stored (run : FlushRun) (canister_id : Principal) : List Byte :=
  match run with
  | .flushing id bytes _ _ (.answered (.ok (.ok ()))) => if id = canister_id then bytes else []
  | _ => []

def LogStorage.pending (s : LogStorage K) (canister_id : Principal) : List Byte :=
  s.flushes.flatMap fun run => run.stored canister_id

/-- The canisters hold `kept`, each from its `first_log_id` on, and the pending chunks. -/
inductive Chain (n : Nat) (canister : Principal → Option (StorageCanister K))
    (pending : Principal → List Byte) : Nat → List StorageCanisterData → List Byte → Prop
  | nil (first : Nat) : Chain n canister pending first [] []
  | cons {c : StorageCanisterData} {cs : List StorageCanisterData} {kept rest : List Byte}
      {sc : StorageCanister K} (hsize : c.log_size = n) (hsc : canister c.canister_id = some sc)
      (hscsize : sc.log_size = n) (hmem : sc.logs_memory = kept ++ pending c.canister_id)
      (hlen : kept.length = c.length * n)
      (h : Chain n canister pending (c.first_log_id + c.length) cs rest) :
      Chain n canister pending c.first_log_id (c :: cs) (kept ++ rest)

/-- How many logs the entries say there are. -/
def total (cs : List StorageCanisterData) : Nat := (cs.map StorageCanisterData.length).sum

@[simp]
theorem total_nil : total [] = 0 := rfl

@[simp]
theorem total_cons (c : StorageCanisterData) (cs : List StorageCanisterData) :
    total (c :: cs) = c.length + total cs := rfl

@[simp]
theorem total_append (cs ds : List StorageCanisterData) : total (cs ++ ds) = total cs + total ds := by
  simp [total]

variable {canister canister' : Principal → Option (StorageCanister K)}
  {pending pending' : Principal → List Byte} {first : Nat} {cs : List StorageCanisterData}
  {c : StorageCanisterData} {kept : List Byte}

theorem Chain.congr (h : Chain n canister pending first cs kept)
    (hc : ∀ c ∈ cs, pending' c.canister_id = pending c.canister_id ∧
      ∀ sc, canister c.canister_id = some sc → ∃ sc', canister' c.canister_id = some sc' ∧
        sc'.log_size = sc.log_size ∧ sc'.logs_memory = sc.logs_memory) :
    Chain n canister' pending' first cs kept := by
  induction h with
  | nil first => exact .nil first
  | cons hsize hsc hscsize hmem hlen _ ih =>
    obtain ⟨hpending, hcanister⟩ := hc _ List.mem_cons_self
    obtain ⟨sc', hsc', hsize', hmem'⟩ := hcanister _ hsc
    refine .cons hsize hsc' (hsize'.trans hscsize) ?_ hlen
      (ih fun c hmem => hc c (List.mem_cons_of_mem _ hmem))
    rw [hpending, hmem']
    exact hmem

theorem Chain.update (h : Chain n canister pending first cs kept) {id : Principal}
    (hid : ∀ c ∈ cs, c.canister_id ≠ id) (v : Option (StorageCanister K))
    (hpending : ∀ i, i ≠ id → pending' i = pending i) :
    Chain n (Function.update canister id v) pending' first cs kept := by
  refine h.congr fun c hc => ⟨hpending _ (hid c hc), fun sc hsc => ⟨sc, ?_, rfl, rfl⟩⟩
  rw [Function.update_of_ne (hid c hc)]
  exact hsc

theorem Chain.eq_nil (h : Chain n canister pending first [] kept) : kept = [] := by
  cases h
  rfl

theorem Chain.length (h : Chain n canister pending first cs kept) : kept.length = total cs * n := by
  induction h with
  | nil => simp
  | cons _ _ _ _ hlen _ ih => rw [List.length_append, hlen, ih, total_cons, Nat.add_mul]

theorem Chain.split {ds : List StorageCanisterData}
    (h : Chain n canister pending first (cs ++ c :: ds) kept) :
    ∃ before mem after sc, kept = before ++ (mem ++ after) ∧
      Chain n canister pending first cs before ∧ c.first_log_id = first + total cs ∧
      c.log_size = n ∧ canister c.canister_id = some sc ∧ sc.log_size = n ∧
      sc.logs_memory = mem ++ pending c.canister_id ∧ mem.length = c.length * n ∧
      Chain n canister pending (c.first_log_id + c.length) ds after := by
  induction cs generalizing first kept with
  | nil =>
    cases h with
    | cons hsize hsc hscsize hmem hlen h =>
      exact ⟨[], _, _, _, rfl, .nil _, rfl, hsize, hsc, hscsize, hmem, hlen, h⟩
  | cons d cs ih =>
    cases h with
    | @cons _ _ kept₀ rest sc₀ hsize hsc hscsize hmem hlen h =>
      obtain ⟨before, mem, after, sc, rfl, hbefore, hfirst, hrest⟩ := ih h
      refine ⟨kept₀ ++ before, mem, after, sc, by simp only [List.append_assoc],
        .cons hsize hsc hscsize hmem hlen hbefore, ?_, hrest⟩
      rw [hfirst, total_cons]
      omega

theorem Chain.append {ds : List StorageCanisterData} {rest : List Byte}
    (h : Chain n canister pending first cs kept)
    (h' : Chain n canister pending (first + total cs) ds rest) :
    Chain n canister pending first (cs ++ ds) (kept ++ rest) := by
  induction h with
  | nil => simpa using h'
  | cons hsize hsc hscsize hmem hlen _ ih =>
    rw [List.append_assoc]
    refine .cons hsize hsc hscsize hmem hlen (ih ?_)
    rw [total_cons] at h'
    rwa [Nat.add_assoc]

theorem Chain.snoc {sc : StorageCanister K} {mem : List Byte}
    (h : Chain n canister pending first cs kept) (hfirst : c.first_log_id = first + total cs)
    (hsize : c.log_size = n) (hsc : canister c.canister_id = some sc) (hscsize : sc.log_size = n)
    (hmem : sc.logs_memory = mem ++ pending c.canister_id) (hlen : mem.length = c.length * n) :
    Chain n canister pending first (cs ++ [c]) (kept ++ mem) := by
  refine h.append ?_
  rw [← hfirst]
  simpa using Chain.cons hsize hsc hscsize hmem hlen (.nil _)

/-! ## The invariant -/

structure DataInv (n : Nat) (canister : Principal → Option (StorageCanister K))
    (pending : Principal → List Byte) (created : List Principal) (data : LogStorageData)
    (logs : List (List Byte)) : Prop where
  sized : Records.Sized n logs
  init_size : data.storage_canister_init_log_size = n
  ids_nodup : (data.storage_canisters.map StorageCanisterData.canister_id).Nodup
  ids_created : ∀ c ∈ data.storage_canisters, c.canister_id ∈ created
  temp : ∀ id, data.create_storage_canister_temp_holder = some id →
    id ∈ created ∧ ∀ c ∈ data.storage_canisters, c.canister_id ≠ id
  chain : ∃ kept, Chain n canister pending 0 data.storage_canisters kept ∧
    kept ++ data.storage_buffer = logs.flatten

/-- What a run relies on while it waits. -/
def RunOk (n : Nat) (created : List Principal) (data : LogStorageData) : FlushRun → Prop
  | .creating => data.create_storage_canister_temp_holder = none
  | .installing canister_id log_size _ => data.create_storage_canister_temp_holder = none ∧
      log_size = n ∧ canister_id ∈ created ∧ ∀ c ∈ data.storage_canisters, c.canister_id ≠ canister_id
  | .flushing canister_id bytes chunk_size rest _ =>
      (∃ before c, data.storage_canisters = before ++ [c] ∧ c.canister_id = canister_id) ∧
        bytes = data.storage_buffer.take chunk_size ∧
        chunk_size + rest.sum ≤ data.storage_buffer.length ∧ ∀ x ∈ chunk_size :: rest, n ∣ x

structure StorageInv (n others : Nat) (s : LogStorage K) (logs : List (List Byte)) : Prop where
  data : DataInv n s.canister s.pending s.created s.data logs
  lock : s.flushes.length + others = if s.data.storage_flush_lock then 1 else 0
  runs : ∀ run ∈ s.flushes, RunOk n s.created s.data run

/-- A step of a run that ends at its next call or at the end of the run. -/
structure ResultOk (n : Nat) (canister : Principal → Option (StorageCanister K))
    (created : List Principal) (logs : List (List Byte)) (r : LogStorageData × Option FlushRun) :
    Prop where
  data : DataInv n canister (fun _ => []) created r.1 logs
  lock : r.1.storage_flush_lock = r.2.isSome
  run : ∀ run, r.2 = some run → RunOk n created r.1 run ∧ ∀ id, run.stored id = []

variable {others : Nat} {s : LogStorage K} {created : List Principal} {data : LogStorageData}
  {logs : List (List Byte)} {cfg : FlushConfig} {env : FlushEnv} {canister_id : Principal} {chunk : Nat}

theorem ResultOk.inv {r : LogStorageData × Option FlushRun}
    (h : ResultOk n canister created logs r) :
    StorageInv n 0 (⟨r.1, canister, r.2.toList, created⟩ : LogStorage K) logs := by
  have hpending : LogStorage.pending (⟨r.1, canister, r.2.toList, created⟩ : LogStorage K) =
      fun _ => [] := by
    funext id
    cases hr : r.2 with
    | none => rfl
    | some run => simpa [LogStorage.pending] using (h.run run hr).2 id
  refine ⟨by rw [hpending]; exact h.data, ?_, fun run hrun => (h.run run ?_).1⟩
  · rw [h.lock]
    cases r.2 <;> rfl
  · simpa using hrun

theorem StorageInv.only (h : StorageInv n others s logs) {before after : List FlushRun}
    {run : FlushRun} (hf : s.flushes = before ++ run :: after) :
    before = [] ∧ after = [] ∧ others = 0 ∧ s.data.storage_flush_lock = true ∧
      s.pending = run.stored := by
  have hlock := h.lock
  rw [hf, List.length_append, List.length_cons] at hlock
  split_ifs at hlock with hl
  · obtain rfl := List.eq_nil_of_length_eq_zero (show before.length = 0 by omega)
    obtain rfl := List.eq_nil_of_length_eq_zero (show after.length = 0 by omega)
    refine ⟨rfl, rfl, by omega, hl, ?_⟩
    funext id
    simp [LogStorage.pending, hf]
  · omega

/-! ## The functions of a run -/

theorem create_failed_ok (h : DataInv n canister (fun _ => []) created data logs)
    (e : CreateStorageCanisterError) :
    ResultOk n canister created logs (data.create_failed env e) := by
  refine ⟨⟨h.sized, h.init_size, h.ids_nodup, h.ids_created, h.temp, h.chain⟩, rfl, fun run hrun => ?_⟩
  cases hrun

theorem install_code_ok (h : DataInv n canister (fun _ => []) created data logs)
    (hl : data.storage_flush_lock = true)
    (ht : data.create_storage_canister_temp_holder = none) (hid : canister_id ∈ created)
    (hnew : ∀ c ∈ data.storage_canisters, c.canister_id ≠ canister_id) :
    ResultOk n canister created logs (data.install_code env canister_id) := by
  unfold LogStorageData.install_code
  split
  · exact create_failed_ok h _
  · refine ⟨h, hl, fun run hrun => ?_⟩
    obtain rfl := Option.some.inj hrun
    exact ⟨⟨ht, h.init_size, hid, hnew⟩, fun _ => rfl⟩

theorem create_storage_canister_ok (h : DataInv n canister (fun _ => []) created data logs)
    (hl : data.storage_flush_lock = true) :
    ResultOk n canister created logs (data.create_storage_canister env) := by
  unfold LogStorageData.create_storage_canister
  split
  · rename_i id htemp
    obtain ⟨hid, hnew⟩ := h.temp id htemp
    refine install_code_ok ⟨h.sized, h.init_size, h.ids_nodup, h.ids_created, ?_, h.chain⟩ hl rfl
      hid hnew
    intro id hid
    cases hid
  · rename_i htemp
    split_ifs
    · exact create_failed_ok h _
    · refine ⟨h, hl, fun run hrun => ?_⟩
      obtain rfl := Option.some.inj hrun
      exact ⟨htemp, fun _ => rfl⟩

theorem flush_chunk_ok (h : DataInv n canister (fun _ => []) created data logs)
    (hl : data.storage_flush_lock = true) {before : List StorageCanisterData}
    (hcs : data.storage_canisters = before ++ [c]) {rest : List Nat}
    (hsum : rest.sum ≤ data.storage_buffer.length) (hdvd : ∀ x ∈ rest, n ∣ x) :
    ResultOk n canister created logs (data.flush_chunk c.canister_id rest) := by
  cases rest with
  | nil =>
    refine ⟨⟨h.sized, h.init_size, h.ids_nodup, h.ids_created, h.temp, h.chain⟩, rfl,
      fun run hrun => ?_⟩
    cases hrun
  | cons x rest =>
    refine ⟨h, hl, fun run hrun => ?_⟩
    obtain rfl := Option.some.inj hrun
    exact ⟨⟨⟨before, c, hcs, rfl⟩, rfl, hsum, hdvd⟩, fun _ => rfl⟩

theorem chunk_sizes_sum (max len : Nat) : (LogStorageData.chunk_sizes max len).sum = len := by
  unfold LogStorageData.chunk_sizes
  have hdiv := Nat.div_add_mod' len max
  rw [List.sum_append, List.sum_replicate_nat]
  split_ifs with h
  · rw [List.sum_nil]
    omega
  · rw [List.sum_singleton]
    omega

theorem chunk_sizes_dvd {max len : Nat} (hmax : n ∣ max) (hlen : n ∣ len) :
    ∀ x ∈ LogStorageData.chunk_sizes max len, n ∣ x := by
  intro x hx
  unfold LogStorageData.chunk_sizes at hx
  rcases List.mem_append.mp hx with hx | hx
  · rw [List.eq_of_mem_replicate hx]
    exact hmax
  · split_ifs at hx
    · cases hx
    · rw [List.mem_singleton.mp hx]
      exact (Nat.dvd_mod_iff hmax).mpr hlen

theorem max_chunk_size_dvd (cfg : FlushConfig) (log_size : Nat) :
    log_size ∣ LogStorageData.max_chunk_size cfg log_size := Nat.dvd_sub_mod _

theorem DataInv.buffer_dvd (h : DataInv n canister pending created data logs) :
    n ∣ data.storage_buffer.length := by
  obtain ⟨kept, hchain, heq⟩ := h.chain
  have hlen := congrArg List.length heq
  rw [List.length_append, hchain.length, h.sized.flatten_length] at hlen
  have hsub : data.storage_buffer.length =
      logs.length * n - total data.storage_canisters * n := by omega
  rw [hsub]
  exact Nat.dvd_sub (Nat.dvd_mul_left _ _) (Nat.dvd_mul_left _ _)

/-- The log size is one that fits a chunk. -/
def SizeFits (cfg : FlushConfig) (n : Nat) : Prop :=
  0 < n ∧ n ≤ cfg.FLUSH_STORAGE_BUFFER_CHUNK_SIZE_BEFORE_MODULO

theorem max_chunk_size_ne_zero (h : SizeFits cfg n) : LogStorageData.max_chunk_size cfg n ≠ 0 := by
  have hmod := Nat.mod_lt cfg.FLUSH_STORAGE_BUFFER_CHUNK_SIZE_BEFORE_MODULO h.1
  have hle := h.2
  unfold LogStorageData.max_chunk_size
  omega

theorem flush_chunks_ok (hn : SizeFits cfg n) (h : DataInv n canister (fun _ => []) created data logs)
    (hl : data.storage_flush_lock = true) {before : List StorageCanisterData}
    (hcs : data.storage_canisters = before ++ [c]) :
    ResultOk n canister created logs (data.flush_chunks cfg c.canister_id) := by
  unfold LogStorageData.flush_chunks
  have hlast : data.storage_canisters.getLast? = some c := by simp [hcs]
  have hsize : c.log_size = n := by
    obtain ⟨kept, hchain, -⟩ := h.chain
    rw [hcs] at hchain
    obtain ⟨-, -, -, -, -, -, -, hsize, -⟩ := hchain.split
    exact hsize
  rw [hlast]
  simp only [hsize]
  rw [if_neg (max_chunk_size_ne_zero hn)]
  exact flush_chunk_ok h hl hcs (chunk_sizes_sum _ _).le
    (chunk_sizes_dvd (max_chunk_size_dvd cfg n) h.buffer_dvd)

theorem flush_logs_go (hn : SizeFits cfg n) (h : DataInv n canister (fun _ => []) created data logs)
    (hgo : cfg.FLUSH_STORAGE_BUFFER_AT_SIZE ≤ data.storage_buffer.length ∧
      data.storage_flush_lock = false) :
    ResultOk n canister created logs (data.flush_logs cfg env) := by
  unfold LogStorageData.flush_logs
  rw [if_pos hgo]
  have hlocked : DataInv n canister (fun _ => []) created { data with storage_flush_lock := true }
      logs := ⟨h.sized, h.init_size, h.ids_nodup, h.ids_created, h.temp, h.chain⟩
  simp only
  split
  · exact create_storage_canister_ok hlocked rfl
  · rename_i c hlast
    obtain ⟨before, hcs⟩ := List.getLast?_eq_some_iff.mp hlast
    split_ifs
    · exact create_storage_canister_ok hlocked rfl
    · exact flush_chunks_ok hn hlocked rfl hcs

theorem flush_logs_ok (hn : SizeFits cfg n) (h : StorageInv n others s logs) :
    StorageInv n others (s.flush_logs cfg env) logs := by
  by_cases hgo : cfg.FLUSH_STORAGE_BUFFER_AT_SIZE ≤ s.data.storage_buffer.length ∧
      s.data.storage_flush_lock = false
  · have hlock := h.lock
    rw [if_neg (by rw [hgo.2]; exact Bool.false_ne_true)] at hlock
    have hflushes : s.flushes = [] := List.eq_nil_of_length_eq_zero (by omega)
    obtain rfl : others = 0 := by omega
    have hpending : s.pending = fun _ => [] := by
      funext id
      simp [LogStorage.pending, hflushes]
    have hd := h.data
    rw [hpending] at hd
    unfold LogStorage.flush_logs
    rw [hflushes]
    exact (flush_logs_go hn hd hgo).inv
  · unfold LogStorage.flush_logs LogStorageData.flush_logs
    rw [if_neg hgo]
    simpa using h

/-! ## Every step keeps it -/

theorem append_ok (h : StorageInv n others s logs) {log : List Byte} (hlog : log.length = n) :
    StorageInv n others (s.append log) (logs ++ [log]) := by
  obtain ⟨kept, hchain, heq⟩ := h.data.chain
  refine ⟨⟨h.data.sized.append (by simpa [Records.Sized] using hlog), h.data.init_size,
    h.data.ids_nodup, h.data.ids_created, h.data.temp, kept, hchain, ?_⟩, h.lock, fun run hrun => ?_⟩
  · simp only [LogStorage.append, List.flatten_append, ← List.append_assoc, heq]
    simp
  · have hrun := h.runs run hrun
    cases run with
    | creating => exact hrun
    | installing => exact hrun
    | flushing id bytes chunk rest call =>
      obtain ⟨hlast, rfl, hsum, hdvd⟩ := hrun
      refine ⟨hlast, ?_, ?_, hdvd⟩
      · exact (List.take_append_of_le_length (by omega)).symm
      · simp only [LogStorage.append, List.length_append]
        omega

theorem ResultOk.resume {r : LogStorageData × Option FlushRun}
    (h : ResultOk n canister created logs r) (s : LogStorage K) :
    StorageInv n 0 { (s.resume [] [] r) with canister := canister, created := created } logs := by
  have hinv := h.inv
  unfold LogStorage.resume
  rw [List.nil_append, List.append_nil]
  exact hinv

theorem Chain.last_end (h : Chain n canister pending 0 cs kept) :
    (cs.getLast?.map fun c => c.first_log_id + c.length).getD 0 = total cs := by
  rcases List.eq_nil_or_concat' cs with rfl | ⟨before, c, rfl⟩
  · rfl
  · obtain ⟨-, -, -, -, -, -, hfirst, -⟩ := h.split
    simp [hfirst]

theorem code_installed_ok (hn : SizeFits cfg n)
    (h : DataInv n canister (fun _ => []) created data logs)
    (hl : data.storage_flush_lock = true) {module_hash : List Byte}
    (hrun : RunOk n created data (.installing canister_id n module_hash)) :
    ResultOk n (Function.update canister canister_id (some (StorageCanister.init n))) created logs
      (data.install_code_reply cfg env canister_id n module_hash (.ok ())) := by
  obtain ⟨htemp, -, hcreated, hnew⟩ := hrun
  obtain ⟨kept, hchain, heq⟩ := h.chain
  have hchain' : Chain n (Function.update canister canister_id (some (StorageCanister.init n)))
      (fun _ => []) 0 (data.storage_canisters ++
        [data.new_storage_canister env canister_id n module_hash]) (kept ++ []) :=
    (hchain.update hnew (some (StorageCanister.init n)) fun _ _ => rfl).snoc
      (by rw [Nat.zero_add]; exact hchain.last_end) rfl (Function.update_self _ _ _) rfl rfl
      (by simp [LogStorageData.new_storage_canister])
  refine flush_chunks_ok (c := data.new_storage_canister env canister_id n module_hash) hn
    ⟨h.sized, h.init_size, ?_, ?_, ?_, ?_⟩ hl rfl
  · simp only [List.map_append, List.map_cons, List.map_nil]
    refine List.nodup_append.mpr ⟨h.ids_nodup, by simp, fun a ha b hb => ?_⟩
    obtain ⟨c, hc, rfl⟩ := List.mem_map.mp ha
    rw [List.mem_singleton.mp hb]
    exact hnew c hc
  · intro c hc
    rcases List.mem_append.mp hc with hc | hc
    · exact h.ids_created c hc
    · rw [List.mem_singleton.mp hc]
      exact hcreated
  · intro id hid
    rw [htemp] at hid
    cases hid
  · refine ⟨_, hchain', ?_⟩
    rw [List.append_nil]
    exact heq

@[simp]
theorem modify_last_append (f : StorageCanisterData → StorageCanisterData)
    (before : List StorageCanisterData) (c : StorageCanisterData) :
    modify_last f (before ++ [c]) = before ++ [f c] := by
  simp [modify_last]

theorem ids_ne_last {before : List StorageCanisterData}
    (h : ((before ++ [c]).map StorageCanisterData.canister_id).Nodup) :
    ∀ d ∈ before, d.canister_id ≠ c.canister_id := by
  intro d hd heq
  rw [List.map_append, List.nodup_append] at h
  exact h.2.2 _ (List.mem_map_of_mem hd) _ (by simp) heq

theorem DataInv.modify_last (h : DataInv n canister pending created data logs)
    {before : List StorageCanisterData} (hcs : data.storage_canisters = before ++ [c])
    {f : StorageCanisterData → StorageCanisterData} (hf : (f c).canister_id = c.canister_id)
    {data' : LogStorageData} (hcs' : data'.storage_canisters = modify_last f data.storage_canisters)
    (hinit : data'.storage_canister_init_log_size = data.storage_canister_init_log_size)
    (htemp : data'.create_storage_canister_temp_holder = data.create_storage_canister_temp_holder)
    (hchain : ∃ kept, Chain n canister' pending' 0 (before ++ [f c]) kept ∧
      kept ++ data'.storage_buffer = logs.flatten) :
    DataInv n canister' pending' created data' logs := by
  rw [hcs, modify_last_append] at hcs'
  have hids : data'.storage_canisters.map StorageCanisterData.canister_id =
      data.storage_canisters.map StorageCanisterData.canister_id := by
    simp [hcs, hcs', hf]
  have hmem : ∀ P : Principal → Prop, (∀ c ∈ data.storage_canisters, P c.canister_id) →
      ∀ c ∈ data'.storage_canisters, P c.canister_id := by
    intro P hP c hc
    have hc := List.mem_map_of_mem (f := StorageCanisterData.canister_id) hc
    rw [hids] at hc
    obtain ⟨d, hd, heq⟩ := List.mem_map.mp hc
    rw [← heq]
    exact hP d hd
  refine ⟨h.sized, hinit.trans h.init_size, by rw [hids]; exact h.ids_nodup,
    hmem _ h.ids_created, fun id hid => ?_, by rw [hcs']; exact hchain⟩
  rw [htemp] at hid
  exact ⟨(h.temp id hid).1, hmem (· ≠ id) (h.temp id hid).2⟩

theorem flush_executed_ok (h : DataInv n canister (fun _ => []) created data logs)
    {before : List StorageCanisterData} (hcs : data.storage_canisters = before ++ [c])
    {sc sc' : StorageCanister K} (hsc : canister c.canister_id = some sc)
    (hsize : sc'.log_size = sc.log_size) {bytes : List Byte}
    (hmem : sc'.logs_memory = sc.logs_memory ++ bytes) :
    DataInv n (Function.update canister c.canister_id (some sc'))
      (fun id => if c.canister_id = id then bytes else []) created data logs := by
  obtain ⟨kept, hchain, heq⟩ := h.chain
  rw [hcs] at hchain
  obtain ⟨keptb, mem, after, sc₀, rfl, hbefore, hfirst, hsize₀, hsc₀, hscsize, hmem₀, hlen, hafter⟩ :=
    hchain.split
  obtain rfl := hafter.eq_nil
  obtain rfl := Option.some.inj (hsc.symm.trans hsc₀)
  refine ⟨h.sized, h.init_size, h.ids_nodup, h.ids_created, h.temp, keptb ++ mem, ?_, ?_⟩
  · rw [hcs]
    have hne := ids_ne_last (by rw [← hcs]; exact h.ids_nodup)
    refine (hbefore.update hne (some sc') fun i hi => if_neg hi.symm).snoc hfirst hsize₀
      (Function.update_self _ _ _) (hsize.trans hscsize) ?_ hlen
    rw [hmem, hmem₀, List.append_nil, if_pos rfl]
  · rw [← heq]
    simp only [List.append_nil]

theorem flush_reply_ok {before : List StorageCanisterData}
    (hcs : data.storage_canisters = before ++ [c])
    (h : DataInv n canister
      (fun id => if c.canister_id = id then data.storage_buffer.take chunk else []) created data logs)
    (hl : data.storage_flush_lock = true) {rest : List Nat}
    (hsum : chunk + rest.sum ≤ data.storage_buffer.length) (hdvd : ∀ x ∈ chunk :: rest, n ∣ x) :
    ResultOk n canister created logs
      (data.flush_reply env c.canister_id chunk rest (.ok (.ok ()))) := by
  obtain ⟨kept, hchain, heq⟩ := h.chain
  rw [hcs] at hchain
  obtain ⟨keptb, mem, after, sc, rfl, hbefore, hfirst, hsize, hsc, hscsize, hmem, hlen, hafter⟩ :=
    hchain.split
  obtain rfl := hafter.eq_nil
  simp only [if_pos] at hmem
  have hne := ids_ne_last (by rw [← hcs]; exact h.ids_nodup)
  obtain ⟨m, hm⟩ := hdvd chunk List.mem_cons_self
  let f : StorageCanisterData → StorageCanisterData :=
    fun c => { c with length := c.length + chunk / c.log_size }
  let data' : LogStorageData := { data with
    storage_canisters := modify_last f data.storage_canisters
    storage_buffer := data.storage_buffer.drop chunk }
  have hcs' : data'.storage_canisters = before ++ [f c] := by
    simp only [data', hcs, modify_last_append]
  have hdata : DataInv n canister (fun _ => []) created data' logs := by
    refine h.modify_last hcs (f := f) rfl rfl rfl rfl ⟨keptb ++ sc.logs_memory, ?_, ?_⟩
    · refine (hbefore.congr fun d hd => ⟨(if_neg (hne d hd).symm).symm, fun sc hsc =>
        ⟨sc, hsc, rfl, rfl⟩⟩).snoc hfirst hsize hsc hscsize (List.append_nil _).symm ?_
      rw [hmem, List.length_append, hlen, List.length_take, Nat.min_eq_left (by omega)]
      simp only [f, hsize, hm, Nat.add_mul]
      rcases Nat.eq_zero_or_pos n with hz | hpos
      · simp [hz]
      · rw [Nat.mul_div_cancel_left _ hpos, Nat.mul_comm n m]
    · rw [← heq, hmem]
      simp only [data', List.append_assoc, List.append_nil, List.take_append_drop]
  refine flush_chunk_ok (c := f c) hdata hl hcs' ?_ fun x hx => hdvd x (List.mem_cons_of_mem _ hx)
  simp only [data', List.length_drop]
  omega

theorem flush_full_ok (h : DataInv n canister (fun _ => []) created data logs)
    {before : List StorageCanisterData} (hcs : data.storage_canisters = before ++ [c])
    (rest : List Nat) :
    ResultOk n canister created logs
      (data.flush_reply env canister_id chunk rest (.ok (.error .StorageIsFull))) := by
  obtain ⟨kept, hchain, heq⟩ := h.chain
  rw [hcs] at hchain
  obtain ⟨keptb, mem, after, sc, rfl, hbefore, hfirst, hsize, hsc, hscsize, hmem, hlen, hafter⟩ :=
    hchain.split
  obtain rfl := hafter.eq_nil
  refine ⟨h.modify_last hcs (f := fun c => { c with is_full := true }) rfl rfl rfl rfl
    ⟨keptb ++ mem, hbefore.snoc hfirst hsize hsc hscsize hmem hlen, ?_⟩, rfl, fun run hrun => ?_⟩
  · rw [← heq, List.append_nil]
    rfl
  · cases hrun

theorem flush_error_ok (h : DataInv n canister (fun _ => []) created data logs) (rest : List Nat)
    (e : CallError) :
    ResultOk n canister created logs
      (data.flush_reply env canister_id chunk rest (.error e)) := by
  unfold LogStorageData.flush_reply
  refine ⟨⟨h.sized, h.init_size, h.ids_nodup, h.ids_created, h.temp, h.chain⟩, rfl,
    fun run hrun => ?_⟩
  cases hrun

theorem install_failed_ok (h : DataInv n canister (fun _ => []) created data logs)
    (hid : canister_id ∈ created) (hnew : ∀ c ∈ data.storage_canisters, c.canister_id ≠ canister_id)
    (log_size : Nat) (module_hash : List Byte) (e : CallError) :
    ResultOk n canister created logs
      (data.install_code_reply cfg env canister_id log_size module_hash (.error e)) := by
  have hheld : DataInv n canister (fun _ => []) created
      { data with create_storage_canister_temp_holder := some canister_id } logs := by
    refine ⟨h.sized, h.init_size, h.ids_nodup, h.ids_created, fun i hi => ?_, h.chain⟩
    obtain rfl := Option.some.inj hi
    exact ⟨hid, hnew⟩
  exact create_failed_ok hheld _

variable [DecidableEq K] {T : StorageLogTrait K} {s' : LogStorage K}

theorem flush_step_ok (hn : SizeFits cfg n) (h : StorageInv n others s logs)
    (hstep : FlushStep T cfg s s') : StorageInv n others s' logs := by
  have hd := h.data
  cases hstep with
  | canister_created env id hf hnew =>
    -- The lock allows one run, so there is none before or after it.
    obtain ⟨rfl, rfl, rfl, hl, hpending⟩ := h.only hf
    have htemp := h.runs .creating (by rw [hf]; simp)
    rw [hpending] at hd
    have hgrown : DataInv n s.canister (fun _ => []) (s.created ++ [id]) s.data logs :=
      ⟨hd.sized, hd.init_size, hd.ids_nodup,
        fun c hc => List.mem_append_left _ (hd.ids_created c hc),
        fun i hi => (hd.temp i hi).imp_left (List.mem_append_left _), hd.chain⟩
    refine (install_code_ok hgrown hl htemp (by simp) fun c hc heq => hnew ?_).resume s
    rw [← heq]
    exact hd.ids_created c hc
  | create_failed env e hf =>
    obtain ⟨rfl, rfl, rfl, hl, hpending⟩ := h.only hf
    rw [hpending] at hd
    exact (create_failed_ok hd (.CreateCanisterCallError e)).resume s
  | @code_installed before after id size hash env hf =>
    obtain ⟨rfl, rfl, rfl, hl, hpending⟩ := h.only hf
    have hrun := h.runs (.installing id size hash) (by rw [hf]; simp)
    rw [hpending] at hd
    obtain rfl := hrun.2.1
    exact (code_installed_ok hn hd hl hrun).resume s
  | @install_failed before after id size hash env e hf =>
    obtain ⟨rfl, rfl, rfl, hl, hpending⟩ := h.only hf
    obtain ⟨-, -, hcreated, hnew⟩ := h.runs (.installing id size hash) (by rw [hf]; simp)
    rw [hpending] at hd
    exact (install_failed_ok hd hcreated hnew size hash e).resume s
  | @flush_executed before after id bytes chunk rest sc sc' grow r hf hsc hflush =>
    obtain ⟨rfl, rfl, rfl, hl, hpending⟩ := h.only hf
    have hrun := h.runs (.flushing id bytes chunk rest .sent) (by rw [hf]; simp)
    have hlock := h.lock
    rw [hpending] at hd
    rw [hf] at hlock
    refine ⟨?_, hlock, fun run hr => ?_⟩
    · obtain ⟨⟨before, c, hcs, rfl⟩, -⟩ := hrun
      -- A chunk that was stored is pending until the reply takes it out of the buffer.
      rcases StorageCanister.flush_spec hflush with ⟨rfl, rfl⟩ | ⟨rfl, hsize, hmem, -⟩
      · rw [Function.update_eq_self_iff.mpr hsc.symm]
        exact hd
      · have hok := flush_executed_ok hd hcs hsc hsize hmem
        refine (show LogStorage.pending _ = _ from ?_) ▸ hok
        funext i
        simp [LogStorage.pending, FlushRun.stored]
    · obtain rfl : run = .flushing id bytes chunk rest (.answered (.ok r)) := by simpa using hr
      exact hrun
  | @flush_failed before after id bytes chunk rest e hf =>
    obtain ⟨rfl, rfl, rfl, hl, hpending⟩ := h.only hf
    have hrun := h.runs (.flushing id bytes chunk rest .sent) (by rw [hf]; simp)
    have hlock := h.lock
    rw [hpending] at hd
    rw [hf] at hlock
    refine ⟨hd, hlock, fun run hr => ?_⟩
    obtain rfl : run = .flushing id bytes chunk rest (.answered (.error e)) := by simpa using hr
    exact hrun
  | @flush_replied before after id bytes chunk rest r env hf =>
    obtain ⟨rfl, rfl, rfl, hl, hpending⟩ := h.only hf
    obtain ⟨⟨before, c, hcs, rfl⟩, rfl, hsum, hdvd⟩ :=
      h.runs (.flushing id bytes chunk rest (.answered r)) (by rw [hf]; simp)
    rw [hpending] at hd
    match r with
    | .ok (.ok ()) => exact (flush_reply_ok hcs hd hl hsum hdvd).resume s
    | .ok (.error .StorageIsFull) => exact (flush_full_ok hd hcs rest).resume s
    | .error e => exact (flush_error_ok hd rest e).resume s
  | @marked_full id sc mark hsc =>
    obtain ⟨kept, hchain, heq⟩ := hd.chain
    refine ⟨⟨hd.sized, hd.init_size, hd.ids_nodup, hd.ids_created, hd.temp, kept, ?_, heq⟩, h.lock,
      h.runs⟩
    refine hchain.congr fun c _ => ⟨rfl, fun sc₀ hsc₀ => ?_⟩
    by_cases hid : c.canister_id = id
    · rw [hid, hsc] at hsc₀
      obtain rfl := Option.some.inj hsc₀
      exact ⟨{ sc with controller_mark_full := mark }, by rw [hid]; exact Function.update_self _ _ _,
        rfl, rfl⟩
    · exact ⟨sc₀, by rw [← hsc₀]; exact Function.update_of_ne hid _ _, rfl, rfl⟩

end

end Cts.Tc
