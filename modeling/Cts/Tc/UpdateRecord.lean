import Cts.Tc.StoredIds
import Cts.Tc.Payouts

/-!
# One record is overwritten

`do_update_storage_position` finds a record by its id, in the canister that has it or in the buffer.
Either way it is the record of that number that is replaced, and no other.
-/

namespace Cts.Tc

open Lib

/-! ## Finding a record -/

def StorageCanisterData.has (c : StorageCanisterData) (position_id : PositionId) : Bool :=
  position_id < c.first_log_id + c.length ∧ c.first_log_id ≤ position_id

theorem call_storage_canister_id_eq (data : LogStorageData) (position_id : PositionId) :
    call_storage_canister_id data position_id =
      (data.storage_canisters.find? fun c => c.has position_id).map
        StorageCanisterData.canister_id := by
  unfold call_storage_canister_id
  rw [List.foldl_reverse]
  induction data.storage_canisters with
  | nil => rfl
  | cons c cs ih =>
    rw [List.foldr_cons, ih]
    rw [List.find?_cons]
    cases h : c.has position_id with
    | true =>
      rw [if_pos (by simpa [StorageCanisterData.has] using h)]
      rfl
    | false => rw [if_neg (by simpa [StorageCanisterData.has] using h)]

variable {K : Type} {n others : Nat} {s : LogStorage K} {logs : List (List Byte)}
  {canister : Principal → Option (StorageCanister K)} {pending : Principal → List Byte}
  {cs : List StorageCanisterData} {kept : List Byte} {i first : Nat} {b : List Byte}
  {canister_id : Principal}

theorem storage_buffer_first_log_id_eq {data : LogStorageData}
    (h : Chain n canister pending 0 data.storage_canisters kept) :
    storage_buffer_first_log_id data = total data.storage_canisters := by
  rw [← h.last_end]
  unfold storage_buffer_first_log_id
  cases data.storage_canisters.getLast? <;> rfl

theorem Chain.behind (h : Chain n canister pending first cs kept)
    (hi : ∀ c ∈ cs, c.has i = false) (hfirst : first ≤ i) : first + total cs ≤ i := by
  induction h with
  | nil => simpa using hfirst
  | @cons c cs _ _ _ _ _ _ _ _ _ ih =>
    have hc := hi c List.mem_cons_self
    unfold StorageCanisterData.has at hc
    rw [decide_eq_false_iff_not] at hc
    have hnext : c.first_log_id + c.length ≤ i := by
      by_contra hlt
      exact hc ⟨Nat.lt_of_not_le hlt, hfirst⟩
    have ih := ih (fun d hd => hi d (List.mem_cons_of_mem _ hd)) hnext
    rw [total_cons]
    omega

/-- The record of a position as the contract finds it. -/
def LogStorage.record (n : Nat) (s : LogStorage K) (position_id : PositionId) : Option (List Byte) :=
  match call_storage_canister_id s.data position_id with
  | some canister_id => (s.canister canister_id).bind fun sc =>
      (Records.records n sc.logs_memory)[position_id - sc.first_log_id]?
  | none =>
    (Records.records n s.data.storage_buffer)[position_id - storage_buffer_first_log_id s.data]?

/-- The canister that has a record, between those before it and those behind it. -/
structure Located (n : Nat) (s : LogStorage K) (logs : List (List Byte)) (i : Nat)
    (before : List StorageCanisterData) (c : StorageCanisterData) (after : List StorageCanisterData)
    (sc : StorageCanister K) (keptb mem kepta : List Byte) : Prop where
  split : s.data.storage_canisters = before ++ c :: after
  canister : s.canister c.canister_id = some sc
  entry_size : c.log_size = n
  log_size : sc.log_size = n
  first : sc.first_log_id = c.first_log_id
  first_eq : c.first_log_id = total before
  first_le : c.first_log_id ≤ i
  index_lt : i - c.first_log_id < c.length
  fits : sc.logs_memory.length ≤ MAX_STABLE_LOGS_STORAGE_BYTES
  memory : sc.logs_memory = mem ++ s.pending c.canister_id
  memory_length : mem.length = c.length * n
  chain_before : Chain n s.canister s.pending 0 before keptb
  chain_after : Chain n s.canister s.pending (c.first_log_id + c.length) after kepta
  bytes : keptb ++ (mem ++ kepta) ++ s.data.storage_buffer = logs.flatten

theorem located (hn : 0 < n) (h : StorageInv n others s logs) (hfirst : FirstIds s)
    (hcall : call_storage_canister_id s.data i = some canister_id) :
    ∃ before c after sc keptb mem kepta, c.canister_id = canister_id ∧
      Located n s logs i before c after sc keptb mem kepta := by
  rw [call_storage_canister_id_eq] at hcall
  obtain ⟨c, hfind, rfl⟩ := Option.map_eq_some_iff.mp hcall
  have hhas : i < c.first_log_id + c.length ∧ c.first_log_id ≤ i := by
    simpa [StorageCanisterData.has] using List.find?_some hfind
  obtain ⟨before, after, hcs⟩ := List.append_of_mem (List.mem_of_find?_eq_some hfind)
  obtain ⟨kept, hchain, heq⟩ := h.data.chain
  rw [hcs] at hchain
  obtain ⟨keptb, mem, kepta, sc, rfl, hbefore, hfirst_log, hsize, hsc, hscsize, hmem, hlen, hafter⟩ :=
    hchain.split
  rw [Nat.zero_add] at hfirst_log
  have hstarts : StartsAt sc c.first_log_id := by
    refine hfirst (c.canister_id, c.first_log_id) ?_ sc hsc
    exact List.mem_map_of_mem (List.mem_of_find?_eq_some hfind)
  have hlt : i - c.first_log_id < c.length := by omega
  -- The canister has a record, so it knows where it starts.
  have hne : sc.logs_memory ≠ [] := by
    intro hnil
    have hpos := Nat.mul_pos (Nat.zero_lt_of_lt hlt) hn
    rw [hmem, List.append_eq_nil_iff] at hnil
    rw [hnil.1, List.length_nil] at hlen
    omega
  exact ⟨before, c, after, sc, keptb, mem, kepta, rfl, hcs, hsc, hsize, hscsize, hstarts.first hne,
    hfirst_log, hhas.2, hlt, hstarts.fits, hmem, hlen, hbefore, hafter, heq⟩

theorem index_fits {k len : Nat} (h : k < len) (n : Nat) : k * n + n ≤ len * n := by
  rw [← Nat.succ_mul]
  exact Nat.mul_le_mul_right n h

namespace Located

variable {before after : List StorageCanisterData} {c : StorageCanisterData} {sc : StorageCanister K}
  {keptb mem kepta : List Byte}

theorem start_eq (h : Located n s logs i before c after sc keptb mem kepta) :
    keptb.length + (i - c.first_log_id) * n = i * n := by
  rw [h.chain_before.length, ← h.first_eq, ← Nat.add_mul, Nat.add_sub_cancel' h.first_le]

theorem index_fits (h : Located n s logs i before c after sc keptb mem kepta) :
    (i - c.first_log_id) * n + n ≤ mem.length := by
  rw [h.memory_length]
  exact Tc.index_fits h.index_lt n

theorem lt_length (h : Located n s logs i before c after sc keptb mem kepta) (hn : 0 < n)
    (hs : Records.Sized n logs) : i < logs.length := by
  have hlen := congrArg List.length h.bytes
  rw [hs.flatten_length] at hlen
  simp only [List.length_append] at hlen
  have hstart := h.start_eq
  have hfits := h.index_fits
  have hle : (i + 1) * n ≤ logs.length * n := by
    rw [Nat.succ_mul]
    omega
  exact Nat.le_of_mul_le_mul_right hle hn

theorem cm_update_log_eq (h : Located n s logs i before c after sc keptb mem kepta) (hn : 0 < n)
    (hb : b.length = n) : sc.cm_update_log i b = some { sc with
      logs_memory := Records.writeAt ((i - c.first_log_id) * n) b sc.logs_memory } := by
  have hfits := h.index_fits
  have hle : mem.length ≤ sc.logs_memory.length := by
    rw [h.memory, List.length_append]
    omega
  have hmax := h.fits
  unfold MAX_STABLE_LOGS_STORAGE_BYTES at hmax
  have hindex : i - c.first_log_id ≤ (i - c.first_log_id) * n := Nat.le_mul_of_pos_right _ hn
  have hwrap : Word.wrap 64 (i - c.first_log_id) = i - c.first_log_id := Word.wrap_of_lt (by omega)
  have hfirst := h.first_le
  unfold StorageCanister.cm_update_log StorageCanister.logs_memory_i
  rw [h.first, h.log_size, hwrap, if_neg (by omega), if_neg (by omega)]
  simp only
  rw [if_neg (by omega), if_neg (by omega), if_neg (by omega)]

end Located

theorem in_buffer (h : StorageInv n others s logs)
    (hcall : call_storage_canister_id s.data i = none) :
    ∃ kept, Chain n s.canister s.pending 0 s.data.storage_canisters kept ∧
      kept ++ s.data.storage_buffer = logs.flatten ∧
      storage_buffer_first_log_id s.data = total s.data.storage_canisters ∧
      total s.data.storage_canisters ≤ i := by
  obtain ⟨kept, hchain, heq⟩ := h.data.chain
  rw [call_storage_canister_id_eq, Option.map_eq_none_iff, List.find?_eq_none] at hcall
  refine ⟨kept, hchain, heq, storage_buffer_first_log_id_eq hchain, ?_⟩
  have hbehind := hchain.behind (i := i) (fun c hc => Bool.eq_false_iff.mpr (hcall c hc))
    (Nat.zero_le _)
  rwa [Nat.zero_add] at hbehind

theorem record_eq (hn : 0 < n) (h : StorageInv n others s logs) (hfirst : FirstIds s)
    (hi : i < logs.length) : s.record n i = logs[i]? := by
  have hlog := h.data.sized.slice (List.getElem?_eq_getElem hi)
  rw [List.getElem?_eq_getElem hi]
  have hfits := index_fits hi n
  unfold LogStorage.record
  cases hcall : call_storage_canister_id s.data i with
  | some canister_id =>
    obtain ⟨before, c, after, sc, keptb, mem, kepta, rfl, hl⟩ := located hn h hfirst hcall
    have hmem := hl.index_fits
    simp only [hl.canister, Option.bind_some, hl.first, hl.memory]
    rw [Records.records_get hn (by rw [List.length_append]; omega)]
    rw [List.drop_append_of_le_length (by omega), List.take_append_of_le_length
      (by rw [List.length_drop]; omega), ← hlog, ← hl.bytes, ← hl.start_eq, List.append_assoc,
      List.append_assoc, Records.read_within keptb _ hmem]
  | none =>
    obtain ⟨kept, hchain, heq, htotal, hle⟩ := in_buffer h hcall
    simp only [htotal]
    have hstart : kept.length + (i - total s.data.storage_canisters) * n = i * n := by
      rw [hchain.length, ← Nat.add_mul, Nat.add_sub_cancel' hle]
    have hlen := congrArg List.length heq
    rw [List.length_append, h.data.sized.flatten_length] at hlen
    rw [Records.records_get hn (by omega), ← hlog, ← heq, ← hstart, List.drop_length_add_append]

/-! ## Overwriting a record -/

section

variable (hn : 0 < n) (h : StorageInv n others s logs) (hfirst : FirstIds s)
  (hflushes : s.flushes = []) (hb : b.length = n)

include hn h hfirst hflushes hb

theorem update_log_ok (hcall : call_storage_canister_id s.data i = some canister_id) :
    ∃ sc sc', s.canister canister_id = some sc ∧ sc.cm_update_log i b = some sc' ∧
      StorageInv n others { s with canister := Function.update s.canister canister_id (some sc') }
        (logs.set i b) ∧
      FirstIds { s with canister := Function.update s.canister canister_id (some sc') } := by
  obtain ⟨before, c, after, sc, keptb, mem, kepta, rfl, hl⟩ := located hn h hfirst hcall
  have hp : s.pending = fun _ => [] := by
    funext id
    simp [LogStorage.pending, hflushes]
  have hmemory : sc.logs_memory = mem := by
    rw [hl.memory, hp, List.append_nil]
  have hfits := hl.index_fits
  have hwritten : (Records.writeAt ((i - c.first_log_id) * n) b sc.logs_memory).length =
      mem.length := by
    rw [hmemory, Records.writeAt_length (by omega)]
  refine ⟨sc, _, hl.canister, hl.cm_update_log_eq hn hb, ⟨⟨h.data.sized.set i hb, h.data.init_size,
    h.data.ids_nodup, h.data.ids_created, h.data.temp, ?_⟩, h.lock, h.runs⟩, ?_⟩
  · have hnodup := h.data.ids_nodup
    rw [hl.split, List.map_append, List.map_cons, List.nodup_append, List.nodup_cons] at hnodup
    obtain ⟨-, ⟨hnotafter, -⟩, hdisjoint⟩ := hnodup
    let sc' : StorageCanister K := { sc with
      logs_memory := Records.writeAt ((i - c.first_log_id) * n) b sc.logs_memory }
    -- The other canisters have other ids, so their memories stay.
    have hchain : Chain n (Function.update s.canister c.canister_id (some sc')) s.pending 0
        (before ++ c :: after)
        (keptb ++ (Records.writeAt ((i - c.first_log_id) * n) b mem ++ kepta)) := by
      refine (hl.chain_before.update (fun d hd heq => ?_) _ fun _ _ => rfl).append ?_
      · exact hdisjoint _ (List.mem_map_of_mem hd) _ List.mem_cons_self heq
      · rw [Nat.zero_add, ← hl.first_eq]
        refine .cons hl.entry_size (Function.update_self _ _ _) hl.log_size ?_ ?_
          (hl.chain_after.update (fun d hd heq => hnotafter ?_) _ fun _ _ => rfl)
        · rw [hp, List.append_nil]
          change Records.writeAt _ b sc.logs_memory = _
          rw [hmemory]
        · rw [← hl.memory_length, ← hwritten, hmemory]
        · rw [← heq]
          exact List.mem_map_of_mem hd
    refine ⟨_, by rw [hl.split]; exact hchain, ?_⟩
    have hinner : (i - c.first_log_id) * n + b.length ≤ (mem ++ kepta).length := by
      rw [List.length_append]
      omega
    have hwrite : Records.writeAt (i * n) b (keptb ++ (mem ++ kepta) ++ s.data.storage_buffer) =
        keptb ++ (Records.writeAt ((i - c.first_log_id) * n) b mem ++ kepta) ++
          s.data.storage_buffer := by
      rw [← hl.start_eq, List.append_assoc, Records.writeAt_append_right,
        Records.writeAt_append_left _ hinner, Records.writeAt_append_left _ (by omega),
        ← List.append_assoc keptb]
    rw [← h.data.sized.write (hl.lt_length hn h.data.sized) hb, ← hl.bytes, hwrite]
  · refine hfirst.update c.canister_id (fun e he => Or.inl he) rfl fun e he hid => ?_
    have hold := hfirst e he sc (by rw [hid]; exact hl.canister)
    refine ⟨fun hne => hold.first fun hnil => hne ?_, ?_⟩
    · exact List.eq_nil_of_length_eq_zero (by rw [hwritten, ← hmemory, hnil]; rfl)
    · rw [hwritten, ← hmemory]
      exact hold.fits

omit hfirst in
/-- In the buffer. The arithmetic on ids and on 32-bit indices is exact there. -/
theorem update_buffer_ok (hcall : call_storage_canister_id s.data i = none) (hi : i < logs.length)
    (hlogs : logs.length ≤ 2 ^ 128) (hbuffer : s.data.storage_buffer.length < 2 ^ 32) :
    ∃ start, start + n ≤ s.data.storage_buffer.length ∧
      do_update_storage_position s.data i b = some ({ s.data with
        storage_buffer := Records.writeAt start b s.data.storage_buffer }, ⟨i, b, .done (.ok ())⟩) ∧
      StorageInv n others { s with data := { s.data with
        storage_buffer := Records.writeAt start b s.data.storage_buffer } } (logs.set i b) := by
  obtain ⟨kept, hchain, heq, htotal, hle⟩ := in_buffer h hcall
  have hstart : kept.length + (i - total s.data.storage_canisters) * n = i * n := by
    rw [hchain.length, ← Nat.add_mul, Nat.add_sub_cancel' hle]
  have hlen := congrArg List.length heq
  rw [List.length_append, h.data.sized.flatten_length] at hlen
  have hfits := index_fits hi n
  have hindex : i - total s.data.storage_canisters ≤ (i - total s.data.storage_canisters) * n :=
    Nat.le_mul_of_pos_right _ hn
  refine ⟨(i - total s.data.storage_canisters) * n, by omega, ?_, ⟨h.data.sized.set i hb,
    h.data.init_size, h.data.ids_nodup, h.data.ids_created, h.data.temp, kept, hchain, ?_⟩, h.lock,
    fun run hrun => ?_⟩
  · have hsub : Word.sub 128 i (storage_buffer_first_log_id s.data) =
        i - total s.data.storage_canisters := by
      rw [htotal]
      exact Word.sub_of_le (by omega) hle
    unfold do_update_storage_position
    rw [hcall, hsub, hb, Word.wrap_of_lt (by omega), Word.mul_of_lt (by omega)]
    simp only
    rw [Word.add_of_lt (by omega), if_pos (by omega)]
  · rw [← h.data.sized.write hi hb, ← heq, ← hstart, Records.writeAt_append_right]
  · rw [hflushes] at hrun
    cases hrun

end

/-! ## The updates of a run -/

/-- What is overwritten at once. -/
def written (us : List Update) : List (PositionId × List Byte) :=
  (us.filter Update.isDone).map fun u => (u.position_id, u.log_serialization_b)

/-- The updates of one kind are in the buffer, or on the way to the canisters that have the records. -/
structure UpdatesBegun (n others : Nat) (s : LogStorage K) (logs : List (List Byte))
    (data : LogStorageData) (us : List Update) : Prop where
  inv : StorageInv n others { s with data := data } (Records.setAll logs (written us))
  same : data = { s.data with storage_buffer := data.storage_buffer }
  length : data.storage_buffer.length = s.data.storage_buffer.length
  sent : ∀ u ∈ us, ∀ canister_id, u.state = .sent canister_id →
    call_storage_canister_id s.data u.position_id = some canister_id

theorem call_same {data data' : LogStorageData} {buffer : List Byte}
    (h : data' = { data with storage_buffer := buffer }) (position_id : PositionId) :
    call_storage_canister_id data' position_id = call_storage_canister_id data position_id := by
  rw [h]
  rfl

/-- Every update of a run has a record to overwrite: no slice is out of bounds. -/
theorem do_update_storage_positions_ok (hn : 0 < n) (hlogs : logs.length ≤ 2 ^ 128)
    (hbuffer : s.data.storage_buffer.length < 2 ^ 32) (hflushes : s.flushes = [])
    {jobs : List (PositionId × List Byte)} (hjobs : ∀ e ∈ jobs, e.1 < logs.length ∧ e.2.length = n)
    (h : StorageInv n others s logs) (hfirst : FirstIds s) :
    ∃ data us, do_update_storage_positions s.data jobs = some (data, us) ∧
      UpdatesBegun n others s logs data us := by
  induction jobs generalizing s logs with
  | nil => exact ⟨s.data, [], rfl, h, rfl, rfl, by simp⟩
  | cons job jobs ih =>
    obtain ⟨position_id, b⟩ := job
    obtain ⟨hlt, hb⟩ : position_id < logs.length ∧ b.length = n := hjobs _ List.mem_cons_self
    have hjobs := fun e he => hjobs e (List.mem_cons_of_mem _ he)
    cases hcall : call_storage_canister_id s.data position_id with
    | some canister_id =>
      obtain ⟨data, us, heq, hbegun⟩ := ih hlogs hbuffer hflushes hjobs h hfirst
      have hone : do_update_storage_position s.data position_id b =
          some (s.data, ⟨position_id, b, .sent canister_id⟩) := by
        unfold do_update_storage_position
        rw [hcall]
      refine ⟨data, ⟨position_id, b, .sent canister_id⟩ :: us, ?_, hbegun.inv, hbegun.same,
        hbegun.length, List.forall_mem_cons.mpr ⟨?_, hbegun.sent⟩⟩
      · simp only [do_update_storage_positions, hone, Option.bind_eq_bind, Option.bind_some, heq]
      · intro id hid
        obtain rfl := UpdateState.sent.inj hid
        exact hcall
    | none =>
      obtain ⟨start, hfits, hone, hinv⟩ := update_buffer_ok hn h hflushes hb hcall hlt hlogs hbuffer
      have hlength : (Records.writeAt start b s.data.storage_buffer).length =
          s.data.storage_buffer.length := Records.writeAt_length (by omega)
      have hset : (logs.set position_id b).length = logs.length := List.length_set
      obtain ⟨data, us, heq, hbegun⟩ := ih (s := { s with data := { s.data with
        storage_buffer := Records.writeAt start b s.data.storage_buffer } }) (by rwa [hset])
        (lt_of_eq_of_lt hlength hbuffer) hflushes (by rwa [hset]) hinv (hfirst.same rfl rfl)
      refine ⟨data, ⟨position_id, b, .done (.ok ())⟩ :: us, ?_, hbegun.inv, hbegun.same,
        hbegun.length.trans hlength, List.forall_mem_cons.mpr ⟨fun id hid => ?_, hbegun.sent⟩⟩
      · simp only [do_update_storage_positions, hone, Option.bind_eq_bind, Option.bind_some, heq]
      · cases hid

end Cts.Tc
