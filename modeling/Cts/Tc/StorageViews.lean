import Cts.Lib.Walk
import Cts.Tc.FlushLogs
import Cts.Tc.StoredLogs
import Cts.Tc.StoredIds

/-!
# The views of the storage buffers

`view_storage_logs_` of `lib.rs` and its two callers, on wasm32: `usize` has 32 bits, and the release
build wraps. The walk goes backwards from the byte that the start id is turned into. A `none` outside
is a trap.
-/

namespace Cts.Tc

open Lib Lib.IndexedLog

/-! ## The views -/

structure ViewStorageLogsQuest (K : Type) where
  opt_start_before_id : Option Nat
  index_key : Option K

/-- No start and no key. -/
def ViewStorageLogsQuest.all {K : Type} : ViewStorageLogsQuest K :=
  { opt_start_before_id := none
    index_key := none }

section

variable {K : Type} [DecidableEq K]

/-- How many bytes of the buffer are before the start id. -/
def till_start_before_id_len (T : StorageLogTrait K) (storage_buffer : List Byte) : Option Nat → Nat
  | none => storage_buffer.length
  | some start_before_id =>
    let first_log_id_in_the_storage_buffer := T.log_id_of_the_log_serialization
      (storage_buffer.take T.STABLE_MEMORY_SERIALIZE_SIZE)
    min (Word.mul 32 (Word.wrap 32 (start_before_id - first_log_id_in_the_storage_buffer))
      T.STABLE_MEMORY_SERIALIZE_SIZE) storage_buffer.length

def has_index_key (T : StorageLogTrait K) (index_key : Option K) (log : List Byte) : Option Bool :=
  match index_key with
  | none => some true
  | some index_key => (T.index_keys_of_the_log_serialization log).map fun keys => index_key ∈ keys

def match_logs_loop (T : StorageLogTrait K) (index_key : Option K) (max_logs : Nat)
    (logs_b : List Byte) : List Nat → List (List Byte) → Option (List (List Byte))
  | [], match_logs => some match_logs
  | i :: rest, match_logs =>
    let log_finish_i := logs_b.length - i * T.STABLE_MEMORY_SERIALIZE_SIZE
    let log := slice (log_finish_i - T.STABLE_MEMORY_SERIALIZE_SIZE) T.STABLE_MEMORY_SERIALIZE_SIZE logs_b
    match has_index_key T index_key log with
    | none => none
    | some false => match_logs_loop T index_key max_logs logs_b rest match_logs
    | some true =>
      let match_logs := match_logs ++ [log]
      if max_logs ≤ match_logs.length then some match_logs
      else match_logs_loop T index_key max_logs logs_b rest match_logs

def view_storage_logs_ (T : StorageLogTrait K) (q : ViewStorageLogsQuest K)
    (storage_buffer : List Byte) (max_logs : Nat) : Option (Option (List (List Byte))) :=
  if T.STABLE_MEMORY_SERIALIZE_SIZE ≤ storage_buffer.length then
    let logs_b := storage_buffer.take (till_start_before_id_len T storage_buffer q.opt_start_before_id)
    (match_logs_loop T q.index_key max_logs logs_b
      (List.range (logs_b.length / T.STABLE_MEMORY_SERIALIZE_SIZE)) []).map fun match_logs =>
        some match_logs.reverse
  else some none

/-- The bytes that a caller of `view_storage_logs_` replies with. -/
def reply_logs (T : StorageLogTrait K) (q : ViewStorageLogsQuest K) (storage_buffer : List Byte)
    (max_logs : Nat) : Option (List Byte) :=
  (view_storage_logs_ T q storage_buffer max_logs).map fun logs => (logs.getD []).flatten

end

def KiB : Nat := 1024
def MiB : Nat := 1024 * KiB

def view_user_positions_logs (q : ViewStorageLogsQuest Principal) (log_storage_data : LogStorageData) :
    Option (List Byte) :=
  reply_logs PositionLog.storage q log_storage_data.storage_buffer
    (1 * MiB + 512 * KiB / PositionLog.STABLE_MEMORY_SERIALIZE_SIZE)

def view_position_purchases_logs (q : ViewStorageLogsQuest PositionId)
    (log_storage_data : LogStorageData) : Option (List Byte) :=
  reply_logs TradeLog.storage q log_storage_data.storage_buffer
    (1 * MiB + 512 * KiB / TradeLog.STABLE_MEMORY_SERIALIZE_SIZE)

/-! ## The walk -/

section

variable {K : Type} [DecidableEq K] {T : StorageLogTrait K} {q : ViewStorageLogsQuest K}
  {storage_buffer : List Byte} {max_logs : Nat}

theorem match_logs_loop_eq (index_key : Option K) (logs_b : List Byte) (idx : List Nat)
    (match_logs : List (List Byte)) :
    match_logs_loop T index_key max_logs logs_b idx match_logs =
      Walk.collect (has_index_key T index_key) max_logs
        (idx.map fun i => slice (logs_b.length - i * T.STABLE_MEMORY_SERIALIZE_SIZE -
          T.STABLE_MEMORY_SERIALIZE_SIZE) T.STABLE_MEMORY_SERIALIZE_SIZE logs_b) match_logs := by
  induction idx generalizing match_logs with
  | nil => rfl
  | cons i idx ih =>
    rw [match_logs_loop, List.map_cons, Walk.collect]
    cases has_index_key T index_key (slice (logs_b.length - i * T.STABLE_MEMORY_SERIALIZE_SIZE -
        T.STABLE_MEMORY_SERIALIZE_SIZE) T.STABLE_MEMORY_SERIALIZE_SIZE logs_b) with
    | none => rfl
    | some found =>
      cases found with
      | false => exact ih match_logs
      | true => simp only [ih]

omit [DecidableEq K] in
theorem till_le (opt_start_before_id : Option Nat) :
    till_start_before_id_len T storage_buffer opt_start_before_id ≤ storage_buffer.length := by
  cases opt_start_before_id with
  | none => exact Nat.le_refl _
  | some start_before_id => exact Nat.min_le_right _ _

/-- What the walk comes by, newest first. -/
def walked (T : StorageLogTrait K) (storage_buffer : List Byte) (opt_start_before_id : Option Nat) :
    List (List Byte) :=
  Records.backwards T.STABLE_MEMORY_SERIALIZE_SIZE
    (storage_buffer.take (till_start_before_id_len T storage_buffer opt_start_before_id))

theorem view_storage_logs_eq : (view_storage_logs_ T q storage_buffer max_logs).map
    (fun logs => logs.getD []) = (Walk.collect (has_index_key T q.index_key) max_logs
      (walked T storage_buffer q.opt_start_before_id) []).map List.reverse := by
  unfold view_storage_logs_
  split_ifs with hle
  · simp only
    rw [match_logs_loop_eq, Option.map_map]
    rfl
  · have hnil : walked T storage_buffer q.opt_start_before_id = [] := by
      apply List.eq_nil_of_length_eq_zero
      have hlen : (storage_buffer.take (till_start_before_id_len T storage_buffer
        q.opt_start_before_id)).length ≤ storage_buffer.length := List.length_take_le' _ _
      rw [walked, Records.backwards_length]
      exact Nat.div_eq_of_lt (by omega)
    rw [hnil]
    rfl

end

/-! ## Whole logs with consecutive ids -/

section

variable {K : Type} {T : StorageLogTrait K} {s : Store (List Byte)} {storage_buffer : List Byte}

/-- The buffer holds the logs of the store, and fits into the memory of the canister. -/
structure WholeLogs (T : StorageLogTrait K) (s : Store (List Byte)) (storage_buffer : List Byte) :
    Prop where
  buffer : storage_buffer = s.logs.flatten
  sized : Records.Sized T.STABLE_MEMORY_SERIALIZE_SIZE s.logs
  ids : ∀ id log, s.get id = some log → T.log_id_of_the_log_serialization log = id
  keys : ∀ log ∈ s.logs, (T.index_keys_of_the_log_serialization log).isSome
  room : storage_buffer.length < 2 ^ 32

/-- A start id behind the logs is turned into a byte at or behind the end of the buffer. -/
def StartReaches (T : StorageLogTrait K) (s : Store (List Byte)) (opt_start_before_id : Option Nat) :
    Prop :=
  ∀ start_before_id ∈ opt_start_before_id, s.next < start_before_id →
    s.logs.length * T.STABLE_MEMORY_SERIALIZE_SIZE ≤
      Word.mul 32 (Word.wrap 32 (start_before_id - s.first)) T.STABLE_MEMORY_SERIALIZE_SIZE

namespace WholeLogs

theorem length (h : WholeLogs T s storage_buffer) :
    storage_buffer.length = s.logs.length * T.STABLE_MEMORY_SERIALIZE_SIZE := by
  rw [h.buffer, h.sized.flatten_length]

theorem first_id (h : WholeLogs T s storage_buffer) (hne : s.logs ≠ []) :
    T.log_id_of_the_log_serialization (storage_buffer.take T.STABLE_MEMORY_SERIALIZE_SIZE) =
      s.first := by
  have hpos : 0 < s.logs.length := List.length_pos_iff.mpr hne
  have hzero : s.logs[0]? = some s.logs[0] := List.getElem?_eq_getElem hpos
  have hslice := h.sized.slice hzero
  rw [Nat.zero_mul, List.drop_zero] at hslice
  rw [h.buffer, hslice]
  apply h.ids
  rw [← hzero, ← Store.get_first_add, Nat.add_zero]

/-- Where the start is within the logs, no arithmetic wraps. -/
theorem offset (h : WholeLogs T s storage_buffer) (hT : T.Lawful) {n : Nat}
    (hn : n ≤ s.logs.length) :
    Word.mul 32 (Word.wrap 32 n) T.STABLE_MEMORY_SERIALIZE_SIZE =
      n * T.STABLE_MEMORY_SERIALIZE_SIZE := by
  have hlen := h.length
  have hroom := h.room
  have hmul := Nat.mul_le_mul_right T.STABLE_MEMORY_SERIALIZE_SIZE hn
  have hle := Nat.le_mul_of_pos_right n hT.size_pos
  rw [Word.wrap_of_lt (by omega), Word.mul_of_lt (by omega)]

theorem till_of_reaches (h : WholeLogs T s storage_buffer) (hT : T.Lawful)
    {opt_start_before_id : Option Nat} (hr : StartReaches T s opt_start_before_id) :
    till_start_before_id_len T storage_buffer opt_start_before_id =
      s.countBelow opt_start_before_id * T.STABLE_MEMORY_SERIALIZE_SIZE := by
  have hlen := h.length
  cases opt_start_before_id with
  | none => exact hlen
  | some start_before_id =>
    unfold till_start_before_id_len Store.countBelow
    rw [hlen]
    by_cases hne : s.logs = []
    · simp [hne]
    simp only [h.first_id hne]
    rcases Nat.lt_or_ge s.next start_before_id with hlt | hle
    · have hn : s.logs.length ≤ start_before_id - s.first := by
        unfold Store.next at hlt
        omega
      rw [Nat.min_eq_right (hr start_before_id rfl hlt), Nat.min_eq_right hn]
    · have hn : start_before_id - s.first ≤ s.logs.length := by
        unfold Store.next at hle
        omega
      rw [h.offset hT hn, Nat.min_eq_left hn, Nat.min_eq_left (Nat.mul_le_mul_right _ hn)]

theorem walked_eq (h : WholeLogs T s storage_buffer) (hT : T.Lawful)
    {opt_start_before_id : Option Nat} (hr : StartReaches T s opt_start_before_id) :
    walked T storage_buffer opt_start_before_id =
      (s.logs.take (s.countBelow opt_start_before_id)).reverse := by
  have hle := s.countBelow_le opt_start_before_id
  have hlen := h.length
  have hmul := Nat.mul_le_mul_right T.STABLE_MEMORY_SERIALIZE_SIZE hle
  have htake : storage_buffer.take
      (s.countBelow opt_start_before_id * T.STABLE_MEMORY_SERIALIZE_SIZE) =
        (s.logs.take (s.countBelow opt_start_before_id)).flatten := by
    have hsplit := (List.take_append_drop (s.countBelow opt_start_before_id *
      T.STABLE_MEMORY_SERIALIZE_SIZE) storage_buffer).trans h.buffer
    refine (h.sized.split_prefix hsplit ?_ hle).1
    rw [List.length_take]
    omega
  have hsized : Records.Sized T.STABLE_MEMORY_SERIALIZE_SIZE
      (s.logs.take (s.countBelow opt_start_before_id)) :=
    fun log hlog => h.sized log (List.mem_of_mem_take hlog)
  rw [walked, h.till_of_reaches hT hr, htake, hsized.backwards hT.size_pos]

end WholeLogs

end

/-! ## The right answer -/

section

variable {K : Type} [DecidableEq K] {T : StorageLogTrait K} {s : Store (List Byte)}
  {storage_buffer : List Byte} {opt_start_before_id : Option Nat}

/-- Whatever key and limit a caller gives, it gets the newest logs with the key below the start. -/
def AnswersRight (T : StorageLogTrait K) (s : Store (List Byte)) (storage_buffer : List Byte)
    (opt_start_before_id : Option Nat) : Prop :=
  ∀ (index_key : Option K) (max_logs : Nat), 1 ≤ max_logs →
    (view_storage_logs_ T { opt_start_before_id := opt_start_before_id, index_key := index_key }
      storage_buffer max_logs).map (fun logs => logs.getD []) =
    some ((newest max_logs (below opt_start_before_id
      (s.idsOf (keysOf T) index_key))).filterMap s.get)

theorem has_index_key_eq (index_key : Option K) {log : List Byte}
    (h : (T.index_keys_of_the_log_serialization log).isSome) :
    has_index_key T index_key log = some (has (keysOf T) index_key log) := by
  cases index_key with
  | none => rfl
  | some k =>
    obtain ⟨keys, hkeys⟩ := Option.isSome_iff_exists.mp h
    simp [has_index_key, has, keysOf, hkeys]

namespace WholeLogs

theorem answersRight (h : WholeLogs T s storage_buffer) (hT : T.Lawful)
    (hr : StartReaches T s opt_start_before_id) :
    AnswersRight T s storage_buffer opt_start_before_id := by
  intro index_key max_logs hmax
  have hkeys : ∀ log ∈ s.logs.take (s.countBelow opt_start_before_id),
      has_index_key T index_key log = some (has (keysOf T) index_key log) :=
    fun log hlog => has_index_key_eq index_key (h.keys log (List.mem_of_mem_take hlog))
  have haccepted : Walk.accepted (has_index_key T index_key)
      (s.logs.take (s.countBelow opt_start_before_id)).reverse =
        ((s.logs.take (s.countBelow opt_start_before_id)).filter
          (has (keysOf T) index_key)).reverse := by
    rw [Walk.accepted, List.filter_reverse]
    congr 1
    apply List.filter_congr
    intro log hlog
    simp [hkeys log hlog]
  rw [view_storage_logs_eq, h.walked_eq hT hr, Walk.collect_of_answers, haccepted,
    Store.page_of_key, Option.map_some, List.take_reverse, List.reverse_reverse, newest]
  · intro log hlog
    rw [hkeys log (List.mem_reverse.mp hlog)]
    rfl
  · exact hmax

theorem answer_length {max_logs : Nat} (hmax : 1 ≤ max_logs) {logs : List (List Byte)}
    (hlogs : (view_storage_logs_ T { opt_start_before_id := opt_start_before_id, index_key := none }
      storage_buffer max_logs).map (fun logs => logs.getD []) = some logs) :
    logs.length = min max_logs (till_start_before_id_len T storage_buffer opt_start_before_id /
      T.STABLE_MEMORY_SERIALIZE_SIZE) := by
  have hall : Walk.accepted (has_index_key T none) (walked T storage_buffer opt_start_before_id) =
      walked T storage_buffer opt_start_before_id := by
    apply List.filter_eq_self.mpr
    intro log _
    rfl
  rw [view_storage_logs_eq, Walk.collect_of_answers (fun _ _ => rfl) hmax, hall,
    Option.map_some] at hlogs
  obtain rfl := Option.some.inj hlogs
  rw [List.length_reverse, List.length_take, walked, Records.backwards_length, List.length_take,
    Nat.min_eq_left (till_le opt_start_before_id)]

theorem reaches_of_answersRight (h : WholeLogs T s storage_buffer) (hT : T.Lawful)
    (ha : AnswersRight T s storage_buffer opt_start_before_id) :
    StartReaches T s opt_start_before_id := by
  rintro start_before_id hstart hlt
  obtain rfl : opt_start_before_id = some start_before_id := hstart
  by_contra hshort
  have hmax : 1 ≤ s.logs.length + 1 := Nat.le_add_left 1 _
  have hne : s.logs ≠ [] := by
    intro hnil
    simp [hnil] at hshort
  -- All logs are below the start, and fewer than their bytes are walked.
  have hcount : s.countBelow (some start_before_id) = s.logs.length := by
    unfold Store.next at hlt
    exact Nat.min_eq_right (by omega)
  have hlen := answer_length hmax (ha none (s.logs.length + 1) hmax)
  have hdiv : till_start_before_id_len T storage_buffer (some start_before_id) /
      T.STABLE_MEMORY_SERIALIZE_SIZE < s.logs.length := by
    rw [Nat.div_lt_iff_lt_mul hT.size_pos, till_start_before_id_len]
    simp only [h.first_id hne]
    omega
  have hbytes := h.length
  rw [Store.page_of_key, hcount, List.take_length, newest, List.length_drop, filter_has_none] at hlen
  omega

end WholeLogs

/-- The offset of the start id has 32 bits. -/
theorem view_storage_logs_answers_iff (hT : T.Lawful) (h : WholeLogs T s storage_buffer) :
    AnswersRight T s storage_buffer opt_start_before_id ↔ StartReaches T s opt_start_before_id := by
  constructor
  · exact h.reaches_of_answersRight hT
  · exact h.answersRight hT

end

/-! ## Buffers of position logs -/

theorem PositionLog.keysOf_serialization (log : PositionLog) :
    PositionLog.storage.index_keys_of_the_log_serialization log.stable_memory_serialize =
      some [log.positor] := by
  have hslice : slice 18 30 log.stable_memory_serialize = principal_as_thirty_bytes log.positor := by
    unfold slice PositionLog.stable_memory_serialize
    simp only [List.append_assoc]
    rw [← List.append_assoc, List.drop_left' (by simp), List.take_left' (by simp)]
  unfold PositionLog.storage
  simp only
  rw [hslice, thirty_bytes_principal]
  rfl

theorem WholeLogs.of_positions {logs : List PositionLog} {first : Nat}
    (hids : logs.map PositionLog.id = List.range' first logs.length)
    (hid : first + logs.length ≤ 2 ^ 128)
    (hroom : logs.length * PositionLog.STABLE_MEMORY_SERIALIZE_SIZE < 2 ^ 32) :
    WholeLogs PositionLog.storage
      { first := first, logs := logs.map PositionLog.stable_memory_serialize }
      (logs.map PositionLog.stable_memory_serialize).flatten := by
  have hsized : Records.Sized PositionLog.STABLE_MEMORY_SERIALIZE_SIZE
      (logs.map PositionLog.stable_memory_serialize) := by
    rintro log_b hlog
    obtain ⟨log, -, rfl⟩ := List.mem_map.mp hlog
    exact log.stable_memory_serialize_length
  constructor
  · rfl
  · exact hsized
  · apply batch_ids
    rw [List.map_map, List.length_map, ← hids]
    apply List.map_congr_left
    rintro log hlog
    have hmem : log.id ∈ List.range' first logs.length := by
      rw [← hids]
      exact List.mem_map_of_mem hlog
    rw [List.mem_range'_1] at hmem
    exact log.log_id_of_serialization (lt_of_lt_of_le hmem.2 hid)
  · rintro log_b hlog
    obtain ⟨log, -, rfl⟩ := List.mem_map.mp hlog
    rw [log.keysOf_serialization]
    rfl
  · rw [hsized.flatten_length, List.length_map]
    exact hroom

/-- A position of one user that was voided at once. -/
def voidedPosition (id : PositionId) : PositionLog :=
  { id := id
    positor := .of_byte 1
    quest := { quantity := 5, cycles_per_token_rate := 3 }
    position_kind := .Token
    mainder_position_quantity := 5
    fill_quantity := 0
    fill_average_rate := 0
    payouts_fees_sum := 0
    creation_timestamp_nanos := 7
    position_termination := some { timestamp_nanos := 8, cause := .UserCallVoidPosition }
    void_position_payout_dust_collection := false
    void_position_payout_ledger_transfer_fee := 2 }

def voidedPositions (n : Nat) : List PositionLog := (List.range n).map voidedPosition

def voidedStore (n : Nat) : Store (List Byte) :=
  { first := 0, logs := (voidedPositions n).map PositionLog.stable_memory_serialize }

theorem voided_length (n : Nat) : (voidedStore n).logs.length = n := by
  simp [voidedStore, voidedPositions]

theorem voided_whole {n : Nat} (h : n * PositionLog.STABLE_MEMORY_SERIALIZE_SIZE < 2 ^ 32) :
    WholeLogs PositionLog.storage (voidedStore n) (voidedStore n).logs.flatten := by
  have hlen : (voidedPositions n).length = n := by simp [voidedPositions]
  apply WholeLogs.of_positions
  · rw [hlen, voidedPositions, List.map_map, ← List.range_eq_range']
    exact List.map_id _
  · have hle := Nat.le_mul_of_pos_right n (show 0 < PositionLog.STABLE_MEMORY_SERIALIZE_SIZE by decide)
    rw [hlen]
    omega
  · rw [hlen]
    exact h

theorem view_of_two_positions :
    AnswersRight PositionLog.storage (voidedStore 2) (voidedStore 2).logs.flatten (some 1) :=
  (view_storage_logs_answers_iff PositionLog.storage_lawful (voided_whole (by decide))).mpr
    (by simp [StartReaches, voidedStore, voidedPositions, Store.next])

/-- The offset of this start wraps to 328, where no log ends. -/
theorem view_wraps_to_no_log :
    view_storage_logs_ PositionLog.storage
        { opt_start_before_id := some 24970742, index_key := none }
        (voidedStore 2).logs.flatten 1 =
      some (some [slice 156 172 (voidedStore 2).logs.flatten]) ∧
    slice 156 172 (voidedStore 2).logs.flatten ∉ (voidedStore 2).logs ∧
    ¬ AnswersRight PositionLog.storage (voidedStore 2) (voidedStore 2).logs.flatten
      (some 24970742) := by
  refine ⟨by decide +kernel, by decide +kernel, ?_⟩
  intro ha
  have hr := (voided_whole (by decide)).reaches_of_answersRight PositionLog.storage_lawful ha
  exact absurd (hr 24970742 rfl (by decide)) (by decide)

/-! ## The size of a reply -/

section

variable {K : Type} [DecidableEq K] {T : StorageLogTrait K} {q : ViewStorageLogsQuest K}
  {storage_buffer : List Byte} {max_logs limit : Nat}

/-- What the walk takes when no limit stops it. -/
def matching (T : StorageLogTrait K) (q : ViewStorageLogsQuest K) (storage_buffer : List Byte) :
    List (List Byte) :=
  Walk.accepted (has_index_key T q.index_key)
    (Walk.answered (has_index_key T q.index_key) (walked T storage_buffer q.opt_start_before_id))

/-- The walk can come by bytes in which there is no key. -/
def Unreadable (T : StorageLogTrait K) (q : ViewStorageLogsQuest K) (storage_buffer : List Byte) :
    Prop :=
  ∃ log ∈ walked T storage_buffer q.opt_start_before_id, has_index_key T q.index_key log = none

theorem reply_logs_eq : reply_logs T q storage_buffer max_logs =
    (Walk.collect (has_index_key T q.index_key) max_logs
      (walked T storage_buffer q.opt_start_before_id) []).map fun logs => logs.reverse.flatten := by
  unfold reply_logs
  have h : ((view_storage_logs_ T q storage_buffer max_logs).map fun logs => logs.getD []).map
      List.flatten = _ := congrArg (Option.map List.flatten) view_storage_logs_eq
  rw [Option.map_map, Option.map_map] at h
  exact h

theorem matching_sized : Records.Sized T.STABLE_MEMORY_SERIALIZE_SIZE (matching T q storage_buffer) := by
  intro log hlog
  have hanswered := (List.mem_filter.mp hlog).1
  exact Records.backwards_sized _ _ log ((List.takeWhile_sublist _).subset hanswered)

omit [DecidableEq K] in
theorem reply_of_sized {logs : List (List Byte)}
    (h : Records.Sized T.STABLE_MEMORY_SERIALIZE_SIZE logs) :
    logs.reverse.flatten.length = logs.length * T.STABLE_MEMORY_SERIALIZE_SIZE := by
  have hrev : Records.Sized T.STABLE_MEMORY_SERIALIZE_SIZE logs.reverse :=
    fun log hlog => h log (List.mem_reverse.mp hlog)
  rw [hrev.flatten_length, List.length_reverse]

theorem readable_iff : ¬ Unreadable T q storage_buffer ↔
    ∀ log ∈ walked T storage_buffer q.opt_start_before_id,
      (has_index_key T q.index_key log).isSome := by
  simp [Unreadable, Option.isSome_iff_ne_none]

theorem reply_stopped (hpos : 0 < max_logs) (h : max_logs ≤ (matching T q storage_buffer).length) :
    reply_logs T q storage_buffer max_logs =
      some ((matching T q storage_buffer).take max_logs).reverse.flatten := by
  have hreached : max_logs ≤ ([] : List (List Byte)).length + (matching T q storage_buffer).length := by
    rw [List.length_nil, Nat.zero_add]
    exact h
  rw [reply_logs_eq, Walk.collect_reached hpos hreached]
  rfl

theorem reply_not_stopped (h : (matching T q storage_buffer).length < max_logs) :
    (¬ Unreadable T q storage_buffer → reply_logs T q storage_buffer max_logs =
      some (matching T q storage_buffer).reverse.flatten) ∧
    (Unreadable T q storage_buffer → reply_logs T q storage_buffer max_logs = none) := by
  have hnot : ([] : List (List Byte)).length + (matching T q storage_buffer).length < max_logs := by
    rw [List.length_nil, Nat.zero_add]
    exact h
  rw [reply_logs_eq, Walk.collect_not_reached hnot]
  constructor
  · intro hread
    have hall := readable_iff.mp hread
    rw [if_pos hall, matching, Walk.answered_eq_self hall]
    rfl
  · intro hunread
    rw [if_neg fun hall => readable_iff.mpr hall hunread]
    rfl

theorem reply_fits_iff (hmax : limit < max_logs * T.STABLE_MEMORY_SERIALIZE_SIZE) :
    (∀ bytes, reply_logs T q storage_buffer max_logs = some bytes → bytes.length ≤ limit) ↔
      (matching T q storage_buffer).length * T.STABLE_MEMORY_SERIALIZE_SIZE ≤ limit ∨
        ((matching T q storage_buffer).length < max_logs ∧ Unreadable T q storage_buffer) := by
  have hsized : Records.Sized T.STABLE_MEMORY_SERIALIZE_SIZE (matching T q storage_buffer) :=
    matching_sized
  rcases Nat.lt_or_ge (matching T q storage_buffer).length max_logs with hlt | hge
  · obtain ⟨hread, hunread⟩ := reply_not_stopped hlt
    by_cases hu : Unreadable T q storage_buffer
    · rw [hunread hu]
      simp [hlt, hu]
    · rw [hread hu]
      simp [hu, reply_of_sized hsized]
  · have hpos : 0 < max_logs := by
      apply Nat.pos_of_ne_zero
      rintro rfl
      omega
    have htake : Records.Sized T.STABLE_MEMORY_SERIALIZE_SIZE
        ((matching T q storage_buffer).take max_logs) :=
      fun log hlog => hsized log (List.mem_of_mem_take hlog)
    have hlength := reply_of_sized htake
    rw [List.length_take, Nat.min_eq_left hge] at hlength
    have hmul := Nat.mul_le_mul_right T.STABLE_MEMORY_SERIALIZE_SIZE hge
    rw [reply_stopped hpos hge]
    constructor
    · intro h
      have hle := h _ rfl
      omega
    · rintro (hfits | ⟨hlt, -⟩)
      · omega
      · omega

end

/-- What `view_user_current_positions` keeps to. -/
def sponse_limit : Nat := 1 * MiB + 512 * KiB

theorem TradeLog.readable (q : ViewStorageLogsQuest PositionId) (storage_buffer : List Byte) :
    ¬ Unreadable TradeLog.storage q storage_buffer := by
  rintro ⟨log, -, hnone⟩
  unfold has_index_key at hnone
  cases hkey : q.index_key with
  | none => simp [hkey] at hnone
  | some k => simp [hkey, TradeLog.storage] at hnone

/-- The views pass on `1*MiB + 512*KiB / size`, which is over a million logs. -/
theorem log_views_keep_the_limit_iff (log_storage_data : LogStorageData)
    (positions_quest : ViewStorageLogsQuest Principal)
    (trades_quest : ViewStorageLogsQuest PositionId) :
    ((∀ bytes, view_user_positions_logs positions_quest log_storage_data = some bytes →
        bytes.length ≤ sponse_limit) ↔
      (matching PositionLog.storage positions_quest log_storage_data.storage_buffer).length ≤
          sponse_limit / PositionLog.STABLE_MEMORY_SERIALIZE_SIZE ∨
        ((matching PositionLog.storage positions_quest log_storage_data.storage_buffer).length <
            1 * MiB + 512 * KiB / PositionLog.STABLE_MEMORY_SERIALIZE_SIZE ∧
          Unreadable PositionLog.storage positions_quest log_storage_data.storage_buffer)) ∧
    ((∀ bytes, view_position_purchases_logs trades_quest log_storage_data = some bytes →
        bytes.length ≤ sponse_limit) ↔
      (matching TradeLog.storage trades_quest log_storage_data.storage_buffer).length ≤
        sponse_limit / TradeLog.STABLE_MEMORY_SERIALIZE_SIZE) := by
  constructor
  · have hsize : 0 < PositionLog.STABLE_MEMORY_SERIALIZE_SIZE := by decide
    rw [Nat.le_div_iff_mul_le hsize]
    exact reply_fits_iff (by decide)
  · have hsize : 0 < TradeLog.STABLE_MEMORY_SERIALIZE_SIZE := by decide
    rw [Nat.le_div_iff_mul_le hsize]
    refine (reply_fits_iff (by decide)).trans ?_
    simp only [TradeLog.readable, and_false, or_false]
    rfl

theorem WholeLogs.reply {K : Type} [DecidableEq K] {T : StorageLogTrait K} {s : Store (List Byte)}
    {storage_buffer : List Byte} (h : WholeLogs T s storage_buffer) (hT : T.Lawful) {max_logs : Nat}
    (hpos : 1 ≤ max_logs) (hmax : s.logs.length ≤ max_logs) :
    reply_logs T .all storage_buffer max_logs = some storage_buffer := by
  have hr : StartReaches T s none := by
    rintro start_before_id hstart
    cases hstart
  have ha := congrArg (Option.map List.flatten) (h.answersRight hT hr none max_logs hpos)
  rw [Store.page_of_key, Store.countBelow, List.take_length, filter_has_none, newest,
    Nat.sub_eq_zero_of_le hmax, List.drop_zero, Option.map_some, ← h.buffer, Option.map_map] at ha
  exact ha

def voidedData (n : Nat) : LogStorageData :=
  { LogStorageData.new PositionLog.STABLE_MEMORY_SERIALIZE_SIZE [] with
    storage_buffer := (voidedStore n).logs.flatten }

theorem view_of_voided {n : Nat} (h : n * PositionLog.STABLE_MEMORY_SERIALIZE_SIZE < 2 ^ 32)
    (hmax : n ≤ 1 * MiB + 512 * KiB / PositionLog.STABLE_MEMORY_SERIALIZE_SIZE) :
    ∃ bytes, view_user_positions_logs .all (voidedData n) = some bytes ∧
      bytes.length = n * PositionLog.STABLE_MEMORY_SERIALIZE_SIZE := by
  have hwhole := voided_whole h
  refine ⟨(voidedStore n).logs.flatten, ?_, ?_⟩
  · apply hwhole.reply PositionLog.storage_lawful
    · decide
    · exact (voided_length n).trans_le hmax
  · rw [hwhole.length, voided_length]
    rfl

theorem view_of_all_positions_is_too_large :
    ¬ ∀ q log_storage_data bytes, view_user_positions_logs q log_storage_data = some bytes →
      bytes.length ≤ sponse_limit := by
  intro h
  have hsize : 9145 * PositionLog.STABLE_MEMORY_SERIALIZE_SIZE < 2 ^ 32 := by decide
  obtain ⟨bytes, hview, hlen⟩ := view_of_voided hsize (by decide)
  have hle := h _ _ bytes hview
  rw [hlen] at hle
  exact absurd hle (by decide)

end Cts.Tc
