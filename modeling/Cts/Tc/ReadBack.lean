import Cts.Lib.Sources
import Cts.Tc.Flushed
import Cts.Tc.Indexed
import Cts.Tc.StorageViews

/-!
# Reading the logs back

A client asks the contract for the logs of its buffer, and when there are none the storage canisters
of the list, from the last to the first, until there is nothing more.
-/

namespace Cts.Tc

open Lib Lib.IndexedLog Lib.Paging Lib.Sources

variable {K : Type} [DecidableEq K] {T : StorageLogTrait K} {s : LogStorage K} {sc : StorageCanister K}
  {n others : Nat} {logs : List (List Byte)}

/-! ## The client -/

namespace LogStorage

/-- The logs that the contract replies with. -/
def bufferPage (T : StorageLogTrait K) (s : LogStorage K) (k : K) (max_logs : Nat) (start : Option Nat) :
    Option (List (List Byte)) :=
  (view_storage_logs_ T { opt_start_before_id := start, index_key := some k } s.data.storage_buffer
    max_logs).map fun logs => logs.getD []

/-- The logs that a storage canister of the list replies with. -/
def canisterPage (T : StorageLogTrait K) (s : LogStorage K) (k : K) (chunk_size : Nat)
    (start : Option Nat) (c : StorageCanisterData) : Option (List (List Byte)) :=
  match s.canister c.canister_id with
  | none => none
  | some sc => (sc.map_logs_rchunks k start chunk_size).map
      (Records.records T.STABLE_MEMORY_SERIALIZE_SIZE)

/-- The first reply with logs. -/
def readPage (T : StorageLogTrait K) (s : LogStorage K) (k : K) (max_logs chunk_size : Nat)
    (start : Option Nat) : Option (List (List Byte)) :=
  firstReply (s.bufferPage T k max_logs start ::
    s.data.storage_canisters.reverse.map (s.canisterPage T k chunk_size start))

/-- Page after page, until an empty one. -/
abbrev ReadsAll (T : StorageLogTrait K) (s : LogStorage K) (k : K) (max_logs chunk_size : Nat) :
    List (List (List Byte)) → Prop :=
  Paging.Chain (fun start => pageOf (s.readPage T k max_logs chunk_size start))
    (firstKey T.log_id_of_the_log_serialization) none

end LogStorage

/-! ## The replies -/

theorem take_countBelow {α : Type} {f : α → Nat} {st : Store α}
    (hids : ∀ id log, st.get id = some log → f log = id) (p : α → Bool) (start : Option Nat) :
    (st.logs.take (st.countBelow start)).filter p = under f (st.logs.filter p) start := by
  cases start with
  | none => rw [Store.countBelow, List.take_length]; rfl
  | some start =>
    have hget : ∀ i a, st.logs[i]? = some a → f a = st.first + i := by
      intro i a hi
      rw [← Store.get_first_add] at hi
      exact hids _ a hi
    have htake : st.logs.take (st.countBelow (some start)) = st.logs.filter fun a => f a < start := by
      apply take_eq_filter
      · intro i a hi ha
        simp only [Store.countBelow] at hi
        have := hget i a ha
        simp only [decide_eq_true_eq]
        omega
      · intro i a hi ha
        have hlt := (List.getElem?_eq_some_iff.mp ha).1
        simp only [Store.countBelow] at hi
        have := hget i a ha
        simp only [decide_eq_true_eq]
        omega
    rw [htake, under_filter]
    rfl

theorem sized_page {f : List Byte → Nat} (h : Records.Sized n logs) (m : Nat)
    (p : List Byte → Bool) (start : Option Nat) :
    Records.Sized n (newest m (under f (logs.filter p) start)) := by
  intro log hlog
  have hmem := (under_sublist start).subset (List.mem_of_mem_drop hlog)
  exact h log (List.mem_of_mem_filter hmem)

theorem canisterPage_replies (hT : T.Lawful) (h : sc.Indexes T) (k : K) {chunk_size : Nat}
    (hchunk : 1 ≤ chunk_size) (start : Option Nat) :
    Replies T.log_id_of_the_log_serialization start
      ((Records.records T.STABLE_MEMORY_SERIALIZE_SIZE sc.logs_memory).filter (has (keysOf T) (some k)))
      ((sc.map_logs_rchunks k start chunk_size).map
        (Records.records T.STABLE_MEMORY_SERIALIZE_SIZE)) := by
  obtain ⟨h, rfl, hs, hi⟩ := h
  refine ⟨chunk_size, hchunk, ?_⟩
  have hpage := Store.page_of_key h.store (keysOf T) (some k) chunk_size start
  have hlogs : Records.records T.STABLE_MEMORY_SERIALIZE_SIZE h.data.logs_memory = h.store.logs := by
    rw [hs.memory, hs.sized.records hT.size_pos]
  rw [hi.rchunk hT hs k start hchunk, Option.map_some, hlogs]
  change some (Records.records _ (List.flatten ((newest chunk_size (below start
    (h.store.idsOf (keysOf T) (some k)))).filterMap h.store.get))) = _
  rw [hpage, take_countBelow hs.ids, (sized_page hs.sized _ _ _).records hT.size_pos]

omit [DecidableEq K] in
theorem buffer_logs (h : StorageInv n others s logs) (hn : 0 < n) :
    s.data.storage_buffer = (logs.drop (total s.data.storage_canisters)).flatten ∧
      ∃ kept, Chain n s.canister s.pending 0 s.data.storage_canisters kept ∧
        Records.records n kept = logs.take (total s.data.storage_canisters) := by
  obtain ⟨kept, hchain, heq⟩ := h.data.chain
  have hlen := congrArg List.length heq
  rw [List.length_append, hchain.length, h.data.sized.flatten_length] at hlen
  have hle : total s.data.storage_canisters ≤ logs.length := by
    by_contra hlt
    have := Nat.mul_lt_mul_of_pos_right (Nat.lt_of_not_le hlt) hn
    omega
  obtain ⟨hkept, hbuffer⟩ := h.data.sized.split_prefix heq hchain.length hle
  refine ⟨hbuffer, kept, hchain, ?_⟩
  rw [hkept, Records.Sized.records (fun log hlog => h.data.sized log (List.mem_of_mem_take hlog)) hn]

theorem bufferPage_replies (hT : T.Lawful)
    (h : StorageInv T.STABLE_MEMORY_SERIALIZE_SIZE others s logs)
    (hids : ∀ i log, logs[i]? = some log → T.log_id_of_the_log_serialization log = i)
    (hkeys : ∀ log ∈ logs, (T.index_keys_of_the_log_serialization log).isSome)
    (hroom : s.data.storage_buffer.length < 2 ^ 32) (k : K) {max_logs : Nat} (hmax : 1 ≤ max_logs)
    {start : Option Nat} (hstart : ∀ id ∈ start, id ≤ logs.length) :
    Replies T.log_id_of_the_log_serialization start
      ((logs.drop (total s.data.storage_canisters)).filter (has (keysOf T) (some k)))
      (s.bufferPage T k max_logs start) := by
  refine ⟨max_logs, hmax, ?_⟩
  have hget : ∀ id log, Store.get ⟨total s.data.storage_canisters,
      logs.drop (total s.data.storage_canisters)⟩ id = some log →
        T.log_id_of_the_log_serialization log = id := by
    intro id log hlog
    obtain ⟨hle, hlog⟩ := Store.get_some hlog
    simp only at hle hlog
    rw [List.getElem?_drop, Nat.add_sub_cancel' hle] at hlog
    exact hids id log hlog
  have hwhole : WholeLogs T
      ⟨total s.data.storage_canisters, logs.drop (total s.data.storage_canisters)⟩
      s.data.storage_buffer := by
    constructor
    · exact (buffer_logs h hT.size_pos).1
    · exact fun log hlog => h.data.sized log (List.mem_of_mem_drop hlog)
    · exact hget
    · exact fun log hlog => hkeys log (List.mem_of_mem_drop hlog)
    · exact hroom
  have hreaches : StartReaches T
      ⟨total s.data.storage_canisters, logs.drop (total s.data.storage_canisters)⟩ start := by
    intro id hid hlt
    have := hstart id hid
    simp only [Store.next, List.length_drop] at hlt
    omega
  have hanswer := hwhole.answersRight hT hreaches (some k) max_logs hmax
  rw [Store.page_of_key, take_countBelow hget] at hanswer
  exact hanswer

/-! ## The logs are all there -/

omit [DecidableEq K] in
/-- The canisters hold what is before the buffer. One that has stored a chunk without the contract
knowing holds the begin of the buffer too. -/
theorem chain_covers (hn : 0 < n) {canister : Principal → Option (StorageCanister K)}
    {pending : Principal → List Byte} {first : Nat} {cs : List StorageCanisterData} {kept : List Byte}
    {later : List (List Byte)} (hc : Chain n canister pending first cs kept)
    (hp : ∀ c ∈ cs, Records.records n (pending c.canister_id) ⊆ later) :
    Covers later (cs.reverse.map fun c =>
      ((canister c.canister_id).map fun sc => Records.records n sc.logs_memory).getD [])
      (Records.records n kept) := by
  induction hc with
  | nil =>
    rw [show Records.records n ([] : List Byte) = [] by simp [Records.records]]
    exact .nil later
  | @cons c cs kept rest sc _ hsc _ hmem hlen _ ih =>
    have hown := hp c List.mem_cons_self
    rw [List.reverse_cons, List.map_append, Records.records_append rest hn hlen]
    have hlast : [c].map (fun c =>
        ((canister c.canister_id).map fun sc => Records.records n sc.logs_memory).getD []) =
          [Records.records n kept ++ Records.records n (pending c.canister_id)] := by
      simp [hsc, hmem, Records.records_append _ hn hlen]
    rw [hlast]
    apply Covers.snoc
    · exact ih fun d hd => hp d (List.mem_cons_of_mem c hd)
    · intro log hlog
      exact List.mem_append_right _ (hown hlog)

omit [DecidableEq K] in
theorem pending_subset (hn : 0 < n) (h : StorageInv n others s logs) (id : Principal) :
    Records.records n (s.pending id) ⊆ logs.drop (total s.data.storage_canisters) := by
  rcases hf : s.flushes with _ | ⟨run, rest⟩
  · simp [LogStorage.pending, hf, Records.records]
  · obtain ⟨-, -, -, -, hp⟩ := h.only (show s.flushes = [] ++ run :: rest from hf)
    have hrun := h.runs run (by rw [hf]; simp)
    rw [hp]
    rcases run with _ | ⟨_, _, _⟩ | ⟨canister_id, bytes, chunk, sizes, _ | (_ | (_ | _))⟩
    iterate 5
      · simp [FlushRun.stored, Records.records]
    obtain ⟨-, rfl, hsum, hdvd⟩ := hrun
    obtain ⟨kept, hchain, heq⟩ := h.data.chain
    obtain ⟨hbytes, -⟩ := chunk_of_buffer h.data.sized hn heq hchain.length
      (hdvd chunk List.mem_cons_self) (by omega)
    simp only [FlushRun.stored]
    split_ifs
    · rw [hbytes, Records.Sized.records ?_ hn]
      · exact List.take_subset _ _
      · exact fun log hlog => h.data.sized log (List.mem_of_mem_drop (List.mem_of_mem_take hlog))
    · simp [Records.records]

theorem readPage_eq (hT : T.Lawful) (h : StorageInv T.STABLE_MEMORY_SERIALIZE_SIZE others s logs)
    (hids : ∀ i log, logs[i]? = some log → T.log_id_of_the_log_serialization log = i)
    (hkeys : ∀ log ∈ logs, (T.index_keys_of_the_log_serialization log).isSome) (hi : s.Indices T)
    (hroom : s.data.storage_buffer.length < 2 ^ 32) (k : K) {max_logs chunk_size : Nat}
    (hmax : 1 ≤ max_logs) (hchunk : 1 ≤ chunk_size) {start : Option Nat}
    (hstart : Start T.log_id_of_the_log_serialization (logs.filter (has (keysOf T) (some k))) start) :
    ∃ page, s.readPage T k max_logs chunk_size start = some page ∧
      page <:+ under T.log_id_of_the_log_serialization (logs.filter (has (keysOf T) (some k))) start ∧
      (page = [] →
        under T.log_id_of_the_log_serialization (logs.filter (has (keysOf T) (some k))) start = []) := by
  have hn := hT.size_pos
  obtain ⟨-, kept, hchain, hkept⟩ := buffer_logs h hn
  have hcanisters := chain_covers hn hchain fun c _ => pending_subset hn h c.canister_id
  rw [hkept, ← List.append_nil (logs.drop (total s.data.storage_canisters))] at hcanisters
  have hcovers := (Covers.cons (List.nil_subset []) hcanisters).filter (has (keysOf T) (some k))
  rw [List.append_nil, List.take_append_drop, List.filter_nil, List.map_cons, List.map_map] at hcovers
  apply firstReply_eq hcovers
  · cases start <;> rfl
  · refine .cons (bufferPage_replies hT h hids hkeys hroom k hmax fun id hid => ?_) ?_
    · obtain ⟨log, hlog, rfl⟩ := hstart id hid
      obtain ⟨i, hi⟩ := List.mem_iff_getElem?.mp (List.mem_of_mem_filter hlog)
      rw [hids i log hi]
      exact (List.getElem?_eq_some_iff.mp hi).1.le
    · rw [List.forall₂_map_left_iff, List.forall₂_map_right_iff, List.forall₂_same]
      intro c hc
      obtain ⟨before, after, hcs⟩ := List.append_of_mem (List.mem_reverse.mp hc)
      rw [hcs] at hchain
      obtain ⟨-, -, -, sc, -, -, -, -, hsc, -⟩ := hchain.split
      simp only [Function.comp_apply, LogStorage.canisterPage, hsc, Option.map_some, Option.getD_some]
      exact canisterPage_replies hT (hi _ sc hsc) k hchunk start

theorem sorted_by_ids {f : List Byte → Nat} (hids : ∀ i log, logs[i]? = some log → f log = i)
    (p : List Byte → Bool) : SortedBy f (logs.filter p) := by
  refine List.Pairwise.sublist (List.Sublist.map _ List.filter_sublist) ?_
  have hall := ids_range hids 0 logs.length
  rw [List.drop_zero, List.take_length] at hall
  rw [hall]
  exact List.pairwise_lt_range'

theorem reads_all (hT : T.Lawful) (h : StorageInv T.STABLE_MEMORY_SERIALIZE_SIZE others s logs)
    (hids : ∀ i log, logs[i]? = some log → T.log_id_of_the_log_serialization log = i)
    (hkeys : ∀ log ∈ logs, (T.index_keys_of_the_log_serialization log).isSome) (hi : s.Indices T)
    (hroom : s.data.storage_buffer.length < 2 ^ 32) (k : K) {max_logs chunk_size : Nat}
    (hmax : 1 ≤ max_logs) (hchunk : 1 ≤ chunk_size) :
    ∃ pages, s.ReadsAll T k max_logs chunk_size pages ∧
      pages.reverse.flatten = logs.filter (has (keysOf T) (some k)) := by
  have hn := hT.size_pos
  have hsorted := sorted_by_ids hids (has (keysOf T) (some k))
  have hstart : Start T.log_id_of_the_log_serialization (logs.filter (has (keysOf T) (some k)))
      none := by
    intro id hid
    cases hid
  exact pages_complete hsorted
    (fun _ hstart => readPage_eq hT h hids hkeys hi hroom k hmax hchunk hstart) hstart

end Cts.Tc
