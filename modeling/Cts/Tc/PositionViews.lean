import Cts.Lib.Newest
import Cts.Tc.FinalRecords
import Cts.Tc.Script
import Cts.Tc.Pipeline
import Cts.Tc.StorageViews
import Cts.Tc.StoredIds

/-!
# The views of the positions

A page is cut out of each of two maps, and once more after the two were merged. The positions that are
void have one more place in the second cut than in the first.
-/

namespace Cts.Tc

open Lib Lib.IndexedLog

/-! ## The view of the void positions -/

/-- `positions.range(..start_before_id)`. -/
def range_till {V : Type} (positions : OrdMap PositionId V) (opt_start_before_id : Option Nat) :
    List (PositionId × V) :=
  match opt_start_before_id with
  | none => positions.entries
  | some start_before_id => positions.entries.filter fun e => e.1 < start_before_id

/-- The function `d` of a view. -/
def newest_positions {V β : Type} (log : β → PositionLog) (read : V → β)
    (q : ViewStorageLogsQuest Principal) (positions : OrdMap PositionId V) : List β :=
  let iter := ((range_till positions q.opt_start_before_id).map fun e => read e.2).reverse
  let iter := match q.index_key with
    | none => iter
    | some index_key => iter.filter fun b => (log b).positor = index_key
  (iter.take (sponse_limit / PositionLog.STABLE_MEMORY_SERIALIZE_SIZE)).reverse

def VoidPosition.pending (vp : VoidPosition) : PositionLog × Bool :=
  (vp.update_storage_position_data.update_storage_position_log, vp.payout_data.isSome)

def void_positions_pending (q : ViewStorageLogsQuest Principal) (b : Book) :
    List (PositionLog × Bool) :=
  let v := newest_positions Prod.fst VoidPosition.pending q b.void_cycles_positions ++
    newest_positions Prod.fst VoidPosition.pending q b.void_token_positions
  let v := v.mergeSort fun a b => a.1.id ≤ b.1.id
  v.drop (v.length - (sponse_limit / PositionLog.STABLE_MEMORY_SERIALIZE_SIZE + 1))

def view_void_positions_pending (q : ViewStorageLogsQuest Principal) (b : Book) : List Byte :=
  ((void_positions_pending q b).map fun (pl, is_payout_complete) =>
    pl.stable_memory_serialize ++ [bool_as_u8 is_payout_complete]).flatten

/-! ## A page -/

/-- All the positions of a map that match a quest, oldest first. -/
def matchingPositions {V β : Type} (log : β → PositionLog) (read : V → β)
    (q : ViewStorageLogsQuest Principal) (positions : OrdMap PositionId V) : List β :=
  ((range_till positions q.opt_start_before_id).map fun e => read e.2).filter fun b =>
    q.index_key.all fun index_key => (log b).positor = index_key

section

variable {V β : Type} {log : β → PositionLog} {read : V → β} {q : ViewStorageLogsQuest Principal}
  {positions : OrdMap PositionId V}

theorem newest_positions_eq : newest_positions log read q positions =
    newest (sponse_limit / PositionLog.STABLE_MEMORY_SERIALIZE_SIZE)
      (matchingPositions log read q positions) := by
  unfold newest_positions matchingPositions
  cases q.index_key with
  | none =>
    simp only [List.take_reverse, List.reverse_reverse, newest, Option.all_none, List.filter_true]
  | some index_key =>
    simp only [List.filter_reverse, List.take_reverse, List.reverse_reverse, newest, Option.all_some]

/-- Each position is under the id of its log. -/
def KeyedByLog (log : β → PositionLog) (read : V → β) (positions : OrdMap PositionId V) : Prop :=
  ∀ e ∈ positions.entries, (log (read e.2)).id = e.1

theorem matching_everything :
    matchingPositions log read .all positions =
      positions.entries.map fun e => read e.2 := by
  simp [matchingPositions, range_till, ViewStorageLogsQuest.all]

theorem matching_sublist :
    (matchingPositions log read q positions).Sublist (positions.entries.map fun e => read e.2) := by
  have hrange : (range_till positions q.opt_start_before_id).Sublist positions.entries := by
    unfold range_till
    cases q.opt_start_before_id with
    | none => exact List.Sublist.refl _
    | some start_before_id => exact List.filter_sublist
  exact List.filter_sublist.trans (hrange.map _)

theorem KeyedByLog.keys_eq (h : KeyedByLog log read positions) :
    ((positions.entries.map fun e => read e.2).map fun b => (log b).id) = positions.keys := by
  rw [List.map_map]
  exact List.map_congr_left h

theorem KeyedByLog.sorted (h : KeyedByLog log read positions) :
    SortedBy (fun b => (log b).id) (matchingPositions log read q positions) := by
  have hkeys : positions.keys.Pairwise (· < ·) := List.pairwise_map.mpr positions.sorted
  rw [← h.keys_eq] at hkeys
  exact hkeys.sublist (matching_sublist.map _)

theorem KeyedByLog.mem_keys (h : KeyedByLog log read positions) {b : β}
    (hb : b ∈ matchingPositions log read q positions) : (log b).id ∈ positions.keys := by
  rw [← h.keys_eq]
  exact List.mem_map_of_mem (matching_sublist.subset hb)

theorem KeyedByLog.apart {V' : Type} {read' : V' → β} {positions' : OrdMap PositionId V'}
    (h : KeyedByLog log read positions) (h' : KeyedByLog log read' positions')
    (hdisjoint : ∀ k ∈ positions.keys, k ∉ positions'.keys) :
    Apart (fun b => (log b).id) (matchingPositions log read q positions)
      (matchingPositions log read' q positions') := by
  refine ⟨h.sorted, h'.sorted, ?_⟩
  intro a ha b hb heq
  apply hdisjoint _ (h.mem_keys ha)
  rw [heq]
  exact h'.mem_keys hb

end

/-! ## Both kinds -/

def voidLogId (b : PositionLog × Bool) : PositionId := b.1.id

abbrev matchingVoidPositions (q : ViewStorageLogsQuest Principal) (b : Book) (kind : PositionKind) :
    List (PositionLog × Bool) :=
  matchingPositions Prod.fst VoidPosition.pending q (b.void_positions kind)

/-- What a page is to be the end of. -/
def allVoidPositionsPending (q : ViewStorageLogsQuest Principal) (b : Book) :
    List (PositionLog × Bool) :=
  merged voidLogId (matchingVoidPositions q b .Cycles ++ matchingVoidPositions q b .Token)

section

variable {cfg : TcConfig} {s : TcState}

theorem Market.void_keyed {L : Prop} (h : Market L s) (kind : PositionKind) :
    KeyedByLog Prod.fst VoidPosition.pending (s.cm_data.void_positions kind) := by
  rintro ⟨k, vp⟩ he
  have hget := (OrdMap.mem_iff_get _ k vp).mp he
  have hvp : vp ∈ s.voids kind := by
    refine Multiset.mem_add.mpr (Or.inl (Multiset.mem_coe.mpr ?_))
    exact List.mem_map_of_mem (f := Prod.snd) he
  exact ((h.voids kind vp hvp).log_id).trans (h.book.void kind k vp hget)

theorem Market.void_apart {L : Prop} (h : Market L s) (q : ViewStorageLogsQuest Principal) :
    Apart voidLogId (matchingVoidPositions q s.cm_data.toBook .Cycles)
      (matchingVoidPositions q s.cm_data.toBook .Token) := by
  apply (h.void_keyed .Cycles).apart (h.void_keyed .Token)
  intro k hc ht
  have hvoid := (Multiset.nodup_add.mp (Multiset.nodup_add.mp h.book.nodup).2.1).2.1
  exact Multiset.disjoint_left.mp (Multiset.nodup_add.mp hvoid).2.2 hc ht

theorem void_positions_pending_eq (q : ViewStorageLogsQuest Principal) (b : Book) :
    void_positions_pending q b =
      newest (sponse_limit / PositionLog.STABLE_MEMORY_SERIALIZE_SIZE + 1) (merged voidLogId
        (newest (sponse_limit / PositionLog.STABLE_MEMORY_SERIALIZE_SIZE)
            (matchingVoidPositions q b .Cycles) ++
          newest (sponse_limit / PositionLog.STABLE_MEMORY_SERIALIZE_SIZE)
            (matchingVoidPositions q b .Token))) := by
  unfold void_positions_pending
  rw [newest_positions_eq, newest_positions_eq]
  rfl

theorem Market.void_page_sorted {L : Prop} (h : Market L s) (q : ViewStorageLogsQuest Principal) :
    SortedBy voidLogId (void_positions_pending q s.cm_data.toBook) := by
  rw [void_positions_pending_eq]
  exact ((h.void_apart q).newest _).merged_sorted.newest _

theorem mem_all_of_mem_void_page {q : ViewStorageLogsQuest Principal} {b : Book}
    {x : PositionLog × Bool} (hx : x ∈ void_positions_pending q b) :
    x ∈ allVoidPositionsPending q b := by
  rw [void_positions_pending_eq] at hx
  have hx := mem_merged.mp (List.mem_of_mem_drop hx)
  refine mem_merged.mpr (List.mem_append.mpr ?_)
  exact (List.mem_append.mp hx).imp List.mem_of_mem_drop List.mem_of_mem_drop

theorem void_page_ne_nil {q : ViewStorageLogsQuest Principal} {b : Book}
    (h : allVoidPositionsPending q b ≠ []) : void_positions_pending q b ≠ [] := by
  intro hnil
  have hlen := congrArg List.length hnil
  rw [void_positions_pending_eq, newest_length, (merged_perm _ _).length_eq, List.length_append,
    newest_length, newest_length] at hlen
  have hpos : 0 < sponse_limit / PositionLog.STABLE_MEMORY_SERIALIZE_SIZE := by decide
  apply h
  apply List.eq_nil_of_length_eq_zero
  rw [allVoidPositionsPending, (merged_perm _ _).length_eq, List.length_append]
  rw [List.length_nil] at hlen
  omega

/-! ## The bytes of a page -/

def VoidPosition.pendingBytes (b : PositionLog × Bool) : List Byte :=
  b.1.stable_memory_serialize ++ [bool_as_u8 b.2]

/-- The reply that a page is. -/
def voidPageBytes (page : List (PositionLog × Bool)) : List Byte :=
  (page.map VoidPosition.pendingBytes).flatten

theorem view_void_positions_pending_eq (q : ViewStorageLogsQuest Principal) (b : Book) :
    view_void_positions_pending q b = voidPageBytes (void_positions_pending q b) := rfl

theorem voidLogId_of_bytes {x y : PositionLog × Bool} (hx : voidLogId x < 2 ^ 128)
    (hy : voidLogId y < 2 ^ 128)
    (h : VoidPosition.pendingBytes x = VoidPosition.pendingBytes y) : voidLogId x = voidLogId y := by
  have hlen : x.1.stable_memory_serialize.length = y.1.stable_memory_serialize.length := by
    rw [PositionLog.stable_memory_serialize_length, PositionLog.stable_memory_serialize_length]
  have hlog := congrArg PositionLog.storage.log_id_of_the_log_serialization (List.append_inj h hlen).1
  rw [PositionLog.log_id_of_serialization _ hx, PositionLog.log_id_of_serialization _ hy] at hlog
  exact hlog

theorem Market.voidLogId_lt (h : Market False s) {q : ViewStorageLogsQuest Principal}
    {x : PositionLog × Bool} (hx : x ∈ allVoidPositionsPending q s.cm_data.toBook) :
    voidLogId x < s.cm_data.positions_id_counter := by
  have hof : ∀ kind, x ∈ matchingVoidPositions q s.cm_data.toBook kind →
      voidLogId x < s.cm_data.positions_id_counter := by
    intro kind hx
    obtain ⟨e, he, rfl⟩ := List.mem_map.mp (matching_sublist.subset hx)
    have hvp : e.2 ∈ s.voids kind :=
      Multiset.mem_add.mpr (Or.inl (Multiset.mem_coe.mpr (List.mem_map_of_mem he)))
    exact ((h.voids kind e.2 hvp).log_id).trans_lt (h.void_id_lt hvp)
  rcases List.mem_append.mp (mem_merged.mp hx) with hx | hx
  · exact hof .Cycles hx
  · exact hof .Token hx

/-- Two ends of the positions that match are told apart by their bytes. -/
theorem Market.void_bytes_inj (h : Market False s) (hids : s.cm_data.positions_id_counter ≤ 2 ^ 128)
    {q : ViewStorageLogsQuest Principal} {page page' : List (PositionLog × Bool)}
    (hpage : page ⊆ allVoidPositionsPending q s.cm_data.toBook)
    (hpage' : page' ⊆ allVoidPositionsPending q s.cm_data.toBook)
    (hsorted : SortedBy voidLogId page) (hsorted' : SortedBy voidLogId page')
    (heq : voidPageBytes page = voidPageBytes page') : page = page' := by
  have hsized : ∀ page : List (PositionLog × Bool),
      Records.Sized (PositionLog.STABLE_MEMORY_SERIALIZE_SIZE + 1)
        (page.map VoidPosition.pendingBytes) := by
    intro page b hb
    obtain ⟨x, -, rfl⟩ := List.mem_map.mp hb
    rw [VoidPosition.pendingBytes, List.length_append, PositionLog.stable_memory_serialize_length]
    rfl
  have hmap := (hsized page).flatten_inj (hsized page') (Nat.succ_pos _) heq
  have hall : SortedBy voidLogId (allVoidPositionsPending q s.cm_data.toBook) :=
    (h.void_apart q).merged_sorted
  have hnodup := hall.imp fun hlt => Nat.ne_of_lt hlt
  have hperm : page.Perm page' := by
    apply Records.perm_of_map (List.Perm.of_eq hmap)
    intro x hx y hy hbytes
    have hxid := (h.voidLogId_lt (hpage hx)).trans_le hids
    have hyid := (h.voidLogId_lt (hpage' hy)).trans_le hids
    exact List.inj_on_of_nodup_map hnodup (hpage hx) (hpage' hy)
      (voidLogId_of_bytes hxid hyid hbytes)
  exact hsorted.ext hsorted' fun x => hperm.mem_iff

/-- For neither kind more of the other kind than a page takes are newer than all of it. -/
def NeitherOvertakes (q : ViewStorageLogsQuest Principal) (b : Book) : Prop :=
  ∀ kind kind', kind ≠ kind' → ¬ Overtakes voidLogId
    (sponse_limit / PositionLog.STABLE_MEMORY_SERIALIZE_SIZE)
    (matchingVoidPositions q b kind) (matchingVoidPositions q b kind')

theorem Market.void_page_iff {L : Prop} (h : Market L s) (q : ViewStorageLogsQuest Principal) :
    (∃ k, void_positions_pending q s.cm_data.toBook =
      newest k (allVoidPositionsPending q s.cm_data.toBook)) ↔
    NeitherOvertakes q s.cm_data.toBook := by
  rw [void_positions_pending_eq]
  refine ((h.void_apart q).cut_is_newest_iff (by decide)).trans ?_
  constructor
  · rintro ⟨hct, htc⟩ kind kind' hne
    cases kind <;> cases kind'
    · exact absurd rfl hne
    · exact hct
    · exact htc
    · exact absurd rfl hne
  · intro h
    exact ⟨h .Cycles .Token PositionKind.noConfusion, h .Token .Cycles PositionKind.noConfusion⟩

/-- A page has no gap unless more positions of one kind than it takes are newer than all of the other
kind. It is empty only when nothing matches. -/
theorem void_pages_have_no_gaps_iff (q : ViewStorageLogsQuest Principal) (r : TcReachable cfg s) :
    let page := void_positions_pending q s.cm_data.toBook
    let all := allVoidPositionsPending q s.cm_data.toBook
    SortedBy voidLogId all ∧ (all ≠ [] → page ≠ []) ∧
      ((∃ k, page = newest k all) ↔ NeitherOvertakes q s.cm_data.toBook) ∧
      (s.cm_data.positions_id_counter ≤ 2 ^ 128 →
        ((∃ k, view_void_positions_pending q s.cm_data.toBook = voidPageBytes (newest k all)) ↔
          NeitherOvertakes q s.cm_data.toBook)) := by
  intro page all
  have hm : Market False s := market_inv r False.elim
  have hall : SortedBy voidLogId all := (hm.void_apart q).merged_sorted
  refine ⟨hall, void_page_ne_nil, hm.void_page_iff q, fun hids => ?_⟩
  rw [← hm.void_page_iff q, view_void_positions_pending_eq]
  refine exists_congr fun k => ⟨fun heq => ?_, fun heq => congrArg voidPageBytes heq⟩
  exact hm.void_bytes_inj hids (fun _ hx => mem_all_of_mem_void_page hx)
    (fun _ hx => List.mem_of_mem_drop hx) (hm.void_page_sorted q) (hall.newest k) heq

end

/-! ## Many void positions

A user opens a position and voids it, again and again, before any run of payouts starts. -/

namespace Pile

open Sample (A B sell)

def config : TcConfig := { Sample.config with MAX_VOID_POSITIONS := fun _ => 20000 }

theorem cycles_lt : 16 * 10 ^ 20 < 2 ^ 128 := by decide

theorem rate_lt : 3 < 2 ^ 128 := by decide

def order : TradeCyclesQuest where
  cycles := 16 * 10 ^ 20
  cycles_per_token_rate := 3
  posit_transfer_ledger_fee := some 10
  return_cycles_to_subaccount := none
  payout_tokens_to_subaccount := none
  cycles_lt := cycles_lt
  rate_lt := rate_lt

def buy : TradeQuest := .cycles order

def start : TcState :=
  .new config (fun | .Cycles => 10 | .Token => 2 ^ 64) [] [] fun _ _ => 10 ^ 30

/-- A position of tokens that becomes void. -/
def opening : List Event := [.trade B sell, .deposit, .commit 0, .void B 0 0]

/-- One void position of tokens, and then `n` of cycles. -/
structure Piled (n : Nat) (s : TcState) : Prop where
  reachable : TcReachable config s
  calls : s.calls = []
  cycles_fee : s.fees .Cycles = 10
  token_fee : s.fees .Token = 2 ^ 64
  locks : s.cm_data.mid_call_user_cycles_balance_locks = ∅
  cycles : s.cm_data.cycles_positions.entries = []
  token : s.cm_data.token_positions.entries = []
  void_cycles : s.cm_data.void_cycles_positions.len = n
  void_token : s.cm_data.void_token_positions.keys = [0]
  positions_buffer : s.positions_storage.data.storage_buffer.length =
    (n + 1) * PositionLog.STABLE_MEMORY_SERIALIZE_SIZE
  trades_buffer : s.trades_storage.data.storage_buffer = []

theorem match_alone {b : Book} (env : MatchEnv) (id : PositionId) (positor : Principal)
    (q : TradeCyclesQuest) (h : b.token_positions.entries = []) :
    (TradeQuest.cycles q).match_trades b env id positor =
      ⟨b.open_cycles (q.create_current_position id positor env.now), [], .exhausted⟩ := by
  have hget : (b.cycles_positions.insert id (q.create_current_position id positor env.now)).get id =
      some (q.create_current_position id positor env.now) := OrdMap.get_insert_self _ _ _
  obtain ⟨cycles_positions, ⟨entries, sorted⟩⟩ := b
  obtain rfl : entries = [] := h
  have hside : (Book.cyclesSide (Book.open_cycles _
      (q.create_current_position id positor env.now))).matcher_positions.get id = _ := hget
  unfold TradeQuest.match_trades Book.match_cycles match_trades
  simp only [hside]
  rfl

theorem piled_zero : ∃ s, Piled 0 s := by
  have hs : opening.foldlM (TcState.play config) start =
      some ((opening.foldlM (TcState.play config) start).getD start) :=
    end_of_script (by decide +kernel)
  generalize hget : (opening.foldlM (TcState.play config) start).getD start = s at hs
  have hcalls : s.calls.length = 0 := by
    rw [← hget]
    decide +kernel
  refine ⟨s, script_reachable (.start ⟨_, [], [], _, rfl⟩) hs, List.eq_nil_of_length_eq_zero hcalls,
    ?_, ?_, ?_, ?_, ?_, ?_, ?_, ?_, ?_⟩
  all_goals
    rw [← hget]
    decide +kernel

namespace Piled

variable {n : Nat} {s : TcState}

theorem trade_ok (h : Piled n s) (hn : n < 10000) :
    _trade config s.fees s.positions_storage.data s.trades_storage.data s.cm_data A buy =
      .ok (s.cm_data.lock_balance .Cycles A) := by
  have hlocks : s.cm_data.mid_call_balance_locks buy.kind = ∅ := h.locks
  have hlen : s.cm_data.positions_len buy.kind = 0 := by
    change s.cm_data.cycles_positions.entries.length = 0
    rw [h.cycles]
    rfl
  have hvoid : (s.cm_data.void_positions buy.kind).len = n := h.void_cycles
  have hmax : config.MAX_STORAGE_BUFFER_SIZE = 6291456 := by decide
  have hpositions : config.MAX_POSITIONS buy.kind = 1000 := rfl
  have hvoids : config.MAX_VOID_POSITIONS buy.kind = 20000 := rfl
  have hbuffer := h.positions_buffer
  unfold PositionLog.STABLE_MEMORY_SERIALIZE_SIZE at hbuffer
  unfold _trade
  simp only [hlocks, hlen, hvoid, h.cycles_fee, h.token_fee, h.trades_buffer, hmax, hpositions, hvoids,
    hbuffer]
  rw [if_neg (by decide), if_neg (by decide), if_neg (by simp; omega), if_neg (by simp; omega),
    if_neg (by simp), if_neg (by decide)]
  rfl

def depositAccount : Account := ⟨config.canister_id, principal_token_subaccount A⟩

structure Deposited (s s' : TcState) : Prop where
  reachable : TcReachable config s'
  calls : s'.calls = [⟨A, .trade buy, some (.ok (.ok 0))⟩]
  cm_data : s'.cm_data = s.cm_data.lock_balance .Cycles A
  fees : s'.fees = s.fees
  positions_storage : s'.positions_storage = s.positions_storage
  trades_storage : s'.trades_storage = s.trades_storage

theorem deposited (h : Piled n s) (hn : n < 10000) : ∃ s', Deposited s s' := by
  have h1 := h.reachable.next (.trade (h.trade_ok hn))
  have h2 := h1.next (.others_mint .Cycles depositAccount (10 ^ 30))
  rw [h.calls] at h2
  have hexecutes : ∃ l, Ledger.Executes (Function.update (s.ledger .Cycles) depositAccount
      (s.ledger .Cycles depositAccount + 10 ^ 30)) config.canister_id
      (buy.posit_transfer config.canister_id A) 10 l := by
    refine ⟨_, ?_, ?_, rfl⟩
    · rintro f hf
      exact (Option.some.inj hf).symm
    · have hamount : (buy.posit_transfer config.canister_id A).amount + 10 ≤ 10 ^ 30 := by decide
      have hbalance : Function.update (s.ledger .Cycles) depositAccount
          (s.ledger .Cycles depositAccount + 10 ^ 30) depositAccount =
            s.ledger .Cycles depositAccount + 10 ^ 30 := Function.update_self _ _ _
      exact (hamount.trans (Nat.le_add_left _ _)).trans_eq hbalance.symm
  obtain ⟨l, hl⟩ := hexecutes
  have h3 := h2.next (.deposit_executed 0 (List.nil_append _).symm rfl rfl hl)
  exact ⟨_, h3, rfl, rfl, rfl, rfl, rfl⟩

structure Opened (s s' : TcState) : Prop where
  reachable : TcReachable config s'
  calls : s'.calls = []
  book : ∃ p : CyclesPosition, p.positor = A ∧ p.timestamp_nanos = 0 ∧
    s'.cm_data.toBook = s.cm_data.toBook.open_cycles p
  locks : s'.cm_data.mid_call_user_cycles_balance_locks = ∅
  fees : s'.fees = s.fees
  positions_buffer : s'.positions_storage.data.storage_buffer.length =
    s.positions_storage.data.storage_buffer.length + PositionLog.STABLE_MEMORY_SERIALIZE_SIZE
  trades_storage : s'.trades_storage = s.trades_storage

theorem opened (h : Piled n s) {s₁ : TcState} (hd : Deposited s s₁) : ∃ s', Opened s s' := by
  have hr := hd.reachable.next
    (.trade_committed 0 (fun _ => 0) (hd.calls.trans (List.nil_append _).symm) rfl rfl rfl)
  have htoken : s₁.cm_data.token_positions.entries = [] := by
    rw [hd.cm_data]
    exact h.token
  have hmatch : buy.match_trades s₁.cm_data.toBook (s₁.match_env config 0 fun _ => 0)
      s₁.cm_data.positions_id_counter A = _ := match_alone _ _ A order htoken
  have hbook := congrArg Matched.book hmatch
  refine ⟨_, hr, rfl, ⟨_, rfl, rfl, hbook.trans (by rw [hd.cm_data]; rfl)⟩, ?_, hd.fees, ?_,
    hd.trades_storage⟩
  · change (s₁.cm_data.mid_call_user_cycles_balance_locks.erase A) = ∅
    rw [hd.cm_data]
    change ((insert A s.cm_data.mid_call_user_cycles_balance_locks).erase A) = ∅
    rw [h.locks]
    decide
  · change (s₁.positions_storage.data.storage_buffer ++ _).length = _
    rw [List.length_append, hd.positions_storage, PositionLog.stable_memory_serialize_length]

theorem succ (h : Piled n s) (hn : n < 10000) : ∃ s', Piled (n + 1) s' := by
  obtain ⟨s₁, hd⟩ := h.deposited hn
  obtain ⟨s₂, ho⟩ := h.opened hd
  obtain ⟨p, hpositor, htime, hbook⟩ := ho.book
  have hget : s₂.cm_data.cycles_positions.get p.id = some p := by
    rw [hbook]
    exact OrdMap.get_insert_self _ _ _
  have hvoid : void_position_ s₂.cm_data.toBook A p.id 0 =
      .ok (s₂.cm_data.toBook.void_cycles_position p.id p .UserCallVoidPosition 0) := by
    have hwait : minimum_wait_time_error 0 0 = none := by decide
    unfold void_position_
    simp [hget, hpositor, htime, hwait]
  have hr := ho.reachable.next (.void_position hvoid)
  have hnew : s₂.cm_data.void_cycles_positions.get p.id = none :=
    (market_inv ho.reachable False.elim).book.cycles_not_void hget
  refine ⟨_, hr, ho.calls, ?_, ?_, ho.locks, ?_, ?_, ?_, ?_, ?_, ?_⟩
  · exact (congrFun ho.fees _).trans h.cycles_fee
  · exact (congrFun ho.fees _).trans h.token_fee
  · change (s₂.cm_data.cycles_positions.remove p.id).entries = []
    rw [hbook]
    simp [Book.open_cycles, OrdMap.insert, OrdMap.remove, h.cycles, OrdMap.insertEntry]
  · change s₂.cm_data.token_positions.entries = []
    rw [hbook]
    exact h.token
  · change (s₂.cm_data.void_cycles_positions.insert p.id _).entries.length = n + 1
    rw [(OrdMap.insert_perm _ _ _ hnew).length_eq, List.length_cons, hbook]
    exact congrArg (· + 1) h.void_cycles
  · change s₂.cm_data.void_token_positions.keys = [0]
    rw [hbook]
    exact h.void_token
  · have hlen := ho.positions_buffer
    rw [h.positions_buffer] at hlen
    rw [Nat.succ_mul]
    exact hlen
  · rw [← h.trades_buffer, ← ho.trades_storage]

end Piled

theorem piled {n : Nat} (hn : n ≤ 10000) : ∃ s, Piled n s := by
  induction n with
  | zero => exact piled_zero
  | succ n ih =>
    obtain ⟨s, hs⟩ := ih (by omega)
    exact hs.succ (by omega)

end Pile

theorem void_page_of_busy_contract :
    (Sample.busy.cm_data.void_cycles_positions.keys = [0] ∧
        Sample.busy.cm_data.void_token_positions.keys = [7, 8]) ∧
      void_positions_pending .all Sample.busy.cm_data.toBook ≠ [] ∧
      ∃ k, view_void_positions_pending .all Sample.busy.cm_data.toBook =
        voidPageBytes (newest k (allVoidPositionsPending .all Sample.busy.cm_data.toBook)) := by
  have hbusy : (Sample.busy.cm_data.void_cycles_positions.keys = [0] ∧
      Sample.busy.cm_data.void_token_positions.keys = [7, 8]) ∧
      Sample.busy.cm_data.positions_id_counter ≤ 2 ^ 128 ∧
      (matchingVoidPositions .all Sample.busy.cm_data.toBook .Cycles).length = 1 ∧
      (matchingVoidPositions .all Sample.busy.cm_data.toBook .Token).length = 2 := by
    decide +kernel
  obtain ⟨hkeys, hids, hcycles, htoken⟩ := hbusy
  obtain ⟨-, hne, -, hiff⟩ := void_pages_have_no_gaps_iff .all Sample.busy_reachable
  refine ⟨hkeys, hne fun hnil => ?_, (hiff hids).mpr fun kind _ _ => ?_⟩
  · have hlen := congrArg List.length hnil
    rw [allVoidPositionsPending, (merged_perm _ _).length_eq, List.length_append, hcycles,
      htoken] at hlen
    cases hlen
  · apply not_overtakes_of_length_le
    cases kind
    · rw [hcycles]
      decide
    · rw [htoken]
      decide

theorem Pile.Piled.newer_than_token {n : Nat} {s : TcState} (h : Piled n s) :
    ∃ y ∈ matchingVoidPositions .all s.cm_data.toBook .Token,
      newer voidLogId (matchingVoidPositions .all s.cm_data.toBook .Token) y = 0 ∧
      newer voidLogId (matchingVoidPositions .all s.cm_data.toBook .Cycles) y = n := by
  have hm := market_inv h.reachable False.elim
  have hapart := hm.void_apart .all
  obtain ⟨⟨k, vp⟩, hentries⟩ : ∃ e, s.cm_data.void_token_positions.entries = [e] := by
    have hlen := congrArg List.length h.void_token
    rw [OrdMap.keys, List.length_map] at hlen
    exact List.length_eq_one_iff.mp hlen
  have hk : k = 0 := by
    have hkeys := h.void_token
    rw [OrdMap.keys, hentries] at hkeys
    exact (List.cons.inj hkeys).1
  have hvp : (k, vp) ∈ (s.cm_data.void_positions .Token).entries := by
    rw [Book.void_positions, hentries]
    exact List.mem_singleton_self _
  have hid : voidLogId vp.pending = 0 := (hm.void_keyed .Token (k, vp) hvp).trans hk
  have htoken : matchingVoidPositions .all s.cm_data.toBook .Token = [vp.pending] := by
    rw [matchingVoidPositions, matching_everything, Book.void_positions, hentries]
    rfl
  have hmem : vp.pending ∈ matchingVoidPositions .all s.cm_data.toBook .Token := by
    rw [htoken]
    exact List.mem_singleton_self _
  refine ⟨vp.pending, hmem, ?_, ?_⟩
  · rw [htoken]
    simp [newer]
  · have hlen : (matchingVoidPositions .all s.cm_data.toBook .Cycles).length = n := by
      rw [matchingVoidPositions, matching_everything, List.length_map]
      exact h.void_cycles
    rw [← hlen]
    apply List.countP_eq_length.mpr
    intro x hx
    have hne := hapart.disjoint x hx _ hmem
    rw [hid] at hne
    simpa [hid] using Nat.pos_of_ne_zero hne

/-- A page with the void position 0 and without the void position 1. -/
theorem void_page_has_a_gap : ¬ ∀ cfg s q, TcReachable cfg s → ∃ k,
    void_positions_pending q s.cm_data.toBook =
      newest k (allVoidPositionsPending q s.cm_data.toBook) := by
  intro h
  obtain ⟨s, hs⟩ := Pile.piled (show 9145 ≤ 10000 by decide)
  obtain ⟨k, hk⟩ := h _ s .all hs.reachable
  obtain ⟨y, hy, hzero, hnewer⟩ := hs.newer_than_token
  have hlimit : sponse_limit / PositionLog.STABLE_MEMORY_SERIALIZE_SIZE = 9144 := by decide
  have hapart := (market_inv hs.reachable False.elim).void_apart .all
  rw [void_positions_pending_eq, hlimit] at hk
  exact hapart.not_newest_of_overtakes (by decide) ⟨y, hy, hzero, by omega⟩ k hk

end Cts.Tc
