import Cts.Lib.Leb128
import Cts.Tc.Paid

/-!
# What a payout's memo tells

The memo of a payout is eight letters for its queue and the id of its job in LEB128. On each ledger no
two payouts of a contract have the same memo, and a memo reads back as what it was made of.
-/

namespace Cts.Tc

open Lib Lib.Jobs

/-! ## Memos -/

def Queue.memo_start : Queue → List Byte
  | .void _ => VOID_TOKEN_POSITION_MEMO_START
  | .trade _ => TRADE_MEMO_START

/-- The memo of a payout out of a queue. -/
def Queue.memo (q : Queue) (id : Nat) : List Byte :=
  match q with
  | .void _ => create_void_token_position_transfer_memo id
  | .trade _ => create_trade_transfer_memo id

/-- The letters and the id. -/
def readMemo (memo : List Byte) : Option (List Byte × Nat) :=
  match Leb128.decode (memo.drop 8) with
  | some (id, []) => some (memo.take 8, id)
  | _ => none

theorem leb128_unsigned_eq {len n : Nat} (h : n < 128 ^ (len + 1)) :
    leb128_unsigned (len + 1) n = Leb128.encode n := by
  induction len generalizing n with
  | zero =>
    have hn : n < 128 := by omega
    rw [Leb128.encode_of_lt hn, leb128_unsigned, if_pos hn]
  | succ len ih =>
    rw [leb128_unsigned]
    split_ifs with hn
    · rw [Leb128.encode_of_lt hn]
    · have hdiv : n / 128 < 128 ^ (len + 1) := by
        rw [Nat.div_lt_iff_lt_mul (by decide)]
        rwa [← pow_succ]
      rw [Leb128.encode_of_le (not_lt.mp hn), ih hdiv]

theorem leb128_unsigned_length_le (len n : Nat) : (leb128_unsigned len n).length ≤ len := by
  induction len generalizing n with
  | zero => exact Nat.le_refl _
  | succ len ih =>
    unfold leb128_unsigned
    split_ifs
    · simp
    · exact Nat.succ_le_succ (ih _)

theorem Queue.memo_start_length (q : Queue) : q.memo_start.length = 8 := by
  cases q <;> rfl

theorem Queue.memo_eq (q : Queue) (id : Nat) :
    q.memo id = q.memo_start ++ leb128_unsigned 10 (Word.wrap 64 id) := by
  cases q <;> rfl

theorem Queue.memo_length_le (q : Queue) (id : Nat) : (q.memo id).length ≤ 18 := by
  have hle := leb128_unsigned_length_le 10 (Word.wrap 64 id)
  rw [q.memo_eq, List.length_append, q.memo_start_length]
  omega

theorem readMemo_memo (q : Queue) {id : Nat} (h : id < 2 ^ 64) :
    readMemo (q.memo id) = some (q.memo_start, id) := by
  have hbytes : leb128_unsigned 10 (Word.wrap 64 id) = Leb128.encode id ++ [] := by
    rw [Word.wrap, Nat.mod_eq_of_lt h, leb128_unsigned_eq (lt_trans h (by decide)), List.append_nil]
  unfold readMemo
  rw [q.memo_eq, hbytes, List.drop_left' q.memo_start_length, List.take_left' q.memo_start_length,
    Leb128.decode_encode]

/-! ## The memos of a queue -/

variable {cfg : TcConfig} {s : TcState} {q : Queue}

theorem slot_memo {x : PayoutSlot} (hx : x ∈ (s.pool q).all) : x.job.memo = q.memo x.id := by
  cases q with
  | void kind =>
    obtain ⟨vp, -, rfl⟩ := mem_void_pool.mp hx
    rfl
  | trade kind =>
    obtain ⟨tl, -, rfl⟩ := mem_trade_pool.mp hx
    cases kind <;> rfl

theorem executed_memo (r : TcReachable cfg s) {e : Nat × Icrc1TransferQuest}
    (he : e ∈ s.history.executed q) : e.2.memo = some (q.memo e.1) := by
  obtain ⟨x, hx, hid, fee, ht⟩ := executed_transfer r he
  rw [ht, ← hid, ← slot_memo hx]
  rfl

/-! ## Ids -/

/-- How many ids the jobs of a queue have had. -/
def TcState.idCounter (s : TcState) : Queue → Nat
  | .void _ => s.cm_data.positions_id_counter
  | .trade _ => s.cm_data.trade_logs_id_counter

theorem slot_id_lt (r : TcReachable cfg s) {x : PayoutSlot} (hx : x ∈ (s.pool q).all) :
    x.id < s.idCounter q := by
  have hm : Market False s := market_inv r False.elim
  cases q with
  | void kind =>
    obtain ⟨vp, hvp, rfl⟩ := mem_void_pool.mp hx
    have hmem : vp.position_id ∈ s.positionIds := by
      have hmap := Multiset.mem_map_of_mem VoidPosition.position_id hvp
      simp only [TcState.positionIds, Multiset.mem_add]
      cases kind
      · exact Or.inl (Or.inr hmap)
      · exact Or.inr hmap
    rw [hm.ids] at hmem
    exact List.mem_range.mp (Multiset.mem_coe.mp hmem)
  | trade kind =>
    obtain ⟨tl, htl, rfl⟩ := mem_trade_pool.mp hx
    have hmem : tl_id tl ∈ s.logs.map tl_id := List.mem_map_of_mem htl
    rw [hm.log_ids] at hmem
    exact List.mem_range.mp hmem

theorem executed_id_lt (r : TcReachable cfg s) {e : Nat × Icrc1TransferQuest}
    (he : e ∈ s.history.executed q) : e.1 < s.idCounter q := by
  obtain ⟨x, hx, hid, -⟩ := executed_transfer r he
  rw [← hid]
  exact slot_id_lt r hx

/-! ## On one ledger -/

/-- The payouts that a ledger executed. -/
def TcState.executedOn (s : TcState) (kind : PositionKind) : List (Nat × Icrc1TransferQuest) :=
  s.history.executed (.void kind) ++ s.history.executed (.trade kind)

/-- A memo of a payout, short enough for a ledger, that tells the queue and the id. -/
def Tells (q : Queue) (e : Nat × Icrc1TransferQuest) : Prop :=
  ∃ m, e.2.memo = some m ∧ m.length ≤ 18 ∧ readMemo m = some (q.memo_start, e.1)

theorem executed_tells (r : TcReachable cfg s) (hids : s.idCounter q ≤ 2 ^ 64)
    {e : Nat × Icrc1TransferQuest} (he : e ∈ s.history.executed q) : Tells q e :=
  ⟨q.memo e.1, executed_memo r he, q.memo_length_le e.1,
    readMemo_memo q (lt_of_lt_of_le (executed_id_lt r he) hids)⟩

theorem Tells.same {q' : Queue} {e e' : Nat × Icrc1TransferQuest} (h : Tells q e) (h' : Tells q' e')
    (hm : e.2.memo = e'.2.memo) : q.memo_start = q'.memo_start ∧ e.1 = e'.1 := by
  obtain ⟨m, hmemo, -, hread⟩ := h
  obtain ⟨m', hmemo', -, hread'⟩ := h'
  obtain rfl : m = m' := Option.some.inj (hmemo.symm.trans (hm.trans hmemo'))
  exact Prod.mk.inj (Option.some.inj (hread.symm.trans hread'))

theorem queue_memos_nodup (r : TcReachable cfg s) (hids : s.idCounter q ≤ 2 ^ 64) :
    ((s.history.executed q).map fun e => e.2.memo).Nodup := by
  have honce := ((queues_inv r).payouts q).once
  rw [TcState.pool, Multiset.map_coe, Multiset.coe_nodup] at honce
  refine List.Nodup.map_on (fun e he e' he' hm => ?_) (honce.of_map _)
  have hsame := (executed_tells r hids he).same (executed_tells r hids he') hm
  exact List.inj_on_of_nodup_map honce he he' hsame.2

structure MemosTell (s : TcState) : Prop where
  tells : ∀ q, ∀ e ∈ s.history.executed q, Tells q e
  distinct : ∀ kind, ((s.executedOn kind).map fun e => e.2.memo).Nodup

/-- On each ledger a payout is told from every other by its memo, which names its queue and its job. -/
theorem memos_tell_payouts_apart (cfg : TcConfig) (s : TcState) (r : TcReachable cfg s)
    (hpositions : s.cm_data.positions_id_counter ≤ 2 ^ 64)
    (htrades : s.cm_data.trade_logs_id_counter ≤ 2 ^ 64) : MemosTell s := by
  have hids : ∀ q, s.idCounter q ≤ 2 ^ 64 := by
    intro q
    cases q
    · exact hpositions
    · exact htrades
  refine ⟨fun q e he => executed_tells r (hids q) he, fun kind => ?_⟩
  rw [TcState.executedOn, List.map_append]
  refine (queue_memos_nodup r (hids _)).append (queue_memos_nodup r (hids _)) ?_
  intro memo hvoid htrade
  obtain ⟨e, he, rfl⟩ := List.mem_map.mp hvoid
  obtain ⟨e', he', hmemo⟩ := List.mem_map.mp htrade
  have hsame := (executed_tells r (hids _) he).same (executed_tells r (hids _) he') hmemo.symm
  have hne : VOID_TOKEN_POSITION_MEMO_START ≠ TRADE_MEMO_START := by decide
  exact absurd hsame.1 hne

theorem short_run_memos_tell : Sample.final.executedOn .Cycles ≠ [] ∧ MemosTell Sample.final := by
  refine ⟨?_, memos_tell_payouts_apart _ _ Sample.final_reachable (by decide +kernel) (by decide +kernel)⟩
  decide +kernel

end Cts.Tc
