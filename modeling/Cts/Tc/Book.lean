import Cts.Tc.DoPayout
import Cts.Tc.MatchLoop

/-!
# The book

Whatever happens to the book is a path of deals and of positions that become void. A deal names its
two positions, whichever of them came last.
-/

namespace Cts.Tc

open Lib CurrentPositionTrait

structure Book where
  cycles_positions : OrdMap PositionId CyclesPosition
  token_positions : OrdMap PositionId TokenPosition
  void_cycles_positions : OrdMap PositionId VoidCyclesPosition
  void_token_positions : OrdMap PositionId VoidTokenPosition
  trade_logs : List TradeLogAndTemporaryData
  trade_logs_id_counter : Nat
  candle_counter : CandleCounter

namespace Book

def void_positions (b : Book) : PositionKind → OrdMap PositionId VoidPosition
  | .Cycles => b.void_cycles_positions
  | .Token => b.void_token_positions

/-- What the current positions of a kind hold. -/
def quantity (b : Book) : PositionKind → Nat
  | .Cycles => b.cycles_positions.sum CyclesPosition.current_position_cycles
  | .Token => b.token_positions.sum TokenPosition.current_position_tokens

def slots (b : Book) : Queue → Multiset PayoutSlot
  | .void kind => ((b.void_positions kind).values.map VoidPosition.slot : List PayoutSlot)
  | .trade kind => (b.trade_logs.map (TradeLogAndTemporaryData.slot kind) : List PayoutSlot)

/-- Every position, current or void. -/
def ids (b : Book) : Multiset PositionId :=
  b.cycles_positions.keys + (b.token_positions.keys + (b.void_cycles_positions.keys +
    b.void_token_positions.keys))

/-! ## The two sides -/

def cyclesSide (b : Book) : MatchBook CyclesPosition TokenPosition :=
  ⟨b.cycles_positions, b.token_positions, b.void_cycles_positions, b.void_token_positions,
    b.trade_logs, b.trade_logs_id_counter, b.candle_counter⟩

def ofCyclesSide (m : MatchBook CyclesPosition TokenPosition) : Book :=
  ⟨m.matcher_positions, m.matchee_positions, m.matcher_void_positions, m.matchee_void_positions,
    m.trade_logs, m.trade_logs_id_counter, m.candle_counter⟩

def tokenSide (b : Book) : MatchBook TokenPosition CyclesPosition :=
  ⟨b.token_positions, b.cycles_positions, b.void_token_positions, b.void_cycles_positions,
    b.trade_logs, b.trade_logs_id_counter, b.candle_counter⟩

def ofTokenSide (m : MatchBook TokenPosition CyclesPosition) : Book :=
  ⟨m.matchee_positions, m.matcher_positions, m.matchee_void_positions, m.matcher_void_positions,
    m.trade_logs, m.trade_logs_id_counter, m.candle_counter⟩

end Book

/-! ## Deals -/

/-- A trade between a cycles position and a token position, before and after. -/
structure Deal where
  cycles_position : CyclesPosition
  cycles_position' : CyclesPosition
  token_position : TokenPosition
  token_position' : TokenPosition
  log : TradeLogAndTemporaryData

def Trade.cyclesDeal (t : Trade CyclesPosition TokenPosition) : Deal :=
  ⟨t.matcher, t.matcher', t.matchee, t.matchee', t.log⟩

def Trade.tokenDeal (t : Trade TokenPosition CyclesPosition) : Deal :=
  ⟨t.matchee, t.matchee', t.matcher, t.matcher', t.log⟩

/-- What every trade keeps, whichever side is the matcher. -/
structure DealOk (L : Prop) (d : Deal) : Prop where
  midpoint : Midpoint d.token_position.quest.cycles_per_token_rate
    d.cycles_position.quest.cycles_per_token_rate d.log.log.cycles_per_token_rate
  cycles_eq : d.log.log.cycles = d.log.log.tokens * d.log.log.cycles_per_token_rate
  cycles_lt : d.log.log.cycles < 2 ^ 128
  cycles_spent : d.cycles_position'.current_position_cycles + d.log.log.cycles =
    d.cycles_position.current_position_cycles
  tokens_spent : d.token_position'.current_position_tokens + d.log.log.tokens =
    d.token_position.current_position_tokens
  tokens_ge : L → 10000 ≤ d.log.log.tokens
  tokens_fee_le : 200 * d.log.log.tokens_payout_fee ≤ d.log.log.tokens
  cycles_fee_le : 200 * d.log.log.cycles_payout_fee ≤ d.log.log.cycles
  cycles_same : d.cycles_position'.id = d.cycles_position.id ∧
    d.cycles_position'.positor = d.cycles_position.positor ∧
    d.cycles_position'.quest = d.cycles_position.quest
  token_same : d.token_position'.id = d.token_position.id ∧
    d.token_position'.positor = d.token_position.positor ∧
    d.token_position'.quest = d.token_position.quest
  fresh : ∀ kind, (d.log.slot kind).fresh
  cycles_payee : d.log.cycles_payee =
    ⟨d.token_position.positor, d.token_position.quest.payout_cycles_to_subaccount⟩
  token_payee : d.log.token_payee =
    ⟨d.cycles_position.positor, d.cycles_position.quest.payout_tokens_to_subaccount⟩
  positionIds : match d.log.log.matchee_position_kind with
    | .Token => d.log.log.position_id_matcher = d.cycles_position.id ∧
        d.log.log.position_id_matchee = d.token_position.id
    | .Cycles => d.log.log.position_id_matcher = d.token_position.id ∧
        d.log.log.position_id_matchee = d.cycles_position.id

section

variable {L : Prop} {env : MatchEnv} {rate id : Nat}

theorem cyclesDeal_ok {p : CyclesPosition} {m : TokenPosition} (hp : Sound L p) (hm : Sound L m)
    (hb : is_this_position_better_than_or_equal_to_the_match_rate m (rateOf p) = some rate) :
    DealOk L (make_trade env p m rate id).cyclesDeal := by
  have hok := trade_ok rfl hp.1 hm.1 hb
  have hmul := Word.mul_of_lt hok.fits
  have hpq := LawfulPosition.subtract_quantity p _ _ hok.fits
  have hmq := LawfulPosition.subtract_quantity m _ _ hok.fits
  have hpfee := LawfulPosition.fee_le p
    (min (current_position_tokens p rate) (current_position_tokens m rate)) rate
  have hmfee := LawfulPosition.fee_le m
    (min (current_position_tokens p rate) (current_position_tokens m rate)) rate
  have hge := fun hL => tokens_ge_of_trade rfl (hp.2 hL) (hm.2 hL) hok.rate_ne hok.midpoint
  have hpu := hok.matcher_units
  have hmu := hok.matchee_units
  refine ⟨hok.midpoint, hmul, (Word.wrap_lt 128 _), ?_, ?_, hge, fee_in_tokens_le hpfee, ?_,
    ⟨rfl, rfl, rfl⟩, ⟨rfl, rfl, rfl⟩, ?_, rfl, rfl, ⟨rfl, rfl⟩⟩
  · exact (congrArg₂ (· + ·) hpq hmul).trans (Nat.sub_add_cancel hpu)
  · exact (congrArg (· + _) hmq).trans (Nat.sub_add_cancel hmu)
  · exact hmfee.trans_eq hmul.symm
  · intro kind
    cases kind <;> exact ⟨rfl, rfl⟩

theorem tokenDeal_ok {p : TokenPosition} {m : CyclesPosition} (hp : Sound L p) (hm : Sound L m)
    (hb : is_this_position_better_than_or_equal_to_the_match_rate m (rateOf p) = some rate) :
    DealOk L (make_trade env p m rate id).tokenDeal := by
  have hok := trade_ok rfl hp.1 hm.1 hb
  have hmul := Word.mul_of_lt hok.fits
  have hpq := LawfulPosition.subtract_quantity p _ _ hok.fits
  have hmq := LawfulPosition.subtract_quantity m _ _ hok.fits
  have hpfee := LawfulPosition.fee_le p
    (min (current_position_tokens p rate) (current_position_tokens m rate)) rate
  have hmfee := LawfulPosition.fee_le m
    (min (current_position_tokens p rate) (current_position_tokens m rate)) rate
  have hge := fun hL => tokens_ge_of_trade rfl (hp.2 hL) (hm.2 hL) hok.rate_ne hok.midpoint
  have hpu := hok.matcher_units
  have hmu := hok.matchee_units
  refine ⟨hok.midpoint, hmul, (Word.wrap_lt 128 _), ?_, ?_, hge, fee_in_tokens_le hmfee, ?_,
    ⟨rfl, rfl, rfl⟩, ⟨rfl, rfl, rfl⟩, ?_, rfl, rfl, ⟨rfl, rfl⟩⟩
  · exact (congrArg₂ (· + ·) hmq hmul).trans (Nat.sub_add_cancel hmu)
  · exact (congrArg (· + _) hpq).trans (Nat.sub_add_cancel hpu)
  · exact hpfee.trans_eq hmul.symm
  · intro kind
    cases kind <;> exact ⟨rfl, rfl⟩

end

/-! ## Moves of the book -/

namespace Book

def record (b : Book) (cycles_key token_key : PositionId) (d : Deal) : Book :=
  { b with
    cycles_positions := b.cycles_positions.insert cycles_key d.cycles_position'
    token_positions := b.token_positions.insert token_key d.token_position'
    trade_logs := b.trade_logs ++ [d.log]
    trade_logs_id_counter := b.trade_logs_id_counter + 1
    candle_counter := b.candle_counter.count_trade d.log.log }

def void_cycles_position (b : Book) (key : PositionId) (p : CyclesPosition)
    (cause : PositionTerminationCause) (now : Nat) : Book :=
  { b with
    cycles_positions := b.cycles_positions.remove key
    void_cycles_positions :=
      b.void_cycles_positions.insert p.id (p.into_void_position_type cause now) }

def void_token_position (b : Book) (key : PositionId) (p : TokenPosition)
    (cause : PositionTerminationCause) (now : Nat) : Book :=
  { b with
    token_positions := b.token_positions.remove key
    void_token_positions :=
      b.void_token_positions.insert p.id (p.into_void_position_type cause now) }

end Book

inductive BookPath (L : Prop) (b : Book) : List Deal → Book → Prop
  | nil : BookPath L b [] b
  | deal {ds : List Deal} {b₁ : Book} {ck tk : PositionId} {d : Deal} (h : BookPath L b ds b₁)
      (hc : b₁.cycles_positions.get ck = some d.cycles_position)
      (ht : b₁.token_positions.get tk = some d.token_position) (hok : DealOk L d)
      (hid : d.log.log.id = b₁.trade_logs_id_counter) :
      BookPath L b (ds ++ [d]) (b₁.record ck tk d)
  | void_cycles {ds : List Deal} {b₁ : Book} {k : PositionId} {p : CyclesPosition}
      (h : BookPath L b ds b₁) (hg : b₁.cycles_positions.get k = some p)
      (cause : PositionTerminationCause) (now : Nat) :
      BookPath L b ds (b₁.void_cycles_position k p cause now)
  | void_token {ds : List Deal} {b₁ : Book} {k : PositionId} {p : TokenPosition}
      (h : BookPath L b ds b₁) (hg : b₁.token_positions.get k = some p)
      (cause : PositionTerminationCause) (now : Nat) :
      BookPath L b ds (b₁.void_token_position k p cause now)

section

variable {L : Prop} {env : MatchEnv} {b : Book}

theorem cycles_path {ts : List (Trade CyclesPosition TokenPosition)}
    {m : MatchBook CyclesPosition TokenPosition} (h : MatchPath L env b.cyclesSide ts m) :
    BookPath L b (ts.map Trade.cyclesDeal) (Book.ofCyclesSide m) := by
  induction h with
  | nil => exact .nil
  | trade _ hp hm hlp hlm hb ih =>
    rw [List.map_append]
    exact .deal ih hp hm (cyclesDeal_ok hlp hlm hb) rfl
  | @retire_matcher ts b₁ _ id ih =>
    unfold MatchBook.retire_matcher
    cases hg : b₁.matcher_positions.get id with
    | none => exact ih
    | some p => exact .void_cycles ih hg .Fill env.now
  | @retire_matchee ts b₁ _ id ih =>
    unfold MatchBook.retire_matchee
    cases hg : b₁.matchee_positions.get id with
    | none => exact ih
    | some p => exact .void_token ih hg .Fill env.now

theorem token_path {ts : List (Trade TokenPosition CyclesPosition)}
    {m : MatchBook TokenPosition CyclesPosition} (h : MatchPath L env b.tokenSide ts m) :
    BookPath L b (ts.map Trade.tokenDeal) (Book.ofTokenSide m) := by
  induction h with
  | nil => exact .nil
  | trade _ hp hm hlp hlm hb ih =>
    rw [List.map_append]
    exact .deal ih hm hp (tokenDeal_ok hlp hlm hb) rfl
  | @retire_matcher ts b₁ _ id ih =>
    unfold MatchBook.retire_matcher
    cases hg : b₁.matcher_positions.get id with
    | none => exact ih
    | some p => exact .void_token ih hg .Fill env.now
  | @retire_matchee ts b₁ _ id ih =>
    unfold MatchBook.retire_matchee
    cases hg : b₁.matchee_positions.get id with
    | none => exact ih
    | some p => exact .void_cycles ih hg .Fill env.now

end

/-! ## What a path keeps -/

def mounts (xs : Multiset PayoutSlot) : Nat := (xs.map fun x => x.job.trade_mount).sum

@[simp]
theorem mounts_add (xs ys : Multiset PayoutSlot) : mounts (xs + ys) = mounts xs + mounts ys := by
  simp [mounts]

@[simp]
theorem mounts_cons (x : PayoutSlot) (xs : Multiset PayoutSlot) :
    mounts (x ::ₘ xs) = x.job.trade_mount + mounts xs := by
  simp [mounts]

@[simp]
theorem mounts_singleton (x : PayoutSlot) : mounts {x} = x.job.trade_mount := by
  simp [mounts]

/-- All that the book holds of a kind and has not sent away. -/
def Book.worth (b : Book) (kind : PositionKind) : Nat :=
  b.quantity kind + mounts (b.slots (.void kind)) + mounts (b.slots (.trade kind))

/-- The maps are keyed by the positions' ids, and an id is in one of them only. -/
structure BookIds (b : Book) : Prop where
  cycles : ∀ k p, b.cycles_positions.get k = some p → p.id = k
  token : ∀ k p, b.token_positions.get k = some p → p.id = k
  void : ∀ kind k vp, (b.void_positions kind).get k = some vp → vp.position_id = k
  nodup : b.ids.Nodup

/-- A void position before its payout. -/
structure FreshVoid (vp : VoidPosition) : Prop where
  slot : vp.slot.fresh
  update_lock : vp.update_storage_position_data.lock = false
  update_status : vp.update_storage_position_data.status = false
  log_id : vp.update_storage_position_data.update_storage_position_log.id = vp.position_id
  log_mainder :
    vp.update_storage_position_data.update_storage_position_log.mainder_position_quantity =
      vp.quantity
  log_ended : ∃ cause,
    vp.update_storage_position_data.update_storage_position_log.position_termination =
      some ⟨vp.timestamp_nanos, cause⟩

def VoidsArrive (m m' : OrdMap PositionId VoidPosition) : Prop :=
  ∃ vps : Multiset VoidPosition, (m'.values : Multiset VoidPosition) = vps + ↑m.values ∧
    ∀ vp ∈ vps, FreshVoid vp

theorem VoidsArrive.refl (m : OrdMap PositionId VoidPosition) : VoidsArrive m m :=
  ⟨0, (zero_add _).symm, by simp⟩

theorem VoidsArrive.trans {m m₁ m₂ : OrdMap PositionId VoidPosition} (h : VoidsArrive m m₁)
    (h' : VoidsArrive m₁ m₂) : VoidsArrive m m₂ := by
  obtain ⟨xs, hxs, hfx⟩ := h
  obtain ⟨ys, hys, hfy⟩ := h'
  refine ⟨ys + xs, by rw [hys, hxs, add_assoc], fun x hx => ?_⟩
  exact (Multiset.mem_add.mp hx).elim (hfy x) (hfx x)

structure BookFrame (L : Prop) (b : Book) (ds : List Deal) (b' : Book) : Prop where
  inv : BookIds b'
  ids : b'.ids = b.ids
  logs : b'.trade_logs = b.trade_logs ++ ds.map Deal.log
  counter : b'.trade_logs_id_counter = b.trade_logs_id_counter + ds.length
  log_ids : ds.map (fun d => d.log.log.id) = List.range' b.trade_logs_id_counter ds.length
  deals : ∀ d ∈ ds, DealOk L d
  voids : ∀ kind, VoidsArrive (b.void_positions kind) (b'.void_positions kind)
  worth : ∀ kind, b'.worth kind = b.worth kind
  cycles_from : ∀ k p, b'.cycles_positions.get k = some p →
    ∃ p₀, b.cycles_positions.get k = some p₀ ∧ p.quest = p₀.quest
  token_from : ∀ k p, b'.token_positions.get k = some p →
    ∃ p₀, b.token_positions.get k = some p₀ ∧ p.quest = p₀.quest

theorem BookFrame.refl {L : Prop} {b : Book} (h : BookIds b) : BookFrame L b [] b :=
  ⟨h, rfl, by simp, rfl, rfl, by simp, fun _ => .refl _, fun _ => rfl, fun _ p h => ⟨p, h, rfl⟩,
    fun _ p h => ⟨p, h, rfl⟩⟩

theorem BookFrame.trans {L : Prop} {b b₁ b₂ : Book} {ds es : List Deal} (h : BookFrame L b ds b₁)
    (h' : BookFrame L b₁ es b₂) : BookFrame L b (ds ++ es) b₂ := by
  refine ⟨h'.inv, h'.ids.trans h.ids, ?_, ?_, ?_, fun d hd => ?_,
    fun kind => (h.voids kind).trans (h'.voids kind),
    fun kind => (h'.worth kind).trans (h.worth kind), fun k p hg => ?_, fun k p hg => ?_⟩
  · rw [h'.logs, h.logs, List.map_append, List.append_assoc]
  · rw [h'.counter, h.counter, List.length_append, Nat.add_assoc]
  · rw [List.map_append, h.log_ids, h'.log_ids, h.counter, List.length_append,
      List.range'_append_1]
  · exact (List.mem_append.mp hd).elim (h.deals d) (h'.deals d)
  · obtain ⟨p₁, hp₁, hq₁⟩ := h'.cycles_from k p hg
    obtain ⟨p₀, hp₀, hq₀⟩ := h.cycles_from k p₁ hp₁
    exact ⟨p₀, hp₀, hq₁.trans hq₀⟩
  · obtain ⟨p₁, hp₁, hq₁⟩ := h'.token_from k p hg
    obtain ⟨p₀, hp₀, hq₀⟩ := h.token_from k p₁ hp₁
    exact ⟨p₀, hp₀, hq₁.trans hq₀⟩

/-! ## A deal -/

variable {L : Prop} {b b' : Book} {ds : List Deal}

theorem deal_frame (hb : BookIds b) {ck tk : PositionId} {d : Deal}
    (hc : b.cycles_positions.get ck = some d.cycles_position)
    (ht : b.token_positions.get tk = some d.token_position) (hok : DealOk L d)
    (hid : d.log.log.id = b.trade_logs_id_counter) : BookFrame L b [d] (b.record ck tk d) := by
  have hids : (b.record ck tk d).ids = b.ids := by
    simp only [Book.ids, Book.record, OrdMap.keys_insert_of_get _ _ _ _ hc,
      OrdMap.keys_insert_of_get _ _ _ _ ht]
  refine ⟨⟨OrdMap.forall_insert hb.cycles ?_, OrdMap.forall_insert hb.token ?_, hb.void,
    by rw [hids]; exact hb.nodup⟩, hids, rfl, rfl, by simp [hid], by simpa using hok, fun kind => ?_,
    fun kind => ?_, OrdMap.forall_insert (fun k p hg => ⟨p, hg, rfl⟩) ?_,
    OrdMap.forall_insert (fun k p hg => ⟨p, hg, rfl⟩) ?_⟩
  · exact hok.cycles_same.1.trans (hb.cycles ck _ hc)
  · exact hok.token_same.1.trans (hb.token tk _ ht)
  · cases kind <;> exact .refl _
  · -- What the two positions spend is what the trade log holds.
    have hmount : ∀ k, mounts ((b.record ck tk d).slots (.trade k)) =
        (d.log.payout_quest k).trade_mount + mounts (b.slots (.trade k)) := by
      intro k
      simp only [Book.slots, Book.record, List.map_append, List.map_cons, List.map_nil, mounts,
        ← Multiset.coe_add, Multiset.map_add, Multiset.sum_add, Multiset.map_coe, Multiset.sum_coe,
        List.sum_cons, List.sum_nil, Nat.add_zero]
      exact Nat.add_comm _ _
    simp only [Book.worth, hmount]
    cases kind with
    | Cycles =>
      have hsum := OrdMap.sum_insert_old _ CyclesPosition.current_position_cycles ck
        d.cycles_position' _ hc
      have hspent := hok.cycles_spent
      simp only [Book.quantity, Book.record, TradeLogAndTemporaryData.payout_quest] at hsum ⊢
      change _ + mounts (b.slots (.void .Cycles)) + _ = _
      omega
    | Token =>
      have hsum := OrdMap.sum_insert_old _ TokenPosition.current_position_tokens tk
        d.token_position' _ ht
      have hspent := hok.tokens_spent
      simp only [Book.quantity, Book.record, TradeLogAndTemporaryData.payout_quest] at hsum ⊢
      change _ + mounts (b.slots (.void .Token)) + _ = _
      omega
  · exact ⟨_, hc, hok.cycles_same.2.2⟩
  · exact ⟨_, ht, hok.token_same.2.2⟩

/-! ## A position that becomes void -/

theorem BookIds.cycles_not_void (hb : BookIds b) {k : PositionId} {p : CyclesPosition}
    (h : b.cycles_positions.get k = some p) : b.void_cycles_positions.get k = none := by
  rw [OrdMap.get_eq_none_iff]
  intro hk
  have hd := (Multiset.nodup_add.mp hb.nodup).2.2
  refine Multiset.disjoint_left.mp hd (OrdMap.mem_keys_of_get h) ?_
  exact Multiset.mem_add.mpr (Or.inr (Multiset.mem_add.mpr (Or.inl hk)))

theorem BookIds.token_not_void (hb : BookIds b) {k : PositionId} {p : TokenPosition}
    (h : b.token_positions.get k = some p) : b.void_token_positions.get k = none := by
  rw [OrdMap.get_eq_none_iff]
  intro hk
  have hd := (Multiset.nodup_add.mp (Multiset.nodup_add.mp hb.nodup).2.1).2.2
  refine Multiset.disjoint_left.mp hd (OrdMap.mem_keys_of_get h) ?_
  exact Multiset.mem_add.mpr (Or.inr hk)

theorem fresh_void {P : Type} [CurrentPositionTrait P] [LawfulPosition P] (p : P)
    (cause : PositionTerminationCause) (now : Nat) :
    FreshVoid (into_void_position_type p cause now) := by
  have hlog := LawfulPosition.log_eq p (some cause) now
  rw [LawfulPosition.void_eq]
  exact ⟨⟨rfl, rfl⟩, rfl, rfl, hlog.1, hlog.2.1, cause, by rw [hlog.2.2]; rfl⟩

theorem voids_arrive {m : OrdMap PositionId VoidPosition} {k : PositionId} {vp : VoidPosition}
    (h : m.get k = none) (hf : FreshVoid vp) : VoidsArrive m (m.insert k vp) := by
  refine ⟨{vp}, by rw [OrdMap.coe_values_insert m k vp h, Multiset.singleton_add], fun v hv => ?_⟩
  rw [Multiset.mem_singleton.mp hv]
  exact hf

theorem slots_insert (m : OrdMap PositionId VoidPosition) (k : PositionId) (vp : VoidPosition)
    (h : m.get k = none) :
    (((m.insert k vp).values.map VoidPosition.slot : List PayoutSlot) : Multiset PayoutSlot) =
      {vp.slot} + ↑(m.values.map VoidPosition.slot) := by
  rw [← Multiset.map_coe, OrdMap.coe_values_insert m k vp h, Multiset.map_cons, Multiset.map_coe,
    Multiset.singleton_add]

theorem void_cycles_frame (hb : BookIds b) {k : PositionId} {p : CyclesPosition}
    (hg : b.cycles_positions.get k = some p) (cause : PositionTerminationCause) (now : Nat) :
    BookFrame L b [] (b.void_cycles_position k p cause now) := by
  obtain rfl := hb.cycles k p hg
  have hnone := hb.cycles_not_void hg
  have hfresh := fresh_void p cause now
  have hslots := slots_insert _ p.id (p.into_void_position_type cause now) hnone
  have hids : (b.void_cycles_position p.id p cause now).ids = b.ids := by
    simp only [Book.ids, Book.void_cycles_position, OrdMap.coe_keys_insert _ _ _ hnone,
      OrdMap.coe_keys_remove _ _ _ hg, Multiset.cons_add, Multiset.add_cons]
  refine ⟨⟨OrdMap.forall_remove hb.cycles, hb.token, fun kind => ?_, by rw [hids]; exact hb.nodup⟩,
    hids, by simp [Book.void_cycles_position], rfl, rfl, by simp, fun kind => ?_, fun kind => ?_,
    OrdMap.forall_remove fun _ q hq => ⟨q, hq, rfl⟩, fun _ q hq => ⟨q, hq, rfl⟩⟩
  · cases kind with
    | Cycles => exact OrdMap.forall_insert (hb.void .Cycles) rfl
    | Token => exact hb.void .Token
  · cases kind with
    | Cycles => exact voids_arrive hnone hfresh
    | Token => exact .refl _
  · cases kind with
    | Cycles =>
      have hsum := OrdMap.sum_remove _ CyclesPosition.current_position_cycles _ _ hg
      have hmount : mounts ((b.void_cycles_position p.id p cause now).slots (.void .Cycles)) =
          p.current_position_cycles + mounts (b.slots (.void .Cycles)) := by
        refine (congrArg mounts hslots).trans ?_
        rw [mounts_add, mounts_singleton]
        rfl
      simp only [Book.worth, hmount]
      change OrdMap.sum _ _ + _ + mounts (b.slots (.trade .Cycles)) = OrdMap.sum _ _ + _ + _
      simp only [Book.void_cycles_position]
      omega
    | Token => rfl

theorem void_token_frame (hb : BookIds b) {k : PositionId} {p : TokenPosition}
    (hg : b.token_positions.get k = some p) (cause : PositionTerminationCause) (now : Nat) :
    BookFrame L b [] (b.void_token_position k p cause now) := by
  obtain rfl := hb.token k p hg
  have hnone := hb.token_not_void hg
  have hfresh := fresh_void p cause now
  have hslots := slots_insert _ p.id (p.into_void_position_type cause now) hnone
  have hids : (b.void_token_position p.id p cause now).ids = b.ids := by
    simp only [Book.ids, Book.void_token_position, OrdMap.coe_keys_insert _ _ _ hnone,
      OrdMap.coe_keys_remove _ _ _ hg, Multiset.cons_add, Multiset.add_cons]
  refine ⟨⟨hb.cycles, OrdMap.forall_remove hb.token, fun kind => ?_, by rw [hids]; exact hb.nodup⟩,
    hids, by simp [Book.void_token_position], rfl, rfl, by simp, fun kind => ?_, fun kind => ?_,
    fun _ q hq => ⟨q, hq, rfl⟩, OrdMap.forall_remove fun _ q hq => ⟨q, hq, rfl⟩⟩
  · cases kind with
    | Token => exact OrdMap.forall_insert (hb.void .Token) rfl
    | Cycles => exact hb.void .Cycles
  · cases kind with
    | Token => exact voids_arrive hnone hfresh
    | Cycles => exact .refl _
  · cases kind with
    | Token =>
      have hsum := OrdMap.sum_remove _ TokenPosition.current_position_tokens _ _ hg
      have hmount : mounts ((b.void_token_position p.id p cause now).slots (.void .Token)) =
          p.current_position_tokens + mounts (b.slots (.void .Token)) := by
        refine (congrArg mounts hslots).trans ?_
        rw [mounts_add, mounts_singleton]
        rfl
      simp only [Book.worth, hmount]
      change OrdMap.sum _ _ + _ + mounts (b.slots (.trade .Token)) = OrdMap.sum _ _ + _ + _
      simp only [Book.void_token_position]
      omega
    | Cycles => rfl

theorem BookPath.frame (h : BookPath L b ds b') (hb : BookIds b) : BookFrame L b ds b' := by
  induction h with
  | nil => exact .refl hb
  | deal _ hc ht hok hid ih => exact ih.trans (deal_frame ih.inv hc ht hok hid)
  | void_cycles _ hg cause now ih => simpa using ih.trans (void_cycles_frame ih.inv hg cause now)
  | void_token _ hg cause now ih => simpa using ih.trans (void_token_frame ih.inv hg cause now)

end Cts.Tc
