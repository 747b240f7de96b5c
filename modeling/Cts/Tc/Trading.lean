import Cts.Tc.Book

/-!
# New positions

`trade_quest.rs`: a quest becomes a current position and is matched against the other side.
-/

namespace Cts.Tc

open Lib CurrentPositionTrait

/-! ## Quests -/

/-- The two implementations of the trait. -/
inductive TradeQuest
  | cycles (q : TradeCyclesQuest)
  | tokens (q : TradeTokensQuest)
  deriving DecidableEq

namespace TradeQuest

def kind : TradeQuest → PositionKind
  | .cycles _ => .Cycles
  | .tokens _ => .Token

def quantity : TradeQuest → Nat
  | .cycles q => q.cycles
  | .tokens q => q.tokens

def cycles_per_token_rate : TradeQuest → Nat
  | .cycles q => q.cycles_per_token_rate
  | .tokens q => q.cycles_per_token_rate

def posit_transfer_ledger_fee : TradeQuest → Option Nat
  | .cycles q => q.posit_transfer_ledger_fee
  | .tokens q => q.posit_transfer_ledger_fee

def is_less_than_minimum_position (cycles_fee token_fee : Nat) : TradeQuest → Bool
  | .cycles q => q.cycles < minimum_match cycles_fee ||
      cycles_transform_tokens q.cycles q.cycles_per_token_rate < minimum_match token_fee
  | .tokens q => q.tokens < minimum_match token_fee ||
      tokens_transform_cycles q.tokens q.cycles_per_token_rate < minimum_match cycles_fee

end TradeQuest

def TradeCyclesQuest.create_current_position (q : TradeCyclesQuest) (id : PositionId)
    (positor : Principal) (now : Nat) : CyclesPosition :=
  { id := id
    positor := positor
    quest := q
    current_position_cycles := q.cycles
    purchases_rates_times_cycles_quantities_sum := 0
    fill_quantity_tokens := 0
    tokens_payouts_fees_sum := 0
    timestamp_nanos := now
    current_le := le_rfl }

def TradeTokensQuest.create_current_position (q : TradeTokensQuest) (id : PositionId)
    (positor : Principal) (now : Nat) : TokenPosition :=
  { id := id
    positor := positor
    quest := q
    current_position_tokens := q.tokens
    purchases_rates_times_token_quantities_sum := 0
    cycles_payouts_fees_sum := 0
    timestamp_nanos := now
    current_le := le_rfl }

/-- The log of the position that the quest creates. -/
def TradeQuest.position_log (q : TradeQuest) (id : PositionId) (positor : Principal) (now : Nat) :
    PositionLog :=
  match q with
  | .cycles q => (q.create_current_position id positor now).as_stable_memory_position_log none now
  | .tokens q => (q.create_current_position id positor now).as_stable_memory_position_log none now

@[simp]
theorem TradeQuest.position_log_id (q : TradeQuest) (id : PositionId) (positor : Principal)
    (now : Nat) : (q.position_log id positor now).id = id := by
  cases q <;> rfl

/-! ## Into the book -/

structure Matched where
  book : Book
  deals : List Deal
  exit : MatchExit

def Book.open_cycles (b : Book) (p : CyclesPosition) : Book :=
  { b with cycles_positions := b.cycles_positions.insert p.id p }

def Book.open_token (b : Book) (p : TokenPosition) : Book :=
  { b with token_positions := b.token_positions.insert p.id p }

def Book.match_cycles (b : Book) (env : MatchEnv) (id : PositionId) : Matched :=
  let r := match_trades env id b.cyclesSide
  ⟨.ofCyclesSide r.book, r.trades.map Trade.cyclesDeal, r.exit⟩

def Book.match_token (b : Book) (env : MatchEnv) (id : PositionId) : Matched :=
  let r := match_trades env id b.tokenSide
  ⟨.ofTokenSide r.book, r.trades.map Trade.tokenDeal, r.exit⟩

/-- The end of `__trade`: the position is inserted and then matched. -/
def TradeQuest.match_trades (q : TradeQuest) (b : Book) (env : MatchEnv) (id : PositionId)
    (positor : Principal) : Matched :=
  match q with
  | .cycles q => (b.open_cycles (q.create_current_position id positor env.now)).match_cycles env id
  | .tokens q => (b.open_token (q.create_current_position id positor env.now)).match_token env id

/-! ## Sound and uncrossed books -/

structure BookSound (L : Prop) (b : Book) : Prop where
  cycles : ∀ k p, b.cycles_positions.get k = some p → Sound L p
  token : ∀ k p, b.token_positions.get k = some p → Sound L p

def Uncrossed (b : Book) : Prop :=
  ∀ i j c t, b.cycles_positions.get i = some c → b.token_positions.get j = some t →
    c.quest.cycles_per_token_rate < t.quest.cycles_per_token_rate

/-- At least one of the two positions of each trade ended as a fill. -/
def DealFilled (b : Book) (d : Deal) : Prop :=
  EndedAsFill b.void_cycles_positions d.cycles_position.id ∨
    EndedAsFill b.void_token_positions d.token_position.id

structure MatchedOk (L : Prop) (b : Book) (r : Matched) : Prop where
  frame : BookFrame L b r.deals r.book
  sound : BookSound L r.book
  filled : L → ∀ d ∈ r.deals, DealFilled r.book d

section

variable {L : Prop} {b : Book} {env : MatchEnv} {id : PositionId}

theorem match_cycles_end {p : CyclesPosition} (hfee : L → FeeFits env.token_fee) (hb : BookIds b)
    (hs : BookSound L b) (hg : b.cycles_positions.get id = some p) :
    MatchEnd L env id p b.cyclesSide (match_trades env id b.cyclesSide) :=
  match_trades_end hfee rfl hg (hb.cycles id p hg) (hs.cycles id p hg)
    (fun k m hm => ⟨hb.token k m hm, hs.token k m hm⟩)

theorem match_token_end {p : TokenPosition} (hfee : L → FeeFits env.token_fee) (hb : BookIds b)
    (hs : BookSound L b) (hg : b.token_positions.get id = some p) :
    MatchEnd L env id p b.tokenSide (match_trades env id b.tokenSide) :=
  match_trades_end hfee rfl hg (hb.token id p hg) (hs.token id p hg)
    (fun k m hm => ⟨hb.cycles k m hm, hs.cycles k m hm⟩)

theorem match_cycles_ok {p : CyclesPosition} (hfee : L → FeeFits env.token_fee) (hb : BookIds b)
    (hs : BookSound L b) (hg : b.cycles_positions.get id = some p) :
    MatchedOk L b (b.match_cycles env id) := by
  have hend := match_cycles_end hfee hb hs hg
  refine ⟨(cycles_path hend.path).frame hb, ⟨fun k q hq => ?_, hend.sound⟩, fun hL d hd => ?_⟩
  · by_cases hk : k = id
    · rw [hk] at hq
      exact (hend.left q hq).1
    · exact hs.cycles k q ((hend.others k hk).symm.trans hq)
  · obtain ⟨t, ht, rfl⟩ := List.mem_map.mp hd
    exact (hend.filled hL t ht).symm

theorem match_token_ok {p : TokenPosition} (hfee : L → FeeFits env.token_fee) (hb : BookIds b)
    (hs : BookSound L b) (hg : b.token_positions.get id = some p) :
    MatchedOk L b (b.match_token env id) := by
  have hend := match_token_end hfee hb hs hg
  refine ⟨(token_path hend.path).frame hb, ⟨hend.sound, fun k q hq => ?_⟩, fun hL d hd => ?_⟩
  · by_cases hk : k = id
    · rw [hk] at hq
      exact (hend.left q hq).1
    · exact hs.token k q ((hend.others k hk).symm.trans hq)
  · obtain ⟨t, ht, rfl⟩ := List.mem_map.mp hd
    exact hend.filled hL t ht

theorem match_cycles_uncrossed {p : CyclesPosition} (hL : L) (hfee : L → FeeFits env.token_fee)
    (hb : BookIds b) (hs : BookSound L b) (hg : b.cycles_positions.get id = some p)
    (hexit : (b.match_cycles env id).exit ≠ .stopped)
    (hrest : ∀ i j c t, i ≠ id → b.cycles_positions.get i = some c →
      b.token_positions.get j = some t → c.quest.cycles_per_token_rate < t.quest.cycles_per_token_rate) :
    Uncrossed (b.match_cycles env id).book := by
  have hend := match_cycles_end hfee hb hs hg
  have hframe := (match_cycles_ok hfee hb hs hg).frame
  intro i j c t hc ht
  obtain ⟨t₀, ht₀, hquest⟩ := hframe.token_from j t ht
  rw [hquest]
  by_cases hi : i = id
  · rw [hi] at hc
    obtain ⟨-, hrate, hnotfilled⟩ := hend.left c hc
    have hexh : (match_trades env id b.cyclesSide).exit = .exhausted := by
      cases hx : (match_trades env id b.cyclesSide).exit with
      | exhausted => rfl
      | stopped => exact absurd hx hexit
      | filled => exact absurd hx hnotfilled
    have hrate : c.quest.cycles_per_token_rate = p.quest.cycles_per_token_rate := hrate
    rw [hrate]
    by_contra hle
    have hgone := hend.served hL hexh j t₀ ht₀ (Nat.le_of_not_lt hle)
    cases hgone.symm.trans ht
  · exact hrest i j c t₀ hi ((hend.others i hi).symm.trans hc) ht₀

theorem match_token_uncrossed {p : TokenPosition} (hL : L) (hfee : L → FeeFits env.token_fee)
    (hb : BookIds b) (hs : BookSound L b) (hg : b.token_positions.get id = some p)
    (hexit : (b.match_token env id).exit ≠ .stopped)
    (hrest : ∀ i j c t, j ≠ id → b.cycles_positions.get i = some c →
      b.token_positions.get j = some t → c.quest.cycles_per_token_rate < t.quest.cycles_per_token_rate) :
    Uncrossed (b.match_token env id).book := by
  have hend := match_token_end hfee hb hs hg
  have hframe := (match_token_ok hfee hb hs hg).frame
  intro i j c t hc ht
  obtain ⟨c₀, hc₀, hquest⟩ := hframe.cycles_from i c hc
  rw [hquest]
  by_cases hj : j = id
  · rw [hj] at ht
    obtain ⟨-, hrate, hnotfilled⟩ := hend.left t ht
    have hexh : (match_trades env id b.tokenSide).exit = .exhausted := by
      cases hx : (match_trades env id b.tokenSide).exit with
      | exhausted => rfl
      | stopped => exact absurd hx hexit
      | filled => exact absurd hx hnotfilled
    have hrate : t.quest.cycles_per_token_rate = p.quest.cycles_per_token_rate := hrate
    rw [hrate]
    by_contra hle
    have hgone := hend.served hL hexh i c₀ hc₀ (Nat.le_of_not_lt hle)
    cases hgone.symm.trans hc
  · exact hrest i j c₀ t hj hc₀ ((hend.others j hj).symm.trans ht)

/-! ## A quest that passed the checks -/

structure Admitted (L : Prop) (q : TradeQuest) : Prop where
  rate_ne : q.cycles_per_token_rate ≠ 0
  live : L → 10000 ≤ q.kind.tokens q.quantity q.cycles_per_token_rate

theorem admitted_of_checks {q : TradeQuest} {cycles_fee token_fee : Nat}
    (hfee : L → FeeFits token_fee)
    (hmin : q.is_less_than_minimum_position cycles_fee token_fee = false)
    (hr : q.cycles_per_token_rate ≠ 0) : Admitted L q := by
  refine ⟨hr, fun hL => ?_⟩
  have hmatch := minimum_match_eq (hfee hL)
  cases q with
  | cycles q =>
    simp only [TradeQuest.is_less_than_minimum_position, Bool.or_eq_false_iff,
      decide_eq_false_iff_not] at hmin
    have htokens := hmin.2
    have hr : q.cycles_per_token_rate ≠ 0 := hr
    rw [cycles_transform_tokens, if_neg hr] at htokens
    change 10000 ≤ q.cycles / q.cycles_per_token_rate
    omega
  | tokens q =>
    simp only [TradeQuest.is_less_than_minimum_position, Bool.or_eq_false_iff,
      decide_eq_false_iff_not] at hmin
    change 10000 ≤ q.tokens
    omega

/-- What a new position does to the book, from its insertion to the end of its matching. -/
structure CommitOk (L : Prop) (q : TradeQuest) (b : Book) (id : PositionId) (r : Matched) : Prop where
  inv : BookIds r.book
  ids : r.book.ids = id ::ₘ b.ids
  logs : r.book.trade_logs = b.trade_logs ++ r.deals.map Deal.log
  counter : r.book.trade_logs_id_counter = b.trade_logs_id_counter + r.deals.length
  log_ids : r.deals.map (fun d => d.log.log.id) =
    List.range' b.trade_logs_id_counter r.deals.length
  deals : ∀ d ∈ r.deals, DealOk L d
  voids : ∀ kind, VoidsArrive (b.void_positions kind) (r.book.void_positions kind)
  worth : ∀ kind, r.book.worth kind = b.worth kind + if kind = q.kind then q.quantity else 0
  sound : BookSound L r.book
  filled : L → ∀ d ∈ r.deals, DealFilled r.book d
  uncrossed : L → Uncrossed b → r.exit ≠ .stopped → Uncrossed r.book

theorem not_mem_ids (h : id ∉ b.ids) :
    b.cycles_positions.get id = none ∧ b.token_positions.get id = none := by
  simp only [Book.ids, Multiset.mem_add, Multiset.mem_coe, not_or] at h
  exact ⟨(OrdMap.get_eq_none_iff _ _).mpr h.1, (OrdMap.get_eq_none_iff _ _).mpr h.2.1⟩

theorem open_cycles_ids {p : CyclesPosition} (h : b.cycles_positions.get p.id = none) :
    (b.open_cycles p).ids = p.id ::ₘ b.ids := by
  simp only [Book.ids, Book.open_cycles, OrdMap.coe_keys_insert _ _ _ h, Multiset.cons_add]

theorem open_token_ids {p : TokenPosition} (h : b.token_positions.get p.id = none) :
    (b.open_token p).ids = p.id ::ₘ b.ids := by
  simp only [Book.ids, Book.open_token, OrdMap.coe_keys_insert _ _ _ h, Multiset.cons_add,
    Multiset.add_cons]

theorem open_cycles_inv (hb : BookIds b) {p : CyclesPosition} (hid : p.id ∉ b.ids) :
    BookIds (b.open_cycles p) := by
  refine ⟨OrdMap.forall_insert hb.cycles rfl, hb.token, hb.void, ?_⟩
  rw [open_cycles_ids (not_mem_ids hid).1, Multiset.nodup_cons]
  exact ⟨hid, hb.nodup⟩

theorem open_token_inv (hb : BookIds b) {p : TokenPosition} (hid : p.id ∉ b.ids) :
    BookIds (b.open_token p) := by
  refine ⟨hb.cycles, OrdMap.forall_insert hb.token rfl, hb.void, ?_⟩
  rw [open_token_ids (not_mem_ids hid).2, Multiset.nodup_cons]
  exact ⟨hid, hb.nodup⟩

theorem open_cycles_sound (hs : BookSound L b) {p : CyclesPosition} (hp : Sound L p) :
    BookSound L (b.open_cycles p) :=
  ⟨OrdMap.forall_insert hs.cycles hp, hs.token⟩

theorem open_token_sound (hs : BookSound L b) {p : TokenPosition} (hp : Sound L p) :
    BookSound L (b.open_token p) :=
  ⟨hs.cycles, OrdMap.forall_insert hs.token hp⟩

theorem open_cycles_worth {p : CyclesPosition} (h : b.cycles_positions.get p.id = none)
    (kind : PositionKind) : (b.open_cycles p).worth kind =
      b.worth kind + if kind = .Cycles then p.current_position_cycles else 0 := by
  cases kind with
  | Cycles =>
    have hsum := OrdMap.sum_insert_new _ CyclesPosition.current_position_cycles p.id p h
    have hquantity : (b.open_cycles p).quantity .Cycles =
        p.current_position_cycles + b.quantity .Cycles := hsum
    have hrest : ∀ q, (b.open_cycles p).slots q = b.slots q := by
      rintro (_ | _) <;> rfl
    rw [Book.worth, Book.worth, hquantity, hrest, hrest, if_pos rfl]
    omega
  | Token => rfl

theorem open_token_worth {p : TokenPosition} (h : b.token_positions.get p.id = none)
    (kind : PositionKind) : (b.open_token p).worth kind =
      b.worth kind + if kind = .Token then p.current_position_tokens else 0 := by
  cases kind with
  | Cycles => rfl
  | Token =>
    have hsum := OrdMap.sum_insert_new _ TokenPosition.current_position_tokens p.id p h
    have hquantity : (b.open_token p).quantity .Token =
        p.current_position_tokens + b.quantity .Token := hsum
    have hrest : ∀ q, (b.open_token p).slots q = b.slots q := by
      rintro (_ | _) <;> rfl
    rw [Book.worth, Book.worth, hquantity, hrest, hrest, if_pos rfl]
    omega

theorem match_trades_commit {q : TradeQuest} {positor : Principal}
    (hfee : L → FeeFits env.token_fee) (hb : BookIds b) (hs : BookSound L b) (hid : id ∉ b.ids)
    (hq : Admitted L q) : CommitOk L q b id (q.match_trades b env id positor) := by
  obtain ⟨hcnone, htnone⟩ := not_mem_ids hid
  cases q with
  | cycles q =>
    let p := q.create_current_position id positor env.now
    have hopen : BookIds (b.open_cycles p) := open_cycles_inv hb hid
    have hsound : BookSound L (b.open_cycles p) :=
      open_cycles_sound hs ⟨hq.rate_ne, fun hL => ⟨hq.rate_ne, hq.live hL⟩⟩
    have hget : (b.open_cycles p).cycles_positions.get id = some p := OrdMap.get_insert_self _ _ _
    have hok := match_cycles_ok hfee hopen hsound hget
    have hf := hok.frame
    refine ⟨hf.inv, hf.ids.trans (open_cycles_ids hcnone), hf.logs, hf.counter, hf.log_ids, hf.deals,
      fun kind => ?_, fun kind => (hf.worth kind).trans (open_cycles_worth hcnone kind), hok.sound,
      hok.filled,
      fun hL hun hexit => match_cycles_uncrossed hL hfee hopen hsound hget hexit ?_⟩
    · have hvoids := hf.voids kind
      cases kind <;> exact hvoids
    intro i j c t hi hc ht
    exact hun i j c t ((OrdMap.get_insert_of_ne _ _ hi).symm.trans hc) ht
  | tokens q =>
    let p := q.create_current_position id positor env.now
    have hopen : BookIds (b.open_token p) := open_token_inv hb hid
    have hsound : BookSound L (b.open_token p) :=
      open_token_sound hs ⟨hq.rate_ne, fun hL => ⟨hq.rate_ne, hq.live hL⟩⟩
    have hget : (b.open_token p).token_positions.get id = some p := OrdMap.get_insert_self _ _ _
    have hok := match_token_ok hfee hopen hsound hget
    have hf := hok.frame
    refine ⟨hf.inv, hf.ids.trans (open_token_ids htnone), hf.logs, hf.counter, hf.log_ids, hf.deals,
      fun kind => ?_, fun kind => (hf.worth kind).trans (open_token_worth htnone kind), hok.sound,
      hok.filled,
      fun hL hun hexit => match_token_uncrossed hL hfee hopen hsound hget hexit ?_⟩
    · have hvoids := hf.voids kind
      cases kind <;> exact hvoids
    intro i j c t hj hc ht
    exact hun i j c t hc ((OrdMap.get_insert_of_ne _ _ hj).symm.trans ht)

end

end Cts.Tc
