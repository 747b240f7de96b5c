import Mathlib.Algebra.Order.BigOperators.Group.List
import Cts.Tc.Moves
import Cts.Tc.Script

/-!
# Positions and trades add up

A position counts what it sold, what it bought and the fees of that, and a trade log says the same
of the trade.
-/

namespace Cts.Tc

open Lib CurrentPositionTrait

/-! ## What a trade log says -/

namespace TradeLog

def names (log : TradeLog) (id : PositionId) : Bool :=
  log.position_id_matcher = id || log.position_id_matchee = id

/-- What the position of the kind gave for the trade, in its units. -/
def sold (log : TradeLog) : PositionKind → Nat
  | .Cycles => log.cycles
  | .Token => log.tokens

def bought (log : TradeLog) : PositionKind → Nat
  | .Cycles => log.tokens
  | .Token => log.cycles

/-- The fee on what the position of the kind bought. -/
def boughtFee (log : TradeLog) : PositionKind → Nat
  | .Cycles => log.tokens_payout_fee
  | .Token => log.cycles_payout_fee

end TradeLog

def tradesOf (logs : List TradeLog) (id : PositionId) : List TradeLog := logs.filter fun l => l.names id

def sumOf (f : TradeLog → Nat) (logs : List TradeLog) : Nat := (logs.map f).sum

/-- A position log agrees with the trade logs of its position. What it bought is a `u128`, so it is
exact as long as the cycles of its trades are one together. -/
structure Reconciles (kind : PositionKind) (log : PositionLog) (trades : List TradeLog) : Prop where
  same_kind : log.position_kind = kind
  sold : log.mainder_position_quantity + sumOf (·.sold kind) trades = log.quest.quantity
  bought : sumOf TradeLog.cycles trades < 2 ^ 128 → log.fill_quantity = sumOf (·.bought kind) trades
  fees : sumOf TradeLog.cycles trades < 2 ^ 128 →
    log.payouts_fees_sum = sumOf (·.boughtFee kind) trades

structure TradeSmall (l : TradeLog) : Prop where
  tokens_le : l.tokens ≤ l.cycles
  tokens_fee_le : l.tokens_payout_fee ≤ l.tokens
  cycles_fee_le : l.cycles_payout_fee ≤ l.cycles

variable {kind : PositionKind} {ls : List TradeLog} {l : TradeLog} {id : PositionId}

theorem sumOf_append (f : TradeLog → Nat) (ls ms : List TradeLog) :
    sumOf f (ls ++ ms) = sumOf f ls + sumOf f ms := by
  unfold sumOf
  rw [List.map_append, List.sum_append]

theorem sumOf_concat (f : TradeLog → Nat) (ls : List TradeLog) (l : TradeLog) :
    sumOf f (ls ++ [l]) = sumOf f ls + f l := by
  rw [sumOf_append]
  rfl

theorem sumOf_le {f g : TradeLog → Nat} (h : ∀ l ∈ ls, f l ≤ g l) : sumOf f ls ≤ sumOf g ls :=
  List.sum_le_sum h

theorem TradeSmall.bought_le (h : TradeSmall l) (kind : PositionKind) : l.bought kind ≤ l.cycles := by
  cases kind
  · exact h.tokens_le
  · exact le_rfl

theorem TradeSmall.boughtFee_le (h : TradeSmall l) (kind : PositionKind) :
    l.boughtFee kind ≤ l.cycles := by
  cases kind
  · exact h.tokens_fee_le.trans h.tokens_le
  · exact h.cycles_fee_le

theorem Reconciles.trade {log log' : PositionLog} (h : Reconciles kind log ls)
    (hsmall : ∀ m ∈ ls ++ [l], TradeSmall m) (hkind : log'.position_kind = log.position_kind)
    (hquest : log'.quest = log.quest)
    (hsold : log'.mainder_position_quantity + l.sold kind = log.mainder_position_quantity)
    (hbought : log'.fill_quantity = saturating_add log.fill_quantity (l.bought kind))
    (hfees : log'.payouts_fees_sum = saturating_add log.payouts_fees_sum (l.boughtFee kind)) :
    Reconciles kind log' (ls ++ [l]) := by
  have hle := sumOf_le (f := (·.bought kind)) fun m hm => (hsmall m hm).bought_le kind
  have hfee_le := sumOf_le (f := (·.boughtFee kind)) fun m hm => (hsmall m hm).boughtFee_le kind
  refine ⟨hkind.trans h.same_kind, ?_, fun hlt => ?_, fun hlt => ?_⟩
  · have hsum := h.sold
    rw [sumOf_concat, hquest]
    omega
  · have hexact := h.bought (by rw [sumOf_concat] at hlt; omega)
    rw [sumOf_concat] at hle ⊢
    rw [hbought, hexact]
    exact Word.saturatingAdd_of_lt (lt_of_le_of_lt hle hlt)
  · have hexact := h.fees (by rw [sumOf_concat] at hlt; omega)
    rw [sumOf_concat] at hfee_le ⊢
    rw [hfees, hexact]
    exact Word.saturatingAdd_of_lt (lt_of_le_of_lt hfee_le hlt)

theorem trades_of_append (ls ms : List TradeLog) (id : PositionId) :
    tradesOf (ls ++ ms) id = tradesOf ls id ++ tradesOf ms id := List.filter_append _ _

theorem trades_of_none (h : ∀ l ∈ ls, l.names id = false) : tradesOf ls id = [] :=
  List.filter_eq_nil_iff.mpr fun l hl => by rw [h l hl]; exact Bool.false_ne_true

/-! ## Deals -/

/-- What the two positions of a deal count is what its log says. -/
structure DealCounted (d : Deal) : Prop where
  rate_ne : d.log.log.cycles_per_token_rate ≠ 0
  cycles_bought : d.cycles_position'.fill_quantity_tokens =
    saturating_add d.cycles_position.fill_quantity_tokens d.log.log.tokens
  cycles_fees : d.cycles_position'.tokens_payouts_fees_sum =
    saturating_add d.cycles_position.tokens_payouts_fees_sum d.log.log.tokens_payout_fee
  token_bought : d.token_position'.purchases_rates_times_token_quantities_sum =
    saturating_add d.token_position.purchases_rates_times_token_quantities_sum d.log.log.cycles
  token_fees : d.token_position'.cycles_payouts_fees_sum =
    saturating_add d.token_position.cycles_payouts_fees_sum d.log.log.cycles_payout_fee

theorem deal_small {L : Prop} {d : Deal} (h : DealOk L d) (hc : DealCounted d) :
    TradeSmall d.log.log := by
  have htokens := h.tokens_fee_le
  have hcycles := h.cycles_fee_le
  refine ⟨?_, by omega, by omega⟩
  rw [h.cycles_eq]
  exact Nat.le_mul_of_pos_right _ (Nat.pos_of_ne_zero hc.rate_ne)

theorem deal_names {L : Prop} {d : Deal} (h : DealOk L d) (id : PositionId) :
    d.log.log.names id = true ↔ d.cycles_position.id = id ∨ d.token_position.id = id := by
  have hids := h.positionIds
  unfold TradeLog.names
  rw [Bool.or_eq_true, decide_eq_true_eq, decide_eq_true_eq]
  cases hkind : d.log.log.matchee_position_kind with
  | Token =>
    rw [hkind] at hids
    rw [hids.1, hids.2]
  | Cycles =>
    rw [hkind] at hids
    rw [hids.1, hids.2]
    exact or_comm

theorem cycles_deals_counted {L : Prop} {env : MatchEnv} {b b' : MatchBook CyclesPosition TokenPosition}
    {ts : List (Trade CyclesPosition TokenPosition)} (h : MatchPath L env b ts b') :
    ∀ t ∈ ts, DealCounted t.cyclesDeal := by
  refine h.forall_trades fun p m rate id hp hm hbetter => ?_
  refine ⟨(trade_ok rfl hp.1 hm.1 hbetter).rate_ne, rfl, rfl, ?_, rfl⟩
  exact congrArg (saturating_add _) (congrArg (Word.wrap 128) (Nat.mul_comm _ _))

theorem token_deals_counted {L : Prop} {env : MatchEnv} {b b' : MatchBook TokenPosition CyclesPosition}
    {ts : List (Trade TokenPosition CyclesPosition)} (h : MatchPath L env b ts b') :
    ∀ t ∈ ts, DealCounted t.tokenDeal := by
  refine h.forall_trades fun p m rate id hp hm hbetter => ?_
  refine ⟨(trade_ok rfl hp.1 hm.1 hbetter).rate_ne, rfl, rfl, ?_, rfl⟩
  exact congrArg (saturating_add _) (congrArg (Word.wrap 128) (Nat.mul_comm _ _))

/-! ## The book -/

structure BookReconciles (b : Book) (ls : List TradeLog) : Prop where
  cycles : ∀ k p, b.cycles_positions.get k = some p →
    Reconciles .Cycles (p.as_stable_memory_position_log none 0) (tradesOf ls k)
  token : ∀ k p, b.token_positions.get k = some p →
    Reconciles .Token (p.as_stable_memory_position_log none 0) (tradesOf ls k)
  void : ∀ kind k vp, (b.void_positions kind).get k = some vp →
    Reconciles kind vp.log (tradesOf ls k)

variable {L : Prop} {b b' : Book} {d : Deal} {ds : List Deal} {ck tk k : PositionId}

theorem BookIds.count_le (hb : BookIds b) (k : PositionId) :
    b.cycles_positions.keys.count k + b.token_positions.keys.count k +
      (b.void_positions .Cycles).keys.count k + (b.void_positions .Token).keys.count k ≤ 1 := by
  have hcount := Multiset.nodup_iff_count_le_one.mp hb.nodup k
  unfold Book.ids at hcount
  rw [Multiset.count_add, Multiset.count_add, Multiset.count_add, Multiset.coe_count,
    Multiset.coe_count, Multiset.coe_count, Multiset.coe_count] at hcount
  change _ + _ + b.void_cycles_positions.keys.count k + b.void_token_positions.keys.count k ≤ 1
  omega

theorem count_pos_of_get {κ ν : Type} [LinearOrder κ] {m : OrdMap κ ν} {k : κ} {v : ν}
    (h : m.get k = some v) : 0 < m.keys.count k := List.count_pos_iff.mpr (OrdMap.mem_keys_of_get h)

theorem BookIds.void_ne (hb : BookIds b) {c : CyclesPosition} {t : TokenPosition}
    (hc : b.cycles_positions.get ck = some c) (ht : b.token_positions.get tk = some t)
    {vp : VoidPosition} (hv : (b.void_positions kind).get k = some vp) : ck ≠ k ∧ tk ≠ k := by
  have hvoid := count_pos_of_get hv
  have hcount := hb.count_le k
  constructor
  · rintro rfl
    have hpos := count_pos_of_get hc
    cases kind <;> omega
  · rintro rfl
    have hpos := count_pos_of_get ht
    cases kind <;> omega

theorem BookIds.cycles_ne_token (hb : BookIds b) {c : CyclesPosition} {t : TokenPosition}
    (hc : b.cycles_positions.get ck = some c) (ht : b.token_positions.get tk = some t) : ck ≠ tk := by
  rintro rfl
  have hcount := hb.count_le ck
  have hcycles := count_pos_of_get hc
  have htoken := count_pos_of_get ht
  omega

theorem trades_of_named (h : l.names id = true) (ls : List TradeLog) :
    tradesOf (ls ++ [l]) id = tradesOf ls id ++ [l] := by
  rw [trades_of_append]
  exact congrArg _ (List.filter_cons_of_pos h)

theorem trades_of_not_named (h : l.names id = false) (ls : List TradeLog) :
    tradesOf (ls ++ [l]) id = tradesOf ls id := by
  have hnone : tradesOf [l] id = [] := trades_of_none (List.forall_mem_singleton.mpr h)
  rw [trades_of_append, hnone, List.append_nil]

theorem small_of_named (h : ∀ m ∈ ls ++ [l], TradeSmall m) (id : PositionId) :
    ∀ m ∈ tradesOf ls id ++ [l], TradeSmall m := by
  intro m hm
  refine h m (List.mem_append.mpr ?_)
  exact (List.mem_append.mp hm).imp_left List.mem_of_mem_filter

theorem BookReconciles.deal (h : BookReconciles b ls) (hb : BookIds b)
    (hc : b.cycles_positions.get ck = some d.cycles_position)
    (ht : b.token_positions.get tk = some d.token_position) (hok : DealOk L d)
    (hcounted : DealCounted d) (hsmall : ∀ m ∈ ls ++ [d.log.log], TradeSmall m) :
    BookReconciles (b.record ck tk d) (ls ++ [d.log.log]) := by
  have hck := hb.cycles ck _ hc
  have htk := hb.token tk _ ht
  have hnot : ∀ k, ck ≠ k → tk ≠ k → d.log.log.names k = false := by
    intro k hne hne'
    rw [Bool.eq_false_iff, Ne, deal_names hok, hck, htk]
    exact not_or.mpr ⟨hne, hne'⟩
  refine ⟨fun k p hg => ?_, fun k p hg => ?_, fun kind k vp hg => ?_⟩
  · simp only [Book.record, OrdMap.get_insert] at hg
    split_ifs at hg with hk
    · obtain rfl := Option.some.inj hg
      subst hk
      rw [trades_of_named ((deal_names hok k).mpr (Or.inl hck))]
      exact (h.cycles k _ hc).trade (small_of_named hsmall k) rfl
        (congrArg (fun q : TradeCyclesQuest => CreatePositionQuestLog.mk q.cycles
          q.cycles_per_token_rate) hok.cycles_same.2.2)
        hok.cycles_spent hcounted.cycles_bought hcounted.cycles_fees
    · rw [trades_of_not_named (hnot k (fun heq => hk heq.symm) (hb.cycles_ne_token hg ht).symm)]
      exact h.cycles k p hg
  · simp only [Book.record, OrdMap.get_insert] at hg
    split_ifs at hg with hk
    · obtain rfl := Option.some.inj hg
      subst hk
      rw [trades_of_named ((deal_names hok k).mpr (Or.inr htk))]
      exact (h.token k _ ht).trade (small_of_named hsmall k) rfl
        (congrArg (fun q : TradeTokensQuest => CreatePositionQuestLog.mk q.tokens
          q.cycles_per_token_rate) hok.token_same.2.2)
        hok.tokens_spent hcounted.token_bought hcounted.token_fees
    · rw [trades_of_not_named (hnot k (hb.cycles_ne_token hc hg) fun heq => hk heq.symm)]
      exact h.token k p hg
  · have hg : (b.void_positions kind).get k = some vp := by
      cases kind <;> exact hg
    obtain ⟨hne, hne'⟩ := hb.void_ne hc ht hg
    rw [trades_of_not_named (hnot k hne hne')]
    exact h.void kind k vp hg

theorem BookReconciles.void_cycles (h : BookReconciles b ls) (hb : BookIds b) {p : CyclesPosition}
    (hp : b.cycles_positions.get k = some p) (cause : PositionTerminationCause) (now : Nat) :
    BookReconciles (b.void_cycles_position k p cause now) ls := by
  have hended : Reconciles .Cycles (p.into_void_position_type cause now).log (tradesOf ls k) := by
    obtain ⟨hkind, hsold, hbought, hfees⟩ := h.cycles k p hp
    exact ⟨hkind, hsold, hbought, hfees⟩
  obtain rfl := hb.cycles k p hp
  refine ⟨OrdMap.forall_remove h.cycles, h.token, fun kind => ?_⟩
  cases kind with
  | Token => exact h.void .Token
  | Cycles => exact OrdMap.forall_insert (h.void .Cycles) hended

theorem BookReconciles.void_token (h : BookReconciles b ls) (hb : BookIds b) {p : TokenPosition}
    (hp : b.token_positions.get k = some p) (cause : PositionTerminationCause) (now : Nat) :
    BookReconciles (b.void_token_position k p cause now) ls := by
  have hended : Reconciles .Token (p.into_void_position_type cause now).log (tradesOf ls k) := by
    obtain ⟨hkind, hsold, hbought, hfees⟩ := h.token k p hp
    exact ⟨hkind, hsold, hbought, hfees⟩
  obtain rfl := hb.token k p hp
  refine ⟨h.cycles, OrdMap.forall_remove h.token, fun kind => ?_⟩
  cases kind with
  | Cycles => exact h.void .Cycles
  | Token => exact OrdMap.forall_insert (h.void .Token) hended

/-- The trade logs of deals. -/
def dealLogs (ds : List Deal) : List TradeLog := ds.map fun d => d.log.log

theorem dealLogs_append (ds es : List Deal) : dealLogs (ds ++ es) = dealLogs ds ++ dealLogs es :=
  List.map_append

structure PathReconciles (b : Book) (ls : List TradeLog) (ds : List Deal) (b' : Book) : Prop where
  book : BookReconciles b' (ls ++ dealLogs ds)
  small : ∀ l ∈ ls ++ dealLogs ds, TradeSmall l
  named : ∀ l ∈ dealLogs ds, ∀ id, l.names id = true → id ∈ b.ids

theorem BookPath.reconciles (h : BookPath L b ds b') (hb : BookIds b)
    (hcounted : ∀ d ∈ ds, DealCounted d) (hrec : BookReconciles b ls)
    (hsmall : ∀ l ∈ ls, TradeSmall l) : PathReconciles b ls ds b' := by
  induction h with
  | nil =>
    refine ⟨?_, ?_, fun l hl => absurd hl List.not_mem_nil⟩
    · exact (List.append_nil ls).symm ▸ hrec
    · exact (List.append_nil ls).symm ▸ hsmall
  | @deal ds b₁ ck tk d hpath hc ht hok hid ih =>
    have ih := ih fun d hd => hcounted d (List.mem_append_left _ hd)
    have hframe := hpath.frame hb
    have hd := hcounted d (by simp)
    have hsmall' : ∀ l ∈ ls ++ dealLogs ds ++ [d.log.log], TradeSmall l :=
      List.forall_mem_append.mpr ⟨ih.small, List.forall_mem_singleton.mpr (deal_small hok hd)⟩
    have hlogs : ls ++ dealLogs (ds ++ [d]) = ls ++ dealLogs ds ++ [d.log.log] := by
      rw [dealLogs_append, ← List.append_assoc]
      rfl
    refine ⟨hlogs ▸ ih.book.deal hframe.inv hc ht hok hd hsmall', hlogs ▸ hsmall', ?_⟩
    rw [dealLogs_append]
    refine List.forall_mem_append.mpr ⟨ih.named, List.forall_mem_singleton.mpr fun id hnames => ?_⟩
    rw [← hframe.ids]
    unfold Book.ids
    rw [deal_names hok, hframe.inv.cycles ck _ hc, hframe.inv.token tk _ ht] at hnames
    simp only [Multiset.mem_add, Multiset.mem_coe]
    rcases hnames with rfl | rfl
    · exact Or.inl (OrdMap.mem_keys_of_get hc)
    · exact Or.inr (Or.inl (OrdMap.mem_keys_of_get ht))
  | void_cycles hpath hg cause now ih =>
    have ih := ih hcounted
    exact ⟨ih.book.void_cycles (hpath.frame hb).inv hg cause now, ih.small, ih.named⟩
  | void_token hpath hg cause now ih =>
    have ih := ih hcounted
    exact ⟨ih.book.void_token (hpath.frame hb).inv hg cause now, ih.small, ih.named⟩

/-! ## A new position -/

theorem BookReconciles.open_cycles (h : BookReconciles b ls) (hnew : tradesOf ls id = [])
    (q : TradeCyclesQuest) (positor : Principal) (now : Nat) :
    BookReconciles (b.open_cycles (q.create_current_position id positor now)) ls := by
  refine ⟨OrdMap.forall_insert h.cycles ?_, h.token, h.void⟩
  show Reconciles .Cycles _ (tradesOf ls id)
  rw [hnew]
  exact ⟨rfl, rfl, fun _ => rfl, fun _ => rfl⟩

theorem BookReconciles.open_token (h : BookReconciles b ls) (hnew : tradesOf ls id = [])
    (q : TradeTokensQuest) (positor : Principal) (now : Nat) :
    BookReconciles (b.open_token (q.create_current_position id positor now)) ls := by
  refine ⟨h.cycles, OrdMap.forall_insert h.token ?_, h.void⟩
  show Reconciles .Token _ (tradesOf ls id)
  rw [hnew]
  exact ⟨rfl, rfl, fun _ => rfl, fun _ => rfl⟩

structure CommitReconciles (b : Book) (ls : List TradeLog) (id : PositionId) (r : Matched) : Prop where
  book : BookReconciles r.book (ls ++ dealLogs r.deals)
  small : ∀ l ∈ ls ++ dealLogs r.deals, TradeSmall l
  named : ∀ l ∈ dealLogs r.deals, ∀ i, l.names i = true → i ∈ id ::ₘ b.ids

theorem match_trades_counted (env : MatchEnv) (hb : BookIds b) (hs : BookSound False b)
    (hid : id ∉ b.ids) {q : TradeQuest} (hq : Admitted False q) (positor : Principal) :
    ∀ d ∈ (q.match_trades b env id positor).deals, DealCounted d := by
  cases q with
  | cycles q =>
    exact List.forall_mem_map.mpr
      (cycles_deals_counted (opened_cycles_end hb hs hid hq positor).path)
  | tokens q =>
    exact List.forall_mem_map.mpr (token_deals_counted (opened_token_end hb hs hid hq positor).path)

theorem match_trades_reconciles (env : MatchEnv) (h : BookReconciles b ls) (hb : BookIds b)
    (hs : BookSound False b) (hid : id ∉ b.ids) (hsmall : ∀ l ∈ ls, TradeSmall l)
    (hnew : ∀ l ∈ ls, l.names id = false) {q : TradeQuest} (hq : Admitted False q)
    (positor : Principal) : CommitReconciles b ls id (q.match_trades b env id positor) := by
  have hnone := trades_of_none hnew
  have hopens : BookReconciles (q.opens b id positor env.now) ls := by
    cases q with
    | cycles q => exact h.open_cycles hnone q positor env.now
    | tokens q => exact h.open_token hnone q positor env.now
  obtain ⟨hinv, hids, hpath⟩ : OpensPath q b env id positor := opens_path hb hs hid hq positor
  have hrec := hpath.reconciles hinv (match_trades_counted env hb hs hid hq positor) hopens hsmall
  refine ⟨hrec.book, hrec.small, fun l hl i hi => ?_⟩
  rw [← hids]
  exact hrec.named l hl i hi

/-! ## Every run -/

variable {cfg : TcConfig} {s s' : TcState}

structure Reconciled (s : TcState) : Prop where
  book : BookReconciles s.cm_data.toBook (dealLogs s.history.deals)
  gone : ∀ kind, ∀ vp ∈ s.history.removed kind,
    Reconciles kind vp.log (tradesOf (dealLogs s.history.deals) vp.position_id)
  small : ∀ l ∈ dealLogs s.history.deals, TradeSmall l
  named : ∀ l ∈ dealLogs s.history.deals, ∀ id, l.names id = true →
    id < s.cm_data.positions_id_counter

theorem reconciles_core {vp vp' : VoidPosition} (h : vp'.core = vp.core)
    (hrec : Reconciles kind vp.log ls) : Reconciles kind vp'.log ls := by
  have hrec : Reconciles kind vp.core.log ls := ⟨hrec.1, hrec.2, hrec.3, hrec.4⟩
  rw [← h] at hrec
  exact ⟨hrec.1, hrec.2, hrec.3, hrec.4⟩

theorem Reconciled.voids (h : Reconciled s) (hm : Market False s) :
    ∀ kind, ∀ vp ∈ s.voids kind,
      Reconciles kind vp.log (tradesOf (dealLogs s.history.deals) vp.position_id) := by
  intro kind vp hvp
  rcases Multiset.mem_add.mp hvp with hvp | hvp
  · exact h.book.void kind _ vp ((hm.book.keyed kind).get_of_mem (Multiset.mem_coe.mp hvp))
  · exact h.gone kind vp (Multiset.mem_coe.mp hvp)

theorem Reconciled.pays (h : Reconciled s) (hm : Market False s) (hf : PayoutFrame s s') :
    Reconciled s' := by
  have hvoids : ∀ kind, ∀ vp ∈ s'.voids kind,
      Reconciles kind vp.log (tradesOf (dealLogs s.history.deals) vp.position_id) := by
    intro kind vp hvp
    have hmem : vp.core ∈ (s.voids kind).map VoidPosition.core := by
      rw [← hf.voids kind]
      exact Multiset.mem_map_of_mem _ hvp
    obtain ⟨vp₀, hvp₀, hcore⟩ := Multiset.mem_map.mp hmem
    have hid : vp₀.position_id = vp.position_id :=
      show vp₀.core.position_id = vp.core.position_id by rw [hcore]
    rw [← hid]
    exact reconciles_core hcore.symm (h.voids hm kind vp₀ hvp₀)
  refine ⟨⟨?_, ?_, fun kind k vp hg => ?_⟩, fun kind vp hvp => ?_, ?_, ?_⟩
  · rw [hf.cycles, hf.deals]
    exact h.book.cycles
  · rw [hf.token, hf.deals]
    exact h.book.token
  · rw [hf.deals, ← hf.keyed kind k vp hg]
    refine hvoids kind vp (Multiset.mem_add.mpr (Or.inl (Multiset.mem_coe.mpr ?_)))
    exact (OrdMap.mem_values_iff _ vp).mpr ⟨k, hg⟩
  · rw [hf.deals]
    exact hvoids kind vp (Multiset.mem_add.mpr (Or.inr (Multiset.mem_coe.mpr hvp)))
  · rw [hf.deals]
    exact h.small
  · rw [hf.deals, hf.counter]
    exact h.named

theorem Market.gone_fresh (hm : Market False s) {vp : VoidPosition}
    (hvp : vp ∈ s.history.removed kind) :
    vp.position_id ∉ s.cm_data.positions_id_counter ::ₘ s.cm_data.ids := by
  have hnodup : s.positionIds.Nodup := by
    rw [hm.ids, Multiset.coe_nodup]
    exact List.nodup_range
  rw [positionIds_eq hm.book.keyed, add_assoc] at hnodup
  have hgone : vp.position_id ∈
      ((s.history.removed .Cycles).map VoidPosition.position_id : Multiset PositionId) +
        ((s.history.removed .Token).map VoidPosition.position_id : List PositionId) := by
    refine Multiset.mem_add.mpr ?_
    cases kind
    · exact Or.inl (List.mem_map_of_mem hvp)
    · exact Or.inr (List.mem_map_of_mem hvp)
  rw [Multiset.mem_cons, not_or]
  refine ⟨fun heq => ?_, fun hmem => ?_⟩
  · have hlt : vp.position_id ∈ s.positionIds := by
      rw [positionIds_eq hm.book.keyed, add_assoc]
      exact Multiset.mem_add.mpr (Or.inr hgone)
    rw [hm.ids, heq] at hlt
    exact absurd (List.mem_range.mp (Multiset.mem_coe.mp hlt)) (lt_irrefl _)
  · exact Multiset.disjoint_left.mp (Multiset.nodup_add.mp hnodup).2.2 hmem hgone

theorem Reconciled.commits (h : Reconciled s) (hm : Market False s) {q : TradeQuest}
    (hq : Admitted False q) (env : MatchEnv) (caller : Principal) (calls : List UserCall) :
    Reconciled { s.commit env caller q with calls := calls } := by
  have hnew : ∀ l ∈ dealLogs s.history.deals, l.names s.cm_data.positions_id_counter = false := by
    intro l hl
    rw [Bool.eq_false_iff]
    exact fun hnames => absurd (h.named l hl _ hnames) (lt_irrefl _)
  have hcommit := match_trades_reconciles env h.book hm.book hm.sound hm.fresh_id h.small hnew hq
    caller
  have hdeals : dealLogs ({ s.commit env caller q with calls := calls } : TcState).history.deals =
      dealLogs s.history.deals ++ dealLogs (q.match_trades s.cm_data.toBook env
        s.cm_data.positions_id_counter caller).deals := dealLogs_append _ _
  refine ⟨?_, fun kind vp hvp => ?_, ?_, ?_⟩
  · rw [hdeals]
    exact hcommit.book
  · have hnone : tradesOf (dealLogs (q.match_trades s.cm_data.toBook env
        s.cm_data.positions_id_counter caller).deals) vp.position_id = [] := by
      refine trades_of_none fun l hl => ?_
      rw [Bool.eq_false_iff]
      exact fun hnames => hm.gone_fresh hvp (hcommit.named l hl _ hnames)
    rw [hdeals, trades_of_append, hnone, List.append_nil]
    exact h.gone kind vp hvp
  · rw [hdeals]
    exact hcommit.small
  · rw [hdeals]
    refine List.forall_mem_append.mpr ⟨fun l hl id hid => Nat.lt_succ_of_lt (h.named l hl id hid),
      fun l hl id hid => ?_⟩
    change id < s.cm_data.positions_id_counter + 1
    rcases Multiset.mem_cons.mp (hcommit.named l hl id hid) with rfl | hmem
    · exact Nat.lt_succ_self _
    · have hpos : id ∈ s.positionIds := by
        rw [positionIds_eq hm.book.keyed, add_assoc]
        exact Multiset.mem_add.mpr (Or.inl hmem)
      rw [hm.ids] at hpos
      exact Nat.lt_succ_of_lt (List.mem_range.mp (Multiset.mem_coe.mp hpos))

theorem Reconciled.void (h : Reconciled s) (hm : Market False s) {caller : Principal}
    {position_id : PositionId} {now : Nat}
    (hv : void_position_ s.cm_data.toBook caller position_id now = .ok b) :
    Reconciled { s with cm_data := { s.cm_data with toBook := b } } := by
  refine ⟨?_, h.gone, h.small, h.named⟩
  rcases void_position_spec hm.book hv with ⟨p, hp, -, rfl⟩ | ⟨p, hp, -, rfl⟩
  · exact h.book.void_cycles hm.book hp _ _
  · exact h.book.void_token hm.book hp _ _

theorem Reconciled.stays (h : Reconciled s) (hq : Quiet s s') : Reconciled s' := by
  refine ⟨?_, ?_, ?_, ?_⟩
  · rw [hq.book, hq.deals]
    exact h.book
  · rw [hq.removed, hq.deals]
    exact h.gone
  · rw [hq.deals]
    exact h.small
  · rw [hq.deals, hq.counter]
    exact h.named

theorem reconciled_inv (r : TcReachable cfg s) : Reconciled s := by
  refine r.invariant (fun s hinit => ?_) fun s s' r h hstep => ?_
  · obtain ⟨fees, positions_module_hash, trades_module_hash, ledger, rfl⟩ := hinit
    refine ⟨⟨fun k p hg => ?_, fun k p hg => ?_, fun kind k vp hg => ?_⟩, fun kind vp hvp => ?_,
      fun l hl => absurd hl List.not_mem_nil, fun l hl => absurd hl List.not_mem_nil⟩
    · cases hg
    · cases hg
    · cases kind <;> cases hg
    · exact absurd hvp List.not_mem_nil
  · have hm : Market False s := market_inv r False.elim
    rcases market_move hm hstep with ⟨now, instruction_counter, hcalls, hq, rfl⟩ | ⟨hv, rfl⟩ |
      ⟨hf, -, -⟩ | ⟨hq⟩
    · exact h.commits hm (hm.admitted _ (by rw [hcalls]; simp) _ hq) _ _ _
    · exact h.void hm hv
    · exact h.pays hm hf
    · exact h.stays hq

/-- The trade logs that there ever were and that name a position. -/
def TcState.tradesOf (s : TcState) (id : PositionId) : List TradeLog :=
  Tc.tradesOf (s.logs.map TradeLogAndTemporaryData.log) id

theorem sumOf_trades (hm : Market False s) (f : TradeLog → Nat)
    (hf : ∀ tl : TradeLogAndTemporaryData, f tl.core.log = f tl.log) (id : PositionId) :
    sumOf f (s.tradesOf id) = sumOf f (tradesOf (dealLogs s.history.deals) id) := by
  have hcore : ∀ tls : List TradeLogAndTemporaryData,
      sumOf f (tradesOf (tls.map TradeLogAndTemporaryData.log) id) =
        (((tls.map TradeLogAndTemporaryData.core).filter fun tl => tl.log.names id).map
          fun tl => f tl.log).sum := by
    intro tls
    unfold sumOf tradesOf
    rw [List.filter_map, List.filter_map, List.map_map, List.map_map]
    refine congrArg List.sum ?_
    exact List.map_congr_left fun tl _ => (hf tl).symm
  have hdeals : dealLogs s.history.deals =
      (s.history.deals.map Deal.log).map TradeLogAndTemporaryData.log := List.map_map.symm
  unfold TcState.tradesOf
  rw [hdeals, hcore, hcore, hm.deals, List.map_map]
  rfl

theorem Reconciles.of_deals (hm : Market False s) {log : PositionLog}
    (h : Reconciles kind log (tradesOf (dealLogs s.history.deals) id)) :
    Reconciles kind log (s.tradesOf id) := by
  have hcycles := sumOf_trades hm TradeLog.cycles (fun _ => rfl) id
  refine ⟨h.same_kind, ?_, fun hlt => ?_, fun hlt => ?_⟩
  · rw [sumOf_trades hm _ fun _ => by cases kind <;> rfl]
    exact h.sold
  · rw [sumOf_trades hm _ fun _ => by cases kind <;> rfl]
    exact h.bought (hcycles ▸ hlt)
  · rw [sumOf_trades hm _ fun _ => by cases kind <;> rfl]
    exact h.fees (hcycles ▸ hlt)

structure PositionsReconcile (s : TcState) : Prop where
  cycles : ∀ id p now, s.cm_data.cycles_positions.get id = some p →
    Reconciles .Cycles (p.as_stable_memory_position_log none now) (s.tradesOf id)
  token : ∀ id p now, s.cm_data.token_positions.get id = some p →
    Reconciles .Token (p.as_stable_memory_position_log none now) (s.tradesOf id)
  /-- The log that a position ended with, also when the position is gone. -/
  void : ∀ kind, ∀ vp ∈ s.voids kind,
    vp.log.id = vp.position_id ∧ Reconciles kind vp.log (s.tradesOf vp.position_id)

/-- In every run the log of every position adds up with the trades that name it. -/
theorem position_logs_reconcile (cfg : TcConfig) (s : TcState) (r : TcReachable cfg s) :
    PositionsReconcile s := by
  have hm : Market False s := market_inv r False.elim
  have h := reconciled_inv r
  refine ⟨fun id p _ hg => (h.book.cycles id p hg).of_deals hm,
    fun id p _ hg => (h.book.token id p hg).of_deals hm, fun kind vp hvp => ?_⟩
  exact ⟨(hm.voids kind vp hvp).log_id, (h.voids hm kind vp hvp).of_deals hm⟩

theorem short_run_reconciles : (∀ kind, Sample.final.voids kind ≠ 0) ∧
    (Sample.final.tradesOf 0).length = 1 ∧ PositionsReconcile Sample.final := by
  refine ⟨fun kind hzero => ?_, by decide +kernel, position_logs_reconcile _ _ Sample.final_reachable⟩
  have hcard := congrArg Multiset.card hzero
  revert hcard
  cases kind <;> decide +kernel

end Cts.Tc
