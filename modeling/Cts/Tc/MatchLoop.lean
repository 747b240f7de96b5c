import Cts.Tc.Match

/-!
# What the matching loop does

As long as the ledger fees leave the minimum a word, each trade fills one of its two sides, and a
call that does not stop early leaves no matchee that the matcher still accepts.
-/

namespace Cts.Tc

open Lib CurrentPositionTrait

section

variable {P M : Type} [CurrentPositionTrait P] [CurrentPositionTrait M]

/-- Ten times the fee and ten thousand fit a word. -/
def FeeFits (fee : Nat) : Prop := 10 * fee + 10000 < 2 ^ 128

theorem minimum_match_eq {fee : Nat} (h : FeeFits fee) : minimum_match fee = 10000 + 10 * fee := by
  unfold FeeFits at h
  unfold minimum_match
  rw [Word.mul_of_lt (by omega), Word.add_of_lt (by omega)]
  omega

def Live (p : P) : Prop :=
  rateOf p ≠ 0 ∧ 10000 ≤ (POSITION_KIND P).tokens (current_position_quantity p) (rateOf p)

/-- A position of the book. `L` says that the fees of the run leave the minimum a word. -/
def Sound (L : Prop) (p : P) : Prop := rateOf p ≠ 0 ∧ (L → Live p)

variable [LawfulPosition P] [LawfulPosition M]

theorem live_of_not_filled {env : MatchEnv} (hfee : FeeFits env.token_fee) {p : P}
    (hr : rateOf p ≠ 0) (h : is_filled env p = false) : Live p := by
  refine ⟨hr, ?_⟩
  unfold is_filled at h
  rw [Bool.or_eq_false_iff, decide_eq_false_iff_not] at h
  have htokens := h.1
  rw [LawfulPosition.tokens_eq p _ hr, MatchEnv.minimum_tokens_match, minimum_match_eq hfee] at htokens
  omega

theorem filled_of_no_tokens {env : MatchEnv} (hfee : FeeFits env.token_fee) {p : P}
    (hr : rateOf p ≠ 0)
    (h : (POSITION_KIND P).tokens (current_position_quantity p) (rateOf p) = 0) :
    is_filled env p = true := by
  unfold is_filled
  rw [LawfulPosition.tokens_eq p _ hr, h, MatchEnv.minimum_tokens_match, minimum_match_eq hfee,
    decide_eq_true (by omega)]
  rfl

/-! ## One trade -/

theorem units_le_of_tokens_le {kind : PositionKind} {quantity rate tokens : Nat}
    (h : tokens ≤ kind.tokens quantity rate) : kind.units tokens rate ≤ quantity := by
  cases kind with
  | Cycles =>
    have hdiv : quantity / rate * rate ≤ quantity := Nat.div_mul_le_self quantity rate
    have hmul : tokens * rate ≤ quantity / rate * rate := Nat.mul_le_mul_right rate h
    exact hmul.trans hdiv
  | Token => exact h

theorem tokens_ge_of_accepted {kind : PositionKind} {n quantity own rate : Nat}
    (h : n ≤ kind.tokens quantity own) (hr : rate ≠ 0) (hle : kind = .Cycles → rate ≤ own) :
    n ≤ kind.tokens quantity rate := by
  cases kind with
  | Cycles => exact h.trans (Nat.div_le_div_left (hle rfl) (Nat.pos_of_ne_zero hr))
  | Token => exact h

/-- Trading all the tokens of a position leaves less than one token at its own rate. -/
theorem no_tokens_left {kind : PositionKind} {quantity own rate : Nat} (hr : rate ≠ 0)
    (hle : kind = .Cycles → rate ≤ own) :
    kind.tokens (quantity - kind.units (kind.tokens quantity rate) rate) own = 0 := by
  cases kind with
  | Cycles =>
    have hmod : quantity - quantity / rate * rate = quantity % rate := by
      have := Nat.div_add_mod' quantity rate
      omega
    have hlt : quantity % rate < rate := Nat.mod_lt _ (Nat.pos_of_ne_zero hr)
    change (quantity - quantity / rate * rate) / own = 0
    rw [hmod]
    exact Nat.div_eq_of_lt (hlt.trans_le (hle rfl))
  | Token => exact Nat.sub_self quantity

/-- The rates of the token side and of the cycles side of a trade between `p` and `m`. -/
def sideRates (p : P) (m : M) : Nat × Nat :=
  match POSITION_KIND P with
  | .Cycles => (rateOf m, rateOf p)
  | .Token => (rateOf p, rateOf m)

omit [LawfulPosition P] [LawfulPosition M] in
theorem matcher_rate_ge {p : P} {m : M} {rate : Nat}
    (h : Midpoint (sideRates p m).1 (sideRates p m).2 rate) (hkind : POSITION_KIND P = .Cycles) :
    rate ≤ rateOf p := by
  have := h.le_hi
  rwa [sideRates, hkind] at this

omit [LawfulPosition P] [LawfulPosition M] in
theorem matchee_rate_ge {p : P} {m : M} {rate : Nat}
    (hk : POSITION_KIND M = (POSITION_KIND P).other)
    (h : Midpoint (sideRates p m).1 (sideRates p m).2 rate) (hkind : POSITION_KIND M = .Cycles) :
    rate ≤ rateOf m := by
  have hother : POSITION_KIND P = .Token := by
    rw [hk] at hkind
    cases hP : POSITION_KIND P
    · rw [hP] at hkind; cases hkind
    · rfl
  have := h.le_hi
  rwa [sideRates, hother] at this

/-- What a trade between two positions rests on. -/
structure TradeOk (p : P) (m : M) (rate tokens : Nat) : Prop where
  rate_ne : rate ≠ 0
  midpoint : Midpoint (sideRates p m).1 (sideRates p m).2 rate
  fits : tokens * rate < 2 ^ 128
  matcher_units : (POSITION_KIND P).units tokens rate ≤ current_position_quantity p
  matchee_units : (POSITION_KIND M).units tokens rate ≤ current_position_quantity m
  one_runs_out :
    (POSITION_KIND P).tokens (current_position_quantity p - (POSITION_KIND P).units tokens rate)
      (rateOf p) = 0 ∨
    (POSITION_KIND M).tokens (current_position_quantity m - (POSITION_KIND M).units tokens rate)
      (rateOf m) = 0

theorem trade_ok {p : P} {m : M} {rate : Nat} (hk : POSITION_KIND M = (POSITION_KIND P).other)
    (hp : rateOf p ≠ 0) (hm : rateOf m ≠ 0)
    (h : is_this_position_better_than_or_equal_to_the_match_rate m (rateOf p) = some rate) :
    TradeOk p m rate (min (current_position_tokens p rate) (current_position_tokens m rate)) := by
  have hmid := LawfulPosition.better_some m (rateOf p) rate (LawfulPosition.rate_lt p) h
  have hside : Midpoint (sideRates p m).1 (sideRates p m).2 rate := by
    unfold sideRates
    cases hkind : POSITION_KIND P with
    | Cycles | Token =>
      rw [hk, hkind] at hmid
      exact hmid
  have hrate : rate ≠ 0 := by
    have hlo := hside.lo_le
    unfold sideRates at hlo
    cases hkind : POSITION_KIND P <;> rw [hkind] at hlo <;> simp only at hlo <;> omega
  have hple := matcher_rate_ge hside
  have hmle := matchee_rate_ge hk hside
  rw [LawfulPosition.tokens_eq p rate hrate, LawfulPosition.tokens_eq m rate hrate]
  have hpu := units_le_of_tokens_le (Nat.min_le_left
    ((POSITION_KIND P).tokens (current_position_quantity p) rate)
    ((POSITION_KIND M).tokens (current_position_quantity m) rate))
  have hmu := units_le_of_tokens_le (Nat.min_le_right
    ((POSITION_KIND P).tokens (current_position_quantity p) rate)
    ((POSITION_KIND M).tokens (current_position_quantity m) rate))
  refine ⟨hrate, hside, ?_, hpu, hmu, ?_⟩
  · have hpq := LawfulPosition.quantity_lt p
    have hmq := LawfulPosition.quantity_lt m
    -- The side that counts in cycles bounds the product.
    cases hkind : POSITION_KIND P with
    | Cycles =>
      rw [hkind] at hpu
      exact lt_of_le_of_lt hpu hpq
    | Token =>
      rw [hk, hkind] at hmu
      rw [hk, hkind]
      exact lt_of_le_of_lt hmu hmq
  · rcases le_total ((POSITION_KIND P).tokens (current_position_quantity p) rate)
      ((POSITION_KIND M).tokens (current_position_quantity m) rate) with hle | hle
    · rw [Nat.min_eq_left hle]
      exact Or.inl (no_tokens_left hrate hple)
    · rw [Nat.min_eq_right hle]
      exact Or.inr (no_tokens_left hrate hmle)

theorem tokens_ge_of_trade {p : P} {m : M} {rate : Nat}
    (hk : POSITION_KIND M = (POSITION_KIND P).other) (hp : Live p) (hm : Live m) (hr : rate ≠ 0)
    (hmid : Midpoint (sideRates p m).1 (sideRates p m).2 rate) :
    10000 ≤ min (current_position_tokens p rate) (current_position_tokens m rate) := by
  rw [LawfulPosition.tokens_eq p rate hr, LawfulPosition.tokens_eq m rate hr]
  exact le_min (tokens_ge_of_accepted hp.2 hr (matcher_rate_ge hmid))
    (tokens_ge_of_accepted hm.2 hr (matchee_rate_ge hk hmid))

section MakeTrade

variable {env : MatchEnv} {p : P} {m : M} {rate id : Nat}

omit [LawfulPosition M] in
@[simp]
theorem make_trade_matcher_id : CurrentPositionTrait.id (make_trade env p m rate id).matcher' =
    CurrentPositionTrait.id p := LawfulPosition.subtract_id _ _ _

omit [LawfulPosition P] in
@[simp]
theorem make_trade_matchee_id : CurrentPositionTrait.id (make_trade env p m rate id).matchee' =
    CurrentPositionTrait.id m := LawfulPosition.subtract_id _ _ _

omit [LawfulPosition M] in
@[simp]
theorem make_trade_matcher_rate : rateOf (make_trade env p m rate id).matcher' = rateOf p :=
  LawfulPosition.subtract_rate _ _ _

omit [LawfulPosition P] in
@[simp]
theorem make_trade_matchee_rate : rateOf (make_trade env p m rate id).matchee' = rateOf m :=
  LawfulPosition.subtract_rate _ _ _

/-- Each trade ends at least one of its two positions. -/
theorem make_trade_fills (id : Nat) (hfee : FeeFits env.token_fee)
    (hk : POSITION_KIND M = (POSITION_KIND P).other) (hp : rateOf p ≠ 0) (hm : rateOf m ≠ 0)
    (h : is_this_position_better_than_or_equal_to_the_match_rate m (rateOf p) = some rate) :
    is_filled env (make_trade env p m rate id).matcher' = true ∨
      is_filled env (make_trade env p m rate id).matchee' = true := by
  have hok := trade_ok hk hp hm h
  refine hok.one_runs_out.imp (fun hzero => ?_) (fun hzero => ?_)
  · refine filled_of_no_tokens hfee (by rw [make_trade_matcher_rate]; exact hp) ?_
    rw [make_trade_matcher_rate]
    unfold make_trade
    rw [LawfulPosition.subtract_quantity _ _ _ hok.fits]
    exact hzero
  · refine filled_of_no_tokens hfee (by rw [make_trade_matchee_rate]; exact hm) ?_
    rw [make_trade_matchee_rate]
    unfold make_trade
    rw [LawfulPosition.subtract_quantity _ _ _ hok.fits]
    exact hzero

/-- A trade of the loop: what is known of the matcher `mid` and of the matchee `m` at `key`. -/
structure TradesWith (mid : PositionId) (match_rate : Nat) (key : PositionId) (m : M)
    (t : Trade P M) : Prop where
  matchee : t.matchee = m
  matcher_id : CurrentPositionTrait.id t.matcher = mid
  matchee_id : CurrentPositionTrait.id m = key
  matcher_id' : CurrentPositionTrait.id t.matcher' = mid
  matchee_id' : CurrentPositionTrait.id t.matchee' = key
  matcher_rate : rateOf t.matcher' = match_rate
  matchee_rate : rateOf t.matchee' = rateOf m
  accepts : (POSITION_KIND M).accepts (rateOf m) match_rate
  matcher_log : t.log.log.position_id_matcher = mid
  matchee_log : t.log.log.position_id_matchee = key

theorem make_trade_with {mid key : PositionId} {match_rate : Nat} {log_id : Nat}
    (hid : CurrentPositionTrait.id p = mid) (hkey : CurrentPositionTrait.id m = key)
    (hrate : rateOf p = match_rate)
    (h : is_this_position_better_than_or_equal_to_the_match_rate m match_rate = some rate) :
    TradesWith mid match_rate key m (make_trade env p m rate log_id) := by
  have hmatcher : CurrentPositionTrait.id (make_trade env p m rate log_id).matcher' = mid :=
    make_trade_matcher_id.trans hid
  have hmatchee : CurrentPositionTrait.id (make_trade env p m rate log_id).matchee' = key :=
    make_trade_matchee_id.trans hkey
  refine ⟨rfl, hid, hkey, hmatcher, hmatchee, ?_, make_trade_matchee_rate, ?_, hmatcher, hmatchee⟩
  · rw [make_trade_matcher_rate, hrate]
  · by_contra hnot
    rw [(LawfulPosition.better_none m match_rate).mpr hnot] at h
    cases h

end MakeTrade

/-! ## The loop -/

/-- What a call of `match_trades` does to the book, one trade or one filled position at a time. -/
inductive MatchPath (L : Prop) (env : MatchEnv) (b : MatchBook P M) :
    List (Trade P M) → MatchBook P M → Prop
  | nil : MatchPath L env b [] b
  | trade {ts : List (Trade P M)} {b₁ : MatchBook P M} {mid key : PositionId} {p : P} {m : M}
      {rate : Nat} (h : MatchPath L env b ts b₁) (hp : b₁.matcher_positions.get mid = some p)
      (hm : b₁.matchee_positions.get key = some m) (hlp : Sound L p) (hlm : Sound L m)
      (hb : is_this_position_better_than_or_equal_to_the_match_rate m (rateOf p) = some rate) :
      MatchPath L env b (ts ++ [make_trade env p m rate b₁.trade_logs_id_counter])
        (b₁.record mid key (make_trade env p m rate b₁.trade_logs_id_counter))
  | retire_matcher {ts : List (Trade P M)} {b₁ : MatchBook P M} (h : MatchPath L env b ts b₁)
      (id : PositionId) : MatchPath L env b ts (b₁.retire_matcher env id)
  | retire_matchee {ts : List (Trade P M)} {b₁ : MatchBook P M} (h : MatchPath L env b ts b₁)
      (id : PositionId) : MatchPath L env b ts (b₁.retire_matchee env id)

omit [LawfulPosition P] [LawfulPosition M] in
theorem MatchPath.forall_trades {L : Prop} {env : MatchEnv} {b b' : MatchBook P M}
    {ts : List (Trade P M)} (h : MatchPath L env b ts b') {Q : Trade P M → Prop}
    (hQ : ∀ p m rate id, Sound L p → Sound L m →
      is_this_position_better_than_or_equal_to_the_match_rate m (rateOf p) = some rate →
      Q (make_trade env p m rate id)) : ∀ t ∈ ts, Q t := by
  induction h with
  | nil => exact fun t ht => absurd ht List.not_mem_nil
  | trade _ _ _ hlp hlm hbetter ih =>
    exact List.forall_mem_append.mpr ⟨ih, List.forall_mem_singleton.mpr (hQ _ _ _ _ hlp hlm hbetter)⟩
  | retire_matcher _ _ ih => exact ih
  | retire_matchee _ _ ih => exact ih

/-- Where the loop stands: the matcher that it works for, and which matchees may be filled. -/
structure LoopInv (L : Prop) (b₀ : MatchBook P M) (env : MatchEnv) (mid : PositionId) (match_rate : Nat)
    (matcher : P) (s : MatchState P M) : Prop where
  path : MatchPath L env b₀ s.trades s.book
  matcher_get : s.book.matcher_positions.get mid = some matcher
  matcher_id : CurrentPositionTrait.id matcher = mid
  matcher_sound : Sound L matcher
  matcher_rate : rateOf matcher = match_rate
  others : ∀ k, k ≠ mid → s.book.matcher_positions.get k = b₀.matcher_positions.get k
  keyed : ∀ k m, s.book.matchee_positions.get k = some m → CurrentPositionTrait.id m = k
  sound : ∀ k m, s.book.matchee_positions.get k = some m →
    rateOf m ≠ 0 ∧ (L → Live m ∨ k ∈ s.remove_matchee_positions_fill)
  listed : ∀ k ∈ s.remove_matchee_positions_fill, ∃ m, s.book.matchee_positions.get k = some m
  filled : L → ∀ t ∈ s.trades,
    CurrentPositionTrait.id t.matchee ∈ s.remove_matchee_positions_fill

/-- A void position that ended as a fill. -/
def EndedAsFill (voids : OrdMap PositionId VoidPosition) (id : PositionId) : Prop :=
  ∃ vp, voids.get id = some vp ∧
    ∃ now, vp.update_storage_position_data.update_storage_position_log.position_termination =
      some ⟨now, .Fill⟩

/-- How the loop ends. -/
structure LoopEnd (L : Prop) (b₀ : MatchBook P M) (env : MatchEnv) (mid : PositionId) (match_rate : Nat)
    (rest : List (PositionId × M)) (s : MatchState P M) (exit : MatchExit) : Prop where
  path : MatchPath L env b₀ s.trades s.book
  others : ∀ k, k ≠ mid → s.book.matcher_positions.get k = b₀.matcher_positions.get k
  matcher : if exit = .filled then s.book.matcher_positions.get mid = none
    else ∃ p, s.book.matcher_positions.get mid = some p ∧ Sound L p ∧ rateOf p = match_rate
  sound : ∀ k m, s.book.matchee_positions.get k = some m →
    rateOf m ≠ 0 ∧ (L → Live m ∨ k ∈ s.remove_matchee_positions_fill)
  served : L → exit = .exhausted → ∀ e ∈ rest,
    (POSITION_KIND M).accepts (rateOf e.2) match_rate → e.1 ∈ s.remove_matchee_positions_fill
  keyed : ∀ k m, s.book.matchee_positions.get k = some m → CurrentPositionTrait.id m = k
  listed : ∀ k ∈ s.remove_matchee_positions_fill, ∃ m, s.book.matchee_positions.get k = some m
  filled : L → ∀ t ∈ s.trades,
    CurrentPositionTrait.id t.matchee ∈ s.remove_matchee_positions_fill ∨
      EndedAsFill s.book.matcher_void_positions (CurrentPositionTrait.id t.matcher)

variable {L : Prop} {env : MatchEnv} {b₀ : MatchBook P M} {mid : PositionId} {match_rate : Nat} {matcher : P}
  {s : MatchState P M}

omit [LawfulPosition P] [LawfulPosition M] in
theorem LoopInv.end_of (hinv : LoopInv L b₀ env mid match_rate matcher s)
    {rest : List (PositionId × M)} {exit : MatchExit} (hexit : exit ≠ .filled)
    (hserved : L → exit = .exhausted → ∀ e ∈ rest,
      (POSITION_KIND M).accepts (rateOf e.2) match_rate → e.1 ∈ s.remove_matchee_positions_fill) :
    LoopEnd L b₀ env mid match_rate rest s exit :=
  ⟨hinv.path, hinv.others,
    by rw [if_neg hexit]; exact ⟨_, hinv.matcher_get, hinv.matcher_sound, hinv.matcher_rate⟩,
    hinv.sound, hserved, hinv.keyed, hinv.listed, fun hL t ht => Or.inl (hinv.filled hL t ht)⟩

omit [CurrentPositionTrait P] [LawfulPosition P] in
theorem after_sound (hfee : L → FeeFits env.token_fee) {t : Trade P M} {key : PositionId}
    (hsound : ∀ k m, s.book.matchee_positions.get k = some m →
      rateOf m ≠ 0 ∧ (L → Live m ∨ k ∈ s.remove_matchee_positions_fill))
    (hid : CurrentPositionTrait.id t.matchee' = key) (hr : rateOf t.matchee' ≠ 0) (k : PositionId)
    (m : M) (hg : (s.after env mid key t).book.matchee_positions.get k = some m) :
    rateOf m ≠ 0 ∧ (L → Live m ∨ k ∈ (s.after env mid key t).remove_matchee_positions_fill) := by
  simp only [MatchState.after, MatchBook.record, OrdMap.get_insert] at hg ⊢
  split_ifs at hg with hkey
  · obtain rfl := Option.some.inj hg
    refine ⟨hr, fun hL => ?_⟩
    cases hf : is_filled env t.matchee' with
    | true => right; simp [hid, hkey]
    | false => exact Or.inl (live_of_not_filled (hfee hL) hr hf)
  · refine (hsound k m hg).imp_right fun hlive hL => (hlive hL).imp_right fun hmem => ?_
    split_ifs
    · exact List.mem_append_left _ hmem
    · exact hmem

omit [CurrentPositionTrait P] [LawfulPosition P] [LawfulPosition M] in
theorem after_keyed {t : Trade P M} {key : PositionId}
    (hkeyed : ∀ k m, s.book.matchee_positions.get k = some m → CurrentPositionTrait.id m = k)
    (hid : CurrentPositionTrait.id t.matchee' = key) (k : PositionId) (m : M)
    (hg : (s.after env mid key t).book.matchee_positions.get k = some m) :
    CurrentPositionTrait.id m = k := by
  simp only [MatchState.after, MatchBook.record, OrdMap.get_insert] at hg
  split_ifs at hg with hkey
  · obtain rfl := Option.some.inj hg
    rw [hid, hkey]
  · exact hkeyed k m hg

omit [CurrentPositionTrait P] [LawfulPosition P] [LawfulPosition M] in
theorem after_removed_subset (t : Trade P M) (mid key : PositionId) :
    s.remove_matchee_positions_fill ⊆ (s.after env mid key t).remove_matchee_positions_fill := by
  intro k hk
  simp only [MatchState.after]
  split_ifs
  · exact List.mem_append_left _ hk
  · exact hk

omit [CurrentPositionTrait P] [LawfulPosition P] [LawfulPosition M] in
theorem after_listed {t : Trade P M} {key : PositionId}
    (hlisted : ∀ k ∈ s.remove_matchee_positions_fill, ∃ m, s.book.matchee_positions.get k = some m)
    (hid : CurrentPositionTrait.id t.matchee' = key) (k : PositionId)
    (hk : k ∈ (s.after env mid key t).remove_matchee_positions_fill) :
    ∃ m, (s.after env mid key t).book.matchee_positions.get k = some m := by
  simp only [MatchState.after, MatchBook.record, OrdMap.get_insert] at hk ⊢
  by_cases hkey : k = key
  · exact ⟨t.matchee', if_pos hkey⟩
  · rw [if_neg hkey]
    split_ifs at hk
    · rcases List.mem_append.mp hk with hk | hk
      · exact hlisted k hk
      · exact absurd ((List.mem_singleton.mp hk).trans hid) hkey
    · exact hlisted k hk

omit [CurrentPositionTrait M] [LawfulPosition P] [LawfulPosition M] in
theorem retire_matcher_matchees (env : MatchEnv) (b : MatchBook P M) (id : PositionId) :
    (b.retire_matcher env id).matchee_positions = b.matchee_positions := by
  unfold MatchBook.retire_matcher
  cases b.matcher_positions.get id <;> rfl

omit [CurrentPositionTrait M] [LawfulPosition P] [LawfulPosition M] in
theorem retire_matcher_get (env : MatchEnv) (b : MatchBook P M) (id k : PositionId) :
    (b.retire_matcher env id).matcher_positions.get k =
      if k = id then none else b.matcher_positions.get k := by
  unfold MatchBook.retire_matcher
  cases hg : b.matcher_positions.get id with
  | none =>
    split_ifs with hk
    · rw [hk]
      exact hg
    · rfl
  | some p => exact OrdMap.get_remove _ _ _

omit [CurrentPositionTrait M] [LawfulPosition M] in
theorem retire_matcher_ended {b : MatchBook P M} {p : P} (hg : b.matcher_positions.get mid = some p)
    (hid : CurrentPositionTrait.id p = mid) :
    EndedAsFill (b.retire_matcher env mid).matcher_void_positions mid := by
  unfold MatchBook.retire_matcher
  simp only [hg, hid]
  refine ⟨_, OrdMap.get_insert_self _ _ _, env.now, ?_⟩
  rw [LawfulPosition.void_eq]
  exact (LawfulPosition.log_eq _ _ _).2.2

omit [LawfulPosition P] [LawfulPosition M] in
theorem LoopEnd.cons {e : PositionId × M} {rest : List (PositionId × M)} {exit : MatchExit}
    (h : LoopEnd L b₀ env mid match_rate rest s exit)
    (he : L → (POSITION_KIND M).accepts (rateOf e.2) match_rate → e.1 ∈ s.remove_matchee_positions_fill) :
    LoopEnd L b₀ env mid match_rate (e :: rest) s exit := by
  refine ⟨h.path, h.others, h.matcher, h.sound, fun hL hx e' he' hacc => ?_, h.keyed, h.listed,
    h.filled⟩
  rcases List.mem_cons.mp he' with rfl | he'
  · exact he hL hacc
  · exact h.served hL hx e' he' hacc

section Trade

variable {key : PositionId} {m : M} {t : Trade P M}
  (hinv : LoopInv L b₀ env mid match_rate matcher s) (ht : TradesWith mid match_rate key m t)
  (hpath : MatchPath L env b₀ (s.trades ++ [t]) (s.book.record mid key t)) (hm : rateOf m ≠ 0)

include hinv

omit [LawfulPosition P] [LawfulPosition M] in
theorem LoopInv.others_after (k : PositionId) (hne : k ≠ mid) :
    (s.after env mid key t).book.matcher_positions.get k = b₀.matcher_positions.get k :=
  (OrdMap.get_insert_of_ne _ _ hne).trans (hinv.others k hne)

omit [LawfulPosition P] [LawfulPosition M] in
/-- The matchees that traded are listed, but for the last one. -/
theorem LoopInv.filled_after (hL : L) (u : Trade P M) (hu : u ∈ (s.after env mid key t).trades) :
    CurrentPositionTrait.id u.matchee ∈ (s.after env mid key t).remove_matchee_positions_fill ∨
      u = t := by
  rcases List.mem_append.mp hu with hu | hu
  · exact Or.inl (after_removed_subset t mid key (hinv.filled hL u hu))
  · exact Or.inr (List.mem_singleton.mp hu)

include ht hpath hm

theorem LoopInv.trade (hfee : L → FeeFits env.token_fee) (hnot : is_filled env t.matcher' = false)
    (hlisted : L → key ∈ (s.after env mid key t).remove_matchee_positions_fill) :
    LoopInv L b₀ env mid match_rate t.matcher' (s.after env mid key t) := by
  have hrate : rateOf t.matcher' ≠ 0 := by
    rw [ht.matcher_rate, ← hinv.matcher_rate]
    exact hinv.matcher_sound.1
  have hrate' : rateOf t.matchee' ≠ 0 := by
    rw [ht.matchee_rate]
    exact hm
  refine ⟨hpath, OrdMap.get_insert_self _ _ _, ht.matcher_id',
    ⟨hrate, fun hL => live_of_not_filled (hfee hL) hrate hnot⟩, ht.matcher_rate, hinv.others_after,
    after_keyed hinv.keyed ht.matchee_id', after_sound hfee hinv.sound ht.matchee_id' hrate',
    after_listed hinv.listed ht.matchee_id', fun hL u hu => ?_⟩
  rcases hinv.filled_after hL u hu with hu | rfl
  · exact hu
  · rw [ht.matchee, ht.matchee_id]
    exact hlisted hL

theorem LoopInv.fill (hfee : L → FeeFits env.token_fee) (rest : List (PositionId × M)) :
    LoopEnd L b₀ env mid match_rate rest
      { s.after env mid key t with book := (s.after env mid key t).book.retire_matcher env mid }
      .filled := by
  have hrate' : rateOf t.matchee' ≠ 0 := by
    rw [ht.matchee_rate]
    exact hm
  have hget : (s.after env mid key t).book.matcher_positions.get mid = some t.matcher' :=
    OrdMap.get_insert_self _ _ _
  refine ⟨.retire_matcher hpath mid, fun k hne => ?_, ?_, fun k m' hg => ?_, by simp,
    fun k m' hg => ?_, fun k hk => ?_, fun hL u hu => ?_⟩
  · rw [retire_matcher_get, if_neg hne]
    exact hinv.others_after k hne
  · rw [if_pos rfl, retire_matcher_get, if_pos rfl]
  · rw [retire_matcher_matchees] at hg
    exact after_sound hfee hinv.sound ht.matchee_id' hrate' k m' hg
  · rw [retire_matcher_matchees] at hg
    exact after_keyed hinv.keyed ht.matchee_id' k m' hg
  · rw [retire_matcher_matchees]
    exact after_listed hinv.listed ht.matchee_id' k hk
  · have hu : u ∈ (s.after env mid key t).trades := hu
    rcases hinv.filled_after hL u hu with hu | rfl
    · exact Or.inl hu
    · right
      rw [ht.matcher_id]
      exact retire_matcher_ended hget ht.matcher_id'

end Trade

theorem match_loop_end (hfee : L → FeeFits env.token_fee)
    (hk : POSITION_KIND M = (POSITION_KIND P).other) (rest : List (PositionId × M))
    (hnodup : (rest.map Prod.fst).Nodup) (hinv : LoopInv L b₀ env mid match_rate matcher s)
    (hrest : ∀ e ∈ rest, s.book.matchee_positions.get e.1 = some e.2 ∧ Sound L e.2) :
    LoopEnd L b₀ env mid match_rate rest
      (match_loop env mid match_rate rest matcher s).1
      (match_loop env mid match_rate rest matcher s).2 ∧
    s.remove_matchee_positions_fill ⊆
      (match_loop env mid match_rate rest matcher s).1.remove_matchee_positions_fill := by
  induction rest generalizing matcher s with
  | nil =>
    show LoopEnd L b₀ env mid match_rate [] s .exhausted ∧ _
    exact ⟨hinv.end_of (by simp) (by simp), List.Subset.refl _⟩
  | cons e rest ih =>
    obtain ⟨key, m⟩ := e
    rw [List.map_cons, List.nodup_cons] at hnodup
    obtain ⟨hget, hsound⟩ := hrest (key, m) List.mem_cons_self
    rw [match_loop]
    split
    · -- This matchee does not accept the rate.
      rename_i hnone
      obtain ⟨hend, hsub⟩ := ih hnodup.2 hinv fun e he => hrest e (List.mem_cons_of_mem _ he)
      refine ⟨hend.cons fun _ hacc => ?_, hsub⟩
      exact absurd hacc ((LawfulPosition.better_none m match_rate).mp hnone)
    · rename_i rate hsome
      split
      · exact ⟨hinv.end_of (by simp) (by simp), List.Subset.refl _⟩
      split
      · exact ⟨hinv.end_of (by simp) (by simp), List.Subset.refl _⟩
      have hb : is_this_position_better_than_or_equal_to_the_match_rate m (rateOf matcher) =
          some rate := by rw [hinv.matcher_rate]; exact hsome
      have hfills := fun hL => make_trade_fills s.book.trade_logs_id_counter (hfee hL) hk
        hinv.matcher_sound.1 hsound.1 hb
      have hpath := MatchPath.trade hinv.path hinv.matcher_get hget hinv.matcher_sound hsound hb
      have hwith : TradesWith mid match_rate key m
          (make_trade env matcher m rate s.book.trade_logs_id_counter) :=
        make_trade_with hinv.matcher_id (hinv.keyed key m hget) hinv.matcher_rate hsome
      generalize make_trade env matcher m rate s.book.trade_logs_id_counter = t at *
      simp only
      split
      · exact ⟨hinv.fill hwith hpath hsound.1 hfee _, after_removed_subset t mid key⟩
      · rename_i hnot
        -- The matcher goes on, so this matchee is the one that is filled.
        have hlisted : L → key ∈ (s.after env mid key t).remove_matchee_positions_fill := by
          intro hL
          simp [MatchState.after, (hfills hL).resolve_left hnot, hwith.matchee_id']
        have hinv' := hinv.trade hwith hpath hsound.1 hfee (by simpa using hnot) hlisted
        obtain ⟨hend, hsub⟩ := ih hnodup.2 hinv' fun e he => by
          have hne : e.1 ≠ key := fun heq =>
            hnodup.1 (show key ∈ rest.map Prod.fst by rw [← heq]; exact List.mem_map_of_mem he)
          refine ⟨?_, (hrest e (List.mem_cons_of_mem _ he)).2⟩
          exact (OrdMap.get_insert_of_ne _ _ hne).trans (hrest e (List.mem_cons_of_mem _ he)).1
        exact ⟨hend.cons fun hL _ => hsub (hlisted hL),
          fun k hmem => hsub (after_removed_subset t mid key hmem)⟩

/-! ## A whole call -/

section

omit [CurrentPositionTrait P] [LawfulPosition P] [LawfulPosition M]

theorem retire_matchee_matchers (env : MatchEnv) (b : MatchBook P M) (id : PositionId) :
    (b.retire_matchee env id).matcher_positions = b.matcher_positions ∧
      (b.retire_matchee env id).matcher_void_positions = b.matcher_void_positions := by
  unfold MatchBook.retire_matchee
  cases b.matchee_positions.get id <;> exact ⟨rfl, rfl⟩

theorem retire_matchee_get (env : MatchEnv) (b : MatchBook P M) (id k : PositionId) :
    (b.retire_matchee env id).matchee_positions.get k =
      if k = id then none else b.matchee_positions.get k := by
  unfold MatchBook.retire_matchee
  cases hg : b.matchee_positions.get id with
  | none =>
    split_ifs with hk
    · rw [hk]
      exact hg
    · rfl
  | some p => exact OrdMap.get_remove _ _ _

/-- The filled matchees leave the book, and nothing else does. -/
theorem retire_matchees (env : MatchEnv) (ids : List PositionId) (b : MatchBook P M) :
    (ids.foldl (MatchBook.retire_matchee env) b).matcher_positions = b.matcher_positions ∧
      ∀ k m, (ids.foldl (MatchBook.retire_matchee env) b).matchee_positions.get k = some m →
        b.matchee_positions.get k = some m ∧ k ∉ ids := by
  induction ids generalizing b with
  | nil => exact ⟨rfl, fun k m h => ⟨h, by simp⟩⟩
  | cons id ids ih =>
    obtain ⟨ih1, ih2⟩ := ih (b.retire_matchee env id)
    refine ⟨ih1.trans (retire_matchee_matchers env b id).1, fun k m h => ?_⟩
    obtain ⟨h1, h2⟩ := ih2 k m h
    rw [retire_matchee_get] at h1
    split_ifs at h1 with hk
    exact ⟨h1, by simp [h2, hk]⟩

theorem retire_matchees_matcher_voids (env : MatchEnv) (ids : List PositionId) (b : MatchBook P M) :
    (ids.foldl (MatchBook.retire_matchee env) b).matcher_void_positions = b.matcher_void_positions := by
  induction ids generalizing b with
  | nil => rfl
  | cons id ids ih => exact (ih _).trans (retire_matchee_matchers env b id).2

end

omit [LawfulPosition P] [LawfulPosition M] in
theorem retire_matchees_path {ts : List (Trade P M)} {b b₁ : MatchBook P M}
    (h : MatchPath L env b ts b₁) (ids : List PositionId) :
    MatchPath L env b ts (ids.foldl (MatchBook.retire_matchee env) b₁) := by
  induction ids generalizing b₁ with
  | nil => exact h
  | cons id ids ih => exact ih (.retire_matchee h id)

section

omit [CurrentPositionTrait P] [LawfulPosition P]

theorem retire_matchee_ended {env : MatchEnv} {b : MatchBook P M} {id : PositionId}
    (hkeyed : ∀ k m, b.matchee_positions.get k = some m → CurrentPositionTrait.id m = k)
    (hid : (∃ m, b.matchee_positions.get id = some m) ∨ EndedAsFill b.matchee_void_positions id)
    (k : PositionId) (hk : k = id ∨ EndedAsFill b.matchee_void_positions k) :
    EndedAsFill (b.retire_matchee env id).matchee_void_positions k := by
  unfold MatchBook.retire_matchee
  cases hg : b.matchee_positions.get id with
  | none =>
    rcases hk with rfl | hk
    · exact hid.resolve_left (by rintro ⟨m, hm⟩; rw [hg] at hm; cases hm)
    · exact hk
  | some p =>
    have hp := hkeyed id p hg
    simp only [hp]
    by_cases hkid : k = id
    · subst hkid
      refine ⟨_, OrdMap.get_insert_self _ _ _, env.now, ?_⟩
      rw [LawfulPosition.void_eq]
      exact (LawfulPosition.log_eq _ _ _).2.2
    · obtain ⟨vp, hvp, hfill⟩ := hk.resolve_left hkid
      refine ⟨vp, ?_, hfill⟩
      rw [OrdMap.get_insert_of_ne _ _ hkid]
      exact hvp

theorem retire_matchees_void (env : MatchEnv) (ids : List PositionId) (b : MatchBook P M)
    (hkeyed : ∀ k m, b.matchee_positions.get k = some m → CurrentPositionTrait.id m = k)
    (hlisted : ∀ k ∈ ids, (∃ m, b.matchee_positions.get k = some m) ∨
      EndedAsFill b.matchee_void_positions k) (k : PositionId)
    (hk : k ∈ ids ∨ EndedAsFill b.matchee_void_positions k) :
    EndedAsFill (ids.foldl (MatchBook.retire_matchee env) b).matchee_void_positions k := by
  induction ids generalizing b with
  | nil => exact hk.resolve_left (by simp)
  | cons id ids ih =>
    have hvoid : ∀ k, k = id ∨ EndedAsFill b.matchee_void_positions k →
        EndedAsFill (b.retire_matchee env id).matchee_void_positions k :=
      retire_matchee_ended hkeyed (hlisted id List.mem_cons_self)
    refine ih (b.retire_matchee env id) (fun k m h => ?_) (fun k hk => ?_) ?_
    · rw [retire_matchee_get] at h
      split_ifs at h
      exact hkeyed k m h
    · by_cases hkid : k = id
      · exact Or.inr (hvoid k (Or.inl hkid))
      · rw [retire_matchee_get, if_neg hkid]
        exact (hlisted k (List.mem_cons_of_mem _ hk)).imp_right fun he => hvoid k (Or.inr he)
    · rcases hk with hk | hk
      · rcases List.mem_cons.mp hk with rfl | hk
        · exact Or.inr (hvoid k (Or.inl rfl))
        · exact Or.inl hk
      · exact Or.inr (hvoid k (Or.inr hk))

end

structure MatchEnd (L : Prop) (env : MatchEnv) (mid : PositionId) (matcher : P) (b : MatchBook P M)
    (r : MatchResult P M) : Prop where
  path : MatchPath L env b r.trades r.book
  others : ∀ k, k ≠ mid → r.book.matcher_positions.get k = b.matcher_positions.get k
  left : ∀ p, r.book.matcher_positions.get mid = some p →
    Sound L p ∧ rateOf p = rateOf matcher ∧ r.exit ≠ .filled
  sound : ∀ k m, r.book.matchee_positions.get k = some m → Sound L m
  served : L → r.exit = .exhausted → ∀ k m, b.matchee_positions.get k = some m →
    (POSITION_KIND M).accepts (rateOf m) (rateOf matcher) → r.book.matchee_positions.get k = none
  filled : L → ∀ t ∈ r.trades,
    EndedAsFill r.book.matchee_void_positions (CurrentPositionTrait.id t.matchee) ∨
      EndedAsFill r.book.matcher_void_positions (CurrentPositionTrait.id t.matcher)

theorem match_trades_end (hfee : L → FeeFits env.token_fee)
    (hk : POSITION_KIND M = (POSITION_KIND P).other) {b : MatchBook P M}
    (hget : b.matcher_positions.get mid = some matcher)
    (hid : CurrentPositionTrait.id matcher = mid) (hsound : Sound L matcher)
    (hmatchees : ∀ k m, b.matchee_positions.get k = some m →
      CurrentPositionTrait.id m = k ∧ Sound L m) :
    MatchEnd L env mid matcher b (match_trades env mid b) := by
  have hinv : LoopInv L b env mid (rateOf matcher) matcher ⟨b, [], []⟩ :=
    ⟨.nil, hget, hid, hsound, rfl, fun _ _ => rfl, fun k m h => (hmatchees k m h).1,
      fun k m h => ⟨(hmatchees k m h).2.1, fun hL => Or.inl ((hmatchees k m h).2.2 hL)⟩,
      by simp, by simp⟩
  have hrest : ∀ e ∈ b.matchee_positions.entries,
      b.matchee_positions.get e.1 = some e.2 ∧ Sound L e.2 := by
    intro e he
    have hg := (OrdMap.mem_iff_get _ e.1 e.2).mp he
    exact ⟨hg, (hmatchees _ _ hg).2⟩
  obtain ⟨hend, -⟩ := match_loop_end hfee hk _ b.matchee_positions.nodup_keys hinv hrest
  unfold match_trades
  rw [hget]
  simp only
  generalize match_loop env mid (rateOf matcher) b.matchee_positions.entries matcher
    ⟨b, [], []⟩ = r at hend
  obtain ⟨s, exit⟩ := r
  obtain ⟨hsame, hgone⟩ := retire_matchees env s.remove_matchee_positions_fill s.book
  simp only at hend
  have hsamevoid := retire_matchees_matcher_voids env s.remove_matchee_positions_fill s.book
  have hvoid := retire_matchees_void env s.remove_matchee_positions_fill s.book hend.keyed
    (fun k hk => Or.inl (hend.listed k hk))
  refine ⟨retire_matchees_path hend.path _, fun k hne => ?_, fun p hp => ?_, fun k m h => ?_,
    fun hL hx k m hg hacc => ?_, fun hL t ht => ?_⟩
  · simp only [hsame]
    exact hend.others k hne
  · simp only [hsame] at hp
    have hm := hend.matcher
    split_ifs at hm with hx
    · rw [hm] at hp
      cases hp
    · obtain ⟨p', hp', hl, hr⟩ := hm
      rw [hp'] at hp
      obtain rfl := Option.some.inj hp
      exact ⟨hl, hr, hx⟩
  · obtain ⟨h1, h2⟩ := hgone k m h
    exact (hend.sound k m h1).imp_right fun hlive hL => (hlive hL).resolve_right h2
  · have hmem := hend.served hL hx (k, m) ((OrdMap.mem_iff_get _ k m).mpr hg) hacc
    refine Option.eq_none_iff_forall_ne_some.mpr fun m' hm' => ?_
    exact (hgone k m' hm').2 hmem
  · refine (hend.filled hL t ht).imp (fun hmem => hvoid _ (Or.inl hmem)) (fun he => ?_)
    simp only [hsamevoid]
    exact he

end

end Cts.Tc
