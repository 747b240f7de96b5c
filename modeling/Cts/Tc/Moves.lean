import Cts.Tc.Market

/-!
# What a step is to the market

A trade is committed, a position becomes void, a run of payouts works on what is void or traded, or
nothing happens to the market. The invariants of the positions go by these four cases.
-/

namespace Cts.Tc

open Lib Lib.Jobs CurrentPositionTrait

variable {cfg : TcConfig} {s s' : TcState} {kind : PositionKind}

inductive MarketMove (cfg : TcConfig) (s s' : TcState) : Prop
  | commits {pre post : List UserCall} {c : UserCall} {q : TradeQuest} (now : Nat)
      (instruction_counter : PositionId → Nat) (hcalls : s.calls = pre ++ c :: post)
      (hq : c.quest = .trade q)
      (hs' : s' = { s.commit (s.match_env cfg now instruction_counter) c.caller q with
        calls := pre ++ post })
  | voids {caller : Principal} {position_id : PositionId} {now : Nat} {b : Book}
      (h : void_position_ s.cm_data.toBook caller position_id now = .ok b)
      (hs' : s' = { s with cm_data := { s.cm_data with toBook := b } })
  | pays (h : PayoutFrame s s')
      (hremoved : ∀ kind, ∃ vps, s'.history.removed kind = s.history.removed kind ++ vps)
      (hmoved : ∃ tls, s'.history.moved = s.history.moved ++ tls)
  | stays (h : Quiet s s')

theorem market_move (hm : Market False s) (hstep : TcStep cfg s s') : MarketMove cfg s s' := by
  have hquiet := @MarketMove.stays cfg s s'
  cases hstep with
  | trade h =>
    obtain ⟨rfl, -⟩ := _trade_spec h
    exact hquiet ⟨rfl, rfl, rfl, rfl, rfl, rfl⟩
  | transfer_balance h =>
    obtain ⟨rfl, -⟩ := _transfer_balance_spec h
    exact hquiet ⟨rfl, rfl, rfl, rfl, rfl, rfl⟩
  | trade_committed now instruction_counter hc hr hq he => exact .commits now _ hc hq rfl
  | void_position h => exact .voids h rfl
  | do_payouts_replied trades_env positions_env hcalls =>
    exact .pays (moved_frame hm.book trades_env positions_env _)
      (fun _ => ⟨[], (List.append_nil _).symm⟩) ⟨_, rfl⟩
  | payouts_started h =>
    exact .pays (started_frame hm.book h) (fun _ => ⟨[], (List.append_nil _).symm⟩)
      ⟨[], (List.append_nil _).symm⟩
  | payouts_ended hr hf =>
    exact .pays (ended_frame hm _ _) (fun _ => ⟨_, rfl⟩) ⟨[], (List.append_nil _).symm⟩
  | _ => exact hquiet ⟨rfl, rfl, rfl, rfl, rfl, rfl⟩

/-! ## Matching takes positions away as filled -/

section

variable {P M : Type} [CurrentPositionTrait P] [CurrentPositionTrait M]

/-- A void position that an order became when it was filled. -/
structure FilledVoid (now : Nat) (owner : Principal) (vp : VoidPosition) : Prop where
  positor : vp.positor = owner
  cause : vp.log.position_termination = some ⟨now, .Fill⟩

/-- Each position is still there, or it is filled. -/
def StaysOrFilled (now : Nat) (m m' : OrdMap PositionId P) (voids : OrdMap PositionId VoidPosition) :
    Prop :=
  ∀ id p, m.get id = some p → (∃ p', m'.get id = some p' ∧ positor p' = positor p) ∨
    m'.get id = none ∧ ∃ vp, voids.get id = some vp ∧ FilledVoid now (positor p) vp

variable {now : Nat} {m m' : OrdMap PositionId P} {voids : OrdMap PositionId VoidPosition}

theorem StaysOrFilled.refl (now : Nat) (m : OrdMap PositionId P)
    (voids : OrdMap PositionId VoidPosition) : StaysOrFilled now m m voids :=
  fun _ p hg => Or.inl ⟨p, hg, rfl⟩

theorem StaysOrFilled.insert (h : StaysOrFilled now m m' voids) {key : PositionId} {p p' : P}
    (hp : m'.get key = some p) (hpos : positor p' = positor p) :
    StaysOrFilled now m (m'.insert key p') voids := by
  intro id p₀ hg
  by_cases hid : id = key
  · subst hid
    rcases h id p₀ hg with ⟨p₁, hp₁, hpos₁⟩ | ⟨hnone, -⟩
    · obtain rfl := Option.some.inj (hp.symm.trans hp₁)
      exact Or.inl ⟨p', OrdMap.get_insert_self _ _ _, hpos.trans hpos₁⟩
    · cases hp.symm.trans hnone
  · rw [OrdMap.get_insert_of_ne _ _ hid]
    exact h id p₀ hg

theorem StaysOrFilled.retire [LawfulPosition P] (h : StaysOrFilled now m m' voids) {key : PositionId}
    {p : P} (hp : m'.get key = some p) :
    StaysOrFilled now m (m'.remove key) (voids.insert key (into_void_position_type p .Fill now)) := by
  intro id p₀ hg
  by_cases hid : id = key
  · subst hid
    rcases h id p₀ hg with ⟨p₁, hp₁, hpos₁⟩ | ⟨hnone, -⟩
    · obtain rfl := Option.some.inj (hp.symm.trans hp₁)
      refine Or.inr ⟨OrdMap.get_remove_self _ _, _, OrdMap.get_insert_self _ _ _, ?_, ?_⟩
      · rw [LawfulPosition.void_eq]
        exact hpos₁
      · rw [LawfulPosition.void_eq]
        exact (LawfulPosition.log_eq p (some .Fill) now).2.2
    · cases hp.symm.trans hnone
  · rw [OrdMap.get_remove_of_ne _ hid, OrdMap.get_insert_of_ne _ _ hid]
    exact h id p₀ hg

/-- What a matching does to the two maps of current positions. -/
structure MatchKeeps (env : MatchEnv) (b b' : MatchBook P M) : Prop where
  matcher_keyed : ∀ k p, b'.matcher_positions.get k = some p → CurrentPositionTrait.id p = k
  matchee_keyed : ∀ k m, b'.matchee_positions.get k = some m → CurrentPositionTrait.id m = k
  matcher : StaysOrFilled env.now b.matcher_positions b'.matcher_positions b'.matcher_void_positions
  matchee : StaysOrFilled env.now b.matchee_positions b'.matchee_positions b'.matchee_void_positions

theorem match_path_keeps [LawfulPosition P] [LawfulPosition M] {L : Prop} {env : MatchEnv}
    {b b' : MatchBook P M} {ts : List (Trade P M)} (h : MatchPath L env b ts b')
    (hp : ∀ k p, b.matcher_positions.get k = some p → CurrentPositionTrait.id p = k)
    (hm : ∀ k m, b.matchee_positions.get k = some m → CurrentPositionTrait.id m = k) :
    MatchKeeps env b b' := by
  induction h with
  | nil => exact ⟨hp, hm, .refl _ _ _, .refl _ _ _⟩
  | @trade ts b₁ mid key p m rate _ hgp hgm _ _ _ ih =>
    refine ⟨OrdMap.forall_insert ih.matcher_keyed ?_, OrdMap.forall_insert ih.matchee_keyed ?_,
      ih.matcher.insert hgp ?_, ih.matchee.insert hgm ?_⟩
    · exact make_trade_matcher_id.trans (ih.matcher_keyed mid p hgp)
    · exact make_trade_matchee_id.trans (ih.matchee_keyed key m hgm)
    · exact LawfulPosition.subtract_positor p _ _
    · exact LawfulPosition.subtract_positor m _ _
  | @retire_matcher ts b₁ _ id ih =>
    unfold MatchBook.retire_matcher
    cases hg : b₁.matcher_positions.get id with
    | none => exact ih
    | some p =>
      obtain rfl := ih.matcher_keyed id p hg
      exact ⟨OrdMap.forall_remove ih.matcher_keyed, ih.matchee_keyed, ih.matcher.retire hg, ih.matchee⟩
  | @retire_matchee ts b₁ _ id ih =>
    unfold MatchBook.retire_matchee
    cases hg : b₁.matchee_positions.get id with
    | none => exact ih
    | some m =>
      obtain rfl := ih.matchee_keyed id m hg
      exact ⟨ih.matcher_keyed, OrdMap.forall_remove ih.matchee_keyed, ih.matcher, ih.matchee.retire hg⟩

end

/-- Nothing leaves the current positions of the book but what is filled. -/
structure BookFills (now : Nat) (b b' : Book) : Prop where
  cycles : StaysOrFilled now b.cycles_positions b'.cycles_positions b'.void_cycles_positions
  token : StaysOrFilled now b.token_positions b'.token_positions b'.void_token_positions

/-! ## A new position is inserted and matched -/

def TradeQuest.opens (q : TradeQuest) (b : Book) (id : PositionId) (positor : Principal) (now : Nat) :
    Book :=
  match q with
  | .cycles q => b.open_cycles (q.create_current_position id positor now)
  | .tokens q => b.open_token (q.create_current_position id positor now)

/-- The matching of a position that was just inserted. -/
structure OpensPath (q : TradeQuest) (b : Book) (env : MatchEnv) (id : PositionId)
    (positor : Principal) : Prop where
  inv : BookIds (q.opens b id positor env.now)
  ids : (q.opens b id positor env.now).ids = id ::ₘ b.ids
  path : BookPath False (q.opens b id positor env.now) (q.match_trades b env id positor).deals
    (q.match_trades b env id positor).book

theorem opened_cycles_end {b : Book} (hb : BookIds b) (hs : BookSound False b) {env : MatchEnv}
    {id : PositionId} (hid : id ∉ b.ids) {q : TradeCyclesQuest} (hq : Admitted False (.cycles q))
    (positor : Principal) :
    let b₀ := b.open_cycles (q.create_current_position id positor env.now)
    MatchEnd False env id (q.create_current_position id positor env.now) b₀.cyclesSide
      (match_trades env id b₀.cyclesSide) :=
  match_cycles_end False.elim (open_cycles_inv hb hid)
    (open_cycles_sound hs ⟨hq.rate_ne, False.elim⟩) (OrdMap.get_insert_self _ _ _)

theorem opened_token_end {b : Book} (hb : BookIds b) (hs : BookSound False b) {env : MatchEnv}
    {id : PositionId} (hid : id ∉ b.ids) {q : TradeTokensQuest} (hq : Admitted False (.tokens q))
    (positor : Principal) :
    let b₀ := b.open_token (q.create_current_position id positor env.now)
    MatchEnd False env id (q.create_current_position id positor env.now) b₀.tokenSide
      (match_trades env id b₀.tokenSide) :=
  match_token_end False.elim (open_token_inv hb hid)
    (open_token_sound hs ⟨hq.rate_ne, False.elim⟩) (OrdMap.get_insert_self _ _ _)

theorem StaysOrFilled.of_insert {P : Type} [CurrentPositionTrait P] {now : Nat} {id : PositionId}
    {p : P} {m m' : OrdMap PositionId P} {voids : OrdMap PositionId VoidPosition}
    (h : StaysOrFilled now (m.insert id p) m' voids) (hnone : m.get id = none) :
    StaysOrFilled now m m' voids := by
  intro k q hg
  have hk : k ≠ id := by
    rintro rfl
    rw [hnone] at hg
    cases hg
  exact h k q ((OrdMap.get_insert_of_ne _ _ hk).trans hg)

theorem match_trades_fills {b : Book} (hb : BookIds b) (hs : BookSound False b) {env : MatchEnv}
    {id : PositionId} (hid : id ∉ b.ids) {q : TradeQuest} (hq : Admitted False q)
    (positor : Principal) : BookFills env.now b (q.match_trades b env id positor).book := by
  obtain ⟨hcnone, htnone⟩ := not_mem_ids hid
  cases q with
  | cycles q =>
    let p := q.create_current_position id positor env.now
    have hinv : BookIds (b.open_cycles p) := open_cycles_inv hb hid
    have hkeeps := match_path_keeps (opened_cycles_end hb hs hid hq positor).path hinv.cycles hinv.token
    exact ⟨hkeeps.matcher.of_insert hcnone, hkeeps.matchee⟩
  | tokens q =>
    let p := q.create_current_position id positor env.now
    have hinv : BookIds (b.open_token p) := open_token_inv hb hid
    have hkeeps := match_path_keeps (opened_token_end hb hs hid hq positor).path hinv.token hinv.cycles
    exact ⟨hkeeps.matchee, hkeeps.matcher.of_insert htnone⟩

theorem opens_path {b : Book} (hb : BookIds b) (hs : BookSound False b) {env : MatchEnv}
    {id : PositionId} (hid : id ∉ b.ids) {q : TradeQuest} (hq : Admitted False q)
    (positor : Principal) : OpensPath q b env id positor := by
  obtain ⟨hcnone, htnone⟩ := not_mem_ids hid
  cases q with
  | cycles q =>
    exact ⟨open_cycles_inv hb hid, open_cycles_ids hcnone,
      cycles_path (opened_cycles_end hb hs hid hq positor).path⟩
  | tokens q =>
    exact ⟨open_token_inv hb hid, open_token_ids htnone,
      token_path (opened_token_end hb hs hid hq positor).path⟩

end Cts.Tc
