import Cts.Tc.FinalRecords
import Cts.Tc.Moves
import Cts.Tc.Script

/-!
# A position is in one place

A position is current, then void, then gone, and no way leads back.
-/

namespace Cts.Tc

open Lib Lib.Jobs

/-! ## Places -/

inductive Place
  | current (kind : PositionKind)
  | void (kind : PositionKind)
  | gone (kind : PositionKind)
  deriving DecidableEq

/-- The ways from place to place. -/
inductive Place.Next : Place → Place → Prop
  | stays (p : Place) : Next p p
  | ends (kind : PositionKind) : Next (.current kind) (.void kind)
  | leaves (kind : PositionKind) : Next (.void kind) (.gone kind)

def TcState.idsAt (s : TcState) : Place → Multiset PositionId
  | .current .Cycles => s.cm_data.cycles_positions.keys
  | .current .Token => s.cm_data.token_positions.keys
  | .void kind => (s.cm_data.void_positions kind).keys
  | .gone kind => ((s.history.removed kind).map VoidPosition.position_id : List PositionId)

/-- The owner of a current position. -/
def Book.owner (b : Book) : PositionKind → PositionId → Option Principal
  | .Cycles, id => (b.cycles_positions.get id).map CyclesPosition.positor
  | .Token, id => (b.token_positions.get id).map TokenPosition.positor

variable {cfg : TcConfig} {s s' : TcState} {kind : PositionKind} {id : PositionId}

theorem mem_current : id ∈ s.idsAt (.current kind) ↔ ∃ owner, s.cm_data.owner kind id = some owner := by
  cases kind with
  | Cycles =>
    refine (OrdMap.mem_keys_iff s.cm_data.cycles_positions id).trans ⟨?_, ?_⟩
    · rintro ⟨p, hg⟩
      exact ⟨p.positor, congrArg (Option.map _) hg⟩
    · rintro ⟨owner, h⟩
      obtain ⟨p, hg, -⟩ := Option.map_eq_some_iff.mp h
      exact ⟨p, hg⟩
  | Token =>
    refine (OrdMap.mem_keys_iff s.cm_data.token_positions id).trans ⟨?_, ?_⟩
    · rintro ⟨p, hg⟩
      exact ⟨p.positor, congrArg (Option.map _) hg⟩
    · rintro ⟨owner, h⟩
      obtain ⟨p, hg, -⟩ := Option.map_eq_some_iff.mp h
      exact ⟨p, hg⟩

theorem mem_void : id ∈ s.idsAt (.void kind) ↔
    ∃ vp, (s.cm_data.void_positions kind).get id = some vp := OrdMap.mem_keys_iff _ _

theorem mem_gone : id ∈ s.idsAt (.gone kind) ↔
    ∃ vp ∈ s.history.removed kind, vp.position_id = id := List.mem_map

theorem Market.idsAt_eq (h : Market False s) :
    s.idsAt (.current .Cycles) + s.idsAt (.current .Token) + s.idsAt (.void .Cycles) +
      s.idsAt (.void .Token) + s.idsAt (.gone .Cycles) + s.idsAt (.gone .Token) =
        (List.range s.cm_data.positions_id_counter : List PositionId) := by
  rw [← h.ids, positionIds_eq h.book.keyed]
  simp only [TcState.idsAt, Book.ids, Book.void_positions]
  ac_rfl

theorem Market.exists_place (h : Market False s) :
    (∃ p, id ∈ s.idsAt p) ↔ id < s.cm_data.positions_id_counter := by
  have hmem : id ∈ ((List.range s.cm_data.positions_id_counter : List PositionId) :
      Multiset PositionId) ↔ id < s.cm_data.positions_id_counter := List.mem_range
  rw [← hmem, ← h.idsAt_eq]
  simp only [Multiset.mem_add]
  constructor
  · rintro ⟨⟨_ | _⟩ | ⟨_ | _⟩ | ⟨_ | _⟩, hp⟩ <;> simp [hp]
  · rintro (((((hp | hp) | hp) | hp) | hp) | hp) <;> exact ⟨_, hp⟩

theorem Market.one_place (h : Market False s) {p q : Place} (hp : id ∈ s.idsAt p)
    (hq : id ∈ s.idsAt q) : p = q := by
  have hnodup : (List.range s.cm_data.positions_id_counter : Multiset PositionId).Nodup :=
    Multiset.coe_nodup.mpr List.nodup_range
  have hcount := Multiset.nodup_iff_count_le_one.mp hnodup id
  rw [← h.idsAt_eq] at hcount
  simp only [Multiset.count_add] at hcount
  rw [← Multiset.one_le_count_iff_mem] at hp hq
  by_contra hne
  rcases p with (_ | _) | (_ | _) | (_ | _) <;> rcases q with (_ | _) | (_ | _) | (_ | _) <;>
    first
    | exact hne rfl
    | omega

/-! ## From place to place -/

/-- What takes a position away from the current ones. -/
inductive Leaves (cfg : TcConfig) (s s' : TcState) (kind : PositionKind) (id : PositionId) : Prop
  | filled {c : UserCall} {q : TradeQuest} {vp : VoidPosition} (now : Nat)
      (instruction_counter : PositionId → Nat) (hc : c ∈ s.calls) (hq : c.quest = .trade q)
      (hbook : s'.cm_data.toBook = (q.match_trades s.cm_data.toBook
        (s.match_env cfg now instruction_counter) s.cm_data.positions_id_counter c.caller).book)
      (hvoid : (s'.cm_data.void_positions kind).get id = some vp)
      (hfill : vp.log.position_termination = some ⟨now, .Fill⟩)
  | voided {owner : Principal} {vp : VoidPosition} (now : Nat)
      (howner : s.cm_data.owner kind id = some owner)
      (hbook : void_position_ s.cm_data.toBook owner id now = .ok s'.cm_data.toBook)
      (hvoid : (s'.cm_data.void_positions kind).get id = some vp)
      (hcause : vp.log.position_termination = some ⟨now, .UserCallVoidPosition⟩)

/-- A void position that is gone was paid, and its record was overwritten with its last log. -/
def LeftDone (s : TcState) (kind : PositionKind) (id : PositionId) : Prop :=
  ∃ vp ∈ s.history.removed kind, vp.position_id = id ∧ vp.payout_data.isSome ∧
    (id, vp.log.stable_memory_serialize) ∈ s.history.updated kind

structure PlacesStep (cfg : TcConfig) (s s' : TcState) : Prop where
  moves : ∀ p id, id ∈ s.idsAt p → ∃ p', p.Next p' ∧ id ∈ s'.idsAt p'
  origin : ∀ p' id, id ∈ s'.idsAt p' → (∃ p, p.Next p' ∧ id ∈ s.idsAt p) ∨
    id = s.cm_data.positions_id_counter
  ends : ∀ kind id, id ∈ s.idsAt (.current kind) → id ∈ s'.idsAt (.void kind) →
    Leaves cfg s s' kind id
  /-- No entry of a void position is overwritten by another. -/
  void_same : ∀ kind id vp vp', (s.cm_data.void_positions kind).get id = some vp →
    (s'.cm_data.void_positions kind).get id = some vp' → vp'.core = vp.core
  leaves : ∀ kind id, id ∈ s.idsAt (.void kind) → id ∈ s'.idsAt (.gone kind) → LeftDone s' kind id

/-- The position of an entry either stays where it is or moves on. -/
structure PlacesMove (s s' : TcState) : Prop where
  current : ∀ kind id owner, s.cm_data.owner kind id = some owner →
    s'.cm_data.owner kind id = some owner ∨ id ∈ s'.idsAt (.void kind)
  void : ∀ kind id vp, (s.cm_data.void_positions kind).get id = some vp →
    (∃ vp', (s'.cm_data.void_positions kind).get id = some vp' ∧ vp'.core = vp.core) ∨
      id ∈ s'.idsAt (.gone kind)
  gone : ∀ kind, s.idsAt (.gone kind) ≤ s'.idsAt (.gone kind)

/-! ## What moves -/

theorem owner_of_get {b : Book} {p : CyclesPosition} (hg : b.cycles_positions.get id = some p) :
    b.owner .Cycles id = some p.positor := congrArg (Option.map _) hg

theorem owner_of_get_token {b : Book} {p : TokenPosition} (hg : b.token_positions.get id = some p) :
    b.owner .Token id = some p.positor := congrArg (Option.map _) hg

theorem BookFills.owner {now : Nat} {b b' : Book} (h : BookFills now b b') {owner : Principal}
    (ho : b.owner kind id = some owner) : b'.owner kind id = some owner ∨
      ∃ vp, (b'.void_positions kind).get id = some vp ∧
        vp.log.position_termination = some ⟨now, .Fill⟩ := by
  cases kind with
  | Cycles =>
    obtain ⟨p, hg, rfl⟩ := Option.map_eq_some_iff.mp ho
    rcases h.cycles id p hg with ⟨p', hg', hpos⟩ | ⟨-, vp, hvp, hfilled⟩
    · exact Or.inl ((owner_of_get hg').trans (congrArg some hpos))
    · exact Or.inr ⟨vp, hvp, hfilled.cause⟩
  | Token =>
    obtain ⟨p, hg, rfl⟩ := Option.map_eq_some_iff.mp ho
    rcases h.token id p hg with ⟨p', hg', hpos⟩ | ⟨-, vp, hvp, hfilled⟩
    · exact Or.inl ((owner_of_get_token hg').trans (congrArg some hpos))
    · exact Or.inr ⟨vp, hvp, hfilled.cause⟩

theorem void_position_owner {b b' : Book} (hb : BookIds b) {caller : Principal}
    {position_id : PositionId} {now : Nat} (h : void_position_ b caller position_id now = .ok b')
    {owner : Principal} (ho : b.owner kind id = some owner) : b'.owner kind id = some owner ∨
      position_id = id ∧ caller = owner ∧ ∃ vp, (b'.void_positions kind).get id = some vp ∧
        vp.log.position_termination = some ⟨now, .UserCallVoidPosition⟩ := by
  rcases void_position_spec hb h with ⟨p, hp, hcaller, rfl⟩ | ⟨p, hp, hcaller, rfl⟩
  · cases kind with
    | Token => exact Or.inl ho
    | Cycles =>
      by_cases hid : id = position_id
      · subst hid
        obtain ⟨p', hp', rfl⟩ := Option.map_eq_some_iff.mp ho
        obtain rfl := Option.some.inj (hp.symm.trans hp')
        refine Or.inr ⟨rfl, hcaller.symm, p.into_void_position_type .UserCallVoidPosition now, ?_, rfl⟩
        change (b.void_cycles_positions.insert p.id _).get id = _
        rw [hb.cycles id p hp]
        exact OrdMap.get_insert_self _ _ _
      · refine Or.inl ?_
        rw [← ho]
        exact congrArg (Option.map _) (OrdMap.get_remove_of_ne _ hid)
  · cases kind with
    | Cycles => exact Or.inl ho
    | Token =>
      by_cases hid : id = position_id
      · subst hid
        obtain ⟨p', hp', rfl⟩ := Option.map_eq_some_iff.mp ho
        obtain rfl := Option.some.inj (hp.symm.trans hp')
        refine Or.inr ⟨rfl, hcaller.symm, p.into_void_position_type .UserCallVoidPosition now, ?_, rfl⟩
        change (b.void_token_positions.insert p.id _).get id = _
        rw [hb.token id p hp]
        exact OrdMap.get_insert_self _ _ _
      · refine Or.inl ?_
        rw [← ho]
        exact congrArg (Option.map _) (OrdMap.get_remove_of_ne _ hid)

theorem void_arrives {m m' : OrdMap PositionId VoidPosition} (hm : Keyed m) (hm' : Keyed m')
    (h : VoidsArrive m m') {vp : VoidPosition} (hg : m.get id = some vp) : m'.get id = some vp := by
  obtain ⟨vps, hvps, -⟩ := h
  have hmem : vp ∈ m'.values := by
    rw [← Multiset.mem_coe, hvps]
    exact Multiset.mem_add.mpr (Or.inr (Multiset.mem_coe.mpr ((m.mem_values_iff vp).mpr ⟨id, hg⟩)))
  have hget := hm'.get_of_mem hmem
  rwa [hm id vp hg] at hget

theorem PayoutFrame.void_moves (h : PayoutFrame s s') {vp : VoidPosition}
    (hb : BookIds s.cm_data.toBook) (hg : (s.cm_data.void_positions kind).get id = some vp) :
    (∃ vp', (s'.cm_data.void_positions kind).get id = some vp' ∧ vp'.core = vp.core) ∨
      id ∈ s'.idsAt (.gone kind) := by
  have hmem : vp.core ∈ (s'.voids kind).map VoidPosition.core := by
    rw [h.voids kind]
    exact Multiset.mem_map_of_mem _ (mem_voids (((s.cm_data.void_positions kind).mem_values_iff
      vp).mpr ⟨id, hg⟩))
  obtain ⟨vp', hvp', hcore⟩ := Multiset.mem_map.mp hmem
  have hid : vp'.position_id = id :=
    (show vp'.core.position_id = vp.core.position_id by rw [hcore]).trans (hb.keyed kind id vp hg)
  rcases Multiset.mem_add.mp hvp' with hvp' | hvp'
  · refine Or.inl ⟨vp', ?_, hcore⟩
    have hget := (h.keyed kind).get_of_mem (Multiset.mem_coe.mp hvp')
    rwa [hid] at hget
  · exact Or.inr (mem_gone.mpr ⟨vp', Multiset.mem_coe.mp hvp', hid⟩)

theorem places_move (hm : Market False s) (hm' : Market False s') (h : MarketMove cfg s s') :
    PlacesMove s s' := by
  rcases h with ⟨now, instruction_counter, hcalls, hq, rfl⟩ | ⟨h, rfl⟩ | ⟨h, hremoved, -⟩ | ⟨h⟩
  · have hadmitted := hm.admitted _ (by rw [hcalls]; simp) _ hq
    have hok := hm.commit_ok cfg False.elim hadmitted now instruction_counter
    refine ⟨fun kind id owner ho => ?_, fun kind id vp hg => ?_, fun kind => le_rfl⟩
    · refine ((match_trades_fills hm.book hm.sound hm.fresh_id hadmitted _).owner ho).imp_right ?_
      rintro ⟨vp, hvp, -⟩
      exact mem_void.mpr ⟨vp, hvp⟩
    · refine Or.inl ⟨vp, void_arrives (hm.book.keyed kind) (hm'.book.keyed kind) ?_ hg, rfl⟩
      exact (hok _).voids kind
  · obtain ⟨hframe, -⟩ := void_position_frame hm.book hm.sound h
    refine ⟨fun kind id owner ho => ?_, fun kind id vp hg => ?_, fun kind => le_rfl⟩
    · refine (void_position_owner hm.book h ho).imp_right ?_
      rintro ⟨-, -, vp, hvp, -⟩
      exact mem_void.mpr ⟨vp, hvp⟩
    · exact Or.inl ⟨vp, void_arrives (hm.book.keyed kind) (hm'.book.keyed kind)
        (hframe.voids kind) hg, rfl⟩
  · refine ⟨fun kind id owner ho => Or.inl ?_, fun kind id vp hg => h.void_moves hm.book hg,
      fun kind => ?_⟩
    · rw [← ho]
      cases kind
      · exact congrArg (fun m : OrdMap PositionId CyclesPosition => (m.get id).map _) h.cycles
      · exact congrArg (fun m : OrdMap PositionId TokenPosition => (m.get id).map _) h.token
    · obtain ⟨vps, hvps⟩ := hremoved kind
      simp only [TcState.idsAt, hvps, List.map_append, ← Multiset.coe_add]
      exact Multiset.le_add_right _ _
  · refine ⟨fun kind id owner ho => Or.inl ?_, fun kind id vp hg => Or.inl ⟨vp, ?_, rfl⟩,
      fun kind => ?_⟩
    · rw [h.book]
      exact ho
    · rw [h.book]
      exact hg
    · simp only [TcState.idsAt, h.removed, le_refl]

theorem PlacesMove.next (h : PlacesMove s s') {p : Place} (hp : id ∈ s.idsAt p) :
    ∃ p', p.Next p' ∧ id ∈ s'.idsAt p' := by
  cases p with
  | current kind =>
    obtain ⟨owner, ho⟩ := mem_current.mp hp
    rcases h.current kind id owner ho with ho' | hvoid
    · exact ⟨_, .stays _, mem_current.mpr ⟨owner, ho'⟩⟩
    · exact ⟨_, .ends kind, hvoid⟩
  | void kind =>
    obtain ⟨vp, hvp⟩ := mem_void.mp hp
    rcases h.void kind id vp hvp with ⟨vp', hvp', -⟩ | hgone
    · exact ⟨_, .stays _, mem_void.mpr ⟨vp', hvp'⟩⟩
    · exact ⟨_, .leaves kind, hgone⟩
  | gone kind => exact ⟨_, .stays _, Multiset.mem_of_le (h.gone kind) hp⟩

theorem counter_step (h : MarketMove cfg s s') :
    s'.cm_data.positions_id_counter ≤ s.cm_data.positions_id_counter + 1 := by
  rcases h with ⟨now, instruction_counter, hcalls, hq, rfl⟩ | ⟨h, rfl⟩ | ⟨h, -, -⟩ | ⟨h⟩
  · exact le_rfl
  · exact Nat.le_succ _
  · exact h.counter.trans_le (Nat.le_succ _)
  · exact h.counter.trans_le (Nat.le_succ _)

theorem PlacesMove.origin (h : PlacesMove s s') (hm : Market False s) (hm' : Market False s')
    (hcounter : s'.cm_data.positions_id_counter ≤ s.cm_data.positions_id_counter + 1) {p' : Place}
    (hp' : id ∈ s'.idsAt p') :
    (∃ p, p.Next p' ∧ id ∈ s.idsAt p) ∨ id = s.cm_data.positions_id_counter := by
  have hlt : id < s'.cm_data.positions_id_counter := hm'.exists_place.mp ⟨p', hp'⟩
  rcases Nat.lt_or_ge id s.cm_data.positions_id_counter with hold | hnew
  · obtain ⟨p, hp⟩ := hm.exists_place.mpr hold
    obtain ⟨p'', hnext, hp''⟩ := h.next hp
    obtain rfl := hm'.one_place hp' hp''
    exact Or.inl ⟨p, hnext, hp⟩
  · exact Or.inr (Nat.le_antisymm (Nat.le_of_lt_succ (lt_of_lt_of_le hlt hcounter)) hnew)

theorem leaves_of_move (hm : Market False s) (hm' : Market False s') (h : MarketMove cfg s s')
    (hold : id ∈ s.idsAt (.current kind)) (hvoid : id ∈ s'.idsAt (.void kind)) :
    Leaves cfg s s' kind id := by
  obtain ⟨owner, ho⟩ := mem_current.mp hold
  -- A position that is void now is not current any more.
  have hnot : s'.cm_data.owner kind id ≠ some owner := by
    intro ho'
    cases hm'.one_place (mem_current.mpr ⟨owner, ho'⟩) hvoid
  rcases h with ⟨now, instruction_counter, hcalls, hq, rfl⟩ | ⟨h, rfl⟩ | ⟨h, -, -⟩ | ⟨h⟩
  · have hc := hm.admitted _ (by rw [hcalls]; simp) _ hq
    rcases (match_trades_fills hm.book hm.sound hm.fresh_id hc _).owner ho with ho' | ⟨vp, hvp, hfill⟩
    · exact absurd ho' hnot
    · exact .filled now instruction_counter (by rw [hcalls]; simp) hq rfl hvp hfill
  · rcases void_position_owner hm.book h ho with ho' | ⟨rfl, rfl, vp, hvp, hcause⟩
    · exact absurd ho' hnot
    · exact .voided _ ho h hvp hcause
  · refine absurd ?_ hnot
    rw [← ho]
    cases kind
    · exact congrArg (fun m : OrdMap PositionId CyclesPosition => (m.get id).map _) h.cycles
    · exact congrArg (fun m : OrdMap PositionId TokenPosition => (m.get id).map _) h.token
  · rw [h.book] at hnot
    exact absurd ho hnot

theorem places_step (hm : Market False s) (hm' : Market False s') (hq' : Queues s')
    (h : MarketMove cfg s s') : PlacesStep cfg s s' := by
  have hmove := places_move hm hm' h
  refine ⟨fun p id hp => hmove.next hp, fun p' id hp' => hmove.origin hm hm' (counter_step h) hp',
    fun kind id => leaves_of_move hm hm' h, fun kind id vp vp' hvp hvp' => ?_, fun kind id hp hgone => ?_⟩
  · rcases hmove.void kind id vp hvp with ⟨vp'', hvp'', hcore⟩ | hgone
    · rw [← hcore, Option.some.inj (hvp'.symm.trans hvp'')]
    · cases hm'.one_place (mem_void.mpr ⟨vp', hvp'⟩) hgone
  · obtain ⟨vp, hvp, rfl⟩ := mem_gone.mp hgone
    exact ⟨vp, hvp, rfl, hq'.removed_updated hvp⟩

/-! ## Every run -/

structure OnePlace (cfg : TcConfig) (s : TcState) : Prop where
  given : ∀ id, (∃ p, id ∈ s.idsAt p) ↔ id < s.cm_data.positions_id_counter
  one : ∀ id p q, id ∈ s.idsAt p → id ∈ s.idsAt q → p = q
  cycles_keyed : ∀ k p, s.cm_data.cycles_positions.get k = some p → p.id = k
  token_keyed : ∀ k p, s.cm_data.token_positions.get k = some p → p.id = k
  void_keyed : ∀ kind k vp, (s.cm_data.void_positions kind).get k = some vp → vp.position_id = k
  steps : ∀ s', TcStep cfg s s' → PlacesStep cfg s s'

/-- Every position that there ever was is in one place: it is current, void or gone. It ends as a
fill or by its owner, and it goes when it is paid and recorded. -/
theorem position_is_in_one_place (cfg : TcConfig) (s : TcState) (r : TcReachable cfg s) :
    OnePlace cfg s := by
  have hm : Market False s := market_inv r False.elim
  refine ⟨fun id => hm.exists_place, fun id p q => hm.one_place, hm.book.cycles, hm.book.token,
    hm.book.void, fun s' hstep => ?_⟩
  have r' := r.next hstep
  exact places_step hm (market_inv r' False.elim) (queues_inv r') (market_move hm hstep)

theorem short_run_has_one_place : 0 ∈ Sample.final.idsAt (.void .Cycles) ∧
    1 ∈ Sample.final.idsAt (.gone .Token) ∧ OnePlace Sample.config Sample.final := by
  refine ⟨?_, ?_, position_is_in_one_place _ _ Sample.final_reachable⟩ <;> decide +kernel

end Cts.Tc
