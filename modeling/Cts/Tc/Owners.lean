import Cts.Tc.Places
import Cts.Tc.StorageViews

/-!
# The positor of a position

A position belongs to who opened it, wherever it goes. Its record in the positions storage is under its
positor from the first log to the final one.
-/

namespace Cts.Tc

open Lib Lib.Jobs

variable {L : Prop} {cfg : TcConfig} {b b' : Book} {s s' : TcState} {kind : PositionKind}
  {id k : PositionId} {owner : Principal}

/-! ## In a map of positions -/

section

variable {P : Type} {positor : P → Principal} {m : OrdMap PositionId P} {p p' : P}

theorem positor_insert (hp : m.get k = some p) (hsame : positor p' = positor p) :
    ((m.insert k p').get id).map positor = (m.get id).map positor := by
  rw [OrdMap.get_insert]
  split_ifs with hid
  · rw [hid, hp, Option.map_some, Option.map_some, hsame]
  · rfl

theorem positor_insert_new (hk : m.get k = none) (h : (m.get id).map positor = some owner) :
    ((m.insert k p).get id).map positor = some owner := by
  rw [OrdMap.get_insert_of_ne _ _ ?_, h]
  rintro rfl
  rw [hk] at h
  cases h

theorem positor_remove (hp : m.get k = some p) (h : (m.get id).map positor = some owner) :
    id = k ∧ positor p = owner ∨ ((m.remove k).get id).map positor = some owner := by
  by_cases hid : id = k
  · refine Or.inl ⟨hid, ?_⟩
    rw [hid, hp, Option.map_some] at h
    exact Option.some.inj h
  · refine Or.inr ?_
    rw [OrdMap.get_remove_of_ne _ hid, h]

end

/-! ## In the book -/

/-- The positor of a position that is current or void. -/
inductive Book.Owned (b : Book) (id : PositionId) (owner : Principal) : Prop
  | current (kind : PositionKind) (h : b.owner kind id = some owner)
  | void (kind : PositionKind) {vp : VoidPosition} (h : (b.void_positions kind).get id = some vp)
      (howner : vp.positor = owner)

theorem Book.Owned.record {ck tk : PositionId} {d : Deal} (h : b.Owned id owner)
    (hc : b.cycles_positions.get ck = some d.cycles_position)
    (ht : b.token_positions.get tk = some d.token_position) (hok : DealOk L d) :
    (b.record ck tk d).Owned id owner := by
  rcases h with ⟨_ | _, h⟩ | ⟨kind, h, howner⟩
  · exact .current .Cycles ((positor_insert hc hok.cycles_same.2.1).trans h)
  · exact .current .Token ((positor_insert ht hok.token_same.2.1).trans h)
  · refine .void kind ?_ howner
    rw [← h]
    cases kind <;> rfl

theorem Book.Owned.void_cycles {p : CyclesPosition} (h : b.Owned id owner) (hb : BookIds b)
    (hp : b.cycles_positions.get k = some p) (cause : PositionTerminationCause) (now : Nat) :
    (b.void_cycles_position k p cause now).Owned id owner := by
  have hframe := void_cycles_frame (L := False) hb hp cause now
  obtain rfl := hb.cycles k p hp
  rcases h with ⟨_ | _, h⟩ | ⟨kind, h, howner⟩
  · rcases positor_remove hp h with ⟨rfl, howner⟩ | h
    · exact .void .Cycles (OrdMap.get_insert_self _ _ _) howner
    · exact .current .Cycles h
  · exact .current .Token h
  · exact .void kind (void_arrives (hb.keyed kind) (hframe.inv.keyed kind) (hframe.voids kind) h) howner

theorem Book.Owned.void_token {p : TokenPosition} (h : b.Owned id owner) (hb : BookIds b)
    (hp : b.token_positions.get k = some p) (cause : PositionTerminationCause) (now : Nat) :
    (b.void_token_position k p cause now).Owned id owner := by
  have hframe := void_token_frame (L := False) hb hp cause now
  obtain rfl := hb.token k p hp
  rcases h with ⟨_ | _, h⟩ | ⟨kind, h, howner⟩
  · exact .current .Cycles h
  · rcases positor_remove hp h with ⟨rfl, howner⟩ | h
    · exact .void .Token (OrdMap.get_insert_self _ _ _) howner
    · exact .current .Token h
  · exact .void kind (void_arrives (hb.keyed kind) (hframe.inv.keyed kind) (hframe.voids kind) h) howner

theorem BookPath.owned {ds : List Deal} (h : BookPath L b ds b') (hb : BookIds b)
    (ho : b.Owned id owner) : b'.Owned id owner := by
  induction h with
  | nil => exact ho
  | deal hpath hc ht hok hid ih => exact ih.record hc ht hok
  | void_cycles hpath hg cause now ih => exact ih.void_cycles (hpath.frame hb).inv hg cause now
  | void_token hpath hg cause now ih => exact ih.void_token (hpath.frame hb).inv hg cause now

@[simp]
theorem opens_void_positions (q : TradeQuest) (b : Book) (id : PositionId) (positor : Principal)
    (now : Nat) (kind : PositionKind) :
    (q.opens b id positor now).void_positions kind = b.void_positions kind := by
  cases q <;> cases kind <;> rfl

theorem opens_owned (q : TradeQuest) (b : Book) (id : PositionId) (positor : Principal) (now : Nat) :
    (q.opens b id positor now).Owned id positor := by
  cases q with
  | cycles q => exact .current .Cycles (congrArg (Option.map _) (OrdMap.get_insert_self _ _ _))
  | tokens q => exact .current .Token (congrArg (Option.map _) (OrdMap.get_insert_self _ _ _))

theorem Book.Owned.opens (h : b.Owned id owner) (hk : k ∉ b.ids) (q : TradeQuest)
    (positor : Principal) (now : Nat) : (q.opens b k positor now).Owned id owner := by
  obtain ⟨hcycles, htoken⟩ := not_mem_ids hk
  rcases h with ⟨kind, h⟩ | ⟨kind, h, howner⟩
  · apply Book.Owned.current kind
    cases q with
    | cycles q =>
      cases kind with
      | Token => exact h
      | Cycles => exact positor_insert_new hcycles h
    | tokens q =>
      cases kind with
      | Cycles => exact h
      | Token => exact positor_insert_new htoken h
  · refine .void kind ?_ howner
    rw [opens_void_positions]
    exact h

/-! ## Wherever it goes -/

/-- The positor of a position that is in the place. -/
def TcState.positorAt (s : TcState) : Place → PositionId → Option Principal
  | .current kind, id => s.cm_data.owner kind id
  | .void kind, id => ((s.cm_data.void_positions kind).get id).map VoidPosition.positor
  | .gone kind, id =>
    ((s.history.removed kind).find? fun vp => vp.position_id = id).map VoidPosition.positor

@[simp]
theorem positorAt_void (s : TcState) (kind : PositionKind) (id : PositionId) :
    s.positorAt (.void kind) id =
      ((s.cm_data.void_positions kind).get id).map VoidPosition.positor := rfl

@[simp]
theorem positorAt_gone (s : TcState) (kind : PositionKind) (id : PositionId) :
    s.positorAt (.gone kind) id =
      ((s.history.removed kind).find? fun vp => vp.position_id = id).map VoidPosition.positor := rfl

def TcState.Owned (s : TcState) (id : PositionId) (owner : Principal) : Prop :=
  ∃ p, s.positorAt p id = some owner

theorem owned_of_book (h : s.cm_data.toBook.Owned id owner) : s.Owned id owner := by
  rcases h with ⟨kind, h⟩ | ⟨kind, h, howner⟩
  · exact ⟨.current kind, h⟩
  · refine ⟨.void kind, ?_⟩
    rw [positorAt_void, h, Option.map_some, howner]

theorem mem_of_positorAt {p : Place} (h : s.positorAt p id = some owner) : id ∈ s.idsAt p := by
  rcases p with kind | kind | kind
  · exact mem_current.mpr ⟨owner, h⟩
  · obtain ⟨vp, hvp, -⟩ := Option.map_eq_some_iff.mp h
    exact mem_void.mpr ⟨vp, hvp⟩
  · obtain ⟨vp, hvp, -⟩ := Option.map_eq_some_iff.mp h
    refine mem_gone.mpr ⟨vp, List.mem_of_find?_eq_some hvp, ?_⟩
    simpa using List.find?_some hvp

theorem Market.owned_unique (hm : Market False s) {owner' : Principal} (h : s.Owned id owner)
    (h' : s.Owned id owner') : owner = owner' := by
  obtain ⟨p, hp⟩ := h
  obtain ⟨p', hp'⟩ := h'
  obtain rfl := hm.one_place (mem_of_positorAt hp) (mem_of_positorAt hp')
  exact Option.some.inj (hp.symm.trans hp')

theorem Market.positor_of_gone (hm : Market False s) {vp : VoidPosition}
    (hvp : vp ∈ s.history.removed kind) : s.positorAt (.gone kind) vp.position_id = some vp.positor := by
  have hnodup : ((s.history.removed kind).map VoidPosition.position_id).Nodup := by
    have hall : s.positionIds.Nodup := by
      rw [hm.ids]
      exact Multiset.coe_nodup.mpr List.nodup_range
    unfold TcState.positionIds TcState.voids at hall
    simp only [Multiset.map_add, Multiset.nodup_add] at hall
    cases kind
    · exact Multiset.coe_nodup.mp hall.1.2.1.2.1
    · exact Multiset.coe_nodup.mp hall.2.1.2.1
  have hsome : ((s.history.removed kind).find? fun v => v.position_id = vp.position_id).isSome :=
    List.find?_isSome.mpr ⟨vp, hvp, by simp⟩
  obtain ⟨found, hfound⟩ := Option.isSome_iff_exists.mp hsome
  have hid : found.position_id = vp.position_id := by simpa using List.find?_some hfound
  rw [positorAt_gone, hfound, List.inj_on_of_nodup_map hnodup (List.mem_of_find?_eq_some hfound) hvp hid]
  rfl

theorem Market.owned_of_void (hm : Market False s) {vp : VoidPosition} (hvp : vp ∈ s.voids kind) :
    s.Owned vp.position_id vp.positor := by
  rcases Multiset.mem_add.mp hvp with hvp | hvp
  · refine ⟨.void kind, ?_⟩
    rw [positorAt_void, (hm.book.keyed kind).get_of_mem (Multiset.mem_coe.mp hvp)]
    rfl
  · exact ⟨.gone kind, hm.positor_of_gone (Multiset.mem_coe.mp hvp)⟩

theorem TcState.Owned.book_or_gone (h : s.Owned id owner) : s.cm_data.toBook.Owned id owner ∨
    ∃ kind, ∃ vp ∈ s.history.removed kind, vp.position_id = id ∧ vp.positor = owner := by
  obtain ⟨kind | kind | kind, h⟩ := h
  · exact Or.inl (.current kind h)
  · obtain ⟨vp, hvp, howner⟩ := Option.map_eq_some_iff.mp h
    exact Or.inl (.void kind hvp howner)
  · obtain ⟨vp, hvp, howner⟩ := Option.map_eq_some_iff.mp h
    exact Or.inr ⟨kind, vp, List.mem_of_find?_eq_some hvp, by simpa using List.find?_some hvp, howner⟩

theorem PayoutFrame.owned (h : PayoutFrame s s') (hm' : Market False s') {vp : VoidPosition}
    (hvp : vp ∈ s.voids kind) : s'.Owned vp.position_id vp.positor := by
  have hmem : vp.core ∈ (s'.voids kind).map VoidPosition.core := by
    rw [h.voids kind]
    exact Multiset.mem_map_of_mem _ hvp
  obtain ⟨vp', hvp', hcore⟩ := Multiset.mem_map.mp hmem
  have hid : vp'.position_id = vp.position_id := congrArg (fun v => v.position_id) hcore
  have howner : vp'.positor = vp.positor := congrArg (fun v => v.positor) hcore
  rw [← hid, ← howner]
  exact hm'.owned_of_void hvp'

theorem owned_step (hm : Market False s) (hm' : Market False s') (h : MarketMove cfg s s')
    (ho : s.Owned id owner) : s'.Owned id owner := by
  have hgone : s'.history.removed = s.history.removed →
      (∃ kind, ∃ vp ∈ s.history.removed kind, vp.position_id = id ∧ vp.positor = owner) →
      s'.Owned id owner := by
    rintro hremoved ⟨kind, vp, hvp, rfl, rfl⟩
    rw [← hremoved] at hvp
    exact ⟨.gone kind, hm'.positor_of_gone hvp⟩
  rcases h with ⟨now, instruction_counter, hcalls, hq, rfl⟩ | ⟨h, rfl⟩ | ⟨h, -, -⟩ | ⟨h⟩
  · have hadmitted := hm.admitted _ (by rw [hcalls]; simp) _ hq
    rcases ho.book_or_gone with ho | ho
    · have hopens := @opens_path _ hm.book hm.sound (s.match_env cfg now instruction_counter) _
        hm.fresh_id _ hadmitted
      apply owned_of_book
      exact (hopens _).path.owned (hopens _).inv (ho.opens hm.fresh_id _ _ _)
    · exact hgone rfl ho
  · rcases ho.book_or_gone with ho | ho
    · apply owned_of_book
      rcases void_position_spec hm.book h with ⟨p, hp, -, rfl⟩ | ⟨p, hp, -, rfl⟩
      · exact ho.void_cycles hm.book hp _ _
      · exact ho.void_token hm.book hp _ _
    · exact hgone rfl ho
  · rcases ho.book_or_gone with (⟨kind, ho⟩ | ⟨kind, hvp, rfl⟩) | ⟨kind, vp, hvp, rfl, rfl⟩
    · refine ⟨.current kind, ?_⟩
      rw [← ho]
      cases kind
      · exact congrArg (fun m : OrdMap PositionId CyclesPosition => (m.get id).map _) h.cycles
      · exact congrArg (fun m : OrdMap PositionId TokenPosition => (m.get id).map _) h.token
    · rw [← hm.book.void kind id _ hvp]
      apply h.owned hm'
      exact mem_voids (((s.cm_data.void_positions kind).mem_values_iff _).mpr ⟨id, hvp⟩)
    · exact h.owned hm' (Multiset.mem_add.mpr (Or.inr (Multiset.mem_coe.mpr hvp)))
  · rcases ho.book_or_gone with ho | ho
    · apply owned_of_book
      rw [h.book]
      exact ho
    · exact hgone h.removed ho

/-! ## The logs that positions end with -/

/-- The log that a position ended with names its positor. -/
def Book.LogsOwned (b : Book) : Prop :=
  ∀ kind id vp, (b.void_positions kind).get id = some vp → vp.log.positor = vp.positor

theorem BookPath.logs_owned {ds : List Deal} (h : BookPath L b ds b') (hlogs : b.LogsOwned) :
    b'.LogsOwned := by
  induction h with
  | nil => exact hlogs
  | deal _ _ _ _ _ ih =>
    intro kind
    have ih := ih kind
    cases kind <;> exact ih
  | void_cycles _ _ _ _ ih =>
    rintro (_ | _)
    · exact OrdMap.forall_insert (ih .Cycles) rfl
    · exact ih .Token
  | void_token _ _ _ _ ih =>
    rintro (_ | _)
    · exact ih .Cycles
    · exact OrdMap.forall_insert (ih .Token) rfl

def LogsOwned (s : TcState) : Prop := ∀ kind, ∀ vp ∈ s.voids kind, vp.log.positor = vp.positor

theorem logs_owned_step (hm : Market False s) (h : MarketMove cfg s s') (hlogs : LogsOwned s) :
    LogsOwned s' := by
  have hbook : s.cm_data.toBook.LogsOwned := by
    intro kind id vp hvp
    apply hlogs kind vp
    exact mem_voids (((s.cm_data.void_positions kind).mem_values_iff _).mpr ⟨id, hvp⟩)
  have hbooks : s'.history.removed = s.history.removed → s'.cm_data.toBook.LogsOwned → LogsOwned s' := by
    intro hremoved hbook' kind vp hvp
    rcases Multiset.mem_add.mp hvp with hvp | hvp
    · obtain ⟨id, hvp⟩ := ((s'.cm_data.void_positions kind).mem_values_iff _).mp (Multiset.mem_coe.mp hvp)
      exact hbook' kind id vp hvp
    · rw [hremoved] at hvp
      exact hlogs kind vp (Multiset.mem_add.mpr (Or.inr hvp))
  rcases h with ⟨now, instruction_counter, hcalls, hq, rfl⟩ | ⟨h, rfl⟩ | ⟨h, -, -⟩ | ⟨h⟩
  · have hadmitted := hm.admitted _ (by rw [hcalls]; simp) _ hq
    have hopens := @opens_path _ hm.book hm.sound (s.match_env cfg now instruction_counter) _
      hm.fresh_id _ hadmitted
    apply hbooks rfl
    refine (hopens _).path.logs_owned fun kind => ?_
    rw [opens_void_positions]
    exact hbook kind
  · apply hbooks rfl
    rcases void_position_spec hm.book h with ⟨p, hp, -, rfl⟩ | ⟨p, hp, -, rfl⟩
    · exact (BookPath.void_cycles (L := False) .nil hp _ _).logs_owned hbook
    · exact (BookPath.void_token (L := False) .nil hp _ _).logs_owned hbook
  · intro kind vp hvp
    have hmem : vp.core ∈ (s.voids kind).map VoidPosition.core := by
      rw [← h.voids kind]
      exact Multiset.mem_map_of_mem _ hvp
    obtain ⟨vp', hvp', hcore⟩ := Multiset.mem_map.mp hmem
    have hlog : vp'.log.positor = vp.log.positor := congrArg (fun v => v.log.positor) hcore
    have howner : vp'.positor = vp.positor := congrArg (fun v => v.positor) hcore
    rw [← hlog, ← howner]
    exact hlogs kind vp' hvp'
  · apply hbooks h.removed
    rw [h.book]
    exact hbook

/-! ## Records are under their positors -/

/-- Every position that was given an id has a positor, and its record is under this one. -/
def RecordsOwned (s : TcState) : Prop := ∀ id < s.cm_data.positions_id_counter, ∃ owner b,
  s.Owned id owner ∧ s.record id = some b ∧
    PositionLog.storage.index_keys_of_the_log_serialization b = some [owner]

structure Owners (s : TcState) : Prop where
  logs : LogsOwned s
  records : RecordsOwned s

theorem Update.effect_eq {u : Update} {log_b : List Byte} (h : u.effect = some log_b) :
    u.log_serialization_b = log_b := by
  unfold Update.effect at h
  split at h
  · exact Option.some.inj h
  · cases h

theorem Queues.overwritten_by (h : Queues s) {e : PositionId × List Byte} (he : e ∈ s.overwritten) :
    ∃ kind, ∃ vp ∈ s.voids kind, e = (vp.position_id, vp.log.stable_memory_serialize) := by
  have hof : ∀ kind, e ∈ (s.history.updated kind : Multiset (PositionId × List Byte)) →
      ∃ vp ∈ s.voids kind, e = (vp.position_id, vp.log.stable_memory_serialize) := by
    intro kind he
    rcases (h.updates kind).had_slot he with ⟨f, hf, hid, hjob⟩ | ⟨x, hx, hid, d, hd, hjob⟩
    · obtain ⟨run, hrun, hf⟩ := List.mem_flatMap.mp (Multiset.mem_coe.mp hf)
      obtain ⟨u, hu, rfl⟩ := List.mem_map.mp hf
      obtain ⟨vp, hvp, heq⟩ := h.update_job hrun hu
      refine ⟨vp, mem_voids hvp, ?_⟩
      rw [← heq, Update.effect_eq hjob]
      exact Prod.ext hid.symm rfl
    · obtain ⟨vp, hvp, hslot⟩ := void_of_update_slot hx
      obtain ⟨-, -, rfl⟩ := Option.map_eq_some_iff.mp hslot
      exact ⟨vp, hvp, Prod.ext hid.symm (Option.some.inj hjob).symm⟩
  rcases Multiset.mem_add.mp he with he | he
  · exact ⟨.Cycles, hof .Cycles he⟩
  · exact ⟨.Token, hof .Token he⟩

theorem TradeQuest.position_log_positor (q : TradeQuest) (id : PositionId) (positor : Principal)
    (now : Nat) : (q.position_log id positor now).positor = positor := by
  cases q <;> rfl

theorem Recorded.commit_owned {logs : List (List Byte)} (h : Recorded cfg s logs) (hm : Market False s)
    (hids : s.cm_data.positions_id_counter < 2 ^ 128) {pre post : List UserCall} {c : UserCall}
    {q : TradeQuest} (hc : s.calls = pre ++ c :: post) (hq : c.quest = .trade q) (now : Nat)
    (instruction_counter : PositionId → Nat)
    (hs' : s' = { s.commit (s.match_env cfg now instruction_counter) c.caller q with
      calls := pre ++ post }) : ∃ owner b, s'.Owned s.cm_data.positions_id_counter owner ∧
        s'.record s.cm_data.positions_id_counter = some b ∧
        PositionLog.storage.index_keys_of_the_log_serialization b = some [owner] := by
  have hadmitted := hm.admitted c (by rw [hc]; simp) q hq
  have hopens := @opens_path _ hm.book hm.sound (s.match_env cfg now instruction_counter) _
    hm.fresh_id _ hadmitted c.caller
  have hrec := h.commit hids hc hq (s.match_env cfg now instruction_counter)
  rw [← hs'] at hrec
  refine ⟨c.caller, (q.position_log s.cm_data.positions_id_counter c.caller now).stable_memory_serialize,
    ?_, ?_, ?_⟩
  · apply owned_of_book
    rw [hs']
    exact hopens.path.owned hopens.inv (opens_owned _ _ _ _ _)
  · have hlt : s.cm_data.positions_id_counter < s'.cm_data.positions_id_counter := by
      rw [hs']
      exact Nat.lt_succ_self _
    rw [hrec.record_eq hlt, ← h.length]
    exact List.getElem?_concat_length
  · rw [PositionLog.keysOf_serialization, TradeQuest.position_log_positor]

theorem records_owned_step (r : TcReachable cfg s) (hstep : TcStep cfg s s')
    (hids : s'.cm_data.positions_id_counter ≤ 2 ^ 128) (ho : Owners s) : RecordsOwned s' := by
  have r' := r.next hstep
  have hm : Market False s := market_inv r False.elim
  have hm' : Market False s' := market_inv r' False.elim
  have hmove := market_move hm hstep
  have hlogs' := logs_owned_step hm hmove ho.logs
  obtain ⟨logs, hrec⟩ := recorded_inv r ((counter_grows hstep).trans hids)
  intro id hid
  by_cases hold : id < s.cm_data.positions_id_counter
  · obtain ⟨logs', es, hrec', hover⟩ := recorded_step hrec hm (locked_inv r) (queues_inv r)
      ((queues_inv r').overwritten_once hm') hids hstep
    obtain ⟨owner, b, howned, hb, hkey⟩ := ho.records id hold
    refine ⟨owner, ?_⟩
    have howned' := owned_step hm hm' hmove howned
    by_cases hmem : id ∈ es.map Prod.fst
    · obtain ⟨e, he, rfl⟩ := List.mem_map.mp hmem
      have hmade : e ∈ s'.overwritten := by
        rw [hover.made]
        exact Multiset.mem_add.mpr (Or.inr he)
      obtain ⟨kind, vp, hvp, rfl⟩ := (queues_inv r').overwritten_by hmade
      refine ⟨vp.log.stable_memory_serialize, howned', ?_, ?_⟩
      · rw [hrec'.record_eq hid]
        exact hrec'.logs_ok.made_kept _ hmade
      · rw [PositionLog.keysOf_serialization, hlogs' kind vp hvp,
          hm'.owned_unique howned' (hm'.owned_of_void hvp)]
    · refine ⟨b, howned', ?_, hkey⟩
      rw [hrec'.record_eq hid, hover.others id (by rwa [hrec.length]) hmem, ← hrec.record_eq hold]
      exact hb
  · have hcounter := counter_step hmove
    obtain rfl : id = s.cm_data.positions_id_counter := by omega
    rcases hmove with ⟨now, instruction_counter, hcalls, hq, hs'⟩ | ⟨-, rfl⟩ | ⟨h, -, -⟩ | ⟨h⟩
    · exact hrec.commit_owned hm (by omega) hcalls hq now instruction_counter hs'
    · exact absurd hid hold
    · rw [h.counter] at hid
      exact absurd hid hold
    · rw [h.counter] at hid
      exact absurd hid hold

theorem owners_inv (r : TcReachable cfg s) (hids : s.cm_data.positions_id_counter ≤ 2 ^ 128) :
    Owners s := by
  refine r.invariant_while (P := fun s => s.cm_data.positions_id_counter ≤ 2 ^ 128)
    (fun _ _ hstep hle => (counter_grows hstep).trans hle) (fun s hinit _ => ?_)
    (fun s s' r _ hids' h hstep => ?_) hids
  · obtain ⟨fees, positions_module_hash, trades_module_hash, ledger, rfl⟩ := hinit
    refine ⟨fun kind vp hvp => ?_, fun id hid => absurd hid (Nat.not_lt_zero id)⟩
    cases kind <;> exact absurd hvp (Multiset.notMem_zero vp)
  · have hm : Market False s := market_inv r False.elim
    exact ⟨logs_owned_step hm (market_move hm hstep) h.logs, records_owned_step r hstep hids' h⟩

end Cts.Tc
