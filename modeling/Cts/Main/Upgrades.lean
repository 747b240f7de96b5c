import Mathlib.Logic.Function.Basic
import Cts.Main.Model
import Cts.Lib.Runs

/-!
# The recorded module hash

An upgrade call records the hash of its code when the last of its canisters is done, so calls that
finish out of order record out of order.
-/

namespace Cts.Main

open Lib

/-! ## Runs -/

/-- The data, the upgrade calls that are not finished, and the code that each canister runs. -/
structure UpgradeSystem where
  data : CMMainData
  upgrades : List UpgradeCall
  installed : Principal → CanisterCode

def UpgradeAwait.outcome : UpgradeAwait → Option UpgradeOutcome
  | .done upgrade_outcome => some upgrade_outcome
  | _ => none

/-- The outcomes of a call whose canisters are all done. -/
def UpgradeCall.outcomes (call : UpgradeCall) : List (Principal × UpgradeOutcome) :=
  call.tasks.filterMap (fun t => t.await.outcome.map (t.canister_id, ·))

def UpgradeCall.finished (call : UpgradeCall) : Bool := call.tasks.all (fun t => t.await.outcome.isSome)

/-- The system after a message of `call`: when it is finished it records, else it stays. -/
def UpgradeSystem.settle (s : UpgradeSystem) (now : Nat) (pre post : List UpgradeCall)
    (call : UpgradeCall) : UpgradeSystem :=
  if call.finished then
    { s with
      data.trade_contracts := record_upgrades call.tc_cc now call.outcomes s.data.trade_contracts
      upgrades := pre ++ post }
  else { s with upgrades := pre ++ call :: post }

/-- A call with another await of one of its canisters. -/
def UpgradeCall.awaiting (call : UpgradeCall) (pre post : List UpgradeTask) (canister_id : Principal)
    (await : UpgradeAwait) : UpgradeCall :=
  { call with tasks := pre ++ ⟨canister_id, await⟩ :: post }

/-- The contracts of a list have ids of their own. -/
def CMMainData.DistinctIds (data : CMMainData) : Prop :=
  (data.trade_contracts.map (fun t => t.1.trade_contract_canister_id)).Nodup

/-- Any set of contracts, each of which runs what is recorded of it. -/
def upgradesInit (s : UpgradeSystem) : Prop :=
  s.data.DistinctIds ∧ s.upgrades = [] ∧ ∀ t ∈ s.data.trade_contracts,
    t.2.tc_module_hash = (s.installed t.1.trade_contract_canister_id).module_hash

/-- One message of an upgrade call, or the execution of one `install_code`. -/
inductive UpgradeStep (sha256 : List Byte → List Byte) : UpgradeSystem → UpgradeSystem → Prop
  | begin {s : UpgradeSystem} {q : ControllerUpgradeCSQuest} {data : CMMainData} {call : UpgradeCall}
      {now : Nat} (h : controller_upgrade_tcs sha256 q s.data = some (data, call)) :
      UpgradeStep sha256 s (UpgradeSystem.settle { s with data := data } now [] s.upgrades call)
  | stop_answered {s : UpgradeSystem} {pre post : List UpgradeCall} {call : UpgradeCall}
      {before after : List UpgradeTask} {c : Principal} {r : Except CallError Unit} {now : Nat}
      (hu : s.upgrades = pre ++ call :: post) (ht : call.tasks = before ++ ⟨c, .stop_canister⟩ :: after) :
      UpgradeStep sha256 s (s.settle now pre post (call.awaiting before after c (.stop_reply r)))
  | install_executed {s : UpgradeSystem} {pre post : List UpgradeCall} {call : UpgradeCall}
      {before after : List UpgradeTask} {c : Principal}
      (hu : s.upgrades = pre ++ call :: post)
      (ht : call.tasks = before ++ ⟨c, .install_code none⟩ :: after) :
      UpgradeStep sha256 s { s with
        upgrades := pre ++ call.awaiting before after c (.install_code (some (.ok ()))) :: post
        installed := Function.update s.installed c call.tc_cc }
  | install_failed {s : UpgradeSystem} {pre post : List UpgradeCall} {call : UpgradeCall}
      {before after : List UpgradeTask} {c : Principal} {e : CallError}
      (hu : s.upgrades = pre ++ call :: post)
      (ht : call.tasks = before ++ ⟨c, .install_code none⟩ :: after) :
      UpgradeStep sha256 s { s with
        upgrades := pre ++ call.awaiting before after c (.install_code (some (.error e))) :: post }
  | install_answered {s : UpgradeSystem} {pre post : List UpgradeCall} {call : UpgradeCall}
      {before after : List UpgradeTask} {c : Principal} {r : Except CallError Unit} {now : Nat}
      (hu : s.upgrades = pre ++ call :: post)
      (ht : call.tasks = before ++ ⟨c, .install_code (some r)⟩ :: after) :
      UpgradeStep sha256 s (s.settle now pre post (call.awaiting before after c (.start_canister r)))
  | start_answered {s : UpgradeSystem} {pre post : List UpgradeCall} {call : UpgradeCall}
      {before after : List UpgradeTask} {c : Principal} {i r : Except CallError Unit} {now : Nat}
      (hu : s.upgrades = pre ++ call :: post)
      (ht : call.tasks = before ++ ⟨c, .start_canister i⟩ :: after) :
      UpgradeStep sha256 s (s.settle now pre post (call.awaiting before after c (.start_reply i r)))

/-! ## Upgraded contracts -/

/-- What came of the `install_code`, once it was executed. -/
def UpgradeAwait.install_code_result : UpgradeAwait → Option (Except CallError Unit)
  | .stop_canister => none
  | .install_code answer => answer
  | .start_canister r => some r
  | .done upgrade_outcome => upgrade_outcome.install_code_result

/-- The call has installed its code on this canister. -/
def UpgradeCall.upgraded (call : UpgradeCall) (c : Principal) : Prop :=
  ∃ t ∈ call.tasks, t.canister_id = c ∧ t.await.install_code_result = some (.ok ())

theorem UpgradeCall.upgraded_split {call : UpgradeCall} {before after : List UpgradeTask} {c : Principal}
    {await : UpgradeAwait} (h : call.tasks = before ++ ⟨c, await⟩ :: after) (x : Principal) :
    call.upgraded x ↔
      (∃ t ∈ before ++ after, t.canister_id = x ∧ t.await.install_code_result = some (.ok ())) ∨
      (c = x ∧ await.install_code_result = some (.ok ())) := by
  unfold UpgradeCall.upgraded
  rw [h]
  simp only [List.mem_append, List.mem_cons]
  constructor
  · rintro ⟨t, ht | rfl | ht, hx⟩
    · exact Or.inl ⟨t, Or.inl ht, hx⟩
    · exact Or.inr hx
    · exact Or.inl ⟨t, Or.inr ht, hx⟩
  · rintro (⟨t, ht, hx⟩ | hx)
    · exact ⟨t, ht.imp_right Or.inr, hx⟩
    · exact ⟨_, Or.inr (Or.inl rfl), hx⟩

theorem UpgradeCall.upgraded_awaiting {call : UpgradeCall} {before after : List UpgradeTask}
    {c : Principal} {await await' : UpgradeAwait} (h : call.tasks = before ++ ⟨c, await⟩ :: after)
    (hsame : await'.install_code_result = some (.ok ()) ↔ await.install_code_result = some (.ok ()))
    (x : Principal) : (call.awaiting before after c await').upgraded x ↔ call.upgraded x := by
  have hleft : (call.awaiting before after c await').upgraded x ↔ _ := UpgradeCall.upgraded_split rfl x
  rw [hleft, UpgradeCall.upgraded_split h, hsame]

theorem UpgradeCall.upgraded_of_finished {call : UpgradeCall} (h : call.finished = true) (c : Principal) :
    call.upgraded c ↔ ∃ r ∈ call.outcomes, r.1 = c ∧ r.2.install_code_result = some (.ok ()) := by
  unfold UpgradeCall.upgraded UpgradeCall.outcomes
  simp only [List.mem_filterMap, Option.map_eq_some_iff]
  constructor
  · rintro ⟨t, ht, rfl, hr⟩
    obtain ⟨o, ho⟩ := Option.isSome_iff_exists.mp (List.all_eq_true.mp h t ht)
    refine ⟨(t.canister_id, o), ⟨t, ht, o, ho, rfl⟩, rfl, ?_⟩
    cases hawait : t.await with
    | done o' =>
      rw [hawait] at ho hr
      obtain rfl := Option.some.inj ho
      exact hr
    | _ =>
      rw [hawait] at ho
      cases ho
  · rintro ⟨r, ⟨t, ht, o, ho, rfl⟩, rfl, hr⟩
    refine ⟨t, ht, rfl, ?_⟩
    cases hawait : t.await with
    | done o' =>
      rw [hawait] at ho
      obtain rfl := Option.some.inj ho
      exact hr
    | _ =>
      rw [hawait] at ho
      cases ho

/-! ## Recording -/

abbrev TradeContracts := List (TradeContractIdAndLedgerId × TradeContractData)

def TradeContracts.ids (l : TradeContracts) : List Principal :=
  l.map (fun t => t.1.trade_contract_canister_id)

section Record

variable {c : Principal} {hash : List Byte} {now : Nat} {l : TradeContracts}
  {t : TradeContractIdAndLedgerId × TradeContractData}

theorem record_upgrade_ids (c : Principal) (hash : List Byte) (now : Nat) (l : TradeContracts) :
    TradeContracts.ids (record_upgrade c hash now l) = TradeContracts.ids l := by
  induction l with
  | nil => rfl
  | cons i is ih =>
    unfold record_upgrade
    split_ifs
    · rfl
    · exact congrArg (_ :: ·) ih

theorem record_upgrade_mem (hids : (TradeContracts.ids l).Nodup) (ht : t ∈ record_upgrade c hash now l) :
    (t.1.trade_contract_canister_id = c ∧ t.2.tc_module_hash = hash) ∨
      (t.1.trade_contract_canister_id ≠ c ∧ t ∈ l) := by
  induction l with
  | nil => cases ht
  | cons i is ih =>
    obtain ⟨hnotin, hnodup⟩ := List.nodup_cons.mp hids
    have hother : ∀ u ∈ is, u.1.trade_contract_canister_id ≠ i.1.trade_contract_canister_id :=
      fun u hu heq => hnotin (List.mem_map.mpr ⟨u, hu, heq⟩)
    unfold record_upgrade at ht
    split_ifs at ht with hc
    · rcases List.mem_cons.mp ht with rfl | ht
      · exact Or.inl ⟨hc, rfl⟩
      · exact Or.inr ⟨hc ▸ hother t ht, List.mem_cons_of_mem _ ht⟩
    · rcases List.mem_cons.mp ht with rfl | ht
      · exact Or.inr ⟨hc, List.mem_cons_self⟩
      · exact (ih hnodup ht).imp_right fun ⟨hne, hmem⟩ => ⟨hne, List.mem_cons_of_mem _ hmem⟩

end Record

theorem record_upgrades_ids (tc_cc : CanisterCode) (now : Nat) (rs : List (Principal × UpgradeOutcome))
    (l : TradeContracts) : TradeContracts.ids (record_upgrades tc_cc now rs l) = TradeContracts.ids l := by
  induction rs generalizing l with
  | nil => rfl
  | cons r rs ih =>
    refine (ih _).trans ?_
    beta_reduce
    split
    · exact record_upgrade_ids _ _ _ _
    · rfl

theorem record_upgrades_mem {tc_cc : CanisterCode} {now : Nat} {rs : List (Principal × UpgradeOutcome)}
    {l : TradeContracts} {t : TradeContractIdAndLedgerId × TradeContractData}
    (hids : (TradeContracts.ids l).Nodup) (ht : t ∈ record_upgrades tc_cc now rs l) :
    ((∃ r ∈ rs, r.1 = t.1.trade_contract_canister_id ∧ r.2.install_code_result = some (.ok ())) ∧
      t.2.tc_module_hash = tc_cc.module_hash) ∨
    ((¬ ∃ r ∈ rs, r.1 = t.1.trade_contract_canister_id ∧ r.2.install_code_result = some (.ok ())) ∧
      t ∈ l) := by
  induction rs generalizing l with
  | nil => exact Or.inr ⟨by simp, ht⟩
  | cons r rs ih =>
    have hcons (P : Principal × UpgradeOutcome → Prop) : (∃ x ∈ r :: rs, P x) ↔ P r ∨ ∃ x ∈ rs, P x :=
      by simp
    rw [hcons]
    by_cases hr : r.2.install_code_result = some (.ok ())
    · have hstep : record_upgrades tc_cc now (r :: rs) l =
          record_upgrades tc_cc now rs (record_upgrade r.1 tc_cc.module_hash now l) := by
        unfold record_upgrades
        rw [List.foldl_cons, hr]
      rw [hstep] at ht
      rcases ih (by rwa [record_upgrade_ids]) ht with ⟨hin, hhash⟩ | ⟨hnot, hmem⟩
      · exact Or.inl ⟨Or.inr hin, hhash⟩
      · rcases record_upgrade_mem hids hmem with ⟨hid, hhash⟩ | ⟨hne, hmem⟩
        · exact Or.inl ⟨Or.inl ⟨hid.symm, hr⟩, hhash⟩
        · exact Or.inr ⟨by rintro (⟨hid, -⟩ | hin); exacts [hne hid.symm, hnot hin], hmem⟩
    · have hstep : record_upgrades tc_cc now (r :: rs) l = record_upgrades tc_cc now rs l := by
        unfold record_upgrades
        rw [List.foldl_cons]
        split
        · contradiction
        · rfl
      rw [hstep] at ht
      rcases ih hids ht with ⟨hin, hhash⟩ | ⟨hnot, hmem⟩
      · exact Or.inl ⟨Or.inr hin, hhash⟩
      · exact Or.inr ⟨by rintro (⟨-, hok⟩ | hin); exacts [hr hok, hnot hin], hmem⟩

/-! ## Recorded in order -/

/-- Each contract is recorded as installed, or a call in flight has upgraded it. -/
def Tracked (s : UpgradeSystem) : Prop :=
  ∀ t ∈ s.data.trade_contracts,
    t.2.tc_module_hash = (s.installed t.1.trade_contract_canister_id).module_hash ∨
      ∃ call ∈ s.upgrades, call.upgraded t.1.trade_contract_canister_id

/-- When `call` is finished, each listed contract that it has upgraded runs code with its hash, or a
call still in flight has upgraded it too. -/
def InOrder (s : UpgradeSystem) (call : UpgradeCall) (others : List UpgradeCall) : Prop :=
  ∀ c ∈ TradeContracts.ids s.data.trade_contracts, call.upgraded c →
    (s.installed c).module_hash = call.tc_cc.module_hash ∨ ∃ other ∈ others, other.upgraded c

/-- If the step takes a call out, the call records in order. -/
def RecordsInOrder (s s' : UpgradeSystem) : Prop :=
  ∀ pre call post, s.upgrades = pre ++ call :: post → s'.upgrades = pre ++ post →
    InOrder s call (pre ++ post)

structure UpgradesInv (s : UpgradeSystem) : Prop where
  ids : (TradeContracts.ids s.data.trade_contracts).Nodup
  tracked : Tracked s

theorem settle_inv {s : UpgradeSystem} {pre post : List UpgradeCall} {call : UpgradeCall} {now : Nat}
    (hids : (TradeContracts.ids s.data.trade_contracts).Nodup)
    (htracked : Tracked { s with upgrades := pre ++ call :: post })
    (horder : call.finished = true → InOrder s call (pre ++ post)) :
    UpgradesInv (s.settle now pre post call) := by
  unfold UpgradeSystem.settle
  split_ifs with hfinished
  · constructor
    · change (TradeContracts.ids (record_upgrades _ _ _ _)).Nodup
      rwa [record_upgrades_ids]
    · intro t ht
      have hcall := UpgradeCall.upgraded_of_finished hfinished t.1.trade_contract_canister_id
      rcases record_upgrades_mem hids ht with ⟨hin, hhash⟩ | ⟨hnot, hmem⟩
      · have hlisted : t.1.trade_contract_canister_id ∈ TradeContracts.ids s.data.trade_contracts := by
          rw [← record_upgrades_ids call.tc_cc now call.outcomes]
          exact List.mem_map_of_mem ht
        rw [hhash]
        exact (horder hfinished _ hlisted (hcall.mpr hin)).imp_left Eq.symm
      · rcases htracked t hmem with hsame | ⟨o, ho, hup⟩
        · exact Or.inl hsame
        · rcases List.mem_append.mp ho with ho | ho
          · exact Or.inr ⟨o, List.mem_append_left _ ho, hup⟩
          · rcases List.mem_cons.mp ho with rfl | ho
            · exact absurd (hcall.mp hup) hnot
            · exact Or.inr ⟨o, List.mem_append_right _ ho, hup⟩
  · exact ⟨hids, htracked⟩

/-- The order is needed: out of order, the finished call leaves a wrong hash that no call in flight
will replace by its own. -/
theorem in_order_of_tracked {s : UpgradeSystem} {pre post : List UpgradeCall} {call : UpgradeCall}
    {now : Nat} (hids : (TradeContracts.ids s.data.trade_contracts).Nodup)
    (hfinished : call.finished = true)
    (h : Tracked (s.settle now pre post call)) : InOrder s call (pre ++ post) := by
  intro c hc hup
  unfold UpgradeSystem.settle at h
  rw [if_pos hfinished] at h
  rw [← record_upgrades_ids call.tc_cc now call.outcomes] at hc
  obtain ⟨t, ht, rfl⟩ := List.mem_map.mp hc
  have hcall := (UpgradeCall.upgraded_of_finished hfinished _).mp hup
  rcases record_upgrades_mem hids ht with ⟨-, hhash⟩ | ⟨hnot, -⟩
  · rw [← hhash]
    exact (h t ht).imp_left Eq.symm
  · exact absurd hcall hnot

theorem Tracked.replace {s : UpgradeSystem} (h : Tracked s) {pre post : List UpgradeCall}
    {call call' : UpgradeCall} (hu : s.upgrades = pre ++ call :: post)
    (hup : ∀ x, call.upgraded x → call'.upgraded x) :
    Tracked { s with upgrades := pre ++ call' :: post } := by
  intro t ht
  refine (h t ht).imp_right ?_
  rintro ⟨o, ho, hx⟩
  rw [hu] at ho
  rcases List.mem_append.mp ho with ho | ho
  · exact ⟨o, List.mem_append_left _ ho, hx⟩
  · rcases List.mem_cons.mp ho with rfl | ho
    · exact ⟨call', List.mem_append_right _ List.mem_cons_self, hup _ hx⟩
    · exact ⟨o, List.mem_append_right _ (List.mem_cons_of_mem _ ho), hx⟩

theorem settle_upgrades {s : UpgradeSystem} {pre post : List UpgradeCall} {call : UpgradeCall} {now : Nat}
    (h : call.finished = true) : (s.settle now pre post call).upgrades = pre ++ post := by
  unfold UpgradeSystem.settle
  rw [if_pos h]

theorem UpgradesInv.reply {s : UpgradeSystem} (h : UpgradesInv s) {pre post : List UpgradeCall}
    {call : UpgradeCall} {before after : List UpgradeTask} {c : Principal} {await await' : UpgradeAwait}
    {now : Nat} (hu : s.upgrades = pre ++ call :: post) (ht : call.tasks = before ++ ⟨c, await⟩ :: after)
    (hsame : await'.install_code_result = some (.ok ()) ↔ await.install_code_result = some (.ok ()))
    (hrecords : RecordsInOrder s (s.settle now pre post (call.awaiting before after c await'))) :
    UpgradesInv (s.settle now pre post (call.awaiting before after c await')) := by
  have hup := UpgradeCall.upgraded_awaiting ht hsame
  refine settle_inv h.ids (h.tracked.replace hu fun x => (hup x).mpr) fun hfinished x hx hupgraded => ?_
  exact hrecords pre call post hu (settle_upgrades hfinished) x hx ((hup x).mp hupgraded)

theorem controller_upgrade_tcs_spec {sha256 : List Byte → List Byte} {q : ControllerUpgradeCSQuest}
    {data data' : CMMainData} {call : UpgradeCall}
    (h : controller_upgrade_tcs sha256 q data = some (data', call)) :
    data'.trade_contracts = data.trade_contracts ∧ ∀ c, ¬ call.upgraded c := by
  have hstart (tc_cc : CanisterCode) (tcs : List Principal) (c : Principal) :
      ¬ UpgradeCall.upgraded ⟨tc_cc, q.post_upgrade_quest, tcs.map (⟨·, .stop_canister⟩)⟩ c := by
    rintro ⟨t, ht, -, hr⟩
    obtain ⟨x, -, rfl⟩ := List.mem_map.mp ht
    cases hr
  unfold controller_upgrade_tcs at h
  split at h
  · split_ifs at h
    · obtain ⟨rfl, rfl⟩ := Prod.mk.inj (Option.some.inj h)
      exact ⟨rfl, hstart _ _⟩
    · cases h
  · obtain ⟨rfl, rfl⟩ := Prod.mk.inj (Option.some.inj h)
    exact ⟨rfl, hstart _ _⟩

theorem upgrade_step {sha256 : List Byte → List Byte} {s s' : UpgradeSystem} (h : UpgradesInv s)
    (hstep : UpgradeStep sha256 s s') (hrecords : RecordsInOrder s s') : UpgradesInv s' := by
  cases hstep with
  | @begin q data call now hq =>
    obtain ⟨hlist, hnone⟩ := controller_upgrade_tcs_spec hq
    refine settle_inv ?_ ?_ fun _ x _ hx => absurd hx (hnone x)
    · change (TradeContracts.ids data.trade_contracts).Nodup
      rw [hlist]
      exact h.ids
    · intro t ht
      change t ∈ data.trade_contracts at ht
      rw [hlist] at ht
      refine (h.tracked t ht).imp_right ?_
      rintro ⟨o, ho, hx⟩
      exact ⟨o, List.mem_cons_of_mem _ ho, hx⟩
  | @stop_answered pre post call before after c r now hu ht =>
    refine h.reply hu ht ?_ hrecords
    cases r <;> simp [UpgradeAwait.stop_reply, UpgradeAwait.install_code_result]
  | install_answered hu ht => exact h.reply hu ht Iff.rfl hrecords
  | start_answered hu ht => exact h.reply hu ht Iff.rfl hrecords
  | @install_failed pre post call before after c e hu ht =>
    refine ⟨h.ids, h.tracked.replace hu fun x => ?_⟩
    have hsame : (UpgradeAwait.install_code (some (.error e))).install_code_result = some (.ok ()) ↔
        (UpgradeAwait.install_code none).install_code_result = some (.ok ()) := by
      simp [UpgradeAwait.install_code_result]
    exact (UpgradeCall.upgraded_awaiting ht hsame x).mpr
  | @install_executed pre post call before after c hu ht =>
    refine ⟨h.ids, fun t hmem => ?_⟩
    have hleft (x : Principal) :
        (call.awaiting before after c (.install_code (some (.ok ())))).upgraded x ↔ _ :=
      UpgradeCall.upgraded_split rfl x
    by_cases hc : t.1.trade_contract_canister_id = c
    · exact Or.inr ⟨_, List.mem_append_right _ List.mem_cons_self, (hleft _).mpr (Or.inr ⟨hc.symm, rfl⟩)⟩
    · have hrest := h.tracked.replace hu
        (fun x hx => (hleft x).mpr
          (((UpgradeCall.upgraded_split ht x).mp hx).imp_right fun hr => by cases hr.2))
      have hother : Function.update s.installed c call.tc_cc t.1.trade_contract_canister_id =
          s.installed t.1.trade_contract_canister_id := Function.update_of_ne hc _ _
      refine (hrest t hmem).imp_left fun hsame => ?_
      change _ = (Function.update s.installed c call.tc_cc _).module_hash
      rw [hother]
      exact hsame

/-! ## Once all calls are finished -/

/-- A step that records in order, if it records. -/
def OrderedUpgradeStep (sha256 : List Byte → List Byte) (s s' : UpgradeSystem) : Prop :=
  UpgradeStep sha256 s s' ∧ RecordsInOrder s s'

/-- Every contract is recorded as installed, and an upgrade of all contracts takes those, at most
200, that run code with another hash. -/
structure RecordedAsInstalled (s : UpgradeSystem) : Prop where
  recorded : ∀ t ∈ s.data.trade_contracts,
    t.2.tc_module_hash = (s.installed t.1.trade_contract_canister_id).module_hash
  targets : ∀ code : CanisterCode, upgrade_targets none code s.data =
    ((TradeContracts.ids s.data.trade_contracts).filter
      (fun c => (s.installed c).module_hash ≠ code.module_hash)).take 200

theorem recorded_as_installed {sha256 : List Byte → List Byte} {s : UpgradeSystem}
    (hr : Reachable upgradesInit (OrderedUpgradeStep sha256) s) (hdone : s.upgrades = []) :
    RecordedAsInstalled s := by
  have hinv : UpgradesInv s := by
    refine hr.invariant (I := UpgradesInv) ?_ fun s s' _ h hstep => upgrade_step h hstep.1 hstep.2
    rintro s ⟨hids, -, hrecorded⟩
    exact ⟨hids, fun t ht => Or.inl (hrecorded t ht)⟩
  have hrecorded : ∀ t ∈ s.data.trade_contracts,
      t.2.tc_module_hash = (s.installed t.1.trade_contract_canister_id).module_hash := by
    intro t ht
    refine (hinv.tracked t ht).resolve_right ?_
    rintro ⟨o, ho, -⟩
    rw [hdone] at ho
    cases ho
  refine ⟨hrecorded, fun code => ?_⟩
  unfold upgrade_targets TradeContracts.ids
  rw [List.filter_map]
  refine congrArg (List.take 200) (congrArg (List.map _) (List.filter_congr fun t ht => ?_))
  rw [Function.comp_apply, hrecorded t ht]

/-! ## Runs of one contract -/

section Run

variable {sha256 : List Byte → List Byte} {s : UpgradeSystem} {pre post : List UpgradeCall}
  {call : UpgradeCall} {before after : List UpgradeTask} {c : Principal}

theorem records_in_order_of_length {s s' : UpgradeSystem} (h : s.upgrades.length ≤ s'.upgrades.length) :
    RecordsInOrder s s' := by
  intro pre call post hu hu'
  rw [hu, hu'] at h
  simp at h

theorem settle_awaiting {await : UpgradeAwait} (h : await.outcome = none) (now : Nat) :
    s.settle now pre post (call.awaiting before after c await) =
      { s with upgrades := pre ++ call.awaiting before after c await :: post } := by
  unfold UpgradeSystem.settle UpgradeCall.finished UpgradeCall.awaiting
  simp [h]

theorem install_run (hu : s.upgrades = pre ++ call :: post)
    (ht : call.tasks = before ++ ⟨c, .stop_canister⟩ :: after) :
    Runs (OrderedUpgradeStep sha256) s { s with
      upgrades := pre ++ call.awaiting before after c (.start_canister (.ok ())) :: post
      installed := Function.update s.installed c call.tc_cc } := by
  let stopped := call.awaiting before after c (.install_code none)
  let executed := call.awaiting before after c (.install_code (some (.ok ())))
  let s₁ : UpgradeSystem := { s with upgrades := pre ++ stopped :: post }
  let s₂ : UpgradeSystem := { s with
    upgrades := pre ++ executed :: post, installed := Function.update s.installed c stopped.tc_cc }
  have hstop : UpgradeStep sha256 s (s.settle 0 pre post stopped) := .stop_answered (r := .ok ()) hu ht
  rw [settle_awaiting rfl] at hstop
  have hstopped : stopped.tasks = before ++ ⟨c, .install_code none⟩ :: after := rfl
  have hexecute : UpgradeStep sha256 s₁ s₂ :=
    @UpgradeStep.install_executed sha256 s₁ pre post stopped before after c rfl hstopped
  have hanswer : UpgradeStep sha256 s₂
      (s₂.settle 0 pre post (executed.awaiting before after c (.start_canister (.ok ())))) :=
    .install_answered rfl rfl
  rw [settle_awaiting rfl] at hanswer
  exact .next (.next (.next (.start rfl) ⟨hstop, records_in_order_of_length (by simp [hu])⟩)
    ⟨hexecute, records_in_order_of_length (by simp [s₂])⟩)
    ⟨hanswer, records_in_order_of_length (by simp [s₂])⟩

end Run

/-! A run: the current code goes to two contracts, and before the second one has answered, new code
goes to the first. -/

namespace Overlap

def code₀ : CanisterCode := ⟨[0, 97, 115, 109, 1, 0, 0, 0],
  [147, 164, 75, 187, 150, 199, 81, 33, 142, 76, 0, 212, 121, 228, 193, 67, 88, 18, 42, 56, 154, 204, 161,
    98, 5, 177, 228, 208, 220, 95, 148, 118]⟩

def code₁ : CanisterCode := ⟨[0, 97, 115, 109, 1, 0, 0, 0, 0, 1, 0],
  [237, 50, 156, 163, 234, 81, 217, 49, 11, 186, 224, 226, 181, 148, 89, 93, 218, 115, 255, 91, 114, 172,
    227, 109, 30, 218, 74, 99, 145, 105, 100, 115]⟩

def code₂ : CanisterCode := ⟨[0, 97, 115, 109, 1, 0, 0, 0, 0, 2, 1, 65],
  [132, 230, 27, 130, 82, 118, 65, 211, 145, 243, 119, 34, 59, 110, 89, 172, 152, 128, 34, 62, 244, 112,
    142, 201, 183, 252, 65, 32, 218, 49, 118, 70]⟩

def sha256 (m : List Byte) : List Byte :=
  if m = code₁.module then code₁.module_hash
  else if m = code₂.module then code₂.module_hash
  else code₀.module_hash

def id (n : Nat) : Principal := .of_byte (UInt8.ofNat n)

def data : CMMainData :=
  { CMMainData.new (id 2) (id 3) with
    trade_contracts := [(⟨id 5, id 7⟩, ⟨code₀.module_hash, 1⟩), (⟨id 6, id 8⟩, ⟨code₀.module_hash, 1⟩)]
    tc_canister_code := code₁ }

def start : UpgradeSystem := ⟨data, [], fun _ => code₀⟩

theorem start_init : upgradesInit start := by
  unfold upgradesInit CMMainData.DistinctIds
  exact ⟨by decide, rfl, by simp [start, data]⟩

def both : ControllerUpgradeCSQuest := ⟨some [id 7, id 8], none, []⟩

def newer : ControllerUpgradeCSQuest := ⟨some [id 7], some code₂, []⟩

/-- The call on both contracts, with the first one done. -/
def waiting : UpgradeCall :=
  ⟨code₁, [], [⟨id 7, .start_reply (.ok ()) (.ok ())⟩, ⟨id 8, .stop_canister⟩]⟩

def half : UpgradeSystem := ⟨data, [waiting], Function.update (fun _ => code₀) (id 7) code₁⟩

theorem half_reachable : Reachable upgradesInit (OrderedUpgradeStep sha256) half := by
  let call : UpgradeCall := ⟨code₁, [], [⟨id 7, .stop_canister⟩, ⟨id 8, .stop_canister⟩]⟩
  let started : UpgradeCall := ⟨code₁, [], [⟨id 7, .start_canister (.ok ())⟩, ⟨id 8, .stop_canister⟩]⟩
  let s : UpgradeSystem := ⟨data, [started], Function.update (fun _ => code₀) (id 7) code₁⟩
  have hbegin : controller_upgrade_tcs sha256 both data = some (data, call) := rfl
  have hbegun : UpgradeStep sha256 start (start.settle 0 [] [] call) := .begin hbegin
  have hcall : (start.settle 0 [] [] call).upgrades = [] ++ call :: [] := rfl
  have htask : call.tasks = [] ++ ⟨id 7, .stop_canister⟩ :: [⟨id 8, .stop_canister⟩] := rfl
  have hinstalled : Runs (OrderedUpgradeStep sha256) (start.settle 0 [] [] call) s :=
    install_run hcall htask
  have hstarted : started.tasks = [] ++ ⟨id 7, .start_canister (.ok ())⟩ :: [⟨id 8, .stop_canister⟩] := rfl
  have hdone : UpgradeStep sha256 s (s.settle 0 [] [] waiting) :=
    .start_answered (s := s) (r := .ok ()) rfl hstarted
  have hrun := Reachable.trans (.next (.start start_init) ⟨hbegun, records_in_order_of_length (by decide)⟩)
    hinstalled
  exact .next hrun ⟨hdone, records_in_order_of_length (by decide)⟩

/-- Without the newer code: the second contract refuses to stop, so the call is finished. -/
def alone : UpgradeSystem :=
  half.settle 3 [] []
    (waiting.awaiting [⟨id 7, .start_reply (.ok ()) (.ok ())⟩] [] (id 8) (.stop_reply (.error (4, ""))))

theorem alone_reachable : Reachable upgradesInit (OrderedUpgradeStep sha256) alone := by
  have htask : waiting.tasks =
      [⟨id 7, .start_reply (.ok ()) (.ok ())⟩] ++ ⟨id 8, .stop_canister⟩ :: [] := rfl
  have hcall : half.upgrades = [] ++ waiting :: [] := rfl
  refine .next half_reachable ⟨.stop_answered hcall htask, ?_⟩
  intro pre c post hpre hpost x hx hup
  obtain ⟨rfl, rfl, rfl⟩ : pre = [] ∧ c = waiting ∧ post = [] := by
    cases pre with
    | nil => exact ⟨rfl, (List.cons.inj hpre).1.symm, (List.cons.inj hpre).2.symm⟩
    | cons a pre => cases pre <;> cases (List.cons.inj hpre).2
  obtain ⟨t, ht, rfl, hr⟩ := hup
  rcases List.mem_cons.mp ht with rfl | ht
  · exact Or.inl rfl
  · obtain rfl := List.mem_singleton.mp ht
    cases hr

/-- The newer code is on its way to the first contract, in front of the call that waits. -/
def newerCall (await : UpgradeAwait) : UpgradeCall := ⟨code₂, [], [⟨id 7, await⟩]⟩

def newerData : CMMainData := { data with tc_canister_code := code₂ }

/-- The newer code is installed and recorded. -/
def recorded : UpgradeSystem :=
  UpgradeSystem.settle ⟨newerData, [newerCall (.start_canister (.ok ())), waiting],
    Function.update half.installed (id 7) code₂⟩ 2 [] [waiting]
    (newerCall (.start_reply (.ok ()) (.ok ())))

theorem recorded_reachable : Reachable upgradesInit (OrderedUpgradeStep sha256) recorded := by
  let call := newerCall .stop_canister
  let started := newerCall (.start_canister (.ok ()))
  let begun : UpgradeSystem :=
    UpgradeSystem.settle { half with data := newerData } 2 [] half.upgrades call
  let s : UpgradeSystem :=
    ⟨newerData, [started, waiting], Function.update half.installed (id 7) code₂⟩
  have hbegin : controller_upgrade_tcs sha256 newer half.data = some (newerData, call) := rfl
  have hbegun : UpgradeStep sha256 half begun := .begin hbegin
  have hcall : begun.upgrades = [] ++ call :: [waiting] := rfl
  have htask : call.tasks = [] ++ ⟨id 7, .stop_canister⟩ :: [] := rfl
  have hinstalled : Runs (OrderedUpgradeStep sha256) begun s := install_run hcall htask
  have hstarted : started.tasks = [] ++ ⟨id 7, .start_canister (.ok ())⟩ :: [] := rfl
  have hdone : UpgradeStep sha256 s recorded := .start_answered (s := s) (r := .ok ()) rfl hstarted
  have hinorder : RecordsInOrder s recorded := by
    intro pre c post hpre hpost x hx hup
    cases pre with
    | nil =>
      obtain ⟨rfl, rfl⟩ := List.cons.inj hpre
      obtain ⟨t, ht, rfl, -⟩ := hup
      obtain rfl := List.mem_singleton.mp ht
      exact Or.inl rfl
    | cons a pre =>
      obtain ⟨rfl, -⟩ := List.cons.inj hpre
      have hcode := congrArg UpgradeCall.tc_cc (List.cons.inj hpost).1
      exact absurd hcode (by decide)
  have hrun := Reachable.trans (.next half_reachable ⟨hbegun, records_in_order_of_length (by decide)⟩)
    hinstalled
  exact .next hrun ⟨hdone, hinorder⟩

/-- The second contract refuses to stop, so the first call is finished and records. -/
def overwritten : UpgradeSystem :=
  recorded.settle 3 [] []
    (waiting.awaiting [⟨id 7, .start_reply (.ok ()) (.ok ())⟩] [] (id 8) (.stop_reply (.error (4, ""))))

theorem overwritten_reachable : Reachable upgradesInit (UpgradeStep sha256) overwritten := by
  have hrun := recorded_reachable.mono fun _ _ h => h.1
  have htask : waiting.tasks =
      [⟨id 7, .start_reply (.ok ()) (.ok ())⟩] ++ ⟨id 8, .stop_canister⟩ :: [] := rfl
  have hcall : recorded.upgrades = [] ++ waiting :: [] := rfl
  exact .next hrun (.stop_answered hcall htask)

end Overlap

theorem one_call_is_recorded_as_installed : RecordedAsInstalled Overlap.alone :=
  recorded_as_installed Overlap.alone_reachable rfl

/-- The call that installed first records last. -/
theorem older_hash_is_recorded_last :
    ¬ ∀ (sha256 : List Byte → List Byte) (s : UpgradeSystem),
      Reachable upgradesInit (UpgradeStep sha256) s → s.upgrades = [] → RecordedAsInstalled s := by
  intro h
  have hrecorded := (h _ _ Overlap.overwritten_reachable rfl).recorded
    (⟨Overlap.id 5, Overlap.id 7⟩, ⟨Overlap.code₁.module_hash, 3⟩) (by decide)
  have hwrong : Overlap.code₁.module_hash = Overlap.code₂.module_hash := hrecorded
  exact absurd hwrong (by decide)

end Cts.Main
