import Cts.Main.Model
import Cts.Lib.Runs

/-!
# One trade contract for each token

A creation holds the lock from its first message to its last, so there is one at a time. What it
still has when it fails, a canister without code, it leaves in the unlocked mid-call data.
-/

namespace Cts.Main

open Lib

/-! ## Runs -/

/-- The data, the creations that await a reply, and the canisters that were created so far, each
with the quest it was created for. -/
structure CreationSystem where
  data : CMMainData
  calls : List CreateCall
  created : List (Principal × ControllerCreateIcrc1TokenTradeContractQuest)

def CreateProgress.calls : CreateProgress → List CreateCall
  | .call c => [c]
  | _ => []

def CreateCall.quest (c : CreateCall) : ControllerCreateIcrc1TokenTradeContractQuest :=
  c.mid_call_data.controller_create_icrc1token_trade_contract_quest

/-- The system after a piece of a creation. -/
def CreationSystem.after (s : CreationSystem) (calls : List CreateCall) (r : CMMainData × CreateProgress) :
    CreationSystem :=
  { s with data := r.1, calls := r.2.calls ++ calls }

def creationInit (cts_id cycles_bank_id : Principal) (s : CreationSystem) : Prop :=
  s = ⟨.new cts_id cycles_bank_id, [], []⟩

/-- One message of a creation, or an upload of code between two of them. -/
inductive CreationStep : CreationSystem → CreationSystem → Prop
  | create {s : CreationSystem} {env : Env} {q : ControllerCreateIcrc1TokenTradeContractQuest}
      {r : CMMainData × CreateProgress}
      (h : controller_create_trade_contract env q s.data = .ok (some r)) :
      CreationStep s (s.after s.calls r)
  | continue_create {s : CreationSystem} {env : Env} {r : CMMainData × CreateProgress}
      (h : continue_controller_create_trade_contract env s.data = .ok (some r)) :
      CreationStep s (s.after s.calls r)
  | canister_created {s : CreationSystem} {env : Env} {pre post : List CreateCall} {c : CreateCall}
      {settings : ManagementCanisterOptionalCanisterSettings} {with_cycles : Nat}
      {canister_id : Principal} {r : CMMainData × CreateProgress} (hc : s.calls = pre ++ c :: post)
      (ha : c.await = .create_canister settings with_cycles)
      (h : create_canister_reply env c (.ok canister_id) s.data = some r) :
      CreationStep s { s.after (pre ++ post) r with created := s.created ++ [(canister_id, c.quest)] }
  | canister_refused {s : CreationSystem} {env : Env} {pre post : List CreateCall} {c : CreateCall}
      {settings : ManagementCanisterOptionalCanisterSettings} {with_cycles : Nat}
      {e : CallError} {r : CMMainData × CreateProgress} (hc : s.calls = pre ++ c :: post)
      (ha : c.await = .create_canister settings with_cycles)
      (h : create_canister_reply env c (.error e) s.data = some r) :
      CreationStep s (s.after (pre ++ post) r)
  | code_installed {s : CreationSystem} {env : Env} {pre post : List CreateCall} {c : CreateCall}
      {quest : ManagementCanisterInstallCodeQuest} {tc_module_hash : List Byte}
      {answer : Except CallError Unit} {r : CMMainData × CreateProgress}
      (hc : s.calls = pre ++ c :: post) (ha : c.await = .install_code quest tc_module_hash)
      (h : install_code_reply env c tc_module_hash answer s.data = some r) :
      CreationStep s (s.after (pre ++ post) r)
  | code_uploaded {s : CreationSystem} {sha256 : List Byte → List Byte} {code : CanisterCode}
      {type : MarketCanisterType} {data : CMMainData}
      (h : controller_upload_canister_code sha256 code type s.data = some data) :
      CreationStep s { s with data := data }

abbrev CreationReachable (cts_id cycles_bank_id : Principal) : CreationSystem → Prop :=
  Reachable (creationInit cts_id cycles_bank_id) CreationStep

/-! ## Where a creation stands -/

abbrev CMMainData.mid_call_data (data : CMMainData) : Option MidCallData :=
  data.controller_create_icrc1token_trade_contract_mid_call_data

def CMMainData.ledgers (data : CMMainData) : List Principal :=
  data.trade_contracts.map (fun t => t.1.icrc1_ledger_canister_id)

/-- A canister id listed with the ledger of its quest. -/
def CMMainData.lists (data : CMMainData) (canister_id ledger : Principal) : Prop :=
  (⟨ledger, canister_id⟩ : TradeContractIdAndLedgerId) ∈ data.trade_contracts.map Prod.fst

/-- The canister of a creation is the one that it installs code on. -/
def CreateAwait.For (m : MidCallData) : CreateAwait → Prop
  | .create_canister _ _ => m.icrc1token_trade_contract_canister_id = none
  | .install_code quest _ => m.icrc1token_trade_contract_canister_id = some quest.canister_id

/-- Idle, or stopped with a canister to go on with, or one call in flight. -/
inductive Stands (data : CMMainData) (calls : List CreateCall) : Prop
  | idle (hmid : data.mid_call_data = none) (hcalls : calls = [])
  | stopped {m : MidCallData} {canister_id : Principal} (hmid : data.mid_call_data = some m)
      (hlock : m.lock = false) (hid : m.icrc1token_trade_contract_canister_id = some canister_id)
      (hdata : m.icrc1token_trade_contract_data = none) (hfresh : m.ledger ∉ data.ledgers)
      (hcalls : calls = [])
  | in_flight {m : MidCallData} {c : CreateCall} (hmid : data.mid_call_data = some m)
      (hlock : m.lock = true) (hawait : c.await.For c.mid_call_data)
      (hdata : c.mid_call_data.icrc1token_trade_contract_data = none)
      (hfresh : c.mid_call_data.ledger ∉ data.ledgers) (hcalls : calls = [c])

/-- The mid-call data holds this canister for this quest. -/
def MidCallData.holds (m : MidCallData) (canister_id : Principal)
    (q : ControllerCreateIcrc1TokenTradeContractQuest) : Prop :=
  m.icrc1token_trade_contract_canister_id = some canister_id ∧
    m.controller_create_icrc1token_trade_contract_quest = q

/-- Where a created canister is. -/
inductive Kept (s : CreationSystem) (canister_id : Principal)
    (q : ControllerCreateIcrc1TokenTradeContractQuest) : Prop
  | carried {c : CreateCall} (hc : c ∈ s.calls) (hm : MidCallData.holds c.mid_call_data canister_id q)
  | stopped {m : MidCallData} (hmid : s.data.mid_call_data = some m) (hlock : m.lock = false)
      (hm : m.holds canister_id q)
  | listed (h : s.data.lists canister_id q.icrc1_ledger_id)

structure CreationInv (s : CreationSystem) : Prop where
  ledgers : s.data.ledgers.Nodup
  stands : Stands s.data s.calls
  kept : ∀ canister_id q, (canister_id, q) ∈ s.created → Kept s canister_id q

/-! ## How a piece of a creation ends -/

/-- The five ways: it asks for a canister or gives up without one, and with one it installs code on
it, leaves it unlocked, or lists it. -/
inductive Ends (m : MidCallData) (data : CMMainData) : CMMainData × CreateProgress → Prop
  | asks {settings : ManagementCanisterOptionalCanisterSettings} {with_cycles : Nat}
      (hid : m.icrc1token_trade_contract_canister_id = none) (hfresh : m.ledger ∉ data.ledgers) :
      Ends m data (data, .call ⟨m, .create_canister settings with_cycles⟩)
  | gives_up {e : ControllerCreateIcrc1TokenTradeContractError}
      (hid : m.icrc1token_trade_contract_canister_id = none) :
      Ends m data (data.write_mid_call_data none, .failed e)
  | installs {quest : ManagementCanisterInstallCodeQuest} {tc_module_hash : List Byte}
      (hid : m.icrc1token_trade_contract_canister_id = some quest.canister_id) :
      Ends m data (data, .call ⟨m, .install_code quest tc_module_hash⟩)
  | keeps {canister_id : Principal} {e : ControllerCreateIcrc1TokenTradeContractError}
      (hid : m.icrc1token_trade_contract_canister_id = some canister_id) :
      Ends m data
        (unlock_and_write_controller_create_icrc1token_trade_contract_mid_call_data m data, .failed e)
  | lists {canister_id : Principal} {tc_data : TradeContractData}
      (hid : m.icrc1token_trade_contract_canister_id = some canister_id) :
      Ends m data ({ data.write_mid_call_data none with
        trade_contracts := data.trade_contracts ++ [(⟨m.ledger, canister_id⟩, tc_data)] },
        .created canister_id)

section Pieces

variable (env : Env) {m : MidCallData} {data : CMMainData}

theorem install_trade_contract_ends (data : CMMainData) {m : MidCallData} {canister_id : Principal}
    (hid : m.icrc1token_trade_contract_canister_id = some canister_id)
    (hdata : m.icrc1token_trade_contract_data = none) :
    ∃ r, install_trade_contract env m data = some r ∧ Ends m data r ∧ ∀ id, r.2 ≠ .created id := by
  unfold install_trade_contract
  rw [hdata, if_pos Option.isNone_none]
  split
  · exact ⟨_, rfl, .keeps hid, by simp⟩
  · rw [hid]
    exact ⟨_, rfl, .installs hid, by simp⟩

theorem list_trade_contract_ends (data : CMMainData) (tc_data : TradeContractData) {m : MidCallData}
    {canister_id : Principal} (hid : m.icrc1token_trade_contract_canister_id = some canister_id) :
    ∃ r, list_trade_contract { m with icrc1token_trade_contract_data := some tc_data } data = some r ∧
      Ends m data r := by
  unfold list_trade_contract
  simp only [hid]
  exact ⟨_, rfl, .lists hid⟩

theorem fresh_of_find (h : data.trade_contracts.find?
    (fun t => t.1.icrc1_ledger_canister_id = m.ledger) = none) : m.ledger ∉ data.ledgers := by
  intro hmem
  obtain ⟨t, ht, heq⟩ := List.mem_map.mp hmem
  have hne := List.find?_eq_none.mp h t ht
  exact hne (decide_eq_true heq)

theorem find_of_fresh (h : m.ledger ∉ data.ledgers) : data.trade_contracts.find?
    (fun t => t.1.icrc1_ledger_canister_id = m.ledger) = none := by
  apply List.find?_eq_none.mpr
  intro t ht heq
  exact h (List.mem_map.mpr ⟨t, ht, of_decide_eq_true heq⟩)

theorem create_ends (hid : m.icrc1token_trade_contract_canister_id = none) :
    ∃ r, controller_create_icrc1token_trade_contract_ env m data = some r ∧ Ends m data r := by
  unfold controller_create_icrc1token_trade_contract_
  split
  · exact ⟨_, rfl, .gives_up hid⟩
  · rename_i hfind
    rw [hid, if_pos Option.isNone_none]
    split_ifs
    · exact ⟨_, rfl, .gives_up hid⟩
    · exact ⟨_, rfl, .asks hid (fresh_of_find hfind)⟩

/-- A creation that goes on with its canister does not create another one. -/
theorem continue_ends {canister_id : Principal}
    (hid : m.icrc1token_trade_contract_canister_id = some canister_id) (hfresh : m.ledger ∉ data.ledgers) :
    controller_create_icrc1token_trade_contract_ env m data = install_trade_contract env m data := by
  unfold controller_create_icrc1token_trade_contract_
  simp only [find_of_fresh hfresh, hid, Option.isNone_some, Bool.false_eq_true, if_false]

end Pieces

/-! ## Runs keep every canister -/

/-- After a piece of a creation that held the lock: if the created canisters were listed or held by
it, they are kept. -/
theorem Ends.kept {m m' : MidCallData} {data : CMMainData} {r : CMMainData × CreateProgress}
    {created : List (Principal × ControllerCreateIcrc1TokenTradeContractQuest)} (h : Ends m data r)
    (hledgers : data.ledgers.Nodup) (hmid : data.mid_call_data = some m') (hlock : m'.lock = true)
    (hdata : m.icrc1token_trade_contract_data = none)
    (hfresh : ∀ canister_id, m.icrc1token_trade_contract_canister_id = some canister_id →
      m.ledger ∉ data.ledgers)
    (hcreated : ∀ canister_id q, (canister_id, q) ∈ created →
      m.holds canister_id q ∨ data.lists canister_id q.icrc1_ledger_id) :
    CreationInv ⟨r.1, r.2.calls, created⟩ := by
  have hnone (hid : m.icrc1token_trade_contract_canister_id = none) : ∀ canister_id q,
      (canister_id, q) ∈ created → data.lists canister_id q.icrc1_ledger_id := by
    intro canister_id q hmem
    refine (hcreated canister_id q hmem).resolve_left ?_
    rintro ⟨hsome, -⟩
    rw [hid] at hsome
    cases hsome
  cases h with
  | asks hid hnew =>
    exact ⟨hledgers, .in_flight (c := ⟨m, .create_canister _ _⟩) hmid hlock hid hdata hnew rfl,
      fun canister_id q hmem => .listed (hnone hid canister_id q hmem)⟩
  | gives_up hid =>
    exact ⟨hledgers, .idle rfl rfl, fun canister_id q hmem => .listed (hnone hid canister_id q hmem)⟩
  -- The call carries the canister until its reply.
  | installs hid =>
    refine ⟨hledgers, .in_flight (c := ⟨m, .install_code _ _⟩) hmid hlock hid hdata (hfresh _ hid) rfl,
      fun canister_id q hmem => ?_⟩
    rcases hcreated canister_id q hmem with hholds | hlists
    · exact .carried (List.mem_singleton_self _) hholds
    · exact .listed hlists
  | keeps hid =>
    refine ⟨hledgers, .stopped rfl rfl hid hdata (hfresh _ hid) rfl, fun canister_id q hmem => ?_⟩
    rcases hcreated canister_id q hmem with hholds | hlists
    · exact .stopped rfl rfl hholds
    · exact .listed hlists
  | @lists listed_id tc_data hid =>
    constructor
    · have hnew := hfresh _ hid
      simp only [CMMainData.ledgers, List.map_append, List.map_cons, List.map_nil]
      refine List.nodup_append.mpr ⟨hledgers, by simp, fun a ha b hb heq => hnew ?_⟩
      rw [← List.mem_singleton.mp hb, ← heq]
      exact ha
    · exact .idle rfl rfl
    · intro canister_id q hmem
      apply Kept.listed
      unfold CMMainData.lists CMMainData.write_mid_call_data
      simp only [List.map_append, List.map_cons, List.map_nil, List.mem_append, List.mem_singleton]
      rcases hcreated canister_id q hmem with ⟨hsame, rfl⟩ | hlists
      · rw [hid] at hsame
        obtain rfl := Option.some.inj hsame
        exact Or.inr rfl
      · exact Or.inl hlists

theorem CreationInv.of_call {s : CreationSystem} (h : CreationInv s) {pre post : List CreateCall}
    {c : CreateCall} (hc : s.calls = pre ++ c :: post) :
    pre ++ post = [] ∧ (∃ m, s.data.mid_call_data = some m ∧ m.lock = true) ∧
      c.await.For c.mid_call_data ∧ c.mid_call_data.icrc1token_trade_contract_data = none ∧
      c.mid_call_data.ledger ∉ s.data.ledgers ∧
      ∀ canister_id q, (canister_id, q) ∈ s.created →
        MidCallData.holds c.mid_call_data canister_id q ∨ s.data.lists canister_id q.icrc1_ledger_id := by
  rcases h.stands with
    ⟨-, hcalls⟩ | ⟨-, -, -, -, -, hcalls⟩ | @⟨m, c', hmid, hlock, hawait, hdata, hfresh, hcalls⟩
  · simp [hcalls] at hc
  · simp [hcalls] at hc
  · rw [hcalls] at hc
    obtain ⟨hnil, rfl⟩ : pre ++ post = [] ∧ c' = c := by
      cases pre with
      | nil => simpa [eq_comm, and_comm] using hc
      | cons a pre => simp at hc
    refine ⟨hnil, ⟨m, hmid, hlock⟩, hawait, hdata, hfresh, fun canister_id q hmem => ?_⟩
    rcases h.kept canister_id q hmem with ⟨hcall, hholds⟩ | ⟨hmid', hunlocked, -⟩ | hlists
    · rw [hcalls] at hcall
      obtain rfl := List.mem_singleton.mp hcall
      exact Or.inl hholds
    · rw [hmid] at hmid'
      obtain rfl := Option.some.inj hmid'
      rw [hlock] at hunlocked
      cases hunlocked
    · exact Or.inr hlists

theorem CreationInv.idle {s : CreationSystem} (h : CreationInv s)
    (hnone : s.data.mid_call_data = none) :
    s.calls = [] ∧
      ∀ canister_id q, (canister_id, q) ∈ s.created → s.data.lists canister_id q.icrc1_ledger_id := by
  have hcalls : s.calls = [] := by
    rcases h.stands with ⟨-, hcalls⟩ | ⟨hmid⟩ | ⟨hmid⟩
    · exact hcalls
    · rw [hnone] at hmid
      cases hmid
    · rw [hnone] at hmid
      cases hmid
  refine ⟨hcalls, fun canister_id q hmem => ?_⟩
  rcases h.kept canister_id q hmem with ⟨hcall, -⟩ | ⟨hmid, -, -⟩ | hlists
  · rw [hcalls] at hcall
    cases hcall
  · rw [hnone] at hmid
    cases hmid
  · exact hlists

theorem CreationInv.create {s : CreationSystem} (h : CreationInv s) {env : Env}
    {q : ControllerCreateIcrc1TokenTradeContractQuest} {r : CMMainData × CreateProgress}
    (hr : controller_create_trade_contract env q s.data = .ok (some r)) :
    CreationInv (s.after s.calls r) := by
  unfold controller_create_trade_contract at hr
  split at hr
  · cases hr
  · rename_i hidle
    obtain ⟨hcalls, hlisted⟩ := h.idle hidle
    obtain ⟨r', heq, hends⟩ := create_ends env (m := ⟨env.now, true, q, none, none⟩) rfl
    obtain rfl : r' = r := Option.some.inj (heq.symm.trans (Except.ok.inj hr))
    unfold CreationSystem.after
    rw [hcalls, List.append_nil]
    exact hends.kept h.ledgers rfl rfl rfl (fun _ hid => by cases hid) fun canister_id q hmem =>
      Or.inr (hlisted canister_id q hmem)

theorem CreationInv.stopped {s : CreationSystem} (h : CreationInv s) {m : MidCallData}
    (hmid : s.data.mid_call_data = some m) (hlock : m.lock = false) :
    s.calls = [] ∧ (∃ canister_id, m.icrc1token_trade_contract_canister_id = some canister_id) ∧
      m.icrc1token_trade_contract_data = none ∧ m.ledger ∉ s.data.ledgers ∧
      ∀ canister_id q, (canister_id, q) ∈ s.created →
        m.holds canister_id q ∨ s.data.lists canister_id q.icrc1_ledger_id := by
  rcases h.stands with ⟨hmid', -⟩ | @⟨m', id, hmid', -, hid, hdata, hfresh, hcalls⟩ | ⟨hmid', hlock', -⟩
  · rw [hmid] at hmid'
    cases hmid'
  · rw [hmid] at hmid'
    obtain rfl := Option.some.inj hmid'
    refine ⟨hcalls, ⟨id, hid⟩, hdata, hfresh, fun canister_id q hmem => ?_⟩
    rcases h.kept canister_id q hmem with ⟨hcall, -⟩ | ⟨hmid', -, hholds⟩ | hlists
    · rw [hcalls] at hcall
      cases hcall
    · rw [hmid] at hmid'
      obtain rfl := Option.some.inj hmid'
      exact Or.inl hholds
    · exact Or.inr hlists
  · rw [hmid] at hmid'
    obtain rfl := Option.some.inj hmid'
    rw [hlock] at hlock'
    cases hlock'

theorem CreationInv.continues {s : CreationSystem} (h : CreationInv s) (env : Env) {m : MidCallData}
    (hmid : s.data.mid_call_data = some m) (hlock : m.lock = false) :
    ∃ r, continue_controller_create_trade_contract env s.data = .ok (some r) ∧
      Ends { m with lock := true } (s.data.write_mid_call_data (some { m with lock := true })) r ∧
      ∀ id, r.2 ≠ .created id := by
  obtain ⟨-, ⟨canister_id, hid⟩, hdata, hfresh, -⟩ := h.stopped hmid hlock
  obtain ⟨r, heq, hends⟩ := install_trade_contract_ends env
    (s.data.write_mid_call_data (some { m with lock := true })) (m := { m with lock := true }) hid hdata
  refine ⟨r, ?_, hends⟩
  unfold CMMainData.mid_call_data at hmid
  unfold continue_controller_create_trade_contract
  rw [hmid]
  simp only [hlock, Bool.false_eq_true, if_false]
  rw [← heq]
  exact congrArg Except.ok (continue_ends env hid hfresh)

theorem CreationInv.continue_create {s : CreationSystem} (h : CreationInv s) {env : Env}
    {r : CMMainData × CreateProgress}
    (hr : continue_controller_create_trade_contract env s.data = .ok (some r)) :
    CreationInv (s.after s.calls r) := by
  obtain ⟨m, hmid, hlock⟩ : ∃ m, s.data.mid_call_data = some m ∧ m.lock = false := by
    unfold continue_controller_create_trade_contract at hr
    split at hr
    · rename_i m hmid
      split_ifs at hr with hlock
      exact ⟨m, hmid, Bool.eq_false_of_not_eq_true hlock⟩
    · cases hr
  obtain ⟨hcalls, -, hdata, hfresh, hcreated⟩ := h.stopped hmid hlock
  obtain ⟨r', heq, hends, -⟩ := h.continues env hmid hlock
  obtain rfl : r' = r := Option.some.inj (Except.ok.inj (heq.symm.trans hr))
  unfold CreationSystem.after
  rw [hcalls, List.append_nil]
  exact hends.kept h.ledgers rfl rfl hdata (fun _ _ => hfresh) hcreated

theorem upload_canister_code_keeps {sha256 : List Byte → List Byte} {code : CanisterCode}
    {type : MarketCanisterType} {data data' : CMMainData}
    (h : controller_upload_canister_code sha256 code type data = some data') :
    data'.trade_contracts = data.trade_contracts ∧ data'.mid_call_data = data.mid_call_data := by
  unfold controller_upload_canister_code at h
  split_ifs at h
  split at h <;> cases h <;> exact ⟨rfl, rfl⟩

theorem creation_step {s s' : CreationSystem} (h : CreationInv s) (hstep : CreationStep s s') :
    CreationInv s' := by
  cases hstep with
  | create hr => exact h.create hr
  | continue_create hr => exact h.continue_create hr
  | @canister_created env pre post c settings with_cycles canister_id r hc ha hr =>
    obtain ⟨hnil, ⟨m, hmid, hlock⟩, hawait, hdata, hfresh, hcreated⟩ := h.of_call hc
    rw [ha] at hawait
    obtain ⟨r', heq, hends, -⟩ := install_trade_contract_ends env s.data
      (m := { c.mid_call_data with icrc1token_trade_contract_canister_id := some canister_id }) rfl hdata
    obtain rfl : r' = r := Option.some.inj (heq.symm.trans hr)
    unfold CreationSystem.after
    rw [hnil, List.append_nil]
    refine hends.kept h.ledgers hmid hlock hdata (fun _ _ => hfresh) fun id q hmem => ?_
    rcases List.mem_append.mp hmem with hmem | hmem
    · rcases hcreated id q hmem with ⟨hsome, -⟩ | hlists
      · rw [show c.mid_call_data.icrc1token_trade_contract_canister_id = none from hawait] at hsome
        cases hsome
      · exact Or.inr hlists
    -- The new canister is held by the call that created it.
    · obtain ⟨rfl, rfl⟩ := Prod.mk.inj (List.mem_singleton.mp hmem)
      exact Or.inl ⟨rfl, rfl⟩
  | canister_refused hc ha hr =>
    obtain ⟨hnil, ⟨m, hmid, hlock⟩, hawait, hdata, hfresh, hcreated⟩ := h.of_call hc
    rw [ha] at hawait
    obtain rfl := Option.some.inj hr
    unfold CreationSystem.after
    rw [hnil, List.append_nil]
    exact (Ends.gives_up hawait).kept h.ledgers hmid hlock hdata (fun _ _ => hfresh) hcreated
  | @code_installed env pre post c quest tc_module_hash answer r hc ha hr =>
    obtain ⟨hnil, ⟨m, hmid, hlock⟩, hawait, hdata, hfresh, hcreated⟩ := h.of_call hc
    rw [ha] at hawait
    have hends : Ends c.mid_call_data s.data r := by
      unfold install_code_reply at hr
      split at hr
      · obtain ⟨r', heq, hends⟩ := list_trade_contract_ends s.data ⟨tc_module_hash, env.now⟩ hawait
        obtain rfl : r' = r := Option.some.inj (heq.symm.trans hr)
        exact hends
      · obtain rfl := Option.some.inj hr
        exact .keeps hawait
    unfold CreationSystem.after
    rw [hnil, List.append_nil]
    exact hends.kept h.ledgers hmid hlock hdata (fun _ _ => hfresh) hcreated
  | @code_uploaded sha256 code type data hr =>
    obtain ⟨hlist, hmid⟩ := upload_canister_code_keeps hr
    have hledgers : data.ledgers = s.data.ledgers := by
      unfold CMMainData.ledgers
      rw [hlist]
    constructor
    · change data.ledgers.Nodup
      rw [hledgers]
      exact h.ledgers
    · rcases h.stands with ⟨hidle, hcalls⟩ | ⟨hm, hlock, hid, hdata, hfresh, hcalls⟩ |
        ⟨hm, hlock, hawait, hdata, hfresh, hcalls⟩
      · exact .idle (hmid.trans hidle) hcalls
      · exact .stopped (hmid.trans hm) hlock hid hdata (hledgers ▸ hfresh) hcalls
      · exact .in_flight (hmid.trans hm) hlock hawait hdata (hledgers ▸ hfresh) hcalls
    · intro canister_id q hmem
      rcases h.kept canister_id q hmem with ⟨hcall, hholds⟩ | ⟨hm, hlock, hholds⟩ | hlists
      · exact .carried hcall hholds
      · exact .stopped (hmid.trans hm) hlock hholds
      · refine .listed ?_
        unfold CMMainData.lists at hlists ⊢
        rwa [hlist]

theorem creation_inv {cts_id cycles_bank_id : Principal} {s : CreationSystem}
    (hr : CreationReachable cts_id cycles_bank_id s) : CreationInv s := by
  refine hr.invariant ?_ fun s s' _ h hstep => creation_step h hstep
  rintro s rfl
  exact ⟨List.nodup_nil, .idle rfl rfl, fun _ _ hmem => by cases hmem⟩

/-! ## One contract for each token -/

/-- `continue` installs code on this canister or, when the arguments do not encode, keeps it. -/
def Resumes (data : CMMainData) (canister_id : Principal) : Prop :=
  ∀ env, ∃ r, continue_controller_create_trade_contract env data = .ok (some r) ∧
    ((∃ m quest tc_module_hash, r.2 = .call ⟨m, .install_code quest tc_module_hash⟩ ∧
      quest.canister_id = canister_id) ∨
    ∃ m e, r.2 = .failed e ∧ r.1.mid_call_data = some m ∧ m.lock = false ∧
      m.icrc1token_trade_contract_canister_id = some canister_id)

structure OneContractPerToken (s : CreationSystem) : Prop where
  ledgers : s.data.ledgers.Nodup
  one_in_flight : s.calls.length ≤ 1
  kept : ∀ canister_id q, (canister_id, q) ∈ s.created → Kept s canister_id q
  resumes : ∀ m canister_id, s.data.mid_call_data = some m → m.lock = false →
    m.icrc1token_trade_contract_canister_id = some canister_id → Resumes s.data canister_id

theorem CreationInv.resumes {s : CreationSystem} (h : CreationInv s) {m : MidCallData}
    {canister_id : Principal} (hmid : s.data.mid_call_data = some m) (hlock : m.lock = false)
    (hid : m.icrc1token_trade_contract_canister_id = some canister_id) :
    Resumes s.data canister_id := by
  intro env
  obtain ⟨r, heq, hends, hnot⟩ := h.continues env hmid hlock
  refine ⟨r, heq, ?_⟩
  cases hends with
  | asks hnone | gives_up hnone =>
    rw [show m.icrc1token_trade_contract_canister_id = none from hnone] at hid
    cases hid
  | installs hsame =>
    exact Or.inl ⟨_, _, _, rfl, Option.some.inj (hsame.symm.trans hid)⟩
  | keeps => exact Or.inr ⟨_, _, rfl, rfl, rfl, hid⟩
  | lists => exact absurd rfl (hnot _)

/-- In every run a token has one trade contract and no canister is lost. -/
theorem one_contract_per_token {cts_id cycles_bank_id : Principal} {s : CreationSystem}
    (hr : CreationReachable cts_id cycles_bank_id s) : OneContractPerToken s := by
  have h := creation_inv hr
  refine ⟨h.ledgers, ?_, h.kept, fun m canister_id => h.resumes⟩
  rcases h.stands with ⟨-, hcalls⟩ | ⟨-, -, -, -, -, hcalls⟩ | ⟨-, -, -, -, -, hcalls⟩
  · simp [hcalls]
  · simp [hcalls]
  · simp [hcalls]

/-! A run: a canister is created for a ledger, its code fails to install, and it waits. -/

namespace Sample

def id (n : Nat) : Principal := .of_byte (UInt8.ofNat n)

def env : Env := { now := 1, id := id 1, canister_balance := 40 * Bank.TRILLION, encode_one := fun _ => .ok [] }

def quest : ControllerCreateIcrc1TokenTradeContractQuest := ⟨id 5, 10⟩

def first : MidCallData := ⟨1, true, quest, none, none⟩

def asking : CreateCall :=
  ⟨first, .create_canister ⟨some [id 1, id 2], none, some (500 * MiB), none⟩ (7 * Bank.TRILLION)⟩

def withCanister : MidCallData := { first with icrc1token_trade_contract_canister_id := some (id 7) }

def installing : CreateCall := ⟨withCanister, .install_code ⟨.install, id 7, [], []⟩ (List.replicate 32 0)⟩

def waiting : CreationSystem :=
  ⟨(CMMainData.new (id 2) (id 3)).write_mid_call_data (some { withCanister with lock := false }), [],
    [(id 7, quest)]⟩

def locked : CMMainData := (CMMainData.new (id 2) (id 3)).write_mid_call_data (some first)

theorem waiting_reachable : CreationReachable (id 2) (id 3) waiting := by
  have hcreate : controller_create_trade_contract env quest (.new (id 2) (id 3)) =
      .ok (some (locked, .call asking)) := rfl
  have hcreated : create_canister_reply env asking (.ok (id 7)) locked =
      some (locked, .call installing) := rfl
  have hrefused : install_code_reply env installing (List.replicate 32 0) (.error (5, "")) locked =
      some (waiting.data, .failed (.MidCallError (.InstallCodeIcrc1TokenTradeContractCallError (5, "")))) :=
    rfl
  have hasks : CreationStep ⟨.new (id 2) (id 3), [], []⟩ ⟨locked, [asking], []⟩ :=
    .create (s := ⟨.new (id 2) (id 3), [], []⟩) hcreate
  have hcalls : [asking] = [] ++ asking :: [] := rfl
  have hinstalls : CreationStep ⟨locked, [asking], []⟩ ⟨locked, [installing], [(id 7, quest)]⟩ :=
    .canister_created (s := ⟨locked, [asking], []⟩) hcalls rfl hcreated
  have hcalls : [installing] = [] ++ installing :: [] := rfl
  have hwaits : CreationStep ⟨locked, [installing], [(id 7, quest)]⟩ waiting :=
    .code_installed (s := ⟨locked, [installing], [(id 7, quest)]⟩) hcalls rfl hrefused
  exact .next (.next (.next (.start rfl) hasks) hinstalls) hwaits

end Sample

theorem one_contract_while_waiting : OneContractPerToken Sample.waiting :=
  one_contract_per_token Sample.waiting_reachable

end Cts.Main
