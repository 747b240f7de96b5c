import Cts.Bank.Books
import Cts.Lib.MessagePack

/-!
# The bytes of a log

A slot of the log holds 270 bytes. How many a log takes is told from how `rmp_serde` writes its parts;
the serializer itself is a parameter.
-/

namespace Cts.Bank

open Lib Lib.MessagePack

/-! ## What is written -/

def utf8 (name : String) : List Byte := name.toList.map (fun c => UInt8.ofNat c.toNat)

def optionValue {α : Type} (value : α → Value) : Option α → Value
  | none => .nil
  | some a => value a

def u128Value (n : Nat) : Value := .bin (bigEndian 16 n)

def variantValue (name : String) (fields : List Value) : Value := .single (.str (utf8 name)) (.array fields)

def principalValue (p : Principal) : Value := .bin p.bytes

def subaccountValue (s : IcrcSubaccount) : Value := .array (s.bytes.map fun b => .uint b.toNat)

def icrcIdValue (id : IcrcId) : Value :=
  .array [principalValue id.owner, optionValue subaccountValue id.subaccount]

def MintKind.value : MintKind → Value
  | .CyclesIn from_canister => variantValue "CyclesIn" [principalValue from_canister]
  | .CMC caller icp_block_height => variantValue "CMC" [principalValue caller, .uint icp_block_height]

def Operation.value : Operation → Value
  | .Mint «to» kind => variantValue "Mint" [icrcIdValue «to», kind.value]
  | .Burn «from» for_canister => variantValue "Burn" [icrcIdValue «from», principalValue for_canister]
  | .Xfer «from» «to» => variantValue "Xfer" [icrcIdValue «from», icrcIdValue «to»]

def LogTX.value (tx : LogTX) : Value :=
  .array [tx.op.value, optionValue u128Value tx.fee, u128Value tx.amt, optionValue .bin tx.memo,
    optionValue .uint tx.ts]

def Log.value (log : Log) : Value :=
  .array [.uint log.ts, optionValue u128Value log.fee, log.tx.value]

/-- `rmp_serde::to_vec` writes a value in the bytes that the format gives its parts. -/
def RmpSizes (to_vec : Value → List Byte) : Prop := ∀ v, (to_vec v).length = v.size

def Log.to_bytes (to_vec : Value → List Byte) (log : Log) : List Byte := to_vec log.value

/-- `max_size` of `Log::BOUND`. -/
def LOG_MAX_SIZE : Nat := 270

/-! ## Sizes -/

/-- The bytes of an optional subaccount. -/
def IcrcId.subaccountSize (id : IcrcId) : Nat :=
  match id.subaccount with
  | none => 1
  | some s => 35 + s.bytes.countP (fun b => 128 ≤ b)

def memoSize (memo : Option (List Byte)) : Nat :=
  match memo with
  | none => 1
  | some m => 2 + m.length

theorem principal_size (p : Principal) : (principalValue p).size = 2 + p.bytes.length := by
  have hle := p.length_le
  unfold principalValue Value.size binHeaderSize
  rw [if_pos (by omega)]

theorem icrc_id_size (id : IcrcId) :
    (icrcIdValue id).size = 3 + id.owner.bytes.length + IcrcId.subaccountSize id := by
  have hsub : (optionValue subaccountValue id.subaccount).size = IcrcId.subaccountSize id := by
    unfold IcrcId.subaccountSize optionValue
    cases id.subaccount with
    | none => rfl
    | some s =>
      have hlen : (s.bytes.map fun b => Value.uint b.toNat).length = 32 := by
        rw [List.length_map, s.length_eq]
      simp only [subaccountValue, Value.size, hlen, sizeAll_bytes, s.length_eq]
      exact (Nat.add_assoc _ _ _).symm
  simp only [icrcIdValue, Value.size, sizeAll, principal_size, hsub, List.length_cons, List.length_nil,
    arrayHeaderSize]
  simp
  omega

theorem subaccountSize_le (id : IcrcId) : IcrcId.subaccountSize id ≤ 67 := by
  unfold IcrcId.subaccountSize
  cases id.subaccount with
  | none => decide
  | some s =>
    have hle := List.countP_le_length (p := fun b : Byte => decide (128 ≤ b)) (l := s.bytes)
    rw [s.length_eq] at hle
    simp only
    omega

theorem uintSize_le (n : Nat) : uintSize n ≤ 9 := by
  unfold uintSize
  split_ifs <;> omega

theorem variant_size (name : String) (fields : List Value) (hname : (utf8 name).length < 32)
    (hfields : fields.length < 16) :
    (variantValue name fields).size = 3 + (utf8 name).length + sizeAll fields := by
  simp only [variantValue, Value.size, strHeaderSize, arrayHeaderSize, if_pos hname, if_pos hfields]
  omega

theorem xfer_size («from» «to» : IcrcId) : (Operation.Xfer «from» «to»).value.size =
    13 + «from».owner.bytes.length + «to».owner.bytes.length + IcrcId.subaccountSize «from» +
      IcrcId.subaccountSize «to» := by
  have hname : (utf8 "Xfer").length = 4 := rfl
  rw [Operation.value, variant_size _ _ (by rw [hname]; decide) (by simp), hname]
  simp only [sizeAll, icrc_id_size]
  omega

theorem mint_or_burn_size {op : Operation} (h : ∀ «from» «to», op ≠ .Xfer «from» «to») :
    op.value.size ≤ 152 := by
  cases op with
  | Xfer «from» «to» => exact absurd rfl (h «from» «to»)
  | Mint «to» kind =>
    have hname : (utf8 "Mint").length = 4 := rfl
    have howner := to.owner.length_le
    have hsub := subaccountSize_le «to»
    have hkind : kind.value.size ≤ 46 := by
      cases kind with
      | CyclesIn from_canister =>
        have hname : (utf8 "CyclesIn").length = 8 := rfl
        have hlen := from_canister.length_le
        rw [MintKind.value, variant_size _ _ (by rw [hname]; decide) (by simp), hname]
        simp only [sizeAll, principal_size]
        omega
      | CMC caller icp_block_height =>
        have hname : (utf8 "CMC").length = 3 := rfl
        have hlen := caller.length_le
        have hheight := uintSize_le icp_block_height
        rw [MintKind.value, variant_size _ _ (by rw [hname]; decide) (by simp), hname]
        simp only [sizeAll, principal_size, Value.size]
        omega
    rw [Operation.value, variant_size _ _ (by rw [hname]; decide) (by simp), hname]
    simp only [sizeAll, icrc_id_size]
    omega
  | Burn «from» for_canister =>
    have hname : (utf8 "Burn").length = 4 := rfl
    have howner := from.owner.length_le
    have hsub := subaccountSize_le «from»
    have hlen := for_canister.length_le
    rw [Operation.value, variant_size _ _ (by rw [hname]; decide) (by simp), hname]
    simp only [sizeAll, icrc_id_size, principal_size]
    omega

/-- What every log has in common: one of its two fees, a short memo, no time of the caller's. -/
structure LogChecked (log : Log) : Prop where
  fee : log.fee.isSome = !log.tx.fee.isSome
  memo : ∀ m, log.tx.memo = some m → m.length ≤ 32
  ts : log.tx.ts = none

theorem u128_size (n : Nat) : (u128Value n).size = 18 := by
  unfold u128Value Value.size
  rw [bigEndian_length]
  rfl

theorem LogChecked.size {log : Log} (h : LogChecked log) :
    log.value.size = 40 + uintSize log.ts + log.tx.op.value.size + memoSize log.tx.memo := by
  have hfees : (optionValue u128Value log.fee).size + (optionValue u128Value log.tx.fee).size = 19 := by
    have hfee := h.fee
    cases hf : log.fee <;> cases hg : log.tx.fee <;>
      simp [hf, hg, optionValue, u128_size, Value.size] at hfee ⊢
  have hmemo : (optionValue .bin log.tx.memo).size = memoSize log.tx.memo := by
    have hle := h.memo
    cases hm : log.tx.memo with
    | none => rfl
    | some m =>
      have hlen := hle m hm
      simp only [optionValue, memoSize, Value.size, binHeaderSize, if_pos (show m.length < 2 ^ 8 by omega)]
  have hts : (optionValue .uint log.tx.ts).size = 1 := by
    rw [h.ts]
    rfl
  simp only [Log.value, LogTX.value, Value.size, sizeAll, u128_size, hmemo, hts, List.length_cons,
    List.length_nil, arrayHeaderSize]
  simp
  omega

/-- A mint, a burn, or a transfer whose accounts, memo and time are not too long together. -/
def Narrow (log : Log) : Prop :=
  ∀ «from» «to», log.tx.op = .Xfer «from» «to» →
    uintSize log.ts + memoSize log.tx.memo + «from».owner.bytes.length + «to».owner.bytes.length +
      IcrcId.subaccountSize «from» + IcrcId.subaccountSize «to» ≤ 217

theorem LogChecked.fits_iff {log : Log} (h : LogChecked log) :
    log.value.size ≤ LOG_MAX_SIZE ↔ Narrow log := by
  have hsize := h.size
  have hmax : LOG_MAX_SIZE = 270 := rfl
  by_cases hxfer : ∃ «from» «to», log.tx.op = .Xfer «from» «to»
  · obtain ⟨f, t, hop⟩ := hxfer
    rw [hop, xfer_size] at hsize
    constructor
    · intro hle f' t' hop'
      obtain ⟨rfl, rfl⟩ := Operation.Xfer.inj (hop.symm.trans hop')
      omega
    · intro hnarrow
      have hle := hnarrow f t hop
      omega
  · have hop : ∀ f t, log.tx.op ≠ .Xfer f t := fun f t h => hxfer ⟨f, t, h⟩
    have hle := mint_or_burn_size hop
    have huint := uintSize_le log.ts
    have hmemo : memoSize log.tx.memo ≤ 34 := by
      unfold memoSize
      split
      · omega
      · have hlen := h.memo _ (by assumption)
        omega
    constructor
    · intro _ f t hop'
      exact absurd hop' (hop f t)
    · intro _
      omega

/-! ## The logs of a run -/

/-- What every method checks of a quest before it goes on. -/
structure QuestChecked (memo : Option (List Byte)) (created_at_time : Option Nat) : Prop where
  memo : ∀ m, memo = some m → m.length ≤ 32
  created_at_time : created_at_time = none

theorem memo_le_of_check {memo : Option (List Byte)} (h : ¬ memo_too_long memo = true) :
    ∀ m, memo = some m → m.length ≤ 32 := by
  rintro m rfl
  simpa [memo_too_long] using h

theorem QuestChecked.log {memo : Option (List Byte)} {created_at_time : Option Nat}
    (h : QuestChecked memo created_at_time) (ts charged amt : Nat) (fee : Option Nat) (op : Operation) :
    LogChecked ⟨ts, log_fee fee charged, ⟨op, fee, amt, memo, created_at_time⟩⟩ := by
  refine ⟨?_, h.memo, h.created_at_time⟩
  unfold log_fee
  cases fee <;> rfl

def MintChecked (d : MintCyclesMidCallData) : Prop :=
  QuestChecked d.quest.memo d.quest.created_at_time

theorem MintChecked.of_quest {d d' : MintCyclesMidCallData} (h : MintChecked d)
    (hquest : d'.quest = d.quest) : MintChecked d' := by
  unfold MintChecked
  rw [hquest]
  exact h

/-- What a piece of a mint adds to the logs, the records and the calls. -/
structure PieceChecked (b : BankState) (r : BankState × MintProgress) : Prop where
  logs : ∀ log ∈ r.1.logs, log ∈ b.logs ∨ LogChecked log
  records : ∀ u d, r.1.cb_data.users_mint_cycles.get u = some d →
    b.cb_data.users_mint_cycles.get u = some d ∨ MintChecked d
  calls : ∀ c ∈ r.2.calls, MintChecked c.mid_call_data

section Pieces

variable {user_id id : Principal} {d : MintCyclesMidCallData} {canister_balance now : Nat} {b : BankState}

theorem insert_mint_checked (hd : MintChecked d) (e : MintCyclesError) :
    PieceChecked b (insert_mint b user_id d, .failed e) := by
  refine ⟨fun log hlog => Or.inl hlog, ?_, fun c hc => by cases hc⟩
  rw [insert_mint_users]
  exact OrdMap.forall_insert (fun _ _ hget => Or.inl hget) (Or.inr hd)

theorem MintPiece.checked {r : BankState × MintProgress} (h : MintPiece user_id d b r)
    (hd : MintChecked d) : PieceChecked b r := by
  cases h with
  | trapped => exact ⟨fun _ hlog => Or.inl hlog, fun _ _ hget => Or.inl hget, fun _ hc => by cases hc⟩
  | called await =>
    refine ⟨fun _ hlog => Or.inl hlog, fun _ _ hget => Or.inl hget, fun c hc => ?_⟩
    obtain rfl := List.mem_singleton.mp hc
    exact hd
  | unlocked e =>
    have hunlocked : MintChecked { d with lock := false } := hd
    exact insert_mint_checked hunlocked e
  | removed e =>
    refine ⟨fun _ hlog => Or.inl hlog, ?_, fun c hc => by cases hc⟩
    rw [remove_mint_users]
    exact OrdMap.forall_remove fun _ _ hget => Or.inl hget
  | credited cmc_cycles icp_block_height now hb hlog _ =>
    subst hb hlog
    refine ⟨fun log hlog => ?_, ?_, fun c hc => by cases hc⟩
    · rcases List.mem_append.mp hlog with hlog | hlog
      · exact Or.inl hlog
      · obtain rfl := List.mem_singleton.mp hlog
        exact Or.inr (hd.log _ _ _ _ _)
    · refine OrdMap.forall_remove fun _ _ hget => Or.inl ?_
      rwa [add_cycles_balance_users] at hget

theorem PieceChecked.after_insert {r : BankState × MintProgress} (hd : MintChecked d)
    (h : PieceChecked (insert_mint b user_id d) r) : PieceChecked b r := by
  refine ⟨h.logs, fun u d' hget => ?_, h.calls⟩
  rcases h.records u d' hget with hget | hchecked
  · exact (insert_mint_checked hd .CBIsBusy).records u d' hget
  · exact Or.inr hchecked

end Pieces

/-- All logs are checked, and so is what a log may still come from. -/
structure LogsChecked (s : BankSystem) : Prop where
  logs : ∀ log ∈ s.bank.logs, LogChecked log
  records : ∀ u d, s.bank.cb_data.users_mint_cycles.get u = some d → MintChecked d
  mints : ∀ c ∈ s.mints, MintChecked c.mid_call_data
  cycles_outs : ∀ c ∈ s.cycles_outs, QuestChecked c.q.memo c.q.created_at_time

theorem LogsChecked.after_mint {s : BankSystem} (h : LogsChecked s) {mints : List MintCall}
    (hmints : ∀ c ∈ mints, c ∈ s.mints) {r : BankState × MintProgress} (hr : PieceChecked s.bank r)
    (events : List BankEvent) (user_id : Principal) : LogsChecked (s.afterMint mints events user_id r) := by
  constructor
  · intro log hlog
    exact (hr.logs log hlog).elim (h.logs log) id
  · intro u d hget
    exact (hr.records u d hget).elim (h.records u d) id
  · intro c hc
    rcases List.mem_append.mp hc with hc | hc
    · exact hr.calls c hc
    · exact h.mints c (hmints c hc)
  · exact h.cycles_outs

theorem LogsChecked.push {s : BankSystem} (h : LogsChecked s) {b : BankState} {log : Log}
    (hlogs : b.logs = s.bank.logs ++ [log])
    (husers : b.cb_data.users_mint_cycles = s.bank.cb_data.users_mint_cycles) (hlog : LogChecked log)
    {outs : List CyclesOutCall} (houts : ∀ c ∈ outs, c ∈ s.cycles_outs) (held : Nat)
    (history : List BankEvent) : LogsChecked ⟨b, held, outs, s.mints, history⟩ := by
  constructor
  · intro l hl
    rw [hlogs] at hl
    rcases List.mem_append.mp hl with hl | hl
    · exact h.logs l hl
    · obtain rfl := List.mem_singleton.mp hl
      exact hlog
  · intro u d hget
    rw [husers] at hget
    exact h.records u d hget
  · exact h.mints
  · exact fun c hc => h.cycles_outs c (houts c hc)

section Methods

variable {caller id : Principal} {now : Nat} {b b' : BankState}

theorem icrc1_transfer_log {q : Icrc1TransferQuest} {height : Nat}
    (h : icrc1_transfer caller now q b = .ok (height, b')) :
    ∃ log pointers, b' = (add_cycles_balance (subtract_cycles_balance b ⟨caller, q.from_subaccount⟩
      (saturating_add q.amount BANK_TRANSFER_FEE)) q.to q.amount).logged log pointers ∧ LogChecked log := by
  rw [icrc1_transfer] at h
  split at h
  · cases h
  · rename_i htime
    split_ifs at h with hmemo hfee hbal hself
    · cases h
      exact ⟨_, _, rfl, QuestChecked.log ⟨memo_le_of_check hmemo, htime⟩ _ _ _ _ _⟩
    · cases h
      exact ⟨_, _, rfl, QuestChecked.log ⟨memo_le_of_check hmemo, htime⟩ _ _ _ _ _⟩

theorem cycles_in_log {q : CyclesInQuest} {available height : Nat}
    (h : cycles_in caller now available q b = .ok (height, b')) :
    ∃ log pointers, b' = (add_cycles_balance b q.to q.cycles).logged log pointers ∧ LogChecked log := by
  rw [cycles_in] at h
  split at h
  · cases h
  · rename_i htime
    split_ifs at h with hfee hmemo hbal
    cases h
    exact ⟨_, _, rfl, QuestChecked.log ⟨memo_le_of_check hmemo, htime⟩ _ _ _ _ _⟩

theorem cycles_out_reply_log {c : CyclesOutCall} (hc : QuestChecked c.q.memo c.q.created_at_time)
    (now : Nat) (b : BankState) :
    ∃ log pointers, (cycles_out_reply c (.ok ()) now b).2 = b.logged log pointers ∧ LogChecked log :=
  ⟨_, _, rfl, hc.log _ _ _ _ _⟩

theorem cycles_out_checked {q : CyclesOutQuest} {c : CyclesOutCall}
    (h : cycles_out caller now q b = .ok (c, b')) : QuestChecked c.q.memo c.q.created_at_time := by
  rw [cycles_out] at h
  split at h
  · cases h
  · rename_i htime
    split_ifs at h with hfee hmemo hbal
    cases h
    exact ⟨memo_le_of_check hmemo, htime⟩

theorem mint_cycles_start_checked {canister_balance : Nat} {q : MintCyclesQuest}
    {r : BankState × MintProgress} (h : mint_cycles caller id canister_balance now q b = .ok r) :
    PieceChecked b r := by
  rw [mint_cycles] at h
  split at h
  · cases h
  split at h
  · cases h
  rename_i htime
  iterate 3
    split at h
    · cases h
  split at h
  · cases h
  rename_i hmemo
  iterate 2
    split at h
    · cases h
  cases h
  have hd : MintChecked ⟨now, true, q, BANK_TRANSFER_FEE, none, none⟩ := ⟨memo_le_of_check hmemo, htime⟩
  exact ((mint_cycles_piece _ _ _ _ _ _).checked hd).after_insert hd

end Methods

theorem logs_checked_step {id : Principal} {s s' : BankSystem} (h : LogsChecked s)
    (hstep : BankStep id s s') : LogsChecked s' := by
  have hmem {α : Type} {l pre post : List α} {c : α} (hc : l = pre ++ c :: post) :
      c ∈ l ∧ ∀ x ∈ pre ++ post, x ∈ l := by
    subst hc
    exact ⟨by simp, fun x hx => (List.mem_append.mp hx).elim (List.mem_append_left _)
      fun hx => List.mem_append_right _ (List.mem_cons_of_mem _ hx)⟩
  cases hstep with
  | icrc1_transfer hq =>
    obtain ⟨log, pointers, rfl, hlog⟩ := icrc1_transfer_log hq
    exact h.push (by simp) (by simp) hlog (fun _ hc => hc) _ _
  | cycles_in _ _ hq =>
    obtain ⟨log, pointers, rfl, hlog⟩ := cycles_in_log hq
    exact h.push (by simp) (by simp) hlog (fun _ hc => hc) _ _
  | @cycles_out caller now q c b hheld hq =>
    have hchecked := cycles_out_checked hq
    obtain ⟨-, -, rfl⟩ := cycles_out_ok hq
    refine ⟨by simpa using h.logs, by simpa using h.records, h.mints, fun x hx => ?_⟩
    rcases List.mem_cons.mp hx with rfl | hx
    · exact hchecked
    · exact h.cycles_outs x hx
  | @cycles_out_deposited pre post c now hc =>
    obtain ⟨hin, hrest⟩ := hmem hc
    obtain ⟨log, pointers, heq, hlog⟩ := cycles_out_reply_log (h.cycles_outs c hin) now s.bank
    rw [heq]
    exact h.push (by simp) (by simp) hlog hrest _ _
  | cycles_out_failed hc =>
    rw [cycles_out_reply_error]
    exact ⟨by simpa using h.logs, by simpa using h.records, h.mints,
      fun x hx => h.cycles_outs x ((hmem hc).2 x hx)⟩
  | mint_cycles hq => exact h.after_mint (fun _ hc => hc) (mint_cycles_start_checked hq) _ _
  | complete_mint_cycles hq =>
    obtain ⟨d, hget, -, rfl⟩ := complete_mint_cycles_ok hq
    have hd : MintChecked { d with lock := true } := h.records _ d hget
    exact h.after_mint (fun _ hc => hc) (((mint_cycles_piece _ _ _ _ _ _).checked hd).after_insert hd) _ _
  | icp_transfer_refused hc | icp_transferred hc =>
    obtain ⟨hin, hrest⟩ := hmem hc
    obtain ⟨d, hquest, hpiece⟩ := mint_cycles_transferred_piece _ _ _ _ _ _
    exact h.after_mint hrest (hpiece.checked ((h.mints _ hin).of_quest hquest)) _ _
  | cmc_answered hc =>
    obtain ⟨hin, hrest⟩ := hmem hc
    obtain ⟨d, hquest, hpiece⟩ := mint_cycles_notified_piece _ _ _ _
    exact h.after_mint hrest (hpiece.checked ((h.mints _ hin).of_quest hquest)) _ _
  | cmc_top_up => exact ⟨h.logs, h.records, h.mints, h.cycles_outs⟩
  | clear_user_logs_pointers_cache => exact ⟨h.logs, h.records, h.mints, h.cycles_outs⟩

theorem logs_checked {id : Principal} {held : Nat} {s : BankSystem} (hr : BankReachable id held s) :
    LogsChecked s := by
  refine hr.invariant ?_ fun s s' _ h hstep => logs_checked_step h hstep
  rintro s rfl
  refine ⟨fun log hlog => ?_, fun u d hget => ?_, fun c hc => ?_, fun c hc => ?_⟩
  · cases hlog
  · simp [BankState.new] at hget
  · cases hc
  · cases hc

/-- A log that the bank makes fits its slot just when it is narrow. -/
theorem log_fits_iff {to_vec : Value → List Byte} (hsizes : RmpSizes to_vec) {id : Principal} {held : Nat}
    {s : BankSystem} (hr : BankReachable id held s) {log : Log} (hlog : log ∈ s.bank.logs) :
    (log.to_bytes to_vec).length ≤ LOG_MAX_SIZE ↔ Narrow log := by
  unfold Log.to_bytes
  rw [hsizes]
  exact ((logs_checked hr).logs log hlog).fits_iff

/-! A run: cycles come in for an account whose bytes are all large, and go to another one. -/

def wideId (b : Byte) : IcrcId :=
  ⟨⟨List.replicate 29 b, by simp⟩, some ⟨List.replicate 32 b, by simp⟩⟩

def wideCyclesIn : CyclesInQuest := { someCyclesIn (3 * TRILLION) with «to» := wideId 255 }

def wideTransfer : Icrc1TransferQuest :=
  { «to» := wideId 254, fee := none, memo := some (List.replicate 32 0)
    from_subaccount := (wideId 255).subaccount, created_at_time := none, amount := TRILLION }

def wideBroughtIn : BankSystem :=
  { bank := ((cycles_in someUser 0 (4 * TRILLION) wideCyclesIn .new).getD (0, .new)).2
    held := 0 + cycles_in_accept wideCyclesIn
    cycles_outs := [], mints := [], history := [] ++ [.cycled_in wideCyclesIn.cycles] }

def wide : BankSystem :=
  { wideBroughtIn with
    bank := ((icrc1_transfer (wideId 255).owner 1700000000000000000 wideTransfer wideBroughtIn.bank).getD
      (0, .new)).2
    history := wideBroughtIn.history ++ [.transferred] }

theorem wide_reachable : BankReachable bankId 0 wide := by
  have hin := Outcome.eq_ok (o := cycles_in someUser 0 (4 * TRILLION) wideCyclesIn .new) (0, .new)
    (by decide +kernel)
  have hout := Outcome.eq_ok
    (o := icrc1_transfer (wideId 255).owner 1700000000000000000 wideTransfer wideBroughtIn.bank)
    (0, .new) (by decide +kernel)
  have hcame : BankStep bankId ⟨.new, 0, [], [], []⟩ wideBroughtIn :=
    .cycles_in (by decide +kernel) (by decide +kernel) hin
  exact .next (.next (.start rfl) hcame) (.icrc1_transfer hout)

def wideXfer : Log :=
  ⟨1700000000000000000, some BANK_TRANSFER_FEE,
    ⟨.Xfer (wideId 255) (wideId 254), none, TRILLION, some (List.replicate 32 0), none⟩⟩

/-- An account with fewer large bytes. -/
def narrowId : IcrcId :=
  ⟨(wideId 254).owner, some ⟨List.replicate 18 0 ++ List.replicate 14 254, by simp⟩⟩

def narrowXfer : Log :=
  ⟨1700000000000000000, some BANK_TRANSFER_FEE,
    ⟨.Xfer (wideId 255) narrowId, none, TRILLION, some (List.replicate 32 0), none⟩⟩

def narrow : BankSystem :=
  wide.transferred (wideId 255).owner 1700000000000000000 { wideTransfer with «to» := narrowId }

theorem narrow_reachable : BankReachable bankId 0 narrow :=
  transferred_reachable wide_reachable _ _ _

theorem narrow_transfer_fits : narrowXfer.value.size = LOG_MAX_SIZE ∧
    (narrowXfer.to_bytes encode).length ≤ LOG_MAX_SIZE := by
  refine ⟨by decide +kernel, ?_⟩
  refine (log_fits_iff encode_length narrow_reachable (by decide +kernel)).mpr fun f t hop => ?_
  obtain ⟨rfl, rfl⟩ := Operation.Xfer.inj hop
  decide +kernel

/-- Two such accounts and a memo are 288 bytes. -/
theorem wide_transfer_does_not_fit :
    ¬ ∀ (to_vec : Value → List Byte) (id : Principal) (held : Nat) (s : BankSystem) (log : Log),
      RmpSizes to_vec → BankReachable id held s → log ∈ s.bank.logs →
        (log.to_bytes to_vec).length ≤ LOG_MAX_SIZE := by
  intro h
  have hle := h encode _ _ _ wideXfer encode_length wide_reachable (by decide +kernel)
  unfold Log.to_bytes at hle
  rw [encode_length] at hle
  have hsize : wideXfer.value.size = 288 := by decide +kernel
  rw [hsize] at hle
  exact absurd hle (by decide)

end Cts.Bank
