import Cts.Bank.Refunds

/-!
# Every mint can be finished

Replies and calls of `complete_mint_cycles` that anyone can make end all mints, as long as the bank
holds what a notify asks for.
-/

namespace Cts.Bank

open Lib Lib.Tickets

/-! ## The way there -/

/-- What the ICP ledger makes of each transfer, and the cycles that the minting canister mints for each
block. -/
structure Outside where
  ledger : MintCall → Except LedgerTopupCyclesCmcIcpTransferError Nat
  cmc : Nat → Nat

/-- What ends mints. The caller of `complete_mint_cycles` is anyone, the canister's balance is what it
holds, and the minting canister tops up once for a block that it was asked about, and then answers. -/
inductive FinishStep (id : Principal) (o : Outside) : BankSystem → BankSystem → Prop
  | icp_transfer_refused {s : BankSystem} {pre post : List MintCall} {c : MintCall}
      {args : IcpTransferArgs} {e : LedgerTopupCyclesCmcIcpTransferError} {now : Nat}
      (hc : s.mints = pre ++ c :: post) (ha : c.await = .icp_transfer args) (hl : o.ledger c = .error e) :
      FinishStep id o s (s.afterMint (pre ++ post) [] c.user_id
        (mint_cycles_transferred c id (.error e) s.held now s.bank))
  | icp_transferred {s : BankSystem} {pre post : List MintCall} {c : MintCall}
      {args : IcpTransferArgs} {block_height now : Nat}
      (hc : s.mints = pre ++ c :: post) (ha : c.await = .icp_transfer args)
      (hl : o.ledger c = .ok block_height)
      (hr : (mint_cycles_transferred c id (.ok block_height) s.held now s.bank).2 ≠ .trap) :
      FinishStep id o s (s.afterMint (pre ++ post) [.icp_transferred c.user_id block_height] c.user_id
        (mint_cycles_transferred c id (.ok block_height) s.held now s.bank))
  | complete_mint_cycles {s : BankSystem} {user_id : Principal} {now : Nat}
      {r : BankState × MintProgress} (caller : Principal)
      (h : complete_mint_cycles (some user_id) caller id s.held now s.bank = .ok r)
      (hr : r.2 ≠ .trap) : FinishStep id o s (s.afterMint s.mints [] user_id r)
  | cmc_topped_up {s : BankSystem} {pre post : List MintCall} {c : MintCall} {block_index : Nat}
      {canister_id : Principal} (hc : s.mints = pre ++ c :: post)
      (ha : c.await = .cmc_notify block_index canister_id)
      (hn : block_index ∉ (toppedUp s.history).map Prod.fst) :
      FinishStep id o s { s with
        held := s.held + o.cmc block_index
        history := s.history ++ [.cmc_topped_up block_index (o.cmc block_index)] }
  | cmc_answered {s : BankSystem} {pre post : List MintCall} {c : MintCall} {block_index : Nat}
      {canister_id : Principal} {now : Nat} (hc : s.mints = pre ++ c :: post)
      (ha : c.await = .cmc_notify block_index canister_id)
      (ht : (block_index, o.cmc block_index) ∈ toppedUp s.history)
      (hr : (mint_cycles_notified c (.ok (o.cmc block_index)) now s.bank).2 ≠ .trap) :
      FinishStep id o s (s.afterMint (pre ++ post)
        [.cmc_answered c.user_id block_index (.ok (o.cmc block_index))] c.user_id
        (mint_cycles_notified c (.ok (o.cmc block_index)) now s.bank))

theorem FinishStep.bank {id : Principal} {o : Outside} {s s' : BankSystem} (h : FinishStep id o s s') :
    BankStep id s s' := by
  cases h with
  | icp_transfer_refused hc ha _ => exact .icp_transfer_refused hc ha
  | icp_transferred hc ha _ hr => exact .icp_transferred hc ha hr
  | complete_mint_cycles caller h hr => exact .complete_mint_cycles h hr
  | cmc_topped_up => exact .cmc_top_up
  | cmc_answered hc ha _ hr => exact .cmc_answered hc ha hr

theorem FinishStep.held_le {id : Principal} {o : Outside} {s s' : BankSystem}
    (h : FinishStep id o s s') : s.held ≤ s'.held := by
  cases h with
  | cmc_topped_up => exact Nat.le_add_right _ _
  | _ => exact le_rfl

/-- The heights that the transfers of these calls will have. -/
def Outside.awaited (o : Outside) (mints : List MintCall) : List (Principal × Nat) :=
  mints.filterMap fun c =>
    match c.await, o.ledger c with
    | .icp_transfer _, .ok block_height => some (c.user_id, block_height)
    | _, _ => none

/-- The log of a mint with the cycles of its block. -/
def Outside.MintedFor (o : Outside) (log : Log) : Prop :=
  ∃ «to» user_id b, log.tx.op = .Mint «to» (.CMC user_id b) ∧
    log.tx.amt = saturating_sub (o.cmc b) BANK_TRANSFER_FEE

section Histories

variable {h es : List BankEvent}

theorem CmcHonest.append (hc : CmcHonest h) (hn : ((toppedUp (h ++ es)).map Prod.fst).Nodup)
    (ha : ∀ pre post user_id b cycles, es = pre ++ .cmc_answered user_id b (.ok cycles) :: post →
      (b, cycles) ∈ toppedUp (h ++ pre)) : CmcHonest (h ++ es) := by
  refine ⟨hn, fun pre post user_id b cycles heq => ?_⟩
  rcases List.append_eq_append_iff.mp heq with ⟨as, rfl, hes⟩ | ⟨bs, hh, hes⟩
  · exact ha as post user_id b cycles hes
  · cases bs with
    | nil =>
      rw [List.append_nil] at hh
      subst hh
      rw [List.nil_append] at hes
      simpa using ha [] post user_id b cycles hes.symm
    | cons e bs =>
      obtain ⟨rfl, -⟩ := List.cons.inj hes
      exact hc.2 pre bs user_id b cycles hh

theorem CmcHonest.quiet (hc : CmcHonest h) (ht : toppedUp es = []) (ha : answers es = []) :
    CmcHonest (h ++ es) := by
  apply hc.append
  · rw [toppedUp_append, ht, List.append_nil]
    exact hc.1
  · rintro pre post user_id b cycles rfl
    rw [answers_append] at ha
    simp [answers] at ha

end Histories

/-! ## What the way keeps -/

/-- `logs` and `refunded` are those of the state where the way begins, `heights` are all heights that were
or will be returned. -/
structure Finishing (id : Principal) (held : Nat) (o : Outside) (logs : List Log)
    (refunded heights : List (Principal × Nat)) (s : BankSystem) : Prop where
  reachable : BankReachable id held s
  balance : MINIMUM_CANISTER_CYCLES_BALANCE_FOR_A_CMC_NOTIFY_MINT_CYCLES_CALL ≤ s.held
  cmc : CmcHonest s.history
  topped : ∀ e ∈ toppedUp s.history, e.2 = o.cmc e.1
  final : FinalAnswers s.history
  blocks : ∀ user_id b, ¬ RefundAnswered s.history user_id b none
  fresh : (heights.map Prod.snd).Nodup
  heights : (returnedHeights s.history ++ o.awaited s.mints).Perm heights
  refunded : refundedMints s.history = refunded
  logs : ∃ new, s.bank.logs = logs ++ new ∧ ∀ log ∈ new, o.MintedFor log

section Way

variable {id : Principal} {held : Nat} {o : Outside} {logs : List Log}
  {refunded heights : List (Principal × Nat)} {s s' : BankSystem}

abbrev BankSystem.records (s : BankSystem) : Nat := s.bank.cb_data.users_mint_cycles.len

theorem Finishing.fresh_heights (h : Finishing id held o logs refunded heights s) :
    FreshHeights s.history := by
  have hnodup := (h.heights.map Prod.snd).nodup_iff.mpr h.fresh
  rw [List.map_append] at hnodup
  exact (List.nodup_append.mp hnodup).1

theorem Finishing.step (h : Finishing id held o logs refunded heights s) (hstep : FinishStep id o s s')
    {es : List BankEvent} (hes : s'.history = s.history ++ es) (hcmc : CmcHonest (s.history ++ es))
    (htopped : ∀ e ∈ toppedUp es, e.2 = o.cmc e.1)
    (hanswers : ∀ u b r, .cmc_answered u b r ∈ es → r = .ok (o.cmc b) ∧
      ∀ u' r', .cmc_answered u' b r' ∈ s.history → isFinal r' = true → r' = .ok (o.cmc b))
    (hheights : (returnedHeights es ++ o.awaited s'.mints).Perm (o.awaited s.mints))
    (hlogs : ∃ new, s'.bank.logs = s.bank.logs ++ new ∧ ∀ log ∈ new, o.MintedFor log) :
    Finishing id held o logs refunded heights s' := by
  have hnone : refundedMints es = [] := by
    apply List.eq_nil_iff_forall_not_mem.mpr
    rintro ⟨u, b⟩ he
    obtain ⟨i, reason, hmem⟩ := mem_refundedMints.mp he
    cases (hanswers u b _ hmem).1
  refine ⟨h.reachable.next hstep.bank, h.balance.trans hstep.held_le, hes ▸ hcmc, ?_, ?_, ?_, h.fresh, ?_, ?_, ?_⟩
  · rw [hes, toppedUp_append]
    intro e he
    exact (List.mem_append.mp he).elim (h.topped e) (htopped e)
  · rw [hes]
    intro u u' b r r' hr hr' hf hf'
    rcases List.mem_append.mp hr with hr | hr <;> rcases List.mem_append.mp hr' with hr' | hr'
    · exact h.final u u' b r r' hr hr' hf hf'
    · obtain ⟨rfl, hsame⟩ := hanswers u' b r' hr'
      exact hsame u r hr hf
    · obtain ⟨rfl, hsame⟩ := hanswers u b r hr
      exact (hsame u' r' hr' hf').symm
    · rw [(hanswers u b r hr).1, (hanswers u' b r' hr').1]
  · rw [hes]
    rintro u b ⟨reason, hr⟩
    rcases List.mem_append.mp hr with hr | hr
    · exact h.blocks u b ⟨reason, hr⟩
    · cases (hanswers u b _ hr).1
  · rw [hes, returnedHeights_append, List.append_assoc]
    exact (hheights.append_left _).trans h.heights
  · rw [hes, refundedMints_append, hnone, List.append_nil]
    exact h.refunded
  · obtain ⟨old, hold, hmold⟩ := h.logs
    obtain ⟨new, hnew, hmnew⟩ := hlogs
    refine ⟨old ++ new, by rw [hnew, hold, List.append_assoc], fun log hlog => ?_⟩
    exact (List.mem_append.mp hlog).elim (hmold log) (hmnew log)

theorem Finishing.quiet (h : Finishing id held o logs refunded heights s) (hstep : FinishStep id o s s')
    {es : List BankEvent} (hes : s'.history = s.history ++ es) (ht : toppedUp es = [])
    (ha : answers es = [])
    (hheights : (returnedHeights es ++ o.awaited s'.mints).Perm (o.awaited s.mints))
    (hlogs : s'.bank.logs = s.bank.logs) : Finishing id held o logs refunded heights s' := by
  refine h.step hstep hes (h.cmc.quiet ht ha) ?_ ?_ hheights ⟨[], ?_, by simp⟩
  · rw [ht]
    simp
  · intro u b r hr
    rw [← mem_answers, ha] at hr
    exact absurd hr List.not_mem_nil
  · rw [hlogs, List.append_nil]

theorem awaited_split {mints pre post : List MintCall} {c : MintCall} (hc : mints = pre ++ c :: post) :
    (o.awaited [c] ++ o.awaited (pre ++ post)).Perm (o.awaited mints) := by
  have hperm : (c :: (pre ++ post)).Perm mints := hc ▸ List.perm_middle.symm
  have hsplit : o.awaited (c :: (pre ++ post)) = o.awaited [c] ++ o.awaited (pre ++ post) :=
    List.filterMap_append (l := [c])
  rw [← hsplit]
  exact hperm.filterMap _

/-! ## One mint is finished -/

theorem tops_up (h : Finishing id held o logs refunded heights s) {pre post : List MintCall}
    {c : MintCall} {b : Nat} {canister_id : Principal} (hc : s.mints = pre ++ c :: post)
    (ha : c.await = .cmc_notify b canister_id) :
    ∃ t, Runs (FinishStep id o) s t ∧ Finishing id held o logs refunded heights t ∧
      t.bank = s.bank ∧ t.mints = s.mints ∧ (b, o.cmc b) ∈ toppedUp t.history := by
  by_cases hb : b ∈ (toppedUp s.history).map Prod.fst
  · obtain ⟨e, he, rfl⟩ := List.mem_map.mp hb
    refine ⟨s, .start rfl, h, rfl, rfl, ?_⟩
    rw [← h.topped e he]
    exact he
  · have hstep : FinishStep id o s _ := .cmc_topped_up hc ha hb
    refine ⟨_, .next (.start rfl) hstep, h.step hstep rfl (h.cmc.append ?_ ?_) ?_ ?_ ?_ ⟨[], ?_, by simp⟩,
      rfl, rfl, ?_⟩
    · rw [toppedUp_append, List.map_append, List.nodup_append]
      refine ⟨h.cmc.1, List.nodup_singleton b, ?_⟩
      rintro x hx y hy rfl
      obtain rfl : x = b := List.mem_singleton.mp hy
      exact hb hx
    · intro pre post u b' cycles heq
      have hanswers := congrArg answers heq
      simp [answers] at hanswers
    · intro e he
      obtain rfl : e = (b, o.cmc b) := List.mem_singleton.mp he
      rfl
    · simp
    · exact List.Perm.refl _
    · exact (List.append_nil _).symm
    · rw [toppedUp_append]
      exact List.mem_append_right _ (List.mem_singleton_self _)

theorem Finishing.may_answer (h : Finishing id held o logs refunded heights s) {pre post : List MintCall}
    {c : MintCall} {b : Nat} {canister_id : Principal} (hc : s.mints = pre ++ c :: post)
    (ha : c.await = .cmc_notify b canister_id) {u : Principal}
    {r : Except LedgerTopupCyclesCmcNotifyError Nat} (hr : .cmc_answered u b r ∈ s.history)
    (hfinal : isFinal r = true) : r = .ok (o.cmc b) := by
  obtain ⟨phase, hp, hk, hclosed, hanswered⟩ := refunds_kept h.reachable h.fresh_heights
  have hphase := ((call_of_mint hp hc).1.of_cmc_notify ha).2.1
  have hticket : (mintDesk s phase).ticket c.user_id = some b := by
    change (phase c.user_id).ticket = some b
    rw [hphase]
    rfl
  obtain rfl : u = c.user_id :=
    holder_unique h.fresh_heights (hanswered.returned u b r hr) (hk.held_issued _ _ hticket)
  unfold isFinal at hfinal
  split at hfinal
  · rename_i cycles
    obtain ⟨pre, post, hsplit⟩ := List.append_of_mem hr
    have htopped := h.cmc.2 pre post c.user_id b cycles hsplit
    have hmem : (b, cycles) ∈ toppedUp s.history := by
      rw [hsplit, toppedUp_append]
      exact List.mem_append_left _ htopped
    exact congrArg Except.ok (h.topped _ hmem)
  · rename_i block_index reason
    cases block_index with
    | none => exact absurd ⟨reason, hr⟩ (h.blocks c.user_id b)
    | some i => exact absurd (mem_refundedMints.mpr ⟨i, reason, hr⟩) (hclosed.not_held _ _ hticket)
  · cases hfinal

theorem answer_finishes (h : Finishing id held o logs refunded heights s) {pre post : List MintCall}
    {c : MintCall} {b : Nat} {canister_id : Principal} (hc : s.mints = pre ++ c :: post)
    (ha : c.await = .cmc_notify b canister_id) (ht : (b, o.cmc b) ∈ toppedUp s.history) :
    ∃ t, FinishStep id o s t ∧ Finishing id held o logs refunded heights t ∧
      t.records < s.records := by
  obtain ⟨phase, hp⟩ := mints_at h.reachable
  have hat := (call_of_mint hp hc).1
  obtain ⟨hun, -, hb⟩ := hat.of_cmc_notify ha
  obtain ⟨d, hd⟩ := hat.record_of_cmc_notify ha
  obtain ⟨pointers, success, hcredit⟩ := mint_cycles_credit_eq c.user_id
    { c.mid_call_data with cmc_cycles := some (o.cmc b) } 0 s.bank rfl hb
  change mint_cycles_notified c (.ok (o.cmc b)) 0 s.bank = _ at hcredit
  have hstep : FinishStep id o s _ :=
    .cmc_answered hc ha ht (by rw [hcredit]; exact MintProgress.noConfusion)
  rw [hcredit] at hstep
  have hes : ∀ bank p, (s.afterMint (pre ++ post) [.cmc_answered c.user_id b (.ok (o.cmc b))] c.user_id
      (bank, .minted b (o.cmc b) c.mid_call_data.fee p)).history = s.history ++
        [.cmc_answered c.user_id b (.ok (o.cmc b)),
          .minted c.user_id b (o.cmc b) c.mid_call_data.fee] :=
    fun _ _ => List.append_assoc _ _ _
  refine ⟨_, hstep, h.step hstep (hes _ _) (h.cmc.append ?_ ?_) (by simp [toppedUp]) ?_ ?_
    ⟨_, logged_logs _ _ _, ?_⟩, ?_⟩
  · rw [toppedUp_append]
    exact (List.append_nil (toppedUp s.history)).symm ▸ h.cmc.1
  · intro pre' post' u b' cycles heq
    rcases pre' with _ | ⟨e, _ | ⟨e', rest⟩⟩
    · obtain ⟨heq, -⟩ := List.cons.inj heq
      obtain ⟨-, rfl, hok⟩ := BankEvent.cmc_answered.inj heq
      obtain rfl := Except.ok.inj hok
      rw [List.append_nil]
      exact ht
    · cases (List.cons.inj (List.cons.inj heq).2).1
    · simp at heq
  · intro u b' r hr
    obtain ⟨rfl, rfl, rfl⟩ : u = c.user_id ∧ b' = b ∧ r = .ok (o.cmc b) := by simpa using hr
    exact ⟨rfl, fun u' r' hr' hf' => h.may_answer hc ha hr' hf'⟩
  · have hawaited : o.awaited [c] = [] := by
      simp [Outside.awaited, ha]
    have hperm := awaited_split (o := o) hc
    rw [hawaited, List.nil_append] at hperm
    exact hperm
  · intro log hlog
    obtain rfl := List.mem_singleton.mp hlog
    exact ⟨_, c.user_id, b, rfl, congrArg (saturating_sub (o.cmc b)) hun.1⟩
  · have hlen := OrdMap.len_remove s.bank.cb_data.users_mint_cycles c.user_id d hd
    simp only [BankSystem.afterMint, BankSystem.records, logged_users, remove_mint_users,
      add_cycles_balance_users]
    omega

/-- A record that goes, in some steps. -/
def Frees (id : Principal) (held : Nat) (o : Outside) (logs : List Log)
    (refunded heights : List (Principal × Nat)) (s : BankSystem) (records : Nat) : Prop :=
  ∃ t, Runs (FinishStep id o) s t ∧ Finishing id held o logs refunded heights t ∧ t.records < records

theorem asked_frees (h : Finishing id held o logs refunded heights s) {pre post : List MintCall}
    {c : MintCall} {b : Nat} {canister_id : Principal} (hc : s.mints = pre ++ c :: post)
    (ha : c.await = .cmc_notify b canister_id) :
    Frees id held o logs refunded heights s s.records := by
  obtain ⟨s₁, hruns, h₁, hbank, hmints, htopped⟩ := tops_up h hc ha
  rw [← hmints] at hc
  obtain ⟨t, hstep, ht, hlt⟩ := answer_finishes h₁ hc ha htopped
  refine ⟨t, .next hruns hstep, ht, ?_⟩
  unfold BankSystem.records at hlt ⊢
  rwa [hbank] at hlt

theorem Frees.before {n : Nat} (hstep : FinishStep id o s s')
    (h : Frees id held o logs refunded heights s' n) : Frees id held o logs refunded heights s n := by
  obtain ⟨t, hruns, ht, hlt⟩ := h
  have hfirst : Runs (FinishStep id o) s s' := .next (.start rfl) hstep
  exact ⟨t, hfirst.trans hruns, ht, hlt⟩

theorem waiting_frees (h : Finishing id held o logs refunded heights s) {pre post : List MintCall}
    {c : MintCall} {args : IcpTransferArgs} (hc : s.mints = pre ++ c :: post)
    (ha : c.await = .icp_transfer args) : Frees id held o logs refunded heights s s.records := by
  obtain ⟨phase, hp⟩ := mints_at h.reachable
  obtain ⟨hun, -, d, hd, -⟩ := (call_of_mint hp hc).1.of_icp_transfer ha
  have hperm := awaited_split (o := o) hc
  cases hl : o.ledger c with
  | error e =>
    have hstep : FinishStep id o s (s.afterMint (pre ++ post) [] c.user_id
        (mint_cycles_transferred c id (.error e) s.held 0 s.bank)) := .icp_transfer_refused hc ha hl
    have hawaited : o.awaited [c] = [] := by
      simp [Outside.awaited, ha, hl]
    rw [hawaited, List.nil_append] at hperm
    have hes : (s.afterMint (pre ++ post) [] c.user_id
        (mint_cycles_transferred c id (.error e) s.held 0 s.bank)).history = s.history ++ [] :=
      List.append_nil _
    refine ⟨_, .next (.start rfl) hstep, h.quiet hstep hes rfl rfl hperm rfl, ?_⟩
    · have hlen := OrdMap.len_remove s.bank.cb_data.users_mint_cycles c.user_id d hd
      simp only [BankSystem.afterMint, BankSystem.records, mint_cycles_transferred, remove_mint_users]
      omega
  | ok block_height =>
    have hcall : mint_cycles_transferred c id (.ok block_height) s.held 0 s.bank = (s.bank, .call ⟨c.user_id,
          { c.mid_call_data with cmc_icp_transfer_block_height := some block_height },
          .cmc_notify block_height id⟩) := by
      simp [mint_cycles_transferred, mint_cycles_notify, hun.2, not_lt.mpr h.balance]
    have hstep : FinishStep id o s _ :=
      .icp_transferred hc ha hl (by rw [hcall]; exact MintProgress.noConfusion)
    rw [hcall] at hstep
    have hawaited : o.awaited [c] = [(c.user_id, block_height)] := by
      simp [Outside.awaited, ha, hl]
    rw [hawaited] at hperm
    have hfinishing := h.quiet hstep (List.append_nil _) rfl rfl hperm rfl
    exact .before hstep (asked_frees hfinishing (List.nil_append _).symm rfl)

theorem paused_frees (h : Finishing id held o logs refunded heights s) {u : Principal} {b : Nat}
    (hp : MintPaused s u b) : Frees id held o logs refunded heights s s.records := by
  obtain ⟨phase, hphase⟩ := mints_at h.reachable
  obtain ⟨d, hd, hlock, hb⟩ := hp
  have hat := hphase u
  rw [hd] at hat
  obtain ⟨-, hun, -, -, -⟩ := hat.of_unlocked hlock
  have hcall : complete_mint_cycles (some u) u id s.held 0 s.bank = .ok (insert_mint s.bank u { d with lock := true },
        .call ⟨u, { d with lock := true }, .cmc_notify b id⟩) := by
    simp [complete_mint_cycles, complete_mint_cycles_, hd, hlock, mint_cycles_, hb, mint_cycles_notify,
      hun.2, not_lt.mpr h.balance]
  have hstep : FinishStep id o s _ := .complete_mint_cycles u hcall MintProgress.noConfusion
  have hes : (s.afterMint s.mints [] u (insert_mint s.bank u { d with lock := true },
      .call ⟨u, { d with lock := true }, .cmc_notify b id⟩)).history = s.history ++ [] :=
    List.append_nil _
  have hfinishing := h.quiet hstep hes rfl rfl (List.Perm.refl _) rfl
  have hfrees := asked_frees hfinishing (List.nil_append _).symm rfl
  unfold BankSystem.records at hfrees
  simp only [BankSystem.afterMint, insert_mint_users, OrdMap.len_insert_of_get _ u _ d hd] at hfrees
  exact .before hstep hfrees

theorem record_frees (h : Finishing id held o logs refunded heights s) (hs : s.records ≠ 0) :
    Frees id held o logs refunded heights s s.records := by
  obtain ⟨phase, hp⟩ := mints_at h.reachable
  obtain ⟨⟨u, d⟩, hmem⟩ := List.exists_mem_of_length_pos (Nat.pos_of_ne_zero hs)
  have hd := (OrdMap.mem_iff_get _ u d).mp hmem
  have hat := hp u
  rw [hd] at hat
  generalize hl : callsOf s.mints u = l at hat
  have hcall : ∀ c, l = [c] → ∃ pre post, s.mints = pre ++ c :: post := by
    rintro c rfl
    have hc : c ∈ callsOf s.mints u := by
      rw [hl]
      exact List.mem_singleton_self c
    exact List.append_of_mem (List.mem_filter.mp hc).1
  cases hphase : phase u with
  | idle =>
    rw [hphase] at hat
    cases hat
  | waiting =>
    rw [hphase] at hat
    cases hat with
    | @transferring _ c args _ ha =>
      obtain ⟨pre, post, hc⟩ := hcall c rfl
      exact waiting_frees h hc ha
  | held b busy =>
    rw [hphase] at hat
    cases hat with
    | @notifying _ c _ _ _ ha =>
      obtain ⟨pre, post, hc⟩ := hcall c rfl
      exact asked_frees h hc ha
    | paused hlock _ hb => exact paused_frees h ⟨d, hd, hlock, hb⟩

end Way

/-! ## All mints are finished -/

/-- No mint is left, every height is credited unless it was refunded before, and each new log is a mint
with the cycles of its block less the fee. -/
structure AllFinished (o : Outside) (s s' : BankSystem) : Prop where
  mints : s'.mints = []
  records : ∀ user_id, s'.bank.cb_data.users_mint_cycles.get user_id = none
  returned : (returnedHeights s'.history).Perm (returnedHeights s.history ++ o.awaited s.mints)
  credited : ∀ e ∈ returnedHeights s'.history,
    e ∈ creditedMints s'.bank.logs ∨ e ∈ refundedMints s.history
  logs : ∃ new, s'.bank.logs = s.bank.logs ++ new ∧ ∀ log ∈ new, o.MintedFor log

theorem Finishing.all_finished {id : Principal} {held : Nat} {o : Outside} {s s' : BankSystem}
    (h : Finishing id held o s.bank.logs (refundedMints s.history)
      (returnedHeights s.history ++ o.awaited s.mints) s') (hs : s'.records = 0) :
    AllFinished o s s' := by
  obtain ⟨phase, hp, hk⟩ := mints_kept h.reachable h.fresh_heights
  have hrecords := OrdMap.get_of_len_zero hs
  have hidle : ∀ u, callsOf s'.mints u = [] ∧ phase u = .idle := by
    intro u
    have hat := hp u
    rw [hrecords u] at hat
    exact hat.of_none
  have hmints : s'.mints = [] := by
    apply List.eq_nil_iff_forall_not_mem.mpr
    intro c hc
    have hmem : c ∈ callsOf s'.mints c.user_id := List.mem_filter.mpr ⟨hc, by simp⟩
    rw [(hidle c.user_id).1] at hmem
    exact List.not_mem_nil hmem
  refine ⟨hmints, hrecords, ?_, ?_, h.logs⟩
  · have hheights := h.heights
    rw [hmints] at hheights
    simpa [Outside.awaited] using hheights
  · rintro ⟨u, b⟩ he
    rcases hk.kept u b he with hcredited | hrefunded | hheld
    · exact Or.inl hcredited
    · exact Or.inr (h.refunded ▸ hrefunded)
    · change (phase u).ticket = some b at hheld
      rw [(hidle u).2] at hheld
      cases hheld

/-- From every reachable state in which the bank holds what a notify asks for, all mints can be finished,
whatever comes of the transfers under way: by replies, and by calls that anyone can make. -/
theorem every_mint_can_be_finished (id : Principal) (held : Nat) (o : Outside) (s : BankSystem)
    (r : BankReachable id held s)
    (hheld : MINIMUM_CANISTER_CYCLES_BALANCE_FOR_A_CMC_NOTIFY_MINT_CYCLES_CALL ≤ s.held)
    (hcmc : CmcHonest s.history)
    (htopped : ∀ e ∈ toppedUp s.history, e.2 = o.cmc e.1) (hfinal : FinalAnswers s.history)
    (hblocks : ∀ user_id b, ¬ RefundAnswered s.history user_id b none)
    (hfresh : ((returnedHeights s.history ++ o.awaited s.mints).map Prod.snd).Nodup) :
    ∃ s', Runs (FinishStep id o) s s' ∧ AllFinished o s s' := by
  have h : Finishing id held o s.bank.logs (refundedMints s.history)
      (returnedHeights s.history ++ o.awaited s.mints) s :=
    ⟨r, hheld, hcmc, htopped, hfinal, hblocks, hfresh, .refl _, rfl, [], (List.append_nil _).symm, by simp⟩
  obtain ⟨s', hruns, h', hzero⟩ := runs_to_zero BankSystem.records (fun _ h hs => record_frees h hs) h
  exact ⟨s', hruns, h'.all_finished hzero⟩

/-! A bank with some cycles: the minting canister is asked about the ICP that was burned at height 7, and
another user's ICP is on its way. -/

def otherUser : Principal := .of_byte 3

def twoMints : BankSystem :=
  let s : BankSystem := { mintTransferred with held := 2 * TRILLION }
  s.afterMint s.mints [] otherUser
    ((mint_cycles otherUser bankId (2 * TRILLION) 1 someMint s.bank).getD (.new, .trap))

theorem twoMints_reachable : BankReachable bankId (2 * TRILLION) twoMints := by
  have hok := Outcome.eq_ok (o := mint_cycles someUser bankId (2 * TRILLION) 0 someMint .new)
    (.new, .trap) (by decide +kernel)
  have hbegin : BankStep bankId ⟨.new, 2 * TRILLION, [], [], []⟩
      { mintBegun with held := 2 * TRILLION } := .mint_cycles hok (by decide +kernel)
  have hcall : (mint_cycles_transferred transferCall bankId (.ok 7) (2 * TRILLION) 0
      mintBegun.bank).2 ≠ .trap := by decide +kernel
  have hreply : BankStep bankId { mintBegun with held := 2 * TRILLION }
      { mintTransferred with held := 2 * TRILLION } :=
    .icp_transferred (s := { mintBegun with held := 2 * TRILLION }) (c := transferCall)
      (show mintBegun.mints = [] ++ transferCall :: [] by decide +kernel) rfl hcall
  have hok := Outcome.eq_ok (o := mint_cycles otherUser bankId (2 * TRILLION) 1 someMint
    mintTransferred.bank) (.new, .trap) (by decide +kernel)
  have hother : BankStep bankId { mintTransferred with held := 2 * TRILLION } twoMints :=
    .mint_cycles hok (by decide +kernel)
  exact .next (.next (.next (.start rfl) hbegin) hreply) hother

theorem mint_of_height_7_can_be_finished : twoMints.mints.length = 2 ∧
    ∃ s', Runs (FinishStep bankId ⟨fun _ => .ok 8, fun _ => 5 * TRILLION⟩) twoMints s' ∧
      AllFinished ⟨fun _ => .ok 8, fun _ => 5 * TRILLION⟩ twoMints s' := by
  have hhistory : twoMints.history = [.icp_transferred someUser 7] := rfl
  refine ⟨by decide +kernel, every_mint_can_be_finished _ _ _ _ twoMints_reachable ?_ ?_ ?_ ?_ ?_ ?_⟩
  · decide +kernel
  · rw [hhistory]
    exact CmcHonest.quiet (h := []) ⟨List.nodup_nil, by simp⟩ rfl rfl
  · simp [hhistory, toppedUp]
  · rw [hhistory]
    intro u u' b r r' hr
    simp at hr
  · rintro u b ⟨reason, hr⟩
    simp [hhistory] at hr
  · decide +kernel

end Cts.Bank
