import Cts.Bank.Backing

/-!
# Refunded mints

The bank forgets a refunded mint when the answer names the block of the refund. Without a block it
waits for another answer, which does not come.
-/

namespace Cts.Bank

open Lib Lib.Tickets

/-! ## Answers -/

/-- The minting canister answered that it refunded the mint of the height `b`. -/
def RefundAnswered (history : List BankEvent) (user_id : Principal) (b : Nat)
    (block_index : Option Nat) : Prop :=
  ∃ reason, .cmc_answered user_id b (.error (.CmcNotifyError (.Refunded block_index reason))) ∈ history

/-- An answer that ends the mint of a block: its cycles or its refund. -/
def isFinal : Except LedgerTopupCyclesCmcNotifyError Nat → Bool
  | .ok _ => true
  | .error (.CmcNotifyError (.Refunded _ _)) => true
  | _ => false

/-- The minting canister does not change its mind: a block has one final answer. -/
def FinalAnswers (history : List BankEvent) : Prop :=
  ∀ user_id user_id' b r r', .cmc_answered user_id b r ∈ history →
    .cmc_answered user_id' b r' ∈ history → isFinal r = true → isFinal r' = true → r = r'

def answers (history : List BankEvent) :
    List (Principal × Nat × Except LedgerTopupCyclesCmcNotifyError Nat) :=
  history.filterMap fun
    | .cmc_answered user_id block_height r => some (user_id, block_height, r)
    | _ => none

@[simp]
theorem answers_append (h es : List BankEvent) : answers (h ++ es) = answers h ++ answers es :=
  List.filterMap_append

@[simp]
theorem answers_events (p : MintProgress) (user_id : Principal) : answers (p.events user_id) = [] := by
  cases p <;> rfl

theorem answers_afterMint (s : BankSystem) (mints : List MintCall) (user_id : Principal) (b : Nat)
    (r : Except LedgerTopupCyclesCmcNotifyError Nat) (p : BankState × MintProgress) :
    answers (s.afterMint mints [.cmc_answered user_id b r] user_id p).history =
      answers s.history ++ [(user_id, b, r)] := by
  unfold BankSystem.afterMint
  simp only [answers_append, answers_events, List.append_nil]
  rfl

theorem mem_answers {history : List BankEvent} {user_id : Principal} {b : Nat}
    {r : Except LedgerTopupCyclesCmcNotifyError Nat} :
    (user_id, b, r) ∈ answers history ↔ .cmc_answered user_id b r ∈ history := by
  unfold answers
  rw [List.mem_filterMap]
  constructor
  · rintro ⟨e, he, heq⟩
    cases e <;> simp_all
  · intro h
    exact ⟨_, h, rfl⟩

theorem mem_refundedMints {history : List BankEvent} {user_id : Principal} {b : Nat} :
    (user_id, b) ∈ refundedMints history ↔ ∃ i, RefundAnswered history user_id b (some i) := by
  unfold refundedMints RefundAnswered
  rw [List.mem_filterMap]
  constructor
  · rintro ⟨e, he, heq⟩
    unfold refundedMint at heq
    split at heq
    · rename_i u b' i reason
      obtain ⟨rfl, rfl⟩ := Prod.mk.inj (Option.some.inj heq)
      exact ⟨i, reason, he⟩
    · cases heq
  · rintro ⟨i, reason, h⟩
    exact ⟨_, h, rfl⟩

/-- A message answers no notify, or it is the answer to one. -/
inductive AnswerMove (s s' : BankSystem) : Prop
  | quiet (hanswers : answers s'.history = answers s.history)
      (hcredited : creditedMints s'.bank.logs = creditedMints s.bank.logs)
  | answered {pre post : List MintCall} {c : MintCall} {b : Nat} {canister_id : Principal}
      {r : Except LedgerTopupCyclesCmcNotifyError Nat} {now : Nat} (hc : s.mints = pre ++ c :: post)
      (ha : c.await = .cmc_notify b canister_id)
      (hs' : s' = s.afterMint (pre ++ post) [.cmc_answered c.user_id b r] c.user_id
        (mint_cycles_notified c r now s.bank))

theorem AnswerMove.of_quiet {s : BankSystem} {user_id : Principal} {r : BankState × MintProgress}
    (h : Quiet s.bank user_id r) (mints : List MintCall) {es : List BankEvent} (hes : answers es = []) :
    AnswerMove s (s.afterMint mints es user_id r) := by
  refine .quiet ?_ ?_
  · simp [BankSystem.afterMint, h.2, hes]
  · rw [BankSystem.afterMint, h.1.2.2]

theorem answer_move {id : Principal} {s s' : BankSystem} {phase : Principal → Phase Nat}
    (hp : MintsAt s phase) (h : BankStep id s s') : AnswerMove s s' := by
  cases h with
  | icrc1_transfer h =>
    obtain ⟨-, log, pointers, hop, -, rfl⟩ := icrc1_transfer_ok h
    exact .quiet (by simp [answers]) (by simp [creditedMints, hop])
  | cycles_in _ _ h =>
    obtain ⟨-, log, pointers, hop, -, rfl⟩ := cycles_in_ok h
    exact .quiet (by simp [answers]) (by simp [creditedMints, hop])
  | cycles_out _ h =>
    obtain ⟨-, -, rfl⟩ := cycles_out_ok h
    exact .quiet rfl (by simp)
  | @cycles_out_deposited pre post c now hc =>
    obtain ⟨log, pointers, hop, -, h⟩ := cycles_out_reply_ok c now s.bank
    rw [h]
    exact .quiet (by simp [answers]) (by simp [creditedMints, hop])
  | @cycles_out_failed pre post c now e hc =>
    rw [cycles_out_reply_error]
    exact .quiet (by simp [answers]) (by simp)
  | mint_cycles h _ => exact .of_quiet (mint_cycles_quiet h) _ rfl
  | complete_mint_cycles h _ => exact .of_quiet (complete_mint_cycles_quiet hp h) _ rfl
  | icp_transfer_refused hc ha => exact .of_quiet ⟨remove_mint_books _ _, rfl⟩ _ rfl
  | @icp_transferred pre post c args block_height canister_balance now hc ha _ =>
    have hu := ((call_of_mint hp hc).1.of_icp_transfer ha).1
    exact .of_quiet (mint_cycles_notify_quiet c.user_id id
      (d := { c.mid_call_data with cmc_icp_transfer_block_height := some block_height })
      canister_balance now s.bank hu.2 rfl) _ rfl
  | cmc_answered hc ha _ => exact .answered hc ha rfl
  | cmc_top_up => exact .quiet (by simp [answers]) rfl
  | clear_user_logs_pointers_cache => exact .quiet rfl rfl

/-! ## What the answers tell -/

/-- An answered height was returned before, and a mint is credited after an answer `Ok`. -/
structure Answered (s : BankSystem) : Prop where
  returned : ∀ user_id b r, .cmc_answered user_id b r ∈ s.history →
    (user_id, b) ∈ returnedHeights s.history
  credited : ∀ user_id b, (user_id, b) ∈ creditedMints s.bank.logs →
    ∃ cmc_cycles, .cmc_answered user_id b (.ok cmc_cycles) ∈ s.history

theorem answered_credits {s : BankSystem} {phase : Principal → Phase Nat} (hp : MintsAt s phase)
    {pre post : List MintCall} {c : MintCall} {b now : Nat} {canister_id : Principal}
    {r : Except LedgerTopupCyclesCmcNotifyError Nat} (hc : s.mints = pre ++ c :: post)
    (ha : c.await = .cmc_notify b canister_id) :
    creditedMints (mint_cycles_notified c r now s.bank).1.logs = creditedMints s.bank.logs ∨
      (∃ cmc_cycles, r = .ok cmc_cycles) ∧
        creditedMints (mint_cycles_notified c r now s.bank).1.logs =
          creditedMints s.bank.logs ++ [(c.user_id, b)] := by
  obtain ⟨-, -, hb⟩ := (call_of_mint hp hc).1.of_cmc_notify ha
  rcases mint_cycles_notified_cases c r now s.bank hb with
    ⟨cmc_cycles, pointers, success, rfl, h⟩ | ⟨e, -, h⟩ | ⟨e, -, -, h⟩
  · refine Or.inr ⟨⟨cmc_cycles, rfl⟩, ?_⟩
    rw [h]
    simp [creditedMints, mintLog]
  · rw [h]
    simp
  · rw [h]
    simp

theorem answered_step {id : Principal} {s s' : BankSystem} {phase : Principal → Phase Nat}
    (hp : MintsAt s phase) (hk : (mintDesk s phase).Kept) (h : Answered s) (hstep : BankStep id s s') :
    Answered s' := by
  obtain ⟨es, hes⟩ := hstep.history_grows
  have hold : ∀ e ∈ s.history, e ∈ s'.history := by
    intro e he
    rw [hes]
    exact List.mem_append_left _ he
  have hreturned : ∀ e ∈ returnedHeights s.history, e ∈ returnedHeights s'.history := by
    intro e he
    rw [hes, returnedHeights_append]
    exact List.mem_append_left _ he
  rcases answer_move hp hstep with ⟨hanswers, hcredited⟩ | @⟨pre, post, c, b, canister_id, r, now, hc, ha, hs'⟩
  · refine ⟨fun u b r hr => ?_, fun u b hb => ?_⟩
    · rw [← mem_answers, hanswers, mem_answers] at hr
      exact hreturned _ (h.returned u b r hr)
    · rw [hcredited] at hb
      obtain ⟨cmc_cycles, hmem⟩ := h.credited u b hb
      exact ⟨cmc_cycles, hold _ hmem⟩
  · have hnew : answers s'.history = answers s.history ++ [(c.user_id, b, r)] := by
      rw [hs']
      exact answers_afterMint s _ _ _ _ _
    -- The notify is for the height that the mid-call record holds.
    have hissued : (c.user_id, b) ∈ returnedHeights s.history := by
      apply hk.held_issued
      have hphase := ((call_of_mint hp hc).1.of_cmc_notify ha).2.1
      change (phase c.user_id).ticket = some b
      rw [hphase]
      rfl
    refine ⟨fun u b' r' hr => ?_, fun u b' hb => ?_⟩
    · rw [← mem_answers, hnew] at hr
      rcases List.mem_append.mp hr with hr | hr
      · exact hreturned _ (h.returned u b' r' (mem_answers.mp hr))
      · obtain ⟨rfl, rfl, -⟩ := by simpa using hr
        exact hreturned _ hissued
    · have hbank : s'.bank = (mint_cycles_notified c r now s.bank).1 := by
        rw [hs']
        rfl
      have hcredits : creditedMints s'.bank.logs = creditedMints s.bank.logs ∨
          (∃ cmc_cycles, r = .ok cmc_cycles) ∧
            creditedMints s'.bank.logs = creditedMints s.bank.logs ++ [(c.user_id, b)] := by
        rw [hbank]
        exact answered_credits hp hc ha
      rcases hcredits with hsame | ⟨⟨cmc_cycles, rfl⟩, hcredit⟩
      · rw [hsame] at hb
        obtain ⟨cmc_cycles, hmem⟩ := h.credited u b' hb
        exact ⟨cmc_cycles, hold _ hmem⟩
      · rw [hcredit] at hb
        rcases List.mem_append.mp hb with hb | hb
        · obtain ⟨cmc_cycles, hmem⟩ := h.credited u b' hb
          exact ⟨cmc_cycles, hold _ hmem⟩
        · obtain ⟨rfl, rfl⟩ := by simpa using hb
          refine ⟨cmc_cycles, ?_⟩
          rw [← mem_answers, hnew]
          simp

/-! ## Every run -/

theorem refunds_kept {id : Principal} {held : Nat} {s : BankSystem} (hr : BankReachable id held s)
    (hf : FreshHeights s.history) : ∃ phase, MintsAt s phase ∧ (mintDesk s phase).Kept ∧
      (mintDesk s phase).Closed ∧ Answered s := by
  refine Reachable.invariant_while (P := fun s : BankSystem => FreshHeights s.history)
    (I := fun s => ∃ phase, MintsAt s phase ∧ (mintDesk s phase).Kept ∧ (mintDesk s phase).Closed ∧
      Answered s) ?_ ?_ ?_ hr hf
  · intro s s' h hf
    obtain ⟨es, hes⟩ := h.history_grows
    rw [hes] at hf
    exact hf.of_append
  · rintro s rfl -
    refine ⟨fun _ => .idle, fun _ => .idle, kept_empty, ⟨by simp [mintDesk, refundedMints], ?_⟩, ?_⟩
    · simp [mintDesk, refundedMints]
    · exact ⟨by simp, by simp [creditedMints, BankState.new]⟩
  · rintro s s' - - hf ⟨phase, hp, hk, hc, ha⟩ h
    obtain ⟨phase', hp', hm⟩ := mint_moves hp h
    exact ⟨phase', hp', kept_move hf hk hm, closed_move hf hk hc hm, answered_step hp hk ha h⟩

theorem MintsAt.held_of_in_flight {s : BankSystem} {phase : Principal → Phase Nat} (h : MintsAt s phase)
    {u : Principal} {b : Nat} (hb : MintInFlight s u b) : (phase u).ticket = some b := by
  obtain ⟨c, hc, rfl, hheight, -⟩ := hb
  obtain ⟨pre, post, hsplit⟩ := List.append_of_mem hc
  have hat := (call_of_mint h hsplit).1
  generalize s.bank.cb_data.users_mint_cycles.get c.user_id = d at hat
  generalize phase c.user_id = p at hat
  cases hat with
  | transferring _ _ _ hnone =>
    rw [hheight] at hnone
    cases hnone
  | notifying _ _ _ hsome =>
    rw [hheight] at hsome
    exact hsome.symm

theorem MintsAt.held_of_paused {s : BankSystem} {phase : Principal → Phase Nat} (h : MintsAt s phase)
    {u : Principal} {b : Nat} (hb : MintPaused s u b) : (phase u).ticket = some b := by
  obtain ⟨d, hd, hlock, hheight⟩ := hb
  have hat := h u
  rw [hd] at hat
  obtain ⟨-, -, b', hb', hphase⟩ := hat.of_unlocked hlock
  rw [hheight] at hb'
  rw [hphase]
  exact hb'.symm

/-- The mint of `b` still has a record: its call is out, or it may be completed. -/
def KeepsRecord (s : BankSystem) (user_id : Principal) (b : Nat) : Prop :=
  MintInFlight s user_id b ∨ MintPaused s user_id b

/-- A refunded mint has no record, and each record is that of a mint which is not over: its transfer is
awaited, or its height was not refunded. -/
structure RefundsFree (s : BankSystem) : Prop where
  forgotten : ∀ user_id b block_index, RefundAnswered s.history user_id b block_index →
    ¬ KeepsRecord s user_id b
  slots : ∀ user_id, s.bank.cb_data.users_mint_cycles.get user_id ≠ none →
    (∃ c ∈ s.mints, c.user_id = user_id ∧ ∃ args, c.await = .icp_transfer args) ∨
      ∃ b, KeepsRecord s user_id b ∧ ∀ block_index, ¬ RefundAnswered s.history user_id b block_index

theorem MintsAt.keeps_record_iff {s : BankSystem} {phase : Principal → Phase Nat} (h : MintsAt s phase)
    {u : Principal} {b : Nat} : KeepsRecord s u b ↔ (phase u).ticket = some b := by
  constructor
  · rintro (hb | hb)
    · exact h.held_of_in_flight hb
    · exact h.held_of_paused hb
  · intro hb
    cases hphase : phase u with
    | idle | waiting => simp [hphase] at hb
    | held t busy =>
      obtain rfl : t = b := by simpa [hphase] using hb
      cases busy with
      | true => exact Or.inl (h.in_flight hphase)
      | false => exact Or.inr (h.paused hphase u).1

theorem refunds_free_of_blocks {s : BankSystem} {phase : Principal → Phase Nat} (hp : MintsAt s phase)
    (hc : (mintDesk s phase).Closed) (h : ∀ u b, ¬ RefundAnswered s.history u b none) :
    RefundsFree s := by
  have hforgotten : ∀ u b block_index, RefundAnswered s.history u b block_index →
      ¬ KeepsRecord s u b := by
    intro u b block_index hb hkeeps
    cases block_index with
    | none => exact h u b hb
    | some i =>
      rw [hp.keeps_record_iff] at hkeeps
      exact hc.not_held u b hkeeps (mem_refundedMints.mpr ⟨i, hb⟩)
  refine ⟨hforgotten, fun u hu => ?_⟩
  have hat := hp u
  cases hphase : phase u with
  | idle =>
    rw [hphase] at hat
    generalize s.bank.cb_data.users_mint_cycles.get u = d at hat hu
    generalize callsOf s.mints u = l at hat
    cases hat
    exact absurd rfl hu
  | waiting =>
    left
    rw [hphase] at hat
    generalize s.bank.cb_data.users_mint_cycles.get u = d at hat
    generalize hl : callsOf s.mints u = l at hat
    cases hat with
    | @transferring d c args _ ha _ _ =>
      have hmem : c ∈ callsOf s.mints u := by
        rw [hl]
        exact List.mem_singleton_self c
      obtain ⟨hc, huser⟩ := List.mem_filter.mp hmem
      exact ⟨c, hc, by simpa using huser, args, ha⟩
  | held b busy =>
    right
    have hkeeps : KeepsRecord s u b := by
      rw [hp.keeps_record_iff, hphase]
      rfl
    exact ⟨b, hkeeps, fun block_index hb => hforgotten u b block_index hb hkeeps⟩

theorem blocks_of_refunds_free {s : BankSystem} {phase : Principal → Phase Nat} (hp : MintsAt s phase)
    (hk : (mintDesk s phase).Kept) (ha : Answered s) (hfinal : FinalAnswers s.history)
    (h : RefundsFree s) (u : Principal) (b : Nat) : ¬ RefundAnswered s.history u b none := by
  rintro ⟨reason, hmem⟩
  -- The mint is not credited and not forgotten, since its answer stays what it is.
  rcases hk.kept u b (ha.returned u b _ hmem) with hcredited | hrefunded | hheld
  · obtain ⟨cmc_cycles, hok⟩ := ha.credited u b hcredited
    cases hfinal u u b _ _ hmem hok rfl rfl
  · obtain ⟨i, reason', hsome⟩ := mem_refundedMints.mp hrefunded
    cases hfinal u u b _ _ hmem hsome rfl rfl
  · exact h.forgotten u b none ⟨reason, hmem⟩ (hp.keeps_record_iff.mpr hheld)

theorem MintAt.record_of_cmc_notify {d : Option MintCyclesMidCallData} {c : MintCall} {p : Phase Nat}
    {b : Nat} {canister_id : Principal} (h : MintAt d [c] p) (ha : c.await = .cmc_notify b canister_id) :
    ∃ r, d = some r := by
  cases h with
  | transferring _ ha' => simp [ha] at ha'
  | notifying => exact ⟨_, rfl⟩

/-- The step in which a refund is answered frees the user and a slot exactly if it names a block. -/
theorem refund_step {id : Principal} {s s' : BankSystem} {phase : Principal → Phase Nat}
    (hp : MintsAt s phase) (hstep : BankStep id s s') {u : Principal} {b : Nat}
    {block_index : Option Nat} {reason : String}
    (hes : s'.history = s.history ++
      [.cmc_answered u b (.error (.CmcNotifyError (.Refunded block_index reason)))]) :
    check_if_user_is_in_the_middle_of_a_different_call s'.bank.cb_data u = .ok () ∧
      s'.bank.cb_data.users_mint_cycles.len + 1 = s.bank.cb_data.users_mint_cycles.len ↔
      block_index ≠ none := by
  have hanswers : answers s'.history = answers s.history ++
      [(u, b, .error (.CmcNotifyError (.Refunded block_index reason)))] := by
    rw [hes, answers_append]
    rfl
  rcases answer_move hp hstep with ⟨hsame, -⟩ | @⟨pre, post, c, b', canister_id, r, now, hc, ha, hs'⟩
  · have hlength := congrArg List.length (hsame.symm.trans hanswers)
    simp at hlength
  · have hhistory : answers s'.history = answers s.history ++ [(c.user_id, b', r)] := by
      rw [hs']
      exact answers_afterMint s _ _ _ _ _
    obtain ⟨rfl, rfl, rfl⟩ : c.user_id = u ∧ b' = b ∧
        r = .error (.CmcNotifyError (.Refunded block_index reason)) := by
      simpa using List.append_cancel_left (hhistory.symm.trans hanswers)
    have hat := (call_of_mint hp hc).1
    obtain ⟨d, hd⟩ := hat.record_of_cmc_notify ha
    subst hs'
    unfold check_if_user_is_in_the_middle_of_a_different_call
    cases block_index with
    | none =>
      simp [BankSystem.afterMint, mint_cycles_notified, insert_mint_users]
    | some i =>
      have hlen := OrdMap.len_remove s.bank.cb_data.users_mint_cycles c.user_id d hd
      simp [BankSystem.afterMint, mint_cycles_notified, remove_mint_users, hlen]

/-- Refunded mints are forgotten as long as each refund was answered with its block, and after any refund
the user is free, with the slot, exactly if the answer named one. -/
theorem refunds_free_the_user_iff {id : Principal} {held : Nat} {s : BankSystem}
    (hr : BankReachable id held s) (hf : FreshHeights s.history) (hfinal : FinalAnswers s.history) :
    (RefundsFree s ↔ ∀ user_id b, ¬ RefundAnswered s.history user_id b none) ∧
      ∀ s' user_id b block_index reason, BankStep id s s' → s'.history = s.history ++
          [.cmc_answered user_id b (.error (.CmcNotifyError (.Refunded block_index reason)))] →
        (check_if_user_is_in_the_middle_of_a_different_call s'.bank.cb_data user_id = .ok () ∧
          s'.bank.cb_data.users_mint_cycles.len + 1 = s.bank.cb_data.users_mint_cycles.len ↔
          block_index ≠ none) := by
  obtain ⟨phase, hp, hk, hc, ha⟩ := refunds_kept hr hf
  refine ⟨⟨?_, refunds_free_of_blocks hp hc⟩, fun s' u b block_index reason hstep => ?_⟩
  · exact blocks_of_refunds_free hp hk ha hfinal
  · exact refund_step hp hstep

/-! The run of `mintTransferred` goes on: the minting canister answers that it refunded. -/

def refundAnswer (block_index : Option Nat) : Except LedgerTopupCyclesCmcNotifyError Nat :=
  .error (.CmcNotifyError (.Refunded block_index ""))

def mintRefunded (block_index : Option Nat) : BankSystem :=
  mintTransferred.afterMint ([] ++ []) [.cmc_answered someUser 7 (refundAnswer block_index)] someUser
    (mint_cycles_notified notifyCall (refundAnswer block_index) 0 mintTransferred.bank)

theorem mintRefunded_reachable (block_index : Option Nat) :
    BankReachable bankId 0 (mintRefunded block_index) := by
  have hanswer : BankStep bankId mintTransferred (mintRefunded block_index) := by
    refine .cmc_answered (c := notifyCall) (show mintTransferred.mints = [] ++ notifyCall :: [] by
      decide +kernel) rfl ?_
    cases block_index <;> simp [refundAnswer, mint_cycles_notified]
  exact .next mintTransferred_reachable hanswer

theorem mintRefunded_history (block_index : Option Nat) : (mintRefunded block_index).history =
    [.icp_transferred someUser 7, .cmc_answered someUser 7 (refundAnswer block_index)] := by
  cases block_index <;> rfl

theorem mintRefunded_fresh (block_index : Option Nat) :
    FreshHeights (mintRefunded block_index).history := by
  rw [mintRefunded_history]
  exact List.nodup_singleton 7

theorem mintRefunded_final (block_index : Option Nat) :
    FinalAnswers (mintRefunded block_index).history := by
  rw [mintRefunded_history]
  intro u u' b r r' h h' _ _
  obtain ⟨-, -, rfl⟩ := by simpa using h
  obtain ⟨-, -, rfl⟩ := by simpa using h'
  rfl

theorem refund_of_block_frees_the_user : RefundsFree (mintRefunded (some 9)) := by
  refine (refunds_free_the_user_iff (mintRefunded_reachable _) (mintRefunded_fresh _)
    (mintRefunded_final _)).1.mpr ?_
  rintro u b ⟨reason, h⟩
  rw [mintRefunded_history] at h
  simp [refundAnswer] at h

/-- After a refund without a block the user's next mint is refused, and so are all that follow. -/
theorem blockless_refund_locks_the_user :
    check_if_user_is_in_the_middle_of_a_different_call (mintRefunded none).bank.cb_data someUser =
        .error (.MintCyclesCall true) ∧
      ¬ ∀ (id : Principal) (held : Nat) (s : BankSystem), BankReachable id held s →
        FreshHeights s.history → FinalAnswers s.history → RefundsFree s := by
  refine ⟨rfl, fun h => ?_⟩
  have hfree := h _ _ _ (mintRefunded_reachable none) (mintRefunded_fresh none) (mintRefunded_final none)
  refine hfree.forgotten someUser 7 none ⟨"", ?_⟩ (Or.inr ⟨_, rfl, rfl, rfl⟩)
  rw [mintRefunded_history]
  simp [refundAnswer]

end Cts.Bank
