import Cts.Tc.Market

/-!
# What a step does to the positions

Of all the messages only three touch the current positions or the quests that wait.
-/

namespace Cts.Tc

open Lib

/-- A quest that passed the checks of `_trade`. -/
structure QuestChecked (cycles_fee token_fee : Nat) (q : TradeQuest) : Prop where
  minimum : q.is_less_than_minimum_position cycles_fee token_fee = false
  rate_ne : q.cycles_per_token_rate ≠ 0

structure KeepsPositions (s s' : TcState) : Prop where
  cycles : s'.cm_data.cycles_positions = s.cm_data.cycles_positions
  token : s'.cm_data.token_positions = s.cm_data.token_positions
  calls : ∀ c ∈ s'.calls, ∀ q, c.quest = .trade q → ∃ c' ∈ s.calls, c'.quest = .trade q
  deals : s'.history.deals = s.history.deals

inductive PositionStep (cfg : TcConfig) (s s' : TcState) : Prop
  | keeps (h : KeepsPositions s s')
  | admits {caller : Principal} {q : TradeQuest}
      (checked : QuestChecked (s.fees .Cycles) (s.fees .Token) q)
      (book : s'.cm_data.toBook = s.cm_data.toBook)
      (calls : s'.calls = ⟨caller, .trade q, none⟩ :: s.calls)
      (deals : s'.history.deals = s.history.deals)
  | commits {c : UserCall} {q : TradeQuest} (now : Nat) (instruction_counter : PositionId → Nat)
      (mem : c ∈ s.calls) (quest : c.quest = .trade q)
      (book : s'.cm_data.toBook = (q.match_trades s.cm_data.toBook
        (s.match_env cfg now instruction_counter) s.cm_data.positions_id_counter c.caller).book)
      (calls : ∀ d ∈ s'.calls, d ∈ s.calls)
      (deals : s'.history.deals = s.history.deals ++ (q.match_trades s.cm_data.toBook
        (s.match_env cfg now instruction_counter) s.cm_data.positions_id_counter c.caller).deals)
  | voids {caller : Principal} {position_id : PositionId} {now : Nat}
      (void : void_position_ s.cm_data.toBook caller position_id now = .ok s'.cm_data.toBook)
      (calls : s'.calls = s.calls) (deals : s'.history.deals = s.history.deals)

variable {L : Prop} {cfg : TcConfig} {s s' : TcState}

theorem PositionStep.of_quiet (cycles : s'.cm_data.cycles_positions = s.cm_data.cycles_positions)
    (token : s'.cm_data.token_positions = s.cm_data.token_positions)
    (calls : ∀ c ∈ s'.calls, ∃ c' ∈ s.calls, c'.quest = c.quest)
    (deals : s'.history.deals = s.history.deals) : PositionStep cfg s s' := by
  refine .keeps ⟨cycles, token, fun c hc q hq => ?_, deals⟩
  obtain ⟨c', hc', hquest⟩ := calls c hc
  exact ⟨c', hc', hquest.trans hq⟩

theorem position_step (hm : Market L s) (h : TcStep cfg s s') : PositionStep cfg s s' := by
  have hsame : ∀ c ∈ s.calls, ∃ c' ∈ s.calls, c'.quest = c.quest := fun c hc => ⟨c, hc, rfl⟩
  have hgone : ∀ {calls : List UserCall}, (∀ d ∈ calls, d ∈ s.calls) →
      ∀ d ∈ calls, ∃ c' ∈ s.calls, c'.quest = d.quest := fun hsub d hd => ⟨d, hsub d hd, rfl⟩
  cases h with
  | @trade caller q cm_data ht =>
    obtain ⟨rfl, hok⟩ := _trade_spec ht
    exact .admits ⟨hok.minimum, hok.rate_ne⟩ rfl rfl rfl
  | @transfer_balance caller kind q cm_data ht =>
    obtain ⟨rfl, -⟩ := _transfer_balance_spec ht
    refine .keeps ⟨rfl, rfl, fun c hc q' hq => ?_, rfl⟩
    rcases List.mem_cons.mp hc with rfl | hc
    · cases hq
    · exact ⟨c, hc, hq⟩
  | @trade_committed pre post c q r now instruction_counter hc hr hq he =>
    have hmem : c ∈ s.calls := by
      rw [hc]
      simp
    exact .commits now instruction_counter hmem hq rfl (calls_ended hc) rfl
  | void_position hv => exact .voids hv rfl rfl
  | trade_failed hc hr hq he => exact .of_quiet rfl rfl (hgone (calls_ended hc)) rfl
  | balance_replied hc hr hq => exact .of_quiet rfl rfl (hgone (calls_ended hc)) rfl
  | deposit_executed block hc hr hq hl => exact .of_quiet rfl rfl (calls_replied hc _) rfl
  | balance_executed block hc hr hq hl => exact .of_quiet rfl rfl (calls_replied hc _) rfl
  | call_refused r hc hr hn => exact .of_quiet rfl rfl (calls_replied hc _) rfl
  | payouts_started hp =>
    have hf := started_frame hm.book hp
    exact .of_quiet hf.cycles hf.token hsame rfl
  | @payouts_ended before after run hr hf =>
    have hf := ended_frame hm run (before ++ after)
    exact .of_quiet hf.cycles hf.token hsame rfl
  | others_transfer | others_mint | do_payouts | do_payouts_replied | do_payouts_failed
  | payout_executed | payout_refused | payout_replied | update_executed | update_failed
  | positions_flush | trades_flush =>
    exact .of_quiet rfl rfl hsame rfl

end Cts.Tc
