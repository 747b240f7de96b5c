import Cts.Tc.Position

/-!
# Matching

`match_trades` of `lib.rs`, generic in the kinds of the matcher and the matchees. The loop runs over
the matchees in the order of their ids and stops when the trade logs are full, when it is out of
instructions, or when the matcher is filled. Beside the book it returns the trades it made and why
it ended.
-/

namespace Cts.Tc

open Lib CurrentPositionTrait

def MAX_INSTRUCTIONS_IN_THE_MATCH_TRADES_FN : Nat := 30 * 1000000000

/-- What a call of `match_trades` reads from outside the book. -/
structure MatchEnv where
  now : Nat
  cycles_fee : Nat
  token_fee : Nat
  MAX_TRADE_LOGS : Nat
  /-- The reading of the instruction counter at each matchee. -/
  instruction_counter : PositionId → Nat

def minimum_match (ledger_transfer_fee : Nat) : Nat :=
  Word.add 128 10000 (Word.mul 128 ledger_transfer_fee 10)

def MatchEnv.minimum_tokens_match (env : MatchEnv) : Nat := minimum_match env.token_fee
def MatchEnv.minimum_cycles_match (env : MatchEnv) : Nat := minimum_match env.cycles_fee

structure MatchBook (P M : Type) where
  matcher_positions : OrdMap PositionId P
  matchee_positions : OrdMap PositionId M
  matcher_void_positions : OrdMap PositionId VoidPosition
  matchee_void_positions : OrdMap PositionId VoidPosition
  trade_logs : List TradeLogAndTemporaryData
  trade_logs_id_counter : Nat
  candle_counter : CandleCounter

/-- One trade: the two positions before and after, and the log. -/
structure Trade (P M : Type) where
  matcher : P
  matcher' : P
  matchee : M
  matchee' : M
  log : TradeLogAndTemporaryData

inductive MatchExit
  | exhausted
  | stopped
  | filled
  deriving DecidableEq

section

variable {P M : Type} [CurrentPositionTrait P] [CurrentPositionTrait M]

/-- What is left of a position is below the minimum at its own rate. -/
def is_filled (env : MatchEnv) (p : P) : Bool :=
  current_position_tokens p (rateOf p) < env.minimum_tokens_match ||
    tokens_transform_cycles (current_position_tokens p (rateOf p)) (rateOf p) <
      env.minimum_cycles_match

def make_trade (env : MatchEnv) (matcher_position : P) (matchee_position : M)
    (trade_rate trade_log_id : Nat) : Trade P M :=
  let purchase_tokens := min (current_position_tokens matcher_position trade_rate)
    (current_position_tokens matchee_position trade_rate)
  let (matcher', matcher_position_payout_fee_cycles) :=
    subtract_tokens matcher_position purchase_tokens trade_rate
  let (matchee', matchee_position_payout_fee_cycles) :=
    subtract_tokens matchee_position purchase_tokens trade_rate
  { matcher := matcher_position
    matcher' := matcher'
    matchee := matchee_position
    matchee' := matchee'
    log :=
      { log :=
          { position_id_matcher := CurrentPositionTrait.id matcher'
            position_id_matchee := CurrentPositionTrait.id matchee'
            id := trade_log_id
            matchee_position_positor := positor matchee'
            matcher_position_positor := positor matcher'
            tokens := purchase_tokens
            cycles := tokens_transform_cycles purchase_tokens trade_rate
            cycles_per_token_rate := trade_rate
            matchee_position_kind := POSITION_KIND M
            timestamp_nanos := env.now
            tokens_payout_fee := cycles_transform_tokens
              (match POSITION_KIND P with
                | .Cycles => matcher_position_payout_fee_cycles
                | .Token => matchee_position_payout_fee_cycles) trade_rate
            cycles_payout_fee :=
              match POSITION_KIND P with
                | .Token => matcher_position_payout_fee_cycles
                | .Cycles => matchee_position_payout_fee_cycles
            cycles_payout_data := none
            token_payout_data := none }
        temporary_data :=
          { cycles_payout_lock := false
            token_payout_lock := false
            payout_cycles_to_subaccount :=
              match POSITION_KIND P with
                | .Token => payout_to_subaccount matcher'
                | .Cycles => payout_to_subaccount matchee'
            payout_tokens_to_subaccount :=
              match POSITION_KIND P with
                | .Cycles => payout_to_subaccount matcher'
                | .Token => payout_to_subaccount matchee' } } }

def MatchBook.record (b : MatchBook P M) (matcher_position_id matchee_key : PositionId)
    (t : Trade P M) : MatchBook P M :=
  { b with
    matcher_positions := b.matcher_positions.insert matcher_position_id t.matcher'
    matchee_positions := b.matchee_positions.insert matchee_key t.matchee'
    trade_logs := b.trade_logs ++ [t.log]
    trade_logs_id_counter := b.trade_logs_id_counter + 1
    candle_counter := b.candle_counter.count_trade t.log.log }

def MatchBook.retire_matcher (env : MatchEnv) (b : MatchBook P M) (id : PositionId) :
    MatchBook P M :=
  match b.matcher_positions.get id with
  | some p => { b with
      matcher_positions := b.matcher_positions.remove id
      matcher_void_positions := b.matcher_void_positions.insert (CurrentPositionTrait.id p)
        (into_void_position_type p .Fill env.now) }
  | none => b

def MatchBook.retire_matchee (env : MatchEnv) (b : MatchBook P M) (id : PositionId) :
    MatchBook P M :=
  match b.matchee_positions.get id with
  | some p => { b with
      matchee_positions := b.matchee_positions.remove id
      matchee_void_positions := b.matchee_void_positions.insert (CurrentPositionTrait.id p)
        (into_void_position_type p .Fill env.now) }
  | none => b

/-- Where the loop over the matchees is. -/
structure MatchState (P M : Type) where
  book : MatchBook P M
  remove_matchee_positions_fill : List PositionId
  trades : List (Trade P M)

def MatchState.after (env : MatchEnv) (s : MatchState P M) (matcher_position_id matchee_key : PositionId)
    (t : Trade P M) : MatchState P M :=
  { book := s.book.record matcher_position_id matchee_key t
    remove_matchee_positions_fill :=
      if is_filled env t.matchee' then
        s.remove_matchee_positions_fill ++ [CurrentPositionTrait.id t.matchee']
      else s.remove_matchee_positions_fill
    trades := s.trades ++ [t] }

def match_loop (env : MatchEnv) (matcher_position_id : PositionId) (match_rate : Nat) :
    List (PositionId × M) → P → MatchState P M → MatchState P M × MatchExit
  | [], _, s => (s, .exhausted)
  | (key, matchee_position) :: rest, matcher_position, s =>
    match is_this_position_better_than_or_equal_to_the_match_rate matchee_position match_rate with
    | none => match_loop env matcher_position_id match_rate rest matcher_position s
    | some trade_rate =>
      if env.MAX_TRADE_LOGS ≤ s.book.trade_logs.length then (s, .stopped)
      else if MAX_INSTRUCTIONS_IN_THE_MATCH_TRADES_FN ≤ env.instruction_counter key then (s, .stopped)
      else
        let t := make_trade env matcher_position matchee_position trade_rate
          s.book.trade_logs_id_counter
        let s := s.after env matcher_position_id key t
        if is_filled env t.matcher' then
          ({ s with book := s.book.retire_matcher env matcher_position_id }, .filled)
        else match_loop env matcher_position_id match_rate rest t.matcher' s

structure MatchResult (P M : Type) where
  book : MatchBook P M
  trades : List (Trade P M)
  exit : MatchExit

def match_trades (env : MatchEnv) (matcher_position_id : PositionId) (b : MatchBook P M) :
    MatchResult P M :=
  match b.matcher_positions.get matcher_position_id with
  | none => ⟨b, [], .exhausted⟩
  | some matcher_position =>
    let (s, exit) := match_loop env matcher_position_id (rateOf matcher_position)
      b.matchee_positions.entries matcher_position ⟨b, [], []⟩
    ⟨s.remove_matchee_positions_fill.foldl (MatchBook.retire_matchee env) s.book, s.trades, exit⟩

end

end Cts.Tc
