import Cts.Lib.BinarySearch
import Cts.Tc.Types
import Mathlib.Data.List.Induction
import Mathlib.Order.Bounds.Basic

/-!
# The candles

`count_trade` of `candle_counter.rs` over a history of trades. A candle is of one minute, and says of
its trades what a list of them would say.
-/

namespace Cts.Tc

open Lib

/-! ## Minutes -/

def NANOS_IN_A_MINUTE : Nat := 1000000000 * 60

/-- The start of the minute of a time. -/
def minute (time_nanos : Nat) : Nat := time_nanos / NANOS_IN_A_MINUTE * NANOS_IN_A_MINUTE

theorem segment_start_eq (time_nanos : Nat) : segment_start_time_nanos time_nanos = minute time_nanos := by
  have hdiv := Nat.div_add_mod' time_nanos NANOS_IN_A_MINUTE
  change time_nanos - time_nanos % NANOS_IN_A_MINUTE = minute time_nanos
  unfold minute
  omega

theorem minute_le (time_nanos : Nat) : minute time_nanos ≤ time_nanos := Nat.div_mul_le_self _ _

theorem lt_minute_add (time_nanos : Nat) : time_nanos < minute time_nanos + NANOS_IN_A_MINUTE := by
  have hdiv := Nat.div_add_mod' time_nanos NANOS_IN_A_MINUTE
  have hmod := Nat.mod_lt time_nanos (show 0 < NANOS_IN_A_MINUTE by decide)
  unfold minute
  omega

theorem minute_mono {a b : Nat} (h : a ≤ b) : minute a ≤ minute b :=
  Nat.mul_le_mul_right _ (Nat.div_le_div_right h)

theorem minute_dvd (time_nanos : Nat) : NANOS_IN_A_MINUTE ∣ minute time_nanos := Dvd.intro_left _ rfl

theorem minute_of_dvd {time_nanos : Nat} (h : NANOS_IN_A_MINUTE ∣ time_nanos) :
    minute time_nanos = time_nanos := Nat.div_mul_cancel h

/-! ## Volumes -/

namespace CandleCounter

def new : CandleCounter :=
  { segments_1_minute := []
    volume_cycles := 0
    volume_tokens := 0 }

def volume (c : CandleCounter) : PositionKind → Nat
  | .Cycles => c.volume_cycles
  | .Token => c.volume_tokens

end CandleCounter

def Candle.volume (c : Candle) : PositionKind → Nat
  | .Cycles => c.volume_cycles
  | .Token => c.volume_tokens

def TradeLog.volume (tl : TradeLog) : PositionKind → Nat
  | .Cycles => tl.cycles
  | .Token => tl.tokens

def volumeOf (kind : PositionKind) (tls : List TradeLog) : Nat :=
  (tls.map fun tl => tl.volume kind).sum

/-- The volumes of a trade are words. -/
def TradeLog.VolumesFit (tl : TradeLog) : Prop := ∀ kind, tl.volume kind < 2 ^ 128

/-! ## One trade -/

def Candle.of_trade (time_nanos : Nat) (tl : TradeLog) : Candle :=
  { time_nanos := time_nanos
    volume_cycles := tl.cycles
    volume_tokens := tl.tokens
    open_rate := tl.cycles_per_token_rate
    high_rate := tl.cycles_per_token_rate
    low_rate := tl.cycles_per_token_rate
    close_rate := tl.cycles_per_token_rate }

def Candle.add_trade (c : Candle) (tl : TradeLog) : Candle :=
  { c with
    volume_cycles := saturating_add c.volume_cycles tl.cycles
    volume_tokens := saturating_add c.volume_tokens tl.tokens
    high_rate := max c.high_rate tl.cycles_per_token_rate
    low_rate := min c.low_rate tl.cycles_per_token_rate
    close_rate := tl.cycles_per_token_rate }

/-- The minute that a trade is counted in. -/
def TradeLog.minute (tl : TradeLog) : Nat := Tc.minute (Word.wrap 64 tl.timestamp_nanos)

section

variable {c : CandleCounter} {tl : TradeLog}

theorem count_trade_cases (c : CandleCounter) (tl : TradeLog) :
    ((∀ last ∈ c.segments_1_minute.getLast?, last.time_nanos < tl.minute) ∧
      (c.count_trade tl).segments_1_minute =
        c.segments_1_minute ++ [Candle.of_trade tl.minute tl]) ∨
    (∃ init last, c.segments_1_minute = init ++ [last] ∧ tl.minute ≤ last.time_nanos ∧
      (c.count_trade tl).segments_1_minute = init ++ [last.add_trade tl]) := by
  have hminute : segment_start_time_nanos (Word.wrap 64 tl.timestamp_nanos) = tl.minute :=
    segment_start_eq _
  unfold CandleCounter.count_trade
  simp only [hminute]
  cases hlast : c.segments_1_minute.getLast? with
  | none => exact Or.inl ⟨by simp, rfl⟩
  | some last =>
    simp only
    split_ifs with hlt
    · refine Or.inl ⟨?_, rfl⟩
      intro candle hcandle
      rw [← Option.some.inj hcandle]
      exact hlt
    · refine Or.inr ⟨c.segments_1_minute.dropLast, last, ?_, Nat.le_of_not_lt hlt, rfl⟩
      exact (List.dropLast_append_getLast? last hlast).symm

theorem count_trade_volume (kind : PositionKind) :
    (c.count_trade tl).volume kind = saturating_add (c.volume kind) (tl.volume kind) := by
  cases kind <;> rfl

theorem add_trade_volume (candle : Candle) (kind : PositionKind) :
    (candle.add_trade tl).volume kind = saturating_add (candle.volume kind) (tl.volume kind) := by
  cases kind <;> rfl

end

/-! ## Whatever the timestamps -/

/-- The minutes of the candles. -/
structure CandlesSorted (c : CandleCounter) : Prop where
  sorted : SortedBy Candle.time_nanos c.segments_1_minute
  aligned : ∀ candle ∈ c.segments_1_minute, NANOS_IN_A_MINUTE ∣ candle.time_nanos

theorem candles_sorted_step {c : CandleCounter} (h : CandlesSorted c) (tl : TradeLog) :
    CandlesSorted (c.count_trade tl) := by
  rcases count_trade_cases c tl with ⟨hlast, hsegments⟩ | ⟨init, last, hinit, -, hsegments⟩
  · constructor
    · rw [hsegments]
      exact SortedBy.concat h.sorted hlast
    · rw [hsegments]
      intro candle hcandle
      rcases List.mem_append.mp hcandle with hold | hnew
      · exact h.aligned candle hold
      · rw [List.mem_singleton.mp hnew]
        exact minute_dvd _
  · have htimes : (init ++ [last.add_trade tl]).map Candle.time_nanos =
        c.segments_1_minute.map Candle.time_nanos := by
      rw [hinit, List.map_append, List.map_append]
      rfl
    constructor
    · rw [hsegments, SortedBy, htimes]
      exact h.sorted
    · rw [hsegments]
      intro candle hcandle
      obtain ⟨old, hold, htime⟩ : ∃ old ∈ c.segments_1_minute, old.time_nanos = candle.time_nanos := by
        have hmem := List.mem_map_of_mem (f := Candle.time_nanos) hcandle
        rw [htimes] at hmem
        exact List.mem_map.mp hmem
      rw [← htime]
      exact h.aligned old hold

theorem candles_sorted (tls : List TradeLog) : CandlesSorted (tls.foldl .count_trade .new) := by
  induction tls using List.reverseRecOn with
  | nil =>
    constructor
    · exact List.Pairwise.nil
    · intro candle hcandle
      cases hcandle
  | append_singleton tls tl ih =>
    rw [List.foldl_concat]
    exact candles_sorted_step ih tl

/-! ## What a candle says -/

/-- The trades of a minute, in one candle. -/
structure Candle.Summarises (candle : Candle) (tls : List TradeLog) : Prop where
  open_rate : tls.head?.map TradeLog.cycles_per_token_rate = some candle.open_rate
  close_rate : tls.getLast?.map TradeLog.cycles_per_token_rate = some candle.close_rate
  high_rate : IsGreatest {rate | ∃ tl ∈ tls, tl.cycles_per_token_rate = rate} candle.high_rate
  low_rate : IsLeast {rate | ∃ tl ∈ tls, tl.cycles_per_token_rate = rate} candle.low_rate
  volume : ∀ kind, candle.volume kind = Word.cap 128 (volumeOf kind tls)

theorem volumeOf_singleton (kind : PositionKind) (tl : TradeLog) :
    volumeOf kind [tl] = tl.volume kind := by
  rw [volumeOf, List.map_singleton, List.sum_singleton]

theorem volumeOf_concat (kind : PositionKind) (tls : List TradeLog) (tl : TradeLog) :
    volumeOf kind (tls ++ [tl]) = volumeOf kind tls + tl.volume kind := by
  rw [volumeOf, List.map_append, List.sum_append]
  exact congrArg _ (volumeOf_singleton kind tl)

theorem rates_concat (tls : List TradeLog) (tl : TradeLog) :
    {rate | ∃ t ∈ tls ++ [tl], t.cycles_per_token_rate = rate} =
      insert tl.cycles_per_token_rate {rate | ∃ t ∈ tls, t.cycles_per_token_rate = rate} := by
  ext rate
  simp only [List.mem_append, List.mem_singleton, Set.mem_ofPred_eq, Set.mem_insert_iff, or_and_right,
    exists_or, exists_eq_left]
  rw [or_comm, eq_comm]

theorem Candle.Summarises.of_trade {tl : TradeLog} (hfit : tl.VolumesFit) (time_nanos : Nat) :
    (Candle.of_trade time_nanos tl).Summarises [tl] := by
  have hrates : {rate | ∃ t ∈ [tl], t.cycles_per_token_rate = rate} = {tl.cycles_per_token_rate} := by
    ext rate
    simp [eq_comm]
  constructor
  · rfl
  · rfl
  · rw [hrates]
    exact isGreatest_singleton
  · rw [hrates]
    exact isLeast_singleton
  · intro kind
    rw [volumeOf_singleton, Word.cap_of_lt (hfit kind)]
    cases kind <;> rfl

theorem Candle.Summarises.add {candle : Candle} {tls : List TradeLog} (h : candle.Summarises tls)
    (tl : TradeLog) : (candle.add_trade tl).Summarises (tls ++ [tl]) := by
  constructor
  · cases tls with
    | nil => cases h.open_rate
    | cons first tls => exact h.open_rate
  · rw [List.getLast?_concat]
    rfl
  · have hmax : (candle.add_trade tl).high_rate = max tl.cycles_per_token_rate candle.high_rate :=
      max_comm _ _
    rw [rates_concat, hmax]
    exact h.high_rate.insert _
  · have hmin : (candle.add_trade tl).low_rate = min tl.cycles_per_token_rate candle.low_rate :=
      min_comm _ _
    rw [rates_concat, hmin]
    exact h.low_rate.insert _
  · intro kind
    rw [add_trade_volume, h.volume, volumeOf_concat]
    exact Word.saturatingAdd_cap 128 _ _

theorem Candle.Summarises.exists_trade {candle : Candle} {tls : List TradeLog}
    (h : candle.Summarises tls) : ∃ tl, tl ∈ tls := by
  obtain ⟨tl, htl, -⟩ := h.high_rate.1
  exact ⟨tl, htl⟩

/-! ## A history of trades -/

def tradesInMinute (time_nanos : Nat) (tls : List TradeLog) : List TradeLog :=
  tls.filter fun tl => tl.minute = time_nanos

theorem tradesInMinute_concat_same {time_nanos : Nat} {tl : TradeLog} (h : tl.minute = time_nanos)
    (tls : List TradeLog) : tradesInMinute time_nanos (tls ++ [tl]) = tradesInMinute time_nanos tls ++ [tl] := by
  simp [tradesInMinute, List.filter_append, h]

theorem tradesInMinute_concat_other {time_nanos : Nat} {tl : TradeLog} (h : tl.minute ≠ time_nanos)
    (tls : List TradeLog) : tradesInMinute time_nanos (tls ++ [tl]) = tradesInMinute time_nanos tls := by
  simp [tradesInMinute, List.filter_append, h]

def candlesVolume (kind : PositionKind) (candles : List Candle) : Nat :=
  (candles.map fun candle => candle.volume kind).sum

theorem candlesVolume_concat (kind : PositionKind) (candles : List Candle) (candle : Candle) :
    candlesVolume kind (candles ++ [candle]) = candlesVolume kind candles + candle.volume kind := by
  rw [candlesVolume, List.map_append, List.sum_append, List.map_singleton, List.sum_singleton]
  rfl

/-- The trades of some minutes, and their candles. -/
def SameVolume (tls : List TradeLog) (candles : List Candle) : Prop :=
  ∀ kind (p : Nat → Bool),
    Word.cap 128 (candlesVolume kind (candles.filter fun candle => p candle.time_nanos)) =
      Word.cap 128 (volumeOf kind (tls.filter fun tl => p tl.minute))

structure Counted (tls : List TradeLog) (c : CandleCounter) : Prop where
  candle : ∀ candle ∈ c.segments_1_minute,
    candle.Summarises (tradesInMinute candle.time_nanos tls)
  minute : ∀ tl ∈ tls, ∃ candle ∈ c.segments_1_minute, candle.time_nanos = tl.minute
  same : SameVolume tls c.segments_1_minute
  volume : ∀ kind, c.volume kind = Word.cap 128 (volumeOf kind tls)

theorem counted_new : Counted [] .new := by
  constructor
  · intro candle hcandle
    cases hcandle
  · intro tl htl
    cases htl
  · intro kind p
    rfl
  · intro kind
    cases kind <;> rfl

theorem filter_concat_volume (kind : PositionKind) (p : Nat → Bool) (tls : List TradeLog)
    (tl : TradeLog) : volumeOf kind ((tls ++ [tl]).filter fun t => p t.minute) =
      volumeOf kind (tls.filter fun t => p t.minute) + if p tl.minute then tl.volume kind else 0 := by
  rw [List.filter_append, List.filter_cons, List.filter_nil]
  split_ifs
  · rw [volumeOf_concat]
  · rw [List.append_nil, Nat.add_zero]

theorem filter_concat_candles (kind : PositionKind) (p : Nat → Bool) (candles : List Candle)
    (candle : Candle) :
    candlesVolume kind ((candles ++ [candle]).filter fun c => p c.time_nanos) =
      candlesVolume kind (candles.filter fun c => p c.time_nanos) +
        if p candle.time_nanos then candle.volume kind else 0 := by
  rw [List.filter_append, List.filter_cons, List.filter_nil]
  split_ifs
  · rw [candlesVolume_concat]
  · rw [List.append_nil, Nat.add_zero]

section

variable {tls : List TradeLog} {tl : TradeLog} {candles init : List Candle} {last : Candle}

theorem SameVolume.of_trade (h : SameVolume tls candles) (tl : TradeLog) :
    SameVolume (tls ++ [tl]) (candles ++ [Candle.of_trade tl.minute tl]) := by
  intro kind p
  have hvolume : (Candle.of_trade tl.minute tl).volume kind = tl.volume kind := by
    cases kind <;> rfl
  rw [filter_concat_volume, filter_concat_candles, hvolume, Nat.add_comm, ← Word.cap_add_cap, h,
    Word.cap_add_cap, Nat.add_comm]
  rfl

theorem SameVolume.add_trade (h : SameVolume tls (init ++ [last])) (hminute : last.time_nanos = tl.minute) :
    SameVolume (tls ++ [tl]) (init ++ [last.add_trade tl]) := by
  intro kind p
  have htime : (last.add_trade tl).time_nanos = tl.minute := hminute
  have hold := h kind p
  rw [filter_concat_candles, hminute] at hold
  rw [filter_concat_volume, filter_concat_candles, htime, add_trade_volume]
  split_ifs at hold ⊢
  · have hcap : saturating_add (last.volume kind) (tl.volume kind) =
        Word.cap 128 (last.volume kind + tl.volume kind) := rfl
    rw [hcap, Word.cap_add_cap, ← Nat.add_assoc, Nat.add_comm, ← Word.cap_add_cap, hold,
      Word.cap_add_cap, Nat.add_comm]
  · exact hold

end

section

variable {tls : List TradeLog} {c : CandleCounter} {tl : TradeLog}

theorem Counted.begin_candle (h : Counted tls c) (hs : CandlesSorted c) (hfit : tl.VolumesFit)
    (hlast : ∀ last ∈ c.segments_1_minute.getLast?, last.time_nanos < tl.minute)
    (hsegments : (c.count_trade tl).segments_1_minute =
      c.segments_1_minute ++ [Candle.of_trade tl.minute tl]) :
    Counted (tls ++ [tl]) (c.count_trade tl) := by
  have hnew : SortedBy Candle.time_nanos (c.segments_1_minute ++ [Candle.of_trade tl.minute tl]) :=
    hs.sorted.concat hlast
  have hbefore : ∀ candle ∈ c.segments_1_minute, candle.time_nanos ≠ tl.minute := by
    intro candle hcandle
    rw [SortedBy, List.map_append, List.pairwise_append] at hnew
    exact (hnew.2.2 _ (List.mem_map_of_mem hcandle) _ (by simp [Candle.of_trade])).ne
  constructor
  · rw [hsegments]
    intro candle hcandle
    rcases List.mem_append.mp hcandle with hold | hnew
    · rw [tradesInMinute_concat_other (hbefore candle hold).symm]
      exact h.candle candle hold
    · have hnone : tradesInMinute tl.minute tls = [] := by
        rw [tradesInMinute, List.filter_eq_nil_iff]
        intro t ht heq
        obtain ⟨other, hother, htime⟩ := h.minute t ht
        exact hbefore other hother (htime.trans (of_decide_eq_true heq))
      rw [List.mem_singleton.mp hnew]
      change Candle.Summarises _ (tradesInMinute tl.minute (tls ++ [tl]))
      rw [tradesInMinute_concat_same rfl, hnone]
      exact Candle.Summarises.of_trade hfit tl.minute
  · rw [hsegments]
    intro t ht
    rcases List.mem_append.mp ht with hold | hlast
    · obtain ⟨candle, hcandle, htime⟩ := h.minute t hold
      exact ⟨candle, List.mem_append_left _ hcandle, htime⟩
    · rw [List.mem_singleton.mp hlast]
      exact ⟨_, List.mem_append_right _ (List.mem_singleton_self _), rfl⟩
  · rw [hsegments]
    exact h.same.of_trade tl
  · intro kind
    rw [count_trade_volume, h.volume, volumeOf_concat]
    exact Word.saturatingAdd_cap 128 _ _

theorem Counted.in_candle {init : List Candle} {last : Candle} (h : Counted tls c)
    (hs : CandlesSorted c) (hinit : c.segments_1_minute = init ++ [last])
    (hminute : last.time_nanos = tl.minute)
    (hsegments : (c.count_trade tl).segments_1_minute = init ++ [last.add_trade tl]) :
    Counted (tls ++ [tl]) (c.count_trade tl) := by
  have hbefore : ∀ candle ∈ init, candle.time_nanos ≠ tl.minute := by
    intro candle hcandle
    have hsorted := hs.sorted
    rw [hinit, SortedBy, List.map_append, List.pairwise_append] at hsorted
    rw [← hminute]
    exact (hsorted.2.2 _ (List.mem_map_of_mem hcandle) _ (by simp)).ne
  constructor
  · rw [hsegments]
    intro candle hcandle
    rcases List.mem_append.mp hcandle with hold | hnew
    · rw [tradesInMinute_concat_other (hbefore candle hold).symm]
      apply h.candle
      rw [hinit]
      exact List.mem_append_left _ hold
    · rw [List.mem_singleton.mp hnew]
      change Candle.Summarises _ (tradesInMinute last.time_nanos (tls ++ [tl]))
      rw [tradesInMinute_concat_same hminute.symm]
      apply (h.candle last _).add
      rw [hinit]
      exact List.mem_append_right _ (List.mem_singleton_self _)
  · rw [hsegments]
    intro t ht
    rcases List.mem_append.mp ht with hold | hlast
    · obtain ⟨candle, hcandle, htime⟩ := h.minute t hold
      rw [hinit] at hcandle
      rcases List.mem_append.mp hcandle with hcandle | hcandle
      · exact ⟨candle, List.mem_append_left _ hcandle, htime⟩
      · rw [List.mem_singleton.mp hcandle] at htime
        exact ⟨last.add_trade tl, List.mem_append_right _ (List.mem_singleton_self _), htime⟩
    · rw [List.mem_singleton.mp hlast]
      exact ⟨last.add_trade tl, List.mem_append_right _ (List.mem_singleton_self _), hminute⟩
  · rw [hsegments]
    apply SameVolume.add_trade _ hminute
    rw [← hinit]
    exact h.same
  · intro kind
    rw [count_trade_volume, h.volume, volumeOf_concat]
    exact Word.saturatingAdd_cap 128 _ _

theorem Counted.step (h : Counted tls c) (hs : CandlesSorted c) (hfit : tl.VolumesFit)
    (hlater : ∀ t ∈ tls, t.minute ≤ tl.minute) : Counted (tls ++ [tl]) (c.count_trade tl) := by
  rcases count_trade_cases c tl with ⟨hlast, hsegments⟩ | ⟨init, last, hinit, hle, hsegments⟩
  · exact h.begin_candle hs hfit hlast hsegments
  · have hmem : last ∈ c.segments_1_minute := by
      rw [hinit]
      exact List.mem_append_right _ (List.mem_singleton_self _)
    -- the last candle has a trade, and no trade is of a later minute than this one
    obtain ⟨t, ht⟩ := (h.candle last hmem).exists_trade
    obtain ⟨ht, htime⟩ := List.mem_filter.mp ht
    have hminute : last.time_nanos = tl.minute := by
      apply Nat.le_antisymm _ hle
      rw [← of_decide_eq_true htime]
      exact hlater t ht
    exact h.in_candle hs hinit hminute hsegments

end

/-- Trades as the canister makes them. -/
structure TradesInOrder (tls : List TradeLog) : Prop where
  fit : ∀ tl ∈ tls, tl.VolumesFit
  time : ∀ tl ∈ tls, tl.timestamp_nanos < 2 ^ 64
  sorted : tls.Pairwise fun a b => a.timestamp_nanos ≤ b.timestamp_nanos

theorem TradesInOrder.minute_eq {tls : List TradeLog} (h : TradesInOrder tls) {tl : TradeLog}
    (htl : tl ∈ tls) : tl.minute = minute tl.timestamp_nanos := by
  rw [TradeLog.minute, Word.wrap_of_lt (h.time tl htl)]

theorem TradesInOrder.counted {tls : List TradeLog} (h : TradesInOrder tls) :
    Counted tls (tls.foldl .count_trade .new) := by
  induction tls using List.reverseRecOn with
  | nil => exact counted_new
  | append_singleton tls tl ih =>
    have hmem : tl ∈ tls ++ [tl] := List.mem_append_right _ (List.mem_singleton_self _)
    have hsorted := List.pairwise_append.mp h.sorted
    have hbefore : TradesInOrder tls := by
      constructor
      · exact fun t ht => h.fit t (List.mem_append_left _ ht)
      · exact fun t ht => h.time t (List.mem_append_left _ ht)
      · exact hsorted.1
    rw [List.foldl_concat]
    apply (ih hbefore).step (candles_sorted tls) (h.fit tl hmem)
    intro t ht
    rw [hbefore.minute_eq ht, h.minute_eq hmem]
    exact minute_mono (hsorted.2.2 t ht tl (List.mem_singleton_self _))

/-- The candles summarise the trades. -/
theorem candles_summarise_trades (tls : List TradeLog) (h : TradesInOrder tls) :
    let c := tls.foldl CandleCounter.count_trade .new
    SortedBy Candle.time_nanos c.segments_1_minute ∧
      (∀ time_nanos, (∃ candle ∈ c.segments_1_minute, candle.time_nanos = time_nanos) ↔
        ∃ tl ∈ tls, minute tl.timestamp_nanos = time_nanos) ∧
      (∀ candle ∈ c.segments_1_minute, NANOS_IN_A_MINUTE ∣ candle.time_nanos ∧
        candle.Summarises (tls.filter fun tl => minute tl.timestamp_nanos = candle.time_nanos)) ∧
      ∀ kind, c.volume kind = Word.cap 128 (volumeOf kind tls) ∧
        c.volume kind = Word.cap 128 (candlesVolume kind c.segments_1_minute) := by
  intro c
  have hs : CandlesSorted c := candles_sorted tls
  have hc : Counted tls c := h.counted
  have hof : ∀ time_nanos, tradesInMinute time_nanos tls =
      tls.filter fun tl => minute tl.timestamp_nanos = time_nanos := by
    intro time_nanos
    apply List.filter_congr
    intro tl htl
    rw [h.minute_eq htl]
  refine ⟨hs.sorted, ?_, ?_, ?_⟩
  · intro time_nanos
    constructor
    · rintro ⟨candle, hcandle, rfl⟩
      obtain ⟨tl, htl⟩ := (hc.candle candle hcandle).exists_trade
      rw [hof] at htl
      obtain ⟨htl, htime⟩ := List.mem_filter.mp htl
      exact ⟨tl, htl, of_decide_eq_true htime⟩
    · rintro ⟨tl, htl, rfl⟩
      rw [← h.minute_eq htl]
      exact hc.minute tl htl
  · intro candle hcandle
    refine ⟨hs.aligned candle hcandle, ?_⟩
    rw [← hof]
    exact hc.candle candle hcandle
  · intro kind
    refine ⟨hc.volume kind, ?_⟩
    have hsame := hc.same kind fun _ => true
    simp only [List.filter_true] at hsame
    rw [hsame, hc.volume]

/-- A trade at a time. -/
def TradeLog.atTime (id timestamp_nanos cycles_per_token_rate tokens cycles : Nat) : TradeLog :=
  { position_id_matcher := 0
    position_id_matchee := 1
    id := id
    matchee_position_positor := ⟨[], Nat.zero_le _⟩
    matcher_position_positor := ⟨[], Nat.zero_le _⟩
    tokens := tokens
    cycles := cycles
    cycles_per_token_rate := cycles_per_token_rate
    matchee_position_kind := .Cycles
    timestamp_nanos := timestamp_nanos
    tokens_payout_fee := 0
    cycles_payout_fee := 0
    cycles_payout_data := none
    token_payout_data := none }

/-- Two trades in the first minute and one in the third. -/
def threeTrades : List TradeLog :=
  [.atTime 0 1000000000 7 2 14, .atTime 1 59000000000 5 1 5, .atTime 2 125000000000 6 1 6]

theorem threeTrades_in_order : TradesInOrder threeTrades := by
  constructor
  · intro tl htl kind
    simp only [threeTrades, List.mem_cons, List.not_mem_nil, or_false] at htl
    rcases htl with rfl | rfl | rfl <;> cases kind <;> decide
  · decide
  · decide

theorem candles_of_three_trades :
    let c := threeTrades.foldl CandleCounter.count_trade .new
    c.segments_1_minute.map Candle.time_nanos = [0, 120000000000] ∧
      ∀ candle ∈ c.segments_1_minute, candle.Summarises
        (threeTrades.filter fun tl => minute tl.timestamp_nanos = candle.time_nanos) := by
  intro c
  obtain ⟨-, -, hcandles, -⟩ := candles_summarise_trades threeTrades threeTrades_in_order
  exact ⟨by decide, fun candle hcandle => (hcandles candle hcandle).2⟩

end Cts.Tc
