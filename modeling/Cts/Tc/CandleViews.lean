import Cts.Lib.Paging
import Cts.Tc.Candles
import Mathlib.Algebra.Order.BigOperators.Group.List
import Mathlib.Algebra.Order.Group.Nat

/-!
# The views of the candles

`create_candles` and `create_view_volume_stats` of `candle_counter.rs`. Both cut the candles at a
minute that they look up by binary search.
-/

namespace Cts.Tc

open Lib Lib.IndexedLog

/-! ## Volumes of the last days -/

def NANOS_IN_A_DAY : Nat := 1000000000 * (60 * 60 * 24)

structure Volume where
  volume_24_hour : Nat
  volume_7_day : Nat
  volume_30_day : Nat
  volume_sum : Nat
  deriving DecidableEq

structure ViewVolumeStatsSponse where
  volume_cycles : Volume
  volume_tokens : Volume
  deriving DecidableEq

def ViewVolumeStatsSponse.volume (sponse : ViewVolumeStatsSponse) : PositionKind → Volume
  | .Cycles => sponse.volume_cycles
  | .Token => sponse.volume_tokens

/-- The candles that a timeframe up to now counts. -/
def timeframe_candles (c : CandleCounter) (now timeframe_length_nanos : Nat) : List Candle :=
  let timeframe_start_nanos := saturating_sub now (Word.wrap 64 timeframe_length_nanos)
  c.segments_1_minute.drop
    (searchPoint c.segments_1_minute timeframe_start_nanos Candle.time_nanos)

def timeframe_volumes (c : CandleCounter) (now timeframe_length_nanos : Nat) : Nat × Nat :=
  (timeframe_candles c now timeframe_length_nanos).foldl
    (fun count candle =>
      (saturating_add count.1 candle.volume_cycles, saturating_add count.2 candle.volume_tokens))
    (0, 0)

def create_view_volume_stats (c : CandleCounter) (now : Nat) : ViewVolumeStatsSponse :=
  let day := timeframe_volumes c now (NANOS_IN_A_DAY * 1)
  let week := timeframe_volumes c now (NANOS_IN_A_DAY * 7)
  let month := timeframe_volumes c now (NANOS_IN_A_DAY * 30)
  { volume_cycles :=
      { volume_24_hour := day.1
        volume_7_day := week.1
        volume_30_day := month.1
        volume_sum := c.volume_cycles }
    volume_tokens :=
      { volume_24_hour := day.2
        volume_7_day := week.2
        volume_30_day := month.2
        volume_sum := c.volume_tokens } }

theorem foldl_volumes (candles : List Candle) (count : Nat × Nat) :
    candles.foldl (fun count candle =>
      (saturating_add count.1 candle.volume_cycles, saturating_add count.2 candle.volume_tokens))
      count =
    (candles.foldl (fun sum candle => saturating_add sum candle.volume_cycles) count.1,
      candles.foldl (fun sum candle => saturating_add sum candle.volume_tokens) count.2) := by
  induction candles generalizing count with
  | nil => rfl
  | cons candle candles ih =>
    rw [List.foldl_cons, ih]
    rfl

theorem timeframe_volumes_eq (c : CandleCounter) (now timeframe_length_nanos : Nat) :
    timeframe_volumes c now timeframe_length_nanos =
      (Word.cap 128 (candlesVolume .Cycles (timeframe_candles c now timeframe_length_nanos)),
        Word.cap 128 (candlesVolume .Token (timeframe_candles c now timeframe_length_nanos))) := by
  have hsum (f : Candle → Nat) (candles : List Candle) :
      candles.foldl (fun sum candle => saturating_add sum (f candle)) 0 =
        Word.cap 128 (candles.map f).sum := by
    have hfold := Word.foldl_saturatingAdd 128 f candles 0
    rw [Nat.zero_add] at hfold
    exact hfold
  rw [timeframe_volumes, foldl_volumes, hsum, hsum]
  rfl

/-- Whether the minute of a trade begins in a timeframe. -/
def inTimeframe (now timeframe_length_nanos : Nat) (tl : TradeLog) : Bool :=
  now - timeframe_length_nanos ≤ minute tl.timestamp_nanos

theorem inTimeframe_mono {now a b : Nat} (h : a ≤ b) (tl : TradeLog)
    (htl : inTimeframe now a tl = true) : inTimeframe now b tl = true := by
  unfold inTimeframe at *
  rw [decide_eq_true_eq] at *
  omega

theorem inTimeframe_of_recent {now timeframe_length_nanos : Nat} {tl : TradeLog}
    (hrecent : now + NANOS_IN_A_MINUTE < tl.timestamp_nanos + timeframe_length_nanos) :
    inTimeframe now timeframe_length_nanos tl = true := by
  have hlt := lt_minute_add tl.timestamp_nanos
  unfold inTimeframe
  rw [decide_eq_true_eq]
  omega

theorem age_of_inTimeframe {now timeframe_length_nanos : Nat} {tl : TradeLog}
    (htl : inTimeframe now timeframe_length_nanos tl = true) :
    now ≤ tl.timestamp_nanos + timeframe_length_nanos := by
  have hle := minute_le tl.timestamp_nanos
  unfold inTimeframe at htl
  rw [decide_eq_true_eq] at htl
  omega

theorem volumeOf_sublist {tls all : List TradeLog} (h : tls.Sublist all) (kind : PositionKind) :
    volumeOf kind tls ≤ volumeOf kind all :=
  List.Sublist.sum_le_sum (h.map fun tl => tl.volume kind) fun _ _ => Nat.zero_le _

section

variable {tls : List TradeLog}

theorem timeframe_candles_volume (h : TradesInOrder tls) (kind : PositionKind) (now : Nat)
    {timeframe_length_nanos : Nat} (hlength : timeframe_length_nanos < 2 ^ 64) :
    Word.cap 128 (candlesVolume kind
      (timeframe_candles (tls.foldl .count_trade .new) now timeframe_length_nanos)) =
        Word.cap 128 (volumeOf kind (tls.filter (inTimeframe now timeframe_length_nanos))) := by
  have htrades : tls.filter (inTimeframe now timeframe_length_nanos) =
      tls.filter fun tl => now - timeframe_length_nanos ≤ tl.minute := by
    apply List.filter_congr
    intro tl htl
    rw [inTimeframe, h.minute_eq htl]
  have hsame := h.counted.same kind fun time_nanos => now - timeframe_length_nanos ≤ time_nanos
  rw [timeframe_candles, Word.wrap_of_lt hlength, (candles_sorted tls).sorted.drop_searchPoint,
    htrades]
  exact hsame

/-- What the volume of a timeframe is to count. -/
def CountsTimeframe (tls : List TradeLog) (now timeframe_length_nanos : Nat)
    (volume : PositionKind → Nat) : Prop :=
  ∃ counted : TradeLog → Bool,
    (∀ kind, volume kind = Word.cap 128 (volumeOf kind (tls.filter counted))) ∧
    ∀ tl ∈ tls,
      (now + NANOS_IN_A_MINUTE < tl.timestamp_nanos + timeframe_length_nanos → counted tl = true) ∧
      (counted tl = true → now ≤ tl.timestamp_nanos + timeframe_length_nanos)

theorem counts_inTimeframe {now timeframe_length_nanos : Nat} {volume : PositionKind → Nat}
    (h : ∀ kind, volume kind =
      Word.cap 128 (volumeOf kind (tls.filter (inTimeframe now timeframe_length_nanos)))) :
    CountsTimeframe tls now timeframe_length_nanos volume := by
  refine ⟨inTimeframe now timeframe_length_nanos, h, ?_⟩
  intro tl _
  exact ⟨inTimeframe_of_recent, age_of_inTimeframe⟩

theorem volume_stats_eq (h : TradesInOrder tls) (now : Nat) (kind : PositionKind) :
    (create_view_volume_stats (tls.foldl .count_trade .new) now).volume kind =
      { volume_24_hour :=
          Word.cap 128 (volumeOf kind (tls.filter (inTimeframe now (NANOS_IN_A_DAY * 1))))
        volume_7_day :=
          Word.cap 128 (volumeOf kind (tls.filter (inTimeframe now (NANOS_IN_A_DAY * 7))))
        volume_30_day :=
          Word.cap 128 (volumeOf kind (tls.filter (inTimeframe now (NANOS_IN_A_DAY * 30))))
        volume_sum := Word.cap 128 (volumeOf kind tls) } := by
  have hday : NANOS_IN_A_DAY * 1 < 2 ^ 64 := by decide
  have hweek : NANOS_IN_A_DAY * 7 < 2 ^ 64 := by decide
  have hmonth : NANOS_IN_A_DAY * 30 < 2 ^ 64 := by decide
  rw [← timeframe_candles_volume h kind now hday, ← timeframe_candles_volume h kind now hweek,
    ← timeframe_candles_volume h kind now hmonth, ← h.counted.volume kind]
  unfold create_view_volume_stats
  rw [timeframe_volumes_eq, timeframe_volumes_eq, timeframe_volumes_eq]
  cases kind <;> rfl

/-- The volumes of the last days count the trades of the last days. -/
theorem volume_stats_count_the_last_days (tls : List TradeLog) (h : TradesInOrder tls)
    (now : Nat) :
    let stats := create_view_volume_stats (tls.foldl .count_trade .new) now
    CountsTimeframe tls now (NANOS_IN_A_DAY * 1) (fun kind => (stats.volume kind).volume_24_hour) ∧
      CountsTimeframe tls now (NANOS_IN_A_DAY * 7) (fun kind => (stats.volume kind).volume_7_day) ∧
      CountsTimeframe tls now (NANOS_IN_A_DAY * 30) (fun kind => (stats.volume kind).volume_30_day) ∧
      ∀ kind, (stats.volume kind).volume_24_hour ≤ (stats.volume kind).volume_7_day ∧
        (stats.volume kind).volume_7_day ≤ (stats.volume kind).volume_30_day ∧
        (stats.volume kind).volume_30_day ≤ (stats.volume kind).volume_sum := by
  intro stats
  have hstats (kind : PositionKind) := volume_stats_eq h now kind
  have hcap {a b : Nat} (hle : a ≤ b) (kind : PositionKind) :
      Word.cap 128 (volumeOf kind (tls.filter (inTimeframe now a))) ≤
        Word.cap 128 (volumeOf kind (tls.filter (inTimeframe now b))) :=
    Word.cap_mono (volumeOf_sublist
      (List.monotone_filter_right tls fun tl htl => inTimeframe_mono hle tl htl) kind)
  refine ⟨?_, ?_, ?_, ?_⟩
  · apply counts_inTimeframe
    exact fun kind => congrArg Volume.volume_24_hour (hstats kind)
  · apply counts_inTimeframe
    exact fun kind => congrArg Volume.volume_7_day (hstats kind)
  · apply counts_inTimeframe
    exact fun kind => congrArg Volume.volume_30_day (hstats kind)
  · intro kind
    rw [hstats kind]
    exact ⟨hcap (by decide) kind, hcap (by decide) kind,
      Word.cap_mono (volumeOf_sublist List.filter_sublist kind)⟩

end

theorem volumes_of_three_trades :
    let stats := create_view_volume_stats (threeTrades.foldl .count_trade .new) 130000000000
    stats.volume_cycles.volume_24_hour = 25 ∧ CountsTimeframe threeTrades 130000000000
      (NANOS_IN_A_DAY * 1) fun kind => (stats.volume kind).volume_24_hour := by
  intro stats
  obtain ⟨hday, -⟩ :=
    volume_stats_count_the_last_days threeTrades threeTrades_in_order 130000000000
  exact ⟨by decide, hday⟩

/-! ## Pages of candles -/

/-- A `u64` and six `u128`s, aligned as the trades data is. -/
def CANDLE_SIZE : Nat := 8 + 6 * 16

def MAX_CANDLES_SPONSE : Nat := (1024 * 1024 * 1 + 1024 * 512) / CANDLE_SIZE

structure ViewCandlesSponse where
  candles : List Candle
  is_earliest_chunk : Bool
  deriving DecidableEq

/-- The candles before the minute of the start. -/
def candlesBefore (c : CandleCounter) : Option Nat → List Candle
  | none => c.segments_1_minute
  | some start_before_time_nanos =>
    c.segments_1_minute.take (searchPoint c.segments_1_minute
      (segment_start_time_nanos start_before_time_nanos) Candle.time_nanos)

def create_candles (c : CandleCounter) (opt_start_before_time_nanos : Option Nat) :
    ViewCandlesSponse :=
  match rchunks MAX_CANDLES_SPONSE (candlesBefore c opt_start_before_time_nanos) with
  -- only an empty slice has no chunks
  | [] => { candles := [], is_earliest_chunk := true }
  | chunk :: s_rchunks => { candles := chunk, is_earliest_chunk := s_rchunks.isEmpty }

def ViewCandlesSponse.page (sponse : ViewCandlesSponse) : Paging.Page Candle :=
  ⟨sponse.candles, sponse.is_earliest_chunk⟩

theorem max_candles_sponse_pos : 0 < MAX_CANDLES_SPONSE := by decide

theorem create_candles_spec (c : CandleCounter) (start : Option Nat) :
    (create_candles c start).candles = newest MAX_CANDLES_SPONSE (candlesBefore c start) ∧
      ((create_candles c start).is_earliest_chunk = true ↔
        (candlesBefore c start).length ≤ MAX_CANDLES_SPONSE) := by
  unfold create_candles
  rcases eq_or_ne (candlesBefore c start) [] with hnil | hne
  · rw [hnil, rchunks_nil max_candles_sponse_pos]
    exact ⟨(newest_of_length_le (Nat.zero_le _)).symm, by simp⟩
  · obtain ⟨chunks, hchunks, hlast⟩ := rchunks_eq max_candles_sponse_pos hne
    rw [hchunks, ← hlast]
    dsimp only
    exact ⟨rfl, List.isEmpty_iff⟩

theorem create_candles_descends {c : CandleCounter} (h : CandlesSorted c) :
    Paging.Descends Candle.time_nanos c.segments_1_minute MAX_CANDLES_SPONSE minute
      fun start => (create_candles c start).page := by
  have hbefore (start : Option Nat) : candlesBefore c start =
      Paging.under Candle.time_nanos c.segments_1_minute (start.map minute) := by
    cases start with
    | none => rfl
    | some start =>
      rw [candlesBefore, segment_start_eq, h.sorted.take_searchPoint]
      rfl
  constructor
  · intro candle hcandle
    exact minute_of_dvd (h.aligned candle hcandle)
  · intro start
    rw [← hbefore]
    exact (create_candles_spec c start).1
  · intro start
    rw [← hbefore]
    exact (create_candles_spec c start).2

/-- The pages of the candles are all the candles. -/
theorem candle_pages_are_complete (tls : List TradeLog) :
    let c := tls.foldl CandleCounter.count_trade .new
    let view := fun start => (create_candles c start).page
    (∃ pages, Paging.Chain view (Paging.firstKey Candle.time_nanos) none pages) ∧
      (∀ pages, Paging.Chain view (Paging.firstKey Candle.time_nanos) none pages →
        pages.reverse.flatten = c.segments_1_minute) ∧
      ∀ start, SortedBy Candle.time_nanos (create_candles c (some start)).candles ∧
        (∀ candle ∈ (create_candles c (some start)).candles,
          candle ∈ c.segments_1_minute ∧ candle.time_nanos < minute start) ∧
        ((create_candles c (some start)).is_earliest_chunk = true ↔
          ∀ candle ∈ c.segments_1_minute, candle.time_nanos < minute start →
            candle ∈ (create_candles c (some start)).candles) := by
  intro c view
  have hs : CandlesSorted c := candles_sorted tls
  have hview := create_candles_descends hs
  obtain ⟨all, hall, hflatten⟩ := hview.complete hs.sorted max_candles_sponse_pos none
  refine ⟨⟨all, hall⟩, ?_, ?_⟩
  · intro pages hpages
    rw [hpages.unique hall]
    exact hflatten
  · intro start
    have hitems : (create_candles c (some start)).candles = newest MAX_CANDLES_SPONSE
        (c.segments_1_minute.filter fun candle => candle.time_nanos < minute start) :=
      hview.items (some start)
    have hsorted : SortedBy Candle.time_nanos
        (c.segments_1_minute.filter fun candle => candle.time_nanos < minute start) :=
      List.Pairwise.sublist (List.filter_sublist.map _) hs.sorted
    refine ⟨?_, ?_, ?_⟩
    · rw [hitems]
      exact hsorted.newest _
    · intro candle hcandle
      rw [hitems] at hcandle
      simpa using List.mem_of_mem_drop hcandle
    · have hlast := hview.is_last_iff hs.sorted (some start)
      simpa [Paging.under, ViewCandlesSponse.page] using hlast

end Cts.Tc
