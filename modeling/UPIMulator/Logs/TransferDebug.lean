import UPIMulator.Python.Dict
import UPIMulator.Python.Float
import Mathlib.Algebra.Order.BigOperators.Group.List

/-!
# The transfer debug analyzer

`src/tools/transfer_debug_analyzer.py` reads the `[chiplet-debug] transfer`
lines of `run_debug.log`, keeps the ones that pass the command-line filters,
and reports for each stage the number of transfers, their bytes, hop
statistics, and the bytes moved between each endpoint tuple, largest first.

A `Transfer` is a record as `read_transfers` yields it: the named groups of
`TRANSFER_RE`, the `\d+` groups as `Nat` and the `-?\d+` groups as `Int`.
Matching the expression is modelled in `UPIMulator.Logs.TransferLine`;
opening the file is not.  `statistics.mean` computes the mean of the hops as
a fraction and returns it as an `int` when it is whole, and otherwise as the
nearest `float`; that conversion raises `OverflowError` for a mean beyond
`2 ^ 1024`, which is left out.

* `summarize_eq`: the first loop of `summarize` fills a `dict` of stages with
  `setdefault` and a `Counter` of endpoints per stage.  It computes the
  group-by of the filtered records: one entry per stage in order of first
  occurrence, holding that stage's count, bytes, hops and per-endpoint bytes.
* `summarize_wellFormed`: hence every reported stage has a positive count,
  and `top_endpoints` lists distinct endpoints in non-increasing byte order
  whose bytes add up to the stage's `total_bytes`; when every hop count is
  below `2 ^ 53`, `min_hops ≤ avg_hops ≤ max_hops` (above it the rounded mean
  can fall outside).  The `else 0` branches of the hop statistics are dead.
* `summarize_stage_option`: `--stage s` reports exactly the entry of `s` in
  the report without `--stage`; an empty `s` is false in Python and filters
  nothing.
-/

namespace UPIMulator.Logs.TransferDebug

open UPIMulator.Python

/-! ## Records and filters -/

/-- The key of `by_endpoint`: `(src_dig, dst_dig, src_rram, dst_rram)`. -/
structure Endpoint where
  srcDig : Int
  dstDig : Int
  srcRram : Int
  dstRram : Int
  deriving DecidableEq, Repr

/-- A record of `read_transfers`. -/
structure Transfer where
  stage : String
  bytes : Nat
  hops : Nat
  srcDig : Int
  dstDig : Int
  srcRram : Int
  dstRram : Int
  deriving DecidableEq, Repr

/-- The endpoint tuple of a record. -/
def Transfer.endpoint (record : Transfer) : Endpoint :=
  ⟨record.srcDig, record.dstDig, record.srcRram, record.dstRram⟩

/-- The filtering options of `parse_args`: `--stage`, the four `nargs="*"`
id lists, and `--min-bytes` (default `0`). -/
structure Filters where
  stage : Option String
  srcDigital : Option (List Int)
  dstDigital : Option (List Int)
  srcRram : Option (List Int)
  dstRram : Option (List Int)
  minBytes : Int
  deriving Repr

/-- `match_list(values, field)`: a list that is `None` or empty accepts
every value. -/
def matchList (values : Option (List Int)) (value : Int) : Bool :=
  match values with
  | none | some [] => true
  | some vs => value ∈ vs

/-- `args.stage and record["stage"] != args.stage`: the stage test fails. -/
def stageRejects (stage : Option String) (recordStage : String) : Bool :=
  match stage with
  | some s => s ≠ "" ∧ recordStage ≠ s
  | none => false

/-- `matches_filters(record, args)`. -/
def matchesFilters (record : Transfer) (args : Filters) : Bool :=
  if stageRejects args.stage record.stage then false
  else if args.minBytes ≠ 0 ∧ (record.bytes : Int) < args.minBytes then false
  else matchList args.srcDigital record.srcDig && matchList args.dstDigital record.dstDig &&
    matchList args.srcRram record.srcRram && matchList args.dstRram record.dstRram

/-! ## `summarize` -/

/-- The `dict` that `summarize` keeps for a stage during its first loop. -/
structure StageStats where
  count : Nat
  totalBytes : Nat
  hops : List Nat
  byEndpoint : List (Endpoint × Nat)

/-- The value `setdefault` inserts for a new stage. -/
def StageStats.empty : StageStats := ⟨0, 0, [], []⟩

/-- The four updates of a stage's `dict` by one record. -/
def recordTransfer (stats : StageStats) (record : Transfer) : StageStats :=
  { count := stats.count + 1
    totalBytes := stats.totalBytes + record.bytes
    hops := stats.hops ++ [record.hops]
    byEndpoint := upsert record.endpoint 0 (· + record.bytes) stats.byEndpoint }

/-- One pass of the first loop of `summarize`. -/
def summarizeStep (args : Filters) (stageStats : List (String × StageStats))
    (record : Transfer) : List (String × StageStats) :=
  if matchesFilters record args then
    upsert record.stage StageStats.empty (recordTransfer · record) stageStats
  else stageStats

/-- An entry of `top_endpoints`. -/
structure EndpointBytes where
  srcDigital : Int
  dstDigital : Int
  srcRram : Int
  dstRram : Int
  bytes : Nat
  deriving DecidableEq, Repr

/-- The endpoint tuple of a `top_endpoints` entry. -/
def EndpointBytes.endpoint (e : EndpointBytes) : Endpoint :=
  ⟨e.srcDigital, e.dstDigital, e.srcRram, e.dstRram⟩

/-- A stage of the report, once `hops` and `by_endpoint` are deleted. -/
structure StageSummary where
  count : Nat
  totalBytes : Nat
  avgHops : ℚ
  maxHops : Nat
  minHops : Nat
  topEndpoints : List EndpointBytes
  deriving Repr

/-- `Counter.most_common()`: `sorted(items, key=count, reverse=True)`, which
keeps equal counts in insertion order. -/
def mostCommon (counter : List (Endpoint × Nat)) : List (Endpoint × Nat) :=
  counter.mergeSort fun a b => b.2 ≤ a.2

/-- `statistics.mean(data)` for a non-empty list of `int`s: the mean as a
fraction, returned as an `int` when it is whole and otherwise converted to
the nearest `float`. -/
def statisticsMean (data : List Nat) : ℚ :=
  let q : ℚ := (data.sum : ℚ) / data.length
  if q.den = 1 then q else roundNearest q

/-- The body of the second loop of `summarize`.  `max(hops) if hops else 0`
is `hops.max?.getD 0`, and likewise for `min`. -/
def finalize (stats : StageStats) : StageSummary :=
  { count := stats.count
    totalBytes := stats.totalBytes
    avgHops := if stats.hops = [] then 0 else statisticsMean stats.hops
    maxHops := stats.hops.max?.getD 0
    minHops := stats.hops.min?.getD 0
    topEndpoints := (mostCommon stats.byEndpoint).map fun p =>
      ⟨p.1.srcDig, p.1.dstDig, p.1.srcRram, p.1.dstRram, p.2⟩ }

/-- `summarize(transfers, args)`. -/
def summarize (transfers : List Transfer) (args : Filters) : List (String × StageSummary) :=
  (transfers.foldl (summarizeStep args) []).map fun p => (p.1, finalize p.2)

/-! ## The group-by that the loop computes -/

/-- What the first loop keeps of the records `rs` of one stage, described
without the loop. -/
def stageStatsOf (rs : List Transfer) : StageStats :=
  { count := rs.length
    totalBytes := (rs.map (·.bytes)).sum
    hops := rs.map (·.hops)
    byEndpoint := groupFold (·.endpoint) 0 (fun n r => n + r.bytes) rs }

theorem foldl_recordTransfer (rs : List Transfer) :
    rs.foldl recordTransfer StageStats.empty = stageStatsOf rs := by
  induction rs using List.reverseRecOn with
  | nil => rfl
  | append_singleton rs r ih =>
    rw [List.foldl_append, ih, List.foldl_cons, List.foldl_nil, recordTransfer, stageStatsOf,
      stageStatsOf, groupFold_append]
    simp [List.sum_append]

/-- The loop skips the records the filters reject. -/
theorem foldl_summarizeStep (args : Filters) (transfers : List Transfer)
    (d : List (String × StageStats)) :
    transfers.foldl (summarizeStep args) d =
      (transfers.filter (matchesFilters · args)).foldl
        (fun d r => upsert r.stage StageStats.empty (recordTransfer · r) d) d := by
  induction transfers generalizing d with
  | nil => rfl
  | cons r rs ih =>
    rw [List.foldl_cons, ih, List.filter_cons, summarizeStep]
    split_ifs <;> rfl

/-- The report is the group-by of the filtered records by stage. -/
theorem summarize_eq (transfers : List Transfer) (args : Filters) :
    summarize transfers args =
      let rs := transfers.filter (matchesFilters · args)
      (firstOccurrences (rs.map (·.stage))).map fun s =>
        (s, finalize (stageStatsOf (rs.filter (·.stage = s)))) := by
  rw [summarize, foldl_summarizeStep, foldl_upsert, groupFold, List.map_map]
  simp only [Function.comp_def, foldl_recordTransfer]

/-! ## What every reported stage satisfies -/

/-- The invariant of a reported stage. -/
structure StageSummary.WellFormed (st : StageSummary) : Prop where
  count_pos : 0 < st.count
  bytes_sum : (st.topEndpoints.map (·.bytes)).sum = st.totalBytes
  bytes_sorted : st.topEndpoints.Pairwise fun a b => b.bytes ≤ a.bytes
  endpoints_nodup : (st.topEndpoints.map (·.endpoint)).Nodup

/-- The hop statistics of a stage are in order. -/
structure StageSummary.HopsInRange (st : StageSummary) : Prop where
  minHops_le_avgHops : (st.minHops : ℚ) ≤ st.avgHops
  avgHops_le_maxHops : st.avgHops ≤ st.maxHops

/-- The mean of a non-empty list of naturals lies between its minimum and its
maximum. -/
theorem min_le_mean_le_max {hs : List Nat} (h : hs ≠ []) :
    ((hs.min?.getD 0 : Nat) : ℚ) ≤ (hs.sum : ℚ) / hs.length ∧
      (hs.sum : ℚ) / hs.length ≤ (hs.max?.getD 0 : Nat) := by
  have hlen : (0 : ℚ) < hs.length := by exact_mod_cast List.length_pos.2 h
  obtain ⟨lo, hlo⟩ := Option.ne_none_iff_exists'.1 (mt List.min?_eq_none_iff.1 h)
  obtain ⟨hi, hhi⟩ := Option.ne_none_iff_exists'.1 (mt List.max?_eq_none_iff.1 h)
  have hle : hs.length * lo ≤ hs.sum := by
    simpa using List.card_nsmul_le_sum hs lo
      ((List.le_min?_iff (fun _ _ _ => le_min_iff) hlo).1 le_rfl)
  have hge : hs.sum ≤ hs.length * hi := by
    simpa using List.sum_le_card_nsmul hs hi
      ((List.max?_le_iff (fun _ _ _ => max_le_iff) hhi).1 le_rfl)
  rw [hlo, hhi, Option.getD_some, Option.getD_some, le_div_iff₀ hlen, div_le_iff₀ hlen]
  constructor
  · rw [mul_comm]; exact_mod_cast hle
  · rw [mul_comm]; exact_mod_cast hge

/-- When every value is below `2 ^ 53` the minimum and the maximum are
doubles, and the rounding keeps the mean between them. -/
theorem min_le_statisticsMean_le_max {hs : List Nat} (h : hs ≠ []) (hb : ∀ x ∈ hs, x < 2 ^ 53) :
    ((hs.min?.getD 0 : Nat) : ℚ) ≤ statisticsMean hs ∧ statisticsMean hs ≤ (hs.max?.getD 0 : Nat) := by
  obtain ⟨hmin, hmax⟩ := min_le_mean_le_max h
  simp only [statisticsMean]
  split_ifs
  · exact ⟨hmin, hmax⟩
  obtain ⟨lo, hlo⟩ := Option.ne_none_iff_exists'.1 (mt List.min?_eq_none_iff.1 h)
  obtain ⟨hi, hhi⟩ := Option.ne_none_iff_exists'.1 (mt List.max?_eq_none_iff.1 h)
  have hlo' := hb lo (List.min?_mem (fun a b => min_choice a b) hlo)
  have hhi' := hb hi (List.max?_mem (fun a b => max_choice a b) hhi)
  simp only [hlo, hhi, Option.getD_some] at hmin hmax ⊢
  exact_mod_cast roundNearest_mem_Icc (a := lo) (b := hi) (by simpa using hlo') (by simpa using hhi')
    (by exact_mod_cast hmin) (by exact_mod_cast hmax)

theorem mostCommon_perm (counter : List (Endpoint × Nat)) : (mostCommon counter).Perm counter :=
  List.mergeSort_perm _ _

theorem mostCommon_sorted (counter : List (Endpoint × Nat)) :
    (mostCommon counter).Pairwise fun a b => b.2 ≤ a.2 := by
  have := @List.sorted_mergeSort _ (fun a b : Endpoint × Nat => decide (b.2 ≤ a.2))
    (fun _ _ _ hab hbc => by simp only [decide_eq_true_eq] at *; omega)
    (fun a b => by simpa using Nat.le_total b.2 a.2) counter
  simpa using this

/-- The stage entry built from a non-empty list of records is well formed. -/
theorem finalize_stageStatsOf_wellFormed {rs : List Transfer} (h : rs ≠ []) :
    (finalize (stageStatsOf rs)).WellFormed := by
  have hperm := mostCommon_perm (groupFold (·.endpoint) 0 (fun n r => n + r.bytes) rs)
  refine ⟨List.length_pos.2 h, ?_, ?_, ?_⟩
  · simp only [finalize, stageStatsOf, List.map_map]
    rw [← groupFold_sum (·.endpoint) (·.bytes) rs]
    exact (hperm.map _).sum_eq
  · simp only [finalize, stageStatsOf, List.pairwise_map]
    exact mostCommon_sorted _
  · simp only [finalize, stageStatsOf, List.map_map]
    have hkeys := keys_groupFold (·.endpoint) 0 (fun n r => n + r.bytes) rs
    refine ((hperm.map Prod.fst).nodup_iff.2 ?_)
    rw [hkeys]
    exact nodup_firstOccurrences _

/-- The hop statistics of a non-empty list of records with hop counts below
`2 ^ 53` are in order. -/
theorem finalize_stageStatsOf_hopsInRange {rs : List Transfer} (h : rs ≠ [])
    (hb : ∀ r ∈ rs, r.hops < 2 ^ 53) : (finalize (stageStatsOf rs)).HopsInRange := by
  have hhops : rs.map (·.hops) ≠ [] := by simpa using h
  obtain ⟨hmin, hmax⟩ := min_le_statisticsMean_le_max hhops (by simpa using hb)
  exact ⟨by simpa [finalize, stageStatsOf, hhops] using hmin,
    by simpa [finalize, stageStatsOf, hhops] using hmax⟩

/-- Every report lists each stage once, and every stage in it is well
formed; its hop statistics are in order when every hop count is below
`2 ^ 53`. -/
theorem summarize_wellFormed (transfers : List Transfer) (args : Filters) :
    ((summarize transfers args).map (·.1)).Nodup ∧
      ∀ p ∈ summarize transfers args, p.2.WellFormed ∧
        ((∀ r ∈ transfers, r.hops < 2 ^ 53) → p.2.HopsInRange) := by
  rw [summarize_eq]
  refine ⟨by simpa [List.map_map, Function.comp_def] using
    nodup_firstOccurrences ((transfers.filter (matchesFilters · args)).map (·.stage)), ?_⟩
  simp only [List.mem_map, mem_firstOccurrences]
  rintro _ ⟨s, ⟨r, hr, rfl⟩, rfl⟩
  have hne : (transfers.filter (matchesFilters · args)).filter (·.stage = r.stage) ≠ [] :=
    List.ne_nil_of_mem (List.mem_filter.2 ⟨hr, by simp⟩)
  exact ⟨finalize_stageStatsOf_wellFormed hne, fun hb => finalize_stageStatsOf_hopsInRange hne
    fun r' hr' => hb r' (List.mem_of_mem_filter (List.mem_of_mem_filter hr'))⟩

/-- Two transfers of one stage, one and two hops long: their mean is not
whole. -/
def twoHopTransfers : List Transfer :=
  [⟨"moe", 64, 1, 0, 1, -1, -1⟩, ⟨"moe", 32, 2, 0, 1, -1, -1⟩]

/-- No filter, as `parse_args` leaves them. -/
def noFilters : Filters := ⟨none, none, none, none, none, 0⟩

theorem summarize_wellFormed_two_hops :
    (∀ r ∈ twoHopTransfers, r.hops < 2 ^ 53) ∧
      ∀ p ∈ summarize twoHopTransfers noFilters, p.2.HopsInRange :=
  ⟨by decide, fun p hp => ((summarize_wellFormed twoHopTransfers noFilters).2 p hp).2 (by decide)⟩

/-! ## The `--stage` option -/

/-- The stage test comes first; the other tests do not read `--stage`. -/
theorem matchesFilters_eq (record : Transfer) (args : Filters) :
    matchesFilters record args =
      (!stageRejects args.stage record.stage && matchesFilters record { args with stage := none }) := by
  unfold matchesFilters
  cases stageRejects args.stage record.stage <;> rfl

/-- `--stage s` reports the entry of `s` in the report without `--stage`,
and nothing else; an empty `s` filters nothing. -/
theorem summarize_stage_option (transfers : List Transfer) (args : Filters) (s : String) :
    summarize transfers { args with stage := some s } =
      if s = "" then summarize transfers { args with stage := none }
      else (summarize transfers { args with stage := none }).filter (·.1 = s) := by
  have hfilter : transfers.filter (matchesFilters · { args with stage := some s }) =
      if s = "" then transfers.filter (matchesFilters · { args with stage := none })
      else (transfers.filter (matchesFilters · { args with stage := none })).filter
        (·.stage = s) := by
    split_ifs with hs
    · exact List.filter_congr fun r _ => by rw [matchesFilters_eq]; simp [stageRejects, hs]
    · rw [List.filter_filter]
      exact List.filter_congr fun r _ => by
        rw [matchesFilters_eq]; simp [stageRejects, hs, Bool.and_comm]
  simp only [summarize_eq, hfilter]
  split_ifs with hs
  · rfl
  set rs := transfers.filter (matchesFilters · { args with stage := none })
  have hstages : (rs.filter (·.stage = s)).map (·.stage) = (rs.map (·.stage)).filter (· = s) := by
    rw [List.filter_map]; rfl
  rw [hstages, firstOccurrences_filter, List.filter_map]
  refine List.map_congr_left fun k hk => ?_
  obtain rfl : k = s := by simpa using (List.mem_filter.1 hk).2
  simp [List.filter_filter]

end UPIMulator.Logs.TransferDebug
