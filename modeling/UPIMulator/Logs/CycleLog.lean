import UPIMulator.Python.Float
import Mathlib.Algebra.Order.BigOperators.Group.List
import Mathlib.Algebra.BigOperators.Ring

/-!
# The cycle-log summarizer

`src/tools/cycle_log_summarizer.py` reads `chiplet_cycle_log.csv`, one row per
simulated cycle, and reports totals, per-cycle averages and, for the three
byte columns, the peak of their moving average.  `load_csv` reads every cell
with `float`, and an empty one as `nan`: a row here is that result, a float per
column.

`moving_peak(values, window)` keeps the last `window` values in a queue and
their sum in a float accumulator: each value is appended and added, and once
the queue is longer than the window its front is popped and subtracted.
`peak` starts at `0.0` and keeps the larger of itself and each average.  A
window of `0` or less skips the loop and returns `max(values)`.  Every `+`,
`-` and `/` rounds, so on fractional values the accumulator drifts from the
sum of the queue.  On integer values whose magnitudes add up to less than
`2 ^ 53` (`ExactValues`), every sum and count is exact and only the averages
round.

* `pushPop_exact`, `peakStep_floatState`, `foldlM_peakStep`: on such values,
  after reading a prefix `xs`, the queue holds the last `window` values of
  `xs`, the accumulator their exact sum, and `peak` the double nearest the
  largest of `0` and the averages recomputed from scratch after each value.
* `movingPeak_eq`: hence for a positive window the loop returns the double
  nearest the largest of `0` and the recomputed window averages.
* `sum_le_length_mul_peak`, `movingPeak_between_mean_and_max`: for every
  window the exact peak lies between the mean of the values and the larger of
  `0` and their maximum.  The lower bound splits the values into the last full
  window and the prefix before it.
* `foldl_summarizeRow`: the loop of `summarize` adds up every column but
  `cycle`, skipping NaN cells, and collects the byte columns in row order.
* `summarize_peaks_between_avg_and_max`: so for a non-empty log whose byte
  columns hold such integers, the three peak keys are present (their guards
  are dead), and each lies between the per-cycle average reported beside it
  and the larger of `0` and the column's largest value.
-/

namespace UPIMulator.Logs.CycleLog

open UPIMulator.Python

/-! ## The loop -/

/-- The locals of the loop of `moving_peak`. -/
structure PeakState where
  peak : Double
  acc : Double
  queue : List Double

/-- `queue.append(val)` and `acc += val`, then `acc -= queue.pop(0)` once the
queue is longer than the window. -/
def pushPop (window : Int) (acc : Double) (queue : List Double) (val : Double) :
    Double × List Double :=
  let queue := queue ++ [val]
  let acc := acc.add val
  if (queue.length : Int) > window then
    match queue with
    | front :: rest => (acc.sub front, rest)
    | [] => (acc, [])
  else (acc, queue)

/-- One pass of `for val in values`: `avg = acc / len(queue)` and
`peak = max(peak, avg)` after `pushPop`. -/
def peakStep (window : Int) (s : PeakState) (val : Double) : Except PyError PeakState := do
  let (acc, queue) := pushPop window s.acc s.queue val
  let avg ← acc.div (.ofRat queue.length)
  pure { peak := s.peak.pyMax avg, acc, queue }

/-- `max(values) if values else 0.0`. -/
def maxOrZero : List Double → Double
  | [] => .finite 0
  | v :: vs => vs.foldl Double.pyMax v

/-- `moving_peak(values, window)`. -/
def movingPeak (values : List Double) (window : Int) : Except PyError Double :=
  if window ≤ 0 ∨ values = [] then pure (maxOrZero values)
  else PeakState.peak <$> values.foldlM (peakStep window) ⟨.finite 0, .finite 0, []⟩

/-! ## The averages recomputed from the values -/

/-- The last `window` values of `xs`: what the queue holds after `xs`. -/
def lastWindow {α : Type} (window : Nat) (xs : List α) : List α := xs.drop (xs.length - window)

/-- The average of the last `window` values of `xs`. -/
def windowAvg (window : Nat) (xs : List ℚ) : ℚ :=
  (lastWindow window xs).sum / (lastWindow window xs).length

/-- The average after each value, recomputed from the values. -/
def windowAverages (window : Nat) (values : List ℚ) : List ℚ :=
  (List.range values.length).map fun i => windowAvg window (values.take (i + 1))

theorem windowAverages_append (window : Nat) (xs : List ℚ) (v : ℚ) :
    windowAverages window (xs ++ [v]) =
      windowAverages window xs ++ [windowAvg window (xs ++ [v])] := by
  simp only [windowAverages, List.length_append, List.length_singleton, List.range_succ,
    List.map_append, List.map_singleton]
  congr 1
  · refine List.map_congr_left fun i hi => ?_
    rw [List.take_append_of_le_length (by simp at hi; omega)]
  · rw [List.take_of_length_le (by simp)]

/-- Appending a value to a prefix appends to the queue and pops its front
once the queue is longer than the window. -/
theorem lastWindow_append {α : Type} {window : Nat} (hw : 1 ≤ window) (xs : List α) (v : α) :
    lastWindow window (xs ++ [v]) =
      if window < (lastWindow window xs ++ [v]).length then (lastWindow window xs ++ [v]).tail
      else lastWindow window xs ++ [v] := by
  simp only [lastWindow, List.length_append, List.length_drop, List.length_singleton]
  by_cases hn : window ≤ xs.length
  · rw [if_pos (by omega), ← List.drop_append_of_le_length (by omega), List.tail_drop]
    congr 1
    omega
  · rw [if_neg (by omega), show xs.length - window = 0 by omega,
      show xs.length + 1 - window = 0 by omega, List.drop_zero, List.drop_zero]

theorem lastWindow_map {α β : Type} (f : α → β) (window : Nat) (xs : List α) :
    lastWindow window (xs.map f) = (lastWindow window xs).map f := by
  rw [lastWindow, lastWindow, List.map_drop, List.length_map]

theorem windowAvg_map_intCast (window : Nat) (xs : List Int) :
    windowAvg window (xs.map Int.cast) =
      ((lastWindow window xs).sum : ℚ) / (lastWindow window xs).length := by
  rw [windowAvg, lastWindow_map, List.length_map, Int.cast_list_sum]

/-! ## Exact integer values -/

/-- Integer values on which the loop is exact: their magnitudes add up to
less than `2 ^ 53`, and there are fewer than `2 ^ 53` of them. -/
structure ExactValues (values : List Int) : Prop where
  sum_lt : (values.map Int.natAbs).sum < 2 ^ 53
  length_lt : values.length < 2 ^ 53

/-- The integers as the floats of a column. -/
def ofInts (values : List Int) : List Double := values.map fun v : Int => .finite (v : ℚ)

@[simp] theorem ofInts_append (xs ys : List Int) : ofInts (xs ++ ys) = ofInts xs ++ ofInts ys :=
  List.map_append _ _ _

@[simp] theorem length_ofInts (xs : List Int) : (ofInts xs).length = xs.length := List.length_map _ _

theorem natAbs_sum_le (l : List Int) : l.sum.natAbs ≤ (l.map Int.natAbs).sum := by
  induction l with
  | nil => simp
  | cons x l ih =>
    rw [List.sum_cons, List.map_cons, List.sum_cons]
    exact (Int.natAbs_add_le _ _).trans (Nat.add_le_add_left ih _)

theorem ExactValues.of_sublist {l values : List Int} (hx : ExactValues values) (h : List.Sublist l values) :
    ExactValues l :=
  ⟨(((h.map _).sum_le_sum fun _ _ => Nat.zero_le _)).trans_lt hx.sum_lt,
    h.length_le.trans_lt hx.length_lt⟩

/-- The sum of exact values converts exactly. -/
theorem ExactValues.ofRat_sum {values : List Int} (hx : ExactValues values) :
    Double.ofRat (values.sum : ℚ) = .finite values.sum :=
  Double.ofRat_intCast ((natAbs_sum_le _).trans_lt hx.sum_lt)

/-- The count of exact values converts exactly. -/
theorem ExactValues.ofRat_length {values : List Int} (hx : ExactValues values) :
    Double.ofRat values.length = .finite values.length := by
  simpa using Double.ofRat_intCast (n := values.length) (by simpa using hx.length_lt)

/-- The average of exact values rounds once. -/
theorem ExactValues.ofRat_avg {values : List Int} (hx : ExactValues values) :
    Double.ofRat ((values.sum : ℚ) / values.length) =
      .finite (roundNearest ((values.sum : ℚ) / values.length)) := by
  refine Double.ofRat_of_abs_le (n := |values.sum|) (by
    rw [Int.natAbs_abs]; exact (natAbs_sum_le _).trans_lt hx.sum_lt) ?_
  rw [abs_div, Nat.abs_cast, Int.cast_abs]
  rcases Nat.eq_zero_or_pos values.length with h | h
  · simp [h]
  · exact div_le_self (abs_nonneg _) (Nat.one_le_cast.2 h)

/-- The floats the loop holds after reading the integers `xs` exactly. -/
def floatState (window : Nat) (xs : List Int) : PeakState :=
  ⟨.finite (roundNearest ((windowAverages window (xs.map Int.cast)).foldl max 0)),
    .finite (lastWindow window xs).sum, ofInts (lastWindow window xs)⟩

/-- On exact values the accumulator stays the sum of the queue, and the queue
the last `window` values. -/
theorem pushPop_exact {window : Nat} (hw : 1 ≤ window) {xs : List Int} {v : Int}
    (hx : ExactValues (xs ++ [v])) :
    pushPop window (.finite (lastWindow window xs).sum) (ofInts (lastWindow window xs)) (.finite v) =
      (.finite (lastWindow window (xs ++ [v])).sum, ofInts (lastWindow window (xs ++ [v]))) := by
  have hW : List.Sublist (lastWindow window xs ++ [v]) (xs ++ [v]) := (List.drop_sublist _ _).append_right _
  have hadd := (hx.of_sublist hW).ofRat_sum
  rw [List.sum_append, List.sum_singleton, Int.cast_add] at hadd
  rw [pushPop, lastWindow_append hw]
  simp only [List.length_append, length_ofInts, List.length_singleton, Double.add_finite, hadd,
    gt_iff_lt, Nat.cast_lt]
  split_ifs with h
  · obtain ⟨front, rest, hq⟩ : ∃ front rest, lastWindow window xs ++ [v] = front :: rest :=
      List.exists_cons_of_ne_nil (by simp)
    have hsum : ((lastWindow window xs).sum : ℚ) + v - front = (rest.sum : Int) := by
      have := congrArg List.sum hq
      rw [List.sum_append, List.sum_singleton, List.sum_cons] at this
      exact_mod_cast (by omega : (lastWindow window xs).sum + v - front = rest.sum)
    have hmap : ofInts (lastWindow window xs) ++ [.finite (v : ℚ)] =
        .finite (front : ℚ) :: ofInts rest := by
      rw [show [Double.finite (v : ℚ)] = ofInts [v] from rfl, ← ofInts_append, hq]
      rfl
    have hrest : List.Sublist rest (xs ++ [v]) := (List.sublist_cons_self front rest).trans (hq ▸ hW)
    rw [hmap]
    dsimp only
    rw [Double.sub_finite, hsum, (hx.of_sublist hrest).ofRat_sum, hq]
    rfl
  · rw [ofInts_append, List.sum_append, List.sum_singleton, Int.cast_add]
    rfl

/-- One pass of the loop moves the floats of `xs` to the floats of
`xs ++ [v]`. -/
theorem peakStep_floatState {window : Nat} (hw : 1 ≤ window) {xs : List Int} {v : Int}
    (hx : ExactValues (xs ++ [v])) :
    peakStep window (floatState window xs) (.finite v) = .ok (floatState window (xs ++ [v])) := by
  have hW' : ExactValues (lastWindow window (xs ++ [v])) := hx.of_sublist (List.drop_sublist _ _)
  have hlen : 1 ≤ (lastWindow window (xs ++ [v])).length := by
    simp only [lastWindow, List.length_drop, List.length_append, List.length_singleton]
    omega
  rw [peakStep, floatState, pushPop_exact hw hx]
  dsimp only
  rw [length_ofInts, hW'.ofRat_length, Double.div_finite (by exact_mod_cast (by omega : _ ≠ 0)), hW'.ofRat_avg]
  simp only [floatState, windowAverages_append, List.map_append, List.map_singleton,
    List.foldl_append, List.foldl_cons, List.foldl_nil, pure_bind, Double.pyMax_finite,
    roundNearest_max, ← windowAvg_map_intCast]
  rfl

/-- The loop over exact values ends in the floats of the values. -/
theorem foldlM_peakStep {window : Nat} (hw : 1 ≤ window) {values : List Int}
    (hx : ExactValues values) :
    (ofInts values).foldlM (peakStep window) ⟨.finite 0, .finite 0, []⟩ =
      .ok (floatState window values) := by
  induction values using List.reverseRecOn with
  | nil => simp [floatState, windowAverages, lastWindow, ofInts, roundNearest]; rfl
  | append_singleton xs v ih =>
    rw [ofInts_append, List.foldlM_append, ih (hx.of_sublist (List.sublist_append_left _ _)),
      ok_bind]
    simp only [ofInts, List.map_cons, List.map_nil, List.foldlM_cons, List.foldlM_nil,
      peakStep_floatState hw hx, ok_bind]
    rfl

/-- For a positive window and exact values, the float loop returns the double
nearest the largest of `0` and the window averages recomputed after each
value. -/
theorem movingPeak_eq {values : List Int} (hx : ExactValues values) {window : Int}
    (hw : 1 ≤ window) :
    movingPeak (ofInts values) window =
      .ok (.finite (roundNearest ((windowAverages window.toNat (values.map Int.cast)).foldl max 0))) := by
  by_cases hne : values = []
  · subst hne
    simp [movingPeak, maxOrZero, ofInts, windowAverages, roundNearest]
    rfl
  rw [movingPeak, if_neg (not_or.2 ⟨by omega, by simpa [ofInts] using hne⟩)]
  have hcast : ((window.toNat : Nat) : Int) = window := by omega
  rw [← hcast, foldlM_peakStep (by omega) hx]
  rfl

/-- Three transfers of a window of two. -/
theorem movingPeak_window_two :
    ExactValues [4, 0, 2] ∧ (1 : Int) ≤ 2 ∧
      movingPeak (ofInts [4, 0, 2]) 2 =
        .ok (.finite (roundNearest ((windowAverages (2 : Int).toNat ([4, 0, 2].map Int.cast)).foldl max 0))) :=
  ⟨⟨by decide, by decide⟩, by decide, movingPeak_eq ⟨by decide, by decide⟩ (by decide)⟩

/-! ## Bounds -/

theorem foldl_max_le_iff {l : List ℚ} {a c : ℚ} :
    l.foldl max a ≤ c ↔ a ≤ c ∧ ∀ x ∈ l, x ≤ c := by
  induction l generalizing a with
  | nil => simp
  | cons x l ih => simp [ih, and_assoc]

theorem le_foldl_max {l : List ℚ} {a x : ℚ} (hx : x ∈ l) : x ≤ l.foldl max a :=
  (foldl_max_le_iff.1 le_rfl).2 x hx

theorem le_max?_getD {values : List ℚ} {x : ℚ} (hx : x ∈ values) : x ≤ values.max?.getD 0 := by
  cases hm : values.max? with
  | none => simp [List.max?_eq_none_iff.1 hm] at hx
  | some m => exact (List.max?_le_iff (fun _ _ _ => max_le_iff) hm).1 le_rfl x hx

theorem length_lastWindow_pos {α : Type} {window : Nat} (hw : 1 ≤ window) {xs : List α}
    (h : xs ≠ []) : 0 < (lastWindow window xs).length := by
  have := List.length_pos.2 h
  simp only [lastWindow, List.length_drop]
  omega

theorem windowAvg_le {window : Nat} (hw : 1 ≤ window) {xs : List ℚ} (h : xs ≠ []) {M : ℚ}
    (hM : ∀ x ∈ xs, x ≤ M) : windowAvg window xs ≤ M := by
  rw [windowAvg, div_le_iff₀ (by exact_mod_cast length_lastWindow_pos hw h), mul_comm]
  have := List.sum_le_card_nsmul (lastWindow window xs) M fun x hx =>
    hM x (List.mem_of_mem_drop hx)
  rwa [nsmul_eq_mul] at this

theorem windowAvg_mem {window : Nat} {xs : List ℚ} (h : xs ≠ []) :
    windowAvg window xs ∈ windowAverages window xs := by
  have := List.length_pos.2 h
  simp only [windowAverages, List.mem_map, List.mem_range]
  exact ⟨xs.length - 1, by omega, by rw [Nat.sub_add_cancel this, List.take_length]⟩

theorem mem_windowAverages_take {window n : Nat} {xs : List ℚ} {a : ℚ}
    (ha : a ∈ windowAverages window (xs.take n)) : a ∈ windowAverages window xs := by
  simp only [windowAverages, List.mem_map, List.mem_range, List.length_take,
    List.take_take] at ha ⊢
  obtain ⟨i, hi, rfl⟩ := ha
  exact ⟨i, by omega, by rw [min_eq_left (by omega)]⟩

/-- The values sum to at most their count times the peak: split off the
last window, whose average is the last one recomputed, and bound the prefix
before it by induction. -/
theorem sum_le_length_mul_peak {window : Nat} (hw : 1 ≤ window) (xs : List ℚ) :
    xs.sum ≤ xs.length * (windowAverages window xs).foldl max 0 := by
  by_cases hxs : xs = []
  · simp [hxs]
  set P := (windowAverages window xs).foldl max 0
  set pre := xs.take (xs.length - window)
  have hpre : pre.sum ≤ pre.length * P := by
    have hP : (windowAverages window pre).foldl max 0 ≤ P :=
      foldl_max_le_iff.2 ⟨(foldl_max_le_iff.1 le_rfl).1,
        fun a ha => le_foldl_max (mem_windowAverages_take ha)⟩
    calc pre.sum ≤ pre.length * (windowAverages window pre).foldl max 0 :=
          sum_le_length_mul_peak hw pre
      _ ≤ pre.length * P := mul_le_mul_of_nonneg_left hP (Nat.cast_nonneg _)
  have hlast : (lastWindow window xs).sum ≤ (lastWindow window xs).length * P := by
    have hpos : (0 : ℚ) < (lastWindow window xs).length := by
      exact_mod_cast length_lastWindow_pos hw hxs
    exact (div_le_iff₀' hpos).1 (le_foldl_max (windowAvg_mem hxs))
  have hsplit : pre ++ lastWindow window xs = xs := List.take_append_drop _ xs
  rw [← hsplit, List.sum_append, List.length_append, Nat.cast_add, add_mul]
  exact add_le_add hpre hlast
termination_by xs.length
decreasing_by
  simp only [List.length_take]
  have := List.length_pos.2 hxs
  omega

/-- The peak of a positive window lies between the mean of the values and
the larger of `0` and their maximum. -/
theorem peak_between_mean_and_max {window : Nat} (hw : 1 ≤ window) {values : List ℚ}
    (hne : values ≠ []) :
    values.sum / values.length ≤ (windowAverages window values).foldl max 0 ∧
      (windowAverages window values).foldl max 0 ≤ max 0 (values.max?.getD 0) := by
  rw [div_le_iff₀ (by exact_mod_cast List.length_pos.2 hne), mul_comm]
  refine ⟨sum_le_length_mul_peak hw values, foldl_max_le_iff.2 ⟨le_max_left _ _, ?_⟩⟩
  simp only [windowAverages, List.mem_map, List.mem_range]
  rintro _ ⟨i, hi, rfl⟩
  refine (windowAvg_le hw ?_ fun x hx => le_max?_getD (List.mem_of_mem_take hx)).trans
    (le_max_right _ _)
  simp [List.take_eq_nil_iff, hne]

theorem maxOrZero_ofInts {values : List Int} (hne : values ≠ []) :
    maxOrZero (ofInts values) = .finite ((values.map Int.cast).max?.getD 0) := by
  obtain ⟨v, vs, rfl⟩ := List.exists_cons_of_ne_nil hne
  simp only [ofInts, List.map_cons, maxOrZero, List.max?_cons', Option.getD_some]
  clear hne
  generalize (v : ℚ) = m
  induction vs generalizing m with
  | nil => rfl
  | cons x vs ih => simp only [List.map_cons, List.foldl_cons, Double.pyMax_finite, ih]

/-- Whatever the window, `moving_peak` of exact values returns the double
nearest a value between the mean of the values and the larger of `0` and
their maximum. -/
theorem movingPeak_between_mean_and_max {values : List Int} (hx : ExactValues values)
    (window : Int) :
    ∃ P : ℚ, movingPeak (ofInts values) window = .ok (.finite (roundNearest P)) ∧
      (values.sum : ℚ) / values.length ≤ P ∧ P ≤ max 0 ((values.map Int.cast).max?.getD 0) := by
  by_cases hne : values = []
  · subst hne
    exact ⟨0, by simp [movingPeak, maxOrZero, ofInts, roundNearest]; rfl, by simp, by simp⟩
  have hne' : (values.map (Int.cast : Int → ℚ)) ≠ [] := by simpa using hne
  by_cases hw : window ≤ 0
  · obtain ⟨m, hm⟩ : ∃ m, (values.map (Int.cast : Int → ℚ)).max? = some m :=
      Option.ne_none_iff_exists'.1 (by simpa [List.max?_eq_none_iff] using hne)
    obtain ⟨k, hk, rfl⟩ := List.mem_map.1 (List.max?_mem (fun a b => max_choice a b) hm)
    refine ⟨(values.map (Int.cast : Int → ℚ)).max?.getD 0, ?_, ?_, le_max_right _ _⟩
    · rw [movingPeak, if_pos (.inl hw), maxOrZero_ofInts hne, hm, Option.getD_some,
        roundNearest_intCast ((List.le_sum_of_mem (List.mem_map_of_mem _ hk)).trans_lt hx.sum_lt)]
      rfl
    · rw [div_le_iff₀ (by exact_mod_cast List.length_pos.2 hne), mul_comm]
      have := List.sum_le_card_nsmul (values.map (Int.cast : Int → ℚ)) _ fun x hx => le_max?_getD hx
      simpa [nsmul_eq_mul] using this
  · have hb := peak_between_mean_and_max (show 1 ≤ window.toNat by omega) hne'
    simp only [List.length_map, ← Int.cast_list_sum] at hb
    exact ⟨_, movingPeak_eq hx (by omega), hb⟩

/-! ## `summarize` -/

/-- `DEFAULT_FIELDS`, the columns that `load_csv` requires. -/
def defaultFields : List String :=
  ["cycle", "digital_exec", "digital_completed", "rram_exec", "transfer_exec", "transfer_bytes",
    "transfer_hops", "host_dma_load_bytes", "host_dma_store_bytes", "digital_load_bytes",
    "digital_store_bytes", "digital_pe_active", "digital_spu_active", "digital_vpu_active",
    "throttle_until", "throttle_events", "deferrals", "avg_wait", "digital_util", "rram_util",
    "digital_ticks", "rram_ticks", "interconnect_ticks", "host_tasks", "outstanding_digital",
    "outstanding_rram", "outstanding_transfer", "outstanding_dma"]

/-- A row of `load_csv`: the `float` of each cell, `nan` for an empty one. -/
abbrev CycleRow := List (String × Double)

/-- `row.get(field, 0.0)`. -/
def CycleRow.get (row : CycleRow) (field : String) : Double := (row.lookup field).getD (.finite 0)

/-- The locals of the loop of `summarize`. -/
structure SummaryState where
  sums : List (String × Double)
  transferBytesSeries : List Double
  hostLoadSeries : List Double
  hostStoreSeries : List Double
  throttleEvents : Double

/-- The locals before the loop: `sums` holds `0.0` for every field but
`cycle`. -/
def SummaryState.init : SummaryState :=
  ⟨(defaultFields.filter (· ≠ "cycle")).map fun field => (field, .finite 0), [], [], [],
    .finite 0⟩

/-- `sums[field] += value`, skipped when `math.isnan(value)`. -/
def addUnlessNan (acc value : Double) : Double := if value.isNan then acc else acc.add value

/-- One pass of `for row in rows`. -/
def summarizeRow (s : SummaryState) (row : CycleRow) : SummaryState :=
  { sums := s.sums.map fun entry => (entry.1, addUnlessNan entry.2 (row.get entry.1))
    transferBytesSeries := s.transferBytesSeries ++ [row.get "transfer_bytes"]
    hostLoadSeries := s.hostLoadSeries ++ [row.get "host_dma_load_bytes"]
    hostStoreSeries := s.hostStoreSeries ++ [row.get "host_dma_store_bytes"]
    throttleEvents := s.throttleEvents.add (row.get "throttle_events") }

/-- The `dict` that `summarize` returns for a non-empty log.  The keys it
sets under a condition are `Option`s. -/
structure CycleSummary where
  cycles : Double
  digitalExecTotal : Double
  digitalCompletedTotal : Double
  rramExecTotal : Double
  transferExecTotal : Double
  transferBytesTotal : Double
  hostDmaLoadBytesTotal : Double
  hostDmaStoreBytesTotal : Double
  avgDigitalUtil : Double
  avgRramUtil : Double
  avgTransferBytesPerCycle : Double
  avgHostDmaLoadBytesPerCycle : Double
  avgHostDmaStoreBytesPerCycle : Double
  throttleEventsTotal : Double
  transferPeakAvg : Option Double
  hostLoadPeakAvg : Option Double
  hostStorePeakAvg : Option Double
  transferBytesPerExec : Option Double

/-- `moving_peak(series, window)` when `series` is not empty. -/
def peakIfAny (series : List Double) (window : Int) : Except PyError (Option Double) :=
  if series ≠ [] then some <$> movingPeak series window else pure none

/-- `bytes / exec if exec else 0.0`. -/
def bytesPerExec (bytes exec : Double) : Except PyError Double :=
  if exec.toBool then bytes.div exec else pure (.finite 0)

/-- `summarize(rows, window)`, with `none` for the empty `dict`.  Every field
that the result reads from `sums` is a key of it; `len(rows)` converts to the
same float in `float(total_cycles)` and in each `/ total_cycles`. -/
def summarize (rows : List CycleRow) (window : Int) : Except PyError (Option CycleSummary) :=
  if rows = [] then pure none
  else do
    let totalCycles := Double.ofRat rows.length
    let s := rows.foldl summarizeRow SummaryState.init
    let sums (field : String) : Double := (s.sums.lookup field).getD (.finite 0)
    let avgDigitalUtil ← (sums "digital_util").div totalCycles
    let avgRramUtil ← (sums "rram_util").div totalCycles
    let avgTransfer ← (sums "transfer_bytes").div totalCycles
    let avgHostLoad ← (sums "host_dma_load_bytes").div totalCycles
    let avgHostStore ← (sums "host_dma_store_bytes").div totalCycles
    let transferPeakAvg ← peakIfAny s.transferBytesSeries window
    let hostLoadPeakAvg ← peakIfAny s.hostLoadSeries window
    let hostStorePeakAvg ← peakIfAny s.hostStoreSeries window
    let transferBytesPerExec ←
      if (Double.finite 0).lt (Double.pySum s.transferBytesSeries) then
        some <$> bytesPerExec (sums "transfer_bytes") (sums "transfer_exec")
      else pure none
    pure (some
      { cycles := totalCycles
        digitalExecTotal := sums "digital_exec"
        digitalCompletedTotal := sums "digital_completed"
        rramExecTotal := sums "rram_exec"
        transferExecTotal := sums "transfer_exec"
        transferBytesTotal := sums "transfer_bytes"
        hostDmaLoadBytesTotal := sums "host_dma_load_bytes"
        hostDmaStoreBytesTotal := sums "host_dma_store_bytes"
        avgDigitalUtil
        avgRramUtil
        avgTransferBytesPerCycle := avgTransfer
        avgHostDmaLoadBytesPerCycle := avgHostLoad
        avgHostDmaStoreBytesPerCycle := avgHostStore
        throttleEventsTotal := s.throttleEvents
        transferPeakAvg
        hostLoadPeakAvg
        hostStorePeakAvg
        transferBytesPerExec })

/-- The loop adds up every column but `cycle`, skipping NaN cells, and
collects the three byte columns. -/
theorem foldl_summarizeRow (rows : List CycleRow) :
    rows.foldl summarizeRow SummaryState.init =
      { sums := (defaultFields.filter (· ≠ "cycle")).map fun field =>
          (field, (rows.map (·.get field)).foldl addUnlessNan (.finite 0))
        transferBytesSeries := rows.map (·.get "transfer_bytes")
        hostLoadSeries := rows.map (·.get "host_dma_load_bytes")
        hostStoreSeries := rows.map (·.get "host_dma_store_bytes")
        throttleEvents := (rows.map (·.get "throttle_events")).foldl Double.add (.finite 0) } := by
  induction rows using List.reverseRecOn with
  | nil => simp [SummaryState.init]
  | append_singleton rows row ih =>
    rw [List.foldl_append, ih, List.foldl_cons, List.foldl_nil, summarizeRow]
    simp [List.foldl_append]

/-- The NaN-skipping sum of exact values is their exact sum. -/
theorem foldl_addUnlessNan_ofInts {values : List Int} (hx : ExactValues values) :
    (ofInts values).foldl addUnlessNan (.finite 0) = .finite values.sum := by
  suffices ∀ (pre : List Int), ExactValues (pre ++ values) →
      (ofInts values).foldl addUnlessNan (.finite pre.sum) = .finite (pre ++ values).sum by
    simpa using this [] (by simpa using hx)
  clear hx
  induction values with
  | nil => simp [ofInts]
  | cons v vs ih =>
    intro pre hpre
    have hv := (hpre.of_sublist (l := pre ++ [v]) (by simp)).ofRat_sum
    simp only [List.sum_append, List.sum_singleton, Int.cast_add] at hv
    simp only [ofInts, List.map_cons, List.foldl_cons, addUnlessNan, Double.isNan_finite,
      Bool.false_eq_true, if_false, Double.add_finite, hv]
    have := ih (pre ++ [v]) (by simpa using hpre)
    simpa [ofInts] using this

/-- A byte column of exact integers: the column of each row is the integer's
float. -/
def ExactColumn (rows : List CycleRow) (field : String) (values : List Int) : Prop :=
  rows.map (·.get field) = ofInts values ∧ ExactValues values

/-- The peak is reported, and lies between the average `avg` and the larger
of `0` and the largest of the values. -/
def PeakBetween (avg : Double) (peak : Option Double) (values : List Int) : Prop :=
  ∃ a p : ℚ, avg = .finite a ∧ peak = some (.finite p) ∧ a ≤ p ∧
    p ≤ max 0 ((values.map Int.cast).max?.getD 0)

/-- The largest of exact values, or `0` for none, is an integer below `2 ^ 53`. -/
theorem ExactValues.max_eq {values : List Int} (hx : ExactValues values) :
    ∃ k : Int, k.natAbs < 2 ^ 53 ∧ (values.map Int.cast).max?.getD 0 = (k : ℚ) := by
  cases hm : (values.map (Int.cast : Int → ℚ)).max? with
  | none => exact ⟨0, by decide, by simp⟩
  | some m =>
    obtain ⟨k, hk, rfl⟩ := List.mem_map.1 (List.max?_mem (fun a b => max_choice a b) hm)
    exact ⟨k, (List.le_sum_of_mem (List.mem_map_of_mem _ hk)).trans_lt hx.sum_lt, rfl⟩

/-- A column of exact values reports the double nearest its mean as its
average, and the double nearest a value between that mean and the larger of
`0` and its largest value as its peak. -/
theorem ExactColumn.report {rows : List CycleRow} {field : String} {values : List Int}
    (hc : ExactColumn rows field values) (h : rows ≠ []) (window : Int) :
    ∃ avg peak, ((rows.map (·.get field)).foldl addUnlessNan (.finite 0)).div
        (.ofRat rows.length) = .ok avg ∧
      peakIfAny (rows.map (·.get field)) window = .ok peak ∧ PeakBetween avg peak values := by
  obtain ⟨hmap, hx⟩ := hc
  have hlen : rows.length = values.length := by simpa [ofInts] using congrArg List.length hmap
  have hpos : 0 < values.length := hlen ▸ List.length_pos.2 h
  obtain ⟨P, hP, hlo, hhi⟩ := movingPeak_between_mean_and_max hx window
  obtain ⟨k, hk, hmax⟩ := hx.max_eq
  have hbound : roundNearest (max 0 (k : ℚ)) = max 0 (k : ℚ) := by
    have := roundNearest_intCast (n := max 0 k) (by omega)
    rwa [Int.cast_max, Int.cast_zero] at this
  refine ⟨.finite (roundNearest ((values.sum : ℚ) / values.length)),
    some (.finite (roundNearest P)), ?_, ?_, _, _, rfl, rfl, roundNearest_mono hlo, ?_⟩
  · rw [hmap, foldl_addUnlessNan_ofInts hx, hlen, hx.ofRat_length,
      Double.div_finite (by exact_mod_cast hpos.ne'), hx.ofRat_avg]
    rfl
  · rw [hmap, peakIfAny, if_pos (by simpa [ofInts] using List.length_pos.1 hpos), hP]
    rfl
  · rw [hmax] at hhi ⊢
    exact (roundNearest_mono hhi).trans_eq hbound

/-- A true divisor is not zero, so the division returns. -/
theorem bytesPerExec_eq (bytes exec : Double) :
    bytesPerExec bytes exec =
      pure (if exec.toBool then bytes.divNonzero exec else .finite 0) := by
  unfold bytesPerExec
  split_ifs with h
  · exact Double.div_of_ne_zero (by rintro rfl; simp [Double.toBool] at h)
  · rfl

/-- `sums[field]` after the loop, for a field of `sums`. -/
theorem lookup_sums (rows : List CycleRow) {field : String}
    (h : field ∈ defaultFields.filter (· ≠ "cycle")) :
    (((rows.foldl summarizeRow SummaryState.init).sums.lookup field).getD (.finite 0)) =
      (rows.map (·.get field)).foldl addUnlessNan (.finite 0) := by
  rw [foldl_summarizeRow]
  exact congrArg (Option.getD · _) (List.lookup_graph (fun field =>
    (rows.map (·.get field)).foldl addUnlessNan (.finite 0)) h)

/-- For a non-empty log whose three byte columns hold exact integers, the
three peak keys are present, and each lies between the per-cycle average
reported beside it and the larger of `0` and its column's largest value. -/
theorem summarize_peaks_between_avg_and_max {rows : List CycleRow} (window : Int) (h : rows ≠ [])
    {transfer hostLoad hostStore : List Int}
    (ht : ExactColumn rows "transfer_bytes" transfer)
    (hl : ExactColumn rows "host_dma_load_bytes" hostLoad)
    (hs : ExactColumn rows "host_dma_store_bytes" hostStore) :
    ∃ r, summarize rows window = .ok (some r) ∧
      PeakBetween r.avgTransferBytesPerCycle r.transferPeakAvg transfer ∧
      PeakBetween r.avgHostDmaLoadBytesPerCycle r.hostLoadPeakAvg hostLoad ∧
      PeakBetween r.avgHostDmaStoreBytesPerCycle r.hostStorePeakAvg hostStore := by
  obtain ⟨avgT, peakT, hat, hpt, hbt⟩ := ht.report h window
  obtain ⟨avgL, peakL, hal, hpl, hbl⟩ := hl.report h window
  obtain ⟨avgS, peakS, has, hps, hbs⟩ := hs.report h window
  have hne : Double.ofRat rows.length ≠ .finite 0 :=
    Double.ofRat_ne_zero_of_one_le (by exact_mod_cast List.length_pos.2 h)
  rw [summarize, if_neg h]
  simp only [foldl_summarizeRow,
    List.lookup_graph _ (by decide : "transfer_bytes" ∈ defaultFields.filter (· ≠ "cycle")),
    List.lookup_graph _ (by decide : "host_dma_load_bytes" ∈ defaultFields.filter (· ≠ "cycle")),
    List.lookup_graph _ (by decide : "host_dma_store_bytes" ∈ defaultFields.filter (· ≠ "cycle")),
    Option.getD_some, hat, hal, has, hpt, hpl, hps, Double.div_of_ne_zero hne, bytesPerExec_eq,
    ok_bind, pure_bind, map_pure]
  split <;> exact ⟨_, rfl, hbt, hbl, hbs⟩

/-- Two cycles moving `4` and `0` bytes and no host traffic, read with a
window of one cycle. -/
def twoCycleLog : List CycleRow :=
  [[("transfer_bytes", .finite 4), ("throttle_events", .nan)], [("transfer_bytes", .finite 0)]]

theorem summarize_peaks_two_cycles :
    twoCycleLog ≠ [] ∧ ExactColumn twoCycleLog "transfer_bytes" [4, 0] ∧
      ExactColumn twoCycleLog "host_dma_load_bytes" [0, 0] ∧
      ExactColumn twoCycleLog "host_dma_store_bytes" [0, 0] ∧
      ∃ r, summarize twoCycleLog 1 = .ok (some r) ∧
        PeakBetween r.avgTransferBytesPerCycle r.transferPeakAvg [4, 0] ∧
        PeakBetween r.avgHostDmaLoadBytesPerCycle r.hostLoadPeakAvg [0, 0] ∧
        PeakBetween r.avgHostDmaStoreBytesPerCycle r.hostStorePeakAvg [0, 0] := by
  have ht : ExactColumn twoCycleLog "transfer_bytes" [4, 0] := ⟨rfl, by decide, by decide⟩
  have hl : ExactColumn twoCycleLog "host_dma_load_bytes" [0, 0] := ⟨rfl, by decide, by decide⟩
  have hs : ExactColumn twoCycleLog "host_dma_store_bytes" [0, 0] := ⟨rfl, by decide, by decide⟩
  exact ⟨by simp [twoCycleLog], ht, hl, hs,
    summarize_peaks_between_avg_and_max 1 (by simp [twoCycleLog]) ht hl hs⟩

end UPIMulator.Logs.CycleLog
