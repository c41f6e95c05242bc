import UPIMulator.Python.Csv

/-!
# The highest-utilization cycles of a cycle log

`summarize` in the simulator's `tools/cycle_log_summarizer.py` adds up the
columns of `chiplet_cycle_log.csv` and lists, as `top_cycles`, the ten rows
with the highest `digital_util`: among all rows, or with `--filter-transfer`
among the rows that moved bytes.  Every conversion of a cell can raise.  The
cells `digital_exec`, `transfer_bytes` and `digital_util` are converted for
every row before the list is made; the `cycle` of a row is converted only when
the row is listed.  The utilizations are floats: their average is the float
sum divided by the row count, and a cell `nan` is a key that `<` cannot
order.

* `summarize_topCycles`: when every row's `digital_exec`, `transfer_bytes` and
  `digital_util` convert, and no utilization is NaN, `summarize` lists as many
  of the rows that pass the filter as there are, up to ten, largest
  utilization first, and no row left out has a higher utilization than a
  listed one.  It raises exactly when the entry of a listed row does, so a
  malformed `cycle` in a row that is not listed is never read.
-/

namespace UPIMulator.Logs.TopCycles

open UPIMulator.Python

/-! ## The model -/

/-- One entry of `top_cycles`. -/
structure TopEntry where
  cycle : Int
  digitalUtil : Double
  transferBytes : Int
  digitalExec : Int
  deriving DecidableEq, Repr

/-- The `dict` that `summarize` returns. -/
structure Summary where
  totalCycles : Nat
  digitalExecSamples : Int
  activeCycles : Nat
  transferCycles : Nat
  transferBytesTotal : Int
  digitalUtilAvg : Double
  topCycles : List TopEntry
  deriving DecidableEq, Repr

/-- The entry `top_entries` makes of a row, converting its cells in the order
of the `dict` display. -/
def topEntry (lit : Literals) (row : CsvRow) : Except PyError TopEntry := do
  let cycle ← intItem lit row "cycle"
  let digitalUtil ← floatItem lit row "digital_util"
  let transferBytes ← intItem lit row "transfer_bytes"
  let digitalExec ← intItem lit row "digital_exec"
  pure {
    cycle := cycle, digitalUtil := digitalUtil, transferBytes := transferBytes,
    digitalExec := digitalExec }

/-- `summarize(rows, filter_transfer)`. -/
def summarize (lit : Literals) (rows : List CsvRow) (filterTransfer : Bool) :
    Except PyError Summary := do
  let totalCycles := rows.length
  let digitalExec := (← rows.mapM (intItem lit · "digital_exec")).sum
  let transferBytes := (← rows.mapM (intItem lit · "transfer_bytes")).sum
  let activeCycles :=
    (← pyFilter (fun row => return 0 < (← intItem lit row "digital_exec")) rows).length
  let transferCycles :=
    (← pyFilter (fun row => return 0 < (← intItem lit row "transfer_bytes")) rows).length
  let utilAvg ←
    if totalCycles ≠ 0 then do
      let utils ← rows.mapM (floatItem lit · "digital_util")
      (Double.pySum utils).div (.ofRat totalCycles)
    else pure (.finite 0)
  let filtered ← pyFilter (fun row =>
    if !filterTransfer then pure true else return 0 < (← intItem lit row "transfer_bytes")) rows
  let filtered ← sortDesc (floatItem lit · "digital_util") filtered
  let topCycles ← (filtered.take 10).mapM (topEntry lit)
  pure {
    totalCycles := totalCycles, digitalExecSamples := digitalExec,
    activeCycles := activeCycles, transferCycles := transferCycles,
    transferBytesTotal := transferBytes, digitalUtilAvg := utilAvg, topCycles := topCycles }

/-! ## The rows listed -/

section Readings

variable {lit : Literals} {rows : List CsvRow} (e t : CsvRow → Int) (u : CsvRow → Double)

/-- A converted comparison is the comparison of the converted cell. -/
theorem bind_pos {x : Except PyError Int} {n : Int} (h : x = .ok n) :
    (do return 0 < (← x) : Except PyError Bool) = .ok (decide (0 < n)) := by
  rw [h]; rfl

/-- When every row's counted cells convert, `summarize` is the plain
summary of their values, with the entries of the first ten rows of the stable
sort of the rows that pass the filter. -/
theorem summarize_of_readings (ft : Bool)
    (he : ∀ r ∈ rows, intItem lit r "digital_exec" = .ok (e r))
    (ht : ∀ r ∈ rows, intItem lit r "transfer_bytes" = .ok (t r))
    (hu : ∀ r ∈ rows, floatItem lit r "digital_util" = .ok (u r)) :
    summarize lit rows ft =
      ((((rows.filter fun r => !ft || 0 < t r).mergeSort fun a b => !(u a).lt (u b)).take 10).mapM
        (topEntry lit)).map fun topCycles =>
        { totalCycles := rows.length, digitalExecSamples := (rows.map e).sum,
          activeCycles := (rows.filter (0 < e ·)).length,
          transferCycles := (rows.filter (0 < t ·)).length,
          transferBytesTotal := (rows.map t).sum,
          digitalUtilAvg := if rows.length ≠ 0 then
            (Double.pySum (rows.map u)).divNonzero (.ofRat rows.length) else .finite 0,
          topCycles := topCycles } := by
  have hfilter : pyFilter (fun row => if !ft then pure true
      else return 0 < (← intItem lit row "transfer_bytes")) rows =
      .ok (rows.filter fun r => !ft || 0 < t r) :=
    pyFilter_eq_ok_filter fun r hr => by
      cases ft with
      | false => rfl
      | true => exact bind_pos (ht r hr)
  have hsort := @sortDesc_eq_ok _ (floatItem lit · "digital_util") u
    (rows.filter fun r => !ft || 0 < t r) fun r hr => hu r (List.mem_filter.1 hr).1
  simp only [summarize, mapM_eq_ok_map he, mapM_eq_ok_map ht, mapM_eq_ok_map hu, ok_bind,
    pyFilter_eq_ok_filter fun r hr => bind_pos (he r hr),
    pyFilter_eq_ok_filter fun r hr => bind_pos (ht r hr), hfilter, hsort]
  split_ifs with hn
  · have h1 : (1 : ℚ) ≤ rows.length := by exact_mod_cast Nat.one_le_iff_ne_zero.2 hn
    rw [Double.div_of_ne_zero (Double.ofRat_ne_zero_of_one_le h1), pure_bind]
    cases (((rows.filter fun r => !ft || 0 < t r).mergeSort fun a b => !(u a).lt (u b)).take 10).mapM
      (topEntry lit) <;> rfl
  · cases (((rows.filter fun r => !ft || 0 < t r).mergeSort fun a b => !(u a).lt (u b)).take 10).mapM
      (topEntry lit) <;> rfl

/-- The entry of a row whose counted cells convert carries them; only its
`cycle` can still raise. -/
theorem topEntry_of_readings {r : CsvRow} (he : intItem lit r "digital_exec" = .ok (e r))
    (ht : intItem lit r "transfer_bytes" = .ok (t r))
    (hu : floatItem lit r "digital_util" = .ok (u r)) :
    topEntry lit r = (intItem lit r "cycle").map fun c => ⟨c, u r, t r, e r⟩ := by
  simp only [topEntry, hu, ht, he, ok_bind]
  cases intItem lit r "cycle" <;> rfl

/-- When every row's `digital_exec`, `transfer_bytes` and `digital_util`
convert, and no utilization is NaN, `top_cycles` lists the entries of
`min 10 n` of the `n` rows that pass the filter, largest utilization first,
and no row left out has a utilization above that of a listed row.  The entry of a listed row
raises only for a malformed `cycle`, and the `cycle` of a row left out is
never read. -/
theorem summarize_topCycles (lit : Literals) (rows : List CsvRow) (ft : Bool)
    (he : ∀ r ∈ rows, intItem lit r "digital_exec" = .ok (e r))
    (ht : ∀ r ∈ rows, intItem lit r "transfer_bytes" = .ok (t r))
    (hu : ∀ r ∈ rows, floatItem lit r "digital_util" = .ok (u r))
    (hnan : ∀ r ∈ rows, (u r).isNan = false) :
    ∃ top rest : List CsvRow, (top ++ rest).Perm (rows.filter fun r => !ft || 0 < t r) ∧
      top.length = min 10 (top ++ rest).length ∧
      top.Pairwise (fun a b => (u a).lt (u b) = false) ∧
      (∀ a ∈ top, ∀ b ∈ rest, (u a).lt (u b) = false) ∧
      (summarize lit rows ft).map (·.topCycles) = top.mapM (topEntry lit) ∧
      ∀ r ∈ top, topEntry lit r = (intItem lit r "cycle").map fun c => ⟨c, u r, t r, e r⟩ := by
  set sorted := (rows.filter fun r => !ft || 0 < t r).mergeSort fun a b => !(u a).lt (u b)
  have hsorted : sorted.Pairwise fun a b => (u a).lt (u b) = false :=
    pairwise_mergeSort_desc u fun r hr => hnan r (List.mem_filter.1 hr).1
  refine ⟨sorted.take 10, sorted.drop 10, ?_, ?_, ?_, pairwise_take_drop hsorted 10, ?_, ?_⟩
  · rw [List.take_append_drop]
    exact List.mergeSort_perm _ _
  · rw [List.take_append_drop, List.length_take]
  · exact hsorted.sublist (List.take_sublist 10 sorted)
  · rw [summarize_of_readings e t u ft he ht hu]
    cases (sorted.take 10).mapM (topEntry lit) <;> rfl
  · intro r hr
    have hr' := (List.mem_filter.1 ((List.mergeSort_perm _ _).subset (List.mem_of_mem_take hr))).1
    exact topEntry_of_readings e t u (he r hr') (ht r hr') (hu r hr')

end Readings

/-- A log whose first row moved no bytes and has a malformed cycle. -/
def transferLog : List (List String) :=
  [["cycle", "digital_exec", "transfer_bytes", "digital_util"], ["x", "1", "0", "9"],
    ["8", "2", "4", "3"]]

/-- The utilization of a one-digit cell as a float. -/
def digitUtil (r : CsvRow) : Double := .finite (digitCell "digital_util" r)

theorem summarize_topCycles_filtered :
    (∀ r ∈ readerRows transferLog,
      intItem digitLiterals r "digital_exec" = .ok (digitCell "digital_exec" r)) ∧
    (∀ r ∈ readerRows transferLog,
      intItem digitLiterals r "transfer_bytes" = .ok (digitCell "transfer_bytes" r)) ∧
    (∀ r ∈ readerRows transferLog,
      floatItem digitLiterals r "digital_util" = .ok (digitUtil r)) ∧
    (∀ r ∈ readerRows transferLog, (digitUtil r).isNan = false) ∧
    ∃ top rest : List CsvRow, (top ++ rest).Perm ((readerRows transferLog).filter fun r =>
        !true || 0 < digitCell "transfer_bytes" r) ∧
      top.length = min 10 (top ++ rest).length ∧
      top.Pairwise (fun a b => (digitUtil a).lt (digitUtil b) = false) ∧
      (∀ a ∈ top, ∀ b ∈ rest, (digitUtil a).lt (digitUtil b) = false) ∧
      (summarize digitLiterals (readerRows transferLog) true).map (·.topCycles) =
        top.mapM (topEntry digitLiterals) ∧
      ∀ r ∈ top, topEntry digitLiterals r = (intItem digitLiterals r "cycle").map fun c =>
        ⟨c, digitUtil r, digitCell "transfer_bytes" r, digitCell "digital_exec" r⟩ := by
  have hrows : readerRows transferLog =
      [[("cycle", some "x"), ("digital_exec", some "1"), ("transfer_bytes", some "0"),
        ("digital_util", some "9")],
      [("cycle", some "8"), ("digital_exec", some "2"), ("transfer_bytes", some "4"),
        ("digital_util", some "3")]] := rfl
  have hmem : ∀ {P : CsvRow → Prop}, (∀ r ∈ readerRows transferLog, P r) ↔
      P (readerRows transferLog)[0] ∧ P (readerRows transferLog)[1] := by
    intro P
    simp [hrows]
  refine ⟨hmem.2 ⟨rfl, rfl⟩, hmem.2 ⟨rfl, rfl⟩, hmem.2 ⟨rfl, rfl⟩, hmem.2 ⟨rfl, rfl⟩, ?_⟩
  exact summarize_topCycles _ _ _ digitLiterals _ true (hmem.2 ⟨rfl, rfl⟩) (hmem.2 ⟨rfl, rfl⟩)
    (hmem.2 ⟨rfl, rfl⟩) (hmem.2 ⟨rfl, rfl⟩)

end UPIMulator.Logs.TopCycles
