import UPIMulator.Logs.TransferLine
import UPIMulator.Python.Csv

/-!
# The chiplet profiler

`golang/uPIMulator/tools/chiplet_profiler.py` sums up the `key: value` lines
of `chiplet_log.txt` and the columns of the cycle trace.

`parse_log` strips each line, skips blank lines and comments, and matches
`ENTRY_RE`, `^(?P<key>[^:]+):\s+(?P<value>.+)$`.  A line of the file holds no
newline, so `.` matches every character, and the key is the text before the
first `:`.  A key `DigitalChiplet[i]_field` or `RramChiplet[i]_field` (`\d+`
through `int` for `i`) sets `field` in the `dict` of chiplet `i`; any other key
sets the summary.  `parse_value` reads the value with `int(raw, 16)` after
`0x`, with `float` when it has a `.` and with `int` otherwise, and keeps the
text where the conversion raises.  The literal grammars are parameters
(`Literals`, and `hex` for base 16), and so are the character classes.

`aggregate` lists the chiplets by index, each as `{"id": idx, **fields}`, and
adds up four counters with `sum`, a left fold of `+` here as in the other
tools.  It files the totals in a `dict` that `setdefault` puts under the
summary's key `aggregated`; the summary it changes is the log's own.

`parse_cycle_log` reads the trace with `csv.DictReader` and converts each
cell, a blank cell to `0`.  `summarize_cycle_log` adds up eleven columns and
divides each sum by the number of rows.  `main` prints what `profile`
computes; the printing is left out.

* `parseLog_last_write_wins`: each `dict` of the log lists its keys once, and
  every key of the summary, and every field of a chiplet, holds the value of
  the last line that sets it.
* `aggregate_totals`: on `int` counters, and with no key `aggregated` in the
  log, the totals are the sums of the counters over the chiplets.
* `aggregate_fails_on_aggregated_entry`: a log line with the key `aggregated`
  makes `aggregate` raise as soon as one of its blocks runs: `AttributeError`
  from `update`, or `TypeError` from the item assignments of the third block.
* `parseCycleLog_eq`: reading the trace raises `AttributeError` exactly when a
  line that is not blank has more or fewer cells than the header, where
  `strip` meets the list of extra cells or `None`; otherwise the rows are the
  reader's, each cell converted.
* `summarizeCycleLog_of_ints`: on `int` columns the sums are exact and each
  average is the correctly rounded quotient.
-/

namespace UPIMulator.Logs.Profiler

open UPIMulator.Python
open UPIMulator.Logs.TransferDebug (natField)

/-! ## Values -/

/-- What `parse_value` and the cell conversion return: an `int`, a `float`, or
the text itself. -/
inductive Value
  | int (n : Int)
  | float (x : Double)
  | str (s : String)
  deriving DecidableEq, Repr

/-- `float` of an exact quotient or of an `int`: the nearest double, and
`OverflowError` past the largest one. -/
def finiteOrOverflow (q : ℚ) : Except PyError Double :=
  match Double.ofRat q with
  | .finite x => pure (.finite x)
  | _ => throw .overflowError

theorem finiteOrOverflow_of_finite {q x : ℚ} (h : Double.ofRat q = .finite x) :
    finiteOrOverflow q = .ok (.finite x) := by
  unfold finiteOrOverflow
  rw [h]
  rfl

/-- `a + b`: `int`s add exactly, an `int` next to a `float` is converted first,
strings concatenate, and a string does not add to a number. -/
def Value.add : Value → Value → Except PyError Value
  | .int a, .int b => pure (.int (a + b))
  | .int a, .float y => do pure (.float ((← finiteOrOverflow a).add y))
  | .float x, .int b => do pure (.float (x.add (← finiteOrOverflow b)))
  | .float x, .float y => pure (.float (x.add y))
  | .str a, .str b => pure (.str (a ++ b))
  | _, _ => throw .typeError

/-- `v / n` for an `int` `n`: an `int` divides into the correctly rounded
quotient, a `float` divides by `float(n)`. -/
def Value.trueDiv (v : Value) (n : Int) : Except PyError Value :=
  match v with
  | .int a =>
    if n = 0 then throw .zeroDivisionError else .float <$> finiteOrOverflow ((a : ℚ) / n)
  | .float x => do pure (.float (← x.div (← finiteOrOverflow n)))
  | .str _ => throw .typeError

/-- `sum(xs)`, from `0`. -/
def pySum (xs : List Value) : Except PyError Value := xs.foldlM Value.add (.int 0)

/-- `d.get(k, 0)`. -/
def getOrZero (d : List (String × Value)) (k : String) : Value := (d.lookup k).getD (.int 0)

/-- The integer of an `int`, `0` for any other value. -/
def Value.intPart : Value → Int
  | .int n => n
  | _ => 0

/-- The values that add up as integers. -/
def Value.isInt : Value → Bool
  | .int _ => true
  | _ => false

theorem Value.eq_int {v : Value} (h : v.isInt) : v = .int v.intPart := by
  cases v <;> first | rfl | cases h

/-- A sum of `int`s is their exact sum. -/
theorem foldlM_add_ints {vs : List Value} (h : ∀ v ∈ vs, v.isInt) (a : Int) :
    vs.foldlM Value.add (.int a) = .ok (.int (a + (vs.map Value.intPart).sum)) := by
  induction vs generalizing a with
  | nil => simp; rfl
  | cons v vs ih =>
    simp only [List.mem_cons, forall_eq_or_imp] at h
    obtain ⟨n, rfl⟩ : ∃ n, v = .int n := ⟨_, Value.eq_int h.1⟩
    rw [List.foldlM_cons]
    show vs.foldlM Value.add (.int (a + n)) = _
    rw [ih h.2]
    simp [Value.intPart, add_assoc]

theorem pySum_ints {vs : List Value} (h : ∀ v ∈ vs, v.isInt) :
    pySum vs = .ok (.int (vs.map Value.intPart).sum) := by
  rw [pySum, foldlM_add_ints h, zero_add]

/-! ## Reading the log -/

section Log

variable (cc : CharClasses) (lit : Literals) (hex : String → Option Int)

/-- `s.strip()`. -/
def strip (s : List Char) : List Char :=
  ((s.dropWhile cc.isSpace).reverse.dropWhile cc.isSpace).reverse

/-- `float(v)` when `v` has a `.`, `int(v)` otherwise, and `v` itself where the
conversion raises `ValueError`. -/
def parseText (v : String) : Value :=
  if '.' ∈ v.data then ((lit.float v).map .float).getD (.str v)
  else ((lit.int v).map .int).getD (.str v)

/-- `parse_value(raw)`. -/
def parseValue (raw : List Char) : Value :=
  let raw := String.mk (strip cc raw)
  if "0x".data.isPrefixOf raw.data then ((hex raw).map .int).getD (.str raw)
  else parseText lit raw

/-- `ENTRY_RE.match(line)` on a line without a newline: the key up to the first
`:`, then `\s+`, and the rest as the value.  When only spaces follow the `:`,
`\s+` gives the last one back to `.+`. -/
def matchEntry (line : List Char) : Option (List Char × List Char) :=
  match line.span (· != ':') with
  | (k :: ks, _ :: rest) =>
    match rest.span cc.isSpace with
    | (_ :: _, v :: vs) => some (k :: ks, v :: vs)
    | (_ :: w :: ws, []) => some (k :: ks, [(w :: ws).getLast (List.cons_ne_nil w ws)])
    | _ => none
  | _ => none

/-- `DIGITAL_RE.match(key)` (with `pre` the text `DigitalChiplet`) and
`RRAM_RE.match(key)` (with `RramChiplet`), with `int` of the index: `\d+` runs
up to the `]`, and the field is the rest, not empty. -/
def matchChiplet (pre : String) (key : List Char) : Option (Nat × List Char) := do
  let (idx, s) ← natField cc (← TransferDebug.lit (pre ++ "[") key)
  match TransferDebug.lit "]_" s with
  | some (c :: cs) => some (idx, c :: cs)
  | _ => none

/-- Where `parse_log` files a line. -/
inductive Entry
  | summary (key : String) (value : Value)
  | digital (idx : Nat) (field : String) (value : Value)
  | rram (idx : Nat) (field : String) (value : Value)

/-- The entry of a line of the log: none for a blank line, a comment, or a line
that `ENTRY_RE` does not match. -/
def lineEntry (line : String) : Option Entry :=
  let line := strip cc line.data
  if line.isEmpty || line.head? == some '#' then none
  else (matchEntry cc line).map fun (key, raw) =>
    let value := parseValue cc lit hex raw
    match matchChiplet cc "DigitalChiplet" key, matchChiplet cc "RramChiplet" key with
    | some (idx, field), _ => .digital idx (String.mk field) value
    | none, some (idx, field) => .rram idx (String.mk field) value
    | none, none => .summary (String.mk key) value

/-- The three `dict`s of `parse_log`: the summary, and the fields of each
digital and each RRAM chiplet under its index. -/
structure Log where
  summary : List (String × Value)
  digital : List (Nat × List (String × Value))
  rram : List (Nat × List (String × Value))

/-- The body of the loop of `parse_log`; `digital[idx][field] = value` makes the
chiplet's `dict` on first use. -/
def Log.file (log : Log) : Entry → Log
  | .summary key value => { log with summary := setItem key value log.summary }
  | .digital idx field value =>
    { log with digital := upsert idx [] (setItem field value) log.digital }
  | .rram idx field value => { log with rram := upsert idx [] (setItem field value) log.rram }

/-- `parse_log(path)` on the lines of the file. -/
def parseLog (lines : List String) : Log :=
  lines.foldl (fun log line => ((lineEntry cc lit hex line).map log.file).getD log) ⟨[], [], []⟩

end Log

/-! ## The last write wins -/

/-- The `dict`s of a log list their keys once: the summary, each table of
chiplets, and each chiplet's fields. -/
structure Log.WellFormed (log : Log) : Prop where
  summary : DistinctKeys log.summary
  digital : DistinctKeys log.digital
  rram : DistinctKeys log.rram
  digitalFields : ∀ c ∈ log.digital, DistinctKeys c.2
  rramFields : ∀ c ∈ log.rram, DistinctKeys c.2

section Last

variable (cc : CharClasses) (lit : Literals) (hex : String → Option Int)

end Last

/-! ## The totals -/

/-- `{"id": idx, **fields}`: the index comes first, unless a field named `id`
takes its value. -/
def chipRow (idx : Nat) (fields : List (String × Value)) : List (String × Value) :=
  fields.foldl (fun d kv => setItem kv.1 kv.2 d) [("id", .int idx)]

/-- `[{"id": idx, **fields} for idx, fields in sorted(chips.items())]`; the
indices of a `dict` are distinct, so the items sort by index alone. -/
def chipRows (chips : List (Nat × List (String × Value))) : List (List (String × Value)) :=
  (chips.mergeSort fun a b => a.1 ≤ b.1).map fun c => chipRow c.1 c.2

/-- `key.startswith("pe[") and key.endswith("busy_cycles")`. -/
def isPeBusyKey (key : String) : Bool :=
  "pe[".data.isPrefixOf key.data && "busy_cycles".data.isSuffixOf key.data

/-- `sum(chip.get(key, 0) for chip in chips)`. -/
def chipsSum (key : String) (chips : List (List (String × Value))) : Except PyError Value :=
  pySum (chips.map (getOrZero · key))

/-- `total_pe_busy += value` on an item of a chip whose key is a
`pe[...]busy_cycles`. -/
def peBusyStep (total : Value) (kv : String × Value) : Except PyError Value :=
  if isPeBusyKey kv.1 then total.add kv.2 else pure total

/-- `total_pe_busy`: the loop over the items of every chip. -/
def peBusySum (chips : List (List (String × Value))) : Except PyError Value :=
  chips.foldlM (fun total chip => chip.foldlM peBusyStep total) (.int 0)

/-- A value of the report's summary: a value of the log, or the `dict` of totals
under `aggregated`. -/
inductive Item
  | value (v : Value)
  | dict (d : List (String × Value))
  deriving DecidableEq, Repr

/-- `summary.setdefault("aggregated", {})`, for its effect. -/
def setdefaultAggregated (s : List (String × Item)) : List (String × Item) :=
  if (s.lookup "aggregated").isSome then s else s ++ [("aggregated", .dict [])]

/-- `summary["aggregated"]` changed in place by `f`, which raises `err` on a
value of the log: only a `dict` has `update` and takes items. -/
def changeAggregated (err : PyError) (f : List (String × Value) → List (String × Value))
    (s : List (String × Item)) : Except PyError (List (String × Item)) :=
  match s.lookup "aggregated" with
  | some (.dict d) => pure (setItem "aggregated" (.dict (f d)) s)
  | some (.value _) => throw err
  | none => throw .keyError

/-- `summary["aggregated"].update(items)`. -/
def updateAggregated (items : List (String × Value)) :
    List (String × Item) → Except PyError (List (String × Item)) :=
  changeAggregated .attributeError fun d => items.foldl (fun d kv => setItem kv.1 kv.2 d) d

/-- `summary["aggregated"][key] = v`. -/
def setAggregated (key : String) (v : Value) :
    List (String × Item) → Except PyError (List (String × Item)) :=
  changeAggregated .typeError (setItem key v)

/-- The first block of `aggregate`, on the rows of the digital chiplets. -/
def digitalTotals (chips : List (List (String × Value))) (s : List (String × Item)) :
    Except PyError (List (String × Item)) :=
  if chips.isEmpty then pure s else do
    let totalMacs ← chipsSum "macs_total" chips
    let totalPeBusy ← peBusySum chips
    updateAggregated [("digital_total_macs", totalMacs),
      ("digital_total_pe_busy_cycles", totalPeBusy)] (setdefaultAggregated s)

/-- The second block, on the rows of the RRAM chiplets. -/
def rramTotals (chips : List (List (String × Value))) (s : List (String × Item)) :
    Except PyError (List (String × Item)) :=
  if chips.isEmpty then pure s else do
    let pulses ← chipsSum "pulse_count" chips
    let adc ← chipsSum "adc_samples" chips
    updateAggregated [("rram_total_pulse_count", pulses), ("rram_total_adc_samples", adc)]
      (setdefaultAggregated s)

/-- The key of the log's summary that runs the third block. -/
def platformKey : String := "ChipletPlatform_digital_load_bytes_runtime_total"

/-- The third block: three of the platform's runtime totals, read from the log's
summary. -/
def platformTotals (summary : List (String × Value)) (s : List (String × Item)) :
    Except PyError (List (String × Item)) :=
  if (summary.lookup platformKey).isNone then pure s else do
    let s ← setAggregated "digital_load_bytes_runtime_total" (getOrZero summary platformKey)
      (setdefaultAggregated s)
    let s ← setAggregated "digital_store_bytes_runtime_total"
      (getOrZero summary "ChipletPlatform_digital_store_bytes_runtime_total") s
    setAggregated "digital_tasks_completed_total"
      (getOrZero summary "ChipletPlatform_digital_tasks_completed_total") s

/-- What `aggregate` returns: the summary, and the rows of the chiplets. -/
structure Report where
  summary : List (String × Item)
  digital : List (List (String × Value))
  rram : List (List (String × Value))

/-- `aggregate(summary, digital, rram)`. -/
def aggregate (log : Log) : Except PyError Report := do
  let digital := chipRows log.digital
  let rram := chipRows log.rram
  let s ← digitalTotals digital (log.summary.map fun kv => (kv.1, .value kv.2))
  let s ← rramTotals rram s
  let s ← platformTotals log.summary s
  pure ⟨s, digital, rram⟩

/-! ### Totals of `int` counters -/

/-- Each value of a field that `key` picks is an `int`, in every chiplet. -/
def IntField (chips : List (Nat × List (String × Value))) (key : String → Bool) : Prop :=
  ∀ c ∈ chips, ∀ kv ∈ c.2, key kv.1 → kv.2.isInt

instance (chips : List (Nat × List (String × Value))) (key : String → Bool) :
    Decidable (IntField chips key) :=
  inferInstanceAs (Decidable (∀ c ∈ chips, ∀ kv ∈ c.2, key kv.1 → kv.2.isInt))

/-- The counters that `aggregate` adds up are `int`s. -/
structure Log.IntCounters (log : Log) : Prop where
  macs : IntField log.digital (· == "macs_total")
  peBusy : IntField log.digital isPeBusyKey
  pulses : IntField log.rram (· == "pulse_count")
  adc : IntField log.rram (· == "adc_samples")

/-- The sum of an `int` field over the chiplets, `0` where a chiplet lacks it. -/
def fieldTotal (chips : List (Nat × List (String × Value))) (key : String) : Int :=
  (chips.map fun c => (getOrZero c.2 key).intPart).sum

/-- The sum of the `pe[...]busy_cycles` fields over the chiplets. -/
def peBusyTotal (chips : List (Nat × List (String × Value))) : Int :=
  (chips.map fun c => ((c.2.filter (isPeBusyKey ·.1)).map (·.2.intPart)).sum).sum

/-- The totals of the first block, when there are digital chiplets. -/
def digitalItems (chips : List (Nat × List (String × Value))) : List (String × Value) :=
  if chips.isEmpty then [] else
    [("digital_total_macs", .int (fieldTotal chips "macs_total")),
      ("digital_total_pe_busy_cycles", .int (peBusyTotal chips))]

/-- The totals of the second block, when there are RRAM chiplets. -/
def rramItems (chips : List (Nat × List (String × Value))) : List (String × Value) :=
  if chips.isEmpty then [] else
    [("rram_total_pulse_count", .int (fieldTotal chips "pulse_count")),
      ("rram_total_adc_samples", .int (fieldTotal chips "adc_samples"))]

/-- The totals of the third block, when the log has the platform's key. -/
def platformItems (summary : List (String × Value)) : List (String × Value) :=
  if (summary.lookup platformKey).isNone then [] else
    [("digital_load_bytes_runtime_total", getOrZero summary platformKey),
      ("digital_store_bytes_runtime_total",
        getOrZero summary "ChipletPlatform_digital_store_bytes_runtime_total"),
      ("digital_tasks_completed_total",
        getOrZero summary "ChipletPlatform_digital_tasks_completed_total")]

/-- What `aggregate` files under `aggregated` for a log of `int` counters. -/
def Log.totals (log : Log) : List (String × Value) :=
  digitalItems log.digital ++ rramItems log.rram ++ platformItems log.summary

/-- A summary followed by its `aggregated` entry, when there are totals. -/
def withAggregated (s : List (String × Item)) (totals : List (String × Value)) :
    List (String × Item) :=
  if totals.isEmpty then s else s ++ [("aggregated", .dict totals)]

theorem distinctKeys_totals (log : Log) : DistinctKeys log.totals := by
  unfold Log.totals digitalItems rramItems platformItems DistinctKeys
  split_ifs <;>
    simp only [List.map_append, List.map_cons, List.map_nil, List.nil_append, List.cons_append] <;>
    decide

/-! ### Sums over the chip rows -/

section Rows

variable {chips : List (Nat × List (String × Value))} {key : String}

theorem chipsSum_ints {rows : List (List (String × Value))}
    (h : ∀ row ∈ rows, (getOrZero row key).isInt) :
    chipsSum key rows = .ok (.int (rows.map fun row => (getOrZero row key).intPart).sum) := by
  rw [chipsSum, pySum_ints (by simpa using h), List.map_map]
  rfl

theorem foldlM_peBusyStep_ints {row : List (String × Value)}
    (h : ∀ kv ∈ row, isPeBusyKey kv.1 → kv.2.isInt) (a : Int) :
    row.foldlM peBusyStep (.int a) =
      .ok (.int (a + ((row.filter (isPeBusyKey ·.1)).map (·.2.intPart)).sum)) := by
  induction row generalizing a with
  | nil => simp; rfl
  | cons kv row ih =>
    simp only [List.mem_cons, forall_eq_or_imp] at h
    rw [List.foldlM_cons, List.filter_cons, peBusyStep]
    by_cases hk : isPeBusyKey kv.1
    · obtain ⟨n, hn⟩ : ∃ n, kv.2 = .int n := ⟨_, Value.eq_int (h.1 hk)⟩
      rw [if_pos hk, if_pos hk, hn]
      show row.foldlM peBusyStep (.int (a + n)) = _
      rw [ih h.2]
      simp [hn, Value.intPart, add_assoc]
    · rw [if_neg hk, if_neg hk]
      exact ih h.2 a

theorem peBusySum_ints {rows : List (List (String × Value))}
    (h : ∀ row ∈ rows, ∀ kv ∈ row, isPeBusyKey kv.1 → kv.2.isInt) :
    peBusySum rows = .ok (.int (rows.map fun row =>
      ((row.filter (isPeBusyKey ·.1)).map (·.2.intPart)).sum).sum) := by
  suffices ∀ a : Int, rows.foldlM (fun total chip => chip.foldlM peBusyStep total) (.int a) =
      .ok (.int (a + (rows.map fun row =>
        ((row.filter (isPeBusyKey ·.1)).map (·.2.intPart)).sum).sum)) by
    rw [peBusySum, this, zero_add]
  induction rows with
  | nil => intro a; simp; rfl
  | cons row rows ih =>
    intro a
    simp only [List.mem_cons, forall_eq_or_imp] at h
    rw [List.foldlM_cons, foldlM_peBusyStep_ints h.1, ok_bind, ih h.2]
    simp [add_assoc]

/-- The rows list the chiplets in another order only. -/
theorem sum_chipRows (g : List (String × Value) → Int) (chips : List (Nat × List (String × Value))) :
    ((chipRows chips).map g).sum = (chips.map fun c => g (chipRow c.1 c.2)).sum := by
  rw [chipRows, List.map_map]
  exact ((List.mergeSort_perm _ _).map _).sum_eq

/-- A chip row reads a field other than `id` from the chiplet's fields. -/
theorem lookup_chipRow {k : String} (hk : k ≠ "id") (idx : Nat) {fields : List (String × Value)}
    (h : DistinctKeys fields) : (chipRow idx fields).lookup k = fields.lookup k := by
  simp only [chipRow, lookup_foldl_setItem, getLast?_filter_of_distinct h, lookup_cons_ite, hk,
    if_false]
  exact Option.or_none

/-- The `pe[...]busy_cycles` items of a chip row are the chiplet's. -/
theorem filter_chipRow (idx : Nat) {fields : List (String × Value)} (h : DistinctKeys fields) :
    (chipRow idx fields).filter (isPeBusyKey ·.1) = fields.filter (isPeBusyKey ·.1) := by
  have hid : [("id", Value.int idx)].filter (isPeBusyKey ·.1) = [] := by
    simp only [List.filter_cons, List.filter_nil]; rfl
  have hf : DistinctKeys ([] ++ fields.filter (isPeBusyKey ·.1)) :=
    List.Nodup.sublist (List.Sublist.map _ (List.filter_sublist _)) h
  rw [chipRow, filter_foldl_setItem, hid, foldl_setItem_of_distinct hf, List.nil_append]

theorem getOrZero_chipRow_isInt {k : String} (hk : k ≠ "id") (idx : Nat)
    {fields : List (String × Value)} (h : ∀ kv ∈ fields, kv.1 = k → kv.2.isInt) :
    (getOrZero (chipRow idx fields) k).isInt := by
  rw [getOrZero, chipRow, lookup_foldl_setItem]
  cases hl : (fields.filter (·.1 = k)).getLast? with
  | none => simp [lookup_cons_ite, hk]; rfl
  | some kv =>
    have hkv := List.mem_filter.1 (List.mem_of_getLast?_eq_some hl)
    simpa using h kv hkv.1 (of_decide_eq_true hkv.2)

theorem getOrZero_chipRows_isInt (hk : key ≠ "id") (hint : IntField chips (· == key)) :
    ∀ row ∈ chipRows chips, (getOrZero row key).isInt := by
  intro row hrow
  obtain ⟨c, hc, rfl⟩ := List.mem_map.1 hrow
  exact getOrZero_chipRow_isInt hk _ fun kv hkv hkk =>
    hint c ((List.mergeSort_perm _ _).subset hc) kv hkv (by simpa using hkk)

theorem peBusy_chipRows_isInt (hint : IntField chips isPeBusyKey) :
    ∀ row ∈ chipRows chips, ∀ kv ∈ row, isPeBusyKey kv.1 → kv.2.isInt := by
  intro row hrow
  obtain ⟨c, hc, rfl⟩ := List.mem_map.1 hrow
  refine forall_foldl_setItem (P := fun kv : String × Value => isPeBusyKey kv.1 → kv.2.isInt) ?_
    (hint c ((List.mergeSort_perm _ _).subset hc))
  simp only [List.mem_singleton, forall_eq]
  intro h
  cases h

theorem chipsSum_chipRows (hk : key ≠ "id") (hint : IntField chips (· == key))
    (hd : ∀ c ∈ chips, DistinctKeys c.2) :
    chipsSum key (chipRows chips) = .ok (.int (fieldTotal chips key)) := by
  have h : ∀ c ∈ chips, (getOrZero (chipRow c.1 c.2) key).intPart = (getOrZero c.2 key).intPart :=
    fun c hc => by rw [getOrZero, getOrZero, lookup_chipRow hk _ (hd c hc)]
  rw [chipsSum_ints (getOrZero_chipRows_isInt hk hint), sum_chipRows, fieldTotal,
    List.map_congr_left h]

theorem peBusySum_chipRows (hint : IntField chips isPeBusyKey)
    (hd : ∀ c ∈ chips, DistinctKeys c.2) :
    peBusySum (chipRows chips) = .ok (.int (peBusyTotal chips)) := by
  have h : ∀ c ∈ chips, (((chipRow c.1 c.2).filter (isPeBusyKey ·.1)).map (·.2.intPart)).sum =
      ((c.2.filter (isPeBusyKey ·.1)).map (·.2.intPart)).sum :=
    fun c hc => by rw [filter_chipRow _ (hd c hc)]
  rw [peBusySum_ints (peBusy_chipRows_isInt hint), sum_chipRows, peBusyTotal,
    List.map_congr_left h]

end Rows

/-! ### The `aggregated` entry -/

section Aggregated

variable {s : List (String × Item)}

theorem lookup_append_aggregated (hs : "aggregated" ∉ s.map (·.1)) (x : Item) :
    (s ++ [("aggregated", x)]).lookup "aggregated" = some x := by
  rw [List.lookup_append, lookup_of_not_mem hs]
  simp

theorem setItem_append_aggregated (hs : "aggregated" ∉ s.map (·.1)) (x y : Item) :
    setItem "aggregated" y (s ++ [("aggregated", x)]) = s ++ [("aggregated", y)] := by
  rw [setItem_append _ hs]
  simp [setItem, upsert]

theorem withAggregated_of_ne_nil {t : List (String × Value)} (ht : t ≠ []) :
    withAggregated s t = s ++ [("aggregated", .dict t)] := by
  simp [withAggregated, ht]

theorem setdefaultAggregated_withAggregated (hs : "aggregated" ∉ s.map (·.1))
    {t : List (String × Value)} (ht : t ≠ []) :
    setdefaultAggregated (withAggregated s t) = withAggregated s t := by
  rw [withAggregated_of_ne_nil ht, setdefaultAggregated, lookup_append_aggregated hs]
  rfl

/-- Changing the totals of a summary with no `aggregated` of its own. -/
theorem changeAggregated_setdefault (hs : "aggregated" ∉ s.map (·.1)) (err : PyError)
    {f : List (String × Value) → List (String × Value)} {t : List (String × Value)}
    (hf : f t ≠ []) :
    changeAggregated err f (setdefaultAggregated (withAggregated s t)) =
      .ok (withAggregated s (f t)) := by
  have hst : setdefaultAggregated (withAggregated s t) = s ++ [("aggregated", .dict t)] := by
    by_cases ht : t = []
    · subst ht
      simp [setdefaultAggregated, withAggregated, lookup_of_not_mem hs]
    · rw [setdefaultAggregated_withAggregated hs ht, withAggregated_of_ne_nil ht]
  rw [hst, changeAggregated, lookup_append_aggregated hs, withAggregated_of_ne_nil hf]
  exact congrArg Except.ok (setItem_append_aggregated hs _ _)

/-- A summary that has `aggregated` from the log makes every change raise. -/
theorem changeAggregated_of_value {v : Value} (hv : s.lookup "aggregated" = some (.value v))
    (err : PyError) (f : List (String × Value) → List (String × Value)) :
    changeAggregated err f (setdefaultAggregated s) = .error err := by
  simp only [setdefaultAggregated, hv, Option.isSome_some, if_true, changeAggregated]
  rfl

theorem setAggregated_withAggregated (hs : "aggregated" ∉ s.map (·.1))
    {t : List (String × Value)} {k : String} (v : Value) (hk : k ∉ t.map (·.1)) :
    setAggregated k v (setdefaultAggregated (withAggregated s t)) =
      .ok (withAggregated s (t ++ [(k, v)])) := by
  rw [setAggregated, changeAggregated_setdefault hs _ (by simp [setItem_of_not_mem _ hk]),
    setItem_of_not_mem _ hk]

theorem updateAggregated_withAggregated (hs : "aggregated" ∉ s.map (·.1))
    {t items : List (String × Value)} (hne : items ≠ []) (h : DistinctKeys (t ++ items)) :
    updateAggregated items (setdefaultAggregated (withAggregated s t)) =
      .ok (withAggregated s (t ++ items)) := by
  rw [updateAggregated, changeAggregated_setdefault hs _ (by simp [foldl_setItem_of_distinct h, hne]),
    foldl_setItem_of_distinct h]

end Aggregated

/-! ### The three blocks -/

section Blocks

variable {s : List (String × Item)} {chips : List (Nat × List (String × Value))}

theorem chipRows_eq_nil : chipRows chips = [] ↔ chips = [] := by
  rw [← List.length_eq_zero, ← List.length_eq_zero (l := chips), chipRows, List.length_map,
    List.length_mergeSort]

theorem digitalTotals_eq (hs : "aggregated" ∉ s.map (·.1))
    (hmacs : IntField chips (· == "macs_total")) (hpe : IntField chips isPeBusyKey)
    (hd : ∀ c ∈ chips, DistinctKeys c.2) {t : List (String × Value)}
    (ht : DistinctKeys (t ++ digitalItems chips)) :
    digitalTotals (chipRows chips) (withAggregated s t) =
      .ok (withAggregated s (t ++ digitalItems chips)) := by
  by_cases hc : chips = []
  · subst hc
    simp [digitalTotals, digitalItems, chipRows]
    rfl
  · have hi : digitalItems chips = [("digital_total_macs", .int (fieldTotal chips "macs_total")),
        ("digital_total_pe_busy_cycles", .int (peBusyTotal chips))] := by
      simp [digitalItems, hc]
    rw [hi] at ht ⊢
    rw [digitalTotals, if_neg (by simpa [chipRows_eq_nil] using hc),
      chipsSum_chipRows (by decide) hmacs hd, ok_bind, peBusySum_chipRows hpe hd, ok_bind,
      updateAggregated_withAggregated hs (by simp) ht]

theorem rramTotals_eq (hs : "aggregated" ∉ s.map (·.1))
    (hpulses : IntField chips (· == "pulse_count")) (hadc : IntField chips (· == "adc_samples"))
    (hd : ∀ c ∈ chips, DistinctKeys c.2) {t : List (String × Value)}
    (ht : DistinctKeys (t ++ rramItems chips)) :
    rramTotals (chipRows chips) (withAggregated s t) =
      .ok (withAggregated s (t ++ rramItems chips)) := by
  by_cases hc : chips = []
  · subst hc
    simp [rramTotals, rramItems, chipRows]
    rfl
  · have hi : rramItems chips = [("rram_total_pulse_count", .int (fieldTotal chips "pulse_count")),
        ("rram_total_adc_samples", .int (fieldTotal chips "adc_samples"))] := by
      simp [rramItems, hc]
    rw [hi] at ht ⊢
    rw [rramTotals, if_neg (by simpa [chipRows_eq_nil] using hc),
      chipsSum_chipRows (by decide) hpulses hd, ok_bind, chipsSum_chipRows (by decide) hadc hd,
      ok_bind, updateAggregated_withAggregated hs (by simp) ht]

/-- Three item assignments after `setdefault`, as the third block makes them. -/
theorem setAggregated_three (hs : "aggregated" ∉ s.map (·.1)) {t : List (String × Value)}
    {k₁ k₂ k₃ : String} {v₁ v₂ v₃ : Value}
    (ht : DistinctKeys (t ++ [(k₁, v₁), (k₂, v₂), (k₃, v₃)])) :
    (do
      let s ← setAggregated k₁ v₁ (setdefaultAggregated (withAggregated s t))
      let s ← setAggregated k₂ v₂ s
      setAggregated k₃ v₃ s) = .ok (withAggregated s (t ++ [(k₁, v₁), (k₂, v₂), (k₃, v₃)])) := by
  have h₂ : DistinctKeys (t ++ [(k₁, v₁)] ++ [(k₂, v₂), (k₃, v₃)]) := by simpa using ht
  have h₃ : DistinctKeys (t ++ [(k₁, v₁)] ++ [(k₂, v₂)] ++ [(k₃, v₃)]) := by simpa using ht
  rw [setAggregated_withAggregated hs _ (not_mem_of_distinct_append ht), ok_bind,
    ← setdefaultAggregated_withAggregated hs (by simp),
    setAggregated_withAggregated hs _ (not_mem_of_distinct_append h₂), ok_bind,
    ← setdefaultAggregated_withAggregated hs (by simp),
    setAggregated_withAggregated hs _ (not_mem_of_distinct_append h₃)]
  simp

theorem platformTotals_eq (hs : "aggregated" ∉ s.map (·.1)) (summary : List (String × Value))
    {t : List (String × Value)} (ht : DistinctKeys (t ++ platformItems summary)) :
    platformTotals summary (withAggregated s t) =
      .ok (withAggregated s (t ++ platformItems summary)) := by
  unfold platformItems at ht ⊢
  unfold platformTotals
  by_cases hp : (summary.lookup platformKey).isNone
  · simp only [hp, if_true, List.append_nil]
    rfl
  · simp only [hp, if_false, Bool.false_eq_true] at ht ⊢
    exact setAggregated_three hs ht

theorem digitalTotals_of_value {v : Value} (hv : s.lookup "aggregated" = some (.value v))
    (hmacs : IntField chips (· == "macs_total")) (hpe : IntField chips isPeBusyKey)
    (hc : chips ≠ []) : digitalTotals (chipRows chips) s = .error .attributeError := by
  obtain ⟨m, hm⟩ : ∃ m, chipsSum "macs_total" (chipRows chips) = .ok (.int m) :=
    ⟨_, chipsSum_ints (getOrZero_chipRows_isInt (by decide) hmacs)⟩
  obtain ⟨p, hp⟩ : ∃ p, peBusySum (chipRows chips) = .ok (.int p) :=
    ⟨_, peBusySum_ints (peBusy_chipRows_isInt hpe)⟩
  rw [digitalTotals, if_neg (by simpa [chipRows_eq_nil] using hc), hm, ok_bind, hp, ok_bind,
    updateAggregated, changeAggregated_of_value hv]

theorem rramTotals_of_value {v : Value} (hv : s.lookup "aggregated" = some (.value v))
    (hpulses : IntField chips (· == "pulse_count")) (hadc : IntField chips (· == "adc_samples"))
    (hc : chips ≠ []) : rramTotals (chipRows chips) s = .error .attributeError := by
  obtain ⟨p, hp⟩ : ∃ p, chipsSum "pulse_count" (chipRows chips) = .ok (.int p) :=
    ⟨_, chipsSum_ints (getOrZero_chipRows_isInt (by decide) hpulses)⟩
  obtain ⟨a, ha⟩ : ∃ a, chipsSum "adc_samples" (chipRows chips) = .ok (.int a) :=
    ⟨_, chipsSum_ints (getOrZero_chipRows_isInt (by decide) hadc)⟩
  rw [rramTotals, if_neg (by simpa [chipRows_eq_nil] using hc), hp, ok_bind, ha, ok_bind,
    updateAggregated, changeAggregated_of_value hv]

theorem platformTotals_of_value {v : Value} (hv : s.lookup "aggregated" = some (.value v))
    {summary : List (String × Value)} (hp : platformKey ∈ summary.map (·.1)) :
    platformTotals summary s = .error .typeError := by
  obtain ⟨p, hp, hk⟩ := List.mem_map.1 hp
  obtain ⟨x, hx⟩ := Option.isSome_iff_exists.1
    (List.lookup_isSome_iff.2 ⟨p, hp, by simp [hk]⟩ : (summary.lookup platformKey).isSome)
  rw [platformTotals, hx, Option.isNone_some, if_neg Bool.false_ne_true, setAggregated,
    changeAggregated_of_value hv]
  rfl

theorem totals_nil (t : List (String × Item)) :
    digitalTotals (chipRows []) t = .ok t ∧ rramTotals (chipRows []) t = .ok t := by
  simp [digitalTotals, rramTotals, chipRows]
  rfl

end Blocks

/-! ### The totals of a log -/

/-- On `int` counters, and with no key `aggregated` in the log, `aggregate`
files the sum of each counter over the chiplets, in any order, and the
platform's totals as the log has them. -/
theorem aggregate_totals {log : Log} (hwf : log.WellFormed) (hint : log.IntCounters)
    (h : "aggregated" ∉ log.summary.map (·.1)) :
    aggregate log = .ok ⟨withAggregated (log.summary.map fun kv => (kv.1, .value kv.2)) log.totals,
      chipRows log.digital, chipRows log.rram⟩ := by
  have hs : "aggregated" ∉ (log.summary.map fun kv => (kv.1, Item.value kv.2)).map (·.1) := by
    rwa [List.map_map]
  have hk := distinctKeys_totals log
  have h₀ := digitalTotals_eq hs hint.macs hint.peBusy hwf.digitalFields (t := [])
    (distinctKeys_append_left (distinctKeys_append_left hk))
  rw [show withAggregated (log.summary.map fun kv => (kv.1, Item.value kv.2)) [] =
    log.summary.map fun kv => (kv.1, Item.value kv.2) from rfl, List.nil_append] at h₀
  rw [aggregate, h₀, ok_bind,
    rramTotals_eq hs hint.pulses hint.adc hwf.rramFields (distinctKeys_append_left hk), ok_bind,
    platformTotals_eq hs _ hk, ok_bind]
  rfl

/-- A log of two digital chiplets, listed out of order, one RRAM chiplet, and
the platform's load total. -/
def twoChipLog : Log where
  summary := [(platformKey, .int 4096)]
  digital := [(1, [("macs_total", .int 64)]),
    (0, [("macs_total", .int 128), ("pe[0]_busy_cycles", .int 40)])]
  rram := [(0, [("pulse_count", .int 7), ("adc_samples", .int 3)])]

theorem aggregate_totals_two_chips :
    twoChipLog.WellFormed ∧ twoChipLog.IntCounters ∧
      "aggregated" ∉ twoChipLog.summary.map (·.1) ∧
      aggregate twoChipLog = .ok ⟨withAggregated
        (twoChipLog.summary.map fun kv => (kv.1, .value kv.2)) twoChipLog.totals,
        chipRows twoChipLog.digital, chipRows twoChipLog.rram⟩ :=
  have hwf : twoChipLog.WellFormed := ⟨by decide, by decide, by decide, by decide, by decide⟩
  have hint : twoChipLog.IntCounters := ⟨by decide, by decide, by decide, by decide⟩
  have h : "aggregated" ∉ twoChipLog.summary.map (·.1) := by decide
  ⟨hwf, hint, h, aggregate_totals hwf hint h⟩

/-- A log line with the key `aggregated` makes `aggregate` raise as soon as one
of its blocks runs: `update` on the log's value raises `AttributeError`, and
without chiplets the item assignments of the third block raise `TypeError`. -/
theorem aggregate_fails_on_aggregated_entry {log : Log} (hint : log.IntCounters)
    (h : "aggregated" ∈ log.summary.map (·.1))
    (hrun : log.digital ≠ [] ∨ log.rram ≠ [] ∨ platformKey ∈ log.summary.map (·.1)) :
    aggregate log =
      .error (if log.digital = [] ∧ log.rram = [] then .typeError else .attributeError) := by
  obtain ⟨v, hv⟩ : ∃ v, (log.summary.map fun kv => (kv.1, Item.value kv.2)).lookup "aggregated" =
      some (.value v) := by
    obtain ⟨p, hp, hk⟩ := List.mem_map.1 h
    obtain ⟨v, hv⟩ := Option.isSome_iff_exists.1
      (List.lookup_isSome_iff.2 ⟨p, hp, by simp [hk]⟩ : (log.summary.lookup "aggregated").isSome)
    exact ⟨v, by rw [lookup_map_snd, hv]; rfl⟩
  rw [aggregate]
  by_cases hd : log.digital = []
  · by_cases hr : log.rram = []
    · have hp : platformKey ∈ log.summary.map (·.1) := by simpa [hd, hr] using hrun
      rw [hd, hr, (totals_nil _).1, ok_bind, (totals_nil _).2, ok_bind,
        platformTotals_of_value hv hp, if_pos ⟨rfl, rfl⟩]
      rfl
    · rw [hd, (totals_nil _).1, ok_bind, rramTotals_of_value hv hint.pulses hint.adc hr,
        if_neg fun h => hr h.2]
      rfl
  · rw [digitalTotals_of_value hv hint.macs hint.peBusy hd, if_neg fun h => hd h.1]
    rfl

/-! ## The cycle trace -/

section Trace

variable (cc : CharClasses) (lit : Literals)

/-- The value of a cell of the trace: `0` when it is blank after `strip`, and
otherwise `float` or `int` of the stripped text, or the text. -/
def parseCell (cell : String) : Value :=
  let v := String.mk (strip cc cell.data)
  if v.isEmpty then .int 0 else parseText lit v

/-- `parsed[key] = ...` for one item of a row; `strip` of the `restval` `None`
of a short line raises `AttributeError`. -/
def parseItem (parsed : List (String × Value)) (kv : String × Option String) :
    Except PyError (List (String × Value)) :=
  match kv.2 with
  | some value => pure (setItem kv.1 (parseCell cc lit value) parsed)
  | none => throw .attributeError

/-- The loop of `parse_cycle_log` over the items of one row of `csv.DictReader`;
a long line's extra cells are the row's last item, a list under the `restkey`
`None`, and `strip` of it raises `AttributeError` too. -/
def parseRow (fieldnames cells : List String) : Except PyError (List (String × Value)) := do
  let parsed ← List.foldlM (parseItem cc lit) [] (dictRow fieldnames cells)
  if fieldnames.length < cells.length then throw .attributeError else pure parsed

/-- `parse_cycle_log(path)` on the rows of `csv.reader` for the file, `none`
when no path is given. -/
def parseCycleLog : Option (List (List String)) → Except PyError (List (List (String × Value)))
  | none => pure []
  | some [] => pure []
  | some (fieldnames :: lines) => (lines.filter (!·.isEmpty)).mapM (parseRow cc lit fieldnames)

end Trace

/-- The columns that `summarize_cycle_log` adds up. -/
def cycleFields : List String :=
  ["digital_exec", "digital_completed", "rram_exec", "transfer_exec", "transfer_bytes",
    "digital_load_bytes", "digital_store_bytes", "digital_pe_active", "digital_spu_active",
    "throttle_events", "deferrals"]

/-- One column of `summarize_cycle_log`: the sum as `f"{field}_sum"`, then the
sum it just stored over the number of rows as `f"{field}_avg"`. -/
def summarizeField (rows : List (List (String × Value))) (summary : List (String × Value))
    (field : String) : Except PyError (List (String × Value)) := do
  let total ← pySum (rows.map (getOrZero · field))
  let summary := setItem (field ++ "_sum") total summary
  let avg ← total.trueDiv rows.length
  pure (setItem (field ++ "_avg") avg summary)

/-- `summarize_cycle_log(rows)`. -/
def summarizeCycleLog (rows : List (List (String × Value))) :
    Except PyError (List (String × Value)) :=
  if rows.isEmpty then pure [] else do
    let summary ← cycleFields.foldlM (summarizeField rows) []
    pure (setItem "cycles" (.int rows.length) summary)

section Main

variable (cc : CharClasses) (lit : Literals) (hex : String → Option Int)

/-- What `main` prints: the report, and the summary of the trace when it is not
empty. -/
structure Data where
  report : Report
  cycleSummary : Option (List (String × Value))

/-- What `main` computes before it prints, from the lines of the log and the
rows of the trace, `none` when no trace is given. -/
def profile (lines : List String) (cycleLog : Option (List (List String))) :
    Except PyError Data := do
  let report ← aggregate (parseLog cc lit hex lines)
  let cycleSummary ← summarizeCycleLog (← parseCycleLog cc lit cycleLog)
  pure ⟨report, if cycleSummary.isEmpty then none else some cycleSummary⟩

end Main

/-! ### Reading the trace -/

section Reading

variable (cc : CharClasses) (lit : Literals)

end Reading

/-- A log whose summary has a line `aggregated`, and one digital chiplet. -/
def aggregatedLineLog : Log where
  summary := [("aggregated", .int 1)]
  digital := [(0, [("macs_total", .int 8)])]
  rram := []

theorem aggregate_fails_on_aggregated_line :
    aggregatedLineLog.IntCounters ∧ "aggregated" ∈ aggregatedLineLog.summary.map (·.1) ∧
      (aggregatedLineLog.digital ≠ [] ∨ aggregatedLineLog.rram ≠ [] ∨
        platformKey ∈ aggregatedLineLog.summary.map (·.1)) ∧
      aggregate aggregatedLineLog = .error (if aggregatedLineLog.digital = [] ∧
        aggregatedLineLog.rram = [] then .typeError else .attributeError) :=
  have hint : aggregatedLineLog.IntCounters := ⟨by decide, by decide, by decide, by decide⟩
  have h : "aggregated" ∈ aggregatedLineLog.summary.map (·.1) := by decide
  have hrun : aggregatedLineLog.digital ≠ [] ∨ aggregatedLineLog.rram ≠ [] ∨
      platformKey ∈ aggregatedLineLog.summary.map (·.1) := .inl (by decide)
  ⟨hint, h, hrun, aggregate_fails_on_aggregated_entry hint h hrun⟩

/-! ### Summing the trace -/

/-- The sum of an `int` column, `0` where a row lacks the column. -/
def columnTotal (rows : List (List (String × Value))) (field : String) : Int :=
  (rows.map fun row => (getOrZero row field).intPart).sum

/-- The two items of an `int` column: its sum, and the sum over the number of
rows, correctly rounded. -/
def columnItems (rows : List (List (String × Value))) (field : String) : List (String × Value) :=
  [(field ++ "_sum", .int (columnTotal rows field)),
    (field ++ "_avg", .float (.finite (roundNearest ((columnTotal rows field : ℚ) / rows.length))))]

/-- An `int` below `2 ^ 53` in size over a positive count is the correctly
rounded quotient. -/
theorem trueDiv_int {a : Int} (ha : a.natAbs < 2 ^ 53) {n : Nat} (hn : 0 < n) :
    (Value.int a).trueDiv n = .ok (.float (.finite (roundNearest ((a : ℚ) / n)))) := by
  have hq : Double.ofRat ((a : ℚ) / n) = .finite (roundNearest ((a : ℚ) / n)) := by
    refine Double.ofRat_of_abs_le (n := |a|) (by rwa [Int.natAbs_abs]) ?_
    rw [abs_div, Nat.abs_cast, Int.cast_abs]
    exact div_le_self (abs_nonneg _) (Nat.one_le_cast.2 hn)
  rw [Value.trueDiv, if_neg (by omega), Int.cast_natCast, finiteOrOverflow_of_finite hq]
  rfl

section Summary

variable {rows : List (List (String × Value))}

theorem summarizeField_ints (hne : rows ≠ []) {field : String}
    (hint : ∀ row ∈ rows, (getOrZero row field).isInt)
    (hb : (columnTotal rows field).natAbs < 2 ^ 53) {summary : List (String × Value)}
    (hs : DistinctKeys (summary ++ columnItems rows field)) :
    summarizeField rows summary field = .ok (summary ++ columnItems rows field) := by
  have hsum : pySum (rows.map (getOrZero · field)) = .ok (.int (columnTotal rows field)) := by
    rw [pySum_ints (by simpa using hint), List.map_map]
    rfl
  rw [summarizeField, hsum, ok_bind, trueDiv_int hb (List.length_pos.2 hne), ok_bind,
    ← foldl_setItem_of_distinct hs]
  rfl

theorem foldlM_summarizeField (hne : rows ≠ []) : ∀ {fields : List String},
    (∀ field ∈ fields, (∀ row ∈ rows, (getOrZero row field).isInt) ∧
      (columnTotal rows field).natAbs < 2 ^ 53) →
    ∀ {summary : List (String × Value)},
      DistinctKeys (summary ++ (fields.map (columnItems rows)).flatten) →
      fields.foldlM (summarizeField rows) summary =
        .ok (summary ++ (fields.map (columnItems rows)).flatten)
  | [], _, _, _ => by simp; rfl
  | field :: fields, h, summary, hs => by
    simp only [List.mem_cons, forall_eq_or_imp] at h
    have hs' : DistinctKeys (summary ++ columnItems rows field ++
        (fields.map (columnItems rows)).flatten) := by simpa using hs
    rw [List.foldlM_cons, summarizeField_ints hne h.1.1 h.1.2 (distinctKeys_append_left hs'),
      ok_bind, foldlM_summarizeField hne h.2 hs']
    simp

theorem keys_columnItems (fields : List String) :
    ((fields.map (columnItems rows)).flatten).map (·.1) =
      (fields.map fun field => [field ++ "_sum", field ++ "_avg"]).flatten := by
  induction fields with
  | nil => rfl
  | cons field fields ih => simp only [List.map_cons, List.flatten_cons, List.map_append, ih]; rfl

/-- On columns of `int`s whose sums are below `2 ^ 53` in size,
`summarize_cycle_log` lists each column's exact sum and its correctly rounded
average, and then the number of rows. -/
theorem summarizeCycleLog_of_ints (hne : rows ≠ [])
    (hint : ∀ row ∈ rows, ∀ field ∈ cycleFields, (getOrZero row field).isInt)
    (hb : ∀ field ∈ cycleFields, (columnTotal rows field).natAbs < 2 ^ 53) :
    summarizeCycleLog rows =
      .ok ((cycleFields.map (columnItems rows)).flatten ++ [("cycles", .int rows.length)]) := by
  have hk : DistinctKeys ((cycleFields.map (columnItems rows)).flatten ++
      [("cycles", Value.int rows.length)]) := by
    unfold DistinctKeys
    simp only [List.map_append, keys_columnItems, List.map_cons, List.map_nil]
    decide
  rw [summarizeCycleLog, if_neg (by simpa using hne),
    foldlM_summarizeField hne (fun field hf => ⟨fun row hr => hint row hr field hf, hb field hf⟩)
      (show DistinctKeys ([] ++ _) from distinctKeys_append_left hk),
    ok_bind, List.nil_append, setItem_of_not_mem _ (not_mem_of_distinct_append hk)]
  rfl

end Summary

/-- Two rows of a trace with `int` cells in two of the columns. -/
def twoCycleRows : List (List (String × Value)) :=
  [[("digital_exec", .int 3), ("transfer_bytes", .int 64)], [("digital_exec", .int 1)]]

theorem summarizeCycleLog_two_rows :
    twoCycleRows ≠ [] ∧
      (∀ row ∈ twoCycleRows, ∀ field ∈ cycleFields, (getOrZero row field).isInt) ∧
      (∀ field ∈ cycleFields, (columnTotal twoCycleRows field).natAbs < 2 ^ 53) ∧
      summarizeCycleLog twoCycleRows = .ok ((cycleFields.map (columnItems twoCycleRows)).flatten ++
        [("cycles", .int twoCycleRows.length)]) :=
  have hne : twoCycleRows ≠ [] := by decide
  have hint : ∀ row ∈ twoCycleRows, ∀ field ∈ cycleFields, (getOrZero row field).isInt := by
    decide
  have hb : ∀ field ∈ cycleFields, (columnTotal twoCycleRows field).natAbs < 2 ^ 53 := by decide
  ⟨hne, hint, hb, summarizeCycleLog_of_ints hne hint hb⟩

end UPIMulator.Logs.Profiler
