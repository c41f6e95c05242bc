import UPIMulator.Python.Dict
import UPIMulator.Python.Float
import Mathlib.Data.List.Sort
import Mathlib.Data.List.Zip

/-!
# Rows of `csv.DictReader` and the loops over them

The log tools read `chiplet_cycle_log.csv` with `csv.DictReader`.  The first
line of the file is the header; every later line that is not blank becomes a
`dict` from the header's names to the line's cells, built as
`dict(zip(fieldnames, row))`, and a line shorter than the header gives the
reader's `restval`, `None`, to the names it lacks.  A row is that `dict`, with
`none` for `None`.

The tools convert cells with `int(...)` and `float(...)`.  Python's literal
grammars are left as parameters: `Literals` gives `int(s)` and `float(s)` of a
string, `none` where they raise `ValueError`, and every result about the tools
holds whatever they are; `float` can return NaN (`"nan"`) and the infinities
(`"inf"`, or a literal too large for a double).  `int(None)` raises
`TypeError`, and `row[k]` of a name the header lacks raises `KeyError`.

`xs.sort(key=key, reverse=True)` compares keys with `<` only.  Every stable
sort puts keys that `<` orders totally in the same order, so `sortDesc` is the
stable merge sort that keeps `a` before `b` unless `a`'s key is below `b`'s;
with a NaN key `<` is not an order, and CPython's timsort and the merge sort
can place the rows differently, so the results below assume keys that are not
NaN.

* `mapM_eq_ok_map`, `pyFilter_eq_ok_filter` and `sortDesc_eq_ok`: a loop whose
  conversions all succeed computes the plain `map`, `filter` and stable sort;
  `mapM_eq_ite`: a loop that raises one error on some elements raises it
  exactly when one of them occurs.
* `pairwise_mergeSort_desc`, `pairwise_take_drop`: the stable sort of keys
  that are not NaN never puts a key below a later one, so after any prefix no
  key of the tail is above a key of the head.
-/

namespace UPIMulator.Python

/-! ## Rows -/

/-- A row of `csv.DictReader`: each name of the header with its cell. -/
def CsvRow := List (String × Option String)

/-- `row.get(k)`: `none` when the header has no column `k`. -/
def CsvRow.get (row : CsvRow) (k : String) : Option (Option String) := List.lookup k row

/-- The row `DictReader.__next__` makes of a line: `dict(zip(fieldnames, row))`,
then `restval` for the names past the end of a short line. -/
def dictRow (fieldnames cells : List String) : CsvRow :=
  let d := (fieldnames.zip cells).foldl (fun d kv => setItem kv.1 (some kv.2) d) []
  (fieldnames.drop cells.length).foldl (fun d k => setItem k none d) d

/-- The rows `csv.DictReader` yields for the lines of a file: the first line
is the header and blank lines are skipped. -/
def readerRows : List (List String) → List CsvRow
  | [] => []
  | fieldnames :: lines => (lines.filter (!·.isEmpty)).map (dictRow fieldnames)

/-! ## Conversions -/

/-- Python's `int(s)` and `float(s)` on a string, `none` where they raise
`ValueError`. -/
structure Literals where
  int : String → Option Int
  float : String → Option Double

/-- `int(cell)`. -/
def intOfCell (lit : Literals) : Option String → Except PyError Int
  | none => throw .typeError
  | some s =>
    match lit.int s with
    | some n => pure n
    | none => throw .valueError

/-- `float(cell)`. -/
def floatOfCell (lit : Literals) : Option String → Except PyError Double
  | none => throw .typeError
  | some s =>
    match lit.float s with
    | some x => pure x
    | none => throw .valueError

/-- `int(row[k])`. -/
def intItem (lit : Literals) (row : CsvRow) (k : String) : Except PyError Int :=
  match row.get k with
  | some cell => intOfCell lit cell
  | none => throw .keyError

/-- `float(row[k])`. -/
def floatItem (lit : Literals) (row : CsvRow) (k : String) : Except PyError Double :=
  match row.get k with
  | some cell => floatOfCell lit cell
  | none => throw .keyError

/-- `int(row.get(k, 0))`: a missing column gives `int(0)`. -/
def intGet (lit : Literals) (row : CsvRow) (k : String) : Except PyError Int :=
  match row.get k with
  | some cell => intOfCell lit cell
  | none => pure 0

/-! ## Literals of one digit -/

/-- The value of a one-digit literal. -/
def digitValue (s : String) : Option Int :=
  match s.data with
  | [c] => if c.isDigit then some (c.toNat - '0'.toNat) else none
  | _ => none

/-- `int` and `float` on the literals `0` to `9`, enough for a small log. -/
def digitLiterals : Literals := ⟨digitValue, fun s => (digitValue s).map fun n => .finite n⟩

/-- The value of a one-digit cell, `0` for any other cell. -/
def digitCell (k : String) (row : CsvRow) : Int :=
  match row.get k with
  | some (some s) => (digitValue s).getD 0
  | _ => 0

/-! ## Loops whose steps can raise -/

section Loops

variable {α β : Type}

/-- `[x for x in xs if p(x)]` with a test that can raise: the tests run in
order and the first error propagates. -/
def pyFilter (p : α → Except PyError Bool) : List α → Except PyError (List α)
  | [] => pure []
  | x :: xs => do
    let keep ← p x
    let rest ← pyFilter p xs
    pure (if keep then x :: rest else rest)

/-- `xs.sort(key=key, reverse=True)`: the keys are computed in order, then the
list is sorted stably, keeping `a` before `b` unless `a`'s key is below `b`'s. -/
def sortDesc (key : α → Except PyError Double) (xs : List α) : Except PyError (List α) := do
  let keys ← xs.mapM key
  pure (((xs.zip keys).mergeSort fun a b => !a.2.lt b.2).map (·.1))

theorem mapM_eq_ok_map {f : α → Except PyError β} {g : α → β} :
    ∀ {xs : List α}, (∀ x ∈ xs, f x = .ok (g x)) → xs.mapM f = .ok (xs.map g)
  | [], _ => rfl
  | x :: xs, h => by
    rw [List.mapM_cons, h x (List.mem_cons_self x xs),
      mapM_eq_ok_map fun y hy => h y (List.mem_cons_of_mem x hy)]
    rfl

theorem pyFilter_eq_ok_filter {p : α → Except PyError Bool} {q : α → Bool} :
    ∀ {xs : List α}, (∀ x ∈ xs, p x = .ok (q x)) → pyFilter p xs = .ok (xs.filter q)
  | [], _ => rfl
  | x :: xs, h => by
    rw [pyFilter, h x (List.mem_cons_self x xs),
      pyFilter_eq_ok_filter fun y hy => h y (List.mem_cons_of_mem x hy)]
    cases hq : q x <;> simp [List.filter_cons, hq]

theorem sortDesc_eq_ok {key : α → Except PyError Double} {k : α → Double} {xs : List α}
    (h : ∀ x ∈ xs, key x = .ok (k x)) :
    sortDesc key xs = .ok (xs.mergeSort fun a b => !(k a).lt (k b)) := by
  have hz : xs.zip (xs.map k) = xs.map fun x => (x, k x) := by simpa using List.zip_map' id k xs
  rw [sortDesc, mapM_eq_ok_map h, ok_bind, hz]
  show Except.ok _ = _
  rw [List.map_mergeSort (s := fun a b => !(k a).lt (k b)), List.map_map]
  · simp [Function.comp_def]
  · intro a ha b hb
    obtain ⟨x, -, rfl⟩ := List.mem_map.1 ha
    obtain ⟨y, -, rfl⟩ := List.mem_map.1 hb
    rfl

/-- The stable sort of keys that are not NaN never puts a key below a later
one: on such keys the comparison is that of their places on the extended
line, a total order. -/
theorem pairwise_mergeSort_desc (k : α → Double) {xs : List α}
    (h : ∀ x ∈ xs, (k x).isNan = false) :
    (xs.mergeSort fun a b => !(k a).lt (k b)).Pairwise fun a b => (k a).lt (k b) = false := by
  have hrank : xs.mergeSort (fun a b => !(k a).lt (k b)) =
      xs.mergeSort fun a b => decide ((k b).rank ≤ (k a).rank) := by
    simpa using (List.map_mergeSort (f := id) (s := fun a b => !(k a).lt (k b))
      fun a ha b hb => by
        dsimp only [id]; rw [Double.lt_eq_rank (h a ha) (h b hb), ← decide_not]; simp only [not_lt]).symm
  have hsorted := @List.sorted_mergeSort _ (fun a b => decide ((k b).rank ≤ (k a).rank))
    (fun a b c hab hbc => by simp only [decide_eq_true_eq] at *; exact hbc.trans hab)
    (fun a b => by simpa using le_total (k b).rank (k a).rank) xs
  rw [hrank]
  refine hsorted.imp_of_mem fun {a b} ha hb hab => ?_
  have hperm := List.mergeSort_perm xs fun a b => decide ((k b).rank ≤ (k a).rank)
  rw [Double.lt_eq_rank (h a (hperm.subset ha)) (h b (hperm.subset hb))]
  simpa using hab

/-- A list sorted by a relation splits after any prefix into a head each of
whose members is related to every member of the tail. -/
theorem pairwise_take_drop {R : α → α → Prop} {ys : List α} (h : ys.Pairwise R) (n : Nat) :
    ∀ a ∈ ys.take n, ∀ b ∈ ys.drop n, R a b := by
  rw [← List.take_append_drop n ys] at h
  exact (List.pairwise_append.1 h).2.2

end Loops

end UPIMulator.Python
