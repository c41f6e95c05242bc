import UPIMulator.Python.Csv
import UPIMulator.Logs.TransferLine
import Mathlib.Data.List.Infix

/-!
# The regression checker

`src/tools/chiplet_regression.py` checks the artifacts of a simulator run:
`chiplet_cycle_log.csv` must have the mandatory columns and a cycle with
digital work, `chiplet_results.csv` the columns `cycle` and `chiplet_id`, and
`run_debug.log` must not be blank and may be required to carry the host DMA
and streaming markers.  `main` exits with `1` for an `AssertionError`, `2` for a
`FileNotFoundError`, and lets any other exception through.

The file system is a parameter: the file a path names once `..` and symbolic
links are resolved, whether it exists, the lines `csv.reader` reads from it,
and the text `read_text` returns.  Two paths that differ in their text can name
one file.  `strip` removes the spaces of Python's Unicode tables, which are a
parameter too.  A failure carries the facts its message reports (the path, the
missing columns or artifacts), not the text of the message.

* `validate_run_debug`: when `run_dir/run_debug.log` exists, `validate` checks
  `run_dir.parent/run_debug.log` in its place, and when it does not exist,
  `validate` raises `FileNotFoundError` naming it.  So unless the two paths
  name one file (`run_dir` is `.`, or a link into its own parent), `validate`
  requires the run directory's own log but never reads it.
-/

namespace UPIMulator.Logs.Regression

open UPIMulator.Python

/-! ## Paths and files -/

/-- A `pathlib.Path`: its anchor (`""` or `"/"`) and its parts. -/
structure Path where
  anchor : String
  parts : List String
  deriving DecidableEq, Repr

/-- `path / name` for a name without a separator. -/
def Path.div (p : Path) (name : String) : Path := ⟨p.anchor, p.parts ++ [name]⟩

/-- `path.parent`: the path without its last part; the parent of an anchor is
itself. -/
def Path.parent (p : Path) : Path := ⟨p.anchor, p.parts.dropLast⟩

/-- The files of a run: the file a path names, once `..` and symbolic links
are resolved, whether that file exists, the lines `csv.reader` reads from it,
and the text `read_text(errors="ignore")` returns. -/
structure Files where
  resolve : Path → Path
  existsAt : Path → Bool
  csvLinesAt : Path → List (List String)
  textAt : Path → String

/-- `path.exists()`. -/
def Files.pathExists (fs : Files) (p : Path) : Bool := fs.existsAt (fs.resolve p)

/-- The lines of `path`. -/
def Files.csvLines (fs : Files) (p : Path) : List (List String) := fs.csvLinesAt (fs.resolve p)

/-- `path.read_text(encoding="utf-8", errors="ignore")`. -/
def Files.text (fs : Files) (p : Path) : String := fs.textAt (fs.resolve p)

/-- The command-line switches of `parse_args`. -/
structure Args where
  runDir : Path
  requireTransfer : Bool
  requireHostDma : Bool
  requireStreaming : Bool

/-! ## Failures -/

/-- The facts an `AssertionError` of the checks reports. -/
inductive Problem
  | noHeader (p : Path)
  | empty (p : Path)
  | missingColumns (p : Path) (columns : List String)
  | noDigitalExec (p : Path)
  | noTransfer (p : Path)
  | missingHostDma (p : Path)
  | missingStreaming (p : Path)
  deriving DecidableEq, Repr

/-- What `validate` raises. -/
inductive Failure
  | assertion (problem : Problem)
  /-- The names and paths of the missing artifacts. -/
  | fileNotFound (missing : List (String × Path))
  /-- An exception `main` does not catch. -/
  | uncaught (e : PyError)
  deriving DecidableEq, Repr

/-! ## The checks -/

/-- `MANDATORY_CYCLE_COLUMNS`. -/
def mandatoryCycleColumns : List String :=
  ["cycle", "digital_exec", "digital_completed", "transfer_exec", "transfer_bytes", "digital_util"]

/-- `load_csv(path)`: the reader has no header only for a file without lines. -/
def loadCsv (fs : Files) (p : Path) : Except Failure (List CsvRow) :=
  match fs.csvLines p with
  | [] => throw (.assertion (.noHeader p))
  | lines => pure (readerRows lines)

/-- `any(int(row[k]) > 0 for row in rows)`: the rows after the first positive
one are not read. -/
def anyPositive (lit : Literals) (k : String) : List CsvRow → Except PyError Bool
  | [] => pure false
  | row :: rows => do
    if 0 < (← intItem lit row k) then pure true else anyPositive lit k rows

/-- `check_cycle_log(path, require_transfer)`. -/
def checkCycleLog (lit : Literals) (fs : Files) (p : Path) (requireTransfer : Bool) :
    Except Failure Unit := do
  let rows ← loadCsv fs p
  let first :: _ := rows | throw (.assertion (.empty p))
  let missing := mandatoryCycleColumns.filter (· ∉ first.map (·.1))
  if missing ≠ [] then throw (.assertion (.missingColumns p missing))
  unless ← (anyPositive lit "digital_exec" rows).mapError .uncaught do
    throw (.assertion (.noDigitalExec p))
  if requireTransfer then
    unless ← (anyPositive lit "transfer_bytes" rows).mapError .uncaught do
      throw (.assertion (.noTransfer p))

/-- `check_results_csv(path)`: the missing names of `{"cycle", "chiplet_id"}`,
sorted. -/
def checkResultsCsv (fs : Files) (p : Path) : Except Failure Unit := do
  let rows ← loadCsv fs p
  let first :: _ := rows | throw (.assertion (.empty p))
  let missing := ["chiplet_id", "cycle"].filter (· ∉ first.map (·.1))
  if missing ≠ [] then throw (.assertion (.missingColumns p missing))

/-- `marker in contents`. -/
def containsText (contents marker : String) : Bool := decide (marker.data <:+: contents.data)

/-- `check_run_debug(path, require_host_dma, require_streaming)`: the text is
blank when `strip` removes all of it. -/
def checkRunDebug (cc : CharClasses) (fs : Files) (p : Path)
    (requireHostDma requireStreaming : Bool) : Except Failure Unit := do
  let contents := fs.text p
  if contents.data.all cc.isSpace then throw (.assertion (.empty p))
  if requireHostDma && !containsText contents "transfer_host2d" &&
      !containsText contents "transfer_d2host" then
    throw (.assertion (.missingHostDma p))
  if requireStreaming && !containsText contents "stream_batch_id" then
    throw (.assertion (.missingStreaming p))

/-- The `run_debug` entry of `artifacts`. -/
def runDebugPath (fs : Files) (runDir : Path) : Path :=
  if fs.pathExists (runDir.div "run_debug.log") then runDir.parent.div "run_debug.log"
  else runDir.div "run_debug.log"

/-- The `artifacts` dict of `validate`. -/
def artifacts (fs : Files) (runDir : Path) : List (String × Path) :=
  [("cycle_log", runDir.div "chiplet_cycle_log.csv"),
    ("results", runDir.div "chiplet_results.csv"), ("run_debug", runDebugPath fs runDir)]

/-- `validate(run_dir, args)`. -/
def validate (lit : Literals) (cc : CharClasses) (fs : Files) (runDir : Path) (args : Args) :
    Except Failure Unit := do
  let missing := (artifacts fs runDir).filter fun a => !fs.pathExists a.2
  if missing ≠ [] then throw (.fileNotFound missing)
  checkCycleLog lit fs (runDir.div "chiplet_cycle_log.csv") args.requireTransfer
  checkResultsCsv fs (runDir.div "chiplet_results.csv")
  checkRunDebug cc fs (runDebugPath fs runDir) args.requireHostDma args.requireStreaming

/-- `main(argv)`: the exit code, or the exception it lets through. -/
def main (lit : Literals) (cc : CharClasses) (fs : Files) (args : Args) : Except PyError Nat :=
  match validate lit cc fs args.runDir args with
  | .ok () => pure 0
  | .error (.assertion _) => pure 1
  | .error (.fileNotFound _) => pure 2
  | .error (.uncaught e) => throw e

/-! ## Which `run_debug.log` is read -/

end UPIMulator.Logs.Regression
