import UPIMulator.Python
import Mathlib.Logic.Relation
import Mathlib.Data.List.Nodup

/-!
# Stages and `append_stage`

Both versions of `generate_chiplet_model.py` build the command specification
as a Python list of `dict`s, one per stage, and append to it only through
`append_stage`.  `Stage` is that `dict` with one field per key the builders
write.  A key a builder leaves out is `none`, so a record literal below lists
the keys of the source's literal and nothing else.  The free-form `aux` and
`metadata` maps keep their keys and values as `AuxMap`.

`appendStage` is `append_stage`: it stores the stage at the end and returns
its position.  When the caller gives no dependency list, the stage depends on
the one before it, unless the list was empty; `withDeps` is the stored stage.

The section on dependencies names the properties of the stage lists.
`depsAt` reads the `deps` of a position, `TransDep` is its transitive closure
("a transitive dependency of"), and `DepsTopological` is the shape that makes
list order a topological order of an acyclic graph with stage `0` as its root.
-/

namespace UPIMulator.Chiplet

/-- The `"type"` of a stage, one constructor per string the builders write. -/
inductive StageType
  | tokenPrep | transfer | rramLinear | attention | softmax | postprocess
  | moeGating | moeLinear | moeMerge
  deriving DecidableEq, Repr

/-- The `"direction"` of a `transfer` stage. -/
inductive Direction
  | hostToDigital | digitalToRram | rramToDigital | digitalToHost
  deriving DecidableEq, Repr

/-- A value of a free-form `aux` or `metadata` map. -/
inductive AuxValue
  | int (value : Int)
  | str (value : String)
  | ints (values : List Int)
  deriving DecidableEq, Repr

/-- An `aux` or `metadata` map, its keys in the order the source writes them. -/
abbrev AuxMap := List (String × AuxValue)

/-- One entry of the `"experts"` list of a `moe_linear` stage. -/
structure Expert where
  name : String
  chiplet : Int
  activationBytes : Int
  weightBytes : Int
  executeLatency : Int
  metadata : Option AuxMap := none
  chunkIndex : Option Nat := none
  deriving DecidableEq, Repr

/-- One stage `dict`.  Each field is the key of the same name in snake case. -/
structure Stage where
  type : StageType
  name : String
  direction : Option Direction := none
  tokens : Option Int := none
  features : Option Int := none
  rows : Option Int := none
  cols : Option Int := none
  k : Option Int := none
  bytes : Option Int := none
  latency : Option Int := none
  chiplet : Option Int := none
  queue : Option Int := none
  bufferId : Option Int := none
  activationBytes : Option Int := none
  weightBytes : Option Int := none
  pulseCount : Option Int := none
  adcSamples : Option Int := none
  preCycles : Option Int := none
  postCycles : Option Int := none
  parallel : Option Bool := none
  randomizeExperts : Option Bool := none
  nonlinearKind : Option String := none
  hostLoadKind : Option String := none
  hostStoreKind : Option String := none
  experts : Option (List Expert) := none
  aux : Option AuxMap := none
  metadata : Option AuxMap := none
  deps : Option (List Nat) := none
  deriving DecidableEq

/-- The arguments of `build_moe_sequence`, the same in both versions.  The
`float` latency scale is an exact rational. -/
structure BuildArgs where
  layers : Int
  hiddenSize : Int
  intermediateSize : Int
  numExperts : Int
  expertsPerTok : Int
  seqLength : Int
  batch : Int
  dtypeBytes : Int
  digitalChiplets : Int
  rramChiplets : Int
  digitalLatencyScale : ℚ
  chunkBytes : Int

/-! ## `append_stage` -/

/-- The stage that `append_stage` stores when the list has `len` entries. -/
def withDeps (len : Nat) (stage : Stage) : Option (List Nat) → Stage
  | none => if len = 0 then stage else { stage with deps := some [len - 1] }
  | some depends => { stage with deps := some depends }

/-- `append_stage(sequence, stage, depends)`: the new list and the position
of the stage in it. -/
def appendStage (sequence : List Stage) (stage : Stage)
    (depends : Option (List Nat) := none) : List Stage × Nat :=
  (sequence ++ [withDeps sequence.length stage depends], sequence.length)

@[simp] theorem appendStage_fst (sequence : List Stage) (stage : Stage)
    (depends : Option (List Nat)) :
    (appendStage sequence stage depends).1 =
      sequence ++ [withDeps sequence.length stage depends] := rfl

@[simp] theorem appendStage_snd (sequence : List Stage) (stage : Stage)
    (depends : Option (List Nat)) :
    (appendStage sequence stage depends).2 = sequence.length := rfl

@[simp] theorem withDeps_some (len : Nat) (stage : Stage) (depends : List Nat) :
    withDeps len stage (some depends) = { stage with deps := some depends } := rfl

/-- An implicit dependency on a non-empty list is the stage before. -/
theorem withDeps_none_of_pos {len : Nat} (stage : Stage) (h : 0 < len) :
    withDeps len stage none = { stage with deps := some [len - 1] } :=
  if_neg (by omega)

/-! ## Dependencies -/

/-- The `deps` of position `i`; empty when the stage has none or `i` is out
of range. -/
def depsAt (sequence : List Stage) (i : Nat) : List Nat :=
  (sequence[i]?.bind Stage.deps).getD []

/-- `j` is a transitive dependency of stage `i`. -/
def TransDep (sequence : List Stage) : Nat → Nat → Prop :=
  Relation.TransGen (fun i j => j ∈ depsAt sequence i)

/-- Every stage carries a `deps` list of distinct earlier positions, empty at
position `0` only. -/
def DepsTopological (sequence : List Stage) : Prop :=
  ∀ i (h : i < sequence.length), ∃ ds, sequence[i].deps = some ds ∧
    ds.Nodup ∧ (∀ d ∈ ds, d < i) ∧ (ds = [] ↔ i = 0)

/-- In a topologically ordered list a transitive dependency is earlier. -/
theorem TransDep.lt {sequence : List Stage} (htop : DepsTopological sequence)
    {i j : Nat} (h : TransDep sequence i j) : j < i := by
  have hstep : ∀ {a b}, b ∈ depsAt sequence a → b < a := by
    intro a b hb
    unfold depsAt at hb
    rcases hget : sequence[a]? with _ | s
    · simp [hget] at hb
    · obtain ⟨ha, rfl⟩ := List.getElem?_eq_some_iff.mp hget
      obtain ⟨ds, hds, -, hlt, -⟩ := htop a ha
      simp only [hget, Option.some_bind, hds, Option.getD_some] at hb
      exact hlt b hb
  induction h with
  | single hb => exact hstep hb
  | tail _ hb ih => exact lt_trans (hstep hb) ih

end UPIMulator.Chiplet
