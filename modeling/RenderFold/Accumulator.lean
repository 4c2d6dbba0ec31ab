/-
Accumulators: options and a recorder, with which frames are merged.

`Accumulator.merge` comes by parts and tiles in order. `merge_eq_mergeBy` is about all other orders
that the options allow.
-/
import RenderFold.Recorder.File
import RenderFold.Frame.Absorb
import RenderFold.Options

namespace RenderFold

/-- Options that were accepted, and the record of the merges made with them. -/
structure Accumulator where
  options : Options
  recorder : Recorder

namespace Accumulator

/-- An accumulator with an idle recorder. -/
def new (options : Options) : Except MergeError Accumulator := do
  options.validate
  return ⟨options, .new⟩

structure Merged where
  answer : Except MergeError Tally
  accumulator : Accumulator
  dst : Frame
  report : ChangeSet

/-- Merge `src` into `dst`, and record the merge if the recorder is active. -/
def merge (a : Accumulator) (src dst : Frame) (report : ChangeSet) (coarse : Bool) :
    Except Fault Merged := do
  let done ← dst.absorb src report a.recorder coarse
  return ⟨done.answer, { a with recorder := done.recorder }, done.dst, done.report⟩

end Accumulator

end RenderFold
