/-
The recorder: a log of the pixels of beauty that each merge has changed.

It grows only while it is active.
-/
import RenderFold.PixelMask

namespace RenderFold

/-- The record of one merge: the changed pixels, and whether it belonged to a coarse pass. -/
structure RecordEntry where
  pixels : PixelMask
  coarse : Bool
deriving DecidableEq

/-- A log of merges, oldest first. -/
structure Recorder where
  active : Bool
  entries : List RecordEntry
deriving DecidableEq

namespace Recorder

def new : Recorder := ⟨false, []⟩

def start (r : Recorder) : Recorder := { r with active := true }

def stop (r : Recorder) : Recorder := { r with active := false }

def reset (r : Recorder) : Recorder := { r with entries := [] }

/-- Append an entry while recording. Returns whether it was recorded. -/
def add (r : Recorder) (pixels : PixelMask) (coarse : Bool) : Bool × Recorder :=
  if r.active then (true, { r with entries := r.entries ++ [⟨pixels, coarse⟩] }) else (false, r)

end Recorder

end RenderFold
