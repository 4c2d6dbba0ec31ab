/-
Layers: the values of an image tile by tile, with or without sample counts, and the set of its
pixels that hold data.

`Layer.WellSized` is what the operations on single pixels keep and what merging checks: one value,
and one count if there are counts, for every slot of the grid. The number of slots is not bounded
here; `Layer.lengths_held` says for which images 64 bits hold it.
-/
import RenderFold.PixelMask

namespace RenderFold

variable {V : Type}

/-- Values, optional sample counts and active pixels of one image. -/
structure Layer (V : Type) where
  values : Array V
  counts : Option (Array UInt32)
  mask : PixelMask

namespace Layer

/-- One value, and one count if there are counts, for every slot of the grid. -/
def WellSized (l : Layer V) : Prop :=
  l.values.size = l.mask.grid.slotCount ∧ ∀ c ∈ l.counts, c.size = l.mask.grid.slotCount

/-- A layer of the given size in which every value is `blank` and no pixel holds data. -/
def filled (counted : Bool) (width height : UInt32) (blank : V) : Layer V :=
  let slots := (TileGrid.ofSize width height).slotCount
  { values := Array.replicate slots blank
    counts := if counted then some (Array.replicate slots 0) else none
    mask := .blank width height }

def empty (counted : Bool) : Layer V where
  values := #[]
  counts := if counted then some #[] else none
  mask := .empty

def isCounted (l : Layer V) : Bool := l.counts.isSome

def grid (l : Layer V) : TileGrid := l.mask.grid

/-- Whether the layer has the given size and a value for every slot. -/
def hasSize (l : Layer V) (width height : UInt32) : Bool :=
  l.mask.width = width && l.mask.height = height && l.values.size = l.grid.slotCount

/-- A layer of the given size: this one if it has that size, otherwise a fresh one. Returns whether
it is a fresh one. -/
def resize (l : Layer V) (width height : UInt32) (blank : V) : Bool × Layer V :=
  if l.hasSize width height then (false, l)
  else (true, filled l.isCounted width height blank)

/-- Give every value the same content, set the counts to zero and take away every pixel. -/
def clear (l : Layer V) (blank : V) : Layer V where
  values := Array.replicate l.values.size blank
  counts := l.counts.map fun c => Array.replicate c.size 0
  mask := l.mask.clear

/-- Store a sample at an image coordinate; the count is dropped where no counts are kept. Returns
whether the coordinate lies in the image; if not, nothing changes. -/
def setPixel (l : Layer V) (x y : UInt32) (value : V) (count : UInt32) : Bool × Layer V :=
  match l with
  | ⟨values, counts, mask⟩ =>
      match mask.grid.slot x y with
      | none => (false, ⟨values, counts, mask⟩)
      | some i =>
          (true,
            { values := values.setIfInBounds i value
              counts := counts.map fun c => c.setIfInBounds i count
              mask := (mask.insert x y).2 })

/-- The value and the count at an image coordinate; the count is zero where no counts are kept. -/
def pixel? (l : Layer V) (x y : UInt32) : Option (V × UInt32) := do
  let i ← l.grid.slot x y
  let value ← l.values[i]?
  return (value, (l.counts.bind fun counts => counts[i]?).getD 0)

end Layer

end RenderFold
