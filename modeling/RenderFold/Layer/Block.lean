/-
The rule by which one tile of a source is merged into one tile of a destination.

A block holds one entry per pixel of a tile. Only pixels of the given source mask are looked at.
With counts, a source pixel without samples is passed over, and any other is taken as soon as its
value or its count differs. Without counts, a pixel is taken if the destination has none there yet
or another value. The result is the set of pixels that were taken.
-/
import RenderFold.Tile

namespace RenderFold

variable {α V : Type} [DecidableEq V]

/-- One entry per pixel of a tile. -/
abbrev Block (α : Type) := Vector α 64

namespace Block

def ofArray (a : Array α) : Except Fault (Block α) :=
  if h : a.size = 64 then .ok ⟨a, h⟩ else .error .precondition

/-- The entries of the tile with the given number, cut out of an array that is stored tile by
tile. -/
def slice (a : Array α) (tile : Nat) : Except Fault (Block α) :=
  if h : (tile + 1) * 64 ≤ a.size then
    .ok ⟨a.extract (tile * 64) ((tile + 1) * 64), by simp; omega⟩
  else .error .outOfRange

/-- Write the entries of a tile back into an array that is stored tile by tile. -/
def store (a : Array α) (tile : Nat) (b : Block α) : Array α :=
  PixelId.all.foldl (fun a p => a.setIfInBounds (tile * 64 + p.val) b[p]) a

/-- Take the source value of a pixel that holds no value yet or a different one. -/
def takeFresh (held : Tile) (src : Block V) (acc : Block V × Tile) (p : PixelId) :
    Block V × Tile :=
  if Tile.has held p ∧ acc.1[p] = src[p] then acc
  else (acc.1.set p src[p], Tile.insert acc.2 p)

/-- Merge a tile without counts; `held` are the pixels that the destination has. Returns the new
destination and the pixels taken. -/
def absorb (dst : Block V) (held : Tile) (src : Block V) (mask : Tile) : Block V × Tile :=
  (Tile.ids mask).foldl (takeFresh held src) (dst, 0)

end Block

structure CountedBlock (V : Type) where
  values : Block V
  counts : Block UInt32

namespace CountedBlock

/-- Take value and count of a source pixel that has samples and differs. -/
def takeSampled (src : CountedBlock V) (acc : CountedBlock V × Tile) (p : PixelId) :
    CountedBlock V × Tile :=
  match acc with
  | (⟨values, counts⟩, taken) =>
      if src.counts[p] = 0 then (⟨values, counts⟩, taken)
      else if values[p] = src.values[p] ∧ counts[p] = src.counts[p] then (⟨values, counts⟩, taken)
      else
        (⟨values.set p src.values[p], counts.set p src.counts[p]⟩, Tile.insert taken p)

/-- Merge a tile with counts. Returns the new destination and the pixels taken. -/
def absorb (dst src : CountedBlock V) (mask : Tile) : CountedBlock V × Tile :=
  (Tile.ids mask).foldl (takeSampled src) (dst, 0)

end CountedBlock

end RenderFold
