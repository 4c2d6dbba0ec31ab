/-
Merging a source layer into a destination layer, with a report of the pixels that changed.

First every condition is checked, in a fixed order, and a refusal leaves destination and report
alone. Then the tiles are merged one after another: the source mask is cut to the unpadded image,
the rule of `Block` is applied, the pixels taken are added to the mask of the destination and
become the tile of the report. A step concerns one tile only, so the order of the tiles is free.
-/
import RenderFold.Layer
import RenderFold.Layer.Block
import RenderFold.MergeError

namespace RenderFold

variable {V : Type} [DecidableEq V]

def PixelMask.size (m : PixelMask) : ImageSize := ⟨m.width, m.height⟩

namespace Layer

/-- Refuse an array that does not have the wanted length. -/
def checkLength (part : LayerPart) (got want : Nat) : Except MergeError Unit :=
  if got = want then .ok () else .error (.invalid (.length part got want))

/-- The conditions under which `src` can be merged into `dst`, in the order in which they are
reported. -/
def check (dst src : Layer V) : Except MergeError Unit :=
  if !dst.mask.sameSize src.mask then .error (.sizes src.mask.size dst.mask.size)
  else do
    let want := dst.mask.tileCount * tilePixels
    checkLength .dstValues dst.values.size want
    checkLength .srcValues src.values.size want
    match dst.counts, src.counts with
    | some dstCounts, some srcCounts =>
        checkLength .dstCounts dstCounts.size want
        checkLength .srcCounts srcCounts.size want
    | none, none => .ok ()
    | _, _ => .error (.unsupported .countsDisagree)

/-- A merge under way: the destination, the report and the number of pixels changed so far. -/
structure Progress (V : Type) where
  dst : Layer V
  report : PixelMask
  changed : Nat

def absorbCounted (tile : Nat) (held mask : Tile) (values : Array V) (counts : Array UInt32)
    (srcValues : Array V) (srcCounts : Array UInt32) :
    Except Fault (Array V × Array UInt32 × Tile × Tile) := do
  let dstBlock : CountedBlock V := ⟨← Block.slice values tile, ← Block.slice counts tile⟩
  let srcBlock : CountedBlock V := ⟨← Block.slice srcValues tile, ← Block.slice srcCounts tile⟩
  if mask = 0 then return (values, counts, held, 0)
  let (merged, taken) := dstBlock.absorb srcBlock mask
  return (Block.store values tile merged.values, Block.store counts tile merged.counts,
    Tile.union held taken, taken)

def absorbUncounted (tile : Nat) (held mask : Tile) (values srcValues : Array V) :
    Except Fault (Array V × Tile × Tile) := do
  let dstBlock ← Block.slice values tile
  let srcBlock ← Block.slice srcValues tile
  if mask = 0 then return (values, held, 0)
  let (merged, taken) := Block.absorb dstBlock held srcBlock mask
  return (Block.store values tile merged, Tile.union held taken, taken)

def absorbTile (src : Layer V) (progress : Progress V) (tile : Nat) :
    Except Fault (Progress V) :=
  match progress with
  | ⟨⟨values, counts, mask⟩, report, changed⟩ => do
      let inside ← mask.grid.inside tile
      let wanted := Tile.inter (← src.mask.tile tile) inside
      let held ← mask.tile tile
      match counts, src.counts with
      | some dstCounts, some srcCounts =>
          let (values, dstCounts, held, taken) ←
            absorbCounted tile held wanted values dstCounts src.values srcCounts
          return ⟨⟨values, some dstCounts, ← mask.setTile tile held⟩, ← report.setTile tile taken,
            changed + Tile.card taken⟩
      | counts, _ =>
          let (values, held, taken) ← absorbUncounted tile held wanted values src.values
          return ⟨⟨values, counts, ← mask.setTile tile held⟩, ← report.setTile tile taken,
            changed + Tile.card taken⟩

def absorbTiles (src : Layer V) (tiles : List Nat) (progress : Progress V) :
    Except Fault (Progress V) :=
  tiles.foldlM (absorbTile src) progress

/-- What a merge leaves behind: its answer, the destination and the report. -/
structure Absorbed (L : Type) where
  answer : Except MergeError Nat
  dst : L
  report : PixelMask

/-- Merge `src` into `dst`, with the tiles in the given order. On success every tile of the report
is overwritten and the answer is the number of changed pixels; a refused merge changes nothing. -/
def absorbInOrder (tiles : List Nat) (dst src : Layer V) (report : PixelMask) :
    Except Fault (Absorbed (Layer V)) :=
  match dst.check src with
  | .error e => .ok ⟨.error e, dst, report⟩
  | .ok () => do
      let report := report.resize dst.mask.width dst.mask.height
      let done ← absorbTiles src tiles ⟨dst, report, 0⟩
      return ⟨.ok done.changed, done.dst, done.report⟩

/-- Merge `src` into `dst`, one tile after another. -/
def absorb (dst src : Layer V) (report : PixelMask) : Except Fault (Absorbed (Layer V)) :=
  dst.absorbInOrder (List.range dst.mask.tileCount) src report

end Layer

end RenderFold
