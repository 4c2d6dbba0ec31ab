/-
The grid of tiles that covers an image.

An image is padded to whole tiles on the right and on the top. Tiles are numbered row by row, and
the values of an image are stored tile by tile: the pixel `p` of tile `t` has slot `64 * t + p`.

Every size exists twice: exactly, as a natural number, and checked against the width in which it
is held. For a grid built by `ofSize` the checks never fail; a grid given by its six fields may be
inconsistent, and then they can.
-/
import RenderFold.Tile

namespace RenderFold

/-- An image size together with its padded size and its number of tile columns and rows. -/
structure TileGrid where
  width : UInt32
  height : UInt32
  paddedWidth : UInt64
  paddedHeight : UInt64
  columns : UInt32
  rows : UInt32
deriving DecidableEq, Repr

namespace TileGrid

def tilesFor (side : UInt32) : UInt32 :=
  side / tileSize + if side % tileSize = 0 then 0 else 1

def ofSize (width height : UInt32) : TileGrid where
  width := width
  height := height
  paddedWidth := (tilesFor width).toUInt64 * tileSize.toUInt64
  paddedHeight := (tilesFor height).toUInt64 * tileSize.toUInt64
  columns := tilesFor width
  rows := tilesFor height

def isEmpty (g : TileGrid) : Bool := g.width = 0 || g.height = 0

/-- Whether a coordinate lies in the unpadded image. -/
def contains (g : TileGrid) (x y : UInt32) : Bool := x < g.width && y < g.height

def tileCount (g : TileGrid) : Nat := g.columns.toNat * g.rows.toNat

/-- The number of slots of a value stored per pixel. -/
def slotCount (g : TileGrid) : Nat := g.tileCount * tilePixels

/-- The number of the tile in a tile column and a tile row. -/
def tileIndex (g : TileGrid) (column row : UInt32) : Nat :=
  row.toNat * g.columns.toNat + column.toNat

/-- The tile of an image coordinate and the pixel in it; nothing outside the unpadded image. -/
def locate (g : TileGrid) (x y : UInt32) : Option (Nat × PixelId) :=
  if g.contains x y then some (g.tileIndex (x / tileSize) (y / tileSize), .wrap x y) else none

/-- The slot of a pixel of a tile. -/
def slotOf (place : Nat × PixelId) : Nat := place.1 * tilePixels + place.2.val

/-- The slot of an image coordinate; nothing outside the unpadded image. -/
def slot (g : TileGrid) (x y : UInt32) : Option Nat := (g.locate x y).map slotOf

/-! ### Sizes held in machine words -/

/-- The number of tiles, held in 64 bits. -/
def tileCount64 (g : TileGrid) : Except Fault Nat := size64 g.tileCount

/-- The number of slots, held in 64 bits. -/
def slotCount64 (g : TileGrid) : Except Fault Nat := do
  size64 ((← g.tileCount64) * tilePixels)

/-- The number of a tile, held in 64 bits. -/
def tileIndex64 (g : TileGrid) (column row : UInt32) : Except Fault Nat := do
  size64 ((← size64 (row.toNat * g.columns.toNat)) + column.toNat)

/-- The place of an image coordinate, its tile number held in 64 bits. -/
def locate64 (g : TileGrid) (x y : UInt32) : Except Fault (Option (Nat × PixelId)) :=
  if g.contains x y then do
    return some (← g.tileIndex64 (x / tileSize) (y / tileSize), .wrap x y)
  else .ok none

/-- The slot of an image coordinate, held in 64 bits. -/
def slot64 (g : TileGrid) (x y : UInt32) : Except Fault (Option Nat) := do
  match ← g.locate64 x y with
  | none => return none
  | some (tile, p) => return some (← size64 ((← size64 (tile * tilePixels)) + p.val))

/-- The pixels of tile `t` that lie in the unpadded image.

The tile column and row are cut to 32 bits, and the coordinates of the tile's corner must fit 32
bits as well. -/
def inside (g : TileGrid) (t : Nat) : Except Fault Tile :=
  if g.columns = 0 then .ok 0
  else do
    let column := t % g.columns.toNat % range32
    let row := t / g.columns.toNat % range32
    let left ← size32 (column * tileSize.toNat)
    let bottom ← size32 (row * tileSize.toNat)
    return Tile.corner (min (g.width.toNat - left) 8) (min (g.height.toNat - bottom) 8)

end TileGrid

end RenderFold
