/-
Sets of pixels of one image, stored as one tile mask per tile of its grid.

The number of tiles is part of the type. The padding bits of ragged edge tiles are storage like any
other: the operations on whole tiles reach them, the operations on image coordinates do not.
-/
import RenderFold.TileGrid

namespace RenderFold

/-- A set of pixels of an image. -/
@[ext] structure PixelMask where
  width : UInt32
  height : UInt32
  tiles : Array Tile
  size_tiles : tiles.size = (TileGrid.ofSize width height).tileCount
deriving DecidableEq

namespace PixelMask

/-- The empty set on an image of the given size. -/
def blank (width height : UInt32) : PixelMask where
  width := width
  height := height
  tiles := Array.replicate (TileGrid.ofSize width height).tileCount 0
  size_tiles := by simp

def empty : PixelMask := blank 0 0

instance : Inhabited PixelMask := ⟨empty⟩

def grid (m : PixelMask) : TileGrid := .ofSize m.width m.height

def tileCount (m : PixelMask) : Nat := m.tiles.size

def sameSize (a b : PixelMask) : Bool := a.width = b.width && a.height = b.height

/-- Whether the image has pixels. -/
def isSized (m : PixelMask) : Bool := !m.grid.isEmpty

/-! ### Whole masks -/

/-- A mask of the given size: this one if it has that size, the empty set otherwise. -/
def resize (m : PixelMask) (width height : UInt32) : PixelMask :=
  if m.width = width ∧ m.height = height then m else blank width height

def clear (m : PixelMask) : PixelMask :=
  { m with tiles := Array.replicate m.tiles.size 0, size_tiles := by simp [m.size_tiles] }

def fill (m : PixelMask) (t : Tile) : PixelMask :=
  { m with tiles := Array.replicate m.tiles.size t, size_tiles := by simp [m.size_tiles] }

/-- Clear the flagged tiles; there must be one flag per tile. -/
def clearTiles (m : PixelMask) (flags : Array Bool) : Except Fault PixelMask :=
  if flags.size = m.tiles.size then
    .ok { m with
      tiles := m.tiles.mapIdx fun i t => if flags[i]?.getD false then 0 else t
      size_tiles := by simp [m.size_tiles] }
  else .error .precondition

/-- Whether there is one flag per tile and every flagged tile is clear. -/
def flaggedClear (m : PixelMask) (flags : Array Bool) : Bool :=
  flags.size = m.tiles.size && (m.tiles.zip flags).all fun (t, flag) => !flag || t = 0

/-- Unite with a mask of the same size. Returns whether the sizes agree; if not, nothing changes. -/
def union (a b : PixelMask) : Bool × PixelMask :=
  if h : a.width = b.width ∧ a.height = b.height then
    (true, { a with
      tiles := a.tiles.zipWith Tile.union b.tiles
      size_tiles := by simp [a.size_tiles, b.size_tiles, h.1, h.2] })
  else (false, a)

/-- Become a copy of another mask: take its size and then its tiles, which must be equally many. -/
def copyFrom (m other : PixelMask) : Except Fault PixelMask :=
  let sized := m.resize other.width other.height
  if h : other.tiles.size = sized.tiles.size then
    .ok { sized with tiles := other.tiles, size_tiles := h.trans sized.size_tiles }
  else .error .precondition

/-! ### Single tiles -/

/-- The mask of a tile, the empty one past the last tile. -/
def tileD (m : PixelMask) (i : Nat) : Tile := m.tiles[i]?.getD 0

/-- Replace the mask of a tile; past the last tile nothing changes. -/
def putTile (m : PixelMask) (i : Nat) (t : Tile) : PixelMask :=
  { m with tiles := m.tiles.setIfInBounds i t, size_tiles := by simp [m.size_tiles] }

/-- The mask of one of the tiles. -/
def tile (m : PixelMask) (i : Nat) : Except Fault Tile :=
  match m.tiles[i]? with
  | some t => .ok t
  | none => .error .outOfRange

/-- Replace the mask of one of the tiles. -/
def setTile (m : PixelMask) (i : Nat) (t : Tile) : Except Fault PixelMask :=
  if i < m.tiles.size then .ok (m.putTile i t) else .error .outOfRange

def orTile (m : PixelMask) (i : Nat) (t : Tile) : Except Fault PixelMask := do
  m.setTile i (Tile.union (← m.tile i) t)

/-! ### Single pixels -/

/-- Whether an image coordinate lies in the image and is set. -/
def has (m : PixelMask) (x y : UInt32) : Bool :=
  match m.grid.locate x y with
  | some (i, p) => Tile.has (m.tileD i) p
  | none => false

/-- Set an image coordinate. Returns whether it lies in the image; if not, nothing changes. -/
def insert (m : PixelMask) (x y : UInt32) : Bool × PixelMask :=
  match m.grid.locate x y with
  | some (i, p) => (true, m.putTile i (Tile.insert (m.tileD i) p))
  | none => (false, m)

/-! ### Listing -/

/-- The non-empty tiles below a bound, with their numbers, in front of a given list. -/
def activeBelow (tiles : Array Tile) : Nat → List (Nat × Tile) → List (Nat × Tile)
  | 0, rest => rest
  | i + 1, rest =>
      let t := tiles[i]?.getD 0
      activeBelow tiles i (if t = 0 then rest else (i, t) :: rest)

/-- The non-empty tiles with their numbers, in ascending order. -/
def activeTiles (m : PixelMask) : List (Nat × Tile) := activeBelow m.tiles m.tiles.size []

def activeTileCount (m : PixelMask) : Nat := m.activeTiles.length

def card (m : PixelMask) : Nat := m.activeTiles.foldr (fun e n => Tile.card e.2 + n) 0

/-- Pass the slot of every pixel to `f`, in ascending order, and count the calls. -/
def visit {σ : Type} (f : σ → Nat → σ) (init : σ) (m : PixelMask) : σ × Nat :=
  m.activeTiles.foldl
    (fun acc e =>
      (Tile.ids e.2).foldl (fun acc p => (f acc.1 (TileGrid.slotOf (e.1, p)), acc.2 + 1)) acc)
    (init, 0)

/-! ### Printed forms -/

/-- Sizes and population on one line. -/
def summary (m : PixelMask) : String :=
  let g := m.grid
  "ActivePixels \x7b w:" ++ toString g.width ++ " h:" ++ toString g.height
    ++ " alignedW:" ++ toString g.paddedWidth ++ " alignedH:" ++ toString g.paddedHeight
    ++ " tilesX:" ++ toString g.columns ++ " tilesY:" ++ toString g.rows
    ++ " tiles:" ++ toString m.tileCount ++ " activeTiles:" ++ toString m.activeTileCount
    ++ " activePixels:" ++ toString m.card ++ " \x7d"

/-- One sign per tile, a star for a tile with pixels, each row ended by a line break. -/
def tileMap (m : PixelMask) : String :=
  let columns := m.grid.columns.toNat
  let row (r : Nat) : String :=
    String.join ((List.range columns).map fun c =>
      if m.tileD (r * columns + c) = 0 then ". " else "* ") ++ "\n"
  String.join ((List.range m.grid.rows.toNat).reverse.map row)

end PixelMask

end RenderFold
