/-
Tiles: sets of pixels of an 8 x 8 block, one bit per pixel.

Bit `8 * y + x` of a tile stands for the pixel in column `x` and row `y`. Membership, insertion,
counting and listing are stated on pixel ids; `corner` is the part of a tile that lies inside an
image. A tile is printed as eight rows, the top row first, and so is a table of pixel ids.
-/
import RenderFold.Fault

namespace RenderFold

/-- Edge length of a tile in pixels. -/
def tileSize : UInt32 := 8

def tilePixels : Nat := 64

/-- The position of a pixel inside a tile, row by row. -/
abbrev PixelId := Fin 64

namespace PixelId

def column (p : PixelId) : Nat := p.val % 8

def row (p : PixelId) : Nat := p.val / 8

def ofFin (x y : Fin 8) : PixelId := ⟨y.val * 8 + x.val, by omega⟩

/-- The pixel of its tile at which an image coordinate falls. -/
def wrap (x y : UInt32) : PixelId := ⟨y.toNat % 8 * 8 + x.toNat % 8, by omega⟩

/-- The pixel in column `x` and row `y`, both of which must be below eight. -/
def ofCoords (x y : UInt32) : Except Fault PixelId :=
  if x < tileSize ∧ y < tileSize then .ok (wrap x y) else .error .precondition

/-- Every pixel id in ascending order. -/
def all : List PixelId := List.finRange 64

end PixelId

/-- A set of pixels of one tile. -/
abbrev Tile := UInt64

namespace Tile

def full : Tile := 0xffffffffffffffff

def single (p : PixelId) : Tile := 1 <<< UInt64.ofNat p.val

def has (t : Tile) (p : PixelId) : Bool := (t >>> UInt64.ofNat p.val) &&& 1 != 0

def insert (t : Tile) (p : PixelId) : Tile := t ||| single p

def union (s t : Tile) : Tile := s ||| t

def inter (s t : Tile) : Tile := s &&& t

def card (t : Tile) : Nat := PixelId.all.countP (has t)

/-- The tile of the pixels that satisfy a test. -/
def ofPred (f : PixelId → Bool) : Tile :=
  PixelId.all.foldl (fun t p => if f p then insert t p else t) 0

/-- A tile without its lowest pixel: taking one away borrows from the lowest set bit only. -/
def dropLowest (t : Tile) : Tile := t &&& (t - 1)

/-- The lowest pixel of a tile that is not empty. -/
def lowest (t : Tile) : PixelId := Fin.ofNat 64 (t ^^^ dropLowest t).log2.toNat

theorem dropLowest_toNat_lt {t : Tile} (h : t ≠ 0) : (dropLowest t).toNat < t.toNat := by
  have hpos : 0 < t.toNat := by
    rcases Nat.eq_zero_or_pos t.toNat with hz | hp
    · exact absurd (UInt64.toNat_inj.1 hz) h
    · exact hp
  have hle : (dropLowest t).toNat ≤ (t - 1).toNat := by
    rw [dropLowest, UInt64.toNat_and]
    exact Nat.and_le_right
  have hone : (1 : UInt64) ≤ t := by
    rw [UInt64.le_iff_toNat_le]
    exact hpos
  have hsub : (t - 1).toNat = t.toNat - 1 := UInt64.toNat_sub_of_le t 1 hone
  omega

/-- The set pixels in ascending order, found by taking away the lowest one until none is left. -/
def ids (t : Tile) : List PixelId :=
  if _h : t = 0 then [] else lowest t :: ids (dropLowest t)
termination_by t.toNat
decreasing_by exact dropLowest_toNat_lt ‹_›

/-- The pixels of the first `cols` columns of the first `rows` rows. -/
def corner (cols rows : Nat) : Tile :=
  let line : Tile := 0xff >>> UInt64.ofNat (8 - min cols 8)
  (List.range (min rows 8)).foldl (fun t y => t ||| line <<< UInt64.ofNat (8 * y)) 0

end Tile

/-! ### Printed form -/

/-- Octal, right-aligned in two columns; longer numerals are written in full. -/
def Numeral.octal (n : Nat) : String :=
  String.ofList ((Nat.toDigits 8 n).leftpad 2 ' ')

def Numeral.hex64 (n : UInt64) : String :=
  String.ofList ((Nat.toDigits 16 n.toNat).leftpad 16 '0')

/-- Eight rows of eight cells, the highest row first, each row indented by two blanks. -/
def renderRows (cell : PixelId → String) : String :=
  let row (y : Fin 8) : String :=
    "  " ++ String.join ((List.finRange 8).map fun x => cell (PixelId.ofFin x y)) ++ "\n"
  String.join ((List.finRange 8).reverse.map row)

/-- A tile with its word in hexadecimal; set pixels show their id in octal. -/
def Tile.render (t : Tile) : String :=
  "mask 0x" ++ Numeral.hex64 t ++ " \x7b\n"
    ++ renderRows (fun p => if Tile.has t p then Numeral.octal p.val ++ " " else " . ")
    ++ "\x7d"

end RenderFold
