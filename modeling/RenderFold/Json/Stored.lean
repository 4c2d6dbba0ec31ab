/-
The compact JSON texts of stored values: options, grids and names.
-/
import RenderFold.Json.Tree
import RenderFold.Frame.Aov
import RenderFold.TileGrid

namespace RenderFold

namespace Json

/-- A name in quotes; the names stored here need no escapes. -/
def quoted (name : String) : String := "\"" ++ name ++ "\""

def member (name value : String) : String := quoted name ++ ":" ++ value

def written (members : List String) : String :=
  "\x7b" ++ ",".intercalate members ++ "\x7d"

def boolText (b : Bool) : String := if b then "true" else "false"

end Json

def PixelFormat.ofJson? (j : Json) : Option PixelFormat := do
  let name ← j.asName?
  PixelFormat.all.find? fun f => f.name = name

def PixelFormat.toJsonText (f : PixelFormat) : String := Json.quoted f.name

def Intrinsic.ofJson? (j : Json) : Option Intrinsic := do
  let name ← j.asName?
  Intrinsic.all.find? fun r => r.name = name

def Intrinsic.toJsonText (r : Intrinsic) : String := Json.quoted r.name

/-- The fields of a stored grid, in order. -/
def TileGrid.fieldNames : List String :=
  ["width", "height", "aligned_width", "aligned_height", "num_tiles_x", "num_tiles_y"]

/-- The grid that a value describes; every field must be there. -/
def TileGrid.ofJson? (j : Json) : Option TileGrid := do
  match ← j.fields? fieldNames with
  | [some width, some height, some paddedWidth, some paddedHeight, some columns, some rows] =>
      let word (v : Json) : Option UInt32 := (v.asNatBelow? range32).map UInt32.ofNat
      let long (v : Json) : Option UInt64 := (v.asNatBelow? range64).map UInt64.ofNat
      return ⟨← word width, ← word height, ← long paddedWidth, ← long paddedHeight,
        ← word columns, ← word rows⟩
  | _ => none

def TileGrid.toJsonText (g : TileGrid) : String :=
  Json.written
    [Json.member "width" (toString g.width), Json.member "height" (toString g.height),
      Json.member "aligned_width" (toString g.paddedWidth),
      Json.member "aligned_height" (toString g.paddedHeight),
      Json.member "num_tiles_x" (toString g.columns), Json.member "num_tiles_y" (toString g.rows)]

end RenderFold
