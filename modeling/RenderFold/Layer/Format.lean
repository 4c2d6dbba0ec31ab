/-
Layers whose channel layout is chosen when the program runs.
-/
import RenderFold.Layer.Absorb

namespace RenderFold

/-- A layer together with the layout of its values. -/
structure FormatLayer where
  format : PixelFormat
  layer : Layer (Texel format.channels)

namespace FormatLayer

def empty : FormatLayer := ⟨.float, .empty true⟩

def ofValues (values : PixelArray) (counts : Option (Array UInt32)) (mask : PixelMask) :
    FormatLayer :=
  ⟨values.format, ⟨values.values, counts, mask⟩⟩

def values (l : FormatLayer) : PixelArray := ⟨l.format, l.layer.values⟩

def mask (l : FormatLayer) : PixelMask := l.layer.mask

/-- A counted layer of the given size whose values are the leading channels of a colour. -/
def filled (format : PixelFormat) (width height : UInt32) (colour : Rgba) : FormatLayer :=
  let slots := (TileGrid.ofSize width height).slotCount
  ofValues (.filled format slots colour) (some (Array.replicate slots 0)) (.blank width height)

def matchesFormat (l : FormatLayer) (format : PixelFormat) (width height : UInt32) : Bool :=
  l.format = format && l.mask.width = width && l.mask.height = height

/-- Give every value the leading channels of a colour and take away every pixel. -/
def clear (l : FormatLayer) (colour : Rgba) : FormatLayer :=
  ofValues (l.values.fill colour) (l.layer.counts.map fun c => Array.replicate c.size 0)
    l.mask.clear

/-- Store the leading channels of a colour and a count at an image coordinate. -/
def setPixel (l : FormatLayer) (x y : UInt32) (colour : Rgba) (count : UInt32) :
    Bool × FormatLayer :=
  match l.mask.grid.slot x y with
  | none => (false, l)
  | some i =>
      (true,
        ofValues (l.values.set i colour).2 (l.layer.counts.map fun c => c.setIfInBounds i count)
          (l.mask.insert x y).2)

def pixel? (l : FormatLayer) (x y : UInt32) : Option (Rgba × UInt32) := do
  let i ← l.mask.grid.slot x y
  let colour ← l.values.get? i
  return (colour, (l.layer.counts.bind fun counts => counts[i]?).getD 0)

/-- Merge `src` into `dst`, which must have the same layout, with the tiles in the given order. -/
def absorbInOrder (tiles : List Nat) (dst src : FormatLayer) (report : PixelMask) :
    Except Fault (Layer.Absorbed FormatLayer) :=
  if h : src.format = dst.format then do
    let done ← dst.layer.absorbInOrder tiles (h ▸ src.layer) report
    return ⟨done.answer, ⟨dst.format, done.dst⟩, done.report⟩
  else .ok ⟨.error (.unsupported (.formats dst.format src.format)), dst, report⟩

/-- Merge `src` into `dst`, one tile after another. -/
def absorb (dst src : FormatLayer) (report : PixelMask) :
    Except Fault (Layer.Absorbed FormatLayer) :=
  dst.absorbInOrder (List.range dst.mask.tileCount) src report

end FormatLayer

end RenderFold
