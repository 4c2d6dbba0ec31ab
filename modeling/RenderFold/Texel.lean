/-
Pixel values: fixed numbers of channels, each the bit pattern of a single-precision number.

Two values are the same when all their bit patterns are; no channel is ever computed with, so every
pattern, the ones of the many not-a-numbers included, passes through unchanged.
-/
namespace RenderFold

/-- A pixel value with `n` channels. -/
abbrev Texel (n : Nat) := Vector UInt32 n

abbrev Rgba := Texel 4

def Texel.zero (n : Nat) : Texel n := Vector.replicate n 0

/-- The leading channels of a value as a value with `m` channels; missing channels are zero. -/
def Texel.convert {n : Nat} (m : Nat) (v : Texel n) : Texel m :=
  Vector.ofFn fun i => v[i.val]?.getD 0

/-- The channel layouts of values whose layout is chosen when the program runs. -/
inductive PixelFormat where
  | float
  | float2
  | float3
  | float4
deriving DecidableEq, Repr, Inhabited

namespace PixelFormat

def all : List PixelFormat := [.float, .float2, .float3, .float4]

def channels : PixelFormat → Nat
  | .float => 1
  | .float2 => 2
  | .float3 => 3
  | .float4 => 4

def ofChannels? (n : Nat) : Option PixelFormat := all.find? fun f => f.channels = n

def name : PixelFormat → String
  | .float => "float"
  | .float2 => "float2"
  | .float3 => "float3"
  | .float4 => "float4"

def label : PixelFormat → String
  | .float => "Float"
  | .float2 => "Float2"
  | .float3 => "Float3"
  | .float4 => "Float4"

end PixelFormat

/-- Values of one layout. -/
structure PixelArray where
  format : PixelFormat
  values : Array (Texel format.channels)

namespace PixelArray

def empty : PixelArray := ⟨.float, #[]⟩

/-- Equal values, each the leading channels of a colour. -/
def filled (format : PixelFormat) (size : Nat) (colour : Rgba) : PixelArray :=
  ⟨format, Array.replicate size (colour.convert format.channels)⟩

def size (a : PixelArray) : Nat := a.values.size

def fill (a : PixelArray) (colour : Rgba) : PixelArray :=
  filled a.format a.size colour

/-- The value at an index, widened to four channels. -/
def get? (a : PixelArray) (i : Nat) : Option Rgba := a.values[i]?.map (Texel.convert 4)

/-- Store the leading channels of a colour. Returns whether the index is in range; if not, nothing
changes. -/
def set (a : PixelArray) (i : Nat) (colour : Rgba) : Bool × PixelArray :=
  (i < a.size, ⟨a.format, a.values.setIfInBounds i (colour.convert a.format.channels)⟩)

end PixelArray

end RenderFold
