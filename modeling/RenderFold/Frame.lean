/-
Frames: the accumulated render of one image.

Beauty is always present. The auxiliary kinds can be switched on and off, and named outputs are
created on demand and never taken away. `Frame.validate` states what merging relies on: every part
in use has the size of the frame.
-/
import RenderFold.Frame.Aov
import RenderFold.Frame.Kind
import RenderFold.NameTable

namespace RenderFold

/-- A frame. `hasOutputs` records whether any named output was active when it was last looked at. -/
structure Frame where
  width : UInt32
  height : UInt32
  beauty : Layer Rgba
  aux : PerKind fun k => Switched (Layer (Texel k.channels))
  aovs : NameTable Aov
  hasOutputs : Bool

namespace Frame

def size (f : Frame) : ImageSize := ⟨f.width, f.height⟩

/-- Give a frame a size: beauty is cleared, every auxiliary kind is switched off, and every named
output is deactivated. -/
def init (f : Frame) (width height : UInt32) : Frame where
  width := width
  height := height
  beauty :=
    let (fresh, beauty) := f.beauty.resize width height (.zero 4)
    if fresh then beauty else beauty.clear (.zero 4)
  aux := .ofFn fun k => (f.aux.get k).off
  aovs := f.aovs.mapEntries fun _ aov => aov.deactivate
  hasOutputs := false

def new (width height : UInt32) : Frame :=
  init
    { width := 0
      height := 0
      beauty := .empty true
      aux := .ofFn fun k => ⟨false, .empty k.counted⟩
      aovs := .empty
      hasOutputs := false }
    width height

/-- The buffer of an auxiliary kind that is switched on. -/
def aux? (f : Frame) (k : AuxKind) : Option (Layer (Texel k.channels)) := (f.aux.get k).get?

/-- Switch a buffer on at the given size: cleared if it was off, fresh if its size differs. -/
def enableLayer {n : Nat} (s : Switched (Layer (Texel n))) (width height : UInt32) :
    Switched (Layer (Texel n)) :=
  let (fresh, layer) := s.content.resize width height (.zero n)
  ⟨true, if !fresh && !s.isOn then layer.clear (.zero n) else layer⟩

def enable (f : Frame) (k : AuxKind) : Frame :=
  { f with aux := f.aux.set k (enableLayer (f.aux.get k) f.width f.height) }

def disable (f : Frame) (k : AuxKind) : Frame :=
  { f with aux := f.aux.set k (f.aux.get k).off }

def withAux (f : Frame) (k : AuxKind) (layer : Layer (Texel k.channels)) : Frame :=
  if (f.aux.get k).isOn then { f with aux := f.aux.set k ⟨true, layer⟩ } else f

/-- The named output, created inactive if there is none yet. -/
def aov (f : Frame) (name : String) : Aov × Frame :=
  let (aov, _, aovs) := f.aovs.getOrInsert name fun _ => Aov.new
  (aov, { f with aovs := aovs })

def findAov (f : Frame) (name : String) : Option Aov := f.aovs.get? name

def withAov (f : Frame) (name : String) (aov : Aov) : Frame :=
  { f with aovs := f.aovs.update name fun _ => aov }

def activeAovNames (f : Frame) : List String :=
  (f.aovs.entries.filter fun e => e.2.active).map (·.1)

/-- Look again whether any named output is active. -/
def refreshStatus (f : Frame) : Frame :=
  { f with hasOutputs := f.aovs.entries.any fun e => e.2.active }

def collectUnused (f : Frame) : Frame :=
  { f with aovs := f.aovs.mapEntries fun _ aov => aov.collectUnused }

/-- Refuse a buffer that does not have the size of the frame. -/
def checkSize (f : Frame) (buffer : String) (mask : PixelMask) : Except MergeError Unit :=
  if mask.size = f.size then .ok ()
  else .error (.invalid (.bufferSize buffer mask.size f.size))

/-- Refuse a frame in which a part in use does not have the size of the frame. -/
def validate (f : Frame) : Except MergeError Unit := do
  f.checkSize "beauty" f.beauty.mask
  AuxKind.all.forM fun k =>
    match f.aux? k with
    | some layer => f.checkSize k.label layer.mask
    | none => .ok ()
  f.aovs.entries.forM fun (name, aov) =>
    match aov.active, aov.layer? with
    | true, some layer => f.checkSize ("aov '" ++ name ++ "'") layer.mask
    | _, _ => .ok ()

end Frame

end RenderFold
