/-
Named render outputs: arbitrary output variables of a frame.

An output either owns pixels or stands for one of the intrinsic buffers of the frame. Storage
survives while an output is inactive; it is cleared when the output is set up again, and freed by
collection.
-/
import RenderFold.Layer.Format

namespace RenderFold

/-- The intrinsic buffers that a named output can stand for. -/
inductive Intrinsic where
  | beauty
  | alpha
  | heatMap
  | weight
  | beautyAux
  | alphaAux
deriving DecidableEq, Repr

namespace Intrinsic

def all : List Intrinsic := [.beauty, .alpha, .heatMap, .weight, .beautyAux, .alphaAux]

def name : Intrinsic → String
  | .beauty => "beauty"
  | .alpha => "alpha"
  | .heatMap => "heat_map"
  | .weight => "weight"
  | .beautyAux => "beauty_aux"
  | .alphaAux => "alpha_aux"

def label : Intrinsic → String
  | .beauty => "Beauty"
  | .alpha => "Alpha"
  | .heatMap => "HeatMap"
  | .weight => "Weight"
  | .beautyAux => "BeautyAux"
  | .alphaAux => "AlphaAux"

end Intrinsic

/-- Where the pixels of a named output are. -/
inductive AovStorage where
  | pixels (layer : FormatLayer)
  | reference (target : Intrinsic)

/-- A named output of a frame.  `background` is the value of its pixels without samples. -/
structure Aov where
  storage : AovStorage
  active : Bool
  background : Rgba
  closestFilter : Bool

namespace Aov

def new : Aov where
  storage := .pixels .empty
  active := false
  background := .zero 4
  closestFilter := false

def layer? (a : Aov) : Option FormatLayer :=
  match a.storage with
  | .pixels layer => some layer
  | .reference _ => none

def reference? (a : Aov) : Option Intrinsic :=
  match a.storage with
  | .pixels _ => none
  | .reference target => some target

/-- Pixels of the given layout and size out of what an output has: its own pixels while they fit,
cleared to the background if the output was inactive, and fresh ones otherwise. -/
def preparedLayer (a : Aov) (format : PixelFormat) (width height : UInt32) (background : Rgba) :
    FormatLayer :=
  match a.storage with
  | .pixels layer =>
      if layer.matchesFormat format width height then
        if a.active then layer else layer.clear background
      else .filled format width height background
  | .reference _ => .filled format width height background

/-- Activate an output with pixels of its own. -/
def setup (a : Aov) (format : PixelFormat) (width height : UInt32) (background : Rgba)
    (closestFilter : Bool) : Aov where
  storage := .pixels (a.preparedLayer format width height background)
  active := true
  background := background
  closestFilter := closestFilter

/-- Activate an output that stands for an intrinsic buffer; its own pixels are freed. -/
def setupReference (a : Aov) (target : Intrinsic) : Aov :=
  { a with storage := .reference target, active := true }

def deactivate (a : Aov) : Aov := { a with active := false }

def collectUnused (a : Aov) : Aov :=
  if a.active then a else { a with storage := .pixels .empty }

def withLayer (a : Aov) (layer : FormatLayer) : Aov :=
  match a.storage with
  | .pixels _ => { a with storage := .pixels layer }
  | .reference _ => a

end Aov

end RenderFold
