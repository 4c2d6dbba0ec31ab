/-
The auxiliary kinds of a frame, and parts of a frame that can be switched off.

Besides beauty a frame knows four auxiliary kinds of data. `PerKind` holds one thing for each of
them. A part that is switched off keeps its content, out of reach until the part is switched on
again.
-/
import RenderFold.Texel

namespace RenderFold

/-- The auxiliary kinds of data of a frame. -/
inductive AuxKind where
  /-- Depth per pixel. -/
  | pixelInfo
  /-- Render time per pixel. -/
  | heatMap
  /-- Filter weight per pixel. -/
  | weight
  /-- Beauty over the odd samples only. -/
  | oddBeauty
deriving DecidableEq, Repr

namespace AuxKind

/-- Every kind, in the order in which they are handled. -/
def all : List AuxKind := [.pixelInfo, .heatMap, .weight, .oddBeauty]

def channels : AuxKind → Nat
  | .oddBeauty => 4
  | _ => 1

def counted : AuxKind → Bool
  | .heatMap | .oddBeauty => true
  | .pixelInfo | .weight => false

def label : AuxKind → String
  | .pixelInfo => "pixel info"
  | .heatMap => "heat map"
  | .weight => "weight"
  | .oddBeauty => "odd beauty"

end AuxKind

/-- One thing for each auxiliary kind. -/
structure PerKind (α : AuxKind → Type) where
  pixelInfo : α .pixelInfo
  heatMap : α .heatMap
  weight : α .weight
  oddBeauty : α .oddBeauty

namespace PerKind

variable {α : AuxKind → Type}

def get (p : PerKind α) : (k : AuxKind) → α k
  | .pixelInfo => p.pixelInfo
  | .heatMap => p.heatMap
  | .weight => p.weight
  | .oddBeauty => p.oddBeauty

def ofFn (f : (k : AuxKind) → α k) : PerKind α :=
  ⟨f .pixelInfo, f .heatMap, f .weight, f .oddBeauty⟩

def set (p : PerKind α) (k : AuxKind) (x : α k) : PerKind α :=
  match k with
  | .pixelInfo => { p with pixelInfo := x }
  | .heatMap => { p with heatMap := x }
  | .weight => { p with weight := x }
  | .oddBeauty => { p with oddBeauty := x }

@[simp] theorem get_ofFn (f : (k : AuxKind) → α k) (k : AuxKind) : (ofFn f).get k = f k := by
  cases k <;> rfl

@[simp] theorem get_set_self (p : PerKind α) (k : AuxKind) (x : α k) : (p.set k x).get k = x := by
  cases k <;> rfl

theorem get_set_of_ne (p : PerKind α) {j k : AuxKind} (h : j ≠ k) (x : α k) :
    (p.set k x).get j = p.get j := by
  cases j <;> cases k <;> first | rfl | exact absurd rfl h

end PerKind

/-- A part that can be switched off without losing its content. -/
structure Switched (α : Type) where
  isOn : Bool
  content : α

namespace Switched

variable {α : Type}

/-- The content while the part is switched on. -/
def get? (s : Switched α) : Option α := if s.isOn then some s.content else none

def off (s : Switched α) : Switched α := { s with isOn := false }

end Switched

end RenderFold
