/-
Change sets: the pixels of every part of a frame that one merge has changed.

A change set has the shape of a frame, with masks in the stead of pixels. Its entries for named
outputs are never taken away, only deactivated.
-/
import RenderFold.Frame.Aov
import RenderFold.Frame.Kind
import RenderFold.NameTable
import RenderFold.PixelMask

namespace RenderFold

/-- Where the changed pixels of a named output are. -/
inductive AovPixels where
  | mask (mask : PixelMask)
  /-- The output stands for an intrinsic buffer, and its changes are the changes there. -/
  | reference (target : Intrinsic)
deriving DecidableEq

structure AovChange where
  pixels : AovPixels
  active : Bool
deriving DecidableEq

namespace AovChange

def new : AovChange := ⟨.mask .empty, false⟩

def mask? (c : AovChange) : Option PixelMask :=
  match c.pixels with
  | .mask mask => some mask
  | .reference _ => none

def reference? (c : AovChange) : Option Intrinsic :=
  match c.pixels with
  | .mask _ => none
  | .reference target => some target

/-- Activate with a mask of the given size. -/
def init (c : AovChange) (width height : UInt32) : AovChange where
  pixels :=
    match c.pixels with
    | .mask mask => .mask (mask.resize width height)
    | .reference _ => .mask (.blank width height)
  active := true

/-- Activate as a reference; the mask is freed. -/
def initReference (_ : AovChange) (target : Intrinsic) : AovChange := ⟨.reference target, true⟩

def deactivate (c : AovChange) : AovChange := { c with active := false }

def activate (c : AovChange) : AovChange := { c with active := true }

/-- Free the pixels of an inactive entry. -/
def collectUnused (c : AovChange) : AovChange :=
  if c.active then c else { c with pixels := .mask .empty }

/-- Replace the mask of an entry that is no reference. -/
def withMask (c : AovChange) (mask : PixelMask) : AovChange :=
  match c.pixels with
  | .mask _ => { c with pixels := .mask mask }
  | .reference _ => c

def summary (name : String) (c : AovChange) : String :=
  "aov '" ++ name ++ "' " ++ (if c.active then "active " else "inactive ")
    ++ match c.pixels with
      | .mask mask => mask.summary
      | .reference target => "reference " ++ target.label

end AovChange

/-- The changed pixels of every part of a frame. -/
structure ChangeSet where
  /-- Whether the set was ever given a size. -/
  sized : Bool
  width : UInt32
  height : UInt32
  beauty : PixelMask
  aux : PerKind fun _ => Switched PixelMask
  aovs : NameTable AovChange

namespace ChangeSet

def new : ChangeSet where
  sized := false
  width := 0
  height := 0
  beauty := .empty
  aux := .ofFn fun _ => ⟨false, .empty⟩
  aovs := .empty

/-- Give a set a size: beauty is emptied, every auxiliary kind is switched off, and every entry is
deactivated. -/
def init (s : ChangeSet) (width height : UInt32) : ChangeSet where
  sized := true
  width := width
  height := height
  beauty := (s.beauty.resize width height).clear
  aux := .ofFn fun k => (s.aux.get k).off
  aovs := s.aovs.mapEntries fun _ c => c.deactivate

/-- Switch a kind on with an empty mask; the set must have a size. -/
def enable (s : ChangeSet) (k : AuxKind) : Except Fault ChangeSet :=
  if s.sized then
    .ok { s with
      aux := s.aux.set k ⟨true, ((s.aux.get k).content.resize s.width s.height).clear⟩ }
  else .error .precondition

def aux? (s : ChangeSet) (k : AuxKind) : Option PixelMask := (s.aux.get k).get?

/-- The entry of a name, created if there is none yet, and activated. -/
def aov (s : ChangeSet) (name : String) : AovChange × ChangeSet :=
  let (found, _, aovs) := s.aovs.getOrInsert name fun _ => AovChange.new
  let entry := found.activate
  (entry, { s with aovs := aovs.update name fun _ => entry })

def findAov (s : ChangeSet) (name : String) : Option AovChange := s.aovs.get? name

def withAov (s : ChangeSet) (name : String) (entry : AovChange) : ChangeSet :=
  { s with aovs := s.aovs.update name fun _ => entry }

/-- Deactivate every entry that `keep` rejects, given its name and whether it is active. -/
def retain (s : ChangeSet) (keep : String → Bool → Bool) : ChangeSet :=
  { s with aovs := s.aovs.mapEntries fun name c => if keep name c.active then c else c.deactivate }

def hasOutputs (s : ChangeSet) : Bool := s.aovs.entries.any fun e => e.2.active

/-- Pass every active entry to `f`, in the order of their names, and count the calls. -/
def visitActive {σ : Type} (f : σ → String → AovChange → σ) (init : σ) (s : ChangeSet) : σ × Nat :=
  (s.aovs.entries.filter fun e => e.2.active).foldl (fun acc e => (f acc.1 e.1 e.2, acc.2 + 1))
    (init, 0)

def collectUnused (s : ChangeSet) : ChangeSet :=
  { s with aovs := s.aovs.mapEntries fun _ c => c.collectUnused }

/-- Every entry on a line of its own. -/
def summary (s : ChangeSet) : String :=
  "FbActivePixels aovs:" ++ toString s.aovs.size ++ " \x7b\n"
    ++ String.join (s.aovs.entries.map fun e => "  " ++ e.2.summary e.1 ++ "\n") ++ "\x7d"

end ChangeSet

end RenderFold
