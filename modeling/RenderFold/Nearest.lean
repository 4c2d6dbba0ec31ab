/-
The nearest set pixel of a tile, for every position of the tile.

The pixels around a position are sorted once into rings of equal distance, nearest first. A phase
is the union of a bundle of consecutive rings, so that one test rejects the whole bundle. Among
the equally near pixels of a ring the lowest id wins; the size of the bundles has no influence on
the answer.
-/
import RenderFold.Tile

namespace RenderFold

/-- The squared distance of two pixels of a tile. -/
def PixelId.distance (p q : PixelId) : Nat :=
  let dx := max p.column q.column - min p.column q.column
  let dy := max p.row q.row - min p.row q.row
  dx * dx + dy * dy

/-- The largest number of rings in a phase. -/
def maxBundle : Nat := 8

namespace Nearest

/-- The order of pixels with their distances: by distance, and then by id. -/
def comesFirst (a b : Nat × PixelId) : Bool := a.1 < b.1 || a.1 = b.1 && a.2 ≤ b.2

/-- The pixels of a tile with their distances from `p`, in order. -/
def byDistance (p : PixelId) : List (Nat × PixelId) :=
  (PixelId.all.map fun q => (p.distance q, q)).mergeSort comesFirst

/-- Add a pixel to the newest ring, which stands first, or to a new one if its distance is not the
one of that ring. -/
def addPixel (acc : List Tile × Option Nat) (e : Nat × PixelId) : List Tile × Option Nat :=
  let rings := if acc.2 = some e.1 then acc.1 else 0 :: acc.1
  (rings.modifyHead fun ring => Tile.insert ring e.2, some e.1)

def ringsAround (p : PixelId) : List Tile :=
  ((byDistance p).foldl addPixel ([], none)).1.reverse

/-- The unions of `bundle` consecutive rings each; the last phase may be shorter. -/
def bundled (bundle : Nat) (rings : List Tile) : List Tile :=
  (List.range ((rings.length + bundle - 1) / bundle)).map fun k =>
    ((rings.drop (k * bundle)).take bundle).foldl Tile.union 0

/-- The rings around every pixel, and their phases for every size of a bundle. -/
structure Tables where
  ringTable : Vector (List Tile) 64
  phaseTable : Vector (Vector (List Tile) 64) maxBundle
deriving DecidableEq

def Tables.build : Tables :=
  let rings := Vector.ofFn ringsAround
  { ringTable := rings
    phaseTable := Vector.ofFn fun b => rings.map (bundled (b.val + 1)) }

/-- The tables that every search shares. -/
def tables : Tables := .build

def Tables.rings (t : Tables) (pixel : Nat) : Except Fault (List Tile) :=
  match t.ringTable[pixel]? with
  | some rings => .ok rings
  | none => .error .outOfRange

/-- The phases around a pixel for bundles of one to `maxBundle` rings. -/
def Tables.phases (t : Tables) (bundle pixel : Nat) : Except Fault (List Tile) :=
  match bundle with
  | 0 => .error .overflow
  | b + 1 =>
      match t.phaseTable[b]? with
      | none => .error .outOfRange
      | some phases =>
          match phases[pixel]? with
          | some phases => .ok phases
          | none => .error .outOfRange

/-- The lowest common pixel of a mask and the first ring that meets it. -/
def firstHit (mask : Tile) (rings : List Tile) : Option PixelId :=
  rings.findSome? fun ring =>
    let hit := Tile.inter ring mask
    if hit = 0 then none else some (Tile.lowest hit)

/-- The nearest pixel of a mask around `p`: a phase that misses the mask is passed over, in any
other the search goes ring by ring from the first ring of the phase. -/
def around (t : Tables) (mask : Tile) (bundle : Fin maxBundle) (p : PixelId) : PixelId :=
  let rings := t.ringTable.get p
  let phases := (t.phaseTable.get bundle).get p
  (phases.zipIdx.findSome? fun (phase, k) =>
    if Tile.inter phase mask = 0 then none
    else firstHit mask (rings.drop (k * (bundle.val + 1)))).getD p

/-- The rings from a given one on; past the last ring there is nothing to begin with. -/
def ringsFrom (rings : List Tile) (start : Nat) : Except Fault (List Tile) :=
  if start ≤ rings.length then .ok (rings.drop start) else .error .outOfRange

/-- Go through the phases that are left, the first of which has the number `k`. -/
def nearestFrom (mask : Tile) (bundle : Nat) (rings : List Tile) :
    Nat → List Tile → Except Fault (Option PixelId)
  | _, [] => .ok none
  | k, phase :: rest =>
      if Tile.inter phase mask = 0 then nearestFrom mask bundle rings (k + 1) rest
      else do
        match firstHit mask (← ringsFrom rings (k * bundle)) with
        | some q => return some q
        | none => nearestFrom mask bundle rings (k + 1) rest

/-- The search of `around`, with a check wherever the tables are looked at. -/
def checkedAround (t : Tables) (mask : Tile) (bundle : Nat) (p : PixelId) :
    Except Fault PixelId := do
  let rings ← t.rings p.val
  let phases ← t.phases bundle p.val
  return (← nearestFrom mask bundle rings 0 phases).getD p

/-- Bundles of one to `maxBundle` rings; other requests go to the nearer end of that range. -/
def clampBundle (bundle : Nat) : Fin maxBundle :=
  ⟨min bundle maxBundle - 1, by unfold maxBundle; omega⟩

/-- The size of the bundles used for a mask: a sparse mask passes over more rings per test. -/
def bundleFor (mask : Tile) : Nat :=
  let n := mask.card
  if n ≤ 1 then 3 else if n ≤ 18 then 2 else 1

/-- One answer per position of a tile. -/
abbrev Ids := Vector UInt8 64

/-- The nearest pixel of a non-empty mask for every position, with bundles of a given size. -/
def searchBundled (mask : Tile) (bundle : Nat) : Except Fault Ids :=
  if mask = 0 then .error .precondition
  else .ok (Vector.ofFn fun p => (around tables mask (clampBundle bundle) p).val.toUInt8)

def search (mask : Tile) : Except Fault Ids := searchBundled mask (bundleFor mask)

/-- A half-open range of columns or rows. -/
structure Span where
  first : UInt32
  stop : UInt32
deriving DecidableEq, Repr

/-- The columns or rows that a range goes through: it ends at the edge of the tile at the latest. -/
def Span.indices (s : Span) : List UInt32 :=
  (List.range' s.first.toNat (min s.stop.toNat 8 - s.first.toNat)).map UInt32.ofNat

/-- Fill in the position in column `x` and row `y`, both of which must be below eight. -/
def fillAt (mask : Tile) (ids : Ids) (x y : UInt32) : Except Fault Ids := do
  let p ← PixelId.ofCoords x y
  return ids.setIfInBounds p.val (← checkedAround tables mask (bundleFor mask) p).val.toUInt8

/-- Fill in the positions of a rectangle and leave the others as they are. -/
def searchWithin (mask : Tile) (ids : Ids) (xs ys : Span) : Except Fault Ids :=
  if mask = 0 then .error .precondition
  else ys.indices.foldlM (fun ids y => xs.indices.foldlM (fun ids x => fillAt mask ids x y) ids) ids

/-- The ids in octal, the top row first. -/
def renderIds (ids : Ids) : String :=
  "pixIdArray \x7b\n"
    ++ renderRows (fun p => Numeral.octal (Vector.get ids p).toNat ++ " ") ++ "\x7d"

end Nearest

end RenderFold
