/-
Merging a source frame into a destination frame, with a change set and a record.

A merge first checks both frames; a refused merge changes nothing. Then it prepares destination
and change set, so that both have the parts of the source: auxiliary kinds are switched on and
off, named outputs are set up and deactivated. What is left are independent tasks, one per part
that has pixels; the order in which they run does not matter.
-/
import RenderFold.ChangeSet
import RenderFold.Frame
import RenderFold.Recorder

namespace RenderFold

/-- The parts of a frame that are merged pixel by pixel. -/
inductive FramePart where
  | beauty
  | aux (kind : AuxKind)
  | aov (name : String)
deriving DecidableEq, Repr

/-- The order of the work of a merge: its parts, and the tiles of each part, given their number. -/
structure Schedule where
  parts : List FramePart
  tiles : FramePart → Nat → List Nat

/-- The numbers of changed pixels of a merge. -/
structure Tally where
  beauty : Nat
  aux : PerKind fun _ => Nat
  aovs : NameTable Nat

namespace Tally

/-- No part changed, and no named output was merged. -/
def zero : Tally := ⟨0, .ofFn fun _ => 0, .empty⟩

def total (t : Tally) : Nat :=
  t.beauty + AuxKind.all.foldr (fun k n => t.aux.get k + n) 0
    + t.aovs.entries.foldr (fun e n => e.2 + n) 0

def note (t : Tally) (part : FramePart) (changed : Nat) : Tally :=
  match part with
  | .beauty => { t with beauty := changed }
  | .aux kind => { t with aux := t.aux.set kind changed }
  | .aov name => { t with aovs := t.aovs.put name changed }

def ofAnswers (answers : List (FramePart × Except MergeError Nat)) : Except MergeError Tally :=
  answers.foldlM (fun tally answer => do return tally.note answer.1 (← answer.2)) zero

end Tally

/-- A destination and the change set of a merge into it. -/
structure Exchange where
  dst : Frame
  report : ChangeSet

namespace Frame

/-- The conditions under which `src` can be merged into `dst`, in the order in which they are
reported. -/
def check (dst src : Frame) : Except MergeError Unit :=
  if src.size ≠ dst.size then .error (.sizes src.size dst.size)
  else do
    src.validate
    dst.validate

/-- Switch an auxiliary kind of destination and change set on or off after the source. -/
def prepareAux (src : Frame) (x : Exchange) (k : AuxKind) : Except Fault Exchange :=
  if (src.aux.get k).isOn then do
    return ⟨x.dst.enable k, ← x.report.enable k⟩
  else .ok ⟨x.dst.disable k, x.report⟩

/-- Set up a named output of destination and change set after an output of the source. -/
def prepareAov (src : Frame) (x : Exchange) (name : String) (aov : Aov) : Exchange :=
  if aov.active then
    let (held, dst) := x.dst.aov name
    let (entry, report) := x.report.aov name
    match aov.storage with
    | .reference target =>
        ⟨dst.withAov name (held.setupReference target),
          report.withAov name (entry.initReference target)⟩
    | .pixels layer =>
        ⟨dst.withAov name
            (held.setup layer.format src.width src.height aov.background aov.closestFilter),
          report.withAov name (entry.init src.width src.height)⟩
  else x

def hasActive (f : Frame) (name : String) : Bool := (f.findAov name).any fun a => a.active

/-- Deactivate the outputs of the destination that the source does not have. -/
def dropForeign (src dst : Frame) : Frame :=
  { dst with
    aovs := dst.aovs.mapEntries fun name a => if src.hasActive name then a else a.deactivate }

/-- Give destination and change set the parts of the source. -/
def prepare (src : Frame) (x : Exchange) : Except Fault Exchange := do
  let x : Exchange := { x with report := x.report.init src.width src.height }
  let x ← AuxKind.all.foldlM (prepareAux src) x
  let x := src.aovs.entries.foldl (fun x e => prepareAov src x e.1 e.2) x
  return { x with dst := (dropForeign src x.dst).refreshStatus }

/-- The parts of a source that are merged pixel by pixel. -/
def parts (src : Frame) : List FramePart :=
  .beauty :: (AuxKind.all.filter fun k => (src.aux.get k).isOn).map .aux
    ++ (src.aovs.entries.filter fun e => e.2.active && e.2.layer?.isSome).map fun e => .aov e.1

/-- Merge one part, with its tiles in the given order. -/
def absorbPart (tiles : Nat → List Nat) (src : Frame) (x : Exchange) (part : FramePart) :
    Except Fault (Except MergeError Nat × Exchange) :=
  match part with
  | .beauty => do
      let tiles := tiles x.dst.beauty.mask.tileCount
      let done ← x.dst.beauty.absorbInOrder tiles src.beauty x.report.beauty
      return (done.answer,
        ⟨{ x.dst with beauty := done.dst }, { x.report with beauty := done.report }⟩)
  | .aux k =>
      match src.aux? k, x.dst.aux? k with
      | some srcLayer, some dstLayer => do
          let mask := x.report.aux.get k
          let tiles := tiles dstLayer.mask.tileCount
          let done ← dstLayer.absorbInOrder tiles srcLayer mask.content
          return (done.answer,
            ⟨x.dst.withAux k done.dst,
              { x.report with aux := x.report.aux.set k { mask with content := done.report } }⟩)
      | _, _ => .ok (.ok 0, x)
  | .aov name =>
      match src.findAov name, x.dst.findAov name, x.report.findAov name with
      | some srcAov, some dstAov, some entry =>
          match srcAov.layer?, dstAov.layer?, entry.mask? with
          | some srcLayer, some dstLayer, some mask => do
              let done ← dstLayer.absorbInOrder (tiles dstLayer.mask.tileCount) srcLayer mask
              return (done.answer,
                ⟨x.dst.withAov name (dstAov.withLayer done.dst),
                  x.report.withAov name (entry.withMask done.report)⟩)
          | _, _, _ => .ok (.error (.unsupported (.noPixels name)), x)
      | _, _, _ => .ok (.error (.unsupported (.noPixels name)), x)

/-- Merge parts in the given order. Returns their answers too. -/
def absorbParts (tiles : FramePart → Nat → List Nat) (src : Frame) :
    List FramePart → Exchange →
      Except Fault (List (FramePart × Except MergeError Nat) × Exchange)
  | [], x => .ok ([], x)
  | part :: rest, x => do
      let (answer, x) ← absorbPart (tiles part) src x part
      let (answers, x) ← absorbParts tiles src rest x
      return ((part, answer) :: answers, x)

structure Absorbed where
  answer : Except MergeError Tally
  dst : Frame
  report : ChangeSet
  recorder : Recorder

/-- Merge `src` into `dst`. On success the change set holds the changed pixels, and its beauty mask
is recorded; a refused merge changes nothing. -/
def absorb (dst src : Frame) (report : ChangeSet) (recorder : Recorder) (coarse : Bool) :
    Except Fault Absorbed :=
  match dst.check src with
  | .error e => .ok ⟨.error e, dst, report, recorder⟩
  | .ok () => do
      let x ← prepare src ⟨dst, report⟩
      let (answers, x) ← absorbParts (fun _ => List.range) src src.parts x
      match Tally.ofAnswers answers with
      | .error e => return ⟨.error e, x.dst, x.report, recorder⟩
      | .ok tally =>
          let report := x.report.retain fun name _ => src.hasActive name
          return ⟨.ok tally, x.dst, report, (recorder.add report.beauty coarse).2⟩

end Frame

end RenderFold
