/-
The order in which a merge comes by its tiles and its parts.

`Frame.absorbBy` runs the tasks of a merge one after another as a schedule says and reads the
answers back in the order of the parts, whichever came first. Each task finds its part as
preparation has left it (`absorbParts_eq`), so that all orders lead to one exchange.

The options of an accumulator decide only which schedules may occur: `merge_eq_mergeBy` is about all
that they allow. A schedule goes through whole tiles one after another. That threads which work on
two tiles at once do not get in each other's way is left to the language.
-/
import RenderFold.Accumulator
import RenderFold.Proofs.Frame.Fold
import RenderFold.Proofs.Layer.Delta

namespace RenderFold

namespace Frame

/-- The answers of the parts of a frame, in the order of the parts. -/
def inParts (src : Frame) (answers : List (FramePart × Except MergeError Nat)) :
    List (FramePart × Except MergeError Nat) :=
  src.parts.filterMap fun part => answers.find? fun answer => answer.1 = part

/-- What a merge leaves behind once all parts have answered. -/
def settle (src : Frame) (answers : List (FramePart × Except MergeError Nat)) (x : Exchange)
    (recorder : Recorder) (coarse : Bool) : Absorbed :=
  match Tally.ofAnswers answers with
  | .error e => ⟨.error e, x.dst, x.report, recorder⟩
  | .ok tally =>
      let report := x.report.retain fun name _ => src.hasActive name
      ⟨.ok tally, x.dst, report, (recorder.add report.beauty coarse).2⟩

def visitAt (src : Frame) (part : FramePart) (st : PartState part) :
    Except MergeError Nat × PartState part :=
  src.taskAt part (src.prepareAt part st)

/-- Merge `src` into `dst` by a schedule. -/
def absorbBy (s : Schedule) (dst src : Frame) (report : ChangeSet) (recorder : Recorder)
    (coarse : Bool) : Except Fault Absorbed :=
  match dst.check src with
  | .error e => .ok ⟨.error e, dst, report, recorder⟩
  | .ok () => do
      let x ← prepare src ⟨dst, report⟩
      let (answers, x) ← absorbParts s.tiles src s.parts x
      return src.settle (src.inParts answers) x recorder coarse

/-- Merge `src` into `dst`, with the parts in a given order. -/
def absorbInOrder (order : List FramePart) (dst src : Frame) (report : ChangeSet)
    (recorder : Recorder) (coarse : Bool) : Except Fault Absorbed :=
  dst.absorbBy ⟨order, fun _ => List.range⟩ src report recorder coarse

/-- A schedule in which every part of a source comes once, and every tile of each part once. -/
structure Covers (src : Frame) (s : Schedule) : Prop where
  parts : s.parts.Perm src.parts
  tiles : ∀ part n, (s.tiles part n).Perm (List.range n)

theorem covers_of_perm {src : Frame} {order : List FramePart} (horder : order.Perm src.parts) :
    src.Covers ⟨order, fun _ => List.range⟩ :=
  ⟨horder, fun _ _ => .refl _⟩

section Order

variable {dst src : Frame} {report : ChangeSet} {s : Schedule}

/-- Answers that came in any order are read back in the order of the parts. -/
theorem inParts_map {order : List FramePart} (horder : order.Perm src.parts)
    (f : FramePart → Except MergeError Nat) :
    src.inParts (order.map fun part => (part, f part))
      = src.parts.map fun part => (part, f part) := by
  have hanswer : ∀ part ∈ src.parts,
      (order.map fun p => (p, f p)).find? (fun answer => answer.1 = part)
        = some (part, f part) := by
    intro part hmem
    rw [List.find?_map]
    cases hfind : order.find? ((fun answer => decide (answer.1 = part)) ∘ fun p => (p, f p)) with
    | none =>
        have hall := List.find?_eq_none.1 hfind part (horder.mem_iff.2 hmem)
        exact absurd (decide_eq_true rfl) hall
    | some found =>
        obtain rfl : found = part := by simpa using List.find?_some hfind
        rfl
  rw [inParts, List.filterMap_congr hanswer]
  exact congrFun List.filterMap_eq_map src.parts

/-- A merge whose checks pass prepares every part and does its task, whenever the part comes. -/
theorem absorbBy_eq (hcheck : dst.check src = .ok ()) (hs : src.Covers s) (report : ChangeSet)
    (recorder : Recorder) (coarse : Bool) :
    ∃ y, y.header = src.preparedHeader ∧
      (∀ part, y.view part
        = if part ∈ src.parts then (src.visitAt part (Exchange.view ⟨dst, report⟩ part)).2
          else src.prepareAt part (Exchange.view ⟨dst, report⟩ part)) ∧
      dst.absorbBy s src report recorder coarse
        = .ok (src.settle (src.parts.map fun part =>
            (part, (src.visitAt part (Exchange.view ⟨dst, report⟩ part)).1)) y recorder
              coarse) := by
  obtain ⟨x, hx, hheader, hprepared⟩ := prepare_of_check hcheck report
  obtain ⟨y, hy, hheader', hview⟩ :=
    absorbParts_eq hs.tiles src (hs.parts.nodup_iff.2 src.parts_nodup) x
  simp only [hprepared, hs.parts.mem_iff] at hy hview
  refine ⟨y, hheader'.trans hheader, hview, ?_⟩
  rw [absorbBy, hcheck]
  simp only [hx, hy, bind, Except.bind, pure, Except.pure, inParts_map hs.parts, visitAt]

/-- A merge comes by parts and tiles in their order. -/
theorem absorb_eq_absorbBy (dst src : Frame) (report : ChangeSet) (recorder : Recorder)
    (coarse : Bool) :
    dst.absorb src report recorder coarse
      = dst.absorbBy ⟨src.parts, fun _ => List.range⟩ src report recorder coarse := by
  rw [absorb, absorbBy]
  cases hcheck : dst.check src with
  | error e => rfl
  | ok =>
      obtain ⟨x, hx, -⟩ := prepare_of_check hcheck report
      obtain ⟨y, hy, -⟩ := absorbParts_eq (fun _ _ => .refl _) src src.parts_nodup x
      simp only [hx, hy, bind, Except.bind, inParts_map (List.Perm.refl src.parts)]
      rw [settle]
      cases Tally.ofAnswers
        (src.parts.map fun part => (part, (src.taskAt part (x.view part)).1)) <;> rfl

/-- A merge leaves the same behind by whichever schedule its work is done. -/
theorem exists_absorbBy (dst : Frame) (hs : src.Covers s) (report : ChangeSet)
    (recorder : Recorder) (coarse : Bool) :
    ∃ done, dst.absorb src report recorder coarse = .ok done ∧
      dst.absorbBy s src report recorder coarse = .ok done := by
  rw [absorb_eq_absorbBy]
  cases hcheck : dst.check src with
  | error e =>
      refine ⟨⟨.error e, dst, report, recorder⟩, ?_, ?_⟩
      · rw [absorbBy, hcheck]
      · rw [absorbBy, hcheck]
  | ok =>
      obtain ⟨y, hheader, hview, hdone⟩ :=
        absorbBy_eq hcheck (covers_of_perm (.refl src.parts)) report recorder coarse
      obtain ⟨z, hheader', hview', hdone'⟩ := absorbBy_eq hcheck hs report recorder coarse
      obtain rfl : y = z := Exchange.ext_view (hheader.trans hheader'.symm) fun part =>
        (hview part).trans (hview' part).symm
      exact ⟨_, hdone, hdone'⟩

/-- Neither the order of the tiles nor the order of the parts has an influence on what a merge
leaves behind, refused or not. -/
theorem absorb_order_free {V : Type} [Inhabited V] [DecidableEq V] (f g : Layer V)
    {tiles : List Nat} (htiles : tiles.Perm (List.range f.mask.tileCount)) (mask : PixelMask)
    (dst src : Frame) {order : List FramePart} (horder : order.Perm src.parts)
    (report : ChangeSet) (recorder : Recorder) (coarse : Bool) :
    (∃ done, f.absorb g mask = .ok done ∧ f.absorbInOrder tiles g mask = .ok done) ∧
      ∃ done, dst.absorb src report recorder coarse = .ok done ∧
        dst.absorbInOrder order src report recorder coarse = .ok done :=
  ⟨⟨_, f.absorb_eq_outcome g mask, f.absorbInOrder_eq_outcome g htiles mask⟩,
    exists_absorbBy dst (covers_of_perm horder) report recorder coarse⟩

/-- The second of two tiles first, and a named output before beauty. -/
theorem absorb_order_free_of_reversed :
    [1, 0].Perm (List.range Layer.signedZero.mask.tileCount) ∧
      [.aov "depth", .beauty].Perm depthFrame.parts ∧
      (∃ done,
        Layer.signedZero.absorb Layer.raggedSource (.blank 3 3) = .ok done ∧
          Layer.signedZero.absorbInOrder [1, 0] Layer.raggedSource (.blank 3 3) = .ok done) ∧
      ∃ done, (new 2 2).absorb depthFrame .new .new true = .ok done ∧
        (new 2 2).absorbInOrder [.aov "depth", .beauty] depthFrame .new .new true = .ok done := by
  have htiles : [1, 0].Perm (List.range Layer.signedZero.mask.tileCount) := by decide +kernel
  have horder : [.aov "depth", .beauty].Perm depthFrame.parts := by decide +kernel
  exact ⟨htiles, horder, absorb_order_free _ _ htiles _ _ _ horder _ _ _⟩

end Order

end Frame

/-! ### Options -/

namespace Options

variable {α : Type}

/-- The orders in which a loop may do its tasks: one thread does them as they come, several in any
order. The number of threads and the grain make some of these orders unlikely or impossible, and
add none. -/
def Orders (o : Options) (tasks order : List α) : Prop :=
  if o.parallel then order.Perm tasks else order = tasks

theorem Orders.perm {o : Options} {tasks order : List α} (horder : o.Orders tasks order) :
    order.Perm tasks := by
  rw [Orders] at horder
  split at horder
  · exact horder
  · rw [horder]

theorem orders_self (o : Options) (tasks : List α) : o.Orders tasks tasks := by
  rw [Orders]
  split
  · exact .refl tasks
  · rfl

/-- The schedules of a merge with the given source. -/
structure Allows (o : Options) (src : Frame) (s : Schedule) : Prop where
  parts : o.Orders src.parts s.parts
  tiles : ∀ part n, o.Orders (List.range n) (s.tiles part n)

theorem Allows.covers {o : Options} {src : Frame} {s : Schedule} (hs : o.Allows src s) :
    src.Covers s :=
  ⟨hs.parts.perm, fun part n => (hs.tiles part n).perm⟩

/-- Work that is done in order is allowed by all options. -/
theorem allows_in_order (o : Options) (src : Frame) :
    o.Allows src ⟨src.parts, fun _ => List.range⟩ :=
  ⟨o.orders_self _, fun _ n => o.orders_self (List.range n)⟩

end Options

namespace Accumulator

def mergeBy (a : Accumulator) (s : Schedule) (src dst : Frame) (report : ChangeSet)
    (coarse : Bool) : Except Fault Merged := do
  let done ← dst.absorbBy s src report a.recorder coarse
  return ⟨done.answer, { a with recorder := done.recorder }, done.dst, done.report⟩

/-- For all options: every schedule that they allow does what the merge does, refused or not. -/
theorem merge_eq_mergeBy (a : Accumulator) (src dst : Frame) {s : Schedule}
    (hallowed : a.options.Allows src s) (report : ChangeSet) (coarse : Bool) :
    ∃ done, a.merge src dst report coarse = .ok done ∧
      a.mergeBy s src dst report coarse = .ok done := by
  obtain ⟨done, hdone, hschedule⟩ :=
    Frame.exists_absorbBy dst hallowed.covers report a.recorder coarse
  refine ⟨⟨done.answer, { a with recorder := done.recorder }, done.dst, done.report⟩, ?_, ?_⟩
  · rw [merge, hdone]
    rfl
  · rw [mergeBy, hschedule]
    rfl

end Accumulator

end RenderFold
