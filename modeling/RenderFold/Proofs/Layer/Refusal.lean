/-
How a merge of layers is refused.

Two layers need not fit together: layouts and sizes may differ, arrays may have any length, and
counts may be kept on one side only. `MergeCheck` names what a merge looks at, in the order in which
it does. The first check that is not passed is the answer, and then destination and report are what
they were. Layers that pass every check are merged without a fault.
-/
import RenderFold.Proofs.Layer.Outcome
import RenderFold.Proofs.TileGrid.Widths

namespace RenderFold

/-- What a merge looks at before it starts. -/
inductive MergeCheck where
  | formats
  | sizes
  | dstValues
  | srcValues
  | countsAgree
  | dstCounts
  | srcCounts
deriving DecidableEq, Repr

namespace MergeCheck

def all : List MergeCheck :=
  [.formats, .sizes, .dstValues, .srcValues, .countsAgree, .dstCounts, .srcCounts]

/-- Whether two layers pass a check. Every array must have one entry for each slot of the
destination's image; where no counts are kept there is no array of counts to look at. -/
def passes (dst src : FormatLayer) : MergeCheck → Bool
  | .formats => dst.format == src.format
  | .sizes => dst.mask.size == src.mask.size
  | .dstValues => dst.layer.values.size == dst.mask.grid.slotCount
  | .srcValues => src.layer.values.size == dst.mask.grid.slotCount
  | .countsAgree => dst.layer.isCounted == src.layer.isCounted
  | .dstCounts => dst.layer.counts.all fun counts => counts.size == dst.mask.grid.slotCount
  | .srcCounts => src.layer.counts.all fun counts => counts.size == dst.mask.grid.slotCount

/-- The answer to two layers that do not pass a check. -/
def refusal (dst src : FormatLayer) : MergeCheck → MergeError
  | .formats => .unsupported (.formats dst.format src.format)
  | .sizes => .sizes src.mask.size dst.mask.size
  | .dstValues =>
      .invalid (.length .dstValues dst.layer.values.size dst.mask.grid.slotCount)
  | .srcValues =>
      .invalid (.length .srcValues src.layer.values.size dst.mask.grid.slotCount)
  | .countsAgree => .unsupported .countsDisagree
  | .dstCounts =>
      .invalid (.length .dstCounts (dst.layer.counts.getD #[]).size dst.mask.grid.slotCount)
  | .srcCounts =>
      .invalid (.length .srcCounts (src.layer.counts.getD #[]).size dst.mask.grid.slotCount)

def firstFailed (dst src : FormatLayer) : Option MergeCheck := all.find? fun c => !c.passes dst src

/-- The answer of the checks when `failed` is the first that is not passed. -/
def answer (dst src : FormatLayer) (failed : Option MergeCheck) : Except MergeError Unit :=
  match failed with
  | some c => .error (c.refusal dst src)
  | none => .ok ()

theorem answer_find?_cons (dst src : FormatLayer) (c : MergeCheck) (cs : List MergeCheck) :
    answer dst src ((c :: cs).find? fun c => !c.passes dst src)
      = if c.passes dst src then answer dst src (cs.find? fun c => !c.passes dst src)
        else .error (c.refusal dst src) := by
  rw [List.find?_cons]
  cases c.passes dst src with
  | true => rfl
  | false => rfl

end MergeCheck

namespace Layer

theorem checkLength_bind {α : Type} (part : LayerPart) (got want : Nat)
    (f : Unit → Except MergeError α) :
    (checkLength part got want >>= f)
      = if got = want then f () else .error (.invalid (.length part got want)) := by
  rw [checkLength]
  split
  · rfl
  · rfl

variable {format : PixelFormat} (dst src : Layer (Texel format.channels))

/-- Layers of one layout are refused by the first check that they do not pass. -/
theorem check_eq_answer :
    dst.check src
      = MergeCheck.answer ⟨format, dst⟩ ⟨format, src⟩
          (MergeCheck.firstFailed ⟨format, dst⟩ ⟨format, src⟩) := by
  obtain ⟨dstValues, dstCounts, dstMask⟩ := dst
  obtain ⟨srcValues, srcCounts, srcMask⟩ := src
  have hslots : dstMask.tileCount * tilePixels = dstMask.grid.slotCount :=
    congrArg (· * tilePixels) dstMask.size_tiles
  have hsame : dstMask.sameSize srcMask = decide (dstMask.size = srcMask.size) := by
    rw [PixelMask.sameSize, PixelMask.size, PixelMask.size, Bool.eq_iff_iff]
    simp
  simp only [check, checkLength_bind, hslots, hsame, MergeCheck.firstFailed, MergeCheck.all,
    MergeCheck.answer_find?_cons, List.find?_nil]
  simp only [MergeCheck.passes, MergeCheck.refusal, FormatLayer.mask, isCounted, beq_iff_eq]
  -- both sides are now one chain of conditions; only its end depends on where counts are kept
  cases dstCounts with
  | none =>
      cases srcCounts with
      | none => simp [MergeCheck.answer]
      | some srcCounts => simp
  | some dstCounts =>
      cases srcCounts with
      | none => simp
      | some srcCounts => simp [MergeCheck.answer, checkLength]

/-- Lengths are compared in 64 bits. Below `2 ^ 61` bytes for the words of the mask, the number of
slots that arrays are made with and compared to is the one that 64 bits hold. -/
theorem lengths_held {V : Type} {w h : UInt32}
    (hbytes : 8 * (TileGrid.ofSize w h).tileCount < 2 ^ 61) :
    ∃ n, (TileGrid.ofSize w h).slotCount64 = .ok n ∧
      (∀ counted (blank : V), (filled counted w h blank).values.size = n ∧
        ∀ counts ∈ (filled counted w h blank).counts, counts.size = n) ∧
      ∀ l : Layer V, l.mask.size = ⟨w, h⟩ →
        (l.hasSize w h = true ↔ l.values.size = n) ∧ l.mask.tileCount * tilePixels = n := by
  have hcount : (TileGrid.ofSize w h).tileCount ≠ 2 ^ 58 := by omega
  refine ⟨_, TileGrid.slotCount64_ofSize.trans (if_neg hcount), ?_, ?_⟩
  · intro counted blank
    have hshape := filled_hasShape counted w h blank
    exact ⟨hshape.size_values, fun _ hcounts => hshape.size_counts hcounts⟩
  · intro l hsize
    obtain ⟨hwidth, hheight⟩ := ImageSize.mk.inj hsize
    have hgrid : l.mask.grid = TileGrid.ofSize w h := by
      rw [PixelMask.grid, hwidth, hheight]
    constructor
    · simp [hasSize, hwidth, hheight, grid, hgrid]
    · rw [PixelMask.tileCount, PixelMask.size_tiles, ← PixelMask.grid, hgrid, TileGrid.slotCount]

end Layer

namespace FormatLayer

variable {dst src : FormatLayer}

/-- Layers of different layouts do not pass the first check of all. -/
theorem firstFailed_of_format_ne (hformat : src.format ≠ dst.format) :
    MergeCheck.firstFailed dst src = some .formats := by
  simp [MergeCheck.firstFailed, MergeCheck.all, MergeCheck.passes, hformat.symm]

/-- A merge that is refused is refused by the first check that the layers do not pass, and leaves
destination and report as they were. -/
theorem outcome_of_firstFailed {c : MergeCheck}
    (hfailed : MergeCheck.firstFailed dst src = some c) (report : PixelMask) :
    dst.outcome src report = ⟨.error (c.refusal dst src), dst, report⟩ := by
  obtain ⟨dstFormat, dst⟩ := dst
  obtain ⟨srcFormat, src⟩ := src
  by_cases hformat : srcFormat = dstFormat
  · subst hformat
    have hcheck := dst.check_eq_answer src
    rw [hfailed, MergeCheck.answer] at hcheck
    simp only [outcome, dif_pos, Layer.outcome, hcheck]
  · obtain rfl : MergeCheck.formats = c :=
      Option.some.inj ((firstFailed_of_format_ne hformat).symm.trans hfailed)
    rw [outcome, dif_neg hformat, MergeCheck.refusal]

/-- Layers that pass every check are merged. -/
theorem outcome_of_firstFailed_none (hpassed : MergeCheck.firstFailed dst src = none)
    (report : PixelMask) :
    (dst.outcome src report).answer = .ok (dst.outcome src report).report.card ∧
      (dst.outcome src report).report.size = dst.mask.size := by
  obtain ⟨dstFormat, dst⟩ := dst
  obtain ⟨srcFormat, src⟩ := src
  by_cases hformat : srcFormat = dstFormat
  · subst hformat
    have hcheck := dst.check_eq_answer src
    rw [hpassed, MergeCheck.answer] at hcheck
    simp only [outcome, dif_pos, Layer.outcome, hcheck]
    exact ⟨trivial, rfl⟩
  · cases (firstFailed_of_format_ne hformat).symm.trans hpassed

/-- For any two layers, whatever is wrong with them, and in whichever order the tiles are come by: a
merge is without a fault. Where a check is not passed the first such check is the answer, and
destination and report are left as they were; where all are passed the answer is the number of
pixels in the report. -/
theorem absorb_first_refusal (dst src : FormatLayer) {tiles : List Nat}
    (htiles : tiles.Perm (List.range dst.mask.tileCount)) (report : PixelMask) :
    ∃ done, dst.absorb src report = .ok done ∧ dst.absorbInOrder tiles src report = .ok done ∧
      match MergeCheck.firstFailed dst src with
      | some c => done = ⟨.error (c.refusal dst src), dst, report⟩
      | none => done.answer = .ok done.report.card ∧ done.report.size = dst.mask.size := by
  refine ⟨dst.outcome src report, dst.absorb_eq_outcome src report,
    dst.absorbInOrder_eq_outcome src htiles report, ?_⟩
  cases hfirst : MergeCheck.firstFailed dst src with
  | some c => exact outcome_of_firstFailed hfirst report
  | none => exact outcome_of_firstFailed_none hfirst report

/-- A layer that has lost its values, and keeps no counts. -/
def strippedLayer : FormatLayer := ⟨.float2, ⟨#[], none, .blank 9 1⟩⟩

/-- These two disagree on counts too, and are refused for the values, which are looked at first. -/
theorem absorb_first_refusal_of_stripped :
    [1, 0].Perm (List.range strippedLayer.mask.tileCount) ∧
      ∃ done,
        strippedLayer.absorb (filled .float2 9 1 (.zero 4)) (.blank 3 3) = .ok done ∧
        strippedLayer.absorbInOrder [1, 0] (filled .float2 9 1 (.zero 4)) (.blank 3 3)
          = .ok done ∧
        done = ⟨.error (.invalid (.length .dstValues 0 128)), strippedLayer, .blank 3 3⟩ := by
  have htiles : [1, 0].Perm (List.range strippedLayer.mask.tileCount) := by decide +kernel
  obtain ⟨done, hdone, horder, hrefused⟩ :=
    absorb_first_refusal strippedLayer (filled .float2 9 1 (.zero 4)) htiles (.blank 3 3)
  have hfirst : MergeCheck.firstFailed strippedLayer (filled .float2 9 1 (.zero 4))
      = some .dstValues := by decide +kernel
  rw [hfirst] at hrefused
  exact ⟨htiles, done, hdone, horder, hrefused⟩

end FormatLayer

end RenderFold
