/-
What a merge of layers changes, over the whole image.

`Absorbed.Overwrites` describes the outcome of a merge that takes the source at given places and
leaves the destination alone at all others. `absorb_counted` and `absorb_uncounted` say for which
places this holds of a merge whose checks have passed: for those where the source offers something
new. What the arrays and masks hold in the padding, and what the report held before, is free.
-/
import Mathlib.Logic.Basic
import Mathlib.Tactic.ByContra
import RenderFold.Proofs.Layer.Absorb
import RenderFold.Texel

namespace RenderFold

namespace Layer

section Outcome

variable {V : Type} [Inhabited V]

/-- The outcome of a merge that takes the source at the places `taken`. The report has the size of
the destination, and its tiles list just these places; values and counts are the source's there and
the old ones elsewhere, the padding included; the mask is the old one united with the report; and
the answer is the number of pixels of the report. -/
structure Absorbed.Overwrites (done : Absorbed (Layer V)) (dst src : Layer V)
    (taken : Nat × PixelId → Prop) : Prop where
  report_size : done.report.size = dst.mask.size
  has_report_iff : ∀ i : Nat × PixelId, i.1 < dst.mask.tileCount →
    (Tile.has (done.report.tileD i.1) i.2 = true ↔ taken i)
  hasShape : done.dst.HasShape dst.mask.width dst.mask.height dst.isCounted
  cell_of_taken : ∀ i : Nat × PixelId, i.1 < dst.mask.tileCount → taken i →
    (done.dst.cell i).value = (src.cell i).value ∧ (done.dst.cell i).count = (src.cell i).count
  cell_of_not_taken : ∀ i : Nat × PixelId, i.1 < dst.mask.tileCount → ¬ taken i →
    (done.dst.cell i).value = (dst.cell i).value ∧ (done.dst.cell i).count = (dst.cell i).count
  union_report : dst.mask.union done.report = (true, done.dst.mask)
  answer_eq : done.answer = .ok done.report.card

/-- A pixel holds data after a merge if it did before or has changed. -/
theorem Absorbed.Overwrites.active_eq {done : Absorbed (Layer V)} {dst src : Layer V}
    {taken : Nat × PixelId → Prop} (hdone : done.Overwrites dst src taken) (i : Nat × PixelId) :
    (done.dst.cell i).active
      = ((dst.cell i).active || Tile.has (done.report.tileD i.1) i.2) := by
  obtain ⟨hwidth, hheight⟩ := ImageSize.mk.inj hdone.report_size
  have hmask := congrArg Prod.snd hdone.union_report
  rw [cell, ← show _ = done.dst.mask from hmask]
  exact PixelMask.has_tileD_union hwidth.symm hheight.symm i

/-- Where the places taken can be decided, so can the report be computed. -/
theorem Absorbed.Overwrites.has_report_eq {done : Absorbed (Layer V)} {dst src : Layer V}
    {taken : Nat × PixelId → Prop} [DecidablePred taken] (hdone : done.Overwrites dst src taken)
    (i : Nat × PixelId) (hi : i.1 < dst.mask.tileCount) :
    Tile.has (done.report.tileD i.1) i.2 = decide (taken i) := by
  rw [Bool.eq_iff_iff, hdone.has_report_iff i hi, decide_eq_true_iff]

variable [DecidableEq V]

/-- The mask grows by the report. -/
theorem union_changes {dst src : Layer V} {w h : UInt32} {counted : Bool}
    (hdst : dst.HasShape w h counted) (hsrc : src.HasShape w h counted) :
    dst.mask.union (dst.changes src) = (true, (dst.merged src).mask) := by
  have hmerged : (dst.merged src).HasShape w h counted := merged_hasShape hdst
  have hwidth : dst.mask.width = (dst.changes src).width := rfl
  have hheight : dst.mask.height = (dst.changes src).height := rfl
  refine Prod.ext (PixelMask.union_eq_true hwidth hheight) ?_
  obtain ⟨hwidth', hheight'⟩ := PixelMask.union_size dst.mask (dst.changes src)
  refine PixelMask.ext_has_tileD hwidth' hheight' fun i hi => ?_
  rw [hmerged.width_eq, hmerged.height_eq] at hi
  have hactive : Tile.has ((dst.merged src).mask.tileD i.1) i.2 = (dst.mergedCell src i).active :=
    congrArg Cell.active (cell_merged hdst hsrc hi)
  rw [PixelMask.has_tileD_union hwidth hheight, has_changes hdst hi, hactive, mergedCell]
  cases dst.changesAt src i with
  | true => exact Bool.or_true _
  | false => exact Bool.or_false _

/-- A merge whose checks pass takes the source where the rule for single pixels does, and nowhere
else. -/
theorem absorb_overwrites {dst src : Layer V} (hcheck : dst.check src = .ok ())
    {taken : Nat × PixelId → Prop} (htaken : ∀ i, dst.changesAt src i = true ↔ taken i)
    (report : PixelMask) :
    ∃ done, dst.absorb src report = .ok done ∧ done.Overwrites dst src taken := by
  have hdst : dst.HasShape dst.mask.width dst.mask.height dst.isCounted := sound_of_check hcheck
  have hsrc := (check_eq_ok_iff hdst).1 hcheck
  have hcell : ∀ i : Nat × PixelId, i.1 < dst.mask.tileCount →
      (dst.merged src).cell i = dst.mergedCell src i :=
    fun i hi => cell_merged hdst hsrc (hdst.size_tiles ▸ hi)
  refine ⟨_, absorb_eq_ok hdst hsrc report,
    ⟨rfl, ?_, merged_hasShape hdst, ?_, ?_, union_changes hdst hsrc, rfl⟩⟩
  · intro i hi
    rw [has_changes hdst (hdst.size_tiles ▸ hi), htaken]
  · intro i hi hin
    rw [hcell i hi, mergedCell, if_pos ((htaken i).2 hin)]
    exact ⟨rfl, rfl⟩
  · intro i hi hout
    rw [hcell i hi, mergedCell, if_neg (mt (htaken i).1 hout)]
    exact ⟨rfl, rfl⟩

end Outcome

/-! ### What a source offers -/

variable {n : Nat} {dst src : Layer (Texel n)}

theorem texel_ne_iff {v u : Texel n} : v ≠ u ↔ ∃ c, v.get c ≠ u.get c := by
  rw [ne_eq, ← not_forall, not_iff_not]
  constructor
  · rintro rfl c
    rfl
  · intro hall
    exact Vector.ext fun c hc => hall ⟨c, hc⟩

/-- With counts the source offers a sample at a place that lies in the image, that it has active
with a count other than zero, and where a channel or the count is another one. -/
def OffersSample (dst src : Layer (Texel n)) (i : Nat × PixelId) : Prop :=
  dst.grid.interior i = true ∧ (src.cell i).active = true ∧ (src.cell i).count ≠ 0 ∧
    ((∃ c, (dst.cell i).value.get c ≠ (src.cell i).value.get c) ∨
      (dst.cell i).count ≠ (src.cell i).count)

/-- Without counts the source offers a value at a place that lies in the image, that it has active,
and where the destination holds no data or a channel is another one. -/
def OffersValue (dst src : Layer (Texel n)) (i : Nat × PixelId) : Prop :=
  dst.grid.interior i = true ∧ (src.cell i).active = true ∧
    ((dst.cell i).active = false ∨ ∃ c, (dst.cell i).value.get c ≠ (src.cell i).value.get c)

instance (dst src : Layer (Texel n)) (i : Nat × PixelId) : Decidable (dst.OffersSample src i) :=
  inferInstanceAs (Decidable (_ ∧ _ ∧ _ ∧ ((∃ _, _) ∨ _)))

instance (dst src : Layer (Texel n)) (i : Nat × PixelId) : Decidable (dst.OffersValue src i) :=
  inferInstanceAs (Decidable (_ ∧ _ ∧ (_ ∨ ∃ _, _)))

theorem changesAt_iff_offersSample (hcounted : dst.isCounted = true) (i : Nat × PixelId) :
    dst.changesAt src i = true ↔ dst.OffersSample src i := by
  rw [OffersSample, ← texel_ne_iff]
  simp [changesAt, Cell.takes, Cell.sampled, hcounted, and_assoc]

theorem changesAt_iff_offersValue (hcounted : dst.isCounted = false) (i : Nat × PixelId) :
    dst.changesAt src i = true ↔ dst.OffersValue src i := by
  rw [OffersValue, ← texel_ne_iff]
  simp [changesAt, Cell.takes, Cell.sampled, hcounted, or_comm]

/-- A merge with counts takes exactly the samples that the source offers, so that a pixel is
reported if and only if its value or its count is not what it was. -/
theorem absorb_counted (hcheck : dst.check src = .ok ()) (hcounted : dst.isCounted = true)
    (report : PixelMask) :
    ∃ done, dst.absorb src report = .ok done ∧
      done.Overwrites dst src (dst.OffersSample src) ∧
      ∀ i : Nat × PixelId, i.1 < dst.mask.tileCount →
        (Tile.has (done.report.tileD i.1) i.2 = true ↔
          ((done.dst.cell i).value, (done.dst.cell i).count)
            ≠ ((dst.cell i).value, (dst.cell i).count)) := by
  obtain ⟨done, hdone, hover⟩ :=
    absorb_overwrites hcheck (changesAt_iff_offersSample hcounted) report
  refine ⟨done, hdone, hover, ?_⟩
  intro i hi
  rw [hover.has_report_iff i hi]
  constructor
  · intro hoffers
    obtain ⟨hvalue, hcount⟩ := hover.cell_of_taken i hi hoffers
    obtain ⟨-, -, -, hnew⟩ := hoffers
    rw [hvalue, hcount, ne_eq, Prod.mk.injEq, not_and_or]
    exact hnew.imp (fun hc => (texel_ne_iff.2 hc).symm) Ne.symm
  · intro hne
    by_contra hoffers
    obtain ⟨hvalue, hcount⟩ := hover.cell_of_not_taken i hi hoffers
    exact hne (Prod.ext hvalue hcount)

/-- A source with bits in the padding, and with a pixel that is active without a sample. -/
def raggedSource : Layer (Texel 2) where
  values := Array.replicate 128 (Texel.zero 2)
  counts := some ((Array.replicate 128 3).setIfInBounds 1 0)
  mask := (PixelMask.blank 9 1).fill Tile.full

/-- A layer whose only pixel has a count of `raggedSource` and a zero of the other sign. -/
def signedZero : Layer (Texel 2) :=
  ((filled true 9 1 (Texel.zero 2)).setPixel 0 0 #v[0x80000000, 0] 3).2

theorem raggedSource_hasShape : raggedSource.HasShape 9 1 true := by
  refine ⟨rfl, rfl, rfl, by decide +kernel, ?_⟩
  intro counts hcounts
  obtain rfl := Option.some.inj hcounts
  decide +kernel

theorem signedZero_check : signedZero.check raggedSource = .ok () :=
  (check_eq_ok_iff (setPixel_hasShape (filled_hasShape true 9 1 _) 0 0 _ 3)).2
    raggedSource_hasShape

/-- Zeros of different signs are different values, a count of zero offers nothing, and neither does
the padding; a report of another size is replaced. -/
theorem absorb_counted_of_ragged :
    signedZero.check raggedSource = .ok () ∧ signedZero.isCounted = true ∧
      ∃ done, signedZero.absorb raggedSource ((PixelMask.blank 3 3).fill Tile.full) = .ok done ∧
        done.report.size = ⟨9, 1⟩ ∧ Tile.has (done.report.tileD 0) 0 = true ∧
        (done.dst.cell (0, 0)).value = Texel.zero 2 ∧
        Tile.has (done.report.tileD 0) 1 = false ∧ Tile.has (done.report.tileD 1) 1 = false := by
  obtain ⟨done, hdone, hover, -⟩ :=
    absorb_counted signedZero_check rfl ((PixelMask.blank 3 3).fill Tile.full)
  have hzero : signedZero.OffersSample raggedSource (0, 0) := by decide +kernel
  refine ⟨signedZero_check, rfl, done, hdone, hover.report_size, ?_, ?_, ?_, ?_⟩
  · exact (hover.has_report_iff (0, 0) (by decide)).2 hzero
  · exact (hover.cell_of_taken (0, 0) (by decide) hzero).1.trans (by decide +kernel)
  · exact (hover.has_report_eq (0, 1) (by decide)).trans (by decide +kernel)
  · exact (hover.has_report_eq (1, 1) (by decide)).trans (by decide +kernel)

/-- A merge without counts takes exactly the values that the source offers, so that a pixel is
reported if and only if its value, or whether it holds data, is not what it was. Afterwards every
pixel of the image that is active in the source holds data. -/
theorem absorb_uncounted (hcheck : dst.check src = .ok ()) (hcounted : dst.isCounted = false)
    (report : PixelMask) :
    ∃ done, dst.absorb src report = .ok done ∧
      done.Overwrites dst src (dst.OffersValue src) ∧
      (∀ i : Nat × PixelId, i.1 < dst.mask.tileCount → dst.grid.interior i = true →
        (src.cell i).active = true → (done.dst.cell i).active = true) ∧
      ∀ i : Nat × PixelId, i.1 < dst.mask.tileCount →
        (Tile.has (done.report.tileD i.1) i.2 = true ↔
          ((done.dst.cell i).value, (done.dst.cell i).active)
            ≠ ((dst.cell i).value, (dst.cell i).active)) := by
  obtain ⟨done, hdone, hover⟩ :=
    absorb_overwrites hcheck (changesAt_iff_offersValue hcounted) report
  refine ⟨done, hdone, hover, ?_, ?_⟩
  · intro i hi hin hactive
    rw [hover.active_eq, Bool.or_eq_true, hover.has_report_iff i hi]
    cases hheld : (dst.cell i).active with
    | true => exact .inl rfl
    | false => exact .inr ⟨hin, hactive, .inl hheld⟩
  · intro i hi
    rw [hover.active_eq]
    constructor
    · intro hreported
      have hoffers := (hover.has_report_iff i hi).1 hreported
      obtain ⟨hvalue, -⟩ := hover.cell_of_taken i hi hoffers
      obtain ⟨-, -, hnew⟩ := hoffers
      rw [hvalue, hreported, ne_eq, Prod.mk.injEq, not_and_or]
      rcases hnew with hfresh | hc
      · exact .inr (by simp [hfresh])
      · exact .inl (texel_ne_iff.2 hc).symm
    · intro hne
      by_contra hreported
      obtain ⟨hvalue, -⟩ := hover.cell_of_not_taken i hi
        fun hoffers => hreported ((hover.has_report_iff i hi).2 hoffers)
      rw [Bool.not_eq_true] at hreported
      exact hne (Prod.ext hvalue (by simp [hreported]))

/-- A layer without counts whose only pixel has the value that every other place has too. -/
def heldZero : Layer (Texel 2) :=
  ((filled false 9 1 (Texel.zero 2)).setPixel 1 0 (Texel.zero 2) 0).2

theorem heldZero_check : heldZero.check { raggedSource with counts := none } = .ok () :=
  (check_eq_ok_iff (setPixel_hasShape (filled_hasShape false 9 1 _) 1 0 _ 0)).2
    ⟨rfl, rfl, rfl, raggedSource_hasShape.wellSized.1, nofun⟩

/-- A pixel that gets data changes even if its value stays, one that held the same value before does
not, and neither does the padding. -/
theorem absorb_uncounted_of_ragged :
    heldZero.check { raggedSource with counts := none } = .ok () ∧ heldZero.isCounted = false ∧
      ∃ done,
        heldZero.absorb { raggedSource with counts := none } (PixelMask.blank 3 3) = .ok done ∧
        Tile.has (done.report.tileD 0) 0 = true ∧ (done.dst.cell (0, 0)).active = true ∧
        Tile.has (done.report.tileD 0) 1 = false ∧ Tile.has (done.report.tileD 1) 1 = false := by
  obtain ⟨done, hdone, hover, hactive, -⟩ :=
    absorb_uncounted heldZero_check rfl (PixelMask.blank 3 3)
  have hfresh : heldZero.OffersValue { raggedSource with counts := none } (0, 0) := by
    decide +kernel
  refine ⟨heldZero_check, rfl, done, hdone, ?_, ?_, ?_, ?_⟩
  · exact (hover.has_report_iff (0, 0) (by decide)).2 hfresh
  · exact hactive (0, 0) (by decide) hfresh.1 hfresh.2.1
  · exact (hover.has_report_eq (0, 1) (by decide)).trans (by decide +kernel)
  · exact (hover.has_report_eq (1, 1) (by decide)).trans (by decide +kernel)

end Layer

end RenderFold
