/-
Runs of merges into a new frame.

`Frame.FoldOf` relates a list of sources to the frame that merging them one after another leaves
behind. Beauty holds the last samples of all sources. An auxiliary kind or a named output holds the
last samples of the sources at the end of the list that have it in use, in one layout: a gap, or a
change of the layout, starts it afresh.
-/
import Mathlib.Data.List.DropRight
import RenderFold.Proofs.Layer.Latest
import RenderFold.Proofs.Frame.History

namespace RenderFold

/-- A merge that succeeds is one of the merges of frames that join, and answers with the tally of
such a merge. -/
theorem Accumulator.tally_of_merge {a a' : Accumulator} {src dst dst' : Frame}
    {report report' : ChangeSet} {coarse : Bool} {tally : Tally} (hsound : dst.Sound)
    (hmerge : a.merge src dst report coarse = .ok ⟨.ok tally, a', dst', report'⟩) :
    dst.Joins src ∧ src.Merges ⟨dst, report⟩ ⟨dst', report'⟩ ∧
      tally = src.mergeTally ⟨dst, report⟩ := by
  obtain ⟨done, hdone, hresult⟩ := bind_eq_ok.1 hmerge
  obtain ⟨hanswer, -, rfl, rfl⟩ := Merged.mk.inj (Except.ok.inj hresult)
  have hjoins := Frame.joins_of_absorb hsound hdone hanswer
  obtain ⟨y, hy, hmerges⟩ := Frame.absorb_eq_ok hjoins report a.recorder coarse
  obtain rfl := Except.ok.inj (hy.symm.trans hdone)
  exact ⟨hjoins, hmerges, (Except.ok.inj hanswer).symm⟩

theorem Accumulator.merges_of_merge {a a' : Accumulator} {src dst dst' : Frame}
    {report report' : ChangeSet} {coarse : Bool} {tally : Tally} (hsound : dst.Sound)
    (hmerge : a.merge src dst report coarse = .ok ⟨.ok tally, a', dst', report'⟩) :
    dst.Joins src ∧ src.Merges ⟨dst, report⟩ ⟨dst', report'⟩ :=
  have hall := a.tally_of_merge hsound hmerge
  ⟨hall.1, hall.2.1⟩

/-- Frames that join are merged. -/
theorem Accumulator.exists_merge_of_joins {src dst : Frame} (hjoins : dst.Joins src)
    (a : Accumulator) (report : ChangeSet) (coarse : Bool) :
    ∃ tally a' dst' report',
      a.merge src dst report coarse = .ok ⟨.ok tally, a', dst', report'⟩ := by
  obtain ⟨y, hy, -⟩ := Frame.absorb_eq_ok hjoins report a.recorder coarse
  exact ⟨_, _, _, _, bind_eq_ok.2 ⟨_, hy, rfl⟩⟩

namespace Frame

/-- The frame that is left when sources are merged one after another into a new frame. The
accumulators and the change sets are free. -/
inductive FoldOf (w h : UInt32) : List Frame → Frame → Prop
  | nil : FoldOf w h [] (new w h)
  | snoc {srcs : List Frame} {src dst dst' : Frame} {a a' : Accumulator}
      {report report' : ChangeSet} {coarse : Bool} {tally : Tally} :
      FoldOf w h srcs dst →
      a.merge src dst report coarse = .ok ⟨.ok tally, a', dst', report'⟩ →
      FoldOf w h (srcs ++ [src]) dst'

/-- The buffers of an auxiliary kind in the sources since the kind was last not in use. -/
def trailingAux (k : AuxKind) (srcs : List Frame) : List (Layer (Texel k.channels)) :=
  (srcs.rtakeWhile fun s => (s.aux? k).isSome).filterMap fun s => s.aux? k

/-- The pixels of a named output in the sources since the output last had no pixels of the layout in
use. -/
def trailingAov (name : String) (format : PixelFormat) (srcs : List Frame) : List FormatLayer :=
  (srcs.rtakeWhile fun s => (s.liveLayer name).any fun l => l.format = format).filterMap
    fun s => s.liveLayer name

section Fold

variable {w h : UInt32} {srcs : List Frame} {src dst : Frame}

theorem trailingAux_concat (k : AuxKind) (srcs : List Frame) (src : Frame) :
    trailingAux k (srcs ++ [src])
      = match src.aux? k with
        | some l => trailingAux k srcs ++ [l]
        | none => [] := by
  rw [trailingAux, List.rtakeWhile_concat]
  cases hl : src.aux? k with
  | some l => simp [trailingAux, hl]
  | none => simp

theorem trailingAov_concat (name : String) (format : PixelFormat) (srcs : List Frame)
    (src : Frame) :
    trailingAov name format (srcs ++ [src])
      = match (src.liveLayer name).filter fun l => l.format = format with
        | some l => trailingAov name format srcs ++ [l]
        | none => [] := by
  rw [trailingAov, List.rtakeWhile_concat]
  cases hl : src.liveLayer name with
  | none => simp
  | some l =>
      by_cases hformat : l.format = format
      · simp [trailingAov, hl, hformat, Option.filter_some]
      · simp [hformat, Option.filter_some]

theorem FoldOf.fits (hrun : FoldOf w h srcs dst) :
    dst.width = w ∧ dst.height = h ∧ dst.Sound ∧ dst.Fits w h := by
  induction hrun with
  | nil => exact ⟨rfl, rfl, new_sound w h, new_fits w h⟩
  | snoc _ hmerge ih =>
      obtain ⟨hwidth, hheight, hsound, -⟩ := ih
      obtain ⟨hjoins, hm⟩ := Accumulator.merges_of_merge hsound hmerge
      refine ⟨hm.width_eq.trans hwidth, hm.height_eq.trans hheight, hm.sound hjoins, ?_⟩
      have hfits := hm.fits hjoins
      rwa [hwidth, hheight] at hfits

/-- Sources that fit can always be merged. -/
theorem FoldOf.exists_snoc (hrun : FoldOf w h srcs dst) (hwidth : src.width = w)
    (hheight : src.height = h) (hsrc : src.Fits w h) :
    ∃ dst', FoldOf w h (srcs ++ [src]) dst' := by
  obtain ⟨rfl, rfl, hsound, hfits⟩ := hrun.fits
  obtain ⟨_, _, dst', _, hmerge⟩ := Accumulator.exists_merge_of_joins
    ⟨hsound, hfits, hwidth, hheight, hsrc⟩ ⟨default, .new⟩ .new false
  exact ⟨dst', hrun.snoc hmerge⟩

/-- Beauty accumulates all sources. -/
theorem FoldOf.beauty (hrun : FoldOf w h srcs dst) :
    dst.beauty.Accumulates w h true (.zero 4) (srcs.map Frame.beauty) := by
  induction hrun with
  | nil =>
      rw [new_beauty]
      exact Layer.accumulates_filled w h true _
  | snoc hrun hmerge ih =>
      obtain ⟨rfl, rfl, hsound, -⟩ := hrun.fits
      obtain ⟨hjoins, hm⟩ := Accumulator.merges_of_merge hsound hmerge
      rw [hm.beauty_eq.1, List.map_append]
      exact ih.merged (hjoins.source .beauty)

/-- An auxiliary kind accumulates the sources since it was last not in use. -/
theorem FoldOf.aux (hrun : FoldOf w h srcs dst) (k : AuxKind) :
    (dst.aux? k).isSome = (srcs.getLast?.bind fun s => s.aux? k).isSome ∧
      (dst.auxBase k).Accumulates w h k.counted (.zero k.channels) (trailingAux k srcs) := by
  induction hrun with
  | nil =>
      have hnone : (new w h).aux? k = none := init_aux?_eq_none blank w h k
      rw [auxBase, hnone]
      exact ⟨rfl, Layer.accumulates_filled w h k.counted _⟩
  | snoc hrun hmerge ih =>
      obtain ⟨rfl, rfl, hsound, -⟩ := hrun.fits
      obtain ⟨hjoins, hm⟩ := Accumulator.merges_of_merge hsound hmerge
      rename_i srcs src dst dst' a a' report report' coarse tally
      have haux : dst'.aux? k = (src.aux? k).map (dst.auxBase k).merged :=
        (hm.aux?_eq hjoins k).1
      rw [auxBase, haux, trailingAux_concat, List.getLast?_concat, Option.bind_some]
      cases hs : src.aux? k with
      | none =>
          have hwidth : dst'.width = dst.width := hm.width_eq
          have hheight : dst'.height = dst.height := hm.height_eq
          rw [hwidth, hheight]
          exact ⟨rfl, Layer.accumulates_filled _ _ k.counted _⟩
      | some l => exact ⟨rfl, ih.2.merged (hjoins.source (.aux k) l hs)⟩

/-- A named output accumulates the sources since it last had no pixels of its layout in use. -/
theorem FoldOf.aov (hrun : FoldOf w h srcs dst) (name : String) (format : PixelFormat)
    (background : Rgba) :
    ∃ blank, (dst.aovBase name format background).Accumulates format w h blank
      (trailingAov name format srcs) := by
  induction hrun generalizing background with
  | nil =>
      have hnone : (new w h).liveLayer name = none := init_liveLayer_eq_none Frame.blank w h name
      rw [aovBase, hnone]
      exact ⟨_, FormatLayer.accumulates_filled format w h background⟩
  | snoc hrun hmerge ih =>
      obtain ⟨rfl, rfl, hsound, -⟩ := hrun.fits
      obtain ⟨hjoins, hm⟩ := Accumulator.merges_of_merge hsound hmerge
      rename_i srcs src dst dst' a a' report report' coarse tally
      have hwidth : dst'.width = dst.width := hm.width_eq
      have hheight : dst'.height = dst.height := hm.height_eq
      have hfresh : ∃ blank, (FormatLayer.filled format dst'.width dst'.height
          background).Accumulates format dst.width dst.height blank [] := by
        rw [hwidth, hheight]
        exact ⟨_, FormatLayer.accumulates_filled format _ _ background⟩
      rw [aovBase, trailingAov_concat]
      cases hs : src.liveLayer name with
      | none =>
          have hnone : dst'.liveLayer name = none := hm.liveLayer_eq_none hs
          rw [hnone]
          exact hfresh
      | some s =>
          obtain ⟨b, hb, hlayer⟩ := Option.bind_eq_some_iff.1 hs
          have hlive : dst'.liveLayer name
              = some ((dst.aovBase name s.format b.background).merged s) :=
            hm.liveLayer_pixels hjoins hb hlayer
          have hformat : ((dst.aovBase name s.format b.background).merged s).format = s.format :=
            (hjoins.aov_hasShape hb hlayer).format_eq
          rw [hlive, Option.filter_some, Option.filter_some, hformat]
          by_cases hsame : s.format = format
          · subst hsame
            obtain ⟨blank, hbase⟩ := ih b.background
            simp only [decide_true, if_true, Option.getD_some]
            exact ⟨blank, hbase.merged (hjoins.source (.aov name) s hs)⟩
          · -- the source uses another layout, so nothing of the one looked at is left
            simp only [hsame, decide_false, Bool.false_eq_true, if_false]
            exact hfresh

/-! ### Runs -/

/-- In a list of samples whose counts never decrease, no sample counts more than the last. -/
theorem count_le_of_prefix {V : Type} {before samples : List (V × UInt32)} (blank : V)
    (hfront : before <+: samples) (hcounts : samples.Pairwise fun s t => s.2 ≤ t.2) :
    (before.getLast?.getD (blank, 0)).2 ≤ (samples.getLast?.getD (blank, 0)).2 := by
  cases hbefore : before.getLast? with
  | none => exact UInt32.zero_le
  | some s =>
      obtain ⟨front, rfl⟩ := List.getLast?_eq_some_iff.1 hbefore
      obtain ⟨after, rfl⟩ := hfront
      cases hafter : after.getLast? with
      | none =>
          obtain rfl := List.getLast?_eq_none_iff.1 hafter
          simp
      | some t =>
          obtain ⟨middle, rfl⟩ := List.getLast?_eq_some_iff.1 hafter
          have hle : s.2 ≤ t.2 := by
            rw [List.pairwise_append] at hcounts
            exact hcounts.2.2 s (by simp) t (by simp)
          rw [← List.append_assoc, List.getLast?_concat]
          exact hle

/-- What a run of merges leaves of the intrinsic buffers: beauty holds the last samples of all
sources, and an auxiliary kind is in use exactly if the last source has it in use, and then holds
the last samples since it was last not in use. Where the counts of the samples of beauty never
decrease, the count that is held never decreases either. -/
theorem fold_holds_last (hrun : FoldOf w h srcs dst) :
    dst.beauty.HoldsLast w h true (.zero 4) (srcs.map Frame.beauty) ∧
      (∀ k, (dst.aux? k).isSome = (srcs.getLast?.bind fun s => s.aux? k).isSome ∧
        ∀ l, dst.aux? k = some l →
          l.HoldsLast w h k.counted (.zero k.channels) (trailingAux k srcs)) ∧
      ∀ x y, x < w → y < h →
        ((srcs.map Frame.beauty).filterMap fun l => l.sample? true x y).Pairwise
          (fun s t => s.2 ≤ t.2) →
        ∀ before mid, before <+: srcs → FoldOf w h before mid →
          ∃ s t, mid.beauty.pixel? x y = some s ∧ dst.beauty.pixel? x y = some t ∧ s.2 ≤ t.2 := by
  refine ⟨hrun.beauty.holdsLast, ?_, ?_⟩
  · intro k
    obtain ⟨hon, hbase⟩ := hrun.aux k
    refine ⟨hon, ?_⟩
    intro l hl
    rw [auxBase, hl] at hbase
    exact hbase.holdsLast
  · intro x y hx hy hcounts before mid hfront hmid
    obtain ⟨hlast, -⟩ := hrun.beauty.holdsLast x y hx hy
    obtain ⟨hlast', -⟩ := hmid.beauty.holdsLast x y hx hy
    refine ⟨_, _, hlast', hlast, ?_⟩
    exact count_le_of_prefix _ ((hfront.map _).filterMap _) hcounts

def warmFrame : Frame :=
  (((new 2 2).edit (.beauty (.setPixel 1 1 #v[1, 2, 3, 4] 5))).edit (.enable .heatMap)).edit
    (.aux .heatMap (.setPixel 1 1 #v[9] 6))

def coldFrame : Frame := (new 2 2).edit (.enable .heatMap)

theorem warmFrame_fits : warmFrame.Fits 2 2 :=
  (validate_eq_ok_iff ((((Reached.new 2 2).edit _).edit _).edit _).sound).1 rfl

theorem coldFrame_fits : coldFrame.Fits 2 2 :=
  (validate_eq_ok_iff ((Reached.new 2 2).edit _).sound).1 rfl

/-- Beauty survives sources without samples; the heat map does not survive a source that has it
switched off. -/
theorem fold_holds_last_over_gap :
    ∃ dst, FoldOf 2 2 [warmFrame, new 2 2, coldFrame] dst ∧
      dst.beauty.pixel? 1 1 = some (#v[1, 2, 3, 4], 5) ∧ dst.beauty.mask.has 1 1 = true ∧
      ∃ l, dst.aux? .heatMap = some l ∧ l.pixel? 1 1 = some (#v[0], 0) ∧
        l.mask.has 1 1 = false := by
  obtain ⟨_, hfirst⟩ := (FoldOf.nil (w := 2) (h := 2)).exists_snoc rfl rfl warmFrame_fits
  obtain ⟨_, hsecond⟩ := hfirst.exists_snoc rfl rfl (new_fits 2 2)
  obtain ⟨dst, hthird⟩ := hsecond.exists_snoc rfl rfl coldFrame_fits
  have hrun : FoldOf 2 2 [warmFrame, new 2 2, coldFrame] dst := hthird
  obtain ⟨hbeauty, haux, -⟩ := fold_holds_last hrun
  obtain ⟨hon, hheld⟩ := haux .heatMap
  obtain ⟨l, hl⟩ := Option.isSome_iff_exists.1 (hon.trans (by decide +kernel))
  have hlast : (([warmFrame, new 2 2, coldFrame].map Frame.beauty).filterMap
      fun s => s.sample? true 1 1).getLast? = some (#v[1, 2, 3, 4], 5) := by decide +kernel
  have hnone : ((trailingAux .heatMap [warmFrame, new 2 2, coldFrame]).filterMap
      fun s => s.sample? true 1 1).getLast? = none := by decide +kernel
  have hpixel := hbeauty 1 1 (by decide) (by decide)
  have hheat := hheld l hl 1 1 (by decide) (by decide)
  simp only [hlast] at hpixel
  simp only [AuxKind.counted, hnone] at hheat
  exact ⟨dst, hrun, hpixel.1, hpixel.2, l, hl, hheat.1, hheat.2⟩

/-- What a run of merges leaves of a named output that owns pixels in the last source: it takes its
settings from there, and it holds the last samples since it last had no pixels of this layout in
use. -/
theorem fold_aov_holds_last (hrun : FoldOf w h srcs dst) (hlast : srcs.getLast? = some src)
    {name : String} {a : Aov} {s : FormatLayer} (ha : src.findAov name = some a)
    (hactive : a.active = true) (hs : a.layer? = some s) :
    ∃ b l, dst.findAov name = some b ∧ b.active = true ∧ b.layer? = some l ∧
      l.format = s.format ∧ l.mask.width = w ∧ l.mask.height = h ∧
      b.background = a.background ∧ b.closestFilter = a.closestFilter ∧
      l.HoldsLast w h (trailingAov name s.format srcs) := by
  have hfits := hrun.fits
  have hall := hrun.aov name s.format a.background
  have hb := activeAov_eq_some_iff.2 ⟨ha, hactive⟩
  cases hrun with
  | nil => cases hlast
  | snoc hrun hmerge =>
      rw [List.getLast?_concat, Option.some.injEq] at hlast
      subst hlast
      obtain ⟨rfl, rfl, hsound, -⟩ := hrun.fits
      obtain ⟨hjoins, hm⟩ := Accumulator.merges_of_merge hsound hmerge
      have hfind := hm.findAov_pixels hjoins hb hs
      have hshape := hjoins.aov_hasShape hb hs
      refine ⟨_, _, hfind, rfl, rfl, hshape.format_eq, hshape.layer.width_eq,
        hshape.layer.height_eq, rfl, rfl, ?_⟩
      obtain ⟨blank, hbase⟩ := hall
      rw [aovBase, hm.liveLayer_pixels hjoins hb hs, Option.filter_some, hshape.format_eq] at hbase
      simp only [decide_true, if_true, Option.getD_some] at hbase
      exact hbase.holdsLast

def openFrame : Frame := (new 2 2).edit (.aov "depth" (.setup .float 2 2 (.zero 4) true))

def depthFrame : Frame := openFrame.edit (.aov "depth" (.setPixel 0 1 #v[7, 0, 0, 0] 3))

theorem openFrame_findAov :
    openFrame.findAov "depth"
      = some ⟨.pixels (.filled .float 2 2 (.zero 4)), true, .zero 4, true⟩ := rfl

theorem openFrame_fits : openFrame.Fits 2 2 :=
  (validate_eq_ok_iff ((Reached.new 2 2).edit _).sound).1 rfl

theorem depthFrame_fits : depthFrame.Fits 2 2 :=
  (validate_eq_ok_iff (((Reached.new 2 2).edit _).edit _).sound).1 rfl

/-- A sample from before a source without the output does not reappear. -/
theorem fold_aov_holds_last_over_gap :
    ∃ dst b l value, FoldOf 2 2 [depthFrame, new 2 2, openFrame] dst ∧
      dst.findAov "depth" = some b ∧ b.active = true ∧ b.layer? = some l ∧
      l.mask.has 0 1 = false ∧ l.pixel? 0 1 = some (value, 0) := by
  obtain ⟨_, hfirst⟩ := (FoldOf.nil (w := 2) (h := 2)).exists_snoc rfl rfl depthFrame_fits
  obtain ⟨_, hsecond⟩ := hfirst.exists_snoc rfl rfl (new_fits 2 2)
  obtain ⟨dst, hthird⟩ := hsecond.exists_snoc rfl rfl openFrame_fits
  have hrun : FoldOf 2 2 [depthFrame, new 2 2, openFrame] dst := hthird
  obtain ⟨b, l, hb, hactive, hl, -, -, -, -, -, hheld⟩ :=
    fold_aov_holds_last hrun rfl openFrame_findAov rfl rfl
  have hnone : ((trailingAov "depth" .float [depthFrame, new 2 2, openFrame]).filterMap
      fun s => s.sample? 0 1).getLast? = none := by decide +kernel
  have hpixel := hheld 0 1 (by decide) (by decide)
  rw [FormatLayer.filled_eq] at hpixel
  simp only [hnone] at hpixel
  obtain ⟨hinactive, value, hvalue⟩ := hpixel
  exact ⟨dst, b, l, value, hrun, hb, hactive, hl, hinactive, hvalue⟩

end Fold

end Frame

end RenderFold
