/-
Merging the same source again.

Once a source has been merged there is nothing left to take from it: a second merge finds every
buffer as the first one has left it, reports no pixel, and its settings are the ones that are there
already. This holds whatever the change set was, since a merge overwrites it.
-/
import RenderFold.Proofs.Frame.Form

namespace RenderFold

/-! ### Cells and layers -/

/-- After a cell has been merged, the same source is not taken again. -/
theorem Cell.takes_absorb {V : Type} [DecidableEq V] (counted : Bool) (dst src : Cell V) :
    (dst.absorb counted src).takes counted src = false := by
  by_cases htakes : dst.takes counted src = true
  · rw [absorb, if_pos htakes]
    cases counted <;> simp [takes]
  · rw [absorb, if_neg htakes]
    exact Bool.not_eq_true _ ▸ htakes

theorem PixelMask.card_blank (w h : UInt32) : (blank w h).card = 0 := by
  have hnone : (blank w h).activeTiles = [] := by simp [activeTiles_eq]
  rw [card, hnone, List.foldr_nil]

namespace Layer

variable {V : Type} [Inhabited V] [DecidableEq V] {dst src : Layer V} {w h : UInt32}
  {counted : Bool}

theorem changesAt_merged (hdst : dst.HasShape w h counted) (hsrc : src.HasShape w h counted)
    {i : Nat × PixelId} (hi : i.1 < (TileGrid.ofSize w h).tileCount) :
    (dst.merged src).changesAt src i = false := by
  have hmerged : (dst.merged src).HasShape w h counted := merged_hasShape hdst
  rw [changesAt, cell_merged hdst hsrc hi, hmerged.isCounted_eq, grid, hmerged.grid_eq]
  -- in the padding nothing is ever taken
  cases hin : (TileGrid.ofSize w h).interior i with
  | false => rfl
  | true => rw [mergedCell_of_interior hdst hin, Cell.takes_absorb, Bool.and_false]

theorem merged_merged (hdst : dst.HasShape w h counted) (hsrc : src.HasShape w h counted) :
    (dst.merged src).merged src = dst.merged src := by
  have hmerged : (dst.merged src).HasShape w h counted := merged_hasShape hdst
  apply ext_cell (merged_hasShape hmerged) hmerged
  intro i hi
  rw [cell_merged hmerged hsrc hi, mergedCell, if_neg]
  rw [changesAt_merged hdst hsrc hi]
  exact Bool.false_ne_true

theorem changes_merged (hdst : dst.HasShape w h counted) (hsrc : src.HasShape w h counted) :
    (dst.merged src).changes src = .blank w h := by
  have hmerged : (dst.merged src).HasShape w h counted := merged_hasShape hdst
  apply PixelMask.ext_has_tileD hmerged.width_eq hmerged.height_eq
  intro i hi
  rw [has_changes hmerged hi, changesAt_merged hdst hsrc hi, PixelMask.tileD_blank, Tile.has_zero]

end Layer

namespace FormatLayer

variable {dst src : FormatLayer} {format : PixelFormat} {w h : UInt32}

theorem merged_merged (hdst : dst.HasShape format w h) (hsrc : src.HasShape format w h) :
    (dst.merged src).merged src = dst.merged src := by
  obtain ⟨d, rfl, hd⟩ := hdst.exists_layer
  obtain ⟨s, rfl, hs⟩ := hsrc.exists_layer
  rw [merged_mk, merged_mk, Layer.merged_merged hd hs]

theorem changes_merged (hdst : dst.HasShape format w h) (hsrc : src.HasShape format w h) :
    (dst.merged src).changes src = .blank w h := by
  obtain ⟨d, rfl, hd⟩ := hdst.exists_layer
  obtain ⟨s, rfl, hs⟩ := hsrc.exists_layer
  rw [merged_mk, changes_mk, Layer.changes_merged hd hs]

end FormatLayer

/-! ### Tallies -/

namespace Tally

/-- The tally of the same named outputs in which nothing has changed. -/
def unchanged (t : Tally) : Tally := ⟨0, .ofFn fun _ => 0, t.aovs.mapEntries fun _ _ => 0⟩

theorem Counts.unchanged {t : Tally} {r s : ChangeSet} (ht : t.Counts r) {w h : UInt32}
    (hmasks : ∀ part, s.mask? part = (r.mask? part).map fun _ => .blank w h) :
    t.unchanged.Counts s where
  beauty := by
    have hbeauty : s.beauty = .blank w h := Option.some.inj (hmasks .beauty)
    rw [hbeauty, PixelMask.card_blank]
    rfl
  aux k := by
    rw [show s.aux? k = _ from hmasks (.aux k), Tally.unchanged, PerKind.get_ofFn]
    cases r.mask? (.aux k) with
    | none => rfl
    | some m => exact (PixelMask.card_blank w h).symm
  aovs name := by
    rw [show s.liveMask name = _ from hmasks (.aov name), Tally.unchanged,
      NameTable.get?_mapEntries, ht.aovs, ChangeSet.mask?]
    cases r.liveMask name with
    | none => rfl
    | some m => exact congrArg some (PixelMask.card_blank w h).symm

end Tally

namespace Frame

section Again

variable {src : Frame} {x y z : Exchange} {later : ChangeSet}

/-- The frames still join after a merge. -/
theorem Merges.joins (hm : src.Merges x y) (hjoins : x.dst.Joins src) : y.dst.Joins src where
  sound := hm.sound hjoins
  fits := by
    rw [hm.width_eq, hm.height_eq]
    exact hm.fits hjoins
  width_eq := hjoins.width_eq.trans hm.width_eq.symm
  height_eq := hjoins.height_eq.trans hm.height_eq.symm
  source := by
    rw [hm.width_eq, hm.height_eq]
    exact hjoins.source

/-- What an auxiliary kind is merged into after a merge is what the merge has made of it. -/
theorem Merges.auxBase_eq (hm : src.Merges x y) (hjoins : x.dst.Joins src) {k : AuxKind}
    {s : Layer (Texel k.channels)} (hs : src.aux? k = some s) :
    y.dst.auxBase k = (x.dst.auxBase k).merged s := by
  rw [auxBase, (hm.aux?_eq hjoins k).1, hs]
  rfl

theorem Merges.aovBase_eq (hm : src.Merges x y) (hjoins : x.dst.Joins src) {name : String}
    {a : Aov} {s : FormatLayer} (ha : src.activeAov name = some a) (hs : a.layer? = some s) :
    y.dst.aovBase name s.format a.background
      = (x.dst.aovBase name s.format a.background).merged s := by
  have hformat := (hjoins.aov_hasShape ha hs).format_eq
  rw [aovBase, hm.liveLayer_pixels hjoins ha hs, Option.filter_some, hformat]
  simp

/-- Merging the same source again leaves the destination as it is. -/
theorem Merges.dst_again (hm : src.Merges x y) (hjoins : x.dst.Joins src)
    (hagain : src.Merges ⟨y.dst, later⟩ z) : z.dst = y.dst := by
  have hjoins' := hm.joins hjoins
  apply ext_get hagain.width_eq hagain.height_eq
  · rw [hagain.beauty_eq.1]
    simp only [hm.beauty_eq.1]
    exact Layer.merged_merged (hjoins.fits .beauty) (hjoins.source .beauty)
  · intro k
    have hfirst := congrArg Prod.fst (hm.aux_eq hjoins k)
    have hsecond := congrArg Prod.fst (hagain.aux_eq hjoins' k)
    cases hs : src.aux? k with
    | none =>
        simp only [Exchange.view, hs] at hfirst hsecond
        rw [hsecond, hfirst]
        rfl
    | some s =>
        simp only [Exchange.view, hs] at hfirst hsecond
        rw [hsecond, hfirst, hm.auxBase_eq hjoins hs, Layer.merged_merged
          (auxBase_hasShape hjoins.fits k) (hjoins.source (.aux k) s hs)]
  · intro name
    rcases src.activeAov_cases name with ha | ⟨a, target, ha, hs⟩ | ⟨a, s, ha, hs⟩
    · rw [hagain.findAov_inactive ha, hm.findAov_inactive ha]
      cases x.dst.findAov name <;> rfl
    · rw [hagain.findAov_reference ha hs, hm.findAov_reference ha hs]
      rfl
    · rw [hagain.findAov_pixels hjoins' ha hs, hm.findAov_pixels hjoins ha hs,
        hm.aovBase_eq hjoins ha hs, FormatLayer.merged_merged
          (aovBase_hasShape hjoins.fits name s.format a.background) (hjoins.source_layer ha hs)]
  · rw [Bool.eq_iff_iff, hagain.hasOutputs_iff, hm.hasOutputs_iff]

/-- Merging the same source again changes no pixel. -/
theorem Merges.mask?_again (hm : src.Merges x y) (hjoins : x.dst.Joins src)
    (hagain : src.Merges ⟨y.dst, later⟩ z) (part : FramePart) :
    z.report.mask? part = (y.report.mask? part).map fun _ => .blank src.width src.height := by
  have hjoins' := hm.joins hjoins
  rw [hjoins.width_eq, hjoins.height_eq]
  cases part with
  | beauty =>
      rw [ChangeSet.mask?, hagain.beauty_eq.2]
      simp only [hm.beauty_eq.1]
      exact congrArg some (Layer.changes_merged (hjoins.fits .beauty) (hjoins.source .beauty))
  | aux k =>
      rw [ChangeSet.mask?, ChangeSet.mask?, (hagain.aux?_eq hjoins' k).2, (hm.aux?_eq hjoins k).2]
      cases hs : src.aux? k with
      | none => rfl
      | some s =>
          simp only [Option.map_some, hm.auxBase_eq hjoins hs]
          rw [Layer.changes_merged (auxBase_hasShape hjoins.fits k) (hjoins.source (.aux k) s hs)]
  | aov name =>
      rw [ChangeSet.mask?, ChangeSet.mask?, ChangeSet.liveMask, ChangeSet.liveMask]
      rcases src.activeAov_cases name with ha | ⟨a, target, ha, hs⟩ | ⟨a, s, ha, hs⟩
      · rw [hagain.findChange_inactive ha, hm.findChange_inactive ha]
        cases later.findAov name <;> cases x.report.findAov name <;> rfl
      · rw [hagain.findChange_reference ha hs, hm.findChange_reference ha hs]
        rfl
      · rw [hagain.findChange_pixels hjoins' ha hs, hm.findChange_pixels hjoins ha hs,
          hm.aovBase_eq hjoins ha hs, FormatLayer.changes_merged
            (aovBase_hasShape hjoins.fits name s.format a.background) (hjoins.source_layer ha hs)]
        rfl

end Again

/-- A merge that succeeds can be repeated, with any accumulator and whatever is in the change set by
then: the destination stays as it is, the tally has the same named outputs and no changed pixel, and
the change set has empty masks for the same parts. -/
theorem merge_again {a a' : Accumulator} {src dst dst' : Frame} {report report' : ChangeSet}
    {coarse : Bool} {tally : Tally} (hdst : dst.Reached)
    (hmerge : a.merge src dst report coarse = .ok ⟨.ok tally, a', dst', report'⟩)
    (b : Accumulator) (later : ChangeSet) (coarse' : Bool) :
    ∃ b' report'',
      b.merge src dst' later coarse' = .ok ⟨.ok tally.unchanged, b', dst', report''⟩ ∧
        ∀ part, report''.mask? part
          = (report'.mask? part).map fun _ => .blank src.width src.height := by
  obtain ⟨hjoins, hm, rfl⟩ := a.tally_of_merge hdst.sound hmerge
  have hjoins' : dst'.Joins src := hm.joins hjoins
  obtain ⟨_, b', dst'', report'', hagain⟩ :=
    Accumulator.exists_merge_of_joins hjoins' b later coarse'
  obtain ⟨-, hm', rfl⟩ := b.tally_of_merge hjoins'.sound hagain
  have hdst' : dst'' = dst' := hm.dst_again hjoins hm'
  have hmasks := hm.mask?_again hjoins hm'
  have htally : src.mergeTally ⟨dst', later⟩ = (src.mergeTally ⟨dst, report⟩).unchanged :=
    (hm'.counts hjoins').unique ((hm.counts hjoins).unchanged hmasks) fun _ => rfl
  rw [hdst', htally] at hagain
  exact ⟨b', report'', hagain, hmasks⟩

/-- The sample of the source is merged the first time and not the second time. -/
theorem merge_again_of_depth :
    ∃ tally a' dst' report' b' report'',
      (⟨default, .new⟩ : Accumulator).merge depthFrame (new 2 2) .new false
          = .ok ⟨.ok tally, a', dst', report'⟩ ∧
        tally.aovs.get? "depth" = some 1 ∧
        a'.merge depthFrame dst' report' false
          = .ok ⟨.ok tally.unchanged, b', dst', report''⟩ ∧
        report''.mask? (.aov "depth") = some (.blank 2 2) := by
  have hjoins : (new 2 2).Joins depthFrame :=
    ⟨new_sound 2 2, new_fits 2 2, rfl, rfl, depthFrame_fits⟩
  obtain ⟨tally, a', dst', report', hmerge⟩ :=
    Accumulator.exists_merge_of_joins hjoins ⟨default, .new⟩ .new false
  obtain ⟨b', report'', hagain, hmasks⟩ := merge_again (Reached.new 2 2) hmerge a' report' false
  obtain ⟨-, hm, htally⟩ := Accumulator.tally_of_merge (new_sound 2 2) hmerge
  have hheld := hm.mask?_eq hjoins (.aov "depth")
  rw [if_pos (by decide +kernel)] at hheld
  refine ⟨tally, a', dst', report', b', report'', hmerge, ?_, hagain, ?_⟩
  · rw [htally, (hm.counts hjoins).aovs, show report'.liveMask "depth" = _ from hheld]
    decide +kernel
  · rw [hmasks, show report'.mask? (.aov "depth") = _ from hheld]
    rfl

end Frame

end RenderFold
