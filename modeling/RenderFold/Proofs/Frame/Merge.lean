/-
The buffers of a destination after a merge.

Each buffer is the merge of the source's buffer into a base: what the destination had in use, or a
fresh buffer where it had nothing that fits. A named output comes with its entry in the change set,
which lists its changed pixels. A destination stays sound and fitting.
-/
import RenderFold.Proofs.Frame.Absorb

namespace RenderFold

namespace Frame

/-- What the pixels of an auxiliary kind are merged into. -/
def auxBase (dst : Frame) (k : AuxKind) : Layer (Texel k.channels) :=
  (dst.aux? k).getD (.filled k.counted dst.width dst.height (.zero k.channels))

/-- What the pixels of a named output are merged into. -/
def aovBase (dst : Frame) (name : String) (format : PixelFormat) (background : Rgba) :
    FormatLayer :=
  ((dst.liveLayer name).filter fun l => l.format = format).getD
    (.filled format dst.width dst.height background)

section Base

variable {dst : Frame}

theorem auxBase_eq (hsound : dst.Sound) (hfits : dst.Fits dst.width dst.height) (k : AuxKind) :
    (enableLayer (dst.aux.get k) dst.width dst.height).content = dst.auxBase k := by
  rw [enableLayer_content (hsound.aux k), auxBase]
  cases hon : dst.aux? k with
  | none =>
      rw [aux?_eq_none_iff.1 hon]
      simp
  | some l =>
      have hshape := hfits (.aux k) l hon
      rw [aux?_eq_some_iff.1 hon]
      simp [hshape.width_eq, hshape.height_eq]

theorem auxBase_hasShape (hfits : dst.Fits dst.width dst.height) (k : AuxKind) :
    (dst.auxBase k).HasShape dst.width dst.height k.counted := by
  rw [auxBase]
  cases hon : dst.aux? k with
  | none => exact Layer.filled_hasShape k.counted dst.width dst.height _
  | some l => exact hfits (.aux k) l hon

theorem aovBase_eq (hsound : dst.Sound) (hfits : dst.Fits dst.width dst.height) (name : String)
    (format : PixelFormat) (background : Rgba) :
    ((dst.findAov name).getD .new).preparedLayer format dst.width dst.height background
      = dst.aovBase name format background := by
  rw [Aov.preparedLayer_eq (hsound.aov_sound name), aovBase]
  cases hlive : dst.liveLayer name with
  | some l =>
      obtain ⟨a, hfind, hactive, hlayer⟩ := liveLayer_eq_some_iff.1 hlive
      have hshape := hfits (.aov name) l hlive
      have hmatches : l.matchesFormat format dst.width dst.height = true ↔ l.format = format := by
        rw [FormatLayer.matchesFormat_iff hshape]
        simp
      by_cases hformat : l.format = format
      · simp [hfind, hactive, hlayer, hmatches, hformat, Option.filter_some]
      · simp [hfind, hactive, hlayer, hmatches, hformat, Option.filter_some]
  | none =>
      cases hfind : dst.findAov name with
      | none => simp [Aov.new, Aov.layer?]
      | some a =>
          cases hlayer : a.layer? with
          | none => simp [hlayer]
          | some l =>
              have hactive : a.active ≠ true := by
                intro hactive
                rw [liveLayer_eq_some_iff.2 ⟨a, hfind, hactive, hlayer⟩] at hlive
                cases hlive
              simp [hlayer, hactive]

theorem aovBase_hasShape (hfits : dst.Fits dst.width dst.height) (name : String)
    (format : PixelFormat) (background : Rgba) :
    (dst.aovBase name format background).HasShape format dst.width dst.height := by
  rw [aovBase]
  cases hlive : dst.liveLayer name with
  | none => exact FormatLayer.filled_hasShape format dst.width dst.height background
  | some l =>
      by_cases hformat : l.format = format
      · subst hformat
        simpa [Option.filter_some] using hfits (.aov name) l hlive
      · simpa [Option.filter_some, hformat] using
          FormatLayer.filled_hasShape format dst.width dst.height background

theorem Joins.source_layer {src : Frame} (hjoins : dst.Joins src) {name : String} {a : Aov}
    {s : FormatLayer} (ha : src.activeAov name = some a) (hs : a.layer? = some s) :
    s.HasShape s.format dst.width dst.height :=
  hjoins.source (.aov name) s (liveLayer_of_activeAov ha hs)

theorem Joins.aov_hasShape {src : Frame} (hjoins : dst.Joins src) {name : String} {a : Aov}
    {s : FormatLayer} (ha : src.activeAov name = some a) (hs : a.layer? = some s) :
    ((dst.aovBase name s.format a.background).merged s).HasShape s.format dst.width
      dst.height :=
  FormatLayer.merged_hasShape (aovBase_hasShape hjoins.fits name s.format a.background)
    (hjoins.source_layer ha hs)

end Base

section Merges

variable {src : Frame} {x y : Exchange}

theorem Merges.beauty_eq (hm : src.Merges x y) :
    y.dst.beauty = x.dst.beauty.merged src.beauty ∧
      y.report.beauty = x.dst.beauty.changes src.beauty :=
  Prod.mk.inj (hm.view_eq .beauty)

/-- The kinds in use are the ones of the source; a kind that is not in use keeps its content. -/
theorem Merges.aux_eq (hm : src.Merges x y) (hjoins : x.dst.Joins src) (k : AuxKind) :
    y.view (.aux k)
      = match src.aux? k with
        | some s => (⟨true, (x.dst.auxBase k).merged s⟩, ⟨true, (x.dst.auxBase k).changes s⟩)
        | none => ((x.dst.aux.get k).off, (x.report.aux.get k).off) := by
  rw [hm.view_eq, mergeAt]
  cases hs : src.aux? k with
  | some s =>
      have hon : (src.aux.get k).isOn = true := congrArg Switched.isOn (aux?_eq_some_iff.1 hs)
      simp only [absorbAt, hs, prepareAt, hon, if_true, hjoins.width_eq, hjoins.height_eq]
      rw [← auxBase_eq hjoins.sound hjoins.fits k]
      rfl
  | none =>
      simp only [absorbAt, hs, prepareAt, aux?_eq_none_iff.1 hs, Bool.false_eq_true, if_false]
      rfl

theorem Merges.aux?_eq (hm : src.Merges x y) (hjoins : x.dst.Joins src) (k : AuxKind) :
    y.dst.aux? k = (src.aux? k).map (x.dst.auxBase k).merged ∧
      y.report.aux? k = (src.aux? k).map (x.dst.auxBase k).changes := by
  have hview := hm.aux_eq hjoins k
  cases hs : src.aux? k with
  | some s =>
      rw [hs] at hview
      obtain ⟨hdst, hreport⟩ := Prod.mk.inj hview
      simp [aux?, ChangeSet.aux?, hdst, hreport, Switched.get?]
  | none =>
      rw [hs] at hview
      obtain ⟨hdst, hreport⟩ := Prod.mk.inj hview
      simp [aux?, ChangeSet.aux?, hdst, hreport, Switched.get?, Switched.off]

/-- An output that owns pixels in the source owns merged pixels afterwards. -/
theorem Merges.aov_pixels (hm : src.Merges x y) (hjoins : x.dst.Joins src) {name : String} {a : Aov}
    {s : FormatLayer} (ha : src.activeAov name = some a) (hs : a.layer? = some s) :
    y.view (.aov name)
      = (some ⟨.pixels ((x.dst.aovBase name s.format a.background).merged s), true, a.background,
          a.closestFilter⟩,
        some ⟨.mask ((x.dst.aovBase name s.format a.background).changes s), true⟩) := by
  have hlive := liveLayer_of_activeAov ha hs
  have hbase := aovBase_eq hjoins.sound hjoins.fits name s.format a.background
  rw [hm.view_eq]
  simp only [mergeAt, absorbAt, hlive, prepareAt, ha, Aov.follow, Aov.followChange,
    Aov.layer?_eq_some_iff.1 hs, hjoins.width_eq, hjoins.height_eq, ← hbase]
  exact congrArg (_, some ·) (AovChange.withMask_init _ _ _ _)

theorem Merges.aov_reference (hm : src.Merges x y) {name : String} {a : Aov}
    (ha : src.activeAov name = some a) {target : Intrinsic}
    (hs : a.storage = .reference target) :
    y.view (.aov name)
      = (some (((x.dst.findAov name).getD .new).setupReference target),
        some ⟨.reference target, true⟩) := by
  have hmem : .aov name ∉ src.parts := by
    simp [aov_mem_parts, liveLayer, ha, Aov.layer?, hs]
  rw [hm.view_eq, mergeAt, absorbAt_of_not_mem_parts hmem]
  simp only [prepareAt, ha, Aov.follow, Aov.followChange, hs]
  rfl

theorem Merges.aov_inactive (hm : src.Merges x y) {name : String}
    (hnone : src.activeAov name = none) :
    y.view (.aov name)
      = ((x.dst.findAov name).map Aov.deactivate,
        (x.report.findAov name).map AovChange.deactivate) := by
  rw [hm.view_eq, mergeAt_of_inactive hnone]
  rfl

theorem Merges.findAov_pixels (hm : src.Merges x y) (hjoins : x.dst.Joins src)
    {name : String} {a : Aov} {s : FormatLayer} (ha : src.activeAov name = some a)
    (hs : a.layer? = some s) :
    y.dst.findAov name
      = some ⟨.pixels ((x.dst.aovBase name s.format a.background).merged s), true, a.background,
          a.closestFilter⟩ :=
  congrArg Prod.fst (hm.aov_pixels hjoins ha hs)

theorem Merges.findAov_reference (hm : src.Merges x y) {name : String} {a : Aov}
    (ha : src.activeAov name = some a) {target : Intrinsic}
    (hs : a.storage = .reference target) :
    y.dst.findAov name = some (((x.dst.findAov name).getD .new).setupReference target) :=
  congrArg Prod.fst (hm.aov_reference ha hs)

theorem Merges.findAov_inactive (hm : src.Merges x y) {name : String}
    (hnone : src.activeAov name = none) :
    y.dst.findAov name = (x.dst.findAov name).map Aov.deactivate :=
  congrArg Prod.fst (hm.aov_inactive hnone)

theorem Merges.liveLayer_pixels (hm : src.Merges x y) (hjoins : x.dst.Joins src)
    {name : String} {a : Aov} {s : FormatLayer} (ha : src.activeAov name = some a)
    (hs : a.layer? = some s) :
    y.dst.liveLayer name = some ((x.dst.aovBase name s.format a.background).merged s) :=
  liveLayer_eq_some_iff.2 ⟨_, hm.findAov_pixels hjoins ha hs, rfl, rfl⟩

/-- An output without pixels in the source has none that are in use afterwards. -/
theorem Merges.liveLayer_eq_none (hm : src.Merges x y) {name : String}
    (hnone : src.liveLayer name = none) : y.dst.liveLayer name = none := by
  rw [Option.eq_none_iff_forall_ne_some]
  intro l hl
  obtain ⟨a, hfind, hactive, hlayer⟩ := liveLayer_eq_some_iff.1 hl
  rcases src.activeAov_cases name with hb | ⟨b, target, hb, hs⟩ | ⟨b, s, hb, hs⟩
  · rw [hm.findAov_inactive hb, Option.map_eq_some_iff] at hfind
    obtain ⟨held, _, rfl⟩ := hfind
    cases hactive
  · rw [hm.findAov_reference hb hs, Option.some.injEq] at hfind
    subst hfind
    cases hlayer
  · rw [liveLayer_of_activeAov hb hs] at hnone
    cases hnone

theorem Merges.sound (hm : src.Merges x y) (hjoins : x.dst.Joins src) : y.dst.Sound := by
  constructor
  · rw [hm.beauty_eq.1]
    exact (Layer.merged_hasShape (hjoins.fits .beauty)).sound
  · intro k
    have hview := congrArg Prod.fst (hm.aux_eq hjoins k)
    cases hs : src.aux? k with
    | some s =>
        rw [hs] at hview
        rw [show y.dst.aux.get k = _ from hview]
        exact (Layer.merged_hasShape (auxBase_hasShape hjoins.fits k)).sound
    | none =>
        rw [hs] at hview
        rw [show y.dst.aux.get k = _ from hview]
        exact hjoins.sound.aux k
  · intro name a ha l hl
    rcases src.activeAov_cases name with hb | ⟨b, target, hb, hs⟩ | ⟨b, s, hb, hs⟩
    · rw [hm.findAov_inactive hb, Option.map_eq_some_iff] at ha
      obtain ⟨held, hheld, rfl⟩ := ha
      exact hjoins.sound.aovs name held hheld l hl
    · rw [hm.findAov_reference hb hs, Option.some.injEq] at ha
      subst ha
      cases hl
    · rw [hm.findAov_pixels hjoins hb hs, Option.some.injEq] at ha
      subst ha
      obtain rfl := Option.some.inj hl
      exact (hjoins.aov_hasShape hb hs).layer.sound

theorem Merges.fits (hm : src.Merges x y) (hjoins : x.dst.Joins src) :
    y.dst.Fits x.dst.width x.dst.height := by
  intro part
  cases part with
  | beauty =>
      have hshape : (x.dst.beauty.merged src.beauty).HasShape x.dst.width x.dst.height true :=
        Layer.merged_hasShape (hjoins.fits .beauty)
      rwa [← hm.beauty_eq.1] at hshape
  | aux k =>
      intro l hl
      rw [(hm.aux?_eq hjoins k).1, Option.map_eq_some_iff] at hl
      obtain ⟨s, _, rfl⟩ := hl
      exact Layer.merged_hasShape (auxBase_hasShape hjoins.fits k)
  | aov name =>
      intro l hl
      cases hs : src.liveLayer name with
      | none =>
          rw [hm.liveLayer_eq_none hs] at hl
          cases hl
      | some s =>
          obtain ⟨a, ha, hlayer⟩ := Option.bind_eq_some_iff.1 hs
          have hshape := hjoins.aov_hasShape ha hlayer
          rw [hm.liveLayer_pixels hjoins ha hlayer, Option.some.injEq] at hl
          subst hl
          exact ⟨rfl, hshape.layer⟩

end Merges

end Frame

end RenderFold
