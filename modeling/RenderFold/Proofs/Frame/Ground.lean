/-
What the pixels of a named output read as where there is no sample.

They keep the colour with which the output's pixels were last filled, its ground. The background of
an output is another matter: `Aov.setup` replaces it even where it keeps the pixels, and leaves the
ground behind. `Aov.Reached` follows outputs through edits and merges together with their grounds.
-/
import RenderFold.Proofs.Frame.Fold

namespace RenderFold

/-- Narrowing takes back a widening. -/
theorem Texel.convert_convert {n m : Nat} (h : n ≤ m) (v : Texel n) :
    (v.convert m).convert n = v := by
  apply Vector.ext
  intro i hi
  have him : i < m := Nat.lt_of_lt_of_le hi h
  simp [Texel.convert, him]

theorem PixelFormat.channels_le (format : PixelFormat) : format.channels ≤ 4 := by
  cases format <;> decide

namespace FormatLayer

/-- What a pixel without samples reads as on a given ground. -/
def groundValue (l : FormatLayer) (ground : Rgba) : Rgba :=
  (ground.convert l.format.channels).convert 4

/-- Every pixel that is not active, the padding included, holds the leading channels of the ground
and no count. -/
def HasGround (l : FormatLayer) (ground : Rgba) : Prop :=
  ∀ i : Nat × PixelId, i.1 < (TileGrid.ofSize l.mask.width l.mask.height).tileCount →
    (l.cell i).active = false → l.cell i = Cell.blank (l.groundValue ground)

variable {l dst src : FormatLayer} {format : PixelFormat} {w h : UInt32} {ground : Rgba}

theorem groundValue_inj {colour : Rgba} :
    l.groundValue colour = l.groundValue ground ↔
      colour.convert l.format.channels = ground.convert l.format.channels := by
  constructor
  · intro heq
    rw [← Texel.convert_convert l.format.channels_le (colour.convert l.format.channels),
      ← Texel.convert_convert l.format.channels_le (ground.convert l.format.channels)]
    exact congrArg (Texel.convert l.format.channels) heq
  · exact congrArg (Texel.convert 4)

theorem filled_hasGround (format : PixelFormat) (w h : UInt32) (colour : Rgba) :
    (filled format w h colour).HasGround colour := fun _ hi _ => cell_filled format colour hi

theorem clear_hasGround (hl : l.HasShape format w h) (colour : Rgba) :
    (l.clear colour).HasGround colour := by
  rw [clear_eq_filled hl]
  exact filled_hasGround format w h colour

/-- Storing a sample makes its pixel active and leaves the others alone. -/
theorem setPixel_hasGround (hl : l.HasShape format w h) (hground : l.HasGround ground)
    (x y : UInt32) (colour : Rgba) (count : UInt32) :
    (l.setPixel x y colour count).2.HasGround ground := by
  obtain ⟨layer, rfl, hlayer⟩ := hl.exists_layer
  rw [setPixel_mk]
  cases hj : (TileGrid.ofSize w h).locate x y with
  | none =>
      rw [Layer.setPixel_outside hlayer hj]
      exact hground
  | some j =>
      intro i hi hinactive
      have hshape := Layer.setPixel_hasShape hlayer x y (colour.convert format.channels) count
      simp only [mask, hshape.width_eq, hshape.height_eq, ← hlayer.width_eq,
        ← hlayer.height_eq] at hi
      simp only [cell, Layer.cell_setPixel hlayer hj] at hinactive ⊢
      by_cases hij : i = j
      · simp [hij] at hinactive
      · simp only [if_neg hij] at hinactive ⊢
        exact hground i hi hinactive

/-- A pixel that is not active after a merge is the one it was before. -/
theorem cell_merged_of_inactive (hdst : dst.HasShape format w h) (hsrc : src.HasShape format w h)
    {i : Nat × PixelId} (hi : i.1 < (TileGrid.ofSize w h).tileCount)
    (hinactive : ((dst.merged src).cell i).active = false) :
    (dst.merged src).cell i = dst.cell i := by
  obtain ⟨d, rfl, hd⟩ := hdst.exists_layer
  obtain ⟨s, rfl, hs⟩ := hsrc.exists_layer
  have hcell := Layer.cell_merged hd hs hi
  rw [merged_mk] at hinactive ⊢
  simp only [cell, hcell, Layer.mergedCell] at hinactive ⊢
  split at hinactive
  · cases hinactive
  · rename_i hkept
    rw [if_neg hkept]

theorem merged_hasGround (hdst : dst.HasShape format w h) (hsrc : src.HasShape format w h)
    (hground : dst.HasGround ground) : (dst.merged src).HasGround ground := by
  have hshape := merged_hasShape hdst hsrc
  intro i hi hinactive
  rw [mask, hshape.layer.width_eq, hshape.layer.height_eq] at hi
  have hcell := cell_merged_of_inactive hdst hsrc hi hinactive
  rw [groundValue, hshape.format_eq, ← hdst.format_eq, hcell]
  rw [hcell] at hinactive
  rw [← hdst.layer.width_eq, ← hdst.layer.height_eq] at hi
  exact hground i hi hinactive

/-- The ground is what pixels without samples read as. -/
theorem HasGround.pixel? (hl : l.layer.Sound true) (hground : l.HasGround ground) {x y : UInt32}
    (hx : x < l.mask.width) (hy : y < l.mask.height) (hinactive : l.mask.has x y = false) :
    l.pixel? x y = some (l.groundValue ground, 0) := by
  have hshape : l.HasShape l.format l.mask.width l.mask.height := ⟨rfl, hl⟩
  obtain ⟨i, hi⟩ := TileGrid.exists_locate_of_lt ⟨hx, hy⟩
  rw [has_eq_cell hshape hi] at hinactive
  rw [pixel?_eq_cell hshape hi, hground i (TileGrid.locate_place hi).1 hinactive]
  rfl

end FormatLayer

namespace Aov

def HasGround (a : Aov) (ground : Rgba) : Prop := ∀ l, a.layer? = some l → l.HasGround ground

/-- Whether setting up an output keeps its pixels as they are. -/
def keepsLayer (a : Aov) (format : PixelFormat) (width height : UInt32) : Bool :=
  a.active && a.layer?.any fun l => l.matchesFormat format width height

def groundAfter (a : Aov) (ground : Rgba) : AovEdit → Rgba
  | .setup format width height background _ =>
      if a.keepsLayer format width height then ground else background
  | .clear colour => colour
  | _ => ground

end Aov

/-- How a merge sets up an output of its destination. -/
def Frame.setupEdit (src : Frame) (name : String) : AovEdit :=
  match src.activeAov name with
  | none => .deactivate
  | some a =>
      match a.storage with
      | .reference target => .setupReference target
      | .pixels s => .setup s.format src.width src.height a.background a.closestFilter

/-- The outputs that callers can build out of a new one, with their grounds: by edits, and by merges
into any frame that has the output. A refused merge has no influence on the ground. -/
inductive Aov.Reached : Aov → Rgba → Prop
  | new : Reached .new (.zero 4)
  | edit {a : Aov} {ground : Rgba} (e : AovEdit) :
      Reached a ground → Reached (a.edit e) (a.groundAfter ground e)
  | merge {a b : Aov} {ground : Rgba} {acc : Accumulator} {src dst : Frame} {report : ChangeSet}
      {coarse : Bool} {m : Accumulator.Merged} {name : String} :
      Reached a ground → src.Reached → dst.Reached → (dst.findAov name).getD .new = a →
      acc.merge src dst report coarse = .ok m → m.dst.findAov name = some b →
      Reached b
        (match m.answer with
        | .ok _ => a.groundAfter ground (src.setupEdit name)
        | .error _ => ground)

namespace Aov

variable {a : Aov} {ground : Rgba}

theorem new_hasGround (ground : Rgba) : Aov.new.HasGround ground := by
  intro l hl i hi
  obtain rfl := Option.some.inj hl
  exact absurd hi (Nat.not_lt_zero _)

theorem editLayer_hasGround {other : Rgba} (ha : a.Sound) (hground : a.HasGround ground)
    {f : FormatLayer → FormatLayer}
    (hf : ∀ l, l.layer.Sound true → l.HasGround ground → (f l).HasGround other)
    {l : FormatLayer} (hl : (a.editLayer f).layer? = some l) : l.HasGround other := by
  rw [editLayer] at hl
  cases hlayer : a.layer? with
  | none =>
      rw [hlayer] at hl
      simp only [hlayer] at hl
      cases hl
  | some held =>
      have hstorage := layer?_eq_some_iff.1 hlayer
      simp only [hlayer, withLayer, hstorage] at hl
      obtain rfl := Option.some.inj hl
      exact hf held (ha held hlayer) (hground held hlayer)

theorem preparedLayer_hasGround (ha : a.Sound) (hground : a.HasGround ground)
    (format : PixelFormat) (w h : UInt32) (background : Rgba) (closestFilter : Bool) :
    (a.preparedLayer format w h background).HasGround
      (a.groundAfter ground (.setup format w h background closestFilter)) := by
  have hfresh := FormatLayer.filled_hasGround format w h background
  rw [preparedLayer_eq ha, groundAfter, keepsLayer]
  cases hlayer : a.layer? with
  | none =>
      rw [Option.any_none, Bool.and_false]
      exact hfresh
  | some l =>
      rw [Option.any_some]
      by_cases hkept : a.active = true ∧ l.matchesFormat format w h = true
      · simp only [hkept, and_self, if_true, Bool.and_self]
        exact hground l hlayer
      · rw [← Bool.and_eq_true, Bool.not_eq_true] at hkept
        simp only [← Bool.and_eq_true, hkept, Bool.false_eq_true, if_false]
        exact hfresh

theorem edit_hasGround (ha : a.Sound) (hground : a.HasGround ground) (e : AovEdit) :
    (a.edit e).HasGround (a.groundAfter ground e) := by
  cases e with
  | setup format w h background closestFilter =>
      intro l hl
      obtain rfl := Option.some.inj hl
      exact preparedLayer_hasGround ha hground format w h background closestFilter
  | setupReference target =>
      intro l hl
      cases hl
  | deactivate => exact hground
  | collectUnused =>
      rw [edit, collectUnused]
      split
      · exact hground
      · exact new_hasGround ground
  | setPixel x y colour count =>
      intro l hl
      exact editLayer_hasGround ha hground
        (fun l hl hground => FormatLayer.setPixel_hasGround ⟨rfl, hl⟩ hground x y colour count) hl
  | clear colour =>
      intro l hl
      exact editLayer_hasGround ha hground
        (fun l hl _ => FormatLayer.clear_hasGround ⟨rfl, hl⟩ colour) hl

end Aov

/-- A merge leaves an output on the ground on which it has set it up. -/
theorem Frame.Merges.hasGround {src : Frame} {x y : Exchange} (hm : src.Merges x y)
    (hjoins : x.dst.Joins src) {name : String} {ground : Rgba}
    (hground : ((x.dst.findAov name).getD .new).HasGround ground) {b : Aov}
    (hb : y.dst.findAov name = some b) :
    b.HasGround (((x.dst.findAov name).getD .new).groundAfter ground (src.setupEdit name)) := by
  have hsound := hjoins.sound.aov_sound name
  rw [setupEdit]
  rcases src.activeAov_cases name with ha | ⟨a, target, ha, hs⟩ | ⟨a, s, ha, hs⟩
  · rw [hm.findAov_inactive ha, Option.map_eq_some_iff] at hb
    obtain ⟨held, hheld, rfl⟩ := hb
    rw [hheld] at hground
    simp only [ha, hheld]
    exact hground
  · rw [hm.findAov_reference ha hs, Option.some.injEq] at hb
    subst hb
    intro l hl
    cases hl
  · rw [hm.findAov_pixels hjoins ha hs, Option.some.injEq] at hb
    subst hb
    intro l hl
    obtain rfl := Option.some.inj hl
    -- what the pixels are merged into is what setting up has prepared
    have hbase := Aov.preparedLayer_hasGround hsound hground s.format x.dst.width x.dst.height
      a.background a.closestFilter
    rw [aovBase_eq hjoins.sound hjoins.fits] at hbase
    simp only [ha, Aov.layer?_eq_some_iff.1 hs, hjoins.width_eq, hjoins.height_eq]
    exact FormatLayer.merged_hasGround (aovBase_hasShape hjoins.fits name s.format a.background)
      (hjoins.source_layer ha hs) hbase

namespace Aov

variable {a : Aov} {ground : Rgba}

theorem Reached.sound_hasGround (ha : a.Reached ground) : a.Sound ∧ a.HasGround ground := by
  induction ha with
  | new => exact ⟨new_sound, new_hasGround _⟩
  | edit e _ ih => exact ⟨edit_sound ih.1 e, edit_hasGround ih.1 ih.2 e⟩
  | @merge a b ground acc src dst report coarse m name _ hsrc hdst hheld hmerge hb ih =>
      refine ⟨(Frame.Reached.merge hsrc hdst hmerge).sound.aovs name b hb, ?_⟩
      subst hheld
      obtain ⟨m', hm', -, hkeep⟩ :=
        Frame.merge_answer hsrc.sound hdst.sound acc report coarse
      obtain rfl := Except.ok.inj (hm'.symm.trans hmerge)
      -- a refused merge leaves the output as it was, with its ground
      cases hanswer : m'.answer with
      | error e =>
          have hdst' : m'.dst = dst := congrArg Accumulator.Merged.dst (hkeep e hanswer)
          rw [hdst'] at hb
          rw [hb] at ih
          exact ih.2
      | ok tally =>
          obtain ⟨answer, acc', dst', report'⟩ := m'
          obtain rfl : answer = .ok tally := hanswer
          obtain ⟨hjoins, hm⟩ := Accumulator.merges_of_merge hdst.sound hmerge
          exact hm.hasGround hjoins ih.2 hb

/-- Pixels without samples read as the ground, whether the output is active or not. They read as the
background exactly if that has the same leading channels, or if there are no such pixels. -/
theorem unsampled_reads_ground (ha : a.Reached ground) {l : FormatLayer} (hl : a.layer? = some l) :
    (∀ x y, x < l.mask.width → y < l.mask.height → l.mask.has x y = false →
        l.pixel? x y = some ((ground.convert l.format.channels).convert 4, 0)) ∧
      ((∀ x y, x < l.mask.width → y < l.mask.height → l.mask.has x y = false →
          l.pixel? x y = some ((a.background.convert l.format.channels).convert 4, 0)) ↔
        a.background.convert l.format.channels = ground.convert l.format.channels ∨
          ∀ x y, x < l.mask.width → y < l.mask.height → l.mask.has x y = true) := by
  obtain ⟨hsound, hground⟩ := ha.sound_hasGround
  have hreads : ∀ x y, x < l.mask.width → y < l.mask.height → l.mask.has x y = false →
      l.pixel? x y = some (l.groundValue ground, 0) := fun x y hx hy hinactive =>
    (hground l hl).pixel? (hsound l hl) hx hy hinactive
  refine ⟨hreads, ⟨?_, ?_⟩⟩
  · intro hbackground
    by_cases hall : ∀ x y, x < l.mask.width → y < l.mask.height → l.mask.has x y = true
    · exact .inr hall
    · simp only [not_forall, Bool.not_eq_true] at hall
      obtain ⟨x, y, hx, hy, hinactive⟩ := hall
      have hsame := (hbackground x y hx hy hinactive).symm.trans (hreads x y hx hy hinactive)
      exact .inl (FormatLayer.groundValue_inj.1 (Prod.mk.inj (Option.some.inj hsame)).1)
  · rintro (hsame | hall) x y hx hy hinactive
    · rw [hsame]
      exact hreads x y hx hy hinactive
    · rw [hall x y hx hy] at hinactive
      cases hinactive

/-- An output that was set up twice in one size, with another background the second time. -/
def repaintedAov : Aov :=
  (new.edit (.setup .float 8 8 (.zero 4) false)).edit
    (.setup .float 8 8 #v[0x3F800000, 0, 0, 0] false)

theorem repaintedAov_reached : repaintedAov.Reached (.zero 4) := (Reached.new.edit _).edit _

theorem unsampled_reads_ground_of_repainted :
    repaintedAov.background = #v[0x3F800000, 0, 0, 0] ∧
      repaintedAov.layer? = some (.filled .float 8 8 (.zero 4)) ∧
      (FormatLayer.filled .float 8 8 (.zero 4)).pixel? 0 0 = some (.zero 4, 0) := by
  have hlayer : repaintedAov.layer? = some (.filled .float 8 8 (.zero 4)) := rfl
  have hread := (unsampled_reads_ground repaintedAov_reached hlayer).1 0 0 (by decide) (by decide)
    (by decide +kernel)
  exact ⟨rfl, hlayer, hread⟩

/-- An active output whose pixels without samples do not read as its background. -/
theorem repaintedAov_reads_other_than_background :
    repaintedAov.active = true ∧
      ∃ l, repaintedAov.layer? = some l ∧ 0 < l.mask.width ∧ 0 < l.mask.height ∧
        l.mask.has 0 0 = false ∧
        l.pixel? 0 0
          ≠ some ((repaintedAov.background.convert l.format.channels).convert 4, 0) :=
  ⟨rfl, .filled .float 8 8 (.zero 4), rfl, by decide, by decide, by decide +kernel,
    by decide +kernel⟩

end Aov

end RenderFold
