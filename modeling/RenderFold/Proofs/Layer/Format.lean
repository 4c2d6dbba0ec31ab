/-
Layers whose channel layout is chosen when the program runs.

With the layout known, filling, clearing and the access to single pixels are those of a layer whose
values have that layout, and so is merging.
-/
import RenderFold.Proofs.Layer.Absorb
import RenderFold.Layer.Format

namespace RenderFold

namespace FormatLayer

/-- The layout and the size of a counted layer. -/
structure HasShape (l : FormatLayer) (format : PixelFormat) (width height : UInt32) : Prop where
  format_eq : l.format = format
  layer : l.layer.HasShape width height true

/-- The layer that merging leaves behind; layers of another layout are not merged. -/
def merged (dst src : FormatLayer) : FormatLayer :=
  if h : src.format = dst.format then ⟨dst.format, dst.layer.merged (h ▸ src.layer)⟩ else dst

def changes (dst src : FormatLayer) : PixelMask :=
  if h : src.format = dst.format then dst.layer.changes (h ▸ src.layer) else dst.layer.mask

/-- The cell at a place, its value widened to four channels. -/
def cell (l : FormatLayer) (i : Nat × PixelId) : Cell Rgba :=
  let c := l.layer.cell i
  ⟨c.value.convert 4, c.count, c.active⟩

variable {dst src l : FormatLayer} {format : PixelFormat} {w h : UInt32}

theorem HasShape.exists_layer (hl : l.HasShape format w h) :
    ∃ layer : Layer (Texel format.channels), l = ⟨format, layer⟩ ∧ layer.HasShape w h true := by
  obtain ⟨own, layer⟩ := l
  obtain rfl : own = format := hl.format_eq
  exact ⟨layer, rfl, hl.layer⟩

theorem filled_eq (format : PixelFormat) (w h : UInt32) (colour : Rgba) :
    filled format w h colour = ⟨format, .filled true w h (colour.convert format.channels)⟩ := rfl

theorem clear_mk (layer : Layer (Texel format.channels)) (colour : Rgba) :
    clear ⟨format, layer⟩ colour = ⟨format, layer.clear (colour.convert format.channels)⟩ := rfl

theorem setPixel_mk (layer : Layer (Texel format.channels)) (x y : UInt32) (colour : Rgba)
    (count : UInt32) :
    setPixel ⟨format, layer⟩ x y colour count
      = ((layer.setPixel x y (colour.convert format.channels) count).1,
        ⟨format, (layer.setPixel x y (colour.convert format.channels) count).2⟩) := by
  simp only [setPixel, Layer.setPixel, mask]
  cases layer.mask.grid.slot x y <;> rfl

theorem pixel?_eq_map (l : FormatLayer) (x y : UInt32) :
    l.pixel? x y = (l.layer.pixel? x y).map fun s => (s.1.convert 4, s.2) := by
  simp only [pixel?, Layer.pixel?, mask, values, PixelArray.get?, Layer.grid]
  cases l.layer.mask.grid.slot x y with
  | none => rfl
  | some i =>
      simp only [Option.bind_eq_bind, Option.bind_some, Option.bind_map, Option.map_bind]
      rfl

theorem merged_mk (dst src : Layer (Texel format.channels)) :
    merged ⟨format, dst⟩ ⟨format, src⟩ = ⟨format, dst.merged src⟩ := dif_pos rfl

theorem changes_mk (dst src : Layer (Texel format.channels)) :
    changes ⟨format, dst⟩ ⟨format, src⟩ = dst.changes src := dif_pos rfl

theorem absorb_eq_ok (hdst : dst.HasShape format w h) (hsrc : src.HasShape format w h)
    (report : PixelMask) :
    dst.absorb src report
      = .ok ⟨.ok (dst.changes src).card, dst.merged src, dst.changes src⟩ := by
  obtain ⟨d, rfl, hd⟩ := hdst.exists_layer
  obtain ⟨s, rfl, hs⟩ := hsrc.exists_layer
  have hlayer := Layer.absorb_eq_ok hd hs report
  rw [Layer.absorb] at hlayer
  simp only [absorb, absorbInOrder, merged_mk, changes_mk, dif_pos, mask, hlayer]
  rfl

/-- A merge that succeeds has found a source of the destination's shape. -/
theorem hasShape_of_absorb (hdst : dst.HasShape format w h) {report : PixelMask}
    {done : Layer.Absorbed FormatLayer} {n : Nat} (hdone : dst.absorb src report = .ok done)
    (hn : done.answer = .ok n) : src.HasShape format w h := by
  obtain ⟨dstFormat, dstLayer⟩ := dst
  obtain ⟨srcFormat, srcLayer⟩ := src
  obtain rfl : dstFormat = format := hdst.format_eq
  simp only [absorb, absorbInOrder] at hdone
  split at hdone
  · rename_i hformat
    subst hformat
    obtain ⟨inner, hinner, hdone⟩ := bind_eq_ok.1 hdone
    cases hdone
    exact ⟨rfl, Layer.hasShape_of_absorb hdst.layer hinner hn⟩
  · cases hdone
    cases hn

theorem merged_hasShape (hdst : dst.HasShape format w h) (hsrc : src.HasShape format w h) :
    (dst.merged src).HasShape format w h := by
  rw [merged, dif_pos (hsrc.format_eq.trans hdst.format_eq.symm)]
  exact ⟨hdst.format_eq, Layer.merged_hasShape hdst.layer⟩

theorem changes_size (hdst : dst.HasShape format w h) : (dst.changes src).size = ⟨w, h⟩ := by
  obtain ⟨-, hlayer⟩ := hdst
  rw [PixelMask.size, ImageSize.mk.injEq, ← hlayer.width_eq, ← hlayer.height_eq, changes]
  split <;> exact ⟨rfl, rfl⟩

theorem filled_hasShape (format : PixelFormat) (w h : UInt32) (colour : Rgba) :
    (filled format w h colour).HasShape format w h :=
  ⟨rfl, Layer.filled_hasShape true w h _⟩

theorem setPixel_hasShape (hl : l.HasShape format w h) (x y : UInt32) (colour : Rgba)
    (count : UInt32) : (l.setPixel x y colour count).2.HasShape format w h := by
  obtain ⟨layer, rfl, hlayer⟩ := hl.exists_layer
  rw [setPixel_mk]
  exact ⟨rfl, Layer.setPixel_hasShape hlayer x y _ count⟩

theorem clear_eq_filled (hl : l.HasShape format w h) (colour : Rgba) :
    l.clear colour = filled format w h colour := by
  obtain ⟨layer, rfl, hlayer⟩ := hl.exists_layer
  rw [clear_mk, filled_eq, Layer.clear_eq_filled hlayer]

theorem matchesFormat_iff (hl : l.HasShape format w h) (format' : PixelFormat) (w' h' : UInt32) :
    l.matchesFormat format' w' h' = true ↔ format = format' ∧ w = w' ∧ h = h' := by
  simp [matchesFormat, mask, hl.format_eq, hl.layer.width_eq, hl.layer.height_eq, and_assoc]

theorem hasShape_of_matchesFormat (hl : l.layer.Sound true)
    (hfits : l.matchesFormat format w h = true) : l.HasShape format w h := by
  simp only [matchesFormat, Bool.and_eq_true, decide_eq_true_eq] at hfits
  exact ⟨hfits.1.1, hl.hasShape hfits.1.2 hfits.2⟩

end FormatLayer

end RenderFold
