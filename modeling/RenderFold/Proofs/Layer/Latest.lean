/-
Layers that hold the latest samples of a sequence of layers.

`HoldsLatest` is the invariant of accumulation, stated for cells so that it serves layers of every
layout. A merge extends the sequence by its source; seen through single pixels, the invariant says
that a pixel is the last sample of the sequence, or blank if there is none.
-/
import Mathlib.Data.List.Basic
import RenderFold.Proofs.Layer.Format

namespace RenderFold

variable {V : Type}

namespace Cell

def sample? (counted : Bool) (c : Cell V) : Option (V × UInt32) :=
  if c.sampled counted then some (c.value, c.count) else none

/-- The cell of the last sample, or of no sample at all. -/
def ofLast (blank : V) : Option (V × UInt32) → Cell V
  | some (value, count) => ⟨value, count, true⟩
  | none => Cell.blank blank

theorem ofLast_value_count (blank : V) (s : Option (V × UInt32)) :
    ((ofLast blank s).value, (ofLast blank s).count) = s.getD (blank, 0) := by
  cases s <;> rfl

theorem ofLast_active (blank : V) (s : Option (V × UInt32)) :
    (ofLast blank s).active = s.isSome := by
  cases s <;> rfl

/-- A cell that holds a sample is the cell of that sample. -/
theorem eq_ofLast_of_sampled {counted : Bool} {c : Cell V} (h : c.sampled counted = true)
    (blank : V) : c = ofLast blank (c.sample? counted) := by
  obtain ⟨value, count, active⟩ := c
  have hactive : active = true := by
    rw [sampled, Bool.and_eq_true] at h
    exact h.1
  rw [sample?, if_pos h]
  simp [ofLast, hactive]

end Cell

/-- At every place of the image the cells hold the last sample of the sources there, and nothing if
there is none. -/
structure HoldsLatest (w h : UInt32) (counted : Bool) (blank : V)
    (cells : Nat × PixelId → Cell V) (sources : List (Nat × PixelId → Cell V)) : Prop where
  settled : ∀ i : Nat × PixelId, i.1 < (TileGrid.ofSize w h).tileCount →
    (TileGrid.ofSize w h).interior i = true → (cells i).Settled counted
  cell_eq : ∀ i : Nat × PixelId, i.1 < (TileGrid.ofSize w h).tileCount →
    (TileGrid.ofSize w h).interior i = true →
      cells i = Cell.ofLast blank (sources.filterMap fun s => (s i).sample? counted).getLast?

namespace HoldsLatest

variable {w h : UInt32} {counted : Bool} {blank : V} {cells next src : Nat × PixelId → Cell V}
  {sources : List (Nat × PixelId → Cell V)}

theorem nil (hcells : ∀ i : Nat × PixelId, i.1 < (TileGrid.ofSize w h).tileCount →
    cells i = Cell.blank blank) : HoldsLatest w h counted blank cells [] := by
  constructor
  · intro i hi _
    rw [hcells i hi]
    exact Cell.settled_blank counted blank
  · intro i hi _
    exact hcells i hi

/-- One more source: cells that are overwritten wherever it holds a sample. -/
theorem concat (hholds : HoldsLatest w h counted blank cells sources)
    (hcount : counted = false → ∀ i, (src i).count = 0)
    (hnext : ∀ i : Nat × PixelId, i.1 < (TileGrid.ofSize w h).tileCount →
      (TileGrid.ofSize w h).interior i = true →
        next i = if (src i).sampled counted then src i else cells i) :
    HoldsLatest w h counted blank next (sources ++ [src]) := by
  constructor
  · intro i hi hin
    rw [hnext i hi hin]
    split
    · rename_i hsampled
      exact Cell.settled_of_sampled hsampled fun hc => hcount hc i
    · exact hholds.settled i hi hin
  · intro i hi hin
    rw [hnext i hi hin, List.filterMap_append]
    by_cases hsampled : (src i).sampled counted = true
    · have hself := Cell.eq_ofLast_of_sampled hsampled blank
      rw [if_pos hsampled]
      rw [Cell.sample?, if_pos hsampled] at hself
      simpa [Cell.sample?, hsampled] using hself
    · rw [if_neg hsampled]
      simpa [Cell.sample?, hsampled] using hholds.cell_eq i hi hin

end HoldsLatest

/-! ### Layers -/

namespace Layer

/-- The sample at an image coordinate: a pixel that is active and, where counts are kept, has a
count other than zero. -/
def sample? (l : Layer V) (counted : Bool) (x y : UInt32) : Option (V × UInt32) :=
  (l.pixel? x y).filter fun s => l.mask.has x y && (!counted || s.2 != 0)

/-- Every pixel of the image is the last of the samples that the sources hold there, or blank and
inactive if there is none. -/
def HoldsLast (l : Layer V) (w h : UInt32) (counted : Bool) (blank : V)
    (sources : List (Layer V)) : Prop :=
  ∀ x y, x < w → y < h →
    let last := (sources.filterMap fun s => s.sample? counted x y).getLast?
    l.pixel? x y = some (last.getD (blank, 0)) ∧ l.mask.has x y = last.isSome

variable [Inhabited V] {l dst src : Layer V} {w h : UInt32} {counted : Bool} {blank : V}
  {sources : List (Layer V)}

theorem sample?_eq_cell (hl : l.HasShape w h counted) {x y : UInt32} {i : Nat × PixelId}
    (hi : (TileGrid.ofSize w h).locate x y = some i) :
    l.sample? counted x y = (l.cell i).sample? counted := by
  rw [sample?, pixel?_eq_cell hl hi, has_eq_cell hl hi, Option.filter_some]
  rfl

/-- What is kept along a sequence of merges into one layer. -/
structure Accumulates (l : Layer V) (w h : UInt32) (counted : Bool) (blank : V)
    (sources : List (Layer V)) : Prop where
  hasShape : l.HasShape w h counted
  sources_hasShape : ∀ s ∈ sources, s.HasShape w h counted
  latest : HoldsLatest w h counted blank l.cell (sources.map cell)

theorem accumulates_filled (w h : UInt32) (counted : Bool) (blank : V) :
    (filled counted w h blank).Accumulates w h counted blank [] where
  hasShape := filled_hasShape counted w h blank
  sources_hasShape := by simp
  latest := HoldsLatest.nil fun _ hi => cell_filled blank hi

theorem Accumulates.merged [DecidableEq V] (hdst : dst.Accumulates w h counted blank sources)
    (hsrc : src.HasShape w h counted) :
    (dst.merged src).Accumulates w h counted blank (sources ++ [src]) where
  hasShape := merged_hasShape hdst.hasShape
  sources_hasShape := by
    intro s hs
    rcases List.mem_append.1 hs with hs | hs
    · exact hdst.sources_hasShape s hs
    · rw [List.mem_singleton.1 hs]
      exact hsrc
  latest := by
    rw [List.map_append]
    apply hdst.latest.concat (fun hc => cell_count_of_uncounted hsrc hc)
    intro i hi hin
    rw [cell_merged hdst.hasShape hsrc hi, mergedCell_of_interior hdst.hasShape hin]
    exact Cell.absorb_eq_of_settled (hdst.latest.settled i hi hin)
      fun hc => cell_count_of_uncounted hsrc hc i

theorem Accumulates.holdsLast (hl : l.Accumulates w h counted blank sources) :
    l.HoldsLast w h counted blank sources := by
  intro x y hx hy
  obtain ⟨i, hi⟩ := TileGrid.exists_locate_of_lt ⟨hx, hy⟩
  obtain ⟨ht, hin⟩ := TileGrid.locate_place hi
  have hsamples : sources.filterMap (fun s => s.sample? counted x y)
      = (sources.map cell).filterMap fun s => (s i).sample? counted := by
    rw [List.filterMap_map]
    apply List.filterMap_congr
    intro s hs
    exact sample?_eq_cell (hl.sources_hasShape s hs) hi
  simp only [hsamples]
  rw [pixel?_eq_cell hl.hasShape hi, has_eq_cell hl.hasShape hi, hl.latest.cell_eq i ht hin,
    Cell.ofLast_value_count, Cell.ofLast_active]
  exact ⟨rfl, rfl⟩

end Layer

/-! ### Layers of any layout -/

namespace FormatLayer

/-- The sample at an image coordinate: a pixel that is active and has a count other than zero. -/
def sample? (l : FormatLayer) (x y : UInt32) : Option (Rgba × UInt32) :=
  (l.pixel? x y).filter fun s => l.mask.has x y && s.2 != 0

/-- Every pixel of the image is the last of the samples that the sources hold there; where there is
none it is inactive and has no count. -/
def HoldsLast (l : FormatLayer) (w h : UInt32) (sources : List FormatLayer) : Prop :=
  ∀ x y, x < w → y < h →
    let last := (sources.filterMap fun s => s.sample? x y).getLast?
    l.mask.has x y = last.isSome ∧
      match last with
      | some sample => l.pixel? x y = some sample
      | none => ∃ value, l.pixel? x y = some (value, 0)

variable {l dst src : FormatLayer} {format : PixelFormat} {w h : UInt32} {blank : Rgba}
  {sources : List FormatLayer}

theorem pixel?_eq_cell (hl : l.HasShape format w h) {x y : UInt32} {i : Nat × PixelId}
    (hi : (TileGrid.ofSize w h).locate x y = some i) :
    l.pixel? x y = some ((l.cell i).value, (l.cell i).count) := by
  rw [pixel?_eq_map, Layer.pixel?_eq_cell hl.layer hi]
  rfl

theorem has_eq_cell (hl : l.HasShape format w h) {x y : UInt32} {i : Nat × PixelId}
    (hi : (TileGrid.ofSize w h).locate x y = some i) :
    l.mask.has x y = (l.cell i).active := Layer.has_eq_cell hl.layer hi

theorem sample?_eq_cell (hl : l.HasShape format w h) {x y : UInt32} {i : Nat × PixelId}
    (hi : (TileGrid.ofSize w h).locate x y = some i) :
    l.sample? x y = (l.cell i).sample? true := by
  rw [sample?, pixel?_eq_cell hl hi, has_eq_cell hl hi, Option.filter_some]
  rfl

theorem cell_filled (format : PixelFormat) (colour : Rgba) {i : Nat × PixelId}
    (hi : i.1 < (TileGrid.ofSize w h).tileCount) :
    (filled format w h colour).cell i
      = Cell.blank ((colour.convert format.channels).convert 4) := by
  rw [filled_eq, cell, Layer.cell_filled _ hi]
  rfl

/-- Merging into a settled pixel overwrites it wherever the source holds a sample. -/
theorem cell_merged_of_settled (hdst : dst.HasShape format w h) (hsrc : src.HasShape format w h)
    {i : Nat × PixelId} (hi : i.1 < (TileGrid.ofSize w h).tileCount)
    (hin : (TileGrid.ofSize w h).interior i = true) (hsettled : (dst.cell i).Settled true) :
    (dst.merged src).cell i = if (src.cell i).sampled true then src.cell i else dst.cell i := by
  obtain ⟨d, rfl, hd⟩ := hdst.exists_layer
  obtain ⟨s, rfl, hs⟩ := hsrc.exists_layer
  have hsettled' : (d.cell i).Settled true := hsettled
  have hcell : (d.merged s).cell i
      = if (s.cell i).sampled true then s.cell i else d.cell i := by
    rw [Layer.cell_merged hd hs hi, Layer.mergedCell_of_interior hd hin]
    exact Cell.absorb_eq_of_settled hsettled' fun hc => nomatch hc
  have hsampled : (FormatLayer.cell ⟨format, s⟩ i).sampled true = (s.cell i).sampled true := rfl
  rw [merged_mk, hsampled]
  simp only [cell, hcell]
  split <;> rfl

/-- What is kept along a sequence of merges into one layer. -/
structure Accumulates (l : FormatLayer) (format : PixelFormat) (w h : UInt32) (blank : Rgba)
    (sources : List FormatLayer) : Prop where
  hasShape : l.HasShape format w h
  sources_hasShape : ∀ s ∈ sources, s.HasShape format w h
  latest : HoldsLatest w h true blank l.cell (sources.map cell)

theorem accumulates_filled (format : PixelFormat) (w h : UInt32) (colour : Rgba) :
    (filled format w h colour).Accumulates format w h
      ((colour.convert format.channels).convert 4) [] where
  hasShape := filled_hasShape format w h colour
  sources_hasShape := by simp
  latest := HoldsLatest.nil fun _ hi => cell_filled format colour hi

theorem Accumulates.merged (hdst : dst.Accumulates format w h blank sources)
    (hsrc : src.HasShape format w h) :
    (dst.merged src).Accumulates format w h blank (sources ++ [src]) where
  hasShape := merged_hasShape hdst.hasShape hsrc
  sources_hasShape := by
    intro s hs
    rcases List.mem_append.1 hs with hs | hs
    · exact hdst.sources_hasShape s hs
    · rw [List.mem_singleton.1 hs]
      exact hsrc
  latest := by
    rw [List.map_append]
    apply hdst.latest.concat (fun hc => nomatch hc)
    intro i hi hin
    exact cell_merged_of_settled hdst.hasShape hsrc hi hin (hdst.latest.settled i hi hin)

theorem Accumulates.holdsLast (hl : l.Accumulates format w h blank sources) :
    l.HoldsLast w h sources := by
  intro x y hx hy
  obtain ⟨i, hi⟩ := TileGrid.exists_locate_of_lt ⟨hx, hy⟩
  obtain ⟨ht, hin⟩ := TileGrid.locate_place hi
  have hsamples : sources.filterMap (fun s => s.sample? x y)
      = (sources.map cell).filterMap fun s => (s i).sample? true := by
    rw [List.filterMap_map]
    apply List.filterMap_congr
    intro s hs
    exact sample?_eq_cell (hl.sources_hasShape s hs) hi
  simp only [hsamples]
  rw [pixel?_eq_cell hl.hasShape hi, has_eq_cell hl.hasShape hi, hl.latest.cell_eq i ht hin,
    Cell.ofLast_value_count, Cell.ofLast_active]
  refine ⟨rfl, ?_⟩
  cases ((sources.map cell).filterMap fun s => (s i).sample? true).getLast? with
  | none => exact ⟨blank, rfl⟩
  | some sample => rfl

end FormatLayer

end RenderFold
