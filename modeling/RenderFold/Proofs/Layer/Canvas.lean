/-
Buffers as two-dimensional arrays.

A `Canvas` is what the calls made on a buffer say about it, and nothing else: the size of its image,
the content of a fresh pixel, and the samples that were set since all pixels were last made fresh.
It knows of no tiles and no slots. A buffer shows its canvas through whatever calls are made: where
a pixel was set it reads as it was set last, elsewhere as a fresh one, and the slots beside the
image stay fresh for good.
-/
import RenderFold.Proofs.Frame.History

namespace RenderFold

variable {V : Type}

/-- The calls on a buffer as far as they still count. -/
structure Canvas (V : Type) where
  width : UInt32
  height : UInt32
  /-- The value of a fresh pixel. -/
  fill : V
  /-- The samples since all pixels were last made fresh, the latest first. -/
  samples : List ((UInt32 × UInt32) × V × UInt32)

namespace Canvas

def blank (width height : UInt32) (fill : V) : Canvas V := ⟨width, height, fill, []⟩

def Contains (c : Canvas V) (x y : UInt32) : Prop := x < c.width ∧ y < c.height

instance (c : Canvas V) (x y : UInt32) : Decidable (c.Contains x y) :=
  inferInstanceAs (Decidable (x < c.width ∧ y < c.height))

/-- One more sample; it does not count outside the image. -/
def setPixel (c : Canvas V) (x y : UInt32) (value : V) (count : UInt32) : Canvas V :=
  if c.Contains x y then { c with samples := ((x, y), value, count) :: c.samples } else c

def clear (c : Canvas V) (fill : V) : Canvas V := blank c.width c.height fill

/-- An image of another size has fresh pixels. -/
def resize (c : Canvas V) (width height : UInt32) : Canvas V :=
  if c.width = width ∧ c.height = height then c else blank width height c.fill

def last? (c : Canvas V) (x y : UInt32) : Option (V × UInt32) := c.samples.lookup (x, y)

/-- What a pixel must hold; where no counts are kept the count is zero. -/
def cell (c : Canvas V) (counted : Bool) (x y : UInt32) : Cell V :=
  match c.last? x y with
  | some (value, count) => ⟨value, if counted then count else 0, true⟩
  | none => .blank c.fill

def edit (c : Canvas V) : LayerEdit V → Canvas V
  | .setPixel x y value count => c.setPixel x y value count
  | .clear => c.clear c.fill
  | .resize width height => c.resize width height

def map {W : Type} (f : V → W) (c : Canvas V) : Canvas W where
  width := c.width
  height := c.height
  fill := f c.fill
  samples := c.samples.map fun s => (s.1, f s.2.1, s.2.2)

section SetPixel

variable (c : Canvas V) (x y : UInt32) (value : V) (count : UInt32)

@[simp] theorem setPixel_width : (c.setPixel x y value count).width = c.width := by
  rw [setPixel]
  split <;> rfl

@[simp] theorem setPixel_height : (c.setPixel x y value count).height = c.height := by
  rw [setPixel]
  split <;> rfl

@[simp] theorem setPixel_fill : (c.setPixel x y value count).fill = c.fill := by
  rw [setPixel]
  split <;> rfl

end SetPixel

/-- Fresh pixels have the same value along every sequence of edits. -/
theorem fill_edit (c : Canvas V) (e : LayerEdit V) : (c.edit e).fill = c.fill := by
  cases e with
  | setPixel x y value count => exact c.setPixel_fill x y value count
  | clear => rfl
  | resize w h =>
      rw [edit, resize]
      split <;> rfl

theorem cell_active (c : Canvas V) (counted : Bool) (x y : UInt32) :
    (c.cell counted x y).active = (c.last? x y).isSome := by
  rw [cell]
  cases c.last? x y with
  | none => rfl
  | some _ => rfl

theorem cell_setPixel {c : Canvas V} {x y : UInt32} (hin : c.Contains x y) (counted : Bool)
    (value : V) (count : UInt32) (x' y' : UInt32) :
    (c.setPixel x y value count).cell counted x' y'
      = if x' = x ∧ y' = y then ⟨value, if counted then count else 0, true⟩
        else c.cell counted x' y' := by
  rw [setPixel, if_pos hin, cell, last?, List.lookup_cons]
  by_cases hself : x' = x ∧ y' = y
  · obtain ⟨rfl, rfl⟩ := hself
    simp
  · have hne : ((x', y') == (x, y)) = false := by simpa using hself
    rw [hne, if_neg hself]
    rfl

theorem setPixel_map {W : Type} (f : V → W) (c : Canvas V) (x y : UInt32) (value : V)
    (count : UInt32) :
    (c.map f).setPixel x y (f value) count = (c.setPixel x y value count).map f := by
  by_cases hin : c.Contains x y
  · have hin' : (c.map f).Contains x y := hin
    rw [setPixel, setPixel, if_pos hin, if_pos hin']
    rfl
  · have hout' : ¬ (c.map f).Contains x y := hin
    rw [setPixel, setPixel, if_neg hin, if_neg hout']

theorem last?_map {W : Type} (f : V → W) (c : Canvas V) (x y : UInt32) :
    (c.map f).last? x y = (c.last? x y).map fun s => (f s.1, s.2) := by
  rw [last?, last?, map]
  generalize c.samples = samples
  induction samples with
  | nil => rfl
  | cons s samples ih =>
      obtain ⟨coordinate, sample⟩ := s
      rw [List.map_cons, List.lookup_cons, List.lookup_cons]
      cases (x, y) == coordinate with
      | true => rfl
      | false => exact ih

theorem cell_map {W : Type} (f : V → W) (c : Canvas V) (counted : Bool) (x y : UInt32) :
    (c.map f).cell counted x y
      = ⟨f (c.cell counted x y).value, (c.cell counted x y).count,
          (c.cell counted x y).active⟩ := by
  rw [cell, cell, last?_map]
  cases c.last? x y with
  | none => rfl
  | some _ => rfl

end Canvas

namespace Layer

/-- A buffer shows a canvas: its arrays fit, every pixel reads as the canvas says, slots beside the
image are fresh, a sample outside the image is turned down, and only another size makes it anew. -/
structure Shows (l : Layer V) [Inhabited V] (counted : Bool) (c : Canvas V) : Prop where
  hasShape : l.HasShape c.width c.height counted
  pixel?_eq : ∀ x y, l.pixel? x y
    = if c.Contains x y then some ((c.cell counted x y).value, (c.cell counted x y).count)
      else none
  has_iff : ∀ x y, l.mask.has x y = true ↔ c.Contains x y ∧ (c.last? x y).isSome
  padding : ∀ i : Nat × PixelId, i.1 < l.mask.tileCount → l.grid.interior i = false →
    l.cell i = .blank c.fill
  setPixel_inside : ∀ x y value count, c.Contains x y → (l.setPixel x y value count).1 = true
  setPixel_outside : ∀ x y value count, ¬ c.Contains x y →
    l.setPixel x y value count = (false, l)
  resize_eq : ∀ w h, l.resize w h c.fill
    = if c.width = w ∧ c.height = h then (false, l) else (true, filled counted w h c.fill)

/-- What is kept along a sequence of edits: the cells in the image are the canvas's, the others
fresh. -/
structure Holds (l : Layer V) [Inhabited V] (counted : Bool) (c : Canvas V) : Prop where
  hasShape : l.HasShape c.width c.height counted
  cell_eq : ∀ x y i, (TileGrid.ofSize c.width c.height).locate x y = some i →
    l.cell i = c.cell counted x y
  padding : ∀ i : Nat × PixelId, i.1 < (TileGrid.ofSize c.width c.height).tileCount →
    (TileGrid.ofSize c.width c.height).interior i = false → l.cell i = .blank c.fill

variable [Inhabited V] {l : Layer V} {counted : Bool} {c : Canvas V}

theorem filled_holds (counted : Bool) (w h : UInt32) (fill : V) :
    (filled counted w h fill).Holds counted (.blank w h fill) where
  hasShape := filled_hasShape counted w h fill
  cell_eq _ _ _ hi := cell_filled fill (TileGrid.locate_place hi).1
  padding _ ht _ := cell_filled fill ht

theorem Holds.setPixel (hl : l.Holds counted c) (x y : UInt32) (value : V) (count : UInt32) :
    (l.setPixel x y value count).2.Holds counted (c.setPixel x y value count) := by
  by_cases hin : c.Contains x y
  · obtain ⟨j, hj⟩ := TileGrid.exists_locate_of_lt hin
    have hcell := cell_setPixel hl.hasShape hj value count
    constructor
    · rw [Canvas.setPixel_width, Canvas.setPixel_height]
      exact setPixel_hasShape hl.hasShape x y value count
    · -- two coordinates have one place only if they are the same
      intro x' y' i hi
      rw [Canvas.setPixel_width, Canvas.setPixel_height] at hi
      rw [hcell, Canvas.cell_setPixel hin]
      by_cases hself : x' = x ∧ y' = y
      · obtain ⟨rfl, rfl⟩ := hself
        rw [if_pos (Option.some.inj (hi.symm.trans hj))]
        exact (if_pos ⟨rfl, rfl⟩).symm
      · have hne : i ≠ j := fun hij => hself (TileGrid.locate_inj (hij ▸ hi) hj)
        rw [if_neg hne, if_neg hself]
        exact hl.cell_eq x' y' i hi
    · -- no coordinate has its place beside the image
      intro i ht hpad
      rw [Canvas.setPixel_width, Canvas.setPixel_height] at ht hpad
      have hne : i ≠ j := by
        rintro rfl
        rw [(TileGrid.locate_place hj).2] at hpad
        cases hpad
      rw [hcell, if_neg hne, Canvas.setPixel_fill]
      exact hl.padding i ht hpad
  · rw [setPixel_outside hl.hasShape (TileGrid.locate_eq_none hin), Canvas.setPixel, if_neg hin]
    exact hl

theorem Holds.clear (hl : l.Holds counted c) (fill : V) :
    (l.clear fill).Holds counted (c.clear fill) := by
  rw [clear_eq_filled hl.hasShape]
  exact filled_holds counted c.width c.height fill

theorem Holds.resize_eq (hl : l.Holds counted c) (w h : UInt32) :
    l.resize w h c.fill
      = if c.width = w ∧ c.height = h then (false, l)
        else (true, filled counted w h c.fill) := by
  split
  · rename_i hsize
    obtain ⟨rfl, rfl⟩ := hsize
    exact resize_eq_self hl.hasShape c.fill
  · rename_i hsize
    exact resize_eq_filled hl.hasShape hsize c.fill

theorem Holds.resize (hl : l.Holds counted c) (w h : UInt32) :
    (l.resize w h c.fill).2.Holds counted (c.resize w h) := by
  rw [hl.resize_eq, Canvas.resize]
  split
  · exact hl
  · exact filled_holds counted w h c.fill

theorem Holds.edit (hl : l.Holds counted c) (e : LayerEdit V) :
    (l.edit c.fill e).Holds counted (c.edit e) := by
  cases e with
  | setPixel x y value count => exact hl.setPixel x y value count
  | clear => exact hl.clear c.fill
  | resize w h => exact hl.resize w h

theorem Holds.edits (hl : l.Holds counted c) (edits : List (LayerEdit V)) :
    (edits.foldl (fun l e => l.edit c.fill e) l).Holds counted (edits.foldl Canvas.edit c) := by
  induction edits generalizing l c with
  | nil => exact hl
  | cons e edits ih =>
      have hrest := ih (hl.edit e)
      rw [Canvas.fill_edit] at hrest
      exact hrest

/-- Cells that are the canvas's make a buffer that shows it. -/
theorem Holds.shows (hl : l.Holds counted c) : l.Shows counted c where
  hasShape := hl.hasShape
  pixel?_eq x y := by
    split
    · rename_i hin
      obtain ⟨i, hi⟩ := TileGrid.exists_locate_of_lt hin
      rw [pixel?_eq_cell hl.hasShape hi, hl.cell_eq x y i hi]
    · rename_i hout
      exact pixel?_outside hl.hasShape (TileGrid.locate_eq_none hout)
  has_iff x y := by
    by_cases hin : c.Contains x y
    · obtain ⟨i, hi⟩ := TileGrid.exists_locate_of_lt hin
      rw [has_eq_cell hl.hasShape hi, hl.cell_eq x y i hi, Canvas.cell_active]
      exact (and_iff_right hin).symm
    · rw [has_outside hl.hasShape (TileGrid.locate_eq_none hin)]
      exact iff_of_false Bool.false_ne_true fun hset => hin hset.1
  padding i ht hpad := by
    rw [grid, hl.hasShape.grid_eq] at hpad
    exact hl.padding i (hl.hasShape.size_tiles ▸ ht) hpad
  setPixel_inside x y value count hin := by
    obtain ⟨i, hi⟩ := TileGrid.exists_locate_of_lt hin
    exact setPixel_inside hl.hasShape hi value count
  setPixel_outside x y value count hout :=
    setPixel_outside hl.hasShape (TileGrid.locate_eq_none hout) value count
  resize_eq := hl.resize_eq

end Layer

/-! ### Layers of any layout -/

/-- What a caller can do to a layer whose layout is chosen when the program runs. -/
inductive FormatEdit where
  | setPixel (x y : UInt32) (colour : Rgba) (count : UInt32)
  | clear (colour : Rgba)

/-- The canvas of such a layer after an edit, in colours of four channels. -/
def Canvas.paint (c : Canvas Rgba) : FormatEdit → Canvas Rgba
  | .setPixel x y colour count => c.setPixel x y colour count
  | .clear colour => c.clear colour

namespace FormatLayer

def edit (l : FormatLayer) : FormatEdit → FormatLayer
  | .setPixel x y colour count => (l.setPixel x y colour count).2
  | .clear colour => l.clear colour

/-- A layer shows a canvas cut to the channels of its layout: what it has no channel for reads as
zero. -/
structure Shows (l : FormatLayer) (format : PixelFormat) (c : Canvas Rgba) : Prop where
  hasShape : l.HasShape format c.width c.height
  pixel?_eq : ∀ x y, l.pixel? x y
    = if c.Contains x y then
        some (((c.cell true x y).value.convert format.channels).convert 4,
          (c.cell true x y).count)
      else none
  has_iff : ∀ x y, l.mask.has x y = true ↔ c.Contains x y ∧ (c.last? x y).isSome
  padding : ∀ i : Nat × PixelId, i.1 < l.mask.tileCount → l.mask.grid.interior i = false →
    l.layer.cell i = .blank (c.fill.convert l.format.channels)
  setPixel_inside : ∀ x y colour count, c.Contains x y → (l.setPixel x y colour count).1 = true
  setPixel_outside : ∀ x y colour count, ¬ c.Contains x y →
    l.setPixel x y colour count = (false, l)

variable {format : PixelFormat} {layer : Layer (Texel format.channels)} {c : Canvas Rgba}

/-- A layer of one layout that shows the cut canvas. -/
theorem shows_mk (hlayer : layer.Shows true (c.map (Texel.convert format.channels))) :
    Shows ⟨format, layer⟩ format c where
  hasShape := ⟨rfl, hlayer.hasShape⟩
  pixel?_eq x y := by
    rw [pixel?_eq_map, hlayer.pixel?_eq, Canvas.cell_map]
    by_cases hin : c.Contains x y
    · rw [if_pos hin]
      exact congrArg _ (if_pos hin)
    · rw [if_neg hin]
      exact congrArg _ (if_neg hin)
  has_iff x y := by
    have hhas := hlayer.has_iff x y
    rw [Canvas.last?_map, Option.isSome_map] at hhas
    exact hhas
  padding := hlayer.padding
  setPixel_inside x y colour count hin := by
    rw [setPixel_mk]
    exact hlayer.setPixel_inside x y _ count hin
  setPixel_outside x y colour count hout := by
    have hsame := hlayer.setPixel_outside x y (colour.convert format.channels) count hout
    rw [setPixel_mk, hsame]

/-- Edits in colours are edits in the channels of the layout. -/
theorem edits_holds (hlayer : layer.Holds true (c.map (Texel.convert format.channels)))
    (edits : List FormatEdit) :
    ∃ layer' : Layer (Texel format.channels),
      edits.foldl edit ⟨format, layer⟩ = ⟨format, layer'⟩ ∧
        layer'.Holds true ((edits.foldl Canvas.paint c).map (Texel.convert format.channels)) := by
  induction edits generalizing layer c with
  | nil => exact ⟨layer, rfl, hlayer⟩
  | cons e edits ih =>
      cases e with
      | setPixel x y colour count =>
          have hnext := hlayer.setPixel x y (colour.convert format.channels) count
          rw [Canvas.setPixel_map] at hnext
          rw [List.foldl_cons, edit, setPixel_mk]
          exact ih hnext
      | clear colour => exact ih (hlayer.clear (colour.convert format.channels))

theorem empty_eq_filled (colour : Rgba) : empty = filled .float 0 0 colour :=
  congrArg (FormatLayer.mk .float) (Layer.empty_eq_filled true _)

end FormatLayer

/-- Buffers are two-dimensional arrays. Whatever pixels are set, in the image or beside it, and
whenever a buffer is cleared or given a size: it shows the canvas of the calls made, of any number
of channels, with counts and without. So does a buffer of every layout from its first fill on, and
the one that is made without a fill is one of these. -/
theorem Canvas.shown_of_edits :
    (∀ (n : Nat) (counted : Bool) (edits : List (LayerEdit (Texel n))),
      (edits.foldl (fun l e => l.edit (.zero n) e) (Layer.empty counted)).Shows counted
        (edits.foldl Canvas.edit (.blank 0 0 (.zero n)))) ∧
    (∀ (format : PixelFormat) (w h : UInt32) (fill : Rgba) (edits : List FormatEdit),
      (edits.foldl FormatLayer.edit (.filled format w h fill)).Shows format
        (edits.foldl Canvas.paint (.blank w h fill))) ∧
    ∀ fill, FormatLayer.empty = .filled .float 0 0 fill := by
  refine ⟨?_, ?_, FormatLayer.empty_eq_filled⟩
  · intro n counted edits
    rw [Layer.empty_eq_filled counted (.zero n)]
    exact ((Layer.filled_holds counted 0 0 (.zero n)).edits edits).shows
  · intro format w h fill edits
    obtain ⟨layer, hrun, hlayer⟩ := FormatLayer.edits_holds (c := .blank w h fill)
      (Layer.filled_holds true w h (fill.convert format.channels)) edits
    rw [FormatLayer.filled_eq, hrun]
    exact FormatLayer.shows_mk hlayer.shows

/-- A colour in two channels. -/
example :
    ((FormatLayer.filled .float2 9 1 #v[1, 2, 3, 4]).setPixel 8 0 #v[5, 6, 7, 8] 3).2.pixel? 8 0
      = some (#v[5, 6, 0, 0], 3) := by decide +kernel

end RenderFold
