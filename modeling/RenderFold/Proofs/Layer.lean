/-
Layers as functions from places to cells.

A layer whose arrays fit its grid is its size, whether it is counted, and the cells at its places:
two such layers with the same cells are equal, padding included. Every operation on layers has one
equation for its cells, and later modules argue about cells only.
-/
import RenderFold.Proofs.Cell
import RenderFold.Proofs.PixelMask
import RenderFold.Layer

namespace RenderFold

variable {V : Type}

namespace Layer

/-- The size of a layer, whether it keeps counts, and that its arrays fit its grid. -/
structure HasShape (l : Layer V) (width height : UInt32) (counted : Bool) : Prop where
  width_eq : l.mask.width = width
  height_eq : l.mask.height = height
  isCounted_eq : l.isCounted = counted
  wellSized : l.WellSized

/-- The arrays of a layer fit its own size. -/
def Sound (l : Layer V) (counted : Bool) : Prop := l.HasShape l.mask.width l.mask.height counted

section Shape

variable {l : Layer V} {w h : UInt32} {counted : Bool}

theorem HasShape.sound (hl : l.HasShape w h counted) : l.Sound counted := by
  rw [Sound, hl.width_eq, hl.height_eq]
  exact hl

theorem Sound.hasShape (hl : l.Sound counted) (hwidth : l.mask.width = w)
    (hheight : l.mask.height = h) : l.HasShape w h counted := by
  subst hwidth
  subst hheight
  exact hl

theorem HasShape.grid_eq (hl : l.HasShape w h counted) : l.mask.grid = TileGrid.ofSize w h := by
  rw [PixelMask.grid, hl.width_eq, hl.height_eq]

theorem HasShape.size_values (hl : l.HasShape w h counted) :
    l.values.size = (TileGrid.ofSize w h).slotCount := hl.grid_eq ▸ hl.wellSized.1

theorem HasShape.size_counts (hl : l.HasShape w h counted) {counts : Array UInt32}
    (hc : l.counts = some counts) : counts.size = (TileGrid.ofSize w h).slotCount :=
  hl.grid_eq ▸ hl.wellSized.2 counts hc

theorem HasShape.size_tiles (hl : l.HasShape w h counted) :
    l.mask.tiles.size = (TileGrid.ofSize w h).tileCount :=
  l.mask.size_tiles.trans (congrArg TileGrid.tileCount hl.grid_eq)

theorem HasShape.counts_eq_none (hl : l.HasShape w h false) : l.counts = none :=
  Option.isSome_eq_false_iff.1 hl.isCounted_eq |> Option.isNone_iff_eq_none.1

theorem HasShape.counts_eq_some (hl : l.HasShape w h true) : ∃ counts, l.counts = some counts :=
  Option.isSome_iff_exists.1 hl.isCounted_eq

/-! ### Operations -/

theorem filled_hasShape (counted : Bool) (w h : UInt32) (blank : V) :
    (filled counted w h blank).HasShape w h counted where
  width_eq := rfl
  height_eq := rfl
  isCounted_eq := by cases counted <;> rfl
  wellSized := by
    constructor
    · simp [filled, PixelMask.grid, PixelMask.blank]
    · intro counts hc
      cases counted with
      | false => simp [filled] at hc
      | true =>
          simp only [filled, if_true, Option.mem_def, Option.some.injEq] at hc
          subst hc
          simp [filled, PixelMask.grid, PixelMask.blank]

/-- The layer of a given shape with given cells. -/
def ofCells (w h : UInt32) (counted : Bool) (f : Nat × PixelId → Cell V) : Layer V where
  values := Array.ofFn fun s : Fin (TileGrid.ofSize w h).slotCount =>
    (f (TileGrid.placeOf s.val)).value
  counts :=
    if counted then some (Array.ofFn fun s : Fin (TileGrid.ofSize w h).slotCount =>
      (f (TileGrid.placeOf s.val)).count)
    else none
  mask := .ofPlaces w h fun i => (f i).active

theorem ofCells_hasShape (w h : UInt32) (counted : Bool) (f : Nat × PixelId → Cell V) :
    (ofCells w h counted f).HasShape w h counted where
  width_eq := rfl
  height_eq := rfl
  isCounted_eq := by cases counted <;> rfl
  wellSized := by
    constructor
    · simp [ofCells, PixelMask.grid, PixelMask.ofPlaces]
    · intro counts hc
      cases counted with
      | false => simp [ofCells] at hc
      | true =>
          simp only [ofCells, if_true, Option.mem_def, Option.some.injEq] at hc
          subst hc
          simp [PixelMask.grid, PixelMask.ofPlaces, ofCells]

theorem empty_eq_filled (counted : Bool) (blank : V) :
    empty counted = filled counted 0 0 blank := by
  have hslots : (TileGrid.ofSize 0 0).slotCount = 0 := by
    rw [TileGrid.slotCount, TileGrid.tileCount_ofSize]
    rfl
  cases counted <;> simp [empty, filled, hslots, PixelMask.empty]

/-- A cleared layer is a fresh one. -/
theorem clear_eq_filled (hl : l.HasShape w h counted) (blank : V) :
    l.clear blank = filled counted w h blank := by
  obtain ⟨values, counts, mask⟩ := l
  have hvalues := hl.size_values
  have hmask : mask.clear = PixelMask.blank w h := by
    apply PixelMask.ext_has_tileD hl.width_eq hl.height_eq
    intro i _
    simp
  cases counted with
  | false =>
      have hc := hl.counts_eq_none
      simp only at hvalues hc
      simp [clear, filled, hvalues, hc, hmask]
  | true =>
      obtain ⟨array, hc⟩ := hl.counts_eq_some
      have hcounts := hl.size_counts hc
      simp only at hvalues hc
      simp [clear, filled, hvalues, hc, hcounts, hmask]

theorem hasSize_iff (hl : l.HasShape w h counted) (w' h' : UInt32) :
    l.hasSize w' h' = true ↔ w = w' ∧ h = h' := by
  have hslots : l.values.size = l.grid.slotCount := hl.wellSized.1
  simp [hasSize, hl.width_eq, hl.height_eq, hslots]

theorem resize_eq_self (hl : l.HasShape w h counted) (blank : V) :
    l.resize w h blank = (false, l) := by
  rw [resize, if_pos ((hasSize_iff hl w h).2 ⟨rfl, rfl⟩)]

theorem resize_eq_filled (hl : l.HasShape w h counted) {w' h' : UInt32} (hne : ¬ (w = w' ∧ h = h'))
    (blank : V) : l.resize w' h' blank = (true, filled counted w' h' blank) := by
  rw [resize, if_neg fun hsize => hne ((hasSize_iff hl w' h').1 hsize), hl.isCounted_eq]

theorem resize_hasShape (hl : l.HasShape w h counted) (w' h' : UInt32) (blank : V) :
    (l.resize w' h' blank).2.HasShape w' h' counted := by
  by_cases hsize : w = w' ∧ h = h'
  · obtain ⟨rfl, rfl⟩ := hsize
    rw [resize_eq_self hl]
    exact hl
  · rw [resize_eq_filled hl hsize]
    exact filled_hasShape counted w' h' blank

theorem setPixel_outside (hl : l.HasShape w h counted) {x y : UInt32}
    (hout : (TileGrid.ofSize w h).locate x y = none) (value : V) (count : UInt32) :
    l.setPixel x y value count = (false, l) := by
  obtain ⟨values, counts, mask⟩ := l
  have hgrid : mask.grid = TileGrid.ofSize w h := hl.grid_eq
  simp [setPixel, hgrid, TileGrid.slot, hout]

theorem setPixel_inside (hl : l.HasShape w h counted) {x y : UInt32} {i : Nat × PixelId}
    (hi : (TileGrid.ofSize w h).locate x y = some i) (value : V) (count : UInt32) :
    (l.setPixel x y value count).1 = true := by
  obtain ⟨values, counts, mask⟩ := l
  have hgrid : mask.grid = TileGrid.ofSize w h := hl.grid_eq
  simp [setPixel, hgrid, TileGrid.slot, hi]

theorem pixel?_outside (hl : l.HasShape w h counted) {x y : UInt32}
    (hout : (TileGrid.ofSize w h).locate x y = none) : l.pixel? x y = none := by
  simp [pixel?, grid, hl.grid_eq, TileGrid.slot, hout]

theorem has_outside (hl : l.HasShape w h counted) {x y : UInt32}
    (hout : (TileGrid.ofSize w h).locate x y = none) : l.mask.has x y = false := by
  simp [PixelMask.has, hl.grid_eq, hout]

theorem setPixel_hasShape (hl : l.HasShape w h counted) (x y : UInt32) (value : V)
    (count : UInt32) : (l.setPixel x y value count).2.HasShape w h counted := by
  obtain ⟨values, counts, mask⟩ := l
  have hgrid : mask.grid = TileGrid.ofSize w h := hl.grid_eq
  cases hi : (TileGrid.ofSize w h).locate x y with
  | none =>
      simp only [setPixel, hgrid, TileGrid.slot, hi]
      exact hl
  | some i =>
      simp only [setPixel, hgrid, TileGrid.slot, hi, PixelMask.insert]
      refine ⟨hl.width_eq, hl.height_eq, ?_, ?_, ?_⟩
      · simpa [isCounted] using hl.isCounted_eq
      · have hvalues := hl.wellSized.1
        simpa [PixelMask.grid, PixelMask.putTile] using hvalues
      · intro array harray
        obtain ⟨counts', hc, rfl⟩ := Option.map_eq_some_iff.1 harray
        have hcounts := hl.wellSized.2 counts' hc
        simpa [PixelMask.grid, PixelMask.putTile] using hcounts

end Shape

/-! ### Cells -/

variable [Inhabited V]

def cell (l : Layer V) (i : Nat × PixelId) : Cell V where
  value := l.values[TileGrid.slotOf i]?.getD default
  count := (l.counts.bind fun counts => counts[TileGrid.slotOf i]?).getD 0
  active := Tile.has (l.mask.tileD i.1) i.2

theorem empty_hasShape (counted : Bool) : (empty (V := V) counted).HasShape 0 0 counted := by
  rw [empty_eq_filled counted (default : V)]
  exact filled_hasShape counted 0 0 default

section Cells

variable {l l' : Layer V} {w h : UInt32} {counted : Bool}

theorem cell_count_of_uncounted (hl : l.HasShape w h counted) (hc : counted = false)
    (i : Nat × PixelId) : (l.cell i).count = 0 := by
  subst hc
  simp [cell, hl.counts_eq_none]

/-- Layers of one shape with the same cells are equal. -/
theorem ext_cell (hl : l.HasShape w h counted) (hl' : l'.HasShape w h counted)
    (hcell : ∀ i : Nat × PixelId, i.1 < (TileGrid.ofSize w h).tileCount → l.cell i = l'.cell i) :
    l = l' := by
  have hslot : ∀ s, s < (TileGrid.ofSize w h).slotCount →
      l.cell (TileGrid.placeOf s) = l'.cell (TileGrid.placeOf s) :=
    fun s hs => hcell _ (TileGrid.placeOf_fst_lt hs)
  have hvalues : l.values = l'.values := by
    apply Array.ext (hl.size_values.trans hl'.size_values.symm)
    intro s hs hs'
    have hvalue := congrArg Cell.value (hslot s (hl.size_values ▸ hs))
    simpa [cell, hs, hs'] using hvalue
  have hcounts : l.counts = l'.counts := by
    cases counted with
    | false => rw [hl.counts_eq_none, hl'.counts_eq_none]
    | true =>
        obtain ⟨counts, hc⟩ := hl.counts_eq_some
        obtain ⟨counts', hc'⟩ := hl'.counts_eq_some
        rw [hc, hc']
        apply congrArg some
        apply Array.ext ((hl.size_counts hc).trans (hl'.size_counts hc').symm)
        intro s hs hs'
        have hcount := congrArg Cell.count (hslot s (hl.size_counts hc ▸ hs))
        simpa [cell, hc, hc', hs, hs'] using hcount
  have hmask : l.mask = l'.mask := by
    apply PixelMask.ext_has_tileD (hl.width_eq.trans hl'.width_eq.symm)
      (hl.height_eq.trans hl'.height_eq.symm)
    intro i hi
    rw [hl'.width_eq, hl'.height_eq] at hi
    exact congrArg Cell.active (hcell i hi)
  cases l
  cases l'
  simp_all

theorem pixel?_eq_cell (hl : l.HasShape w h counted) {x y : UInt32} {i : Nat × PixelId}
    (hi : (TileGrid.ofSize w h).locate x y = some i) :
    l.pixel? x y = some ((l.cell i).value, (l.cell i).count) := by
  have hs : TileGrid.slotOf i < l.values.size := by
    rw [hl.size_values]
    exact TileGrid.slotOf_lt (TileGrid.locate_place hi).1
  simp [pixel?, cell, grid, hl.grid_eq, TileGrid.slot, hi, hs]

theorem has_eq_cell (hl : l.HasShape w h counted) {x y : UInt32} {i : Nat × PixelId}
    (hi : (TileGrid.ofSize w h).locate x y = some i) :
    l.mask.has x y = (l.cell i).active := by
  simp [PixelMask.has, cell, hl.grid_eq, hi]

theorem cell_ofCells {f : Nat × PixelId → Cell V} {i : Nat × PixelId}
    (hi : i.1 < (TileGrid.ofSize w h).tileCount) (hcount : counted = false → (f i).count = 0) :
    (ofCells w h counted f).cell i = f i := by
  have hs := TileGrid.slotOf_lt hi
  have hbit := PixelMask.has_tileD_ofPlaces (fun i => (f i).active) hi
  cases counted with
  | false =>
      have hzero := hcount rfl
      simp only [cell, ofCells, hbit]
      simp [hs, ← hzero]
  | true =>
      simp only [cell, ofCells, hbit]
      simp [hs]

theorem cell_filled {counted : Bool} {w h : UInt32} (blank : V) {i : Nat × PixelId}
    (hi : i.1 < (TileGrid.ofSize w h).tileCount) :
    (filled counted w h blank).cell i = Cell.blank blank := by
  have hs := TileGrid.slotOf_lt hi
  cases counted <;> simp [cell, filled, Cell.blank, hs]

/-- Storing a sample changes the cell at its place and no other. -/
theorem cell_setPixel (hl : l.HasShape w h counted) {x y : UInt32} {j : Nat × PixelId}
    (hj : (TileGrid.ofSize w h).locate x y = some j) (value : V) (count : UInt32)
    (i : Nat × PixelId) :
    (l.setPixel x y value count).2.cell i
      = if i = j then ⟨value, if counted then count else 0, true⟩ else l.cell i := by
  obtain ⟨values, counts, mask⟩ := l
  have hgrid : mask.grid = TileGrid.ofSize w h := hl.grid_eq
  have hplace := (TileGrid.locate_place hj).1
  have hs : TileGrid.slotOf j < values.size := by
    rw [hl.size_values]
    exact TileGrid.slotOf_lt hplace
  have ht : j.1 < mask.tiles.size := by
    rw [hl.size_tiles]
    exact hplace
  have hmask := PixelMask.has_tileD_insert (hgrid ▸ hj) ht i
  have hvalue : (values.setIfInBounds (TileGrid.slotOf j) value)[TileGrid.slotOf i]?.getD default
      = if i = j then value else values[TileGrid.slotOf i]?.getD default := by
    rw [TileGrid.getElem?_setIfInBounds_slotOf hs]
    split <;> rfl
  have hcount : ((counts.map fun c => c.setIfInBounds (TileGrid.slotOf j) count).bind
        fun array => array[TileGrid.slotOf i]?).getD 0
      = if i = j then (if counted then count else 0)
        else (counts.bind fun array => array[TileGrid.slotOf i]?).getD 0 := by
    cases counted with
    | false =>
        have hc : counts = none := hl.counts_eq_none
        simp [hc]
    | true =>
        obtain ⟨array, hc⟩ := hl.counts_eq_some
        have hsize : TileGrid.slotOf j < array.size := by
          rw [hl.size_counts hc]
          exact TileGrid.slotOf_lt hplace
        simp only at hc
        rw [hc, Option.map_some, Option.bind_some, Option.bind_some,
          TileGrid.getElem?_setIfInBounds_slotOf hsize]
        split <;> rfl
  simp only [setPixel, hgrid, TileGrid.slot, hj, Option.map_some, cell, hmask, hvalue, hcount]
  split <;> rfl

end Cells

end Layer

end RenderFold
