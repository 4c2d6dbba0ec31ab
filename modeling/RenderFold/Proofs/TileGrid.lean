/-
Places of a tile grid.

A place is a tile together with a pixel of it. The slots of an image are the places of its grid,
and the places whose pixel lies in the unpadded image are the image coordinates. On a grid made by
`ofSize` cutting a tile to the image never fails, however large the sides are.
-/
import RenderFold.Proofs.Tile
import RenderFold.TileGrid

namespace RenderFold

namespace TileGrid

def placeOf (slot : Nat) : Nat × PixelId := (slot / 64, ⟨slot % 64, by omega⟩)

/-- Whether the pixel at a place lies in the unpadded image. -/
def interior (g : TileGrid) (i : Nat × PixelId) : Bool :=
  i.1 % g.columns.toNat * 8 + i.2.column < g.width.toNat
    && i.1 / g.columns.toNat * 8 + i.2.row < g.height.toNat

@[simp] theorem slotOf_placeOf (slot : Nat) : slotOf (placeOf slot) = slot := by
  simp only [slotOf, placeOf, tilePixels]
  omega

@[simp] theorem placeOf_slotOf (i : Nat × PixelId) : placeOf (slotOf i) = i := by
  have hp := i.2.isLt
  apply Prod.ext
  · simp only [slotOf, placeOf, tilePixels]
    omega
  · apply Fin.ext
    simp only [slotOf, placeOf, tilePixels]
    omega

theorem placeOf_fst_lt {g : TileGrid} {slot : Nat} (h : slot < g.slotCount) :
    (placeOf slot).1 < g.tileCount := by
  simp only [slotCount, tilePixels] at h
  simp only [placeOf]
  omega

theorem slotOf_lt {g : TileGrid} {i : Nat × PixelId} (h : i.1 < g.tileCount) :
    slotOf i < g.slotCount := by
  have hp := i.2.isLt
  simp only [slotOf, slotCount, tilePixels]
  omega

@[simp] theorem slotOf_inj {i j : Nat × PixelId} : slotOf i = slotOf j ↔ i = j := by
  constructor
  · intro h
    rw [← placeOf_slotOf i, h, placeOf_slotOf]
  · exact congrArg slotOf

theorem getElem?_setIfInBounds_slotOf {α : Type} {a : Array α} {j : Nat × PixelId}
    (hj : slotOf j < a.size) (v : α) (i : Nat × PixelId) :
    (a.setIfInBounds (slotOf j) v)[slotOf i]? = if i = j then some v else a[slotOf i]? := by
  by_cases hij : i = j
  · subst hij
    simp [hj]
  · simp [hij, Ne.symm hij]

/-! ### Grids of image sizes -/

section OfSize

variable {w h : UInt32}

theorem toNat_tilesFor (side : UInt32) : (tilesFor side).toNat = (side.toNat + 7) / 8 := by
  have hside := side.toNat_lt
  have hdiv : (side / tileSize).toNat = side.toNat / 8 := UInt32.toNat_div side 8
  have hmod : (side % tileSize).toNat = side.toNat % 8 := UInt32.toNat_mod side 8
  rw [tilesFor, UInt32.toNat_add, hdiv]
  split
  · rename_i hzero
    rw [hzero] at hmod
    simp only [UInt32.toNat_zero] at hmod ⊢
    omega
  · rename_i hne
    have hpos : side.toNat % 8 ≠ 0 := fun hz => hne (UInt32.toNat_inj.1 (hmod.trans hz))
    simp only [UInt32.toNat_one]
    omega

@[simp] theorem ofSize_width : (ofSize w h).width = w := rfl

@[simp] theorem ofSize_height : (ofSize w h).height = h := rfl

theorem toNat_columns_ofSize : (ofSize w h).columns.toNat = (w.toNat + 7) / 8 :=
  toNat_tilesFor w

theorem toNat_rows_ofSize : (ofSize w h).rows.toNat = (h.toNat + 7) / 8 := toNat_tilesFor h

theorem tileCount_ofSize :
    (ofSize w h).tileCount = (w.toNat + 7) / 8 * ((h.toNat + 7) / 8) := by
  rw [tileCount, toNat_columns_ofSize, toNat_rows_ofSize]

/-- No image has more than `2 ^ 58` tiles, since a side has at most `2 ^ 29`. -/
theorem tileCount_ofSize_le : (ofSize w h).tileCount ≤ 2 ^ 58 := by
  have hw := w.toNat_lt
  have hh := h.toNat_lt
  have hcolumns : (w.toNat + 7) / 8 ≤ 2 ^ 29 := by omega
  have hrows : (h.toNat + 7) / 8 ≤ 2 ^ 29 := by omega
  calc (ofSize w h).tileCount = (w.toNat + 7) / 8 * ((h.toNat + 7) / 8) := tileCount_ofSize
    _ ≤ 2 ^ 29 * 2 ^ 29 := Nat.mul_le_mul hcolumns hrows

theorem tileCount_ofSize_lt_range64 : (ofSize w h).tileCount < range64 :=
  Nat.lt_of_le_of_lt tileCount_ofSize_le (by decide)

/-- The tiles of an image can be counted with 64 bits, however large its sides are. -/
theorem tileCount64_ofSize : (ofSize w h).tileCount64 = .ok (ofSize w h).tileCount :=
  size64_eq_ok tileCount_ofSize_lt_range64

/-- The column and the row of a tile are below the numbers of columns and rows. -/
theorem tile_column_row_lt {t : Nat} (ht : t < (ofSize w h).tileCount) :
    t % ((w.toNat + 7) / 8) < (w.toNat + 7) / 8 ∧
      t / ((w.toNat + 7) / 8) < (h.toNat + 7) / 8 := by
  rw [tileCount_ofSize] at ht
  have hpos : 0 < (w.toNat + 7) / 8 := by
    apply Nat.pos_of_ne_zero
    intro hzero
    rw [hzero, Nat.zero_mul] at ht
    exact Nat.not_lt_zero t ht
  exact ⟨Nat.mod_lt t hpos, Nat.div_lt_of_lt_mul ht⟩

theorem interior_ofSize (t : Nat) (p : PixelId) :
    (ofSize w h).interior (t, p) = true ↔
      t % ((w.toNat + 7) / 8) * 8 + p.val % 8 < w.toNat ∧
        t / ((w.toNat + 7) / 8) * 8 + p.val / 8 < h.toNat := by
  rw [interior, Bool.and_eq_true, toNat_columns_ofSize]
  simp only [decide_eq_true_eq]
  exact Iff.rfl

/-- Cutting a tile to the image gives the pixels in the image. -/
theorem inside_ofSize {t : Nat} (ht : t < (ofSize w h).tileCount) :
    ∃ m, (ofSize w h).inside t = .ok m ∧
      ∀ p, Tile.has m p = (ofSize w h).interior (t, p) := by
  obtain ⟨hcolumn, hrow⟩ := tile_column_row_lt ht
  have hw := w.toNat_lt
  have hh := h.toNat_lt
  have hcolumns : (ofSize w h).columns ≠ 0 := by
    intro hzero
    have hnat := congrArg UInt32.toNat hzero
    rw [toNat_columns_ofSize, UInt32.toNat_zero] at hnat
    omega
  have hleft : size32 (t % ((w.toNat + 7) / 8) % range32 * tileSize.toNat)
      = .ok (t % ((w.toNat + 7) / 8) * 8) := by
    have hmod : t % ((w.toNat + 7) / 8) % range32 = t % ((w.toNat + 7) / 8) :=
      Nat.mod_eq_of_lt (by simp only [range32]; omega)
    rw [hmod]
    apply size32_eq_ok
    change t % ((w.toNat + 7) / 8) * 8 < range32
    simp only [range32]
    omega
  have hbottom : size32 (t / ((w.toNat + 7) / 8) % range32 * tileSize.toNat)
      = .ok (t / ((w.toNat + 7) / 8) * 8) := by
    have hmod : t / ((w.toNat + 7) / 8) % range32 = t / ((w.toNat + 7) / 8) :=
      Nat.mod_eq_of_lt (by simp only [range32]; omega)
    rw [hmod]
    apply size32_eq_ok
    change t / ((w.toNat + 7) / 8) * 8 < range32
    simp only [range32]
    omega
  refine ⟨Tile.corner (min (w.toNat - t % ((w.toNat + 7) / 8) * 8) 8)
    (min (h.toNat - t / ((w.toNat + 7) / 8) * 8) 8), ?_, ?_⟩
  · simp only [inside, if_neg hcolumns, toNat_columns_ofSize, hleft, hbottom]
    rfl
  · intro p
    have hp := p.isLt
    rw [Tile.has_corner, Bool.eq_iff_iff, interior_ofSize, decide_eq_true_eq, PixelId.column,
      PixelId.row]
    omega

theorem contains_ofSize (x y : UInt32) :
    (ofSize w h).contains x y = true ↔ x < w ∧ y < h := by
  rw [contains, Bool.and_eq_true, decide_eq_true_eq, decide_eq_true_eq]
  exact Iff.rfl

theorem locate_eq_some {x y : UInt32} (hx : x < w) (hy : y < h) :
    (ofSize w h).locate x y
      = some (y.toNat / 8 * ((w.toNat + 7) / 8) + x.toNat / 8, .wrap x y) := by
  have hin := (contains_ofSize x y).2 ⟨hx, hy⟩
  have hdx : (x / tileSize).toNat = x.toNat / 8 := UInt32.toNat_div x 8
  have hdy : (y / tileSize).toNat = y.toNat / 8 := UInt32.toNat_div y 8
  rw [locate, if_pos hin, tileIndex, toNat_columns_ofSize, hdx, hdy]

theorem isSome_locate_iff {x y : UInt32} :
    ((ofSize w h).locate x y).isSome = true ↔ x < w ∧ y < h := by
  rw [← contains_ofSize, locate]
  split <;> simp_all

/-- The coordinates of the image have places. -/
theorem exists_locate_of_lt {x y : UInt32} (hin : x < w ∧ y < h) :
    ∃ i, (ofSize w h).locate x y = some i :=
  Option.isSome_iff_exists.1 (isSome_locate_iff.2 hin)

theorem lt_of_locate {x y : UInt32} {i : Nat × PixelId} (hi : (ofSize w h).locate x y = some i) :
    x < w ∧ y < h := isSome_locate_iff.1 (Option.isSome_of_eq_some hi)

theorem locate_eq_none {x y : UInt32} (hout : ¬ (x < w ∧ y < h)) :
    (ofSize w h).locate x y = none :=
  Option.not_isSome_iff_eq_none.1 (mt isSome_locate_iff.1 hout)

/-- The coordinate that is found at a place. -/
theorem locate_coords {x y : UInt32} {i : Nat × PixelId}
    (hi : (ofSize w h).locate x y = some i) :
    x.toNat = i.1 % ((w.toNat + 7) / 8) * 8 + i.2.val % 8 ∧
      y.toNat = i.1 / ((w.toNat + 7) / 8) * 8 + i.2.val / 8 := by
  obtain ⟨hx, hy⟩ := lt_of_locate hi
  rw [locate_eq_some hx hy, Option.some.injEq] at hi
  subst hi
  rw [UInt32.lt_iff_toNat_lt] at hx
  have hcol : x.toNat / 8 < (w.toNat + 7) / 8 := by omega
  have hdiv : (y.toNat / 8 * ((w.toNat + 7) / 8) + x.toNat / 8) / ((w.toNat + 7) / 8)
      = y.toNat / 8 := by
    rw [Nat.mul_comm, Nat.mul_add_div (by omega), Nat.div_eq_of_lt hcol, Nat.add_zero]
  have hmod : (y.toNat / 8 * ((w.toNat + 7) / 8) + x.toNat / 8) % ((w.toNat + 7) / 8)
      = x.toNat / 8 := by
    rw [Nat.mul_comm, Nat.mul_add_mod, Nat.mod_eq_of_lt hcol]
  rw [hdiv, hmod]
  simp only [PixelId.wrap]
  omega

/-- Image coordinates have places of their own. -/
theorem locate_inj {x y x' y' : UInt32} {i : Nat × PixelId}
    (hi : (ofSize w h).locate x y = some i) (hi' : (ofSize w h).locate x' y' = some i) :
    x = x' ∧ y = y' := by
  obtain ⟨hx, hy⟩ := locate_coords hi
  obtain ⟨hx', hy'⟩ := locate_coords hi'
  exact ⟨UInt32.toNat_inj.1 (hx.trans hx'.symm), UInt32.toNat_inj.1 (hy.trans hy'.symm)⟩

/-- An image coordinate has a place in the image. -/
theorem locate_place {x y : UInt32} {i : Nat × PixelId}
    (hi : (ofSize w h).locate x y = some i) :
    i.1 < (ofSize w h).tileCount ∧ (ofSize w h).interior i = true := by
  obtain ⟨hx, hy⟩ := lt_of_locate hi
  obtain ⟨hcolumn, hrow⟩ := locate_coords hi
  rw [UInt32.lt_iff_toNat_lt] at hx hy
  constructor
  · rw [tileCount_ofSize, Nat.mul_comm]
    have hpos : 0 < (w.toNat + 7) / 8 := by omega
    exact (Nat.div_lt_iff_lt_mul hpos).1 (by omega)
  · rw [interior_ofSize]
    omega

/-- A place in the image is the place of an image coordinate. -/
theorem exists_locate {i : Nat × PixelId} (ht : i.1 < (ofSize w h).tileCount)
    (hin : (ofSize w h).interior i = true) :
    ∃ x y, (ofSize w h).locate x y = some i := by
  obtain ⟨t, p⟩ := i
  obtain ⟨hcolumn, hrow⟩ := tile_column_row_lt ht
  have hw := w.toNat_lt
  have hh := h.toNat_lt
  have hp := p.isLt
  rw [interior_ofSize] at hin
  have hx : (UInt32.ofNat (t % ((w.toNat + 7) / 8) * 8 + p.val % 8)).toNat
      = t % ((w.toNat + 7) / 8) * 8 + p.val % 8 :=
    UInt32.toNat_ofNat_of_lt' (by rw [UInt32.size]; omega)
  have hy : (UInt32.ofNat (t / ((w.toNat + 7) / 8) * 8 + p.val / 8)).toNat
      = t / ((w.toNat + 7) / 8) * 8 + p.val / 8 :=
    UInt32.toNat_ofNat_of_lt' (by rw [UInt32.size]; omega)
  refine ⟨_, _, locate_eq_some (x := UInt32.ofNat (t % ((w.toNat + 7) / 8) * 8 + p.val % 8))
    (y := UInt32.ofNat (t / ((w.toNat + 7) / 8) * 8 + p.val / 8)) ?_ ?_ |>.trans ?_⟩
  · rw [UInt32.lt_iff_toNat_lt, hx]
    omega
  · rw [UInt32.lt_iff_toNat_lt, hy]
    omega
  · rw [Option.some.injEq]
    apply Prod.ext
    · rw [hx, hy]
      have hdx : (t % ((w.toNat + 7) / 8) * 8 + p.val % 8) / 8 = t % ((w.toNat + 7) / 8) := by
        omega
      have hdy : (t / ((w.toNat + 7) / 8) * 8 + p.val / 8) / 8 = t / ((w.toNat + 7) / 8) := by
        omega
      simp only [hdx, hdy]
      rw [Nat.mul_comm]
      exact Nat.div_add_mod t _
    · apply Fin.ext
      simp only [PixelId.wrap, hx, hy]
      omega

end OfSize

end TileGrid

end RenderFold
