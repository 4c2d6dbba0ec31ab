/-
The numbers of a grid in the words that hold them.

Padded sides, tile numbers and slots fit for images of all sizes, and stay below what they are
counted by. The one number that may be too large is the number of slots: if both sides need `2 ^ 29`
tiles, there are `2 ^ 64` slots, although the last of them still has a number of 64 bits.
-/
import Mathlib.Order.Bounds.Basic
import RenderFold.Proofs.TileGrid.Tiling

namespace RenderFold

namespace TileGrid

/-- What machine words hold of a grid. Only the number of slots can be refused. -/
structure HeldInWords (g : TileGrid) : Prop where
  paddedWidth_isLeast : IsLeast {n | 8 ∣ n ∧ g.width.toNat ≤ n} g.paddedWidth.toNat
  paddedHeight_isLeast : IsLeast {n | 8 ∣ n ∧ g.height.toNat ≤ n} g.paddedHeight.toNat
  tiles_padded : g.paddedWidth.toNat = g.columns.toNat * 8 ∧ g.paddedHeight.toNat = g.rows.toNat * 8
  tileCount_eq : g.tileCount64 = .ok (g.columns.toNat * g.rows.toNat)
  tileIndex_eq : ∀ column row, column < g.columns → row < g.rows →
    g.tileIndex64 column row = .ok (row.toNat * g.columns.toNat + column.toNat) ∧
      row.toNat * g.columns.toNat + column.toNat < g.columns.toNat * g.rows.toNat
  slot_eq : ∀ x y, x < g.width → y < g.height →
    ∃ s, g.slot64 x y = .ok (some s) ∧ s < g.columns.toNat * g.rows.toNat * 64
  slotCount_eq : ¬(2 ^ 32 - 8 < g.width.toNat ∧ 2 ^ 32 - 8 < g.height.toNat) →
    g.slotCount64 = .ok (g.columns.toNat * g.rows.toNat * 64)
  slotCount_overflow : 2 ^ 32 - 8 < g.width.toNat → 2 ^ 32 - 8 < g.height.toNat →
    g.slotCount64 = .error .overflow

/-! ### Padded sides -/

/-- A side is padded to the next whole tile; the product does not wrap. -/
theorem toNat_padded (side : UInt32) :
    ((tilesFor side).toUInt64 * tileSize.toUInt64).toNat = (tilesFor side).toNat * 8 := by
  have htiles := (tilesFor side).toNat_lt
  have hproduct : (tilesFor side).toNat * 8 < 2 ^ 64 := by omega
  rw [UInt64.toNat_mul, UInt32.toNat_toUInt64]
  exact Nat.mod_eq_of_lt hproduct

theorem padded_isLeast (side : UInt32) :
    IsLeast {n | 8 ∣ n ∧ side.toNat ≤ n} ((tilesFor side).toNat * 8) := by
  rw [toNat_tilesFor]
  constructor
  · exact ⟨Nat.dvd_mul_left 8 _, by omega⟩
  · rintro n ⟨⟨k, rfl⟩, hle⟩
    omega

/-! ### Tile numbers -/

/-- The number of a tile is below the number of tiles, on every grid. -/
theorem tileIndex_lt_tileCount {g : TileGrid} {column row : UInt32} (hcolumn : column < g.columns)
    (hrow : row < g.rows) : g.tileIndex column row < g.tileCount := by
  rw [UInt32.lt_iff_toNat_lt] at hcolumn hrow
  calc g.tileIndex column row < row.toNat * g.columns.toNat + g.columns.toNat :=
        Nat.add_lt_add_left hcolumn _
    _ = (row.toNat + 1) * g.columns.toNat := (Nat.succ_mul _ _).symm
    _ ≤ g.rows.toNat * g.columns.toNat := Nat.mul_le_mul_right _ hrow
    _ = g.tileCount := Nat.mul_comm _ _

section OfSize

variable {w h : UInt32}

/-! ### Numbers of slots -/

/-- Only the largest sides need `2 ^ 29` tiles each. -/
theorem tileCount_ofSize_eq_iff :
    (ofSize w h).tileCount = 2 ^ 58 ↔ 2 ^ 32 - 8 < w.toNat ∧ 2 ^ 32 - 8 < h.toNat := by
  have hw := w.toNat_lt
  have hh := h.toNat_lt
  rw [tileCount_ofSize]
  constructor
  · intro hcount
    by_contra hsmall
    -- a side that is not among the largest has at least one tile less
    have hless : (w.toNat + 7) / 8 ≤ 2 ^ 29 - 1 ∨ (h.toNat + 7) / 8 ≤ 2 ^ 29 - 1 := by omega
    have hcolumns : (w.toNat + 7) / 8 ≤ 2 ^ 29 := by omega
    have hrows : (h.toNat + 7) / 8 ≤ 2 ^ 29 := by omega
    rcases hless with hless | hless
    · have hle := Nat.mul_le_mul hless hrows
      omega
    · have hle := Nat.mul_le_mul hcolumns hless
      omega
  · rintro ⟨hwidth, hheight⟩
    have hcolumns : (w.toNat + 7) / 8 = 2 ^ 29 := by omega
    have hrows : (h.toNat + 7) / 8 = 2 ^ 29 := by omega
    rw [hcolumns, hrows, ← Nat.pow_add]

theorem slotCount64_ofSize :
    (ofSize w h).slotCount64
      = if (ofSize w h).tileCount = 2 ^ 58 then .error .overflow
        else .ok (ofSize w h).slotCount := by
  have hle := tileCount_ofSize_le (w := w) (h := h)
  have hproduct : (ofSize w h).slotCount64 = size64 ((ofSize w h).tileCount * tilePixels) := by
    rw [slotCount64, tileCount64_ofSize]
    rfl
  rw [hproduct, slotCount]
  by_cases hcount : (ofSize w h).tileCount = 2 ^ 58
  · rw [hcount, if_pos rfl]
    rfl
  · rw [if_neg hcount]
    apply size64_eq_ok
    simp only [tilePixels, range64]
    omega

end OfSize

/-- The numbers of the grid of every image are held in machine words, the number of slots excepted:
where both sides are above `2 ^ 32 - 8` it is `2 ^ 64`. -/
theorem ofSize_heldInWords (w h : UInt32) : (ofSize w h).HeldInWords where
  paddedWidth_isLeast := (toNat_padded w).symm ▸ padded_isLeast w
  paddedHeight_isLeast := (toNat_padded h).symm ▸ padded_isLeast h
  tiles_padded := ⟨toNat_padded w, toNat_padded h⟩
  tileCount_eq := tileCount64_ofSize
  tileIndex_eq column row hcolumn hrow := by
    have hlt := tileIndex_lt_tileCount hcolumn hrow
    exact ⟨tileIndex64_of_lt tileCount_ofSize_lt_range64 hlt, hlt⟩
  slot_eq x y hx hy := by
    obtain ⟨i, hi⟩ := exists_locate_of_lt (w := w) (h := h) ⟨hx, hy⟩
    refine ⟨slotOf i, ?_, slotOf_lt (locate_place hi).1⟩
    rw [slot64_ofSize, slot, hi, Option.map_some]
  slotCount_eq hsmall := by
    have hcount : (ofSize w h).tileCount ≠ 2 ^ 58 := mt tileCount_ofSize_eq_iff.1 hsmall
    exact slotCount64_ofSize.trans (if_neg hcount)
  slotCount_overflow hwidth hheight := by
    have hcount : (ofSize w h).tileCount = 2 ^ 58 := tileCount_ofSize_eq_iff.2 ⟨hwidth, hheight⟩
    exact slotCount64_ofSize.trans (if_pos hcount)

/-- An image with the largest sides: its tiles are counted, its last pixel has a slot, and its slots
are one more than 64 bits can count. -/
theorem slotCount_of_largest_sides :
    (ofSize 0xffffffff 0xfffffffc).tileCount64 = .ok (2 ^ 58) ∧
      (∃ s, (ofSize 0xffffffff 0xfffffffc).slot64 0xfffffffe 0xfffffffb = .ok (some s)) ∧
      ¬∃ n, (ofSize 0xffffffff 0xfffffffc).slotCount64 = .ok n := by
  refine ⟨rfl, ⟨_, rfl⟩, ?_⟩
  rintro ⟨n, hn⟩
  have hoverflow : (ofSize 0xffffffff 0xfffffffc).slotCount64 = .error .overflow := rfl
  rw [hoverflow] at hn
  cases hn

end TileGrid

end RenderFold
