/-
The tiles of an image and its pixels.

Cut to the image, the tiles of a grid hold each pixel of the image once. `TileGrid.CutInto` says so
of a grid and its cut tiles, with all numbers held in machine words, and `tiling_bijective` proves
it of the grid of every size. The pixels of the cut tiles are counted through the mask that has the
whole image.
-/
import Mathlib.Algebra.BigOperators.Group.Finset.Basic
import Mathlib.Data.Set.Card
import RenderFold.Proofs.PixelMask.Region

namespace RenderFold

namespace TileGrid

/-- The image is cut into tiles, which hold its pixels. -/
structure CutInto (g : TileGrid) (cut : Nat → Tile) : Prop where
  tileCount_eq : g.tileCount64 = .ok g.tileCount
  inside_eq : ∀ t < g.tileCount, g.inside t = .ok (cut t)
  locate_eq : ∀ x y, g.locate64 x y = .ok (g.locate x y)
  isSome_locate : ∀ x y, (g.locate x y).isSome = true ↔ x < g.width ∧ y < g.height
  bijOn : Set.BijOn (fun c : UInt32 × UInt32 => g.locate c.1 c.2)
    {c | c.1 < g.width ∧ c.2 < g.height}
    (some '' {i | i.1 < g.tileCount ∧ Tile.has (cut i.1) i.2 = true})
  card_eq : ∑ t ∈ Finset.range g.tileCount, Tile.card (cut t) = g.width.toNat * g.height.toNat
  slot_eq : ∀ x y, g.slot64 x y = .ok ((g.locate x y).map fun i => i.1 * 64 + i.2.val)
  slot_inj : ∀ x y x' y' s, g.slot64 x y = .ok (some s) → g.slot64 x' y' = .ok (some s) →
    x = x' ∧ y = y'

/-! ### Numbers of tiles and slots -/

/-- A tile number is held in 64 bits if the number of tiles is. -/
theorem tileIndex64_of_lt {g : TileGrid} (hcount : g.tileCount < range64) {column row : UInt32}
    (hlt : g.tileIndex column row < g.tileCount) :
    g.tileIndex64 column row = .ok (g.tileIndex column row) := by
  have hsum : row.toNat * g.columns.toNat + column.toNat < range64 := Nat.lt_trans hlt hcount
  have hrow : row.toNat * g.columns.toNat < range64 :=
    Nat.lt_of_le_of_lt (Nat.le_add_right _ _) hsum
  rw [tileIndex64, size64_eq_ok hrow]
  exact size64_eq_ok hsum

section OfSize

variable {w h : UInt32}

/-- The number of the tile of a pixel of the image can be held in 64 bits. -/
theorem tileIndex64_ofSize {x y : UInt32} (hx : x < w) (hy : y < h) :
    (ofSize w h).tileIndex64 (x / tileSize) (y / tileSize)
      = .ok ((ofSize w h).tileIndex (x / tileSize) (y / tileSize)) := by
  have hin := (contains_ofSize x y).2 ⟨hx, hy⟩
  have hlt : (ofSize w h).tileIndex (x / tileSize) (y / tileSize) < (ofSize w h).tileCount :=
    (locate_place (x := x) (y := y) (if_pos hin)).1
  exact tileIndex64_of_lt tileCount_ofSize_lt_range64 hlt

theorem locate64_ofSize (x y : UInt32) :
    (ofSize w h).locate64 x y = .ok ((ofSize w h).locate x y) := by
  rw [locate64, locate]
  split
  · rename_i hin
    obtain ⟨hx, hy⟩ := (contains_ofSize x y).1 hin
    rw [tileIndex64_ofSize hx hy]
    rfl
  · rfl

/-- The slot of a place of the image can be held in 64 bits: the last one is `2 ^ 64 - 1`. -/
theorem slotOf_lt_range64 {i : Nat × PixelId} (hi : i.1 < (ofSize w h).tileCount) :
    slotOf i < range64 := by
  have hp := i.2.isLt
  have htiles : i.1 < 2 ^ 58 := Nat.lt_of_lt_of_le hi tileCount_ofSize_le
  simp only [slotOf, tilePixels, range64]
  omega

theorem slot64_ofSize (x y : UInt32) : (ofSize w h).slot64 x y = .ok ((ofSize w h).slot x y) := by
  rw [slot64, locate64_ofSize, slot]
  cases hi : (ofSize w h).locate x y with
  | none => rfl
  | some i =>
      obtain ⟨t, p⟩ := i
      have hslot := slotOf_lt_range64 (locate_place hi).1
      rw [slotOf] at hslot
      have htile : t * tilePixels < range64 := Nat.lt_of_le_of_lt (Nat.le_add_right _ _) hslot
      simp only [bind, Except.bind, size64_eq_ok htile, size64_eq_ok hslot]
      rfl

/-! ### The whole image -/

theorem ncard_setOf_lt (side : UInt32) : {x : UInt32 | x < side}.ncard = side.toNat := by
  have himage : UInt32.toNat '' {x | x < side} = (Finset.range side.toNat : Set Nat) := by
    ext n
    rw [Finset.mem_coe, Finset.mem_range]
    constructor
    · rintro ⟨x, hx, rfl⟩
      exact UInt32.lt_iff_toNat_lt.1 hx
    · intro hn
      have hsize : n < UInt32.size := Nat.lt_trans hn side.toNat_lt
      have hval : (UInt32.ofNat n).toNat = n := UInt32.toNat_ofNat_of_lt' hsize
      exact ⟨UInt32.ofNat n, UInt32.lt_iff_toNat_lt.2 (hval.symm ▸ hn), hval⟩
  calc {x : UInt32 | x < side}.ncard = (UInt32.toNat '' {x | x < side}).ncard :=
        (Set.ncard_image_of_injective _ fun _ _ => UInt32.toNat_inj.1).symm
    _ = side.toNat := by rw [himage, Set.ncard_coe_finset, Finset.card_range]

def whole (w h : UInt32) : PixelMask := .ofPlaces w h (ofSize w h).interior

theorem whole_unpadded : (whole w h).Unpadded := by
  intro i hi
  have hlt : i.1 < (ofSize w h).tileCount :=
    (whole w h).size_tiles ▸ PixelMask.lt_tileCount_of_has hi
  exact (PixelMask.has_tileD_ofPlaces _ hlt).symm.trans hi

theorem whole_pixels : (whole w h).region.pixels = {x | x < w} ×ˢ {y | y < h} := by
  ext ⟨x, y⟩
  constructor
  · intro hset
    obtain ⟨i, hi, -⟩ := PixelMask.has_iff.1 hset
    exact lt_of_locate hi
  · rintro ⟨hx, hy⟩
    obtain ⟨i, hi⟩ := exists_locate_of_lt ⟨hx, hy⟩
    obtain ⟨ht, hin⟩ := locate_place hi
    exact PixelMask.has_iff.2 ⟨i, hi, (PixelMask.has_tileD_ofPlaces _ ht).trans hin⟩

/-! ### Pixels of the cut tiles -/

section Cut

variable {cut : Nat → Tile} (hcut : ∀ i : Nat × PixelId, i.1 < (ofSize w h).tileCount →
  Tile.has (cut i.1) i.2 = (ofSize w h).interior i)

include hcut

/-- The coordinates of the image and the places of the cut tiles correspond one to one. -/
theorem bijOn_locate :
    Set.BijOn (fun c : UInt32 × UInt32 => (ofSize w h).locate c.1 c.2) {c | c.1 < w ∧ c.2 < h}
      (some '' {i | i.1 < (ofSize w h).tileCount ∧ Tile.has (cut i.1) i.2 = true}) := by
  refine ⟨?_, ?_, ?_⟩
  · rintro ⟨x, y⟩ hc
    obtain ⟨i, hi⟩ := exists_locate_of_lt hc
    obtain ⟨ht, hin⟩ := locate_place hi
    exact ⟨i, ⟨ht, (hcut i ht).trans hin⟩, hi.symm⟩
  · rintro ⟨x, y⟩ hc ⟨x', y'⟩ - heq
    obtain ⟨i, hi⟩ := exists_locate_of_lt hc
    obtain ⟨hx, hy⟩ := locate_inj hi (heq.symm.trans hi)
    exact Prod.ext hx hy
  · rintro _ ⟨i, ⟨ht, hbit⟩, rfl⟩
    obtain ⟨x, y, hi⟩ := exists_locate ht ((hcut i ht).symm.trans hbit)
    exact ⟨(x, y), lt_of_locate hi, hi⟩

/-- The cut tiles have the pixels of the image between them. -/
theorem sum_card_cut :
    ∑ t ∈ Finset.range (ofSize w h).tileCount, Tile.card (cut t) = w.toNat * h.toNat := by
  have htile : ∀ t ∈ Finset.range (ofSize w h).tileCount, cut t = (whole w h).tileD t := by
    intro t ht
    have hlt := Finset.mem_range.1 ht
    apply Tile.ext_has
    intro p
    rw [hcut (t, p) hlt]
    exact (PixelMask.has_tileD_ofPlaces (ofSize w h).interior (i := (t, p)) hlt).symm
  have hcount : (whole w h).tileCount = (ofSize w h).tileCount := (whole w h).size_tiles
  calc ∑ t ∈ Finset.range (ofSize w h).tileCount, Tile.card (cut t)
      = ∑ t ∈ Finset.range (whole w h).tileCount, Tile.card ((whole w h).tileD t) := by
        rw [hcount]
        exact Finset.sum_congr rfl fun t ht => congrArg Tile.card (htile t ht)
    _ = (whole w h).card := by
        rw [PixelMask.card_eq_foldr, ← List.foldr_map]
        rfl
    _ = (whole w h).region.pixels.ncard := whole_unpadded.listed.card_eq
    _ = w.toNat * h.toNat := by
        rw [whole_pixels, Set.ncard_prod, ncard_setOf_lt, ncard_setOf_lt]

end Cut

/-- Tiling is a bijection, whatever the size of the image. Cutting a tile to the image never fails,
places and slots fit 64 bits, each pixel of the image has the place of one bit of one cut tile and
no two of them share it, and the cut tiles have width times height bits between them. -/
theorem tiling_bijective (w h : UInt32) : ∃ cut, (ofSize w h).CutInto cut := by
  have hinside : ∀ t, ∃ m, t < (ofSize w h).tileCount →
      (ofSize w h).inside t = .ok m ∧ ∀ p, Tile.has m p = (ofSize w h).interior (t, p) := by
    intro t
    by_cases ht : t < (ofSize w h).tileCount
    · obtain ⟨m, hm⟩ := inside_ofSize ht
      exact ⟨m, fun _ => hm⟩
    · exact ⟨0, fun hlt => absurd hlt ht⟩
  choose cut hcut using hinside
  have hbits : ∀ i : Nat × PixelId, i.1 < (ofSize w h).tileCount →
      Tile.has (cut i.1) i.2 = (ofSize w h).interior i := fun i hi => (hcut i.1 hi).2 i.2
  refine ⟨cut, tileCount64_ofSize, fun t ht => (hcut t ht).1, locate64_ofSize,
    fun _ _ => isSome_locate_iff, bijOn_locate hbits, sum_card_cut hbits, slot64_ofSize, ?_⟩
  intro x y x' y' s hs hs'
  rw [slot64_ofSize, Except.ok.injEq] at hs hs'
  obtain ⟨i, hi, rfl⟩ := Option.map_eq_some_iff.1 hs
  obtain ⟨j, hj, hij⟩ := Option.map_eq_some_iff.1 hs'
  exact locate_inj hi (slotOf_inj.1 hij ▸ hj)

end OfSize

end TileGrid

end RenderFold
