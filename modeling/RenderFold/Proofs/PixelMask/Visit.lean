/-
Going through the pixels of tiles and of masks.

The pixels of a tile are found one call at a time, each call taking the lowest one away. What is
left after `k` calls is `dropLowest^[k] t`: the number of pixels falls by one with each call, so the
calls end after exactly as many as there are pixels. A visit of a mask is such an iteration for each
of its tiles. Nothing here asks whether a pixel lies in the image: padding bits are visited like any
others.
-/
import Mathlib.Logic.Function.Iterate
import RenderFold.Proofs.PixelMask
import RenderFold.Proofs.TileGrid.Tiling

namespace RenderFold

namespace Tile

/-- How the pixels of a tile are listed, call by call. -/
structure IteratesOnce (t : Tile) : Prop where
  /-- The call after `k` others finds the lowest pixel that is left, or the end. -/
  getElem?_eq : ∀ k, (ids t)[k]?
    = if dropLowest^[k] t = 0 then none else some (lowest (dropLowest^[k] t))
  /-- The end is reached after as many calls as there are pixels, and not left again. -/
  ends_iff : ∀ k, dropLowest^[k] t = 0 ↔ card t ≤ k
  mem_iff : ∀ p, p ∈ ids t ↔ t.toNat.testBit p.val = true
  ascending : (ids t).Pairwise (· < ·)
  length_eq : (ids t).length = card t
  card_eq : card t = (List.range 64).countP fun i => t.toNat.testBit i

theorem dropLowest_zero : dropLowest 0 = 0 := rfl

theorem iterate_dropLowest_zero (k : Nat) : dropLowest^[k] 0 = 0 :=
  Function.iterate_fixed dropLowest_zero k

theorem getElem?_ids (t : Tile) (k : Nat) :
    (ids t)[k]? = if dropLowest^[k] t = 0 then none else some (lowest (dropLowest^[k] t)) := by
  induction k generalizing t with
  | zero =>
      rw [ids]
      by_cases ht : t = 0 <;> simp [ht]
  | succ k ih =>
      rw [Function.iterate_succ_apply, ids]
      by_cases ht : t = 0
      · simp [ht, dropLowest_zero, iterate_dropLowest_zero]
      · simp [ht, ih]

/-- Nothing is left as soon as all pixels have been taken away. -/
theorem iterate_dropLowest_eq_zero_iff (t : Tile) (k : Nat) :
    dropLowest^[k] t = 0 ↔ card t ≤ k := by
  rw [← length_ids, ← List.getElem?_eq_none_iff, getElem?_ids]
  by_cases hleft : dropLowest^[k] t = 0 <;> simp [hleft]

theorem card_eq_countP (t : Tile) : card t = (List.range 64).countP fun i => t.toNat.testBit i := by
  have hrange : List.range 64 = PixelId.all.map Fin.val := by decide
  rw [hrange, List.countP_map, card]
  congr 1
  funext p
  exact has_eq_testBit t p

theorem iteratesOnce (t : Tile) : t.IteratesOnce where
  getElem?_eq := getElem?_ids t
  ends_iff := iterate_dropLowest_eq_zero_iff t
  mem_iff p := by rw [mem_ids, has_eq_testBit]
  ascending := ids_pairwise t
  length_eq := length_ids t
  card_eq := card_eq_countP t

end Tile

namespace PixelMask

/-- How the pixels of a mask are visited: `f` is called with the slots, one after another. -/
structure VisitsOnce (m : PixelMask) : Prop where
  visit_eq : ∀ {σ : Type} (f : σ → Nat → σ) (init : σ),
    m.visit f init = (m.slots.foldl f init, m.card)
  mem_iff : ∀ s, s ∈ m.slots ↔ ∃ t, m.tile (s / 64) = .ok t ∧ t.toNat.testBit (s % 64) = true
  ascending : m.slots.Pairwise (· < ·)
  length_eq : m.slots.length = m.card
  /-- All slots are held in 64 bits. -/
  lt_range64 : ∀ s ∈ m.slots, s < range64
  /-- Their number is, if there are fewer than `2 ^ 58` tiles. -/
  card_lt_range64 : m.tileCount < 2 ^ 58 → m.card < range64

theorem tile_eq_ok_iff {m : PixelMask} {i : Nat} {t : Tile} :
    m.tile i = .ok t ↔ i < m.tileCount ∧ m.tileD i = t := by
  by_cases hi : i < m.tiles.size
  · simp [tile, tileD, tileCount, hi]
  · simp [tile, tileCount, hi]

theorem mem_slots_iff {m : PixelMask} {s : Nat} :
    s ∈ m.slots ↔ ∃ t, m.tile (s / 64) = .ok t ∧ t.toNat.testBit (s % 64) = true := by
  have hplace : s ∈ m.slots ↔ Tile.has (m.tileD (s / 64)) ⟨s % 64, by omega⟩ = true := by
    rw [← TileGrid.slotOf_placeOf s, mem_slots, TileGrid.slotOf_placeOf]
    rfl
  rw [hplace]
  constructor
  · intro hbit
    refine ⟨m.tileD (s / 64), tile_eq_ok_iff.2 ⟨lt_tileCount_of_has hbit, rfl⟩, ?_⟩
    rwa [Tile.has_eq_testBit] at hbit
  · rintro ⟨t, htile, hbit⟩
    rwa [(tile_eq_ok_iff.1 htile).2, Tile.has_eq_testBit]

/-- Slots lead to tiles of the image. -/
theorem placeOf_lt_of_mem_slots {m : PixelMask} {s : Nat} (hs : s ∈ m.slots) :
    (TileGrid.placeOf s).1 < (TileGrid.ofSize m.width m.height).tileCount := by
  obtain ⟨t, htile, -⟩ := mem_slots_iff.1 hs
  exact m.size_tiles ▸ (tile_eq_ok_iff.1 htile).1

theorem lt_slotCount_of_mem_slots {m : PixelMask} {s : Nat} (hs : s ∈ m.slots) :
    s < m.grid.slotCount := by
  have hlt := TileGrid.slotOf_lt (placeOf_lt_of_mem_slots hs)
  rwa [TileGrid.slotOf_placeOf] at hlt

theorem card_le_slotCount (m : PixelMask) : m.card ≤ m.grid.slotCount := by
  have hnodup : m.slots.Nodup := m.slots_ascending.imp Nat.ne_of_lt
  have hsubset : m.slots ⊆ List.range m.grid.slotCount := fun _ hs =>
    List.mem_range.2 (lt_slotCount_of_mem_slots hs)
  calc m.card = m.slots.length := m.length_slots.symm
    _ ≤ (List.range m.grid.slotCount).length := (List.subperm_of_subset hnodup hsubset).length_le
    _ = m.grid.slotCount := List.length_range

theorem visitsOnce (m : PixelMask) : m.VisitsOnce where
  visit_eq f init := by rw [visit_eq, length_slots]
  mem_iff _ := mem_slots_iff
  ascending := m.slots_ascending
  length_eq := m.length_slots
  lt_range64 s hs := by
    have hlt := TileGrid.slotOf_lt_range64 (placeOf_lt_of_mem_slots hs)
    rwa [TileGrid.slotOf_placeOf] at hlt
  card_lt_range64 hfew := by
    have hslots : m.grid.slotCount = m.tileCount * tilePixels := by
      rw [TileGrid.slotCount, tileCount, m.size_tiles, grid]
    apply Nat.lt_of_le_of_lt m.card_le_slotCount
    rw [hslots, tilePixels, range64]
    omega

/-- Every tile lists its pixels, and every mask passes its slots, once each and in ascending order,
in as many calls as are counted. -/
theorem iterations_exact : (∀ t : Tile, t.IteratesOnce) ∧ ∀ m : PixelMask, m.VisitsOnce :=
  ⟨Tile.iteratesOnce, visitsOnce⟩

end PixelMask

end RenderFold
