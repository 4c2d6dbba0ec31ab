/-
Pixel masks tile by tile.

`PixelMask.tileD` is the view: a mask is its size and its tiles, the padding bits of edge tiles
included. The tiles that are not empty, as `PixelMask.activeTiles` lists them, are enough to get the
mask back. Their pixels have ascending slots, which are what a visit goes through.
-/
import RenderFold.Proofs.TileGrid
import RenderFold.PixelMask

namespace RenderFold

/-- A fold that counts its steps. -/
theorem foldl_counted {σ ι : Type} (f : σ → ι → σ) (steps : List ι) (acc : σ × Nat) :
    steps.foldl (fun acc s => (f acc.1 s, acc.2 + 1)) acc
      = (steps.foldl f acc.1, acc.2 + steps.length) := by
  induction steps generalizing acc with
  | nil => rfl
  | cons s rest ih =>
      rw [List.foldl_cons, ih, List.length_cons, Nat.add_right_comm]
      rfl

namespace PixelMask

theorem tileD_putTile {m : PixelMask} {i : Nat} (hi : i < m.tiles.size) (t : Tile) (j : Nat) :
    (m.putTile i t).tileD j = if i = j then t else m.tileD j := by
  by_cases hij : i = j
  · subst hij
    simp [putTile, tileD, hi]
  · simp [putTile, tileD, hij]

theorem has_tileD_insert {m : PixelMask} {x y : UInt32} {j : Nat × PixelId}
    (hj : m.grid.locate x y = some j) (ht : j.1 < m.tiles.size) (i : Nat × PixelId) :
    Tile.has ((m.insert x y).2.tileD i.1) i.2
      = if i = j then true else Tile.has (m.tileD i.1) i.2 := by
  obtain ⟨ti, pi⟩ := i
  obtain ⟨tj, pj⟩ := j
  simp only [insert, hj, tileD_putTile ht]
  by_cases htile : tj = ti
  · subst htile
    by_cases hp : pj = pi
    · simp [hp]
    · simp [hp, Ne.symm hp]
  · simp [htile, Ne.symm htile]

theorem tileD_of_le {m : PixelMask} {t : Nat} (ht : m.tileCount ≤ t) : m.tileD t = 0 := by
  rw [tileD, Array.getElem?_eq_none ht]
  rfl

/-- Only tiles that exist have pixels. -/
theorem lt_tileCount_of_has {m : PixelMask} {t : Nat} {p : PixelId}
    (hp : Tile.has (m.tileD t) p = true) : t < m.tileCount := by
  apply Nat.lt_of_not_le
  intro hle
  simp [tileD_of_le hle] at hp

@[simp] theorem tileD_blank (width height : UInt32) (i : Nat) :
    (blank width height).tileD i = 0 := by
  simp only [tileD, blank, Array.getElem?_replicate]
  split <;> rfl

@[simp] theorem tileD_clear (m : PixelMask) (i : Nat) : m.clear.tileD i = 0 := by
  simp only [tileD, clear, Array.getElem?_replicate]
  split <;> rfl

/-- Masks of one size with the same bits are equal. -/
theorem ext_has_tileD {a b : PixelMask} (hwidth : a.width = b.width) (hheight : a.height = b.height)
    (h : ∀ i : Nat × PixelId, i.1 < (TileGrid.ofSize b.width b.height).tileCount →
      Tile.has (a.tileD i.1) i.2 = Tile.has (b.tileD i.1) i.2) : a = b := by
  have hsize : a.tiles.size = b.tiles.size := by
    rw [a.size_tiles, b.size_tiles, hwidth, hheight]
  refine PixelMask.ext hwidth hheight (Array.ext hsize ?_)
  intro t hta htb
  apply Tile.ext_has
  intro p
  have hbit := h (t, p) (b.size_tiles ▸ htb)
  simpa [tileD, hta, htb] using hbit

/-- The mask of the places that satisfy a test. -/
def ofPlaces (width height : UInt32) (f : Nat × PixelId → Bool) : PixelMask where
  width := width
  height := height
  tiles := Array.ofFn fun t : Fin (TileGrid.ofSize width height).tileCount =>
    Tile.ofPred fun p => f (t.val, p)
  size_tiles := by simp

theorem has_tileD_ofPlaces {width height : UInt32} (f : Nat × PixelId → Bool) {i : Nat × PixelId}
    (hi : i.1 < (TileGrid.ofSize width height).tileCount) :
    Tile.has ((ofPlaces width height f).tileD i.1) i.2 = f i := by
  simp [tileD, ofPlaces, hi]

theorem union_size (a b : PixelMask) :
    (a.union b).2.width = a.width ∧ (a.union b).2.height = a.height := by
  rw [union]
  split <;> exact ⟨rfl, rfl⟩

/-- Masks of one size can be united, and the union has the pixels of both. -/
theorem union_eq_true {a b : PixelMask} (hwidth : a.width = b.width)
    (hheight : a.height = b.height) : (a.union b).1 = true := by
  rw [union, dif_pos ⟨hwidth, hheight⟩]

theorem has_tileD_union {a b : PixelMask} (hwidth : a.width = b.width)
    (hheight : a.height = b.height) (i : Nat × PixelId) :
    Tile.has ((a.union b).2.tileD i.1) i.2
      = (Tile.has (a.tileD i.1) i.2 || Tile.has (b.tileD i.1) i.2) := by
  have hsize : a.tiles.size = b.tiles.size := by
    rw [a.size_tiles, b.size_tiles, hwidth, hheight]
  rw [union, dif_pos ⟨hwidth, hheight⟩]
  simp only [tileD, Array.getElem?_zipWith]
  by_cases ht : i.1 < a.tiles.size
  · simp [ht, hsize ▸ ht]
  · simp [ht, hsize ▸ ht]

/-! ### The tiles that are not empty -/

theorem activeBelow_eq (tiles : Array Tile) (n : Nat) (rest : List (Nat × Tile)) :
    activeBelow tiles n rest
      = ((List.range n).filterMap fun t =>
          if tiles[t]?.getD 0 = 0 then none else some (t, tiles[t]?.getD 0)) ++ rest := by
  induction n generalizing rest with
  | zero => rfl
  | succ n ih =>
      rw [activeBelow, ih, List.range_succ, List.filterMap_append, List.append_assoc]
      congr 1
      by_cases hzero : tiles[n]?.getD 0 = 0
      · simp [hzero]
      · simp [hzero]

theorem activeTiles_eq (m : PixelMask) :
    m.activeTiles
      = (List.range m.tileCount).filterMap fun t =>
          if m.tileD t = 0 then none else some (t, m.tileD t) := by
  rw [activeTiles, activeBelow_eq, List.append_nil]
  rfl

theorem mem_activeTiles {m : PixelMask} {e : Nat × Tile} (he : e ∈ m.activeTiles) :
    e.1 < m.tileCount := by
  rw [activeTiles_eq, List.mem_filterMap] at he
  obtain ⟨t, ht, he⟩ := he
  split at he
  · cases he
  · obtain rfl := Option.some.inj he
    exact List.mem_range.1 ht

theorem mem_activeTiles_iff {m : PixelMask} {e : Nat × Tile} :
    e ∈ m.activeTiles ↔ e.1 < m.tileCount ∧ e.2 ≠ 0 ∧ m.tileD e.1 = e.2 := by
  obtain ⟨t, bits⟩ := e
  simp only [activeTiles_eq, List.mem_filterMap, List.mem_range]
  constructor
  · rintro ⟨u, hu, hsome⟩
    split at hsome
    · cases hsome
    · rename_i hbits
      cases hsome
      exact ⟨hu, hbits, rfl⟩
  · rintro ⟨ht, hbits, rfl⟩
    exact ⟨t, ht, if_neg hbits⟩

theorem activeTiles_ascending (m : PixelMask) :
    m.activeTiles.Pairwise fun d e => d.1 < e.1 := by
  rw [activeTiles_eq, List.pairwise_filterMap]
  refine List.pairwise_lt_range.imp ?_
  intro t u htu d hd e he
  split at hd
  · cases hd
  split at he
  · cases he
  cases hd
  cases he
  exact htu

theorem activeTiles_fst_nodup (m : PixelMask) : (m.activeTiles.map Prod.fst).Nodup :=
  List.pairwise_map.2 (m.activeTiles_ascending.imp Nat.ne_of_lt)

theorem activeTileCount_le (m : PixelMask) : m.activeTileCount ≤ m.tileCount := by
  calc m.activeTileCount ≤ (List.range m.tileCount).length := by
        rw [activeTileCount, activeTiles_eq]
        exact List.length_filterMap_le _ _
    _ = m.tileCount := List.length_range

/-- The pixels of a mask are counted tile by tile; empty tiles add nothing. -/
theorem card_eq_foldr (m : PixelMask) :
    m.card = (List.range m.tileCount).foldr (fun t n => Tile.card (m.tileD t) + n) 0 := by
  rw [card, activeTiles_eq, List.foldr_filterMap]
  congr 1
  funext t n
  by_cases hzero : m.tileD t = 0
  · simp [hzero, Tile.card]
  · simp [hzero]

/-! ### Slots -/

/-- The slots of the pixels, tile by tile. -/
def slots (m : PixelMask) : List Nat :=
  m.activeTiles.flatMap fun e => (Tile.ids e.2).map fun p => TileGrid.slotOf (e.1, p)

theorem mem_slots {m : PixelMask} {i : Nat × PixelId} :
    TileGrid.slotOf i ∈ m.slots ↔ Tile.has (m.tileD i.1) i.2 = true := by
  simp only [slots, List.mem_flatMap, List.mem_map, mem_activeTiles_iff, Tile.mem_ids,
    TileGrid.slotOf_inj]
  constructor
  · rintro ⟨e, ⟨-, -, hbits⟩, p, hp, rfl⟩
    exact hbits ▸ hp
  · intro hi
    have hbits : m.tileD i.1 ≠ 0 := Tile.ne_zero_iff.2 ⟨i.2, hi⟩
    exact ⟨(i.1, m.tileD i.1), ⟨lt_tileCount_of_has hi, hbits, rfl⟩, i.2, hi, rfl⟩

theorem slots_ascending (m : PixelMask) : m.slots.Pairwise (· < ·) := by
  rw [slots, List.pairwise_flatMap]
  constructor
  · intro e _
    rw [List.pairwise_map]
    refine (Tile.ids_pairwise e.2).imp fun {p q} hpq => ?_
    exact Nat.add_lt_add_left hpq (e.1 * tilePixels)
  · refine m.activeTiles_ascending.imp fun {d e} hde s hs u hu => ?_
    obtain ⟨p, -, rfl⟩ := List.mem_map.1 hs
    obtain ⟨q, -, rfl⟩ := List.mem_map.1 hu
    have hp := p.isLt
    simp only [TileGrid.slotOf, tilePixels]
    omega

theorem length_slots (m : PixelMask) : m.slots.length = m.card := by
  rw [slots, card]
  induction m.activeTiles with
  | nil => rfl
  | cons e rest ih =>
      rw [List.flatMap_cons, List.length_append, List.length_map, Tile.length_ids, ih]
      rfl

/-- A visit passes the slots one after another. -/
theorem visit_eq {σ : Type} (f : σ → Nat → σ) (init : σ) (m : PixelMask) :
    m.visit f init = (m.slots.foldl f init, m.slots.length) := by
  have hslots : m.visit f init = m.slots.foldl (fun acc s => (f acc.1 s, acc.2 + 1)) (init, 0) := by
    simp only [visit, slots, List.foldl_flatMap, List.foldl_map]
  rw [hslots, foldl_counted, Nat.zero_add]

/-- Tiles written over a mask, one after another. -/
def putTiles (m : PixelMask) (tiles : List (Nat × Tile)) : PixelMask :=
  tiles.foldl (fun m e => m.putTile e.1 e.2) m

theorem putTiles_size (m : PixelMask) (tiles : List (Nat × Tile)) :
    (m.putTiles tiles).width = m.width ∧ (m.putTiles tiles).height = m.height := by
  induction tiles generalizing m with
  | nil => exact ⟨rfl, rfl⟩
  | cons e rest ih => exact ih (m.putTile e.1 e.2)

/-- A mask is what its tiles that are not empty make of a blank one. -/
theorem putTiles_activeTiles (m : PixelMask) :
    (blank m.width m.height).putTiles m.activeTiles = m := by
  have hview := foldl_view
    (fun (held : PixelMask) t => if m.tileD t = 0 then held else held.putTile t (m.tileD t))
    (fun held t => held.tiles[t]?)
    (fun t seen => if m.tileD t = 0 then seen else seen.map fun _ => m.tileD t)
    (fun held t => by
      by_cases hzero : m.tileD t = 0
      · simp [hzero]
      · by_cases ht : t < held.tiles.size
        · simp [hzero, putTile, ht]
        · simp [hzero, putTile, Nat.not_lt.1 ht])
    (fun held t u hu => by
      by_cases hzero : m.tileD t = 0
      · simp [hzero]
      · simp [hzero, putTile, Ne.symm hu])
    (List.nodup_range : (List.range m.tileCount).Nodup) (blank m.width m.height)
  have hfold : (blank m.width m.height).putTiles m.activeTiles
      = (List.range m.tileCount).foldl
          (fun held t => if m.tileD t = 0 then held else held.putTile t (m.tileD t))
          (blank m.width m.height) := by
    rw [putTiles, activeTiles_eq, List.foldl_filterMap]
    congr 1
    funext held t
    by_cases hzero : m.tileD t = 0
    · simp [hzero]
    · simp [hzero]
  obtain ⟨hwidth, hheight⟩ := putTiles_size (blank m.width m.height) m.activeTiles
  refine PixelMask.ext hwidth hheight (Array.ext_getElem? fun t => ?_)
  rw [hfold, hview]
  by_cases ht : t < m.tiles.size
  · have hblank : t < (TileGrid.ofSize m.width m.height).tileCount := m.size_tiles ▸ ht
    by_cases hzero : m.tileD t = 0
    · simp_all [tileCount, tileD, blank]
    · simp_all [tileCount, tileD, blank]
  · have hblank : ¬ t < (TileGrid.ofSize m.width m.height).tileCount := m.size_tiles ▸ ht
    simp [tileCount, blank, ht, hblank]

end PixelMask

end RenderFold
