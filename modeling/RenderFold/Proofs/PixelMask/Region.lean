/-
Masks as sets of image coordinates.

`PixelMask.region` is what a mask stands for: the size of its image and the coordinates that are
set. Each operation has one equation for regions, which holds of all masks. Padding bits belong to
no coordinate. Masks that callers can build have none (`Reached.unpadded`, one case per operation),
so that their coordinates, places and slots correspond one to one, and the region determines the
mask.
-/
import Mathlib.Data.Set.Card
import RenderFold.Proofs.PixelMask

namespace RenderFold

/-- A set of coordinates of an image of a given size. -/
structure Region where
  width : UInt32
  height : UInt32
  pixels : Set (UInt32 × UInt32)

namespace PixelMask

def region (m : PixelMask) : Region := ⟨m.width, m.height, {c | m.has c.1 c.2 = true}⟩

inductive Reached : PixelMask → Prop where
  | empty : Reached empty
  | blank (width height : UInt32) : Reached (blank width height)
  | resize {m : PixelMask} (width height : UInt32) (hm : Reached m) :
      Reached (m.resize width height)
  | clear {m : PixelMask} (hm : Reached m) : Reached m.clear
  | clearTiles {m n : PixelMask} {flags : Array Bool} (hm : Reached m)
      (hclear : m.clearTiles flags = .ok n) : Reached n
  | insert {m : PixelMask} (x y : UInt32) (hm : Reached m) : Reached (m.insert x y).2
  | union {m other : PixelMask} (hm : Reached m) (hother : Reached other) :
      Reached (m.union other).2
  | copyFrom {m other n : PixelMask} (hm : Reached m) (hother : Reached other)
      (hcopy : m.copyFrom other = .ok n) : Reached n

/-- Only bits of pixels of the image are set. -/
def Unpadded (m : PixelMask) : Prop :=
  ∀ i : Nat × PixelId, Tile.has (m.tileD i.1) i.2 = true → m.grid.interior i = true

/-! ### Coordinates and places -/

section Places

variable {m : PixelMask} {x y : UInt32} {i : Nat × PixelId}

theorem has_iff :
    m.has x y = true ↔ ∃ i, m.grid.locate x y = some i ∧ Tile.has (m.tileD i.1) i.2 = true := by
  unfold has
  cases m.grid.locate x y with
  | none => simp
  | some i => simp

theorem has_of_locate (hi : m.grid.locate x y = some i) :
    m.has x y = Tile.has (m.tileD i.1) i.2 := by
  simp only [has, hi]

theorem locate_lt_tileCount (hi : m.grid.locate x y = some i) : i.1 < m.tiles.size :=
  Nat.lt_of_lt_of_eq (TileGrid.locate_place hi).1 m.size_tiles.symm

theorem exists_locate (hx : x < m.width) (hy : y < m.height) : ∃ i, m.grid.locate x y = some i :=
  ⟨_, TileGrid.locate_eq_some hx hy⟩

theorem grid_congr {a b : PixelMask} (hwidth : a.width = b.width) (hheight : a.height = b.height) :
    a.grid = b.grid := by
  rw [grid, grid, hwidth, hheight]

/-- A coordinate that is set has a slot. -/
theorem exists_slot (hset : m.has x y = true) : ∃ s, m.grid.slot x y = some s := by
  obtain ⟨i, hi, -⟩ := has_iff.1 hset
  exact ⟨TileGrid.slotOf i, by rw [TileGrid.slot, hi, Option.map_some]⟩

end Places

/-! ### What the operations do to a region -/

section Operations

variable {m other : PixelMask} {x y : UInt32}

theorem not_has_of_tileD (hzero : ∀ t, m.tileD t = 0) : ¬m.has x y = true := by
  rw [has_iff]
  rintro ⟨i, -, hi⟩
  simp [hzero] at hi

theorem region_of_tileD (hzero : ∀ t, m.tileD t = 0) : m.region = ⟨m.width, m.height, ∅⟩ := by
  have hnone : {c : UInt32 × UInt32 | m.has c.1 c.2 = true} = ∅ :=
    Set.eq_empty_iff_forall_notMem.2 fun c => not_has_of_tileD hzero
  rw [region, hnone]

theorem region_blank (w h : UInt32) : (blank w h).region = ⟨w, h, ∅⟩ :=
  region_of_tileD (tileD_blank w h)

theorem region_resize (m : PixelMask) (w h : UInt32) :
    (m.resize w h).region = if m.width = w ∧ m.height = h then m.region else ⟨w, h, ∅⟩ := by
  unfold resize
  split
  · rfl
  · exact region_blank w h

theorem region_clear (m : PixelMask) : m.clear.region = ⟨m.width, m.height, ∅⟩ :=
  region_of_tileD m.tileD_clear

/-- With one flag per tile the flagged tiles are cleared. -/
theorem exists_clearTiles {flags : Array Bool} (hflags : flags.size = m.tiles.size) :
    ∃ n, m.clearTiles flags = .ok n ∧ n.width = m.width ∧ n.height = m.height ∧
      ∀ t, n.tileD t = if flags[t]? = some true then 0 else m.tileD t := by
  refine ⟨_, if_pos hflags, rfl, rfl, fun t => ?_⟩
  simp only [tileD, Array.getElem?_mapIdx]
  rcases Nat.lt_or_ge t m.tiles.size with ht | ht
  · have hflag : t < flags.size := Nat.lt_of_lt_of_eq ht hflags.symm
    cases hon : flags[t] <;> simp [ht, hflag, hon]
  · simp [ht]

theorem region_clearTiles {flags : Array Bool} (hflags : flags.size = m.tiles.size) :
    ∃ n, m.clearTiles flags = .ok n ∧
      n.region = ⟨m.width, m.height, {c | c ∈ m.region.pixels ∧
        ∀ i, m.grid.locate c.1 c.2 = some i → flags[i.1]? ≠ some true}⟩ := by
  obtain ⟨n, hn, hwidth, hheight, htiles⟩ := exists_clearTiles hflags
  have hgrid := grid_congr hwidth hheight
  refine ⟨n, hn, ?_⟩
  rw [region, hwidth, hheight]
  congr 1
  ext ⟨x, y⟩
  simp only [Set.mem_ofPred_eq, region, has_iff, hgrid, htiles]
  constructor
  · rintro ⟨i, hi, hbit⟩
    by_cases hflag : flags[i.1]? = some true
    · simp [hflag] at hbit
    · rw [if_neg hflag] at hbit
      refine ⟨⟨i, hi, hbit⟩, fun j hj => ?_⟩
      obtain rfl := Option.some.inj (hi.symm.trans hj)
      exact hflag
  · rintro ⟨⟨i, hi, hbit⟩, hflag⟩
    exact ⟨i, hi, by rwa [if_neg (hflag i hi)]⟩

theorem insert_size (m : PixelMask) (x y : UInt32) :
    (m.insert x y).2.width = m.width ∧ (m.insert x y).2.height = m.height := by
  unfold insert
  split <;> exact ⟨rfl, rfl⟩

theorem insert_outside (hout : ¬(x < m.width ∧ y < m.height)) : m.insert x y = (false, m) := by
  have hnone : m.grid.locate x y = none := by
    rw [← Option.not_isSome_iff_eq_none]
    exact fun hsome => hout (TileGrid.isSome_locate_iff.1 hsome)
  simp only [insert, hnone]

theorem has_insert (hx : x < m.width) (hy : y < m.height) (c : UInt32 × UInt32) :
    (m.insert x y).2.has c.1 c.2 = true ↔ m.has c.1 c.2 = true ∨ c = (x, y) := by
  obtain ⟨j, hj⟩ := exists_locate hx hy
  obtain ⟨hwidth, hheight⟩ := m.insert_size x y
  have hgrid := grid_congr hwidth hheight
  have hbit := has_tileD_insert hj (locate_lt_tileCount hj)
  simp only [has_iff, hgrid, hbit]
  constructor
  · rintro ⟨i, hi, hset⟩
    by_cases hij : i = j
    · obtain ⟨hcx, hcy⟩ := TileGrid.locate_inj hi (hij ▸ hj)
      exact .inr (Prod.ext hcx hcy)
    · rw [if_neg hij] at hset
      exact .inl ⟨i, hi, hset⟩
  · rintro (⟨i, hi, hset⟩ | rfl)
    · exact ⟨i, hi, by simp [hset]⟩
    · exact ⟨j, hj, by simp⟩

theorem region_insert (hx : x < m.width) (hy : y < m.height) :
    (m.insert x y).1 = true ∧
      (m.insert x y).2.region = ⟨m.width, m.height, m.region.pixels ∪ {(x, y)}⟩ := by
  obtain ⟨j, hj⟩ := exists_locate hx hy
  obtain ⟨hwidth, hheight⟩ := m.insert_size x y
  constructor
  · simp only [insert, hj]
  · rw [region, hwidth, hheight]
    congr 1
    ext c
    exact has_insert hx hy c

theorem union_of_sizes (hsizes : ¬(m.width = other.width ∧ m.height = other.height)) :
    m.union other = (false, m) := by
  rw [union, dif_neg hsizes]

theorem region_union (hwidth : m.width = other.width) (hheight : m.height = other.height) :
    (m.union other).1 = true ∧
      (m.union other).2.region
        = ⟨m.width, m.height, m.region.pixels ∪ other.region.pixels⟩ := by
  refine ⟨union_eq_true hwidth hheight, ?_⟩
  obtain ⟨hwidth', hheight'⟩ := union_size m other
  have hgrid := grid_congr hwidth' hheight'
  have hgrid' := grid_congr hwidth.symm hheight.symm
  rw [region, hwidth', hheight']
  congr 1
  ext ⟨x, y⟩
  simp only [Set.mem_ofPred_eq, Set.mem_union, region, has_iff, hgrid, hgrid',
    has_tileD_union hwidth hheight, Bool.or_eq_true]
  constructor
  · rintro ⟨i, hi, hset | hset⟩
    · exact .inl ⟨i, hi, hset⟩
    · exact .inr ⟨i, hi, hset⟩
  · rintro (⟨i, hi, hset⟩ | ⟨i, hi, hset⟩)
    · exact ⟨i, hi, .inl hset⟩
    · exact ⟨i, hi, .inr hset⟩

theorem resize_size (m : PixelMask) (w h : UInt32) :
    (m.resize w h).width = w ∧ (m.resize w h).height = h := by
  unfold resize
  split
  · assumption
  · exact ⟨rfl, rfl⟩

theorem copyFrom_eq (m other : PixelMask) : m.copyFrom other = .ok other := by
  obtain ⟨hwidth, hheight⟩ := m.resize_size other.width other.height
  have hsize : other.tiles.size = (m.resize other.width other.height).tiles.size := by
    rw [size_tiles, size_tiles, hwidth, hheight]
  rw [copyFrom, dif_pos hsize]
  exact congrArg Except.ok (PixelMask.ext hwidth hheight rfl)

end Operations

/-! ### Masks that callers can build -/

section Unpadded

variable {m other : PixelMask}

theorem unpadded_of_tileD (hzero : ∀ t, m.tileD t = 0) : m.Unpadded := by
  intro i hi
  simp [hzero] at hi

theorem Unpadded.insert (hm : m.Unpadded) (x y : UInt32) : (m.insert x y).2.Unpadded := by
  by_cases hin : x < m.width ∧ y < m.height
  · obtain ⟨j, hj⟩ := exists_locate hin.1 hin.2
    obtain ⟨hwidth, hheight⟩ := m.insert_size x y
    have hgrid := grid_congr hwidth hheight
    intro i hi
    rw [has_tileD_insert hj (locate_lt_tileCount hj)] at hi
    rw [hgrid]
    by_cases hij : i = j
    · exact hij ▸ (TileGrid.locate_place hj).2
    · rw [if_neg hij] at hi
      exact hm i hi
  · rw [insert_outside hin]
    exact hm

theorem Unpadded.union (hm : m.Unpadded) (hother : other.Unpadded) :
    (m.union other).2.Unpadded := by
  by_cases hsizes : m.width = other.width ∧ m.height = other.height
  · obtain ⟨hwidth, hheight⟩ := hsizes
    obtain ⟨hwidth', hheight'⟩ := union_size m other
    have hgrid := grid_congr hwidth' hheight'
    have hgrid' := grid_congr hwidth.symm hheight.symm
    intro i hi
    rw [has_tileD_union hwidth hheight, Bool.or_eq_true] at hi
    rw [hgrid]
    rcases hi with hi | hi
    · exact hm i hi
    · exact hgrid' ▸ hother i hi
  · rw [union_of_sizes hsizes]
    exact hm

theorem Unpadded.clearTiles (hm : m.Unpadded) {flags : Array Bool} {n : PixelMask}
    (hclear : m.clearTiles flags = .ok n) : n.Unpadded := by
  have hflags : flags.size = m.tiles.size := by
    by_contra hne
    rw [PixelMask.clearTiles, if_neg hne] at hclear
    cases hclear
  obtain ⟨n', hn', hwidth, hheight, htiles⟩ := exists_clearTiles hflags
  obtain rfl := Except.ok.inj (hn'.symm.trans hclear)
  intro i hi
  rw [htiles] at hi
  rw [grid, hwidth, hheight]
  by_cases hflag : flags[i.1]? = some true
  · simp [hflag] at hi
  · rw [if_neg hflag] at hi
    exact hm i hi

/-- No operation sets a bit in the padding. -/
theorem Reached.unpadded (hm : m.Reached) : m.Unpadded := by
  induction hm with
  | empty => exact unpadded_of_tileD (tileD_blank 0 0)
  | blank w h => exact unpadded_of_tileD (tileD_blank w h)
  | resize w h _ ih =>
      unfold PixelMask.resize
      split
      · exact ih
      · exact unpadded_of_tileD (tileD_blank w h)
  | @clear m _ _ => exact unpadded_of_tileD m.tileD_clear
  | clearTiles _ hclear ih => exact ih.clearTiles hclear
  | insert x y _ ih => exact ih.insert x y
  | union _ _ ih ihother => exact ih.union ihother
  | copyFrom _ _ hcopy _ ihother =>
      obtain rfl := Except.ok.inj ((copyFrom_eq _ _).symm.trans hcopy)
      exact ihother

theorem Unpadded.exists_locate (hm : m.Unpadded) {i : Nat × PixelId}
    (hi : Tile.has (m.tileD i.1) i.2 = true) :
    ∃ c ∈ m.region.pixels, m.grid.locate c.1 c.2 = some i := by
  have hlt := lt_tileCount_of_has hi
  obtain ⟨x, y, hplace⟩ := TileGrid.exists_locate (m.size_tiles ▸ hlt) (hm i hi)
  exact ⟨(x, y), (has_of_locate hplace).trans hi, hplace⟩

/-- The slots of a mask are those of its coordinates. -/
theorem Unpadded.mem_slots_iff (hm : m.Unpadded) {s : Nat} :
    s ∈ m.slots ↔ ∃ c ∈ m.region.pixels, m.grid.slot c.1 c.2 = some s := by
  rw [← TileGrid.slotOf_placeOf s, mem_slots]
  constructor
  · intro hs
    obtain ⟨c, hc, hplace⟩ := hm.exists_locate hs
    exact ⟨c, hc, by rw [TileGrid.slot, hplace, Option.map_some]⟩
  · rintro ⟨c, hc, hslot⟩
    obtain ⟨i, hi, hbit⟩ := has_iff.1 hc
    rw [TileGrid.slot, hi, Option.map_some, Option.some.injEq, TileGrid.slotOf_inj] at hslot
    exact hslot ▸ hbit

theorem slot_inj {x y x' y' : UInt32} {s : Nat} (hs : m.grid.slot x y = some s)
    (hs' : m.grid.slot x' y' = some s) : x = x' ∧ y = y' := by
  obtain ⟨i, hi, rfl⟩ := Option.map_eq_some_iff.1 hs
  obtain ⟨j, hj, hij⟩ := Option.map_eq_some_iff.1 hs'
  exact TileGrid.locate_inj hi (TileGrid.slotOf_inj.1 hij ▸ hj)

/-- A list without repetitions is as long as the set of its members is large. -/
theorem ncard_eq_length {α : Type} {members : Set α} {listed : List α} (hnodup : listed.Nodup)
    (hmem : ∀ a, a ∈ members ↔ a ∈ listed) : members.ncard = listed.length := by
  classical
  have hset : members = (listed.toFinset : Set α) := by
    ext a
    simp [hmem]
  rw [hset, Set.ncard_coe_finset, List.toFinset_card_of_nodup hnodup]

/-- Coordinates and slots are equally many. -/
theorem Unpadded.ncard_pixels (hm : m.Unpadded) : m.region.pixels.ncard = m.slots.length := by
  have hinj : Set.InjOn (fun c : UInt32 × UInt32 => m.grid.slot c.1 c.2) m.region.pixels := by
    intro c hc d _ heq
    obtain ⟨s, hs⟩ := exists_slot hc
    obtain ⟨hx, hy⟩ := slot_inj hs (heq.symm.trans hs)
    exact Prod.ext hx hy
  have hnodup : (m.slots.map some).Nodup :=
    List.Nodup.map (Option.some_injective Nat) (m.slots_ascending.imp Nat.ne_of_lt)
  have hmem : ∀ slot,
      slot ∈ (fun c : UInt32 × UInt32 => m.grid.slot c.1 c.2) '' m.region.pixels
        ↔ slot ∈ m.slots.map some := by
    intro slot
    simp only [Set.mem_image, List.mem_map, hm.mem_slots_iff]
    constructor
    · rintro ⟨c, hc, rfl⟩
      obtain ⟨s, hs⟩ := exists_slot hc
      exact ⟨s, ⟨c, hc, hs⟩, hs.symm⟩
    · rintro ⟨s, ⟨c, hc, hs⟩, rfl⟩
      exact ⟨c, hc, hs⟩
  rw [← Set.InjOn.ncard_image hinj, ncard_eq_length hnodup hmem, List.length_map]

/-- The tiles that are not empty are those of the coordinates. -/
theorem Unpadded.ncard_tiles (hm : m.Unpadded) :
    {t | ∃ c ∈ m.region.pixels, ∃ p, m.grid.locate c.1 c.2 = some (t, p)}.ncard
      = m.activeTileCount := by
  refine (ncard_eq_length m.activeTiles_fst_nodup fun t => ?_).trans (List.length_map _)
  simp only [Set.mem_ofPred_eq, List.mem_map, mem_activeTiles_iff]
  constructor
  · rintro ⟨c, hc, p, hplace⟩
    have hbit : Tile.has (m.tileD t) p = true := (has_of_locate hplace).symm.trans hc
    exact ⟨(t, m.tileD t), ⟨lt_tileCount_of_has hbit, Tile.ne_zero_iff.2 ⟨p, hbit⟩, rfl⟩, rfl⟩
  · rintro ⟨e, ⟨-, hbits, hheld⟩, rfl⟩
    obtain ⟨p, hp⟩ := Tile.ne_zero_iff.1 (hheld.symm ▸ hbits)
    obtain ⟨c, hc, hplace⟩ := hm.exists_locate (i := (e.1, p)) hp
    exact ⟨c, hc, p, hplace⟩

/-- The bits of a mask can be found in any mask with the same region. -/
theorem Unpadded.has_of_region (hm : m.Unpadded) (hregion : m.region = other.region)
    {i : Nat × PixelId} (hi : Tile.has (m.tileD i.1) i.2 = true) :
    Tile.has (other.tileD i.1) i.2 = true := by
  obtain ⟨hwidth, hheight, -⟩ := Region.mk.inj hregion
  obtain ⟨c, hc, hplace⟩ := hm.exists_locate hi
  have hset : c ∈ other.region.pixels := hregion ▸ hc
  exact (has_of_locate (grid_congr hwidth hheight ▸ hplace)).symm.trans hset

/-- Masks without padding bits are told apart by their regions. -/
theorem Unpadded.eq_of_region (hm : m.Unpadded) (hother : other.Unpadded)
    (hregion : m.region = other.region) : m = other := by
  obtain ⟨hwidth, hheight, -⟩ := Region.mk.inj hregion
  refine ext_has_tileD hwidth hheight fun i _ => Bool.eq_iff_iff.2 ?_
  exact ⟨hm.has_of_region hregion, hother.has_of_region hregion.symm⟩

end Unpadded

/-! ### The refinement -/

/-- How a mask is stored: it has the tiles of its image, which 64 bits can count, no bit is set in
the padding, and no coordinate of the image leads to a tile that does not exist. -/
structure Shaped (m : PixelMask) : Prop where
  tileCount_eq : (TileGrid.ofSize m.width m.height).tileCount64 = .ok m.tiles.size
  unpadded : m.Unpadded
  in_range : ∀ x y i, m.grid.locate x y = some i → ∃ t, m.tile i.1 = .ok t ∧
    m.has x y = Tile.has t i.2 ∧ m.setTile i.1 (Tile.insert t i.2) = .ok (m.insert x y).2

/-- What the operations do to the region of a mask. -/
structure Follows (m : PixelMask) : Prop where
  empty_eq : empty.region = ⟨0, 0, ∅⟩
  blank_eq : ∀ w h, (blank w h).region = ⟨w, h, ∅⟩
  resize_eq : ∀ w h,
    (m.resize w h).region = if m.width = w ∧ m.height = h then m.region else ⟨w, h, ∅⟩
  clear_eq : m.clear.region = ⟨m.width, m.height, ∅⟩
  clearTiles_eq : ∀ flags : Array Bool, flags.size = m.tiles.size →
    ∃ n, m.clearTiles flags = .ok n ∧
      n.region = ⟨m.width, m.height, {c | c ∈ m.region.pixels ∧
        ∀ i, m.grid.locate c.1 c.2 = some i → flags[i.1]? ≠ some true}⟩
  insert_eq : ∀ x y, x < m.width → y < m.height → (m.insert x y).1 = true ∧
    (m.insert x y).2.region = ⟨m.width, m.height, m.region.pixels ∪ {(x, y)}⟩
  insert_outside : ∀ x y, ¬(x < m.width ∧ y < m.height) → m.insert x y = (false, m)
  union_eq : ∀ other, m.width = other.width → m.height = other.height →
    (m.union other).1 = true ∧
      (m.union other).2.region = ⟨m.width, m.height, m.region.pixels ∪ other.region.pixels⟩
  union_of_sizes : ∀ other, ¬(m.width = other.width ∧ m.height = other.height) →
    m.union other = (false, m)
  copyFrom_eq : ∀ other, m.copyFrom other = .ok other

/-- What is counted and listed of a mask. A visit goes once to the slot of each coordinate, in
ascending order. -/
structure Listed (m : PixelMask) : Prop where
  card_eq : m.card = m.region.pixels.ncard
  activeTileCount_eq : m.activeTileCount
    = {t | ∃ c ∈ m.region.pixels, ∃ p, m.grid.locate c.1 c.2 = some (t, p)}.ncard
  visit_eq : ∃ slots : List Nat, slots.Pairwise (· < ·) ∧
    (∀ s, s ∈ slots ↔ ∃ c ∈ m.region.pixels, m.grid.slot c.1 c.2 = some s) ∧
    ∀ {σ : Type} (f : σ → Nat → σ) (init : σ),
      m.visit f init = (slots.foldl f init, m.region.pixels.ncard)

theorem Unpadded.shaped {m : PixelMask} (hm : m.Unpadded) : m.Shaped where
  tileCount_eq := m.size_tiles ▸ TileGrid.tileCount64_ofSize
  unpadded := hm
  in_range x y i hi := by
    have hlt := locate_lt_tileCount hi
    have htile : m.tile i.1 = .ok (m.tileD i.1) := by simp [tile, tileD, hlt]
    refine ⟨_, htile, has_of_locate hi, ?_⟩
    rw [setTile, if_pos hlt]
    simp only [PixelMask.insert, hi]

theorem follows (m : PixelMask) : m.Follows where
  empty_eq := region_blank 0 0
  blank_eq := region_blank
  resize_eq := m.region_resize
  clear_eq := m.region_clear
  clearTiles_eq _ hflags := region_clearTiles hflags
  insert_eq _ _ hx hy := region_insert hx hy
  insert_outside _ _ hout := PixelMask.insert_outside hout
  union_eq _ hwidth hheight := region_union hwidth hheight
  union_of_sizes _ hsizes := PixelMask.union_of_sizes hsizes
  copyFrom_eq := PixelMask.copyFrom_eq m

theorem Unpadded.listed {m : PixelMask} (hm : m.Unpadded) : m.Listed where
  card_eq := m.length_slots.symm.trans hm.ncard_pixels.symm
  activeTileCount_eq := hm.ncard_tiles.symm
  visit_eq := by
    refine ⟨m.slots, m.slots_ascending, fun s => hm.mem_slots_iff, fun f init => ?_⟩
    rw [PixelMask.visit_eq, hm.ncard_pixels]

/-- A mask stands for a set of coordinates of its image. Whatever callers do to masks, the bits
agree with that set: the operations change it as they should, it is counted and listed as it is, and
masks with the same set on images of one size are equal. -/
theorem reached_refines {m : PixelMask} (hm : m.Reached) :
    m.Shaped ∧ m.Follows ∧ m.Listed ∧
      ∀ other : PixelMask, other.Reached → (m = other ↔ m.region = other.region) := by
  have hunpadded := hm.unpadded
  refine ⟨hunpadded.shaped, m.follows, hunpadded.listed, fun other hother => ?_⟩
  exact ⟨congrArg region, hunpadded.eq_of_region hother.unpadded⟩

/-- The first and the last pixel of an image with ragged edges. -/
def cornerMask : PixelMask := (((blank 9 10).insert 8 9).2.union ((blank 9 10).insert 0 0).2).2

/-- Two pixels in two tiles, and a mask on the same image that has only the first of them. -/
theorem reached_refines_of_corner :
    cornerMask.Reached ∧ ((blank 9 10).insert 0 0).2.Reached ∧
      cornerMask.region.pixels.ncard = 2 ∧
      {t | ∃ c ∈ cornerMask.region.pixels, ∃ p,
        cornerMask.grid.locate c.1 c.2 = some (t, p)}.ncard = 2 ∧
      (∃ slots : List Nat, slots.Pairwise (· < ·) ∧
        cornerMask.visit (fun seen s => s :: seen) [] = (slots.reverse, 2)) ∧
      cornerMask.region ≠ ((blank 9 10).insert 0 0).2.region := by
  have hfirst : ((blank 9 10).insert 0 0).2.Reached := (Reached.blank 9 10).insert 0 0
  have hcorner : cornerMask.Reached := ((Reached.blank 9 10).insert 8 9).union hfirst
  obtain ⟨-, -, hlisted, heq⟩ := reached_refines hcorner
  have hcard : cornerMask.region.pixels.ncard = 2 :=
    hlisted.card_eq.symm.trans (by decide +kernel)
  obtain ⟨slots, hascend, -, hvisit⟩ := hlisted.visit_eq
  refine ⟨hcorner, hfirst, hcard, hlisted.activeTileCount_eq.symm.trans (by decide +kernel),
    ⟨slots, hascend, ?_⟩, mt (heq _ hfirst).2 (by decide +kernel)⟩
  rw [hvisit, hcard]
  simp

end PixelMask

end RenderFold
