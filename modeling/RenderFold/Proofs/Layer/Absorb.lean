/-
Merging of layers, cell by cell.

`Layer.merged` is the layer that a merge has to leave behind, given by the rule of `Cell.absorb` at
every place inside the image and by the old cell in the padding, and `Layer.changes` is the report.
`absorb_eq_ok` says that a merge of two layers of one shape arrives at exactly these, without a
fault, and `check_eq_ok_iff` that the shapes are what a merge checks.
-/
import RenderFold.Proofs.Layer
import RenderFold.Layer.Absorb

namespace RenderFold

variable {V : Type}

theorem bind_eq_ok {ε α β : Type} {x : Except ε α} {f : α → Except ε β} {b : β} :
    (x >>= f) = .ok b ↔ ∃ a, x = .ok a ∧ f a = .ok b := by
  cases x with
  | error e => simp [bind, Except.bind]
  | ok a => simp [bind, Except.bind]

namespace Block

theorem slice_eq_ok {α : Type} {a : Array α} {n t : Nat} (ha : a.size = n * 64) (ht : t < n) :
    ∃ b, slice a t = .ok b ∧ ∀ p, a[TileGrid.slotOf (t, p)]? = some (b.get p) := by
  have hle : (t + 1) * 64 ≤ a.size := by omega
  refine ⟨⟨a.extract (t * 64) ((t + 1) * 64), by simp; omega⟩, dif_pos hle, ?_⟩
  intro p
  have hp := p.isLt
  have hs : t * 64 + p.val < a.size := by omega
  rw [get_eq _ p hp]
  simp [TileGrid.slotOf, tilePixels, hs]

@[simp] theorem size_store {α : Type} (a : Array α) (t : Nat) (b : Block α) :
    (store a t b).size = a.size := by
  have hfold : ∀ (ps : List PixelId) (a : Array α),
      (ps.foldl (fun a p => a.setIfInBounds (t * 64 + p.val) b[p]) a).size = a.size := by
    intro ps
    induction ps with
    | nil => simp
    | cons p rest ih =>
        intro a
        rw [List.foldl_cons, ih, Array.size_setIfInBounds]
  exact hfold PixelId.all a

theorem getElem?_store {α : Type} (a : Array α) (t : Nat) (b : Block α) (i : Nat × PixelId) :
    (store a t b)[TileGrid.slotOf i]?
      = if i.1 = t then a[TileGrid.slotOf i]?.map fun _ => b.get i.2
        else a[TileGrid.slotOf i]? := by
  obtain ⟨u, q⟩ := i
  have hfold := foldl_view
    (fun (a : Array α) (p : PixelId) => a.setIfInBounds (t * 64 + p.val) b[p])
    (fun a p => a[TileGrid.slotOf (u, p)]?)
    (fun p held => if u = t then held.map fun _ => b[p] else held)
    (fun a p => by
      by_cases hut : u = t
      · subst hut
        by_cases hs : u * 64 + p.val < a.size
        · simp [TileGrid.slotOf, tilePixels, hs]
        · simp [TileGrid.slotOf, tilePixels, Nat.not_lt.1 hs]
      · have hne : t * 64 + p.val ≠ u * 64 + p.val := by omega
        simp only [TileGrid.slotOf, tilePixels, if_neg hut]
        exact Array.getElem?_setIfInBounds_ne hne)
    (fun a p r hr => by
      have hval : p.val ≠ r.val := fun hval => hr (Fin.ext hval.symm)
      have hp := p.isLt
      have hr := r.isLt
      have hne : t * 64 + p.val ≠ u * 64 + r.val := by omega
      simp [TileGrid.slotOf, tilePixels, hne])
    PixelId.all_nodup a q
  rw [if_pos (PixelId.mem_all q)] at hfold
  exact hfold

/-- Writing back a tile whose taken pixels come from another array. -/
theorem getElem?_store_of_taken {α : Type} {a srcArray : Array α} {t : Nat} {dst src b : Block α}
    {taken : Tile} (hdst : ∀ p, a[TileGrid.slotOf (t, p)]? = some (dst.get p))
    (hsrc : ∀ p, srcArray[TileGrid.slotOf (t, p)]? = some (src.get p))
    (hb : ∀ p, b.get p = if Tile.has taken p = true then src.get p else dst.get p)
    (i : Nat × PixelId) :
    (store a t b)[TileGrid.slotOf i]?
      = if i.1 = t ∧ Tile.has taken i.2 = true then srcArray[TileGrid.slotOf i]?
        else a[TileGrid.slotOf i]? := by
  obtain ⟨u, q⟩ := i
  rw [getElem?_store]
  by_cases htile : u = t
  · subst htile
    rw [if_pos rfl, hdst, hsrc, Option.map_some, hb]
    by_cases hbit : Tile.has taken q = true
    · simp [hbit]
    · simp [hbit]
  · simp [htile]

/-- Writing back what was cut out changes nothing. -/
theorem store_slice {α : Type} {a : Array α} {n t : Nat} (ha : a.size = n * 64) (ht : t < n)
    {b : Block α} (hb : slice a t = .ok b) : store a t b = a := by
  obtain ⟨b', hb', hp⟩ := slice_eq_ok ha ht
  rw [hb, Except.ok.injEq] at hb'
  subst hb'
  apply Array.ext_getElem?
  intro s
  have hs := getElem?_store a t b (TileGrid.placeOf s)
  rw [TileGrid.slotOf_placeOf] at hs
  rw [hs]
  by_cases htile : (TileGrid.placeOf s).1 = t
  · have hplace : (t, (TileGrid.placeOf s).2) = TileGrid.placeOf s := Prod.ext htile.symm rfl
    have hself := hp (TileGrid.placeOf s).2
    rw [hplace, TileGrid.slotOf_placeOf] at hself
    simp [htile, hself]
  · simp [htile]

end Block

namespace Layer

variable [Inhabited V] [DecidableEq V]

/-- The cell of an array of values, an array of counts and a tile. -/
def cellOf (values : Array V) (counts : Array UInt32) (held : Tile) (i : Nat × PixelId) : Cell V :=
  ⟨values[TileGrid.slotOf i]?.getD default, counts[TileGrid.slotOf i]?.getD 0, Tile.has held i.2⟩

omit [DecidableEq V] in
theorem cellOf_eq_cell {t : Nat} {values : Array V} {b : Block V}
    (hvalues : ∀ p, values[TileGrid.slotOf (t, p)]? = some (b.get p)) (held : Tile) (p : PixelId) :
    cellOf values #[] held (t, p) = b.cell held p := by
  rw [cellOf, hvalues]
  rfl

omit [DecidableEq V] in
theorem cellOf_eq_countedCell {t : Nat} {values : Array V} {counts : Array UInt32}
    {b : CountedBlock V} (hvalues : ∀ p, values[TileGrid.slotOf (t, p)]? = some (b.values.get p))
    (hcounts : ∀ p, counts[TileGrid.slotOf (t, p)]? = some (b.counts.get p)) (held : Tile)
    (p : PixelId) : cellOf values counts held (t, p) = b.cell held p := by
  rw [cellOf, hvalues, hcounts]
  rfl

section Arrays

variable {n t : Nat} {values srcValues : Array V} {counts srcCounts : Array UInt32}

omit [Inhabited V] in
/-- The early return for an empty mask makes no difference: the tile would be written back as it
was. -/
theorem absorbUncounted_of_slices (ht : t < n) (held mask : Tile) {dst src : Block V}
    (hv : values.size = n * 64) (hdst : Block.slice values t = .ok dst)
    (hsrc : Block.slice srcValues t = .ok src) :
    absorbUncounted t held mask values srcValues
      = .ok (Block.store values t (Block.absorb dst held src mask).1,
          Tile.union held (Block.absorb dst held src mask).2,
          (Block.absorb dst held src mask).2) := by
  simp only [absorbUncounted, hdst, hsrc, bind, Except.bind, pure, Except.pure]
  by_cases hmask : mask = 0
  · have hnone : Block.absorb dst held src 0 = (dst, 0) := by
      simp [Block.absorb, Tile.ids]
    have hunion : Tile.union held 0 = held := Tile.ext_has (by simp)
    simp only [hmask, if_true, hnone, hunion, Block.store_slice hv ht hdst]
  · rw [if_neg hmask]

omit [Inhabited V] in
theorem absorbCounted_of_slices (ht : t < n) (held mask : Tile) (dst src : CountedBlock V)
    (hv : values.size = n * 64) (hc : counts.size = n * 64)
    (hdstValues : Block.slice values t = .ok dst.values)
    (hdstCounts : Block.slice counts t = .ok dst.counts)
    (hsrcValues : Block.slice srcValues t = .ok src.values)
    (hsrcCounts : Block.slice srcCounts t = .ok src.counts) :
    absorbCounted t held mask values counts srcValues srcCounts
      = .ok (Block.store values t (dst.absorb src mask).1.values,
          Block.store counts t (dst.absorb src mask).1.counts,
          Tile.union held (dst.absorb src mask).2, (dst.absorb src mask).2) := by
  simp only [absorbCounted, hdstValues, hdstCounts, hsrcValues, hsrcCounts, bind, Except.bind, pure,
    Except.pure]
  by_cases hmask : mask = 0
  · have hnone : dst.absorb src 0 = (dst, 0) := by
      simp [CountedBlock.absorb, Tile.ids]
    have hunion : Tile.union held 0 = held := Tile.ext_has (by simp)
    simp only [hmask, if_true, hnone, hunion, Block.store_slice hv ht hdstValues,
      Block.store_slice hc ht hdstCounts]
  · rw [if_neg hmask]

theorem absorbUncounted_eq_ok (ht : t < n) (held mask : Tile) (hv : values.size = n * 64)
    (hsv : srcValues.size = n * 64) :
    ∃ values' taken,
      absorbUncounted t held mask values srcValues
        = .ok (values', Tile.union held taken, taken) ∧
      values'.size = values.size ∧
      (∀ p, Tile.has taken p
        = (cellOf values #[] held (t, p)).takes false (cellOf srcValues #[] mask (t, p))) ∧
      (∀ i : Nat × PixelId, values'[TileGrid.slotOf i]?
        = if i.1 = t ∧ Tile.has taken i.2 = true then srcValues[TileGrid.slotOf i]?
          else values[TileGrid.slotOf i]?) := by
  obtain ⟨dst, hdst, hdstGet⟩ := Block.slice_eq_ok hv ht
  obtain ⟨src, hsrc, hsrcGet⟩ := Block.slice_eq_ok hsv ht
  refine ⟨_, _, absorbUncounted_of_slices ht held mask hv hdst hsrc, Block.size_store _ _ _, ?_, ?_⟩
  · intro p
    rw [cellOf_eq_cell hdstGet, cellOf_eq_cell hsrcGet]
    exact Block.has_absorb dst src held mask p
  · exact Block.getElem?_store_of_taken hdstGet hsrcGet (Block.get_absorb dst src held mask)

theorem absorbCounted_eq_ok (ht : t < n) (held mask : Tile) (hv : values.size = n * 64)
    (hc : counts.size = n * 64) (hsv : srcValues.size = n * 64) (hsc : srcCounts.size = n * 64) :
    ∃ values' counts' taken,
      absorbCounted t held mask values counts srcValues srcCounts
        = .ok (values', counts', Tile.union held taken, taken) ∧
      values'.size = values.size ∧ counts'.size = counts.size ∧
      (∀ p, Tile.has taken p
        = (cellOf values counts held (t, p)).takes true (cellOf srcValues srcCounts mask (t, p))) ∧
      (∀ i : Nat × PixelId, values'[TileGrid.slotOf i]?
        = if i.1 = t ∧ Tile.has taken i.2 = true then srcValues[TileGrid.slotOf i]?
          else values[TileGrid.slotOf i]?) ∧
      (∀ i : Nat × PixelId, counts'[TileGrid.slotOf i]?
        = if i.1 = t ∧ Tile.has taken i.2 = true then srcCounts[TileGrid.slotOf i]?
          else counts[TileGrid.slotOf i]?) := by
  obtain ⟨dstValues, hdv, hdvGet⟩ := Block.slice_eq_ok hv ht
  obtain ⟨dstCounts, hdc, hdcGet⟩ := Block.slice_eq_ok hc ht
  obtain ⟨blockValues, hsv, hsvGet⟩ := Block.slice_eq_ok hsv ht
  obtain ⟨blockCounts, hsc, hscGet⟩ := Block.slice_eq_ok hsc ht
  let dst : CountedBlock V := ⟨dstValues, dstCounts⟩
  let src : CountedBlock V := ⟨blockValues, blockCounts⟩
  refine ⟨_, _, _, absorbCounted_of_slices ht held mask dst src hv hc hdv hdc hsv hsc,
    Block.size_store _ _ _, Block.size_store _ _ _, ?_, ?_, ?_⟩
  · intro p
    rw [cellOf_eq_countedCell (b := dst) hdvGet hdcGet,
      cellOf_eq_countedCell (b := src) hsvGet hscGet]
    exact CountedBlock.has_absorb dst src held mask p
  · exact Block.getElem?_store_of_taken hdvGet hsvGet (CountedBlock.get_values_absorb dst src mask)
  · exact Block.getElem?_store_of_taken hdcGet hscGet (CountedBlock.get_counts_absorb dst src mask)

end Arrays

/-! ### Tiles -/

/-- Whether merging takes the source cell at a place. -/
def changesAt (dst src : Layer V) (i : Nat × PixelId) : Bool :=
  dst.grid.interior i && (dst.cell i).takes dst.isCounted (src.cell i)

def mergedCell (dst src : Layer V) (i : Nat × PixelId) : Cell V :=
  if dst.changesAt src i then ⟨(src.cell i).value, (src.cell i).count, true⟩ else dst.cell i

/-- A layer with the source written over the pixels `taken` of one tile, which are the ones of that
tile that merging takes. -/
structure WritesTile (dst src : Layer V) (t : Nat) (taken : Tile) (next : Layer V) : Prop where
  has_taken : ∀ p, Tile.has taken p = dst.changesAt src (t, p)
  cell_eq : ∀ i : Nat × PixelId, next.cell i
    = if i.1 = t ∧ Tile.has taken i.2 = true then ⟨(src.cell i).value, (src.cell i).count, true⟩
      else dst.cell i

section Step

variable {dst src : Layer V} {report : PixelMask} {w h : UInt32} {counted : Bool} {t : Nat}

omit [Inhabited V] [DecidableEq V] in
theorem tile_eq_ok {m : PixelMask} (hw : m.width = w) (hh : m.height = h)
    (ht : t < (TileGrid.ofSize w h).tileCount) : m.tile t = .ok (m.tileD t) := by
  have hlt : t < m.tiles.size := by rwa [m.size_tiles, hw, hh]
  simp [PixelMask.tile, PixelMask.tileD, hlt]

omit [Inhabited V] [DecidableEq V] in
theorem setTile_eq_ok {m : PixelMask} (hw : m.width = w) (hh : m.height = h)
    (ht : t < (TileGrid.ofSize w h).tileCount) (tile : Tile) :
    m.setTile t tile = .ok (m.putTile t tile) := by
  have hlt : t < m.tiles.size := by rwa [m.size_tiles, hw, hh]
  exact if_pos hlt

/-- Where the source has been cut to the image, the rule takes the pixels that a merge changes. -/
theorem takes_cut_eq_changesAt (hdst : dst.HasShape w h counted) (src : Layer V) {inside : Tile}
    (hin : ∀ p, Tile.has inside p = (TileGrid.ofSize w h).interior (t, p)) (p : PixelId) :
    (dst.cell (t, p)).takes counted
        ⟨(src.cell (t, p)).value, (src.cell (t, p)).count,
          Tile.has (Tile.inter (src.mask.tileD t) inside) p⟩
      = dst.changesAt src (t, p) := by
  rw [Tile.has_inter, hin, Cell.takes_cut, changesAt, grid, hdst.grid_eq, hdst.isCounted_eq]
  rfl

omit [DecidableEq V] in
/-- The cells of a layer that has been overwritten at the taken pixels of one tile. -/
theorem cell_of_taken {next : Layer V} {taken : Tile} (ht : t < dst.mask.tiles.size)
    (hmask : next.mask = dst.mask.putTile t (Tile.union (dst.mask.tileD t) taken))
    {i : Nat × PixelId}
    (hvalue : (next.cell i).value
      = if i.1 = t ∧ Tile.has taken i.2 = true then (src.cell i).value else (dst.cell i).value)
    (hcount : (next.cell i).count
      = if i.1 = t ∧ Tile.has taken i.2 = true then (src.cell i).count else (dst.cell i).count) :
    next.cell i
      = if i.1 = t ∧ Tile.has taken i.2 = true then ⟨(src.cell i).value, (src.cell i).count, true⟩
        else dst.cell i := by
  have hactive : (next.cell i).active
      = if i.1 = t ∧ Tile.has taken i.2 = true then true else (dst.cell i).active := by
    obtain ⟨u, q⟩ := i
    simp only [cell, hmask, PixelMask.tileD_putTile ht]
    by_cases htile : t = u
    · subst htile
      by_cases htaken : Tile.has taken q = true
      · simp [htaken]
      · simp [htaken]
    · simp [htile, Ne.symm htile]
  have hparts : next.cell i
      = ⟨(next.cell i).value, (next.cell i).count, (next.cell i).active⟩ := rfl
  rw [hparts, hvalue, hcount, hactive]
  split
  · rfl
  · rfl

theorem absorbTile_uncounted (hdst : dst.HasShape w h false) (hsrc : src.HasShape w h false)
    (hw : report.width = w) (hh : report.height = h) (ht : t < (TileGrid.ofSize w h).tileCount)
    (changed : Nat) :
    ∃ next taken,
      absorbTile src ⟨dst, report, changed⟩ t
        = .ok ⟨next, report.putTile t taken, changed + Tile.card taken⟩ ∧
      next.HasShape w h false ∧ dst.WritesTile src t taken next := by
  obtain ⟨inside, hinside, hin⟩ := TileGrid.inside_ofSize ht
  have hmask : t < dst.mask.tiles.size := by rwa [hdst.size_tiles]
  have hcut := takes_cut_eq_changesAt hdst src hin
  have hgrid := hdst.grid_eq
  obtain ⟨values, counts, mask⟩ := dst
  obtain ⟨srcValues, srcCounts, srcMask⟩ := src
  obtain rfl : counts = none := hdst.counts_eq_none
  obtain rfl : srcCounts = none := hsrc.counts_eq_none
  simp only at hgrid
  obtain ⟨values', taken, hok, hsize, htaken, hvalues⟩ := absorbUncounted_eq_ok ht
    (mask.tileD t) (Tile.inter (srcMask.tileD t) inside) hdst.size_values hsrc.size_values
  refine ⟨⟨values', none, mask.putTile t (Tile.union (mask.tileD t) taken)⟩, taken, ?_,
    ⟨hdst.width_eq, hdst.height_eq, rfl, hsize.trans hdst.wellSized.1, by simp⟩,
    fun p => (htaken p).trans (hcut p), fun i => cell_of_taken hmask rfl ?_ ?_⟩
  · simp only [absorbTile, hgrid, hinside, tile_eq_ok hsrc.width_eq hsrc.height_eq ht,
      tile_eq_ok hdst.width_eq hdst.height_eq ht, setTile_eq_ok hdst.width_eq hdst.height_eq ht,
      setTile_eq_ok hw hh ht, bind, Except.bind, pure, Except.pure, hok]
  · simp only [cell, hvalues]
    exact apply_ite (fun v : Option V => v.getD default) _ _ _
  · simp [cell]

theorem absorbTile_counted (hdst : dst.HasShape w h true) (hsrc : src.HasShape w h true)
    (hw : report.width = w) (hh : report.height = h) (ht : t < (TileGrid.ofSize w h).tileCount)
    (changed : Nat) :
    ∃ next taken,
      absorbTile src ⟨dst, report, changed⟩ t
        = .ok ⟨next, report.putTile t taken, changed + Tile.card taken⟩ ∧
      next.HasShape w h true ∧ dst.WritesTile src t taken next := by
  obtain ⟨inside, hinside, hin⟩ := TileGrid.inside_ofSize ht
  have hmask : t < dst.mask.tiles.size := by rwa [hdst.size_tiles]
  have hcut := takes_cut_eq_changesAt hdst src hin
  have hgrid := hdst.grid_eq
  obtain ⟨values, counts, mask⟩ := dst
  obtain ⟨srcValues, srcCounts, srcMask⟩ := src
  obtain ⟨dstArray, rfl⟩ : ∃ array, counts = some array := hdst.counts_eq_some
  obtain ⟨srcArray, rfl⟩ : ∃ array, srcCounts = some array := hsrc.counts_eq_some
  simp only at hgrid
  obtain ⟨values', counts', taken, hok, hsize, hsize', htaken, hvalues, hcounts⟩ :=
    absorbCounted_eq_ok ht (mask.tileD t) (Tile.inter (srcMask.tileD t) inside)
      hdst.size_values (hdst.size_counts rfl) hsrc.size_values (hsrc.size_counts rfl)
  refine ⟨⟨values', some counts', mask.putTile t (Tile.union (mask.tileD t) taken)⟩, taken, ?_,
    ⟨hdst.width_eq, hdst.height_eq, rfl, hsize.trans hdst.wellSized.1, ?_⟩,
    fun p => (htaken p).trans (hcut p), fun i => cell_of_taken hmask rfl ?_ ?_⟩
  · simp only [absorbTile, hgrid, hinside, tile_eq_ok hsrc.width_eq hsrc.height_eq ht,
      tile_eq_ok hdst.width_eq hdst.height_eq ht, setTile_eq_ok hdst.width_eq hdst.height_eq ht,
      setTile_eq_ok hw hh ht, bind, Except.bind, pure, Except.pure, hok]
  · rintro c ⟨⟩
    exact hsize'.trans (hdst.wellSized.2 dstArray rfl)
  · simp only [cell, hvalues]
    exact apply_ite (fun v : Option V => v.getD default) _ _ _
  · simp only [cell, Option.bind_some, hcounts]
    exact apply_ite (fun c : Option UInt32 => c.getD 0) _ _ _

/-- A step writes the source over the pixels of one tile that it takes, and reports them. -/
theorem absorbTile_taken (hdst : dst.HasShape w h counted) (hsrc : src.HasShape w h counted)
    (hw : report.width = w) (hh : report.height = h) (ht : t < (TileGrid.ofSize w h).tileCount)
    (changed : Nat) :
    ∃ next taken,
      absorbTile src ⟨dst, report, changed⟩ t
        = .ok ⟨next, report.putTile t taken, changed + Tile.card taken⟩ ∧
      next.HasShape w h counted ∧ dst.WritesTile src t taken next := by
  cases counted with
  | false => exact absorbTile_uncounted hdst hsrc hw hh ht changed
  | true => exact absorbTile_counted hdst hsrc hw hh ht changed

/-- Merging a tile changes the cells of that tile and its tile of the report, and nothing else. -/
theorem absorbTile_eq_ok (hdst : dst.HasShape w h counted) (hsrc : src.HasShape w h counted)
    (hw : report.width = w) (hh : report.height = h) (ht : t < (TileGrid.ofSize w h).tileCount)
    (changed : Nat) :
    ∃ next, absorbTile src ⟨dst, report, changed⟩ t = .ok next ∧ next.dst.HasShape w h counted ∧
      next.report.width = w ∧ next.report.height = h ∧
      (∀ i : Nat × PixelId, next.dst.cell i
        = if i.1 = t then dst.mergedCell src i else dst.cell i) ∧
      (∀ i : Nat × PixelId, Tile.has (next.report.tileD i.1) i.2
        = if i.1 = t then dst.changesAt src i else Tile.has (report.tileD i.1) i.2) ∧
      next.changed = changed + Tile.card (next.report.tileD t) := by
  obtain ⟨next, taken, hok, hshape, htaken, hcell⟩ := absorbTile_taken hdst hsrc hw hh ht changed
  have hreport : t < report.tiles.size := by rwa [report.size_tiles, hw, hh]
  refine ⟨_, hok, hshape, hw, hh, ?_, ?_, ?_⟩
  · rintro ⟨u, q⟩
    rw [hcell, mergedCell]
    by_cases htile : u = t
    · subst htile
      simp [htaken]
    · simp [htile]
  · rintro ⟨u, q⟩
    simp only [PixelMask.tileD_putTile hreport]
    by_cases htile : u = t
    · subst htile
      simp [htaken]
    · simp [htile, Ne.symm htile]
  · simp only [PixelMask.tileD_putTile hreport, if_true]

/-- What a merge does to a cell depends on no other cell. -/
theorem changesAt_congr {dst' : Layer V} (hdst' : dst'.HasShape w h counted)
    (hdst : dst.HasShape w h counted) {i : Nat × PixelId} (hcell : dst'.cell i = dst.cell i) :
    dst'.changesAt src i = dst.changesAt src i := by
  have hgrid : dst'.grid = dst.grid := hdst'.grid_eq.trans hdst.grid_eq.symm
  rw [changesAt, changesAt, hcell, hgrid, hdst'.isCounted_eq, hdst.isCounted_eq]

/-- Merging distinct tiles changes the cells of these tiles and their tiles of the report, and
nothing else; the order of the tiles is free. -/
theorem absorbTiles_eq_ok {tiles : List Nat} (hnodup : tiles.Nodup)
    (htiles : ∀ t ∈ tiles, t < (TileGrid.ofSize w h).tileCount)
    (hdst : dst.HasShape w h counted) (hsrc : src.HasShape w h counted)
    (hw : report.width = w) (hh : report.height = h) (changed : Nat) :
    ∃ done, absorbTiles src tiles ⟨dst, report, changed⟩ = .ok done ∧
      done.dst.HasShape w h counted ∧ done.report.width = w ∧ done.report.height = h ∧
      (∀ i : Nat × PixelId, done.dst.cell i
        = if i.1 ∈ tiles then dst.mergedCell src i else dst.cell i) ∧
      (∀ i : Nat × PixelId, Tile.has (done.report.tileD i.1) i.2
        = if i.1 ∈ tiles then dst.changesAt src i else Tile.has (report.tileD i.1) i.2) ∧
      done.changed
        = changed + tiles.foldr (fun t n => Tile.card (done.report.tileD t) + n) 0 := by
  induction tiles generalizing dst report changed with
  | nil => exact ⟨_, rfl, hdst, hw, hh, by simp, by simp, rfl⟩
  | cons t rest ih =>
      obtain ⟨hnot, hrest⟩ := List.nodup_cons.1 hnodup
      obtain ⟨⟨dst', report', changed'⟩, hnext, hdst', hw', hh', hcell, hbit, hcount⟩ :=
        absorbTile_eq_ok hdst hsrc hw hh (htiles t List.mem_cons_self) changed
      obtain ⟨done, hdone, hshape, hdw, hdh, hcells, hbits, htotal⟩ :=
        ih hrest (fun u hu => htiles u (List.mem_cons_of_mem t hu)) hdst' hw' hh' changed'
      simp only at hcell hbit hcount
      -- the cells of the later tiles are still the ones the merge has started from
      have hsame : ∀ i : Nat × PixelId, i.1 ≠ t → dst'.cell i = dst.cell i := by
        intro i hi
        rw [hcell, if_neg hi]
      have hchanges : ∀ i : Nat × PixelId, i.1 ≠ t →
          dst'.changesAt src i = dst.changesAt src i := fun i hi =>
        changesAt_congr hdst' hdst (hsame i hi)
      have htile : done.report.tileD t = report'.tileD t := by
        apply Tile.ext_has
        intro p
        have hp := hbits (t, p)
        rwa [if_neg hnot] at hp
      refine ⟨done, ?_, hshape, hdw, hdh, ?_, ?_, ?_⟩
      · rw [absorbTiles, List.foldlM_cons, hnext]
        exact hdone
      · intro i
        rw [hcells]
        by_cases hi : i.1 = t
        · simp [hi, hnot, hcell]
        · simp only [hi, List.mem_cons, false_or, mergedCell, hchanges i hi, hsame i hi]
      · intro i
        rw [hbits]
        by_cases hi : i.1 = t
        · rw [hi, if_neg hnot, if_pos List.mem_cons_self, ← hi, hbit, if_pos hi]
        · simp only [hi, List.mem_cons, false_or, hchanges i hi]
          rw [hbit, if_neg hi]
      · rw [htotal, List.foldr_cons, htile, hcount, Nat.add_assoc]

end Step

/-! ### Whole layers -/

def merged (dst src : Layer V) : Layer V :=
  ofCells dst.mask.width dst.mask.height dst.isCounted (dst.mergedCell src)

def changes (dst src : Layer V) : PixelMask :=
  .ofPlaces dst.mask.width dst.mask.height (dst.changesAt src)

section Whole

variable {dst src : Layer V} {report : PixelMask} {w h : UInt32} {counted : Bool}

theorem mergedCell_count (hdst : dst.HasShape w h counted) (hsrc : src.HasShape w h counted)
    (hc : counted = false) (i : Nat × PixelId) : (dst.mergedCell src i).count = 0 := by
  rw [mergedCell]
  split
  · exact cell_count_of_uncounted hsrc hc i
  · exact cell_count_of_uncounted hdst hc i

theorem merged_hasShape (hdst : dst.HasShape w h counted) :
    (dst.merged src).HasShape w h counted := by
  have hshape := ofCells_hasShape w h counted (dst.mergedCell src)
  rwa [merged, hdst.width_eq, hdst.height_eq, hdst.isCounted_eq]

theorem cell_merged (hdst : dst.HasShape w h counted) (hsrc : src.HasShape w h counted)
    {i : Nat × PixelId} (hi : i.1 < (TileGrid.ofSize w h).tileCount) :
    (dst.merged src).cell i = dst.mergedCell src i := by
  rw [merged, hdst.width_eq, hdst.height_eq, hdst.isCounted_eq]
  exact cell_ofCells hi fun hc => mergedCell_count hdst hsrc hc i

theorem has_changes (hdst : dst.HasShape w h counted) {i : Nat × PixelId}
    (hi : i.1 < (TileGrid.ofSize w h).tileCount) :
    Tile.has ((dst.changes src).tileD i.1) i.2 = dst.changesAt src i := by
  rw [changes, hdst.width_eq, hdst.height_eq]
  exact PixelMask.has_tileD_ofPlaces _ hi

theorem changes_size (hdst : dst.HasShape w h counted) (src : Layer V) :
    (dst.changes src).size = ⟨w, h⟩ := by
  rw [← hdst.width_eq, ← hdst.height_eq]
  rfl

theorem tileCount_changes (hdst : dst.HasShape w h counted) (src : Layer V) :
    (dst.changes src).tileCount = (TileGrid.ofSize w h).tileCount := by
  obtain ⟨hw, hh⟩ := ImageSize.mk.inj (changes_size hdst src)
  rw [PixelMask.tileCount, PixelMask.size_tiles, hw, hh]

/-- Inside the image merging is the rule for single pixels. -/
theorem mergedCell_of_interior (hdst : dst.HasShape w h counted) {i : Nat × PixelId}
    (hin : (TileGrid.ofSize w h).interior i = true) :
    dst.mergedCell src i = (dst.cell i).absorb counted (src.cell i) := by
  simp [mergedCell, changesAt, Cell.absorb, grid, hdst.grid_eq, hdst.isCounted_eq, hin]

omit [Inhabited V] [DecidableEq V] in
theorem checkLength_eq_ok_iff {part : LayerPart} {got want : Nat} :
    checkLength part got want = .ok () ↔ got = want := by
  rw [checkLength]
  split <;> simp [*]

omit [Inhabited V] [DecidableEq V] in
theorem checkLength_bind_eq_ok {part : LayerPart} {got want : Nat}
    {f : Unit → Except MergeError Unit} :
    (checkLength part got want >>= f) = .ok () ↔ got = want ∧ f () = .ok () := by
  rw [bind_eq_ok, ← checkLength_eq_ok_iff]
  constructor
  · rintro ⟨⟨⟩, hlength, hrest⟩
    exact ⟨hlength, hrest⟩
  · rintro ⟨hlength, hrest⟩
    exact ⟨(), hlength, hrest⟩

omit [Inhabited V] [DecidableEq V] in
/-- A merge accepts two layers of one size whose arrays fit, if both keep counts or neither does. -/
theorem check_eq_ok_iff_wellSized :
    dst.check src = .ok () ↔
      dst.mask.sameSize src.mask = true ∧ src.isCounted = dst.isCounted ∧ dst.WellSized ∧
        src.WellSized := by
  obtain ⟨dstValues, dstCounts, dstMask⟩ := dst
  obtain ⟨srcValues, srcCounts, srcMask⟩ := src
  have hslots : dstMask.tileCount * tilePixels = dstMask.grid.slotCount :=
    congrArg (· * tilePixels) dstMask.size_tiles
  by_cases hsize : dstMask.sameSize srcMask = true
  · have hgrid : srcMask.grid = dstMask.grid := by
      rw [PixelMask.sameSize, Bool.and_eq_true, decide_eq_true_eq, decide_eq_true_eq] at hsize
      rw [PixelMask.grid, PixelMask.grid, hsize.1, hsize.2]
    simp only [check, hsize, Bool.not_true, Bool.false_eq_true, if_false, checkLength_bind_eq_ok,
      hslots, WellSized, hgrid, true_and]
    cases dstCounts with
    | none => cases srcCounts <;> simp [isCounted]
    | some dstCounts =>
        cases srcCounts with
        | none => simp [isCounted]
        | some srcCounts =>
            simp only [checkLength_bind_eq_ok, checkLength_eq_ok_iff, isCounted, Option.isSome_some,
              Option.mem_some, forall_eq', true_and, and_assoc]
            constructor
            · rintro ⟨hdv, hsv, hdc, hsc⟩
              exact ⟨hdv, hdc, hsv, hsc⟩
            · rintro ⟨hdv, hdc, hsv, hsc⟩
              exact ⟨hdv, hsv, hdc, hsc⟩
  · simp [check, hsize]

omit [Inhabited V] [DecidableEq V] in
theorem sameSize_iff (hdst : dst.HasShape w h counted) :
    dst.mask.sameSize src.mask = true ↔ src.mask.width = w ∧ src.mask.height = h := by
  rw [PixelMask.sameSize, hdst.width_eq, hdst.height_eq, Bool.and_eq_true, decide_eq_true_eq,
    decide_eq_true_eq, eq_comm, eq_comm (a := h)]

omit [Inhabited V] [DecidableEq V] in
/-- A destination that passes the checks of a merge has arrays that fit its mask. -/
theorem sound_of_check {dst src : Layer V} (hok : dst.check src = .ok ()) :
    dst.Sound dst.isCounted :=
  ⟨rfl, rfl, rfl, (check_eq_ok_iff_wellSized.1 hok).2.2.1⟩

omit [Inhabited V] [DecidableEq V] in
/-- The layers of one shape are the ones that a merge accepts. -/
theorem check_eq_ok_iff (hdst : dst.HasShape w h counted) :
    dst.check src = .ok () ↔ src.HasShape w h counted := by
  rw [check_eq_ok_iff_wellSized, sameSize_iff hdst, hdst.isCounted_eq]
  constructor
  · rintro ⟨⟨hwidth, hheight⟩, hcounted, -, hsized⟩
    exact ⟨hwidth, hheight, hcounted, hsized⟩
  · intro hsrc
    exact ⟨⟨hsrc.width_eq, hsrc.height_eq⟩, hsrc.isCounted_eq, hdst.wellSized, hsrc.wellSized⟩

/-- A merge of layers of one shape that comes by every tile once succeeds and does what the rule for
single pixels says. -/
theorem absorbInOrder_eq_ok (hdst : dst.HasShape w h counted) (hsrc : src.HasShape w h counted)
    {tiles : List Nat} (htiles : tiles.Perm (List.range (TileGrid.ofSize w h).tileCount))
    (report : PixelMask) :
    dst.absorbInOrder tiles src report
      = .ok ⟨.ok (dst.changes src).card, dst.merged src, dst.changes src⟩ := by
  have hresize : (report.resize w h).width = w ∧ (report.resize w h).height = h := by
    rw [PixelMask.resize]
    split
    · assumption
    · exact ⟨rfl, rfl⟩
  have hmem : ∀ t, t ∈ tiles ↔ t < (TileGrid.ofSize w h).tileCount := fun t =>
    htiles.mem_iff.trans List.mem_range
  obtain ⟨done, hdone, hshape, hdw, hdh, hcells, hbits, hcount⟩ :=
    absorbTiles_eq_ok (htiles.nodup_iff.2 List.nodup_range) (fun t => (hmem t).1) hdst hsrc
      hresize.1 hresize.2 0
  have hdst' : done.dst = dst.merged src := by
    apply ext_cell hshape (merged_hasShape hdst)
    intro i hi
    rw [hcells, if_pos ((hmem i.1).2 hi), cell_merged hdst hsrc hi]
  have hreport : done.report = dst.changes src := by
    have hw : (dst.changes src).width = w := hdst.width_eq
    have hh : (dst.changes src).height = h := hdst.height_eq
    apply PixelMask.ext_has_tileD (hdw.trans hw.symm) (hdh.trans hh.symm)
    intro i hi
    rw [hw, hh] at hi
    rw [hbits, if_pos ((hmem i.1).2 hi), has_changes hdst hi]
  have hcard : done.changed = (dst.changes src).card := by
    rw [hcount, hreport, PixelMask.card_eq_foldr, tileCount_changes hdst src, Nat.zero_add]
    apply htiles.foldr_eq'
    intro t _ u _ n
    exact Nat.add_left_comm _ _ _
  rw [absorbInOrder, (check_eq_ok_iff hdst).2 hsrc]
  simp only [hdst.width_eq, hdst.height_eq, hdone, bind, Except.bind, pure, Except.pure, hdst',
    hreport, hcard]

/-- A merge of layers of one shape succeeds and does what the rule for single pixels says. -/
theorem absorb_eq_ok (hdst : dst.HasShape w h counted) (hsrc : src.HasShape w h counted)
    (report : PixelMask) :
    dst.absorb src report
      = .ok ⟨.ok (dst.changes src).card, dst.merged src, dst.changes src⟩ := by
  rw [absorb, PixelMask.tileCount, hdst.size_tiles]
  exact absorbInOrder_eq_ok hdst hsrc (.refl _) report

omit [Inhabited V] in
/-- A merge that succeeds has found a source of the destination's shape. -/
theorem hasShape_of_absorb (hdst : dst.HasShape w h counted) {report : PixelMask}
    {done : Absorbed (Layer V)} {n : Nat} (hdone : dst.absorb src report = .ok done)
    (hn : done.answer = .ok n) : src.HasShape w h counted := by
  apply (check_eq_ok_iff hdst).1
  cases hcheck : dst.check src with
  | ok => rfl
  | error e =>
      rw [absorb, absorbInOrder, hcheck] at hdone
      simp only [Except.ok.injEq] at hdone
      subst hdone
      cases hn

end Whole

end Layer

end RenderFold
