/-
Replaying the changes of a merge on a copy of the destination.

`Layer.replay` fetches the changed pixels of a layer one after another. On a copy of the layer that
was merged into, fetching the reported pixels repeats the merge, and no padding is touched.
-/
import RenderFold.Proofs.Layer.Absorb

namespace RenderFold

namespace Layer

variable {V : Type}

def fetch (l : Layer V) (changed : PixelMask) (copy : Layer V) (c : UInt32 × UInt32) : Layer V :=
  if changed.has c.1 c.2 then
    match l.pixel? c.1 c.2 with
    | some (value, count) => (copy.setPixel c.1 c.2 value count).2
    | none => copy
  else copy

/-- Fetch the changed pixels of a layer, at the given coordinates one after another. -/
def replay (copy l : Layer V) (changed : PixelMask) (coords : List (UInt32 × UInt32)) : Layer V :=
  coords.foldl (fetch l changed) copy

variable [Inhabited V] {copy dst src l : Layer V} {w h : UInt32} {counted : Bool}

theorem cell_fetch (hcopy : copy.HasShape w h counted) (hl : l.HasShape w h counted)
    (changed : PixelMask) (c : UInt32 × UInt32) :
    (fetch l changed copy c).HasShape w h counted ∧
      ∀ i : Nat × PixelId, (fetch l changed copy c).cell i
        = if (TileGrid.ofSize w h).locate c.1 c.2 = some i ∧ changed.has c.1 c.2 = true
          then ⟨(l.cell i).value, (l.cell i).count, true⟩ else copy.cell i := by
  rw [fetch]
  by_cases hchanged : changed.has c.1 c.2 = true
  · cases hj : (TileGrid.ofSize w h).locate c.1 c.2 with
    | none =>
        have hpixel : l.pixel? c.1 c.2 = none := by
          simp [pixel?, grid, hl.grid_eq, TileGrid.slot, hj]
        simp [hchanged, hpixel, hcopy]
    | some j =>
        rw [if_pos hchanged, pixel?_eq_cell hl hj]
        refine ⟨setPixel_hasShape hcopy _ _ _ _, ?_⟩
        intro i
        have hcount : (if counted then (l.cell j).count else 0) = (l.cell j).count := by
          cases hc : counted with
          | true => rfl
          | false => exact (cell_count_of_uncounted hl hc j).symm
        rw [cell_setPixel hcopy hj, hcount]
        by_cases hij : i = j
        · subst hij
          simp [hchanged]
        · simp [hij, Ne.symm hij]
  · simp [hchanged, hcopy]

/-- The cells of a replica are the fetched ones at the changed coordinates and its own elsewhere. -/
theorem cell_replay (hcopy : copy.HasShape w h counted) (hl : l.HasShape w h counted)
    (changed : PixelMask) (coords : List (UInt32 × UInt32)) :
    (copy.replay l changed coords).HasShape w h counted ∧
      ∀ i : Nat × PixelId, (copy.replay l changed coords).cell i
        = if ∃ c ∈ coords, (TileGrid.ofSize w h).locate c.1 c.2 = some i ∧
            changed.has c.1 c.2 = true then ⟨(l.cell i).value, (l.cell i).count, true⟩
          else copy.cell i := by
  induction coords generalizing copy with
  | nil => exact ⟨hcopy, by simp [replay]⟩
  | cons c rest ih =>
      obtain ⟨hfetch, hfetched⟩ := cell_fetch hcopy hl changed c
      obtain ⟨hshape, hcell⟩ := ih hfetch
      refine ⟨hshape, ?_⟩
      intro i
      rw [replay, List.foldl_cons, ← replay, hcell, hfetched]
      by_cases hrest : ∃ c ∈ rest, (TileGrid.ofSize w h).locate c.1 c.2 = some i ∧
          changed.has c.1 c.2 = true
      · obtain ⟨d, hd, hdi⟩ := hrest
        rw [if_pos ⟨d, hd, hdi⟩, if_pos ⟨d, List.mem_cons_of_mem c hd, hdi⟩]
      · simp [hrest]

theorem has_changes_coords [DecidableEq V] (hdst : dst.HasShape w h counted) {x y : UInt32}
    {i : Nat × PixelId} (hi : (TileGrid.ofSize w h).locate x y = some i) :
    (dst.changes src).has x y = dst.changesAt src i := by
  have hgrid : (dst.changes src).grid = TileGrid.ofSize w h := by
    rw [PixelMask.grid]
    simp only [changes, PixelMask.ofPlaces, hdst.width_eq, hdst.height_eq]
  rw [PixelMask.has, hgrid, hi]
  exact has_changes hdst (TileGrid.locate_place hi).1

/-- Fetching the changed pixels of a merge repeats the merge. -/
theorem replay_merged [DecidableEq V] (hdst : dst.HasShape w h counted)
    (hsrc : src.HasShape w h counted) {coords : List (UInt32 × UInt32)}
    (hcoords : ∀ x y, x < w → y < h → (x, y) ∈ coords) :
    dst.replay (dst.merged src) (dst.changes src) coords = dst.merged src := by
  have hmerged : (dst.merged src).HasShape w h counted := merged_hasShape hdst
  obtain ⟨hshape, hcell⟩ := cell_replay hdst hmerged (dst.changes src) coords
  apply ext_cell hshape hmerged
  intro i hi
  rw [hcell, cell_merged hdst hsrc hi, mergedCell]
  cases hchanges : dst.changesAt src i with
  | true =>
      have hin : (TileGrid.ofSize w h).interior i = true := by
        rw [changesAt, Bool.and_eq_true, grid, hdst.grid_eq] at hchanges
        exact hchanges.1
      obtain ⟨x, y, hxy⟩ := TileGrid.exists_locate hi hin
      obtain ⟨hx, hy⟩ := TileGrid.lt_of_locate hxy
      rw [if_pos ⟨(x, y), hcoords x y hx hy, hxy, (has_changes_coords hdst hxy).trans hchanges⟩]
      rfl
  | false =>
      rw [if_neg]
      · rfl
      · rintro ⟨c, _, hci, hhas⟩
        rw [has_changes_coords hdst hci, hchanges] at hhas
        cases hhas

end Layer

end RenderFold
