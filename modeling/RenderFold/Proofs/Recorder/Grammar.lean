/-
The grammar of records.

`Listing` is an entry as it is written: its flag, the sides of its image, and pairs of a tile number
and a mask in any order. What it says is `Listing.entry`, the pairs written over a blank mask one
after another, so that of several pairs for one tile the last one counts (`Listing.Denotes`).
Writing produces listings of a special form; reading accepts all that are `Listing.Admissible`.
-/
import Mathlib.Data.List.Induction
import RenderFold.Proofs.PixelMask
import RenderFold.Proofs.Recorder.Reader

namespace RenderFold

namespace PixelMask

theorem tileCount_blank (w h : UInt32) :
    (blank w h).tileCount = (TileGrid.ofSize w h).tileCount :=
  (blank w h).size_tiles

theorem tileCount_putTile (m : PixelMask) (t : Nat) (bits : Tile) :
    (m.putTile t bits).tileCount = m.tileCount := by
  simp [putTile, tileCount]

theorem tileCount_putTiles (m : PixelMask) (tiles : List (Nat × Tile)) :
    (m.putTiles tiles).tileCount = m.tileCount := by
  induction tiles generalizing m with
  | nil => rfl
  | cons e rest ih => exact (ih (m.putTile e.1 e.2)).trans (m.tileCount_putTile e.1 e.2)

/-- Of the masks that are written to a tile, the last one stays. -/
theorem tileD_putTiles {m : PixelMask} {tiles : List (Nat × Tile)}
    (htiles : ∀ e ∈ tiles, e.1 < m.tileCount) (t : Nat) :
    (m.putTiles tiles).tileD t
      = ((tiles.filter fun e => e.1 = t).getLast?.map Prod.snd).getD (m.tileD t) := by
  induction tiles using List.reverseRecOn with
  | nil => rfl
  | append_singleton rest e ih =>
      have hrest := ih fun d hd => htiles d (List.mem_append_left [e] hd)
      have he : e.1 < (m.putTiles rest).tiles.size :=
        Nat.lt_of_lt_of_eq (htiles e (by simp)) (m.tileCount_putTiles rest).symm
      have hlast : m.putTiles (rest ++ [e]) = (m.putTiles rest).putTile e.1 e.2 :=
        List.foldl_append
      rw [hlast, tileD_putTile he, hrest, List.filter_append]
      by_cases ht : e.1 = t
      · simp [ht]
      · simp [ht]

/-- Writes to tiles that exist succeed one after another. -/
theorem foldlM_setTile {m : PixelMask} {tiles : List (Nat × Tile)}
    (htiles : ∀ e ∈ tiles, e.1 < m.tileCount) :
    tiles.foldlM (fun m e => m.setTile e.1 e.2) m = .ok (m.putTiles tiles) := by
  induction tiles generalizing m with
  | nil => rfl
  | cons e rest ih =>
      have he : e.1 < m.tiles.size := htiles e List.mem_cons_self
      rw [List.foldlM_cons, setTile, if_pos he]
      exact ih fun d hd =>
        (m.tileCount_putTile e.1 e.2).symm ▸ htiles d (List.mem_cons_of_mem e hd)

end PixelMask

namespace Recorder

theorem sidesFit_iff {w h : UInt32} : sidesFit w h = true ↔ w ≤ 32768 ∧ h ≤ 32768 := by
  rw [sidesFit, Bool.and_eq_true, decide_eq_true_eq, decide_eq_true_eq]
  exact Iff.rfl

/-- Images that fit a record have so few tiles that their numbers fit four bytes. -/
theorem tileCount_lt_of_sidesFit {w h : UInt32} (hfit : sidesFit w h = true) :
    (TileGrid.ofSize w h).tileCount < 256 ^ 4 := by
  obtain ⟨hw, hh⟩ := sidesFit_iff.1 hfit
  have hwidth : w.toNat ≤ 32768 := UInt32.le_iff_toNat_le.1 hw
  have hheight : h.toNat ≤ 32768 := UInt32.le_iff_toNat_le.1 hh
  have hcolumns : (w.toNat + 7) / 8 ≤ 4096 := by omega
  have hrows : (h.toNat + 7) / 8 ≤ 4096 := by omega
  calc (TileGrid.ofSize w h).tileCount = (w.toNat + 7) / 8 * ((h.toNat + 7) / 8) :=
        TileGrid.tileCount_ofSize
    _ ≤ 4096 * 4096 := Nat.mul_le_mul hcolumns hrows
    _ < 256 ^ 4 := by decide

/-- An entry as it is written. -/
structure Listing where
  coarse : Bool
  width : UInt32
  height : UInt32
  /-- Tile numbers with masks, in reading order. -/
  tiles : List (Nat × Tile)

namespace Listing

def tileCount (l : Listing) : Nat := (TileGrid.ofSize l.width l.height).tileCount

/-- The bytes before the number of tiles. -/
def headBytes (coarse : Bool) (width height : UInt32) : Bytes :=
  [if coarse then 1 else 0] ++ (Bytes.ofNat 4 width.toNat ++ Bytes.ofNat 4 height.toNat)

def bytes (l : Listing) : Bytes :=
  headBytes l.coarse l.width l.height
    ++ (Bytes.ofNat 4 l.tiles.length ++ l.tiles.flatMap tileBytes)

/-- The sides fit a record, and the pairs are not more than the tiles of the image and belong to
tiles of the image. -/
structure Admissible (l : Listing) : Prop where
  width_le : l.width ≤ 32768
  height_le : l.height ≤ 32768
  length_le : l.tiles.length ≤ l.tileCount
  tile_lt : ∀ e ∈ l.tiles, e.1 < l.tileCount

/-- The mask of the last pair for a tile, the empty one if there is none. -/
def lastMask (l : Listing) (t : Nat) : Tile :=
  ((l.tiles.filter fun e => e.1 = t).getLast?.map Prod.snd).getD 0

/-- What an entry says as it is written. No pair is written outside the tiles of the image. -/
structure Denotes (l : Listing) (e : RecordEntry) : Prop where
  coarse_eq : e.coarse = l.coarse
  width_eq : e.pixels.width = l.width
  height_eq : e.pixels.height = l.height
  tileD_eq : ∀ t, e.pixels.tileD t = l.lastMask t
  writes_eq : l.tiles.foldlM (fun m e => m.setTile e.1 e.2) (PixelMask.blank l.width l.height)
    = .ok e.pixels

def entry (l : Listing) : RecordEntry :=
  ⟨(PixelMask.blank l.width l.height).putTiles l.tiles, l.coarse⟩

section Admissible

variable {l : Listing}

theorem Admissible.sidesFit (hl : l.Admissible) : sidesFit l.width l.height = true :=
  sidesFit_iff.2 ⟨hl.width_le, hl.height_le⟩

theorem Admissible.denotes_iff (hl : l.Admissible) {e : RecordEntry} :
    l.Denotes e ↔ e = l.entry := by
  have htiles : ∀ d ∈ l.tiles, d.1 < (PixelMask.blank l.width l.height).tileCount := fun d hd =>
    PixelMask.tileCount_blank l.width l.height ▸ hl.tile_lt d hd
  have hwrites := PixelMask.foldlM_setTile htiles
  constructor
  · intro he
    obtain ⟨pixels, coarse⟩ := e
    obtain rfl := he.coarse_eq
    obtain rfl := Except.ok.inj (hwrites.symm.trans he.writes_eq)
    rfl
  · rintro rfl
    obtain ⟨hwidth, hheight⟩ := (PixelMask.blank l.width l.height).putTiles_size l.tiles
    refine ⟨rfl, hwidth, hheight, fun t => ?_, hwrites⟩
    exact (PixelMask.tileD_putTiles htiles t).trans (by rw [PixelMask.tileD_blank, lastMask])

end Admissible

end Listing

/-! ### Readers -/

namespace Reader

theorem reads_tiles (index : Nat) (tiles : List (Nat × Tile)) (mask : PixelMask)
    (hsmall : mask.tileCount ≤ 256 ^ 4) (htiles : ∀ e ∈ tiles, e.1 < mask.tileCount) :
    Reads (Reader.tiles index tiles.length mask) (tiles.flatMap tileBytes)
      (mask.putTiles tiles) := by
  induction tiles generalizing mask with
  | nil => exact reads_pure mask
  | cons e rest ih =>
      have he := htiles e List.mem_cons_self
      have hcount := mask.tileCount_putTile e.1 e.2
      have hrest := ih (mask.putTile e.1 e.2) (hcount ▸ hsmall) fun d hd =>
        hcount ▸ htiles d (List.mem_cons_of_mem e hd)
      have hbits : e.2.toNat < 256 ^ 8 := e.2.toNat_lt
      rw [List.flatMap_cons, tileBytes, List.append_assoc]
      refine (reads_number (Nat.lt_of_lt_of_le he hsmall)).bind ?_
      refine (reads_number hbits).bind ?_
      rw [if_pos he, UInt64.ofNat_toNat]
      exact hrest

/-- The flag and the sides of the entry with the given index. -/
def head (index : Nat) : Reader (Bool × UInt32 × UInt32) := do
  let coarse ← flag index
  let width := UInt32.ofNat (← number 4)
  let height := UInt32.ofNat (← number 4)
  return (coarse, width, height)

/-- What the reader of an entry does after the sides have been accepted. -/
def body (index : Nat) (coarse : Bool) (width height : UInt32) : Reader RecordEntry := do
  let mask := PixelMask.blank width height
  let listed ← number 4
  if listed ≤ mask.tileCount then return ⟨← tiles index listed mask, coarse⟩
  else refuse (.tileCount index listed mask.tileCount)

/-- The sides are judged between the head and the body. -/
theorem entry_eq (index : Nat) :
    entry index = head index >>= fun h =>
      if sidesFit h.2.1 h.2.2 then body index h.1 h.2.1 h.2.2
      else refuse (.side index ⟨h.2.1, h.2.2⟩) := by
  simp only [entry, head, body, bind_assoc, pure_bind]

theorem reads_head (index : Nat) (coarse : Bool) (width height : UInt32) :
    Reads (head index) (Listing.headBytes coarse width height) (coarse, width, height) := by
  refine (reads_flag index coarse).bind ?_
  refine (reads_number width.toNat_lt).bind ?_
  have hheight := (reads_number (n := 4) height.toNat_lt).map fun n =>
    (coarse, UInt32.ofNat width.toNat, UInt32.ofNat n)
  rw [UInt32.ofNat_toNat, UInt32.ofNat_toNat] at hheight
  rw [UInt32.ofNat_toNat]
  exact hheight

theorem reads_listing (index : Nat) {l : Listing} (hl : l.Admissible) :
    Reads (entry index) l.bytes l.entry := by
  have hsmall := tileCount_lt_of_sidesFit hl.sidesFit
  have hblank := PixelMask.tileCount_blank l.width l.height
  have htiles := reads_tiles index l.tiles (.blank l.width l.height)
    (hblank ▸ Nat.le_of_lt hsmall) fun d hd => hblank ▸ hl.tile_lt d hd
  rw [entry_eq]
  refine (reads_head index l.coarse l.width l.height).bind ?_
  rw [if_pos hl.sidesFit]
  refine (reads_number (Nat.lt_of_le_of_lt hl.length_le hsmall)).bind ?_
  rw [if_pos (hblank ▸ hl.length_le)]
  exact htiles.map (RecordEntry.mk · l.coarse)

theorem reads_listings (index : Nat) {written : List Listing}
    (hwritten : ∀ l ∈ written, l.Admissible) :
    Reads (entries written.length index) (written.flatMap Listing.bytes)
      (written.map Listing.entry) := by
  induction written generalizing index with
  | nil => exact reads_pure []
  | cons l rest ih =>
      have hrest := ih (index + 1) fun d hd => hwritten d (List.mem_cons_of_mem l hd)
      rw [List.flatMap_cons]
      exact (reads_listing index (hwritten l List.mem_cons_self)).bind (hrest.map (l.entry :: ·))

theorem reads_listed_record {written : List Listing} (hcount : written.length < range32)
    (hwritten : ∀ l ∈ written, l.Admissible) :
    Reads record (magic ++ (Bytes.ofNat 4 written.length ++ written.flatMap Listing.bytes))
      (written.map Listing.entry) := by
  refine (reads_take magic).bind ?_
  rw [if_pos rfl]
  have hnumber : Reads (number 4) (Bytes.ofNat 4 written.length) written.length :=
    reads_number hcount
  exact hnumber.bind (reads_listings 0 hwritten)

end Reader

end Recorder

end RenderFold
