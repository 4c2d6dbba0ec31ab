/-
The canonical form of a record.

Many records are read alike: pairs of an entry may come in any order, stand for empty tiles, or be
overruled by later ones. Writing what was read gives one of them, in which every entry is
`Listing.Canonical`. It is never longer, since each tile that is not empty has been listed at least
once. That it is the record that was read only if that was canonical already rests on the grammar:
bytes begin with at most one list of entries (`IsRecord.unique`).
-/
import Mathlib.Data.List.Nodup
import Mathlib.Data.List.Perm.Subperm
import RenderFold.Proofs.Recorder.Acceptance
import RenderFold.Proofs.Recorder.RoundTrip

namespace RenderFold

namespace PixelMask

def TilesAscend (tiles : List (Nat × Tile)) : Prop := tiles.Pairwise fun d e => d.1 < e.1

section PutTiles

variable {w h : UInt32} {tiles : List (Nat × Tile)}

theorem TilesAscend.nodup (hascend : TilesAscend tiles) : tiles.Nodup := by
  apply hascend.imp
  rintro d e hlt rfl
  exact Nat.lt_irrefl _ hlt

/-- A tile that is not empty holds a mask that was written to it. -/
theorem activeTiles_putTiles_subset (htiles : ∀ e ∈ tiles, e.1 < (blank w h).tileCount) :
    ((blank w h).putTiles tiles).activeTiles ⊆ tiles := by
  intro e he
  obtain ⟨-, hbits, hheld⟩ := mem_activeTiles_iff.1 he
  rw [tileD_putTiles htiles, tileD_blank] at hheld
  cases hlast : (tiles.filter fun d => d.1 = e.1).getLast? with
  | none =>
      rw [hlast] at hheld
      exact absurd hheld.symm hbits
  | some d =>
      rw [hlast] at hheld
      have hd := List.mem_filter.1 (List.mem_of_getLast? hlast)
      have hde : d = e := Prod.ext (of_decide_eq_true hd.2) hheld
      exact hde ▸ hd.1

theorem activeTileCount_putTiles_le (htiles : ∀ e ∈ tiles, e.1 < (blank w h).tileCount) :
    ((blank w h).putTiles tiles).activeTileCount ≤ tiles.length := by
  have hnodup : ((blank w h).putTiles tiles).activeTiles.Nodup :=
    TilesAscend.nodup (activeTiles_ascending _)
  exact (List.subperm_of_subset hnodup (activeTiles_putTiles_subset htiles)).length_le

/-- Where no tile is listed twice, each holds the mask that is listed for it. -/
theorem tileD_putTiles_of_ascend (htiles : ∀ e ∈ tiles, e.1 < (blank w h).tileCount)
    (hascend : TilesAscend tiles) {e : Nat × Tile} (he : e ∈ tiles) :
    ((blank w h).putTiles tiles).tileD e.1 = e.2 := by
  have hnodup : (tiles.map Prod.fst).Nodup :=
    List.pairwise_map.2 (hascend.imp fun hlt => Nat.ne_of_lt hlt)
  have hmem : e ∈ tiles.filter fun d => d.1 = e.1 := List.mem_filter.2 ⟨he, by simp⟩
  rw [tileD_putTiles htiles]
  cases hlast : (tiles.filter fun d => d.1 = e.1).getLast? with
  | none =>
      rw [List.getLast?_eq_none_iff.1 hlast] at hmem
      cases hmem
  | some d =>
      have hd := List.mem_filter.1 (List.mem_of_getLast? hlast)
      have hde : d = e := List.inj_on_of_nodup_map hnodup hd.1 he (of_decide_eq_true hd.2)
      simp [hde]

/-- A list of tiles is the one that its mask is written as exactly if the tiles ascend and none of
them is empty. -/
theorem activeTiles_putTiles_eq_iff (htiles : ∀ e ∈ tiles, e.1 < (blank w h).tileCount) :
    ((blank w h).putTiles tiles).activeTiles = tiles ↔
      TilesAscend tiles ∧ ∀ e ∈ tiles, e.2 ≠ 0 := by
  have hheld : TilesAscend ((blank w h).putTiles tiles).activeTiles := activeTiles_ascending _
  constructor
  · intro heq
    rw [heq] at hheld
    refine ⟨hheld, fun e he => ?_⟩
    rw [← heq] at he
    exact (mem_activeTiles_iff.1 he).2.1
  · rintro ⟨hascend, hbits⟩
    have hsame : ∀ e, e ∈ ((blank w h).putTiles tiles).activeTiles ↔ e ∈ tiles := by
      intro e
      constructor
      · exact fun he => activeTiles_putTiles_subset htiles he
      · intro he
        have hlt := Nat.lt_of_lt_of_eq (htiles e he) (tileCount_putTiles _ tiles).symm
        exact mem_activeTiles_iff.2 ⟨hlt, hbits e he, tileD_putTiles_of_ascend htiles hascend he⟩
    exact List.Perm.eq_of_pairwise (fun d e _ _ hde hed => absurd hed (Nat.lt_asymm hde)) hheld
      hascend ((List.perm_ext_iff_of_nodup hheld.nodup hascend.nodup).2 hsame)

end PutTiles

end PixelMask

theorem Bytes.ofNat_inj {n value other : Nat} (hvalue : value < 256 ^ n) (hother : other < 256 ^ n)
    (heq : ofNat n value = ofNat n other) : value = other := by
  rw [← toNat_ofNat_of_lt hvalue, heq, toNat_ofNat_of_lt hother]

namespace Recorder

/-! ### The grammar is unambiguous -/

theorem tileBytes_inj {d e : Nat × Tile} (hd : d.1 < 256 ^ 4) (he : e.1 < 256 ^ 4)
    (heq : tileBytes d = tileBytes e) : d = e := by
  have hlength : (Bytes.ofNat 4 d.1).length = (Bytes.ofNat 4 e.1).length := by
    simp only [Bytes.length_ofNat]
  obtain ⟨htile, hbits⟩ := List.append_inj heq hlength
  have hmask : d.2.toNat = e.2.toNat := Bytes.ofNat_inj (n := 8) d.2.toNat_lt e.2.toNat_lt hbits
  exact Prod.ext (Bytes.ofNat_inj hd he htile) (UInt64.toNat_inj.1 hmask)

/-- Pairs that begin the same bytes are the same, if they are equally many. -/
theorem tiles_append_inj {tiles others : List (Nat × Tile)} {rest rest' : Bytes}
    (htiles : ∀ e ∈ tiles, e.1 < 256 ^ 4) (hothers : ∀ e ∈ others, e.1 < 256 ^ 4)
    (hlength : tiles.length = others.length)
    (heq : tiles.flatMap tileBytes ++ rest = others.flatMap tileBytes ++ rest') :
    tiles = others ∧ rest = rest' := by
  induction tiles generalizing others with
  | nil =>
      obtain rfl := List.eq_nil_of_length_eq_zero hlength.symm
      exact ⟨rfl, heq⟩
  | cons d tiles ih =>
      cases others with
      | nil => cases hlength
      | cons e others =>
          simp only [List.flatMap_cons, List.append_assoc] at heq
          obtain ⟨hhead, hlater⟩ := List.append_inj heq
            ((length_tileBytes d).trans (length_tileBytes e).symm)
          obtain rfl := tileBytes_inj (htiles d List.mem_cons_self) (hothers e List.mem_cons_self)
            hhead
          obtain ⟨rfl, rfl⟩ := ih (fun c hc => htiles c (List.mem_cons_of_mem d hc))
            (fun c hc => hothers c (List.mem_cons_of_mem d hc)) (Nat.succ.inj hlength) hlater
          exact ⟨rfl, rfl⟩

namespace Listing

theorem length_headBytes (coarse : Bool) (width height : UInt32) :
    (headBytes coarse width height).length = 9 := by
  simp [headBytes]

theorem length_bytes (l : Listing) : l.bytes.length = 13 + 12 * l.tiles.length := by
  simp only [bytes, List.length_append, length_headBytes, Bytes.length_ofNat,
    length_flatMap_tileBytes]
  omega

theorem headBytes_inj {coarse coarse' : Bool} {w w' h h' : UInt32}
    (heq : headBytes coarse w h = headBytes coarse' w' h') :
    coarse = coarse' ∧ w = w' ∧ h = h' := by
  obtain ⟨hflag, hsides⟩ := List.append_inj heq rfl
  have hlength : (Bytes.ofNat 4 w.toNat).length = (Bytes.ofNat 4 w'.toNat).length := by
    simp only [Bytes.length_ofNat]
  obtain ⟨hwidth, hheight⟩ := List.append_inj hsides hlength
  have hw : w.toNat = w'.toNat := Bytes.ofNat_inj (n := 4) w.toNat_lt w'.toNat_lt hwidth
  have hh : h.toNat = h'.toNat := Bytes.ofNat_inj (n := 4) h.toNat_lt h'.toNat_lt hheight
  refine ⟨?_, UInt32.toNat_inj.1 hw, UInt32.toNat_inj.1 hh⟩
  cases coarse <;> cases coarse' <;> first | rfl | cases hflag

section Admissible

variable {l k : Listing} {rest rest' : Bytes}

theorem Admissible.tileCount_lt (hl : l.Admissible) : l.tileCount < 256 ^ 4 :=
  tileCount_lt_of_sidesFit hl.sidesFit

/-- Bytes begin with one entry only. -/
theorem Admissible.append_inj (hl : l.Admissible) (hk : k.Admissible)
    (heq : l.bytes ++ rest = k.bytes ++ rest') : l = k ∧ rest = rest' := by
  simp only [bytes, List.append_assoc] at heq
  obtain ⟨hhead, heq⟩ := List.append_inj heq (by simp only [length_headBytes])
  obtain ⟨hcount, heq⟩ := List.append_inj heq (by simp only [Bytes.length_ofNat])
  have hlength : l.tiles.length = k.tiles.length :=
    Bytes.ofNat_inj (Nat.lt_of_le_of_lt hl.length_le hl.tileCount_lt)
      (Nat.lt_of_le_of_lt hk.length_le hk.tileCount_lt) hcount
  obtain ⟨htiles, hrest⟩ := tiles_append_inj
    (fun e he => Nat.lt_trans (hl.tile_lt e he) hl.tileCount_lt)
    (fun e he => Nat.lt_trans (hk.tile_lt e he) hk.tileCount_lt) hlength heq
  obtain ⟨hcoarse, hwidth, hheight⟩ := headBytes_inj hhead
  cases l
  cases k
  subst hcoarse hwidth hheight htiles
  exact ⟨rfl, hrest⟩

end Admissible

end Listing

theorem listings_append_inj {written other : List Listing} {rest rest' : Bytes}
    (hwritten : ∀ l ∈ written, l.Admissible) (hother : ∀ l ∈ other, l.Admissible)
    (hlength : written.length = other.length)
    (heq : written.flatMap Listing.bytes ++ rest = other.flatMap Listing.bytes ++ rest') :
    written = other ∧ rest = rest' := by
  induction written generalizing other with
  | nil =>
      obtain rfl := List.eq_nil_of_length_eq_zero hlength.symm
      exact ⟨rfl, heq⟩
  | cons l written ih =>
      cases other with
      | nil => cases hlength
      | cons k other =>
          simp only [List.flatMap_cons, List.append_assoc] at heq
          obtain ⟨rfl, hlater⟩ := (hwritten l List.mem_cons_self).append_inj
            (hother k List.mem_cons_self) heq
          obtain ⟨rfl, rfl⟩ := ih (fun c hc => hwritten c (List.mem_cons_of_mem l hc))
            (fun c hc => hother c (List.mem_cons_of_mem l hc)) (Nat.succ.inj hlength) hlater
          exact ⟨rfl, rfl⟩

/-- Bytes begin with one record only. -/
theorem IsRecord.unique {b : Bytes} {written other : List Listing} {rest rest' : Bytes}
    (hb : IsRecord b written rest) (hb' : IsRecord b other rest') :
    written = other ∧ rest = rest' := by
  have heq := hb.bytes_eq.symm.trans hb'.bytes_eq
  simp only [List.append_assoc] at heq
  obtain ⟨-, heq⟩ := List.append_inj heq rfl
  obtain ⟨hcount, heq⟩ := List.append_inj heq (by simp only [Bytes.length_ofNat])
  have hlength : written.length = other.length :=
    Bytes.ofNat_inj (n := 4) hb.count_lt hb'.count_lt hcount
  exact listings_append_inj hb.admissible hb'.admissible hlength heq

/-! ### Writing what was read -/

/-- An entry as it is written by a recorder: tiles in ascending order, and no empty ones. -/
structure Listing.Canonical (l : Listing) : Prop where
  ascending : l.tiles.Pairwise fun d e => d.1 < e.1
  nonempty : ∀ e ∈ l.tiles, e.2 ≠ 0

section Listing

variable {l : Listing}

theorem Listing.entry_size (l : Listing) :
    l.entry.pixels.width = l.width ∧ l.entry.pixels.height = l.height :=
  PixelMask.putTiles_size _ l.tiles

theorem Listing.Admissible.blank_tile_lt (hl : l.Admissible) :
    ∀ e ∈ l.tiles, e.1 < (PixelMask.blank l.width l.height).tileCount := fun e he =>
  Nat.lt_of_lt_of_eq (hl.tile_lt e he) (PixelMask.tileCount_blank l.width l.height).symm

/-- The canonical entries are those that are written as they were read. -/
theorem listing_entry_eq_iff (hl : l.Admissible) : listing l.entry = l ↔ l.Canonical := by
  have htiles := PixelMask.activeTiles_putTiles_eq_iff hl.blank_tile_lt
  obtain ⟨hwidth, hheight⟩ := l.entry_size
  constructor
  · intro heq
    obtain ⟨hascend, hbits⟩ := htiles.1 (congrArg Listing.tiles heq)
    exact ⟨hascend, hbits⟩
  · rintro ⟨hascend, hbits⟩
    have hactive : l.entry.pixels.activeTiles = l.tiles := htiles.2 ⟨hascend, hbits⟩
    rw [listing, hwidth, hheight, hactive]
    rfl

theorem length_entryBytes_le (hl : l.Admissible) :
    (entryBytes l.entry).length ≤ l.bytes.length := by
  have hcount : l.entry.pixels.activeTileCount ≤ l.tiles.length :=
    PixelMask.activeTileCount_putTiles_le hl.blank_tile_lt
  rw [length_entryBytes, l.length_bytes]
  omega

theorem length_flatMap_entryBytes_le {written : List Listing}
    (hwritten : ∀ l ∈ written, l.Admissible) :
    ((written.map Listing.entry).flatMap entryBytes).length
      ≤ (written.flatMap Listing.bytes).length := by
  induction written with
  | nil => exact Nat.le_refl 0
  | cons l written ih =>
      have hfirst := length_entryBytes_le (hwritten l List.mem_cons_self)
      have hlater := ih fun k hk => hwritten k (List.mem_cons_of_mem l hk)
      simp only [List.map_cons, List.flatMap_cons, List.length_append]
      omega

end Listing

/-- What is written is a record of its listings. -/
theorem isRecord_recordBytes {written : List RecordEntry} (hcount : written.length < range32)
    (hsides : ∀ e ∈ written, sidesFit e.pixels.width e.pixels.height = true) :
    IsRecord (recordBytes written) (written.map listing) [] where
  bytes_eq := by
    have hbytes : (written.map listing).flatMap Listing.bytes = written.flatMap entryBytes := by
      rw [List.flatMap_map, funext listing_bytes]
    rw [hbytes, List.length_map, List.append_nil, recordBytes, List.append_assoc]
  count_lt := (List.length_map listing).symm ▸ hcount
  admissible := by
    intro l hl
    obtain ⟨e, he, rfl⟩ := List.mem_map.1 hl
    exact listing_admissible (hsides e he)

theorem isRecord_of_decode {b : Bytes} {r : Recorder} {rest : Bytes}
    (hdecode : decode ⟨b, false⟩ = .ok (r, rest)) :
    ∃ written, IsRecord b written rest ∧ r = ⟨false, written.map Listing.entry⟩ := by
  rcases record_or_fault b with ⟨written, rest', hb⟩ | ⟨cause, hfault⟩
  · rw [decode_of_isRecord hb] at hdecode
    cases hdecode
    exact ⟨written, hb, rfl⟩
  · rw [decode_of_fault hfault] at hdecode
    cases hdecode

/-- What was read can be written again. That is its canonical form: it is not longer than what was
read, it is read as the same, and it is what was read exactly if every entry there had its tiles in
ascending order and no empty ones. -/
theorem encode_of_decode {b : Bytes} {r : Recorder} {rest : Bytes}
    (hdecode : decode ⟨b, false⟩ = .ok (r, rest)) :
    ∃ used bytes written, b = used ++ rest ∧ r.encode = .ok bytes ∧ bytes.length ≤ used.length ∧
      decode ⟨bytes, false⟩ = .ok (r, []) ∧ (∀ other, IsRecord b other rest ↔ other = written) ∧
      (bytes = used ↔ ∀ l ∈ written, l.Canonical) := by
  obtain ⟨written, hb, rfl⟩ := isRecord_of_decode hdecode
  have hcount : (written.map Listing.entry).length < range32 :=
    (List.length_map Listing.entry).symm ▸ hb.count_lt
  have hsides : ∀ e ∈ written.map Listing.entry,
      sidesFit e.pixels.width e.pixels.height = true := by
    intro e he
    obtain ⟨l, hl, rfl⟩ := List.mem_map.1 he
    obtain ⟨hwidth, hheight⟩ := l.entry_size
    rw [hwidth, hheight]
    exact (hb.admissible l hl).sidesFit
  have hrecord := isRecord_recordBytes hcount hsides
  have hread : ((written.map Listing.entry).map listing).map Listing.entry
      = written.map Listing.entry := by
    rw [List.map_map]
    exact List.map_id'' listing_entry _
  have hused : IsRecord (magic ++ (Bytes.ofNat 4 written.length
      ++ written.flatMap Listing.bytes)) written [] :=
    ⟨(List.append_nil _).symm, hb.count_lt, hb.admissible⟩
  refine ⟨_, _, written, hb.bytes_eq, encode_eq_ok hcount hsides, ?_, ?_, ?_, ?_⟩
  · have hle := length_flatMap_entryBytes_le hb.admissible
    simp only [recordBytes, List.length_append, Bytes.length_ofNat]
    omega
  · rw [decode_of_isRecord hrecord, hread]
  · intro other
    constructor
    · exact fun hother => (hother.unique hb).1
    · rintro rfl
      exact hb
  · constructor
    · -- equal bytes have equal listings, and a listing that is written back is canonical
      intro heq l hl
      rw [heq] at hrecord
      have hsame := (hrecord.unique hused).1
      rw [List.map_map] at hsame
      have hback : listing l.entry = l :=
        List.map_inj_left.1 (hsame.trans (List.map_id written).symm) l hl
      exact (listing_entry_eq_iff (hb.admissible l hl)).1 hback
    · intro hcanonical
      have hsame : (written.map Listing.entry).map listing = written := by
        rw [List.map_map]
        refine (List.map_congr_left fun l hl => ?_).trans (List.map_id written)
        exact (listing_entry_eq_iff (hb.admissible l hl)).2 (hcanonical l hl)
      rw [hsame] at hrecord
      exact hrecord.bytes_eq.trans hused.bytes_eq.symm

/-- A record that lists tiles in descending order, and one of them twice, the first time without
pixels. -/
def jumbledRecord : Bytes :=
  magic ++ Bytes.ofNat 4 1 ++ Listing.headBytes false 8 24 ++ Bytes.ofNat 4 3
    ++ tileBytes (2, 9) ++ tileBytes (0, 0) ++ tileBytes (0, 7)

def jumbledRecorder : Recorder :=
  ⟨false, [⟨((PixelMask.blank 8 24).putTile 2 9).putTile 0 7, false⟩]⟩

theorem encode_of_decode_of_jumbled :
    decode ⟨jumbledRecord ++ [1], false⟩ = .ok (jumbledRecorder, [1]) ∧
      ∃ bytes, jumbledRecorder.encode = .ok bytes ∧ bytes.length ≤ jumbledRecord.length ∧
        decode ⟨bytes, false⟩ = .ok (jumbledRecorder, []) ∧ bytes ≠ jumbledRecord := by
  have hdecode : decode ⟨jumbledRecord ++ [1], false⟩ = .ok (jumbledRecorder, [1]) := by rfl
  obtain ⟨used, bytes, written, hsplit, hencode, hle, hread, hwritten, hcanonical⟩ :=
    encode_of_decode hdecode
  obtain rfl : used = jumbledRecord := (List.append_cancel_right hsplit).symm
  refine ⟨hdecode, bytes, hencode, hle, hread, ?_⟩
  have hjumbled : IsRecord (jumbledRecord ++ [1]) [⟨false, 8, 24, [(2, 9), (0, 0), (0, 7)]⟩] [1] :=
    ⟨by decide +kernel, by decide, by
      intro l hl
      obtain rfl := List.mem_singleton.1 hl
      exact ⟨by decide, by decide, by decide, by decide⟩⟩
  obtain rfl := (hwritten _).1 hjumbled
  intro heq
  have hzero := (hcanonical.1 heq _ (List.mem_singleton.2 rfl)).nonempty (0, 0) (by simp)
  exact hzero rfl

end Recorder

end RenderFold
