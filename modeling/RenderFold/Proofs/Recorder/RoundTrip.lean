/-
Records are read back as they were written.

An entry is written as a `listing` of its tiles that are not empty, which the grammar of records
admits, so that `reads_record` recognises what is written. `decode_encode` adds that every recorder
whose images fit a record can be written, and how long the record is.
-/
import RenderFold.Proofs.Recorder.Grammar

namespace RenderFold

namespace Recorder

/-! ### Lengths -/

theorem length_tileBytes (tile : Nat × Tile) : (tileBytes tile).length = 12 := by
  rw [tileBytes, List.length_append, Bytes.length_ofNat, Bytes.length_ofNat]

theorem length_flatMap_tileBytes (tiles : List (Nat × Tile)) :
    (tiles.flatMap tileBytes).length = 12 * tiles.length := by
  induction tiles with
  | nil => rfl
  | cons e rest ih =>
      rw [List.flatMap_cons, List.length_append, ih, length_tileBytes, List.length_cons]
      omega

theorem entryBytes_eq (e : RecordEntry) :
    entryBytes e
      = [if e.coarse then 1 else 0] ++ (Bytes.ofNat 4 e.pixels.width.toNat
        ++ (Bytes.ofNat 4 e.pixels.height.toNat ++ (Bytes.ofNat 4 e.pixels.activeTileCount
          ++ e.pixels.activeTiles.flatMap tileBytes))) := by
  simp only [entryBytes, List.cons_append, List.nil_append, List.append_assoc]

theorem length_entryBytes (e : RecordEntry) :
    (entryBytes e).length = 13 + 12 * e.pixels.activeTileCount := by
  rw [entryBytes_eq]
  simp only [List.length_append, Bytes.length_ofNat, length_flatMap_tileBytes,
    List.length_singleton, PixelMask.activeTileCount]
  omega

theorem length_recordBytes (entries : List RecordEntry) :
    (recordBytes entries).length
      = 12 + entries.foldr (fun e n => 13 + 12 * e.pixels.activeTileCount + n) 0 := by
  have hentries : (entries.flatMap entryBytes).length
      = entries.foldr (fun e n => 13 + 12 * e.pixels.activeTileCount + n) 0 := by
    induction entries with
    | nil => rfl
    | cons e rest ih =>
        rw [List.flatMap_cons, List.length_append, ih, length_entryBytes, List.foldr_cons]
  rw [recordBytes, List.length_append, List.length_append, Bytes.length_ofNat, hentries]
  rfl

/-! ### Entries as they are written -/

/-- An entry is written as its tiles that are not empty, in ascending order. -/
def listing (e : RecordEntry) : Listing :=
  ⟨e.coarse, e.pixels.width, e.pixels.height, e.pixels.activeTiles⟩

theorem listing_bytes (e : RecordEntry) : (listing e).bytes = entryBytes e := by
  rw [entryBytes_eq, Listing.bytes, Listing.headBytes, List.append_assoc, List.append_assoc]
  rfl

theorem listing_entry (e : RecordEntry) : (listing e).entry = e :=
  congrArg (RecordEntry.mk · e.coarse) e.pixels.putTiles_activeTiles

theorem listing_admissible {e : RecordEntry}
    (hsides : sidesFit e.pixels.width e.pixels.height = true) : (listing e).Admissible where
  width_le := (sidesFit_iff.1 hsides).1
  height_le := (sidesFit_iff.1 hsides).2
  length_le := Nat.le_trans e.pixels.activeTileCount_le (Nat.le_of_eq e.pixels.size_tiles)
  tile_lt _ hd := Nat.lt_of_lt_of_eq (PixelMask.mem_activeTiles hd) e.pixels.size_tiles

theorem Reader.reads_record {written : List RecordEntry} (hcount : written.length < range32)
    (hsides : ∀ e ∈ written, sidesFit e.pixels.width e.pixels.height = true) :
    Reads record (recordBytes written) written := by
  have hlength : (written.map listing).length < range32 := by rwa [List.length_map]
  have hadmissible : ∀ l ∈ written.map listing, l.Admissible := by
    intro l hl
    obtain ⟨e, he, rfl⟩ := List.mem_map.1 hl
    exact listing_admissible (hsides e he)
  have hlisted := reads_listed_record hlength hadmissible
  have hbytes : (written.map listing).flatMap Listing.bytes = written.flatMap entryBytes := by
    rw [List.flatMap_map, funext listing_bytes]
  have hentries : (written.map listing).map Listing.entry = written := by
    rw [List.map_map]
    exact List.map_id'' listing_entry written
  rwa [List.length_map, hbytes, hentries, ← List.append_assoc] at hlisted

/-! ### Whole records -/

theorem checkEntries_eq_ok (index : Nat) {todo : List RecordEntry}
    (hsides : ∀ e ∈ todo, sidesFit e.pixels.width e.pixels.height = true) :
    checkEntries index todo = .ok () := by
  induction todo generalizing index with
  | nil => rfl
  | cons e rest ih =>
      rw [checkEntries, if_pos (hsides e List.mem_cons_self)]
      exact ih (index + 1) fun d hd => hsides d (List.mem_cons_of_mem e hd)

theorem encode_eq_ok {r : Recorder} (hcount : r.entries.length < range32)
    (hsides : ∀ e ∈ r.entries, sidesFit e.pixels.width e.pixels.height = true) :
    r.encode = .ok (recordBytes r.entries) := by
  rw [encode, checkEntries_eq_ok 0 hsides]
  exact if_pos hcount

/-- Reading undoes writing, and a record ends itself. A recorder that has fewer than 2 ^ 32 entries,
with sides of at most 2 ^ 15, is written in 12 bytes, 13 for each entry and 12 for each tile that is
not empty. Whatever follows the record, it is read back into an idle recorder with the same entries,
and what follows stays unread. A record that was cut off is refused as such. -/
theorem decode_encode {r : Recorder} (hcount : r.entries.length < 0x100000000)
    (hsides : ∀ e ∈ r.entries, e.pixels.width ≤ 32768 ∧ e.pixels.height ≤ 32768) :
    ∃ bytes, r.encode = .ok bytes ∧
      bytes.length = 12 + r.entries.foldr (fun e n => 13 + 12 * e.pixels.activeTileCount + n) 0 ∧
      (∀ rest broken, decode ⟨bytes ++ rest, broken⟩ = .ok (⟨false, r.entries⟩, rest)) ∧
      ∀ front, front <+: bytes → front ≠ bytes →
        decode ⟨front, false⟩ = .error (.malformed .truncated) := by
  have hfit : ∀ e ∈ r.entries, sidesFit e.pixels.width e.pixels.height = true := by
    intro e he
    rw [sidesFit, Bool.and_eq_true, decide_eq_true_eq, decide_eq_true_eq]
    exact hsides e he
  have hreads := Reader.reads_record hcount hfit
  refine ⟨_, encode_eq_ok hcount hfit, length_recordBytes r.entries, ?_, ?_⟩
  · intro rest broken
    rw [decode, hreads.run_append]
    rfl
  · intro front hfront hne
    have htake := List.prefix_iff_eq_take.1 hfront
    have hshort : front.length < (recordBytes r.entries).length :=
      Nat.lt_of_le_of_ne hfront.length_le fun heq => hne (hfront.eq_of_length heq)
    rw [decode, htake, hreads.run_take front.length false hshort]
    rfl

/-- A recorder with two entries: an edge tile with padding bits, and an image without pixels. -/
def edgeRecorder : Recorder where
  active := true
  entries := [⟨(PixelMask.blank 20 10).putTile 5 0xdeadbeef, true⟩, ⟨.blank 0 3, false⟩]

theorem decode_encode_of_edges :
    ∃ bytes, edgeRecorder.encode = .ok bytes ∧ bytes.length = 50 ∧
      decode ⟨bytes ++ [7], false⟩ = .ok (⟨false, edgeRecorder.entries⟩, [7]) ∧
      decode ⟨bytes.take 49, false⟩ = .error (.malformed .truncated) := by
  obtain ⟨bytes, hbytes, hlength, hread, hcut⟩ :=
    decode_encode (r := edgeRecorder) (by decide) (by decide)
  have hfifty : bytes.length = 50 := hlength.trans (by decide +kernel)
  have hne : bytes.take 49 ≠ bytes := by
    intro heq
    have hlen := congrArg List.length heq
    rw [List.length_take, hfifty] at hlen
    omega
  exact ⟨bytes, hbytes, hfifty, hread [7] false, hcut _ (List.take_prefix 49 bytes) hne⟩

end Recorder

end RenderFold
