/-
Which bytes are read as a record, and why the others are refused.

`RecordFault` lists the ways in which bytes fail to begin with a record. In all of them what comes
before the fault is as the grammar wants it, so that there is no earlier one. Bytes without a fault
begin with a record (`record_or_fault`): by induction on the numbers of pairs and of entries that
are still to come. Each reader refuses for the faults of its field (`Refuses`). Since the grammar is
read without a look at what follows, both together say what `decode` makes of any bytes.
-/
import Mathlib.Data.List.Forall2
import RenderFold.Proofs.Recorder.Grammar

namespace RenderFold

namespace Bytes

theorem toNat_lt (b : Bytes) : b.toNat < 256 ^ b.length := by
  induction b with
  | nil => decide
  | cons v rest ih =>
      have hv := v.toNat_lt
      rw [toNat, List.length_cons, Nat.pow_succ]
      omega

theorem ofNat_toNat (b : Bytes) : ofNat b.length b.toNat = b := by
  induction b with
  | nil => rfl
  | cons v rest ih =>
      have hv := v.toNat_lt
      have hlow : UInt8.ofNat (v.toNat + 256 * toNat rest) = v := by
        apply UInt8.toNat_inj.1
        rw [UInt8.toNat_ofNat']
        omega
      have hhigh : (v.toNat + 256 * toNat rest) / 256 = toNat rest := by omega
      rw [List.length_cons, toNat, ofNat, hlow, hhigh, ih]

/-- Bytes that are enough for a number begin with one. -/
theorem exists_number {n : Nat} {b : Bytes} (hb : n ≤ b.length) :
    ∃ value rest, value < 256 ^ n ∧ b = ofNat n value ++ rest := by
  have hlength : (b.take n).length = n := List.length_take_of_le hb
  have hlt := toNat_lt (b.take n)
  have hfront := ofNat_toNat (b.take n)
  rw [hlength] at hlt hfront
  refine ⟨toNat (b.take n), b.drop n, hlt, ?_⟩
  rw [hfront, List.take_append_drop]

theorem exists_word32 {b : Bytes} (hb : 4 ≤ b.length) :
    ∃ (w : UInt32) (rest : Bytes), b = ofNat 4 w.toNat ++ rest := by
  obtain ⟨value, rest, hlt, rfl⟩ := exists_number hb
  have hvalue : (UInt32.ofNat value).toNat = value := UInt32.toNat_ofNat_of_lt' hlt
  exact ⟨UInt32.ofNat value, rest, by rw [hvalue]⟩

theorem exists_word64 {b : Bytes} (hb : 8 ≤ b.length) :
    ∃ (w : UInt64) (rest : Bytes), b = ofNat 8 w.toNat ++ rest := by
  obtain ⟨value, rest, hlt, rfl⟩ := exists_number hb
  have hvalue : (UInt64.ofNat value).toNat = value := UInt64.toNat_ofNat_of_lt' hlt
  exact ⟨UInt64.ofNat value, rest, by rw [hvalue]⟩

end Bytes

namespace Recorder

/-! ### Faults -/

/-- Why the next `n` pairs of an entry with `limit` tiles cannot be read. A pair is judged after
both its numbers have been read. -/
inductive TilesFault (index limit : Nat) : (n : Nat) → Bytes → Malformed → Prop where
  | cut {n : Nat} {short : Bytes} (hshort : short.length < 12) :
      TilesFault index limit (n + 1) short .truncated
  | tile {n : Nat} {e : Nat × Tile} {rest : Bytes} (hsmall : e.1 < 256 ^ 4) (he : limit ≤ e.1) :
      TilesFault index limit (n + 1) (tileBytes e ++ rest) (.tileId index e.1)
  | later {n : Nat} {e : Nat × Tile} {b : Bytes} {cause : Malformed} (he : e.1 < limit)
      (hfault : TilesFault index limit n b cause) :
      TilesFault index limit (n + 1) (tileBytes e ++ b) cause

/-- Why the entry with the given index cannot be read. The sides are judged after both have been
read. -/
inductive EntryFault (index : Nat) : Bytes → Malformed → Prop where
  | flagCut : EntryFault index [] .truncated
  | flag {v : UInt8} {rest : Bytes} (hv : v ≠ 0 ∧ v ≠ 1) :
      EntryFault index (v :: rest) (.coarseFlag index v)
  | sidesCut {coarse : Bool} {short : Bytes} (hshort : short.length < 8) :
      EntryFault index ([if coarse then 1 else 0] ++ short) .truncated
  | sides {coarse : Bool} {width height : UInt32} {rest : Bytes}
      (hsides : ¬(width ≤ 32768 ∧ height ≤ 32768)) :
      EntryFault index (Listing.headBytes coarse width height ++ rest) (.side index ⟨width, height⟩)
  | countCut {coarse : Bool} {width height : UInt32} {short : Bytes}
      (hsides : width ≤ 32768 ∧ height ≤ 32768) (hshort : short.length < 4) :
      EntryFault index (Listing.headBytes coarse width height ++ short) .truncated
  | count {coarse : Bool} {width height : UInt32} {n : Nat} {rest : Bytes}
      (hsides : width ≤ 32768 ∧ height ≤ 32768) (hsmall : n < 256 ^ 4)
      (hn : (TileGrid.ofSize width height).tileCount < n) :
      EntryFault index (Listing.headBytes coarse width height ++ (Bytes.ofNat 4 n ++ rest))
        (.tileCount index n (TileGrid.ofSize width height).tileCount)
  | tiles {coarse : Bool} {width height : UInt32} {n : Nat} {b : Bytes} {cause : Malformed}
      (hsides : width ≤ 32768 ∧ height ≤ 32768)
      (hn : n ≤ (TileGrid.ofSize width height).tileCount)
      (hfault : TilesFault index (TileGrid.ofSize width height).tileCount n b cause) :
      EntryFault index (Listing.headBytes coarse width height ++ (Bytes.ofNat 4 n ++ b)) cause

/-- Why the next `n` entries, counted from `index`, cannot be read. -/
inductive EntriesFault : (n index : Nat) → Bytes → Malformed → Prop where
  | here {n index : Nat} {b : Bytes} {cause : Malformed} (hfault : EntryFault index b cause) :
      EntriesFault (n + 1) index b cause
  | later {n index : Nat} {l : Listing} {b : Bytes} {cause : Malformed} (hl : l.Admissible)
      (hfault : EntriesFault n (index + 1) b cause) :
      EntriesFault (n + 1) index (l.bytes ++ b) cause

/-- Why bytes cannot be read as a record. The magic word is judged after all of it has been read. -/
inductive RecordFault : Bytes → Malformed → Prop where
  | magicCut {short : Bytes} (hshort : short.length < 8) : RecordFault short .truncated
  | magic {front rest : Bytes} (hlength : front.length = 8) (hfront : front ≠ magic) :
      RecordFault (front ++ rest) .magic
  | countCut {short : Bytes} (hshort : short.length < 4) :
      RecordFault (Recorder.magic ++ short) .truncated
  | entries {n : Nat} {b : Bytes} {cause : Malformed} (hsmall : n < 0x100000000)
      (hfault : EntriesFault n 0 b cause) :
      RecordFault (Recorder.magic ++ (Bytes.ofNat 4 n ++ b)) cause

/-- The bytes before `rest` are a record with the given entries. -/
structure IsRecord (b : Bytes) (written : List Listing) (rest : Bytes) : Prop where
  bytes_eq : b = magic ++ (Bytes.ofNat 4 written.length ++ written.flatMap Listing.bytes) ++ rest
  count_lt : written.length < 0x100000000
  admissible : ∀ l ∈ written, l.Admissible

/-! ### Bytes have a fault or follow the grammar -/

theorem tiles_or_fault (index limit n : Nat) (b : Bytes) :
    (∃ (tiles : List (Nat × Tile)) (rest : Bytes), tiles.length = n ∧ (∀ e ∈ tiles, e.1 < limit) ∧
        b = tiles.flatMap tileBytes ++ rest) ∨
      ∃ cause, TilesFault index limit n b cause := by
  induction n generalizing b with
  | zero => exact .inl ⟨[], b, rfl, nofun, rfl⟩
  | succ n ih =>
      by_cases hshort : b.length < 12
      · exact .inr ⟨_, .cut hshort⟩
      obtain ⟨tile, b, rfl⟩ := Bytes.exists_word32 (b := b) (by omega)
      rw [List.length_append, Bytes.length_ofNat] at hshort
      obtain ⟨bits, rest, rfl⟩ := Bytes.exists_word64 (b := b) (by omega)
      have hpair : Bytes.ofNat 4 tile.toNat ++ (Bytes.ofNat 8 bits.toNat ++ rest)
          = tileBytes (tile.toNat, bits) ++ rest := by
        rw [tileBytes, List.append_assoc]
      rw [hpair]
      by_cases hlimit : tile.toNat < limit
      · rcases ih rest with ⟨tiles, rest, hlength, htiles, rfl⟩ | ⟨cause, hfault⟩
        · refine .inl ⟨(tile.toNat, bits) :: tiles, rest, congrArg (· + 1) hlength,
            List.forall_mem_cons.2 ⟨hlimit, htiles⟩, ?_⟩
          rw [List.flatMap_cons, List.append_assoc]
        · exact .inr ⟨cause, .later hlimit hfault⟩
      · exact .inr ⟨_, .tile tile.toNat_lt (Nat.not_lt.1 hlimit)⟩

theorem listing_or_fault (index : Nat) (b : Bytes) :
    (∃ (l : Listing) (rest : Bytes), l.Admissible ∧ b = l.bytes ++ rest) ∨
      ∃ cause, EntryFault index b cause := by
  cases b with
  | nil => exact .inr ⟨_, .flagCut⟩
  | cons v b =>
      by_cases hv : v ≠ 0 ∧ v ≠ 1
      · exact .inr ⟨_, .flag hv⟩
      obtain ⟨coarse, rfl⟩ : ∃ coarse : Bool, v = if coarse then 1 else 0 := by
        by_cases hzero : v = 0
        · exact ⟨false, hzero⟩
        · exact ⟨true, by_contra fun hone => hv ⟨hzero, hone⟩⟩
      by_cases hshort : b.length < 8
      · exact .inr ⟨_, .sidesCut hshort⟩
      obtain ⟨width, b, rfl⟩ := Bytes.exists_word32 (b := b) (by omega)
      rw [List.length_append, Bytes.length_ofNat] at hshort
      obtain ⟨height, b, rfl⟩ := Bytes.exists_word32 (b := b) (by omega)
      have hhead : (if coarse then 1 else 0)
            :: (Bytes.ofNat 4 width.toNat ++ (Bytes.ofNat 4 height.toNat ++ b))
          = Listing.headBytes coarse width height ++ b := by
        rw [Listing.headBytes, List.append_assoc, List.append_assoc]
        rfl
      rw [hhead]
      by_cases hsides : width ≤ 32768 ∧ height ≤ 32768
      · by_cases hcut : b.length < 4
        · exact .inr ⟨_, .countCut hsides hcut⟩
        obtain ⟨n, b, rfl⟩ := Bytes.exists_word32 (b := b) (Nat.not_lt.1 hcut)
        by_cases hn : n.toNat ≤ (TileGrid.ofSize width height).tileCount
        · rcases tiles_or_fault index (TileGrid.ofSize width height).tileCount n.toNat b with
            ⟨tiles, rest, hlength, htiles, rfl⟩ | ⟨cause, hfault⟩
          · refine .inl ⟨⟨coarse, width, height, tiles⟩, rest,
              ⟨hsides.1, hsides.2, Nat.le_trans (Nat.le_of_eq hlength) hn, htiles⟩, ?_⟩
            simp only [Listing.bytes, hlength, List.append_assoc]
          · exact .inr ⟨cause, .tiles hsides hn hfault⟩
        · exact .inr ⟨_, .count hsides n.toNat_lt (Nat.not_le.1 hn)⟩
      · exact .inr ⟨_, .sides hsides⟩

theorem listings_or_fault (n index : Nat) (b : Bytes) :
    (∃ (written : List Listing) (rest : Bytes), written.length = n ∧ (∀ l ∈ written, l.Admissible) ∧
        b = written.flatMap Listing.bytes ++ rest) ∨
      ∃ cause, EntriesFault n index b cause := by
  induction n generalizing index b with
  | zero => exact .inl ⟨[], b, rfl, nofun, rfl⟩
  | succ n ih =>
      rcases listing_or_fault index b with ⟨l, b, hl, rfl⟩ | ⟨cause, hfault⟩
      · rcases ih (index + 1) b with ⟨written, rest, hlength, hwritten, rfl⟩ | ⟨cause, hfault⟩
        · refine .inl ⟨l :: written, rest, congrArg (· + 1) hlength,
            List.forall_mem_cons.2 ⟨hl, hwritten⟩, ?_⟩
          rw [List.flatMap_cons, List.append_assoc]
        · exact .inr ⟨cause, .later hl hfault⟩
      · exact .inr ⟨cause, .here hfault⟩

/-- Bytes begin with a record, or have a fault. -/
theorem record_or_fault (b : Bytes) :
    (∃ written rest, IsRecord b written rest) ∨ ∃ cause, RecordFault b cause := by
  by_cases hshort : b.length < 8
  · exact .inr ⟨_, .magicCut hshort⟩
  have hlength : (b.take 8).length = 8 := List.length_take_of_le (Nat.not_lt.1 hshort)
  rw [← List.take_append_drop 8 b]
  by_cases hmagic : b.take 8 = magic
  · rw [hmagic]
    by_cases hcut : (b.drop 8).length < 4
    · exact .inr ⟨_, .countCut hcut⟩
    obtain ⟨n, b', hb'⟩ := Bytes.exists_word32 (Nat.not_lt.1 hcut)
    rw [hb']
    rcases listings_or_fault n.toNat 0 b' with ⟨written, rest, hn, hwritten, rfl⟩ | ⟨cause, hfault⟩
    · refine .inl ⟨written, rest, ?_, hn ▸ n.toNat_lt, hwritten⟩
      simp only [hn, List.append_assoc]
    · exact .inr ⟨cause, .entries n.toNat_lt hfault⟩
  · exact .inr ⟨_, .magic hlength hmagic⟩

/-! ### Refusals -/

namespace Reader

variable {α β : Type}

def Refuses (r : Reader α) (b : Bytes) (cause : Malformed) : Prop :=
  r.run ⟨b, false⟩ = .error (.malformed cause)

theorem Refuses.bind {r : Reader α} {b : Bytes} {cause : Malformed} (hr : Refuses r b cause)
    (f : α → Reader β) : Refuses (r >>= f) b cause := by
  rw [Refuses, StateT.run_bind, hr]
  rfl

theorem Reads.bind_refuses {r : Reader α} {f : α → Reader β} {front b : Bytes} {a : α}
    {cause : Malformed} (hr : Reads r front a) (hf : Refuses (f a) b cause) :
    Refuses (r >>= f) (front ++ b) cause := by
  rw [Refuses, StateT.run_bind, hr.run_append]
  exact hf

theorem refuses_refuse (cause : Malformed) (b : Bytes) :
    Refuses (refuse cause : Reader α) b cause := rfl

theorem refuses_take {n : Nat} {b : Bytes} (hb : b.length < n) : Refuses (take n) b .truncated := by
  have hshort : (b.take n).length ≠ n := by
    rw [List.length_take]
    omega
  simp only [Refuses, StateT.run, take, if_neg hshort]
  rfl

theorem refuses_number {n : Nat} {b : Bytes} (hb : b.length < n) :
    Refuses (number n) b .truncated := (refuses_take hb).bind _

/-- Two numbers are cut short in the first or in the second. -/
theorem refuses_numbers {m n : Nat} {b : Bytes} (hb : b.length < m + n)
    (f : Nat → Nat → Reader β) :
    Refuses (do f (← number m) (← number n)) b .truncated := by
  by_cases hfirst : b.length < m
  · exact (refuses_number hfirst).bind _
  · obtain ⟨value, rest, hvalue, rfl⟩ := Bytes.exists_number (Nat.not_lt.1 hfirst)
    rw [List.length_append, Bytes.length_ofNat] at hb
    refine (reads_number hvalue).bind_refuses ?_
    exact (refuses_number (by omega)).bind _

theorem refuses_flag {index : Nat} {v : UInt8} (hv : v ≠ 0 ∧ v ≠ 1) (rest : Bytes) :
    Refuses (flag index) (v :: rest) (.coarseFlag index v) := by
  have hreads : Reads (number 1) [v] v.toNat := by
    have hnumber : Reads (number 1) (Bytes.ofNat 1 v.toNat) v.toNat := reads_number v.toNat_lt
    rwa [Bytes.ofNat, Bytes.ofNat, UInt8.ofNat_toNat] at hnumber
  refine hreads.bind_refuses (b := rest) ?_
  split
  · rename_i hzero
    exact absurd (UInt8.toNat_inj.1 hzero) hv.1
  · rename_i hone
    exact absurd (UInt8.toNat_inj.1 hone) hv.2
  · rw [UInt8.ofNat_toNat]
    exact refuses_refuse _ rest

theorem refuses_tiles {index limit n : Nat} {b : Bytes} {cause : Malformed}
    (hfault : TilesFault index limit n b cause) {mask : PixelMask} (hmask : mask.tileCount = limit)
    (hsmall : limit ≤ 256 ^ 4) : Refuses (tiles index n mask) b cause := by
  induction hfault generalizing mask with
  | cut hshort => exact refuses_numbers (m := 4) (n := 8) hshort _
  | @tile n e rest htile he =>
      have hbits : e.2.toNat < 256 ^ 8 := e.2.toNat_lt
      rw [tileBytes, List.append_assoc]
      refine (reads_number htile).bind_refuses ?_
      refine (reads_number hbits).bind_refuses ?_
      rw [if_neg (hmask ▸ Nat.not_lt.2 he)]
      exact refuses_refuse _ rest
  | @later n e b cause he hfault ih =>
      have hbits : e.2.toNat < 256 ^ 8 := e.2.toNat_lt
      rw [tileBytes, List.append_assoc]
      refine (reads_number (Nat.lt_of_lt_of_le he hsmall)).bind_refuses ?_
      refine (reads_number hbits).bind_refuses ?_
      rw [if_pos (hmask ▸ he), UInt64.ofNat_toNat]
      exact ih ((mask.tileCount_putTile e.1 e.2).trans hmask)

theorem refuses_of_body {index : Nat} {coarse : Bool} {width height : UInt32} {b : Bytes}
    {cause : Malformed} (hsides : width ≤ 32768 ∧ height ≤ 32768)
    (hbody : Refuses (body index coarse width height) b cause) :
    Refuses (entry index) (Listing.headBytes coarse width height ++ b) cause := by
  rw [entry_eq]
  refine (reads_head index coarse width height).bind_refuses ?_
  rw [if_pos (sidesFit_iff.2 hsides)]
  exact hbody

theorem refuses_entry {index : Nat} {b : Bytes} {cause : Malformed}
    (hfault : EntryFault index b cause) : Refuses (entry index) b cause := by
  cases hfault with
  | flagCut => exact ((refuses_number (by decide)).bind _).bind _
  | flag hv => exact (refuses_flag hv _).bind _
  | @sidesCut coarse short hshort =>
      refine (reads_flag index coarse).bind_refuses ?_
      exact refuses_numbers (m := 4) (n := 4) hshort _
  | @sides coarse width height rest hsides =>
      rw [entry_eq]
      refine (reads_head index coarse width height).bind_refuses ?_
      rw [if_neg (mt sidesFit_iff.1 hsides)]
      exact refuses_refuse _ rest
  | countCut hsides hshort => exact refuses_of_body hsides ((refuses_number hshort).bind _)
  | @count coarse width height n rest hsides hsmall hn =>
      refine refuses_of_body hsides ((reads_number hsmall).bind_refuses ?_)
      rw [PixelMask.tileCount_blank, if_neg (Nat.not_le.2 hn)]
      exact refuses_refuse _ rest
  | @tiles coarse width height n b cause hsides hn hfault =>
      have hsmall := tileCount_lt_of_sidesFit (sidesFit_iff.2 hsides)
      refine refuses_of_body hsides ((reads_number (Nat.lt_of_le_of_lt hn hsmall)).bind_refuses ?_)
      rw [PixelMask.tileCount_blank, if_pos hn]
      exact (refuses_tiles hfault (PixelMask.tileCount_blank width height)
        (Nat.le_of_lt hsmall)).bind _

theorem refuses_entries {n index : Nat} {b : Bytes} {cause : Malformed}
    (hfault : EntriesFault n index b cause) : Refuses (entries n index) b cause := by
  induction hfault with
  | here hfault => exact (refuses_entry hfault).bind _
  | later hl _ ih => exact (reads_listing _ hl).bind_refuses (ih.bind _)

theorem refuses_record {b : Bytes} {cause : Malformed} (hfault : RecordFault b cause) :
    Refuses record b cause := by
  cases hfault with
  | magicCut hshort => exact (refuses_take hshort).bind _
  | @magic front rest hlength hfront =>
      have htake : Reads (take 8) front front := hlength ▸ reads_take front
      refine htake.bind_refuses ?_
      rw [if_neg hfront]
      exact refuses_refuse _ rest
  | countCut hshort =>
      refine (reads_take magic).bind_refuses ?_
      rw [if_pos rfl]
      exact (refuses_number hshort).bind _
  | entries hsmall hfault =>
      refine (reads_take magic).bind_refuses ?_
      rw [if_pos rfl]
      exact (reads_number hsmall).bind_refuses (refuses_entries hfault)

end Reader

/-! ### Whole records -/

theorem decode_of_fault {b : Bytes} {cause : Malformed} (hfault : RecordFault b cause) :
    decode ⟨b, false⟩ = .error (.malformed cause) := by
  have hrun : Reader.record.run ⟨b, false⟩ = .error (.malformed cause) :=
    Reader.refuses_record hfault
  rw [decode, hrun]
  rfl

theorem decode_of_isRecord {b : Bytes} {written : List Listing} {rest : Bytes}
    (hb : IsRecord b written rest) :
    decode ⟨b, false⟩ = .ok (⟨false, written.map Listing.entry⟩, rest) := by
  have hreads := Reader.reads_listed_record hb.count_lt hb.admissible
  rw [decode, hb.bytes_eq, hreads.run_append]
  rfl

theorem forall₂_denotes_iff {written : List Listing} (hwritten : ∀ l ∈ written, l.Admissible)
    {es : List RecordEntry} :
    List.Forall₂ Listing.Denotes written es ↔ es = written.map Listing.entry := by
  induction written generalizing es with
  | nil => exact List.forall₂_nil_left_iff
  | cons l rest ih =>
      cases es with
      | nil => simp
      | cons e es =>
          rw [List.forall₂_cons, (hwritten l List.mem_cons_self).denotes_iff,
            ih fun d hd => hwritten d (List.mem_cons_of_mem l hd), List.map_cons, List.cons.injEq]

/-- The bytes that are read as a record are the ones that begin with one, as far as it goes; each
tile then has the mask of the last pair that lists it. All other bytes are refused for their first
fault. -/
theorem decode_iff (b : Bytes) :
    (∀ r rest, decode ⟨b, false⟩ = .ok (r, rest) ↔
        ∃ written, IsRecord b written rest ∧ r.active = false ∧
          List.Forall₂ Listing.Denotes written r.entries) ∧
      ∀ e, decode ⟨b, false⟩ = .error e ↔ ∃ cause, RecordFault b cause ∧ e = .malformed cause := by
  constructor
  · intro r rest
    constructor
    · intro hok
      rcases record_or_fault b with ⟨written, rest', hb⟩ | ⟨cause, hfault⟩
      · rw [decode_of_isRecord hb, Except.ok.injEq, Prod.mk.injEq] at hok
        obtain ⟨rfl, rfl⟩ := hok
        exact ⟨written, hb, rfl, (forall₂_denotes_iff hb.admissible).2 rfl⟩
      · rw [decode_of_fault hfault] at hok
        cases hok
    · rintro ⟨written, hb, hactive, hentries⟩
      obtain ⟨active, entries⟩ := r
      obtain rfl : active = false := hactive
      obtain rfl : entries = _ := (forall₂_denotes_iff hb.admissible).1 hentries
      exact decode_of_isRecord hb
  · intro e
    constructor
    · intro herror
      rcases record_or_fault b with ⟨written, rest, hb⟩ | ⟨cause, hfault⟩
      · rw [decode_of_isRecord hb] at herror
        cases herror
      · rw [decode_of_fault hfault, Except.error.injEq] at herror
        exact ⟨cause, hfault, herror.symm⟩
    · rintro ⟨cause, hfault, rfl⟩
      exact decode_of_fault hfault

/-- Of two masks for one tile the second one counts, and what follows the pairs stays unread. -/
example :
    decode ⟨magic ++ Bytes.ofNat 4 1 ++ Listing.headBytes false 8 16 ++ Bytes.ofNat 4 2
        ++ tileBytes (1, 5) ++ tileBytes (1, 6) ++ [9], false⟩
      = .ok (⟨false, [⟨(PixelMask.blank 8 16).putTile 1 6, false⟩]⟩, [9]) := by
  rfl

end Recorder

end RenderFold
