/-
Records as bytes.

A record is the magic word, the number of entries, and the entries. An entry is its flag, the two
sides of its image, the number of its non-empty tiles, and those tiles, each with its number and
its mask. All numbers are little-endian, of 4 bytes each; a flag has one byte and a mask eight.

Too large an image is found before anything is written, too many entries only after the magic word.
A reader judges each field as soon as it is complete, the two sides together. It accepts tiles in
any order, repeated ones and empty ones too; the last mask of a tile counts.
-/
import RenderFold.MergeError
import RenderFold.Recorder

namespace RenderFold

/-- Bytes, in reading order. -/
abbrev Bytes := List UInt8

namespace Bytes

/-- The low `n` bytes of a number, the lowest first. -/
def ofNat : (n value : Nat) → Bytes
  | 0, _ => []
  | n + 1, value => UInt8.ofNat value :: ofNat n (value / 256)

/-- The number with the given bytes, the lowest first. -/
def toNat : Bytes → Nat
  | [] => 0
  | b :: rest => b.toNat + 256 * toNat rest

end Bytes

namespace Recorder

/-- The first eight bytes of a record. -/
def magic : Bytes := [0x46, 0x42, 0x4d, 0x52, 0x45, 0x43, 0x30, 0x31]

/-! ### Writing -/

def tileBytes (tile : Nat × Tile) : Bytes := Bytes.ofNat 4 tile.1 ++ Bytes.ofNat 8 tile.2.toNat

def entryBytes (e : RecordEntry) : Bytes :=
  (if e.coarse then 1 else 0) :: Bytes.ofNat 4 e.pixels.width.toNat
    ++ Bytes.ofNat 4 e.pixels.height.toNat
    ++ Bytes.ofNat 4 e.pixels.activeTileCount
    ++ e.pixels.activeTiles.flatMap tileBytes

/-- The bytes of a record with the given entries. -/
def recordBytes (entries : List RecordEntry) : Bytes :=
  magic ++ Bytes.ofNat 4 entries.length ++ entries.flatMap entryBytes

/-- Whether both sides of an image fit a record. -/
def sidesFit (width height : UInt32) : Bool := width ≤ maxRecordSide && height ≤ maxRecordSide

/-- Refuse entries, counted from `index`, that are too large for a record. -/
def checkEntries : (index : Nat) → List RecordEntry → Except MergeError Unit
  | _, [] => .ok ()
  | index, e :: rest =>
      if sidesFit e.pixels.width e.pixels.height then checkEntries (index + 1) rest
      else .error (.invalid (.recordSide index ⟨e.pixels.width, e.pixels.height⟩))

def encode (r : Recorder) : Except MergeError Bytes := do
  checkEntries 0 r.entries
  if r.entries.length < range32 then return recordBytes r.entries
  else throw (.invalid (.uncountable r.entries.length))

/-- The bytes that come out when a record of acceptable images is written: entries that cannot be
counted stop after the magic word. -/
def emitted (r : Recorder) : Bytes :=
  if r.entries.length < range32 then recordBytes r.entries else magic

/-- Write a record into a limited room, which keeps what fits. Returns the answer and the bytes
kept. -/
def encodeInto (r : Recorder) (room : Nat) : Except MergeError Bytes × Bytes :=
  match checkEntries 0 r.entries with
  | .error e => (.error e, [])
  | .ok () =>
      let kept := r.emitted.take room
      if kept.length = r.emitted.length then (r.encode, kept)
      else (.error (.device "the room is full"), kept)

/-! ### Reading -/

/-- Bytes still to be read. Past the last byte a broken source fails, any other is at its end. -/
structure ByteSource where
  bytes : Bytes
  broken : Bool

/-- The refusal of a source that has not enough bytes. -/
def ByteSource.exhausted (s : ByteSource) : MergeError :=
  if s.broken then .device "the source is broken" else .malformed .truncated

/-- A reader takes bytes from the front of a source. -/
abbrev Reader := StateT ByteSource (Except MergeError)

namespace Reader

def take (n : Nat) : Reader Bytes := fun s =>
  let head := s.bytes.take n
  if head.length = n then .ok (head, { s with bytes := s.bytes.drop n })
  else .error s.exhausted

def number (n : Nat) : Reader Nat := do return Bytes.toNat (← take n)

def refuse {α : Type} (cause : Malformed) : Reader α := throw (.malformed cause)

def flag (index : Nat) : Reader Bool := do
  match ← number 1 with
  | 0 => return false
  | 1 => return true
  | v => refuse (.coarseFlag index (UInt8.ofNat v))

/-- A given number of tiles, written over a mask. -/
def tiles (index : Nat) : Nat → PixelMask → Reader PixelMask
  | 0, mask => return mask
  | n + 1, mask => do
      let tile ← number 4
      let bits ← number 8
      if tile < mask.tileCount then tiles index n (mask.putTile tile (UInt64.ofNat bits))
      else refuse (.tileId index tile)

/-- The entry with the given index. -/
def entry (index : Nat) : Reader RecordEntry := do
  let coarse ← flag index
  let width := UInt32.ofNat (← number 4)
  let height := UInt32.ofNat (← number 4)
  if sidesFit width height then
    let mask := PixelMask.blank width height
    let listed ← number 4
    if listed ≤ mask.tileCount then
      return ⟨← tiles index listed mask, coarse⟩
    else refuse (.tileCount index listed mask.tileCount)
  else refuse (.side index ⟨width, height⟩)

/-- A given number of entries, counted from `index`. -/
def entries : (n index : Nat) → Reader (List RecordEntry)
  | 0, _ => return []
  | n + 1, index => do
      let e ← entry index
      return e :: (← entries n (index + 1))

def record : Reader (List RecordEntry) := do
  if (← take 8) = magic then
    entries (← number 4) 0
  else refuse .magic

end Reader

/-- Read a record into an idle recorder. Returns the bytes after it too. -/
def decode (s : ByteSource) : Except MergeError (Recorder × Bytes) := do
  let (entries, rest) ← (Reader.record).run s
  return (⟨false, entries⟩, rest.bytes)

end Recorder

end RenderFold
