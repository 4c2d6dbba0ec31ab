/-
Why a call was refused.

Every refusal names its cause with the data of the case; the wording is decided in one place, by
`message`.
-/
import RenderFold.Texel

namespace RenderFold

structure ImageSize where
  width : UInt32
  height : UInt32
deriving DecidableEq, Repr

/-- The width and the height with a cross between them. -/
def ImageSize.text (s : ImageSize) : String := toString s.width ++ "x" ++ toString s.height

/-- The largest side of an image in a record. -/
def maxRecordSide : UInt32 := 32768

/-- Pixel layouts that cannot be merged. -/
inductive Unsupported where
  /-- There is no layout with that many channels. -/
  | channels (n : Nat)
  /-- The two sides have different layouts. -/
  | formats (dst src : PixelFormat)
  /-- Only one side has sample counts. -/
  | countsDisagree
  /-- A named output has no pixels of its own where pixels are merged. -/
  | noPixels (name : String)
  | because (text : String)
deriving DecidableEq, Repr

inductive LayerPart where
  | dstValues
  | srcValues
  | dstCounts
  | srcCounts
deriving DecidableEq, Repr

/-- Options and data of the caller that cannot be accepted. -/
inductive Invalid where
  /-- An array of a layer does not fit the tile grid. -/
  | length (part : LayerPart) (got want : Nat)
  /-- A buffer of a frame has another size than the frame. -/
  | bufferSize (buffer : String) (got frame : ImageSize)
  /-- A thread count of zero. -/
  | noThreads
  /-- The options are not written as they should be. -/
  | optionsText
  /-- A recorded image is too large for the record format. -/
  | recordSide (entry : Nat) (size : ImageSize)
  /-- More than 32 bits can count. -/
  | uncountable (n : Nat)
  /-- A record is written while it still grows. -/
  | recording
  /-- There is nothing to write. -/
  | emptyRecord
  | because (text : String)
deriving DecidableEq, Repr

/-- Bytes that are not a record. -/
inductive Malformed where
  | truncated
  | magic
  | coarseFlag (entry : Nat) (value : UInt8)
  | side (entry : Nat) (size : ImageSize)
  | tileCount (entry listed available : Nat)
  | tileId (entry tile : Nat)
  | because (text : String)
deriving DecidableEq, Repr

/-- Why a call was refused. -/
inductive MergeError where
  /-- The two images differ in size. -/
  | sizes (src dst : ImageSize)
  | unsupported (cause : Unsupported)
  | invalid (cause : Invalid)
  | malformed (cause : Malformed)
  /-- Reading or writing failed. -/
  | device (text : String)
  /-- Something else on which this library depends failed. -/
  | other (text : String)
deriving DecidableEq, Repr

def Unsupported.text : Unsupported → String
  | .channels n => "no merge rule for " ++ toString n ++ " channels per pixel"
  | .formats dst src => "element kind mismatch: dst " ++ dst.label ++ ", src " ++ src.label
  | .countsDisagree => "source and destination disagree on sample counts"
  | .noPixels name => "aov '" ++ name ++ "' lost its owned storage during merge"
  | .because text => text

def LayerPart.text : LayerPart → String
  | .dstValues => "dst values"
  | .srcValues => "src values"
  | .dstCounts => "dst counts"
  | .srcCounts => "src counts"

/-- Wording of an image that is too large for a record. -/
def recordSideText (entry : Nat) (size : ImageSize) : String :=
  "entry " ++ toString entry ++ ": image " ++ size.text ++ " exceeds " ++ toString maxRecordSide
    ++ " per side"

def Invalid.text : Invalid → String
  | .length part got want =>
      part.text ++ " hold " ++ toString got ++ " pixels, tile grid needs " ++ toString want
  | .bufferSize buffer got frame =>
      buffer ++ " is " ++ got.text ++ ", frame buffer is " ++ frame.text
  | .noThreads => "merge threading 'threads' must be >= 1 when set"
  | .optionsText => "invalid merge options"
  | .recordSide entry size => recordSideText entry size
  | .uncountable n => toString n ++ " does not fit in u32"
  | .recording => "cannot dump a merge record while recording"
  | .emptyRecord => "merge record is empty"
  | .because text => text

def Malformed.text : Malformed → String
  | .truncated => "truncated merge record"
  | .magic => "not a merge record (bad magic)"
  | .coarseFlag entry value =>
      "entry " ++ toString entry ++ ": coarse flag " ++ toString value ++ " is not 0 or 1"
  | .side entry size => recordSideText entry size
  | .tileCount entry listed available =>
      "entry " ++ toString entry ++ ": " ++ toString listed ++ " tiles listed, image has "
        ++ toString available
  | .tileId entry tile =>
      "entry " ++ toString entry ++ ": tile id " ++ toString tile ++ " out of range"
  | .because text => text

namespace MergeError

def message : MergeError → String
  | .sizes src dst => "dimension mismatch: src " ++ src.text ++ " vs dst " ++ dst.text
  | .unsupported cause => "unsupported element kind: " ++ cause.text
  | .invalid cause => "validation error: " ++ cause.text
  | .malformed cause => "decode error: " ++ cause.text
  | .device text => text
  | .other text => text

/-- Whether the caller may go on by leaving this update out. -/
def isRecoverable : MergeError → Bool
  | .sizes _ _ => true
  | _ => false

end MergeError

/-- The layout with a given number of channels. -/
def PixelFormat.ofChannels (n : Nat) : Except MergeError PixelFormat :=
  match PixelFormat.ofChannels? n with
  | some format => .ok format
  | none => .error (.unsupported (.channels n))

end RenderFold
