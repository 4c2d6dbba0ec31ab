import RenderFold.Layer
import RenderFold.Layer.Block
import RenderFold.Layer.Absorb
import RenderFold.Layer.Format
import RenderFold.Nearest
import RenderFold.NameTable
import RenderFold.Frame.Kind
import RenderFold.Frame.Aov
import RenderFold.Frame
import RenderFold.ChangeSet
import RenderFold.Recorder
import RenderFold.Recorder.Bytes
import RenderFold.Recorder.File
import RenderFold.Frame.Absorb
import RenderFold.Json.Token
import RenderFold.Json.Tree
import RenderFold.Json.Stored
import RenderFold.Options
import RenderFold.Accumulator
import RenderFold.Proofs.Tile
import RenderFold.Proofs.TileGrid
import RenderFold.Proofs.Cell
import RenderFold.Proofs.Layer
import RenderFold.Proofs.Layer.Absorb
import RenderFold.Proofs.Layer.Format
import RenderFold.Proofs.Layer.Outcome
import RenderFold.Proofs.NameTable
import RenderFold.Proofs.Frame
import RenderFold.Proofs.Frame.Prepare
import RenderFold.Proofs.Frame.Absorb
import RenderFold.Proofs.Frame.Merge
import RenderFold.Proofs.Layer.Latest
import RenderFold.Proofs.Frame.Fold
import RenderFold.Proofs.Frame.Replica
import RenderFold.Proofs.Frame.History
import RenderFold.Proofs.PixelMask
import RenderFold.Proofs.Recorder.Reader
import RenderFold.Proofs.Recorder.Grammar
import RenderFold.Proofs.Recorder.RoundTrip
import RenderFold.Proofs.Layer.Delta
import RenderFold.Proofs.Frame.Form
import RenderFold.Proofs.Nearest
import RenderFold.Proofs.Frame.Ground
import RenderFold.Proofs.Frame.Repeat
import RenderFold.Proofs.Frame.Collect
import RenderFold.Proofs.Frame.Schedule
import RenderFold.Proofs.Frame.Report
import RenderFold.Proofs.Layer.Pieces
import RenderFold.Proofs.Recorder.Acceptance
import RenderFold.Proofs.Recorder.Canonical
import RenderFold.Proofs.Recorder.Archive
import RenderFold.Proofs.Frame.Log
import RenderFold.Proofs.PixelMask.Region
import RenderFold.Proofs.TileGrid.Tiling
import RenderFold.Proofs.Layer.Refusal
import RenderFold.Proofs.Layer.Canvas
import RenderFold.Proofs.Frame.Reopen
import RenderFold.Proofs.Nearest.Rectangle
import RenderFold.Proofs.TileGrid.Widths
import RenderFold.Proofs.ChangeSet
import RenderFold.Proofs.SharedTable
import RenderFold.Proofs.Json.Token
import RenderFold.Proofs.Json.Tree
import RenderFold.Proofs.Options
import RenderFold.Proofs.PixelMask.Visit
