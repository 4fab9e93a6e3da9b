import NovelChart.Text.Case
import NovelChart.Text.Blank
import NovelChart.Text.Quoted
import NovelChart.Encoding.Basic
import NovelChart.Decimal.Shortest
import NovelChart.Digest
import NovelChart.Value.Codec
import NovelChart.Shuffle.Basic
import NovelChart.Markup.Block
import NovelChart.Script.Compile
import NovelChart.Script.Print
import NovelChart.Command.Basic
import NovelChart.Command.Field
import NovelChart.Command.Codec
import NovelChart.Chart.Basic
import NovelChart.Chart.Codec
import NovelChart.Text.Lines
import NovelChart.Segment.Basic
import NovelChart.Segment.Id
import NovelChart.Chart.Text
import NovelChart.Notice
import NovelChart.Failure
import NovelChart.Document.Basic
import NovelChart.Sheet
import NovelChart.Listing
import NovelChart.Validation
import NovelChart.Tool.Path
import NovelChart.Tool.FileTree
import NovelChart.Tool.Formats
import NovelChart.Tool.Reference
import NovelChart.Decimal.Nearest
import NovelChart.Document.Flow
import NovelChart.Document.Lines
import NovelChart.Tool.World
import NovelChart.Tool.Settings
import NovelChart.Tool.Store
import NovelChart.Tool.Scripts
import NovelChart.Tool.Request
import NovelChart.Tool.Usage
import NovelChart.Tool.Arguments
import NovelChart.Tool.Run
import NovelChart.Main
import NovelChart.Proofs.Encoding
import NovelChart.Proofs.Value
import NovelChart.Proofs.Numeral
import NovelChart.Proofs.Shuffle
import NovelChart.Proofs.Tag
import NovelChart.Proofs.Chart
import NovelChart.Proofs.Recompile
import NovelChart.Proofs.Anchor
import NovelChart.Proofs.Certification
import NovelChart.Proofs.LookAlike
import NovelChart.Proofs.ReadBack
import NovelChart.Proofs.Path
import NovelChart.Proofs.Address
import NovelChart.Proofs.World
import NovelChart.Proofs.Frame
import NovelChart.Proofs.Insertion
import NovelChart.Proofs.ScriptFiles
import NovelChart.Proofs.Segment
import NovelChart.Proofs.Filling
import NovelChart.Proofs.Rewording
import NovelChart.Proofs.Menu
import NovelChart.Proofs.Sheet
import NovelChart.Proofs.Raised
import NovelChart.Proofs.Conformance
import NovelChart.Proofs.Writable
import NovelChart.Proofs.Compiled
import NovelChart.Proofs.Replacement
import NovelChart.Proofs.Saving
import NovelChart.Proofs.Unnamed
import NovelChart.Proofs.Substitution
import NovelChart.Proofs.Interrupted
import NovelChart.Proofs.NormalForm
import NovelChart.Proofs.Located
import NovelChart.Proofs.Truncation
import NovelChart.Proofs.InPlace
import NovelChart.Proofs.Spared
import NovelChart.Proofs.Comments
import NovelChart.Proofs.Translation
import NovelChart.Proofs.Extraction
import NovelChart.Proofs.Tiling
import NovelChart.Proofs.Access
import NovelChart.Proofs.Enumeration
import NovelChart.Proofs.LineEnds
import NovelChart.Proofs.LastChunk
import NovelChart.Proofs.Backups
import NovelChart.Proofs.OneTag
