import TensorFiles.Alignment
import TensorFiles.Bytes.Blocks
import TensorFiles.Bytes.LittleEndian
import TensorFiles.Bytes.Utf8
import TensorFiles.Command.Arguments
import TensorFiles.Command.Conversion
import TensorFiles.Command.Report
import TensorFiles.Command.Run
import TensorFiles.Config
import TensorFiles.DType
import TensorFiles.Decimal.Nearest
import TensorFiles.Decimal.Scaled
import TensorFiles.Decimal.Shortest
import TensorFiles.Disk
import TensorFiles.Double
import TensorFiles.Enumeration
import TensorFiles.Error
import TensorFiles.Failure
import TensorFiles.FileFormat
import TensorFiles.Gguf.Block
import TensorFiles.Gguf.Container.Basic
import TensorFiles.Gguf.Container.Reading
import TensorFiles.Gguf.Container.Text
import TensorFiles.Gguf.Container.Writing
import TensorFiles.Gguf.Cursor
import TensorFiles.Gguf.Fault
import TensorFiles.Gguf.Load
import TensorFiles.Gguf.MetaValue
import TensorFiles.Gguf.Repack
import TensorFiles.Gguf.Save
import TensorFiles.Gguf.Section
import TensorFiles.Gguf.TensorType
import TensorFiles.Gguf.ValueType
import TensorFiles.Gguf.Widen
import TensorFiles.Ieee
import TensorFiles.Json.Number
import TensorFiles.Json.Parser
import TensorFiles.Json.Printer
import TensorFiles.Json.Quoted
import TensorFiles.Json.Tensor
import TensorFiles.Json.Value
import TensorFiles.Main
import TensorFiles.Npy.Fault
import TensorFiles.Npy.Header
import TensorFiles.Npy.Stream
import TensorFiles.Path
import TensorFiles.Proofs.Alignment
import TensorFiles.Proofs.Bytes.Blocks
import TensorFiles.Proofs.Bytes.LittleEndian
import TensorFiles.Proofs.Bytes.Order
import TensorFiles.Proofs.Bytes.Stands
import TensorFiles.Proofs.Bytes.Utf8
import TensorFiles.Proofs.Command.Alignment
import TensorFiles.Proofs.Command.Conversion
import TensorFiles.Proofs.Command.Inspection
import TensorFiles.Proofs.Command.Loaded
import TensorFiles.Proofs.Command.RoundTrip
import TensorFiles.Proofs.Command.ThroughGguf
import TensorFiles.Proofs.Disk
import TensorFiles.Proofs.Enumeration
import TensorFiles.Proofs.Exec
import TensorFiles.Proofs.FileFormat
import TensorFiles.Proofs.Gguf.Blockwise
import TensorFiles.Proofs.Gguf.Boundaries
import TensorFiles.Proofs.Gguf.Canonical
import TensorFiles.Proofs.Gguf.Codes
import TensorFiles.Proofs.Gguf.Container.Alignment
import TensorFiles.Proofs.Gguf.Container.Answered
import TensorFiles.Proofs.Gguf.Container.AppendAll
import TensorFiles.Proofs.Gguf.Container.Calls
import TensorFiles.Proofs.Gguf.Container.Delivery
import TensorFiles.Proofs.Gguf.Container.Ended
import TensorFiles.Proofs.Gguf.Container.Index
import TensorFiles.Proofs.Gguf.Container.Metadata
import TensorFiles.Proofs.Gguf.Container.Mistaken
import TensorFiles.Proofs.Gguf.Container.Modes
import TensorFiles.Proofs.Gguf.Container.ReadBack
import TensorFiles.Proofs.Gguf.Container.Reading
import TensorFiles.Proofs.Gguf.Container.Realigned
import TensorFiles.Proofs.Gguf.Container.Refused
import TensorFiles.Proofs.Gguf.Container.Replay
import TensorFiles.Proofs.Gguf.Container.RoundTrip
import TensorFiles.Proofs.Gguf.Container.Rounds
import TensorFiles.Proofs.Gguf.Container.Session
import TensorFiles.Proofs.Gguf.Container.Steady
import TensorFiles.Proofs.Gguf.Container.Steps
import TensorFiles.Proofs.Gguf.Container.Writing
import TensorFiles.Proofs.Gguf.Container.Written
import TensorFiles.Proofs.Gguf.Decode
import TensorFiles.Proofs.Gguf.Delimited
import TensorFiles.Proofs.Gguf.Inspect
import TensorFiles.Proofs.Gguf.Layouts
import TensorFiles.Proofs.Gguf.Limited
import TensorFiles.Proofs.Gguf.Load
import TensorFiles.Proofs.Gguf.MetaValue
import TensorFiles.Proofs.Gguf.Parts
import TensorFiles.Proofs.Gguf.Plan
import TensorFiles.Proofs.Gguf.Reads
import TensorFiles.Proofs.Gguf.Referred
import TensorFiles.Proofs.Gguf.Reordered
import TensorFiles.Proofs.Gguf.Repack
import TensorFiles.Proofs.Gguf.Savable
import TensorFiles.Proofs.Gguf.Save
import TensorFiles.Proofs.Gguf.SaveLoad
import TensorFiles.Proofs.Gguf.SelfDelimiting
import TensorFiles.Proofs.Gguf.Shapes
import TensorFiles.Proofs.Gguf.SixBits
import TensorFiles.Proofs.Gguf.Sizes
import TensorFiles.Proofs.Gguf.Stopped
import TensorFiles.Proofs.Gguf.Stored
import TensorFiles.Proofs.Gguf.Texts
import TensorFiles.Proofs.Gguf.Truncated
import TensorFiles.Proofs.Gguf.ValueText
import TensorFiles.Proofs.Gguf.Weights
import TensorFiles.Proofs.Gguf.Widen
import TensorFiles.Proofs.Json.Bounds
import TensorFiles.Proofs.Json.Number
import TensorFiles.Proofs.Json.Quoted
import TensorFiles.Proofs.Json.RoundTrip
import TensorFiles.Proofs.Npy.ByteOrder
import TensorFiles.Proofs.Npy.Header
import TensorFiles.Proofs.Npy.Opening
import TensorFiles.Proofs.Npy.Readable
import TensorFiles.Proofs.Npy.RoundTrip
import TensorFiles.Proofs.Npy.Shapes
import TensorFiles.Proofs.Npy.Spelling
import TensorFiles.Proofs.Npy.Truncated
import TensorFiles.Proofs.Payloads
import TensorFiles.Proofs.Result
import TensorFiles.Proofs.SafeTensors.Acceptance
import TensorFiles.Proofs.SafeTensors.Header
import TensorFiles.Proofs.SafeTensors.Layout
import TensorFiles.Proofs.SafeTensors.RoundTrip
import TensorFiles.Proofs.SafeTensors.Shapes
import TensorFiles.Proofs.Settings
import TensorFiles.Proofs.Shape
import TensorFiles.Proofs.Table
import TensorFiles.Proofs.Tensor.View
import TensorFiles.Proofs.Text.Numeral
import TensorFiles.Proofs.Text.Pieces
import TensorFiles.SafeTensors.Archive
import TensorFiles.SafeTensors.ElementType
import TensorFiles.SafeTensors.Fault
import TensorFiles.SafeTensors.Header
import TensorFiles.Settings
import TensorFiles.Shape
import TensorFiles.Table
import TensorFiles.Tensor.Basic
import TensorFiles.Tensor.Fault
import TensorFiles.Tensor.View
import TensorFiles.Text.Blank
import TensorFiles.Text.Digits
import TensorFiles.Text.Hidden
import TensorFiles.Text.Listing
import TensorFiles.Text.Numeral
import TensorFiles.Text.Quoted
import TensorFiles.Text.Split
import TensorFiles.Toml.Document
import TensorFiles.Toml.Number
import TensorFiles.Toml.Quoted
import TensorFiles.Toml.Value
