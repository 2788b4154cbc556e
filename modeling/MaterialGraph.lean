import MaterialGraph.ByteStream.Error
import MaterialGraph.ByteStream.Item
import MaterialGraph.ByteStream.Reader
import MaterialGraph.ByteStream.Writer
import MaterialGraph.CommandLine
import MaterialGraph.Decimal.Shortest
import MaterialGraph.EditError
import MaterialGraph.Expression.Basic
import MaterialGraph.Expression.Dump
import MaterialGraph.Expression.Footprint
import MaterialGraph.Expression.Kind
import MaterialGraph.Expression.KindJson
import MaterialGraph.Expression.Order
import MaterialGraph.Expression.Wire
import MaterialGraph.FileAccess
import MaterialGraph.Folder
import MaterialGraph.GraphFile
import MaterialGraph.Json.Diagnosis
import MaterialGraph.Json.Fault
import MaterialGraph.Json.Found
import MaterialGraph.Json.Literal
import MaterialGraph.Json.Printer
import MaterialGraph.Json.Token
import MaterialGraph.Json.Value
import MaterialGraph.Main
import MaterialGraph.Named
import MaterialGraph.Path
import MaterialGraph.SampleMaterial
import MaterialGraph.Settings
import MaterialGraph.Settings.Json
import MaterialGraph.Store.Basic
import MaterialGraph.Store.Clone
import MaterialGraph.Store.Dump
import MaterialGraph.Store.Memory
import MaterialGraph.Store.Operation
import MaterialGraph.Store.Order
import MaterialGraph.Store.Place
import MaterialGraph.Store.Query
import MaterialGraph.Store.Unfold
import MaterialGraph.Store.Wire
import MaterialGraph.Tag
import MaterialGraph.Tag.Json
import MaterialGraph.Text.Concealed
import MaterialGraph.Text.Quoted
import MaterialGraph.Tool
import MaterialGraph.Value.Basic
import MaterialGraph.Value.Binary32
import MaterialGraph.Value.Type
import MaterialGraph.Value.Wire
import MaterialGraph.Proofs.ByteStream.Extension
import MaterialGraph.Proofs.ByteStream.Language
import MaterialGraph.Proofs.ByteStream.Number
import MaterialGraph.Proofs.ByteStream.Refusal
import MaterialGraph.Proofs.ByteStream.Spelling
import MaterialGraph.Proofs.ByteStream.Text
import MaterialGraph.Proofs.Value.Grammar
import MaterialGraph.Proofs.Value.Encoding
import MaterialGraph.Proofs.Expression.Extension
import MaterialGraph.Proofs.Expression.Grammar
import MaterialGraph.Proofs.Json.Literal
import MaterialGraph.Proofs.Json.Grammar
import MaterialGraph.Proofs.Json.Escapes
import MaterialGraph.Proofs.Json.Number
import MaterialGraph.Proofs.Json.Lexing
import MaterialGraph.Proofs.Json.Building
import MaterialGraph.Proofs.Json.Reading
import MaterialGraph.Proofs.Json.Denoting
import MaterialGraph.Proofs.Json.Printing
import MaterialGraph.Proofs.Named
import MaterialGraph.Proofs.Expression.Reading
import MaterialGraph.Proofs.Expression.Refusal
import MaterialGraph.Proofs.Expression.Spelling
import MaterialGraph.Proofs.Expression.Encoding
import MaterialGraph.Proofs.Expression.Order
import MaterialGraph.Proofs.Expression.Injective
import MaterialGraph.Proofs.Store.Unfolding
import MaterialGraph.Proofs.Store.Placement
import MaterialGraph.Proofs.Store.Change
import MaterialGraph.Proofs.Store.Order
import MaterialGraph.Proofs.Store.Wire
import MaterialGraph.Proofs.Store.Forest
import MaterialGraph.Proofs.Store.Cloning
import MaterialGraph.Proofs.Store.Assembly
import MaterialGraph.Proofs.Store.Walks
import MaterialGraph.Proofs.Store.Cycles
import MaterialGraph.Proofs.Named.InPlace
import MaterialGraph.Proofs.Named.Refinement
import MaterialGraph.Proofs.Named.Positions
import MaterialGraph.Proofs.Store.Contents
import MaterialGraph.Proofs.Store.Copying
import MaterialGraph.Proofs.Store.Leaves
import MaterialGraph.Proofs.Store.Independence
import MaterialGraph.Proofs.Store.Sharing
import MaterialGraph.Proofs.Expression.Rewriting
import MaterialGraph.Proofs.Store.Edits
import MaterialGraph.Proofs.Store.Holders
import MaterialGraph.Proofs.Store.Building
import MaterialGraph.Proofs.Store.Steps
import MaterialGraph.Proofs.Store.Rejection
import MaterialGraph.Proofs.Store.Tags
import MaterialGraph.Proofs.Value.Mixture
import MaterialGraph.Proofs.Tag
import MaterialGraph.Proofs.FileAccess
import MaterialGraph.Proofs.Folder
import MaterialGraph.Proofs.CommandLine
import MaterialGraph.Proofs.SampleMaterial
import MaterialGraph.Proofs.Expression.Nesting
import MaterialGraph.Proofs.GraphFile
import MaterialGraph.Proofs.Tool
import MaterialGraph.Proofs.Store.History
import MaterialGraph.Proofs.GraphFile.Framing
import MaterialGraph.Proofs.Expression.Layout
import MaterialGraph.Proofs.Store.Sight
import MaterialGraph.Proofs.Store.Display
import MaterialGraph.Proofs.Expression.Depth
import MaterialGraph.Proofs.Store.Depth
import MaterialGraph.Proofs.Tag.Resolution
import MaterialGraph.Proofs.Expression.Context
import MaterialGraph.Proofs.Store.Context
import MaterialGraph.Proofs.Expression.Tracing
import MaterialGraph.Proofs.Expression.Effort
import MaterialGraph.Proofs.Value.OneLine
import MaterialGraph.Proofs.Expression.Rows
import MaterialGraph.Proofs.Store.Rows
import MaterialGraph.Proofs.Store.Title
import MaterialGraph.Proofs.Store.Listing
import MaterialGraph.Proofs.ByteStream.Item
import MaterialGraph.Proofs.ByteStream.Shifting
import MaterialGraph.Proofs.ByteStream.Varint
import MaterialGraph.Proofs.Store.Memory
import MaterialGraph.Proofs.Expression.Target
import MaterialGraph.Proofs.SampleMaterial.Naming
import MaterialGraph.Proofs.ByteStream.Bounds
import MaterialGraph.Proofs.ByteStream.Checked
import MaterialGraph.Proofs.ByteStream.Calls
import MaterialGraph.Proofs.Settings
