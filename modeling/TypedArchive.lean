import TypedArchive.Archive.Codec
import TypedArchive.Archive.Contents
import TypedArchive.Archive.Entry
import TypedArchive.Archive.Error
import TypedArchive.Archive.Layout
import TypedArchive.Archive.Reference
import TypedArchive.Archive.Uuid
import TypedArchive.Assoc
import TypedArchive.Binding.Data
import TypedArchive.Binding.Decode
import TypedArchive.Binding.Encode
import TypedArchive.Binding.Error
import TypedArchive.Binding.Path
import TypedArchive.Binding.Reader
import TypedArchive.Binding.Routing
import TypedArchive.Binding.Run
import TypedArchive.Binding.Walk
import TypedArchive.Binding.Write
import TypedArchive.Catalog.Basic
import TypedArchive.Catalog.Json
import TypedArchive.Catalog.Literal
import TypedArchive.Catalog.Shape
import TypedArchive.Catalog.TypeRef
import TypedArchive.Command.Arguments
import TypedArchive.Command.Config
import TypedArchive.Command.Run
import TypedArchive.Compile.Basic
import TypedArchive.Compile.Build
import TypedArchive.Compile.Check
import TypedArchive.Compile.Search
import TypedArchive.Compile.TypeName
import TypedArchive.Compile.Unify
import TypedArchive.Compile.Union
import TypedArchive.Decimal.Double
import TypedArchive.Decimal.Shortest
import TypedArchive.Emit.Basic
import TypedArchive.Emit.Body
import TypedArchive.Emit.Identifier
import TypedArchive.Emit.Items
import TypedArchive.Emit.Layout
import TypedArchive.Emit.Literal
import TypedArchive.Emit.Plan
import TypedArchive.Emit.RuntimePath
import TypedArchive.Emit.Source
import TypedArchive.Emit.Token
import TypedArchive.Emit.Tree
import TypedArchive.Emit.Written
import TypedArchive.Files.Path
import TypedArchive.Files.Store
import TypedArchive.Files.Tree
import TypedArchive.Format
import TypedArchive.Json.Basic
import TypedArchive.Json.NumberText
import TypedArchive.Json.Parser
import TypedArchive.Json.Printer
import TypedArchive.Kdl.Basic
import TypedArchive.Kdl.Number
import TypedArchive.Kdl.Parser
import TypedArchive.Kdl.Space
import TypedArchive.Kdl.Text
import TypedArchive.Main
import TypedArchive.Proofs.Archive.Edit
import TypedArchive.Proofs.Archive.Entry
import TypedArchive.Proofs.Archive.Key
import TypedArchive.Proofs.Archive.Layout
import TypedArchive.Proofs.Archive.ObjectId
import TypedArchive.Proofs.Archive.Order
import TypedArchive.Proofs.Archive.Pages
import TypedArchive.Proofs.Archive.Piece
import TypedArchive.Proofs.Archive.ReadBack
import TypedArchive.Proofs.Archive.Reference
import TypedArchive.Proofs.Archive.Removal
import TypedArchive.Proofs.Archive.RoundTrip
import TypedArchive.Proofs.Archive.Uuid
import TypedArchive.Proofs.Assoc
import TypedArchive.Proofs.Binding.Accepts
import TypedArchive.Proofs.Binding.Alias
import TypedArchive.Proofs.Binding.Blame
import TypedArchive.Proofs.Binding.Call
import TypedArchive.Proofs.Binding.Calls
import TypedArchive.Proofs.Binding.Edit
import TypedArchive.Proofs.Binding.Fault
import TypedArchive.Proofs.Binding.Moves
import TypedArchive.Proofs.Binding.Place
import TypedArchive.Proofs.Binding.Plain
import TypedArchive.Proofs.Binding.Reads
import TypedArchive.Proofs.Binding.RoundTrip
import TypedArchive.Proofs.Binding.Routing
import TypedArchive.Proofs.Binding.Run
import TypedArchive.Proofs.Binding.Steady
import TypedArchive.Proofs.Binding.Untyped
import TypedArchive.Proofs.Binding.Walk
import TypedArchive.Proofs.Binding.Write
import TypedArchive.Proofs.Catalog.Alias
import TypedArchive.Proofs.Catalog.Reaches
import TypedArchive.Proofs.Catalog.ReadBack
import TypedArchive.Proofs.Chain
import TypedArchive.Proofs.Compile.Advance
import TypedArchive.Proofs.Compile.Budget
import TypedArchive.Proofs.Compile.Circle
import TypedArchive.Proofs.Compile.Completeness
import TypedArchive.Proofs.Compile.Definition
import TypedArchive.Proofs.Compile.Described
import TypedArchive.Proofs.Compile.Dispatch
import TypedArchive.Proofs.Compile.Entries
import TypedArchive.Proofs.Compile.Fields
import TypedArchive.Proofs.Compile.Flatten
import TypedArchive.Proofs.Compile.Forward
import TypedArchive.Proofs.Compile.InPlace
import TypedArchive.Proofs.Compile.Meet
import TypedArchive.Proofs.Compile.Mentions
import TypedArchive.Proofs.Compile.Narrow
import TypedArchive.Proofs.Compile.Owners
import TypedArchive.Proofs.Compile.Primitives
import TypedArchive.Proofs.Compile.Progress
import TypedArchive.Proofs.Compile.Queue
import TypedArchive.Proofs.Compile.Reorder
import TypedArchive.Proofs.Compile.Repeat
import TypedArchive.Proofs.Compile.Resolves
import TypedArchive.Proofs.Compile.Rules
import TypedArchive.Proofs.Compile.Satisfies
import TypedArchive.Proofs.Compile.Shape
import TypedArchive.Proofs.Compile.Soundness
import TypedArchive.Proofs.Compile.Spelling
import TypedArchive.Proofs.Compile.Stable
import TypedArchive.Proofs.Compile.Standing
import TypedArchive.Proofs.Compile.Steady
import TypedArchive.Proofs.Compile.Termination
import TypedArchive.Proofs.Compile.TypeName
import TypedArchive.Proofs.Compile.Union
import TypedArchive.Proofs.Compile.Visible
import TypedArchive.Proofs.Compile.WellFormed
import TypedArchive.Proofs.Emit.Capture
import TypedArchive.Proofs.Emit.Dispatch
import TypedArchive.Proofs.Emit.Identifier
import TypedArchive.Proofs.Emit.Items
import TypedArchive.Proofs.Emit.Reads
import TypedArchive.Proofs.Emit.RoundTrip
import TypedArchive.Proofs.Emit.Size
import TypedArchive.Proofs.Emit.Unclashed
import TypedArchive.Proofs.Emit.Widen
import TypedArchive.Proofs.Emit.Written
import TypedArchive.Proofs.Format
import TypedArchive.Proofs.Json.Place
import TypedArchive.Proofs.Json.Position
import TypedArchive.Proofs.Json.Sorted
import TypedArchive.Proofs.Outcome
import TypedArchive.Proofs.Rounds
import TypedArchive.Proofs.Schema.Bytes
import TypedArchive.Proofs.Schema.Escape
import TypedArchive.Proofs.Schema.Evaluate
import TypedArchive.Proofs.Schema.Follow
import TypedArchive.Proofs.Schema.Forest
import TypedArchive.Proofs.Schema.Identifier
import TypedArchive.Proofs.Schema.Load
import TypedArchive.Proofs.Schema.Locate
import TypedArchive.Proofs.Schema.Postorder
import TypedArchive.Proofs.Schema.Sibling
import TypedArchive.Proofs.Schema.Slot
import TypedArchive.Proofs.Schema.Span
import TypedArchive.Proofs.Text.Casing
import TypedArchive.Proofs.Text.Numeral
import TypedArchive.Proofs.Text.Utf8
import TypedArchive.Schema.Bundle
import TypedArchive.Schema.Error
import TypedArchive.Schema.Graph
import TypedArchive.Schema.Node
import TypedArchive.Schema.Pointer
import TypedArchive.Text.Blank
import TypedArchive.Text.CaseMap
import TypedArchive.Text.Casing
import TypedArchive.Text.Comment
import TypedArchive.Text.Identifier
import TypedArchive.Text.Letter
import TypedArchive.Text.Quoted
import TypedArchive.Text.Replace
import TypedArchive.Text.Utf8
import TypedArchive.Text.Visible
import TypedArchive.Zip.Basic
import TypedArchive.Zip.Checksum
import TypedArchive.Zip.Directory
import TypedArchive.Zip.Huffman
import TypedArchive.Zip.Inflate
import TypedArchive.Zip.Name
import TypedArchive.Zip.Unpack
