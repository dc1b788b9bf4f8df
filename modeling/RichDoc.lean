import RichDoc.Catalog.Block
import RichDoc.Catalog.Html
import RichDoc.Catalog.Inline
import RichDoc.Catalog.Library
import RichDoc.Catalog.Make
import RichDoc.Catalog.Table
import RichDoc.CommandLine
import RichDoc.Composition
import RichDoc.Content.Basic
import RichDoc.Content.Match
import RichDoc.Content.Read
import RichDoc.Conversion.Context
import RichDoc.Conversion.Down
import RichDoc.Conversion.Up
import RichDoc.Data
import RichDoc.Document.Basic
import RichDoc.Document.Dump
import RichDoc.Engine
import RichDoc.Error
import RichDoc.Extension.Basic
import RichDoc.Extension.Composer
import RichDoc.File
import RichDoc.Grammar.Basic
import RichDoc.Grammar.Make
import RichDoc.Grammar.Spec
import RichDoc.Html.Fragment
import RichDoc.Html.Options
import RichDoc.Html.Pairing
import RichDoc.Html.Rooting
import RichDoc.Json.Basic
import RichDoc.Json.Read
import RichDoc.Json.Write
import RichDoc.Main
import RichDoc.Markdown.Block
import RichDoc.Markdown.Brackets
import RichDoc.Markdown.Containers
import RichDoc.Markdown.Definition
import RichDoc.Markdown.Emphasis
import RichDoc.Markdown.Event
import RichDoc.Markdown.Events
import RichDoc.Markdown.HtmlScan
import RichDoc.Markdown.Inline
import RichDoc.Markdown.Interrupt
import RichDoc.Markdown.LineStart
import RichDoc.Markdown.Paragraph
import RichDoc.Markdown.Reader
import RichDoc.Markdown.Reference
import RichDoc.Markdown.Scan
import RichDoc.Markdown.Table
import RichDoc.Markdown.Token
import RichDoc.Markdown.Tree
import RichDoc.Markdown.Verbatim
import RichDoc.Path
import RichDoc.Proofs.Catalog.Attributes
import RichDoc.Proofs.Catalog.Converters
import RichDoc.Proofs.Catalog.Phrasing
import RichDoc.Proofs.Catalog.Standard
import RichDoc.Proofs.Catalog.Types
import RichDoc.Proofs.Content.Rounds
import RichDoc.Proofs.Content.Matching
import RichDoc.Proofs.Conversion.Edited
import RichDoc.Proofs.Conversion.Fitting
import RichDoc.Proofs.Conversion.Grouping
import RichDoc.Proofs.Conversion.Loading
import RichDoc.Proofs.Conversion.Reload
import RichDoc.Proofs.Conversion.Rendering
import RichDoc.Proofs.Conversion.Runs
import RichDoc.Proofs.Conversion.Saved
import RichDoc.Proofs.Conversion.Shaped
import RichDoc.Proofs.Conversion.Steady
import RichDoc.Proofs.Conversion.Weighing
import RichDoc.Proofs.Document.Nodes
import RichDoc.Proofs.Grammar.Made
import RichDoc.Proofs.Grammar.Marks
import RichDoc.Proofs.Html.Fragments
import RichDoc.Proofs.Html.Merging
import RichDoc.Proofs.Html.TextKept
import RichDoc.Proofs.Tree.Nodes
import RichDoc.Proofs.Tree.Positioned
import RichDoc.Proofs.Tree.Table
import RichDoc.Settings
import RichDoc.Source
import RichDoc.Span
import RichDoc.StringMap
import RichDoc.Text.Class
import RichDoc.Text.Entity
import RichDoc.Text.EntityTable
import RichDoc.Text.Fold
import RichDoc.Text.Lines
import RichDoc.Text.Ranges
import RichDoc.Toml.Basic
import RichDoc.Toml.Quoted
import RichDoc.Toml.Read
import RichDoc.Toml.Scalar
import RichDoc.Toml.Table
import RichDoc.Toml.Write
import RichDoc.Tree.Builder
import RichDoc.Tree.Dump
import RichDoc.Tree.Kind
import RichDoc.Tree.Node
import RichDoc.Tree.Slots
import RichDoc.Word
import RichDoc.Writer.Block
import RichDoc.Writer.Inline
import RichDoc.Proofs.Grammar.Valid
import RichDoc.Proofs.Html.TreeWide
import RichDoc.Proofs.Extension.Walks
import RichDoc.Proofs.Extension.Gathering
import RichDoc.Proofs.Grammar.Build
import RichDoc.Proofs.Extension.Members
import RichDoc.Proofs.Extension.Composed
import RichDoc.Proofs.Extension.Closure
import RichDoc.Proofs.Content.Language
import RichDoc.Proofs.Html.Joining
import RichDoc.Proofs.Html.Rooting
import RichDoc.Proofs.Html.Settled
import RichDoc.Proofs.Html.Remaining
import RichDoc.Proofs.Conversion.Remaining
import RichDoc.Proofs.Tree.Nesting
import RichDoc.Proofs.Tree.Absorbing
import RichDoc.Proofs.Tree.Building
import RichDoc.Proofs.Tree.Layout
import RichDoc.Proofs.Conversion.Inverse
import RichDoc.Proofs.Conversion.Wrapping
import RichDoc.Proofs.Conversion.TextKept
import RichDoc.Proofs.Content.Tokens
import RichDoc.Proofs.Content.Reading
import RichDoc.Proofs.Grammar.MarkSets
import RichDoc.Proofs.Extension.Circles
import RichDoc.Proofs.Html.Unplaced
import RichDoc.Proofs.Text.Lines
import RichDoc.Proofs.Writer.CodeSpans
import RichDoc.Proofs.Writer.Layout
import RichDoc.Proofs.Writer.Blocks
import RichDoc.Proofs.Writer.Margins
import RichDoc.Proofs.Writer.Fences
import RichDoc.Proofs.Writer.Items
import RichDoc.Proofs.Writer.Escapes
import RichDoc.Proofs.Writer.LineStarts
import RichDoc.Proofs.Writer.Rows
import RichDoc.Proofs.Writer.LinkTails
import RichDoc.Proofs.Html.Positions
import RichDoc.Proofs.Html.Layers
import RichDoc.Proofs.Html.Literals
import RichDoc.Proofs.Tree.Stacks
import RichDoc.Proofs.Tree.Filling
import RichDoc.Proofs.Tree.Places
import RichDoc.Proofs.Tree.Rebuilding
import RichDoc.Proofs.Writer.Numbers
import RichDoc.Proofs.Conversion.Counters
import RichDoc.Proofs.Grammar.Texts
