import OffsideRule.Diagnostics
import OffsideRule.Dump
import OffsideRule.Excerpt
import OffsideRule.Files
import OffsideRule.Files.Path
import OffsideRule.Index
import OffsideRule.Kind
import OffsideRule.Layout.Blocks
import OffsideRule.Layout.Config
import OffsideRule.Layout.Event
import OffsideRule.Layout.Margins
import OffsideRule.Layout.Placement
import OffsideRule.Layout.Render
import OffsideRule.Layout.Resolution
import OffsideRule.Layout.Stream
import OffsideRule.Layout.Token
import OffsideRule.Lexeme
import OffsideRule.Lexeme.Class
import OffsideRule.Lexeme.Comment
import OffsideRule.Lexeme.Number
import OffsideRule.Lexeme.Quotation
import OffsideRule.Log
import OffsideRule.Main
import OffsideRule.Position
import OffsideRule.Program.Arguments
import OffsideRule.Program.Breakdown
import OffsideRule.Program.Process
import OffsideRule.Program.Run
import OffsideRule.Program.Settings
import OffsideRule.Program.Usage
import OffsideRule.Proofs.Accounting
import OffsideRule.Proofs.Alignment
import OffsideRule.Proofs.Anchors
import OffsideRule.Proofs.Balance
import OffsideRule.Proofs.Bindings
import OffsideRule.Proofs.Braces
import OffsideRule.Proofs.Comments
import OffsideRule.Proofs.Continuations
import OffsideRule.Proofs.Coordinates
import OffsideRule.Proofs.Cuts
import OffsideRule.Proofs.Delimiters
import OffsideRule.Proofs.Documents
import OffsideRule.Proofs.Edits
import OffsideRule.Proofs.Encoding
import OffsideRule.Proofs.Endings
import OffsideRule.Proofs.Excerpts
import OffsideRule.Proofs.ExitCodes
import OffsideRule.Proofs.FileAccess
import OffsideRule.Proofs.Histories
import OffsideRule.Proofs.Indentation
import OffsideRule.Proofs.Laid
import OffsideRule.Proofs.Lexemes
import OffsideRule.Proofs.LineEnds
import OffsideRule.Proofs.Lines
import OffsideRule.Proofs.Literals
import OffsideRule.Proofs.LookBack
import OffsideRule.Proofs.Lossless
import OffsideRule.Proofs.Matching
import OffsideRule.Proofs.Merging
import OffsideRule.Proofs.Moments
import OffsideRule.Proofs.Nesting
import OffsideRule.Proofs.Numerals
import OffsideRule.Proofs.OffsideLaw
import OffsideRule.Proofs.Openers
import OffsideRule.Proofs.Operations
import OffsideRule.Proofs.Outcomes
import OffsideRule.Proofs.Places
import OffsideRule.Proofs.Positions
import OffsideRule.Proofs.Preservation
import OffsideRule.Proofs.Reading
import OffsideRule.Proofs.Recognition
import OffsideRule.Proofs.Relocation
import OffsideRule.Proofs.Rendering
import OffsideRule.Proofs.Reports
import OffsideRule.Proofs.Returns
import OffsideRule.Proofs.Rounds
import OffsideRule.Proofs.Serving
import OffsideRule.Proofs.Similarity
import OffsideRule.Proofs.Sources
import OffsideRule.Proofs.Spans
import OffsideRule.Proofs.Splitting
import OffsideRule.Proofs.Stability
import OffsideRule.Proofs.Stacks
import OffsideRule.Proofs.Steps
import OffsideRule.Proofs.Tabulation
import OffsideRule.Proofs.Termination
import OffsideRule.Proofs.Variant
import OffsideRule.Proofs.Watching
import OffsideRule.Text.Basic
import OffsideRule.Text.Digit
import OffsideRule.Text.Letter
import OffsideRule.Text.Lines
import OffsideRule.Text.Printable
import OffsideRule.Text.Quoted
import OffsideRule.Text.Ranges
import OffsideRule.Text.Uppercase
import OffsideRule.Text.Utf8
import OffsideRule.Token
import OffsideRule.TokenStream
import OffsideRule.Toml.Double
import OffsideRule.Toml.Grammar
import OffsideRule.Toml.Moment
import OffsideRule.Toml.Reader
import OffsideRule.Toml.Scalar
import OffsideRule.Toml.Tree
import OffsideRule.Toml.Value
