import BraceTree.Block.Kind
import BraceTree.Block.Outline
import BraceTree.Block.Tree
import BraceTree.Brace
import BraceTree.Command.Arguments
import BraceTree.Command.Disk
import BraceTree.Command.Outcome
import BraceTree.Command.Parse
import BraceTree.Command.Run
import BraceTree.Command.Settings
import BraceTree.Command.Test
import BraceTree.Config
import BraceTree.Decimal.Shortest
import BraceTree.Diagnostic
import BraceTree.Dump
import BraceTree.Expression
import BraceTree.Fixture.Basic
import BraceTree.Fixture.Category
import BraceTree.Header.Classify
import BraceTree.Header.Grammar
import BraceTree.Header.Place
import BraceTree.Hierarchy
import BraceTree.Log
import BraceTree.Main
import BraceTree.Program
import BraceTree.Scope
import BraceTree.Snippet
import BraceTree.Statement.Effect
import BraceTree.Statement.Grammar
import BraceTree.Statement.Visit
import BraceTree.Text.Basic
import BraceTree.Text.CharClass
import BraceTree.Text.DigitRanges
import BraceTree.Text.GraphicRanges
import BraceTree.Text.Line
import BraceTree.Text.Quoted
import BraceTree.Text.Split
import BraceTree.Text.WideRanges
import BraceTree.Text.Width
import BraceTree.Text.WordRanges
import BraceTree.Toml.Document
import BraceTree.Toml.Node
import BraceTree.Toml.Scalar
import BraceTree.Value.Basic
import BraceTree.Value.Literal
import BraceTree.Value.Type
import BraceTree.Variable
import BraceTree.Proofs.Brace.Balanced
import BraceTree.Proofs.Brace.Matching
import BraceTree.Proofs.Block.Arena
import BraceTree.Proofs.Brace.Pairing
import BraceTree.Proofs.Block.Nested
import BraceTree.Proofs.Hierarchy.Forest
import BraceTree.Proofs.Hierarchy.Rounds
import BraceTree.Proofs.Hierarchy.Finished
import BraceTree.Proofs.Hierarchy.Bracketed
import BraceTree.Proofs.Brace.Around
import BraceTree.Proofs.Hierarchy.Ambiguous
import BraceTree.Proofs.Value.Holds
import BraceTree.Proofs.Scope.WellTyped
import BraceTree.Proofs.Text.Trim
import BraceTree.Proofs.Statement.Outcome
import BraceTree.Proofs.Header.Classified
import BraceTree.Proofs.Statement.Reached
import BraceTree.Proofs.Text.Border
import BraceTree.Proofs.Text.Reading
import BraceTree.Proofs.Text.Masked
import BraceTree.Proofs.Header.Headed
import BraceTree.Proofs.Statement.Pieces
import BraceTree.Proofs.Statement.Tiling
import BraceTree.Proofs.Statement.Lossless
import BraceTree.Proofs.Statement.OneReading
import BraceTree.Proofs.Header.Reach
import BraceTree.Proofs.Statement.Claimed
import BraceTree.Proofs.Brace.Extracted
import BraceTree.Proofs.Statement.Visible
import BraceTree.Proofs.Text.Sealed
import BraceTree.Proofs.Value.Annotation
import BraceTree.Proofs.Value.Spelled
import BraceTree.Proofs.Value.ReadBack
import BraceTree.Proofs.Statement.Displayed
import BraceTree.Proofs.Block.Walks
import BraceTree.Proofs.Block.Isomorphic
import BraceTree.Proofs.Text.Rejoined
import BraceTree.Proofs.Header.Legible
import BraceTree.Proofs.Header.Captured
import BraceTree.Proofs.Statement.Called
import BraceTree.Proofs.Value.Alike
import BraceTree.Proofs.Statement.Legible
import BraceTree.Proofs.Header.Titled
import BraceTree.Proofs.Block.Outlined
import BraceTree.Proofs.Text.Appended
import BraceTree.Proofs.Brace.Appended
import BraceTree.Proofs.Block.Grown
import BraceTree.Proofs.Hierarchy.Appended
import BraceTree.Proofs.Header.Appended
import BraceTree.Proofs.Statement.Appended
import BraceTree.Proofs.Statement.Abreast
import BraceTree.Proofs.Diagnostic.Listed
import BraceTree.Proofs.Statement.Undisturbed
import BraceTree.Proofs.Command.Expanded
import BraceTree.Proofs.Scope.Edited
import BraceTree.Proofs.Statement.Resolved
import BraceTree.Proofs.Text.Whole
import BraceTree.Proofs.Value.Derived
import BraceTree.Proofs.Value.Grammar
import BraceTree.Proofs.Value.Misfit
import BraceTree.Proofs.Text.Located
import BraceTree.Proofs.Header.Sited
import BraceTree.Proofs.Diagnostic.Sited
import BraceTree.Proofs.Statement.Sited
import BraceTree.Proofs.Value.TypeGrammar
import BraceTree.Proofs.Statement.Linewise
import BraceTree.Proofs.Decimal.Numbers
import BraceTree.Proofs.Value.Same
import BraceTree.Proofs.Statement.Successive
import BraceTree.Proofs.Statement.Deferred
import BraceTree.Proofs.Statement.Inverse
import BraceTree.Proofs.Header.Readers
import BraceTree.Proofs.Header.Written
import BraceTree.Proofs.Text.Blanks
import BraceTree.Proofs.Header.Respaced
import BraceTree.Proofs.Header.Enclosed
import BraceTree.Proofs.Brace.Respaced
import BraceTree.Proofs.Hierarchy.Moved
import BraceTree.Proofs.Header.Lowered
import BraceTree.Proofs.Statement.Lowered
import BraceTree.Proofs.Statement.Reread
import BraceTree.Proofs.Value.Oversized
import BraceTree.Proofs.Statement.Reckoned
import BraceTree.Proofs.Diagnostic.Branching
import BraceTree.Proofs.Block.Innermost
import BraceTree.Proofs.Text.Newlines
import BraceTree.Proofs.Text.Touched
import BraceTree.Proofs.Scope.OneMap
import BraceTree.Proofs.Fixture.Selected
import BraceTree.Proofs.Value.Coerced
import BraceTree.Proofs.Fixture.Framed
import BraceTree.Proofs.Text.Bytewise
import BraceTree.Proofs.Value.Enquoted
