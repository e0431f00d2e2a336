import Stencil.Text
import Stencil.Numeric.Notation
import Stencil.Config
import Stencil.Context
import Stencil.Template.Basic
import Stencil.Value.Render
import Stencil.Json.Basic
import Stencil.Json.Number
import Stencil.Json.Outline
import Stencil.Config.Json
import Stencil.Record.Typed
import Stencil.Record.Declaration
import Stencil.Record.Shape
import Stencil.Record.Lexeme
import Stencil.Proofs.Guarded
import Stencil.Proofs.Placeholder
import Stencil.Proofs.Pattern
import Stencil.Proofs.Grammar
import Stencil.Proofs.Scan
import Stencil.Proofs.Span
import Stencil.Proofs.Closing
import Stencil.Proofs.Weave
import Stencil.Proofs.Unescape
import Stencil.Proofs.Literal
import Stencil.Proofs.Written
import Stencil.Proofs.Composed
import Stencil.Proofs.Nested
import Stencil.Proofs.Ordered
import Stencil.Proofs.Rounding
import Stencil.Proofs.Pruned
import Stencil.Proofs.Kinds
import Stencil.Proofs.Outline
import Stencil.Proofs.Settled
import Stencil.Proofs.Agreement
import Stencil.Proofs.DigitRun
import Stencil.Proofs.TreeText
import Stencil.Proofs.NumberText
import Stencil.Proofs.RoundTrip
import Stencil.Proofs.Outcome
import Stencil.Proofs.Places
import Stencil.Proofs.Binding
import Stencil.Proofs.Unread
import Stencil.Proofs.Present
import Stencil.Proofs.Refusal
import Stencil.Proofs.Nearest
import Stencil.Proofs.Decimals
import Stencil.Proofs.Cut
import Stencil.Proofs.Cents
import Stencil.Proofs.Keys
import Stencil.Proofs.Rejection
import Stencil.Proofs.Layout
import Stencil.Proofs.DataType
import Stencil.Proofs.Divided
import Stencil.Proofs.Replacement
import Stencil.Proofs.Seam
import Stencil.Proofs.Monotone
import Stencil.Proofs.Whole
import Stencil.Proofs.WholeText
import Stencil.Proofs.Wrapping
import Stencil.Proofs.Integral
import Stencil.Proofs.Equal
import Stencil.Proofs.Closest
import Stencil.Proofs.PlainText
import Stencil.Proofs.Wide
import Stencil.Proofs.History
import Stencil.Proofs.Members
import Stencil.Proofs.Settings
import Stencil.Proofs.ConfigText
import Stencil.Proofs.Conversion
