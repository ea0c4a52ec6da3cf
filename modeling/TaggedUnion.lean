import TaggedUnion.Main
import TaggedUnion.Proofs.Coercion.Conformance
import TaggedUnion.Coercion.Scalar
import TaggedUnion.Files.Tree
import TaggedUnion.Proofs.Decimal.Written
import TaggedUnion.Proofs.Coercion.NodeInduction
import TaggedUnion.Proofs.Literal.Spans
import TaggedUnion.Proofs.Coercion.Accord
import TaggedUnion.Proofs.Union.Building
import TaggedUnion.Proofs.Schema.Collect
import TaggedUnion.Proofs.Schema.Order
import TaggedUnion.Proofs.Schema.WellFormed
import TaggedUnion.Proofs.Schema.Declared
import TaggedUnion.Proofs.Coercion.ReadBack
import TaggedUnion.Proofs.Text.Bytes
import TaggedUnion.Proofs.Literal.Escapes
import TaggedUnion.Proofs.Literal.Grammar
import TaggedUnion.Proofs.Literal.Parsing
import TaggedUnion.Proofs.Literal.Abort
import TaggedUnion.Proofs.Literal.Lexing
import TaggedUnion.Proofs.Literal.Quotation
import TaggedUnion.Proofs.Coercion.Widening
import TaggedUnion.Proofs.Schema.Evolution
import TaggedUnion.Proofs.Decimal.Spelling
import TaggedUnion.Proofs.Literal.Layout
import TaggedUnion.Proofs.Literal.Printing
import TaggedUnion.Proofs.Literal.Viability
import TaggedUnion.Proofs.Literal.Adjacency
import TaggedUnion.Proofs.Literal.Nesting
import TaggedUnion.Proofs.Json.Nesting
import TaggedUnion.Proofs.Union.Wrapping
import TaggedUnion.Proofs.Coercion.Lookup
import TaggedUnion.Proofs.Schema.Permutation
import TaggedUnion.Proofs.Coercion.Faults
import TaggedUnion.Proofs.Coercion.Location
import TaggedUnion.Proofs.Coercion.Idempotence
import TaggedUnion.Proofs.Coercion.LiteralCalls
import TaggedUnion.Proofs.Schema.Closure
import TaggedUnion.Proofs.Coercion.MemberOrder
import TaggedUnion.Proofs.Coercion.FieldOrder
import TaggedUnion.Proofs.Schema.PostOrder
import TaggedUnion.Proofs.Schema.Defects
import TaggedUnion.Proofs.Union.WrapperLiteral
import TaggedUnion.Proofs.Schema.Nesting
import TaggedUnion.Proofs.Coercion.WrittenFields
import TaggedUnion.Proofs.Union.Deferral
import TaggedUnion.Proofs.Schema.Tags
import TaggedUnion.Proofs.Coercion.Callbacks
import TaggedUnion.Proofs.Literal.Tiling
import TaggedUnion.Proofs.Literal.Glyph
import TaggedUnion.Proofs.Schema.Redeclared
import TaggedUnion.Proofs.Coercion.Numbers
import TaggedUnion.Proofs.Coercion.Integers
import TaggedUnion.Proofs.Union.Table
import TaggedUnion.Proofs.Schema.Registration
import TaggedUnion.Proofs.Command.Run
import TaggedUnion.Proofs.Command.Report
import TaggedUnion.Proofs.Schema.FieldNames
import TaggedUnion.Proofs.Text.Lines
