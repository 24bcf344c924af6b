import QueryCompiler.Compiler
import QueryCompiler.Json.Parser
import QueryCompiler.Json.Printer
import QueryCompiler.Query.Builder
import QueryCompiler.Query.Reader
import QueryCompiler.Query.Writer
import QueryCompiler.Proofs.Agreement
import QueryCompiler.Proofs.Columns
import QueryCompiler.Proofs.Composition
import QueryCompiler.Proofs.Containment
import QueryCompiler.Proofs.Delimiting
import QueryCompiler.Proofs.Grouping
import QueryCompiler.Proofs.Independence
import QueryCompiler.Proofs.Literals
import QueryCompiler.Proofs.Meaning
import QueryCompiler.Proofs.Naming
import QueryCompiler.Proofs.Ordering
import QueryCompiler.Proofs.Paging
import QueryCompiler.Proofs.Placeholders
import QueryCompiler.Proofs.Qualification
import QueryCompiler.Proofs.QuotedNames
import QueryCompiler.Proofs.Rearrangement
import QueryCompiler.Proofs.RoundTrip
import QueryCompiler.Proofs.Separators
import QueryCompiler.Proofs.Shorthand
import QueryCompiler.Proofs.Spacing
import QueryCompiler.Proofs.Splitting
import QueryCompiler.Proofs.Structure
import QueryCompiler.Proofs.Validity
import QueryCompiler.Proofs.Verbatim
import QueryCompiler.Proofs.Window
import QueryCompiler.Settings
