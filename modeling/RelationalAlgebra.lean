import RelationalAlgebra.Expr.Tagged
import RelationalAlgebra.Main
import RelationalAlgebra.Proofs.Alike
import RelationalAlgebra.Proofs.AskedColumns
import RelationalAlgebra.Proofs.Binding
import RelationalAlgebra.Proofs.Building
import RelationalAlgebra.Proofs.Canonical
import RelationalAlgebra.Proofs.Compiling
import RelationalAlgebra.Proofs.Congruence
import RelationalAlgebra.Proofs.Declaring
import RelationalAlgebra.Proofs.Decoding
import RelationalAlgebra.Proofs.Distinctness
import RelationalAlgebra.Proofs.DottedNames
import RelationalAlgebra.Proofs.Drafts
import RelationalAlgebra.Proofs.Enumeration
import RelationalAlgebra.Proofs.Exposure
import RelationalAlgebra.Proofs.Failures
import RelationalAlgebra.Proofs.Finding
import RelationalAlgebra.Proofs.Forms
import RelationalAlgebra.Proofs.FromClause
import RelationalAlgebra.Proofs.Grouping
import RelationalAlgebra.Proofs.InferredConditions
import RelationalAlgebra.Proofs.Instants
import RelationalAlgebra.Proofs.Invariants
import RelationalAlgebra.Proofs.KeySearch
import RelationalAlgebra.Proofs.Layout
import RelationalAlgebra.Proofs.Lineage
import RelationalAlgebra.Proofs.Meaning
import RelationalAlgebra.Proofs.Naming
import RelationalAlgebra.Proofs.Numbering
import RelationalAlgebra.Proofs.Parsing
import RelationalAlgebra.Proofs.Qualifiers
import RelationalAlgebra.Proofs.Readers
import RelationalAlgebra.Proofs.RecordKeys
import RelationalAlgebra.Proofs.Resolution
import RelationalAlgebra.Proofs.Respelling
import RelationalAlgebra.Proofs.RoundTrip
import RelationalAlgebra.Proofs.Scope
import RelationalAlgebra.Proofs.Session
import RelationalAlgebra.Proofs.Shapes
import RelationalAlgebra.Proofs.Sides
import RelationalAlgebra.Proofs.SplitNames
import RelationalAlgebra.Proofs.Structure
import RelationalAlgebra.Proofs.Substitution
import RelationalAlgebra.Proofs.Tracing
import RelationalAlgebra.Proofs.Twins
import RelationalAlgebra.Proofs.WholeTables
import RelationalAlgebra.Proofs.WireForms
import RelationalAlgebra.Proofs.WrittenLiterals
import RelationalAlgebra.Relation.Equivalence
