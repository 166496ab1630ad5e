import DocumentQuery.Expression.Build
import DocumentQuery.Main
import DocumentQuery.Method.VectorDistance
import DocumentQuery.Proofs.Document.KeyOrder
import DocumentQuery.Proofs.Document.Payload
import DocumentQuery.Proofs.Document.Rendering
import DocumentQuery.Proofs.Method.Dispatch
import DocumentQuery.Proofs.Method.RenderedDistance
import DocumentQuery.Proofs.Query.AccessPaths
import DocumentQuery.Proofs.Query.Balance
import DocumentQuery.Proofs.Query.Building
import DocumentQuery.Proofs.Query.Clauses
import DocumentQuery.Proofs.Query.Display
import DocumentQuery.Proofs.Query.Fingerprint
import DocumentQuery.Proofs.Query.Frame
import DocumentQuery.Proofs.Query.FreshNames
import DocumentQuery.Proofs.Query.IdleMappings
import DocumentQuery.Proofs.Query.Indentation
import DocumentQuery.Proofs.Query.InlinedArguments
import DocumentQuery.Proofs.Query.InternalErrors
import DocumentQuery.Proofs.Query.Lookups
import DocumentQuery.Proofs.Query.Operators
import DocumentQuery.Proofs.Query.Placeholders
import DocumentQuery.Proofs.Query.RawFragments
import DocumentQuery.Proofs.Query.Relevance
import DocumentQuery.Proofs.Query.WellFormed
import DocumentQuery.Proofs.Registry.InferredTypes
import DocumentQuery.Proofs.Settings.Overrides
import DocumentQuery.Proofs.Text.WrittenLines
