import Lithograph.Storage.Allocation
import Lithograph.Storage.SchemaDiff
import Lithograph.Storage.StagedRuns
import Lithograph.Storage.Utf8Chunks
import Lithograph.Version.Access
import Lithograph.Version.LogPages
import Lithograph.Version.Protocol
import Lithograph.Version.SlotEquality
import Lithograph.Version.VirtualBase
import Lithograph.Mutation.Delete
import Lithograph.Cypher.CalendarKernel
import Lithograph.Query.Expression.Interpolation
import Lithograph.Query.Expression.Percentile
import Lithograph.Query.Functions.Truncate
import Lithograph.Query.GraphViewScan
import Lithograph.Query.Ingestion.CsvText
import Lithograph.Query.Path.Idle
import Lithograph.Query.Path.Selector
import Lithograph.Query.Resources
import Lithograph.Query.Schema.EqualityTuple
import Lithograph.Query.Schema.GenerationRuns
import Lithograph.Query.SemanticIndex.HnswExhaustive
import Lithograph.Query.Transactions.BlindPrefixes
