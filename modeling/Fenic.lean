import Fenic.Aggregation.Aggregate
import Fenic.AsyncUdf.Buffer
import Fenic.AsyncUdf.ResultTypes
import Fenic.Catalog.Linearizability
import Fenic.Catalog.QualifiedNames
import Fenic.Chunking.Lossless
import Fenic.Chunking.MergeSplits
import Fenic.Chunking.SizeBound
import Fenic.Chunking.WindowsLossless
import Fenic.DatePatterns.Agreement
import Fenic.Dates.Arithmetic
import Fenic.Dates.TimeZones
import Fenic.Dtypes.JsonRoundTrip
import Fenic.Expressions.ArrayFunctions
import Fenic.Expressions.EqualitySoundness
import Fenic.Expressions.LiteralColumns
import Fenic.Expressions.PackedArguments
import Fenic.Files.DocLoaderRuns
import Fenic.Files.QueryDenotes
import Fenic.Jinja.Totality
import Fenic.Jinja.TypeSoundness
import Fenic.Json.JsonContains
import Fenic.LLMCache.BatchAgreement
import Fenic.Lineage.Agreement
import Fenic.Lineage.ExplodeRows
import Fenic.Lineage.Traversal
import Fenic.Markdown.CodeBlockSelection
import Fenic.Markdown.HeadingTree
import Fenic.Mcp.Binding
import Fenic.Mcp.BoundSchemas
import Fenic.Metrics.QueryMetrics
import Fenic.ModelClient.BackoffDelay
import Fenic.ModelClient.CompletionKey
import Fenic.ModelClient.ShutdownLossless
import Fenic.Optimizer.Boundaries
import Fenic.Optimizer.FilterOrder
import Fenic.RateLimit.AdaptiveAdmission
import Fenic.RateLimit.Settlement
import Fenic.Regexp.InstrAgreement
import Fenic.Regexp.LikeAgreement
import Fenic.Regexp.Split
import Fenic.ResponseFormat.Conformance
import Fenic.SemanticExamples.Atomicity
import Fenic.SemanticOperators.ClassifyLabels
import Fenic.SemanticOperators.ClusterRows
import Fenic.SemanticOperators.FilteredProduct
import Fenic.SemanticOperators.Parameters
import Fenic.SemanticOperators.PdfRows
import Fenic.SemanticOperators.ReducePacking
import Fenic.Serde.ScalarCodec
import Fenic.TextExtract.Totality
import Fenic.TextFunctions.Replace
import Fenic.TextFunctions.SplitPart
import Fenic.TextFunctions.TokenRatios
import Fenic.Transcript.GenericTiling
import Fenic.Transcript.Registry
import Fenic.Transcript.SrtRoundTrip
import Fenic.Transcript.WebVttRoundTrip
