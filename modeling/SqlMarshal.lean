import SqlMarshal.Bind.Statement
import SqlMarshal.Config
import SqlMarshal.Cursor.Reader
import SqlMarshal.Cursor.Table
import SqlMarshal.Query.Scanner
import SqlMarshal.Value.Document
import SqlMarshal.Proofs.Bind.MarkOrigins
import SqlMarshal.Proofs.Bind.Spans
import SqlMarshal.Proofs.Bind.Substitution
import SqlMarshal.Proofs.Cursor.CachedPlans
import SqlMarshal.Proofs.Row.Modification
import SqlMarshal.Proofs.Row.StagedStore
import SqlMarshal.Proofs.Query.Locality
import SqlMarshal.Proofs.Query.Segments
import SqlMarshal.Proofs.Query.Splitting
import SqlMarshal.Proofs.Row.LeafPaths
import SqlMarshal.Proofs.Row.OnePass
import SqlMarshal.Proofs.Row.SlotsRun
import SqlMarshal.Proofs.Query.MarkedText
import SqlMarshal.Proofs.Row.AbsentRecords
import SqlMarshal.Proofs.Row.Misfits
import SqlMarshal.Proofs.Row.PlanFits
import SqlMarshal.Proofs.Row.ColumnOrder
import SqlMarshal.Proofs.Bind.KeptRegions
import SqlMarshal.Proofs.Cursor.CallOrder
import SqlMarshal.Proofs.Cursor.RowByRow
import SqlMarshal.Proofs.Bind.ReadBack
import SqlMarshal.Proofs.Query.RegionGrammar
import SqlMarshal.Proofs.Query.ScannedPieces
import SqlMarshal.Proofs.Row.FirstLeaves
import SqlMarshal.Proofs.Row.FlattenChains
import SqlMarshal.Proofs.Query.NamingColons
import SqlMarshal.Proofs.Bind.RefusedQueries
import SqlMarshal.Proofs.Bind.RecordArguments
import SqlMarshal.Proofs.Bind.MapOrder
import SqlMarshal.Proofs.Bind.OtherDialects
import SqlMarshal.Proofs.Row.QuotedLabels
import SqlMarshal.Proofs.Value.Denotes
import SqlMarshal.Proofs.Row.RepeatedNames
import SqlMarshal.Proofs.Row.WholeNumbers
import SqlMarshal.Proofs.Value.WholeFloats
import SqlMarshal.Proofs.Row.TwoRoutes
import SqlMarshal.Proofs.Row.WireForms
import SqlMarshal.Proofs.Row.FirstFailure
import SqlMarshal.Proofs.Query.ScannerCalls
import SqlMarshal.Proofs.Ty.Descriptions
import SqlMarshal.Proofs.Row.OpenedPaths
