import RustafariDB.OrderedMaps
import RustafariDB.Multimaps
import RustafariDB.ListBuckets
import RustafariDB.Groupings
import RustafariDB.TextJoins
import RustafariDB.SelectiveFolds
import RustafariDB.StatefulPrograms
import RustafariDB.Interleavings
import RustafariDB.AnsweringMachines
import RustafariDB.AtomicReads
import RustafariDB.EmittedEvents
import RustafariDB.SaturatingSums
import RustafariDB.ClampedSums
import RustafariDB.ByteOrder
import RustafariDB.Utf8Order
import RustafariDB.RankedOrders
import RustafariDB.SortedLists
import RustafariDB.BucketSorts
import RustafariDB.TopRanks
import RustafariDB.LexicalOrders
import RustafariDB.BinaryFloats
import RustafariDB.LengthFrames
import RustafariDB.Overlays
import RustafariDB.Floats
import RustafariDB.FloatLaws
import RustafariDB.ExactNumbers
import RustafariDB.FloatBits
import RustafariDB.Values
import RustafariDB.Catalogs
import RustafariDB.RowStorage
import RustafariDB.ColumnarStorage
import RustafariDB.BTreeIndexing
import RustafariDB.WriteAheadLog
import RustafariDB.Pages
import RustafariDB.Plans
import RustafariDB.SqlSyntax
import RustafariDB.SqlPlanning
import RustafariDB.Predicates
import RustafariDB.ValueOrder
import RustafariDB.ConditionMeaning
import RustafariDB.NullComparisons
import RustafariDB.ClauseCoverage
import RustafariDB.NumberLiterals
import RustafariDB.DocumentFilters
import RustafariDB.FilterTranslation
import RustafariDB.NumericComparisons
import RustafariDB.OperatorObjects
import RustafariDB.FilterSplits
import RustafariDB.TableHistories
import RustafariDB.Collections
import RustafariDB.Documents
import RustafariDB.SelfQueries
import RustafariDB.DocumentColumns
import RustafariDB.Aggregates
import RustafariDB.Sessions
import RustafariDB.Execution
import RustafariDB.PlanEffects
import RustafariDB.QueryOperators
import RustafariDB.CatalogInvariants
import RustafariDB.SessionInvariants
import RustafariDB.StoredRows
import RustafariDB.SchemaConformance
import RustafariDB.StoreAgreement
import RustafariDB.ArrowBatches
import RustafariDB.InsertAtomicity
import RustafariDB.IndexLookups
import RustafariDB.NameBinding
import RustafariDB.CatalogPersistence
import RustafariDB.AggregateAgreement
import RustafariDB.FilteredAggregates
import RustafariDB.SelectLists
import RustafariDB.SelectedRows
import RustafariDB.GroupPartitions
import RustafariDB.PaddedResults
import RustafariDB.UnknownColumns
import RustafariDB.SortedResults
import RustafariDB.SortComparisons
import RustafariDB.ExtremeAgreement
import RustafariDB.ExactSums
import RustafariDB.RealExtremes
import RustafariDB.CountAgreement
import RustafariDB.SharedTables
import RustafariDB.QueryEffects
import RustafariDB.TableViews
import RustafariDB.InsertEffects
import RustafariDB.InsertColumns
import RustafariDB.TableRemoval
import RustafariDB.FreshTables
import RustafariDB.CatalogIds
import RustafariDB.ColumnAddresses
import RustafariDB.ColumnNames
import RustafariDB.CatalogMaps
import RustafariDB.IndexHistories
import RustafariDB.KeyOrders
import RustafariDB.InvertedIndexing
import RustafariDB.SearchedTexts
import RustafariDB.SearchRanking
import RustafariDB.UndoneInserts
import RustafariDB.LogReading
import RustafariDB.VectorIndexing
import RustafariDB.NearestVectors
import RustafariDB.LockSections
import RustafariDB.StatementShares
import RustafariDB.ConcurrentInserts
import RustafariDB.ConcurrentCounts
import RustafariDB.ConcurrentTables
import RustafariDB.ConcurrentReads
import RustafariDB.ConcurrentRows
import RustafariDB.CollectionCalls
import RustafariDB.RowAccounts
import RustafariDB.DocumentAccounts
import RustafariDB.OwnedTables
import RustafariDB.OwnedStatements
import RustafariDB.NamedTables
import RustafariDB.SqlExecution
import RustafariDB.NamedTableRefinement
import RustafariDB.TableIsolation
import RustafariDB.CatalogListings
import RustafariDB.Servers
import RustafariDB.ServerRestarts
import RustafariDB.Transcripts
import RustafariDB.Verdicts
import RustafariDB.ResultPages
import RustafariDB.ChunkSizes
import RustafariDB.InsertBatches
import RustafariDB.SeparateSessions
