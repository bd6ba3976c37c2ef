import RedAnns.Lib.Smallest
import RedAnns.Lib.Loop
import RedAnns.Lib.Beam
import RedAnns.Lib.Best
import RedAnns.Lib.Files
import RedAnns.Lib.Least
import RedAnns.Lib.CompletionQueue
import RedAnns.Lib.Tally
import RedAnns.Lib.Accumulate
import RedAnns.Lib.Assignment
import RedAnns.Lib.Cells
import RedAnns.Lib.Allocated
import RedAnns.Lib.Means
import RedAnns.Lib.RobinHood
import RedAnns.Lib.OnesComplement
import RedAnns.Core.Vertex
import RedAnns.Core.NeighborQueue
import RedAnns.Core.PoolContract
import RedAnns.Core.PoolIds
import RedAnns.Core.Distance
import RedAnns.Core.DistanceReads
import RedAnns.Core.PqTable
import RedAnns.Core.Chunking
import RedAnns.Core.ClosestCenters
import RedAnns.Core.NearestCenters
import RedAnns.Core.PivotSelection
import RedAnns.Core.Lloyd
import RedAnns.Core.CheckedClustering
import RedAnns.Core.Pivots
import RedAnns.Core.PqLookups
import RedAnns.Core.PqStorage
import RedAnns.Core.PivotFile
import RedAnns.Core.Compress
import RedAnns.Core.CachedReads
import RedAnns.Core.Quantization
import RedAnns.Core.RobinTables
import RedAnns.Index.Addresses
import RedAnns.Index.Readers
import RedAnns.Index.DataFiles
import RedAnns.Index.GraphFile
import RedAnns.Index.GraphWriter
import RedAnns.Index.Storage
import RedAnns.Index.Hungary
import RedAnns.Index.Matching
import RedAnns.Index.Partition
import RedAnns.Index.EntryPoints
import RedAnns.Store.Cache
import RedAnns.Store.Fetching
import RedAnns.Store.ReadVariants
import RedAnns.Store.ReadBalance
import RedAnns.Store.Hottest
import RedAnns.Store.Mem
import RedAnns.Store.MemLayout
import RedAnns.Store.ConnectionRounds
import RedAnns.Store.Handshake
import RedAnns.Search.Flat
import RedAnns.Search.Buckets
import RedAnns.Search.Distributed
import RedAnns.Search.Serving
import RedAnns.Search.Flight
import RedAnns.Search.Runs
import RedAnns.Search.Safety
import RedAnns.Search.Relaxation
import RedAnns.Search.Pruning
import RedAnns.Search.Estimates
import RedAnns.Search.Thresholds
import RedAnns.Search.Refinement
import RedAnns.Search.Limits
import RedAnns.Search.QueuePairs
import RedAnns.Search.Histories
import RedAnns.Search.VisitedTables
import RedAnns.Search.Answers
import RedAnns.Search.LearnGraph
import RedAnns.Search.SortedPool
import RedAnns.Search.Recall
import RedAnns.Search.BruteForce
import RedAnns.Search.MapReduce
import RedAnns.Schedule.Dynamic
import RedAnns.Schedule.Conservation
import RedAnns.Schedule.Once
import RedAnns.Schedule.FetchAdd
import RedAnns.Schedule.Report
import RedAnns.Schedule.Affinity
