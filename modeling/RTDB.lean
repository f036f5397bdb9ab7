import RTDB.Api.FilterMeaning
import RTDB.Api.Inserts
import RTDB.Api.LoggedRecords
import RTDB.Api.ObjectLifecycle
import RTDB.Api.RateLimit
import RTDB.Api.SearchPoints
import RTDB.Api.StoredPoints
import RTDB.Auth.Revocation
import RTDB.Cluster.BatchAnswers
import RTDB.Cluster.BatchInserts
import RTDB.Cluster.BoundedReads
import RTDB.Cluster.Delivery
import RTDB.Cluster.Failover
import RTDB.Cluster.Fencing
import RTDB.Cluster.FollowerWrites
import RTDB.Cluster.HashRing
import RTDB.Cluster.Ownership
import RTDB.Cluster.Placement
import RTDB.Cluster.Replication
import RTDB.Cluster.ScatterGather
import RTDB.Cluster.Shards
import RTDB.Cluster.SilentNodes
import RTDB.Collection.AllOrNothing
import RTDB.Collection.Directories
import RTDB.Collection.Export
import RTDB.Collection.FilteredSearch
import RTDB.Collection.NextIds
import RTDB.Index.GraphInvariant
import RTDB.Index.HybridSearch
import RTDB.Index.Quantization
import RTDB.Index.Ranking
import RTDB.Index.Reach
import RTDB.Index.Strategies
import RTDB.Index.Transparency
import RTDB.Jepsen.Buffering
import RTDB.Jepsen.DirectClient
import RTDB.Jepsen.FlushBatch
import RTDB.Jepsen.HistoryAnalyzer
import RTDB.Jepsen.Linearizability
import RTDB.Jepsen.Serializability
import RTDB.Lib.Cut
import RTDB.Lib.Lines
import RTDB.Lib.Names
import RTDB.Lib.Paging
import RTDB.Migration.Accounting
import RTDB.Migration.BatchValidation
import RTDB.Migration.BinaryRoundTrip
import RTDB.Migration.CheckpointFiles
import RTDB.Migration.Clients
import RTDB.Migration.Completion
import RTDB.Migration.Conversion
import RTDB.Migration.CsvRoundTrip
import RTDB.Migration.DryRun
import RTDB.Migration.Extraction
import RTDB.Migration.Pages
import RTDB.Migration.Producer
import RTDB.Migration.Resume
import RTDB.Migration.Scroll
import RTDB.Migration.Standstill
import RTDB.Migration.Strategies
import RTDB.Migration.Stream
import RTDB.Migration.Transform
import RTDB.Migration.Types
import RTDB.Raft.Agreement
import RTDB.Raft.Application
import RTDB.Raft.CatchUp
import RTDB.Raft.CheckQuorum
import RTDB.Raft.Flight
import RTDB.Raft.Learners
import RTDB.Raft.MemStorage
import RTDB.Raft.Progress
import RTDB.Raft.Proposals
import RTDB.Raft.Reads
import RTDB.Raft.SnapshotInstall
import RTDB.Replication.Convergence
import RTDB.Replication.FailedOperations
import RTDB.Replication.Merging
import RTDB.Replication.OwnClocks
import RTDB.Smart.KnowledgeGraph
import RTDB.Storage.CheckedReads
import RTDB.Storage.Compaction
import RTDB.Storage.DiskAnn
import RTDB.Storage.FailedCompaction
import RTDB.Storage.Recovery
import RTDB.Storage.SizeAccounting
import RTDB.Storage.Snapshot
import RTDB.Storage.SnapshotChains
import RTDB.Storage.SnapshotRuns
import RTDB.Storage.TableLookup
import RTDB.Storage.TableRoundTrip
import RTDB.Storage.TornTail
import RTDB.Streaming.EventOrder
