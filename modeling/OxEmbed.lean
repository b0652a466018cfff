import OxEmbed.Library.Machine
import OxEmbed.EvictablePool.Basic
import OxEmbed.Library.OrderedScan
import OxEmbed.EvictablePool.Ownership
import OxEmbed.EvictablePool.Safety
import OxEmbed.EvictablePool.Admission
import OxEmbed.EvictablePool.Recency
import OxEmbed.EvictablePool.ColdStart
import OxEmbed.Library.Pacing
import OxEmbed.EvictablePool.Eviction
import OxEmbed.Batcher.Basic
import OxEmbed.Batcher.Order
import OxEmbed.Batcher.Budget
import OxEmbed.Batcher.Transparency
import OxEmbed.Embeddings.Cache
import OxEmbed.Embeddings.Handler
import OxEmbed.Embeddings.Transparency
import OxEmbed.Ipc.Protocol
import OxEmbed.Ipc.Client
import OxEmbed.Ipc.Matching
import OxEmbed.Library.Counting
import OxEmbed.Ipc.Connections
import OxEmbed.Ipc.Replies
import OxEmbed.Ipc.Admission
import OxEmbed.Ipc.Traffic
import OxEmbed.Ipc.Overflow
import OxEmbed.Ipc.WireFormat
import OxEmbed.Ipc.FrameStream
import OxEmbed.Library.NdArray
import OxEmbed.Pooling.Tensors
import OxEmbed.Pooling.MeanPool
import OxEmbed.Pooling.Shape
import OxEmbed.Rerank.TokenCache
import OxEmbed.Reranker.Basic
import OxEmbed.Rerank.Tokenize
import OxEmbed.Rerank.Results
import OxEmbed.Library.TotalCmp
import OxEmbed.Rerank.Output
import OxEmbed.Library.LastSeen
import OxEmbed.Reranker.Discovery
import OxEmbed.Reranker.Paths
import OxEmbed.Library.Holes
import OxEmbed.Rerank.Handler
import OxEmbed.Rerank.Responses
import OxEmbed.Rerank.Concurrency
import OxEmbed.Splade.Encode
import OxEmbed.Splade.Modes
import OxEmbed.Splade.TopK
import OxEmbed.Splade.Responses
import OxEmbed.Library.Text
import OxEmbed.Library.Numeral
import OxEmbed.Library.FirstSeen
import OxEmbed.Library.UnixPath
import OxEmbed.Startup.Config
import OxEmbed.Startup.Grammar
import OxEmbed.Startup.Routing
import OxEmbed.OnnxCache.Basic
import OxEmbed.Startup.Settings
import OxEmbed.Startup.Deployment
import OxEmbed.OnnxCache.Failure
import OxEmbed.OnnxCache.Keys
import OxEmbed.Arena.Config
import OxEmbed.Embed.Plan
import OxEmbed.Embed.Subbatch
import OxEmbed.Embeddings.Paths
import OxEmbed.Library.PaddedGroups
import OxEmbed.Embed.Waste
import OxEmbed.Embed.Optimality
import OxEmbed.Batcher.Padding
import OxEmbed.Library.Termination
import OxEmbed.Batcher.Drain
import OxEmbed.Batcher.Backpressure
import OxEmbed.Batcher.CarryFlag
import OxEmbed.Batcher.Latency
import OxEmbed.Supervisor.Basic
import OxEmbed.Supervisor.Dispatch
import OxEmbed.Supervisor.Pool
import OxEmbed.Supervisor.Bookkeeping
import OxEmbed.Supervisor.Heartbeat
import OxEmbed.Supervisor.Wedge
import OxEmbed.Supervisor.Freshness
import OxEmbed.Supervisor.Restarts
import OxEmbed.Supervisor.Launch
import OxEmbed.Supervisor.Deadline
import OxEmbed.Supervisor.Window
import OxEmbed.Supervisor.Recovery
import OxEmbed.Supervisor.Replacement
import OxEmbed.Server.Lifecycle
import OxEmbed.Server.Calls
import OxEmbed.Server.Drain
import OxEmbed.Library.FirstSeen
