import CodeStory.Embedding.ClientReplay
import CodeStory.Engine.Leases
import CodeStory.Embedding.IdleWindow
import CodeStory.Embedding.FrameCodec
import CodeStory.Stdio.LineFraming
import CodeStory.Stdio.Accounting
import CodeStory.Retrieval.GenerationGc
import CodeStory.Retrieval.CacheTransparency
import CodeStory.Graph.NodeCache
import CodeStory.Embedding.Cancellation
import CodeStory.Graph.PathRebase
import CodeStory.Store.EmbeddingBlob
import CodeStory.Engine.Fairness
import CodeStory.Retrieval.CacheRepresentation
import CodeStory.Graph.TrailSelection
import CodeStory.Search.WriterSafety
import CodeStory.Affected.WalkEvidence
import CodeStory.Affected.PairwiseIdentities
import CodeStory.Affected.Completeness
import CodeStory.Layout.Filters
import CodeStory.Retrieval.VectorSearch
import CodeStory.Retrieval.LexicalFingerprint
import CodeStory.Retrieval.RankerPrecedence
import CodeStory.Retrieval.SidecarFingerprint
import CodeStory.Retrieval.RetentionExactness
import CodeStory.Workspace.PolicyAgreement
import CodeStory.Graph.EdgeDigest
import CodeStory.Graph.FileRemoval
import CodeStory.Packet.ProtectedCitations
import CodeStory.Retrieval.CandidateMerge
import CodeStory.Query.Positional
import CodeStory.Stdio.ResourceUri
import CodeStory.Stdio.SessionIsolation
import CodeStory.Workspace.RemoteLossless
import CodeStory.Layout.Conservation
import CodeStory.Structural.GenericAnchors
import CodeStory.Structural.SqlCollection
import CodeStory.Indexer.ArtifactCollisions
import CodeStory.Engine.TokenBatches
import CodeStory.Graph.OverrideExactness
import CodeStory.Retrieval.StageBudgets
import CodeStory.Packet.BudgetHonesty
import CodeStory.Snippet.Buffering
import CodeStory.Refresh.Exclusion
import CodeStory.Structural.TemplateBlanking
import CodeStory.Embedding.Watchdog
import CodeStory.Retrieval.StageDrain
import CodeStory.Transport.Arbitration
