import WeftDb.Arrow.Export
import WeftDb.Batching.IncrementalAgreement
import WeftDb.Batching.QueueSound
import WeftDb.Codec.Chimp128
import WeftDb.Codec.RandomAccess
import WeftDb.Correlations.LastWritten
import WeftDb.Durable.DirSyncRuns
import WeftDb.Extraction.PatternsSound
import WeftDb.Extraction.PercentileChecks
import WeftDb.Format.Rederived
import WeftDb.Frames.SeriesKeys
import WeftDb.Fsck.Harmless
import WeftDb.Index.CatalogCache
import WeftDb.Index.FrameText
import WeftDb.Index.SeriesBijection
import WeftDb.Ingest.ChunkSound
import WeftDb.Ingest.Preimage
import WeftDb.Legacy.ImportReads
import WeftDb.LineProtocol.PointsSound
import WeftDb.LineProtocol.RoundTrip
import WeftDb.Physical.Checkpoints
import WeftDb.Physical.Strides
import WeftDb.Physical.ValueRange
import WeftDb.Reduce.FillSound
import WeftDb.Reduce.Quantiles
import WeftDb.Reduce.Rebucket
import WeftDb.Segment.NewerWins
import WeftDb.Series.Selectors
import WeftDb.Series.UpsertKeys
import WeftDb.Shape.StraightLines
import WeftDb.Store.ChangeLog
import WeftDb.Store.ReadPins
import WeftDb.Store.ReconcilePass
import WeftDb.Store.ReissueRuns
import WeftDb.Store.RollupRuns
import WeftDb.Store.SquashRuns
